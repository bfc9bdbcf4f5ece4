import TypedContracts.Json.Printer
import TypedContracts.SExp.Printer

/-!
Every way in which an operation fails, as causes with their data, and the message of each.
-/
namespace TypedContracts

inductive GrammarFault where
  | typeNotList
  | primitiveWithoutName
  | adtWithoutConstructor
  | mapArity
  | unexpectedType
  | expectedIdent
  | identWithoutName
  | expectedLocalName
  | notList (what : String)
  | missingSection (tag : String)
  | wrongTag (tag : String)
  | withoutValue (tag : String)
  | expectedPair
  | malformedComponent
  | componentTypeNotAtom
  | malformedTypeEntry
  | unknownEntry
deriving DecidableEq, Repr

def GrammarFault.message : GrammarFault → String
  | .typeNotList => "Type node is not a list"
  | .primitiveWithoutName => "PrimType without a type name"
  | .adtWithoutConstructor => "ADT without a constructor"
  | .mapArity => "MapType needs a key and a value type"
  | .unexpectedType => "Encountered unexpected field type"
  | .expectedIdent => "Expected Ident"
  | .identWithoutName => "Ident without a name"
  | .expectedLocalName => "Expected SimpleLocal"
  | .notList what => what ++ " is not a list"
  | .missingSection tag => "Missing " ++ tag ++ " section"
  | .wrongTag tag => "Index 0 is not " ++ tag
  | .withoutValue tag => tag ++ " without a value"
  | .expectedPair => "Expected (Ident type) pair"
  | .malformedComponent => "Malformed component"
  | .componentTypeNotAtom => "comp_type is not an atom"
  | .malformedTypeEntry => "Malformed LibTyp"
  | .unknownEntry => "Unknown library entry"

inductive ArgumentFault where
  | invalidOverrides
  | unknownConstructor (name : String)
  | mapSlot (slot : String)
  | notScalar (slot : String) (found : Json)
  | notArray (count : Nat) (slot : String) (found : Json)
  | missing (index count : Nat) (slot : String)
deriving DecidableEq, Repr

def ArgumentFault.message : ArgumentFault → String
  | .invalidOverrides => "Invalid transaction parameters"
  | .unknownConstructor name => "Unknown ADT constructor " ++ name
  | .mapSlot slot => "Map values cannot be passed as arguments (" ++ slot ++ ")"
  | .notScalar slot found => "Expected a scalar for " ++ slot ++ ", got " ++ found.compact
  | .notArray count slot found =>
    "Expected an array of " ++ toString count ++ " arguments for " ++ slot ++ ", got " ++
      found.compact
  | .missing index count slot =>
    "Missing argument " ++ toString index ++ " of " ++ toString count ++ " for " ++ slot

inductive DecodeFault where
  | notScalar (type : String) (found : Json)
  | invalid (type : String) (text : String)
deriving DecidableEq, Repr

def DecodeFault.message : DecodeFault → String
  | .notScalar type found => "Expected a " ++ type ++ " value, found " ++ found.compact
  | .invalid type text => "Invalid " ++ type ++ " value '" ++ text ++ "'"

inductive StartFault where
  | notFound
  | nullCharacter
deriving DecidableEq, Repr

def StartFault.message : StartFault → String
  | .notFound => "No such file or directory (os error 2)"
  | .nullCharacter => "nul byte found in provided data"

inductive ToolchainFault where
  | notStarted (program : String) (fault : StartFault)
  | exited (program : String) (code : Nat) (detail : String)
  | libraryDirectoryRequired
  | reported (text : String)
deriving DecidableEq, Repr

def ToolchainFault.message : ToolchainFault → String
  | .notStarted program fault => "Failed to start " ++ program ++ ": " ++ fault.message
  | .exited program code detail =>
    program ++ " exited with exit status: " ++ toString code ++ ": " ++ detail
  | .libraryDirectoryRequired => "A stdlib directory is required to run the native checker"
  | .reported text => text

inductive FileFault where
  | notFound
  | absent
  | isDirectory
  | notDirectory
  | exists
  | notUtf8
  | tooManyLinks
  | nameTooLong
  | nullCharacter
deriving DecidableEq, Repr

def FileFault.message : FileFault → String
  | .notFound => "No such file or directory (os error 2)"
  | .absent => "file doesn't exist"
  | .isDirectory => "Is a directory (os error 21)"
  | .notDirectory => "Not a directory (os error 20)"
  | .exists => "File exists (os error 17)"
  | .notUtf8 => "stream did not contain valid UTF-8"
  | .tooManyLinks => "Too many levels of symbolic links (os error 40)"
  | .nameTooLong => "File name too long (os error 36)"
  | .nullCharacter => "file name contained an unexpected NUL byte"

inductive SettingsFault where
  | noAttempts
  | noImage
  | unreadable
deriving DecidableEq, Repr

def SettingsFault.detail : SettingsFault → String
  | .noAttempts => ": transactions.attempts must be at least 1"
  | .noImage => ": toolchain.docker_image must be set unless toolchain.native is true"
  | .unreadable => ""

inductive Error where
  | malformed (fault : SExp.Fault)
  | grammar (fault : GrammarFault) (node : SExp)
  | staleCache (slot : String)
  | callShape (target : String) (expected found : Nat)
  | argumentShape (fault : ArgumentFault)
  | missingContract (name : String)
  | unknownTransition (contract transition : String)
  | unknownField (contract field : String)
  | duplicateContractName (name first second : String)
  | toolchain (fault : ToolchainFault)
  | unnamedDeployment
  | decode (fault : DecodeFault)
  | pattern
  | remote (text : String)
  | file (path : String) (fault : FileFault)
  | json
  | settings (fault : SettingsFault)
deriving DecidableEq, Repr

def Error.message : Error → String
  | .malformed fault => "Syntax error: " ++ fault.message
  | .grammar fault node => "Grammar mismatch: " ++ fault.message ++ ": " ++ node.render
  | .staleCache slot =>
    "Parameters were incorrectly parsed for \x60" ++ slot ++
      "\x60. Try clearing your scilla.cache file."
  | .callShape target expected found =>
    "Expected to receive " ++ toString expected ++ " parameters for " ++ target ++ " but got " ++
      toString found
  | .argumentShape fault => "Argument shape error: " ++ fault.message
  | .missingContract name => "Scilla contract " ++ name ++ " doesn't exist."
  | .unknownTransition contract transition =>
    "Contract " ++ contract ++ " has no transition named " ++ transition
  | .unknownField contract field => "Contract " ++ contract ++ " has no field named " ++ field
  | .duplicateContractName name first second =>
    "Contract name " ++ name ++ " is declared by both " ++ first ++ " and " ++ second
  | .toolchain fault => "Toolchain error: " ++ fault.message
  | .unnamedDeployment =>
    "Deployment error: You must specify the contract name in order to deploy it."
  | .decode fault => "Decode error: " ++ fault.message
  | .pattern => "Invalid source pattern"
  | .remote text => text
  | .file path fault => path ++ ": " ++ fault.message
  | .json => "JSON error"
  | .settings fault => "Configuration error" ++ fault.detail

abbrev Result (α : Type) := Except Error α

namespace Result
variable {α : Type}

def ofOption (error : Error) : Option α → Result α
  | some value => .ok value
  | none => .error error

end Result
end TypedContracts

import TypedContracts.Model.Basic
import TypedContracts.Wrapper.SnakeCase

/-!
A typed wrapper for a contract, as source text: for each transition a method and its variant with
overrides, for each field and each deployment parameter an accessor. An item whose names are taken
is left out and noted. Which items there are is decided before any text is written.
-/
namespace TypedContracts.Wrapper

def keywords : List String :=
  ["as", "async", "await", "box", "break", "const", "continue", "crate", "dyn", "else", "enum",
   "extern", "false", "fn", "for", "if", "impl", "in", "let", "loop", "match", "mod", "move",
   "mut", "pub", "ref", "return", "self", "static", "struct", "super", "trait", "true", "type",
   "unsafe", "use", "where", "while", "yield"]

def reservedKeywords : List String := ["self", "super", "crate"]

def rawMark : String := "r#"

def identifier (name : String) : String :=
  let snake := snakeCase name
  if snake ∈ reservedKeywords then snake ++ "_"
  else if snake ∈ keywords then rawMark ++ snake
  else snake

def withoutMarks : List Char → List Char
  | 'r' :: '#' :: rest => withoutMarks rest
  | cs => cs

def overridesName (method : String) : String :=
  String.ofList (withoutMarks method.toList) ++ "_with"

inductive Reader where
  | field
  | initial
deriving DecidableEq, Repr

def Reader.name : Reader → String
  | .field => "read_field"
  | .initial => "read_init_param"

inductive Item where
  | call (method withOverrides : String) (component : Component)
  | accessor (method : String) (reader : Reader) (slot : Field)
  | callClash (name : String)
  | accessorClash (name : String)
deriving DecidableEq, Repr

def fixedNames : List String := ["new", "contract"]

structure Plan where
  taken : List String
  items : List Item

/-- The method's name is taken first, and stays taken when the second name clashes. -/
def Plan.addCall (p : Plan) (c : Component) : Plan :=
  let method := identifier c.name
  let withOverrides := overridesName method
  if method ∈ p.taken then { p with items := p.items ++ [.callClash c.name] }
  else if withOverrides ∈ method :: p.taken then
    ⟨method :: p.taken, p.items ++ [.callClash c.name]⟩
  else ⟨withOverrides :: method :: p.taken, p.items ++ [.call method withOverrides c]⟩

def Plan.addAccessor (p : Plan) (reader : Reader) (slot : Field) : Plan :=
  let method := identifier slot.name
  if method ∈ p.taken then { p with items := p.items ++ [.accessorClash slot.name] }
  else ⟨method :: p.taken, p.items ++ [.accessor method reader slot]⟩

/-- Transitions come first, then fields, then deployment parameters. -/
def plan (c : Contract) : Plan :=
  let calls := (c.components.filter (!·.isProcedure)).foldl Plan.addCall ⟨fixedNames, []⟩
  let fields := c.fields.foldl (·.addAccessor .field) calls
  c.paramList.foldl (·.addAccessor .initial) fields

def commaSeparated (parts : List String) : String := String.intercalate ", " parts

def parameterList (params : List Field) : String :=
  commaSeparated (params.map fun p => identifier p.name ++ ": impl Into<Value>")

def argumentList (params : List Field) : String :=
  commaSeparated (params.map fun p => identifier p.name ++ ".into()")

def signatureText (params : List Field) : String :=
  commaSeparated (params.map fun p => p.name ++ ": " ++ p.type)

def followed (parameters : String) : String :=
  if parameters.isEmpty then "" else ", " ++ parameters

def callText (method withOverrides : String) (c : Component) : String :=
  let parameters := followed (parameterList c.params)
  let arguments := argumentList c.params
  "\n    /// \x60" ++ c.name ++ "(" ++ signatureText c.params ++ ")\x60\n" ++
  "    pub fn " ++ method ++ "(&self" ++ parameters ++ ") -> Result<Transaction> \x7b\n" ++
  "        self.contract.invoke(self.ctx, \"" ++ c.name ++ "\", vec![" ++ arguments ++ "])\n" ++
  "    \x7d\n" ++
  "\n    pub fn " ++ withOverrides ++ "(&self" ++ parameters ++
    ", tx: &TxOverrides) -> Result<Transaction> \x7b\n" ++
  "        self.contract.invoke_with(self.ctx, \"" ++ c.name ++ "\", vec![" ++ arguments ++
    "], tx)\n" ++
  "    \x7d\n"

def accessorText (method : String) (reader : Reader) (slot : Field) : String :=
  "\n    /// \x60" ++ slot.name ++ " : " ++ slot.type ++ "\x60\n" ++
  "    pub fn " ++ method ++ "(&self) -> Result<DecodedValue> \x7b\n" ++
  "        self.contract." ++ reader.name ++ "(self.ctx, \"" ++ slot.name ++ "\")\n" ++
  "    \x7d\n"

def Item.text : Item → String
  | .call method withOverrides c => callText method withOverrides c
  | .accessor method reader slot => accessorText method reader slot
  | .callClash name => "\n    // transition " ++ name ++ " skipped: name clash\n"
  | .accessorClash name => "\n    // accessor " ++ name ++ " skipped: name clash\n"

def headerLines (name : String) : List String :=
  ["// Generated bindings for the " ++ name ++ " Scilla contract.",
    "// Regenerate with \x60scilla-cli bindgen\x60; do not edit by hand.",
    "",
    "#![allow(dead_code)]",
    "",
    "use scilla_core::serde_json::Value;",
    "use scilla_core::\x7bChainClient, DecodedValue, Result, ScillaContext, ScillaContract, " ++
      "Transaction, TxOverrides\x7d;",
    "",
    "pub struct " ++ name ++ "<'a, C: ChainClient> \x7b",
    "    ctx: &'a ScillaContext<C>,",
    "    contract: &'a ScillaContract,",
    "\x7d",
    "",
    "impl<'a, C: ChainClient> " ++ name ++ "<'a, C> \x7b",
    "    pub fn new(ctx: &'a ScillaContext<C>, contract: &'a ScillaContract) -> Self \x7b",
    "        Self \x7b ctx, contract \x7d",
    "    \x7d",
    "",
    "    pub fn contract(&self) -> &ScillaContract \x7b",
    "        self.contract",
    "    \x7d"]

def headerText (name : String) : String := String.join ((headerLines name).map (· ++ "\n"))

def sourceText (c : Contract) : String :=
  headerText c.name ++ String.join ((plan c).items.map Item.text) ++ "\x7d\n"

end TypedContracts.Wrapper

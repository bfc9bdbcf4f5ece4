import TypedContracts.Error
import TypedContracts.Json.Record
import TypedContracts.Text.Blank

/-!
Settings with their defaults, the stored form of each section and the rules that whole settings
must satisfy. A section has no undeclared members, and every member may be missing.
-/
namespace TypedContracts
open Json

structure NetworkSettings where
  url : String
  chainId : Nat
deriving DecidableEq, Repr

structure TransactionSettings where
  attempts : Nat
  timeout : Nat
  gasPrice : Nat
  gasLimit : Nat
deriving DecidableEq, Repr

structure ToolchainSettings where
  native : Bool
  image : String
  libraryDirectory : Option String
deriving DecidableEq, Repr

structure SourceSettings where
  directory : String
  cacheFile : String
deriving DecidableEq, Repr

structure Settings where
  network : NetworkSettings
  transactions : TransactionSettings
  toolchain : ToolchainSettings
  sources : SourceSettings
deriving DecidableEq, Repr

def NetworkSettings.default : NetworkSettings := ⟨"http://localhost:5555", 111⟩

def TransactionSettings.default : TransactionSettings := ⟨10, 1000, 2000, 50000⟩

def ToolchainSettings.default : ToolchainSettings := ⟨false, "zilliqa/scilla:v0.13.3", none⟩

def SourceSettings.default : SourceSettings := ⟨"contracts", "artifacts/scilla.cache"⟩

def Settings.default : Settings := ⟨.default, .default, .default, .default⟩

structure SettingsForm (α : Type) where
  slots? : List String → α → Option (List (Slot α))
  text? : α → Option String
  word32? : α → Option Nat
  word64? : α → Option Nat
  bool? : α → Option Bool
  isNull : α → Bool

def jsonForm : SettingsForm Json := ⟨strictSlots?, asText?, word32?, word64?, bool?, Json.isNull⟩

variable {α : Type}

namespace NetworkSettings

def keys : List String := ["url", "chain_id"]

def read? (form : SettingsForm α) (a : α) : Option NetworkSettings := do
  match ← form.slots? keys a with
  | [url, chainId] =>
    some ⟨← url.orDefault default.url form.text?,
      ← chainId.orDefault default.chainId form.word32?⟩
  | _ => none

def toJson (s : NetworkSettings) : Json :=
  .object [("url", .text s.url), ("chain_id", .integer s.chainId)]

end NetworkSettings

namespace TransactionSettings

def keys : List String := ["attempts", "timeout_ms", "gas_price_li", "gas_limit"]

def read? (form : SettingsForm α) (a : α) : Option TransactionSettings := do
  match ← form.slots? keys a with
  | [attempts, timeout, gasPrice, gasLimit] =>
    some ⟨← attempts.orDefault default.attempts form.word32?,
      ← timeout.orDefault default.timeout form.word64?,
      ← gasPrice.orDefault default.gasPrice form.word64?,
      ← gasLimit.orDefault default.gasLimit form.word64?⟩
  | _ => none

def toJson (s : TransactionSettings) : Json :=
  .object [("attempts", .integer s.attempts), ("timeout_ms", .integer s.timeout),
    ("gas_price_li", .integer s.gasPrice), ("gas_limit", .integer s.gasLimit)]

end TransactionSettings

namespace ToolchainSettings

def keys : List String := ["native", "docker_image", "stdlib_dir"]

def read? (form : SettingsForm α) (a : α) : Option ToolchainSettings := do
  match ← form.slots? keys a with
  | [native, image, directory] =>
    some ⟨← native.orDefault default.native form.bool?,
      ← image.orDefault default.image form.text?,
      ← directory.omissible form.isNull form.text?⟩
  | _ => none

def ofJson? (j : Json) : Option ToolchainSettings := read? jsonForm j

def toJson (s : ToolchainSettings) : Json :=
  .object [("native", .bool s.native), ("docker_image", .text s.image),
    ("stdlib_dir", (s.libraryDirectory.map .text).getD .null)]

end ToolchainSettings

namespace SourceSettings

def keys : List String := ["dir", "cache_file"]

def read? (form : SettingsForm α) (a : α) : Option SourceSettings := do
  match ← form.slots? keys a with
  | [directory, cacheFile] =>
    some ⟨← directory.orDefault default.directory form.text?,
      ← cacheFile.orDefault default.cacheFile form.text?⟩
  | _ => none

def toJson (s : SourceSettings) : Json :=
  .object [("dir", .text s.directory), ("cache_file", .text s.cacheFile)]

end SourceSettings

namespace Settings

def keys : List String := ["network", "transactions", "toolchain", "contracts"]

def read? (form : SettingsForm α) (a : α) : Option Settings := do
  match ← form.slots? keys a with
  | [network, transactions, toolchain, sources] =>
    some ⟨← network.orDefault .default (NetworkSettings.read? form),
      ← transactions.orDefault .default (TransactionSettings.read? form),
      ← toolchain.orDefault .default (ToolchainSettings.read? form),
      ← sources.orDefault .default (SourceSettings.read? form)⟩
  | _ => none

def ofJson? (j : Json) : Option Settings := read? jsonForm j

def toJson (s : Settings) : Json :=
  .object [("network", s.network.toJson), ("transactions", s.transactions.toJson),
    ("toolchain", s.toolchain.toJson), ("contracts", s.sources.toJson)]

def validate (s : Settings) : Result Unit :=
  if s.transactions.attempts = 0 then .error (.settings .noAttempts)
  else if !s.toolchain.native && Text.isBlankText s.toolchain.image then
    .error (.settings .noImage)
  else .ok ()

end Settings
end TypedContracts

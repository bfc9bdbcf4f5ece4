import TypedContracts.Command.Run
import TypedContracts.Files.Difference

/-!
The command line on real files. The files below the current directory and those that an argument
names are read first, and what the command wrote is written last. No other program is started from
here: to a command the toolchain's programs are missing.
-/
namespace TypedContracts.Disk

def loadDepth : Nat := 64

def loadNode : Nat → String → IO (Option Node)
  | 0, _ => return none
  | depth + 1, path => do
    try
      let found ← ((← IO.currentDir) / path).readDir
      let entries ← found.toList.foldlM (fun entries e => do
        match ← loadNode depth (Path.join path e.fileName) with
        | some node => return Json.insertMember e.fileName node entries
        | none => return entries) []
      return some (.directory entries)
    catch _ =>
      try return some (.file (← IO.FS.readBinFile path).toList)
      catch _ => return none

def addPath (files : Files) (path : String) : IO Files := do
  match ← loadNode loadDepth path with
  | none => return files
  | some node =>
    let above := match Path.parent? path with
      | some directory => (files.ensureDirectory directory).1
      | none => files
    match above.resolve path with
    | .ok place => return above.put place.names (some node)
    | .error _ => return files

def loadFiles (words : List String) : IO Files := do
  let current ← IO.currentDir
  let here := current.toString
  let names := (Path.segments here).filter (· != "")
  let files ← addPath ⟨.directory [], names⟩ here
  (words.filter Path.isAbsolute).foldlM addPath files

def loadEnvironment : IO Environment := do
  try
    let bytes ← IO.FS.readBinFile "/proc/self/environ"
    return Environment.ofChars (Text.Utf8.decodeLossy bytes.toList)
  catch _ => return []

def store (path : String) (content : List UInt8) : IO Unit := do
  match Path.parent? path with
  | some directory => IO.FS.createDirAll directory
  | none => pure ()
  IO.FS.writeBinFile path (ByteArray.mk content.toArray)

end TypedContracts.Disk

open TypedContracts Disk

def main (words : List String) : IO UInt32 := do
  let files ← loadFiles words
  let done := Invocation.runLine words files (← loadEnvironment) fun _ _ => none
  (done.files.writtenSince files).forM fun w => store w.1 w.2
  IO.print done.output
  IO.eprint done.errors
  return done.code.toUInt32

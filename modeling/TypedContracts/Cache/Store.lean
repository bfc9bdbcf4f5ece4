import TypedContracts.Cache.Entry
import TypedContracts.Digest.Sha256
import TypedContracts.Source.Model

/-!
The cache of known contracts: entries by source path, kept in a file. An update asks the compiler
only for sources whose hash is not that of their entry; a source that fails has no entry.
-/
namespace TypedContracts
open Json

structure Cache where
  file : String
  entries : Entries
deriving DecidableEq, Repr

structure Report where
  parsed : List String
  unchanged : List String
  failed : List String
  removed : List String
deriving DecidableEq, Repr

namespace Report

def empty : Report := ⟨[], [], [], []⟩

def changed (r : Report) : Bool := !r.parsed.isEmpty || !r.removed.isEmpty

end Report

def fileHash (files : Files) (path : String) : Result String :=
  (files.readBytes path).map Digest.contentHash

namespace Cache

def load (files : Files) (file : String) : Result Cache := do
  if files.exists? file then
    let text ← files.readText file
    let entries ← Result.ofOption .json (Entries.parse? text)
    return ⟨file, entries⟩
  else return ⟨file, []⟩

/-- An update under way: what holds so far and the paths that the compiler was given. -/
structure Pass where
  entries : Entries
  report : Report
  asked : List String

def removeEntry (key : String) (entries : Entries) : Entries := entries.filter (·.1 != key)

namespace Pass

def keep (p : Pass) (path : String) : Pass :=
  { p with report := { p.report with unchanged := p.report.unchanged ++ [path] } }

def accept (p : Pass) (path hash : String) (contract : Contract) : Pass :=
  { p with
    entries := insertMember path ⟨hash, path, contract⟩ p.entries
    report := { p.report with parsed := p.report.parsed ++ [path] } }

def reject (p : Pass) (path : String) : Pass :=
  let removed := if (p.entries.lookup path).isSome then [path] else []
  { p with
    entries := removeEntry path p.entries
    report := { p.report with
      failed := p.report.failed ++ [path]
      removed := p.report.removed ++ removed } }

def visit (files : Files) (compiler : Compiler) (p : Pass) (path hash : String) : Pass :=
  if (p.entries.lookup path).map (·.hash) = some hash then p.keep path
  else
    let p := { p with asked := p.asked ++ Source.asked files path }
    match Source.model files compiler path with
    | .ok contract => p.accept path hash contract
    | .error _ => p.reject path

/-- The sources in order; one that cannot be read ends the pass. -/
def scan (files : Files) (compiler : Compiler) (p : Pass) : List String → Pass × Result Unit
  | [] => (p, .ok ())
  | path :: rest =>
    match fileHash files path with
    | .error e => (p, .error e)
    | .ok hash => scan files compiler (p.visit files compiler path hash) rest

def prune (p : Pass) (seen : List String) : Pass :=
  let gone := (p.entries.map (·.1)).filter (!seen.contains ·)
  { p with
    entries := p.entries.filter (seen.contains ·.1)
    report := { p.report with removed := p.report.removed ++ gone } }

end Pass

structure Outcome where
  cache : Cache
  asked : List String
  report : Result Report

def update (c : Cache) (files : Files) (compiler : Compiler) (root : String) : Outcome :=
  match files.canonical root >>= Source.search files with
  | .error e => ⟨c, [], .error e⟩
  | .ok sources =>
    let (pass, done) := Pass.scan files compiler ⟨c.entries, .empty, []⟩ sources
    match done with
    | .error e => ⟨{ c with entries := pass.entries }, pass.asked, .error e⟩
    | .ok () =>
      let pass := pass.prune sources
      ⟨{ c with entries := pass.entries }, pass.asked, .ok pass.report⟩

def ensureDirectory (c : Cache) (files : Files) : Files × Result Unit :=
  match Path.parent? c.file with
  | none => (files, .ok ())
  | some directory =>
    if directory.isEmpty then (files, .ok ()) else files.ensureDirectory directory

def save (c : Cache) (files : Files) : Files × Result Unit :=
  let (files, made) := c.ensureDirectory files
  match made with
  | .error e => (files, .error e)
  | .ok () =>
    match files.writeText c.file c.entries.toJson.pretty with
    | .ok written => (written, .ok ())
    | .error e => (files, .error e)

def refresh (c : Cache) (files : Files) (compiler : Compiler) (root : String) : Outcome × Files :=
  let outcome := c.update files compiler root
  match outcome.report with
  | .error _ => (outcome, files)
  | .ok report =>
    if report.changed || !files.exists? c.file then
      match outcome.cache.save files with
      | (saved, .ok ()) => (outcome, saved)
      | (saved, .error e) => ({ outcome with report := .error e }, saved)
    else (outcome, files)

end Cache
end TypedContracts

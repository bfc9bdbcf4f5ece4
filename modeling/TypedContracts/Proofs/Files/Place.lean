import Mathlib
import TypedContracts.Files.Tree
import TypedContracts.Proofs.Text.Utf8

/-!
What a path gives. Wherever a path leads, what is there is what stands behind the names it led to.
-/
namespace TypedContracts.Files

theorem follow_place (root : Node) (making : Bool) (links : Nat) (here rest : List String)
    {place : Place} (led : follow root making links here rest = .ok place) :
    place.node = root.lookup? place.names := by
  fun_induction follow root making links here rest
  case case1 =>
    cases led
    rfl
  case case2 ih | case3 ih | case4 ih | case9 ih | case13 ih => exact ih led
  case case5 | case6 | case8 | case11 | case12 => cases led
  case case7 absent _ =>
    cases led
    exact absent.symm
  case case10 found _ =>
    cases led
    exact found.symm

theorem node_place {files : Files} {path : String} {names : List String} {node : Node}
    (led : files.node path = .ok (names, node)) : files.root.lookup? names = some node := by
  unfold Files.node resolve walk at led
  cases checked : checkPath path with
  | error fault => simp [checked, bind, Except.bind] at led
  | ok _ =>
    simp only [checked, bind, Except.bind] at led
    split at led
    · rename_i place
      cases led
      exact (follow_place _ _ _ _ _ place).symm
    · cases led
    · cases led

theorem node_top (files : Files) : files.node "/" = .ok ([], files.root) := by
  have steps : steps "/" = [""] := by decide
  have absolute : Path.isAbsolute "/" = true := by decide
  have checked : checkPath "/" = .ok () := by rfl
  simp [node, resolve, walk, checked, origin, absolute, steps, follow, Node.lookup?, bind,
    Except.bind]

theorem canonical_top (files : Files) : files.canonical "/" = .ok "/" := by
  have empty : textOfNames [] = "/" := by decide
  simp [canonical, node_top, empty]

theorem children_top {files : Files} {entries : List (String × Node)}
    (root : files.root = .directory entries) : files.children "/" = entries.map (·.1) := by
  simp [children, node_top, root]

theorem directories_top {files : Files} {entries : List (String × Node)}
    (root : files.root = .directory entries) :
    files.directories "/" = (entries.filter (·.2.isDirectory)).map (·.1) := by
  simp [directories, node_top, root]

theorem children_file {files : Files} {path : String} {names : List String} {bytes : List UInt8}
    (there : files.node path = .ok (names, .file bytes)) : files.children path = [] := by
  simp [children, there]

theorem content_file {files : Files} {path : String} {names : List String} {bytes : List UInt8}
    (there : files.node path = .ok (names, .file bytes)) : files.content path = .ok bytes := by
  rw [content, there]

theorem readBytes_file {files : Files} {path : String} {names : List String} {bytes : List UInt8}
    (there : files.node path = .ok (names, .file bytes)) : files.readBytes path = .ok bytes := by
  rw [readBytes, content_file there]
  rfl

theorem readBytes_place {files : Files} {path : String} {bytes : List UInt8}
    (holds : files.readBytes path = .ok bytes) :
    files.exists? path = true ∧ ∃ names, files.root.lookup? names = some (.file bytes) := by
  unfold readBytes content at holds
  unfold exists?
  split at holds
  · rename_i names content node
    cases holds
    rw [node]
    exact ⟨rfl, names, node_place node⟩
  · cases holds
  · cases holds
  · cases holds

theorem readText_bytes {files : Files} {path text : String}
    (holds : files.readBytes path = .ok (Text.Utf8.bytesOf text)) :
    files.readText path = .ok text := by
  simp [readText, holds, Text.Utf8.decode_bytesOf, bind, Except.bind, pure, Except.pure]

theorem readText_ok_iff {files : Files} {path text : String} :
    files.readText path = .ok text ↔ files.readBytes path = .ok (Text.Utf8.bytesOf text) := by
  constructor
  · intro read
    unfold readText at read
    cases holds : files.readBytes path with
    | error fault =>
      rw [holds] at read
      cases read
    | ok bytes =>
      rw [holds] at read
      simp only [bind, Except.bind] at read
      split at read
      · rename_i cs decoded
        cases read
        rw [Text.Utf8.bytesOf_eq_encode, String.toList_ofList, Text.Utf8.decode_eq_some_iff.mp decoded]
      · cases read
  · exact readText_bytes

end TypedContracts.Files

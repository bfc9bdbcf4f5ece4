import TypedContracts.Proofs.Text.Lines
import TypedContracts.Files.Path

/-!
Paths that lead on. Another name behind a path is one more segment and one more component, and the
order by component is a total one that looks at what follows a common start.
-/
namespace TypedContracts.Path
open TypedContracts.Text

structure PlainName (name : String) : Prop where
  named : name ≠ ""
  notHere : name ≠ "."
  notAbove : name ≠ ".."
  noSlash : '/' ∉ name.toList

theorem segments_eq (path : String) :
    segments path = (path.toList.splitOn '/').map String.ofList := by
  rw [segments, splitAt_eq_splitOnP]
  rfl

theorem segments_ne_nil (path : String) : segments path ≠ [] := by
  simp [segments_eq, List.splitOn_ne_nil]

theorem segments_slash (path rest : String) :
    segments (path ++ "/" ++ rest) = segments path ++ segments rest := by
  have text : (path ++ "/" ++ rest).toList = path.toList ++ '/' :: rest.toList := by simp
  rw [segments_eq, segments_eq, segments_eq, text, List.splitOn_append_cons_self, List.map_append]

theorem segments_plain {name : String} (noSlash : '/' ∉ name.toList) : segments name = [name] := by
  simp [segments_eq, List.splitOn_eq_singleton noSlash]

theorem endsInSlash_iff (path : String) : endsInSlash path = true ↔ ∃ front, path = front ++ "/" := by
  have text : ∀ front : List Char, path.toList = front ++ ['/'] ↔ path = String.ofList front ++ "/" := by
    intro front
    rw [← String.toList_inj, String.toList_append, String.toList_ofList]
    rfl
  rw [endsInSlash, beq_iff_eq, List.getLast?_eq_some_iff]
  constructor
  · rintro ⟨front, same⟩
    exact ⟨_, (text front).mp same⟩
  · rintro ⟨front, same⟩
    exact ⟨front.toList, (text _).mpr (by rw [same, String.ofList_toList])⟩

theorem segments_join {path name : String} (present : path ≠ "") (noSlash : '/' ∉ name.toList) :
    ∃ above, segments (join path name) = above ++ [name] ∧ above ≠ [] ∧
      (segments path = above ∧ endsInSlash path = false ∨
        segments path = above ++ [""] ∧ endsInSlash path = true) := by
  have notEmpty : path.isEmpty = false := by simpa using present
  cases slash : endsInSlash path with
  | false =>
    refine ⟨segments path, ?_, segments_ne_nil path, .inl ⟨rfl, rfl⟩⟩
    simp [join, notEmpty, slash, segments_slash, segments_plain noSlash]
  | true =>
    obtain ⟨front, rfl⟩ := (endsInSlash_iff path).mp slash
    have single : segments "" = [""] := by decide
    refine ⟨segments front, ?_, segments_ne_nil front, .inr ⟨?_, rfl⟩⟩
    · simp [join, slash, segments_slash, segments_plain noSlash]
    · simpa [single] using segments_slash front ""

theorem segments_empty {path : String} (same : segments path = [""]) : path = "" := by
  rw [segments_eq] at same
  have pieces : path.toList.splitOn '/' = [[]] := by
    simpa [List.map_eq_singleton_iff] using same
  have whole : ['/'].intercalate (path.toList.splitOn '/') = path.toList :=
    List.intercalate_splitOn '/'
  rw [pieces] at whole
  exact String.toList_eq_nil_iff.mp whole.symm

theorem components_of_segments {path first : String} {rest : List String} (present : path ≠ "")
    (all : segments path = first :: rest) :
    components path = first :: rest.filter fun s => s != "" && s != "." := by
  have notEmpty := mt segments_empty present
  rw [all] at notEmpty
  rw [components, all]
  split
  · contradiction
  · contradiction
  · rename_i same
    cases same
    rfl

theorem components_join {path name : String} (present : path ≠ "") (plain : PlainName name) :
    components (join path name) = components path ++ [name] := by
  obtain ⟨above, joined, some, whole⟩ := segments_join present plain.noSlash
  obtain ⟨first, rest, rfl⟩ := List.exists_cons_of_ne_nil some
  have joinedPresent : join path name ≠ "" := by
    intro empty
    have none : segments "" = [""] := by decide
    rw [empty, none] at joined
    simp at joined
  have after := components_of_segments joinedPresent joined
  have before : components path = first :: rest.filter fun s => s != "" && s != "." := by
    rcases whole with ⟨same, _⟩ | ⟨same, _⟩
    · exact components_of_segments present same
    · simpa using components_of_segments present same
  rw [after, before]
  simp [plain.named, plain.notHere]

theorem fileName_last {path name : String} {above : List String}
    (last : components path = above ++ [name]) (plain : PlainName name) :
    fileName? path = some name := by
  rw [fileName?, last, List.getLast?_concat]
  split
  · rename_i same
    exact absurd (Option.some.inj same) plain.named
  · rename_i same
    exact absurd (Option.some.inj same) plain.notHere
  · rename_i same
    exact absurd (Option.some.inj same) plain.notAbove
  · rfl

theorem precedes_iff (a b : List String) : precedes a b = true ↔ a ≤ b := by
  rw [← not_lt]
  induction a generalizing b with
  | nil => simp [precedes]
  | cons s a ih =>
    cases b with
    | nil => simp [precedes]
    | cons t b =>
      rw [List.cons_lt_cons_iff, precedes]
      rcases lt_trichotomy s t with less | rfl | greater
      · simp [less, less.not_gt, less.ne']
      · simp [ih]
      · simp [greater, greater.not_gt]

theorem append_lt_append_iff (start a b : List String) : start ++ a < start ++ b ↔ a < b := by
  induction start with
  | nil => rfl
  | cons s start ih => simpa [List.cons_lt_cons_iff] using ih

def Ascending (paths : List String) : Prop :=
  paths.Pairwise fun a b => components a < components b

theorem Ascending.nodup {paths : List String} (ascending : Ascending paths) : paths.Nodup := by
  refine List.Pairwise.imp ?_ ascending
  rintro a b less rfl
  exact lt_irrefl _ less

end TypedContracts.Path

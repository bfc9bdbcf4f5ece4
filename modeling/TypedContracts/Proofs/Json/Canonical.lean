import Mathlib
import TypedContracts.Json.Record
import TypedContracts.Proofs.Json.Members

/-!
Objects in canonical form. Their members are sorted by key, and a key has the last of the values that
were written under it.
-/
namespace TypedContracts.Json

theorem canonicalMembers_sorted (ms : List (String × Json)) {done : List (String × Json)}
    (sorted : Sorted done) : Sorted (canonicalMembers ms done) := by
  induction ms generalizing done with
  | nil => simpa only [canonicalMembers] using sorted
  | cons m ms ih =>
    rw [canonicalMembers]
    exact ih (insertMember_sorted sorted)

theorem lookup_canonicalMembers (ms done : List (String × Json)) (key : String) :
    (canonicalMembers ms done).lookup key =
      ((valuesOf key ms).getLast?.map canonical).or (done.lookup key) := by
  induction ms generalizing done with
  | nil => simp [canonicalMembers, valuesOf]
  | cons m ms ih =>
    obtain ⟨k, v⟩ := m
    rw [canonicalMembers, ih, lookup_insertMember]
    unfold valuesOf
    by_cases here : k = key
    · subst here
      rw [if_pos rfl, List.filter_cons_of_pos (by simp), List.map_cons, List.getLast?_cons]
      cases ((ms.filter fun m => m.1 == k).map (·.2)).getLast? <;> rfl
    · rw [if_neg (Ne.symm here), List.filter_cons_of_neg (by simpa using here)]

theorem member_of_canonicalMembers {ms done : List (String × Json)} {m : String × Json}
    (member : m ∈ canonicalMembers ms done) :
    (∃ n ∈ ms, m = (n.1, n.2.canonical)) ∨ m ∈ done := by
  induction ms generalizing done with
  | nil => exact .inr (by simpa only [canonicalMembers] using member)
  | cons n ms ih =>
    rw [canonicalMembers] at member
    rcases ih member with ⟨other, later, eq⟩ | inserted
    · exact .inl ⟨other, List.mem_cons_of_mem n later, eq⟩
    · rcases member_of_insert inserted with here | before
      · exact .inl ⟨n, List.mem_cons_self, here⟩
      · exact .inr before

end TypedContracts.Json

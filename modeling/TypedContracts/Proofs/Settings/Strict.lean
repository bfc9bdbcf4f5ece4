import Mathlib
import TypedContracts.Settings.Layers
import TypedContracts.Proofs.Json.Canonical
import TypedContracts.Proofs.Json.Form

/-!
A file of settings in JSON, read in two ways: strictly, as JSON that a caller hands over, and in a
tree of layers, where texts, numbers and truth values convert. What the strict reading gives, the
layered one gives too, as long as the integers fit a signed word.
-/
namespace TypedContracts
open Json

/-- Whatever is read from a value is also read from each related one. -/
structure SettingsForm.Refines {α β : Type} (form : SettingsForm α) (other : SettingsForm β)
    (R : α → β → Prop) : Prop where
  slots {a : α} {b : β} (related : R a b) {keys : List String} {slots : List (Slot α)}
    (here : form.slots? keys a = some slots) :
    ∃ others, other.slots? keys b = some others ∧ List.Forall₂ (Slot.Related R) slots others
  text {a : α} {b : β} (related : R a b) : Below (form.text? a) (other.text? b)
  word32 {a : α} {b : β} (related : R a b) : Below (form.word32? a) (other.word32? b)
  word64 {a : α} {b : β} (related : R a b) : Below (form.word64? a) (other.word64? b)
  bool {a : α} {b : β} (related : R a b) : Below (form.bool? a) (other.bool? b)
  isNull {a : α} {b : β} (related : R a b) : form.isNull a = other.isNull b

section Below
variable {α β γ : Type} {form : SettingsForm α} {other : SettingsForm β} {R : α → β → Prop}
  {a : α} {b : β}

theorem SettingsForm.Refines.record (refines : form.Refines other R) (related : R a b)
    (keys : List String) {k : List (Slot α) → Option γ} {l : List (Slot β) → Option γ}
    (each : ∀ slots others, List.Forall₂ (Slot.Related R) slots others →
      Below (k slots) (l others)) :
    Below (form.slots? keys a >>= k) (other.slots? keys b >>= l) := by
  intro value here
  obtain ⟨slots, left, right⟩ := Option.bind_eq_some_iff.mp here
  obtain ⟨others, otherLeft, all⟩ := refines.slots related left
  exact Option.bind_eq_some_iff.mpr ⟨others, otherLeft, each slots others all value right⟩

theorem network_below (refines : form.Refines other R) (related : R a b) :
    Below (NetworkSettings.read? form a) (NetworkSettings.read? other b) := by
  unfold NetworkSettings.read?
  apply refines.record related
  intro slots others all
  rcases all with _ | ⟨url, _ | ⟨chainId, _ | _⟩⟩
  · exact .none _
  · exact .none _
  · apply (Slot.orDefault_below url _ fun _ _ => refines.text).bind
    intro url
    exact (Slot.orDefault_below chainId _ fun _ _ => refines.word32).bind fun _ => .refl _
  · exact .none _

theorem transactions_below (refines : form.Refines other R) (related : R a b) :
    Below (TransactionSettings.read? form a) (TransactionSettings.read? other b) := by
  unfold TransactionSettings.read?
  apply refines.record related
  intro slots others all
  rcases all with _ | ⟨attempts, _ | ⟨timeout, _ | ⟨gasPrice, _ | ⟨gasLimit, _ | _⟩⟩⟩⟩
  · exact .none _
  · exact .none _
  · exact .none _
  · exact .none _
  · apply (Slot.orDefault_below attempts _ fun _ _ => refines.word32).bind
    intro attempts
    apply (Slot.orDefault_below timeout _ fun _ _ => refines.word64).bind
    intro timeout
    apply (Slot.orDefault_below gasPrice _ fun _ _ => refines.word64).bind
    intro gasPrice
    exact (Slot.orDefault_below gasLimit _ fun _ _ => refines.word64).bind fun _ => .refl _
  · exact .none _

theorem toolchain_below (refines : form.Refines other R) (related : R a b) :
    Below (ToolchainSettings.read? form a) (ToolchainSettings.read? other b) := by
  unfold ToolchainSettings.read?
  apply refines.record related
  intro slots others all
  rcases all with _ | ⟨native, _ | ⟨image, _ | ⟨directory, _ | _⟩⟩⟩
  · exact .none _
  · exact .none _
  · exact .none _
  · apply (Slot.orDefault_below native _ fun _ _ => refines.bool).bind
    intro native
    apply (Slot.orDefault_below image _ fun _ _ => refines.text).bind
    intro image
    exact (Slot.omissible_below directory (fun _ _ => refines.isNull)
      fun _ _ => refines.text).bind fun _ => .refl _
  · exact .none _

theorem sources_below (refines : form.Refines other R) (related : R a b) :
    Below (SourceSettings.read? form a) (SourceSettings.read? other b) := by
  unfold SourceSettings.read?
  apply refines.record related
  intro slots others all
  rcases all with _ | ⟨directory, _ | ⟨cacheFile, _ | _⟩⟩
  · exact .none _
  · exact .none _
  · apply (Slot.orDefault_below directory _ fun _ _ => refines.text).bind
    intro directory
    exact (Slot.orDefault_below cacheFile _ fun _ _ => refines.text).bind fun _ => .refl _
  · exact .none _

theorem settings_below (refines : form.Refines other R) (related : R a b) :
    Below (Settings.read? form a) (Settings.read? other b) := by
  unfold Settings.read?
  apply refines.record related
  intro slots others all
  rcases all with _ | ⟨network, _ | ⟨transactions, _ | ⟨toolchain, _ | ⟨sources, _ | _⟩⟩⟩⟩
  · exact .none _
  · exact .none _
  · exact .none _
  · exact .none _
  · apply (Slot.orDefault_below network _ fun _ _ => network_below refines).bind
    intro network
    apply (Slot.orDefault_below transactions _ fun _ _ => transactions_below refines).bind
    intro transactions
    apply (Slot.orDefault_below toolchain _ fun _ _ => toolchain_below refines).bind
    intro toolchain
    exact (Slot.orDefault_below sources _ fun _ _ => sources_below refines).bind fun _ => .refl _
  · exact .none _

end Below

namespace Json

mutual
def Signed : Json → Prop
  | .integer n => Word.holdsSigned Word.count64 n = true
  | .array items => SignedItems items
  | .object ms => SignedMembers ms
  | _ => True
def SignedItems : List Json → Prop
  | [] => True
  | item :: rest => Signed item ∧ SignedItems rest
def SignedMembers : List (String × Json) → Prop
  | [] => True
  | (_, value) :: rest => Signed value ∧ SignedMembers rest
end

theorem signedItems_iff (items : List Json) : SignedItems items ↔ ∀ item ∈ items, Signed item := by
  induction items with
  | nil => simp [SignedItems]
  | cons item items ih => simp [SignedItems, ih]

theorem signedMembers_iff (ms : List (String × Json)) :
    SignedMembers ms ↔ ∀ m ∈ ms, Signed m.2 := by
  induction ms with
  | nil => simp [SignedMembers]
  | cons m ms ih => simp [SignedMembers, ih]

end Json

namespace Setting

def OfFile (j : Json) (s : Setting) : Prop := j.Signed ∧ s = ofJson j.canonical

theorem ofJsonMembers_map (ms : List (String × Json)) :
    ofJsonMembers ms = ms.map fun m => (m.1, ofJson m.2) := by
  induction ms with
  | nil => rfl
  | cons m ms ih => rw [ofJsonMembers, ih, List.map_cons]

theorem ofJsonItems_map (items : List Json) : ofJsonItems items = items.map ofJson := by
  induction items with
  | nil => rfl
  | cons item items ih => rw [ofJsonItems, ih, List.map_cons]

theorem canonicalItems_map (items : List Json) : canonicalItems items = items.map canonical := by
  induction items with
  | nil => rfl
  | cons item items ih => rw [canonicalItems, ih, List.map_cons]

theorem ofInteger_signed {i : Int} (signed : Word.holdsSigned Word.count64 i = true) :
    ofInteger i = .integer i :=
  if_pos signed

theorem word64_signed {n : Nat} {i : Int} (signed : Word.holdsSigned Word.count64 i = true)
    {bound : Nat} (small : bound ≤ Word.count64) (word : Word.natural? bound i = some n) :
    (ofInteger i).word64? = some n ∧ n < bound := by
  unfold Word.natural? at word
  split at word
  · rename_i within
    cases word
    have fits : 0 ≤ i ∧ i < Word.count64 := by omega
    rw [ofInteger_signed signed, word64?, Word.natural?, if_pos fits]
    exact ⟨rfl, by omega⟩
  · cases word

def tableOf (ms : List (String × Json)) : List (String × Setting) :=
  ofJsonMembers (canonicalMembers ms [])

theorem object_table (ms : List (String × Json)) :
    ofJson (Json.object ms).canonical = .table (tableOf ms) := rfl

theorem tableOf_sorted (ms : List (String × Json)) : Sorted (tableOf ms) := by
  rw [tableOf, ofJsonMembers_map]
  exact List.pairwise_map.mpr (canonicalMembers_sorted ms .nil)

theorem tableOf_lookup (ms : List (String × Json)) (key : String) :
    (tableOf ms).lookup key = (valuesOf key ms).getLast?.map fun j => ofJson j.canonical := by
  rw [tableOf, ofJsonMembers_map, lookup_mapped, lookup_canonicalMembers, List.lookup_nil,
    Option.or_none, Option.map_map]
  rfl

theorem tableOf_keys {ms : List (String × Json)} {keys : List String}
    (known : onlyKeys keys ms = true) {m : String × Setting} (member : m ∈ tableOf ms) :
    m.1 ∈ keys := by
  rw [tableOf, ofJsonMembers_map] at member
  obtain ⟨n, inside, rfl⟩ := List.mem_map.mp member
  rcases member_of_canonicalMembers inside with ⟨o, written, rfl⟩ | nowhere
  · simpa using List.all_eq_true.mp known o written
  · cases nowhere

theorem tableOf_slot {ms : List (String × Json)} (signed : SignedMembers ms) {key : String}
    {slot : Slot Json} (here : memberSlot? ms key = some slot) :
    ∃ other, memberSlot? (tableOf ms) key = some other ∧ Slot.Related OfFile slot other := by
  have once : ((tableOf ms).map (·.1)).Nodup :=
    List.pairwise_map.mpr (List.Pairwise.imp key_ne_of_lt (tableOf_sorted ms))
  refine ⟨_, memberSlot_once once key, ?_⟩
  rw [tableOf_lookup]
  unfold memberSlot? at here
  split at here
  · rename_i absent
    cases here
    rw [absent]
    exact .absent
  · rename_i value alone
    cases here
    rw [alone]
    have written : value ∈ valuesOf key ms := by simp [alone]
    obtain ⟨m, member, rfl⟩ := List.mem_map.mp written
    exact .given ⟨(signedMembers_iff ms).mp signed m (List.mem_filter.mp member).1, rfl⟩
  · cases here

theorem tableOf_slots {ms : List (String × Json)} (signed : SignedMembers ms) {keys : List String}
    {slots : List (Slot Json)} (here : memberSlots? keys ms = some slots) :
    ∃ others, memberSlots? keys (tableOf ms) = some others ∧
      List.Forall₂ (Slot.Related OfFile) slots others := by
  induction keys generalizing slots with
  | nil =>
    cases here
    exact ⟨[], rfl, .nil⟩
  | cons key keys ih =>
    simp only [memberSlots?, List.mapM_cons] at here ih ⊢
    obtain ⟨slot, first, here⟩ := Option.bind_eq_some_iff.mp here
    obtain ⟨later, rest, eq⟩ := Option.bind_eq_some_iff.mp here
    obtain ⟨other, otherFirst, one⟩ := tableOf_slot signed first
    obtain ⟨others, otherRest, many⟩ := ih rest
    cases eq
    exact ⟨other :: others, by simp [otherFirst, otherRest], .cons one many⟩

theorem items_related {items : List Json} (signed : SignedItems items) :
    List.Forall₂ OfFile items (ofJsonItems (canonicalItems items)) := by
  rw [ofJsonItems_map, canonicalItems_map, List.map_map]
  refine List.forall₂_map_right_iff.mpr (List.forall₂_same.mpr fun item member => ?_)
  exact ⟨(signedItems_iff items).mp signed item member, rfl⟩

theorem slots_refine {j : Json} {s : Setting} (related : OfFile j s) {keys : List String}
    {slots : List (Slot Json)} (here : strictSlots? keys j = some slots) :
    ∃ others, slots? keys s = some others ∧ List.Forall₂ (Slot.Related OfFile) slots others := by
  obtain ⟨signed, rfl⟩ := related
  cases j with
  | object ms =>
    simp only [strictSlots?] at here
    split at here
    · rename_i known
      have only : onlyKeys keys (tableOf ms) = true :=
        List.all_eq_true.mpr fun m member => by simpa using tableOf_keys known member
      obtain ⟨others, found, all⟩ := tableOf_slots signed here
      exact ⟨others, by rw [object_table, slots?, if_pos only, found], all⟩
    · cases here
  | array items =>
    have few : ¬keys.length < items.length := by
      intro many
      simp [strictSlots?, itemSlots?, many] at here
    have whole : (ofJsonItems (canonicalItems items)).take keys.length =
        ofJsonItems (canonicalItems items) := by
      refine List.take_of_length_le ?_
      rw [ofJsonItems_map, canonicalItems_map, List.length_map, List.length_map]
      omega
    change ∃ others, itemSlots? keys.length (List.take keys.length _) = _ ∧ _
    rw [whole]
    exact itemSlots_related (items_related signed) keys.length here
  | null => cases here
  | bool b => cases here
  | integer n => cases here
  | binary x => cases here
  | text t => cases here

theorem file_refines : jsonForm.Refines form OfFile where
  slots := slots_refine
  text := by
    rintro j s ⟨_, rfl⟩ value here
    cases j <;> cases here
    rfl
  word32 := by
    rintro j s ⟨signed, rfl⟩ value here
    cases j with
    | integer i =>
      obtain ⟨word, below⟩ := word64_signed signed (by decide) here
      change ((ofInteger i).word64?.map (· % Word.count32)) = _
      rw [word, Option.map_some, Nat.mod_eq_of_lt below]
    | null | bool _ | binary _ | text _ | array _ | object _ => cases here
  word64 := by
    rintro j s ⟨signed, rfl⟩ value here
    cases j with
    | integer i => exact (word64_signed signed (le_refl _) here).1
    | null | bool _ | binary _ | text _ | array _ | object _ => cases here
  bool := by
    rintro j s ⟨_, rfl⟩ value here
    cases j <;> cases here
    rfl
  isNull := by
    rintro j s ⟨signed, rfl⟩
    cases j with
    | integer i =>
      have whole : ofJson (Json.integer i).canonical = .integer i := ofInteger_signed signed
      rw [whole]
      rfl
    | null | bool _ | binary _ | text _ | array _ | object _ => rfl

mutual
def Ordered : Setting → Prop
  | .table ms => Sorted ms ∧ OrderedMembers ms
  | _ => True
def OrderedMembers : List (String × Setting) → Prop
  | [] => True
  | (_, value) :: rest => Ordered value ∧ OrderedMembers rest
end

mutual
theorem overlaid_ordered : (s : Setting) → s.Ordered → overlaid .emptyTable s = s
  | .null, _ => rfl
  | .bool _, _ => rfl
  | .integer _, _ => rfl
  | .real _, _ => rfl
  | .text _, _ => rfl
  | .items _, _ => rfl
  | .table ms, ordered => overlaidMembers_ordered ms ordered.2 [] ordered.1
theorem overlaidMembers_ordered : (ms : List (String × Setting)) → OrderedMembers ms →
    ∀ done, Sorted (done ++ ms) → overlaidMembers (.table done) ms = .table (done ++ ms)
  | [], _, done, _ => by rw [List.append_nil, overlaidMembers]
  | (key, value) :: rest, ⟨first, later⟩, done, sorted => by
    have last : ∀ m ∈ done, m.1 < key := by
      obtain ⟨_, _, across⟩ := List.pairwise_append.mp sorted
      exact fun m member => across m member (key, value) List.mem_cons_self
    have fresh : done.lookup key = none := by
      refine List.lookup_eq_none_iff.mpr fun m member => ?_
      simpa using (key_ne_of_lt (last m member)).symm
    have whole : Sorted ((done ++ [(key, value)]) ++ rest) := by simpa using sorted
    rw [overlaidMembers, member?, members, fresh, Option.getD_none, overlaid_ordered value first,
      withMember, members, insertMember_last last, overlaidMembers_ordered rest later _ whole,
      List.append_assoc, List.singleton_append]
end

theorem putAll_layer {ms : List (String × Setting)}
    (plain : ∀ m ∈ ms, KeyPath.ofChars m.1.toList = [.key m.1]) (s : Setting) :
    putAll (layer (.table ms)) s = overlaidMembers s ms := by
  induction ms generalizing s with
  | nil => rfl
  | cons m ms ih =>
    obtain ⟨first, rest⟩ := List.forall_mem_cons.mp plain
    have path : layer (.table (m :: ms)) = ([.key m.1], m.2) :: layer (.table ms) := by
      rw [← first]
      rfl
    rw [path, putAll, List.foldl_cons, ← putAll, ih rest]
    rfl

theorem layer_ordered {ms : List (String × Setting)} (ordered : Ordered (.table ms))
    (plain : ∀ m ∈ ms, KeyPath.ofChars m.1.toList = [.key m.1]) :
    putAll (layer (.table ms)) .emptyTable = .table ms :=
  (putAll_layer plain _).trans (overlaidMembers_ordered ms ordered.2 [] ordered.1)

theorem orderedMembers_iff (ms : List (String × Setting)) :
    OrderedMembers ms ↔ ∀ m ∈ ms, Ordered m.2 := by
  induction ms with
  | nil => simp [OrderedMembers]
  | cons m ms ih => simp [OrderedMembers, ih]

mutual
theorem canonical_ordered : (j : Json) → Ordered (ofJson j.canonical)
  | .null => trivial
  | .bool _ => trivial
  | .integer i => by
    change Ordered (ofInteger i)
    unfold ofInteger
    split <;> trivial
  | .binary _ => trivial
  | .text _ => trivial
  | .array _ => trivial
  | .object ms => by
    have values := values_ordered ms
    refine ⟨tableOf_sorted ms, (orderedMembers_iff _).mpr fun m member => ?_⟩
    rw [ofJsonMembers_map] at member
    obtain ⟨n, inside, rfl⟩ := List.mem_map.mp member
    rcases member_of_canonicalMembers inside with ⟨o, written, rfl⟩ | nowhere
    · exact values o written
    · cases nowhere
theorem values_ordered : (ms : List (String × Json)) → ∀ m ∈ ms, Ordered (ofJson m.2.canonical)
  | [], _, member => nomatch member
  | (key, j) :: ms, m, member => by
    rcases List.mem_cons.mp member with rfl | later
    · exact canonical_ordered j
    · exact values_ordered ms m later
end

end Setting

/-- A file that a strict reading takes for settings gives those settings, where no other layer is
above it. -/
theorem Settings.file_read {ms : List (String × Json)} {s : Settings}
    (signed : (Json.object ms).Signed) (strict : Settings.ofJson? (.object ms) = some s) :
    Settings.read? Setting.form (Setting.putAll
      (Setting.ofJson (Json.object ms).canonical).layer .emptyTable) = some s := by
  have known : onlyKeys Settings.keys ms = true := by
    by_contra unknown
    simp [Settings.ofJson?, Settings.read?, jsonForm, strictSlots?, unknown] at strict
  have plain : ∀ key ∈ Settings.keys, KeyPath.ofChars key.toList = [.key key] := by decide
  have layered : Setting.putAll (Setting.layer (.table (Setting.tableOf ms))) .emptyTable =
      .table (Setting.tableOf ms) :=
    Setting.layer_ordered (Setting.canonical_ordered (.object ms))
      fun m member => plain m.1 (Setting.tableOf_keys known member)
  rw [Setting.object_table, layered]
  exact settings_below Setting.file_refines ⟨signed, rfl⟩ s strict

end TypedContracts

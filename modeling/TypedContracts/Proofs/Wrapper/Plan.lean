import TypedContracts.Proofs.Result
import TypedContracts.Proofs.Wrapper.Names

/-!
What a wrapper is made of. Each step of the plan adds one item, and the names of an item are taken by
no earlier one, so all names of a wrapper are different.
-/
namespace TypedContracts.Wrapper

def Reader.slots (c : Contract) : Reader → List Field
  | .field => c.fields
  | .initial => c.paramList

/-- What a wrapper has an item for. -/
inductive Subject where
  | transition (component : Component)
  | slot (reader : Reader) (slot : Field)
deriving DecidableEq, Repr

def subjects (c : Contract) : List Subject :=
  (c.components.filter (!·.isProcedure)).map .transition ++ c.fields.map (.slot .field) ++
    c.paramList.map (.slot .initial)

namespace Subject

def needs : Subject → List String
  | .transition t => [identifier t.name, overridesName (identifier t.name)]
  | .slot _ f => [identifier f.name]

def whole : Subject → Item
  | .transition t => .call (identifier t.name) (overridesName (identifier t.name)) t
  | .slot reader f => .accessor (identifier f.name) reader f

def note : Subject → Item
  | .transition t => .callClash t.name
  | .slot _ f => .accessorClash f.name

inductive Answered : Subject → Item → Prop where
  | whole (s : Subject) : Answered s s.whole
  | note (s : Subject) : Answered s s.note

end Subject

/-- The name that a transition left out keeps. -/
def Item.withheld : Item → List String
  | .call _ _ _ => []
  | .accessor _ _ _ => []
  | .callClash name => [identifier name]
  | .accessorClash _ => []

theorem note_withheld (s : Subject) : ∀ n ∈ s.note.withheld, n ∈ s.needs := by
  intro n member
  cases s with
  | transition t =>
    rw [List.mem_singleton.mp member]
    exact List.mem_cons_self
  | slot reader slot => cases member

theorem needs_distinct (s : Subject) : s.needs.Nodup := by
  cases s with
  | transition t => simp [Subject.needs, (overridesName_ne (identifier t.name)).symm]
  | slot reader slot => exact List.nodup_singleton _

def Plan.add (p : Plan) : Subject → Plan
  | .transition t => p.addCall t
  | .slot reader slot => p.addAccessor reader slot

/-- Of the two names, the first is taken before the second is found taken. -/
theorem addCall_cases (p : Plan) (t : Component) :
    ((∃ n ∈ (Subject.transition t).needs, n ∈ p.taken) ∧
      (p.addCall t).items = p.items ++ [(Subject.transition t).note] ∧
      ∀ n, n ∈ (p.addCall t).taken ↔
        n ∈ p.taken ∨ n ∈ (Subject.transition t).note.withheld) ∨
    ((∀ n ∈ (Subject.transition t).needs, n ∉ p.taken) ∧
      (p.addCall t).items = p.items ++ [(Subject.transition t).whole] ∧
      ∀ n, n ∈ (p.addCall t).taken ↔ n ∈ p.taken ∨ n ∈ (Subject.transition t).needs) := by
  have different := overridesName_ne (identifier t.name)
  simp only [Plan.addCall, Subject.needs, Subject.note, Subject.whole, Item.withheld]
  generalize identifier t.name = method at *
  generalize overridesName method = second at *
  by_cases taken : method ∈ p.taken
  · left
    rw [if_pos taken]
    refine ⟨⟨method, List.mem_cons_self, taken⟩, rfl, ?_⟩
    intro n
    constructor
    · exact .inl
    · intro either
      rcases either with before | here
      · exact before
      · rwa [List.mem_singleton.mp here]
  · rw [if_neg taken]
    by_cases clash : second ∈ method :: p.taken
    · left
      rw [if_pos clash]
      have before : second ∈ p.taken := (List.mem_cons.mp clash).resolve_left different
      refine ⟨⟨second, by simp, before⟩, rfl, ?_⟩
      intro n
      rw [List.mem_cons, List.mem_singleton, or_comm]
    · right
      rw [if_neg clash]
      refine ⟨?_, rfl, ?_⟩
      · intro n member
        rcases List.mem_pair.mp member with here | here
        · rwa [here]
        · rw [here]
          exact fun before => clash (List.mem_cons_of_mem method before)
      · intro n
        simp only [List.mem_cons, List.not_mem_nil, or_false]
        tauto

theorem addAccessor_cases (p : Plan) (reader : Reader) (slot : Field) :
    (identifier slot.name ∈ p.taken ∧
      (p.addAccessor reader slot).items = p.items ++ [(Subject.slot reader slot).note] ∧
      (p.addAccessor reader slot).taken = p.taken) ∨
    (identifier slot.name ∉ p.taken ∧
      (p.addAccessor reader slot).items = p.items ++ [(Subject.slot reader slot).whole] ∧
      (p.addAccessor reader slot).taken = identifier slot.name :: p.taken) := by
  simp only [Plan.addAccessor]
  by_cases taken : identifier slot.name ∈ p.taken
  · rw [if_pos taken]
    exact .inl ⟨taken, rfl, rfl⟩
  · rw [if_neg taken]
    exact .inr ⟨taken, rfl, rfl⟩

theorem add_cases (p : Plan) (s : Subject) :
    ((∃ n ∈ s.needs, n ∈ p.taken) ∧ (p.add s).items = p.items ++ [s.note] ∧
      ∀ n, n ∈ (p.add s).taken ↔ n ∈ p.taken ∨ n ∈ s.note.withheld) ∨
    ((∀ n ∈ s.needs, n ∉ p.taken) ∧ (p.add s).items = p.items ++ [s.whole] ∧
      ∀ n, n ∈ (p.add s).taken ↔ n ∈ p.taken ∨ n ∈ s.needs) := by
  cases s with
  | transition t => exact addCall_cases p t
  | slot reader slot =>
    rcases addAccessor_cases p reader slot with ⟨clash, items, taken⟩ | ⟨free, items, taken⟩
    · refine .inl ⟨⟨_, List.mem_cons_self, clash⟩, items, ?_⟩
      intro n
      rw [Plan.add, taken]
      exact ⟨.inl, fun either => either.resolve_right List.not_mem_nil⟩
    · refine .inr ⟨List.forall_mem_singleton.mpr free, items, ?_⟩
      intro n
      rw [Plan.add, taken, List.mem_cons, Subject.needs, List.mem_singleton, or_comm]

theorem plan_eq_added (c : Contract) : plan c = (subjects c).foldl Plan.add ⟨fixedNames, []⟩ := by
  simp only [subjects, List.foldl_append, List.foldl_map]
  rfl

/-- What holds before the first step and is kept by each holds of the whole plan. -/
theorem plan_induction {motive : Plan → Prop} (c : Contract) (start : motive ⟨fixedNames, []⟩)
    (step : ∀ p s, motive p → s ∈ subjects c → motive (p.add s)) : motive (plan c) := by
  rw [plan_eq_added]
  exact List.foldlRecOn _ _ start fun p before s member => step p s before member

theorem add_answered (p : Plan) (s : Subject) :
    ∃ item, (p.add s).items = p.items ++ [item] ∧ s.Answered item := by
  rcases add_cases p s with ⟨_, items, _⟩ | ⟨_, items, _⟩
  · exact ⟨s.note, items, .note s⟩
  · exact ⟨s.whole, items, .whole s⟩

theorem plan_answered (c : Contract) :
    List.Forall₂ Subject.Answered (subjects c) (plan c).items := by
  rw [plan_eq_added]
  induction subjects c using List.reverseRecOn with
  | nil => exact .nil
  | append_singleton ss s ih =>
    rw [List.foldl_append, List.foldl_cons, List.foldl_nil]
    obtain ⟨item, items, answered⟩ := add_answered (ss.foldl Plan.add ⟨fixedNames, []⟩) s
    rw [items]
    exact List.rel_append ih (.cons answered .nil)

inductive Item.From (c : Contract) : Item → Prop where
  | call {t : Component} (declared : t ∈ c.components) (outside : t.isProcedure = false) :
      From c (.call (identifier t.name) (overridesName (identifier t.name)) t)
  | callClash {t : Component} (declared : t ∈ c.components) (outside : t.isProcedure = false) :
      From c (.callClash t.name)
  | accessor {reader : Reader} {slot : Field} (declared : slot ∈ reader.slots c) :
      From c (.accessor (identifier slot.name) reader slot)
  | accessorClash {reader : Reader} {slot : Field} (declared : slot ∈ reader.slots c) :
      From c (.accessorClash slot.name)

inductive Subject.From (c : Contract) : Subject → Prop where
  | transition {t : Component} (declared : t ∈ c.components) (outside : t.isProcedure = false) :
      From c (.transition t)
  | slot {reader : Reader} {slot : Field} (declared : slot ∈ reader.slots c) :
      From c (.slot reader slot)

theorem subject_from {c : Contract} {s : Subject} (member : s ∈ subjects c) : s.From c := by
  rcases List.mem_append.mp member with former | initial
  · rcases List.mem_append.mp former with call | field
    · obtain ⟨t, among, same⟩ := List.mem_map.mp call
      obtain ⟨declared, outside⟩ := List.mem_filter.mp among
      rw [← same]
      exact .transition declared (by simpa using outside)
    · obtain ⟨slot, declared, same⟩ := List.mem_map.mp field
      rw [← same]
      exact .slot declared
  · obtain ⟨slot, declared, same⟩ := List.mem_map.mp initial
    rw [← same]
    exact .slot declared

theorem plan_from (c : Contract) : ∀ item ∈ (plan c).items, item.From c := by
  intro item member
  obtain ⟨s, among, answered⟩ := Result.forall₂_member (plan_answered c) member
  cases answered with
  | whole =>
    cases subject_from among with
    | transition declared outside => exact .call declared outside
    | slot declared => exact .accessor declared
  | note =>
    cases subject_from among with
    | transition declared outside => exact .callClash declared outside
    | slot declared => exact .accessorClash declared

def Item.names : Item → List String
  | .call method withOverrides _ => [method, withOverrides]
  | .accessor method _ _ => [method]
  | .callClash _ => []
  | .accessorClash _ => []

def Plan.names (p : Plan) : List String := fixedNames ++ p.items.flatMap Item.names

structure Plan.Kept (p : Plan) : Prop where
  distinct : p.names.Nodup
  within : ∀ n ∈ p.names, n ∈ p.taken
  settled : ∀ n ∈ p.taken, Settled n

theorem kept_added {p q : Plan} (kept : p.Kept) (item : Item) (items : q.items = p.items ++ [item])
    (new : ∀ n ∈ item.names, n ∉ p.taken) (distinct : item.names.Nodup)
    (grown : ∀ n, n ∈ p.taken ∨ n ∈ item.names → n ∈ q.taken)
    (settled : ∀ n ∈ q.taken, Settled n) : q.Kept := by
  have names : q.names = p.names ++ item.names := by
    simp [Plan.names, items]
  refine ⟨?_, ?_, settled⟩
  · rw [names]
    refine kept.distinct.append distinct fun n before now => ?_
    exact new n now (kept.within n before)
  · intro n member
    rw [names] at member
    rcases List.mem_append.mp member with before | now
    · exact grown n (.inl (kept.within n before))
    · exact grown n (.inr now)

theorem start_kept : Plan.Kept ⟨fixedNames, []⟩ where
  distinct := by decide
  within := by simp [Plan.names]
  settled := fixedNames_settled

theorem add_kept {p : Plan} (kept : p.Kept) {s : Subject} (settled : ∀ n ∈ s.needs, Settled n) :
    (p.add s).Kept := by
  rcases add_cases p s with ⟨_, items, taken⟩ | ⟨free, items, taken⟩
  · have nothing : s.note.names = [] := by cases s <;> rfl
    refine kept_added kept s.note items ?_ ?_ ?_ ?_
    · simp [nothing]
    · simp [nothing]
    · simp +contextual [nothing, taken]
    · intro n member
      rcases (taken n).mp member with before | withheld
      · exact kept.settled n before
      · exact settled n (note_withheld s n withheld)
  · have names : s.whole.names = s.needs := by cases s <;> rfl
    refine kept_added kept s.whole items ?_ ?_ ?_ ?_
    · rwa [names]
    · rw [names]
      exact needs_distinct s
    · intro n
      rw [names]
      exact (taken n).mpr
    · intro n member
      rcases (taken n).mp member with before | now
      · exact kept.settled n before
      · exact settled n now

/-- The names of a contract are made of letters, digits and underscores. -/
structure Named (c : Contract) : Prop where
  components : ∀ t ∈ c.components, IsName t.name ∧ ∀ p ∈ t.params, IsName p.name
  slots : ∀ reader : Reader, ∀ slot ∈ reader.slots c, IsName slot.name

theorem needs_settled {c : Contract} (named : Named c) {s : Subject} (declared : s.From c) :
    ∀ n ∈ s.needs, Settled n := by
  cases declared with
  | @transition t known _ =>
    have settled := identifier_settled (named.components t known).1
    exact List.forall_mem_cons.mpr
      ⟨settled, List.forall_mem_singleton.mpr (overridesName_settled settled)⟩
  | @slot reader slot known =>
    exact List.forall_mem_singleton.mpr (identifier_settled (named.slots reader slot known))

theorem plan_kept {c : Contract} (named : Named c) : (plan c).Kept := by
  refine plan_induction c start_kept ?_
  intro p s before member
  exact add_kept before (needs_settled named (subject_from member))

theorem names_distinct {c : Contract} (named : Named c) :
    ((plan c).names.map unmarked).Nodup := by
  have kept := plan_kept named
  refine kept.distinct.map_on fun m first n second same => ?_
  exact settled_injective (kept.settled m (kept.within m first))
    (kept.settled n (kept.within n second)) same

def Item.considered? : Item → Option String
  | .call _ _ t => some t.name
  | .callClash name => some name
  | .accessor _ _ _ => none
  | .accessorClash _ => none

def Plan.considered (p : Plan) : List String := p.items.filterMap Item.considered?

def Subject.considered? : Subject → Option String
  | .transition t => some t.name
  | .slot _ _ => none

theorem answered_considered {ss : List Subject} {items : List Item}
    (answered : List.Forall₂ Subject.Answered ss items) :
    items.filterMap Item.considered? = ss.filterMap Subject.considered? := by
  induction answered with
  | nil => rfl
  | @cons s item ss items here _ ih =>
    have same : item.considered? = s.considered? := by
      cases here with
      | whole => cases s <;> rfl
      | note => cases s <;> rfl
    rw [List.filterMap_cons, List.filterMap_cons, same, ih]

theorem plan_considered (c : Contract) :
    (plan c).considered = (c.components.filter (!·.isProcedure)).map (·.name) := by
  have slots : ∀ reader : Reader, Subject.considered? ∘ Subject.slot reader = fun _ => none :=
    fun _ => rfl
  have transitions : Subject.considered? ∘ Subject.transition = fun t => some t.name := rfl
  rw [Plan.considered, answered_considered (plan_answered c), subjects]
  simp only [List.filterMap_append, List.filterMap_map, slots, transitions, List.filterMap_none,
    List.append_nil, List.filterMap_eq_map']

end TypedContracts.Wrapper

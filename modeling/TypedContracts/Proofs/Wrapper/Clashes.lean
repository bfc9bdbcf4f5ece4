import TypedContracts.Proofs.Wrapper.Lines

/-!
What a wrapper leaves out. Each transition, field and deployment parameter has one item, and that is
a mere note just if one of its names is taken by then. The functions before it take names, but so
does a transition that was left out: it keeps the name of its method although nothing bears it.
-/
namespace TypedContracts.Wrapper

/-- The names that the functions of an item bear, or would bear if it were no mere note. -/
def Item.needs : Item → List String
  | .call method withOverrides _ => [method, withOverrides]
  | .accessor method _ _ => [method]
  | .callClash name => [identifier name, overridesName (identifier name)]
  | .accessorClash name => [identifier name]

def takenBy (items : List Item) : List String :=
  fixedNames ++ (items.flatMap Item.functions).map (·.name) ++ items.flatMap Item.withheld

theorem mem_takenBy {n : String} {items : List Item} : n ∈ takenBy items ↔
    n ∈ fixedNames ∨ n ∈ (items.flatMap Item.functions).map (·.name) ∨
      n ∈ items.flatMap Item.withheld := by
  rw [takenBy, List.mem_append, List.mem_append, or_assoc]

theorem mem_takenBy_concat {n : String} {items : List Item} {item : Item} :
    n ∈ takenBy (items ++ [item]) ↔
      n ∈ takenBy items ∨ n ∈ item.functions.map (·.name) ∨ n ∈ item.withheld := by
  simp only [mem_takenBy, List.flatMap_append, List.map_append, List.flatMap_singleton,
    List.mem_append]
  tauto

structure Plan.Accounted (p : Plan) : Prop where
  taken : ∀ n, n ∈ p.taken ↔ n ∈ takenBy p.items
  left_out : ∀ before item after, p.items = before ++ item :: after →
    (item.functions = [] ↔ ∃ n ∈ item.needs, n ∈ takenBy before)

theorem accounted_concat {p q : Plan} (accounted : p.Accounted) (item : Item)
    (items : q.items = p.items ++ [item])
    (taken : ∀ n, n ∈ q.taken ↔
      n ∈ p.taken ∨ n ∈ item.functions.map (·.name) ∨ n ∈ item.withheld)
    (left_out : item.functions = [] ↔ ∃ n ∈ item.needs, n ∈ p.taken) : q.Accounted := by
  constructor
  · intro n
    rw [taken, items, mem_takenBy_concat, accounted.taken]
  · intro before other after split
    rw [items] at split
    rcases List.eq_nil_or_concat after with last | ⟨between, final, more⟩
    · rw [last] at split
      obtain ⟨same, equal⟩ := List.append_inj' split rfl
      rw [← same, ← (List.cons.inj equal).1, left_out]
      simp only [accounted.taken]
    · rw [more, List.concat_eq_append, ← List.cons_append, ← List.append_assoc] at split
      exact accounted.left_out before other between (List.append_inj' split rfl).1

theorem add_accounted {p : Plan} (accounted : p.Accounted) (s : Subject) :
    (p.add s).Accounted := by
  rcases add_cases p s with ⟨clash, items, taken⟩ | ⟨free, items, taken⟩
  · have nothing : s.note.functions = [] := by cases s <;> rfl
    have needs : s.note.needs = s.needs := by cases s <;> rfl
    refine accounted_concat accounted s.note items ?_ ?_
    · intro n
      rw [taken, nothing, List.map_nil]
      simp
    · rw [nothing, needs]
      exact iff_of_true rfl clash
  · have present : s.whole.functions ≠ [] := by cases s <;> simp [Subject.whole, Item.functions]
    have needs : s.whole.needs = s.needs := by cases s <;> rfl
    have names : s.whole.functions.map (·.name) = s.needs := by cases s <;> rfl
    have nothing : s.whole.withheld = [] := by cases s <;> rfl
    refine accounted_concat accounted s.whole items ?_ ?_
    · intro n
      rw [taken, names, nothing]
      simp
    · rw [needs]
      refine iff_of_false present ?_
      intro clash
      obtain ⟨n, need, before⟩ := clash
      exact free n need before

theorem plan_accounted (c : Contract) : (plan c).Accounted := by
  refine plan_induction c ?_ fun p s before _ => add_accounted before s
  constructor
  · intro n
    simp [takenBy]
  · intro before item after split
    simp at split

/-- There is one item for each transition, field and deployment parameter, in their order, and the
text is made of them. An item is left out, with a note in place of its functions, exactly if one of
its names is fixed, or is that of a function before it, or is kept by a transition left out before
it. -/
theorem left_out_iff (c : Contract) :
    List.Forall₂ Subject.Answered (subjects c) (plan c).items ∧
    (∀ before item after, (plan c).items = before ++ item :: after →
      (item.functions = [] ↔ ∃ n ∈ item.needs, n ∈ fixedNames ∨
        n ∈ (before.flatMap Item.functions).map (·.name) ∨ n ∈ before.flatMap Item.withheld)) ∧
    (sourceText c).toList = closeEach (sourceLines c) ∧
    declared (sourceLines c) = fixedFunctions ++
      ((plan c).items.flatMap Item.functions).map Function.opened := by
  refine ⟨plan_answered c, ?_, source_text c, declared_source c⟩
  intro before item after split
  rw [(plan_accounted c).left_out before item after split]
  simp only [mem_takenBy]

def till : Contract where
  name := "Till"
  params := some []
  fields := [(Field.ofPrimitive "Uint128").named "pay"]
  components := [⟨"CompTrans", "pay_with", []⟩, ⟨"CompTrans", "pay", []⟩]
  constructors := []

theorem till_field_left_out : ¬∀ (c : Contract) (before : List Item) (item : Item)
    (after : List Item), (plan c).items = before ++ item :: after → item.functions = [] →
      ∃ n ∈ item.needs, n ∈ fixedNames ∨ n ∈ (before.flatMap Item.functions).map (·.name) := by
  intro clashes
  have items : (plan till).items =
      [.call "pay_with" "pay_with_with" ⟨"CompTrans", "pay_with", []⟩, .callClash "pay"] ++
        [.accessorClash "pay"] := by
    decide
  obtain ⟨n, need, taken⟩ := clashes till _ _ _ items rfl
  obtain rfl : n = "pay" := by
    rw [List.mem_singleton.mp need]
    decide
  revert taken
  decide

end TypedContracts.Wrapper

import TypedContracts.Proofs.Dump.Reading
import TypedContracts.Proofs.Parts

/-!
Malformed types. The nodes in type position are listed as they are met, a node before what stands in
it and the first part before the second; reading a type succeeds just if all of them are proper, and
otherwise the first that is not decides what is told. A contract is only made from a module in which
every type is read so.
-/
namespace TypedContracts.Dump
open Result

inductive Unnamed : SExp → GrammarFault → SExp → Prop where
  | foreign {node : SExp} (tag : node.tag ≠ some "Ident") : Unnamed node .expectedIdent node
  | bare : Unnamed (.list [.atom "Ident"]) .identWithoutName (.list [.atom "Ident"])
  | inner {inner : SExp} {more : List SExp}
      (nameless : ∀ name, ¬Named name (.list (.atom "Ident" :: inner :: more))) :
      Unnamed (.list (.atom "Ident" :: inner :: more)) .expectedLocalName inner

/-- Nodes of a type that are right by themselves, whatever the types in them. -/
inductive Proper : SExp → Prop where
  | primitive (name : String) (more : List SExp) :
      Proper (.list (.atom "PrimType" :: .atom name :: more))
  | address (more : List SExp) : Proper (.list (.atom "Address" :: more))
  | nullary {name : String} {ident : SExp} (named : Named name ident) :
      Proper (.list [.atom "ADT", ident])
  | application {name : String} {ident : SExp} (named : Named name ident)
      (arguments more : List SExp) :
      Proper (.list (.atom "ADT" :: ident :: .list arguments :: more))
  | map (key value : SExp) : Proper (.list [.atom "MapType", key, value])

/-- Nodes of a type that are wrong by themselves, with what is told of them. -/
inductive Malformed : SExp → GrammarFault → SExp → Prop where
  | atom (text : String) : Malformed (.atom text) .typeNotList (.atom text)
  | primitive {rest : List SExp} (nameless : ∀ name more, rest ≠ .atom name :: more) :
      Malformed (.list (.atom "PrimType" :: rest)) .primitiveWithoutName
        (.list (.atom "PrimType" :: rest))
  | bare : Malformed (.list [.atom "ADT"]) .adtWithoutConstructor (.list [.atom "ADT"])
  | ident {ident told : SExp} {more : List SExp} {fault : GrammarFault}
      (unnamed : Unnamed ident fault told) :
      Malformed (.list (.atom "ADT" :: ident :: more)) fault told
  | arguments {name text : String} {ident : SExp} {more : List SExp} (named : Named name ident) :
      Malformed (.list (.atom "ADT" :: ident :: .atom text :: more))
        (.notList "ADT argument types") (.atom text)
  | map {rest : List SExp} (arity : rest.length ≠ 2) :
      Malformed (.list (.atom "MapType" :: rest)) .mapArity (.list (.atom "MapType" :: rest))
  | tag {items : List SExp} (foreign : ∀ tag ∈ ["PrimType", "Address", "ADT", "MapType"],
      (SExp.list items).tag ≠ some tag) :
      Malformed (.list items) .unexpectedType (.list items)

mutual
/-- A type node and all nodes in type position below it, in the order in which they are met. -/
def typeNodes : SExp → List SExp
  | .list (.atom "ADT" :: ident :: .list arguments :: more) =>
    .list (.atom "ADT" :: ident :: .list arguments :: more) :: typeNodesOf arguments
  | .list [.atom "MapType", key, value] =>
    .list [.atom "MapType", key, value] :: (typeNodes key ++ typeNodes value)
  | node => [node]
def typeNodesOf : List SExp → List SExp
  | [] => []
  | node :: rest => typeNodes node ++ typeNodesOf rest
end

/-- All nodes in front are proper, and then comes one that is not. -/
inductive FirstMalformed : List SExp → GrammarFault → SExp → Prop where
  | mk {before after : List SExp} {bad told : SExp} {fault : GrammarFault}
      (proper : ∀ node ∈ before, Proper node) (malformed : Malformed bad fault told) :
      FirstMalformed (before ++ bad :: after) fault told

theorem named_tag {name : String} {node : SExp} (named : Named name node) :
    node.tag = some "Ident" := by
  cases named
  rfl

theorem unnamed_not_named {node told : SExp} {fault : GrammarFault}
    (unnamed : Unnamed node fault told) (name : String) : ¬Named name node := by
  intro named
  cases unnamed with
  | foreign tag => exact tag (named_tag named)
  | bare => cases named
  | inner nameless => exact nameless name named

theorem identName_unnamed {node told : SExp} {fault : GrammarFault}
    (unnamed : Unnamed node fault told) : identName node = .error (.grammar fault told) := by
  cases unnamed with
  | foreign tag =>
    unfold identName
    split
    · exact absurd rfl tag
    · exact absurd rfl tag
    · rfl
  | bare => rfl
  | inner nameless =>
    simp only [identName]
    split
    · split
      · rename_i known
        exact absurd (.mk known) (nameless _)
      · rfl
    · rfl

theorem named_or_unnamed (node : SExp) :
    (∃ name, Named name node) ∨ ∃ fault told, Unnamed node fault told := by
  by_cases tag : node.tag = some "Ident"
  · obtain ⟨parts, rfl⟩ := tag_iff.mp tag
    cases parts with
    | nil => exact .inr ⟨_, _, .bare⟩
    | cons inner more =>
      by_cases named : ∃ name, Named name (.list (.atom "Ident" :: inner :: more))
      · exact .inl named
      · exact .inr ⟨_, _, .inner (not_exists.mp named)⟩
  · exact .inr ⟨_, _, .foreign tag⟩

inductive Judged {α : Type} : List SExp → Result α → Prop where
  | accepted {nodes : List SExp} (proper : ∀ node ∈ nodes, Proper node) (a : α) :
      Judged nodes (.ok a)
  | refused {nodes : List SExp} {fault : GrammarFault} {told : SExp}
      (first : FirstMalformed nodes fault told) : Judged nodes (.error (.grammar fault told))

section Judged
variable {α β : Type} {nodes others : List SExp} {m : Result α}

theorem firstMalformed_append {fault : GrammarFault} {told : SExp}
    (first : FirstMalformed nodes fault told) (others : List SExp) :
    FirstMalformed (nodes ++ others) fault told := by
  obtain ⟨proper, malformed⟩ := first
  rw [List.append_assoc, List.cons_append]
  exact .mk proper malformed

theorem firstMalformed_later {fault : GrammarFault} {told : SExp}
    (proper : ∀ node ∈ nodes, Proper node) (first : FirstMalformed others fault told) :
    FirstMalformed (nodes ++ others) fault told := by
  obtain ⟨properToo, malformed⟩ := first
  rw [← List.append_assoc]
  exact .mk (List.forall_mem_append.mpr ⟨proper, properToo⟩) malformed

theorem Judged.bind {k : α → Result β} (first : Judged nodes m)
    (next : ∀ a, Judged others (k a)) : Judged (nodes ++ others) (m >>= k) := by
  cases first with
  | refused first => exact .refused (firstMalformed_append first others)
  | accepted proper a =>
    change Judged (nodes ++ others) (k a)
    have rest := next a
    generalize k a = result at rest
    cases rest with
    | accepted properToo b => exact .accepted (List.forall_mem_append.mpr ⟨proper, properToo⟩) b
    | refused later => exact .refused (firstMalformed_later proper later)

theorem Judged.done {k : α → β} (first : Judged nodes m) :
    Judged nodes (m >>= fun a => pure (k a)) := by
  have empty : ∀ a, Judged [] (pure (k a) : Result β) := fun a => .accepted (by simp) (k a)
  simpa using first.bind empty

theorem Judged.behind {node : SExp} (proper : Proper node) (rest : Judged nodes m) :
    Judged (node :: nodes) m := by
  have alone : ∀ n ∈ [node], Proper n := by simpa using proper
  cases rest with
  | accepted properToo a => exact .accepted (List.forall_mem_cons.mpr ⟨proper, properToo⟩) a
  | refused later => exact .refused (firstMalformed_later alone later)

end Judged

theorem malformed_not_proper {node told : SExp} {fault : GrammarFault}
    (malformed : Malformed node fault told) : ¬Proper node := by
  intro proper
  cases malformed with
  | atom text => cases proper
  | primitive nameless =>
    generalize here : SExp.list (.atom "PrimType" :: _) = node at proper
    cases proper with
    | primitive name more =>
      cases here
      exact nameless name more rfl
    | _ => simp at here
  | bare =>
    generalize here : SExp.list [.atom "ADT"] = node at proper
    cases proper <;> simp at here
  | ident unnamed =>
    generalize here : SExp.list (.atom "ADT" :: _ :: _) = node at proper
    cases proper with
    | nullary named =>
      cases here
      exact unnamed_not_named unnamed _ named
    | application named =>
      cases here
      exact unnamed_not_named unnamed _ named
    | _ => simp at here
  | arguments named =>
    generalize here : SExp.list (.atom "ADT" :: _ :: .atom _ :: _) = node at proper
    cases proper <;> simp at here
  | map arity =>
    generalize here : SExp.list (.atom "MapType" :: _) = node at proper
    cases proper with
    | map key value =>
      cases here
      exact arity rfl
    | _ => simp at here
  | tag foreign => cases proper <;> simp [SExp.tag] at foreign

theorem fieldOf_malformed {node told : SExp} {fault : GrammarFault}
    (malformed : Malformed node fault told) : fieldOf node = .error (.grammar fault told) := by
  cases malformed with
  | atom text => rw [fieldOf]
  | primitive nameless => rw [fieldOf]; simpa using nameless
  | bare => rw [fieldOf]
  | @ident ident _ more _ unnamed =>
    have refused := identName_unnamed unnamed
    match more with
    | [] => rw [fieldOf, refused]; rfl
    | .atom _ :: _ => rw [fieldOf, refused]; rfl
    | .list _ :: _ => rw [fieldOf, refused]; rfl
  | arguments named => rw [fieldOf, identName_ok_iff.mpr named]; rfl
  | map arity =>
    rw [fieldOf]
    rintro key value rfl
    exact arity rfl
  | tag foreign =>
    rw [fieldOf]
    all_goals
      intros
      rename_i same
      simp [same, SExp.tag] at foreign

theorem typeNodes_head (node : SExp) : ∃ below, typeNodes node = node :: below := by
  unfold typeNodes
  split <;> exact ⟨_, rfl⟩

theorem judged_malformed {node told : SExp} {fault : GrammarFault}
    (malformed : Malformed node fault told) : Judged (typeNodes node) (fieldOf node) := by
  obtain ⟨below, nodes⟩ := typeNodes_head node
  have first : FirstMalformed ([] ++ node :: below) fault told := .mk (by simp) malformed
  rw [nodes, fieldOf_malformed malformed]
  exact .refused first

/-- Each form of a node, with the nodes below it. -/
theorem judged : (∀ node, Judged (typeNodes node) (fieldOf node)) ∧
    ∀ nodes, Judged (typeNodesOf nodes) (fieldsOf nodes) := by
  apply fieldOf.mutual_induct
  case case1 =>
    intro text
    exact judged_malformed (.atom text)
  case case2 =>
    intro name more
    rw [fieldOf, typeNodes]
    · exact .behind (.primitive name more) (.accepted (by simp) _)
    all_goals simp
  case case3 =>
    intro rest nameless
    exact judged_malformed (.primitive nameless)
  case case4 =>
    intro more
    rw [fieldOf, typeNodes]
    · exact .behind (.address more) (.accepted (by simp) _)
    all_goals simp
  case case5 => exact judged_malformed .bare
  case case6 =>
    intro ident
    rcases named_or_unnamed ident with ⟨name, named⟩ | ⟨_, _, unnamed⟩
    · rw [fieldOf, typeNodes, identName_ok_iff.mpr named]
      · exact .behind (.nullary named) (.accepted (by simp) _)
      all_goals simp
    · exact judged_malformed (.ident unnamed)
  case case7 =>
    intro ident text more
    rcases named_or_unnamed ident with ⟨name, named⟩ | ⟨_, _, unnamed⟩
    · exact judged_malformed (.arguments named)
    · exact judged_malformed (.ident unnamed)
  case case8 =>
    intro ident nodes more each
    rcases named_or_unnamed ident with ⟨name, named⟩ | ⟨_, _, unnamed⟩
    · rw [fieldOf, typeNodes, identName_ok_iff.mpr named]
      exact .behind (.application named nodes more) each.done
    · exact judged_malformed (.ident unnamed)
  case case9 =>
    intro key value first second
    rw [fieldOf, typeNodes]
    exact .behind (.map key value) (first.bind fun _ => second.done)
  case case10 =>
    intro rest arity
    refine judged_malformed (.map fun two => ?_)
    obtain ⟨key, value, same⟩ := List.length_eq_two.mp two
    exact arity key value same
  case case11 =>
    intro items _ primitive address bare nullary arguments application _ arity
    -- A known tag would have made one of the cases before this one.
    refine judged_malformed (.tag fun tag known here => ?_)
    obtain ⟨more, same⟩ := tag_iff.mp here
    obtain rfl := SExp.list.inj same
    simp only [List.mem_cons, List.not_mem_nil, or_false] at known
    rcases known with rfl | rfl | rfl | rfl
    · exact primitive more rfl
    · exact address more rfl
    · rcases more with _ | ⟨ident, _ | ⟨text | nodes, more⟩⟩
      · exact bare rfl
      · exact nullary ident rfl
      · exact arguments ident text more rfl
      · exact application ident nodes more rfl
    · exact arity more rfl
  case case12 =>
    rw [fieldsOf, typeNodesOf]
    exact .accepted (by simp) []
  case case13 =>
    intro node rest first later
    rw [fieldsOf, typeNodesOf]
    exact first.bind fun _ => later.done

theorem firstMalformed_refuted {nodes : List SExp} {fault : GrammarFault} {told : SExp}
    (first : FirstMalformed nodes fault told) : ¬∀ node ∈ nodes, Proper node := by
  obtain ⟨_, malformed⟩ := first
  intro proper
  exact malformed_not_proper malformed (proper _ (by simp))

theorem firstMalformed_unique {nodes : List SExp} {fault other : GrammarFault}
    {told toldToo : SExp} (first : FirstMalformed nodes fault told)
    (again : FirstMalformed nodes other toldToo) : fault = other ∧ told = toldToo := by
  generalize same : nodes = others at again
  obtain @⟨before, after, bad, _, _, proper, malformed⟩ := first
  obtain @⟨before', after', bad', _, _, proper', malformed'⟩ := again
  obtain ⟨_, rests⟩ := Parts.parted_unique proper proper'
    (by simpa using malformed_not_proper malformed)
    (by simpa using malformed_not_proper malformed') same
  obtain ⟨rfl, _⟩ := List.cons.inj rests
  have results := (fieldOf_malformed malformed).symm.trans (fieldOf_malformed malformed')
  exact Error.grammar.inj (Except.error.inj results)

theorem fieldOf_accepts_iff (node : SExp) :
    (∃ f, fieldOf node = .ok f) ↔ ∀ n ∈ typeNodes node, Proper n := by
  have here := judged.1 node
  generalize fieldOf node = result at here
  cases here with
  | accepted proper f => exact iff_of_true ⟨f, rfl⟩ proper
  | refused first => exact iff_of_false (by simp) (firstMalformed_refuted first)

theorem fieldOf_error_iff (node : SExp) (e : Error) : fieldOf node = .error e ↔
    ∃ fault told, FirstMalformed (typeNodes node) fault told ∧ e = .grammar fault told := by
  have here := judged.1 node
  generalize fieldOf node = result at here
  cases here with
  | accepted proper f =>
    refine iff_of_false (by simp) ?_
    rintro ⟨_, _, first, _⟩
    exact firstMalformed_refuted first proper
  | @refused fault told first =>
    constructor
    · rintro ⟨⟩
      exact ⟨fault, told, first, rfl⟩
    · rintro ⟨_, _, again, rfl⟩
      obtain ⟨rfl, rfl⟩ := firstMalformed_unique first again
      rfl

theorem typed_accepted {node : SExp} {f : Field} (typed : Typed node f) :
    ∀ n ∈ typeNodes node, Proper n :=
  (fieldOf_accepts_iff node).mp ⟨f, fieldOf_ok_iff.mpr typed⟩

inductive SlotType : List SExp → SExp → Prop where
  | mk {rows more : List SExp} {ident type : SExp}
      (row : .list (ident :: type :: more) ∈ rows) : SlotType rows type

/-- The types of a module: of deployment parameters, of fields, of the parameters of components,
and of the arguments of the constructors that its library lists. -/
inductive TypeIn : SExp → SExp → Prop where
  | param {rows contr params : List SExp} {type : SExp}
      (contrRow : section? "contr" rows = some (.list contr))
      (paramsRow : section? "cparams" contr = some (.list params)) (slot : SlotType params type) :
      TypeIn (.list rows) type
  | field {rows contr fields : List SExp} {type : SExp}
      (contrRow : section? "contr" rows = some (.list contr))
      (fieldsRow : section? "cfields" contr = some (.list fields)) (slot : SlotType fields type) :
      TypeIn (.list rows) type
  | component {rows contr components params more body : List SExp} {kind name tag type : SExp}
      (contrRow : section? "contr" rows = some (.list contr))
      (componentsRow : section? "ccomps" contr = some (.list components))
      (listed : .list (kind :: name :: .list (tag :: .list params :: more) :: body) ∈ components)
      (slot : SlotType params type) : TypeIn (.list rows) type
  | argument {rows library others entries clauses more clause types : List SExp}
      {ident type : SExp} (libsRow : section? "libs" rows = some (.list (.list library :: others)))
      (entriesRow : section? "lentries" library = some (.list entries))
      (entry : .list (.atom "LibTyp" :: ident :: .list clauses :: more) ∈ entries)
      (listed : .list clause ∈ clauses)
      (typesRow : section? "c_arg_types" clause = some (.list types)) (member : type ∈ types) :
      TypeIn (.list rows) type

theorem slots_accepted {rows : List SExp} {fields : List Field}
    (each : List.Forall₂ RowRead rows fields) {type : SExp} (slot : SlotType rows type) :
    ∀ n ∈ typeNodes type, Proper n := by
  obtain ⟨row⟩ := slot
  obtain ⟨f, _, read⟩ := forall₂_member each.flip row
  obtain ⟨_, typed, _⟩ := read
  exact typed_accepted typed

theorem arguments_accepted {nodes : List SExp} {types : List Field} (each : AllTyped nodes types)
    {type : SExp} (member : type ∈ nodes) : ∀ n ∈ typeNodes type, Proper n := by
  induction nodes generalizing types with
  | nil => cases member
  | cons node nodes ih =>
    cases each with
    | cons first rest =>
      rcases List.mem_cons.mp member with rfl | later
      · exact typed_accepted first
      · exact ih rest later

theorem entry_accepted {ident : SExp} {clauses more clause types : List SExp}
    {ks : List Constructor}
    (read : EntryRead (.list (.atom "LibTyp" :: ident :: .list clauses :: more)) ks)
    (listed : .list clause ∈ clauses)
    (typesRow : section? "c_arg_types" clause = some (.list types)) {type : SExp}
    (member : type ∈ types) : ∀ n ∈ typeNodes type, Proper n := by
  generalize here : SExp.list (.atom "LibTyp" :: ident :: .list clauses :: more) = entry at read
  cases read with
  | value => simp at here
  | type named each =>
    cases here
    obtain ⟨_, _, clauseRead⟩ := forall₂_member each.flip listed
    obtain ⟨_, typesRow', _, arguments⟩ := clauseRead
    cases typesRow.symm.trans typesRow'
    exact arguments_accepted arguments member

theorem types_accepted {module type : SExp} {c : Contract} (read : ModuleRead module c)
    (stands : TypeIn module type) : ∀ n ∈ typeNodes type, Proper n := by
  obtain ⟨contrRow, listed, ⟨_, _, paramsRow, eachParam, fieldsRow, eachField, componentsRow,
    eachComponent⟩⟩ := read
  cases stands with
  | param contrRow' paramsRow' slot =>
    cases contrRow.symm.trans contrRow'
    cases paramsRow.symm.trans paramsRow'
    exact slots_accepted eachParam slot
  | field contrRow' fieldsRow' slot =>
    cases contrRow.symm.trans contrRow'
    cases fieldsRow.symm.trans fieldsRow'
    exact slots_accepted eachField slot
  | component contrRow' componentsRow' listed slot =>
    cases contrRow.symm.trans contrRow'
    cases componentsRow.symm.trans componentsRow'
    obtain ⟨_, _, component⟩ := forall₂_member eachComponent.flip listed
    obtain ⟨_, each, _, _, _, _⟩ := component
    exact slots_accepted each slot
  | argument libsRow entriesRow entry clause typesRow member =>
    cases listed with
    | absent none => cases none.symm.trans libsRow
    | present here libraries =>
      cases here.symm.trans libsRow
      cases libraries with
      | first entriesRow' eachEntry =>
        cases entriesRow.symm.trans entriesRow'
        obtain ⟨_, _, entryRead⟩ := forall₂_member eachEntry.flip entry
        exact entry_accepted entryRead clause typesRow member

/-- A type is read just if every node of it is proper, the first that is not is told, and nothing is
left out of a contract on account of its type. -/
theorem malformed_types_abort :
    (∀ node, (∃ f, fieldOf node = .ok f) ↔ ∀ n ∈ typeNodes node, Proper n) ∧
    (∀ node e, fieldOf node = .error e ↔
      ∃ fault told, FirstMalformed (typeNodes node) fault told ∧ e = .grammar fault told) ∧
    (∀ fault told, (Error.grammar fault told).message =
      "Grammar mismatch: " ++ fault.message ++ ": " ++ told.render) ∧
    (∀ module c, contractOf module = .ok c →
      ModuleRead module c ∧ ∀ type, TypeIn module type → ∀ n ∈ typeNodes type, Proper n) := by
  refine ⟨fieldOf_accepts_iff, fieldOf_error_iff, fun _ _ => rfl, fun module c made => ?_⟩
  have read := contractOf_ok_iff.mp made
  exact ⟨read, fun type => types_accepted read⟩

/-- A type variable below an application below a map. -/
example :
    let word := SExp.list [.atom "PrimType", .atom "Uint32"]
    let element := SExp.list [.atom "TypeVar", .atom "A"]
    let ident := SExp.list [.atom "Ident", .list [.atom "SimpleLocal", .atom "List"]]
    fieldOf (.list [.atom "MapType", word, .list [.atom "ADT", ident, .list [word, element]]]) =
      .error (.grammar .unexpectedType element) := by
  decide

end TypedContracts.Dump

import TypedContracts.Call.Encode
import TypedContracts.Proofs.Result

/-!
Values that are encoded already, written as JSON and read again. What is read is the same value
unless some list in it has the form of an application: a text, a list of texts and a list. Such a
list is taken for the application of that text.
-/
namespace TypedContracts.Encoded
open Json

def unkeyed (constructor : String) (types : List String) (arguments : List Encoded) :
    List Encoded :=
  [.scalar constructor, .list (types.map .scalar), .list arguments]

inductive ReadAs : Encoded → Encoded → Prop where
  | scalar (s : String) : ReadAs (.scalar s) (.scalar s)
  | application (c : String) (types : List String) {arguments values : List Encoded}
      (each : List.Forall₂ ReadAs arguments values) :
      ReadAs (.application c types arguments) (.application c types values)
  | taken (c : String) (types : List String) {arguments values : List Encoded}
      (each : List.Forall₂ ReadAs arguments values) :
      ReadAs (.list (unkeyed c types arguments)) (.application c types values)
  | list {items values : List Encoded}
      (other : ∀ c types arguments, items ≠ unkeyed c types arguments)
      (each : List.Forall₂ ReadAs items values) : ReadAs (.list items) (.list values)

mutual
/-- No list in it, however deep, has the form of an application. -/
def Clear : Encoded → Prop
  | .scalar _ => True
  | .application _ _ arguments => ClearAll arguments
  | .list items => (∀ c types arguments, items ≠ unkeyed c types arguments) ∧ ClearAll items
def ClearAll : List Encoded → Prop
  | [] => True
  | v :: vs => Clear v ∧ ClearAll vs
end

mutual
theorem readAs_self_iff : (v : Encoded) → (ReadAs v v ↔ Clear v)
  | .scalar s => ⟨fun _ => trivial, fun _ => .scalar s⟩
  | .application c types arguments => by
    have each := readAs_selves_iff arguments
    constructor
    · rintro ⟨⟩
      exact each.mp ‹_›
    · exact fun clear => .application c types (each.mpr clear)
  | .list items => by
    have each := readAs_selves_iff items
    constructor
    · rintro ⟨⟩
      exact ⟨‹_›, each.mp ‹_›⟩
    · exact fun clear => .list clear.1 (each.mpr clear.2)
theorem readAs_selves_iff : (vs : List Encoded) → (List.Forall₂ ReadAs vs vs ↔ ClearAll vs)
  | [] => ⟨fun _ => trivial, fun _ => .nil⟩
  | v :: vs => by
    rw [List.forall₂_cons, readAs_self_iff v, readAs_selves_iff vs]
    exact Iff.rfl
end

mutual
theorem toJson_inj : (v w : Encoded) → v.toJson = w.toJson → v = w
  | .scalar s, .scalar t => by simp [toJson]
  | .application c types xs, .application d kinds ys => by
    intro same
    simp only [toJson, Json.object.injEq, List.cons.injEq, Prod.mk.injEq, true_and, and_true,
      Json.text.injEq, texts, Json.array.injEq] at same
    obtain ⟨rfl, sameTypes, sameArguments⟩ := same
    have types := List.map_injective_iff.mpr (fun s t => Json.text.inj) sameTypes
    rw [types, listToJson_inj xs ys sameArguments]
  | .list xs, .list ys => by
    intro same
    rw [listToJson_inj xs ys (Json.array.inj same)]
  | .scalar _, .application _ _ _ | .scalar _, .list _ | .application _ _ _, .scalar _
  | .application _ _ _, .list _ | .list _, .scalar _ | .list _, .application _ _ _ => by
    simp [toJson]
theorem listToJson_inj : (vs ws : List Encoded) → listToJson vs = listToJson ws → vs = ws
  | [], [] => fun _ => rfl
  | v :: vs, w :: ws => by
    intro same
    obtain ⟨first, rest⟩ := List.cons.inj same
    rw [toJson_inj v w first, listToJson_inj vs ws rest]
  | [], _ :: _ | _ :: _, [] => by simp [listToJson]
end

def reading (v : Encoded) : Reading := Reading.ofJson v.toJson

def ValueRead (v w : Encoded) : Prop := (reading v).value = some w

theorem mapM_some_iff {α β : Type} {f : α → Option β} {xs : List α} {ys : List β} :
    xs.mapM f = some ys ↔ List.Forall₂ (fun x y => f x = some y) xs ys := by
  induction xs generalizing ys with
  | nil => cases ys <;> simp
  | cons x xs ih =>
    simp only [List.mapM_cons, Option.bind_eq_bind, Option.bind_eq_some_iff, ih]
    constructor
    · rintro ⟨y, first, rest, later, same⟩
      cases same
      exact .cons first later
    · rintro (_ | ⟨first, later⟩)
      exact ⟨_, first, _, later, rfl⟩

theorem items_reading (vs : List Encoded) :
    Reading.ofJsonItems (listToJson vs) = vs.map reading := by
  induction vs with
  | nil => rfl
  | cons v vs ih => rw [listToJson, Reading.ofJsonItems, ih, List.map_cons, reading]

theorem list_reading (items : List Encoded) :
    reading (.list items) = Reading.ofItems (items.map reading) := by
  rw [reading, toJson, Reading.ofJson, items_reading]

theorem text_reading (v : Encoded) (s : String) : (reading v).text = some s ↔ v = .scalar s := by
  cases v <;> simp [reading, toJson, Reading.ofJson, Reading.ofItems, Reading.ofMembers,
    Reading.nothing]

theorem texts_reading (v : Encoded) (types : List String) :
    (reading v).texts = some types ↔ v = .list (types.map .scalar) := by
  cases v with
  | scalar s => simp [reading, toJson, Reading.ofJson, Reading.nothing]
  | application c kinds arguments =>
    simp [reading, toJson, Reading.ofJson, Reading.ofMembers, Reading.nothing]
  | list items =>
    rw [list_reading]
    change (items.map reading).mapM (·.text) = some types ↔ _
    rw [mapM_some_iff, List.forall₂_map_left_iff]
    simp only [text_reading, list.injEq]
    rw [← List.forall₂_map_right_iff, List.forall₂_eq_eq_eq]

theorem values_reading (v : Encoded) (values : List Encoded) :
    (reading v).values = some values ↔
      ∃ items, v = .list items ∧ List.Forall₂ ValueRead items values := by
  cases v with
  | scalar s => simp [reading, toJson, Reading.ofJson, Reading.nothing]
  | application c kinds arguments =>
    simp [reading, toJson, Reading.ofJson, Reading.ofMembers, Reading.nothing]
  | list items =>
    rw [list_reading]
    change (items.map reading).mapM (·.value) = some values ↔ _
    rw [mapM_some_iff, List.forall₂_map_left_iff]
    exact ⟨fun each => ⟨items, rfl, each⟩, fun ⟨_, same, each⟩ => list.inj same ▸ each⟩

theorem members_reading (a b d w : Encoded) :
    Reading.applicationOf [.given (reading a), .given (reading b), .given (reading d)] = some w ↔
      ∃ c types arguments values, [a, b, d] = unkeyed c types arguments ∧
        List.Forall₂ ValueRead arguments values ∧ w = .application c types values := by
  constructor
  · intro read
    obtain ⟨c, text, read⟩ := Option.bind_eq_some_iff.mp read
    obtain ⟨types, texts, read⟩ := Option.bind_eq_some_iff.mp read
    obtain ⟨values, listed, read⟩ := Option.bind_eq_some_iff.mp read
    cases read
    obtain rfl := (text_reading a c).mp text
    obtain rfl := (texts_reading b types).mp texts
    obtain ⟨arguments, rfl, each⟩ := (values_reading d values).mp listed
    exact ⟨c, types, arguments, values, rfl, each, rfl⟩
  · rintro ⟨c, types, arguments, values, same, each, rfl⟩
    cases same
    have text := (text_reading (.scalar c) c).mpr rfl
    have texts := (texts_reading (.list (types.map .scalar)) types).mpr rfl
    have listed := (values_reading (.list arguments) values).mpr ⟨arguments, rfl, each⟩
    simp [Reading.applicationOf, Slot.required, text, texts, listed]

theorem unkeyed_reading (items : List Encoded) (w : Encoded) :
    (itemSlots? 3 (items.map reading) >>= Reading.applicationOf) = some w ↔
      ∃ c types arguments values, items = unkeyed c types arguments ∧
        List.Forall₂ ValueRead arguments values ∧ w = .application c types values := by
  match items with
  | [a, b, d] => exact members_reading a b d w
  | [] | [_] | [_, _] | _ :: _ :: _ :: _ :: _ =>
    simp [itemSlots?, List.replicate, Reading.applicationOf, Slot.required, unkeyed]

theorem types_written (types : List String) :
    toJson (.list (types.map .scalar)) = texts types := by
  have each : listToJson (types.map .scalar) = types.map .text := by
    induction types with
    | nil => rfl
    | cons type types ih => rw [List.map_cons, listToJson, ih, List.map_cons, toJson]
  rw [toJson, each, texts]

theorem application_read_iff (c : String) (types : List String) (arguments : List Encoded)
    (w : Encoded) :
    ValueRead (.application c types arguments) w ↔
      ∃ values, List.Forall₂ ValueRead arguments values ∧ w = .application c types values := by
  have members : (reading (.application c types arguments)).value =
      Reading.applicationOf [.given (reading (.scalar c)),
        .given (reading (.list (types.map .scalar))), .given (reading (.list arguments))] := by
    have kinds : reading (.list (types.map .scalar)) = Reading.ofJson (texts types) := by
      rw [reading, types_written]
    rw [kinds]
    simp [reading, toJson, Reading.ofJson, Reading.ofJsonMembers, Reading.ofMembers, memberSlots?,
      memberSlot?, valuesOf]
  rw [ValueRead, members, members_reading]
  constructor
  · rintro ⟨_, _, _, values, same, each, rfl⟩
    simp only [unkeyed, List.cons.injEq, scalar.injEq, list.injEq, and_true] at same
    obtain ⟨rfl, sameTypes, rfl⟩ := same
    have eq := List.map_injective_iff.mpr (fun s t => scalar.inj) sameTypes
    exact ⟨values, each, by rw [eq]⟩
  · rintro ⟨values, each, rfl⟩
    exact ⟨c, types, arguments, values, rfl, each, rfl⟩

theorem list_value (items : List Encoded) :
    (reading (.list items)).value =
      ((itemSlots? 3 (items.map reading) >>= Reading.applicationOf) <|>
        ((items.map reading).mapM Reading.value).map .list) := by
  rw [list_reading, Reading.ofItems]

theorem items_value (items values : List Encoded) :
    (items.map reading).mapM Reading.value = some values ↔ List.Forall₂ ValueRead items values := by
  rw [mapM_some_iff, List.forall₂_map_left_iff]
  exact Iff.rfl

mutual
theorem read_total : (v : Encoded) → ∃ w, ValueRead v w
  | .scalar s => ⟨.scalar s, rfl⟩
  | .application c types arguments => by
    obtain ⟨values, each⟩ := reads_total arguments
    exact ⟨_, (application_read_iff c types arguments _).mpr ⟨values, each, rfl⟩⟩
  | .list items => by
    obtain ⟨values, each⟩ := reads_total items
    rw [← items_value] at each
    cases taken : itemSlots? 3 (items.map reading) >>= Reading.applicationOf with
    | some w => exact ⟨w, by rw [ValueRead, list_value, taken]; rfl⟩
    | none => exact ⟨.list values, by rw [ValueRead, list_value, taken, each]; rfl⟩
theorem reads_total : (vs : List Encoded) → ∃ ws, List.Forall₂ ValueRead vs ws
  | [] => ⟨[], .nil⟩
  | v :: vs => by
    obtain ⟨w, first⟩ := read_total v
    obtain ⟨ws, rest⟩ := reads_total vs
    exact ⟨w :: ws, .cons first rest⟩
end

/-- An application is tried first, and what looks like one is one. -/
theorem list_read_iff (items : List Encoded) (w : Encoded) :
    ValueRead (.list items) w ↔
      (∃ c types arguments values, items = unkeyed c types arguments ∧
        List.Forall₂ ValueRead arguments values ∧ w = .application c types values) ∨
      (∀ c types arguments, items ≠ unkeyed c types arguments) ∧
        ∃ values, List.Forall₂ ValueRead items values ∧ w = .list values := by
  rw [ValueRead, list_value]
  cases taken : itemSlots? 3 (items.map reading) >>= Reading.applicationOf with
  | some u =>
    obtain ⟨c, types, arguments, values, unkeyed, each, rfl⟩ := (unkeyed_reading items u).mp taken
    constructor
    · rintro ⟨⟩
      exact .inl ⟨c, types, arguments, values, unkeyed, each, rfl⟩
    · rintro (form | ⟨other, _⟩)
      · exact taken.symm.trans ((unkeyed_reading items w).mpr form)
      · exact absurd unkeyed (other c types arguments)
  | none =>
    have other : ∀ c types arguments, items ≠ unkeyed c types arguments := by
      intro c types arguments form
      obtain ⟨values, each⟩ := reads_total arguments
      have read := (unkeyed_reading items _).mpr ⟨c, types, arguments, values, form, each, rfl⟩
      cases taken.symm.trans read
    constructor
    · intro read
      obtain ⟨values, each, rfl⟩ := Option.map_eq_some_iff.mp read
      exact .inr ⟨other, values, (items_value items values).mp each, rfl⟩
    · rintro (⟨c, types, arguments, _, form, _⟩ | ⟨_, values, each, rfl⟩)
      · exact absurd form (other c types arguments)
      · exact Option.map_eq_some_iff.mpr ⟨values, (items_value items values).mpr each, rfl⟩

theorem forall₂_congr {R S : Encoded → Encoded → Prop} {vs : List Encoded}
    (same : ∀ v ∈ vs, ∀ w, R v w ↔ S v w) (ws : List Encoded) :
    List.Forall₂ R vs ws ↔ List.Forall₂ S vs ws := by
  induction vs generalizing ws with
  | nil => simp
  | cons v vs ih =>
    cases ws with
    | nil => simp
    | cons w ws =>
      rw [List.forall₂_cons, List.forall₂_cons, same v List.mem_cons_self w,
        ih (fun u later => same u (List.mem_cons_of_mem v later)) ws]

mutual
theorem read_iff : (v : Encoded) → (∀ w, ValueRead v w ↔ ReadAs v w) ∧
    ∀ items, v = .list items → ∀ values,
      List.Forall₂ ValueRead items values ↔ List.Forall₂ ReadAs items values
  | .scalar s => by
    refine ⟨fun w => ?_, by simp⟩
    constructor
    · rintro ⟨⟩
      exact .scalar s
    · rintro ⟨⟩
      rfl
  | .application c types arguments => by
    have each := forall₂_congr fun v member => (reads_iff arguments v member).1
    refine ⟨fun w => ?_, by simp⟩
    simp only [application_read_iff, each]
    constructor
    · rintro ⟨values, arguments, rfl⟩
      exact .application c types arguments
    · rintro ⟨⟩
      exact ⟨_, ‹_›, rfl⟩
  | .list items => by
    have inside := reads_iff items
    have each := forall₂_congr fun v member => (inside v member).1
    refine ⟨fun w => ?_, ?_⟩
    · rw [list_read_iff]
      constructor
      · rintro (⟨c, types, arguments, values, rfl, read, rfl⟩ | ⟨other, values, read, rfl⟩)
        -- The items of the list in third place become the arguments.
        · have third := (inside (.list arguments) (by simp [unkeyed])).2 arguments rfl values
          exact .taken c types (third.mp read)
        · exact .list other ((each values).mp read)
      · rintro (_ | _ | @⟨c, types, arguments, values, read⟩ | ⟨other, read⟩)
        · have third := (inside (.list arguments) (by simp [unkeyed])).2 arguments rfl values
          exact .inl ⟨c, types, arguments, values, rfl, third.mpr read, rfl⟩
        · exact .inr ⟨other, _, (each _).mpr read, rfl⟩
    · rintro _ ⟨⟩
      exact each
theorem reads_iff : (vs : List Encoded) → ∀ v ∈ vs, (∀ w, ValueRead v w ↔ ReadAs v w) ∧
    ∀ items, v = .list items → ∀ values,
      List.Forall₂ ValueRead items values ↔ List.Forall₂ ReadAs items values
  | [] => by simp
  | v :: vs => by
    have first := read_iff v
    have rest := reads_iff vs
    intro u member
    rcases List.mem_cons.mp member with rfl | later
    · exact first
    · exact rest u later
end

theorem ofJson_toJson_iff (v w : Encoded) : ofJson? v.toJson = some w ↔ ReadAs v w :=
  (read_iff v).1 w

theorem encode_written (c : String) (types : List String) (arguments : List Encoded) {slot : Field}
    {constructor : String} {fields : List Field} (shape : slot.shape = .adt constructor fields) :
    Call.encode (toJson (.application c types arguments)) slot =
      Result.ofOption .json (ofJson? (toJson (.application c types arguments))) := by
  obtain ⟨name, type, _⟩ := slot
  cases shape
  rw [toJson, Call.encode, if_pos (by simp)]
  rfl

/-- Written and read again, every value comes back as some value, and as itself just if no list in
it has the form of an application. The same goes for an application that is passed to a slot of any
user-defined type: only then is it sent as it was given. -/
theorem passed_unchanged_iff (v : Encoded) :
    (∃ w, ofJson? v.toJson = some w) ∧
    (∀ w, ofJson? v.toJson = some w ↔ ReadAs v w) ∧
    (ofJson? v.toJson = some v ↔ Clear v) ∧
    ∀ c types arguments, v = .application c types arguments →
      ∀ (slot : Field) constructor fields, slot.shape = .adt constructor fields →
        (∃ values, Call.encode v.toJson slot = .ok (.application c types values)) ∧
        (Call.encode v.toJson slot = .ok v ↔ Clear v) ∧
        ((Call.encode v.toJson slot).map toJson = .ok v.toJson ↔ Clear v) := by
  have self : ofJson? v.toJson = some v ↔ Clear v :=
    (ofJson_toJson_iff v v).trans (readAs_self_iff v)
  refine ⟨read_total v, ofJson_toJson_iff v, self, ?_⟩
  rintro c types arguments rfl slot constructor fields shape
  have passed : ∀ w, Call.encode (toJson (.application c types arguments)) slot = .ok w ↔
      ofJson? (toJson (.application c types arguments)) = some w := by
    intro w
    rw [encode_written c types arguments shape]
    exact Result.ofOption_ok_iff
  refine ⟨?_, (passed _).trans self, ?_⟩
  · obtain ⟨values, each⟩ := reads_total arguments
    have read := (application_read_iff c types arguments _).mpr ⟨values, each, rfl⟩
    exact ⟨values, (passed _).mpr read⟩
  · rw [← self, ← passed, Result.map_ok_iff]
    constructor
    · rintro ⟨w, sent, same⟩
      obtain rfl := toJson_inj w _ same
      exact sent
    · exact fun sent => ⟨_, sent, rfl⟩

theorem pair_passed_unchanged :
    let listed : Encoded := .list [.list [.scalar "1"], .list [], .list []]
    let given : Encoded :=
      .application "Pair" ["Int32", "Bool"] [.application "None" ["Int32"] [], listed]
    ofJson? given.toJson = some given ∧
      Call.encode given.toJson ⟨"", "Pair", .adt "Pair" []⟩ = .ok given := by
  intro listed given
  have clear : Clear given := by simp [given, listed, Clear, ClearAll, unkeyed]
  obtain ⟨-, -, self, passed⟩ := passed_unchanged_iff given
  have slot := (passed _ _ _ rfl ⟨"", "Pair", .adt "Pair" []⟩ "Pair" [] rfl).2.1
  exact ⟨self.mpr clear, slot.mpr clear⟩

/-- Three items that happen to be a text and two lists are sent as something else. -/
theorem listed_name_applied :
    let listed : Encoded := .list [.scalar "None", .list [.scalar "ByStr20"], .list []]
    let given : Encoded := .application "Box" ["List String"] [listed]
    let sent : Encoded :=
      .application "Box" ["List String"] [.application "None" ["ByStr20"] []]
    ofJson? listed.toJson = some (.application "None" ["ByStr20"] []) ∧
      Call.encode given.toJson ⟨"", "Box", .adt "Box" []⟩ = .ok sent ∧
      sent ≠ given ∧ sent.toJson ≠ given.toJson := by
  refine ⟨rfl, rfl, by decide, by decide⟩

end TypedContracts.Encoded

import TypedContracts.Proofs.Text.Lines
import TypedContracts.Proofs.Wrapper.Functions

/-!
The text of a wrapper, line by line. Among its lines those that open a function are found by what
they begin with; they declare the functions of the plan, in their order, and nothing else.
-/
namespace TypedContracts.Wrapper
open TypedContracts.Text

theorem followed_eq {parts : List String} (full : ∀ part ∈ parts, part ≠ "") :
    followed (commaSeparated parts) = String.join (parts.map (", " ++ ·)) := by
  have tail : ∀ (part : String) (rest : List String), commaSeparated (part :: rest) =
      part ++ String.join (rest.map (", " ++ ·)) := by
    intro part rest
    induction rest generalizing part with
    | nil => simp [commaSeparated]
    | cons next rest ih =>
      unfold commaSeparated at ih ⊢
      rw [String.intercalate_cons_cons, ih, List.map_cons, String.join_cons, String.append_assoc,
        String.append_assoc]
  cases parts with
  | nil => rfl
  | cons part rest =>
    have some_ : (commaSeparated (part :: rest)).isEmpty = false := by
      rw [tail, Bool.eq_false_iff, Ne, String.isEmpty_iff, String.append_eq_empty_iff]
      exact fun empty => full part List.mem_cons_self empty.1
    rw [followed, some_, tail, List.map_cons, String.join_cons, ← String.append_assoc]
    rfl

theorem parameters_text (params : List Field) : followed (parameterList params) =
    String.join ((parametersOf params).map fun p => ", " ++ p.1 ++ ": " ++ p.2) := by
  have full : ∀ part ∈ params.map fun p => identifier p.name ++ ": impl Into<Value>",
      part ≠ "" := by
    intro part member
    obtain ⟨p, _, rfl⟩ := List.mem_map.mp member
    rw [Ne, String.append_eq_empty_iff]
    exact fun empty => absurd empty.2 (by decide)
  have typed : ": impl Into<Value>" = ": " ++ "impl Into<Value>" := by decide
  rw [parameterList, followed_eq full, parametersOf, List.map_map, List.map_map]
  refine congrArg String.join (List.map_congr_left fun p _ => ?_)
  simp only [Function.comp_apply, typed, String.append_assoc]

/-- Text within one line. -/
def Clean (cs : List Char) : Prop := ∀ c ∈ cs, c ≠ '\n'

instance (cs : List Char) : Decidable (Clean cs) :=
  decidable_of_iff (cs.all fun c => c != '\n') (by simp [Clean])

theorem clean_append {cs ds : List Char} : Clean (cs ++ ds) ↔ Clean cs ∧ Clean ds :=
  List.forall_mem_append

theorem clean_string {s t : String} : Clean (s ++ t).toList ↔ Clean s.toList ∧ Clean t.toList := by
  rw [String.toList_append, clean_append]

theorem clean_of_word {cs : List Char} (word : ∀ c ∈ cs, isWordChar c = true) : Clean cs := by
  rintro c member rfl
  exact absurd (word _ member) (by decide)

theorem clean_of_settled {name : String} (settled : Settled name) : Clean name.toList := by
  cases settled with
  | plain lowered _ => exact clean_of_word fun c member => (lowered c member).1
  | raw known _ =>
    rw [clean_string]
    exact ⟨by decide, clean_of_word fun c member => ((keywords_lowered _ known).1 c member).1⟩

theorem clean_join {parts : List String} (each : ∀ part ∈ parts, Clean part.toList) :
    Clean (String.join parts).toList := by
  rw [String.toList_join]
  intro c member
  obtain ⟨part, inside, member⟩ := List.mem_flatMap.mp member
  exact each part inside c member

theorem clean_commaSeparated {parts : List String} (each : ∀ part ∈ parts, Clean part.toList) :
    Clean (commaSeparated parts).toList := by
  unfold commaSeparated
  induction parts with
  | nil => decide
  | cons part rest ih =>
    obtain ⟨first, later⟩ := List.forall_mem_cons.mp each
    cases rest with
    | nil => rwa [String.intercalate_singleton]
    | cons next rest =>
      rw [String.intercalate_cons_cons, clean_string, clean_string]
      exact ⟨⟨first, by decide⟩, ih later⟩

def closeEach (ls : List (List Char)) : List Char := ls.flatMap (· ++ ['\n'])

def rows (text : String) : List (List Char) := splitAt (· == '\n') text.toList

theorem splitAt_closed (ls : List (List Char)) :
    splitAt (· == '\n') (closeEach ls) = ls.flatMap (splitAt (· == '\n')) ++ [[]] := by
  induction ls with
  | nil => rfl
  | cons line ls ih =>
    have text : closeEach (line :: ls) = line ++ '\n' :: closeEach ls := by
      simp [closeEach]
    rw [text, splitAt_eq_splitOnP, List.splitOnP_append_cons _ _ (by rfl), ← splitAt_eq_splitOnP,
      ← splitAt_eq_splitOnP, ih, List.flatMap_cons, List.append_assoc]

theorem splitAt_clean {line : List Char} (clean : Clean line) :
    splitAt (· == '\n') line = [line] := by
  rw [splitAt_eq_splitOnP, List.splitOnP_eq_singleton]
  simpa [Clean] using clean

theorem clean_split {ls : List (List Char)} (clean : ∀ line ∈ ls, Clean line) :
    ls.flatMap (splitAt (· == '\n')) = ls := by
  rw [List.flatMap_congr fun line member => splitAt_clean (clean line member)]
  exact List.flatMap_singleton' ls

def Function.opened (f : Function) : List Char × List Char := (f.head.toList, f.body.toList)

def Function.lines (f : Function) : List (List Char) :=
  [f.head.toList, f.body.toList, "    \x7d".toList]

def Item.noteLine : Item → String
  | .call _ _ t => "    /// \x60" ++ t.name ++ "(" ++ signatureText t.params ++ ")\x60"
  | .accessor _ _ slot => "    /// \x60" ++ slot.name ++ " : " ++ slot.type ++ "\x60"
  | .callClash name => "    // transition " ++ name ++ " skipped: name clash"
  | .accessorClash name => "    // accessor " ++ name ++ " skipped: name clash"

/-- An empty line stands in front of an item and between its functions. -/
def Item.lines (item : Item) : List (List Char) :=
  [] :: item.noteLine.toList :: [[]].intercalate (item.functions.map Function.lines)

theorem closeEach_append (ls rest : List (List Char)) :
    closeEach (ls ++ rest) = closeEach ls ++ closeEach rest :=
  List.flatMap_append

set_option maxRecDepth 2000 in
theorem item_text (item : Item) : item.text.toList = closeEach item.lines := by
  unfold Item.lines Item.noteLine Item.functions closeEach
  cases item with
  | call name withOverrides t =>
    unfold Item.text callText methodOf variantOf
    simp only [List.map_cons, List.map_nil]
    unfold Function.lines Function.head Function.body Forward.text
    simp [parameters_text, argumentList, valuesOf, String.toList_join, List.flatMap_map,
      List.intercalate]
  | accessor name reader slot =>
    unfold Item.text accessorText accessorOf
    simp only [List.map_cons, List.map_nil]
    unfold Function.lines Function.head Function.body Forward.text
    simp [List.intercalate]
  | callClash name =>
    unfold Item.text
    simp
  | accessorClash name =>
    unfold Item.text
    simp

theorem line_closed (line : String) (rest : List (List Char)) :
    closeEach (line.toList :: rest) = (line ++ "\n").toList ++ closeEach rest := by
  have newline : ['\n'] = "\n".toList := by decide
  rw [closeEach, List.flatMap_cons, String.toList_append, newline]
  rfl

theorem lines_text (ls : List String) :
    (String.join (ls.map (· ++ "\n"))).toList = closeEach (ls.map String.toList) := by
  induction ls with
  | nil => rfl
  | cons line ls ih =>
    rw [List.map_cons, List.map_cons, String.join_cons, String.toList_append, ih, line_closed]

def sourceLines (c : Contract) : List (List Char) :=
  (headerLines c.name).map String.toList ++ (plan c).items.flatMap Item.lines ++ ["\x7d".toList]

theorem source_text (c : Contract) : (sourceText c).toList = closeEach (sourceLines c) := by
  have items : (String.join ((plan c).items.map Item.text)).toList =
      closeEach ((plan c).items.flatMap Item.lines) := by
    rw [String.toList_join, List.flatMap_map, closeEach, List.flatMap_assoc]
    exact List.flatMap_congr fun item _ => item_text item
  have last : "\x7d\n".toList = closeEach ["\x7d".toList] := by decide
  rw [sourceText, String.toList_append, String.toList_append, headerText, lines_text, items, last,
    sourceLines, closeEach_append, closeEach_append]

def opening : List Char := "    pub fn ".toList

/-- Each line that opens a function, with the line behind it. -/
def declared : List (List Char) → List (List Char × List Char)
  | [] => []
  | line :: rest =>
    if opening.isPrefixOf line then (line, rest.headD []) :: declared rest else declared rest

def declaredName (line : List Char) : String :=
  String.ofList ((line.drop opening.length).takeWhile (· != '('))

theorem declared_other {l : List Char} (other : l[4]? ≠ some 'p') (rest : List (List Char)) :
    declared (l :: rest) = declared rest := by
  rw [declared, if_neg]
  intro opens
  obtain ⟨behind, rfl⟩ := List.isPrefixOf_iff_prefix.mp opens
  refine other ?_
  rw [List.getElem?_append_left (by decide)]
  decide

theorem fifth_literal {s : String} (long : 4 < s.toList.length) (t : String) :
    (s ++ t).toList[4]? = s.toList[4]? := by
  rw [String.toList_append, List.getElem?_append_left long]

theorem head_opens (f : Function) : opening.isPrefixOf f.head.toList = true := by
  refine List.isPrefixOf_iff_prefix.mpr ?_
  unfold Function.head opening
  simp only [String.append_assoc]
  rw [String.toList_append]
  exact List.prefix_append _ _

theorem declared_function (f : Function) (rest : List (List Char)) :
    declared (f.lines ++ rest) = f.opened :: declared rest := by
  have body : f.body.toList[4]? ≠ some 'p' := by
    unfold Function.body
    rw [fifth_literal (by decide)]
    decide
  have closing : "    \x7d".toList[4]? ≠ some 'p' := by decide
  rw [Function.lines, List.cons_append, declared, if_pos (head_opens f)]
  simp only [List.cons_append, List.nil_append, List.headD_cons, declared_other body,
    declared_other closing, Function.opened]

theorem note_declares_nothing (item : Item) (rest : List (List Char)) :
    declared ([] :: item.noteLine.toList :: rest) = declared rest := by
  have fifth : item.noteLine.toList[4]? ≠ some 'p' := by
    cases item
    all_goals
      unfold Item.noteLine
      simp only [String.append_assoc]
      rw [fifth_literal (by decide)]
      decide
  rw [declared_other (by simp), declared_other fifth]

theorem call_lines (name withOverrides : String) (t : Component) :
    (Item.call name withOverrides t).lines =
      [] :: (Item.call name withOverrides t).noteLine.toList :: ((methodOf name t).lines ++
        [] :: (variantOf withOverrides t).lines) := by
  simp [Item.lines, Item.functions, List.intercalate]

theorem accessor_lines (name : String) (reader : Reader) (slot : Field) :
    (Item.accessor name reader slot).lines =
      [] :: (Item.accessor name reader slot).noteLine.toList ::
        (accessorOf name reader slot).lines := by
  simp [Item.lines, Item.functions, List.intercalate]

theorem declared_item (item : Item) (rest : List (List Char)) :
    declared (item.lines ++ rest) = item.functions.map Function.opened ++ declared rest := by
  have empty : ([] : List Char)[4]? ≠ some 'p' := by simp
  cases item with
  | call name withOverrides t =>
    rw [call_lines, List.cons_append, List.cons_append, note_declares_nothing, List.append_assoc,
      declared_function, List.cons_append, declared_other empty, declared_function]
    rfl
  | accessor name reader slot =>
    rw [accessor_lines, List.cons_append, List.cons_append, note_declares_nothing,
      declared_function]
    rfl
  | callClash name => exact note_declares_nothing _ rest
  | accessorClash name => exact note_declares_nothing _ rest

def fixedFunctions : List (List Char × List Char) :=
  [("    pub fn new(ctx: &'a ScillaContext<C>, contract: &'a ScillaContract) -> Self \x7b".toList,
      "        Self \x7b ctx, contract \x7d".toList),
    ("    pub fn contract(&self) -> &ScillaContract \x7b".toList, "        self.contract".toList)]

theorem declared_header (name : String) (rest : List (List Char)) :
    declared ((headerLines name).map String.toList ++ rest) = fixedFunctions ++ declared rest := by
  have named : ∀ start stop : String, 4 < start.toList.length → start.toList[4]? ≠ some 'p' →
      (start ++ name ++ stop).toList[4]? ≠ some 'p' := by
    intro start stop long other
    rwa [String.append_assoc, fifth_literal long]
  have note := named "// Generated bindings for the " " Scilla contract." (by decide)
    (by decide)
  have struct := named "pub struct " "<'a, C: ChainClient> \x7b" (by decide)
    (by decide)
  have impl := named "impl<'a, C: ChainClient> " "<'a, C> \x7b" (by decide)
    (by decide)
  unfold headerLines fixedFunctions
  simp (disch := first | assumption | decide +kernel) only [List.map_cons, List.map_nil,
    List.cons_append, List.nil_append, declared_other]
  rw [declared, if_pos (by decide +kernel)]
  simp (disch := decide +kernel) only [declared_other]
  rw [declared, if_pos (by decide +kernel)]
  simp (disch := decide +kernel) only [declared_other, List.headD_cons]

theorem declared_lines (c : Contract) (rest : List (List Char)) :
    declared (sourceLines c ++ rest) =
      fixedFunctions ++ (functions c).map Function.opened ++ declared rest := by
  have items : ∀ (items : List Item) (rest : List (List Char)),
      declared (items.flatMap Item.lines ++ rest) =
        (items.flatMap Item.functions).map Function.opened ++ declared rest := by
    intro items rest
    induction items with
    | nil => rfl
    | cons item items ih =>
      simp only [List.flatMap_cons, List.append_assoc, declared_item, ih, List.map_append]
  have last : declared (["\x7d".toList] ++ rest) = declared rest := declared_other (by decide) rest
  rw [sourceLines, List.append_assoc, List.append_assoc, declared_header, items, last, functions,
    List.append_assoc]

theorem declared_source (c : Contract) : declared (sourceLines c) =
    fixedFunctions ++ (functions c).map Function.opened := by
  simpa [declared] using declared_lines c []

/-- Neither the name of the contract nor a type that its wrapper cites holds a newline. -/
structure OneLine (c : Contract) : Prop where
  name : Clean c.name.toList
  transitions : ∀ t ∈ c.components, t.isProcedure = false → ∀ p ∈ t.params, Clean p.type.toList
  slots : ∀ reader : Reader, ∀ slot ∈ reader.slots c, Clean slot.type.toList

theorem function_clean {f : Function} (name : Clean f.name.toList)
    (params : ∀ p ∈ f.parameters, Clean p.1.toList ∧ Clean p.2.toList)
    (answer : Clean f.answer.toList) (forward : Clean f.forward.text.toList) :
    ∀ l ∈ f.lines, Clean l := by
  have parts : ∀ part ∈ f.parameters.map fun p => ", " ++ p.1 ++ ": " ++ p.2,
      Clean part.toList := by
    intro part member
    obtain ⟨p, inside, rfl⟩ := List.mem_map.mp member
    simp only [clean_string]
    exact ⟨⟨⟨by decide, (params p inside).1⟩, by decide⟩, (params p inside).2⟩
  have head : Clean f.head.toList := by
    unfold Function.head
    simp only [clean_string]
    exact ⟨⟨⟨⟨⟨⟨by decide, name⟩, by decide⟩, clean_join parts⟩,
      by decide⟩, answer⟩, by decide⟩
  have body : Clean f.body.toList := by
    unfold Function.body
    exact clean_string.mpr ⟨by decide, forward⟩
  refine List.forall_mem_cons.mpr ⟨head, List.forall_mem_cons.mpr ⟨body, ?_⟩⟩
  exact List.forall_mem_singleton.mpr (by decide)

theorem title_clean {c : Contract} (named : Named c) {t : Component} (known : t ∈ c.components) :
    Clean t.name.toList :=
  clean_of_word (isName_word (named.components t known).1)

theorem slot_clean {c : Contract} (named : Named c) {reader : Reader} {slot : Field}
    (known : slot ∈ reader.slots c) : Clean slot.name.toList :=
  clean_of_word (isName_word (named.slots reader slot known))

theorem answer_clean : Clean "Transaction".toList ∧ Clean "DecodedValue".toList := by
  decide

theorem accessor_clean {c : Contract} (named : Named c) {reader : Reader} {slot : Field}
    (known : slot ∈ reader.slots c) :
    ∀ l ∈ (accessorOf (identifier slot.name) reader slot).lines, Clean l := by
  have name := clean_of_settled (identifier_settled (named.slots reader slot known))
  refine function_clean name (List.forall_mem_nil _) answer_clean.2 ?_
  unfold accessorOf Forward.text
  simp only [clean_string]
  exact ⟨⟨⟨by cases reader <;> decide, by decide⟩, slot_clean named known⟩, by decide⟩

section Items
variable {c : Contract} (named : Named c) (oneLine : OneLine c)
include named oneLine

theorem params_clean {t : Component} (known : t ∈ c.components) (outside : t.isProcedure = false) :
    (∀ p ∈ parametersOf t.params, Clean p.1.toList ∧ Clean p.2.toList) ∧
      (∀ value ∈ valuesOf t.params, Clean value.toList) ∧ Clean (signatureText t.params).toList := by
  have names : ∀ p ∈ t.params, IsName p.name := (named.components t known).2
  have identifiers : ∀ p ∈ t.params, Clean (identifier p.name).toList := fun p member =>
    clean_of_settled (identifier_settled (names p member))
  refine ⟨?_, ?_, clean_commaSeparated ?_⟩
  · intro pair member
    obtain ⟨p, inside, rfl⟩ := List.mem_map.mp member
    have typed : Clean "impl Into<Value>".toList := by decide
    exact ⟨identifiers p inside, typed⟩
  · intro value member
    obtain ⟨p, inside, rfl⟩ := List.mem_map.mp member
    exact clean_string.mpr ⟨identifiers p inside, by decide⟩
  · intro part member
    obtain ⟨p, inside, rfl⟩ := List.mem_map.mp member
    simp only [clean_string]
    exact ⟨⟨clean_of_word (isName_word (names p inside)), by decide⟩,
      oneLine.transitions t known outside p inside⟩

theorem method_clean {t : Component} (known : t ∈ c.components) (outside : t.isProcedure = false) :
    ∀ l ∈ (methodOf (identifier t.name) t).lines, Clean l := by
  obtain ⟨params, values, _⟩ := params_clean named oneLine known outside
  have name := clean_of_settled (identifier_settled (named.components t known).1)
  refine function_clean name params answer_clean.1 ?_
  unfold methodOf Forward.text
  simp only [clean_string]
  exact ⟨⟨⟨⟨by decide, title_clean named known⟩, by decide⟩, clean_commaSeparated values⟩,
    by decide⟩

theorem variant_clean {t : Component} (known : t ∈ c.components) (outside : t.isProcedure = false) :
    ∀ l ∈ (variantOf (overridesName (identifier t.name)) t).lines, Clean l := by
  obtain ⟨params, values, _⟩ := params_clean named oneLine known outside
  have name := clean_of_settled
    (overridesName_settled (identifier_settled (named.components t known).1))
  have withLast : ∀ p ∈ parametersOf t.params ++ [("tx", "&TxOverrides")],
      Clean p.1.toList ∧ Clean p.2.toList :=
    List.forall_mem_append.mpr ⟨params, List.forall_mem_singleton.mpr (by decide)⟩
  refine function_clean name withLast answer_clean.1 ?_
  unfold variantOf Forward.text
  simp only [clean_string]
  exact ⟨⟨⟨⟨⟨⟨by decide, title_clean named known⟩, by decide⟩,
    clean_commaSeparated values⟩, by decide⟩, by decide⟩, by decide⟩

theorem note_clean {item : Item} (source : item.From c) : Clean item.noteLine.toList := by
  unfold Item.noteLine
  cases source with
  | @call t known outside =>
    simp only [clean_string]
    exact ⟨⟨⟨⟨by decide, title_clean named known⟩, by decide⟩,
      (params_clean named oneLine known outside).2.2⟩, by decide⟩
  | @callClash t known outside =>
    simp only [clean_string]
    exact ⟨⟨by decide, title_clean named known⟩, by decide⟩
  | @accessor reader slot known =>
    simp only [clean_string]
    exact ⟨⟨⟨⟨by decide, slot_clean named known⟩, by decide⟩,
      oneLine.slots reader slot known⟩, by decide⟩
  | @accessorClash reader slot known =>
    simp only [clean_string]
    exact ⟨⟨by decide, slot_clean named known⟩, by decide⟩

theorem item_clean {item : Item} (source : item.From c) : ∀ l ∈ item.lines, Clean l := by
  have empty : Clean [] := by decide
  have note := note_clean named oneLine source
  cases source with
  | call known outside =>
    rw [call_lines]
    refine List.forall_mem_cons.mpr ⟨empty, List.forall_mem_cons.mpr ⟨note, ?_⟩⟩
    exact List.forall_mem_append.mpr ⟨method_clean named oneLine known outside,
      List.forall_mem_cons.mpr ⟨empty, variant_clean named oneLine known outside⟩⟩
  | accessor known =>
    rw [accessor_lines]
    exact List.forall_mem_cons.mpr ⟨empty,
      List.forall_mem_cons.mpr ⟨note, accessor_clean named known⟩⟩
  | callClash known outside =>
    exact List.forall_mem_cons.mpr ⟨empty, List.forall_mem_singleton.mpr note⟩
  | accessorClash known =>
    exact List.forall_mem_cons.mpr ⟨empty, List.forall_mem_singleton.mpr note⟩

end Items

theorem header_clean {name : String} (clean : Clean name.toList) :
    ∀ l ∈ (headerLines name).map String.toList, Clean l := by
  have each : ∀ s ∈ headerLines name, Clean s.toList := by
    simp only [headerLines, List.forall_mem_cons, clean_string, clean, and_true]
    decide +kernel
  intro l member
  obtain ⟨s, inside, rfl⟩ := List.mem_map.mp member
  exact each s inside

theorem source_clean {c : Contract} (named : Named c) (oneLine : OneLine c) :
    ∀ l ∈ sourceLines c, Clean l := by
  refine List.forall_mem_append.mpr ⟨List.forall_mem_append.mpr
    ⟨header_clean oneLine.name, ?_⟩, List.forall_mem_singleton.mpr (by decide)⟩
  intro l member
  obtain ⟨item, inside, member⟩ := List.mem_flatMap.mp member
  exact item_clean named oneLine (plan_from c item inside) l member

theorem source_rows {c : Contract} (named : Named c) (oneLine : OneLine c) :
    rows (sourceText c) = sourceLines c ++ [[]] := by
  rw [rows, source_text, splitAt_closed, clean_split (source_clean named oneLine)]

theorem settled_unopened {name : String} (settled : Settled name) :
    ∀ c ∈ name.toList, c ≠ '(' := by
  have word : ∀ {cs : List Char}, Lowered cs → ∀ c ∈ cs, c ≠ '(' := by
    rintro cs lowered c member rfl
    exact absurd (lowered _ member).1 (by decide)
  cases settled with
  | plain lowered _ => exact word lowered
  | @raw keyword known _ =>
    rw [raw_text, List.forall_mem_cons, List.forall_mem_cons]
    exact ⟨by decide, by decide, word (keywords_lowered _ known).1⟩

theorem declaredName_head {f : Function} (settled : Settled f.name) :
    declaredName f.head.toList = f.name := by
  have parts : ∃ behind, f.head.toList = opening ++ (f.name.toList ++ '(' :: behind) := by
    have bracket : "(&self".toList = '(' :: "&self".toList := by decide
    unfold Function.head opening
    simp only [String.toList_append, List.append_assoc, bracket, List.cons_append]
    exact ⟨_, rfl⟩
  obtain ⟨behind, head⟩ := parts
  have name : ∀ c ∈ f.name.toList, (c != '(') = true := by
    simpa using settled_unopened settled
  rw [declaredName, head, List.drop_left, List.takeWhile_append_of_pos name]
  simp

theorem declared_names {c : Contract} (named : Named c) :
    (declared (sourceLines c)).map (fun d => declaredName d.1) = (plan c).names := by
  have fixed : fixedFunctions.map (fun d => declaredName d.1) = fixedNames := by decide +kernel
  rw [declared_source, List.map_append, fixed, List.map_map, ← functions_names]
  refine congrArg _ (List.map_congr_left fun f member => ?_)
  exact declaredName_head (functions_settled named f member)

def shop : Contract where
  name := "Shop"
  params := some [(Field.ofPrimitive "ByStr20").named "owner"]
  fields := [(Field.ofPrimitive "Uint32").named "set_price_with",
    (Field.ofPrimitive "Bool").named "open"]
  components := [⟨"CompTrans", "setPrice", [(Field.ofPrimitive "Uint32").named "newPrice"]⟩,
    ⟨"CompTrans", "set_price", []⟩, ⟨"CompProc", "check", []⟩, ⟨"CompTrans", "Match", []⟩]
  constructors := []

theorem shop_named : Named shop := by
  constructor
  · decide
  · rintro (_ | _) <;> decide

theorem shop_oneLine : OneLine shop := by
  constructor
  · decide
  · decide
  · rintro (_ | _) <;> decide

/-- A type of three lines, the second of which opens a function. -/
def seam : Contract where
  name := "Seam"
  params := some []
  fields := [{ (Field.ofPrimitive "Bool").named "open" with
    type := "Bool\x60\n    pub fn new() \x7b\x7d\n    /// \x60" }]
  components := []
  constructors := []

theorem seam_named : Named seam := by
  constructor
  · simp [seam]
  · rintro (_ | _) <;> decide

end TypedContracts.Wrapper

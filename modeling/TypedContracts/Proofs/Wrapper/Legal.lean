import TypedContracts.Proofs.Wrapper.Lines

/-!
Which signatures of a wrapper its language accepts. The table of keywords lacks the words that the
language merely reserves, parameters are told apart by the contract but not after their names are put
in lower case, and one name for a parameter is given twice.
-/
namespace TypedContracts.Wrapper
open TypedContracts.Text

/-- Words that are keywords of a wrapper's language or reserved in it (edition 2021). -/
def languageWords : List String :=
  ["as", "async", "await", "break", "const", "continue", "crate", "dyn", "else", "enum", "extern",
   "false", "fn", "for", "if", "impl", "in", "let", "loop", "match", "mod", "move", "mut", "pub",
   "ref", "return", "self", "Self", "static", "struct", "super", "trait", "true", "type", "unsafe",
   "use", "where", "while", "abstract", "become", "box", "do", "final", "macro", "override", "priv",
   "try", "typeof", "unsized", "virtual", "yield"]

def pathWords : List String := ["self", "Self", "super", "crate"]

def unescapedWords : List String :=
  ["abstract", "become", "do", "final", "macro", "override", "priv", "try", "typeof", "unsized",
   "virtual"]

def Admissible (name : String) : Prop :=
  name ∉ languageWords ∧ ∀ word ∈ pathWords, name ≠ rawMark ++ word

def Function.names (f : Function) : List String := f.parameters.map (·.1)

structure Function.Legal (f : Function) : Prop where
  words : ∀ n ∈ f.name :: f.names, Admissible n
  distinct : (f.names.map unmarked).Nodup

theorem languageWords_iff (word : String) :
    word ∈ languageWords ↔ word ∈ keywords ∨ word ∈ unescapedWords ∨ word = "Self" := by
  have among : ∀ w ∈ languageWords, w ∈ keywords ∨ w ∈ unescapedWords ∨ w = "Self" := by
    decide
  have back : ∀ w ∈ keywords ++ unescapedWords ++ ["Self"], w ∈ languageWords := by
    decide
  constructor
  · exact among word
  · intro known
    exact back word (by simpa [or_assoc] using known)

theorem unescapedWords_lowered : ∀ w ∈ unescapedWords,
    Lowered w.toList ∧ '_' ∉ w.toList ∧ w ∉ keywords ∧ w ∉ reservedKeywords := by
  decide

theorem marked_not_lowered (name : String) : ¬Lowered (rawMark ++ name).toList := by
  rw [raw_text]
  exact fun lowered => lowered_no_mark lowered (by simp)

/-- A name of a wrapper is wrong only if it is one of the words left out of the table. -/
theorem admissible_iff {name : String} (settled : Settled name) :
    Admissible name ↔ name ∉ unescapedWords := by
  unfold Admissible
  rw [languageWords_iff]
  cases settled with
  | plain lowered free =>
    have capital : name ≠ "Self" := by
      rintro rfl
      revert lowered
      decide
    have unmarked : ∀ word ∈ pathWords, name ≠ rawMark ++ word := by
      rintro word _ rfl
      exact marked_not_lowered word lowered
    simp only [free, capital, false_or, or_false]
    exact and_iff_left unmarked
  | @raw keyword known open_ =>
    have marked : ∀ {w : String}, Lowered w.toList → rawMark ++ keyword ≠ w := by
      rintro w lowered rfl
      exact marked_not_lowered keyword lowered
    have noKeyword : rawMark ++ keyword ∉ keywords := fun member =>
      marked (keywords_lowered _ member).1 rfl
    have escaped : rawMark ++ keyword ∉ unescapedWords := fun member =>
      marked (unescapedWords_lowered _ member).1 rfl
    -- A word for a path has no raw form or is no keyword, so it never gets the mark.
    have paths : ∀ word ∈ pathWords, rawMark ++ keyword ≠ rawMark ++ word := by
      intro word path same
      have plain : keyword = word := by
        rw [← unmarked_raw keyword, same, unmarked_raw]
      have closed : ∀ w ∈ pathWords, w ∈ reservedKeywords ∨ w ∉ keywords := by decide
      rcases closed word path with reserved | free
      · exact open_ (plain ▸ reserved)
      · exact free (plain ▸ known)
    have capital : rawMark ++ keyword ≠ "Self" := by
      intro same
      have text : 'r' :: '#' :: keyword.toList = ['S', 'e', 'l', 'f'] := by
        rw [← raw_text, same]
        decide
      exact absurd (List.cons.inj text).1 (by decide)
    simp only [noKeyword, escaped, capital, or_self, not_false_eq_true, true_and, iff_true]
    exact paths

theorem underscore_unescaped {name : String} (underscore : '_' ∈ name.toList) :
    name ∉ unescapedWords := fun member =>
  (unescapedWords_lowered name member).2.1 underscore

theorem identifier_unescaped (name : String) :
    identifier name ∈ unescapedWords ↔ snakeCase name ∈ unescapedWords := by
  unfold identifier
  dsimp only
  split
  · rename_i reserved
    have kept : snakeCase name ∉ unescapedWords := fun member =>
      (unescapedWords_lowered _ member).2.2.2 reserved
    have made : snakeCase name ++ "_" ∉ unescapedWords := by
      refine underscore_unescaped ?_
      rw [String.toList_append]
      exact List.mem_append_right _ (by decide)
    exact iff_of_false made kept
  · split
    · rename_i known
      have kept : snakeCase name ∉ unescapedWords := fun member =>
        (unescapedWords_lowered _ member).2.2.1 known
      have made : rawMark ++ snakeCase name ∉ unescapedWords := fun member =>
        marked_not_lowered _ (unescapedWords_lowered _ member).1
      exact iff_of_false made kept
    · exact Iff.rfl

/-- Names that become one: with the same lower-case form, or a word without raw form and the name
that stands for it. -/
def Meet (a b : String) : Prop :=
  snakeCase a = snakeCase b ∨ ∃ k ∈ reservedKeywords,
    snakeCase a = k ∧ snakeCase b = k ++ "_" ∨ snakeCase b = k ∧ snakeCase a = k ++ "_"

theorem unmarked_identifier {name : String} (named : IsName name) : unmarked (identifier name) =
    if snakeCase name ∈ reservedKeywords then snakeCase name ++ "_" else snakeCase name := by
  unfold identifier
  dsimp only
  split
  · rename_i reserved
    exact unmarked_plain (reserved_closed _ reserved).1
  · split
    · exact unmarked_raw _
    · exact unmarked_plain (snakeCase_lowered named)

theorem identifier_eq_iff {a b : String} (first : IsName a) (second : IsName b) :
    unmarked (identifier a) = unmarked (identifier b) ↔ Meet a b := by
  rw [unmarked_identifier first, unmarked_identifier second, Meet]
  -- A word without raw form gets an underscore, and what comes of it is no such word.
  have closed := fun k member => (reserved_closed k member).2.2
  generalize snakeCase a = x
  generalize snakeCase b = y
  by_cases inA : x ∈ reservedKeywords
  · by_cases inB : y ∈ reservedKeywords
    · rw [if_pos inA, if_pos inB]
      constructor
      · intro same
        exact .inl (String.append_left_inj _ |>.mp same)
      · rintro (rfl | ⟨k, known, ⟨rfl, rfl⟩ | ⟨rfl, rfl⟩⟩)
        · rfl
        · exact absurd inB (closed _ known)
        · exact absurd inA (closed _ known)
    · rw [if_pos inA, if_neg inB]
      constructor
      · intro same
        exact .inr ⟨x, inA, .inl ⟨rfl, same.symm⟩⟩
      · rintro (rfl | ⟨k, known, ⟨rfl, rfl⟩ | ⟨rfl, rfl⟩⟩)
        · exact absurd inA inB
        · rfl
        · exact absurd known inB
  · by_cases inB : y ∈ reservedKeywords
    · rw [if_neg inA, if_pos inB]
      constructor
      · intro same
        exact .inr ⟨y, inB, .inr ⟨rfl, same⟩⟩
      · rintro (rfl | ⟨k, known, ⟨rfl, rfl⟩ | ⟨rfl, rfl⟩⟩)
        · exact absurd inB inA
        · exact absurd known inA
        · rfl
    · rw [if_neg inA, if_neg inB]
      constructor
      · exact .inl
      · rintro (rfl | ⟨k, known, ⟨rfl, rfl⟩ | ⟨rfl, rfl⟩⟩)
        · rfl
        · exact absurd known inA
        · exact absurd known inB

instance (a b : String) : Decidable (Meet a b) :=
  inferInstanceAs (Decidable (_ ∨ _))

structure Usable (params : List Field) : Prop where
  words : ∀ p ∈ params, snakeCase p.name ∉ unescapedWords
  apart : params.Pairwise fun p q => ¬Meet p.name q.name

theorem usable_iff (params : List Field) : Usable params ↔
    (∀ p ∈ params, snakeCase p.name ∉ unescapedWords) ∧
      params.Pairwise fun p q => ¬Meet p.name q.name := by
  constructor
  · rintro ⟨words, apart⟩
    exact ⟨words, apart⟩
  · rintro ⟨words, apart⟩
    exact ⟨words, apart⟩

instance (params : List Field) : Decidable (Usable params) :=
  decidable_of_iff' _ (usable_iff params)

/-- What the functions of an item ask of the names that they are made of. -/
def Item.Fit : Item → Prop
  | .call _ _ t => snakeCase t.name ∉ unescapedWords ∧ Usable t.params ∧
      ∀ p ∈ t.params, snakeCase p.name ≠ "tx"
  | .accessor _ _ slot => snakeCase slot.name ∉ unescapedWords
  | .callClash _ => True
  | .accessorClash _ => True

instance : DecidablePred Item.Fit
  | .call _ _ t => inferInstanceAs (Decidable (snakeCase t.name ∉ unescapedWords ∧
      Usable t.params ∧ ∀ p ∈ t.params, snakeCase p.name ≠ "tx"))
  | .accessor _ _ slot => inferInstanceAs (Decidable (snakeCase slot.name ∉ unescapedWords))
  | .callClash _ => inferInstanceAs (Decidable True)
  | .accessorClash _ => inferInstanceAs (Decidable True)

theorem parametersOf_names (params : List Field) :
    (parametersOf params).map (·.1) = params.map fun p => identifier p.name := by
  rw [parametersOf, List.map_map]
  rfl

theorem parameters_distinct {params : List Field} (named : ∀ p ∈ params, IsName p.name) :
    ((params.map fun p => identifier p.name).map unmarked).Nodup ↔
      params.Pairwise fun p q => ¬Meet p.name q.name := by
  rw [List.Nodup, List.pairwise_map, List.pairwise_map]
  refine List.Pairwise.iff_of_mem fun {p q} first second => ?_
  rw [Ne, identifier_eq_iff (named p first) (named q second)]

theorem parameters_admissible {params : List Field} (named : ∀ p ∈ params, IsName p.name) :
    (∀ n ∈ params.map fun p => identifier p.name, Admissible n) ↔
      ∀ p ∈ params, snakeCase p.name ∉ unescapedWords := by
  rw [List.forall_mem_map]
  refine forall₂_congr fun p member => ?_
  rw [admissible_iff (identifier_settled (named p member)), identifier_unescaped]

theorem tx_unmet {name : String} (named : IsName name) :
    unmarked (identifier name) = "tx" ↔ snakeCase name = "tx" := by
  have other : ∀ k ∈ reservedKeywords, k ≠ "tx" ∧ k ++ "_" ≠ "tx" := by decide
  rw [unmarked_identifier named]
  split
  · rename_i reserved
    exact iff_of_false (other _ reserved).2 (other _ reserved).1
  · exact Iff.rfl

theorem method_legal {t : Component} (word : IsName t.name)
    (named : ∀ p ∈ t.params, IsName p.name) : (methodOf (identifier t.name) t).Legal ↔
      snakeCase t.name ∉ unescapedWords ∧ Usable t.params := by
  have name : Admissible (identifier t.name) ↔ snakeCase t.name ∉ unescapedWords := by
    rw [admissible_iff (identifier_settled word), identifier_unescaped]
  have names : (methodOf (identifier t.name) t).names =
      t.params.map fun p => identifier p.name := parametersOf_names t.params
  constructor
  · rintro ⟨legal, distinct⟩
    rw [names] at legal distinct
    obtain ⟨own, others⟩ := List.forall_mem_cons.mp legal
    exact ⟨name.mp own, (parameters_admissible named).mp others,
      (parameters_distinct named).mp distinct⟩
  · rintro ⟨own, words, apart⟩
    refine ⟨?_, ?_⟩
    · rw [names]
      exact List.forall_mem_cons.mpr ⟨name.mpr own, (parameters_admissible named).mpr words⟩
    · rw [names]
      exact (parameters_distinct named).mpr apart

theorem variant_admissible {method : String} (settled : Settled method) :
    Admissible (overridesName method) := by
  rw [admissible_iff (overridesName_settled settled), overridesName_eq settled]
  refine underscore_unescaped ?_
  rw [String.toList_append]
  exact List.mem_append_right _ (by decide)

theorem tx_admissible : Admissible "tx" := by
  unfold Admissible
  decide

theorem with_tx_distinct {params : List Field} (named : ∀ p ∈ params, IsName p.name) :
    (((params.map fun p => identifier p.name) ++ ["tx"]).map unmarked).Nodup ↔
      (params.Pairwise fun p q => ¬Meet p.name q.name) ∧ ∀ p ∈ params, snakeCase p.name ≠ "tx" := by
  have plain : unmarked "tx" = "tx" := unmarked_plain (by decide)
  have free : "tx" ∉ (params.map fun p => identifier p.name).map unmarked ↔
      ∀ p ∈ params, snakeCase p.name ≠ "tx" := by
    simp only [List.mem_map, exists_exists_and_eq_and, not_exists, not_and]
    exact forall₂_congr fun p member => not_congr (tx_unmet (named p member))
  rw [List.map_append, List.map_singleton, plain, ← List.concat_eq_append, List.nodup_concat, free,
    parameters_distinct named, and_comm]

theorem variant_legal {t : Component} (word : IsName t.name)
    (named : ∀ p ∈ t.params, IsName p.name) :
    (variantOf (overridesName (identifier t.name)) t).Legal ↔
      Usable t.params ∧ ∀ p ∈ t.params, snakeCase p.name ≠ "tx" := by
  have name := variant_admissible (identifier_settled word)
  have names : (variantOf (overridesName (identifier t.name)) t).names =
      (t.params.map fun p => identifier p.name) ++ ["tx"] := by
    rw [← parametersOf_names]
    exact List.map_append
  constructor
  · rintro ⟨legal, distinct⟩
    rw [names] at legal distinct
    obtain ⟨own, others⟩ := List.forall_mem_cons.mp legal
    obtain ⟨apart, free⟩ := (with_tx_distinct named).mp distinct
    exact ⟨⟨(parameters_admissible named).mp (List.forall_mem_append.mp others).1, apart⟩, free⟩
  · rintro ⟨⟨words, apart⟩, free⟩
    refine ⟨?_, ?_⟩
    · rw [names, List.forall_mem_cons, List.forall_mem_append, List.forall_mem_singleton]
      exact ⟨name, (parameters_admissible named).mpr words, tx_admissible⟩
    · rw [names]
      exact (with_tx_distinct named).mpr ⟨apart, free⟩

theorem accessor_legal {reader : Reader} {slot : Field} (word : IsName slot.name) :
    (accessorOf (identifier slot.name) reader slot).Legal ↔
      snakeCase slot.name ∉ unescapedWords := by
  rw [← identifier_unescaped, ← admissible_iff (identifier_settled word)]
  constructor
  · intro legal
    exact legal.words _ List.mem_cons_self
  · intro own
    exact ⟨List.forall_mem_singleton.mpr own, List.nodup_nil⟩

/-- The functions of an item are right exactly if the item is fit. -/
theorem item_legal {c : Contract} (named : Named c) {item : Item} (source : item.From c) :
    (∀ f ∈ item.functions, f.Legal) ↔ item.Fit := by
  cases source with
  | @call t declared outside =>
    obtain ⟨word, params⟩ := named.components t declared
    rw [Item.functions, List.forall_mem_cons, List.forall_mem_singleton, method_legal word params,
      variant_legal word params, Item.Fit]
    tauto
  | @accessor reader slot declared =>
    rw [Item.functions, List.forall_mem_singleton,
      accessor_legal (named.slots reader slot declared), Item.Fit]
  | callClash declared outside => exact iff_of_true (List.forall_mem_nil _) trivial
  | accessorClash declared => exact iff_of_true (List.forall_mem_nil _) trivial

/-- The signatures of a wrapper are right exactly if no name that goes into one is a word left out
of the table of keywords, no two parameters of a transition meet, and none is called like the
overrides. -/
theorem signatures_legal_iff (c : Contract) (named : Named c) :
    declared (sourceLines c) = fixedFunctions ++ (functions c).map Function.opened ∧
      ((∀ f ∈ functions c, f.Legal) ↔ ∀ item ∈ (plan c).items, item.Fit) ∧
      (∀ t ∈ c.components,
        ((methodOf (identifier t.name) t).Legal ↔
          snakeCase t.name ∉ unescapedWords ∧ Usable t.params) ∧
        ((variantOf (overridesName (identifier t.name)) t).Legal ↔
          Usable t.params ∧ ∀ p ∈ t.params, snakeCase p.name ≠ "tx")) ∧
      ∀ reader : Reader, ∀ slot ∈ reader.slots c,
        (accessorOf (identifier slot.name) reader slot).Legal ↔
          snakeCase slot.name ∉ unescapedWords := by
  refine ⟨declared_source c, ?_, ?_, ?_⟩
  · simp only [functions, List.forall_mem_flatMap]
    exact forall₂_congr fun item member => item_legal named (plan_from c item member)
  · intro t member
    obtain ⟨word, params⟩ := named.components t member
    exact ⟨method_legal word params, variant_legal word params⟩
  · intro reader slot member
    exact accessor_legal (named.slots reader slot member)

theorem shop_legal : Named shop ∧ ∀ f ∈ functions shop, f.Legal := by
  have fit : ∀ item ∈ (plan shop).items, item.Fit := by
    decide
  exact ⟨shop_named, (signatures_legal_iff shop shop_named).2.1.mpr fit⟩

def errand : Contract where
  name := "Errand"
  params := some []
  fields := []
  components := [⟨"CompTrans", "do", []⟩]
  constructors := []

theorem errand_illegal : Named errand ∧
    (∀ t ∈ errand.components, (t.params.map (·.name)).Nodup) ∧
    (functions errand).map (·.name) = ["do", "do_with"] ∧ "do" ∈ languageWords ∧
    ∃ f ∈ functions errand, ¬f.Legal := by
  have named : Named errand := by
    constructor
    · decide
    · rintro (_ | _) <;> decide
  refine ⟨named, by decide, by decide, by decide,
    methodOf "do" ⟨"CompTrans", "do", []⟩, by decide, fun legal => ?_⟩
  exact (legal.words "do" List.mem_cons_self).1 (by decide)

end TypedContracts.Wrapper

import TypedContracts.Json.Reader
import TypedContracts.Proofs.Json.Lexing

/-!
Reading printed JSON without numbers. What is nested too deep comes back without a value, everything
else as it was written.
-/
namespace TypedContracts.Json

mutual
def Numberless : Json → Prop
  | .integer _ => False
  | .binary _ => False
  | .array items => NumberlessItems items
  | .object members => NumberlessMembers members
  | .null | .bool _ | .text _ => True
def NumberlessItems : List Json → Prop
  | [] => True
  | item :: rest => Numberless item ∧ NumberlessItems rest
def NumberlessMembers : List (String × Json) → Prop
  | [] => True
  | (_, value) :: rest => Numberless value ∧ NumberlessMembers rest
end

mutual
def tokens : Json → List Lexeme
  | .text s => [.text (some s)]
  | .array [] => [.openArray, .closeArray]
  | .array (item :: rest) => .openArray :: (tokens item ++ itemTokens rest)
  | .object [] => [.openObject, .closeObject]
  | .object ((key, value) :: rest) =>
    .openObject :: .text (some key) :: .colon :: (tokens value ++ memberTokens rest)
  | other => [.scalar (some other)]
def itemTokens : List Json → List Lexeme
  | [] => [.closeArray]
  | item :: rest => .comma :: (tokens item ++ itemTokens rest)
def memberTokens : List (String × Json) → List Lexeme
  | [] => [.closeObject]
  | (key, value) :: rest =>
    .comma :: .text (some key) :: .colon :: (tokens value ++ memberTokens rest)
end

theorem lexed_literal {c : Char} {word : List Char} {j : Json}
    (begins : beginLexeme c = ([], .word [c])) (chars : word.all isWordChar = true)
    (names : wordLexeme (word.reverse ++ [c]) = .scalar (some j)) {cs : List Char}
    (ends : Ends cs) :
    lexed .between (c :: word ++ cs) = [.scalar (some j)] ++ lexed .between cs := by
  have rest := lexed_word [c] (List.all_eq_true.mp chars) ends
  rw [names] at rest
  simp only [List.cons_append, lexed, lexStep, begins, rest, List.nil_append]

theorem ends_items (level : Nat) (items : List Json) (cs : List Char) :
    Ends (prettyItems level items ++ cs) := by
  cases items with
  | nil => simp [Ends, prettyItems, newline, isWordChar]
  | cons item items => simp [Ends, prettyItems, isWordChar]

theorem ends_members (level : Nat) (members : List (String × Json)) (cs : List Char) :
    Ends (prettyMembers level members ++ cs) := by
  cases members with
  | nil => simp [Ends, prettyMembers, newline, isWordChar]
  | cons member members => simp [Ends, prettyMembers, isWordChar]

theorem lexed_mark {c : Char} {lexeme : Lexeme} (mark : beginLexeme c = ([lexeme], .between))
    (cs : List Char) : lexed .between (c :: cs) = lexeme :: lexed .between cs := by
  simp [lexed, lexStep, mark]

mutual
theorem lexed_pretty : (j : Json) → Numberless j → ∀ (level : Nat) (cs : List Char), Ends cs →
    lexed .between (prettyChars level j ++ cs) = tokens j ++ lexed .between cs
  | .null, _ => by
    intro level cs ends
    exact lexed_literal rfl (by decide) rfl ends
  | .bool true, _ => by
    intro level cs ends
    exact lexed_literal rfl (by decide) rfl ends
  | .bool false, _ => by
    intro level cs ends
    exact lexed_literal rfl (by decide) rfl ends
  | .integer _, numberless => numberless.elim
  | .binary _, numberless => numberless.elim
  | .text s, _ => by
    intro level cs _
    exact lexed_text s cs
  | .array [], _ => by
    intro level cs _
    simp [prettyChars, tokens, lexed_mark (c := '[') rfl, lexed_mark (c := ']') rfl]
  | .array (item :: rest), numberless => by
    intro level cs ends
    have first := lexed_pretty item numberless.1 (level + 1) (prettyItems level rest ++ cs)
      (ends_items level rest cs)
    have later := lexed_items rest numberless.2 level cs
    simp only [prettyChars, tokens, List.cons_append, List.append_assoc]
    rw [lexed_mark rfl, lexed_newline, first, later]
  | .object [], _ => by
    intro level cs _
    simp [prettyChars, tokens, lexed_mark (c := '\x7b') rfl, lexed_mark (c := '\x7d') rfl]
  | .object ((key, value) :: rest), numberless => by
    intro level cs ends
    have first := lexed_pretty value numberless.1 (level + 1) (prettyMembers level rest ++ cs)
      (ends_members level rest cs)
    have later := lexed_members rest numberless.2 level cs
    simp only [prettyChars, tokens, List.cons_append, List.append_assoc, List.nil_append]
    rw [lexed_mark rfl, lexed_newline, lexed_text, lexed_mark rfl, lexed_blank rfl, first, later]
theorem lexed_items : (items : List Json) → NumberlessItems items → ∀ (level : Nat)
    (cs : List Char),
    lexed .between (prettyItems level items ++ cs) = itemTokens items ++ lexed .between cs
  | [], _ => by
    intro level cs
    simp only [prettyItems, itemTokens, List.append_assoc, List.cons_append, List.nil_append]
    rw [lexed_newline, lexed_mark rfl]
  | item :: rest, numberless => by
    intro level cs
    have first := lexed_pretty item numberless.1 (level + 1) (prettyItems level rest ++ cs)
      (ends_items level rest cs)
    have later := lexed_items rest numberless.2 level cs
    simp only [prettyItems, itemTokens, List.cons_append, List.append_assoc]
    rw [lexed_mark rfl, lexed_newline, first, later]
theorem lexed_members : (members : List (String × Json)) → NumberlessMembers members →
    ∀ (level : Nat) (cs : List Char),
    lexed .between (prettyMembers level members ++ cs) = memberTokens members ++ lexed .between cs
  | [], _ => by
    intro level cs
    simp only [prettyMembers, memberTokens, List.append_assoc, List.cons_append, List.nil_append]
    rw [lexed_newline, lexed_mark rfl]
  | (key, value) :: rest, numberless => by
    intro level cs
    have first := lexed_pretty value numberless.1 (level + 1) (prettyMembers level rest ++ cs)
      (ends_members level rest cs)
    have later := lexed_members rest numberless.2 level cs
    simp only [prettyMembers, memberTokens, List.cons_append, List.append_assoc, List.nil_append]
    rw [lexed_mark rfl, lexed_newline, lexed_text, lexed_mark rfl, lexed_blank rfl, first, later]
end

mutual
def clip (limit depth : Nat) : Json → Raw
  | .array items =>
    if depth < limit then .array (clipItems limit (depth + 1) items) else .leaf none
  | .object members =>
    if depth < limit then .object (clipMembers limit (depth + 1) members) else .leaf none
  | other => .leaf (some other)
def clipItems (limit depth : Nat) : List Json → List Raw
  | [] => []
  | item :: rest => clip limit depth item :: clipItems limit depth rest
def clipMembers (limit depth : Nat) : List (String × Json) → List (Option String × Raw)
  | [] => []
  | (key, value) :: rest => (some key, clip limit depth value) :: clipMembers limit depth rest
end

def run (limit : Nat) (state : Expect × List Frame) (lexemes : List Lexeme) :
    Option (Expect × List Frame) :=
  lexemes.foldlM (fun state lexeme => accept limit lexeme state) state

theorem run_cons {limit : Nat} {state next : Expect × List Frame} {lexeme : Lexeme}
    (step : accept limit lexeme state = some next) (lexemes : List Lexeme) :
    run limit state (lexeme :: lexemes) = run limit next lexemes := by
  simp [run, step]

theorem run_first (limit : Nat) (j : Json) (stack : List Frame) (lexemes : List Lexeme) :
    run limit (.valueOrClose, stack) (tokens j ++ lexemes) =
      run limit (.value, stack) (tokens j ++ lexemes) := by
  have head : ∃ lexeme rest, tokens j = lexeme :: rest ∧ lexeme ≠ .closeArray := by
    cases j with
    | array items => cases items <;> exact ⟨_, _, rfl, by simp⟩
    | object members => cases members <;> exact ⟨_, _, rfl, by simp⟩
    | _ => exact ⟨_, _, rfl, by simp⟩
  obtain ⟨lexeme, rest, eq, other⟩ := head
  have same : accept limit lexeme (.valueOrClose, stack) = accept limit lexeme (.value, stack) := by
    cases lexeme <;> simp_all [accept]
  simp [run, eq, same]

mutual
theorem run_tokens (limit : Nat) : (j : Json) → ∀ (stack : List Frame) (lexemes : List Lexeme),
    run limit (.value, stack) (tokens j ++ lexemes) =
      run limit (settle (clip limit stack.length j) stack) lexemes
  | .null => by
    intro stack lexemes
    exact run_cons rfl lexemes
  | .bool _ => by
    intro stack lexemes
    exact run_cons rfl lexemes
  | .integer _ => by
    intro stack lexemes
    exact run_cons rfl lexemes
  | .binary _ => by
    intro stack lexemes
    exact run_cons rfl lexemes
  | .text _ => by
    intro stack lexemes
    exact run_cons rfl lexemes
  | .array [] => by
    intro stack lexemes
    simp only [tokens, List.cons_append, List.nil_append]
    rw [run_cons rfl, run_cons rfl, clip]
    rfl
  | .array (item :: rest) => by
    intro stack lexemes
    simp only [tokens, List.cons_append, List.append_assoc]
    rw [run_cons rfl, run_first, run_tokens limit item, settle, run_items limit rest, clip]
    rfl
  | .object [] => by
    intro stack lexemes
    simp only [tokens, List.cons_append, List.nil_append]
    rw [run_cons rfl, run_cons rfl, clip]
    rfl
  | .object ((key, value) :: rest) => by
    intro stack lexemes
    simp only [tokens, List.cons_append, List.append_assoc]
    rw [run_cons rfl, run_cons rfl, run_cons rfl, run_tokens limit value, settle,
      run_members limit rest, clip]
    rfl
theorem run_items (limit : Nat) : (items : List Json) → ∀ (read : List Raw) (stack : List Frame)
    (lexemes : List Lexeme),
    run limit (.comma, .items read :: stack) (itemTokens items ++ lexemes) =
      run limit
        (close limit (.array (read.reverse ++ clipItems limit (stack.length + 1) items)) stack)
        lexemes
  | [] => by
    intro read stack lexemes
    simp only [itemTokens, clipItems, List.append_nil]
    exact run_cons rfl lexemes
  | item :: rest => by
    intro read stack lexemes
    simp only [itemTokens, List.cons_append, List.append_assoc]
    rw [run_cons rfl, run_tokens limit item, settle, run_items limit rest]
    simp [clipItems]
theorem run_members (limit : Nat) : (members : List (String × Json)) →
    ∀ (read : List (Option String × Raw)) (key : Option String) (stack : List Frame)
    (lexemes : List Lexeme),
    run limit (.comma, .members read key :: stack) (memberTokens members ++ lexemes) =
      run limit
        (close limit (.object (read.reverse ++ clipMembers limit (stack.length + 1) members)) stack)
        lexemes
  | [] => by
    intro read key stack lexemes
    simp only [memberTokens, clipMembers, List.append_nil]
    exact run_cons rfl lexemes
  | (name, value) :: rest => by
    intro read key stack lexemes
    simp only [memberTokens, List.cons_append, List.append_assoc]
    rw [run_cons rfl, run_cons rfl, run_cons rfl, run_tokens limit value, settle,
      run_members limit rest]
    simp [clipMembers]
end

theorem parse_pretty (limit : Nat) {j : Json} (numberless : Numberless j) :
    Raw.parseWithin? limit j.pretty = some (clip limit 0 j) := by
  have nothing : Ends [] := by simp [Ends]
  have printed := lexed_pretty j numberless 0 [] nothing
  have whole := run_tokens limit j [] []
  simp only [List.append_nil, lexed, lexFinish] at printed whole
  unfold Raw.parseWithin?
  rw [pretty, String.toList_ofList, lexemes_eq_lexed, printed]
  unfold run at whole
  rw [whole]
  rfl

end TypedContracts.Json

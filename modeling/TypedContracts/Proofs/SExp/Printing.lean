import TypedContracts.Proofs.SExp.Reading
import TypedContracts.Proofs.Text.Utf8
import TypedContracts.SExp.Printer

/-!
Reading what was printed. A tree is legible when no quoted atom of it holds a character that has to
be spelt by number, nor the null character; printing a legible tree writes an expression of the
grammar that stands for it.
-/
namespace TypedContracts.SExp
open TypedContracts.Text

/-- Quoted text shows the character itself or by a letter behind a backslash. -/
def Showable (c : Char) : Prop :=
  c ∈ ['\t', '\n', '\r'] ∨ (c ≠ Char.ofNat 0 ∧ isHidden c = false)

mutual
def Legible : SExp → Prop
  | .atom text => needsQuotes text.toList = true → ∀ c ∈ text.toList, Showable c
  | .list items => LegibleItems items
def LegibleItems : List SExp → Prop
  | [] => True
  | item :: rest => Legible item ∧ LegibleItems rest
end

theorem legibleItems_iff (items : List SExp) :
    LegibleItems items ↔ ∀ item ∈ items, Legible item := by
  induction items with
  | nil => simp [LegibleItems]
  | cons item items ih => simp [LegibleItems, ih]

theorem escape_spells {c : Char} (showable : Showable c) {cs : List Char} {bytes : List UInt8}
    (rest : Spelling cs bytes) :
    Spelling (escapeChar c ++ cs) (String.utf8EncodeChar c ++ bytes) := by
  by_cases tab : c = '\t'
  · subst tab
    exact .escape .tab rest
  by_cases newline : c = '\n'
  · subst newline
    exact .escape .newline rest
  by_cases carriage : c = '\r'
  · subst carriage
    exact .escape .carriageReturn rest
  obtain ⟨null, hidden⟩ : c ≠ Char.ofNat 0 ∧ isHidden c = false := by
    simpa [Showable, tab, newline, carriage] using showable
  by_cases quote : c = '"'
  · subst quote
    exact .escape .doubleQuote rest
  by_cases backslash : c = '\\'
  · subst backslash
    exact .escape .backslash rest
  · have plain : escapeChar c = [c] := by
      simp [escapeChar, tab, newline, carriage, null, hidden, quote, backslash]
    rw [plain]
    exact .raw quote backslash rest

theorem escaped_spelling {cs : List Char} (showable : ∀ c ∈ cs, Showable c) :
    Spelling (cs.flatMap escapeChar) (Utf8.encode cs) := by
  induction cs with
  | nil => exact .nil
  | cons c cs ih =>
    have rest := ih fun d member => showable d (List.mem_cons_of_mem c member)
    exact escape_spells (showable c List.mem_cons_self) rest

theorem plain_word {cs : List Char} (plain : needsQuotes cs = false) : Word cs := by
  obtain ⟨present, delimiters⟩ : cs ≠ [] ∧ ∀ c ∈ cs, isDelimiter c = false := by
    simpa [needsQuotes] using plain
  exact ⟨present, fun c member => (not_delimiter_iff c).mp (delimiters c member)⟩

theorem renderAtom_expression (text : String)
    (legible : needsQuotes text.toList = true → ∀ c ∈ text.toList, Showable c) :
    Expression (renderAtom text.toList) (.atom text) := by
  unfold renderAtom
  split
  · rename_i quotes
    have spelt := escaped_spelling (legible quotes)
    have whole := Expression.quoted spelt
    rw [Utf8.decodeLossy_encode, String.ofList_toList] at whole
    exact whole
  · rename_i plain
    have whole := Expression.word (plain_word (by simpa using plain))
    rw [String.ofList_toList] at whole
    exact whole

mutual
theorem render_expression : (tree : SExp) → Legible tree → Expression (renderChars tree) tree
  | .atom text, legible => renderAtom_expression text legible
  | .list items, legible => by
    obtain ⟨inner, whole, row⟩ := renderItems_items items legible
    rw [renderChars, whole]
    exact .list row
theorem renderItems_items : (items : List SExp) → LegibleItems items →
    ∃ inner, renderItems items = inner ++ [')'] ∧ Items inner items
  | [], _ => ⟨[], rfl, .nil⟩
  | item :: rest, ⟨first, later⟩ => by
    obtain ⟨inner, whole, apart, row⟩ := renderRest_items rest later
    refine ⟨renderChars item ++ inner, by simp [renderItems, whole], ?_⟩
    exact .item (render_expression item first) (fun _ => apart) row
theorem renderRest_items : (items : List SExp) → LegibleItems items →
    ∃ inner, renderRest items = inner ++ [')'] ∧ Apart inner ∧ Items inner items
  | [], _ => ⟨[], rfl, apart_nil, .nil⟩
  | item :: rest, ⟨first, later⟩ => by
    obtain ⟨inner, whole, apart, row⟩ := renderRest_items rest later
    have space : isBlank ' ' = true := by decide
    refine ⟨' ' :: (renderChars item ++ inner), by simp [renderRest, whole],
      apart_cons.mpr (blank_not_word space), ?_⟩
    exact .blank space (.item (render_expression item first) (fun _ => apart) row)
end

theorem parse_render (tree : SExp) (legible : Legible tree) : parse (render tree) = .ok tree := by
  have nothing : Blanks [] := by simp [Blanks]
  rw [parse_iff_denotes, render, String.toList_ofList]
  exact ⟨[], renderChars tree, [], by simp, nothing, nothing, render_expression tree legible⟩

end TypedContracts.SExp

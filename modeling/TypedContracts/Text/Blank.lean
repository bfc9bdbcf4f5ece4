/-!
White space, lines and words of a text. Text is taken apart as a list of characters; `String`
wrappers stand at the end. A blank is any character with the Unicode property White_Space.
-/
namespace TypedContracts.Text

/-- Code points of the property White_Space, as inclusive ranges. -/
def blankRanges : List (Nat × Nat) :=
  [(0x9, 0xd), (0x20, 0x20), (0x85, 0x85), (0xa0, 0xa0), (0x1680, 0x1680), (0x2000, 0x200a),
   (0x2028, 0x2029), (0x202f, 0x202f), (0x205f, 0x205f), (0x3000, 0x3000)]

def inRanges (ranges : List (Nat × Nat)) (n : Nat) : Bool :=
  ranges.any fun r => decide (r.1 ≤ n) && decide (n ≤ r.2)

def isBlank (c : Char) : Bool := inRanges blankRanges c.toNat

def isGap (c : Char) : Bool := c == ' ' || c == '\t'

def trimEnd (cs : List Char) : List Char := (cs.reverse.dropWhile isBlank).reverse

def dropAround (drop : Char → Bool) (cs : List Char) : List Char :=
  ((cs.dropWhile drop).reverse.dropWhile drop).reverse

def trim (cs : List Char) : List Char := dropAround isBlank cs

/-- The stretches between the characters that satisfy `cut`; one more than there are cuts. -/
def splitAt (cut : Char → Bool) (cs : List Char) : List (List Char) :=
  cs.foldr (fun c pieces =>
    if cut c then [] :: pieces
    else match pieces with
      | [] => [[c]]
      | piece :: rest => (c :: piece) :: rest) [[]]

def words (cs : List Char) : List (List Char) :=
  (splitAt isBlank cs).filter fun w => !w.isEmpty

/-- A carriage return right before the line end belongs to the line end. -/
def dropReturn (line : List Char) : List Char :=
  match line.reverse with
  | '\r' :: rest => rest.reverse
  | _ => line

/-- Every line but an unfinished last one was closed by a newline; an empty unfinished one is none. -/
def closeLines : List (List Char) → List (List Char)
  | [] => []
  | [last] => if last.isEmpty then [] else [last]
  | line :: next :: rest => dropReturn line :: closeLines (next :: rest)

def lines (cs : List Char) : List (List Char) := closeLines (splitAt (· == '\n') cs)

def joinWith (separator : List Char) : List (List Char) → List Char
  | [] => []
  | [piece] => piece
  | piece :: next :: rest => piece ++ separator ++ joinWith separator (next :: rest)

def trimmed (s : String) : String := String.ofList (trim s.toList)

def hasNull (s : String) : Bool := s.toList.contains (Char.ofNat 0)

def isBlankText (s : String) : Bool := s.toList.all isBlank

def startsWith (part s : String) : Bool := part.toList.isPrefixOf s.toList

def endsWith (part s : String) : Bool := part.toList.isSuffixOf s.toList

end TypedContracts.Text

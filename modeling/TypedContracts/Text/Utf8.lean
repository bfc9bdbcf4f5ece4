/-!
UTF-8 in both directions. `decode` refuses an ill-formed sequence; `decodeLossy` puts U+FFFD for
each maximal part of one. Both run the same one-byte-at-a-time machine.
-/
namespace TypedContracts.Text.Utf8

def encode (cs : List Char) : List UInt8 := cs.flatMap String.utf8EncodeChar

/-- Where a decoder stands: between characters, or with `left` bytes of one to come, of which the
next lies in `low … high`; `value` holds the bits read so far. -/
inductive Await where
  | start
  | continuation (left value low high : Nat)
deriving DecidableEq, Repr

inductive Yield where
  | nothing
  | character (c : Char)
  | fault
deriving DecidableEq, Repr

def opening (b : Nat) : Yield × Await :=
  if b < 0x80 then (.character (Char.ofNat b), .start)
  else if b < 0xc2 then (.fault, .start)
  else if b < 0xe0 then (.nothing, .continuation 1 (b - 0xc0) 0x80 0xbf)
  else if b = 0xe0 then (.nothing, .continuation 2 0 0xa0 0xbf)
  else if b = 0xed then (.nothing, .continuation 2 0xd 0x80 0x9f)
  else if b < 0xf0 then (.nothing, .continuation 2 (b - 0xe0) 0x80 0xbf)
  else if b = 0xf0 then (.nothing, .continuation 3 0 0x90 0xbf)
  else if b < 0xf4 then (.nothing, .continuation 3 (b - 0xf0) 0x80 0xbf)
  else if b = 0xf4 then (.nothing, .continuation 3 4 0x80 0x8f)
  else (.fault, .start)

/-- A byte that cannot continue a character ends it with a fault and opens the next one. -/
def step : Await → UInt8 → List Yield × Await
  | .start, b => let (y, next) := opening b.toNat; ([y], next)
  | .continuation left value low high, b =>
    if low ≤ b.toNat ∧ b.toNat ≤ high then
      let value := value * 64 + b.toNat % 64
      if left ≤ 1 then ([.character (Char.ofNat value)], .start)
      else ([.nothing], .continuation (left - 1) value 0x80 0xbf)
    else
      let (y, next) := opening b.toNat
      ([.fault, y], next)

def finish : Await → List Yield
  | .start => []
  | .continuation .. => [.fault]

structure Progress where
  await : Await
  yields : List Yield

def yields (bytes : List UInt8) : List Yield :=
  let p := bytes.foldl (fun (p : Progress) b =>
    let (ys, next) := step p.await b
    ⟨next, ys.reverse ++ p.yields⟩) ⟨.start, []⟩
  p.yields.reverse ++ finish p.await

def replacement : Char := Char.ofNat 0xfffd

def Yield.lossy : Yield → List Char
  | .nothing => []
  | .character c => [c]
  | .fault => [replacement]

def decodeLossy (bytes : List UInt8) : List Char := (yields bytes).flatMap Yield.lossy

def decode (bytes : List UInt8) : Option (List Char) :=
  if (yields bytes).contains .fault then none else some (decodeLossy bytes)

def bytesOf (s : String) : List UInt8 := s.toUTF8.toList

end TypedContracts.Text.Utf8

import Mathlib
import TypedContracts.Text.Utf8

/-!
Decoding undoes encoding, and only what was encoded decodes. The bytes of one character take the
decoder from between characters to between characters again and yield that character alone; bytes
that yield no fault begin with those of a character. Texts are ordered as their bytes are.
-/
namespace TypedContracts.Text.Utf8

def run : Await → List UInt8 → List Yield
  | await, [] => finish await
  | await, b :: bytes => (step await b).1 ++ run (step await b).2 bytes

theorem progress_eq_run (bytes : List UInt8) (p : Progress) :
    (bytes.foldl (fun (p : Progress) b =>
      let (ys, next) := step p.await b
      ⟨next, ys.reverse ++ p.yields⟩) p).yields.reverse ++
    finish (bytes.foldl (fun (p : Progress) b =>
      let (ys, next) := step p.await b
      ⟨next, ys.reverse ++ p.yields⟩) p).await = p.yields.reverse ++ run p.await bytes := by
  induction bytes generalizing p with
  | nil => rfl
  | cons b bytes ih =>
    simp only [List.foldl_cons]
    rw [ih]
    simp [run]

theorem yields_eq_run (bytes : List UInt8) : yields bytes = run .start bytes :=
  progress_eq_run bytes ⟨.start, []⟩

theorem run_last {value low high : Nat} {b : UInt8} (lower : low ≤ b.toNat)
    (upper : b.toNat ≤ high) (bytes : List UInt8) :
    run (.continuation 1 value low high) (b :: bytes) =
      .character (Char.ofNat (value * 64 + b.toNat % 64)) :: run .start bytes := by
  simp [run, step, lower, upper]

theorem run_further (left : Nat) {value low high : Nat} {b : UInt8} (lower : low ≤ b.toNat)
    (upper : b.toNat ≤ high) (bytes : List UInt8) :
    run (.continuation (left + 2) value low high) (b :: bytes) =
      .nothing :: run (.continuation (left + 1) (value * 64 + b.toNat % 64) 0x80 0xbf) bytes := by
  simp [run, step, lower, upper]

theorem run_opening (b : UInt8) (bytes : List UInt8) :
    run .start (b :: bytes) = (opening b.toNat).1 :: run (opening b.toNat).2 bytes := rfl

theorem byte_toNat {n : Nat} (bound : n < 256) : (UInt8.ofNat n).toNat = n := by
  simp [Nat.mod_eq_of_lt bound]

theorem run_two_left {v low high : Nat} (lower : low ≤ v / 64 % 0x40 + 0x80)
    (upper : v / 64 % 0x40 + 0x80 ≤ high) (bytes : List UInt8) :
    run (.continuation 2 (v / 4096) low high)
        (UInt8.ofNat (v / 64 % 0x40 + 0x80) :: UInt8.ofNat (v % 0x40 + 0x80) :: bytes) =
      .nothing :: .character (Char.ofNat v) :: run .start bytes := by
  have second : (UInt8.ofNat (v / 64 % 0x40 + 0x80)).toNat = v / 64 % 0x40 + 0x80 :=
    byte_toNat (by omega)
  have last : (UInt8.ofNat (v % 0x40 + 0x80)).toNat = v % 0x40 + 0x80 := byte_toNat (by omega)
  rw [run_further 0 (by omega) (by omega), run_last (by omega) (by omega), second, last]
  congr 4
  omega

theorem opening_of_three {v : Nat} (lower : 0x7ff < v) (upper : v ≤ 0xffff)
    (scalar : v < 0xd800 ∨ 0xdfff < v) :
    ∃ low high, opening (v / 4096 % 0x10 + 0xe0) = (.nothing, .continuation 2 (v / 4096) low high) ∧
      low ≤ v / 64 % 0x40 + 0x80 ∧ v / 64 % 0x40 + 0x80 ≤ high := by
  have small : v / 4096 < 16 := by omega
  rw [Nat.mod_eq_of_lt small, opening, if_neg (by omega), if_neg (by omega), if_neg (by omega)]
  by_cases least : v / 4096 = 0
  · exact ⟨0xa0, 0xbf, by simp [least], by omega, by omega⟩
  by_cases surrogates : v / 4096 = 13
  · exact ⟨0x80, 0x9f, by simp [surrogates], by omega, by omega⟩
  · refine ⟨0x80, 0xbf, ?_, by omega, by omega⟩
    rw [if_neg (by omega), if_neg (by omega), if_pos (by omega), Nat.add_sub_cancel]

theorem opening_of_four {v : Nat} (lower : 0xffff < v) (upper : v ≤ 0x10ffff) :
    ∃ low high, opening (v / 262144 % 0x08 + 0xf0) =
        (.nothing, .continuation 3 (v / 262144) low high) ∧
      low ≤ v / 4096 % 0x40 + 0x80 ∧ v / 4096 % 0x40 + 0x80 ≤ high := by
  have small : v / 262144 < 8 := by omega
  rw [Nat.mod_eq_of_lt small, opening, if_neg (by omega), if_neg (by omega), if_neg (by omega),
    if_neg (by omega), if_neg (by omega), if_neg (by omega)]
  by_cases least : v / 262144 = 0
  · exact ⟨0x90, 0xbf, by simp [least], by omega, by omega⟩
  by_cases greatest : v / 262144 = 4
  · exact ⟨0x80, 0x8f, by simp [greatest], by omega, by omega⟩
  · refine ⟨0x80, 0xbf, ?_, by omega, by omega⟩
    rw [if_neg (by omega), if_pos (by omega), Nat.add_sub_cancel]

theorem scalar_bounds (c : Char) :
    c.val.toNat ≤ 0x10ffff ∧ (c.val.toNat < 0xd800 ∨ 0xdfff < c.val.toNat) := by
  have valid := c.valid
  simp only [UInt32.isValidChar, Nat.isValidChar] at valid
  omega

/-- The bytes of a character yield it, after one empty answer for each but the last. -/
theorem run_character (c : Char) (bytes : List UInt8) :
    ∃ further, run .start (String.utf8EncodeChar c ++ bytes) =
      List.replicate further .nothing ++ .character c :: run .start bytes := by
  obtain ⟨upper, scalar⟩ := scalar_bounds c
  have same : Char.ofNat c.val.toNat = c := Char.ofNat_toNat c
  simp only [String.utf8EncodeChar]
  generalize c.val.toNat = v at upper scalar same
  subst same
  split
  · refine ⟨0, ?_⟩
    rw [List.cons_append, run_opening, byte_toNat (by omega), opening, if_pos (by omega)]
    rfl
  split
  · refine ⟨1, ?_⟩
    have last : (UInt8.ofNat (v % 0x40 + 0x80)).toNat = v % 0x40 + 0x80 := byte_toNat (by omega)
    have whole : (v / 64 % 0x20 + 0xc0 - 0xc0) * 64 + (v % 0x40 + 0x80) % 64 = v := by omega
    simp only [List.cons_append, List.nil_append]
    rw [run_opening, byte_toNat (by omega), opening, if_neg (by omega), if_neg (by omega),
      if_pos (by omega), run_last (by omega) (by omega), last, whole]
    rfl
  split
  · obtain ⟨low, high, first, lower, bound⟩ := opening_of_three (by omega) (by assumption) scalar
    refine ⟨2, ?_⟩
    simp only [List.cons_append, List.nil_append]
    rw [run_opening, byte_toNat (by omega), first, run_two_left lower bound]
    rfl
  · obtain ⟨low, high, first, lower, bound⟩ := opening_of_four (by omega) upper
    have second : (UInt8.ofNat (v / 4096 % 0x40 + 0x80)).toNat = v / 4096 % 0x40 + 0x80 :=
      byte_toNat (by omega)
    have whole : v / 262144 * 64 + (v / 4096 % 0x40 + 0x80) % 64 = v / 4096 := by omega
    refine ⟨3, ?_⟩
    simp only [List.cons_append, List.nil_append]
    rw [run_opening, byte_toNat (by omega), first, run_further 1 (by omega) (by omega), second,
      whole, run_two_left (by omega) (by omega)]
    rfl

theorem run_encode (cs : List Char) (bytes : List UInt8) :
    (run .start (encode cs ++ bytes)).flatMap Yield.lossy =
        cs ++ (run .start bytes).flatMap Yield.lossy ∧
      ((run .start (encode cs ++ bytes)).contains .fault = (run .start bytes).contains .fault) := by
  induction cs with
  | nil => exact ⟨rfl, rfl⟩
  | cons c cs ih =>
    obtain ⟨further, first⟩ := run_character c (encode cs ++ bytes)
    have whole : encode (c :: cs) ++ bytes = String.utf8EncodeChar c ++ (encode cs ++ bytes) := by
      simp [encode]
    rw [whole, first]
    constructor
    · simp [Yield.lossy, ih.1]
    · rw [List.contains_append, List.contains_cons, ih.2]
      simp

theorem decodeLossy_encode (cs : List Char) : decodeLossy (encode cs) = cs := by
  have whole := (run_encode cs []).1
  simpa [decodeLossy, yields_eq_run, run, finish] using whole

theorem decode_encode (cs : List Char) : decode (encode cs) = some cs := by
  have clean := (run_encode cs []).2
  have none : (yields (encode cs)).contains .fault = false := by
    rw [yields_eq_run]
    simpa [run, finish] using clean
  rw [decode, none, decodeLossy_encode]
  rfl

theorem next_of_clean {left value low high : Nat} {bytes : List UInt8}
    (clean : Yield.fault ∉ run (.continuation left value low high) bytes) :
    ∃ b rest, bytes = b :: rest ∧ low ≤ b.toNat ∧ b.toNat ≤ high ∧
      (1 < left →
        Yield.fault ∉ run (.continuation (left - 1) (value * 64 + b.toNat % 64) 0x80 0xbf) rest) := by
  cases bytes with
  | nil => simp [run, finish] at clean
  | cons b rest =>
    by_cases within : low ≤ b.toNat ∧ b.toNat ≤ high
    · refine ⟨b, rest, rfl, within.1, within.2, fun more => ?_⟩
      rw [run, step, if_pos within, if_neg (Nat.not_le.mpr more)] at clean
      simpa using clean
    · rw [run, step, if_neg within] at clean
      simp at clean

theorem byte_of_value {n : Nat} {b : UInt8} (value : n = b.toNat) : UInt8.ofNat n = b := by
  rw [value, UInt8.ofNat_toNat]

theorem value_of_scalar {n : Nat} (upper : n ≤ 0x10ffff) (scalar : n < 0xd800 ∨ 0xdfff < n) :
    (Char.ofNat n).val.toNat = n := by
  have valid : n.isValidChar := by
    unfold Nat.isValidChar
    omega
  simp [Char.ofNat, valid]

theorem one_byte {b : UInt8} (upper : b.toNat < 0x80) :
    String.utf8EncodeChar (Char.ofNat b.toNat) = [b] := by
  have value := value_of_scalar (n := b.toNat) (by omega) (by omega)
  simp only [String.utf8EncodeChar, value]
  rw [if_pos (by omega), byte_of_value rfl]

theorem two_bytes {a b : UInt8} (lower : 0xc2 ≤ a.toNat) (upper : a.toNat < 0xe0)
    (low : 0x80 ≤ b.toNat) (high : b.toNat ≤ 0xbf) :
    String.utf8EncodeChar (Char.ofNat ((a.toNat - 0xc0) * 64 + b.toNat % 64)) = [a, b] := by
  have value := value_of_scalar (n := (a.toNat - 0xc0) * 64 + b.toNat % 64) (by omega) (by omega)
  simp only [String.utf8EncodeChar, value]
  rw [if_neg (by omega), if_pos (by omega)]
  rw [byte_of_value (b := a) (by omega), byte_of_value (b := b) (by omega)]

theorem three_bytes {a b c : UInt8} (lower : 0xe0 ≤ a.toNat) (upper : a.toNat < 0xf0)
    (low : 0x80 ≤ b.toNat) (high : b.toNat ≤ 0xbf) (least : a.toNat = 0xe0 → 0xa0 ≤ b.toNat)
    (surrogates : a.toNat = 0xed → b.toNat ≤ 0x9f) (last : 0x80 ≤ c.toNat ∧ c.toNat ≤ 0xbf) :
    String.utf8EncodeChar
      (Char.ofNat (((a.toNat - 0xe0) * 64 + b.toNat % 64) * 64 + c.toNat % 64)) = [a, b, c] := by
  have scalar : (a.toNat - 0xe0) * 64 + b.toNat % 64 < 0x360 ∨
      0x37f < (a.toNat - 0xe0) * 64 + b.toNat % 64 := by omega
  have long : 0x1f < (a.toNat - 0xe0) * 64 + b.toNat % 64 := by omega
  have value := value_of_scalar
    (n := ((a.toNat - 0xe0) * 64 + b.toNat % 64) * 64 + c.toNat % 64) (by omega) (by omega)
  simp only [String.utf8EncodeChar, value]
  rw [if_neg (by omega), if_neg (by omega), if_pos (by omega)]
  rw [byte_of_value (b := a) (by omega), byte_of_value (b := b) (by omega),
    byte_of_value (b := c) (by omega)]

theorem four_bytes {a b c d : UInt8} (lower : 0xf0 ≤ a.toNat) (upper : a.toNat ≤ 0xf4)
    (low : 0x80 ≤ b.toNat) (high : b.toNat ≤ 0xbf) (least : a.toNat = 0xf0 → 0x90 ≤ b.toNat)
    (greatest : a.toNat = 0xf4 → b.toNat ≤ 0x8f) (third : 0x80 ≤ c.toNat ∧ c.toNat ≤ 0xbf)
    (last : 0x80 ≤ d.toNat ∧ d.toNat ≤ 0xbf) :
    String.utf8EncodeChar (Char.ofNat
      ((((a.toNat - 0xf0) * 64 + b.toNat % 64) * 64 + c.toNat % 64) * 64 + d.toNat % 64)) =
        [a, b, c, d] := by
  have long : 0xf < (a.toNat - 0xf0) * 64 + b.toNat % 64 := by omega
  have within : (a.toNat - 0xf0) * 64 + b.toNat % 64 ≤ 0x10f := by omega
  have value := value_of_scalar
    (n := (((a.toNat - 0xf0) * 64 + b.toNat % 64) * 64 + c.toNat % 64) * 64 + d.toNat % 64)
    (by omega) (by omega)
  simp only [String.utf8EncodeChar, value]
  rw [if_neg (by omega), if_neg (by omega), if_neg (by omega)]
  rw [byte_of_value (b := a) (by omega), byte_of_value (b := b) (by omega),
    byte_of_value (b := c) (by omega), byte_of_value (b := d) (by omega)]

theorem two_of_clean {a : UInt8} {rest : List UInt8} (lower : 0xc2 ≤ a.toNat)
    (upper : a.toNat < 0xe0)
    (clean : Yield.fault ∉ run (.continuation 1 (a.toNat - 0xc0) 0x80 0xbf) rest) :
    ∃ c others, a :: rest = String.utf8EncodeChar c ++ others := by
  obtain ⟨b, others, rfl, low, high, _⟩ := next_of_clean clean
  exact ⟨_, others, by rw [two_bytes lower upper low high]; rfl⟩

theorem three_of_clean {a : UInt8} {rest : List UInt8} {low high : Nat} (lower : 0xe0 ≤ a.toNat)
    (upper : a.toNat < 0xf0) (least : low = if a.toNat = 0xe0 then 0xa0 else 0x80)
    (greatest : high = if a.toNat = 0xed then 0x9f else 0xbf)
    (clean : Yield.fault ∉ run (.continuation 2 (a.toNat - 0xe0) low high) rest) :
    ∃ c others, a :: rest = String.utf8EncodeChar c ++ others := by
  obtain ⟨b, rest, rfl, second, bound, clean⟩ := next_of_clean clean
  obtain ⟨c, others, rfl, third, last, _⟩ := next_of_clean (clean (by omega))
  have bytes := three_bytes (a := a) (b := b) (c := c) lower upper (by split at least <;> omega)
    (by split at greatest <;> omega) (by intro lead; rw [if_pos lead] at least; omega)
    (by intro lead; rw [if_pos lead] at greatest; omega) ⟨third, last⟩
  exact ⟨_, others, by rw [bytes]; rfl⟩

theorem four_of_clean {a : UInt8} {rest : List UInt8} {low high : Nat} (lower : 0xf0 ≤ a.toNat)
    (upper : a.toNat ≤ 0xf4) (least : low = if a.toNat = 0xf0 then 0x90 else 0x80)
    (greatest : high = if a.toNat = 0xf4 then 0x8f else 0xbf)
    (clean : Yield.fault ∉ run (.continuation 3 (a.toNat - 0xf0) low high) rest) :
    ∃ c others, a :: rest = String.utf8EncodeChar c ++ others := by
  obtain ⟨b, rest, rfl, second, bound, clean⟩ := next_of_clean clean
  obtain ⟨c, rest, rfl, third, thirdBound, clean⟩ := next_of_clean (clean (by omega))
  obtain ⟨d, others, rfl, fourth, last, _⟩ := next_of_clean (clean (by omega))
  have bytes := four_bytes (a := a) (b := b) (c := c) (d := d) lower upper
    (by split at least <;> omega) (by split at greatest <;> omega)
    (by intro lead; rw [if_pos lead] at least; omega)
    (by intro lead; rw [if_pos lead] at greatest; omega) ⟨third, thirdBound⟩ ⟨fourth, last⟩
  exact ⟨_, others, by rw [bytes]; rfl⟩

theorem opening_three {v : Nat} (lower : 0xe0 ≤ v) (upper : v < 0xf0) :
    (opening v).2 = .continuation 2 (v - 0xe0) (if v = 0xe0 then 0xa0 else 0x80)
      (if v = 0xed then 0x9f else 0xbf) := by
  rw [opening, if_neg (by omega), if_neg (by omega), if_neg (by omega)]
  by_cases least : v = 0xe0
  · simp [least]
  by_cases surrogates : v = 0xed
  · simp [surrogates]
  · simp [least, surrogates, upper]

theorem opening_four {v : Nat} (lower : 0xf0 ≤ v) (upper : v ≤ 0xf4) :
    (opening v).2 = .continuation 3 (v - 0xf0) (if v = 0xf0 then 0x90 else 0x80)
      (if v = 0xf4 then 0x8f else 0xbf) := by
  rw [opening, if_neg (by omega), if_neg (by omega), if_neg (by omega), if_neg (by omega),
    if_neg (by omega), if_neg (by omega)]
  by_cases least : v = 0xf0
  · simp [least]
  by_cases greatest : v = 0xf4
  · simp [greatest]
  · have inner : v < 0xf4 := by omega
    simp [least, greatest, inner]

theorem opening_beyond {v : Nat} (beyond : 0xf4 < v) : (opening v).1 = .fault := by
  rw [opening, if_neg (by omega), if_neg (by omega), if_neg (by omega), if_neg (by omega),
    if_neg (by omega), if_neg (by omega), if_neg (by omega), if_neg (by omega), if_neg (by omega)]

theorem character_of_clean {b : UInt8} {rest : List UInt8}
    (clean : Yield.fault ∉ run .start (b :: rest)) :
    ∃ c others, b :: rest = String.utf8EncodeChar c ++ others := by
  rw [run_opening] at clean
  obtain ⟨first, clean⟩ := not_or.mp (mt List.mem_cons.mpr clean)
  by_cases one : b.toNat < 0x80
  · exact ⟨_, rest, by rw [one_byte one]; rfl⟩
  by_cases lead : b.toNat < 0xc2
  · exact absurd (by rw [opening, if_neg one, if_pos lead]) first
  by_cases two : b.toNat < 0xe0
  · rw [opening, if_neg one, if_neg lead, if_pos two] at clean
    exact two_of_clean (by omega) two clean
  by_cases three : b.toNat < 0xf0
  · rw [opening_three (by omega) three] at clean
    exact three_of_clean (by omega) three rfl rfl clean
  by_cases four : b.toNat ≤ 0xf4
  · rw [opening_four (by omega) four] at clean
    exact four_of_clean (by omega) four rfl rfl clean
  · exact absurd (opening_beyond (Nat.not_le.mp four)).symm first

theorem encode_of_clean (bytes : List UInt8) (clean : Yield.fault ∉ run .start bytes) :
    ∃ cs, bytes = encode cs := by
  match bytes with
  | [] => exact ⟨[], rfl⟩
  | b :: rest =>
    obtain ⟨c, others, whole⟩ := character_of_clean clean
    have fewer : others.length ≤ rest.length := by
      have length := congrArg List.length whole
      have some : 0 < (String.utf8EncodeChar c).length := by
        rw [String.length_utf8EncodeChar]
        exact c.utf8Size_pos
      rw [List.length_append, List.length_cons] at length
      omega
    obtain ⟨further, first⟩ := run_character c others
    rw [whole, first] at clean
    have later : Yield.fault ∉ run .start others := by
      intro fault
      exact clean (by simp [fault])
    obtain ⟨cs, rfl⟩ := encode_of_clean others later
    exact ⟨c :: cs, by rw [whole, encode, encode, List.flatMap_cons]⟩
termination_by bytes.length

/-- What decodes is what was encoded. -/
theorem decode_eq_some_iff {bytes : List UInt8} {cs : List Char} :
    decode bytes = some cs ↔ bytes = encode cs := by
  constructor
  · intro decoded
    have clean : Yield.fault ∉ run .start bytes := by
      intro fault
      have faulty : (yields bytes).contains .fault = true := by
        rw [yields_eq_run]
        simpa using fault
      rw [decode, if_pos faulty] at decoded
      cases decoded
    obtain ⟨others, rfl⟩ := encode_of_clean bytes clean
    rw [decode_encode] at decoded
    rw [Option.some.inj decoded]
  · rintro rfl
    exact decode_encode cs

theorem toList_loop (bytes : ByteArray) (i : Nat) (read : List UInt8) :
    ByteArray.toList.loop bytes i read = read.reverse ++ bytes.data.toList.drop i := by
  fun_induction ByteArray.toList.loop bytes i read with
  | case1 i read inside ih =>
    have bound : i < bytes.data.toList.length := inside
    have here : bytes.get! i = bytes.data.toList[i] := getElem!_pos bytes.data i inside
    rw [ih, List.drop_eq_getElem_cons bound, here]
    simp
  | case2 i read outside =>
    have bound : bytes.data.toList.length ≤ i := Nat.not_lt.mp outside
    rw [List.drop_eq_nil_of_le bound, List.append_nil]

theorem bytesOf_eq_encode (s : String) : bytesOf s = encode s.toList := by
  rw [bytesOf, String.toUTF8_eq_toByteArray, ByteArray.toList, toList_loop,
    ← String.utf8Encode_toList, List.utf8Encode, List.toList_data_toByteArray]
  rfl

theorem decode_bytesOf (s : String) : decode (bytesOf s) = some s.toList := by
  rw [bytesOf_eq_encode, decode_encode]

theorem cons_less_iff {m n : Nat} (first : m < 256) (second : n < 256) (xs ys : List UInt8) :
    UInt8.ofNat m :: xs < UInt8.ofNat n :: ys ↔ m < n ∨ m = n ∧ xs < ys := by
  rw [List.cons_lt_cons_iff, UInt8.lt_iff_toNat_lt, ← UInt8.toNat_inj, byte_toNat first,
    byte_toNat second]

theorem character_less {c d : Char} (less : c < d) (xs ys : List UInt8) :
    String.utf8EncodeChar c ++ xs < String.utf8EncodeChar d ++ ys := by
  have values : c.val.toNat < d.val.toNat := less
  have upper := (scalar_bounds d).1
  simp only [String.utf8EncodeChar]
  generalize c.val.toNat = v at values
  generalize d.val.toNat = w at values upper
  -- each byte holds what the one before it leaves over
  have bytes (n : Nat) (scalar : n ≤ 0x10ffff) : n / 64 / 64 = n / 4096 ∧
      n / 4096 / 64 = n / 262144 ∧ n / 262144 % 8 = n / 262144 := by
    omega
  have first := bytes v (by omega)
  have second := bytes w upper
  split_ifs <;> simp only [List.cons_append, List.nil_append] <;>
    repeat rw [cons_less_iff (by omega) (by omega)]
  all_goals omega

theorem encode_less {cs ds : List Char} (less : cs < ds) : encode cs < encode ds := by
  induction less with
  | @nil d ds =>
    have present : encode (d :: ds) ≠ [] := by simp [encode]
    obtain ⟨b, bytes, some⟩ := List.exists_cons_of_ne_nil present
    rw [some]
    exact List.nil_lt_cons b bytes
  | @rel c cs d ds less => exact character_less less (encode cs) (encode ds)
  | @cons c cs ds _ ih => exact List.append_left_lt ih

theorem bytesOf_less {s t : String} (less : s < t) : bytesOf s < bytesOf t := by
  rw [bytesOf_eq_encode, bytesOf_eq_encode]
  exact encode_less (String.lt_iff_toList_lt.mp less)

end TypedContracts.Text.Utf8

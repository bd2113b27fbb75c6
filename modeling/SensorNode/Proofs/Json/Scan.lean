/-
What the scanners of JSON text find in front of what is left of the text: the digits of a whole number, up to whatever
is no part of a number (`numeral_integer`), and the characters of a quoted string, whatever they are
(`stringBody_quoted`). A number that fits is gathered without loss (`gather_digits`), and every escape stands for the
character that was escaped (`stringBody_escape`, `assemble_pieces`).
-/
import Mathlib.Tactic
import SensorNode.Json.Printer
import SensorNode.Json.Raw

namespace SensorNode.Json

/-! ## Digits -/

theorem isDigit_iff (c : Char) : isDigit c = true ↔ c.isDigit = true := by
  have hle : ∀ a b : Char, a ≤ b ↔ a.val ≤ b.val := fun a b => Iff.rfl
  simp [isDigit, Char.isDigit, hle]

theorem isDigit_of_mem_digitsOf {n : Nat} {c : Char} (h : c ∈ Decimal.digitsOf n) : isDigit c = true :=
  (isDigit_iff c).2 (Nat.isDigit_of_mem_toDigits (by decide) (by decide) h)

/-- a number other than zero does not start with a zero -/
theorem digitsOf_head {n : Nat} (h : 0 < n) : (Decimal.digitsOf n).head? ≠ some '0' := by
  unfold Decimal.digitsOf
  induction n using Nat.strong_induction_on with
  | _ n ih =>
    rw [Nat.toDigits_eq_if (by decide)]
    split_ifs with hsmall
    · intro hzero
      exact h.ne' ((Nat.digitChar_eq_zero).1 (Option.some.inj hzero))
    · have hpos : 0 < n / 10 := Nat.div_pos (Nat.le_of_not_lt hsmall) (by decide)
      have hne : Nat.toDigits 10 (n / 10) ≠ [] := Nat.toDigits_ne_nil
      rw [List.head?_append_of_ne_nil _ hne]
      exact ih _ (Nat.div_lt_self h (by decide)) hpos

/-- digits whose number fits are gathered, and none is left over -/
theorem gather_digits (ds : List Char) (n : Nat) (h : Nat.ofDigitChars 10 ds n ≤ largestInteger) :
    gather n ds = (Nat.ofDigitChars 10 ds n, []) := by
  induction ds generalizing n with
  | nil => rfl
  | cons d ds ih =>
    rw [Nat.ofDigitChars_cons] at h ⊢
    have hnext : n * 10 + digitValue d = 10 * n + (d.toNat - '0'.toNat) := by rw [digitValue, Nat.mul_comm]
    have hfits : 10 * n + (d.toNat - '0'.toNat) ≤ largestInteger := by
      refine le_trans ?_ h
      rw [Nat.ofDigitChars_eq_ofDigitChars_zero]
      exact le_trans (Nat.le_mul_of_pos_left _ (Nat.pow_pos (by decide))) (Nat.le_add_right _ _)
    rw [gather, hnext, if_pos hfits]
    exact ih _ h

theorem gather_digitsOf {n : Nat} (h : n ≤ largestInteger) : gather 0 (Decimal.digitsOf n) = (n, []) := by
  have hvalue : Nat.ofDigitChars 10 (Decimal.digitsOf n) 0 = n := Nat.ofDigitChars_ten_toDigits
  rw [gather_digits _ _ (hvalue.trans_le h), hvalue]

/-! ## Numbers -/

/-- nothing at the front of the text that is part of a number -/
def EndsNumber (rest : List Char) : Prop :=
  ∀ c ∈ rest.head?, isDigit c = false ∧ c ≠ '.' ∧ c ≠ 'e' ∧ c ≠ 'E'

section

variable {rest : List Char}

theorem EndsNumber.takeWhile (h : EndsNumber rest) : rest.takeWhile isDigit = [] := by
  cases rest with
  | nil => rfl
  | cons c rest => rw [List.takeWhile_cons, (h c rfl).1]; rfl

theorem EndsNumber.dropWhile (h : EndsNumber rest) : rest.dropWhile isDigit = rest := by
  cases rest with
  | nil => rfl
  | cons c rest => rw [List.dropWhile_cons, (h c rfl).1]; rfl

/-- the whole part of a number is all of its digits -/
theorem wholePart_digitsOf (n : Nat) (h : EndsNumber rest) :
    wholePart (Decimal.digitsOf n ++ rest) = some (Decimal.digitsOf n, rest) := by
  have hdigits : ∀ c ∈ Decimal.digitsOf n, isDigit c = true := fun c hc => isDigit_of_mem_digitsOf hc
  have htake : (Decimal.digitsOf n ++ rest).takeWhile isDigit = Decimal.digitsOf n := by
    rw [List.takeWhile_append_of_pos hdigits, h.takeWhile, List.append_nil]
  have hdrop : (Decimal.digitsOf n ++ rest).dropWhile isDigit = rest := by
    rw [List.dropWhile_append_of_pos hdigits, h.dropWhile]
  have hdigits1 : digits1 (Decimal.digitsOf n ++ rest) = some (Decimal.digitsOf n, rest) := by
    unfold digits1
    rw [htake, hdrop]
    split
    · rename_i hnil
      exact absurd hnil Nat.toDigits_ne_nil
    · rfl
  unfold wholePart
  rw [hdigits1]
  split
  · rename_i d ds _ heq
    obtain ⟨hzero, -⟩ := Prod.mk.inj (Option.some.inj heq)
    -- only zero starts with a zero, and zero has one digit
    rcases Nat.eq_zero_or_pos n with rfl | hpos
    · cases hzero
    · exact absurd (congrArg List.head? hzero) (digitsOf_head hpos)
  · rfl

theorem EndsNumber.fractionPart (h : EndsNumber rest) : fractionPart rest = some (none, rest) := by
  unfold Json.fractionPart
  split
  · exact absurd rfl (h '.' rfl).2.1
  · rfl

theorem EndsNumber.exponentPart (h : EndsNumber rest) : exponentPart rest = some (none, rest) := by
  cases rest with
  | nil => rfl
  | cons c rest => exact if_neg fun he => he.elim (h c rfl).2.2.1 (h c rfl).2.2.2

/-- the numeral of an integer -/
def Numeral.ofInt (n : Int) : Numeral := ⟨decide (n < 0), Decimal.digitsOf n.natAbs, none, none⟩

/-- an integer in front of what is no number is read as its numeral -/
theorem numeral_integer (n : Int) (h : EndsNumber rest) :
    numeral ((Number.integer n).chars ++ rest) = some (Numeral.ofInt n, rest) := by
  have hwhole := wholePart_digitsOf n.natAbs h
  have hsign : ∀ cs, Decimal.digitsOf n.natAbs ≠ '-' :: cs := by
    intro cs hcs
    have hdigit := isDigit_of_mem_digitsOf (hcs ▸ List.mem_cons_self)
    exact absurd hdigit (by decide)
  have hne : Decimal.digitsOf n.natAbs ≠ [] := Nat.toDigits_ne_nil
  rw [Number.chars, Numeral.ofInt]
  generalize Decimal.digitsOf n.natAbs = ds at hwhole hsign hne ⊢
  unfold numeral
  by_cases hn : n < 0
  · simp [hn, hwhole, h.fractionPart, h.exponentPart]
  · obtain ⟨d, ds, rfl⟩ := List.exists_cons_of_ne_nil hne
    have hd : d ≠ '-' := fun hd => hsign ds (hd ▸ rfl)
    rw [List.cons_append] at hwhole
    simp [hn, hd, hwhole, h.fractionPart, h.exponentPart]

end

/-- the integers of 64 bits, with or without sign -/
def IsWord (n : Int) : Prop := -(2 ^ 63 : Int) ≤ n ∧ n < 2 ^ 64

/-- the numeral of an integer of 64 bits is that integer -/
theorem number?_ofInt {n : Int} (h : IsWord n) : (Numeral.ofInt n).number? = some (.integer n) := by
  obtain ⟨hlow, hhigh⟩ := h
  have hfits : n.natAbs ≤ largestInteger := by
    have : largestInteger = 2 ^ 64 - 1 := by rfl
    omega
  unfold Numeral.number? Numeral.ofInt
  simp only [gather_digitsOf hfits]
  by_cases hn : n < 0
  · have hbound : ¬(n.natAbs = 0 ∨ Nat.pow 2 63 < n.natAbs) := by
      have : Nat.pow 2 63 = 2 ^ 63 := rfl
      omega
    have hvalue : -(n.natAbs : Int) = n := by omega
    rw [decide_eq_true hn, if_pos rfl, if_neg hbound, hvalue]
  · have hvalue : (n.natAbs : Int) = n := by omega
    rw [decide_eq_false hn, if_neg (by decide), hvalue]

/-! ## Strings -/

/-- the piece that is read where a character was escaped: a control character without a letter of its own comes back
as its unit -/
def pieceOf (c : Char) : Piece :=
  if c < ' ' ∧ c ∉ ['\x08', '\x0c', '\n', '\r', '\t'] then .unit c.toNat else .char c

theorem hexValue?_hexDigit {n : Nat} (h : n < 16) : hexValue? (hexDigit n) = some n := by
  have hall : ∀ n : Fin 16, hexValue? (hexDigit n) = some n.val := by decide
  exact hall ⟨n, h⟩

/-- control characters are those of the first 32 codes -/
theorem lt_space_iff (c : Char) : c < ' ' ↔ c.toNat < 32 := by
  rw [Char.lt_def, UInt32.lt_iff_toNat_lt]
  rfl

/-- the digits behind `\u` come to the code of the control character -/
theorem stringBody_unit {n : Nat} (h : n < 32) (cs : List Char) :
    stringBody ('\\' :: 'u' :: '0' :: '0' :: hexDigit (n / 16) :: hexDigit (n % 16) :: cs) =
      (stringBody cs).map fun r => (.unit n :: r.1, r.2) := by
  have hzero : hexValue? '0' = some 0 := by decide
  have hhigh : hexValue? (hexDigit (n / 16)) = some (n / 16) := hexValue?_hexDigit (by omega)
  have hlow : hexValue? (hexDigit (n % 16)) = some (n % 16) := hexValue?_hexDigit (Nat.mod_lt _ (by decide))
  have hcode : n / 16 * 16 + n % 16 = n := Nat.div_add_mod' n 16
  rw [stringBody, hzero, hhigh, hlow]
  cases stringBody cs <;> simp [hcode]

/-- a letter behind the backslash is read as the character that it stands for -/
theorem stringBody_letter {e c : Char} (h : escaped? e = some c) (cs : List Char) :
    stringBody ('\\' :: e :: cs) = (stringBody cs).map fun r => (.char c :: r.1, r.2) := by
  have hunit : ∀ a b d f rest, e = 'u' → cs = a :: b :: d :: f :: rest → False := by
    rintro - - - - - rfl -
    cases h
  rw [stringBody.eq_4 e cs hunit, h]
  cases stringBody cs <;> rfl

/-- a character that needs no escape is read as itself -/
theorem stringBody_char {c : Char} (hquote : c ≠ '"') (hslash : c ≠ '\\') (hcontrol : ¬c < ' ') (cs : List Char) :
    stringBody (c :: cs) = (stringBody cs).map fun r => (.char c :: r.1, r.2) := by
  rw [stringBody.eq_5 c cs hquote (fun _ _ _ _ _ hc _ => hslash hc) (fun _ _ hc _ => hslash hc)]
  rw [if_neg (not_or.2 ⟨hcontrol, hslash⟩)]
  cases stringBody cs <;> rfl

/-- an escaped character is read as one piece -/
theorem stringBody_escape (c : Char) (cs : List Char) :
    stringBody (escape c ++ cs) = (stringBody cs).map fun r => (pieceOf c :: r.1, r.2) := by
  unfold escape
  split_ifs with hquote hslash hb hf hn hr ht hcontrol
  · subst hquote
    exact stringBody_letter (c := '"') rfl cs
  · subst hslash
    exact stringBody_letter (c := '\\') rfl cs
  · exact hb ▸ stringBody_letter rfl cs
  · exact hf ▸ stringBody_letter rfl cs
  · exact hn ▸ stringBody_letter rfl cs
  · exact hr ▸ stringBody_letter rfl cs
  · exact ht ▸ stringBody_letter rfl cs
  · have hpiece : pieceOf c = .unit c.toNat := if_pos ⟨hcontrol, by simp [hb, hf, hn, hr, ht]⟩
    rw [hpiece]
    exact stringBody_unit ((lt_space_iff c).1 hcontrol) cs
  · have hpiece : pieceOf c = .char c := if_neg fun h => hcontrol h.1
    rw [hpiece]
    exact stringBody_char hquote hslash hcontrol cs

/-- a piece of a character is that character, whatever comes behind it -/
theorem assemble_pieceOf (c : Char) (pieces : List Piece) :
    assemble (pieceOf c :: pieces) = (assemble pieces).map (c :: ·) := by
  unfold pieceOf
  split_ifs with h
  · have hsmall : c.toNat < 32 := (lt_space_iff c).1 h.1
    have hhigh : isHighSurrogate c.toNat = false := by
      unfold isHighSurrogate
      exact decide_eq_false fun hh => absurd hh.1 (by omega)
    have hlow : isLowSurrogate c.toNat = false := by
      unfold isLowSurrogate
      exact decide_eq_false fun hl => absurd hl.1 (by omega)
    cases pieces with
    | nil => rw [assemble.eq_4 _ _ (by simp), hhigh, hlow, Char.ofNat_toNat]; rfl
    | cons p pieces =>
      cases p with
      | char d => rw [assemble.eq_4 _ _ (by simp), hhigh, hlow, Char.ofNat_toNat]; rfl
      | unit m => rw [assemble.eq_3, hhigh, hlow, Char.ofNat_toNat]; rfl
  · rw [assemble]

/-- a quoted string is read up to its closing quote -/
theorem stringBody_quoted (cs rest : List Char) :
    stringBody (cs.flatMap escape ++ '"' :: rest) = some (cs.map pieceOf, rest) := by
  induction cs with
  | nil => rw [List.flatMap_nil, List.nil_append, stringBody, List.map_nil]
  | cons c cs ih => rw [List.flatMap_cons, List.append_assoc, stringBody_escape, ih, List.map_cons]; rfl

theorem assemble_pieces (cs : List Char) : assemble (cs.map pieceOf) = some cs := by
  induction cs with
  | nil => rfl
  | cons c cs ih => rw [List.map_cons, assemble_pieceOf, ih, Option.map_some]

/-- the string that is read is the one that was quoted -/
theorem stringOf_pieces (s : String) : stringOf (s.toList.map pieceOf) = some s := by
  rw [stringOf, assemble_pieces, Option.map_some, String.ofList_toList]

example : ((stringBody "\\\"\\\\\\n\\u0001é\"".toList).bind fun r => stringOf r.1) = some "\"\\\n\x01é" := by decide

end SensorNode.Json

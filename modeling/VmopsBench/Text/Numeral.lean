import Mathlib

/-!
# Decimal numerals

What the C library reads as a number (`Numeral.strtoul`), and that it reads back what is
written in decimal digits, as far as the type of the result reaches (`Numeral.strtoul_toDigits`).
The digits of a number are those of core Lean, `Nat.toDigits`.
-/

namespace Numeral

/-! ### Reading -/

/-- `isspace`. -/
def isSpace (c : Char) : Bool :=
  c = ' ' || c = '\t' || c = '\n' || c = '\x0b' || c = '\x0c' || c = '\r'

/-- An optional sign: whether it is a minus, and what follows it. -/
def sign : List Char → Bool × List Char
  | '-' :: s => (true, s)
  | '+' :: s => (false, s)
  | s => (false, s)

/-- The number that a text begins with, which is `0` if it begins with no digit. -/
def leading (s : List Char) : ℕ := Nat.ofDigitChars 10 (s.takeWhile Char.isDigit) 0

/-- **`strtoul`** with base `10`, for a result of `w` bits: white space and a sign are skipped, a
number that is too large gives the greatest value, and a minus negates. -/
def strtoul (w : ℕ) (s : List Char) : BitVec w :=
  let (minus, digits) := sign (s.dropWhile isSpace)
  if 2 ^ w ≤ leading digits then BitVec.allOnes w
  else if minus then -BitVec.ofNat w (leading digits)
  else BitVec.ofNat w (leading digits)

/-! ### Reading what was written -/

theorem not_isSpace_of_isDigit {c : Char} (h : c.isDigit = true) : isSpace c = false := by
  cases hspace : isSpace c with
  | false => rfl
  | true =>
    simp only [isSpace, Bool.or_eq_true, decide_eq_true_eq] at hspace
    rcases hspace with ((((rfl | rfl) | rfl) | rfl) | rfl) | rfl <;> cases h

/-- A text that begins with a digit has no sign. -/
theorem sign_cons_of_isDigit {c : Char} (h : c.isDigit = true) (s : List Char) :
    sign (c :: s) = (false, c :: s) := by
  rw [sign.eq_3]
  · intro s heq
    obtain ⟨rfl, -⟩ := List.cons.inj heq
    cases h
  · intro s heq
    obtain ⟨rfl, -⟩ := List.cons.inj heq
    cases h

theorem leading_digits {s : List Char} (h : ∀ c ∈ s, c.isDigit = true) :
    leading s = Nat.ofDigitChars 10 s 0 := by
  rw [leading, List.takeWhile_eq_self_iff.mpr h]

/-- **A text of digits** is read as its value, or as the greatest one. -/
theorem strtoul_digits (w : ℕ) {s : List Char} (hne : s ≠ []) (h : ∀ c ∈ s, c.isDigit = true) :
    strtoul w s = if 2 ^ w ≤ Nat.ofDigitChars 10 s 0 then BitVec.allOnes w
      else BitVec.ofNat w (Nat.ofDigitChars 10 s 0) := by
  obtain ⟨c, rest, rfl⟩ := List.exists_cons_of_ne_nil hne
  have hc : c.isDigit = true := h c List.mem_cons_self
  have hspace : (c :: rest).dropWhile isSpace = c :: rest := by
    rw [List.dropWhile_cons, not_isSpace_of_isDigit hc]
    rfl
  rw [strtoul, hspace, sign_cons_of_isDigit hc]
  simp only [leading_digits h]
  rfl

/-- **`strtoul` reads back a number** that was written in decimal digits. -/
theorem strtoul_toDigits (w n : ℕ) : strtoul w (Nat.toDigits 10 n) =
    if 2 ^ w ≤ n then BitVec.allOnes w else BitVec.ofNat w n := by
  rw [strtoul_digits w Nat.toDigits_ne_nil
    fun c hc => Nat.isDigit_of_mem_toDigits (by decide) (by decide) hc,
    Nat.ofDigitChars_ten_toDigits]

/-- Cut down to fewer bits, the number is read back exactly if it fits into these. -/
theorem toNat_setWidth_strtoul_iff {w v : ℕ} (h : v ≤ w) (n : ℕ) :
    ((strtoul w (Nat.toDigits 10 n)).setWidth v).toNat = n ↔ n < 2 ^ v := by
  have hpow : 2 ^ v ≤ 2 ^ w := Nat.pow_le_pow_right (by decide) h
  constructor
  · intro heq
    rw [← heq]
    exact BitVec.isLt _
  · intro hn
    rw [strtoul_toDigits, if_neg (by omega), BitVec.toNat_setWidth, BitVec.toNat_ofNat,
      Nat.mod_eq_of_lt (show n < 2 ^ w by omega), Nat.mod_eq_of_lt hn]

end Numeral

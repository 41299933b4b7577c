import Mathlib

/-!
# Formatted output

`printf` of the C library, for the conversions `%d`, `%zu`, `%s` and `%.3f`, as a reader of its
format string that consumes the arguments as it comes to their conversions (`Printf.printf`). How a
number of type `double` is written is left to a parameter.

The argument of `%d` is a word of 32 bits, and what is written is its value as a signed number. So a
word below `2 ^ 31` is written in digits (`Printf.signed_of_lt`), and every other one with a minus
(`Printf.signed_of_le`), whatever type it had in the program.
-/

namespace Printf

/-- An argument of `printf`. -/
inductive Arg (δ : Type) where
  | int (w : BitVec 32)
  | size (w : BitVec 64)
  | string (s : List Char)
  | double (x : δ)

/-- A word as `%d` writes it. -/
def signed (w : BitVec 32) : List Char := w.toInt.repr.toList

/-- A word as `%zu` writes it. -/
def unsigned (w : BitVec 64) : List Char := Nat.toDigits 10 w.toNat

/-- **What `printf` writes**, and nothing if an argument is missing or is not what its conversion
asks for. -/
def printf {δ : Type} (fixed3 : δ → List Char) : List Char → List (Arg δ) → Option (List Char)
  | [], _ => some []
  | '%' :: 'd' :: format, .int w :: args => (printf fixed3 format args).map (signed w ++ ·)
  | '%' :: 'z' :: 'u' :: format, .size w :: args =>
    (printf fixed3 format args).map (unsigned w ++ ·)
  | '%' :: 's' :: format, .string s :: args => (printf fixed3 format args).map (s ++ ·)
  | '%' :: '.' :: '3' :: 'f' :: format, .double x :: args =>
    (printf fixed3 format args).map (fixed3 x ++ ·)
  | '%' :: _, _ => none
  | c :: format, args => (printf fixed3 format args).map (c :: ·)

/-! ### The conversions -/

/-- A word that is a number in both readings is written in digits. -/
theorem signed_of_lt {w : BitVec 32} (h : w.toNat < 2 ^ 31) :
    signed w = Nat.toDigits 10 w.toNat := by
  rw [signed, BitVec.toInt_eq_toNat_of_lt (by omega)]
  exact String.toList_ofList

/-- **Every other word is written with a minus.** -/
theorem signed_of_le {w : BitVec 32} (h : 2 ^ 31 ≤ w.toNat) : ∃ s, signed w = '-' :: s := by
  have hneg : w.toInt < 0 := by
    rw [BitVec.toInt_eq_toNat_cond]
    split <;> omega
  obtain ⟨n, hn⟩ := Int.eq_negSucc_of_lt_zero hneg
  refine ⟨Nat.toDigits 10 (n + 1), ?_⟩
  rw [signed, hn]
  simp [Int.repr, Nat.repr]

/-- **A word is written as the number it is** exactly if it is below `2 ^ 31`. -/
theorem signed_eq_toDigits_iff {w : BitVec 32} :
    signed w = Nat.toDigits 10 w.toNat ↔ w.toNat < 2 ^ 31 := by
  refine ⟨fun h => ?_, signed_of_lt⟩
  by_contra hge
  obtain ⟨s, hs⟩ := signed_of_le (Nat.le_of_not_lt hge)
  have hminus : '-' ∈ Nat.toDigits 10 w.toNat := by
    rw [← h, hs]
    exact List.mem_cons_self
  have hdigit := Nat.isDigit_of_mem_toDigits (by decide) (by decide) hminus
  cases hdigit

/-- Nothing but digits and a minus is written. -/
theorem mem_signed {w : BitVec 32} {c : Char} (hc : c ∈ signed w) : c = '-' ∨ c.isDigit = true := by
  have hdigit : ∀ {n : ℕ}, c ∈ Nat.toDigits 10 n → c.isDigit = true := fun hc =>
    Nat.isDigit_of_mem_toDigits (by decide) (by decide) hc
  rw [signed] at hc
  cases hw : w.toInt with
  | ofNat n =>
    rw [hw] at hc
    exact Or.inr (hdigit (String.toList_ofList ▸ hc))
  | negSucc n =>
    rw [hw] at hc
    simp only [Int.repr, Nat.repr, String.toList_append, String.toList_ofList] at hc
    rcases List.mem_append.mp hc with hc | hc
    · exact Or.inl (List.mem_singleton.mp hc)
    · exact Or.inr (hdigit hc)

theorem isDigit_of_mem_unsigned {w : BitVec 64} {c : Char} (hc : c ∈ unsigned w) :
    c.isDigit = true :=
  Nat.isDigit_of_mem_toDigits (by decide) (by decide) hc

end Printf

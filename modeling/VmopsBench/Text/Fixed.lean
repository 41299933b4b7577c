import Mathlib
import VmopsBench.Text.Printf

/-!
# Numbers with decimal places

The conversions `%f` and `%.3f` of `printf`, and a reader for what they write. A number is written
as the nearest multiple of `10 ^ -k`, with its `k` decimal places (`Printf.fixed`), and that
multiple is what is read back (`Printf.readFixed_fixed`).

`Printf.format` is `printf` with these conversions. Where `Printf.printf` writes something, it
writes the same (`Printf.format_eq_of_printf`).
-/

namespace Printf

/-! ### Writing -/

/-- The nearest natural number, and of two of them the even one. -/
def nearest (x : ℚ) : ℕ :=
  let n := ⌊x⌋.toNat
  if x - n < 1 / 2 ∨ x - n = 1 / 2 ∧ n % 2 = 0 then n else n + 1

/-- A number with zeroes before it, in `k` places. -/
def padded (k n : ℕ) : List Char :=
  List.replicate (k - (Nat.toDigits 10 n).length) '0' ++ Nat.toDigits 10 n

/-- **A number with `k` decimal places**, as `%.kf` writes it. -/
def fixed (k : ℕ) (x : ℚ) : List Char :=
  let n := nearest (|x| * 10 ^ k)
  (if x < 0 then ['-'] else []) ++ Nat.toDigits 10 (n / 10 ^ k) ++
    (if k = 0 then [] else '.' :: padded k (n % 10 ^ k))

/-- **What `printf` writes**, with `%lu` and all of `%f`. Six decimal places are the default. -/
def format {δ : Type} (fixed : ℕ → δ → List Char) : List Char → List (Arg δ) → Option (List Char)
  | [], _ => some []
  | '%' :: 'd' :: fmt, .int w :: args => (format fixed fmt args).map (signed w ++ ·)
  | '%' :: 'z' :: 'u' :: fmt, .size w :: args => (format fixed fmt args).map (unsigned w ++ ·)
  | '%' :: 'l' :: 'u' :: fmt, .size w :: args => (format fixed fmt args).map (unsigned w ++ ·)
  | '%' :: 's' :: fmt, .string s :: args => (format fixed fmt args).map (s ++ ·)
  | '%' :: 'f' :: fmt, .double x :: args => (format fixed fmt args).map (fixed 6 x ++ ·)
  | '%' :: '.' :: k :: 'f' :: fmt, .double x :: args =>
    (format fixed fmt args).map (fixed (k.toNat - '0'.toNat) x ++ ·)
  | '%' :: _, _ => none
  | c :: fmt, args => (format fixed fmt args).map (c :: ·)

/-- **The same is written** where `printf` writes something. -/
theorem format_eq_of_printf {δ : Type} {fixed : ℕ → δ → List Char} {fmt : List Char}
    {args : List (Arg δ)} {s : List Char} (h : printf (fixed 3) fmt args = some s) :
    format fixed fmt args = some s := by
  induction fmt, args using printf.induct generalizing s with
  | case1 args => exact h
  | case2 fmt w args ih | case3 fmt w args ih | case4 fmt t args ih | case5 fmt x args ih =>
    obtain ⟨s', hs', rfl⟩ := Option.map_eq_some_iff.mp h
    rw [format, ih hs']
    rfl
  | case6 => simp_all [printf]
  | case7 c fmt args _ _ _ _ hc ih =>
    have hc : ¬c = '%' := hc
    have hplain : printf (fixed 3) (c :: fmt) args = (printf (fixed 3) fmt args).map (c :: ·) := by
      rw [printf] <;> simp [hc]
    rw [hplain] at h
    obtain ⟨s', hs', rfl⟩ := Option.map_eq_some_iff.mp h
    have hplain' : format fixed (c :: fmt) args = (format fixed fmt args).map (c :: ·) := by
      rw [format] <;> simp [hc]
    rw [hplain', ih hs']
    rfl

/-! ### Reading -/

/-- **A number with `k` decimal places**, in units of the last one. -/
def readFixed (k : ℕ) (s : List Char) : Option ℕ :=
  match s.splitOn '.' with
  | [whole, places] =>
    if whole ≠ [] ∧ (∀ c ∈ whole ++ places, c.isDigit = true) ∧ places.length = k then
      some (Nat.ofDigitChars 10 (whole ++ places) 0)
    else none
  | _ => none

theorem length_padded {k n : ℕ} (hk : 0 < k) (hn : n < 10 ^ k) : (padded k n).length = k := by
  have hlen : (Nat.toDigits 10 n).length ≤ k := by
    rcases Nat.eq_zero_or_pos n with rfl | hpos
    · exact hk
    · rw [Nat.length_toDigits_le_iff (by decide) hk]
      exact hn
  rw [padded, List.length_append, List.length_replicate]
  omega

theorem isDigit_of_mem_toDigits {n : ℕ} {c : Char} (hc : c ∈ Nat.toDigits 10 n) :
    c.isDigit = true :=
  Nat.isDigit_of_mem_toDigits (by decide) (by decide) hc

theorem isDigit_of_mem_padded {k n : ℕ} {c : Char} (hc : c ∈ padded k n) : c.isDigit = true := by
  rcases List.mem_append.mp hc with hc | hc
  · rw [List.eq_of_mem_replicate hc]
    rfl
  · exact isDigit_of_mem_toDigits hc

/-- Nothing but digits, a point and a minus is written. -/
theorem mem_fixed {k : ℕ} {x : ℚ} {c : Char} (hc : c ∈ fixed k x) :
    c = '-' ∨ c = '.' ∨ c.isDigit = true := by
  rw [fixed] at hc
  rcases List.mem_append.mp hc with hc | hc
  · rcases List.mem_append.mp hc with hc | hc
    · split at hc
      · exact .inl (List.mem_singleton.mp hc)
      · cases hc
    · exact .inr (.inr (isDigit_of_mem_toDigits hc))
  · split at hc
    · cases hc
    · rcases List.mem_cons.mp hc with rfl | hc
      · exact .inr (.inl rfl)
      · exact .inr (.inr (isDigit_of_mem_padded hc))

/-- A number that is not negative is written as its nearest multiple of the last place. -/
theorem fixed_eq {k : ℕ} (hk : 0 < k) {x : ℚ} (hx : 0 ≤ x) : fixed k x =
    Nat.toDigits 10 (nearest (x * 10 ^ k) / 10 ^ k) ++
      '.' :: padded k (nearest (x * 10 ^ k) % 10 ^ k) := by
  rw [fixed, abs_of_nonneg hx, if_neg hx.not_gt, if_neg hk.ne', List.nil_append]

/-- **The nearest multiple of the last place is read back.** -/
theorem readFixed_fixed {k : ℕ} (hk : 0 < k) {x : ℚ} (hx : 0 ≤ x) :
    readFixed k (fixed k x) = some (nearest (x * 10 ^ k)) := by
  rw [fixed_eq hk hx]
  generalize nearest (x * 10 ^ k) = n
  have hdigit : ∀ c ∈ Nat.toDigits 10 (n / 10 ^ k) ++ padded k (n % 10 ^ k), c.isDigit = true := by
    intro c hc
    rcases List.mem_append.mp hc with hc | hc
    · exact isDigit_of_mem_toDigits hc
    · exact isDigit_of_mem_padded hc
  have hlen : (padded k (n % 10 ^ k)).length = k :=
    length_padded hk (Nat.mod_lt _ (by positivity))
  have hsplit : (Nat.toDigits 10 (n / 10 ^ k) ++ '.' :: padded k (n % 10 ^ k)).splitOn '.' =
      [Nat.toDigits 10 (n / 10 ^ k), padded k (n % 10 ^ k)] := by
    have hparts : Nat.toDigits 10 (n / 10 ^ k) ++ '.' :: padded k (n % 10 ^ k) =
        ['.'].intercalate [Nat.toDigits 10 (n / 10 ^ k), padded k (n % 10 ^ k)] := by
      simp [List.intercalate]
    rw [hparts]
    refine List.splitOn_intercalate '.' ?_ (List.cons_ne_nil _ _)
    intro s hs hdot
    have hpoint := hdigit '.' ?_
    · cases hpoint
    · simp only [List.mem_cons, List.not_mem_nil, or_false] at hs
      rcases hs with rfl | rfl
      · exact List.mem_append_left _ hdot
      · exact List.mem_append_right _ hdot
  rw [readFixed, hsplit]
  simp only
  rw [if_pos ⟨Nat.toDigits_ne_nil, hdigit, hlen⟩, Nat.ofDigitChars_append,
    Nat.ofDigitChars_ten_toDigits, Nat.ofDigitChars_eq_ofDigitChars_zero, hlen]
  have hplaces : Nat.ofDigitChars 10 (padded k (n % 10 ^ k)) 0 = n % 10 ^ k := by
    rw [padded, Nat.ofDigitChars_append, Nat.ofDigitChars_replicate_zero, Nat.mul_zero,
      Nat.ofDigitChars_ten_toDigits]
  rw [hplaces, Nat.div_add_mod]

end Printf

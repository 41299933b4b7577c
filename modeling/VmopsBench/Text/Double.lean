import VmopsBench.Text.Fixed

/-!
# Doubles

A floating-point number of C has 53 significant bits, and the result of a conversion or of a
division is the number of that form that is nearest to the exact one (`Double.round`). The exponent
is not bounded here: no number that is rounded in this development is anywhere near the ends of its
range.

Rounding changes a number by half a unit in the last place at most (`Double.abs_round_sub_le`), that
is, by its `2 ^ 53`rd part (`Double.abs_round_sub_le_div`); and the natural numbers below `2 ^ 53`
are doubles (`Double.round_natCast`).
-/

/-! ### The nearest natural number -/

namespace Printf

theorem nearest_natCast (n : ℕ) : nearest n = n := by
  simp [nearest]

/-- It is at a distance of one half at most. -/
theorem abs_nearest_sub_le {x : ℚ} (hx : 0 ≤ x) : |(nearest x : ℚ) - x| ≤ 1 / 2 := by
  have hfloor : ((⌊x⌋.toNat : ℕ) : ℚ) = ⌊x⌋ := by
    exact_mod_cast Int.toNat_of_nonneg (Int.floor_nonneg.mpr hx)
  have hle := Int.floor_le x
  have hlt := Int.lt_floor_add_one x
  simp only [nearest, hfloor]
  split
  · next h =>
    rw [hfloor, abs_le]
    rcases h with h | ⟨h, -⟩ <;> constructor <;> linarith
  · next h =>
    obtain ⟨h, -⟩ := not_or.mp h
    rw [Nat.cast_add, Nat.cast_one, hfloor, abs_le]
    constructor <;> linarith

/-- A natural number that is nearer than one half is the nearest one. -/
theorem nearest_eq {x : ℚ} (hx : 0 ≤ x) {n : ℕ} (h : |x - n| < 1 / 2) : nearest x = n := by
  have hlt : |((nearest x : ℤ) : ℚ) - (n : ℤ)| < 1 :=
    calc |((nearest x : ℤ) : ℚ) - (n : ℤ)| = |((nearest x : ℚ) - x) + (x - n)| := by
          push_cast
          ring_nf
      _ ≤ |(nearest x : ℚ) - x| + |x - n| := abs_add_le _ _
      _ < 1 := by
          have hle := abs_nearest_sub_le hx
          linarith
  have hzero : |(nearest x : ℤ) - n| < 1 := by exact_mod_cast hlt
  have hsame := Int.abs_lt_one_iff.mp hzero
  omega

end Printf

namespace Double

open Printf

/-! ### Rounding -/

/-- **The unit in the last place** of a number with 53 significant bits. -/
def ulp (x : ℚ) : ℚ := 2 ^ (Int.log 2 x - 52)

/-- **The nearest double**, and of two of them the one that ends in an even bit. -/
def round (x : ℚ) : ℚ := nearest (x / ulp x) * ulp x

variable {x : ℚ}

theorem ulp_pos (x : ℚ) : 0 < ulp x := by
  rw [ulp]
  positivity

theorem ulp_le (hx : 0 < x) : ulp x ≤ x / 2 ^ 52 := by
  have hlog : (2 : ℚ) ^ Int.log 2 x ≤ x := Int.zpow_log_le_self (by decide) hx
  rw [ulp, zpow_sub₀ two_ne_zero]
  exact div_le_div_of_nonneg_right hlog (by positivity)

theorem round_nonneg (x : ℚ) : 0 ≤ round x := by
  have hulp := ulp_pos x
  rw [round]
  positivity

theorem round_zero : round 0 = 0 := by
  rw [round, zero_div]
  simp [nearest]

/-- **The error of rounding** is half a unit in the last place at most. -/
theorem abs_round_sub_le (hx : 0 ≤ x) : |round x - x| ≤ ulp x / 2 := by
  have hulp := ulp_pos x
  have hfactor : round x - x = (nearest (x / ulp x) - x / ulp x) * ulp x := by
    rw [sub_mul, div_mul_cancel₀ _ hulp.ne', round]
  rw [hfactor, abs_mul, abs_of_pos hulp]
  calc |(nearest (x / ulp x) : ℚ) - x / ulp x| * ulp x ≤ 1 / 2 * ulp x :=
        mul_le_mul_of_nonneg_right (abs_nearest_sub_le (by positivity)) hulp.le
    _ = ulp x / 2 := by ring

/-- **The relative error of rounding.** -/
theorem abs_round_sub_le_div (hx : 0 ≤ x) : |round x - x| ≤ x / 2 ^ 53 := by
  rcases hx.eq_or_lt with rfl | hpos
  · simp [round_zero]
  · have hulp := ulp_le hpos
    refine (abs_round_sub_le hx).trans ?_
    calc ulp x / 2 ≤ x / 2 ^ 52 / 2 := by linarith
      _ = x / 2 ^ 53 := by ring

/-- **A natural number below `2 ^ 53`** is a double. -/
theorem round_natCast {n : ℕ} (h : n < 2 ^ 53) : round n = n := by
  rcases n.eq_zero_or_pos with rfl | hpos
  · exact_mod_cast round_zero
  · have hlog : Nat.log 2 n ≤ 52 :=
      Nat.lt_succ_iff.mp (Nat.log_lt_of_lt_pow hpos.ne' h)
    obtain ⟨d, hd⟩ := Nat.exists_eq_add_of_le hlog
    -- the number is a multiple of its unit
    have hulp : ulp n * 2 ^ d = 1 := by
      have hexp : (Nat.log 2 n : ℤ) - 52 = -d := by omega
      rw [ulp, Int.log_natCast, hexp, zpow_neg, zpow_natCast, inv_mul_cancel₀ (by positivity)]
    have hunits : (n : ℚ) / ulp n = (n * 2 ^ d : ℕ) := by
      rw [div_eq_iff (ulp_pos _).ne', Nat.cast_mul, Nat.cast_pow, Nat.cast_ofNat, mul_assoc,
        mul_comm _ (ulp _), hulp, mul_one]
    rw [round, hunits, nearest_natCast, ← hunits, div_mul_cancel₀ _ (ulp_pos _).ne']

/-- `0.1`, the double of that name. -/
example : round (1 / 10) = 3602879701896397 / 2 ^ 55 := by decide +kernel

end Double

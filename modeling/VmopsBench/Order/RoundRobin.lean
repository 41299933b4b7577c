import Mathlib

/-!
# Taking turns

A counter that goes up by one with every turn, and is read modulo `n`: each of the `n` remainders is
visited in turn. Whatever the counter starts with, after any number of turns every remainder has
been visited the same number of times, up to one (`RoundRobin.visits_fair`): the number of turns
divided by `n`, rounded down or up.

A machine word wraps, and begins anew with the remainder of zero. If `n` does not divide the number
of words, that is not its turn (`RoundRobin.visitsMod_add`).
-/

namespace RoundRobin

variable {n t c r : ℕ}

/-- **How often a remainder is visited** in `c` turns from `t` on. -/
def visits (n t c r : ℕ) : ℕ := Nat.count (fun k => (t + k) % n = r) c

/-- **A number of turns is fair to a remainder** if it was visited as often as the others, up
to one. -/
def Fair (n c visits : ℕ) : Prop := visits = c / n ∨ visits = (c + n - 1) / n

/-- The quotient, rounded up. -/
theorem add_sub_one_div (hn : 0 < n) :
    (c + n - 1) / n = c / n + if 0 < c % n then 1 else 0 := by
  have hdiv : c + n - 1 = n * (c / n) + (c % n + n - 1) := by
    have := Nat.div_add_mod c n
    omega
  have hlt := Nat.mod_lt c hn
  rw [hdiv, Nat.mul_add_div hn]
  refine congrArg _ ?_
  split
  · next h => exact Nat.div_eq_of_lt_le (by omega) (by omega)
  · next h => exact Nat.div_eq_of_lt (by omega)

/-- **How often it is**: the counter comes to the remainder `r` after `r - t` turns, modulo `n`. -/
theorem visits_eq (hn : 0 < n) (hr : r < n) (t c : ℕ) :
    visits n t c r = c / n + if (r + (n - t % n)) % n < c % n then 1 else 0 := by
  have hshift : t + (r + (n - t % n)) = r + n * (t / n + 1) := by
    have hdiv := Nat.div_add_mod t n
    have hlt := Nat.mod_lt t hn
    rw [Nat.mul_succ]
    omega
  have hrem : (t + (r + (n - t % n))) % n = r := by
    rw [hshift, Nat.add_mul_mod_self_left, Nat.mod_eq_of_lt hr]
  have hturn : ∀ k, (t + k) % n = r ↔ k ≡ r + (n - t % n) [MOD n] := by
    intro k
    constructor
    · intro h
      exact Nat.ModEq.add_left_cancel' t (h.trans hrem.symm)
    · intro h
      have hsum : (t + k) % n = (t + (r + (n - t % n))) % n := h.add_left t
      rw [hsum, hrem]
  rw [← Nat.count_modEq_card _ hn, visits]
  congr 1
  funext k
  exact propext (hturn k)

/-- **Every remainder gets its turns.** -/
theorem visits_fair (hn : 0 < n) (hr : r < n) (t c : ℕ) : Fair n c (visits n t c r) := by
  rw [Fair, visits_eq hn hr, add_sub_one_div hn]
  split
  · next h =>
    rw [if_pos (Nat.zero_lt_of_lt h)]
    exact Or.inr rfl
  · exact Or.inl rfl

/-! ### Counters that wrap -/

/-- How often a remainder is visited, if the counter is kept modulo `m`. -/
def visitsMod (m n t c r : ℕ) : ℕ := Nat.count (fun k => (t + k) % m % n = r) c

theorem visitsMod_zero (m n t r : ℕ) : visitsMod m n t 0 r = 0 := Nat.count_zero _

/-- The next turn visits one remainder. -/
theorem visitsMod_succ (m n t c r : ℕ) :
    visitsMod m n t (c + 1) r = visitsMod m n t c r + if (t + c) % m % n = r then 1 else 0 :=
  Nat.count_succ _ _

/-- **The wrap is invisible** before the counter comes to it, and if `n` divides `m`. -/
theorem visitsMod_eq_visits {m : ℕ} (h : t + c ≤ m ∨ n ∣ m) (r : ℕ) :
    visitsMod m n t c r = visits n t c r := by
  rw [visitsMod, visits, Nat.count_eq_card_filter_range, Nat.count_eq_card_filter_range]
  refine congrArg Finset.card (Finset.filter_congr fun k hk => ?_)
  have hmod : (t + k) % m % n = (t + k) % n := by
    rcases h with h | h
    · have hlt : t + k < m := by
        have hk := Finset.mem_range.mp hk
        omega
      rw [Nat.mod_eq_of_lt hlt]
    · exact Nat.mod_mod_of_dvd _ h
  rw [hmod]

/-- **At the wrap the counter begins anew.** -/
theorem visitsMod_add {m : ℕ} (h : t + c = m) (d r : ℕ) :
    visitsMod m n t (c + d) r = visits n t c r + visitsMod m n 0 d r := by
  have hbegin : ∀ k, (t + (c + k)) % m = (0 + k) % m := by
    intro k
    rw [← Nat.add_assoc, h, Nat.add_mod_left, Nat.zero_add]
  rw [← visitsMod_eq_visits (Or.inl (Nat.le_of_eq h)), visitsMod, Nat.count_add]
  refine congrArg _ ?_
  rw [visitsMod]
  congr 1
  funext k
  rw [hbegin]

end RoundRobin

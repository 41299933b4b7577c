import Mathlib

/-!
# Arcs of machine words

The words of a fixed width are arranged in a circle, so a range `[a, a + len)` of
addresses computed with wrap-around is an arc of that circle (`Words.arc`). Its
length is a natural number: an arc of `2 ^ w` words or more is the whole circle.

Whatever is said here goes back to one fact, that a word is on an arc exactly if it is the start
plus an offset below the length (`Words.mem_arc_iff_exists`). The main result is when
two arcs are disjoint (`Words.disjoint_arc_iff`): each must end before the other
begins, measured around the circle.
-/

namespace Words

variable {w : ℕ}

/-- **The arc** of `len` words that begins at `a`. -/
def arc (a : BitVec w) (len : ℕ) : Set (BitVec w) := {x | (x - a).toNat < len}

theorem mem_arc {a x : BitVec w} {len : ℕ} : x ∈ arc a len ↔ (x - a).toNat < len := Iff.rfl

instance (a : BitVec w) (len : ℕ) : DecidablePred (· ∈ arc a len) :=
  fun x => inferInstanceAs (Decidable ((x - a).toNat < len))

/-! ### Offsets -/

/-- The offset of a word from another one, as a word, is that word's distance. -/
theorem add_ofNat_sub_toNat (a x : BitVec w) : a + BitVec.ofNat w (x - a).toNat = x := by
  rw [BitVec.ofNat_toNat, BitVec.setWidth_eq, BitVec.add_comm, BitVec.sub_add_cancel]

theorem toNat_add_ofNat_sub (a : BitVec w) (k : ℕ) :
    (a + BitVec.ofNat w k - a).toNat = k % 2 ^ w := by
  rw [BitVec.add_comm, BitVec.add_sub_cancel, BitVec.toNat_ofNat]

/-- Offsets that grow by a fixed word. -/
theorem ofNat_mul_succ (k : ℕ) (x : BitVec w) :
    BitVec.ofNat w (k * x.toNat) + x = BitVec.ofNat w ((k + 1) * x.toNat) := by
  rw [Nat.succ_mul, BitVec.ofNat_add, BitVec.ofNat_toNat, BitVec.setWidth_eq]

theorem add_ofNat_mul_succ (a : BitVec w) (k : ℕ) (x : BitVec w) :
    a + BitVec.ofNat w (k * x.toNat) + x = a + BitVec.ofNat w ((k + 1) * x.toNat) := by
  rw [BitVec.add_assoc, ofNat_mul_succ]

/-- A word below another one can be incremented. -/
theorem toNat_succ_of_lt {x y : BitVec w} (h : x < y) : (x + 1).toNat = x.toNat + 1 := by
  have hlt := BitVec.lt_def.mp h
  have hy := y.isLt
  have hone : (1 : BitVec w).toNat = 1 := by
    show 1 % 2 ^ w = 1
    exact Nat.mod_eq_of_lt (by omega)
  rw [BitVec.toNat_add_of_lt (by omega), hone]

/-- **A word is on an arc if it is the start plus an offset below the length.** -/
theorem mem_arc_iff_exists {a x : BitVec w} {len : ℕ} :
    x ∈ arc a len ↔ ∃ k < len, x = a + BitVec.ofNat w k := by
  constructor
  · intro h
    exact ⟨(x - a).toNat, h, (add_ofNat_sub_toNat a x).symm⟩
  · rintro ⟨k, hk, rfl⟩
    rw [mem_arc, toNat_add_ofNat_sub]
    exact (Nat.mod_le k _).trans_lt hk

theorem add_ofNat_mem_arc {a : BitVec w} {k len : ℕ} (h : k < len) :
    a + BitVec.ofNat w k ∈ arc a len :=
  mem_arc_iff_exists.mpr ⟨k, h, rfl⟩

theorem start_mem_arc {a : BitVec w} {len : ℕ} (h : 0 < len) : a ∈ arc a len := by
  rw [mem_arc, BitVec.sub_self]
  exact h

/-- The word after the last one is not on the arc, unless the arc is the whole circle. -/
theorem add_ofNat_notMem_arc {a : BitVec w} {len : ℕ} (h : len < 2 ^ w) :
    a + BitVec.ofNat w len ∉ arc a len := by
  rw [mem_arc, toNat_add_ofNat_sub, Nat.mod_eq_of_lt h]
  exact Nat.lt_irrefl len

/-! ### Longer and shorter arcs -/

@[simp] theorem arc_zero (a : BitVec w) : arc a 0 = ∅ :=
  Set.eq_empty_of_forall_notMem fun _ => nofun

theorem arc_mono {a : BitVec w} {m n : ℕ} (h : m ≤ n) : arc a m ⊆ arc a n :=
  fun _ hx => lt_of_lt_of_le hx h

theorem arc_eq_univ {a : BitVec w} {len : ℕ} (h : 2 ^ w ≤ len) : arc a len = Set.univ :=
  Set.eq_univ_of_forall fun x => (x - a).isLt.trans_le h

/-- An arc that begins on another one and ends on it is a part of it. -/
theorem arc_subset_arc {a : BitVec w} {k m n : ℕ} (h : k + m ≤ n) :
    arc (a + BitVec.ofNat w k) m ⊆ arc a n := by
  intro x hx
  obtain ⟨l, hl, rfl⟩ := mem_arc_iff_exists.mp hx
  exact mem_arc_iff_exists.mpr ⟨k + l, by omega, by rw [BitVec.ofNat_add, BitVec.add_assoc]⟩

/-- **Two arcs, one beginning where the other ends, are one.** -/
theorem arc_add (a : BitVec w) (m n : ℕ) :
    arc a (m + n) = arc a m ∪ arc (a + BitVec.ofNat w m) n := by
  apply Set.Subset.antisymm
  · intro x hx
    obtain ⟨k, hk, rfl⟩ := mem_arc_iff_exists.mp hx
    rcases Nat.lt_or_ge k m with hlt | hge
    · exact Or.inl (add_ofNat_mem_arc hlt)
    · refine Or.inr (mem_arc_iff_exists.mpr ⟨k - m, by omega, ?_⟩)
      rw [BitVec.add_assoc, ← BitVec.ofNat_add, Nat.add_sub_cancel' hge]
  · exact Set.union_subset (arc_mono (Nat.le_add_right m n)) (arc_subset_arc (Nat.le_refl _))

/-- **An arc that is moved along is not a part of itself**, unless it comes back to where it was. -/
theorem arc_add_subset_iff {a : BitVec w} {k n : ℕ} (hpos : 0 < n) (hlt : n < 2 ^ w) :
    arc (a + BitVec.ofNat w k) n ⊆ arc a n ↔ k % 2 ^ w = 0 := by
  have hmod : BitVec.ofNat w (k % 2 ^ w) = BitVec.ofNat w k := by
    apply BitVec.eq_of_toNat_eq
    rw [BitVec.toNat_ofNat, BitVec.toNat_ofNat, Nat.mod_mod]
  rw [← hmod]
  constructor
  · intro h
    by_contra hne
    have hstart := h (start_mem_arc hpos)
    rw [mem_arc, toNat_add_ofNat_sub, Nat.mod_mod] at hstart
    -- the word behind the arc is on the other one
    have hbehind := add_ofNat_mem_arc (a := a + BitVec.ofNat w (k % 2 ^ w))
      (show n - k % 2 ^ w < n by omega)
    rw [BitVec.add_assoc, ← BitVec.ofNat_add, Nat.add_sub_cancel' hstart.le] at hbehind
    exact add_ofNat_notMem_arc hlt (h hbehind)
  · intro hzero
    rw [hzero]
    simp

/-! ### Disjoint arcs -/

/-- **When two arcs are disjoint**: neither reaches the beginning of the other. -/
theorem disjoint_arc_iff {a b : BitVec w} {m n : ℕ} (hm : 0 < m) (hn : 0 < n) :
    Disjoint (arc a m) (arc b n) ↔ m ≤ (b - a).toNat ∧ n ≤ (a - b).toNat := by
  constructor
  · intro h
    have hb : b ∉ arc a m := fun hb => Set.disjoint_left.mp h hb (start_mem_arc hn)
    have ha : a ∉ arc b n := fun ha => Set.disjoint_left.mp h (start_mem_arc hm) ha
    exact ⟨Nat.le_of_not_lt hb, Nat.le_of_not_lt ha⟩
  · rintro ⟨hab, hba⟩
    refine Set.disjoint_left.mpr fun x hxa hxb => ?_
    have hlt : x - a < b - a := BitVec.lt_def.mpr (lt_of_lt_of_le hxa hab)
    -- `x` comes before `b`, so seen from `b` it comes after `a`
    have hx : (x - b).toNat = 2 ^ w - ((b - a).toNat - (x - a).toNat) := by
      rw [← BitVec.toNat_sub_of_lt hlt, sub_sub_sub_cancel_right]
    have ha : (a - b).toNat = 2 ^ w - (b - a).toNat := by
      have hpos : 0 < b - a := BitVec.lt_def.mpr (lt_of_le_of_lt (Nat.zero_le _) hlt)
      rw [← neg_sub b a, ← zero_sub, BitVec.toNat_sub_of_lt hpos]
      rfl
    have hxb : (x - b).toNat < n := hxb
    omega

/-- Consecutive arcs that do not go round the circle are disjoint. -/
theorem disjoint_arc_add {a : BitVec w} {m n : ℕ} (h : m + n ≤ 2 ^ w) :
    Disjoint (arc a m) (arc (a + BitVec.ofNat w m) n) := by
  refine Set.disjoint_left.mpr fun x hm hn => ?_
  obtain ⟨k, hk, rfl⟩ := mem_arc_iff_exists.mp hn
  rw [BitVec.add_assoc, ← BitVec.ofNat_add, mem_arc, toNat_add_ofNat_sub,
    Nat.mod_eq_of_lt (by omega)] at hm
  omega

/-! ### How many words there are on an arc -/

theorem ncard_arc {a : BitVec w} {len : ℕ} (h : len ≤ 2 ^ w) : (arc a len).ncard = len := by
  have himage : arc a len = (fun k => a + BitVec.ofNat w k) '' (Finset.range len) := by
    ext x
    simp only [mem_arc_iff_exists, Set.mem_image, Finset.coe_range, Set.mem_Iio, eq_comm (a := x)]
  have hinj : Set.InjOn (fun k => a + BitVec.ofNat w k) (Finset.range len) := by
    intro k hk l hl hkl
    have hk : k < len := Finset.mem_range.mp hk
    have hl : l < len := Finset.mem_range.mp hl
    have heq : k % 2 ^ w = l % 2 ^ w := by
      rw [← toNat_add_ofNat_sub a k, ← toNat_add_ofNat_sub a l]
      exact congrArg (fun y : BitVec w => (y - a).toNat) hkl
    rwa [Nat.mod_eq_of_lt (by omega), Nat.mod_eq_of_lt (by omega)] at heq
  rw [himage, hinj.ncard_image, Set.ncard_coe_finset, Finset.card_range]

/-- **A set of words as large as the circle is the circle.** -/
theorem eq_univ_of_le_ncard {s : Set (BitVec w)} (h : 2 ^ w ≤ s.ncard) : s = Set.univ := by
  have hcard : Nat.card (BitVec w) = 2 ^ w := by
    rw [Nat.card_congr BitVec.equivFin.toEquiv, Nat.card_eq_fintype_card, Fintype.card_fin]
  refine (Set.eq_univ_iff_ncard s).mpr (le_antisymm ?_ (hcard ▸ h))
  exact Set.ncard_le_card s

end Words

import Mathlib

/-!
# Filling an array

An array that is filled by stores, each to an index, is `Filling.filled`. As long as the
stores to an index agree, the order of the stores does not matter; and when the indices of the
stores are those of the array, each once, the array holds a permutation of the values that were
stored (`Filling.filled_perm`).

One way to fill an array is by columns: it is thought of as a table with a number of columns that is
read row by row, and the values come column by column (`Filling.columnIndices`). The columns fit
exactly if each is as long as the table has it, the first ones longer by one than the others
when the last row is not full (`Filling.columnIndices_perm_iff`). Indices may be computed
modulo a number `m`, as machines do: a column that is too long leaves the table before it wraps.
-/

namespace Filling

variable {α : Type}

/-! ### Stores -/

/-- The array after some stores. -/
def filled (stores : List (ℕ × α)) (init : ℕ → α) : ℕ → α :=
  stores.foldl (fun array x => Function.update array x.1 x.2) init

theorem filled_append_singleton (stores : List (ℕ × α)) (x : ℕ × α) (init : ℕ → α) :
    filled (stores ++ [x]) init = Function.update (filled stores init) x.1 x.2 := by
  rw [filled, List.foldl_append]
  rfl

/-- **An index whose stores agree** holds the value of any of them. -/
theorem filled_of_mem {stores : List (ℕ × α)} {init : ℕ → α} {x : ℕ × α} (hx : x ∈ stores)
    (hagree : ∀ y ∈ stores, y.1 = x.1 → y.2 = x.2) : filled stores init x.1 = x.2 := by
  induction stores using List.reverseRecOn with
  | nil => cases hx
  | append_singleton stores y ih =>
    rw [filled_append_singleton]
    by_cases hy : y.1 = x.1
    · have hlast : y.2 = x.2 := hagree y (List.mem_append_right _ List.mem_cons_self) hy
      rw [← hy, ← hlast, Function.update_self]
    · have hmem : x ∈ stores := by
        rcases List.mem_append.mp hx with h | h
        · exact h
        · exact absurd (congrArg Prod.fst (List.mem_singleton.mp h)).symm hy
      rw [Function.update_of_ne (Ne.symm hy)]
      exact ih hmem fun z hz => hagree z (List.mem_append_left _ hz)

/-- An index without a store holds what it held. -/
theorem filled_of_not_mem {stores : List (ℕ × α)} {init : ℕ → α} {k : ℕ}
    (h : ∀ y ∈ stores, y.1 ≠ k) : filled stores init k = init k := by
  induction stores using List.reverseRecOn with
  | nil => rfl
  | append_singleton stores y ih =>
    have hy : y.1 ≠ k := h y (List.mem_append_right _ List.mem_cons_self)
    rw [filled_append_singleton, Function.update_of_ne hy.symm]
    exact ih fun z hz => h z (List.mem_append_left _ hz)

/-- **An index holds what was stored last**, or what it held. -/
theorem filled_eq_or_mem (stores : List (ℕ × α)) (init : ℕ → α) (k : ℕ) :
    filled stores init k = init k ∨ (k, filled stores init k) ∈ stores := by
  induction stores using List.reverseRecOn with
  | nil => exact .inl rfl
  | append_singleton stores y ih =>
    rw [filled_append_singleton]
    by_cases hy : k = y.1
    · subst hy
      rw [Function.update_self]
      exact .inr (List.mem_append_right _ List.mem_cons_self)
    · rw [Function.update_of_ne hy]
      exact ih.imp_right (List.mem_append_left _)

/-- Two stores to one index are the same, if each index occurs once. -/
theorem eq_of_fst_eq {stores : List (ℕ × α)} (hnodup : (stores.map Prod.fst).Nodup) {x y : ℕ × α}
    (hx : x ∈ stores) (hy : y ∈ stores) (h : x.1 = y.1) : x = y :=
  List.inj_on_of_nodup_map hnodup hx hy h

/-- The values at the indices of the stores are those that were stored. -/
theorem map_filled {stores : List (ℕ × α)} (hnodup : (stores.map Prod.fst).Nodup)
    (init : ℕ → α) : (stores.map Prod.fst).map (filled stores init) = stores.map Prod.snd := by
  rw [List.map_map]
  refine List.map_congr_left fun x hx => filled_of_mem hx fun y hy heq => ?_
  rw [eq_of_fst_eq hnodup hy hx heq]

/-- **An array whose indices were each written once** holds a permutation of what was stored. -/
theorem filled_perm {stores : List (ℕ × α)} {n : ℕ} (init : ℕ → α)
    (h : (stores.map Prod.fst).Perm (List.range n)) :
    ((List.range n).map (filled stores init)).Perm (stores.map Prod.snd) := by
  rw [← map_filled (h.nodup_iff.mpr List.nodup_range) init]
  exact (h.map _).symm

/-- Every entry of such an array is the value of some store to it. -/
theorem exists_mem_of_perm {stores : List (ℕ × α)} {n i : ℕ} (init : ℕ → α)
    (h : (stores.map Prod.fst).Perm (List.range n)) (hi : i < n) :
    (i, filled stores init i) ∈ stores := by
  obtain ⟨x, hx, rfl⟩ := List.mem_map.mp (h.mem_iff.mpr (List.mem_range.mpr hi))
  have hnodup : (stores.map Prod.fst).Nodup := h.nodup_iff.mpr List.nodup_range
  rwa [filled_of_mem hx fun y hy heq => congrArg Prod.snd (eq_of_fst_eq hnodup hy hx heq)]

/-- What is made of the values can be made of them before they are stored. -/
theorem filled_map {β : Type} (f : α → β) (stores : List (ℕ × α)) (init : ℕ → α) (k : ℕ) :
    filled (stores.map fun x => (x.1, f x.2)) (f ∘ init) k = f (filled stores init k) := by
  induction stores using List.reverseRecOn with
  | nil => rfl
  | append_singleton stores x ih =>
    rw [List.map_append, List.map_singleton, filled_append_singleton, filled_append_singleton]
    by_cases hk : k = x.1
    · subst hk
      rw [Function.update_self, Function.update_self]
    · rw [Function.update_of_ne hk, Function.update_of_ne hk, ih]

section Sums

variable [AddCommMonoid α] [PartialOrder α]

/-- What is left of values that are not negative is not negative. -/
theorem filled_nonneg {stores : List (ℕ × α)} (hpos : ∀ x ∈ stores, 0 ≤ x.2) (k : ℕ) :
    0 ≤ filled stores (fun _ => 0) k := by
  induction stores using List.reverseRecOn with
  | nil => exact le_rfl
  | append_singleton stores x ih =>
    rw [filled_append_singleton, Function.update_apply]
    split
    · exact hpos x (List.mem_append_right _ List.mem_cons_self)
    · exact ih fun y hy => hpos y (List.mem_append_left _ hy)

/-- **What is left in an array does not exceed what was stored**, summed over any indices. -/
theorem sum_filled_le [IsOrderedAddMonoid α] {stores : List (ℕ × α)}
    (hpos : ∀ x ∈ stores, 0 ≤ x.2) (ks : Finset ℕ) :
    ∑ k ∈ ks, filled stores (fun _ => 0) k ≤ (stores.map Prod.snd).sum := by
  induction stores using List.reverseRecOn with
  | nil => exact Finset.sum_const_zero.le
  | append_singleton stores x ih =>
    have hstores : ∀ y ∈ stores, 0 ≤ y.2 := fun y hy => hpos y (List.mem_append_left _ hy)
    have hx : 0 ≤ x.2 := hpos x (List.mem_append_right _ List.mem_cons_self)
    rw [filled_append_singleton, List.map_append, List.sum_append, List.map_singleton,
      List.sum_singleton]
    by_cases hk : x.1 ∈ ks
    · -- the value that was there before is lost
      have hrest : ∑ k ∈ ks \ {x.1}, filled stores (fun _ => 0) k ≤ (stores.map Prod.snd).sum :=
        (Finset.sum_le_sum_of_subset_of_nonneg Finset.sdiff_subset
          fun k _ _ => filled_nonneg hstores k).trans (ih hstores)
      rw [Finset.sum_update_of_mem hk, add_comm]
      exact add_le_add_left hrest x.2
    · rw [Finset.sum_update_of_notMem hk]
      exact le_add_of_le_of_nonneg (ih hstores) hx

end Sums

/-- The stores that fill an array from the front. -/
def frontStores (xs : List α) : List (ℕ × α) := xs.zipIdx.map Prod.swap

theorem map_fst_frontStores (xs : List α) :
    (frontStores xs).map Prod.fst = List.range xs.length := by
  rw [frontStores, List.map_map, List.range_eq_range', ← List.zipIdx_map_snd]
  rfl

/-- **An array that was filled from the front** starts with what was stored. -/
theorem map_filled_frontStores (xs : List α) (init : ℕ → α) :
    (List.range xs.length).map (filled (frontStores xs) init) = xs := by
  have hnodup : ((frontStores xs).map Prod.fst).Nodup := by
    rw [map_fst_frontStores]
    exact List.nodup_range
  have hvalues : (frontStores xs).map Prod.snd = xs := by
    rw [frontStores, List.map_map]
    exact List.zipIdx_map_fst 0 xs
  rw [← map_fst_frontStores, map_filled hnodup, hvalues]

/-! ### Columns -/

/-- The length of column `n` in a table of `total` entries with `width` columns. -/
def columnLength (total width n : ℕ) : ℕ := (total + width - 1 - n) / width

section Columns

variable {total width n k : ℕ}

/-- An entry is in the table if its row is in the column. -/
theorem lt_columnLength_iff (hn : n < width) :
    k < columnLength total width n ↔ n + k * width < total := by
  rw [columnLength, Nat.lt_iff_add_one_le, Nat.le_div_iff_mul_le (by omega), Nat.succ_mul]
  omega

/-- In a table with full rows all columns have the same length. -/
theorem columnLength_mul {rows : ℕ} (hn : n < width) :
    columnLength (width * rows) width n = rows := by
  have hsum : width * rows + width - 1 - n = width * rows + (width - 1 - n) := by omega
  rw [columnLength, hsum, Nat.mul_add_div (Nat.zero_lt_of_lt hn), Nat.div_eq_of_lt (by omega)]
  rfl

/-- Entries in different places have different indices. -/
theorem index_inj {n' k' : ℕ} (hn : n < width) (hn' : n' < width)
    (h : n + k * width = n' + k' * width) : n = n' ∧ k = k' := by
  have hcolumn : ∀ {n k : ℕ}, n < width → (n + k * width) % width = n := by
    intro n k hn
    rw [Nat.add_mul_mod_self_right, Nat.mod_eq_of_lt hn]
  obtain rfl : n = n' := by rw [← hcolumn (k := k) hn, h, hcolumn hn']
  exact ⟨rfl, Nat.eq_of_mul_eq_mul_right (Nat.zero_lt_of_lt hn) (Nat.add_left_cancel h)⟩

/-- **The indices of a table that is filled by columns**, computed modulo `m`. -/
def columnIndices (m width : ℕ) (sizes : ℕ → ℕ) : List ℕ :=
  (List.range width).flatMap fun n => (List.range (sizes n)).map fun k => (n + k * width) % m

variable {m : ℕ} {sizes : ℕ → ℕ}

theorem mem_columnIndices {i : ℕ} : i ∈ columnIndices m width sizes ↔
    ∃ n < width, ∃ k < sizes n, (n + k * width) % m = i := by
  simp only [columnIndices, List.mem_flatMap, List.mem_map, List.mem_range]

/-- **Columns that stay inside the table do not wrap.** -/
theorem index_lt (hm : total + width ≤ m) (h : ∀ i ∈ columnIndices m width sizes, i < total)
    (hn : n < width) (hk : k < sizes n) : n + k * width < total := by
  have hmem : ∀ {k}, k < sizes n → (n + k * width) % m < total :=
    fun hk => h _ (mem_columnIndices.mpr ⟨n, hn, _, hk, rfl⟩)
  induction k with
  | zero =>
    have hfirst := hmem hk
    rwa [Nat.mod_eq_of_lt (by omega)] at hfirst
  | succ k ih =>
    have hprev := ih (Nat.lt_of_succ_lt hk)
    have hsmall : n + (k + 1) * width < m := by
      rw [Nat.succ_mul]
      omega
    have hnext := hmem hk
    rwa [Nat.mod_eq_of_lt hsmall] at hnext

section Inside

variable (hm : total + width ≤ m)
  (hinside : ∀ {n k}, n < width → k < sizes n → n + k * width < total)

include hm hinside

/-- An index inside the table is computed without a wrap. -/
theorem index_mod (hn : n < width) (hk : k < sizes n) :
    (n + k * width) % m = n + k * width := by
  have := hinside hn hk
  exact Nat.mod_eq_of_lt (by omega)

theorem nodup_columnIndices : (columnIndices m width sizes).Nodup := by
  refine List.nodup_flatMap.mpr ⟨fun n hn => ?_, ?_⟩
  · have hn := List.mem_range.mp hn
    refine List.Nodup.map_on (fun k hk k' hk' heq => ?_) List.nodup_range
    rw [index_mod hm hinside hn (List.mem_range.mp hk),
      index_mod hm hinside hn (List.mem_range.mp hk')] at heq
    exact (index_inj hn hn heq).2
  · refine List.Nodup.pairwise_of_forall_ne List.nodup_range fun n hn n' hn' hne => ?_
    have hn := List.mem_range.mp hn
    have hn' := List.mem_range.mp hn'
    simp only [Function.onFun, List.disjoint_left, List.mem_map, List.mem_range]
    rintro i ⟨k, hk, rfl⟩ ⟨k', hk', heq⟩
    rw [index_mod hm hinside hn hk, index_mod hm hinside hn' hk'] at heq
    exact hne (index_inj hn' hn heq).1.symm

end Inside

/-- **The columns fill the table exactly if each is as long as the table has it.** -/
theorem columnIndices_perm_iff (hwidth : 0 < width) (hm : total + width ≤ m) :
    (columnIndices m width sizes).Perm (List.range total) ↔
      ∀ n < width, sizes n = columnLength total width n := by
  constructor
  · intro h n hn
    have hinside : ∀ {n k}, n < width → k < sizes n → n + k * width < total :=
      index_lt hm fun i hi => List.mem_range.mp (h.mem_iff.mp hi)
    refine Nat.le_antisymm ?_ ?_
    · -- a column that is too long has an entry outside
      by_contra hlong
      have hk := Nat.lt_of_not_le hlong
      exact absurd ((lt_columnLength_iff hn).mpr (hinside hn hk)) (Nat.lt_irrefl _)
    · -- the entry after a column that is too short is in no other column
      by_contra hshort
      have hk := Nat.lt_of_not_le hshort
      have hfree : n + sizes n * width < total := (lt_columnLength_iff hn).mp hk
      obtain ⟨n', hn', k', hk', heq⟩ :=
        mem_columnIndices.mp (h.mem_iff.mpr (List.mem_range.mpr hfree))
      rw [index_mod hm hinside hn' hk'] at heq
      obtain ⟨rfl, rfl⟩ := index_inj hn' hn heq
      exact Nat.lt_irrefl _ hk'
  · intro hsizes
    have hinside : ∀ {n k}, n < width → k < sizes n → n + k * width < total := by
      intro n k hn hk
      rw [hsizes n hn] at hk
      exact (lt_columnLength_iff hn).mp hk
    refine (List.perm_ext_iff_of_nodup (nodup_columnIndices hm hinside) List.nodup_range).mpr
      fun i => ?_
    rw [mem_columnIndices, List.mem_range]
    constructor
    · rintro ⟨n, hn, k, hk, rfl⟩
      rw [index_mod hm hinside hn hk]
      exact hinside hn hk
    · intro hi
      have hn : i % width < width := Nat.mod_lt _ hwidth
      have hi' : i % width + i / width * width = i := Nat.mod_add_div' i width
      have hk : i / width < sizes (i % width) := by
        rw [hsizes _ hn, lt_columnLength_iff hn, hi']
        exact hi
      refine ⟨_, hn, _, hk, ?_⟩
      rw [index_mod hm hinside hn hk, hi']

/-- A list that is made of pieces gets longer at its end, up to the order, if one of the pieces
does. -/
theorem flatMap_perm_append {pieces pieces' : ℕ → List α} {ns : List ℕ} {z : ℕ} {a : α}
    (hns : ns.Nodup) (hz : z ∈ ns) (hlast : pieces' z = pieces z ++ [a])
    (h : ∀ n ∈ ns, n ≠ z → pieces' n = pieces n) :
    (ns.flatMap pieces').Perm (ns.flatMap pieces ++ [a]) := by
  induction ns with
  | nil => cases hz
  | cons n ns ih =>
    obtain ⟨hn, hns⟩ := List.nodup_cons.mp hns
    rw [List.flatMap_cons, List.flatMap_cons, List.append_assoc]
    by_cases hnz : n = z
    · subst hnz
      have hrest : ns.flatMap pieces' = ns.flatMap pieces := by
        refine List.flatMap_congr fun n' hn' => h n' (List.mem_cons_of_mem n hn') ?_
        rintro rfl
        exact hn hn'
      rw [hlast, hrest, List.append_assoc]
      exact List.perm_append_comm.append_left _
    · rw [h n List.mem_cons_self hnz]
      refine (ih hns ?_ fun n' hn' => h n' (List.mem_cons_of_mem n hn')).append_left _
      exact (List.mem_cons.mp hz).resolve_left (Ne.symm hnz)

/-- A list is made of the pieces on which a function has one value. -/
theorem flatMap_filter_perm {f : α → ℕ} {xs : List α} (h : ∀ x ∈ xs, f x < width) :
    ((List.range width).flatMap fun n => xs.filter fun x => f x = n).Perm xs := by
  induction xs using List.reverseRecOn with
  | nil => simp
  | append_singleton xs x ih =>
    have hx : f x < width := h x (List.mem_append_right _ List.mem_cons_self)
    have hlast : ((List.range width).flatMap fun n => (xs ++ [x]).filter fun y => f y = n).Perm
        (((List.range width).flatMap fun n => xs.filter fun y => f y = n) ++ [x]) := by
      refine flatMap_perm_append List.nodup_range (List.mem_range.mpr hx) ?_ fun n _ hne => ?_
      · simp
      · simp [hne.symm]
    exact hlast.trans ((ih fun y hy => h y (List.mem_append_left _ hy)).append_right _)

/-- **The last entry of a table**: if one column is too short by one entry, the entry after it is
the one that fills the table. -/
theorem append_perm_iff {z i : ℕ} (hz : z < width) (hm : total + width ≤ m)
    (hshort : sizes z + 1 = columnLength total width z)
    (hsizes : ∀ n < width, n ≠ z → sizes n = columnLength total width n) :
    (columnIndices m width sizes ++ [i]).Perm (List.range total) ↔ i = z + sizes z * width := by
  have hfree : z + sizes z * width < total := by
    rw [← lt_columnLength_iff hz]
    omega
  have hfull : (columnIndices m width sizes ++ [z + sizes z * width]).Perm (List.range total) := by
    have hcolumns : (columnIndices m width (columnLength total width)).Perm (List.range total) :=
      (columnIndices_perm_iff (Nat.zero_lt_of_lt hz) hm).mpr fun _ _ => rfl
    refine List.Perm.trans (List.Perm.symm ?_) hcolumns
    refine flatMap_perm_append List.nodup_range (List.mem_range.mpr hz) ?_ fun n hn hne => ?_
    · rw [← hshort, List.range_succ, List.map_append, List.map_singleton,
        Nat.mod_eq_of_lt (lt_of_lt_of_le hfree (le_trans (Nat.le_add_right _ _) hm))]
    · rw [hsizes n (List.mem_range.mp hn) hne]
  constructor
  · intro h
    have hperm := (List.perm_append_left_iff _).mp (h.trans hfull.symm)
    exact List.singleton_perm_singleton.mp hperm
  · rintro rfl
    exact hfull

end Columns

end Filling

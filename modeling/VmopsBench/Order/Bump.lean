import Mathlib

/-!
# Handing out the slots of blocks

A bump allocator gets its memory in blocks and hands out the slots of a block one after the other.
Only when a block is spent does it turn to another one. `Bump.Stock` is such an allocator without
its pointers: the blocks that are spent, and how far it has come in the block at hand, which is
never untouched and never spent.

A slot is handed out once: as long as the blocks do not overlap, the next slot is none of those
that have been handed out (`Bump.Stock.next_notMem_handed`), neither by this allocator nor by one
whose blocks lie elsewhere (`Bump.Stock.slot_notMem_handed`).
-/

namespace Bump

/-! ### Blocks and slots -/

/-- The `i`-th slot of a block. -/
def slot (size b i : ℕ) : ℕ := b + size * i

/-- The first slots of a block. -/
def slots (size n b : ℕ) : List ℕ := (List.range n).map (slot size b)

/-- Blocks of one length that do not overlap. -/
def Apart (len b b' : ℕ) : Prop := b + len ≤ b' ∨ b' + len ≤ b

section Blocks

variable {size n b b' i j : ℕ}

theorem Apart.symm (h : Apart n b b') : Apart n b' b := Or.symm h

theorem slot_succ : slot size b (i + 1) = slot size b i + size := by
  rw [slot, slot, Nat.mul_succ, Nat.add_assoc]

theorem mem_slots {e : ℕ} : e ∈ slots size n b ↔ ∃ i < n, slot size b i = e := by
  simp [slots]

theorem slots_succ : slots size (n + 1) b = slots size n b ++ [slot size b n] := by
  rw [slots, List.range_succ, List.map_append]
  rfl

/-- **The slots of a block are different.** -/
theorem slot_inj (hsize : 0 < size) (h : slot size b i = slot size b j) : i = j := by
  have hmul : size * i = size * j := Nat.add_left_cancel h
  exact Nat.eq_of_mul_eq_mul_left hsize hmul

theorem slot_notMem_slots (hsize : 0 < size) : slot size b n ∉ slots size n b := by
  intro hmem
  obtain ⟨i, hi, heq⟩ := mem_slots.mp hmem
  exact absurd (slot_inj hsize heq) (Nat.ne_of_lt hi)

/-- A slot lies in its block. -/
theorem slot_add_le (hi : i < n) : slot size b i + size ≤ b + size * n := by
  have hmul : size * i + size ≤ size * n := Nat.mul_le_mul_left size hi
  rw [slot]
  omega

/-- **Slots of blocks that do not overlap are different.** -/
theorem slot_ne_slot (hsize : 0 < size) (h : Apart (size * n) b b') (hi : i < n) (hj : j < n) :
    slot size b i ≠ slot size b' j := by
  intro heq
  have hin : slot size b i + size ≤ b + size * n := slot_add_le hi
  have hin' : slot size b' j + size ≤ b' + size * n := slot_add_le hj
  have hle : b ≤ slot size b i := Nat.le_add_right _ _
  have hle' : b' ≤ slot size b' j := Nat.le_add_right _ _
  rcases h with h | h
  · omega
  · omega

/-- **There is always room for another block.** -/
theorem exists_apart (len : ℕ) (bs : List ℕ) : ∃ b ≠ 0, ∀ b' ∈ bs, Apart len b' b := by
  have hbound : ∃ b ≠ 0, ∀ b' ∈ bs, b' + len ≤ b := by
    induction bs with
    | nil => exact ⟨1, Nat.one_ne_zero, by simp⟩
    | cons a bs ih =>
      obtain ⟨b, hb, hle⟩ := ih
      refine ⟨max b (a + len), by omega, fun b' hb' => ?_⟩
      rcases List.mem_cons.mp hb' with rfl | hb'
      · exact Nat.le_max_right _ _
      · exact (hle b' hb').trans (Nat.le_max_left _ _)
  obtain ⟨b, hb, hle⟩ := hbound
  exact ⟨b, hb, fun b' hb' => .inl (hle b' hb')⟩

end Blocks

/-! ### The allocator -/

/-- **A bump allocator** of blocks with `n` slots. -/
structure Stock (n : ℕ) where
  /-- The blocks whose slots were all handed out. -/
  spent : List ℕ
  /-- The block at hand, and how many of its slots were handed out. -/
  current : Option (ℕ × ℕ)
  current_lt : ∀ c ∈ current, 0 < c.2 ∧ c.2 < n

namespace Stock

variable {n : ℕ}

/-- Nothing was handed out. -/
def empty (n : ℕ) : Stock n := ⟨[], none, by simp⟩

/-- **The blocks** it has had, in their order. -/
def blocks (s : Stock n) : List ℕ := s.spent ++ (s.current.map Prod.fst).toList

/-- **The slots it has handed out**, in their order. -/
def handed (size : ℕ) (s : Stock n) : List ℕ :=
  s.spent.flatMap (slots size n) ++ s.current.elim [] fun c => slots size c.2 c.1

/-- Where the next slot is: in the block at hand, or at the front of a fresh one. -/
def next (s : Stock n) (fresh : ℕ) : ℕ × ℕ := s.current.getD (fresh, 0)

theorem next_lt (hn : 0 < n) (s : Stock n) (fresh : ℕ) : (s.next fresh).2 < n := by
  cases h : s.current with
  | none =>
    rw [next, h]
    exact hn
  | some c =>
    rw [next, h]
    exact (s.current_lt c h).2

/-- **Handing out a slot.** -/
def take (hn : 0 < n) (s : Stock n) (fresh : ℕ) : Stock n :=
  if h : (s.next fresh).2 + 1 = n then ⟨s.spent ++ [(s.next fresh).1], none, by simp⟩
  else
    { spent := s.spent
      current := some ((s.next fresh).1, (s.next fresh).2 + 1)
      current_lt := by
        rintro c ⟨⟩
        have hlt := s.next_lt hn fresh
        exact ⟨Nat.succ_pos _, by simp only; omega⟩ }

section Taking

variable {hn : 0 < n} {s : Stock n} {fresh : ℕ}

theorem take_current : (s.take hn fresh).current =
    if (s.next fresh).2 + 1 = n then none else some ((s.next fresh).1, (s.next fresh).2 + 1) := by
  rw [take]
  split <;> rfl

/-- The slots before the next one, with those of the spent blocks, are what was handed out. -/
theorem handed_eq (s : Stock n) (size fresh : ℕ) : s.handed size =
    s.spent.flatMap (slots size n) ++ slots size (s.next fresh).2 (s.next fresh).1 := by
  cases h : s.current with
  | none =>
    rw [handed, next, h]
    rfl
  | some c =>
    rw [handed, next, h]
    rfl

/-- **One more slot is handed out.** -/
theorem handed_take (size : ℕ) : (s.take hn fresh).handed size =
    s.handed size ++ [slot size (s.next fresh).1 (s.next fresh).2] := by
  rw [s.handed_eq size fresh, List.append_assoc, ← slots_succ, take]
  split
  · next h => simp [handed, h]
  · simp [handed]

/-- **A fresh block is asked for** when there is none at hand. -/
theorem blocks_take :
    (s.take hn fresh).blocks = s.blocks ++ if s.current = none then [fresh] else [] := by
  rw [take]
  cases h : s.current with
  | none => split <;> simp [blocks, next, h]
  | some c => split <;> simp [blocks, next, h]

/-- The next slot is in a block of the allocator. -/
theorem next_mem_blocks : (s.next fresh).1 ∈ (s.take hn fresh).blocks := by
  rw [blocks_take]
  cases h : s.current with
  | none => simp [next, h]
  | some c => simp [next, h, blocks]

end Taking

variable {size : ℕ} {s : Stock n}

/-- **What was handed out lies in a block.** -/
theorem mem_blocks_of_mem_handed {e : ℕ} (he : e ∈ s.handed size) :
    ∃ b ∈ s.blocks, ∃ i < n, slot size b i = e := by
  rcases List.mem_append.mp he with hspent | hcur
  · obtain ⟨b, hb, hslot⟩ := List.mem_flatMap.mp hspent
    exact ⟨b, List.mem_append_left _ hb, mem_slots.mp hslot⟩
  · cases hc : s.current with
    | none =>
      rw [hc] at hcur
      cases hcur
    | some c =>
      rw [hc] at hcur
      obtain ⟨i, hi, heq⟩ := mem_slots.mp hcur
      exact ⟨c.1, by simp [blocks, hc], i, hi.trans (s.current_lt c hc).2, heq⟩

/-- **Without a block at hand every block is spent.** -/
theorem slots_subset_handed_of_none (h : s.current = none) {b : ℕ} (hb : b ∈ s.blocks) :
    slots size n b ⊆ s.handed size := by
  intro e he
  rw [blocks, h] at hb
  refine List.mem_append_left _ (List.mem_flatMap.mpr ⟨b, ?_, he⟩)
  simpa using hb

/-- **A block is left only when it is spent.** -/
theorem slots_subset_handed {b fresh : ℕ} (hb : b ∈ s.blocks) (hne : b ≠ (s.next fresh).1) :
    slots size n b ⊆ s.handed size := by
  intro e he
  refine List.mem_append_left _ (List.mem_flatMap.mpr ⟨b, ?_, he⟩)
  rcases List.mem_append.mp hb with hspent | hcur
  · exact hspent
  · cases hc : s.current with
    | none => simp [hc] at hcur
    | some c =>
      rw [next, hc] at hne
      exact absurd (by simpa [hc] using hcur) hne

/-- **A slot that lies elsewhere** was not handed out. -/
theorem slot_notMem_handed (hsize : 0 < size) {b i : ℕ} (hi : i < n)
    (h : ∀ b' ∈ s.blocks, Apart (size * n) b b') : slot size b i ∉ s.handed size := by
  intro hmem
  obtain ⟨b', hb', j, hj, heq⟩ := mem_blocks_of_mem_handed hmem
  exact slot_ne_slot hsize (h b' hb') hi hj heq.symm

/-- **The next slot was not handed out.** -/
theorem next_notMem_handed (hsize : 0 < size) (hn : 0 < n) {fresh : ℕ}
    (h : (s.take hn fresh).blocks.Pairwise (Apart (size * n))) :
    slot size (s.next fresh).1 (s.next fresh).2 ∉ s.handed size := by
  rw [s.handed_eq size fresh, List.mem_append, not_or]
  refine ⟨?_, slot_notMem_slots hsize⟩
  intro hmem
  obtain ⟨b, hb, hslot⟩ := List.mem_flatMap.mp hmem
  obtain ⟨j, hj, heq⟩ := mem_slots.mp hslot
  -- the block of the next slot comes after the spent ones
  have hblocks : (s.take hn fresh).blocks = s.spent ++ [(s.next fresh).1] := by
    rw [blocks_take]
    cases hc : s.current with
    | none => simp [blocks, next, hc]
    | some c => simp [blocks, next, hc]
  rw [hblocks] at h
  have hapart := (List.pairwise_append.mp h).2.2 b hb _ (List.mem_singleton_self _)
  exact slot_ne_slot hsize hapart hj (s.next_lt hn fresh) heq

end Stock

end Bump

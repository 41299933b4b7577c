import VmopsBench.Platform.Basic
import VmopsBench.Words.Arc

/-!
# Pages

The kernel maps and protects pages, and a range of addresses stands for the pages it
touches (`VmopsBench.pagesOf_eq_image`): the first and the last one may be touched in
part only. The pages of the 64-bit addresses are 52-bit words, so the pages of a
range are an arc again (`VmopsBench.pagesOf`). A range may be as long as the address
space or longer, since its length is a natural number; then it is all pages.
-/

namespace VmopsBench

open Words

/-- A page, by its number. -/
abbrev Page := BitVec 52

/-- The page of an address. -/
def pageOf (x : Addr) : Page := BitVec.ofNat 52 (x.toNat / platArchBasePageSize.toNat)

theorem toNat_pageOf (x : Addr) : (pageOf x).toNat = x.toNat / 4096 := by
  have hx := x.isLt
  have hsize : platArchBasePageSize.toNat = 4096 := rfl
  rw [pageOf, BitVec.toNat_ofNat, hsize]
  omega

/-- The page some way behind an address. -/
theorem pageOf_add (addr : Addr) (k : ℕ) : pageOf (addr + BitVec.ofNat 64 k) =
    pageOf addr + BitVec.ofNat 52 ((addr.toNat % 4096 + k) / 4096) := by
  apply BitVec.eq_of_toNat_eq
  rw [toNat_pageOf, BitVec.toNat_add, BitVec.toNat_add, toNat_pageOf, BitVec.toNat_ofNat,
    BitVec.toNat_ofNat]
  omega

/-- How many pages a range of `n` bytes touches. -/
def pageSpan (addr : Addr) (n : ℕ) : ℕ :=
  if n = 0 then 0 else (addr.toNat % 4096 + n + 4095) / 4096

/-- **The pages of a range** of `n` bytes. -/
def pagesOf (addr : Addr) (n : ℕ) : Set Page := arc (pageOf addr) (pageSpan addr n)

instance (addr : Addr) (n : ℕ) : DecidablePred (· ∈ pagesOf addr n) :=
  inferInstanceAs (DecidablePred (· ∈ arc (pageOf addr) (pageSpan addr n)))

/-- **They are the pages of its bytes.** -/
theorem pagesOf_eq_image (addr : Addr) (n : ℕ) : pagesOf addr n = pageOf '' arc addr n := by
  ext p
  rw [pagesOf, mem_arc_iff_exists, Set.mem_image]
  constructor
  · rintro ⟨k, hk, rfl⟩
    rw [pageSpan] at hk
    split at hk
    · omega
    · -- the first byte of the range on that page
      refine ⟨addr + BitVec.ofNat 64 (k * 4096 - addr.toNat % 4096), ?_, ?_⟩
      · exact add_ofNat_mem_arc (by omega)
      rw [pageOf_add]
      rcases Nat.eq_zero_or_pos k with rfl | hpos
      · rw [Nat.zero_mul, Nat.zero_sub, Nat.add_zero, Nat.div_eq_of_lt (Nat.mod_lt _ (by omega))]
      · have hle : addr.toNat % 4096 ≤ k * 4096 := by omega
        rw [Nat.add_sub_cancel' hle, Nat.mul_div_cancel _ (by omega)]
  · rintro ⟨x, hx, rfl⟩
    obtain ⟨k, hk, rfl⟩ := mem_arc_iff_exists.mp hx
    refine ⟨(addr.toNat % 4096 + k) / 4096, ?_, pageOf_add addr k⟩
    rw [pageSpan, if_neg (by omega)]
    omega

/-- A range touches the page it begins on. -/
theorem pageOf_mem_pagesOf (addr : Addr) {n : ℕ} (hn : 0 < n) : pageOf addr ∈ pagesOf addr n := by
  refine start_mem_arc ?_
  rw [pageSpan, if_neg (Nat.ne_of_gt hn)]
  omega

theorem pagesOf_mono {addr : Addr} {m n : ℕ} (h : m ≤ n) : pagesOf addr m ⊆ pagesOf addr n := by
  rw [pagesOf_eq_image, pagesOf_eq_image]
  exact Set.image_mono (arc_mono h)

/-- **The pages of two consecutive ranges** are those of the whole. -/
theorem pagesOf_add (addr : Addr) (m n : ℕ) :
    pagesOf addr (m + n) = pagesOf addr m ∪ pagesOf (addr + BitVec.ofNat 64 m) n := by
  rw [pagesOf_eq_image, pagesOf_eq_image, pagesOf_eq_image, arc_add, Set.image_union]

@[simp] theorem pagesOf_zero (addr : Addr) : pagesOf addr 0 = ∅ := by
  rw [pagesOf_eq_image, arc_zero, Set.image_empty]

/-! ### Ranges that begin with a page -/

/-- The address is the first of a page. -/
def Aligned (addr : Addr) : Prop := addr.toNat % 4096 = 0

theorem Aligned.add {addr : Addr} (h : Aligned addr) (k : ℕ) :
    Aligned (addr + BitVec.ofNat 64 (k * platArchBasePageSize.toNat)) := by
  have hsize : platArchBasePageSize.toNat = 4096 := rfl
  rw [Aligned, BitVec.toNat_add, BitVec.toNat_ofNat, hsize]
  rw [Aligned] at h
  omega

theorem Aligned.pageSpan_eq {addr : Addr} (h : Aligned addr) (n : ℕ) :
    pageSpan addr n = (n + 4095) / 4096 := by
  rw [Aligned] at h
  rw [pageSpan, h]
  split <;> omega

theorem Aligned.pagesOf_eq {addr : Addr} (h : Aligned addr) (n : ℕ) :
    pagesOf addr n = arc (pageOf addr) ((n + 4095) / 4096) := by
  rw [pagesOf, h.pageSpan_eq]

theorem Aligned.pageOf_add {addr : Addr} (h : Aligned addr) (k : ℕ) :
    pageOf (addr + BitVec.ofNat 64 (k * platArchBasePageSize.toNat)) =
      pageOf addr + BitVec.ofNat 52 k := by
  have hsize : platArchBasePageSize.toNat = 4096 := rfl
  rw [Aligned] at h
  rw [VmopsBench.pageOf_add, h, hsize, Nat.zero_add, Nat.mul_div_cancel _ (by omega)]

/-- A range of one page that begins with a page. -/
theorem Aligned.pagesOf_page {addr : Addr} (h : Aligned addr) :
    pagesOf addr platArchBasePageSize.toNat = {pageOf addr} := by
  have hsize : (platArchBasePageSize.toNat + 4095) / 4096 = 1 := rfl
  rw [h.pagesOf_eq, hsize]
  ext p
  rw [mem_arc_iff_exists, Set.mem_singleton_iff]
  constructor
  · rintro ⟨k, hk, rfl⟩
    obtain rfl : k = 0 := by omega
    simp
  · rintro rfl
    exact ⟨0, by omega, by simp⟩

/-- The page that begins `k` pages further on. -/
theorem Aligned.pagesOf_nth {addr : Addr} (h : Aligned addr) (k : ℕ) :
    pagesOf (addr + BitVec.ofNat 64 (k * platArchBasePageSize.toNat)) platArchBasePageSize.toNat =
      {pageOf addr + BitVec.ofNat 52 k} := by
  rw [(h.add k).pagesOf_page, h.pageOf_add]

/-- An address that begins a page is determined by the page. -/
theorem Aligned.eq_of_pageOf_eq {a b : Addr} (ha : Aligned a) (hb : Aligned b)
    (h : pageOf a = pageOf b) : a = b := by
  apply BitVec.eq_of_toNat_eq
  have hpage : a.toNat / 4096 = b.toNat / 4096 := by rw [← toNat_pageOf, ← toNat_pageOf, h]
  rw [Aligned] at ha hb
  omega

/-- **Disjoint ranges of whole pages touch disjoint pages.** -/
theorem Aligned.disjoint_pagesOf {a b : Addr} {m n : ℕ} (ha : Aligned a) (hb : Aligned b)
    (hm : m % 4096 = 0) (hn : n % 4096 = 0) (h : Disjoint (arc a m) (arc b n)) :
    Disjoint (pagesOf a m) (pagesOf b n) := by
  rw [ha.pagesOf_eq, hb.pagesOf_eq]
  refine Set.disjoint_left.mpr fun p hpa hpb => ?_
  obtain ⟨k, hk, rfl⟩ := mem_arc_iff_exists.mp hpa
  obtain ⟨l, hl, hkl⟩ := mem_arc_iff_exists.mp hpb
  have hpage : platArchBasePageSize.toNat = 4096 := rfl
  -- the page begins on both ranges
  have hkm : k * platArchBasePageSize.toNat < m := by
    rw [hpage]
    omega
  have hln : l * platArchBasePageSize.toNat < n := by
    rw [hpage]
    omega
  rw [← ha.pageOf_add, ← hb.pageOf_add] at hkl
  have heq := (ha.add k).eq_of_pageOf_eq (hb.add l) hkl
  have hmem := add_ofNat_mem_arc (a := b) hln
  rw [← heq] at hmem
  exact Set.disjoint_left.mp h (add_ofNat_mem_arc hkm) hmem

end VmopsBench

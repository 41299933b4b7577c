import VmopsBench.Benchmarks.RunFns
import VmopsBench.Platform.AddressSpace

/-!
# The array of small pages

The 4k functions map the pages of their memory object one by one, and the array `addrs` is their
only record of what they have mapped. `VmopsBench.Entries` says that this record is right: the
entries of a set of indices stand for different pages, each with the page of the memory object that
belongs to its index, and nothing else is mapped. Two steps are all that happens to it, a new
entry (`VmopsBench.Entries.set`) and an entry whose page is unmapped
(`VmopsBench.Entries.clear`).

The mapping loop establishes it, as far as it gets (`VmopsBench.wp_mapPages_filled`), for any
specification that sees the address space (`VmopsBench.Sees`). The operation of the map and
unmap benchmark takes both steps for one entry (`VmopsBench.MapUnmap.wp_unmapAndMap`).
-/

namespace VmopsBench

open Interact Words

/-! ### The record -/

/-- **The entries of `I` are what is mapped.** -/
structure Entries (content : ℕ → ObjectPage) (addrs : ℕ → Addr) (I : Set ℕ)
    (space : AddressSpace) : Prop where
  ne_zero : ∀ i ∈ I, addrs i ≠ 0
  aligned : ∀ i ∈ I, Aligned (addrs i)
  injOn : Set.InjOn (fun i => pageOf (addrs i)) I
  space_eq : ∀ p m, space p = some m ↔ ∃ i ∈ I, pageOf (addrs i) = p ∧ content i = m

namespace Entries

variable {content : ℕ → ObjectPage} {addrs : ℕ → Addr} {I : Set ℕ} {space : AddressSpace}

theorem empty (content : ℕ → ObjectPage) (addrs : ℕ → Addr) :
    Entries content addrs ∅ AddressSpace.empty := by
  refine ⟨fun i hi => hi.elim, fun i hi => hi.elim, Set.injOn_empty _, fun p m => ?_⟩
  constructor
  · intro h
    cases h
  · rintro ⟨i, hi, -⟩
    exact hi.elim

/-- What an entry stands for. -/
theorem at_entry (h : Entries content addrs I space) {i : ℕ} (hi : i ∈ I) :
    space (pageOf (addrs i)) = some (content i) := (h.space_eq _ _).mpr ⟨i, hi, rfl, rfl⟩

/-- A page that no entry stands for is not mapped. -/
theorem eq_none (h : Entries content addrs I space) {p : Page}
    (hp : ∀ i ∈ I, pageOf (addrs i) ≠ p) : space p = none := by
  rw [Option.eq_none_iff_forall_ne_some]
  intro m hm
  obtain ⟨i, hi, hpage, -⟩ := (h.space_eq p m).mp hm
  exact hp i hi hpage

/-- The pages that are mapped. -/
theorem mapped_eq (h : Entries content addrs I space) :
    space.mapped = (fun i => pageOf (addrs i)) '' I := by
  ext p
  rw [AddressSpace.mapped, Set.mem_ofPred_eq, Option.isSome_iff_exists, Set.mem_image]
  constructor
  · rintro ⟨m, hm⟩
    obtain ⟨i, hi, hpage, -⟩ := (h.space_eq p m).mp hm
    exact ⟨i, hi, hpage⟩
  · rintro ⟨i, hi, rfl⟩
    exact ⟨content i, h.at_entry hi⟩

/-- The page of an entry is mapped. -/
theorem pagesOf_subset (h : Entries content addrs I space) {i : ℕ} (hi : i ∈ I) :
    pagesOf (addrs i) platArchBasePageSize.toNat ⊆ space.mapped := by
  rw [(h.aligned i hi).pagesOf_page, Set.singleton_subset_iff, h.mapped_eq]
  exact Set.mem_image_of_mem _ hi

/-- Only the entries of `I` matter. -/
theorem congr (h : Entries content addrs I space) {addrs' : ℕ → Addr}
    (heq : ∀ i ∈ I, addrs' i = addrs i) : Entries content addrs' I space := by
  refine ⟨fun i hi => ?_, fun i hi => ?_, fun i hi j hj hij => ?_, fun p m => ?_⟩
  · rw [heq i hi]
    exact h.ne_zero i hi
  · rw [heq i hi]
    exact h.aligned i hi
  · simp only [heq i hi, heq j hj] at hij
    exact h.injOn hi hj hij
  · rw [h.space_eq]
    refine exists_congr fun i => and_congr_right fun hi => ?_
    rw [heq i hi]

/-- An entry at a free page stands for nothing yet, and its page is mapped. -/
theorem extend (h : Entries content addrs I space) {i : ℕ} (hzero : addrs i ≠ 0)
    (haligned : Aligned (addrs i)) (hfree : space (pageOf (addrs i)) = none) :
    Entries content addrs (insert i I)
      (Function.update space (pageOf (addrs i)) (some (content i))) := by
  have hfresh : ∀ j ∈ I, pageOf (addrs j) ≠ pageOf (addrs i) := by
    intro j hj heq
    have hmapped := h.at_entry hj
    rw [heq, hfree] at hmapped
    cases hmapped
  have hi : i ∉ I := fun hi => hfresh i hi rfl
  refine ⟨?_, ?_, (Set.injOn_insert hi).mpr ⟨h.injOn, ?_⟩, fun p m => ?_⟩
  · rintro j (rfl | hj)
    · exact hzero
    · exact h.ne_zero j hj
  · rintro j (rfl | hj)
    · exact haligned
    · exact h.aligned j hj
  · rintro ⟨j, hj, heq⟩
    exact hfresh j hj heq
  · by_cases hp : p = pageOf (addrs i)
    · subst hp
      rw [Function.update_self, Option.some_inj]
      constructor
      · exact fun hm => ⟨i, Set.mem_insert i I, rfl, hm⟩
      · rintro ⟨j, rfl | hj, hpage, hm⟩
        · exact hm
        · exact absurd hpage (hfresh j hj)
    · rw [Function.update_of_ne hp, h.space_eq]
      constructor
      · rintro ⟨j, hj, hm⟩
        exact ⟨j, Set.mem_insert_of_mem i hj, hm⟩
      · rintro ⟨j, rfl | hj, hpage, hm⟩
        · exact absurd hpage.symm hp
        · exact ⟨j, hj, hpage, hm⟩

/-- **A new entry**, or an old one at another address. -/
theorem set (h : Entries content addrs I space) {i : ℕ} (hi : i ∉ I) {addr : Addr}
    (hzero : addr ≠ 0) (haligned : Aligned addr) (hfree : space (pageOf addr) = none) :
    Entries content (Function.update addrs i addr) (insert i I)
      (Function.update space (pageOf addr) (some (content i))) := by
  have hself : Function.update addrs i addr i = addr := Function.update_self _ _ _
  have hother : Entries content (Function.update addrs i addr) I space :=
    h.congr fun j hj => Function.update_of_ne (fun heq : j = i => hi (heq ▸ hj)) _ _
  have hinsert := hother.extend (i := i)
  rw [hself] at hinsert
  exact hinsert hzero haligned hfree

/-- **An entry whose page is unmapped.** -/
theorem clear (h : Entries content addrs I space) {i : ℕ} (hi : i ∈ I) :
    Entries content addrs (I \ {i}) (Function.update space (pageOf (addrs i)) none) := by
  refine ⟨fun j hj => h.ne_zero j hj.1, fun j hj => h.aligned j hj.1,
    h.injOn.mono Set.sdiff_subset, fun p m => ?_⟩
  by_cases hp : p = pageOf (addrs i)
  · subst hp
    rw [Function.update_self]
    constructor
    · intro hm
      cases hm
    · rintro ⟨j, ⟨hj, hne⟩, hpage, -⟩
      exact absurd (h.injOn hj hi hpage) hne
  · rw [Function.update_of_ne hp, h.space_eq]
    constructor
    · rintro ⟨j, hj, hpage, hm⟩
      exact ⟨j, ⟨hj, fun heq => hp (by rw [← hpage, heq])⟩, hpage, hm⟩
    · rintro ⟨j, hj, hpage, hm⟩
      exact ⟨j, hj.1, hpage, hm⟩

end Entries

/-! ### The mapping loop -/

/-- The page of the memory object that belongs to an index. -/
def objectPage (arg : VmopsBenchRunArg) (i : ℕ) : ObjectPage :=
  (arg.memobj, BitVec.ofNat 64 i * platArchBasePageSize)

/-- **The array has been filled** up to an index, and is `NULL` from there on. -/
structure Filled (arg : VmopsBenchRunArg) (n : ℕ) (addrs : ℕ → Addr) (space : AddressSpace) :
    Prop where
  entries : Entries (objectPage arg) addrs (Set.Iio n) space
  null : ∀ i, n ≤ i → addrs i = 0

/-- **A specification that sees the address space**: it keeps it up to date, and the answers it
assumes keep the promises of the kernel. -/
structure Sees {G : Type} (Γ : Spec threadSig G) (space : G → AddressSpace) : Prop where
  answers : ∀ g (c : ThreadCall) r, Γ.env g c r → c.Answers (space g) r
  space_upd : ∀ g (c : ThreadCall) r, space (Γ.upd g c r) = c.onSpace (space g) r

section Filling

variable {arg : VmopsBenchRunArg} {n : ℕ} {addrs : ℕ → Addr} {space : AddressSpace}

theorem filled_zero (arg : VmopsBenchRunArg) : Filled arg 0 (fun _ => 0) AddressSpace.empty := by
  have hnone : Set.Iio 0 = (∅ : Set ℕ) := by
    ext i
    simp
  exact ⟨hnone ▸ Entries.empty _ _, fun _ _ => rfl⟩

/-- **The next entry.** -/
theorem Filled.succ (h : Filled arg n addrs space) {addr : Addr} (hzero : addr ≠ 0)
    (haligned : Aligned addr) (hfree : space (pageOf addr) = none) :
    Filled arg (n + 1) (Function.update addrs n addr)
      (space.map addr platArchBasePageSize arg.memobj
        (BitVec.ofNat 64 n * platArchBasePageSize)) := by
  have hset : insert n (Set.Iio n) = Set.Iio (n + 1) := by
    ext i
    rw [Set.mem_insert_iff, Set.mem_Iio, Set.mem_Iio]
    omega
  rw [AddressSpace.map_page haligned]
  refine ⟨hset ▸ h.entries.set (Nat.lt_irrefl n) hzero haligned hfree, fun i hi => ?_⟩
  rw [Function.update_of_ne (Nat.ne_of_gt hi)]
  exact h.null i (Nat.le_of_lt hi)

/-- The addresses of an isolated thread are consecutive, and do not come round. -/
theorem Filled.eq_none_of_consecutive (h : Filled arg n addrs space) {first : Addr}
    (haligned : Aligned first)
    (haddrs : ∀ i < n, addrs i = first + BitVec.ofNat 64 (i * platArchBasePageSize.toNat))
    (hn : n < 2 ^ 52) :
    space (pageOf (first + BitVec.ofNat 64 (n * platArchBasePageSize.toNat))) = none := by
  refine h.entries.eq_none fun i hi heq => ?_
  rw [haddrs i hi, haligned.pageOf_add, haligned.pageOf_add, BitVec.add_right_inj] at heq
  have hnat := congrArg BitVec.toNat heq
  rw [BitVec.toNat_ofNat, BitVec.toNat_ofNat] at hnat
  rw [Set.mem_Iio] at hi
  omega

theorem objectPage_toNat (arg : VmopsBenchRunArg) (idx : SizeT) :
    objectPage arg idx.toNat = (arg.memobj, idx * platArchBasePageSize) := by
  rw [objectPage, BitVec.ofNat_toNat, BitVec.setWidth_eq]

/-- An entry is unmapped, … -/
theorem Filled.unmap_eq_none (h : Filled arg n addrs space) {i : ℕ} (hi : i < n) :
    space.unmap (addrs i) platArchBasePageSize (pageOf (addrs i)) = none := by
  rw [AddressSpace.unmap_page (h.entries.aligned i hi), Function.update_self]

/-- … **and mapped again**, at any free address. -/
theorem Filled.remap (h : Filled arg n addrs space) {idx : SizeT} (hidx : idx.toNat < n)
    {addr : Addr} (hzero : addr ≠ 0) (haligned : Aligned addr)
    (hfree : space.unmap (addrs idx.toNat) platArchBasePageSize (pageOf addr) = none) :
    Filled arg n (Function.update addrs idx.toNat addr)
      ((space.unmap (addrs idx.toNat) platArchBasePageSize).map addr platArchBasePageSize
        arg.memobj (idx * platArchBasePageSize)) := by
  have hmem : idx.toNat ∈ Set.Iio n := hidx
  have hset : insert idx.toNat (Set.Iio n \ {idx.toNat}) = Set.Iio n :=
    Set.insert_sdiff_self_of_mem hmem
  rw [AddressSpace.map_page haligned, ← objectPage_toNat]
  rw [AddressSpace.unmap_page (h.entries.aligned _ hmem)] at hfree ⊢
  have hentries := (h.entries.clear hmem).set (fun hi => hi.2 rfl) hzero haligned hfree
  refine ⟨hset ▸ hentries, fun j hj => ?_⟩
  rw [Function.update_of_ne (by omega)]
  exact h.null j hj

theorem toNat_pageCount (cfg : VmopsBenchCfg) :
    (pageCount cfg).toNat = cfg.memsize.toNat / 4096 := by
  rw [pageCount, BitVec.toNat_udiv]
  rfl

theorem pageCount_lt (cfg : VmopsBenchCfg) : (pageCount cfg).toNat < 2 ^ 52 := by
  have hmax := cfg.memsize.isLt
  rw [toNat_pageCount]
  omega

variable {G : Type} {Γ : Spec threadSig G} {view : G → AddressSpace} {F : G → Prop} {g : G}

/-- **The rule of the mapping loop**: an invariant of the entries that have been filled so far,
which a mapping call keeps if it fails, and brings to the next index if it does not. -/
theorem wp_mapPages_entries (hsees : Sees Γ view) {F : ℕ → (ℕ → Addr) → G → Prop}
    (hpre : ∀ i addrs g (c : ThreadCall), F i addrs g → c.isMap = true → Γ.pre g c)
    (hfail : ∀ i addrs g (c : ThreadCall) r, F i addrs g → c.isMap = true → c.fails r = true →
      F i addrs (Γ.upd g c r))
    (hok : ∀ i addrs g (c : ThreadCall) r addr, F i addrs g → c.isMap = true →
      c.mapsAt r = some (addr, platArchBasePageSize) →
      F (i + 1) (Function.update addrs i addr) (Γ.upd g c r))
    (hg : F 0 (fun _ => 0) g) (hempty : view g = AddressSpace.empty) :
    wp Γ (mapPages arg) (onExcept
      (fun addrs g => ∃ i < (pageCount arg.cfg).toNat, F i addrs g ∧ Filled arg i addrs (view g))
      (fun addrs g => F (pageCount arg.cfg).toNat addrs g ∧
        Filled arg (pageCount arg.cfg).toNat addrs (view g))) g := by
  have hfilled : Filled arg 0 (fun _ => 0) (view g) := hempty ▸ filled_zero arg
  rw [mapPages]
  dsimp only
  split
  · -- the addresses are consecutive
    have haligned := aligned_mapAddress arg.tid
    refine (wp_bind _ _).mpr (wp_forLoop (fun i s g => F i s.1 g ∧ Filled arg i s.1 (view g) ∧
      s.2 = utilsVmopsGetMapAddress arg.tid + BitVec.ofNat 64 (i * platArchBasePageSize.toNat) ∧
      ∀ j < i, s.1 j = utilsVmopsGetMapAddress arg.tid +
        BitVec.ofNat 64 (j * platArchBasePageSize.toNat)) ?_ ?_ ?_)
    · exact ⟨hg, hfilled, by simp, fun j hj => absurd hj (Nat.not_lt_zero j)⟩
    · rintro i ⟨addrs, addr⟩ g hi ⟨hg, hfilled, rfl, haddrs⟩
      refine wp_perform_bind.mpr ⟨hpre i addrs g _ hg rfl, fun r hr => ?_⟩
      have hspace := hsees.space_upd g _ r
      cases r with
      | false => exact ⟨i, hi, hfail i addrs g _ _ hg rfl rfl, hspace ▸ hfilled⟩
      | true =>
        have hzero := hsees.answers g _ _ hr rfl
        have hfree := hfilled.eq_none_of_consecutive haligned haddrs (hi.trans (pageCount_lt _))
        have hnext := hfilled.succ hzero (haligned.add i) hfree
        refine ⟨hok i addrs g _ _ _ hg rfl rfl, hspace ▸ hnext, add_ofNat_mul_succ _ _ _,
          fun j hj => ?_⟩
        show Function.update addrs i _ j = _
        rcases Nat.lt_succ_iff_lt_or_eq.mp hj with hlt | heq
        · rw [Function.update_of_ne (Nat.ne_of_lt hlt)]
          exact haddrs j hlt
        · rw [heq, Function.update_self]
    · rintro ⟨addrs, addr⟩ g ⟨hg, hfilled, -⟩
      exact ⟨hg, hfilled⟩
  · refine wp_forLoop (fun i addrs g => F i addrs g ∧ Filled arg i addrs (view g)) ⟨hg, hfilled⟩ ?_
      fun _ _ h => h
    rintro i addrs g hi ⟨hg, hfilled⟩
    refine wp_perform_bind.mpr ⟨hpre i addrs g _ hg rfl, fun r hr => ?_⟩
    have hspace := hsees.space_upd g _ r
    cases r with
    | none => exact ⟨i, hi, hfail i addrs g _ _ hg rfl rfl, hspace ▸ hfilled⟩
    | some addr =>
      obtain ⟨hzero, halign, hfree⟩ := hsees.answers g _ _ hr addr rfl
      refine ⟨hok i addrs g _ _ addr hg rfl rfl, ?_⟩
      have hnext := hfilled.succ hzero halign (hfree _ (pageOf_mem_pagesOf addr (by decide)))
      exact hspace ▸ hnext

/-- **The mapping loop fills the array**, up to the index at which a call fails. -/
theorem wp_mapPages_filled (hsees : Sees Γ view)
    (hpre : ∀ g (c : ThreadCall), F g → c.isMap = true → Γ.pre g c)
    (hupd : ∀ g (c : ThreadCall) r, F g → c.isMap = true → F (Γ.upd g c r))
    (hg : F g) (hempty : view g = AddressSpace.empty) :
    wp Γ (mapPages arg) (onExcept
      (fun addrs g => F g ∧ ∃ i < (pageCount arg.cfg).toNat, Filled arg i addrs (view g))
      (fun addrs g => F g ∧ Filled arg (pageCount arg.cfg).toNat addrs (view g))) g := by
  refine wp_mono _ (fun o g ho => ?_) (wp_mapPages_entries hsees (F := fun _ _ => F)
    (fun _ _ g c hg hc => hpre g c hg hc) (fun _ _ g c r hg hc _ => hupd g c r hg hc)
    (fun _ _ g c r _ hg hc _ => hupd g c r hg hc) hg hempty)
  cases o with
  | error addrs =>
    obtain ⟨i, hi, hg, hfilled⟩ := ho
    exact ⟨hg, i, hi, hfilled⟩
  | ok addrs => exact ho

/-! ### The operation of the map and unmap benchmark -/

/-- The call maps a page of a memory object. -/
def ThreadCall.MapsPage (m : ObjectPage) : ThreadCall → Prop
  | .vmMap size memobj offset _ | .vmMapFixed _ size memobj offset _ =>
    size = platArchBasePageSize ∧ (memobj, offset) = m
  | _ => False

theorem ThreadCall.MapsPage.isMap {m : ObjectPage} {c : ThreadCall} (h : c.MapsPage m) :
    c.isMap = true := by
  cases c with
  | vmMap | vmMapFixed => rfl
  | _ => exact h.elim

/-- **The rule of the operation** that unmaps a page and maps it again: what is to be shown for the
first call if it fails, and for the second one whether it fails or not. -/
theorem MapUnmap.wp_unmapAndMap (hsees : Sees Γ view) {v : Pages} {idx : SizeT}
    (hpage : v.page % pageCount arg.cfg = idx) (hidx : idx.toNat < (pageCount arg.cfg).toNat)
    (hfilled : Filled arg (pageCount arg.cfg).toNat v.addrs (view g)) {E I : Pages → G → Prop}
    (hpre : Γ.pre g (.vmUnmap (v.addrs idx.toNat) platArchBasePageSize))
    (hkept : Γ.env g (.vmUnmap (v.addrs idx.toNat) platArchBasePageSize) false →
      E { v with page := v.page + 1 }
        (Γ.upd g (.vmUnmap (v.addrs idx.toNat) platArchBasePageSize) false))
    (hmap : ∀ g', g' = Γ.upd g (.vmUnmap (v.addrs idx.toNat) platArchBasePageSize) true →
      view g' (pageOf (v.addrs idx.toNat)) = none →
      ∀ c : ThreadCall, c.MapsPage (objectPage arg idx.toNat) → Γ.pre g' c ∧
        ∀ r, Γ.env g' c r →
          (c.fails r = true → E { v with page := v.page + 1 } (Γ.upd g' c r)) ∧
          ∀ addrs, Filled arg (pageCount arg.cfg).toNat addrs (view (Γ.upd g' c r)) →
            c.fails r = false → I { addrs, page := v.page + 1 } (Γ.upd g' c r)) :
    wp Γ (mapUnmap4kOp arg v) (onExcept E I) g := by
  rw [mapUnmap4kOp, hpage]
  refine wp_perform_bind.mpr ⟨hpre, fun ok hok => ?_⟩
  cases ok with
  | false => exact hkept hok
  | true =>
    generalize hg : Γ.upd g (.vmUnmap (v.addrs idx.toNat) platArchBasePageSize) true = g'
    have hspace : view g' = (view g).unmap (v.addrs idx.toNat) platArchBasePageSize := by
      rw [← hg]
      exact hsees.space_upd g _ _
    have hgap : view g' (pageOf (v.addrs idx.toNat)) = none := by
      rw [hspace]
      exact hfilled.unmap_eq_none hidx
    -- whichever call maps the page again, the array is filled once more
    have hremap : ∀ addr, addr ≠ 0 → Aligned addr → view g' (pageOf addr) = none →
        Filled arg (pageCount arg.cfg).toNat (Function.update v.addrs idx.toNat addr)
          ((view g').map addr platArchBasePageSize arg.memobj (idx * platArchBasePageSize)) := by
      intro addr hzero haligned hfree
      rw [hspace] at hfree ⊢
      exact hfilled.remap hidx hzero haligned hfree
    have hpage : (arg.memobj, idx * platArchBasePageSize) = objectPage arg idx.toNat :=
      (objectPage_toNat arg idx).symm
    rw [if_pos rfl]
    split
    · obtain ⟨hpre, hmap⟩ := hmap g' hg.symm hgap (.vmMapFixed (v.addrs idx.toNat)
        platArchBasePageSize arg.memobj (idx * platArchBasePageSize) arg.cfg.maphuge) ⟨rfl, hpage⟩
      refine wp_perform_bind.mpr ⟨hpre, fun ok hok => ?_⟩
      cases ok with
      | false => exact (hmap false hok).1 rfl
      | true =>
        -- the address is the old one, and the array stays as it is
        have hnext :=
          hremap _ (hfilled.entries.ne_zero _ hidx) (hfilled.entries.aligned _ hidx) hgap
        rw [Function.update_eq_self] at hnext
        refine (hmap true hok).2 v.addrs ?_ rfl
        rw [hsees.space_upd]
        exact hnext
    · obtain ⟨hpre, hmap⟩ := hmap g' hg.symm hgap (.vmMap platArchBasePageSize arg.memobj
        (idx * platArchBasePageSize) arg.cfg.maphuge) ⟨rfl, hpage⟩
      refine wp_perform_bind.mpr ⟨hpre, fun r hr => ?_⟩
      cases r with
      | none => exact (hmap none hr).1 rfl
      | some addr =>
        obtain ⟨hzero, haligned, hfree⟩ := hsees.answers g' _ _ hr addr rfl
        refine (hmap (some addr) hr).2 _ ?_ rfl
        rw [hsees.space_upd]
        exact hremap addr hzero haligned (hfree _ (pageOf_mem_pagesOf _ (by decide)))

end Filling

end VmopsBench

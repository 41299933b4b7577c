import VmopsBench.Benchmarks.Entry

/-!
# The pages that the elevate benchmark touches

`bench_run_fn` of `protectelevate.c` maps memory chunk by chunk, until `nops` pages
are mapped, and then raises the permissions of `nops` pages in a row, from the first
chunk on. It counts bytes in a 64-bit word, so `nops * 4096` may wrap and then too
little is mapped. And the pages in a row are only there if the chunks follow each
other, which in default mode is up to the kernel.

`VmopsBench.ProtectElevate.touchesOwnPages_iff` says when every page named by a
protect call is one that the thread has mapped, for all answers of the kernel. In
isolated mode that is when the product does not wrap, and in default mode when one chunk is
enough. The only other way is that the chunks fill the whole address space.

The direction from the condition is a proof in the program logic, with one invariant
for each mode. For the other direction the answers are chosen: each chunk lies just below the
one before it, so nothing follows the first (`VmopsBench.ProtectElevate.layout`).
-/

namespace VmopsBench

open Interact Words

namespace ProtectElevate

/-! ### The sizes -/

/-- `nops`. -/
def nops (cfg : VmopsBenchCfg) : ℕ := (opsLimit defaultNops cfg).toNat

/-- The pages of a chunk. -/
def chunkPages (cfg : VmopsBenchCfg) : ℕ := (cfg.memsize.toNat + 4095) / 4096

/-- How many chunks are needed for `total_map_size` bytes. -/
def chunks (cfg : VmopsBenchCfg) : ℕ :=
  ((totalMapSize cfg).toNat + cfg.memsize.toNat - 1) / cfg.memsize.toNat

section Sizes

variable {cfg : VmopsBenchCfg}

theorem toNat_totalMapSize : (totalMapSize cfg).toNat = nops cfg * 4096 % 2 ^ 64 :=
  BitVec.toNat_mul _ _

theorem nops_pos (cfg : VmopsBenchCfg) : 0 < nops cfg :=
  BitVec.lt_def.mp (zero_lt_opsLimit (by decide) cfg)

/-- So many chunks are enough, … -/
theorem totalMapSize_le_chunks (h : 0 < cfg.memsize.toNat) :
    (totalMapSize cfg).toNat ≤ chunks cfg * cfg.memsize.toNat := by
  have hdiv := Nat.lt_div_mul_add h (a := (totalMapSize cfg).toNat + cfg.memsize.toNat - 1)
  rw [chunks]
  omega

/-- … and fewer are not. -/
theorem chunks_le {j : ℕ} (h : 0 < cfg.memsize.toNat)
    (hj : (totalMapSize cfg).toNat ≤ j * cfg.memsize.toNat) : chunks cfg ≤ j := by
  rw [chunks]
  refine Nat.le_of_lt_succ (Nat.div_lt_of_lt_mul ?_)
  rw [Nat.mul_succ, Nat.mul_comm]
  omega

end Sizes

/-! ### The specification -/

/-- **Every protect call names pages that the thread has mapped.** The calls of the setup
succeed, and what the kernel chooses is page-aligned and disjoint from what it has chosen before. -/
def ownPages : Spec threadSig (Set Page) where
  pre mapped c := match c with
    | .vmProtect addr size _ => pagesOf addr size.toNat ⊆ mapped
    | _ => True
  env mapped c r := match c, r with
    | .vmMap size .., r => ∃ addr, r = some addr ∧ Aligned addr ∧
      Disjoint mapped (pagesOf addr size.toNat)
    | .vmMapFixed .., r => r = true
    | .vmProtect _ _ .readOnly, r => r = true
    | _, _ => True
  upd mapped c r := match c, r with
    | .vmMap size .., r => r.elim mapped fun addr => mapped ∪ pagesOf addr size.toNat
    | .vmMapFixed addr size .., r => if r then mapped ∪ pagesOf addr size.toNat else mapped
    | _, _ => mapped

/-- **The elevate benchmark only touches pages it mapped.** -/
def TouchesOwnPages (arg : VmopsBenchRunArg) : Prop := ownPages.Meets (benchRunFn arg) ∅

/-- The pages of the timed loop are mapped. -/
def Covers (cfg : VmopsBenchCfg) (addr : Addr) (mapped : Set Page) : Prop :=
  ∀ k < nops cfg, pageOf addr + BitVec.ofNat 52 k ∈ mapped

section Sufficient

variable {arg : VmopsBenchRunArg}

/-! ### The timed loop -/

/-- One page is named in each turn, and they are consecutive. -/
theorem wp_timedRun_ownPages {addr : Addr} {mapped : Set Page} (haligned : Aligned addr)
    (hcovers : Covers arg.cfg addr mapped) :
    wp ownPages (timedRun arg defaultNops .afterIncrement elevateOp
      (fun addr => do let _ ← platVmUnmap addr arg.cfg.memsize) addr) (fun _ _ => True) mapped := by
  have hignores : ∀ c : ThreadCall, (∀ g r, ownPages.upd g c r = g) → (∀ g, ownPages.pre g c) →
      ownPages.Ignores c := fun c hupd hpre g => ⟨hpre g, hupd g⟩
  refine wp_timedRun_of_ignores (fun site => hignores _ (fun _ _ => rfl) fun _ => trivial)
    (hignores _ (fun _ _ => rfl) fun _ => trivial)
    (fun k v g => v = addr + BitVec.ofNat 64 (k.toNat * platArchBasePageSize.toNat) ∧ g = mapped)
    ⟨by simp, rfl⟩ ?_
  rintro k v g hk ⟨rfl, rfl⟩
  have hlt : k.toNat < nops arg.cfg := BitVec.lt_def.mp hk
  rw [elevateOp]
  refine wp_perform_bind.mpr ⟨?_, fun done _ => ?_⟩
  · show pagesOf _ _ ⊆ g
    rw [haligned.pagesOf_nth, Set.singleton_subset_iff]
    exact hcovers _ hlt
  · cases done with
    | false => exact wp_ignored (hignores _ (fun _ _ => rfl) fun _ => trivial) fun _ => trivial
    | true =>
      refine ⟨?_, rfl⟩
      rw [toNat_succ_of_lt hk]
      exact add_ofNat_mul_succ _ _ platArchBasePageSize

/-! ### The setup in isolated mode -/

/-- The chunks follow each other, and go round the address space if there are enough of them. -/
theorem wp_mapChunks_isolated (hiso : arg.cfg.isolated = true) :
    wp ownPages (mapChunks arg (0, firstAddr arg)) (onExcept (fun _ _ => True) fun s mapped =>
      s.2 = utilsVmopsGetMapAddress arg.tid ∧ ∃ j,
        (totalMapSize arg.cfg).toNat ≤ j * arg.cfg.memsize.toNat % 2 ^ 64 ∧
        pagesOf (utilsVmopsGetMapAddress arg.tid) (j * arg.cfg.memsize.toNat) ⊆ mapped) ∅ := by
  rw [mapChunks]
  refine wp_whileLoop (fun s mapped => s.2 = utilsVmopsGetMapAddress arg.tid ∧
    ∃ j, s.1 = BitVec.ofNat 64 (j * arg.cfg.memsize.toNat) ∧
      pagesOf (utilsVmopsGetMapAddress arg.tid) (j * arg.cfg.memsize.toNat) ⊆ mapped) ?_ ?_ ?_
  · exact ⟨if_pos hiso, 0, by simp, by simp⟩
  · rintro ⟨i, addr⟩ mapped ⟨rfl, j, rfl, hmapped⟩ -
    rw [mapChunk, if_pos hiso]
    refine wp_perform_bind.mpr ⟨trivial, fun ok hok => ?_⟩
    obtain rfl : ok = true := hok
    have hnext : pagesOf (utilsVmopsGetMapAddress arg.tid) ((j + 1) * arg.cfg.memsize.toNat) ⊆
        mapped ∪ pagesOf (utilsVmopsGetMapAddress arg.tid +
          BitVec.ofNat 64 (j * arg.cfg.memsize.toNat)) arg.cfg.memsize.toNat := by
      rw [Nat.succ_mul, pagesOf_add]
      exact Set.union_subset_union_left _ hmapped
    have hfirst := (pagesOf_mono (Nat.le_mul_of_pos_left _ (Nat.succ_pos j))).trans hnext
    exact wp_perform_bind.mpr ⟨hfirst, fun lowered _ => ⟨rfl, j + 1, ofNat_mul_succ _ _, hnext⟩⟩
  · rintro ⟨i, addr⟩ mapped ⟨rfl, j, rfl, hmapped⟩ hend
    refine ⟨rfl, j, ?_, hmapped⟩
    simpa [BitVec.lt_def] using hend

/-- **Isolated threads stay on their pages** if the product does not wrap, or the chunks fill the
address space. -/
theorem touchesOwnPages_isolated (hiso : arg.cfg.isolated = true)
    (hsize : 0 < arg.cfg.memsize.toNat)
    (h : nops arg.cfg * 4096 < 2 ^ 64 ∨ 2 ^ 64 - 4096 < chunks arg.cfg * arg.cfg.memsize.toNat) :
    TouchesOwnPages arg := by
  refine Spec.meets_of_wp (Q := fun _ _ => True) ?_
  rw [benchRunFn]
  refine (wp_bind _ _).mpr (wp_mono _ (fun o mapped ho => ?_) (wp_mapChunks_isolated hiso))
  cases o with
  | error _ => trivial
  | ok s =>
    obtain ⟨haddr, j, hj, hmapped⟩ := ho
    have haligned := aligned_mapAddress arg.tid
    refine wp_timedRun_ownPages (haddr ▸ haligned) ?_
    rw [haddr]
    intro k hk
    refine hmapped ?_
    rw [haligned.pagesOf_eq]
    rcases h with h | h
    · -- the page is one of the first `nops`
      rw [toNat_totalMapSize, Nat.mod_eq_of_lt h] at hj
      have hle := Nat.mod_le (j * arg.cfg.memsize.toNat) (2 ^ 64)
      exact add_ofNat_mem_arc (by omega)
    · -- every page is mapped
      have hchunks := chunks_le hsize (hj.trans (Nat.mod_le _ _))
      have hle := Nat.mul_le_mul_right arg.cfg.memsize.toNat hchunks
      rw [arc_eq_univ (by omega)]
      trivial

/-! ### The setup in default mode -/

/-- Chunks wherever the kernel likes: they are disjoint, so they can be counted, and `addr` is the
address of one of them. -/
theorem wp_mapChunks_default (hdef : arg.cfg.isolated = false)
    (hsize : arg.cfg.memsize.toNat < 2 ^ 63) :
    wp ownPages (mapChunks arg (0, firstAddr arg)) (onExcept (fun _ _ => True) fun s mapped =>
      ∃ j, (totalMapSize arg.cfg).toNat ≤ j * arg.cfg.memsize.toNat % 2 ^ 64 ∧
        j * chunkPages arg.cfg ≤ mapped.ncard ∧ Aligned s.2 ∧
        (j ≠ 0 → pagesOf s.2 arg.cfg.memsize.toNat ⊆ mapped)) ∅ := by
  rw [mapChunks]
  refine wp_whileLoop (fun s mapped => ∃ j, s.1 = BitVec.ofNat 64 (j * arg.cfg.memsize.toNat) ∧
    j * chunkPages arg.cfg ≤ mapped.ncard ∧ Aligned s.2 ∧
    (j ≠ 0 → pagesOf s.2 arg.cfg.memsize.toNat ⊆ mapped) ∧ (j = 0 → s.2 = 0)) ?_ ?_ ?_
  · have hfirst : firstAddr arg = 0 := if_neg (by simp [hdef])
    refine ⟨0, by simp, by simp, ?_, fun h => absurd rfl h, fun _ => hfirst⟩
    rw [hfirst]
    rfl
  · rintro ⟨i, addr⟩ mapped ⟨j, rfl, hcard, haligned, hfirst, hzero⟩ -
    rw [mapChunk, if_neg (by simp [hdef])]
    refine wp_perform_bind.mpr ⟨trivial, fun r hr => ?_⟩
    obtain ⟨curaddr, rfl, hcur, hdisj⟩ := hr
    have hcard' : (j + 1) * chunkPages arg.cfg ≤
        (mapped ∪ pagesOf curaddr arg.cfg.memsize.toNat).ncard := by
      rw [Set.ncard_union_eq hdisj, hcur.pagesOf_eq, ncard_arc (by omega), Nat.succ_mul]
      exact Nat.add_le_add_right hcard _
    -- `addr` is the new chunk if there was none before
    have haddr : ∀ a, a = (if addr = 0 then curaddr else addr) → Aligned a ∧
        pagesOf a arg.cfg.memsize.toNat ⊆ mapped ∪ pagesOf curaddr arg.cfg.memsize.toNat := by
      rintro a rfl
      split
      · exact ⟨hcur, Set.subset_union_right⟩
      · rename_i hne
        have hj : j ≠ 0 := fun hj => hne (hzero hj)
        exact ⟨haligned, (hfirst hj).trans Set.subset_union_left⟩
    obtain ⟨halign', hpages'⟩ := haddr _ rfl
    refine wp_perform_bind.mpr ⟨hpages', fun lowered _ => ?_⟩
    exact ⟨j + 1, ofNat_mul_succ _ _, hcard', halign', fun _ => hpages', nofun⟩
  · rintro ⟨i, addr⟩ mapped ⟨j, rfl, hcard, haligned, hfirst, -⟩ hend
    refine ⟨j, ?_, hcard, haligned, hfirst⟩
    simpa [BitVec.lt_def] using hend

/-- **Threads in default mode stay on their pages** if one chunk is enough, or the chunks fill the
address space. -/
theorem touchesOwnPages_default (hdef : arg.cfg.isolated = false)
    (hsize : 0 < arg.cfg.memsize.toNat) (hmax : arg.cfg.memsize.toNat < 2 ^ 63)
    (h : nops arg.cfg ≤ chunkPages arg.cfg ∨ 2 ^ 52 ≤ chunks arg.cfg * chunkPages arg.cfg) :
    TouchesOwnPages arg := by
  refine Spec.meets_of_wp (Q := fun _ _ => True) ?_
  rw [benchRunFn]
  refine (wp_bind _ _).mpr (wp_mono _ (fun o mapped ho => ?_) (wp_mapChunks_default hdef hmax))
  cases o with
  | error _ => trivial
  | ok s =>
    obtain ⟨j, hj, hcard, haligned, hfirst⟩ := ho
    refine wp_timedRun_ownPages haligned fun k hk => ?_
    rcases h with h | h
    · -- the page is one of the first chunk
      have hpos := nops_pos arg.cfg
      have hj0 : j ≠ 0 := by
        rintro rfl
        rw [toNat_totalMapSize] at hj
        rw [chunkPages] at h
        omega
      refine hfirst hj0 ?_
      rw [haligned.pagesOf_eq]
      exact add_ofNat_mem_arc (hk.trans_le h)
    · -- every page is mapped
      have hchunks := chunks_le hsize (hj.trans (Nat.mod_le _ _))
      have hle := Nat.mul_le_mul_right (chunkPages arg.cfg) hchunks
      have huniv : mapped = Set.univ := eq_univ_of_le_ncard (by omega)
      rw [huniv]
      trivial

end Sufficient

/-! ### Runs that leave the mapped pages -/

section Necessary

variable {arg : VmopsBenchRunArg}

/-- The variables of the timed loop after some turns, with a clock that stands still. -/
def loopState (arg : VmopsBenchRunArg) (addr : Addr) : ℕ → LoopState Addr
  | 0 => { tCurrent := 0, counter := 0, stats := arg.stats, vars := addr }
  | k + 1 => (loopState arg addr k).next arg.tid .afterIncrement 0 0
      ((loopState arg addr k).vars + platArchBasePageSize)

theorem loopState_eq (arg : VmopsBenchRunArg) (addr : Addr) (k : ℕ) :
    (loopState arg addr k).tCurrent = 0 ∧ (loopState arg addr k).counter = BitVec.ofNat 64 k ∧
      (loopState arg addr k).vars =
        addr + BitVec.ofNat 64 (k * platArchBasePageSize.toNat) := by
  induction k with
  | zero => exact ⟨rfl, rfl, by simp [loopState]⟩
  | succ k ih =>
    obtain ⟨-, hcounter, hvars⟩ := ih
    refine ⟨rfl, ?_, ?_⟩
    · rw [loopState, BitVec.ofNat_add, ← hcounter]
      rfl
    · rw [loopState, ← add_ofNat_mul_succ, ← hvars]
      rfl

/-- **The timed loop comes to all its turns**, if the clock stands still and no call fails. -/
theorem comesTo_protect {addr : Addr} {mapped : Set Page} {onError : Addr → Prog threadSig Unit}
    {k : ℕ} (hk : k < nops arg.cfg) :
    ownPages.ComesTo (timedRun arg defaultNops .afterIncrement elevateOp onError addr) mapped
      (ThreadCall.vmProtect (addr + BitVec.ofNat 64 (k * platArchBasePageSize.toNat))
        platArchBasePageSize .readWrite) mapped := by
  have hrunning : ∀ j < nops arg.cfg, (loopState arg addr j).running
      (deadline (timeLimit arg.cfg) 0) (opsLimit defaultNops arg.cfg) = true := by
    intro j hj
    obtain ⟨htime, hcounter, -⟩ := loopState_eq arg addr j
    have hmax := (opsLimit defaultNops arg.cfg).isLt
    rw [nops] at hj
    rw [LoopState.running, htime, hcounter, Bool.and_eq_true, decide_eq_true_eq, decide_eq_true_eq]
    refine ⟨zero_lt_deadline arg.cfg, BitVec.lt_def.mpr ?_⟩
    rw [BitVec.toNat_ofNat, Nat.mod_eq_of_lt (by omega)]
    exact hj
  have hturns : ownPages.Reaches (timedLoop arg.tid .afterIncrement 0
      (deadline (timeLimit arg.cfg) 0) (opsLimit defaultNops arg.cfg) elevateOp
        (loopState arg addr 0)) mapped
      (timedLoop arg.tid .afterIncrement 0 (deadline (timeLimit arg.cfg) 0)
        (opsLimit defaultNops arg.cfg) elevateOp (loopState arg addr k)) mapped := by
    refine Spec.Reaches.while_turns (loopState arg addr) (fun _ => mapped) fun j hj =>
      ⟨hrunning j (by omega), ?_⟩
    have hop : ownPages.Reaches (elevateOp (loopState arg addr j).vars) mapped
        (.ret (.ok ((loopState arg addr j).vars + platArchBasePageSize))) mapped :=
      .perform_bind true trivial (.refl _ _)
    exact hop.bind (.perform_bind 0 trivial (.refl _ _))
  -- the start barrier, the first clock reading, and the turns before
  refine Spec.Reaches.comesTo (.perform_bind () trivial (.perform_bind 0 trivial (.refl _ _))) ?_
  refine Spec.ComesTo.bind_left (hturns.comesTo (.while (hrunning k hk) ?_)) _
  rw [← (loopState_eq arg addr k).2.2]
  exact Spec.ComesTo.bind_left (.perform _ _ _) _

/-- A setup after which one of the pages of the timed loop is not mapped. -/
theorem not_touchesOwnPages {i : SizeT} {addr : Addr} {mapped : Set Page} {k : ℕ}
    (hsetup : ownPages.Reaches (mapChunks arg (0, firstAddr arg)) ∅ (.ret (.ok (i, addr))) mapped)
    (haligned : Aligned addr) (hk : k < nops arg.cfg)
    (hout : pageOf addr + BitVec.ofNat 52 k ∉ mapped) : ¬TouchesOwnPages arg := by
  intro h
  have hcomes : ownPages.ComesTo (benchRunFn arg) ∅ (ThreadCall.vmProtect
      (addr + BitVec.ofNat 64 (k * platArchBasePageSize.toNat)) platArchBasePageSize .readWrite)
      mapped := by
    refine Spec.Reaches.comesTo (hsetup.bind_left _) ?_
    rw [Prog.ret_bind]
    exact comesTo_protect hk
  have hsub : pagesOf _ platArchBasePageSize.toNat ⊆ mapped := h _ _ hcomes
  rw [haligned.pagesOf_nth, Set.singleton_subset_iff] at hsub
  exact hout hsub

/-- The test of the mapping loop, after `j` chunks that have not wrapped `i`. -/
theorem lt_totalMapSize_iff {cfg : VmopsBenchCfg} {j : ℕ} (hsize : 0 < cfg.memsize.toNat)
    (hj : j * cfg.memsize.toNat < 2 ^ 64) :
    BitVec.ofNat 64 (j * cfg.memsize.toNat) < totalMapSize cfg ↔ j < chunks cfg := by
  rw [BitVec.lt_def, BitVec.toNat_ofNat, Nat.mod_eq_of_lt hj]
  constructor
  · intro h
    by_contra hge
    have hle := Nat.mul_le_mul_right cfg.memsize.toNat (Nat.le_of_not_lt hge)
    have htotal := totalMapSize_le_chunks hsize
    omega
  · intro h
    by_contra hge
    exact absurd (chunks_le hsize (Nat.le_of_not_lt hge)) (by omega)

/-- **A setup that ends**, with the loop variables and the mapped pages after each turn. -/
theorem reaches_mapChunks (arg : VmopsBenchRunArg) {m : ℕ} (st : ℕ → SizeT × Addr)
    (mapped : ℕ → Set Page)
    (hturn : ∀ j < m, (st j).1 < totalMapSize arg.cfg ∧
      ownPages.Reaches (mapChunk arg (st j)) (mapped j) (.ret (.ok (st (j + 1)))) (mapped (j + 1)))
    (hend : ¬(st m).1 < totalMapSize arg.cfg) :
    ownPages.Reaches (mapChunks arg (st 0)) (mapped 0) (.ret (.ok (st m))) (mapped m) := by
  refine Spec.Reaches.trans (Spec.Reaches.while_turns st mapped fun j hj => ?_)
    (.while_done (decide_eq_false hend))
  exact ⟨decide_eq_true (hturn j hj).1, (hturn j hj).2⟩

/-- The setup in isolated mode, if `i` does not wrap. -/
theorem reaches_mapChunks_isolated (hiso : arg.cfg.isolated = true)
    (hsize : 0 < arg.cfg.memsize.toNat) (h : chunks arg.cfg * arg.cfg.memsize.toNat < 2 ^ 64) :
    ∃ i, ownPages.Reaches (mapChunks arg (0, firstAddr arg)) ∅
      (.ret (.ok (i, utilsVmopsGetMapAddress arg.tid)))
      (pagesOf (utilsVmopsGetMapAddress arg.tid) (chunks arg.cfg * arg.cfg.memsize.toNat)) := by
  have hnowrap : ∀ j ≤ chunks arg.cfg, j * arg.cfg.memsize.toNat < 2 ^ 64 := fun j hj =>
    (Nat.mul_le_mul_right _ hj).trans_lt h
  have hturns := reaches_mapChunks arg
    (fun j => (BitVec.ofNat 64 (j * arg.cfg.memsize.toNat), utilsVmopsGetMapAddress arg.tid))
    (fun j => pagesOf (utilsVmopsGetMapAddress arg.tid) (j * arg.cfg.memsize.toNat))
    (fun j hj => ⟨(lt_totalMapSize_iff hsize (hnowrap j hj.le)).mpr hj, ?_⟩)
    (fun hlt => Nat.lt_irrefl _ ((lt_totalMapSize_iff hsize h).mp hlt))
  · have hfirst : firstAddr arg = utilsVmopsGetMapAddress arg.tid := if_pos hiso
    rw [Nat.zero_mul, pagesOf_zero] at hturns
    rw [hfirst]
    exact ⟨_, hturns⟩
  · rw [mapChunk, if_pos hiso, Nat.succ_mul, pagesOf_add]
    refine .perform_bind true rfl (.perform_bind true rfl ?_)
    rw [ofNat_mul_succ, Nat.succ_mul]
    exact .refl _ _

/-- **Isolated threads leave their pages** otherwise. -/
theorem not_touchesOwnPages_isolated (hiso : arg.cfg.isolated = true)
    (hsize : 0 < arg.cfg.memsize.toNat) (hwrap : 2 ^ 64 ≤ nops arg.cfg * 4096)
    (hfree : chunks arg.cfg * arg.cfg.memsize.toNat ≤ 2 ^ 64 - 4096) : ¬TouchesOwnPages arg := by
  obtain ⟨i, hsetup⟩ := reaches_mapChunks_isolated hiso hsize (by omega)
  have haligned := aligned_mapAddress arg.tid
  -- the page after the chunks
  refine not_touchesOwnPages (k := (chunks arg.cfg * arg.cfg.memsize.toNat + 4095) / 4096)
    hsetup haligned (by omega) ?_
  rw [haligned.pagesOf_eq]
  exact add_ofNat_notMem_arc (by omega)

/-- The first page of the `j`-th chunk, when each chunk lies just below the one before it and the
last one begins with page 1. -/
def layout (cfg : VmopsBenchCfg) (j : ℕ) : ℕ := 1 + (chunks cfg - (j + 1)) * chunkPages cfg

/-- The address of that chunk. -/
def layoutAddr (cfg : VmopsBenchCfg) (j : ℕ) : Addr :=
  BitVec.ofNat 64 (layout cfg j * platArchBasePageSize.toNat)

/-- `addr` after `j` chunks. -/
def layoutStart (cfg : VmopsBenchCfg) (j : ℕ) : Addr := if j = 0 then 0 else layoutAddr cfg 0

section Layout

variable {cfg : VmopsBenchCfg} {j : ℕ}

/-- The chunk before the `j`-th one begins where that one ends. -/
theorem layout_add (hj : j < chunks cfg) :
    layout cfg j + chunkPages cfg = 1 + (chunks cfg - j) * chunkPages cfg := by
  have hsucc : chunks cfg - j = chunks cfg - (j + 1) + 1 := by omega
  rw [layout, hsucc, Nat.succ_mul, Nat.add_assoc]

theorem layout_lt (hsize : 0 < cfg.memsize.toNat) (hj : j < chunks cfg)
    (hfree : chunks cfg * chunkPages cfg < 2 ^ 52) : layout cfg j < 2 ^ 52 := by
  have hle := Nat.mul_le_mul_right (chunkPages cfg) (Nat.sub_le (chunks cfg) j)
  have hadd := layout_add hj
  have hpages : 0 < chunkPages cfg := Nat.div_pos (by omega) (by omega)
  omega

theorem toNat_layoutAddr (hsize : 0 < cfg.memsize.toNat) (hj : j < chunks cfg)
    (hfree : chunks cfg * chunkPages cfg < 2 ^ 52) :
    (layoutAddr cfg j).toNat = layout cfg j * 4096 := by
  have hlt := layout_lt hsize hj hfree
  have hpage : platArchBasePageSize.toNat = 4096 := rfl
  rw [layoutAddr, BitVec.toNat_ofNat, hpage, Nat.mod_eq_of_lt (by omega)]

theorem aligned_layoutAddr (hsize : 0 < cfg.memsize.toNat) (hj : j < chunks cfg)
    (hfree : chunks cfg * chunkPages cfg < 2 ^ 52) : Aligned (layoutAddr cfg j) := by
  rw [Aligned, toNat_layoutAddr hsize hj hfree, Nat.mul_mod_left]

theorem pageOf_layoutAddr (hsize : 0 < cfg.memsize.toNat) (hj : j < chunks cfg)
    (hfree : chunks cfg * chunkPages cfg < 2 ^ 52) :
    pageOf (layoutAddr cfg j) = BitVec.ofNat 52 (layout cfg j) := by
  have hpage : platArchBasePageSize.toNat = 4096 := rfl
  rw [pageOf, toNat_layoutAddr hsize hj hfree, hpage, Nat.mul_div_cancel _ (by omega)]

/-- The address is taken from the first chunk, which is not at `NULL`. -/
theorem layoutStart_succ (hsize : 0 < cfg.memsize.toNat) (hj : j < chunks cfg)
    (hfree : chunks cfg * chunkPages cfg < 2 ^ 52) :
    (if layoutStart cfg j = 0 then layoutAddr cfg j else layoutStart cfg j) =
      layoutStart cfg (j + 1) := by
  by_cases hj0 : j = 0
  · rw [hj0]
    rfl
  · have hne : layoutAddr cfg 0 ≠ 0 := by
      intro h0
      have hnat := toNat_layoutAddr hsize (by omega : 0 < chunks cfg) hfree
      rw [h0, layout] at hnat
      simp at hnat
    rw [layoutStart, layoutStart, if_neg hj0, if_neg hne, if_neg (Nat.succ_ne_zero j)]

/-- The pages of the first `j` chunks. -/
def layoutPages (cfg : VmopsBenchCfg) (j : ℕ) : Set Page :=
  arc (BitVec.ofNat 52 (1 + (chunks cfg - j) * chunkPages cfg)) (j * chunkPages cfg)

theorem pagesOf_layoutAddr (hsize : 0 < cfg.memsize.toNat) (hj : j < chunks cfg)
    (hfree : chunks cfg * chunkPages cfg < 2 ^ 52) :
    pagesOf (layoutAddr cfg j) cfg.memsize.toNat =
      arc (BitVec.ofNat 52 (layout cfg j)) (chunkPages cfg) := by
  rw [(aligned_layoutAddr hsize hj hfree).pagesOf_eq, pageOf_layoutAddr hsize hj hfree]
  rfl

theorem layoutPages_eq (hj : j < chunks cfg) : layoutPages cfg j =
    arc (BitVec.ofNat 52 (layout cfg j) + BitVec.ofNat 52 (chunkPages cfg))
      (j * chunkPages cfg) := by
  rw [layoutPages, ← layout_add hj, BitVec.ofNat_add]

/-- A new chunk is disjoint from those before it, … -/
theorem disjoint_layoutPages (hsize : 0 < cfg.memsize.toNat) (hj : j < chunks cfg)
    (hfree : chunks cfg * chunkPages cfg < 2 ^ 52) :
    Disjoint (layoutPages cfg j) (pagesOf (layoutAddr cfg j) cfg.memsize.toNat) := by
  have hle := Nat.mul_le_mul_right (chunkPages cfg) (Nat.succ_le_of_lt hj)
  rw [Nat.succ_mul] at hle
  rw [pagesOf_layoutAddr hsize hj hfree, layoutPages_eq hj]
  exact (disjoint_arc_add (by omega)).symm

/-- … and follows on them. -/
theorem layoutPages_succ (hsize : 0 < cfg.memsize.toNat) (hj : j < chunks cfg)
    (hfree : chunks cfg * chunkPages cfg < 2 ^ 52) : layoutPages cfg (j + 1) =
      layoutPages cfg j ∪ pagesOf (layoutAddr cfg j) cfg.memsize.toNat := by
  rw [pagesOf_layoutAddr hsize hj hfree, layoutPages_eq hj, Set.union_comm, ← arc_add, layoutPages,
    Nat.succ_mul, Nat.add_comm (chunkPages cfg)]
  rfl

end Layout

/-- The setup in default mode, with the layout above. -/
theorem reaches_mapChunks_default (hdef : arg.cfg.isolated = false)
    (hsize : 0 < arg.cfg.memsize.toNat) (hfree : chunks arg.cfg * chunkPages arg.cfg < 2 ^ 52) :
    ∃ i, ownPages.Reaches (mapChunks arg (0, firstAddr arg)) ∅
      (.ret (.ok (i, layoutStart arg.cfg (chunks arg.cfg))))
      (layoutPages arg.cfg (chunks arg.cfg)) := by
  have hbytes : arg.cfg.memsize.toNat ≤ chunkPages arg.cfg * 4096 := by
    rw [chunkPages]
    omega
  have hnowrap : ∀ j ≤ chunks arg.cfg, j * arg.cfg.memsize.toNat < 2 ^ 64 := by
    intro j hj
    have hle := Nat.mul_le_mul hj hbytes
    rw [← Nat.mul_assoc] at hle
    omega
  have hturns := reaches_mapChunks arg
    (fun j => (BitVec.ofNat 64 (j * arg.cfg.memsize.toNat), layoutStart arg.cfg j))
    (layoutPages arg.cfg)
    (fun j hj => ⟨(lt_totalMapSize_iff hsize (hnowrap j hj.le)).mpr hj, ?_⟩)
    (fun hlt => Nat.lt_irrefl _ ((lt_totalMapSize_iff hsize (hnowrap _ le_rfl)).mp hlt))
  · have hfirst : firstAddr arg = 0 := if_neg (by simp [hdef])
    have hnone : layoutPages arg.cfg 0 = ∅ := by
      rw [layoutPages, Nat.zero_mul, arc_zero]
    rw [Nat.zero_mul, hnone] at hturns
    rw [hfirst]
    exact ⟨_, hturns⟩
  · rw [mapChunk, if_neg (by simp [hdef]), layoutPages_succ hsize hj hfree]
    refine .perform_bind (some (layoutAddr arg.cfg j))
      ⟨_, rfl, aligned_layoutAddr hsize hj hfree, disjoint_layoutPages hsize hj hfree⟩
      (.perform_bind true ?_ ?_)
    · trivial
    · rw [layoutStart_succ hsize hj hfree, ofNat_mul_succ]
      exact .refl _ _

/-- **Threads in default mode leave their pages** otherwise: no chunk follows the first. -/
theorem not_touchesOwnPages_default (hdef : arg.cfg.isolated = false)
    (hsize : 0 < arg.cfg.memsize.toNat) (hmany : chunkPages arg.cfg < nops arg.cfg)
    (hfree : chunks arg.cfg * chunkPages arg.cfg < 2 ^ 52) : ¬TouchesOwnPages arg := by
  obtain ⟨i, hsetup⟩ := reaches_mapChunks_default hdef hsize hfree
  by_cases hnone : chunks arg.cfg = 0
  · -- the product has wrapped to zero, and nothing is mapped
    rw [hnone, layoutPages, Nat.zero_mul, arc_zero] at hsetup
    exact not_touchesOwnPages (k := 0) hsetup rfl (nops_pos _) nofun
  · have hpos : 0 < chunks arg.cfg := Nat.pos_of_ne_zero hnone
    rw [layoutStart, if_neg hnone] at hsetup
    refine not_touchesOwnPages hsetup (aligned_layoutAddr hsize hpos hfree) hmany ?_
    rw [pageOf_layoutAddr hsize hpos hfree, ← BitVec.ofNat_add, layout_add hpos, layoutPages,
      Nat.sub_self, Nat.sub_zero, Nat.zero_mul, Nat.add_zero, BitVec.ofNat_add]
    exact add_ofNat_notMem_arc hfree

end Necessary

/-! ### When the benchmark stays on its pages -/

/-- **The condition**: in isolated mode the product must not wrap, and in default mode one chunk
must be enough. Otherwise the chunks must fill the address space. -/
def StaysOnPages (cfg : VmopsBenchCfg) : Prop :=
  if cfg.isolated then
    nops cfg * 4096 < 2 ^ 64 ∨ 2 ^ 64 - 4096 < chunks cfg * cfg.memsize.toNat
  else nops cfg ≤ chunkPages cfg ∨ 2 ^ 52 ≤ chunks cfg * chunkPages cfg

/-- **When the elevate benchmark only touches pages it mapped**, for every memory object that
`vmops_utils_prepare_args` lets through: `plat_vm_map` wants a page for the mappings made
beforehand, and the size that `plat_vm_create` passes on is signed. -/
theorem touchesOwnPages_iff {arg : VmopsBenchRunArg} (hmin : 4096 ≤ arg.cfg.memsize.toNat)
    (hmax : arg.cfg.memsize.toNat < 2 ^ 63) : TouchesOwnPages arg ↔ StaysOnPages arg.cfg := by
  have hsize : 0 < arg.cfg.memsize.toNat := by omega
  cases hiso : arg.cfg.isolated with
  | true =>
    have hcond : StaysOnPages arg.cfg ↔ nops arg.cfg * 4096 < 2 ^ 64 ∨
        2 ^ 64 - 4096 < chunks arg.cfg * arg.cfg.memsize.toNat := by rw [StaysOnPages, if_pos hiso]
    rw [hcond]
    constructor
    · intro h
      by_contra hnot
      obtain ⟨hwrap, hfree⟩ := not_or.mp hnot
      exact not_touchesOwnPages_isolated hiso hsize (Nat.le_of_not_lt hwrap)
        (Nat.le_of_not_lt hfree) h
    · exact touchesOwnPages_isolated hiso hsize
  | false =>
    have hcond : StaysOnPages arg.cfg ↔ nops arg.cfg ≤ chunkPages arg.cfg ∨
        2 ^ 52 ≤ chunks arg.cfg * chunkPages arg.cfg := by
      rw [StaysOnPages, if_neg (by simp [hiso])]
    rw [hcond]
    constructor
    · intro h
      by_contra hnot
      obtain ⟨hmany, hfree⟩ := not_or.mp hnot
      exact not_touchesOwnPages_default hiso hsize (Nat.lt_of_not_le hmany)
        (Nat.lt_of_not_le hfree) h
    · exact touchesOwnPages_default hiso hsize hmax

/-- One operation on a memory object of two pages. -/
theorem touchesOwnPages_oneThread : TouchesOwnPages (fillArg oneThread 1 0) := by
  refine (touchesOwnPages_iff (by decide) (by decide)).mpr ?_
  have hnops : nops oneThread ≤ chunkPages oneThread := by decide
  exact Or.inl hnops

/-- Two operations on a memory object of one page. -/
def twoOps : VmopsBenchCfg := { oneThread with memsize := 4096, nops := 2 }

/-- In default mode the second page of the timed loop need not be there. -/
theorem touchesOwnPages_fails : ¬TouchesOwnPages (fillArg twoOps 1 0) := by
  have hpages : chunkPages twoOps = 1 := by decide
  have hnops : nops twoOps = 2 := by decide
  have hchunks : chunks twoOps = 2 := by decide
  have hcfg : (fillArg twoOps 1 0).cfg = twoOps := rfl
  refine not_touchesOwnPages_default rfl (by decide) ?_ ?_
  · rw [hcfg, hpages, hnops]
    omega
  · rw [hcfg, hpages, hchunks]
    omega

end ProtectElevate

end VmopsBench

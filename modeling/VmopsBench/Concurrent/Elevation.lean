import VmopsBench.Benchmarks.OwnPages
import VmopsBench.Concurrent.History
import VmopsBench.Concurrent.Isolation

/-!
# What the elevate benchmark measures

The elevate benchmark is to measure how long it takes to raise the permission of a
read-only page. The setup makes its mappings read-only, but the protect call in the mapping loop
names the first chunk in every turn. The pages of the other chunks stay writable, and
the timed loop raises permissions that are not lowered.

`VmopsBench.System.elevates_readOnly` is about the page table that all threads share,
in every run in which the mapping and protect calls succeed. If one chunk has room for
all operations, and no chunk reaches into the pages that another thread elevates,
every page is the thread's own and read-only when its turn comes. The other
case in which that holds is a mapping loop that never ends, and then no page is elevated at
all.
-/

namespace VmopsBench

open Interact Words

/-- The calls that map memory or change its permissions. -/
def ThreadCall.mapsOrProtects : ThreadCall → Bool
  | .vmMap .. | .vmMapFixed .. | .vmProtect .. => true
  | _ => false

namespace ProtectElevate

/-- The pages of the first chunk of a thread. -/
def firstChunk (cfg : VmopsBenchCfg) (tid : BitVec 32) : Set Page :=
  pagesOf (utilsVmopsGetMapAddress tid) cfg.memsize.toNat

/-- The pages that a thread elevates. -/
def elevatedPages (cfg : VmopsBenchCfg) (tid : BitVec 32) : Set Page :=
  pagesOf (utilsVmopsGetMapAddress tid) (nops cfg * 4096)

/-! ### One thread -/

/-- **What a thread does to the page table** when one chunk is enough: it touches its first chunk
only, and it raises the permission of a page of its own that is read-only. The ghost
state is the page table as the thread alone would leave it. -/
def elevating (cfg : VmopsBenchCfg) (tid : BitVec 32) (i : ℕ) : Spec threadSig PageTable where
  pre table c := match c with
    | .vmMap .. | .vmUnmap .. => False
    | .vmMapFixed addr size .. => pagesOf addr size.toNat ⊆ firstChunk cfg tid
    | .vmProtect addr size perms => pagesOf addr size.toNat ⊆ firstChunk cfg tid ∧
      (perms = .readWrite → pagesOf addr size.toNat ⊆ elevatedPages cfg tid ∧
        ∀ p ∈ pagesOf addr size.toNat, table p = some ⟨i, .readOnly⟩)
    | _ => True
  env _ c r := c.mapsOrProtects = true → c.fails r = false
  upd table c r := c.apply i r table

/-- A specification of no elevation at all. -/
def neverElevating : Spec threadSig Unit where
  pre _ c := ∀ addr size, c ≠ .vmProtect addr size .readWrite
  env _ _ _ := True
  upd g _ _ := g

section OneThread

variable {arg : VmopsBenchRunArg} {i : ℕ}

/-- A mapping loop that never ends: there is no timed loop. -/
theorem wp_neverElevating (arg : VmopsBenchRunArg) (hiso : arg.cfg.isolated = true)
    (hnever : ∀ j, j * arg.cfg.memsize.toNat % 2 ^ 64 < (totalMapSize arg.cfg).toNat) :
    wp neverElevating (benchRunFn arg) (fun _ _ => True) () := by
  refine (wp_bind _ _).mpr (wp_whileLoop
    (fun s _ => ∃ j, s.1 = BitVec.ofNat 64 (j * arg.cfg.memsize.toNat)) ⟨0, by simp⟩ ?_ ?_)
  · rintro ⟨_, addr⟩ - ⟨j, rfl⟩ -
    rw [mapChunk, if_pos hiso]
    refine wp_perform_bind.mpr ⟨(fun _ _ h => by cases h), fun mapped _ => ?_⟩
    cases mapped with
    | false => trivial
    | true =>
      refine wp_perform_bind.mpr ⟨fun addr size => by simp, fun lowered _ => ⟨j + 1, ?_⟩⟩
      exact ofNat_mul_succ j arg.cfg.memsize
  · rintro ⟨_, addr⟩ - ⟨j, rfl⟩ hend
    have hlt := hnever j
    rw [decide_eq_false_iff_not, BitVec.lt_def, BitVec.toNat_ofNat] at hend
    exact absurd hlt hend

/-- The setup with one chunk: it is mapped, and made read-only. -/
theorem wp_mapChunks_elevating (hiso : arg.cfg.isolated = true)
    (hfits : nops arg.cfg * 4096 ≤ arg.cfg.memsize.toNat) :
    wp (elevating arg.cfg arg.tid i) (mapChunks arg (0, firstAddr arg))
      (onExcept (fun _ _ => True) fun s table => s.2 = utilsVmopsGetMapAddress arg.tid ∧
        ∀ p ∈ firstChunk arg.cfg arg.tid, table p = some ⟨i, .readOnly⟩) fun _ => none := by
  have htotal : (totalMapSize arg.cfg).toNat = nops arg.cfg * 4096 := by
    rw [toNat_totalMapSize, Nat.mod_eq_of_lt (hfits.trans_lt arg.cfg.memsize.isLt)]
  have hpos := nops_pos arg.cfg
  refine wp_whileLoop (fun s table => s.2 = utilsVmopsGetMapAddress arg.tid ∧
    (s.1 = 0 ∨ s.1 = arg.cfg.memsize ∧
      ∀ p ∈ firstChunk arg.cfg arg.tid, table p = some ⟨i, .readOnly⟩)) ?_ ?_ ?_
  · exact ⟨if_pos hiso, Or.inl rfl⟩
  · rintro ⟨j, addr⟩ table ⟨rfl, hj⟩ hrun
    rcases hj with rfl | ⟨rfl, -⟩
    · rw [mapChunk, if_pos hiso, add_zero]
      refine wp_perform_bind.mpr ⟨Set.Subset.rfl, fun mapped hmapped => ?_⟩
      obtain rfl : mapped = true := by simpa [ThreadCall.fails] using hmapped rfl
      refine wp_perform_bind.mpr ⟨⟨Set.Subset.rfl, fun h => by cases h⟩, fun lowered hlowered => ?_⟩
      obtain rfl : lowered = true := by simpa [ThreadCall.fails] using hlowered rfl
      refine ⟨rfl, Or.inr ⟨zero_add _, fun p hp => ?_⟩⟩
      -- the chunk is mapped writable, and then the permission is lowered
      rw [firstChunk] at hp
      show ThreadCall.apply i (.vmProtect _ _ .readOnly) true
        (ThreadCall.apply i (.vmMapFixed _ _ _ _ _) true table) p = _
      rw [apply_of_range rfl, if_pos hp, apply_of_range rfl, if_pos hp]
      rfl
    · rw [decide_eq_true_eq, BitVec.lt_def] at hrun
      dsimp only at hrun
      omega
  · rintro ⟨j, addr⟩ table ⟨rfl, hj⟩ hend
    rcases hj with rfl | ⟨rfl, htable⟩
    · rw [decide_eq_false_iff_not, BitVec.lt_def] at hend
      exact absurd (by rw [htotal]; exact Nat.mul_pos hpos (by decide)) hend
    · exact ⟨rfl, htable⟩

/-- The pages from number `k` on are still to be elevated. -/
def ReadOnlyFrom (cfg : VmopsBenchCfg) (tid : BitVec 32) (i k : ℕ) (table : PageTable) : Prop :=
  ∀ j, k ≤ j → j < nops cfg →
    table (pageOf (utilsVmopsGetMapAddress tid) + BitVec.ofNat 52 j) = some ⟨i, .readOnly⟩

theorem nthPage_mem_elevatedPages (tid : BitVec 32) {k : ℕ} (hk : k < nops arg.cfg) :
    pageOf (utilsVmopsGetMapAddress tid) + BitVec.ofNat 52 k ∈ elevatedPages arg.cfg tid := by
  rw [elevatedPages, (aligned_mapAddress tid).pagesOf_eq]
  exact add_ofNat_mem_arc (by omega)

/-- One turn of the timed loop elevates the next page, and no other. -/
theorem wp_elevateOp (hfits : nops arg.cfg * 4096 ≤ arg.cfg.memsize.toNat) {k : ℕ}
    (hk : k < nops arg.cfg) {table : PageTable} (htable : ReadOnlyFrom arg.cfg arg.tid i k table) :
    wp (elevating arg.cfg arg.tid i) (elevateOp (utilsVmopsGetMapAddress arg.tid +
        BitVec.ofNat 64 (k * platArchBasePageSize.toNat)))
      (onExcept (fun _ _ => False) fun addr table => addr = utilsVmopsGetMapAddress arg.tid +
        BitVec.ofNat 64 ((k + 1) * platArchBasePageSize.toNat) ∧
          ReadOnlyFrom arg.cfg arg.tid i (k + 1) table) table := by
  have hmax := arg.cfg.memsize.isLt
  have hpage := (aligned_mapAddress arg.tid).pagesOf_nth k
  have hmem := nthPage_mem_elevatedPages arg.tid hk
  refine wp_perform_bind.mpr ⟨⟨?_, fun _ => ⟨?_, ?_⟩⟩, fun done hdone => ?_⟩
  · rw [hpage, Set.singleton_subset_iff]
    exact pagesOf_mono hfits hmem
  · rw [hpage, Set.singleton_subset_iff]
    exact hmem
  · intro p hp
    rw [hpage] at hp
    rw [Set.mem_singleton_iff.mp hp]
    exact htable k le_rfl hk
  · obtain rfl : done = true := by simpa [ThreadCall.fails] using hdone rfl
    refine ⟨add_ofNat_mul_succ _ _ platArchBasePageSize, fun j hkj hj => ?_⟩
    show ThreadCall.apply i (.vmProtect _ _ .readWrite) true table _ = _
    rw [apply_of_not_touches]
    · exact htable j (by omega) hj
    -- the pages of two turns are different
    rintro ⟨addr, size, hrange, hp⟩
    obtain ⟨rfl, rfl⟩ := Prod.mk.inj (Option.some.inj hrange)
    rw [hpage, Set.mem_singleton_iff] at hp
    have hjk := congrArg BitVec.toNat (add_left_cancel hp)
    rw [BitVec.toNat_ofNat, BitVec.toNat_ofNat, Nat.mod_eq_of_lt (by omega),
      Nat.mod_eq_of_lt (by omega)] at hjk
    omega

/-- **When one chunk is enough, a thread elevates pages that it has made read-only.** -/
theorem wp_elevating (arg : VmopsBenchRunArg) (hiso : arg.cfg.isolated = true)
    (hfits : nops arg.cfg * 4096 ≤ arg.cfg.memsize.toNat) :
    wp (elevating arg.cfg arg.tid i) (benchRunFn arg) (fun _ _ => True) fun _ => none := by
  have hignores : ∀ c : ThreadCall, (∀ table, (elevating arg.cfg arg.tid i).pre table c) →
      (∀ r, c.range r = none) → (elevating arg.cfg arg.tid i).Ignores c :=
    fun c hpre hrange table => ⟨hpre table, fun r => apply_of_range_none (hrange r)⟩
  refine (wp_bind _ _).mpr (wp_mono _ (fun o table ho => ?_) (wp_mapChunks_elevating hiso hfits))
  cases o with
  | error _ => trivial
  | ok s =>
    obtain ⟨haddr, htable⟩ := ho
    refine wp_timedRun_of_ignores (fun site => hignores _ (fun _ => trivial) fun _ => rfl)
      (hignores _ (fun _ => trivial) fun _ => rfl)
      (fun k v table => v = utilsVmopsGetMapAddress arg.tid +
          BitVec.ofNat 64 (k.toNat * platArchBasePageSize.toNat) ∧
        ReadOnlyFrom arg.cfg arg.tid i k.toNat table) ⟨by simpa using haddr, ?_⟩ ?_
    · exact fun j _ hj => htable _ (pagesOf_mono hfits (nthPage_mem_elevatedPages arg.tid hj))
    · rintro k v table hk ⟨rfl, hrest⟩
      refine wp_mono _ (fun o table' ho => ?_) (wp_elevateOp hfits (BitVec.lt_def.mp hk) hrest)
      cases o with
      | error _ => exact ho.elim
      | ok v =>
        rw [← toNat_succ_of_lt hk] at ho
        exact ho

/-- A thread touches its first chunk only. -/
theorem mem_firstChunk_of_touches {cfg : VmopsBenchCfg} {tid : BitVec 32} {table : PageTable}
    {e : Event threadSig} {p : Page} (hpre : (elevating cfg tid i).pre table e.call)
    (hp : Event.Touches e p) : p ∈ firstChunk cfg tid := by
  obtain ⟨c, r⟩ := e
  obtain ⟨addr, size, hrange, hp⟩ := hp
  cases c with
  | vmMap => exact hpre.elim
  | vmUnmap => exact hpre.elim
  | vmMapFixed a n =>
    cases r with
    | false => cases hrange
    | true =>
      obtain ⟨rfl, rfl⟩ := Prod.mk.inj (Option.some.inj hrange)
      exact hpre hp
  | vmProtect a n perms =>
    cases r with
    | false => cases hrange
    | true =>
      obtain ⟨rfl, rfl⟩ := Prod.mk.inj (Option.some.inj hrange)
      exact hpre.1 hp
  | _ => cases hrange

end OneThread

/-! ### All threads -/

/-- **The condition**: the mapping loop never ends, or one chunk has room for all operations and no
chunk reaches into the pages that another thread elevates. -/
def ElevatesOwn (cfg : VmopsBenchCfg) : Prop :=
  (∀ j, j * cfg.memsize.toNat % 2 ^ 64 < (totalMapSize cfg).toNat) ∨
    nops cfg * 4096 ≤ cfg.memsize.toNat ∧
      ∀ i < cfg.corelistSize.toNat, ∀ j < cfg.corelistSize.toNat, i ≠ j →
        Disjoint (elevatedPages cfg (BitVec.ofNat 32 i)) (firstChunk cfg (BitVec.ofNat 32 j))

/-- One chunk of at most 512 GiB for each of at most `2 ^ 25` threads is such a configuration. -/
theorem elevatesOwn_of_small {cfg : VmopsBenchCfg} (hpages : cfg.memsize.toNat % 4096 = 0)
    (hfits : nops cfg * 4096 ≤ cfg.memsize.toNat) (hsize : cfg.memsize.toNat ≤ 2 ^ 39)
    (hn : cfg.corelistSize.toNat ≤ 2 ^ 25) : ElevatesOwn cfg := by
  refine Or.inr ⟨hfits, fun i hi j hj hne => ?_⟩
  have hpos := nops_pos cfg
  have hij := mapAddress_apart hne (by omega) (by omega)
  have hji := mapAddress_apart hne.symm (by omega) (by omega)
  refine (aligned_mapAddress _).disjoint_pagesOf (aligned_mapAddress _) (Nat.mul_mod_left _ _)
    hpages ?_
  exact (disjoint_arc_iff (by omega) (by omega)).mpr ⟨by omega, by omega⟩

end ProtectElevate

open ProtectElevate

/-- The barriers leave the page table alone. -/
theorem pageTable_calls (i : ℕ) (t : Thread) : pageTable (t.calls.map fun e => (i, e)) =
    pageTable (t.trace.map fun e => (i, e)) := by
  rw [Thread.calls]
  induction t.trace using List.reverseRecOn with
  | nil => rfl
  | append_singleton tr e ih =>
    rw [List.filter_append, List.map_append, List.map_append, List.map_singleton, pageTable_concat,
      ← ih]
    cases hb : e.call.isBarrier with
    | false => simp [hb]
    | true =>
      have hrange : e.call.range e.resp = none := by
        obtain ⟨c, r⟩ := e
        cases c <;> first | rfl | cases hb
      simp [hb, apply_of_range_none hrange]

namespace System

variable {ρ : Type}

section Elevates

variable {cfg : VmopsBenchCfg} {memobjs : ℕ → PlatMemobj}
  {s : System (ℤ × (ℕ → VmopsBenchRunArg))} {h : History} {i : ℕ} {t : Thread}

/-- The history of a thread's calls is a part of the whole. -/
theorem mem_history (hr : Recorded (vmopsUtilsRunBenchmark cfg.corelistSize
    (filledArgs cfg memobjs) .elevate) s h) (ht : s.threads i = some t) :
    (h.filter fun x => x.1 = i) = t.calls.map fun e => (i, e) := by
  have hcalls := recorded_callsOf runBenchmark_runsAll hr i
  rw [callsOf, ht, Option.map_some, Option.getD_some] at hcalls
  rw [hcalls, History.of, List.map_map]
  refine (List.map_id _).symm.trans (List.map_congr_left fun x hx => ?_)
  have hxi : x.1 = i := by simpa using (List.mem_filter.mp hx).2
  rw [← hxi]
  rfl

/-- The mapping and protect calls of a thread have succeeded. -/
theorem admits_elevating (hr : Recorded (vmopsUtilsRunBenchmark cfg.corelistSize
    (filledArgs cfg memobjs) .elevate) s h)
    (hok : ∀ x ∈ h, x.2.call.mapsOrProtects = true → x.2.call.fails x.2.resp = false)
    (ht : s.threads i = some t) {tid : BitVec 32} {table : PageTable} :
    (elevating cfg tid i).Admits table t.trace := by
  refine Spec.admits_of_mem _ (fun e he table hmaps => ?_) table
  have hcall : e ∈ t.calls := by
    refine List.mem_filter.mpr ⟨he, ?_⟩
    obtain ⟨c, r⟩ := e
    cases c <;> first | rfl | cases hmaps
  have hmem : (i, e) ∈ h.filter fun x => x.1 = i := by
    rw [mem_history hr ht]
    exact List.mem_map.mpr ⟨e, hcall, rfl⟩
  exact hok _ (List.mem_filter.mp hmem).1 hmaps

/-- What one thread of a run in which all goes well has done so far, and will do. -/
theorem thread_elevating (hiso : cfg.isolated = true)
    (hfits : nops cfg * 4096 ≤ cfg.memsize.toNat)
    (hr : Recorded (vmopsUtilsRunBenchmark cfg.corelistSize (filledArgs cfg memobjs) .elevate) s h)
    (hok : ∀ x ∈ h, x.2.call.mapsOrProtects = true → x.2.call.fails x.2.resp = false)
    (ht : s.threads i = some t) :
    (elevating cfg (BitVec.ofNat 32 i) i).Honours (fun _ => none) t.trace ∧
      wp (elevating cfg (BitVec.ofNat 32 i) i) t.prog (fun _ _ => True)
        (pageTable (t.trace.map fun e => (i, e))) := by
  obtain ⟨-, hrun⟩ := reachable_fillArg hr.reachable ht
  have hwp : wp (elevating cfg (BitVec.ofNat 32 i) i)
      (platThreadRunFn .elevate (fillArg cfg (memobjs i) i)) (fun _ _ => True) fun _ => none :=
    ⟨trivial, fun _ _ => wp_elevating (fillArg cfg (memobjs i) i) hiso hfits⟩
  have hafter : (elevating cfg (BitVec.ofNat 32 i) i).after (fun _ => none) t.trace =
      pageTable (t.trace.map fun e => (i, e)) := by
    rw [pageTable, List.foldl_map]
    rfl
  rw [← hafter]
  exact wp_run hrun hwp (admits_elevating hr hok ht)

/-- **When elevation is measured on read-only pages**: in every state of every run in which the
mapping and protect calls have succeeded, a thread that is about to raise the
permission of a page finds it mapped by itself and read-only. -/
theorem elevates_readOnly (hiso : cfg.isolated = true) (hown : ElevatesOwn cfg)
    (hr : Recorded (vmopsUtilsRunBenchmark cfg.corelistSize (filledArgs cfg memobjs) .elevate) s h)
    (hok : ∀ x ∈ h, x.2.call.mapsOrProtects = true → x.2.call.fails x.2.resp = false)
    (ht : s.threads i = some t) {addr : Addr} {size : SizeT} {k : Bool → Prog threadSig RunResult}
    (hp : t.prog = .call (ThreadCall.vmProtect addr size .readWrite) k) :
    ∀ p ∈ pagesOf addr size.toNat, pageTable h p = some ⟨i, .readOnly⟩ := by
  rcases hown with hnever | ⟨hfits, hapart⟩
  · -- no thread comes to its timed loop
    obtain ⟨-, hrun⟩ := reachable_fillArg hr.reachable ht
    have hwp : wp neverElevating (platThreadRunFn .elevate (fillArg cfg (memobjs i) i))
        (fun _ _ => True) () :=
      ⟨nofun, fun _ _ => wp_neverElevating (fillArg cfg (memobjs i) i) hiso hnever⟩
    have hrest := (wp_run hrun hwp (Spec.admits_of_forall _ (fun _ _ _ => trivial) _ _)).2
    rw [hp] at hrest
    exact absurd rfl (hrest.1 addr size)
  · intro p hpage
    obtain ⟨hi, -⟩ := reachable_fillArg hr.reachable ht
    obtain ⟨-, hrest⟩ := thread_elevating hiso hfits hr hok ht
    rw [hp] at hrest
    obtain ⟨hsub, htable⟩ := hrest.1.2 rfl
    -- nobody else has touched the page
    have hother : ∀ x ∈ h, x.1 ≠ i → ¬Event.Touches x.2 p := by
      rintro ⟨j, e⟩ hx hji htouch
      have hcall : e ∈ s.callsOf j := by
        rw [recorded_callsOf runBenchmark_runsAll hr j]
        exact List.mem_map.mpr ⟨(j, e), List.mem_filter.mpr ⟨hx, by simp⟩, rfl⟩
      cases hu : s.threads j with
      | none => simp [callsOf, hu] at hcall
      | some u =>
        rw [callsOf, hu, Option.map_some, Option.getD_some] at hcall
        obtain ⟨hj, -⟩ := reachable_fillArg hr.reachable hu
        obtain ⟨hhon, -⟩ := thread_elevating hiso hfits hr hok hu
        obtain ⟨table, hpre⟩ := hhon.of_mem (List.mem_filter.mp hcall).1
        exact Set.disjoint_left.mp (hapart i hi j hj (Ne.symm hji)) (hsub hpage)
          (mem_firstChunk_of_touches hpre htouch)
    rw [pageTable_filter hother, mem_history hr ht, pageTable_calls]
    exact htable p hpage

end Elevates

/-- The call that a thread is about to make. -/
def nextCall? (s : System ρ) (i : ℕ) : Option ThreadCall :=
  (s.threads i).bind fun t => match t.prog with
    | .call c _ => some c
    | _ => none

theorem exists_of_nextCall? {s : System ρ} {i : ℕ} {c : ThreadCall} (h : s.nextCall? i = some c) :
    ∃ t k, s.threads i = some t ∧ t.prog = .call c k := by
  obtain ⟨t, ht, h⟩ := Option.bind_eq_some_iff.mp h
  cases hp : t.prog with
  | call c' k =>
    rw [hp] at h
    obtain rfl := Option.some.inj h
    exact ⟨t, k, ht, hp⟩
  | ret r => simp [hp] at h
  | loop body x k => simp [hp] at h

/-- The mapping and protect calls of a history have succeeded, as a test. -/
def allMapped (h : History) : Bool :=
  h.all fun x => !x.2.call.mapsOrProtects || !x.2.call.fails x.2.resp

theorem succeeded_of_allMapped {h : History} (hall : allMapped h = true) :
    ∀ x ∈ h, x.2.call.mapsOrProtects = true → x.2.call.fails x.2.resp = false := by
  intro x hx hmaps
  have hx := List.all_eq_true.mp hall x hx
  simpa [hmaps] using hx

/-- Two threads with room for one operation each, before the first of them raises a permission. -/
theorem elevates_readOnly_twoIsolated :
    ∃ s h t k,
      Recorded (vmopsUtilsRunBenchmark 2 (filledArgs twoIsolated fun _ => 1) .elevate) s h ∧
      s.threads 0 = some t ∧ t.prog = .call (ThreadCall.vmProtect (utilsVmopsGetMapAddress 0)
        platArchBasePageSize .readWrite) k ∧
      ∀ p ∈ pagesOf (utilsVmopsGetMapAddress 0) platArchBasePageSize.toNat,
        pageTable h p = some ⟨0, .readOnly⟩ := by
  let go := Label.main (MainCall.succeed (zeroArg twoIsolated))
  let ok i := Label.thread i ThreadCall.succeed
  have hrun : ∃ s h, Recorded (vmopsUtilsRunBenchmark 2 (filledArgs twoIsolated fun _ => 1)
      .elevate) s h ∧ (s.nextCall? 0 = some (ThreadCall.vmProtect (utilsVmopsGetMapAddress 0)
        platArchBasePageSize .readWrite) ∧ allMapped h = true) :=
    exists_recorded_of_exec ([go, go, go] ++ List.replicate 6 (ok 0) ++ List.replicate 6 (ok 1) ++
      [.openBarrier, ok 0, ok 0]) (by decide)
  obtain ⟨s, h, hr, hnext, hall⟩ := hrun
  obtain ⟨t, k, ht, hp⟩ := exists_of_nextCall? hnext
  have hown : ElevatesOwn twoIsolated :=
    elevatesOwn_of_small (by decide) (by decide) (by decide) (by decide)
  exact ⟨s, h, t, k, hr, ht, hp,
    @elevates_readOnly twoIsolated (fun _ => 1) s h 0 t rfl hown hr (succeeded_of_allMapped hall) ht
      _ _ _ hp⟩

/-- With two chunks of one page, the second operation finds its page writable. -/
theorem elevates_writable :
    ∃ s h t k, Recorded (vmopsUtilsRunBenchmark 1
        (filledArgs { twoOps with isolated := true } fun _ => 1) .elevate) s h ∧
      (∀ x ∈ h, x.2.call.mapsOrProtects = true → x.2.call.fails x.2.resp = false) ∧
      s.threads 0 = some t ∧ t.prog = .call (ThreadCall.vmProtect
        (utilsVmopsGetMapAddress 0 + platArchBasePageSize) platArchBasePageSize .readWrite) k ∧
      ¬∀ p ∈ pagesOf (utilsVmopsGetMapAddress 0 + platArchBasePageSize) platArchBasePageSize.toNat,
        pageTable h p = some ⟨0, .readOnly⟩ := by
  let go := Label.main (MainCall.succeed (zeroArg oneThread))
  let ok := Label.thread 0 ThreadCall.succeed
  have hrun : ∃ s h, Recorded (vmopsUtilsRunBenchmark 1
      (filledArgs { twoOps with isolated := true } fun _ => 1) .elevate) s h ∧
      (s.nextCall? 0 = some (ThreadCall.vmProtect (utilsVmopsGetMapAddress 0 + platArchBasePageSize)
        platArchBasePageSize .readWrite) ∧ allMapped h = true ∧
        pageTable h (pageOf (utilsVmopsGetMapAddress 0 + platArchBasePageSize)) =
          some ⟨0, .readWrite⟩) :=
    exists_recorded_of_exec ([go, go] ++ List.replicate 9 ok ++
      [.openBarrier, ok, ok, ok, ok, ok]) (by decide)
  obtain ⟨s, h, hr, hnext, hall, htable⟩ := hrun
  obtain ⟨t, k, ht, hp⟩ := exists_of_nextCall? hnext
  refine ⟨s, h, t, k, hr, succeeded_of_allMapped hall, ht, hp, fun hreadOnly => ?_⟩
  have hmem : pageOf (utilsVmopsGetMapAddress 0 + platArchBasePageSize) ∈
      pagesOf (utilsVmopsGetMapAddress 0 + platArchBasePageSize) platArchBasePageSize.toNat :=
    start_mem_arc (by decide)
  have hro := hreadOnly _ hmem
  rw [htable] at hro
  cases hro

end System

end VmopsBench

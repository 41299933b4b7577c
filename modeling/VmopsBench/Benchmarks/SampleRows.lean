import VmopsBench.Benchmarks.Report
import VmopsBench.Order.Filling
import VmopsBench.Text.Printf

/-!
# Which samples are printed

The threads store their samples into one zeroed block, in any interleaving, and the printing
loop goes through the block and takes a slot with a zero in it for one that was never written
(`VmopsBench.logStats`). As long as the slices of the threads fit into the block
(`VmopsBench.SlicesFit`), what a slot holds does not depend on the interleaving
(`VmopsBench.sampleBlock_slot`), and the rows come thread by thread, each thread's in the order of
its stores. By `VmopsBench.latencies_eq_iff` the rows are those of all records
exactly if no record measured a latency of zero.
-/

namespace VmopsBench

open Filling

/-! ### The block of samples -/

/-- A slot of the `calloc`ed block. -/
def zeroStat : StatVal := ⟨0, 0, 0, 0⟩

/-- The slot of a store: `stats->values + stats->idx`. -/
def slotOf (args : ℕ → VmopsBenchRunArg) (x : ℕ × SizeT × StatVal) : ℕ :=
  ((args x.1).stats.values.map BitVec.toNat).getD 0 + x.2.1.toNat

/-- The block after a sequence of stores, each by a thread at an index of its slice. -/
def sampleBlock (args : ℕ → VmopsBenchRunArg) (stores : List (ℕ × SizeT × StatVal)) :
    ℕ → StatVal :=
  stores.foldl (fun block x => Function.update block (slotOf args x) x.2.2) fun _ => zeroStat

/-- **The stores of `n` threads, in some order**: each thread's are in the order in which it made
them. -/
structure Interleaves (args : ℕ → VmopsBenchRunArg) (n : ℕ)
    (stores : List (ℕ × SizeT × StatVal)) : Prop where
  thread_lt : ∀ x ∈ stores, x.1 < n
  of_thread : ∀ i < n, (stores.filter fun x => x.1 = i).map Prod.snd = (args i).stats.writes.reverse

/-- The block is an array that was filled by stores. -/
theorem sampleBlock_eq_filled (args : ℕ → VmopsBenchRunArg) (stores : List (ℕ × SizeT × StatVal)) :
    sampleBlock args stores =
      filled (stores.map fun x => (slotOf args x, x.2.2)) fun _ => zeroStat := by
  rw [filled, List.foldl_map]
  rfl

/-- A slot that was written with one record only holds it. -/
theorem sampleBlock_of_mem {args : ℕ → VmopsBenchRunArg} {stores : List (ℕ × SizeT × StatVal)}
    {x : ℕ × SizeT × StatVal} (hx : x ∈ stores)
    (hunique : ∀ y ∈ stores, slotOf args y = slotOf args x → y.2.2 = x.2.2) :
    sampleBlock args stores (slotOf args x) = x.2.2 := by
  rw [sampleBlock_eq_filled]
  refine filled_of_mem (List.mem_map_of_mem hx) fun y hy heq => ?_
  obtain ⟨z, hz, rfl⟩ := List.mem_map.mp hy
  exact hunique z hz heq

/-- A slot that was not written is zero. -/
theorem sampleBlock_of_not_mem {args : ℕ → VmopsBenchRunArg}
    {stores : List (ℕ × SizeT × StatVal)} {k : ℕ} (h : ∀ y ∈ stores, slotOf args y ≠ k) :
    sampleBlock args stores k = zeroStat := by
  rw [sampleBlock_eq_filled]
  refine filled_of_not_mem fun y hy => ?_
  obtain ⟨z, hz, rfl⟩ := List.mem_map.mp hy
  exact h z hz

/-! ### Slots that follow each other -/

section Block

variable {cfg : VmopsBenchCfg} {args : ℕ → VmopsBenchRunArg} {memobjs : ℕ → PlatMemobj}
  {stores : List (ℕ × SizeT × StatVal)}

/-- The samplers of all threads, each in its slice. -/
def AllInOrder (cfg : VmopsBenchCfg) (memobjs : ℕ → PlatMemobj) (args : ℕ → VmopsBenchRunArg) :
    Prop :=
  ∀ i < cfg.corelistSize.toNat,
    InOrder cfg (fillArg cfg (memobjs i) i).stats.values (args i).stats

/-- The stores of a thread, by the index of the record. -/
theorem mem_stores_iff (hall : AllInOrder cfg memobjs args)
    (hstores : Interleaves args cfg.corelistSize.toNat stores) {i : ℕ} {idx : SizeT} {c : StatVal}
    (hi : i < cfg.corelistSize.toNat) : (i, idx, c) ∈ stores ↔
      ∃ j, (args i).stats.recorded[j]? = some c ∧ idx = BitVec.ofNat 64 j := by
  have hwrites : (i, idx, c) ∈ stores ↔ (idx, c) ∈ (args i).stats.writes := by
    have hreverse : (idx, c) ∈ (args i).stats.writes ↔ (idx, c) ∈ (args i).stats.writes.reverse :=
      List.mem_reverse.symm
    rw [hreverse, ← hstores.of_thread i hi, List.mem_map]
    constructor
    · intro h
      exact ⟨_, List.mem_filter.mpr ⟨h, by simp⟩, rfl⟩
    · rintro ⟨⟨i', idx', c'⟩, hmem, heq⟩
      obtain ⟨hstore, hi'⟩ := List.mem_filter.mp hmem
      obtain ⟨rfl, rfl⟩ := Prod.mk.inj heq
      obtain rfl : i' = i := by simpa using hi'
      exact hstore
  rw [hwrites, (hall i hi).writes_eq, List.mem_reverse, List.mem_map]
  constructor
  · rintro ⟨⟨c', j⟩, hmem, heq⟩
    obtain ⟨rfl, rfl⟩ := Prod.mk.inj heq
    exact ⟨j, List.mem_zipIdx_iff_getElem?.mp hmem, rfl⟩
  · rintro ⟨j, hj, rfl⟩
    exact ⟨(c, j), List.mem_zipIdx_iff_getElem?.mpr hj, rfl⟩

/-- An index of a record is an index of its slice. -/
theorem lt_stats_of_getElem? (hall : AllInOrder cfg memobjs args) {i j : ℕ} {c : StatVal}
    (hi : i < cfg.corelistSize.toNat) (hc : (args i).stats.recorded[j]? = some c) :
    j < cfg.stats.toNat := by
  obtain ⟨hj, -⟩ := List.getElem?_eq_some_iff.mp hc
  exact lt_of_lt_of_le hj (hall i hi).length_le

variable (hsize : cfg.stats.toNat * cfg.corelistSize.toNat < 2 ^ 32) (hstats : cfg.stats ≠ 0)

include hsize hstats

/-- The slot of a record. -/
theorem slotOf_eq (hall : AllInOrder cfg memobjs args) {i j : ℕ} {c : StatVal}
    (hi : i < cfg.corelistSize.toNat) (hj : j < cfg.stats.toNat) :
    slotOf args (i, BitVec.ofNat 64 j, c) = cfg.stats.toNat * i + j := by
  have hstart : cfg.stats.toNat * i < 2 ^ 64 :=
    lt_trans (lt_of_le_of_lt (Nat.mul_le_mul_left _ hi.le) hsize) (by decide)
  have hj' : j < 2 ^ 64 := by
    have := cfg.stats.isLt
    omega
  rw [slotOf, (hall i hi).values_eq, values_fillArg hstats, sliceStart_eq hsize hi.le,
    Option.map_some, Option.getD_some, BitVec.toNat_ofNat, BitVec.toNat_ofNat,
    Nat.mod_eq_of_lt hstart, Nat.mod_eq_of_lt hj']

omit hsize hstats in
/-- A slot belongs to one thread and one index. -/
theorem slot_inj {s i i' j j' : ℕ} (hj : j < s) (hj' : j' < s) (h : s * i + j = s * i' + j') :
    i = i' ∧ j = j' := by
  have hs : 0 < s := by omega
  have hi : (s * i + j) / s = i := by rw [Nat.mul_add_div hs, Nat.div_eq_of_lt hj, Nat.add_zero]
  have hi' : (s * i' + j') / s = i' := by
    rw [Nat.mul_add_div hs, Nat.div_eq_of_lt hj', Nat.add_zero]
  obtain rfl : i = i' := by rw [← hi, h, hi']
  exact ⟨rfl, Nat.add_left_cancel h⟩

/-- **What a slot holds does not depend on the interleaving**: it is the record of its thread and
index, or it is zero. -/
theorem sampleBlock_slot (hall : AllInOrder cfg memobjs args)
    (hstores : Interleaves args cfg.corelistSize.toNat stores) {i j : ℕ}
    (hi : i < cfg.corelistSize.toNat) (hj : j < cfg.stats.toNat) :
    sampleBlock args stores (cfg.stats.toNat * i + j) =
      ((args i).stats.recorded[j]?).getD zeroStat := by
  -- a store to this slot is by this thread, at this index
  have hthis : ∀ y ∈ stores, slotOf args y = cfg.stats.toNat * i + j →
      (args i).stats.recorded[j]? = some y.2.2 := by
    rintro ⟨i', idx, c⟩ hy hslot
    have hi' : i' < cfg.corelistSize.toNat := hstores.thread_lt _ hy
    obtain ⟨j', hc, rfl⟩ := (mem_stores_iff hall hstores hi').mp hy
    have hj' := lt_stats_of_getElem? hall hi' hc
    rw [slotOf_eq hsize hstats hall hi' hj'] at hslot
    obtain ⟨rfl, rfl⟩ := slot_inj hj' hj hslot
    exact hc
  cases hc : (args i).stats.recorded[j]? with
  | none =>
    refine sampleBlock_of_not_mem fun y hy hslot => ?_
    rw [hthis y hy hslot] at hc
    cases hc
  | some c =>
    have hmem := (mem_stores_iff hall hstores hi).mpr ⟨j, hc, rfl⟩
    have hslot := slotOf_eq (c := c) hsize hstats hall hi hj
    rw [← hslot]
    refine sampleBlock_of_mem hmem fun y hy heq => ?_
    have hy := hthis y hy (heq.trans hslot)
    rw [hc] at hy
    exact (Option.some.inj hy).symm

omit hsize hstats in
/-- The slots, slice by slice. -/
theorem range_mul (s n : ℕ) : List.range (s * n) =
    (List.range n).flatMap fun i => (List.range s).map fun j => s * i + j := by
  induction n with
  | zero => rfl
  | succ n ih =>
    rw [Nat.mul_succ, List.range_add, ih, List.range_succ, List.flatMap_append,
      List.flatMap_singleton]

omit hsize hstats in
/-- The first slots of a slice are its records, and the others were never written. -/
theorem map_slots {recorded : List StatVal} {s : ℕ} (hlen : recorded.length ≤ s) :
    (List.range s).map (fun j => (recorded[j]?).getD zeroStat) =
      recorded ++ List.replicate (s - recorded.length) zeroStat := by
  refine List.ext_getElem (by simp [hlen]) fun j hj _ => ?_
  rw [List.getElem_map, List.getElem_range, List.getElem_append]
  split
  · next hlt => rw [List.getElem?_eq_getElem hlt, Option.getD_some]
  · next hge =>
    rw [List.getElem?_eq_none (Nat.le_of_not_lt hge), Option.getD_none, List.getElem_replicate]

omit hsize hstats in
/-- The samples in the slots, slice by slice. -/
theorem map_range_mul (block : ℕ → StatVal) (s n : ℕ) : (List.range (s * n)).map block =
    (List.range n).flatMap fun i => (List.range s).map fun j => block (s * i + j) := by
  rw [range_mul, List.map_flatMap]
  simp only [List.map_map]
  rfl

/-- **What is in the slots** of all threads. -/
theorem map_sampleBlock (hall : AllInOrder cfg memobjs args)
    (hstores : Interleaves args cfg.corelistSize.toNat stores) :
    (List.range (cfg.stats.toNat * cfg.corelistSize.toNat)).map (sampleBlock args stores) =
      (List.range cfg.corelistSize.toNat).flatMap fun i => (args i).stats.recorded ++
        List.replicate (cfg.stats.toNat - (args i).stats.recorded.length) zeroStat := by
  rw [map_range_mul]
  refine List.flatMap_congr fun i hi => ?_
  have hi := List.mem_range.mp hi
  rw [← map_slots (hall i hi).length_le]
  refine List.map_congr_left fun j hj => ?_
  exact sampleBlock_slot hsize hstats hall hstores hi (List.mem_range.mp hj)

/-- **The rows come thread by thread**, each thread's in the order of its stores. -/
theorem filterMap_printed (hall : AllInOrder cfg memobjs args)
    (hstores : Interleaves args cfg.corelistSize.toNat stores) :
    (List.range (cfg.stats.toNat * cfg.corelistSize.toNat)).filterMap
        (fun k => logStats cfg (sampleBlock args stores k)) =
      (List.range cfg.corelistSize.toNat).flatMap fun i =>
        (args i).stats.recorded.filterMap (logStats cfg) := by
  have hzero : logStats cfg zeroStat = none := by simp [logStats, zeroStat]
  have hslots := congrArg (List.filterMap (logStats cfg))
    (map_sampleBlock hsize hstats hall hstores)
  rw [List.filterMap_map, List.filterMap_flatMap] at hslots
  refine hslots.trans (List.flatMap_congr fun i _ => ?_)
  rw [List.filterMap_append, List.filterMap_replicate_of_none hzero, List.append_nil]

end Block

/-! ### The printed rows -/

section Rows

variable {cfg : VmopsBenchCfg} {args : ℕ → VmopsBenchRunArg} {memobjs : ℕ → PlatMemobj}
  {stores : List (ℕ × SizeT × StatVal)}

/-- What is printed of the samples. -/
theorem latencies_eq (hsize : cfg.stats.toNat * cfg.corelistSize.toNat < 2 ^ 32)
    (hcfg : (args 0).cfg = cfg) (hn : 0 < cfg.corelistSize.toNat)
    (hall : AllInOrder cfg memobjs args)
    (hstores : Interleaves args cfg.corelistSize.toNat stores) :
    (vmopsUtilsPrintCsv args (sampleBlock args stores)).latencies =
      (List.range cfg.corelistSize.toNat).flatMap fun i =>
        (args i).stats.recorded.filterMap (logStats cfg) := by
  have hprint : (vmopsUtilsPrintCsv args (sampleBlock args stores)).latencies =
      (printedSlots args).filterMap fun k => logStats cfg (sampleBlock args stores k) := by
    rw [vmopsUtilsPrintCsv, hcfg]
  rw [hprint]
  by_cases hstats : cfg.stats = 0
  · -- there is room for no record
    have hnone : ∀ i < cfg.corelistSize.toNat, (args i).stats.recorded = [] := by
      intro i hi
      have hlen := (hall i hi).length_le
      rw [hstats] at hlen
      exact List.length_eq_zero_iff.mp (Nat.le_zero.mp hlen)
    have hslots : printedSlots args = [] := by
      rw [printedSlots, hcfg]
      split <;> simp [hstats]
    rw [hslots, List.filterMap_nil, eq_comm, List.flatMap_eq_nil_iff]
    intro i hi
    rw [hnone i (List.mem_range.mp hi), List.filterMap_nil]
  · have hslots : printedSlots args =
        List.range (cfg.stats.toNat * cfg.corelistSize.toNat) := by
      rw [printedSlots_eq hstats hcfg (hall 0 hn).values_eq, Nat.mod_eq_of_lt hsize]
    rw [hslots, filterMap_printed hsize hstats hall hstores]

/-- All records, with the threads that have made them. -/
def threadRecords (cfg : VmopsBenchCfg) (args : ℕ → VmopsBenchRunArg) : List (ℕ × StatVal) :=
  (List.range cfg.corelistSize.toNat).flatMap fun i =>
    (args i).stats.recorded.map fun c => (i, c)

theorem mem_threadRecords {x : ℕ × StatVal} : x ∈ threadRecords cfg args ↔
    x.1 < cfg.corelistSize.toNat ∧ x.2 ∈ (args x.1).stats.recorded := by
  simp only [threadRecords, List.mem_flatMap, List.mem_map, List.mem_range]
  constructor
  · rintro ⟨i, hi, c, hc, rfl⟩
    exact ⟨hi, hc⟩
  · rintro ⟨hi, hc⟩
    exact ⟨x.1, hi, x.2, hc, rfl⟩

/-- **A row shows a record**: it says what was recorded, and the numbers that are printed of the
thread and of its core are the thread that has made the record and the core it was started on. -/
structure ShowsRecord (cfg : VmopsBenchCfg) (core : ℕ → BitVec 32) (row : LatencyRow)
    (x : ℕ × StatVal) : Prop where
  row_eq : row = latencyRow cfg (BitVec.ofNat 32 x.1) (core x.1) x.2
  threadid : Printf.signed row.threadid = Nat.toDigits 10 x.1
  core : Printf.signed row.core = Nat.toDigits 10 (core x.1).toNat

/-- **The rows show the records**: there is one row for each of them, and no other one. -/
def ShowsRecords (cfg : VmopsBenchCfg) (core : ℕ → BitVec 32) (args : ℕ → VmopsBenchRunArg)
    (rows : List LatencyRow) : Prop :=
  List.Forall₂ (ShowsRecord cfg core) rows (threadRecords cfg args)

/-- When a row of a record shows it. -/
theorem showsRecord_latencyRow {core : ℕ → BitVec 32} {x : ℕ × StatVal}
    (hx : x.1 < cfg.corelistSize.toNat) :
    ShowsRecord cfg core (latencyRow cfg (BitVec.ofNat 32 x.1) (core x.1) x.2) x ↔
      x.1 < 2 ^ 31 ∧ (core x.1).toNat < 2 ^ 31 := by
  have hthread : (BitVec.ofNat 32 x.1).toNat = x.1 :=
    Nat.mod_eq_of_lt (lt_trans hx cfg.corelistSize.isLt)
  constructor
  · rintro ⟨-, htid, hcore⟩
    refine ⟨?_, Printf.signed_eq_toDigits_iff.mp hcore⟩
    rw [← hthread]
    exact Printf.signed_eq_toDigits_iff.mp (htid.trans (congrArg (Nat.toDigits 10) hthread.symm))
  · rintro ⟨htid, hcore⟩
    refine ⟨rfl, ?_, Printf.signed_of_lt hcore⟩
    have hdigits := Printf.signed_of_lt (hthread.symm ▸ htid)
    rwa [hthread] at hdigits

/-- A list that is printed in part is printed in full exactly if nothing was left out. -/
theorem forall₂_map_filter_iff {α β : Type} {xs : List α} {p : α → Bool} {f : α → β}
    {R : β → α → Prop} :
    List.Forall₂ R ((xs.filter p).map f) xs ↔ ∀ x ∈ xs, p x = true ∧ R (f x) x := by
  rw [List.forall₂_map_left_iff]
  constructor
  · intro h
    have hall : ∀ x ∈ xs, p x = true := List.length_filter_eq_length_iff.mp h.length_eq
    rw [List.filter_eq_self.mpr hall] at h
    exact fun x hx => ⟨hall x hx, List.forall₂_same.mp h x hx⟩
  · intro h
    rw [List.filter_eq_self.mpr fun x hx => (h x hx).1]
    exact List.forall₂_same.mpr fun x hx => (h x hx).2

/-- What the records of a thread look like when the thread's clock does not go back. -/
def FromThread (i : ℕ) (c : StatVal) : Prop := c.tid = BitVec.ofNat 32 i ∧ c.val ≤ c.tElapsed

/-- A record of a thread is printed, unless its latency is zero. -/
theorem filterMap_logStats {core : BitVec 32} {i : ℕ} {recorded : List StatVal}
    (hthread : ∀ c ∈ recorded, FromThread i c) (hcore : coreAt cfg (BitVec.ofNat 32 i) = core) :
    recorded.filterMap (logStats cfg) =
      (recorded.filter fun c => c.val ≠ 0).map (latencyRow cfg (BitVec.ofNat 32 i) core) := by
  induction recorded with
  | nil => rfl
  | cons c recorded ih =>
    obtain ⟨htid, hle⟩ := hthread c List.mem_cons_self
    have ih := ih fun d hd => hthread d (List.mem_cons_of_mem c hd)
    by_cases hval : c.val = 0
    · have hnone : logStats cfg c = none := by simp [logStats, hval]
      rw [List.filterMap_cons_none hnone, ih, List.filter_cons_of_neg (by simp [hval])]
    · -- something takes time only if time has passed
      have helapsed : c.tElapsed ≠ 0 := by
        intro h
        rw [h] at hle
        exact hval (BitVec.le_zero_iff.mp hle)
      have hsome : logStats cfg c = some (latencyRow cfg (BitVec.ofNat 32 i) core c) := by
        rw [logStats, if_pos ⟨helapsed, hval⟩, htid, hcore]
      rw [List.filterMap_cons_some hsome, ih, List.filter_cons_of_pos (by simpa using hval),
        List.map_cons]

/-- **The rows are those of the records whose latency is not zero.** -/
theorem latencies_eq_filter {core : ℕ → BitVec 32}
    (hsize : cfg.stats.toNat * cfg.corelistSize.toNat < 2 ^ 32)
    (hcfg : (args 0).cfg = cfg) (hn : 0 < cfg.corelistSize.toNat)
    (hall : AllInOrder cfg memobjs args)
    (hstores : Interleaves args cfg.corelistSize.toNat stores)
    (hthread : ∀ i < cfg.corelistSize.toNat, ∀ c ∈ (args i).stats.recorded, FromThread i c)
    (hcore : ∀ i < cfg.corelistSize.toNat, coreAt cfg (BitVec.ofNat 32 i) = core i) :
    (vmopsUtilsPrintCsv args (sampleBlock args stores)).latencies =
      ((threadRecords cfg args).filter fun x => x.2.val ≠ 0).map fun x =>
        latencyRow cfg (BitVec.ofNat 32 x.1) (core x.1) x.2 := by
  rw [latencies_eq hsize hcfg hn hall hstores, threadRecords, List.filter_flatMap,
    List.map_flatMap]
  refine List.flatMap_congr fun i hi => ?_
  have hi := List.mem_range.mp hi
  rw [filterMap_logStats (hthread i hi) (hcore i hi), List.filter_map, List.map_map]
  rfl

/-- **Every record is shown exactly if no record has latency zero**, and the threads with records
and their cores are numbers that `%d` can print. -/
theorem showsRecords_iff {core : ℕ → BitVec 32} {rows : List LatencyRow}
    (hrows : rows = ((threadRecords cfg args).filter fun x => x.2.val ≠ 0).map fun x =>
      latencyRow cfg (BitVec.ofNat 32 x.1) (core x.1) x.2) :
    ShowsRecords cfg core args rows ↔ ∀ i < cfg.corelistSize.toNat,
      ∀ c ∈ (args i).stats.recorded, c.val ≠ 0 ∧ i < 2 ^ 31 ∧ (core i).toNat < 2 ^ 31 := by
  rw [ShowsRecords, hrows, forall₂_map_filter_iff]
  constructor
  · intro h i hi c hc
    obtain ⟨hval, hshows⟩ := h (i, c) (mem_threadRecords.mpr ⟨hi, hc⟩)
    exact ⟨of_decide_eq_true hval, (showsRecord_latencyRow hi).mp hshows⟩
  · intro h x hx
    obtain ⟨hi, hc⟩ := mem_threadRecords.mp hx
    obtain ⟨hval, hsmall⟩ := h x.1 hi x.2 hc
    exact ⟨decide_eq_true hval, (showsRecord_latencyRow hi).mpr hsmall⟩

end Rows

end VmopsBench

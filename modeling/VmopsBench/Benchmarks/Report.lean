import VmopsBench.Benchmarks.Sampler

/-!
# The report

`vmops_utils_print_csv` and the macros of `logging.h`: a row of throughput for each thread, a
row of latency for each recorded sample, and the result line. Rows are records of the values
that are printed, with the keywords as the code spells them, and floating-point numbers are
rationals.

The samples of all threads are in one block of memory, and each thread has a slice of it. The
block's size, the place of a slice and the number of slots that are printed are three products
of `cfg->stats` and a number of threads; the first is computed in 64 bits, and the others in 32.
`VmopsBench.slicesFit_iff` says when that makes no difference.
-/

namespace VmopsBench

open Interact

/-! ### Rows -/

/-- A row of throughput, as `LOG_CSV` prints it. -/
structure ThptRow where
  threadId : BitVec 32
  benchmark : List Char
  core : BitVec 32
  ncores : BitVec 32
  memsize : SizeT
  numainterleave : List Char
  mappingsSize : List Char
  pageSize : List Char
  memobj : List Char
  isolation : List Char
  duration : ℚ
  operations : SizeT
  deriving DecidableEq

/-- A row of latency, as `LOG_STATS` prints it. -/
structure LatencyRow where
  benchmark : List Char
  core : BitVec 32
  ncores : BitVec 32
  memsize : SizeT
  numainterleave : List Char
  mappingsSize : List Char
  pageSize : List Char
  memobj : List Char
  isolation : List Char
  threadid : BitVec 32
  elapsed : ℚ
  counter : BitVec 64
  latency : ℚ
  deriving DecidableEq

/-- The result line, as `LOG_RESULT` prints it. -/
structure ResultLine where
  benchmark : List Char
  memsize : SizeT
  time : ℚ
  ncores : BitVec 32
  ops : SizeT
  thpt : ℚ
  lat : ℚ
  deriving DecidableEq

/-- The keyword of the core order. -/
def numaKeyword (cfg : VmopsBenchCfg) : List Char :=
  (if cfg.numainterleave then "numainterleave" else "numafill").toList

/-- The keyword of the size of the mappings. -/
def mappingsKeyword (cfg : VmopsBenchCfg) : List Char :=
  (if cfg.map4k then "smallmappings" else "onelargemap").toList

/-- The keyword of the page size. -/
def pagesKeyword (cfg : VmopsBenchCfg) : List Char :=
  (if cfg.maphuge then "hugepages" else "basepages").toList

/-- The keyword of the memory objects. -/
def memobjKeyword (cfg : VmopsBenchCfg) : List Char :=
  (if cfg.shared then "shared-memobj" else "independent-memobj").toList

/-- The keyword of the isolation. -/
def isolationKeyword (cfg : VmopsBenchCfg) : List Char :=
  (if cfg.isolated then "isolated" else "default").toList

/-- `coreslist[i]`. -/
def coreAt (cfg : VmopsBenchCfg) (i : BitVec 32) : BitVec 32 := cfg.coreslist.getD i.toNat 0

/-- `LOG_CSV`. -/
def logCsv (cfg : VmopsBenchCfg) (t : BitVec 32) (duration : ℚ) (tpt : SizeT) : ThptRow where
  threadId := t
  benchmark := cfg.benchmark
  core := coreAt cfg t
  ncores := cfg.corelistSize
  memsize := cfg.memsize
  numainterleave := numaKeyword cfg
  mappingsSize := mappingsKeyword cfg
  pageSize := pagesKeyword cfg
  memobj := memobjKeyword cfg
  isolation := isolationKeyword cfg
  duration := duration
  operations := tpt

/-- The row of a sample, with the thread and the core it names. -/
def latencyRow (cfg : VmopsBenchCfg) (tid core : BitVec 32) (stat : StatVal) : LatencyRow where
  benchmark := cfg.benchmark
  core := core
  ncores := cfg.corelistSize
  memsize := cfg.memsize
  numainterleave := numaKeyword cfg
  mappingsSize := mappingsKeyword cfg
  pageSize := pagesKeyword cfg
  memobj := memobjKeyword cfg
  isolation := isolationKeyword cfg
  threadid := tid
  elapsed := platTimeToMs stat.tElapsed
  counter := stat.counter
  latency := platTimeToMs stat.val

/-- `LOG_STATS`: slots that were never written are told by their zeroes. -/
def logStats (cfg : VmopsBenchCfg) (stat : StatVal) : Option LatencyRow :=
  if stat.tElapsed ≠ 0 ∧ stat.val ≠ 0 then
    some (latencyRow cfg stat.tid (coreAt cfg stat.tid) stat)
  else none

/-! ### Printing -/

/-- The slots that the printing loop visits: its bound is a 32-bit product. -/
def printedSlots (args : ℕ → VmopsBenchRunArg) : List ℕ :=
  let cfg := (args 0).cfg
  match (args 0).stats.values with
  | some pairs =>
    if cfg.stats ≠ 0 then
      (List.range (cfg.stats * cfg.corelistSize).toNat).map fun i => pairs.toNat + i
    else []
  | none => []

/-- What `vmops_utils_print_csv` prints. -/
structure Report where
  throughput : List ThptRow
  latencies : List LatencyRow
  result : ResultLine

/-- `vmops_utils_print_csv`, for an array with at least one record before the sentinel, over the
block of samples. All records point to the same configuration, so the check of the pointers
does not fail. -/
def vmopsUtilsPrintCsv (args : ℕ → VmopsBenchRunArg) (samples : ℕ → StatVal) : Report :=
  let cfg := (args 0).cfg
  let threads := List.range cfg.corelistSize.toNat
  let totalOps := (threads.map fun i => (args i).count).sum
  let totalTime := (threads.map fun i => (args i).duration).sum
  let slots := printedSlots args
  let latency := (slots.map fun k => platTimeToMs (samples k).val).sum
  { throughput := threads.map fun i =>
      logCsv cfg (BitVec.ofNat 32 i) (args i).duration (args i).count
    latencies := slots.filterMap fun k => logStats cfg (samples k)
    result := {
      benchmark := cfg.benchmark
      memsize := cfg.memsize
      time := totalTime
      ncores := cfg.corelistSize
      ops := totalOps
      thpt := (totalOps * 1000).toNat / totalTime
      lat := latency / totalOps.toNat } }

/-! ### Slices -/

/-- The slots that a thread was given. -/
def slice (arg : VmopsBenchRunArg) : Finset ℕ :=
  match arg.stats.values with
  | some v => Finset.Ico v.toNat (v.toNat + arg.stats.idxMax.toNat)
  | none => ∅

/-- **The slices of `n` threads fit into a block** with room for a number of records: no two
threads share a slot, all slots are in the block, and these are the slots that are printed. -/
structure SlicesFit (args : ℕ → VmopsBenchRunArg) (n room : ℕ) : Prop where
  disjoint : ∀ i < n, ∀ j < n, i ≠ j → Disjoint (slice (args i)) (slice (args j))
  inBlock : ∀ i < n, ∀ k ∈ slice (args i), k < room
  printed : ∀ k, k ∈ printedSlots args ↔ ∃ i < n, k ∈ slice (args i)

section Slices

variable {cfg : VmopsBenchCfg} {memobj : PlatMemobj} {memobjs : ℕ → PlatMemobj} {i : ℕ}

/-- The first slot of a thread, in 32 bits. -/
def sliceStart (cfg : VmopsBenchCfg) (i : ℕ) : ℕ := cfg.stats.toNat * i % 2 ^ 32

theorem stats_pos (hstats : cfg.stats ≠ 0) : 0 < cfg.stats.toNat := by
  refine Nat.pos_of_ne_zero fun h => hstats ?_
  exact BitVec.eq_of_toNat_eq h

/-- The `values` of a thread. -/
theorem values_fillArg (hstats : cfg.stats ≠ 0) :
    (fillArg cfg memobj i).stats.values = some (BitVec.ofNat 64 (sliceStart cfg i)) := by
  have hpos : 0 < cfg.stats := by
    rw [BitVec.lt_def]
    exact stats_pos hstats
  have hvalues : (fillArg cfg memobj i).stats.values =
      if 0 < cfg.stats then some ((cfg.stats * BitVec.ofNat 32 i).setWidth 64) else none := rfl
  rw [hvalues, if_pos hpos]
  refine congrArg some (BitVec.eq_of_toNat_eq ?_)
  rw [BitVec.toNat_setWidth, BitVec.toNat_mul, BitVec.toNat_ofNat, BitVec.toNat_ofNat,
    Nat.mul_mod_mod, sliceStart]

theorem slice_fillArg (hstats : cfg.stats ≠ 0) : slice (fillArg cfg memobj i) =
    Finset.Ico (sliceStart cfg i) (sliceStart cfg i + cfg.stats.toNat) := by
  have hlt : sliceStart cfg i < 2 ^ 64 :=
    lt_trans (Nat.mod_lt _ (by decide)) (by decide : 2 ^ 32 < 2 ^ 64)
  have hstart : BitVec.toNat (BitVec.ofNat 64 (sliceStart cfg i)) = sliceStart cfg i := by
    rw [BitVec.toNat_ofNat, Nat.mod_eq_of_lt hlt]
  rw [slice, values_fillArg hstats, toNat_idxMax]
  simp only [hstart]

theorem start_mem_slice (hstats : cfg.stats ≠ 0) :
    sliceStart cfg i ∈ slice (fillArg cfg memobj i) := by
  have hpos := stats_pos hstats
  rw [slice_fillArg hstats, Finset.mem_Ico]
  omega

/-- The slots that are printed. -/
theorem printedSlots_eq {args : ℕ → VmopsBenchRunArg} (hstats : cfg.stats ≠ 0)
    (hcfg : (args 0).cfg = cfg)
    (hvalues : (args 0).stats.values = (fillArg cfg memobj 0).stats.values) :
    printedSlots args = List.range (cfg.stats.toNat * cfg.corelistSize.toNat % 2 ^ 32) := by
  have hstart : BitVec.toNat (BitVec.ofNat 64 (sliceStart cfg 0)) = 0 := by
    rw [sliceStart, Nat.mul_zero]
    rfl
  rw [printedSlots, hcfg, hvalues, values_fillArg hstats]
  simp only [if_pos hstats, hstart, BitVec.toNat_mul, Nat.zero_add, List.map_id']

theorem printedSlots_filledArgs (hstats : cfg.stats ≠ 0) (hn : 0 < cfg.corelistSize.toNat) :
    printedSlots (filledArgs cfg memobjs) =
      List.range (cfg.stats.toNat * cfg.corelistSize.toNat % 2 ^ 32) := by
  have hfirst : filledArgs cfg memobjs 0 = fillArg cfg (memobjs 0) 0 := if_pos hn
  exact printedSlots_eq hstats (by rw [hfirst]; rfl) (by rw [hfirst])

/-- Without a wrap the slices follow each other. -/
theorem sliceStart_eq (h : cfg.stats.toNat * cfg.corelistSize.toNat < 2 ^ 32)
    (hi : i ≤ cfg.corelistSize.toNat) : sliceStart cfg i = cfg.stats.toNat * i :=
  Nat.mod_eq_of_lt (lt_of_le_of_lt (Nat.mul_le_mul_left _ hi) h)

/-- **The slices fit exactly if the number of slots is a 32-bit number.** -/
theorem slicesFit_filledArgs (hstats : cfg.stats ≠ 0) (hn : 0 < cfg.corelistSize.toNat) :
    SlicesFit (filledArgs cfg memobjs) cfg.corelistSize.toNat
        (cfg.corelistSize.toNat * cfg.stats.toNat) ↔
      cfg.stats.toNat * cfg.corelistSize.toNat < 2 ^ 32 := by
  have hpos := stats_pos hstats
  have hslice : ∀ i < cfg.corelistSize.toNat, slice (filledArgs cfg memobjs i) =
      Finset.Ico (sliceStart cfg i) (sliceStart cfg i + cfg.stats.toNat) := by
    intro i hi
    have harg : filledArgs cfg memobjs i = fillArg cfg (memobjs i) i := if_pos hi
    rw [harg, slice_fillArg hstats]
  constructor
  · intro h
    by_contra hwrap
    -- disjoint slices need more slots than a 32-bit number of them that is printed
    have hunion : (Finset.range cfg.corelistSize.toNat).biUnion
        (fun i => slice (filledArgs cfg memobjs i)) =
          Finset.range (cfg.stats.toNat * cfg.corelistSize.toNat % 2 ^ 32) := by
      ext k
      rw [Finset.mem_biUnion, Finset.mem_range, ← List.mem_range,
        ← printedSlots_filledArgs hstats hn, h.printed]
      simp only [Finset.mem_range]
    have hcard := congrArg Finset.card hunion
    rw [Finset.card_biUnion fun i hi j hj => h.disjoint i (Finset.mem_range.mp hi) j
      (Finset.mem_range.mp hj), Finset.card_range] at hcard
    have hsum : ∑ i ∈ Finset.range cfg.corelistSize.toNat,
        (slice (filledArgs cfg memobjs i)).card = cfg.corelistSize.toNat * cfg.stats.toNat := by
      rw [Finset.sum_const_nat fun i hi => ?_, Finset.card_range]
      rw [hslice i (Finset.mem_range.mp hi), Nat.card_Ico, Nat.add_sub_cancel_left]
    have hmod := Nat.mod_lt (cfg.stats.toNat * cfg.corelistSize.toNat) (by decide : 0 < 2 ^ 32)
    rw [hsum, Nat.mul_comm] at hcard
    omega
  · intro h
    have hnext : ∀ i j, i < j → cfg.stats.toNat * i + cfg.stats.toNat ≤ cfg.stats.toNat * j := by
      intro i j hij
      rw [← Nat.mul_succ]
      exact Nat.mul_le_mul_left _ hij
    have hmem : ∀ i < cfg.corelistSize.toNat, ∀ k, k ∈ slice (filledArgs cfg memobjs i) ↔
        cfg.stats.toNat * i ≤ k ∧ k < cfg.stats.toNat * i + cfg.stats.toNat := by
      intro i hi k
      rw [hslice i hi, sliceStart_eq h hi.le, Finset.mem_Ico]
    refine ⟨fun i hi j hj hij => ?_, fun i hi k hk => ?_, fun k => ?_⟩
    · rw [Finset.disjoint_left]
      intro k hk hk'
      rw [hmem i hi] at hk
      rw [hmem j hj] at hk'
      rcases Nat.lt_or_gt_of_ne hij with hlt | hlt
      · have := hnext i j hlt
        omega
      · have := hnext j i hlt
        omega
    · rw [hmem i hi] at hk
      rw [Nat.mul_comm]
      exact lt_of_lt_of_le hk.2 (hnext i _ hi)
    · rw [printedSlots_filledArgs hstats hn, Nat.mod_eq_of_lt h, List.mem_range]
      constructor
      · intro hk
        have hi : k / cfg.stats.toNat < cfg.corelistSize.toNat :=
          Nat.div_lt_of_lt_mul hk
        refine ⟨k / cfg.stats.toNat, hi, (hmem _ hi k).mpr ⟨Nat.mul_div_le k _, ?_⟩⟩
        exact Nat.lt_mul_div_succ k hpos
      · rintro ⟨i, hi, hk⟩
        exact lt_of_lt_of_le ((hmem i hi k).mp hk).2 (hnext i _ hi)

end Slices

/-! ### The slices that preparation hands out -/

/-- The allocation of the samples. -/
abbrev sampleAlloc (cfg : VmopsBenchCfg) (ok : Bool) : Event mainSig :=
  ⟨MainCall.callocStats cfg.corelistSize cfg.stats, ok⟩

/-- **Preparation fills in the records**, and changes the configuration only if there is no memory
for the samples. -/
theorem prepareArgs_filled (cfg : VmopsBenchCfg) :
    wp (recording mainSig) (vmopsUtilsPrepareArgs cfg)
      (fun o g => ∀ p, o = some p → (∃ memobjs, p.2 = filledArgs p.1 memobjs) ∧
        (p.1 = cfg ∨ sampleAlloc cfg false ∈ g)) [] := by
  refine wp_recording_call fun args => ?_
  cases args with
  | false => exact nofun
  | true =>
    have halloc : ∀ g, wp (recording mainSig) (allocateStats cfg)
        (fun cfg' g' => cfg' = cfg ∨ sampleAlloc cfg false ∈ g') g := by
      intro g
      rw [allocateStats]
      split
      · exact Or.inl rfl
      · refine wp_recording_call fun samples => ?_
        cases samples with
        | true => exact Or.inl rfl
        | false => exact Or.inr (by simp)
    -- what comes after the samples only adds to the history
    refine (wp_bind _ _).mpr (wp_mono _ (fun cfg' g hcfg => ?_) (halloc _))
    refine (wp_bind _ _).mpr (wp_mono _ ?_ (wp_recording_extends _ _))
    rintro o - ⟨tr, rfl⟩
    cases o with
    | none => exact wp_recording_call fun _ => nofun
    | some memobjs =>
      refine (wp_bind _ _).mpr (wp_mono _ ?_ (wp_recording_extends _ _))
      rintro o - ⟨tr', rfl⟩
      cases o with
      | error _ => exact wp_recording_call fun _ => nofun
      | ok _ =>
        rintro p hp
        obtain rfl := Option.some.inj hp
        refine ⟨⟨memobjs, rfl⟩, hcfg.imp_right fun hmem => ?_⟩
        exact List.mem_append_left _ (List.mem_append_left _ hmem)

/-- The records of a preparation that has found memory for the samples. -/
theorem exists_filledArgs {cfg cfg' : VmopsBenchCfg} {args : ℕ → VmopsBenchRunArg}
    {tr : List (Event mainSig)}
    (hrun : Run (vmopsUtilsPrepareArgs cfg) tr (.ret (some (cfg', args))))
    (halloc : sampleAlloc cfg false ∉ tr) : ∃ memobjs, args = filledArgs cfg memobjs := by
  obtain ⟨⟨memobjs, hargs⟩, hcfg | hmem⟩ := of_run hrun (prepareArgs_filled cfg) _ rfl
  · exact ⟨memobjs, hcfg ▸ hargs⟩
  · exact absurd hmem halloc

/-- **The slices that preparation hands out fit into the block it has allocated, and are what is
printed, exactly if the number of all samples is a 32-bit number.** -/
theorem slicesFit_iff {cfg cfg' : VmopsBenchCfg} {args : ℕ → VmopsBenchRunArg}
    {tr : List (Event mainSig)}
    (hrun : Run (vmopsUtilsPrepareArgs cfg) tr (.ret (some (cfg', args))))
    (hstats : cfg.stats ≠ 0) (hn : cfg.corelistSize ≠ 0) (halloc : sampleAlloc cfg false ∉ tr) :
    SlicesFit args cfg.corelistSize.toNat (cfg.corelistSize.toNat * cfg.stats.toNat) ↔
      cfg.stats.toNat * cfg.corelistSize.toNat < 2 ^ 32 := by
  obtain ⟨memobjs, rfl⟩ := exists_filledArgs hrun halloc
  have hpos : 0 < cfg.corelistSize.toNat :=
    Nat.pos_of_ne_zero fun h => hn (BitVec.eq_of_toNat_eq h)
  exact slicesFit_filledArgs hstats hpos

/-- A preparation in which no call fails. -/
theorem exists_prepared (cfg : VmopsBenchCfg)
    (h : yields (MainCall.succeed (zeroArg cfg)) 200 (vmopsUtilsPrepareArgs cfg) (fun tr o =>
      decide (o.isSome = true ∧ tr.all (fun e => !e.call.fails e.resp) = true)) = true) :
    ∃ tr cfg' args, Run (vmopsUtilsPrepareArgs cfg) tr (.ret (some (cfg', args))) ∧
      sampleAlloc cfg false ∉ tr := by
  have hrun : ∃ tr o, Run (vmopsUtilsPrepareArgs cfg) tr (.ret o) ∧
      (o.isSome = true ∧ tr.all (fun e => !e.call.fails e.resp) = true) :=
    exists_run_of_yields (MainCall.succeed (zeroArg cfg)) 200 h
  obtain ⟨tr, o, hrun, hsome, hall⟩ := hrun
  obtain ⟨⟨cfg', args⟩, rfl⟩ := Option.isSome_iff_exists.mp hsome
  refine ⟨tr, cfg', args, hrun, fun hmem => ?_⟩
  have hfails := List.all_eq_true.mp hall _ hmem
  cases hfails

/-- Two threads with two samples each. -/
theorem slicesFit_twoThreads : ∃ tr cfg' args,
    Run (vmopsUtilsPrepareArgs { twoThreads with stats := 2 }) tr (.ret (some (cfg', args))) ∧
      SlicesFit args 2 4 := by
  obtain ⟨tr, cfg', args, hrun, halloc⟩ :=
    exists_prepared { twoThreads with stats := 2 } (by decide)
  exact ⟨tr, cfg', args, hrun, (slicesFit_iff hrun (by decide) (by decide) halloc).mpr (by decide)⟩

/-- With `2 ^ 31` samples for each of two threads, no slot is printed. -/
theorem slicesFit_fails : ∃ tr cfg' args,
    Run (vmopsUtilsPrepareArgs { twoThreads with stats := 0x80000000 }) tr
        (.ret (some (cfg', args))) ∧
      sampleAlloc { twoThreads with stats := 0x80000000 } false ∉ tr ∧
      ¬SlicesFit args 2 (2 * 2 ^ 31) := by
  let cfg := { twoThreads with stats := 0x80000000 }
  obtain ⟨tr, cfg', args, hrun, halloc⟩ := exists_prepared cfg (by decide)
  refine ⟨tr, cfg', args, hrun, halloc, fun h => ?_⟩
  obtain ⟨memobjs, rfl⟩ := exists_filledArgs hrun halloc
  have hstats : cfg.stats ≠ 0 := by decide
  have hstart : sliceStart cfg 0 = 0 := by rw [sliceStart, Nat.mul_zero, Nat.zero_mod]
  have hmem : 0 ∈ slice (filledArgs cfg memobjs 0) := hstart ▸ start_mem_slice hstats
  have hwrap : cfg.stats.toNat * cfg.corelistSize.toNat % 2 ^ 32 = 0 := by decide
  have hprinted : printedSlots (filledArgs cfg memobjs) = [] := by
    rw [printedSlots_filledArgs hstats (by decide), hwrap, List.range_zero]
  have h0 := (h.printed 0).mpr ⟨0, by decide, hmem⟩
  rw [hprinted] at h0
  cases h0

end VmopsBench

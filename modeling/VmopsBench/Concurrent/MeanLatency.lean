import VmopsBench.Concurrent.Samples
import VmopsBench.Concurrent.Success
import VmopsBench.Words.Arc

/-!
# The latency of the result line

The result line ends with a latency. It is the sum of the latencies in the block of samples,
divided by the number of operations, but only some operations leave a sample: the first ten of each
thread do not, nor those that come too early for the sampling rate or find the buffer full.

So a thread that comes to its end counts at least ten operations more than it has recorded
(`VmopsBench.length_recorded_le_count`), the quotient is smaller than the mean, and in a run without
an error exit the two agree only if no sample has taken any time. A thread that leaves through an
error exit has recorded samples and counts no operation, and then the numbers may agree by chance:
`VmopsBench.System.latIsMean_iff`.
-/

namespace VmopsBench

open Interact Filling

/-! ### Sums -/

/-- The records of all threads. -/
def allRecorded (cfg : VmopsBenchCfg) (args : ℕ → VmopsBenchRunArg) : List StatVal :=
  (List.range cfg.corelistSize.toNat).flatMap fun i => (args i).stats.recorded

/-- The latency of a sample in milliseconds. -/
abbrev latencyMs (c : StatVal) : ℚ := platTimeToMs c.val

/-- The sum of the latencies of some samples. -/
def latencySum (cs : List StatVal) : ℚ := (cs.map latencyMs).sum

/-- The operations that the threads have counted. -/
def countSum (cfg : VmopsBenchCfg) (args : ℕ → VmopsBenchRunArg) : SizeT :=
  ((List.range cfg.corelistSize.toNat).map fun i => (args i).count).sum

/-- The samples in the slots that are printed. -/
def printedSamples (args : ℕ → VmopsBenchRunArg) (block : ℕ → StatVal) : List StatVal :=
  (printedSlots args).map block

/-- **The latency of the result line is the mean of the samples**, and is a quotient at all. -/
def LatIsMean (cfg : VmopsBenchCfg) (args : ℕ → VmopsBenchRunArg) (block : ℕ → StatVal) : Prop :=
  countSum cfg args ≠ 0 ∧ (vmopsUtilsPrintCsv args block).result.lat =
    latencySum (allRecorded cfg args) / (allRecorded cfg args).length

theorem platTimeToMs_nonneg (t : PlatTime) : 0 ≤ platTimeToMs t :=
  div_nonneg (Nat.cast_nonneg _) (by norm_num)

theorem platTimeToMs_eq_zero_iff {t : PlatTime} : platTimeToMs t = 0 ↔ t = 0 := by
  rw [platTimeToMs, div_eq_zero_iff, or_iff_left (by norm_num), Nat.cast_eq_zero,
    ← BitVec.toNat_inj]
  rfl

theorem latencySum_nonneg (cs : List StatVal) : 0 ≤ latencySum cs := by
  refine List.sum_nonneg fun x hx => ?_
  obtain ⟨c, -, rfl⟩ := List.mem_map.mp hx
  exact platTimeToMs_nonneg _

/-- The sum is zero only if all samples are. -/
theorem latencySum_eq_zero_iff {cs : List StatVal} :
    latencySum cs = 0 ↔ ∀ c ∈ cs, c.val = 0 := by
  induction cs with
  | nil => simp [latencySum]
  | cons c cs ih =>
    have hcons : latencySum (c :: cs) = platTimeToMs c.val + latencySum cs := List.sum_cons
    rw [hcons, add_eq_zero_iff_of_nonneg (platTimeToMs_nonneg _) (latencySum_nonneg cs),
      platTimeToMs_eq_zero_iff, ih, List.forall_mem_cons]

theorem latencySum_append (cs ds : List StatVal) :
    latencySum (cs ++ ds) = latencySum cs + latencySum ds := by
  rw [latencySum, List.map_append, List.sum_append]
  rfl

theorem latencySum_flatMap {ι : Type} (is : List ι) (f : ι → List StatVal) :
    latencySum (is.flatMap f) = (is.map fun i => latencySum (f i)).sum := by
  induction is with
  | nil => rfl
  | cons i is ih => rw [List.flatMap_cons, latencySum_append, ih, List.map_cons, List.sum_cons]

/-- Slots that were never written add nothing. -/
theorem latencySum_replicate (n : ℕ) : latencySum (List.replicate n zeroStat) = 0 := by
  refine latencySum_eq_zero_iff.mpr fun c hc => ?_
  obtain rfl := List.eq_of_mem_replicate hc
  rfl

/-- A sum of words that does not overflow. -/
theorem toNat_sum {w : ℕ} {xs : List (BitVec w)} (h : (xs.map BitVec.toNat).sum < 2 ^ w) :
    xs.sum.toNat = (xs.map BitVec.toNat).sum := by
  induction xs with
  | nil => rfl
  | cons x xs ih =>
    rw [List.map_cons, List.sum_cons] at h ⊢
    rw [List.sum_cons, BitVec.toNat_add, ih (by omega), Nat.mod_eq_of_lt h]

/-! ### Operations without a sample -/

/-- **Ten operations go before the first record**, of the `n` operations that a sampler has seen. -/
structure DryRunsFirst (n : ℕ) (s : VmopsStats) : Prop where
  length_le : s.recorded.length + 10 ≤ n + s.dryrun.toNat
  dryrun_eq : s.recorded ≠ [] → s.dryrun = 0

section DryRuns

variable {n : ℕ} {s : VmopsStats}

/-- An operation that is not sampled. -/
theorem DryRunsFirst.succ (h : DryRunsFirst n s) : DryRunsFirst (n + 1) s where
  length_le := h.length_le.trans (by omega)
  dryrun_eq := h.dryrun_eq

/-- An operation that is sampled. -/
theorem DryRunsFirst.addStats (h : DryRunsFirst n s) (c : StatVal) :
    DryRunsFirst (n + 1) (vmopsUtilsAddStats s c.tid c.counter c.tElapsed c.val) := by
  have hle := h.length_le
  rcases addStats_cases s c with ⟨hdry, heq⟩ | ⟨-, -, heq⟩ | ⟨hdry, -, -, heq⟩
  · rw [heq]
    have hpos : 0 < s.dryrun.toNat := BitVec.lt_def.mp ((BitVec.pos_iff_ne_zero _).mpr hdry)
    have hpred : (s.dryrun - 1).toNat = s.dryrun.toNat - 1 := BitVec.toNat_sub_of_le hpos
    refine ⟨?_, fun hne => absurd (h.dryrun_eq hne) hdry⟩
    show s.recorded.length + 10 ≤ n + 1 + (s.dryrun - 1).toNat
    omega
  · rw [heq]
    exact h.succ
  · rw [heq]
    refine ⟨?_, fun _ => hdry⟩
    have hsame : (s.store c).dryrun = s.dryrun := rfl
    rw [recorded_store, List.length_append, List.length_singleton, hsame]
    omega

variable {cfg : VmopsBenchCfg} {memobj : PlatMemobj} {i : ℕ}

/-- **The turns of a timed loop keep it.** -/
theorem dryRunsKept (nops : SizeT) (sampling : Sampling) :
    KeptByTurns (fillArg cfg memobj i) nops sampling
      fun _ s _ => DryRunsFirst s.counter.toNat s.stats where
  first _ _ := ⟨le_rfl, fun h => absurd rfl h⟩
  append h _ := h
  next := by
    intro tStart s g h hlt t
    have hsucc : (s.counter + 1).toNat = s.counter.toNat + 1 := Words.toNat_succ_of_lt hlt
    show DryRunsFirst (s.counter + 1).toNat (sampling.record _ _ _ _ _)
    rw [hsucc]
    cases sampling with
    | never => exact h.succ
    | beforeIncrement => exact h.addStats ⟨_, _, _, _⟩
    | afterIncrement => exact h.addStats ⟨_, _, _, _⟩

/-- **A thread that has recorded anything counts ten operations more than it has recorded**, if
it comes to the end of its run function. -/
theorem length_recorded_le_count {f : RunFn} {tr : List (Event threadSig)} {r : RunResult}
    (hrun : Run (platThreadRunFn f (fillArg cfg memobj i)) tr (.ret r)) (hdone : r.exit = .done)
    (hrecorded : r.arg.stats.recorded ≠ []) :
    r.arg.stats.recorded.length + 10 ≤ r.arg.count.toNat := by
  rcases (leftBy_of_run hrun (dryRunsKept _ _)).stats with hstats | ⟨-, s, hdry, hstats, hcount⟩
  · rw [hstats] at hrecorded
    exact absurd rfl hrecorded
  · rw [hstats] at hrecorded ⊢
    have hle := hdry.length_le
    rw [hdry.dryrun_eq hrecorded] at hle
    rw [hcount hdone]
    exact hle

end DryRuns

section Block

variable {cfg : VmopsBenchCfg} {args : ℕ → VmopsBenchRunArg} {memobjs : ℕ → PlatMemobj}
  {stores : List (ℕ × SizeT × StatVal)}

/-- What the result line says. -/
theorem lat_eq (hcfg : (args 0).cfg = cfg) (block : ℕ → StatVal) :
    (vmopsUtilsPrintCsv args block).result.lat =
      latencySum (printedSamples args block) / (countSum cfg args).toNat := by
  subst hcfg
  rw [latencySum, printedSamples, List.map_map]
  rfl

/-- **The sum is that of the records**, if the slices fit. -/
theorem latencySum_printedSamples
    (hsize : cfg.stats.toNat * cfg.corelistSize.toNat < 2 ^ 32) (hstats : cfg.stats ≠ 0)
    (hcfg : (args 0).cfg = cfg) (hn : 0 < cfg.corelistSize.toNat)
    (hall : AllInOrder cfg memobjs args)
    (hstores : Interleaves args cfg.corelistSize.toNat stores) :
    latencySum (printedSamples args (sampleBlock args stores)) =
      latencySum (allRecorded cfg args) := by
  have hslots : printedSlots args = List.range (cfg.stats.toNat * cfg.corelistSize.toNat) := by
    rw [printedSlots_eq hstats hcfg (hall 0 hn).values_eq, Nat.mod_eq_of_lt hsize]
  rw [printedSamples, hslots, map_sampleBlock hsize hstats hall hstores, allRecorded,
    latencySum_flatMap, latencySum_flatMap]
  simp only [latencySum_append, latencySum_replicate, add_zero]

/-- The stores of all threads are their records. -/
theorem stores_perm (hstores : Interleaves args cfg.corelistSize.toNat stores) :
    (stores.map fun x => x.2.2).Perm (allRecorded cfg args) := by
  have hpieces : allRecorded cfg args =
      ((List.range cfg.corelistSize.toNat).flatMap fun i =>
        stores.filter fun x => x.1 = i).map fun x => x.2.2 := by
    rw [allRecorded, List.map_flatMap]
    refine List.flatMap_congr fun i hi => ?_
    rw [VmopsStats.recorded, ← List.map_reverse, ← hstores.of_thread i (List.mem_range.mp hi),
      List.map_map]
    rfl
  rw [hpieces]
  exact ((flatMap_filter_perm hstores.thread_lt).map _).symm

/-- **The block does not hold more than was recorded**, whether the slices fit or not. -/
theorem latencySum_printedSamples_le (hslots : (printedSlots args).Nodup)
    (hstores : Interleaves args cfg.corelistSize.toNat stores) :
    latencySum (printedSamples args (sampleBlock args stores)) ≤
      latencySum (allRecorded cfg args) := by
  have hpos : ∀ x ∈ (stores.map fun x => (slotOf args x, x.2.2)).map
      fun x => (x.1, latencyMs x.2), 0 ≤ x.2 := by
    intro x hx
    obtain ⟨y, -, rfl⟩ := List.mem_map.mp hx
    exact platTimeToMs_nonneg _
  calc
    latencySum (printedSamples args (sampleBlock args stores)) =
        ((printedSlots args).map fun k => latencyMs (sampleBlock args stores k)).sum := by
      rw [latencySum, printedSamples, List.map_map]
      rfl
    _ = ∑ k ∈ (printedSlots args).toFinset, latencyMs (sampleBlock args stores k) :=
      (List.sum_toFinset _ hslots).symm
    _ = ∑ k ∈ (printedSlots args).toFinset,
          filled ((stores.map fun x => (slotOf args x, x.2.2)).map fun x => (x.1, latencyMs x.2))
            (fun _ => 0) k := by
      refine Finset.sum_congr rfl fun k _ => ?_
      have hzero : latencyMs ∘ (fun _ : ℕ => zeroStat) = fun _ => 0 :=
        funext fun _ => platTimeToMs_eq_zero_iff.mpr rfl
      rw [sampleBlock_eq_filled, ← filled_map latencyMs, hzero]
    _ ≤ latencySum (stores.map fun x => x.2.2) := by
      refine (sum_filled_le hpos _).trans_eq ?_
      rw [latencySum, List.map_map, List.map_map, List.map_map]
      rfl
    _ = latencySum (allRecorded cfg args) := ((stores_perm hstores).map _).sum_eq

/-- **When a quotient of sums is the mean.** -/
theorem latIsMean_of_lat {block : ℕ → StatVal} (hcfg : (args 0).cfg = cfg)
    (hrecorded : allRecorded cfg args ≠ []) : LatIsMean cfg args block ↔ countSum cfg args ≠ 0 ∧
      latencySum (printedSamples args block) * (allRecorded cfg args).length =
        latencySum (allRecorded cfg args) * (countSum cfg args).toNat := by
  refine and_congr_right fun hcount => ?_
  have hops : ((countSum cfg args).toNat : ℚ) ≠ 0 := by
    rw [Ne, Nat.cast_eq_zero]
    exact fun hzero => hcount (BitVec.eq_of_toNat_eq hzero)
  have hlen : ((allRecorded cfg args).length : ℚ) ≠ 0 := by
    rw [Ne, Nat.cast_eq_zero, List.length_eq_zero_iff]
    exact hrecorded
  rw [lat_eq hcfg, div_eq_div_iff hops hlen]

end Block

namespace System

variable {cfg : VmopsBenchCfg} {memobjs : ℕ → PlatMemobj} {f : RunFn}
  {s : System (ℤ × (ℕ → VmopsBenchRunArg))} {args : ℕ → VmopsBenchRunArg}
  {stores : List (ℕ × SizeT × StatVal)}

/-- The sampler of every thread, and the configuration, after a run. -/
theorem reachable_allInOrder
    (hs : Reachable (vmopsUtilsRunBenchmark cfg.corelistSize (filledArgs cfg memobjs) f) s)
    (hr : s.main = .ret (0, args)) : AllInOrder cfg memobjs args ∧
      (0 < cfg.corelistSize.toNat → (args 0).cfg = cfg) := by
  constructor
  · intro i hi
    obtain ⟨t, r, -, harg, -, hrec⟩ := reachable_leavesRecords hs hr hi
    exact harg ▸ hrec.inOrder
  · intro hn
    obtain ⟨t, r, -, harg, hcfg, -⟩ := reachable_leavesRecords hs hr hn
    rw [← harg, hcfg]
    rfl

/-- A run with a record has a thread, and room for samples. -/
theorem pos_of_recorded (hall : AllInOrder cfg memobjs args)
    (hrecorded : allRecorded cfg args ≠ []) : 0 < cfg.corelistSize.toNat ∧ cfg.stats ≠ 0 := by
  constructor
  · refine Nat.pos_of_ne_zero fun hzero => hrecorded ?_
    rw [allRecorded, hzero]
    rfl
  · -- without room for samples nothing would have been recorded
    intro hzero
    refine hrecorded (List.flatMap_eq_nil_iff.mpr fun i hi => ?_)
    have hlen := (hall i (List.mem_range.mp hi)).length_le
    rw [hzero] at hlen
    exact List.length_eq_zero_iff.mp (Nat.le_zero.mp hlen)

/-- The latency and the mean, by what is counted and what is recorded. -/
theorem latIsMean_iff_counted
    (hs : Reachable (vmopsUtilsRunBenchmark cfg.corelistSize (filledArgs cfg memobjs) f) s)
    (hr : s.main = .ret (0, args)) (hrecorded : allRecorded cfg args ≠ [])
    (hstores : Interleaves args cfg.corelistSize.toNat stores) :
    LatIsMean cfg args (sampleBlock args stores) ↔ countSum cfg args ≠ 0 ∧
      if cfg.stats.toNat * cfg.corelistSize.toNat < 2 ^ 32 then
        (countSum cfg args).toNat = (allRecorded cfg args).length ∨
          ∀ c ∈ allRecorded cfg args, c.val = 0
      else latencySum (printedSamples args (sampleBlock args stores)) *
          (allRecorded cfg args).length =
        latencySum (allRecorded cfg args) * (countSum cfg args).toNat := by
  obtain ⟨hall, hcfg⟩ := reachable_allInOrder hs hr
  obtain ⟨hn, hstats⟩ := pos_of_recorded hall hrecorded
  rw [latIsMean_of_lat (hcfg hn) hrecorded]
  split
  · next hsize =>
    rw [latencySum_printedSamples hsize hstats (hcfg hn) hn hall hstores, mul_eq_mul_left_iff,
      latencySum_eq_zero_iff, Nat.cast_inj, eq_comm (a := (allRecorded cfg args).length)]
  · exact Iff.rfl

/-- **More operations are counted than recorded**, if no thread has left its run function through
an error exit: the dry runs are not recorded. -/
theorem length_allRecorded_lt
    (hs : Reachable (vmopsUtilsRunBenchmark cfg.corelistSize (filledArgs cfg memobjs) f) s)
    (hr : s.main = .ret (0, args)) (hrecorded : allRecorded cfg args ≠ [])
    (hdone : s.NoErrorExit) : (allRecorded cfg args).length <
      ((List.range cfg.corelistSize.toNat).map fun i => (args i).count.toNat).sum := by
  have hcount : ∀ i < cfg.corelistSize.toNat, (args i).stats.recorded ≠ [] →
      (args i).stats.recorded.length + 10 ≤ (args i).count.toNat := by
    intro i hi hne
    obtain ⟨t, r, ht, hp, harg, hrun⟩ := reachable_returned hs hr hi
    rw [← harg] at hne ⊢
    exact length_recorded_le_count hrun (hdone i t r ht hp) hne
  rw [allRecorded, List.length_flatMap]
  refine List.sum_lt_sum _ _ (fun i hi => ?_) ?_
  · by_cases hne : (args i).stats.recorded = []
    · rw [hne]
      exact Nat.zero_le _
    · have hle := hcount i (List.mem_range.mp hi) hne
      omega
  · obtain ⟨c, hc⟩ := List.exists_mem_of_ne_nil _ hrecorded
    obtain ⟨i, hi, hc⟩ := List.mem_flatMap.mp hc
    have hle := hcount i (List.mem_range.mp hi) (List.ne_nil_of_mem hc)
    exact ⟨i, hi, by omega⟩

/-- **The latency is too small** in a run without an error exit, unless no sample has taken any
time: it is a sum of at most the records, divided by more than their number. -/
theorem latIsMean_iff_zero
    (hs : Reachable (vmopsUtilsRunBenchmark cfg.corelistSize (filledArgs cfg memobjs) f) s)
    (hr : s.main = .ret (0, args)) (hrecorded : allRecorded cfg args ≠ [])
    (hstores : Interleaves args cfg.corelistSize.toNat stores) (hdone : s.NoErrorExit)
    (hfits : ((List.range cfg.corelistSize.toNat).map fun i => (args i).count.toNat).sum < 2 ^ 64) :
    LatIsMean cfg args (sampleBlock args stores) ↔ ∀ c ∈ allRecorded cfg args, c.val = 0 := by
  obtain ⟨hall, hcfg⟩ := reachable_allInOrder hs hr
  obtain ⟨hn, hstats⟩ := pos_of_recorded hall hrecorded
  have hslots : (printedSlots args).Nodup := by
    rw [printedSlots_eq hstats (hcfg hn) (hall 0 hn).values_eq]
    exact List.nodup_range
  have hlt : (allRecorded cfg args).length < (countSum cfg args).toNat := by
    rw [countSum, toNat_sum (by rwa [List.map_map]), List.map_map]
    exact length_allRecorded_lt hs hr hrecorded hdone
  have hprinted := latencySum_printedSamples_le hslots hstores
  have hcount : countSum cfg args ≠ 0 := fun hzero => absurd (hzero ▸ hlt) (Nat.not_lt_zero _)
  rw [latIsMean_of_lat (hcfg hn) hrecorded, and_iff_right hcount, ← latencySum_eq_zero_iff]
  have hlt : ((allRecorded cfg args).length : ℚ) < (countSum cfg args).toNat := Nat.cast_lt.mpr hlt
  have hnonneg := latencySum_nonneg (allRecorded cfg args)
  constructor
  · intro hmean
    by_contra hne
    have hpos : 0 < latencySum (allRecorded cfg args) := lt_of_le_of_ne hnonneg (Ne.symm hne)
    have hle : latencySum (printedSamples args (sampleBlock args stores)) *
        (allRecorded cfg args).length ≤
          latencySum (allRecorded cfg args) * (allRecorded cfg args).length :=
      mul_le_mul_of_nonneg_right hprinted (Nat.cast_nonneg _)
    exact absurd hmean (hle.trans_lt (mul_lt_mul_of_pos_left hlt hpos)).ne
  · intro hzero
    rw [hzero] at hprinted ⊢
    rw [le_antisymm hprinted (latencySum_nonneg _), zero_mul, zero_mul]

/-- **When the latency of the result line is the mean of the samples**: if no thread has left
through an error exit, exactly when no sample has taken any time. In general, when as many
operations are counted as samples were recorded, or no sample has taken any time; and if moreover
the slices of the threads overlap, it is a question of the samples that are left. -/
theorem latIsMean_iff
    (hs : Reachable (vmopsUtilsRunBenchmark cfg.corelistSize (filledArgs cfg memobjs) f) s)
    (hr : s.main = .ret (0, args)) (hrecorded : allRecorded cfg args ≠ [])
    (hstores : Interleaves args cfg.corelistSize.toNat stores) :
    (s.NoErrorExit →
      ((List.range cfg.corelistSize.toNat).map fun i => (args i).count.toNat).sum < 2 ^ 64 →
        (LatIsMean cfg args (sampleBlock args stores) ↔ ∀ c ∈ allRecorded cfg args, c.val = 0)) ∧
    (LatIsMean cfg args (sampleBlock args stores) ↔ countSum cfg args ≠ 0 ∧
      if cfg.stats.toNat * cfg.corelistSize.toNat < 2 ^ 32 then
        (countSum cfg args).toNat = (allRecorded cfg args).length ∨
          ∀ c ∈ allRecorded cfg args, c.val = 0
      else latencySum (printedSamples args (sampleBlock args stores)) *
          (allRecorded cfg args).length =
        latencySum (allRecorded cfg args) * (countSum cfg args).toNat) :=
  ⟨fun hdone hfits => latIsMean_iff_zero hs hr hrecorded hstores hdone hfits,
    latIsMean_iff_counted hs hr hrecorded hstores⟩

/-! ### Two runs -/

/-- One thread has come to its end, counted eleven operations, and recorded one of them. -/
def countsEleven (val : PlatTime) (s : System (ℤ × (ℕ → VmopsBenchRunArg))) : Bool :=
  ((s.threads 0).bind Thread.result?).all (fun r => r.exit = .done) &&
    s.value?.any fun r => r.1 = 0 && (r.2 0).count = 11 &&
      (r.2 0).stats.recorded.map StatVal.val = [val]

theorem exists_countsEleven (val : PlatTime) (τ : ℕ → PlatTime)
    (h : ((init sampleBenchmark).exec
      (sampledRun τ)).any (fun s => decide (countsEleven val s = true)) = true) :
    ∃ s args, Reachable sampleBenchmark s ∧ s.main = .ret (0, args) ∧ s.NoErrorExit ∧
      (args 0).count = 11 ∧ ∃ c, allRecorded oneSample args = [c] ∧ c.val = val := by
  obtain ⟨s, hs, hcounts⟩ :=
    exists_reachable_of_exec (P := fun s => countsEleven val s = true) _ h
  obtain ⟨hdone, hvalue⟩ := Bool.and_eq_true_iff.mp hcounts
  obtain ⟨⟨r, args⟩, hr, hcounts⟩ := (Option.any_eq_true _ _).mp hvalue
  obtain ⟨hfirst, hval⟩ := Bool.and_eq_true_iff.mp hcounts
  obtain ⟨hzero, hcount⟩ := Bool.and_eq_true_iff.mp hfirst
  obtain rfl : r = 0 := of_decide_eq_true hzero
  obtain ⟨c, hc, hval⟩ := List.map_eq_singleton_iff.mp (of_decide_eq_true hval)
  refine ⟨s, args, hs, value?_eq_some.mp hr, fun i t r ht hp => ?_, of_decide_eq_true hcount, c,
    ?_, hval⟩
  · -- there is no other thread
    obtain ⟨hi, -⟩ := reachable_fillArg hs ht
    obtain rfl : i = 0 := Nat.lt_one_iff.mp hi
    rw [ht, Option.bind_some, result?_eq_some.mpr hp] at hdone
    exact of_decide_eq_true hdone
  · have hall : allRecorded oneSample args = (args 0).stats.recorded ++ [] := rfl
    rw [hall, hc]
    rfl

/-- The clock stands still, and all samples are zero. -/
theorem latIsMean_still : ∃ s args stores, Reachable sampleBenchmark s ∧
    s.main = .ret (0, args) ∧ allRecorded oneSample args ≠ [] ∧ s.NoErrorExit ∧
      LatIsMean oneSample args (sampleBlock args stores) := by
  obtain ⟨s, args, hs, hr, hdone, hcount, c, hc, hval⟩ :=
    exists_countsEleven 0 (fun _ => 0) (by decide)
  have hrecorded : allRecorded oneSample args ≠ [] := by
    rw [hc]
    exact List.cons_ne_nil _ _
  refine ⟨s, args, _, hs, hr, hrecorded, hdone,
    ((latIsMean_iff hs hr hrecorded (interleaves_one args)).1 hdone ?_).mpr fun d hd => ?_⟩
  · show (args 0).count.toNat + 0 < 2 ^ 64
    rw [hcount]
    decide
  · rw [hc] at hd
    exact List.mem_singleton.mp hd ▸ hval

/-- The clock ticks: the only sample has taken a nanosecond, and the result line has an eleventh of
it. -/
theorem not_latIsMean_ticking : ∃ s args stores, Reachable sampleBenchmark s ∧
    s.main = .ret (0, args) ∧ allRecorded oneSample args ≠ [] ∧
      Interleaves args oneSample.corelistSize.toNat stores ∧
        ¬LatIsMean oneSample args (sampleBlock args stores) := by
  obtain ⟨s, args, hs, hr, -, hcount, c, hc, hval⟩ :=
    exists_countsEleven 1 (fun j => BitVec.ofNat 64 j) (by decide)
  have hsum : countSum oneSample args = (args 0).count + 0 := rfl
  have hrecorded : allRecorded oneSample args ≠ [] := by
    rw [hc]
    exact List.cons_ne_nil _ _
  obtain ⟨hall, hcfg⟩ := reachable_allInOrder hs hr
  have hstores := interleaves_one args
  refine ⟨s, args, _, hs, hr, hrecorded, hstores, fun hmean => ?_⟩
  obtain ⟨-, hmean⟩ := (latIsMean_of_lat (hcfg (by decide)) hrecorded).mp hmean
  rw [latencySum_printedSamples (by decide) (by decide) (hcfg (by decide)) (by decide) hall hstores,
    hsum, hcount, hc] at hmean
  have hone : latencySum [c] ≠ 0 := fun hzero => by
    have hc := latencySum_eq_zero_iff.mp hzero c List.mem_cons_self
    exact absurd (hval.symm.trans hc) (by decide)
  have hlen : 1 = (11 + 0 : SizeT).toNat := Nat.cast_inj.mp (mul_left_cancel₀ hone hmean)
  exact absurd hlen (by decide)

end System

end VmopsBench

import VmopsBench.Benchmarks.SampleCounters

/-!
# The sampler and a clock that is set

On Linux the clock is `CLOCK_REALTIME`, which may be set back at any time. The readings are
subtracted as unsigned words, so a reading that is less than the one before it makes for an
enormous latency, and one that is less than the first reading for an enormous time that is said to
have elapsed. The latter is a matter of the sampler too: once it has stored such a record, the next
one is due at that time or later.

The operations that are not stored may see the clock go where it likes. By
`VmopsBench.MapUnmap.survivesSteps_iff` the sampling of the map/unmap benchmark survives exactly if
the clock is not behind where it was, at the beginning of the operation and at the start, whenever
a record is stored.
-/

namespace VmopsBench

open Interact

/-! ### What is stored -/

/-- **The call will be stored**: none of the three tests of `vmops_utils_add_stats` stops it. -/
def VmopsStats.Stores (s : VmopsStats) (tElapsed : PlatTime) : Prop :=
  s.dryrun = 0 ∧ s.samplingNext ≤ tElapsed ∧ s.idx ≠ s.idxMax

instance (s : VmopsStats) (tElapsed : PlatTime) : Decidable (s.Stores tElapsed) :=
  inferInstanceAs (Decidable (_ ∧ _ ∧ _))

/-- A call that is stored. -/
theorem addStats_of_stores {s : VmopsStats} {c : StatVal} (h : s.Stores c.tElapsed) :
    vmopsUtilsAddStats s c.tid c.counter c.tElapsed c.val = s.store c := by
  rcases addStats_cases s c with ⟨hdry, -⟩ | ⟨-, hearly | hfull, -⟩ | ⟨-, -, -, heq⟩
  · exact absurd h.1 hdry
  · exact absurd h.2.1 (BitVec.not_le.mpr hearly)
  · exact absurd hfull h.2.2
  · exact heq

/-- A call that is not stored leaves the records, and the time of the next one. -/
theorem addStats_of_not_stores {s : VmopsStats} {c : StatVal} (h : ¬s.Stores c.tElapsed) :
    (vmopsUtilsAddStats s c.tid c.counter c.tElapsed c.val).recorded = s.recorded ∧
      (vmopsUtilsAddStats s c.tid c.counter c.tElapsed c.val).samplingNext = s.samplingNext := by
  rcases addStats_cases s c with ⟨-, heq⟩ | ⟨-, -, heq⟩ | ⟨hdry, hlate, hroom, -⟩
  · rw [heq]
    exact ⟨rfl, rfl⟩
  · rw [heq]
    exact ⟨rfl, rfl⟩
  · exact absurd ⟨hdry, hlate, hroom⟩ h

/-- The dry runs that are left. -/
theorem dryrun_addStats {s : VmopsStats} {c : StatVal} {d : ℕ} (hd : d < 2 ^ 64)
    (hs : s.dryrun = BitVec.ofNat 64 d) :
    (vmopsUtilsAddStats s c.tid c.counter c.tElapsed c.val).dryrun = BitVec.ofNat 64 (d - 1) := by
  have hzero : s.dryrun = 0 → s.dryrun = BitVec.ofNat 64 (d - 1) := by
    intro hdry
    have hnat : d % 2 ^ 64 = 0 := by
      rw [hs] at hdry
      exact congrArg BitVec.toNat hdry
    obtain rfl : d = 0 := by omega
    exact hs
  rcases addStats_cases s c with ⟨hdry, heq⟩ | ⟨hdry, -, heq⟩ | ⟨hdry, -, -, heq⟩
  · rw [heq]
    show s.dryrun - 1 = _
    have hpos : d ≠ 0 := by
      rintro rfl
      exact hdry hs
    obtain ⟨e, rfl⟩ : ∃ e, d = e + 1 := Nat.exists_eq_succ_of_ne_zero hpos
    rw [hs, BitVec.ofNat_add]
    simp
  · rw [heq]
    exact hzero hdry
  · rw [heq]
    exact hzero hdry

namespace MapUnmap

/-! ### The sampler of a thread -/

/-- The sampler after `k` operations, with the clock readings `t`. -/
def samplerAfter (arg : VmopsBenchRunArg) (t : ℕ → PlatTime) (k : ℕ) : VmopsStats :=
  addAllStats arg.stats (Sampling.beforeIncrement.calls arg.tid t k)

/-- The sample of the `k`-th operation. -/
abbrev sampleOf (arg : VmopsBenchRunArg) (t : ℕ → PlatTime) (k : ℕ) : StatVal :=
  Sampling.beforeIncrement.call arg.tid t k

/-- **The sample of the `k`-th operation will be stored**, by the sampler as the operation finds
it. -/
def StoresAt (arg : VmopsBenchRunArg) (t : ℕ → PlatTime) (k : ℕ) : Prop :=
  (samplerAfter arg t k).Stores (t (k + 1) - t 0)

instance (arg : VmopsBenchRunArg) (t : ℕ → PlatTime) (k : ℕ) : Decidable (StoresAt arg t k) :=
  inferInstanceAs (Decidable (VmopsStats.Stores _ _))

theorem samplerAfter_succ (arg : VmopsBenchRunArg) (t : ℕ → PlatTime) (k : ℕ) :
    samplerAfter arg t (k + 1) = vmopsUtilsAddStats (samplerAfter arg t k)
      (sampleOf arg t k).tid (sampleOf arg t k).counter (sampleOf arg t k).tElapsed
      (sampleOf arg t k).val :=
  Sampling.beforeIncrement.addAllStats_calls_succ arg.stats arg.tid t k

theorem StoresAt.samplerAfter_succ {arg : VmopsBenchRunArg} {t : ℕ → PlatTime} {k : ℕ}
    (h : StoresAt arg t k) :
    samplerAfter arg t (k + 1) = (samplerAfter arg t k).store (sampleOf arg t k) := by
  have hstores : (samplerAfter arg t k).Stores (sampleOf arg t k).tElapsed := h
  rw [MapUnmap.samplerAfter_succ, addStats_of_stores hstores]

/-- An operation without a record. -/
theorem samplerAfter_succ_of_not {arg : VmopsBenchRunArg} {t : ℕ → PlatTime} {k : ℕ}
    (h : ¬StoresAt arg t k) :
    (samplerAfter arg t (k + 1)).recorded = (samplerAfter arg t k).recorded ∧
      (samplerAfter arg t (k + 1)).samplingNext = (samplerAfter arg t k).samplingNext := by
  have hstores : ¬(samplerAfter arg t k).Stores (sampleOf arg t k).tElapsed := h
  rw [samplerAfter_succ]
  exact addStats_of_not_stores hstores

section Sampler

variable {cfg : VmopsBenchCfg} {memobj : PlatMemobj} {i : ℕ} {t : ℕ → PlatTime} {k n : ℕ}

/-- **The records** are the samples of the operations that store one. -/
theorem recorded_samplerAfter : (samplerAfter (fillArg cfg memobj i) t n).recorded =
    ((List.range n).filter fun k => StoresAt (fillArg cfg memobj i) t k).map
      (sampleOf (fillArg cfg memobj i) t) := by
  induction n with
  | zero => rfl
  | succ n ih =>
    rw [List.range_succ, List.filter_append, List.map_append, ← ih]
    by_cases h : StoresAt (fillArg cfg memobj i) t n
    · rw [h.samplerAfter_succ, recorded_store, List.filter_cons_of_pos (by simpa using h)]
      rfl
    · rw [(samplerAfter_succ_of_not h).1, List.filter_cons_of_neg (by simpa using h)]
      exact (List.append_nil _).symm

theorem mem_recorded_iff {c : StatVal} : c ∈ (samplerAfter (fillArg cfg memobj i) t n).recorded ↔
    ∃ k < n, StoresAt (fillArg cfg memobj i) t k ∧ sampleOf (fillArg cfg memobj i) t k = c := by
  simp [recorded_samplerAfter, List.mem_map, List.mem_filter, and_assoc]

/-- **When the next sample is due**: the interval after the last one. -/
theorem samplingNext_samplerAfter :
    (samplerAfter (fillArg cfg memobj i) t n).samplingNext =
      ((samplerAfter (fillArg cfg memobj i) t n).recorded.getLast?.map
        fun c => c.tElapsed + platConvertTime cfg.rate).getD 0 := by
  induction n with
  | zero => rfl
  | succ n ih =>
    by_cases h : StoresAt (fillArg cfg memobj i) t n
    · have hdelta := ((inOrder_fillArg cfg memobj i).addAllStats
        (Sampling.beforeIncrement.calls (fillArg cfg memobj i).tid t n)).delta_eq
      rw [h.samplerAfter_succ, recorded_store, List.getLast?_concat, Option.map_some,
        Option.getD_some, ← hdelta]
      rfl
    · obtain ⟨hrecorded, hnext⟩ := samplerAfter_succ_of_not h
      rw [hrecorded, hnext, ih]

theorem dryrun_samplerAfter : (samplerAfter (fillArg cfg memobj i) t n).dryrun =
    BitVec.ofNat 64 (10 - n) := by
  induction n with
  | zero => rfl
  | succ n ih =>
    rw [samplerAfter_succ, dryrun_addStats (by omega) ih]
    rfl

/-- The counter of a sample is the number of its operation. -/
theorem toNat_counter_sampleOf (arg : VmopsBenchRunArg) (t : ℕ → PlatTime) (hk : k < 2 ^ 64) :
    (sampleOf arg t k).counter.toNat = k := by
  show (BitVec.ofNat 64 k).toNat = k
  rw [BitVec.toNat_ofNat, Nat.mod_eq_of_lt hk]

/-- The records of the operations before the `k`-th. -/
theorem countP_recorded (hk : k ≤ n) (hn : n ≤ 2 ^ 64) :
    ((samplerAfter (fillArg cfg memobj i) t n).recorded.countP fun c => c.counter.toNat < k) =
      (samplerAfter (fillArg cfg memobj i) t k).recorded.length := by
  obtain ⟨m, rfl⟩ := Nat.exists_eq_add_of_le hk
  have hcounter : ∀ j < k + m, (sampleOf (fillArg cfg memobj i) t j).counter.toNat = j :=
    fun j hj => toNat_counter_sampleOf _ t (hj.trans_le hn)
  rw [recorded_samplerAfter, recorded_samplerAfter, List.length_map, List.countP_map,
    List.range_add, List.filter_append, List.countP_append, List.countP_eq_length.mpr,
    List.countP_eq_zero.mpr, Nat.add_zero]
  · -- the later ones
    intro j hj
    obtain ⟨e, he, rfl⟩ := List.mem_map.mp (List.mem_filter.mp hj).1
    have he := List.mem_range.mp he
    rw [Function.comp_apply, hcounter _ (by omega), decide_eq_true_eq]
    omega
  · intro j hj
    have hj := List.mem_range.mp (List.mem_filter.mp hj).1
    rw [Function.comp_apply, hcounter j (by omega), decide_eq_true_eq]
    exact hj

end Sampler

/-! ### The readings -/

/-- The largest of the readings minus the smallest, over the first `n` operations. -/
def spread (r : ℕ → ℕ) (n : ℕ) : ℕ :=
  (Finset.range (n + 1)).sup r - (Finset.range (n + 1)).inf' Finset.nonempty_range_add_one r

section Spread

variable {r : ℕ → ℕ} {n : ℕ}

theorem sub_le_spread {j k : ℕ} (hj : j ≤ n) (hk : k ≤ n) : r j - r k ≤ spread r n := by
  have hsup : r j ≤ (Finset.range (n + 1)).sup r :=
    Finset.le_sup (Finset.mem_range.mpr (Nat.lt_succ_of_le hj))
  have hinf : (Finset.range (n + 1)).inf' Finset.nonempty_range_add_one r ≤ r k :=
    Finset.inf'_le r (Finset.mem_range.mpr (Nat.lt_succ_of_le hk))
  exact tsub_le_tsub hsup hinf

theorem spread_lt (hr : ∀ k, r k < 2 ^ 63) : spread r n < 2 ^ 63 :=
  (Nat.sub_le _ _).trans_lt ((Finset.sup_lt_iff (by decide)).mpr fun k _ => hr k)

/-- **A difference of readings** stays within the spread exactly if the later one is not less. -/
theorem toNat_sub_le_spread_iff (hr : ∀ k, r k < 2 ^ 63) {j k : ℕ} (hj : j ≤ n) (hk : k ≤ n) :
    (BitVec.ofNat 64 (r j) - BitVec.ofNat 64 (r k)).toNat ≤ spread r n ↔ r k ≤ r j := by
  have hlt := hr j
  have hlt' := hr k
  have hspread := spread_lt (n := n) hr
  have hsub := sub_le_spread (r := r) hj hk
  rw [BitVec.toNat_sub, BitVec.toNat_ofNat, BitVec.toNat_ofNat]
  omega

end Spread

/-! ### Runs -/

/-- **The clock is read off `t`**, the ghost state being the number of readings. Any call may
fail. -/
def readOff (t : ℕ → PlatTime) : Spec threadSig ℕ where
  pre _ _ := True
  env g c r := c.readsOff t g r
  upd g c _ := c.readingsAfter g

theorem after_readOff (t : ℕ → PlatTime) (g : ℕ) (tr : List (Event threadSig)) :
    (readOff t).after g tr = g + readings tr := by
  induction tr generalizing g with
  | nil => rfl
  | cons e tr ih =>
    have hstep : e.call.readingsAfter g = g + if e.call = .getTime then 1 else 0 := by
      obtain ⟨c, r⟩ := e
      cases c <;> rfl
    show (readOff t).after (e.call.readingsAfter g) tr = _
    rw [ih, hstep, readings, readings, List.countP_cons]
    simp only [decide_eq_true_eq]
    omega

/-- If no call fails, the clock is read off it all the same. -/
theorem admits_readOff {t : ℕ → PlatTime} {g : ℕ} {tr : List (Event threadSig)}
    (h : (clocked t).Admits g tr) : (readOff t).Admits g tr := by
  induction tr generalizing g with
  | nil => trivial
  | cons e tr ih => exact ⟨h.1.2, ih h.2⟩

/-- **The operations that a thread has completed**: the clock is read after each of them, once
before the first, and once more if the thread comes to the end of its run function. -/
def operationsMade (tr : List (Event threadSig)) (res : RunResult) : ℕ :=
  readings tr - if res.exit = .done then 2 else 1

section Loop

variable {arg : VmopsBenchRunArg} {t : ℕ → PlatTime}

/-- The operation does not read the clock. -/
theorem wp_mapUnmapOp_readOff (v : Unit) (g : ℕ) :
    wp (readOff t) (mapUnmapOp arg v) (fun _ g' => g' = g) g := by
  rw [mapUnmapOp]
  split
  · refine ⟨trivial, fun (ok : Bool) _ => ?_⟩
    cases ok with
    | false => rfl
    | true => exact ⟨trivial, fun (ok : Bool) _ => by cases ok <;> rfl⟩
  · refine ⟨trivial, fun (addr : Option Addr) _ => ?_⟩
    cases addr with
    | none => rfl
    | some addr => exact ⟨trivial, fun (ok : Bool) _ => by cases ok <;> rfl⟩

/-- What the timed loop leaves behind, on whichever path: the sampler after `k` operations, when the
clock has been read for these and before them. -/
def LoopLeaves (arg : VmopsBenchRunArg) (t : ℕ → PlatTime) (s : LoopState Unit) (g : ℕ) : Prop :=
  ∃ k < 2 ^ 64, g = k + 1 ∧ s.stats = samplerAfter arg t k

/-- What a thread leaves behind, which has read the clock once more if it has come to its end. -/
def LeavesSampler (arg : VmopsBenchRunArg) (t : ℕ → PlatTime) (res : RunResult) (g : ℕ) : Prop :=
  ∃ k < 2 ^ 64, (g = k + if res.exit = .done then 2 else 1) ∧
    res.arg.stats = samplerAfter arg t k

theorem wp_timedLoop_readOff {tEnd : PlatTime} :
    wp (readOff t) (timedLoop arg.tid .beforeIncrement (t 0) tEnd (opsLimit sizeMax arg.cfg)
        (mapUnmapOp arg) { tCurrent := t 0, counter := 0, stats := arg.stats, vars := () })
      (onExcept (LoopLeaves arg t) (LoopLeaves arg t)) 1 := by
  refine wp_timedLoop (fun s g => ∃ k ≤ (opsLimit sizeMax arg.cfg).toNat, g = k + 1 ∧
    AfterTurns arg .beforeIncrement t k s) ⟨0, Nat.zero_le _, rfl, rfl, rfl, rfl⟩ ?_ ?_
  · rintro s - ⟨k, hk, rfl, hs⟩ hrunning
    have hlt : k < 2 ^ 64 := hk.trans_lt (opsLimit sizeMax arg.cfg).isLt
    have hcounter : s.counter < opsLimit sizeMax arg.cfg :=
      of_decide_eq_true (Bool.and_eq_true_iff.mp hrunning).2
    rw [hs.counter_eq, BitVec.lt_def, BitVec.toNat_ofNat, Nat.mod_eq_of_lt hlt] at hcounter
    refine wp_mono _ (fun o g' ho => ?_) (wp_mapUnmapOp_readOff s.vars (k + 1))
    obtain rfl : g' = k + 1 := ho
    cases o with
    | error v => exact ⟨k, hlt, rfl, hs.stats_eq⟩
    | ok v =>
      refine ⟨trivial, fun r henv => ⟨k + 1, hcounter, rfl, ?_⟩⟩
      obtain rfl : r = t (k + 1) := henv
      exact hs.next v
  · rintro s g ⟨k, hk, hg, hs⟩ -
    exact ⟨k, hk.trans_lt (opsLimit sizeMax arg.cfg).isLt, hg, hs.stats_eq⟩

theorem wp_benchRunFn_readOff : wp (readOff t) (benchRunFn arg) (LeavesSampler arg t) 0 := by
  refine wp_perform_bind.mpr ⟨trivial, fun _ _ => wp_perform_bind.mpr
    ⟨trivial, fun (tCurrent : PlatTime) henv => ?_⟩⟩
  obtain rfl : tCurrent = t 0 := henv
  refine (wp_bind _ _).mpr (wp_mono _ (fun o g ho => ?_) wp_timedLoop_readOff)
  cases o with
  | error s =>
    obtain ⟨k, hk, hg, hstats⟩ := ho
    exact ⟨k, hk, hg, hstats⟩
  | ok s =>
    obtain ⟨k, hk, rfl, hstats⟩ := ho
    exact ⟨trivial, fun _ _ => ⟨trivial, fun _ _ => ⟨k, hk, rfl, hstats⟩⟩⟩

/-- **The sampler after a run** is the one after the operations that were completed. -/
theorem stats_of_run {tr : List (Event threadSig)} {res : RunResult}
    (hrun : Run (platThreadRunFn .mapunmap arg) tr (.ret res)) (henv : (readOff t).Admits 0 tr) :
    operationsMade tr res < 2 ^ 64 ∧
      res.arg.stats = samplerAfter arg t (operationsMade tr res) := by
  have hwp : wp (readOff t) (platThreadRunFn .mapunmap arg) (LeavesSampler arg t) 0 :=
    ⟨trivial, fun _ _ => wp_benchRunFn_readOff⟩
  obtain ⟨k, hk, hg, hstats⟩ := (wp_run hrun hwp henv).2
  rw [after_readOff, Nat.zero_add] at hg
  have hmade : operationsMade tr res = k := by
    rw [operationsMade, hg, Nat.add_sub_cancel]
  exact hmade ▸ ⟨hk, hstats⟩

end Loop

/-- **The sampling survives** the readings `r`, in nanoseconds, of a thread that has completed `n`
operations. The counter of a record is the number of its operation, the first one being `0`. -/
structure SurvivesSteps (cfg : VmopsBenchCfg) (r : ℕ → ℕ) (n : ℕ) (res : RunResult) : Prop where
  /-- No record says more than the clock has shown. -/
  le_spread : ∀ c ∈ res.arg.stats.recorded,
    c.val.toNat ≤ spread r n ∧ c.tElapsed.toNat ≤ spread r n
  /-- An operation after the dry runs is recorded, if it ends no earlier than the start and late
  enough for all records before it, and there is room. -/
  due : ∀ k < n, 10 ≤ k → r 0 ≤ r (k + 1) →
    (∀ c ∈ res.arg.stats.recorded, c.counter.toNat < k →
      r (c.counter.toNat + 1) + samplingInterval cfg ≤ r (k + 1)) →
    (res.arg.stats.recorded.countP fun c => c.counter.toNat < k) < cfg.stats.toNat →
    ∃ c ∈ res.arg.stats.recorded, c.counter.toNat = k

section Runs

variable {cfg : VmopsBenchCfg} {memobj : PlatMemobj} {i : ℕ} {r : ℕ → ℕ} {k : ℕ}

/-- The readings as words. -/
abbrev wordsOf (r : ℕ → ℕ) : ℕ → PlatTime := fun k => BitVec.ofNat 64 (r k)

/-- **The clock is not behind** when a record is stored. -/
def AheadWhenStoring (cfg : VmopsBenchCfg) (memobj : PlatMemobj) (i : ℕ) (r : ℕ → ℕ) (k : ℕ) :
    Prop :=
  StoresAt (fillArg cfg memobj i) (wordsOf r) k → r k ≤ r (k + 1) ∧ r 0 ≤ r (k + 1)

/-- **An operation that is due is stored**, if the clock has never been behind at a record. -/
theorem storesAt_of_due (hr : ∀ k, r k < 2 ^ 63)
    (hahead : ∀ j < k, AheadWhenStoring cfg memobj i r j) (hdry : 10 ≤ k) (hstart : r 0 ≤ r (k + 1))
    (hlate : ∀ j < k, StoresAt (fillArg cfg memobj i) (wordsOf r) j →
      r (j + 1) + samplingInterval cfg ≤ r (k + 1))
    (hroom : (samplerAfter (fillArg cfg memobj i) (wordsOf r) k).recorded.length <
      cfg.stats.toNat) : StoresAt (fillArg cfg memobj i) (wordsOf r) k := by
  have horder : InOrder cfg _ (samplerAfter (fillArg cfg memobj i) (wordsOf r) k) :=
    (inOrder_fillArg cfg memobj i).addAllStats _
  refine ⟨?_, ?_, fun hfull => hroom.ne (horder.idx_eq_idxMax.mp hfull)⟩
  · rw [dryrun_samplerAfter, Nat.sub_eq_zero_of_le hdry]
    rfl
  · rw [samplingNext_samplerAfter]
    cases hlast : (samplerAfter (fillArg cfg memobj i) (wordsOf r) k).recorded.getLast? with
    | none => exact BitVec.not_lt.mp BitVec.not_lt_zero
    | some c =>
      -- the record was made with the clock ahead of the start, so neither difference has wrapped
      obtain ⟨j, hj, hstores, rfl⟩ := mem_recorded_iff.mp (List.mem_of_getLast? hlast)
      have hjstart := (hahead j hj hstores).2
      have hdelta := samplingInterval_lt cfg
      have hdue := hlate j hj hstores
      have hlt := hr (k + 1)
      have hinterval : (platConvertTime cfg.rate).toNat = samplingInterval cfg := rfl
      rw [Option.map_some, Option.getD_some, BitVec.le_def, BitVec.toNat_add, hinterval]
      show ((BitVec.ofNat 64 (r (j + 1)) - BitVec.ofNat 64 (r 0)).toNat + _) % _ ≤
        (BitVec.ofNat 64 (r (k + 1)) - BitVec.ofNat 64 (r 0)).toNat
      simp only [BitVec.toNat_sub, BitVec.toNat_ofNat]
      omega

/-- **When the sampling survives** a clock that is set: when the clock is not behind at any
record. -/
theorem survivesSteps_iff (hr : ∀ k, r k < 2 ^ 63) {tr : List (Event threadSig)} {res : RunResult}
    (hrun : Run (platThreadRunFn .mapunmap (fillArg cfg memobj i)) tr (.ret res))
    (henv : (readOff (wordsOf r)).Admits 0 tr) :
    SurvivesSteps cfg r (operationsMade tr res) res ↔
      ∀ k < operationsMade tr res, AheadWhenStoring cfg memobj i r k := by
  obtain ⟨hlt, hstats⟩ := stats_of_run hrun henv
  have hcounter : ∀ k < operationsMade tr res,
      (sampleOf (fillArg cfg memobj i) (wordsOf r) k).counter.toNat = k :=
    fun k hk => toNat_counter_sampleOf _ _ (hk.trans hlt)
  constructor
  · intro h k hk hstores
    have hmem : sampleOf (fillArg cfg memobj i) (wordsOf r) k ∈ res.arg.stats.recorded := by
      rw [hstats]
      exact mem_recorded_iff.mpr ⟨k, hk, hstores, rfl⟩
    obtain ⟨hval, helapsed⟩ := h.le_spread _ hmem
    exact ⟨(toNat_sub_le_spread_iff hr hk hk.le).mp hval,
      (toNat_sub_le_spread_iff hr hk (Nat.zero_le _)).mp helapsed⟩
  · intro hahead
    refine ⟨fun c hc => ?_, fun k hk hdry hstart hlate hroom => ?_⟩
    · rw [hstats] at hc
      obtain ⟨k, hk, hstores, rfl⟩ := mem_recorded_iff.mp hc
      obtain ⟨hop, hstart⟩ := hahead k hk hstores
      exact ⟨(toNat_sub_le_spread_iff hr hk hk.le).mpr hop,
        (toNat_sub_le_spread_iff hr hk (Nat.zero_le _)).mpr hstart⟩
    · rw [hstats] at hlate hroom ⊢
      rw [countP_recorded hk.le hlt.le] at hroom
      have hstores : StoresAt (fillArg cfg memobj i) (wordsOf r) k := by
        refine storesAt_of_due hr (fun j hj => hahead j (hj.trans hk)) hdry hstart
          (fun j hj hstores => ?_) hroom
        have hmem := mem_recorded_iff.mpr ⟨j, hj.trans hk, hstores, rfl⟩
        have hdue := hlate _ hmem
        rw [hcounter j (hj.trans hk)] at hdue
        exact hdue hj
      exact ⟨_, mem_recorded_iff.mpr ⟨k, hk, hstores, rfl⟩, hcounter k hk⟩

/-- The clock is set back by five nanoseconds while the third operation is made. -/
def setBackEarly (k : ℕ) : ℕ := if k = 3 then 0 else 5

/-- That operation is a dry run, and not recorded. -/
theorem survivesSteps_setBackEarly : ∃ tr res,
    Run (platThreadRunFn .mapunmap (fillArg elevenOps 1 0)) tr (.ret res) ∧
      SurvivesSteps elevenOps setBackEarly (operationsMade tr res) res := by
  obtain ⟨tr, res, hrun, henv, -⟩ :=
    exists_run_mapunmap (fillArg elevenOps 1 0) (wordsOf setBackEarly)
  have hle : ∀ k, setBackEarly k ≤ 5 := by
    intro k
    rw [setBackEarly]
    split <;> decide
  refine ⟨tr, res, hrun, (survivesSteps_iff (fun k => (hle k).trans_lt (by decide)) hrun
    (admits_readOff henv)).mpr fun k _ hstores => ?_⟩
  have hdry : (samplerAfter (fillArg elevenOps 1 0) (wordsOf setBackEarly) k).dryrun = 0 :=
    hstores.1
  rw [dryrun_samplerAfter] at hdry
  have hturns : 10 - k = 0 := by
    have hword := congrArg BitVec.toNat hdry
    rw [BitVec.toNat_ofNat, Nat.mod_eq_of_lt (by omega)] at hword
    exact hword
  have hlate : setBackEarly (k + 1) = 5 := if_neg (by omega)
  rw [hlate]
  exact ⟨hle k, hle 0⟩

/-- The clock is set back by five nanoseconds while the eleventh operation is made. -/
def setBack (k : ℕ) : ℕ := if k = 11 then 0 else 5

/-- The operation is recorded with a latency of more than five hundred years. -/
theorem not_survivesSteps_setBack : ∃ tr res,
    Run (platThreadRunFn .mapunmap (fillArg elevenOps 1 0)) tr (.ret res) ∧
      (readOff (wordsOf setBack)).Admits 0 tr ∧ res.exit = .done ∧
        ¬SurvivesSteps elevenOps setBack (operationsMade tr res) res := by
  obtain ⟨tr, res, hrun, henv, hfinished⟩ :=
    exists_run_mapunmap (fillArg elevenOps 1 0) (wordsOf setBack)
  have hr : ∀ k, setBack k < 2 ^ 63 := by
    intro k
    rw [setBack]
    split <;> decide
  have hturns : turnsMade sizeMax elevenOps (wordsOf setBack) = 11 :=
    (Nat.find_eq_iff _).mpr ⟨by decide, by decide⟩
  refine ⟨tr, res, hrun, admits_readOff henv, hfinished.exit_eq, fun hsurvives => ?_⟩
  have hstats : res.arg.stats = samplerAfter (fillArg elevenOps 1 0) (wordsOf setBack)
      (turnsMade sizeMax elevenOps (wordsOf setBack)) := hfinished.stats_eq
  have hmem : sampleOf (fillArg elevenOps 1 0) (wordsOf setBack) 10 ∈ res.arg.stats.recorded := by
    rw [hstats, hturns]
    exact mem_recorded_iff.mpr ⟨10, by decide, by decide, rfl⟩
  have hval := (hsurvives.le_spread _ hmem).1
  -- five nanoseconds are the most that these readings can differ by
  have hspread : spread setBack (operationsMade tr res) ≤ 5 :=
    (Nat.sub_le _ _).trans (Finset.sup_le fun k _ => by rw [setBack]; split <;> decide)
  exact absurd (hval.trans hspread) (by decide)

end Runs

end MapUnmap

end VmopsBench

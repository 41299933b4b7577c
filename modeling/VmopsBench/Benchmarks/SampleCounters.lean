import VmopsBench.Benchmarks.ClockedRuns

/-!
# The counter of a sample

A sample is printed with the "number of operations so far on this thread". The map-only and the
elevate function increment the counter before they sample, and the map/unmap and the shootdown
function do it afterwards, so that in these two the operation that is sampled does not count.

The counter plays no part in what the sampler keeps. So the two kinds of functions, given the same
readings, keep samples of the same operations, and their records differ in the counter throughout:
`VmopsBench.countsCompleted_iff`.
-/

namespace VmopsBench

open Interact

/-! ### Another counter -/

/-- The same record with another counter. -/
def StatVal.recount (g : BitVec 64 → BitVec 64) (c : StatVal) : StatVal :=
  { c with counter := g c.counter }

/-- The same sampler with other counters in its records. -/
def VmopsStats.recount (g : BitVec 64 → BitVec 64) (s : VmopsStats) : VmopsStats :=
  { s with writes := s.writes.map fun w => (w.1, w.2.recount g) }

section Recount

variable {g : BitVec 64 → BitVec 64}

theorem recorded_recount (s : VmopsStats) :
    (s.recount g).recorded = s.recorded.map (StatVal.recount g) := by
  simp [VmopsStats.recorded, VmopsStats.recount, Function.comp_def]

/-- The sampler does not look at the counter. -/
theorem addStats_recount (s : VmopsStats) (c : StatVal) :
    vmopsUtilsAddStats (s.recount g) c.tid (g c.counter) c.tElapsed c.val =
      (vmopsUtilsAddStats s c.tid c.counter c.tElapsed c.val).recount g := by
  rw [vmopsUtilsAddStats, vmopsUtilsAddStats, apply_ite (VmopsStats.recount g),
    apply_ite (VmopsStats.recount g), apply_ite (VmopsStats.recount g)]
  rfl

theorem addAllStats_recount (s : VmopsStats) (calls : List StatVal) :
    addAllStats (s.recount g) (calls.map (StatVal.recount g)) =
      (addAllStats s calls).recount g := by
  induction calls using List.reverseRecOn with
  | nil => rfl
  | append_singleton calls c ih =>
    rw [List.map_append, List.map_singleton, addAllStats_append_singleton,
      addAllStats_append_singleton, ih]
    exact addStats_recount _ c

end Recount

/-! ### The first sample -/

/-- What is recorded stays recorded. -/
theorem recorded_prefix_addAllStats (s : VmopsStats) (calls : List StatVal) :
    s.recorded <+: (addAllStats s calls).recorded := by
  induction calls using List.reverseRecOn with
  | nil => exact List.prefix_rfl
  | append_singleton calls c ih =>
    rw [addAllStats_append_singleton]
    rcases addStats_cases (addAllStats s calls) c with ⟨-, heq⟩ | ⟨-, -, heq⟩ | ⟨-, -, -, heq⟩
    · rw [heq]
      exact ih
    · rw [heq]
      exact ih
    · rw [heq, recorded_store]
      exact ih.trans (List.prefix_append _ _)

/-- The first calls are dry runs. -/
theorem addAllStats_dryRuns {s : VmopsStats} {d : ℕ} (hd : d < 2 ^ 64)
    (hs : s.dryrun = BitVec.ofNat 64 d) {calls : List StatVal} (h : calls.length ≤ d) :
    addAllStats s calls = { s with dryrun := BitVec.ofNat 64 (d - calls.length) } := by
  induction calls using List.reverseRecOn with
  | nil => rw [List.length_nil, Nat.sub_zero, ← hs, addAllStats_nil]
  | append_singleton calls c ih =>
    rw [List.length_append, List.length_singleton] at h ⊢
    have hleft : d - calls.length = d - (calls.length + 1) + 1 := by omega
    have hdry : BitVec.ofNat 64 (d - calls.length) ≠ 0 := by
      intro hzero
      have hnat : (d - calls.length) % 2 ^ 64 = 0 := congrArg BitVec.toNat hzero
      rw [Nat.mod_eq_of_lt (by omega)] at hnat
      omega
    rw [addAllStats_append_singleton, ih (by omega), vmopsUtilsAddStats, if_pos hdry, hleft,
      BitVec.ofNat_add]
    simp

section First

variable {cfg : VmopsBenchCfg} {memobj : PlatMemobj} {i : ℕ}

/-- **The eleventh call is recorded**, if there is room for anything. -/
theorem recorded_eleventh (hstats : cfg.stats ≠ 0) {calls : List StatVal}
    (hlen : calls.length = 10) (c : StatVal) :
    (addAllStats (fillArg cfg memobj i).stats (calls ++ [c])).recorded = [c] := by
  have hroom : (0 : SizeT) ≠ cfg.stats.setWidth 64 := by
    intro heq
    have hnat := congrArg BitVec.toNat heq
    rw [BitVec.toNat_setWidth, Nat.mod_eq_of_lt (cfg.stats.isLt.trans (by decide))] at hnat
    exact hstats (BitVec.eq_of_toNat_eq hnat.symm)
  have hstate := addAllStats_dryRuns (s := (fillArg cfg memobj i).stats) (by decide) rfl hlen.le
  rw [addAllStats_append_singleton]
  rcases addStats_cases (addAllStats (fillArg cfg memobj i).stats calls) c with
    ⟨hdry, -⟩ | ⟨-, hearly | hfull, -⟩ | ⟨-, -, -, heq⟩
  · rw [hstate, hlen] at hdry
    exact absurd rfl hdry
  · rw [hstate] at hearly
    exact absurd hearly BitVec.not_lt_zero
  · rw [hstate] at hfull
    exact absurd hfull hroom
  · rw [heq, recorded_store, hstate]
    rfl

/-- **Something is recorded** as soon as there has been a call after the tenth. -/
theorem recorded_eq_nil_iff {calls : List StatVal} :
    (addAllStats (fillArg cfg memobj i).stats calls).recorded = [] ↔
      cfg.stats = 0 ∨ calls.length ≤ 10 := by
  constructor
  · intro hnil
    by_contra hnot
    obtain ⟨hstats, hlen⟩ := not_or.mp hnot
    -- the first call after the dry runs is stored, and what comes later only adds to it
    have hlt : 10 < calls.length := Nat.lt_of_not_le hlen
    have hsplit : calls = calls.take 10 ++ [calls[10]] ++ calls.drop 11 := by
      rw [List.append_assoc, List.singleton_append, ← List.drop_eq_getElem_cons,
        List.take_append_drop]
    have hfirst : (addAllStats (fillArg cfg memobj i).stats
        (calls.take 10 ++ [calls[10]])).recorded = [calls[10]] :=
      recorded_eleventh hstats (List.length_take_of_le hlt.le) _
    rw [hsplit, addAllStats_append] at hnil
    have hprefix := recorded_prefix_addAllStats
      (addAllStats (fillArg cfg memobj i).stats (calls.take 10 ++ [calls[10]])) (calls.drop 11)
    rw [hnil, hfirst] at hprefix
    exact List.cons_ne_nil _ _ (List.prefix_nil.mp hprefix)
  · rintro (hstats | hlen)
    · have hle := ((inOrder_fillArg cfg memobj i).addAllStats calls).length_le
      rw [hstats] at hle
      exact List.length_eq_zero_iff.mp (Nat.le_zero.mp hle)
    · rw [addAllStats_dryRuns (by decide) rfl hlen]
      rfl

end First

/-! ### The counters of a run -/

/-- The record of the `k`-th operation, with the number of operations that are completed then. -/
def completedCall (tid : BitVec 32) (t : ℕ → PlatTime) (k : ℕ) : StatVal :=
  ⟨tid, t (k + 1) - t 0, BitVec.ofNat 64 (k + 1), t (k + 1) - t k⟩

/-- **Every sample counts the operations completed**, itself included: the records are those of a
sampler that is handed this number after every operation. -/
def CountsCompleted (arg : VmopsBenchRunArg) (t : ℕ → PlatTime) (r : RunResult) : Prop :=
  r.arg.stats.recorded = (addAllStats arg.stats
    ((List.range r.arg.count.toNat).map (completedCall arg.tid t))).recorded

/-- A counter that is ahead by one is never the same. -/
theorem map_recount_succ_eq_iff {cs : List StatVal} :
    cs = cs.map (StatVal.recount (· + 1)) ↔ cs = [] := by
  constructor
  · intro h
    cases cs with
    | nil => rfl
    | cons c cs =>
      have hcounter : c.counter = c.counter + 1 :=
        congrArg StatVal.counter (List.cons.inj h).1
      exact absurd hcounter (by simp)
  · rintro rfl
    rfl

/-- The records of a function that samples before it increments its counter. -/
theorem completedCalls_eq (tid : BitVec 32) (t : ℕ → PlatTime) (n : ℕ) :
    (List.range n).map (completedCall tid t) =
      (Sampling.beforeIncrement.calls tid t n).map (StatVal.recount (· + 1)) := by
  rw [Sampling.calls, List.map_map]
  refine List.map_congr_left fun k _ => ?_
  rw [completedCall, BitVec.ofNat_add]
  rfl

section Runs

variable {cfg : VmopsBenchCfg} {memobj : PlatMemobj} {i : ℕ} {dflt : SizeT} {t : ℕ → PlatTime}
  {r : RunResult}

theorem Finished.toNat_count {arg : VmopsBenchRunArg} {sampling : Sampling}
    (h : Finished arg dflt sampling t r) : r.arg.count.toNat = turnsMade dflt arg.cfg t := by
  rw [h.count_eq, BitVec.toNat_ofNat]
  exact Nat.mod_eq_of_lt (turnsMade_lt _ _ _)

/-- A function that increments its counter first. -/
theorem Finished.countsCompleted {arg : VmopsBenchRunArg}
    (h : Finished arg dflt .afterIncrement t r) : CountsCompleted arg t r := by
  rw [CountsCompleted, h.stats_eq, h.toNat_count]
  have hcalls : (List.range (turnsMade dflt arg.cfg t)).map (completedCall arg.tid t) =
      Sampling.afterIncrement.calls arg.tid t (turnsMade dflt arg.cfg t) := by
    rw [Sampling.calls]
    refine List.map_congr_left fun k _ => ?_
    rw [completedCall, BitVec.ofNat_add]
    rfl
  rw [hcalls]

/-- A function that increments its counter afterwards. -/
theorem Finished.countsCompleted_before
    (h : Finished (fillArg cfg memobj i) dflt .beforeIncrement t r) :
    CountsCompleted (fillArg cfg memobj i) t r ↔
      cfg.stats = 0 ∨ turnsMade dflt cfg t ≤ 10 := by
  have hstart : (fillArg cfg memobj i).stats.recount (· + 1) = (fillArg cfg memobj i).stats := rfl
  -- the sampler does not look at the counters that it stores
  have hideal : (addAllStats (fillArg cfg memobj i).stats
      ((List.range r.arg.count.toNat).map (completedCall (fillArg cfg memobj i).tid t))).recorded =
        r.arg.stats.recorded.map (StatVal.recount (· + 1)) := by
    rw [completedCalls_eq, ← recorded_recount, h.stats_eq, ← addAllStats_recount, hstart,
      h.toNat_count]
  rw [CountsCompleted, hideal, map_recount_succ_eq_iff, h.stats_eq, recorded_eq_nil_iff,
    Sampling.calls, List.length_map, List.length_range]
  rfl

end Runs

/-- **Which samples count the operations completed**: those of the functions that increment their
counter first; and there may be no samples at all. -/
theorem countsCompleted_iff {f : RunFn} {cfg : VmopsBenchCfg} {memobj : PlatMemobj} {i : ℕ}
    (hf : f ∈ [.mapunmap, .nounmap, .elevate, .tlbshoot])
    (htid : f = .tlbshoot → (fillArg cfg memobj i).tid = 0) {t : ℕ → PlatTime}
    {tr : List (Event threadSig)} {r : RunResult}
    (hrun : Run (platThreadRunFn f (fillArg cfg memobj i)) tr (.ret r))
    (henv : (clocked t).Admits 0 tr) (hdone : r.exit = .done) :
    CountsCompleted (fillArg cfg memobj i) t r ↔ (f = .nounmap ∨ f = .elevate) ∨ cfg.stats = 0 ∨
      ∃ k ≤ 10, goesOn f.dfltOps cfg t k = false := by
  have hfinished := finished_of_run (Decidable.not_or_of_imp htid) hrun henv hdone
  rw [← Nat.find_le_iff (exists_not_goesOn f.dfltOps cfg t)]
  have hmember : f.sampling = .afterIncrement ∧ (f = .nounmap ∨ f = .elevate) ∨
      f.sampling = .beforeIncrement ∧ ¬(f = .nounmap ∨ f = .elevate) := by
    cases f <;> simp [RunFn.sampling] at hf ⊢
  rcases hmember with ⟨hsampling, hmember⟩ | ⟨hsampling, hmember⟩
  · rw [hsampling] at hfinished
    exact iff_of_true hfinished.countsCompleted (.inl hmember)
  · rw [hsampling] at hfinished
    exact hfinished.countsCompleted_before.trans (or_iff_right hmember).symm

/-- The map/unmap and the map-only function record the same samples only if there are none. -/
theorem sameSamples_iff {cfg : VmopsBenchCfg} {memobj : PlatMemobj} {i : ℕ} {t : ℕ → PlatTime}
    {tr tr' : List (Event threadSig)} {r r' : RunResult}
    (hrun : Run (platThreadRunFn .mapunmap (fillArg cfg memobj i)) tr (.ret r))
    (henv : (clocked t).Admits 0 tr) (hdone : r.exit = .done)
    (hrun' : Run (platThreadRunFn .nounmap (fillArg cfg memobj i)) tr' (.ret r'))
    (henv' : (clocked t).Admits 0 tr') (hdone' : r'.exit = .done) :
    r.arg.stats.recorded = r'.arg.stats.recorded ↔
      cfg.stats = 0 ∨ turnsMade sizeMax cfg t ≤ 10 := by
  have hfinished := finished_of_run (.inl (by decide)) hrun henv hdone
  have hfinished' := finished_of_run (.inl (by decide)) hrun' henv' hdone'
  have hcount : r'.arg.count = r.arg.count := hfinished'.count_eq.trans hfinished.count_eq.symm
  have hright : CountsCompleted (fillArg cfg memobj i) t r' := hfinished'.countsCompleted
  rw [CountsCompleted, hcount] at hright
  rw [hright]
  exact hfinished.countsCompleted_before

/-- One thread with room for one sample, and one operation after the dry runs. -/
def elevenOps : VmopsBenchCfg := { oneThread with stats := 1, nops := 11 }

/-- A run of eleven operations, while the clock stands still. -/
theorem exists_elevenOps (f : RunFn) (counter : BitVec 64)
    (h : yields (S := threadSig) ThreadCall.succeed 80 (platThreadRunFn f (fillArg elevenOps 1 0))
      (fun _ r => decide (r.exit = .done ∧ r.arg.count = 11 ∧
        r.arg.stats.recorded.map StatVal.counter = [counter])) = true) :
    ∃ tr r, Run (platThreadRunFn f (fillArg elevenOps 1 0)) tr (.ret r) ∧
      (clocked fun _ => 0).Admits 0 tr ∧ r.exit = .done ∧ r.arg.count = 11 ∧
        r.arg.stats.recorded.map StatVal.counter = [counter] := by
  refine exists_admitted_of_yields (fun g c => ?_) 0 80 h
  cases c <;> exact ⟨rfl, by trivial⟩

theorem countsCompleted_elevenOps : ∃ tr r,
    Run (platThreadRunFn .nounmap (fillArg elevenOps 1 0)) tr (.ret r) ∧
      CountsCompleted (fillArg elevenOps 1 0) (fun _ => 0) r ∧ r.arg.stats.recorded ≠ [] := by
  obtain ⟨tr, r, hrun, henv, hdone, -, hcounter⟩ :=
    exists_elevenOps .nounmap 11 (by decide)
  refine ⟨tr, r, hrun, (countsCompleted_iff (by simp) (by simp) hrun henv hdone).mpr
    (.inl (.inl rfl)), ?_⟩
  rintro hnil
  rw [hnil] at hcounter
  cases hcounter

/-- The eleventh operation is recorded as the tenth. -/
theorem not_countsCompleted_elevenOps : ∃ tr r,
    Run (platThreadRunFn .mapunmap (fillArg elevenOps 1 0)) tr (.ret r) ∧
      (clocked fun _ => 0).Admits 0 tr ∧ r.exit = .done ∧
        ¬CountsCompleted (fillArg elevenOps 1 0) (fun _ => 0) r := by
  obtain ⟨tr, r, hrun, henv, hdone, hcount, hcounter⟩ :=
    exists_elevenOps .mapunmap 10 (by decide)
  refine ⟨tr, r, hrun, henv, hdone, fun hcounts => ?_⟩
  rw [CountsCompleted, hcount] at hcounts
  rw [hcounts] at hcounter
  exact absurd hcounter (by decide)

end VmopsBench

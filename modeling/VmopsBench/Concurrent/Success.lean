import VmopsBench.Concurrent.Rounds

/-!
# What the value of an entry function says about the threads

An entry function returns `0` once its threads are joined. A run function returns
`NULL` on every path and `vmops_utils_run_benchmark` looks at no thread's result, so the
`0` says that the benchmark was started, and no more.

`VmopsBench.System.reportsErrors_iff` says when that is the documented meaning,
`0` for success and `-1` for an error: if the benchmark could not be started, the value is `-1`;
otherwise it is `0`, and it is right exactly if no call has failed on which the
function of its thread leaves.
-/

namespace VmopsBench

open Interact

namespace System

variable {ρ : Type} {s : System ρ}

/-- No thread has left its run function through an error exit. -/
def NoErrorExit (s : System ρ) : Prop :=
  ∀ i t r, s.threads i = some t → t.prog = .ret r → r.exit = .done

/-- **The value of an entry function reports the errors of the threads**: it is `0` only if no
thread left through an error exit, and otherwise `-1`. -/
def ReportsErrors (s : System ρ) (r : ℤ) : Prop := (r = 0 → s.NoErrorExit) ∧ (r ≠ 0 → r = -1)

/-- The benchmark was not started: its options were rejected, or a call of the main
thread has failed. -/
def NotStarted (cfg : VmopsBenchCfg) (opts : List Char) (s : System ρ) : Prop :=
  vmopsUtilsParseOptions opts cfg = none ∨ (launch s.mainTrace).failed = true

/-- No call of a thread has failed on which its function leaves. -/
def AllClean (s : System ρ) : Prop :=
  ∀ i run st t, startEvent i run st ∈ s.mainTrace → s.threads i = some t →
    (progress t.trace).Clean run

section Entry

variable {choose : VmopsBenchCfg → RunFn} {cfg : VmopsBenchCfg} {opts : List Char}
  {s : System ℤ}

/-- Started threads run what the entry has chosen. -/
theorem exists_chosen (hchoose : ∀ cfg, choose { cfg with stats := 0 } = choose cfg)
    (hs : Reachable (benchEntry choose cfg opts) s) {i : ℕ} {run : RunFn} {st : VmopsBenchRunArg}
    (hmem : startEvent i run st ∈ s.mainTrace) : runsChosen choose cfg opts i run st :=
  (who_of_mem hs (benchEntry_launch hchoose cfg opts) hmem).2

theorem runsChosen_unique {i j : ℕ} {run run' : RunFn} {st st' : VmopsBenchRunArg}
    (h : runsChosen choose cfg opts i run st) (h' : runsChosen choose cfg opts j run' st') :
    run = run' := by
  obtain ⟨cfg₁, hparse, rfl⟩ := h
  obtain ⟨cfg₂, hparse', rfl⟩ := h'
  rw [Option.some.inj (hparse.symm.trans hparse')]

/-- **A returned thread took the error exit exactly if a call has failed on which its
function leaves.** -/
theorem clean_iff_done (hs : Reachable (benchEntry choose cfg opts) s)
    (hchoose : ∀ cfg, choose { cfg with stats := 0 } = choose cfg) {i : ℕ} {t : Thread}
    {run : RunFn} {st : VmopsBenchRunArg} (hmem : startEvent i run st ∈ s.mainTrace)
    (ht : s.threads i = some t) {r : RunResult} (hr : t.prog = .ret r) :
    (progress t.trace).Clean run ↔ r.exit = .done := by
  obtain ⟨run', st', hmem', hwp⟩ := (reachable_wf hs).thread_wp ht
  obtain rfl := runsChosen_unique (exists_chosen hchoose hs hmem) (exists_chosen hchoose hs hmem')
  have h := hwp (platThreadRunFn_protocol run st') (protocol_admits _ _ _)
  rw [hr] at h
  exact h.1

/-- What holds when an entry has returned. -/
theorem benchEntry_reports (hchoose : ∀ cfg, choose { cfg with stats := 0 } = choose cfg)
    (hs : Reachable (benchEntry choose cfg opts) s) {r : ℤ} (hr : s.main = .ret r) :
    s.ReportsErrors r ↔ s.NotStarted cfg opts ∨ s.AllClean := by
  have hmain := benchEntry_launch hchoose cfg opts
  have hret := reachable_main_wp hs hmain (launching_admits _ _ _ _)
  rw [hr] at hret
  rcases hret with ⟨hparse, ⟨rfl, hg⟩ | ⟨rfl, hfail, -⟩⟩ | ⟨hparse, rfl⟩
  · -- the threads have been joined
    have hl := reachable_launched hs hmain
    have hg : launch s.mainTrace = _ := hg
    have hjoined : ∀ i t, s.threads i = some t → ∃ r, t.prog = .ret r := by
      intro i t ht
      obtain ⟨u, r, hu, hp⟩ := hl.joined i (by
        have hi := (hl.isSome_iff i).mp (by rw [ht]; rfl)
        rwa [hg] at hi ⊢)
      obtain rfl : t = u := Option.some.inj (ht.symm.trans hu)
      exact ⟨r, hp⟩
    have hstarted : ¬s.NotStarted cfg opts := by
      rintro (h | h)
      · exact hparse h
      · rw [hg] at h
        cases h
    rw [or_iff_right hstarted]
    constructor
    · rintro ⟨hno, -⟩ i run st t hmem ht
      obtain ⟨r, hp⟩ := hjoined i t ht
      exact (clean_iff_done hs hchoose hmem ht hp).mpr (hno rfl i t r ht hp)
    · intro hclean
      refine ⟨fun _ i t r ht hp => ?_, fun h => absurd rfl h⟩
      obtain ⟨run, st, hmem, -⟩ := (reachable_wf hs).thread_run i t ht
      exact (clean_iff_done hs hchoose hmem ht hp).mp (hclean i run st t hmem ht)
  · -- a call of the main thread has failed
    exact iff_of_true ⟨nofun, fun _ => rfl⟩ (Or.inl (Or.inr hfail))
  · -- the options were rejected
    exact iff_of_true ⟨nofun, fun _ => rfl⟩ (Or.inl (Or.inl hparse))

end Entry

/-- **When the value of an entry function reports the errors of its threads**: when
the benchmark was not started, and when no call has failed on which a thread's function leaves. -/
theorem reportsErrors_iff {entry : VmopsBenchCfg → List Char → Prog mainSig ℤ}
    (hentry : entry = vmposBenchRunMapunmap ∨ entry = vmopsBenchRunProtect ∨
      entry = vmopsBenchRunProtectElevate ∨ entry = vmopsBenchRunTlbshoot)
    {cfg : VmopsBenchCfg} {opts : List Char} {s : System ℤ} (hs : Reachable (entry cfg opts) s)
    {r : ℤ} (hr : s.main = .ret r) :
    s.ReportsErrors r ↔ s.NotStarted cfg opts ∨ s.AllClean := by
  rcases hentry with rfl | rfl | rfl | rfl
  · exact benchEntry_reports (fun _ => rfl) hs hr
  · exact benchEntry_reports (fun _ => rfl) hs hr
  · exact benchEntry_reports (fun _ => rfl) hs hr
  · exact benchEntry_reports (fun _ => rfl) hs hr

/-- A run in which nothing fails, from the options to the cleanup. -/
theorem reportsErrors_oneThread :
    ∃ s, Reachable (vmposBenchRunMapunmap oneThread "-shared".toList) s ∧ s.main = .ret 0 ∧
      s.ReportsErrors 0 := by
  let go := Label.main (MainCall.succeed (zeroArg oneThread))
  let ok := Label.thread 0 ThreadCall.succeed
  have hrun : ∃ s, Reachable (vmposBenchRunMapunmap oneThread "-shared".toList) s ∧
      s.value? = some 0 ∧ s.noFailures 1 = true :=
    exists_reachable_of_exec (List.replicate 132 go ++ [ok, ok, .openBarrier, ok, ok, ok, ok, ok,
      ok, ok, ok, .openBarrier] ++ List.replicate 7 go) (by decide)
  obtain ⟨s, hs, hvalue, hnone⟩ := hrun
  have hr := value?_eq_some.mp hvalue
  refine ⟨s, hs, hr, (reportsErrors_iff (Or.inl rfl) hs hr).mpr (Or.inr ?_)⟩
  intro i run st t _ ht e he
  have hlaunch : wp (launching _ (runsChosen chooseMapunmap oneThread "-shared".toList))
      (vmposBenchRunMapunmap oneThread "-shared".toList) _ _ := benchEntry_launch (fun _ => rfl) _ _
  rw [failures_of_noFailures hnone (reachable_thread_wp hs hlaunch ht).1 ht] at he
  cases he

/-- The mapping of the only thread fails in the first turn, and the entry returns `0`. -/
theorem success_despite_error :
    ∃ s, Reachable (vmposBenchRunMapunmap oneThread []) s ∧ s.main = .ret 0 ∧
      ¬s.ReportsErrors 0 := by
  let go := Label.main (MainCall.succeed (zeroArg oneThread))
  let ok := Label.thread 0 ThreadCall.succeed
  let mapFails := Label.thread 0 ThreadCall.failMap
  have hrun : ∃ s, Reachable (vmposBenchRunMapunmap oneThread []) s ∧ s.value? = some 0 ∧
      ((s.threads 0).bind Thread.result?).any (fun r => r.exit = .error) = true :=
    exists_reachable_of_exec (List.replicate 132 go ++ [ok, ok, .openBarrier, ok, ok, mapFails] ++
      List.replicate 7 go) (by decide)
  obtain ⟨s, hs, hvalue, herror⟩ := hrun
  refine ⟨s, hs, value?_eq_some.mp hvalue, fun hreports => ?_⟩
  obtain ⟨r, hres, herror⟩ := (Option.any_eq_true _ _).mp herror
  obtain ⟨t, ht, hr⟩ := Option.bind_eq_some_iff.mp hres
  have hdone := hreports.1 rfl 0 t r ht (result?_eq_some.mp hr)
  rw [hdone] at herror
  cases herror

end System

end VmopsBench

import VmopsBench.Concurrent.Rounds

/-!
# When a run hangs at its barrier

A run hangs when some of its threads wait at the barrier for threads that have
returned. All threads have passed the same number of barriers
(`VmopsBench.System.reachable_inStep`), so a thread that waits is stranded exactly by
threads that have returned early, with fewer barriers than their protocol has.

Which failures do that depends on the function (`VmopsBench.RunFn.strands`). In the
functions on one large mapping every failure on which they leave does, since they return
at once. In the 4k functions those before the start barrier do, and in
`bench_run_nounmap_4k_fn` none. In a run without such a failure no reachable state
is stuck at the barrier, and while the main thread joins some step is always
possible.
-/

namespace VmopsBench

open Interact

/-! ### Failures that strand the other threads -/

/-- **The failure makes a thread miss a barrier** that the others will wait at. -/
def RunFn.strands (f : RunFn) (e : List BarrierSite × ThreadCall) : Bool :=
  f.leavesOn e && match f.protocol with
    | .direct => true
    | .meeting => false
    | .paged => e.1.isEmpty

/-- The number of barriers on the normal path. -/
def Protocol.barriers : Protocol → ℕ
  | .direct | .meeting => 2
  | .paged => 3

/-- The barriers before a failure are among those passed. -/
theorem failures_suffix (tr : List (Event threadSig)) :
    ∀ e ∈ (progress tr).failures, e.1 <:+ (progress tr).passed := by
  induction tr using List.reverseRecOn with
  | nil => exact nofun
  | append_singleton tr a ih =>
    have hsuffix : (progress tr).passed <:+ (progress (tr ++ [a])).passed := by
      rw [progress_concat]
      obtain ⟨c, r⟩ := a
      cases c <;> first | exact List.suffix_refl _ | exact List.suffix_cons _ _
    intro e he
    rw [progress_concat] at he
    simp only [Progress.upd] at he
    split at he
    · rcases List.mem_cons.mp he with rfl | he
      · exact hsuffix
      · exact (ih e he).trans hsuffix
    · exact (ih e he).trans hsuffix

namespace System

section Threads

variable {f : RunFn} {t : Thread}

/-- A thread at a barrier call has barriers ahead of it. -/
theorem FollowsProtocol.passed_lt (h : FollowsProtocol f t) {site : BarrierSite}
    {k : Unit → Prog threadSig RunResult} (hp : t.prog = .call (ThreadCall.barrier site) k) :
    t.passed.length < f.protocol.barriers := by
  have hcall := h.calls _ _ hp
  rw [Thread.passed]
  cases site with
  | start =>
    rw [hcall.passed_eq]
    cases f.protocol <;> decide
  | finish =>
    simp only [RunFn.MayCall] at hcall
    cases hf : f.protocol with
    | direct =>
      simp only [hf] at hcall
      rw [hcall.passed_eq]
      decide
    | meeting =>
      simp only [hf] at hcall
      rw [hcall]
      decide
    | paged => simp [hf] at hcall
  | cleanup =>
    -- only the 4k functions have this barrier, whether they come from the loop or from an error
    obtain ⟨hf, hclean | ⟨hclean, -⟩⟩ := hcall
    · rw [hclean, hf]
      decide
    · rw [hclean, hf]
      decide
  | leave =>
    obtain ⟨hf, passed, hpassed, rfl | ⟨rfl, -⟩⟩ := hcall
    · rw [hpassed, hf]
      decide
    · rw [hpassed, hf]
      decide

/-- A thread that has returned without a failure that strands others has passed all barriers. -/
theorem FollowsProtocol.passed_eq (h : FollowsProtocol f t) {r : RunResult} (hp : t.prog = .ret r)
    (hs : ∀ e ∈ (progress t.trace).failures, f.strands e = false) :
    t.passed.length = f.protocol.barriers := by
  obtain ⟨hclean, hpassed⟩ := h.returned r hp
  rw [Thread.passed]
  cases hf : f.protocol with
  | direct =>
    simp only [hf] at hpassed
    -- every failure on which the function leaves strands the others, so there is none
    have hdone : r.exit = .done := by
      refine hclean.mp fun e he => ?_
      have hno := hs e he
      simpa [RunFn.strands, hf] using hno
    rw [hdone, if_pos rfl] at hpassed
    rw [hpassed]
    rfl
  | meeting =>
    simp only [hf] at hpassed
    rw [hpassed]
    rfl
  | paged =>
    simp only [hf] at hpassed
    rcases hpassed with ⟨hnil, herror⟩ | ⟨passed, hpassed, rfl | ⟨-, e, he, hnil, hmap⟩⟩
    · -- no barrier was passed: a failure would be one before the start barrier
      have hdone : r.exit = .done := by
        refine hclean.mp fun e he => ?_
        have hsuffix := failures_suffix t.trace e he
        rw [hnil, List.suffix_nil] at hsuffix
        have hno := hs e he
        simpa [RunFn.strands, hf, hsuffix] using hno
      rw [herror] at hdone
      cases hdone
    · rw [hpassed]
      rfl
    · -- the start barrier was left out after a failed mapping
      obtain ⟨passed, c⟩ := e
      have hno := hs _ he
      obtain rfl : passed = [] := hnil
      cases c <;> simp_all [RunFn.strands, RunFn.leavesOn, ThreadCall.isMap]

end Threads

/-! ### Hanging -/

variable {ρ : Type} {s : System ρ}

/-- **The run hangs**: some of its `n` threads wait at the barrier, not all of them,
and the others have returned. -/
def Hung (n : ℕ) (s : System ρ) : Prop :=
  (∃ i < n, s.isWaiting i = true) ∧ s.waitingCount n < n ∧
    ∀ i < n, s.isWaiting i = true ∨ s.hasReturned i = true

instance (n : ℕ) (s : System ρ) : Decidable (Hung n s) := by
  unfold Hung
  infer_instance

/-- No failure of a thread has made it miss a barrier. -/
def NothingStrands (f : RunFn) (s : System ρ) : Prop :=
  ∀ i t, s.threads i = some t → ∀ e ∈ (progress t.trace).failures, f.strands e = false

section Runs

variable {n : BitVec 32} {who : ℕ → RunFn → VmopsBenchRunArg → Prop} {main : Prog mainSig ρ}
  {Q : ρ → Launch → Prop} {f : RunFn}

/-- A single thread waits for nobody. -/
theorem not_hung_one : ¬Hung 1 s := by
  rintro ⟨⟨i, hi, hw⟩, hlt, -⟩
  refine hlt.ne (waitingCount_eq_iff.mpr fun j hj => ?_)
  obtain rfl : i = j := by omega
  exact hw

/-- **Nothing hangs unless a thread was made to miss a barrier.** -/
theorem not_hung_of_nothingStrands (hs : Reachable main s)
    (hmain : wp (launching n who) main Q Launch.init) (hwho : ∀ i run st, who i run st → run = f)
    (hstrands : NothingStrands f s) {m : ℕ} : ¬Hung m s := by
  rintro ⟨⟨i, -, hw⟩, hlt, hall⟩
  obtain ⟨R, hstep⟩ := reachable_inStep hs hmain
  -- the thread that waits has barriers ahead
  obtain ⟨t, ht, hwt⟩ := isWaiting_eq_true.mp hw
  obtain ⟨site, k, hp⟩ := (reachable_wf hs).waiting i t ht hwt
  have hahead := (reachable_protocol hs hmain hwho ht).passed_lt hp
  rw [hstep.passed i t ht] at hahead
  -- one that does not wait has returned, with no barrier ahead
  obtain ⟨j, hj, hidle⟩ : ∃ j < m, s.isWaiting j ≠ true := by
    by_contra hno
    push Not at hno
    exact hlt.ne (waitingCount_eq_iff.mpr hno)
  obtain ⟨r, hr⟩ := Option.isSome_iff_exists.mp ((hall j hj).resolve_left hidle)
  obtain ⟨u, hu, hres⟩ := Option.bind_eq_some_iff.mp hr
  have hend := (reachable_protocol hs hmain hwho hu).passed_eq (result?_eq_some.mp hres)
    (hstrands j u hu)
  rw [hstep.passed j u hu] at hend
  omega

/-- **While the main thread joins, some step is possible** in a state that does not hang. -/
theorem exists_step_of_join (hs : Reachable main s)
    (hmain : wp (launching n who) main Q Launch.init) {i : ℕ}
    {k : VmopsBenchRunArg → Prog mainSig ρ} (hm : s.main = .call (MainCall.threadJoin i) k)
    (hh : ¬Hung n.toNat s) : ∃ l s', s.step l = some s' := by
  obtain ⟨hi, hg⟩ := reachable_mayCall hs hmain hm
  have hl := reachable_launched hs hmain
  -- threads are cancelled after a failure only, and a failed run is not joined
  have hthere : ∀ j < n.toNat, ∃ t, s.threads j = some t ∧ t.cancelled = false := by
    intro j hj
    obtain ⟨t, ht⟩ := Option.isSome_iff_exists.mp ((hl.isSome_iff j).mpr (by rwa [hg]))
    refine ⟨t, ht, ?_⟩
    by_contra hcan
    have hfail := hl.freed j t ht (hl.cancelled j t ht (by simpa using hcan))
    rw [hg] at hfail
    cases hfail
  by_cases hstuck : ∀ j < n.toNat, s.isWaiting j = true ∨ s.hasReturned j = true
  · obtain ⟨t, ht, -⟩ := hthere i hi
    rcases hstuck i hi with hw | hr
    · -- all threads wait
      have hcount : s.waitingCount n.toNat = n.toNat := by
        refine le_antisymm (waitingCount_le _) (not_lt.mp fun hlt => ?_)
        exact hh ⟨⟨i, hi, hw⟩, hlt, hstuck⟩
      have hb : s.barrier = some ⟨n, false⟩ := by rw [hl.barrier_eq, hg, Option.map_some]
      refine ⟨.openBarrier, Option.isSome_iff_exists.mp ?_⟩
      simp only [step, hb, if_pos hcount, Option.isSome_some]
    · -- the thread has returned, and is joined
      obtain ⟨r, hr⟩ := Option.isSome_iff_exists.mp hr
      refine ⟨.main (MainCall.succeed r.arg), Option.isSome_iff_exists.mp ?_⟩
      simp only [step, hm, mainAnswer, hr, Option.map_some, Option.isSome_some]
  · -- some thread is on its way
    push Not at hstuck
    obtain ⟨j, hj, hidle, hrun⟩ := hstuck
    obtain ⟨t, ht, hcan⟩ := hthere j hj
    have hw : t.waiting = false := by simpa [isWaiting, ht] using hidle
    refine ⟨.thread j ThreadCall.succeed, Option.isSome_iff_exists.mp ?_⟩
    simp only [step, ht, Option.isSome_map, Thread.advance, hw, hcan, Bool.or_self,
      Bool.false_eq_true, if_false]
    cases hp : t.prog with
    | ret r => simp [hasReturned, ht, Thread.result?, hp] at hrun
    | loop body x k => rfl
    | call c k =>
      dsimp only
      split <;> rfl

end Runs

/-- **When a benchmark run cannot hang**: with one thread, or as long as no failure
has made a thread miss a barrier. Then the threads never wait for threads that have returned, and
the join loop is never stuck. -/
theorem runBenchmark_not_hung {n : BitVec 32} {args : ℕ → VmopsBenchRunArg} {f : RunFn}
    {s : System (ℤ × (ℕ → VmopsBenchRunArg))} (hs : Reachable (vmopsUtilsRunBenchmark n args f) s)
    (hc : n = 1 ∨ NothingStrands f s) :
    ¬Hung n.toNat s ∧ ∀ i k, s.main = .call (MainCall.threadJoin i) k →
      ∃ l s', s.step l = some s' := by
  have hmain : wp (launching n (runsAll f args)) (vmopsUtilsRunBenchmark n args f) _ _ :=
    runBenchmark_runsAll
  have hh : ¬Hung n.toNat s := by
    rcases hc with rfl | hc
    · exact not_hung_one
    · exact not_hung_of_nothingStrands hs hmain (fun _ _ _ h => h.1) hc
  exact ⟨hh, fun i k hm => exists_step_of_join hs hmain hm hh⟩

/-- While one thread waits before the first turn and the other has still to arrive, nothing
hangs. -/
theorem runBenchmark_not_hung_twoThreads :
    ∃ s, Reachable (vmopsUtilsRunBenchmark 2 (filledArgs twoThreads fun _ => 1) .mapunmap) s ∧
      s.isWaiting 0 = true ∧ s.isWaiting 1 = false ∧ ¬Hung 2 s := by
  let go := Label.main (MainCall.succeed (zeroArg twoThreads))
  let ok := fun i => Label.thread i ThreadCall.succeed
  have hrun : ∃ s, Reachable (vmopsUtilsRunBenchmark 2 (filledArgs twoThreads fun _ => 1)
      .mapunmap) s ∧ s.isWaiting 0 = true ∧ s.isWaiting 1 = false ∧ s.noFailures 2 = true :=
    exists_reachable_of_exec [go, go, go, ok 0, ok 0, ok 1] (by decide)
  obtain ⟨s, hs, hw₀, hw₁, hnone⟩ := hrun
  refine ⟨s, hs, hw₀, hw₁, (runBenchmark_not_hung hs (Or.inr fun i t ht e he => ?_)).1⟩
  rw [failures_of_noFailures hnone (reachable_thread_wp hs runBenchmark_runsAll ht).1 ht] at he
  cases he

/-- The first thread passes the start barrier, maps and unmaps, and waits; the
second one's mapping fails, and it returns. -/
theorem runBenchmark_hangs :
    ∃ s, Reachable (vmopsUtilsRunBenchmark 2 (filledArgs twoThreads fun _ => 1) .mapunmap) s ∧
      Hung 2 s := by
  let arg := zeroArg twoThreads
  let go := Label.main (MainCall.succeed arg)
  let ok := fun i => Label.thread i ThreadCall.succeed
  let mapFails := Label.thread 1 ThreadCall.failMap
  refine exists_reachable_of_exec [go, go, go, ok 0, ok 0, ok 1, ok 1, .openBarrier,
    ok 1, ok 1, mapFails, ok 0, ok 0, ok 0, ok 0, ok 0, ok 0, ok 0, ok 0] ?_
  decide

end System

end VmopsBench

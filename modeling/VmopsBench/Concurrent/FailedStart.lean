import VmopsBench.Concurrent.Launched

/-!
# What a failed start leaves behind

When `plat_thread_start` fails, `vmops_utils_run_benchmark` cancels the threads it
has started and returns. It waits for none of them, and the barrier is left as it is.

`VmopsBench.System.failedStart_leaves` says that this leaves something behind for every
number of threads and every index: the barrier is never destroyed, and the
threads may all still be at their first statement, about to read a descriptor that
`plat_thread_cancel` has freed. The state that shows the latter is reached by letting
only the main thread run (`VmopsBench.System.main_alone`).
-/

namespace VmopsBench

open Interact

/-- The thread has returned, or was cancelled. -/
def Thread.Terminated (t : Thread) : Prop := t.cancelled = true ∨ ∃ r, t.prog = .ret r

namespace System

variable {ρ : Type}

/-! ### When only the main thread runs -/

/-- The effects of a sequence of calls. -/
def effects (s : System ρ) (tr : List (Event mainSig)) : System ρ :=
  tr.foldl (fun s e => s.effect e.call e.resp) s

theorem effects_cons (s : System ρ) (e : Event mainSig) (tr : List (Event mainSig)) :
    s.effects (e :: tr) = (s.effect e.call e.resp).effects tr := rfl

theorem effects_append (s : System ρ) (tr tr' : List (Event mainSig)) :
    s.effects (tr ++ tr') = (s.effects tr).effects tr' := List.foldl_append

/-- The main thread's own state is no part of what its calls change. -/
theorem effect_main {s : System ρ} {c : MainCall} {r : c.Resp} {p : Prog mainSig ρ}
    {tr : List (Event mainSig)} : { s with main := p, mainTrace := tr }.effect c r =
      { s.effect c r with main := p, mainTrace := tr } := by
  cases c with
  | barrierInit n => cases r <;> rfl
  | threadStart i run st => cases r <;> rfl
  | _ => rfl

theorem effects_main {s : System ρ} {p : Prog mainSig ρ} {tr tr' : List (Event mainSig)} :
    { s with main := p, mainTrace := tr }.effects tr' =
      { s.effects tr' with main := p, mainTrace := tr } := by
  induction tr' generalizing s with
  | nil => rfl
  | cons e tr' ih => exact (congrArg (effects · tr') effect_main).trans ih

/-- **A run of the main program without joins is a run of the system** in which no thread takes
a step. -/
theorem main_alone {p q : Prog mainSig ρ} {tr : List (Event mainSig)} (h : Run p tr q)
    (hj : ∀ e ∈ tr, ∀ i, e.call ≠ .threadJoin i) {s : System ρ} (hp : s.main = p) :
    Relation.ReflTransGen (fun s s' => ∃ l, s.step l = some s') s
      { s.effects tr with main := q, mainTrace := s.mainTrace ++ tr } := by
  induction h with
  | nil p =>
    rw [List.append_nil, ← hp]
    exact .refl
  | @call α c k r tr q hrun ih =>
    classical
    -- an environment that gives this answer
    let env : (c : MainCall) → c.Resp :=
      Function.update (MainCall.succeed (zeroArg oneThread)) c r
    have hanswer : s.mainAnswer env c = some r := by
      have henv : env c = r := Function.update_self _ _ _
      cases c with
      | threadJoin i => exact absurd rfl (hj _ (List.mem_cons_self ..) i)
      | _ => exact congrArg some henv
    have hstep : s.step (.main env) = some
        { s.effect c r with main := k r, mainTrace := s.mainTrace ++ [⟨c, r⟩] } := by
      simp only [step, hp, hanswer, Option.map_some]
    have hrest := ih (fun e he => hj e (List.mem_cons_of_mem _ he)) (s := { s.effect c r with
      main := k r, mainTrace := s.mainTrace ++ [⟨c, r⟩] }) rfl
    rw [effects_main] at hrest
    simp only [List.append_assoc, List.singleton_append] at hrest
    exact .head ⟨_, hstep⟩ hrest
  | @turn σ β α body x k tr q hrun ih =>
    have hstep : s.step (.main (MainCall.succeed (zeroArg oneThread))) =
        some { s with main := Prog.unroll body x k } := by
      simp only [step, hp]
    have hrest := ih hj (s := { s with main := Prog.unroll body x k }) rfl
    have heff : effects { s with main := Prog.unroll body x k } tr =
        { s.effects tr with main := Prog.unroll body x k, mainTrace := s.mainTrace } := effects_main
    rw [heff] at hrest
    exact .head ⟨_, hstep⟩ hrest

/-! ### A run whose start fails -/

section Failing

variable {n : BitVec 32} {args : ℕ → VmopsBenchRunArg} {f : RunFn} {i : ℕ}

/-- **The calls of a run whose start of thread `i` fails.** -/
def failingStart (n : BitVec 32) (args : ℕ → VmopsBenchRunArg) (f : RunFn) (i : ℕ) :
    List (Event mainSig) :=
  ⟨MainCall.barrierInit n, true⟩ :: ((List.range i).map (fun j => startEvent j f (args j)) ++
    ⟨MainCall.threadStart i f (args i), false⟩ ::
      (List.range i).map fun j => ⟨MainCall.threadCancel j, ()⟩)

theorem run_cancelThreads (i : ℕ) : Run (cancelThreads i)
    ((List.range i).map fun j => ⟨MainCall.threadCancel j, ()⟩) (.ret (.ok ())) := by
  refine Run.for_calls _ 0 i fun j _ => ?_
  rw [Prog.perform_bind]
  exact Run.call _ (.nil _)

theorem run_startThread_ok (j : ℕ) :
    Run (startThread args f j) [startEvent j f (args j)] (.ret (.ok ())) := by
  rw [startThread, Prog.perform_bind]
  exact Run.call _ (.nil _)

theorem run_startThread_error (i : ℕ) : Run (startThread args f i)
    (⟨MainCall.threadStart i f (args i), false⟩ ::
      (List.range i).map fun j => ⟨MainCall.threadCancel j, ()⟩) (.ret (.error ())) := by
  rw [startThread, Prog.perform_bind]
  exact Run.call _ ((run_cancelThreads i).bind_left _)

theorem run_failingStart (hi : i < n.toNat) :
    Run (vmopsUtilsRunBenchmark n args f) (failingStart n args f i) (.ret (-1, args)) := by
  have hsplit : n.toNat = i + (n.toNat - i - 1 + 1) := by omega
  have hstarts : Run (startThreads n args f)
      ((List.range i).map (fun j => startEvent j f (args j)) ++
        ⟨MainCall.threadStart i f (args i), false⟩ ::
          (List.range i).map fun j => ⟨MainCall.threadCancel j, ()⟩) (.ret (.error ())) := by
    rw [startThreads, Prog.forLoop, hsplit]
    refine (Run.for_calls (fun j => startEvent j f (args j)) _ i
      fun j _ => run_startThread_ok j).trans ?_
    exact (run_startThread_error i).bind_left _
  rw [vmopsUtilsRunBenchmark, failingStart, Prog.perform_bind]
  exact Run.call _ (hstarts.bind_left _)

/-- **A sequence of calls, each of which changes one thread**: every thread is changed once. -/
theorem effects_range {e : ℕ → Event mainSig} (F : ℕ → Option Thread → Option Thread)
    (he : ∀ (s : System ρ) j, s.effect (e j).call (e j).resp =
      { s with threads := Function.update s.threads j (F j (s.threads j)) })
    (s : System ρ) (i : ℕ) :
    s.effects ((List.range i).map e) =
      { s with threads := fun j => if j < i then F j (s.threads j) else s.threads j } := by
  induction i with
  | zero => rfl
  | succ i ih =>
    rw [List.range_succ, List.map_append, List.map_singleton, effects_append, ih, effects_cons, he]
    refine congrArg (fun threads => { s with threads }) ?_
    funext j
    rcases eq_or_ne j i with rfl | hne
    · simp
    · have hiff : j < i + 1 ↔ j < i := by omega
      rw [Function.update_of_ne hne]
      simp only [hiff]

/-- The threads after some starts. -/
theorem effects_starts (s : System ρ) (i : ℕ) :
    s.effects ((List.range i).map fun j => startEvent j f (args j)) =
      { s with threads := fun j =>
          if j < i then some (Thread.fresh f (args j)) else s.threads j } :=
  effects_range (fun j _ => some (Thread.fresh f (args j))) (fun _ _ => rfl) s i

/-- The threads after the cancellations. -/
theorem effects_cancels (s : System ρ) (i : ℕ) :
    s.effects ((List.range i).map fun j => ⟨MainCall.threadCancel j, ()⟩) =
      { s with threads := fun j =>
          if j < i then (s.threads j).map fun t => { t with freed := true } else s.threads j } :=
  effects_range (fun _ o => o.map fun t => { t with freed := true }) (fun _ _ => rfl) s i

end Failing

/-! ### What is left behind -/

/-- **Nothing is left behind**: every thread has terminated, and the barrier was destroyed. -/
def NothingLeft (s : System ρ) : Prop :=
  (∀ j t, s.threads j = some t → t.Terminated) ∧ ∃ b, s.barrier = some b ∧ b.destroyed = true

/-- Thread `j` is at its first statement, and its descriptor is gone. -/
def Dangles (f : RunFn) (args : ℕ → VmopsBenchRunArg) (j : ℕ) (s : System ρ) : Prop :=
  ∃ t, s.threads j = some t ∧ t.freed = true ∧ ¬t.Terminated ∧ t.prog = platThreadRunFn f (args j)

/-- **Every failed start leaves something behind.** For every number of threads and every index
there is a run in which all threads started before are still at their first
statement when `vmops_utils_run_benchmark` returns `-1`; and in no run has it destroyed the
barrier by then. -/
theorem failedStart_leaves {n : BitVec 32} {i : ℕ} (hi : i < n.toNat)
    (args : ℕ → VmopsBenchRunArg) (f : RunFn) :
    (∃ s, Reachable (vmopsUtilsRunBenchmark n args f) s ∧ s.main = .ret (-1, args) ∧
      ⟨MainCall.threadStart i f (args i), false⟩ ∈ s.mainTrace ∧ ∀ j < i, Dangles f args j s) ∧
    ∀ s r, Reachable (vmopsUtilsRunBenchmark n args f) s → s.main = .ret r → r.1 = -1 →
      ¬s.NothingLeft := by
  refine ⟨⟨_, main_alone (run_failingStart hi) ?_ rfl, rfl, ?_, fun j hj => ?_⟩, ?_⟩
  · -- there is no join among the calls
    intro e he k
    simp only [failingStart, startEvent, List.mem_cons, List.mem_append, List.mem_map] at he
    rcases he with rfl | ⟨j, -, rfl⟩ | rfl | ⟨j, -, rfl⟩ <;> exact fun h => by cases h
  · simp [failingStart]
  · -- the threads after all calls
    have hthreads : (effects (init (vmopsUtilsRunBenchmark n args f))
        (failingStart n args f i)).threads j =
          some { Thread.fresh f (args j) with freed := true } := by
      rw [failingStart, effects_cons, effects_append, effects_cons, effects_cancels]
      simp [effect, effects_starts, hj]
    refine ⟨_, hthreads, rfl, ?_, rfl⟩
    rintro (hcan | ⟨r, hr⟩)
    · cases hcan
    · cases hr
  · rintro s r hs hr hval ⟨-, b, hb, hd⟩
    have hmain : wp (launching n (runsAll f args)) (vmopsUtilsRunBenchmark n args f) _ _ :=
      runBenchmark_runsAll
    have hret := reachable_main_wp hs hmain (launching_admits _ _ _ _)
    rw [hr] at hret
    rcases hret with ⟨h0, -⟩ | ⟨-, -, hnot⟩
    · rw [hval] at h0
      cases h0
    · rw [(reachable_launched hs hmain).barrier_eq] at hb
      obtain ⟨m, -, rfl⟩ := Option.map_eq_some_iff.mp hb
      cases hnot.symm.trans hd

/-- The second of two threads cannot be started. -/
theorem failedStart_leaves_twoThreads :
    (∃ s, Reachable (vmopsUtilsRunBenchmark 2 (filledArgs twoThreads fun _ => 1) .mapunmap) s ∧
      Dangles .mapunmap (filledArgs twoThreads fun _ => 1) 0 s) ∧
    ∀ s r, Reachable (vmopsUtilsRunBenchmark 2 (filledArgs twoThreads fun _ => 1) .mapunmap) s →
      s.main = .ret r → r.1 = -1 → ¬s.NothingLeft := by
  obtain ⟨⟨s, hs, -, -, hall⟩, hno⟩ := failedStart_leaves (n := 2) (i := 1) (by decide)
    (filledArgs twoThreads fun _ => 1) .mapunmap
  exact ⟨⟨s, hs, hall 0 (by decide)⟩, hno⟩

/-- An environment in which only the start of a thread fails. -/
def failStart : (c : MainCall) → c.Resp
  | .threadStart .. => false
  | c => MainCall.succeed (zeroArg twoThreads) c

/-- The first thread waits at the barrier for a thread that could not be started, and the main
thread has returned. -/
theorem failedStart_strands :
    ∃ s r, Reachable (vmopsUtilsRunBenchmark 2 (filledArgs twoThreads fun _ => 1) .mapunmap) s ∧
      s.main = .ret r ∧ r.1 = -1 ∧ s.isWaiting 0 = true ∧ ¬s.NothingLeft := by
  let go := Label.main (MainCall.succeed (zeroArg twoThreads))
  let ok := Label.thread 0 ThreadCall.succeed
  have hrun : ∃ s, Reachable (vmopsUtilsRunBenchmark 2 (filledArgs twoThreads fun _ => 1)
      .mapunmap) s ∧ s.value?.map Prod.fst = some (-1) ∧ (s.threads 0).any (fun t =>
        t.waiting && !t.cancelled && t.result?.isNone) = true :=
    exists_reachable_of_exec [go, go, ok, ok, .main failStart, go] (by decide)
  obtain ⟨s, hs, hvalue, hthread⟩ := hrun
  obtain ⟨r, hr, hval⟩ := Option.map_eq_some_iff.mp hvalue
  obtain ⟨t, ht, hthread⟩ := (Option.any_eq_true _ _).mp hthread
  simp only [Bool.and_eq_true, Bool.not_eq_true', Option.isNone_iff_eq_none] at hthread
  obtain ⟨⟨hw, hcan⟩, hres⟩ := hthread
  refine ⟨s, r, hs, value?_eq_some.mp hr, hval, isWaiting_eq_true.mpr ⟨t, ht, hw⟩, ?_⟩
  rintro ⟨hterm, -⟩
  rcases hterm 0 t ht with h | ⟨r, h⟩
  · rw [hcan] at h
    cases h
  · rw [result?_eq_some.mpr h] at hres
    cases hres

end System

end VmopsBench

import VmopsBench.Concurrent.System
import VmopsBench.Concurrent.Launch

/-!
# The threads of a state are those that were launched

The discipline of the main thread (`VmopsBench.Concurrent.Launch`), seen from the
reachable states of the composed system: which threads exist, for how many the
barrier is, that only a failure leads to a cancellation, and that a joined thread
has returned (`VmopsBench.System.Launched`). All steps of the threads keep this, and a
call of the main thread does because the discipline allows it.

What the threads run is `VmopsBench.System.reachable_thread_wp`: the program logic's
verdict on the function a thread was started with holds for the rest of the
thread's program, wherever the interleaving has left it.
-/

namespace VmopsBench

open Interact

namespace System

variable {ρ : Type} {n : BitVec 32} {who : ℕ → RunFn → VmopsBenchRunArg → Prop}
  {main : Prog mainSig ρ} {s : System ρ}

/-- **The threads and the barrier are what the main thread has made them.** -/
structure Launched (n : BitVec 32) (s : System ρ) : Prop where
  isSome_iff : ∀ i, (s.threads i).isSome = true ↔ i < (launch s.mainTrace).started
  started_le : (launch s.mainTrace).started ≤ n.toNat
  barrier_eq : s.barrier = (launch s.mainTrace).barrier.map (⟨·, (launch s.mainTrace).destroyed⟩)
  max_eq : ∀ m, (launch s.mainTrace).barrier = some m → m = n
  freed : ∀ i t, s.threads i = some t → t.freed = true → (launch s.mainTrace).failed = true
  cancelled : ∀ i t, s.threads i = some t → t.cancelled = true → t.freed = true
  joined : ∀ i < (launch s.mainTrace).joined, ∃ t r, s.threads i = some t ∧ t.prog = .ret r

/-- The main thread is about to make a call it may make. -/
theorem reachable_mayCall {Q : ρ → Launch → Prop} (hs : Reachable main s)
    (hmain : wp (launching n who) main Q Launch.init) {c : MainCall} {k : c.Resp → Prog mainSig ρ}
    (hm : s.main = .call c k) : (launch s.mainTrace).MayCall n who c := by
  have hwp := reachable_main_wp hs hmain (launching_admits _ _ _ _)
  rw [hm] at hwp
  exact hwp.1

/-- A start in the trace was allowed. -/
theorem who_of_mem {Q : ρ → Launch → Prop} (hs : Reachable main s)
    (hmain : wp (launching n who) main Q Launch.init) {i : ℕ} {run : RunFn} {st : VmopsBenchRunArg}
    (hmem : startEvent i run st ∈ s.mainTrace) : i < n.toNat ∧ who i run st := by
  obtain ⟨hon, -⟩ := wp_run (reachable_wf hs).main_run hmain (launching_admits _ _ _ _)
  obtain ⟨g, hi, hwho, -⟩ := hon.of_mem hmem
  exact ⟨hi, hwho⟩

theorem launched_init : Launched n (init main) where
  isSome_iff i := by simp [init, Launch.init]
  started_le := Nat.zero_le _
  barrier_eq := rfl
  max_eq := nofun
  freed := nofun
  cancelled := nofun
  joined i hi := by cases hi

/-- The state is as launched if it is as the history `g` says. -/
theorem Launched.of_launch {g : Launch} (hg : launch s.mainTrace = g)
    (isSome_iff : ∀ i, (s.threads i).isSome = true ↔ i < g.started)
    (started_le : g.started ≤ n.toNat)
    (barrier_eq : s.barrier = g.barrier.map (⟨·, g.destroyed⟩))
    (max_eq : ∀ m, g.barrier = some m → m = n)
    (freed : ∀ i t, s.threads i = some t → t.freed = true → g.failed = true)
    (cancelled : ∀ i t, s.threads i = some t → t.cancelled = true → t.freed = true)
    (joined : ∀ i < g.joined, ∃ t r, s.threads i = some t ∧ t.prog = .ret r) : Launched n s := by
  subst hg
  exact ⟨isSome_iff, started_le, barrier_eq, max_eq, freed, cancelled, joined⟩

theorem Launched.moves {s' : System ρ} (h : Launched n s) (hm : Moves s s') : Launched n s' := by
  have hlaunch : launch s'.mainTrace = launch s.mainTrace := by rw [hm.mainTrace_eq]
  refine .of_launch hlaunch (fun i => ?_) h.started_le ?_ h.max_eq (fun i u hu hf => ?_)
    (fun i u hu hc => ?_) fun i hi => ?_
  · rw [hm.isSome_eq i]
    exact h.isSome_iff i
  · rw [hm.barrier_eq]
    exact h.barrier_eq
  · obtain ⟨t, ht, hmove⟩ := hm.exists_before hu
    exact h.freed i t ht (hmove.freed_eq ▸ hf)
  · obtain ⟨t, ht, hmove⟩ := hm.exists_before hu
    exact hmove.freed_of_cancelled (h.cancelled i t ht) hc
  · obtain ⟨t, r, ht, hr⟩ := h.joined i hi
    obtain ⟨u, hu, hmove⟩ := hm.exists_after ht
    exact ⟨u, r, hu, hmove.returned hr⟩

/-! ### The calls of the main thread -/

section Call

variable {main' : Prog mainSig ρ}

theorem launch_afterCall {c : MainCall} {r : c.Resp} :
    launch (s.afterCall c r main').mainTrace = (launch s.mainTrace).upd c r := launch_concat _ _

/-- A call that changes neither the threads nor the barrier. -/
theorem Launched.same (h : Launched n s) {c : MainCall} {r : c.Resp} (heff : s.effect c r = s)
    (hb : ((launch s.mainTrace).upd c r).barrier = (launch s.mainTrace).barrier)
    (hst : ((launch s.mainTrace).upd c r).started = (launch s.mainTrace).started)
    (hj : ∀ i < ((launch s.mainTrace).upd c r).joined, ∃ t r,
      s.threads i = some t ∧ t.prog = .ret r)
    (hd : ((launch s.mainTrace).upd c r).destroyed = (launch s.mainTrace).destroyed) :
    Launched n (s.afterCall c r main') := by
  have hthreads : (s.afterCall c r main').threads = s.threads := by rw [afterCall_threads, heff]
  have hbarrier : (s.afterCall c r main').barrier = s.barrier := by rw [afterCall_barrier, heff]
  refine .of_launch launch_afterCall ?_ ?_ ?_ ?_ (fun i t ht hf => ?_) ?_ ?_
  · rw [hthreads, hst]
    exact h.isSome_iff
  · rw [hst]
    exact h.started_le
  · rw [hbarrier, hb, hd]
    exact h.barrier_eq
  · rw [hb]
    exact h.max_eq
  · exact Launch.failed_upd (h.freed i t (hthreads ▸ ht) hf)
  · rw [hthreads]
    exact h.cancelled
  · rw [hthreads]
    exact hj

/-- The barrier is initialised before there are threads. -/
theorem Launched.barrierInit (h : Launched n s) (hinit : launch s.mainTrace = Launch.init) :
    Launched n (s.afterCall (.barrierInit n) true main') := by
  have hnone : ∀ i, s.threads i = none := by
    intro i
    have hi := h.isSome_iff i
    simpa [hinit, Launch.init] using hi
  refine .of_launch launch_afterCall h.isSome_iff h.started_le ?_
    (fun _ hm => (Option.some.inj hm).symm) (fun i t ht => ?_) (fun i t ht => ?_) h.joined
  · rw [hinit]
    rfl
  · exact absurd ht (by simp [afterCall, effect, hnone])
  · exact absurd ht (by simp [afterCall, effect, hnone])

/-- The next thread is started. -/
theorem Launched.threadStart (h : Launched n s) {i : ℕ} {run : RunFn} {st : VmopsBenchRunArg}
    (hi : i < n.toNat) (hg : launch s.mainTrace = ⟨some n, i, 0, false, false⟩) :
    Launched n (s.afterCall (.threadStart i run st) true main') := by
  refine .of_launch launch_afterCall (fun j => ?_) ?_ h.barrier_eq h.max_eq
    (fun j t ht hf => ?_) (fun j t ht hf => ?_) ?_
  · have hj := h.isSome_iff j
    rw [hg] at hj ⊢
    show ((s.setThread i (Thread.fresh run st)).threads j).isSome = true ↔ j < i + 1
    rcases eq_or_ne j i with rfl | hne
    · simp [setThread]
    · have hsame : (s.setThread i (Thread.fresh run st)).threads j = s.threads j :=
        Function.update_of_ne hne _ _
      rw [hsame, hj]
      show j < i ↔ j < i + 1
      omega
  · rw [hg]
    exact hi
  · rcases setThread_threads ht with ⟨rfl, rfl⟩ | ⟨-, ht⟩
    · cases hf
    · exact Launch.failed_upd (h.freed j t ht hf)
  · rcases setThread_threads ht with ⟨rfl, rfl⟩ | ⟨-, ht⟩
    · cases hf
    · exact h.cancelled j t ht hf
  · rw [hg]
    exact fun j hj => absurd hj (Nat.not_lt_zero j)

/-- The descriptor of a thread is freed, after a failure. -/
theorem Launched.threadCancel (h : Launched n s) {i : ℕ} {r : MainCall.Resp (.threadCancel i)}
    (hfailed : (launch s.mainTrace).failed = true) :
    Launched n (s.afterCall (.threadCancel i) r main') := by
  have hself : (s.afterCall (.threadCancel i) r main').threads i =
      (s.threads i).map fun t => { t with freed := true } := Function.update_self _ _ _
  have hother : ∀ j, j ≠ i → (s.afterCall (.threadCancel i) r main').threads j = s.threads j :=
    fun j hne => Function.update_of_ne hne _ _
  refine .of_launch launch_afterCall (fun j => ?_) h.started_le h.barrier_eq h.max_eq
    (fun _ _ _ _ => Launch.failed_upd hfailed) (fun j t ht hcan => ?_) fun j hj => ?_
  · rcases eq_or_ne j i with rfl | hne
    · rw [hself, Option.isSome_map]
      exact h.isSome_iff j
    · rw [hother j hne]
      exact h.isSome_iff j
  · rcases eq_or_ne j i with rfl | hne
    · rw [hself] at ht
      obtain ⟨u, -, rfl⟩ := Option.map_eq_some_iff.mp ht
      rfl
    · exact h.cancelled j t (hother j hne ▸ ht) hcan
  · obtain ⟨t, rr, ht, hp⟩ := h.joined j hj
    rcases eq_or_ne j i with rfl | hne
    · exact ⟨{ t with freed := true }, rr, by rw [hself, ht, Option.map_some], hp⟩
    · exact ⟨t, rr, (hother j hne).trans ht, hp⟩

/-- The next thread is joined, so it has returned. -/
theorem Launched.threadJoin (h : Launched n s) {i : ℕ} {r : MainCall.Resp (.threadJoin i)}
    (hg : launch s.mainTrace = ⟨some n, n.toNat, i, false, false⟩)
    {env : (c : MainCall) → c.Resp} (hr : s.mainAnswer env (.threadJoin i) = some r) :
    Launched n (s.afterCall (.threadJoin i) r main') := by
  refine h.same rfl rfl rfl (fun j hj => ?_) rfl
  rw [hg] at hj
  rcases Nat.lt_succ_iff_lt_or_eq.mp hj with hlt | rfl
  · exact h.joined j (by rwa [hg])
  · obtain ⟨rr, hrr, -⟩ := Option.map_eq_some_iff.mp hr
    obtain ⟨t, ht, hres⟩ := Option.bind_eq_some_iff.mp hrr
    exact ⟨t, rr, ht, result?_eq_some.mp hres⟩

theorem Launched.barrierDestroy (h : Launched n s) {r : MainCall.Resp .barrierDestroy} :
    Launched n (s.afterCall .barrierDestroy r main') := by
  refine .of_launch launch_afterCall h.isSome_iff h.started_le ?_ h.max_eq
    (fun i t ht hf => Launch.failed_upd (h.freed i t ht hf)) h.cancelled h.joined
  simp only [afterCall, effect, h.barrier_eq, Option.map_map]
  rfl

/-- **A call that the discipline allows.** -/
theorem Launched.call (h : Launched n s) {c : MainCall} {r : c.Resp}
    (hc : (launch s.mainTrace).MayCall n who c) {env : (c : MainCall) → c.Resp}
    (hr : s.mainAnswer env c = some r) : Launched n (s.afterCall c r main') := by
  cases c with
  | barrierInit m =>
    obtain ⟨rfl, hinit⟩ := hc
    cases r with
    | false => exact h.same rfl rfl rfl h.joined rfl
    | true => exact h.barrierInit hinit
  | threadStart i run st =>
    obtain ⟨hi, -, hg⟩ := hc
    cases r with
    | false => exact h.same rfl rfl rfl h.joined rfl
    | true => exact h.threadStart hi hg
  | threadCancel i => exact h.threadCancel hc.2
  | threadJoin i => exact h.threadJoin hc.2 hr
  | barrierDestroy => exact h.barrierDestroy
  | _ => exact h.same rfl rfl rfl h.joined rfl

end Call

theorem reachable_launched {Q : ρ → Launch → Prop} (hs : Reachable main s)
    (hmain : wp (launching n who) main Q Launch.init) : Launched n s := by
  refine hs.induction launched_init fun s s' hs h hstep => ?_
  rcases hstep.call_or_moves (reachable_wf hs) with ⟨c, k, r, hm, ⟨env, hr⟩, rfl⟩ | hmoves
  · exact h.call (reachable_mayCall hs hmain hm) hr
  · exact h.moves hmoves

/-- **A thread of a state runs what the main thread has started it with**, and what is left of its
program satisfies whatever the program logic proves of the whole. -/
theorem reachable_thread_wp {Q : ρ → Launch → Prop} (hs : Reachable main s)
    (hmain : wp (launching n who) main Q Launch.init) {i : ℕ} {t : Thread}
    (ht : s.threads i = some t) : i < n.toNat ∧ ∃ run st, who i run st ∧
      ∀ {G : Type} {Γ : Spec threadSig G} {Q : RunResult → G → Prop} {g : G},
        wp Γ (platThreadRunFn run st) Q g → Γ.Admits g t.trace →
          wp Γ t.prog Q (Γ.after g t.trace) := by
  obtain ⟨run, st, hmem, hwp⟩ := (reachable_wf hs).thread_wp ht
  obtain ⟨hi, hwho⟩ := who_of_mem hs hmain hmem
  exact ⟨hi, run, st, hwho, hwp⟩

/-- A thread is started once. -/
theorem reachable_start {Q : ρ → Launch → Prop} (hs : Reachable main s)
    (hmain : wp (launching n who) main Q Launch.init) {i : ℕ} {run : RunFn} {st : VmopsBenchRunArg}
    {k : Bool → Prog mainSig ρ} (hm : s.main = .call (MainCall.threadStart i run st) k) :
    s.threads i = none := by
  obtain ⟨-, -, hg⟩ := reachable_mayCall hs hmain hm
  have hiff := (reachable_launched hs hmain).isSome_iff i
  rw [hg] at hiff
  simpa using hiff

/-- A thread of a benchmark run has run the function with the arguments that
`vmops_utils_prepare_args` has filled in for it. -/
theorem reachable_fillArg {cfg : VmopsBenchCfg} {memobjs : ℕ → PlatMemobj} {f : RunFn}
    {s : System (ℤ × (ℕ → VmopsBenchRunArg))}
    (hs : Reachable (vmopsUtilsRunBenchmark cfg.corelistSize (filledArgs cfg memobjs) f) s)
    {i : ℕ} {t : Thread} (ht : s.threads i = some t) : i < cfg.corelistSize.toNat ∧
      Run (platThreadRunFn f (fillArg cfg (memobjs i) i)) t.trace t.prog := by
  obtain ⟨run, st, hmem, hrun⟩ := (reachable_wf hs).thread_run i t ht
  obtain ⟨hi, rfl, rfl⟩ := who_of_mem hs runBenchmark_runsAll hmem
  have harg : filledArgs cfg memobjs i = fillArg cfg (memobjs i) i := if_pos hi
  exact ⟨hi, harg ▸ hrun⟩

end System

end VmopsBench

import VmopsBench.Interact.Spec
import VmopsBench.Benchmarks.Entry

/-!
# A benchmark run: the main thread and its benchmark threads

One run is a main thread, the benchmark threads it has started, a barrier and the
flag of the shootdown benchmark. `VmopsBench.System.step` is one atomic step of
any of them:

* the main thread makes a call, or goes round a loop; a join is answered once the thread
  has returned;
* a thread does the same; its calls succeed or fail and its clock reads as the
  environment likes, but `*done` is read and written for real;
* a thread arrives at the barrier, and from then on it waits;
* the barrier opens, which it can do exactly when as many threads wait as it was
  initialised with, and all of them go on;
* a thread whose cancellation was requested terminates, at any moment at which it
  is not waiting at the barrier.

Which step comes next is not determined, so a property of all reachable states
(`VmopsBench.System.Reachable`) is a property of all interleavings, of all patterns of
failures and of all clocks.

Each thread keeps the list of its answered calls. The point of doing so is
`VmopsBench.System.reachable_wf`: whatever the interleaving, what a thread has
done is a run of its program (`Interact.Run`), so that everything the program
logic proves about the run functions holds of the threads of a system.
-/

namespace VmopsBench

open Interact

/-! ### States -/

/-- A started thread. -/
structure Thread where
  /-- What is left of its program. -/
  prog : Prog threadSig RunResult
  /-- It is inside `pthread_barrier_wait`. -/
  waiting : Bool
  /-- Its cancellation was requested and its `struct plat_thread` was freed. -/
  freed : Bool
  /-- It has been cancelled. -/
  cancelled : Bool
  /-- The calls it has made so far. -/
  trace : List (Event threadSig)

/-- A thread that has been created and has done nothing. -/
def Thread.fresh (run : RunFn) (st : VmopsBenchRunArg) : Thread :=
  ⟨platThreadRunFn run st, false, false, false, []⟩

/-- The result of a thread that has returned. -/
def Thread.result? (t : Thread) : Option RunResult :=
  match t.prog with
  | .ret r => some r
  | _ => none

theorem result?_eq_some {t : Thread} {r : RunResult} : t.result? = some r ↔ t.prog = .ret r := by
  rw [Thread.result?]
  cases t.prog <;> simp

/-- The barrier of a run. -/
structure Barrier where
  max : BitVec 32
  destroyed : Bool

/-- **A state of a run**, whose main thread has results of type `ρ`. -/
structure System (ρ : Type) where
  main : Prog mainSig ρ
  mainTrace : List (Event mainSig)
  threads : ℕ → Option Thread
  barrier : Option Barrier
  done : BitVec 64

/-! ### Steps -/

/-- What a call is answered with: by the flag if it reads the flag, and by the environment
otherwise. -/
def ThreadCall.answer (env : (c : ThreadCall) → c.Resp) (done : BitVec 64) :
    (c : ThreadCall) → c.Resp
  | .loadDone => done
  | c => env c

/-- The flag after a call. -/
def ThreadCall.doneAfter (done : BitVec 64) : ThreadCall → BitVec 64
  | .storeDone v => v
  | _ => done

/-- A step of a thread, and the flag after it. -/
def Thread.advance (env : (c : ThreadCall) → c.Resp) (done : BitVec 64) (t : Thread) :
    Option (Thread × BitVec 64) :=
  if t.waiting || t.cancelled then none
  else match t.prog with
    | .ret _ => none
    | .loop body s k => some ({ t with prog := Prog.unroll body s k }, done)
    | .call c k =>
      if c.isBarrier then some ({ t with waiting := true }, done)
      else some ({ t with
          prog := k (c.answer env done)
          trace := t.trace ++ [⟨c, c.answer env done⟩] }, c.doneAfter done)

/-- The three kinds of steps. -/
inductive Thread.AdvanceCase (env : (c : ThreadCall) → c.Resp) (done : BitVec 64) (t : Thread) :
    Thread → BitVec 64 → Prop where
  | turn {σ β : Type} {body : σ → Prog threadSig (σ ⊕ β)} {x : σ} {k : β → Prog threadSig RunResult}
      (hp : t.prog = .loop body x k) :
      AdvanceCase env done t { t with prog := Prog.unroll body x k } done
  | arrive {site : BarrierSite} {k : Unit → Prog threadSig RunResult}
      (hp : t.prog = .call (ThreadCall.barrier site) k) :
      AdvanceCase env done t { t with waiting := true } done
  | call {c : ThreadCall} {k : c.Resp → Prog threadSig RunResult} (hp : t.prog = .call c k)
      (hc : c.isBarrier = false) :
      AdvanceCase env done t { t with
        prog := k (c.answer env done)
        trace := t.trace ++ [⟨c, c.answer env done⟩] } (c.doneAfter done)

theorem Thread.advance_cases {env : (c : ThreadCall) → c.Resp} {done d : BitVec 64} {t t' : Thread}
    (h : t.advance env done = some (t', d)) : t.waiting = false ∧ t.AdvanceCase env done t' d := by
  rw [Thread.advance] at h
  split at h
  · cases h
  · rename_i hidle
    refine ⟨by simp_all, ?_⟩
    cases hp : t.prog with
    | ret a => simp [hp] at h
    | loop body x k =>
      simp only [hp, Option.some.injEq, Prod.mk.injEq] at h
      obtain ⟨rfl, rfl⟩ := h
      exact .turn hp
    | call c k =>
      simp only [hp] at h
      split at h
      · rename_i hc
        obtain ⟨rfl, rfl⟩ := Prod.mk.inj (Option.some.inj h)
        cases c <;> simp only [ThreadCall.isBarrier, Bool.false_eq_true] at hc
        rw [← hp]
        exact .arrive hp
      · rename_i hc
        obtain ⟨rfl, rfl⟩ := Prod.mk.inj (Option.some.inj h)
        exact .call hp (by simpa using hc)

/-- What the opening of the barrier does to a thread. -/
def Thread.release (t : Thread) : Thread :=
  if t.waiting then
    match t.prog with
    | .call (.barrier site) k =>
      { t with prog := k (), waiting := false, trace := t.trace ++ [⟨.barrier site, ()⟩] }
    | _ => t
  else t

/-- **What one step makes of a thread**, unless the main thread creates it or requests its
cancellation. -/
inductive Thread.Move (t : Thread) : Thread → Prop where
  | stay : Move t t
  | turn {σ β : Type} {body : σ → Prog threadSig (σ ⊕ β)} {x : σ} {k : β → Prog threadSig RunResult}
      (hw : t.waiting = false) (hp : t.prog = .loop body x k) :
      Move t { t with prog := Prog.unroll body x k }
  | arrive {site : BarrierSite} {k : Unit → Prog threadSig RunResult} (hw : t.waiting = false)
      (hp : t.prog = .call (ThreadCall.barrier site) k) : Move t { t with waiting := true }
  | call {c : ThreadCall} {k : c.Resp → Prog threadSig RunResult} (r : c.Resp)
      (hw : t.waiting = false) (hp : t.prog = .call c k) (hc : c.isBarrier = false) :
      Move t { t with prog := k r, trace := t.trace ++ [⟨c, r⟩] }
  | pass {site : BarrierSite} {k : Unit → Prog threadSig RunResult} (hw : t.waiting = true)
      (hp : t.prog = .call (ThreadCall.barrier site) k) :
      Move t { t with
        prog := k (), waiting := false, trace := t.trace ++ [⟨ThreadCall.barrier site, ()⟩] }
  | cancel (hw : t.waiting = false) (hf : t.freed = true) : Move t { t with cancelled := true }

theorem Thread.Move.freed_eq {t u : Thread} (h : t.Move u) : u.freed = t.freed := by
  cases h <;> rfl

theorem Thread.Move.freed_of_cancelled {t u : Thread} (h : t.Move u)
    (ht : t.cancelled = true → t.freed = true) (hu : u.cancelled = true) : u.freed = true := by
  cases h with
  | cancel hw hf => exact hf
  | _ => exact ht hu

/-- A thread that has returned has done so for good. -/
theorem Thread.Move.returned {t u : Thread} (h : t.Move u) {r : RunResult} (hr : t.prog = .ret r) :
    u.prog = .ret r := by
  cases h with
  | stay => exact hr
  | turn hw hp => simp [hp] at hr
  | arrive hw hp => exact hr
  | call a hw hp hc => simp [hp] at hr
  | pass hw hp => simp [hp] at hr
  | cancel hw hf => exact hr

namespace System

variable {ρ : Type}

/-- The value of the main thread, once it has returned. -/
def value? (s : System ρ) : Option ρ :=
  match s.main with
  | .ret r => some r
  | _ => none

theorem value?_eq_some {s : System ρ} {r : ρ} : s.value? = some r ↔ s.main = .ret r := by
  rw [value?]
  cases s.main <;> simp

/-- The state before the main thread does anything. -/
def init (main : Prog mainSig ρ) : System ρ := ⟨main, [], fun _ => none, none, 0⟩

/-- Replace a thread. -/
def setThread (s : System ρ) (i : ℕ) (t : Thread) : System ρ :=
  { s with threads := Function.update s.threads i (some t) }

/-- The thread with index `i` waits at the barrier. -/
def isWaiting (s : System ρ) (i : ℕ) : Bool := (s.threads i).any Thread.waiting

/-- The thread with index `i` has returned. -/
def hasReturned (s : System ρ) (i : ℕ) : Bool := ((s.threads i).bind Thread.result?).isSome

theorem isWaiting_eq_true {s : System ρ} {i : ℕ} :
    s.isWaiting i = true ↔ ∃ t, s.threads i = some t ∧ t.waiting = true := by
  rw [isWaiting]
  cases s.threads i <;> simp

/-- How many of the first `n` threads wait at the barrier. -/
def waitingCount (s : System ρ) (n : ℕ) : ℕ := (List.range n).countP s.isWaiting

/-- What a call of the main thread is answered with, if it can be answered. -/
def mainAnswer (s : System ρ) (env : (c : MainCall) → c.Resp) : (c : MainCall) → Option c.Resp
  | .threadJoin i => ((s.threads i).bind Thread.result?).map RunResult.arg
  | c => some (env c)

/-- What a call of the main thread does to the others. -/
def effect (s : System ρ) : (c : MainCall) → c.Resp → System ρ
  | .barrierInit n, r => if r then { s with barrier := some ⟨n, false⟩ } else s
  | .threadStart i run st, r => if r then s.setThread i (Thread.fresh run st) else s
  | .threadCancel i, _ =>
    { s with
      threads := Function.update s.threads i ((s.threads i).map fun t => { t with freed := true }) }
  | .barrierDestroy, _ => { s with barrier := s.barrier.map fun b => { b with destroyed := true } }
  | _, _ => s

/-- The state after an answered call of the main thread. -/
def afterCall (s : System ρ) (c : MainCall) (r : c.Resp) (main' : Prog mainSig ρ) : System ρ :=
  { s.effect c r with main := main', mainTrace := s.mainTrace ++ [⟨c, r⟩] }

section AfterCall

variable {s : System ρ} {c : MainCall} {r : c.Resp} {main' : Prog mainSig ρ}

theorem afterCall_threads : (s.afterCall c r main').threads = (s.effect c r).threads := rfl

theorem afterCall_barrier : (s.afterCall c r main').barrier = (s.effect c r).barrier := rfl

theorem afterCall_done : (s.afterCall c r main').done = (s.effect c r).done := rfl

end AfterCall

/-- Who takes a step, and what the environment answers. -/
inductive Label where
  /-- The main thread. -/
  | main (env : (c : MainCall) → c.Resp)
  /-- A thread. -/
  | thread (i : ℕ) (env : (c : ThreadCall) → c.Resp)
  /-- The barrier opens. -/
  | openBarrier
  /-- A requested cancellation takes effect. -/
  | cancel (i : ℕ)

/-- **One step of a run**, if it is possible. -/
def step (s : System ρ) : Label → Option (System ρ)
  | .main env => match s.main with
    | .ret _ => none
    | .loop body x k => some { s with main := Prog.unroll body x k }
    | .call c k => (s.mainAnswer env c).map fun r =>
      { s.effect c r with main := k r, mainTrace := s.mainTrace ++ [⟨c, r⟩] }
  | .thread i env => match s.threads i with
    | none => none
    | some t => (t.advance env s.done).map fun p => { s.setThread i p.1 with done := p.2 }
  | .openBarrier => match s.barrier with
    | none => none
    | some b =>
      if s.waitingCount b.max.toNat = b.max.toNat then
        some { s with threads := fun i => (s.threads i).map Thread.release }
      else none
  | .cancel i => match s.threads i with
    | none => none
    | some t =>
      if t.freed && !t.waiting && t.result?.isNone then
        some (s.setThread i { t with cancelled := true })
      else none

/-- A sequence of steps. -/
def exec (s : System ρ) : List Label → Option (System ρ)
  | [] => some s
  | l :: ls => (s.step l).bind fun s' => s'.exec ls

/-- **The reachable states** of the runs of a main program. -/
def Reachable (main : Prog mainSig ρ) : System ρ → Prop :=
  Relation.ReflTransGen (fun s s' => ∃ l, s.step l = some s') (init main)

theorem reachable_of_exec {s s' : System ρ} {ls : List Label} (h : s.exec ls = some s') :
    Relation.ReflTransGen (fun s s' => ∃ l, s.step l = some s') s s' := by
  induction ls generalizing s with
  | nil =>
    obtain rfl : s = s' := Option.some.inj h
    exact .refl
  | cons l ls ih =>
    obtain ⟨u, hu, hrest⟩ := Option.bind_eq_some_iff.mp h
    exact .head ⟨l, hu⟩ (ih hrest)

/-- What an execution reaches is reachable. -/
theorem exists_reachable_of_exec {main : Prog mainSig ρ} {P : System ρ → Prop} [DecidablePred P]
    (ls : List Label) (h : ((init main).exec ls).any (fun s => decide (P s)) = true) :
    ∃ s, Reachable main s ∧ P s := by
  cases hs : (init main).exec ls with
  | none => simp [hs] at h
  | some s => exact ⟨s, reachable_of_exec hs, by simpa [hs] using h⟩

/-! ### What a step can be -/

/-- **The possible steps**, one constructor for each thing that can happen. -/
inductive StepCase (s : System ρ) : System ρ → Prop where
  /-- The main thread goes round a loop. -/
  | mainTurn {σ β : Type} {body : σ → Prog mainSig (σ ⊕ β)} {x : σ} {k : β → Prog mainSig ρ}
      (hm : s.main = .loop body x k) : StepCase s { s with main := Prog.unroll body x k }
  /-- The main thread makes a call. -/
  | mainCall {c : MainCall} {k : c.Resp → Prog mainSig ρ} {r : c.Resp}
      {env : (c : MainCall) → c.Resp} (hm : s.main = .call c k)
      (hr : s.mainAnswer env c = some r) :
      StepCase s { s.effect c r with main := k r, mainTrace := s.mainTrace ++ [⟨c, r⟩] }
  /-- A thread goes round a loop. -/
  | turn {i : ℕ} {t : Thread} {σ β : Type} {body : σ → Prog threadSig (σ ⊕ β)} {x : σ}
      {k : β → Prog threadSig RunResult} (ht : s.threads i = some t) (hw : t.waiting = false)
      (hp : t.prog = .loop body x k) :
      StepCase s (s.setThread i { t with prog := Prog.unroll body x k })
  /-- A thread arrives at the barrier. -/
  | arrive {i : ℕ} {t : Thread} {site : BarrierSite} {k : Unit → Prog threadSig RunResult}
      (ht : s.threads i = some t) (hw : t.waiting = false)
      (hp : t.prog = .call (ThreadCall.barrier site) k) :
      StepCase s (s.setThread i { t with waiting := true })
  /-- A thread makes a call. -/
  | call {i : ℕ} {t : Thread} {c : ThreadCall} {k : c.Resp → Prog threadSig RunResult}
      {env : (c : ThreadCall) → c.Resp} (ht : s.threads i = some t) (hw : t.waiting = false)
      (hp : t.prog = .call c k) (hc : c.isBarrier = false) :
      StepCase s { s.setThread i { t with
          prog := k (c.answer env s.done)
          trace := t.trace ++ [⟨c, c.answer env s.done⟩] } with done := c.doneAfter s.done }
  /-- The barrier opens. -/
  | opened {b : Barrier} (hb : s.barrier = some b)
      (hn : s.waitingCount b.max.toNat = b.max.toNat) :
      StepCase s { s with threads := fun i => (s.threads i).map Thread.release }
  /-- A thread is cancelled. -/
  | cancelled {i : ℕ} {t : Thread} (ht : s.threads i = some t) (hw : t.waiting = false)
      (hf : t.freed = true) : StepCase s (s.setThread i { t with cancelled := true })

/-- A step of the main thread. -/
theorem step_main {s s' : System ρ} {env : (c : MainCall) → c.Resp}
    (h : s.step (.main env) = some s') :
    (∃ (σ β : Type) (body : σ → Prog mainSig (σ ⊕ β)) (x : σ) (k : β → Prog mainSig ρ),
      s.main = .loop body x k ∧ s' = { s with main := Prog.unroll body x k }) ∨
    ∃ c k r, s.main = .call c k ∧ s.mainAnswer env c = some r ∧ s' = s.afterCall c r (k r) := by
  cases hm : s.main with
  | ret a => simp [step, hm] at h
  | loop body x k =>
    obtain rfl := Option.some.inj (by simpa only [step, hm] using h)
    exact Or.inl ⟨_, _, body, x, k, rfl, rfl⟩
  | call c k =>
    simp only [step, hm] at h
    obtain ⟨r, hr, rfl⟩ := Option.map_eq_some_iff.mp h
    exact Or.inr ⟨c, k, r, rfl, hr, rfl⟩

/-- A step of a thread. -/
theorem step_thread {s s' : System ρ} {i : ℕ} {env : (c : ThreadCall) → c.Resp}
    (h : s.step (.thread i env) = some s') : ∃ t t' d, s.threads i = some t ∧
      t.advance env s.done = some (t', d) ∧ s' = { s.setThread i t' with done := d } := by
  cases ht : s.threads i with
  | none => simp [step, ht] at h
  | some t =>
    simp only [step, ht] at h
    obtain ⟨⟨t', d⟩, ha, rfl⟩ := Option.map_eq_some_iff.mp h
    exact ⟨t, t', d, rfl, ha, rfl⟩

/-- The barrier opens. -/
theorem step_openBarrier {s s' : System ρ} (h : s.step .openBarrier = some s') :
    ∃ b, s.barrier = some b ∧ s.waitingCount b.max.toNat = b.max.toNat ∧
      s' = { s with threads := fun i => (s.threads i).map Thread.release } := by
  cases hb : s.barrier with
  | none => simp [step, hb] at h
  | some b =>
    simp only [step, hb] at h
    split at h
    · rename_i hn
      obtain rfl := Option.some.inj h
      exact ⟨b, rfl, hn, rfl⟩
    · cases h

/-- A cancellation takes effect. -/
theorem step_cancel {s s' : System ρ} {i : ℕ} (h : s.step (.cancel i) = some s') :
    ∃ t, s.threads i = some t ∧ t.waiting = false ∧ t.freed = true ∧
      s' = s.setThread i { t with cancelled := true } := by
  cases ht : s.threads i with
  | none => simp [step, ht] at h
  | some t =>
    simp only [step, ht] at h
    split at h
    · rename_i hc
      obtain rfl := Option.some.inj h
      exact ⟨t, rfl, by simp_all, by simp_all, rfl⟩
    · cases h

/-- **A step is one of the possible steps.** -/
theorem step_cases {s s' : System ρ} {l : Label} (h : s.step l = some s') : StepCase s s' := by
  cases l with
  | main env =>
    rcases step_main h with ⟨σ, β, body, x, k, hm, rfl⟩ | ⟨c, k, r, hm, hr, rfl⟩
    · exact .mainTurn hm
    · exact .mainCall hm hr
  | thread i env =>
    obtain ⟨t, t', d, ht, ha, rfl⟩ := step_thread h
    obtain ⟨hw, hadv⟩ := Thread.advance_cases ha
    cases hadv with
    | turn hp => exact .turn ht hw hp
    | arrive hp => exact .arrive ht hw hp
    | call hp hc => exact .call ht hw hp hc
  | openBarrier =>
    obtain ⟨b, hb, hn, rfl⟩ := step_openBarrier h
    exact .opened hb hn
  | cancel i =>
    obtain ⟨t, ht, hw, hf, rfl⟩ := step_cancel h
    exact .cancelled ht hw hf

/-- **Induction over the reachable states**: a property of the initial state that
every step keeps holds throughout. -/
theorem Reachable.induction {main : Prog mainSig ρ} {P : System ρ → Prop} (h0 : P (init main))
    (hstep : ∀ s s', Reachable main s → P s → StepCase s s' → P s') {s : System ρ}
    (hs : Reachable main s) : P s := by
  induction hs with
  | refl => exact h0
  | tail hr hl ih =>
    obtain ⟨l, hl⟩ := hl
    exact hstep _ _ hr ih (step_cases hl)

/-! ### What threads have done are runs of their programs -/

theorem setThread_threads {s : System ρ} {i j : ℕ} {t u : Thread}
    (h : (s.setThread i t).threads j = some u) :
    (j = i ∧ u = t) ∨ (j ≠ i ∧ s.threads j = some u) := by
  rcases eq_or_ne j i with rfl | hne
  · exact Or.inl ⟨rfl, by simpa [setThread] using h.symm⟩
  · exact Or.inr ⟨hne, by simpa [setThread, Function.update_of_ne hne] using h⟩

/-- The start of a thread, as an event of the main thread. -/
def startEvent (i : ℕ) (run : RunFn) (st : VmopsBenchRunArg) : Event mainSig :=
  ⟨MainCall.threadStart i run st, true⟩

/-- **What a call of the main thread does to a thread**: it creates it, or it leaves
its program, its trace and its place at the barrier alone. -/
theorem effect_threads {s : System ρ} {c : MainCall} {r : c.Resp} {j : ℕ} {u : Thread}
    (h : (s.effect c r).threads j = some u) :
    (∃ run st, (⟨c, r⟩ : Event mainSig) = startEvent j run st ∧ u = Thread.fresh run st) ∨
      ∃ t, s.threads j = some t ∧ u.prog = t.prog ∧ u.waiting = t.waiting ∧ u.trace = t.trace ∧
        u.cancelled = t.cancelled := by
  cases c with
  | threadStart i run st =>
    cases r with
    | false => exact Or.inr ⟨u, h, rfl, rfl, rfl, rfl⟩
    | true =>
      rcases setThread_threads h with ⟨rfl, rfl⟩ | ⟨-, hu⟩
      · exact Or.inl ⟨run, st, rfl, rfl⟩
      · exact Or.inr ⟨u, hu, rfl, rfl, rfl, rfl⟩
  | threadCancel i =>
    rcases eq_or_ne j i with rfl | hne
    · simp only [effect, Function.update_self] at h
      obtain ⟨t, ht, rfl⟩ := Option.map_eq_some_iff.mp h
      exact Or.inr ⟨t, ht, rfl, rfl, rfl, rfl⟩
    · exact Or.inr ⟨u, by simpa [effect, Function.update_of_ne hne] using h, rfl, rfl, rfl, rfl⟩
  | barrierInit n => cases r <;> exact Or.inr ⟨u, h, rfl, rfl, rfl, rfl⟩
  | _ => exact Or.inr ⟨u, h, rfl, rfl, rfl, rfl⟩

/-- **Every party of a state has run its program**, and a thread that waits is at
a barrier call. -/
structure Wf (main : Prog mainSig ρ) (s : System ρ) : Prop where
  main_run : Run main s.mainTrace s.main
  thread_run : ∀ i t, s.threads i = some t → ∃ run st, startEvent i run st ∈ s.mainTrace ∧
    Run (platThreadRunFn run st) t.trace t.prog
  waiting : ∀ i t, s.threads i = some t → t.waiting = true →
    ∃ site k, t.prog = .call (ThreadCall.barrier site) k

theorem release_waiting {t : Thread} {site : BarrierSite} {k : Unit → Prog threadSig RunResult}
    (hw : t.waiting = true) (hp : t.prog = .call (ThreadCall.barrier site) k) :
    t.release = { t with
      prog := k (), waiting := false, trace := t.trace ++ [⟨ThreadCall.barrier site, ()⟩] } := by
  simp [Thread.release, hw, hp]

theorem release_idle {t : Thread} (hw : t.waiting = false) : t.release = t := by
  simp [Thread.release, hw]

/-- A step of one thread. -/
theorem Wf.setThread {main : Prog mainSig ρ} {s : System ρ} (h : Wf main s) {i : ℕ} {t u : Thread}
    {d : BitVec 64} (ht : s.threads i = some t)
    (hrun : ∀ p : Prog threadSig RunResult, Run p t.trace t.prog → Run p u.trace u.prog)
    (hwait : u.waiting = true → ∃ site k, u.prog = .call (ThreadCall.barrier site) k) :
    Wf main { s.setThread i u with done := d } := by
  refine ⟨h.main_run, fun j v hv => ?_, fun j v hv hw => ?_⟩
  · rcases setThread_threads hv with ⟨rfl, rfl⟩ | ⟨-, hv⟩
    · obtain ⟨run, st, hmem, ht⟩ := h.thread_run j t ht
      exact ⟨run, st, hmem, hrun _ ht⟩
    · exact h.thread_run j v hv
  · rcases setThread_threads hv with ⟨rfl, rfl⟩ | ⟨-, hv⟩
    · exact hwait hw
    · exact h.waiting j v hv hw

/-- A call of the main thread. -/
theorem Wf.call {main : Prog mainSig ρ} {s : System ρ} (h : Wf main s) {c : MainCall} {r : c.Resp}
    {k : c.Resp → Prog mainSig ρ} (hm : s.main = .call c k) : Wf main (s.afterCall c r (k r)) := by
  refine ⟨(hm ▸ h.main_run).answer r, fun j u hu => ?_, fun j u hu hw => ?_⟩
  · rcases effect_threads hu with ⟨run, st, he, rfl⟩ | ⟨t, ht, hp, -, htr, -⟩
    · exact ⟨run, st, by simp [afterCall, he], .nil _⟩
    · obtain ⟨run, st, hmem, hrun⟩ := h.thread_run j t ht
      exact ⟨run, st, List.mem_append_left _ hmem, by rwa [hp, htr]⟩
  · rcases effect_threads hu with ⟨run, st, -, rfl⟩ | ⟨t, ht, hp, hwt, -, -⟩
    · cases hw
    · rw [hp]
      exact h.waiting j t ht (hwt ▸ hw)

/-- The barrier opens. -/
theorem Wf.opened {main : Prog mainSig ρ} {s : System ρ} (h : Wf main s) :
    Wf main { s with threads := fun i => (s.threads i).map Thread.release } := by
  refine ⟨h.main_run, fun j u hu => ?_, fun j u hu hwu => ?_⟩
  · obtain ⟨t, ht, rfl⟩ := Option.map_eq_some_iff.mp hu
    obtain ⟨run, st, hmem, hrun⟩ := h.thread_run j t ht
    refine ⟨run, st, hmem, ?_⟩
    cases hw : t.waiting with
    | false => rwa [release_idle hw]
    | true =>
      obtain ⟨site, k, hp⟩ := h.waiting j t ht hw
      rw [release_waiting hw hp]
      exact (hp ▸ hrun).answer ()
  · obtain ⟨t, ht, rfl⟩ := Option.map_eq_some_iff.mp hu
    cases hw : t.waiting with
    | false => exact absurd hwu (by simp [release_idle hw, hw])
    | true =>
      obtain ⟨site, k, hp⟩ := h.waiting j t ht hw
      exact absurd hwu (by simp [release_waiting hw hp])

/-- **The interleaving is invisible to a thread**: in every reachable state each
party has run its own program. -/
theorem reachable_wf {main : Prog mainSig ρ} {s : System ρ} (hs : Reachable main s) :
    Wf main s := by
  refine hs.induction ⟨.nil _, fun i t h => (by cases h), fun i t h => (by cases h)⟩ ?_
  rintro s s' - h hstep
  cases hstep with
  | mainTurn hm => exact ⟨(hm ▸ h.main_run).again, h.thread_run, h.waiting⟩
  | mainCall hm hr => exact h.call hm
  | turn ht hw hp =>
    exact h.setThread ht (fun p hrun => (hp ▸ hrun).again) fun hwu => absurd hwu (by simp [hw])
  | arrive ht hw hp => exact h.setThread ht (fun _ hrun => hrun) fun _ => ⟨_, _, hp⟩
  | call ht hw hp hc =>
    exact h.setThread ht (fun p hrun => (hp ▸ hrun).answer _) fun hwu => absurd hwu (by simp [hw])
  | opened hb hn => exact h.opened
  | @cancelled i t ht hw hf => exact h.setThread ht (fun _ hrun => hrun) (h.waiting i t ht)

/-! ### What a step makes of the threads -/

/-- **The threads move on** while the main thread makes no call: each of them stays, or makes one
step of its own, or passes the barrier. -/
structure Moves (s s' : System ρ) : Prop where
  mainTrace_eq : s'.mainTrace = s.mainTrace
  barrier_eq : s'.barrier = s.barrier
  threads : ∀ j, Option.Rel Thread.Move (s.threads j) (s'.threads j)

theorem Moves.exists_before {s s' : System ρ} (h : Moves s s') {j : ℕ} {u : Thread}
    (hu : s'.threads j = some u) : ∃ t, s.threads j = some t ∧ t.Move u := by
  have hrel := h.threads j
  rw [hu] at hrel
  cases ht : s.threads j with
  | none =>
    rw [ht] at hrel
    cases hrel
  | some t =>
    rw [ht] at hrel
    cases hrel with
    | some hmove => exact ⟨t, rfl, hmove⟩

theorem Moves.exists_after {s s' : System ρ} (h : Moves s s') {j : ℕ} {t : Thread}
    (ht : s.threads j = some t) : ∃ u, s'.threads j = some u ∧ t.Move u := by
  have hrel := h.threads j
  rw [ht] at hrel
  cases hu : s'.threads j with
  | none =>
    rw [hu] at hrel
    cases hrel
  | some u =>
    rw [hu] at hrel
    cases hrel with
    | some hmove => exact ⟨u, rfl, hmove⟩

theorem Moves.isSome_eq {s s' : System ρ} (h : Moves s s') (j : ℕ) :
    (s'.threads j).isSome = (s.threads j).isSome := by
  cases hu : s'.threads j with
  | some u =>
    obtain ⟨t, ht, -⟩ := h.exists_before hu
    rw [ht, Option.isSome_some, Option.isSome_some]
  | none =>
    cases ht : s.threads j with
    | none => rfl
    | some t =>
      obtain ⟨u, hu', -⟩ := h.exists_after ht
      rw [hu] at hu'
      cases hu'

theorem moves_setThread {s : System ρ} {i : ℕ} {t u : Thread} {d : BitVec 64}
    (ht : s.threads i = some t) (hm : t.Move u) :
    Moves s { s.setThread i u with done := d } := by
  refine ⟨rfl, rfl, fun j => ?_⟩
  rcases eq_or_ne j i with rfl | hne
  · simpa [setThread, ht] using hm
  · simp only [setThread, Function.update_of_ne hne]
    cases s.threads j with
    | none => exact .none
    | some u => exact .some .stay

/-- **Every step is a call of the main thread, or moves the threads on.** -/
theorem StepCase.call_or_moves {main : Prog mainSig ρ} {s s' : System ρ} (hwf : Wf main s)
    (h : StepCase s s') :
    (∃ c k r, s.main = .call c k ∧ (∃ env, s.mainAnswer env c = some r) ∧
      s' = s.afterCall c r (k r)) ∨ Moves s s' := by
  have hstay : ∀ o : Option Thread, Option.Rel Thread.Move o o
    | none => .none
    | some _ => .some .stay
  cases h with
  | mainCall hm hr => exact Or.inl ⟨_, _, _, hm, ⟨_, hr⟩, rfl⟩
  | mainTurn hm => exact Or.inr ⟨rfl, rfl, fun j => hstay _⟩
  | turn ht hw hp => exact Or.inr (moves_setThread ht (.turn hw hp))
  | arrive ht hw hp => exact Or.inr (moves_setThread ht (.arrive hw hp))
  | call ht hw hp hc => exact Or.inr (moves_setThread ht (.call _ hw hp hc))
  | cancelled ht hw hf => exact Or.inr (moves_setThread ht (.cancel hw hf))
  | opened hb hn =>
    refine Or.inr ⟨rfl, rfl, fun j => ?_⟩
    dsimp only
    cases ht : s.threads j with
    | none => exact .none
    | some t =>
      cases hw : t.waiting with
      | false =>
        rw [Option.map_some, release_idle hw]
        exact .some .stay
      | true =>
        obtain ⟨site, k, hp⟩ := hwf.waiting j t ht hw
        rw [Option.map_some, release_waiting hw hp]
        exact .some (.pass hw hp)

/-! ### What the program logic says of a state -/

/-- The rest of the main program satisfies what the program logic proves of the whole. -/
theorem reachable_main_wp {main : Prog mainSig ρ} {s : System ρ} (hs : Reachable main s) {G : Type}
    {Γ : Spec mainSig G} {Q : ρ → G → Prop} {g : G} (hwp : wp Γ main Q g)
    (henv : Γ.Admits g s.mainTrace) : wp Γ s.main Q (Γ.after g s.mainTrace) :=
  (wp_run (reachable_wf hs).main_run hwp henv).2

/-- So does the rest of a thread's program. -/
theorem Wf.thread_wp {main : Prog mainSig ρ} {s : System ρ} (h : Wf main s) {i : ℕ} {t : Thread}
    (ht : s.threads i = some t) : ∃ run st, startEvent i run st ∈ s.mainTrace ∧
      ∀ {G : Type} {Γ : Spec threadSig G} {Q : RunResult → G → Prop} {g : G},
        wp Γ (platThreadRunFn run st) Q g → Γ.Admits g t.trace →
          wp Γ t.prog Q (Γ.after g t.trace) := by
  obtain ⟨run, st, hmem, hrun⟩ := h.thread_run i t ht
  exact ⟨run, st, hmem, fun hwp henv => (wp_run hrun hwp henv).2⟩

end System

end VmopsBench

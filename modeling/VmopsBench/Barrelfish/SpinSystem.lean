import VmopsBench.Barrelfish.Barrier
import VmopsBench.Concurrent.System

/-!
# A benchmark run over the spin barrier

The composed system of `VmopsBench.Concurrent.System`, with the barrier it has on Barrelfish. A
thread that comes to a `plat_thread_barrier` calls `pthread_barrier_wait`, makes its accesses to the
shared words of the barrier one by one among the steps of everybody else, and goes on when the
function has returned. There is no step of the barrier itself.

`VmopsBench.Barrelfish.SpinSystem` has a state of the composed system, in which a thread is marked
as waiting from its call to its return, and the barrier with what is left of the calls
(`VmopsBench.Barrelfish.Waiters`). There are `N` threads at most, for as many as the
barrier is initialised. A cancellation never takes effect: `plat_thread_cancel` frees the
descriptor of the thread, and warns that it is not implemented.
-/

namespace VmopsBench

namespace Barrelfish

open Interact

/-- **A state of a run over the spin barrier.** -/
structure SpinSystem (N : ℕ) (ρ : Type) where
  /-- The threads; one that waits is inside `pthread_barrier_wait`. -/
  sys : System ρ
  /-- The barrier, and what is left of the calls of `pthread_barrier_wait`. -/
  waiters : Waiters N

namespace SpinSystem

variable {N : ℕ} {ρ : Type}

/-- The state before the main thread does anything. -/
def init (N : ℕ) (main : Prog mainSig ρ) : SpinSystem N ρ := ⟨System.init main, Waiters.init N⟩

/-- Who takes a step, and what the environment answers. -/
inductive Label (N : ℕ) where
  /-- The main thread. -/
  | main (env : (c : MainCall) → c.Resp)
  /-- A thread. -/
  | thread (i : Fin N) (env : (c : ThreadCall) → c.Resp)

/-- A step of a thread that is inside `pthread_barrier_wait`: its next access, or its return. -/
def waitStep (s : SpinSystem N ρ) (i : Fin N) (t : Thread) : SpinSystem N ρ :=
  match (s.waiters.thread i).prog with
  | .ret () => { s with sys := s.sys.setThread i t.release }
  | _ => { s with waiters := s.waiters.step i }

/-- A thread has arrived at a `plat_thread_barrier`: it calls `pthread_barrier_wait`. -/
def enterStep (s : SpinSystem N ρ) (i : Fin N) (sys : System ρ) : SpinSystem N ρ :=
  if sys.isWaiting i then ⟨sys, s.waiters.step i⟩ else ⟨sys, s.waiters⟩

/-- **One step of a run over the spin barrier**, if it is possible. -/
def step (s : SpinSystem N ρ) : Label N → Option (SpinSystem N ρ)
  | .main env => (s.sys.step (.main env)).map fun sys => { s with sys }
  | .thread i env => match s.sys.threads i with
    | none => none
    | some t =>
      if t.waiting then some (s.waitStep i t)
      else (s.sys.step (.thread i env)).map (s.enterStep i)

/-- **The reachable states** of the runs of a main program. -/
def Reachable (main : Prog mainSig ρ) : SpinSystem N ρ → Prop :=
  Relation.ReflTransGen (fun s s' => ∃ l, s.step l = some s') (init N main)

/-- A sequence of steps. -/
def exec (s : SpinSystem N ρ) : List (Label N) → Option (SpinSystem N ρ)
  | [] => some s
  | l :: ls => (s.step l).bind fun s' => s'.exec ls

theorem reachable_of_exec {main : Prog mainSig ρ} {s u : SpinSystem N ρ} {ls : List (Label N)}
    (hu : Reachable main u) (h : u.exec ls = some s) : Reachable main s := by
  induction ls generalizing u with
  | nil =>
    obtain rfl : u = s := Option.some.inj h
    exact hu
  | cons l ls ih =>
    obtain ⟨v, hv, hrest⟩ := Option.bind_eq_some_iff.mp h
    exact ih (hu.tail ⟨l, hv⟩) hrest

/-- What an execution reaches is reachable. -/
theorem exists_reachable_of_exec {main : Prog mainSig ρ} {P : SpinSystem N ρ → Prop}
    [DecidablePred P] (ls : List (Label N))
    (h : ((init N main).exec ls).any (fun s => decide (P s)) = true) :
    ∃ s, Reachable main s ∧ P s := by
  cases hs : (init N main).exec ls with
  | none => simp [hs] at h
  | some s => exact ⟨s, reachable_of_exec .refl hs, by simpa [hs] using h⟩

/-! ### What a step can be -/

/-- **The possible steps of a thread.** -/
inductive ThreadCase (s : SpinSystem N ρ) (i : Fin N) (env : (c : ThreadCall) → c.Resp) :
    SpinSystem N ρ → Prop where
  /-- It returns from `pthread_barrier_wait`. -/
  | leave {t : Thread} (ht : s.sys.threads i = some t) (hw : t.waiting = true)
      (hp : (s.waiters.thread i).prog = .ret ()) :
      ThreadCase s i env { s with sys := s.sys.setThread i t.release }
  /-- It goes on inside. -/
  | wait {t : Thread} (ht : s.sys.threads i = some t) (hw : t.waiting = true)
      (hp : (s.waiters.thread i).prog ≠ .ret ()) :
      ThreadCase s i env { s with waiters := s.waiters.step i }
  /-- It calls `pthread_barrier_wait`. -/
  | enter {t : Thread} {site : BarrierSite} {k : Unit → Prog threadSig RunResult}
      (ht : s.sys.threads i = some t) (hw : t.waiting = false)
      (hp : t.prog = .call (ThreadCall.barrier site) k) (hc : t.cancelled = false) :
      ThreadCase s i env ⟨s.sys.setThread i { t with waiting := true }, s.waiters.step i⟩
  /-- It makes another step. -/
  | other {t u : Thread} {d : BitVec 64} (ht : s.sys.threads i = some t) (hw : t.waiting = false)
      (hadv : t.advance env s.sys.done = some (u, d)) (hu : u.waiting = false) :
      ThreadCase s i env { s with sys := { s.sys.setThread i u with done := d } }

/-- A thread that moves is not cancelled. -/
theorem cancelled_of_advance {t : Thread} {env : (c : ThreadCall) → c.Resp} {done : BitVec 64}
    {p : Thread × BitVec 64} (h : t.advance env done = some p) : t.cancelled = false := by
  cases hc : t.cancelled with
  | false => rfl
  | true => simp [Thread.advance, hc] at h

theorem thread_cases {s s' : SpinSystem N ρ} {i : Fin N} {env : (c : ThreadCall) → c.Resp}
    (h : s.step (.thread i env) = some s') : ThreadCase s i env s' := by
  cases ht : s.sys.threads i with
  | none => simp [step, ht] at h
  | some t =>
    simp only [step, ht] at h
    cases hw : t.waiting with
    | true =>
      rw [hw, if_pos rfl] at h
      obtain rfl := Option.some.inj h
      rw [waitStep]
      split
      · next hp => exact .leave ht hw hp
      · next hp => exact .wait ht hw hp
    | false =>
      rw [hw, if_neg Bool.false_ne_true] at h
      obtain ⟨sys, hsys, rfl⟩ := Option.map_eq_some_iff.mp h
      obtain ⟨t', u, d, ht', hadv, rfl⟩ := System.step_thread hsys
      obtain rfl : t = t' := Option.some.inj (ht.symm.trans ht')
      have hwaiting : System.isWaiting { s.sys.setThread i u with done := d } i = u.waiting := by
        simp [System.isWaiting, System.setThread]
      rw [enterStep, hwaiting]
      -- only a thread at a barrier call is waiting after its step
      cases (Thread.advance_cases hadv).2 with
      | turn hp =>
        rw [if_neg (by simp [hw])]
        exact .other ht hw hadv hw
      | arrive hp => exact .enter ht hw hp (cancelled_of_advance hadv)
      | call hp hc =>
        rw [if_neg (by simp [hw])]
        exact .other ht hw hadv hw

end SpinSystem

end Barrelfish

end VmopsBench

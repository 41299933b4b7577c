import VmopsBench.Concurrent.Launched
import VmopsBench.Platform.PageTable

/-!
# The calls of all threads, in order

The traces of the threads of a state say what each of them has done, and not in
which order they have done it. What they do to the address space they share depends on that
order, so it is recorded here: `VmopsBench.System.Recorded` are the reachable
states together with the history of all answered calls but the barriers.

A thread's part of the history is its trace without the barriers
(`VmopsBench.System.recorded_callsOf`), so what the program logic proves of the
trace it proves of that part.
-/

namespace VmopsBench

open Interact

/-- The calls of a thread, without the barriers. -/
def Thread.calls (t : Thread) : List (Event threadSig) :=
  t.trace.filter fun e => !e.call.isBarrier

/-- The call that a step of the thread answers, if it is at one. -/
def Thread.answered (env : (c : ThreadCall) → c.Resp) (done : BitVec 64) (t : Thread) :
    List (Event threadSig) :=
  match t.prog with
  | .call c _ => if c.isBarrier then [] else [⟨c, c.answer env done⟩]
  | _ => []

theorem Thread.calls_advance {env : (c : ThreadCall) → c.Resp} {done d : BitVec 64}
    {t t' : Thread} (h : t.advance env done = some (t', d)) :
    t'.calls = t.calls ++ t.answered env done := by
  obtain ⟨-, hadv⟩ := Thread.advance_cases h
  cases hadv with
  | turn hp => simp [Thread.answered, hp, Thread.calls]
  | arrive hp => simp [Thread.answered, hp, Thread.calls, ThreadCall.isBarrier]
  | call hp hc => simp [Thread.answered, hp, hc, Thread.calls]

theorem Thread.calls_release (t : Thread) : t.release.calls = t.calls := by
  rw [Thread.release]
  split
  · split
    · simp [Thread.calls, ThreadCall.isBarrier]
    · rfl
  · rfl

namespace System

variable {ρ : Type} {main : Prog mainSig ρ} {s s' : System ρ} {h : History}

/-- The calls of the thread with index `i`, if there is one. -/
def callsOf (s : System ρ) (i : ℕ) : List (Event threadSig) :=
  ((s.threads i).map Thread.calls).getD []

/-- What a step adds to the history. -/
def answered (s : System ρ) : Label → History
  | .thread i env =>
    ((s.threads i).map fun t => t.answered env s.done).getD [] |>.map fun e => (i, e)
  | .main _ | .openBarrier | .cancel _ => []

/-- **The reachable states with their histories.** -/
inductive Recorded (main : Prog mainSig ρ) : System ρ → History → Prop
  | init : Recorded main (init main) []
  | step {s s' : System ρ} {h : History} {l : Label} (hs : Recorded main s h)
      (hl : s.step l = some s') : Recorded main s' (h ++ s.answered l)

theorem Recorded.reachable (hr : Recorded main s h) : Reachable main s := by
  induction hr with
  | init => exact .refl
  | step _ hl ih => exact .tail ih ⟨_, hl⟩

/-- A sequence of steps, with the calls it answers. -/
def execRecorded (s : System ρ) (h : History) : List Label → Option (System ρ × History)
  | [] => some (s, h)
  | l :: ls => (s.step l).bind fun s' => s'.execRecorded (h ++ s.answered l) ls

theorem recorded_of_exec {x : System ρ × History} {ls : List Label} (hs : Recorded main s h)
    (hx : s.execRecorded h ls = some x) : Recorded main x.1 x.2 := by
  induction ls generalizing s h with
  | nil =>
    obtain rfl := Option.some.inj hx
    exact hs
  | cons l ls ih =>
    obtain ⟨u, hu, hrest⟩ := Option.bind_eq_some_iff.mp hx
    exact ih (hs.step hu) hrest

/-- What an execution reaches is reachable, with the calls that it has answered. -/
theorem exists_recorded_of_exec {P : System ρ → History → Prop} [∀ s h, Decidable (P s h)]
    (ls : List Label)
    (hany : ((init main).execRecorded [] ls).any (fun x => decide (P x.1 x.2)) = true) :
    ∃ s h, Recorded main s h ∧ P s h := by
  cases hx : (init main).execRecorded [] ls with
  | none => simp [hx] at hany
  | some x => exact ⟨x.1, x.2, recorded_of_exec .init hx, by simpa [hx] using hany⟩

/-! ### A thread's part of the history -/

/-- The calls of one thread in a history. -/
def History.of (h : History) (i : ℕ) : List (Event threadSig) :=
  (h.filter fun x => x.1 = i).map Prod.snd

theorem callsOf_setThread {i j : ℕ} {t : Thread} :
    (s.setThread i t).callsOf j = if j = i then t.calls else s.callsOf j := by
  split
  · rename_i hji
    rw [hji]
    simp [callsOf, setThread]
  · rename_i hji
    simp [callsOf, setThread, Function.update_of_ne hji]

/-- A call of the main thread adds nothing to the calls of a thread, if it does not start it a
second time. -/
theorem callsOf_effect {c : MainCall} {r : c.Resp} {j : ℕ}
    (hstart : ∀ i run st, c = .threadStart i run st → s.threads i = none) :
    (s.effect c r).callsOf j = s.callsOf j := by
  cases c with
  | threadStart i run st =>
    cases r with
    | false => rfl
    | true =>
      show (s.setThread i (Thread.fresh run st)).callsOf j = s.callsOf j
      rw [callsOf_setThread]
      split
      · rename_i hji
        rw [hji, callsOf, hstart i run st rfl]
        rfl
      · rfl
  | threadCancel i =>
    by_cases hji : j = i
    · rw [hji]
      cases ht : s.threads i <;> simp [callsOf, effect, ht, Thread.calls]
    · simp [callsOf, effect, Function.update_of_ne hji]
  | barrierInit n => cases r <;> rfl
  | _ => rfl

/-- A step of a thread adds one and the same call to its trace and to its part of the history. -/
theorem callsOf_step_thread {i j : ℕ} {env : (c : ThreadCall) → c.Resp}
    (hl : s.step (.thread i env) = some s') :
    s'.callsOf j = s.callsOf j ++ History.of (s.answered (.thread i env)) j := by
  obtain ⟨t, t', d, ht, ha, rfl⟩ := step_thread hl
  have hset : { s.setThread i t' with done := d }.callsOf j = (s.setThread i t').callsOf j := rfl
  have hanswered : s.answered (.thread i env) =
      (t.answered env s.done).map fun e => (i, e) := by simp [answered, ht]
  rw [hset, callsOf_setThread, hanswered]
  by_cases hji : j = i
  · rw [if_pos hji, Thread.calls_advance ha, hji]
    simp [callsOf, ht, History.of, List.filter_map, Function.comp_def]
  · rw [if_neg hji]
    simp [History.of, List.filter_map, Function.comp_def, Ne.symm hji]

/-- The other steps add nothing. -/
theorem callsOf_step_other {l : Label} {j : ℕ} (hl : s.step l = some s')
    (hother : ∀ i env, l ≠ .thread i env)
    (hstart : ∀ i run st k, s.main = .call (MainCall.threadStart i run st) k → s.threads i = none) :
    s'.callsOf j = s.callsOf j := by
  cases l with
  | thread i env => exact absurd rfl (hother i env)
  | main env =>
    rcases step_main hl with ⟨σ, β, body, x, k, hm, rfl⟩ | ⟨c, k, r, hm, -, rfl⟩
    · rfl
    · refine callsOf_effect (s := s) (r := r) fun i run st hc => ?_
      subst hc
      exact hstart i run st k hm
  | openBarrier =>
    obtain ⟨b, -, -, rfl⟩ := step_openBarrier hl
    cases ht : s.threads j <;> simp [callsOf, ht, Thread.calls_release]
  | cancel i =>
    obtain ⟨t, ht, -, -, rfl⟩ := step_cancel hl
    rw [callsOf_setThread]
    split
    · rename_i hji
      rw [hji, callsOf, ht]
      rfl
    · rfl

/-- **A step adds to a thread's calls what it adds to its part of the history.** -/
theorem callsOf_step {l : Label} {j : ℕ} (hl : s.step l = some s')
    (hstart : ∀ i run st k, s.main = .call (MainCall.threadStart i run st) k → s.threads i = none) :
    s'.callsOf j = s.callsOf j ++ History.of (s.answered l) j := by
  cases l with
  | thread i env => exact callsOf_step_thread hl
  | main env => simpa [answered, History.of] using callsOf_step_other hl nofun hstart
  | openBarrier => simpa [answered, History.of] using callsOf_step_other hl nofun hstart
  | cancel i => simpa [answered, History.of] using callsOf_step_other hl nofun hstart

/-- **A thread's part of the history is its trace without the barriers.** -/
theorem recorded_callsOf {n : BitVec 32} {who : ℕ → RunFn → VmopsBenchRunArg → Prop}
    {Q : ρ → Launch → Prop} (hmain : wp (launching n who) main Q Launch.init)
    (hr : Recorded main s h) (i : ℕ) : s.callsOf i = History.of h i := by
  induction hr with
  | init => rfl
  | @step s s' h l hs hl ih =>
    have hstart : ∀ i run st k, s.main = .call (MainCall.threadStart i run st) k →
        s.threads i = none := fun i run st k => reachable_start hs.reachable hmain
    rw [callsOf_step hl hstart, ih, History.of, History.of, History.of, List.filter_append,
      List.map_append]

end System

end VmopsBench

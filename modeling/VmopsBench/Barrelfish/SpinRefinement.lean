import VmopsBench.Barrelfish.BarrierSafety
import VmopsBench.Barrelfish.SpinSystem
import VmopsBench.Concurrent.Rounds
import VmopsBench.Interact.Simulation

/-!
# A run over the spin barrier is a run over an atomic one

The composed system has a barrier that opens in one step, for all threads at once. The
spin barrier does nothing of that kind: its threads arrive with the fetch-and-add, one of them flips
`cycle`, and the others find out in their own time. Still every run over the spin barrier looks like
one over the atomic barrier, to the main thread and to each thread between two barriers.

An access of a thread that waits is one of three things (`VmopsBench.Barrelfish.Places.WaitCase`):
an arrival, the flip, or nothing that another thread could notice. So a thread *before* its
fetch-and-add corresponds to one that has yet to arrive, a thread *between* its fetch-and-add and
the flip of its round to one that waits, and a thread *after* the flip to one that
was released, no matter how long it goes on spinning (`VmopsBench.Barrelfish.Corresponds`).
The flip is the step in which the atomic barrier opens.
-/

namespace VmopsBench

namespace Barrelfish

open Interact

/-! ### What an access does to a wait -/

namespace Places

variable {N : ℕ} {R : ℕ} {a : Places N} {i : Fin N}

/-- The others stay where they are. -/
theorem place_step_of_ne {j : Fin N} (h : j ≠ i) : (a.step i).place j = a.place j := by
  rw [step]
  cases hp : (a.place i).pos with
  | arrive cycle =>
    dsimp only
    split <;> exact setPlace_of_ne h
  | _ => exact setPlace_of_ne h

/-- The thread has returned exactly if it is outside. -/
theorem prog_eq_ret_iff {max : BitVec 32} {p : Pos} : p.prog max = .ret () ↔ p = .idle := by
  cases p with
  | idle => exact iff_of_true rfl rfl
  | check cycle waitcnt => exact iff_of_false nofun nofun
  | _ => exact iff_of_false nofun nofun

/-- A call of `pthread_barrier_wait`. -/
theorem step_of_idle (hp : (a.place i).pos = .idle) : (a.step i).place i =
    { a.place i with pos := .load, entered := (a.place i).entered + 1 } := by
  rw [step, hp]
  exact setPlace_self

/-- An arrival. -/
theorem step_of_arrive {cycle : BitVec 32} (hp : (a.place i).pos = .arrive cycle) :
    ((a.step i).place i).entered = (a.place i).entered ∧
      ((a.step i).place i).arrived = (a.place i).arrived + 1 := by
  rw [step, hp]
  dsimp only
  split <;> simp only [setPlace_self, and_self]

/-- Every other access leaves the thread in its wait. -/
theorem step_of_ne_arrive (hidle : (a.place i).pos ≠ .idle)
    (harrive : ∀ cycle, (a.place i).pos ≠ .arrive cycle) :
    ((a.step i).place i).entered = (a.place i).entered ∧
      ((a.step i).place i).arrived = (a.place i).arrived := by
  rw [step]
  cases hp : (a.place i).pos with
  | idle => exact absurd hp hidle
  | arrive cycle => exact absurd hp (harrive cycle)
  | _ => simp only [setPlace_self, and_self]

/-- **What an access of a thread that waits can be**, after `R` flips. -/
inductive WaitCase (R : ℕ) (a : Places N) (i : Fin N) : Prop where
  /-- Nothing that another thread could notice. -/
  | quiet (h : Flipped R (a.step i))
      (hentered : ((a.step i).place i).entered = (a.place i).entered)
      (harrived : ((a.step i).place i).arrived = (a.place i).arrived)
  /-- The arrival. -/
  | arrival (h : Flipped R (a.step i)) (hentered : (a.place i).entered = R + 1)
      (hbefore : (a.place i).arrived = R) (hafter : ((a.step i).place i).arrived = R + 1)
  /-- The flip, for which all threads have arrived. -/
  | flip (h : Flipped (R + 1) (a.step i))
      (hall : ∀ j, (a.place j).pos ≠ .idle ∧ (a.place j).entered = R + 1 ∧
        (a.place j).arrived = R + 1)
      (hentered : ((a.step i).place i).entered = R + 1)

theorem Gathering.waitCase (hN : N < 2 ^ 32) (h : Gathering R a) (hidle : (a.place i).pos ≠ .idle) :
    WaitCase R a i := by
  have hnext : Flipped R (a.step i) := (h.step hN i).imp_right fun h => ⟨i, h⟩
  by_cases harrive : ∃ cycle, (a.place i).pos = .arrive cycle
  · obtain ⟨cycle, hp⟩ := harrive
    have hf := h.follows i
    simp only [Follows, hp] at hf
    refine .arrival hnext hf.2.1 hf.2.2 ?_
    rw [(step_of_arrive hp).2, hf.2.2]
  · push Not at harrive
    obtain ⟨he, ha⟩ := step_of_ne_arrive hidle harrive
    exact .quiet hnext he ha

/-- While a thread releases the others, nobody is outside, and nobody arrives. -/
theorem Releasing.inside {l : Fin N} (h : Releasing R l a) (j : Fin N) :
    (a.place j).pos ≠ .idle ∧ (∀ cycle, (a.place j).pos ≠ .arrive cycle) ∧
      (a.place j).entered = R + 1 ∧ (a.place j).arrived = R + 1 := by
  rcases eq_or_ne j l with rfl | hne
  · refine ⟨fun hp => ?_, fun cycle hp => ?_, h.leader_entered, h.leader_arrived⟩
    · rcases h.leader_pos with h' | ⟨h' | h', -⟩ <;> rw [hp] at h' <;> cases h'
    · rcases h.leader_pos with h' | ⟨h' | h', -⟩ <;> rw [hp] at h' <;> cases h'
  · obtain ⟨hsaved, he, ha⟩ := h.others j hne
    refine ⟨fun hp => ?_, fun cycle hp => ?_, he, ha⟩
    · rw [hp] at hsaved
      cases hsaved
    · rw [hp] at hsaved
      cases hsaved

theorem Releasing.waitCase {l : Fin N} (h : Releasing R l a) : WaitCase R a i := by
  obtain ⟨hidle, harrive, he, -⟩ := h.inside i
  obtain ⟨hentered, harrived⟩ := step_of_ne_arrive hidle harrive
  rcases eq_or_ne i l with rfl | hne
  · rcases h.lead with hlead | hflip
    · exact .quiet (Or.inr ⟨i, hlead⟩) hentered harrived
    · refine .flip (Or.inl hflip) (fun j => ?_) (hentered.trans he)
      obtain ⟨hj, -, hrest⟩ := h.inside j
      exact ⟨hj, hrest⟩
  · exact .quiet (Or.inr ⟨l, h.spin hne⟩) hentered harrived

/-- **An access of a thread that waits.** -/
theorem Flipped.waitCase (hN : N < 2 ^ 32) (h : Flipped R a) (hidle : (a.place i).pos ≠ .idle) :
    WaitCase R a i := by
  rcases h with h | ⟨l, h⟩
  · exact h.waitCase hN hidle
  · exact h.waitCase

/-- A thread outside has been through all rounds. -/
theorem Flipped.of_idle (h : Flipped R a) (hp : (a.place i).pos = .idle) :
    Gathering R a ∧ (a.place i).entered = R ∧ (a.place i).arrived = R := by
  rcases h with h | ⟨l, h⟩
  · have hf := h.follows i
    simp only [Follows, hp] at hf
    exact ⟨h, hf⟩
  · exact absurd hp (h.inside i).1

/-- **A call of `pthread_barrier_wait`** begins the next wait of the thread. -/
theorem Flipped.enter (hN : N < 2 ^ 32) (h : Flipped R a) (hp : (a.place i).pos = .idle) :
    Flipped R (a.step i) ∧ ((a.step i).place i).entered = R + 1 ∧
      ((a.step i).place i).arrived = R := by
  obtain ⟨hg, he, ha⟩ := h.of_idle hp
  refine ⟨(hg.step hN i).imp_right fun h => ⟨i, h⟩, ?_⟩
  rw [step_of_idle hp]
  exact ⟨congrArg (· + 1) he, ha⟩

end Places

/-! ### Threads that correspond -/

/-- The thread is at a barrier call. -/
def AtBarrier (t : Thread) : Prop := ∃ site k, t.prog = .call (ThreadCall.barrier site) k

/-- **The thread of the composed system that a thread corresponds to**, after `R` flips, with its
place in the spin barrier. -/
inductive Corresponds (R : ℕ) (p : Place) : Option Thread → Option Thread → Prop where
  /-- There is no such thread. -/
  | absent (hp : p.pos = .idle) : Corresponds R p none none
  /-- It is not inside `pthread_barrier_wait`. -/
  | outside {t : Thread} (hw : t.waiting = false) (hp : p.pos = .idle) :
      Corresponds R p (some t) (some t)
  /-- It has yet to do its fetch-and-add. -/
  | entering {t : Thread} (hw : t.waiting = true) (hat : AtBarrier t) (harrived : p.arrived = R)
      (hentered : p.entered = R + 1) : Corresponds R p (some t) (some { t with waiting := false })
  /-- It has done its fetch-and-add, and the flip is to come. -/
  | arrived {t : Thread} (hw : t.waiting = true) (hat : AtBarrier t)
      (harrived : p.arrived = R + 1) :
      Corresponds R p (some t) (some t)
  /-- The flip of its round is over. -/
  | released {t : Thread} (hw : t.waiting = true) (hat : AtBarrier t) (hentered : p.entered = R) :
      Corresponds R p (some t) (some t.release)

theorem AtBarrier.release {t : Thread} (hat : AtBarrier t) (hw : t.waiting = true) :
    t.release.waiting = false ∧ t.release.cancelled = t.cancelled := by
  obtain ⟨site, k, hp⟩ := hat
  rw [System.release_waiting hw hp]
  exact ⟨rfl, rfl⟩

/-- A freed descriptor makes no difference at the barrier. -/
theorem AtBarrier.release_freed {t : Thread} (hat : AtBarrier t) (hw : t.waiting = true) :
    { t with freed := true }.release = { t.release with freed := true } := by
  obtain ⟨site, k, hp⟩ := hat
  rw [System.release_waiting hw hp, System.release_waiting (t := { t with freed := true }) hw hp]

namespace Corresponds

variable {R : ℕ} {p : Place} {o o' : Option Thread} {t : Thread}

/-- A thread outside is the thread it corresponds to. -/
theorem of_not_waiting (h : Corresponds R p (some t) o') (hw : t.waiting = false) :
    o' = some t ∧ p.pos = .idle := by
  cases h with
  | outside _ hp => exact ⟨rfl, hp⟩
  | entering hw' | arrived hw' | released hw' => simp [hw] at hw'

/-- A thread that waits is at a barrier call. -/
theorem atBarrier (h : Corresponds R p (some t) o') (hw : t.waiting = true) : AtBarrier t := by
  cases h with
  | outside hw' => simp [hw] at hw'
  | entering _ hat | arrived _ hat | released _ hat => exact hat

theorem exists_right (h : Corresponds R p (some t) o') : ∃ u, o' = some u := by
  cases h <;> exact ⟨_, rfl⟩

/-- A thread that has returned is the thread it corresponds to. -/
theorem of_result (h : Corresponds R p o o') {r : RunResult} (hr : o.bind Thread.result? = some r) :
    o' = o := by
  obtain ⟨t, rfl, hres⟩ := Option.bind_eq_some_iff.mp hr
  have hret := result?_eq_some.mp hres
  cases hw : t.waiting with
  | false => exact (h.of_not_waiting hw).1
  | true =>
    obtain ⟨site, k, hp⟩ := h.atBarrier hw
    rw [hp] at hret
    cases hret

/-- The place matters only for how often the thread has entered and arrived. -/
theorem congr (h : Corresponds R p (some t) o') (hw : t.waiting = true) {p' : Place}
    (hentered : p'.entered = p.entered) (harrived : p'.arrived = p.arrived) :
    Corresponds R p' (some t) o' := by
  cases h with
  | outside hw' => simp [hw] at hw'
  | entering _ hat ha he => exact .entering hw hat (harrived.trans ha) (hentered.trans he)
  | arrived _ hat ha => exact .arrived hw hat (harrived.trans ha)
  | released _ hat he => exact .released hw hat (hentered.trans he)

end Corresponds

/-! ### Calls of the main thread -/

/-- What a call of the main thread makes of a thread. -/
def callThread (c : MainCall) (r : c.Resp) (i : ℕ) (o : Option Thread) : Option Thread :=
  match c, r with
  | .threadStart j run st, r => if r = true ∧ i = j then some (Thread.fresh run st) else o
  | .threadCancel j, _ => if i = j then o.map fun t => { t with freed := true } else o
  | _, _ => o

/-- What is there after the call was created by it, or was there before. -/
theorem callThread_eq_some {c : MainCall} {r : c.Resp} {i : ℕ} {o : Option Thread} {u : Thread}
    (h : callThread c r i o = some u) :
    (∃ run st, c = .threadStart i run st ∧ u = Thread.fresh run st) ∨
      ∃ t, o = some t ∧ u.cancelled = t.cancelled := by
  cases c with
  | threadStart j run st =>
    simp only [callThread] at h
    split at h
    · next hij => exact Or.inl ⟨run, st, hij.2 ▸ rfl, (Option.some.inj h).symm⟩
    · exact Or.inr ⟨u, h, rfl⟩
  | threadCancel j =>
    simp only [callThread] at h
    split at h
    · obtain ⟨t, ht, rfl⟩ := Option.map_eq_some_iff.mp h
      exact Or.inr ⟨t, ht, rfl⟩
    · exact Or.inr ⟨u, h, rfl⟩
  | _ => exact Or.inr ⟨u, h, rfl⟩

theorem effect_eq_callThread {ρ : Type} (s : System ρ) (c : MainCall) (r : c.Resp) (i : ℕ) :
    (s.effect c r).threads i = callThread c r i (s.threads i) := by
  cases c with
  | threadStart j run st =>
    cases r with
    | false => simp [System.effect, callThread]
    | true =>
      rcases eq_or_ne i j with rfl | hne
      · simp [System.effect, callThread, System.setThread]
      · simp [System.effect, callThread, System.setThread, hne]
  | threadCancel j =>
    rcases eq_or_ne i j with rfl | hne
    · simp [System.effect, callThread]
    · simp [System.effect, callThread, hne]
  | barrierInit n => cases r <;> rfl
  | _ => rfl

/-- A call that creates no thread that there is keeps the correspondence. -/
theorem Corresponds.call {R : ℕ} {p : Place} {o o' : Option Thread} (h : Corresponds R p o o')
    {c : MainCall} {r : c.Resp} {i : ℕ} (hstart : ∀ run st, c = .threadStart i run st → o' = none) :
    Corresponds R p (callThread c r i o) (callThread c r i o') := by
  cases c with
  | threadStart j run st =>
    simp only [callThread]
    split
    · next hij =>
      obtain ⟨-, rfl⟩ := hij
      obtain rfl := hstart run st rfl
      cases h with
      | absent hp => exact .outside rfl hp
    · exact h
  | threadCancel j =>
    simp only [callThread]
    split
    · cases h with
      | absent hp => exact .absent hp
      | outside hw hp => exact .outside hw hp
      | @entering t hw hat ha he => exact .entering (t := { t with freed := true }) hw hat ha he
      | @arrived t hw hat ha => exact .arrived (t := { t with freed := true }) hw hat ha
      | @released t hw hat he =>
        rw [Option.map_some, Option.map_some, ← hat.release_freed hw]
        exact .released (t := { t with freed := true }) hw hat he
    · exact h
  | _ => exact h

/-! ### States that correspond -/

variable {n : BitVec 32} {ρ : Type}

/-- **A state of the composed system that a state over the spin barrier corresponds to.** -/
structure SpinSystem.Refines (s : SpinSystem n.toNat ρ) (A : System ρ) : Prop where
  main_eq : A.main = s.sys.main
  mainTrace_eq : A.mainTrace = s.sys.mainTrace
  done_eq : A.done = s.sys.done
  barrier_eq : A.barrier = s.sys.barrier
  barrier_max : ∀ i t, s.sys.threads i = some t → ∃ b, s.sys.barrier = some b ∧ b.max = n
  not_cancelled : ∀ i t, s.sys.threads i = some t → t.cancelled = false
  others : ∀ i, n.toNat ≤ i → s.sys.threads i = none ∧ A.threads i = none
  exists_places : ∃ (R : ℕ) (a : Places n.toNat), s.waiters = a.toWaiters ∧ Places.Flipped R a ∧
    ∀ i, Corresponds R (a.place i) (s.sys.threads i) (A.threads i)

section Steps

variable {who : ℕ → RunFn → VmopsBenchRunArg → Prop} {main : Prog mainSig ρ}
  {Q : ρ → Launch → Prop} {s : SpinSystem n.toNat ρ} {A : System ρ}

/-- The barrier is still there after a call that the discipline allows. -/
theorem barrier_max_effect {u : System ρ} {c : MainCall} {r : c.Resp} {g : Launch}
    (hc : g.MayCall n who c) (hb : ∃ b, u.barrier = some b ∧ b.max = n) :
    ∃ b, (u.effect c r).barrier = some b ∧ b.max = n := by
  obtain ⟨b, hb, hmax⟩ := hb
  cases c with
  | barrierInit m =>
    obtain ⟨rfl, -⟩ := hc
    cases r with
    | false => exact ⟨b, hb, hmax⟩
    | true => exact ⟨_, rfl, rfl⟩
  | barrierDestroy => exact ⟨{ b with destroyed := true }, by simp [System.effect, hb], hmax⟩
  | threadStart i run st => cases r <;> exact ⟨b, hb, hmax⟩
  | _ => exact ⟨b, hb, hmax⟩

theorem effect_barrier_congr {u v : System ρ} (h : u.barrier = v.barrier) (c : MainCall)
    (r : c.Resp) : (u.effect c r).barrier = (v.effect c r).barrier := by
  cases c with
  | barrierInit m | threadStart i run st => cases r <;> simp [System.effect, h, System.setThread]
  | _ => simp [System.effect, h]

theorem effect_done_eq (u : System ρ) (c : MainCall) (r : c.Resp) :
    (u.effect c r).done = u.done := by
  cases c with
  | barrierInit m | threadStart i run st => cases r <;> rfl
  | _ => rfl

namespace SpinSystem.Refines

/-- Joins are answered alike. -/
theorem mainAnswer (h : s.Refines A) {env : (c : MainCall) → c.Resp} {c : MainCall} {r : c.Resp}
    (hr : s.sys.mainAnswer env c = some r) : A.mainAnswer env c = some r := by
  cases c with
  | threadJoin i =>
    obtain ⟨res, hres, -⟩ := Option.map_eq_some_iff.mp hr
    have hsame : A.threads i = s.sys.threads i := by
      rcases lt_or_ge i n.toNat with hi | hi
      · obtain ⟨R, a, -, -, hthreads⟩ := h.exists_places
        exact (hthreads ⟨i, hi⟩).of_result hres
      · rw [(h.others i hi).1, (h.others i hi).2]
    rw [System.mainAnswer, hsame]
    exact hr
  | _ => exact hr

/-- **A call of the main thread.** -/
theorem call (h : s.Refines A) (hl : A.Launched n) {c : MainCall} {r : c.Resp}
    {m : Prog mainSig ρ} (hc : (launch A.mainTrace).MayCall n who c)
    (hstart : ∀ i run st, c = .threadStart i run st → A.threads i = none) :
    Refines ⟨s.sys.afterCall c r m, s.waiters⟩ (A.afterCall c r m) := by
  have hthread : ∀ {u : System ρ} (i : ℕ), (u.afterCall c r m).threads i =
      callThread c r i (u.threads i) := fun i => effect_eq_callThread _ c r i
  refine ⟨rfl, ?_, ?_, effect_barrier_congr h.barrier_eq c r, fun i u hu => ?_, fun i u hu => ?_,
    fun i hi => ?_, ?_⟩
  · show A.mainTrace ++ [_] = s.sys.mainTrace ++ [_]
    rw [h.mainTrace_eq]
  · exact (effect_done_eq A c r).trans (h.done_eq.trans (effect_done_eq s.sys c r).symm)
  · refine barrier_max_effect hc ?_
    rw [hthread] at hu
    rcases callThread_eq_some hu with ⟨run, st, rfl, -⟩ | ⟨t, ht, -⟩
    · -- the barrier is initialised before the first thread is started
      obtain ⟨-, -, hg⟩ := hc
      refine ⟨⟨n, false⟩, ?_, rfl⟩
      rw [← h.barrier_eq, hl.barrier_eq, hg]
      rfl
    · exact h.barrier_max i t ht
  · rw [hthread] at hu
    rcases callThread_eq_some hu with ⟨run, st, -, rfl⟩ | ⟨t, ht, hcan⟩
    · rfl
    · rw [hcan]
      exact h.not_cancelled i t ht
  · obtain ⟨hs, hA⟩ := h.others i hi
    have hnone : callThread c r i none = none := by
      refine Option.eq_none_iff_forall_ne_some.mpr fun u hu => ?_
      rcases callThread_eq_some hu with ⟨run, st, rfl, -⟩ | ⟨t, ht, -⟩
      · exact absurd hc.1 (not_lt.mpr hi)
      · cases ht
    rw [hthread, hthread, hs, hA]
    exact ⟨hnone, hnone⟩
  · obtain ⟨R, a, hwaiters, hflipped, hthreads⟩ := h.exists_places
    refine ⟨R, a, hwaiters, hflipped, fun i => ?_⟩
    rw [hthread, hthread]
    exact (hthreads i).call (hstart i)

/-- **A step of the main thread.** -/
theorem mainStep (h : s.Refines A) (hs : A.Reachable main)
    (hmain : wp (launching n who) main Q Launch.init) {env : (c : MainCall) → c.Resp}
    {sys : System ρ} (hstep : s.sys.step (.main env) = some sys) :
    ∃ A', (∃ l, A.step l = some A') ∧ Refines { s with sys } A' := by
  rcases System.step_main hstep with ⟨σ, β, body, x, k, hm, rfl⟩ | ⟨c, k, r, hm, hr, rfl⟩
  · refine ⟨{ A with main := Prog.unroll body x k }, ⟨.main env, ?_⟩, ?_⟩
    · simp only [System.step, h.main_eq, hm]
    · exact ⟨rfl, h.mainTrace_eq, h.done_eq, h.barrier_eq, h.barrier_max, h.not_cancelled,
        h.others, h.exists_places⟩
  · have hm' : A.main = .call c k := h.main_eq.trans hm
    refine ⟨A.afterCall c r (k r), ⟨.main env, ?_⟩, ?_⟩
    · simp only [System.step, hm', h.mainAnswer hr, Option.map_some]
      rfl
    · refine h.call (System.reachable_launched hs hmain) (System.reachable_mayCall hs hmain hm') ?_
      rintro i run st rfl
      exact System.reachable_start hs hmain hm'

/-- **One thread moves**, here or there, and the others stay. -/
theorem update (h : s.Refines A) {R : ℕ} {a a' : Places n.toNat} {i : Fin n.toNat} {t u v : Thread}
    {d : BitVec 64} (hthreads : ∀ j, Corresponds R (a.place j) (s.sys.threads j) (A.threads j))
    (ht : s.sys.threads i = some t) (hflipped : Places.Flipped R a')
    (hplace : ∀ j, j ≠ i → a'.place j = a.place j)
    (hi : Corresponds R (a'.place i) (some u) (some v)) (hcan : u.cancelled = false) :
    Refines ⟨{ s.sys.setThread i u with done := d }, a'.toWaiters⟩
      { A.setThread i v with done := d } := by
  refine ⟨h.main_eq, h.mainTrace_eq, rfl, h.barrier_eq, fun j w hw => ?_, fun j w hw => ?_,
    fun j hj => ?_, R, a', rfl, hflipped, fun j => ?_⟩
  · rcases System.setThread_threads hw with ⟨rfl, -⟩ | ⟨-, hw⟩
    · exact h.barrier_max i t ht
    · exact h.barrier_max j w hw
  · rcases System.setThread_threads hw with ⟨-, rfl⟩ | ⟨-, hw⟩
    · exact hcan
    · exact h.not_cancelled j w hw
  · have hne : j ≠ i := fun heq => absurd i.isLt (not_lt.mpr (heq ▸ hj))
    simpa only [System.setThread, Function.update_of_ne hne] using h.others j hj
  · rcases eq_or_ne j i with rfl | hne
    · simpa only [System.setThread, Function.update_self] using hi
    · have hne' : (j : ℕ) ≠ i := fun heq => hne (Fin.ext heq)
      simp only [System.setThread, Function.update_of_ne hne', hplace j hne]
      exact hthreads j

/-- A thread stays. -/
theorem setThread_self {u : System ρ} {i : ℕ} {t : Thread} (ht : u.threads i = some t) :
    { u.setThread i t with done := u.done } = u := by
  have hthreads : Function.update u.threads i (some t) = u.threads := by
    rw [← ht, Function.update_eq_self]
  rw [System.setThread, hthreads]

/-- **A step of a thread that is not at the barrier.** -/
theorem threadStep (h : s.Refines A) {i : Fin n.toNat} {t u : Thread} {d : BitVec 64}
    {env : (c : ThreadCall) → c.Resp} (ht : s.sys.threads i = some t) (hw : t.waiting = false)
    (hadv : t.advance env s.sys.done = some (u, d)) (hu : u.waiting = false) :
    ∃ A', (∃ l, A.step l = some A') ∧
      Refines { s with sys := { s.sys.setThread i u with done := d } } A' := by
  obtain ⟨R, a, hwaiters, hflipped, hthreads⟩ := h.exists_places
  have hi := hthreads i
  rw [ht] at hi
  obtain ⟨hA, hidle⟩ := hi.of_not_waiting hw
  refine ⟨{ A.setThread i u with done := d }, ⟨.thread i env, ?_⟩, ?_⟩
  · simp only [System.step, hA, h.done_eq, hadv, Option.map_some]
  · have hcan : u.cancelled = t.cancelled := by
      cases (Thread.advance_cases hadv).2 <;> rfl
    rw [hwaiters]
    exact h.update hthreads ht hflipped (fun _ _ => rfl) (.outside hu hidle)
      (hcan.trans (h.not_cancelled i t ht))

/-- **A thread calls `pthread_barrier_wait`**, and to the atomic barrier nothing has happened. -/
theorem enter (h : s.Refines A) {i : Fin n.toNat} {t : Thread}
    (ht : s.sys.threads i = some t) (hw : t.waiting = false) (hat : AtBarrier t) :
    Refines ⟨s.sys.setThread i { t with waiting := true }, s.waiters.step i⟩ A := by
  obtain ⟨R, a, hwaiters, hflipped, hthreads⟩ := h.exists_places
  have hi := hthreads i
  rw [ht] at hi
  obtain ⟨hA, hidle⟩ := hi.of_not_waiting hw
  obtain ⟨hnext, hentered, harrived⟩ := hflipped.enter n.isLt hidle
  have hsame : { t with waiting := false } = t := by
    obtain ⟨prog, waiting, freed, cancelled, trace⟩ := t
    obtain rfl : waiting = false := hw
    rfl
  have hcorr : Corresponds R ((a.step i).place i) (some { t with waiting := true }) (some t) := by
    have hent := Corresponds.entering (R := R) (t := { t with waiting := true }) rfl hat harrived
      hentered
    rwa [hsame] at hent
  have hup := h.update (d := s.sys.done) hthreads ht hnext
    (fun j hj => Places.place_step_of_ne hj) hcorr (h.not_cancelled i t ht)
  rwa [← h.done_eq, setThread_self hA, Places.toWaiters_step, ← hwaiters, h.done_eq] at hup

/-- **A thread returns from `pthread_barrier_wait`**, and to the atomic barrier nothing has
happened: it was released with the flip. -/
theorem leave (h : s.Refines A) {i : Fin n.toNat} {t : Thread} (ht : s.sys.threads i = some t)
    (hw : t.waiting = true) (hp : (s.waiters.thread i).prog = .ret ()) :
    Refines { s with sys := s.sys.setThread i t.release } A := by
  obtain ⟨R, a, hwaiters, hflipped, hthreads⟩ := h.exists_places
  have hidle : (a.place i).pos = .idle := by
    rw [hwaiters] at hp
    exact Places.prog_eq_ret_iff.mp hp
  obtain ⟨-, hentered, harrived⟩ := hflipped.of_idle hidle
  have hi := hthreads i
  rw [ht] at hi
  obtain ⟨hrelease, hcan⟩ := (hi.atBarrier hw).release hw
  have hA : A.threads i = some t.release := by
    generalize A.threads i = o at hi
    cases hi with
    | outside hw' => simp [hw] at hw'
    | entering _ _ _ he => omega
    | arrived _ _ ha => omega
    | released => rfl
  have hup := h.update (d := s.sys.done) hthreads ht hflipped (fun _ _ => rfl)
    (.outside hrelease hidle) (hcan.trans (h.not_cancelled i t ht))
  rwa [← h.done_eq, setThread_self hA, ← hwaiters, h.done_eq] at hup

/-- **A step inside `pthread_barrier_wait`**: an arrival is one at the atomic barrier, and with the
flip that barrier opens. -/
theorem wait (h : s.Refines A) {i : Fin n.toNat} {t : Thread}
    (ht : s.sys.threads i = some t) (hw : t.waiting = true)
    (hp : (s.waiters.thread i).prog ≠ .ret ()) :
    ∃ A', Relation.ReflTransGen (fun u u' => ∃ l, u.step l = some u') A A' ∧
      Refines { s with waiters := s.waiters.step i } A' := by
  obtain ⟨R, a, hwaiters, hflipped, hthreads⟩ := h.exists_places
  have hidle : (a.place i).pos ≠ .idle := by
    rw [hwaiters] at hp
    exact mt Places.prog_eq_ret_iff.mpr hp
  have hi := hthreads i
  rw [ht] at hi
  have hcan := h.not_cancelled i t ht
  have hothers : ∀ j, j ≠ i → (a.step i).place j = a.place j := fun _ => Places.place_step_of_ne
  rw [hwaiters, ← Places.toWaiters_step]
  rcases hflipped.waitCase n.isLt hidle with ⟨hnext, hentered, harrived⟩ |
    ⟨hnext, hentered, hbefore, hafter⟩ | ⟨hnext, hall, hentered⟩
  · obtain ⟨v, hv⟩ := hi.exists_right
    have hcorr := hi.congr hw hentered harrived
    rw [hv] at hcorr
    have hup := h.update (d := s.sys.done) hthreads ht hnext hothers hcorr hcan
    rw [setThread_self ht, ← h.done_eq, setThread_self hv] at hup
    exact ⟨A, .refl, hup⟩
  · -- the thread arrives at the atomic barrier
    have hA : A.threads i = some { t with waiting := false } := by
      generalize A.threads i = o at hi
      cases hi with
      | outside hw' => simp [hw] at hw'
      | entering => rfl
      | arrived _ _ ha => omega
      | released _ _ he => omega
    have hup := h.update (d := s.sys.done) hthreads ht hnext hothers
      (.arrived hw (hi.atBarrier hw) hafter) hcan
    rw [setThread_self ht, ← h.done_eq] at hup
    refine ⟨_, .single ⟨.thread i ThreadCall.succeed, ?_⟩, hup⟩
    obtain ⟨site, k, hprog⟩ := hi.atBarrier hw
    obtain ⟨prog, waiting, freed, cancelled, trace⟩ := t
    obtain rfl : prog = .call (ThreadCall.barrier site) k := hprog
    obtain rfl : waiting = true := hw
    obtain rfl : cancelled = false := hcan
    simp only [System.step, hA]
    rfl
  · -- all threads wait at the atomic barrier, and it opens
    have hwait : ∀ j < n.toNat, ∃ u, s.sys.threads j = some u ∧ u.waiting = true ∧ AtBarrier u ∧
        A.threads j = some u := by
      intro j hj
      obtain ⟨hout, he, ha⟩ := hall ⟨j, hj⟩
      have hcorr := hthreads ⟨j, hj⟩
      simp only at hcorr
      generalize s.sys.threads j = o at hcorr
      generalize A.threads j = o' at hcorr
      cases hcorr with
      | absent hp => exact absurd hp hout
      | outside _ hp => exact absurd hp hout
      | entering _ _ ha' => omega
      | @arrived u hw hat => exact ⟨u, rfl, hw, hat, rfl⟩
      | released _ _ he' => omega
    obtain ⟨b, hb, rfl⟩ := h.barrier_max i t ht
    refine ⟨{ A with threads := fun j => (A.threads j).map Thread.release },
      .single ⟨.openBarrier, ?_⟩, h.main_eq, h.mainTrace_eq, h.done_eq, h.barrier_eq,
      h.barrier_max, h.not_cancelled, fun j hj => ?_, R + 1, a.step i, rfl, hnext, fun j => ?_⟩
    · have hcount : A.waitingCount b.max.toNat = b.max.toNat := by
        refine System.waitingCount_eq_iff.mpr fun j hj => ?_
        obtain ⟨u, -, hwu, -, hu⟩ := hwait j hj
        exact System.isWaiting_eq_true.mpr ⟨u, hu, hwu⟩
      simp only [System.step, h.barrier_eq, hb, if_pos hcount]
    · obtain ⟨hs, hA⟩ := h.others j hj
      exact ⟨hs, by simp only [hA, Option.map_none]⟩
    · obtain ⟨u, hu, hwu, hat, hA⟩ := hwait j j.isLt
      simp only [hu, hA, Option.map_some]
      refine .released hwu hat ?_
      rcases eq_or_ne j i with rfl | hne
      · exact hentered
      · rw [hothers j hne]
        exact (hall j).2.1

/-- **Every step over the spin barrier** is some steps over the atomic one, or none. -/
theorem step (h : s.Refines A) (hs : A.Reachable main)
    (hmain : wp (launching n who) main Q Launch.init) {l : SpinSystem.Label n.toNat}
    {s' : SpinSystem n.toNat ρ} (hstep : s.step l = some s') :
    ∃ A', Relation.ReflTransGen (fun u u' => ∃ l, u.step l = some u') A A' ∧ s'.Refines A' := by
  cases l with
  | main env =>
    obtain ⟨sys, hsys, rfl⟩ := Option.map_eq_some_iff.mp hstep
    obtain ⟨A', hA', h'⟩ := h.mainStep hs hmain hsys
    exact ⟨A', .single hA', h'⟩
  | thread i env =>
    cases SpinSystem.thread_cases hstep with
    | leave ht hw hp => exact ⟨A, .refl, h.leave ht hw hp⟩
    | wait ht hw hp => exact h.wait ht hw hp
    | enter ht hw hp hc => exact ⟨A, .refl, h.enter ht hw ⟨_, _, hp⟩⟩
    | other ht hw hadv hu =>
      obtain ⟨A', hA', h'⟩ := h.threadStep ht hw hadv hu
      exact ⟨A', .single hA', h'⟩

theorem initial (hn : 0 < n.toNat) :
    Refines (SpinSystem.init n.toNat main) (System.init main) := by
  obtain ⟨R, hflipped⟩ := Places.inv_init hn
  exact ⟨rfl, rfl, rfl, rfl, nofun, nofun, fun _ _ => ⟨rfl, rfl⟩, R, Places.init n.toNat, rfl,
    hflipped, fun _ => .absent rfl⟩

end SpinSystem.Refines

/-- **The composed system simulates the run over the spin barrier.** -/
theorem simulates (hn : 0 < n.toNat) (hmain : wp (launching n who) main Q Launch.init) :
    Simulates (fun s s' : SpinSystem n.toNat ρ => ∃ l, s.step l = some s')
      (SpinSystem.init n.toNat main) (fun A A' : System ρ => ∃ l, A.step l = some A')
      (System.init main) SpinSystem.Refines where
  init := .initial hn
  step hs h := fun ⟨_, hstep⟩ => h.step hs hmain hstep

end Steps

/-! ### What can be told of a run -/

/-- **A thread over the spin barrier, and the same thread over the atomic one.** If it waits
it may have yet to arrive there, or it may have been released already. -/
def Trails (t u : Thread) : Prop :=
  if t.waiting then u = { t with waiting := false } ∨ u = t ∨ u = t.release else u = t

/-- **A state over the spin barrier looks like one over the atomic barrier**, to the main thread and
to every thread that does not wait. -/
structure SpinSystem.LooksLike {N : ℕ} (s : SpinSystem N ρ) (A : System ρ) : Prop where
  main_eq : A.main = s.sys.main
  mainTrace_eq : A.mainTrace = s.sys.mainTrace
  done_eq : A.done = s.sys.done
  barrier_eq : A.barrier = s.sys.barrier
  threads : ∀ i, Option.Rel Trails (s.sys.threads i) (A.threads i)

theorem Corresponds.rel {R : ℕ} {p : Place} {o o' : Option Thread} (h : Corresponds R p o o') :
    Option.Rel Trails o o' := by
  cases h with
  | absent => exact .none
  | outside hw =>
    refine .some ?_
    rw [Trails, hw, if_neg Bool.false_ne_true]
  | entering hw =>
    refine .some ?_
    rw [Trails, if_pos hw]
    exact Or.inl rfl
  | arrived hw =>
    refine .some ?_
    rw [Trails, if_pos hw]
    exact Or.inr (Or.inl rfl)
  | released hw =>
    refine .some ?_
    rw [Trails, if_pos hw]
    exact Or.inr (Or.inr rfl)

theorem SpinSystem.Refines.looksLike {s : SpinSystem n.toNat ρ} {A : System ρ}
    (h : s.Refines A) : s.LooksLike A := by
  refine ⟨h.main_eq, h.mainTrace_eq, h.done_eq, h.barrier_eq, fun i => ?_⟩
  rcases lt_or_ge i n.toNat with hi | hi
  · obtain ⟨R, a, -, -, hthreads⟩ := h.exists_places
    exact (hthreads ⟨i, hi⟩).rel
  · rw [(h.others i hi).1, (h.others i hi).2]
    exact .none

/-- An entry function follows the discipline of the main thread. -/
theorem exists_entry_launch {entry : VmopsBenchCfg → List Char → Prog mainSig ℤ}
    (hentry : entry = vmposBenchRunMapunmap ∨ entry = vmopsBenchRunProtect ∨
      entry = vmopsBenchRunProtectElevate ∨ entry = vmopsBenchRunTlbshoot)
    (cfg : VmopsBenchCfg) (opts : List Char) :
    ∃ who Q, wp (launching cfg.corelistSize who) (entry cfg opts) Q Launch.init := by
  rcases hentry with rfl | rfl | rfl | rfl
  · exact ⟨_, _, benchEntry_launch (fun _ => rfl) cfg opts⟩
  · exact ⟨_, _, benchEntry_launch (fun _ => rfl) cfg opts⟩
  · exact ⟨_, _, benchEntry_launch (fun _ => rfl) cfg opts⟩
  · exact ⟨_, _, benchEntry_launch (fun _ => rfl) cfg opts⟩

/-- **Every run of a benchmark over the spin barrier looks like one over the atomic barrier.** -/
theorem spinBarrier_refines {entry : VmopsBenchCfg → List Char → Prog mainSig ℤ}
    (hentry : entry = vmposBenchRunMapunmap ∨ entry = vmopsBenchRunProtect ∨
      entry = vmopsBenchRunProtectElevate ∨ entry = vmopsBenchRunTlbshoot)
    {cfg : VmopsBenchCfg} (hn : cfg.corelistSize ≠ 0) {opts : List Char}
    {s : SpinSystem cfg.corelistSize.toNat ℤ} (hs : SpinSystem.Reachable (entry cfg opts) s) :
    ∃ A, System.Reachable (entry cfg opts) A ∧ s.LooksLike A := by
  obtain ⟨who, Q, hmain⟩ := exists_entry_launch hentry cfg opts
  have hpos : 0 < cfg.corelistSize.toNat :=
    Nat.pos_of_ne_zero fun h => hn (BitVec.eq_of_toNat_eq h)
  obtain ⟨A, hA, h⟩ := (simulates hpos hmain).exists_reached hs
  exact ⟨A, hA, h.looksLike⟩

/-- The last of two threads to arrive has gone on from the start barrier, and the other one has yet
to see the flip. -/
def oneHasLeft (s : SpinSystem 2 ℤ) : Bool :=
  (s.sys.threads 0).any (fun t => !t.waiting && t.trace.length = 2) && s.sys.isWaiting 1

theorem spinBarrier_refines_twoThreads :
    ∃ (s : SpinSystem 2 ℤ) (A : System ℤ), oneHasLeft s = true ∧
      System.Reachable (vmposBenchRunMapunmap twoThreads []) A ∧ s.LooksLike A := by
  let go : SpinSystem.Label 2 := .main (MainCall.succeed (zeroArg twoThreads))
  let ok : Fin 2 → SpinSystem.Label 2 := fun i => .thread i ThreadCall.succeed
  have hrun : ∃ s, SpinSystem.Reachable (vmposBenchRunMapunmap twoThreads []) s ∧
      oneHasLeft s = true :=
    SpinSystem.exists_reachable_of_exec
      (List.replicate 133 go ++ List.replicate 4 (ok 1) ++ List.replicate 8 (ok 0)) (by decide)
  obtain ⟨s, hs, hleft⟩ := hrun
  obtain ⟨A, hA, hlooks⟩ := spinBarrier_refines (Or.inl rfl) (by decide) hs
  exact ⟨s, A, hleft, hA, hlooks⟩

end Barrelfish

end VmopsBench

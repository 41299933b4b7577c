import VmopsBench.Concurrent.Launched
import VmopsBench.Concurrent.Protocol

/-!
# All threads have passed the same number of barriers

The barrier opens when all `n` threads wait at it, so it lets all of them pass or
none: in every reachable state all threads have passed the same number of
barriers (`VmopsBench.System.InStep`). New threads are no exception, since the
barrier cannot have opened before the last of them was started.

With `VmopsBench.run_protocol` this says where the threads can be: a thread that
waits is at the barrier call its protocol allows after that many barriers
(`VmopsBench.System.FollowsProtocol.calls`), and one that has returned has passed
as many as its protocol asks for (`VmopsBench.System.FollowsProtocol.returned`).
-/

namespace VmopsBench

open Interact

/-- The barriers a thread has passed, the latest first. -/
def Thread.passed (t : Thread) : List BarrierSite := (progress t.trace).passed

namespace System

variable {ρ : Type} {n : BitVec 32} {who : ℕ → RunFn → VmopsBenchRunArg → Prop}
  {main : Prog mainSig ρ} {s : System ρ}

/-! ### Steps that pass no barrier -/

theorem waitingCount_eq_iff {m : ℕ} :
    s.waitingCount m = m ↔ ∀ i < m, s.isWaiting i = true := by
  have hlen : s.waitingCount m = m ↔ s.waitingCount m = (List.range m).length := by
    rw [List.length_range]
  rw [hlen, waitingCount, List.countP_eq_length]
  simp only [List.mem_range]

theorem waitingCount_le (m : ℕ) : s.waitingCount m ≤ m := by
  have h := List.countP_le_length (p := s.isWaiting) (l := List.range m)
  rwa [List.length_range] at h

/-- **All threads have passed `R` barriers**, and all are there if that is not none. -/
structure InStep (n : BitVec 32) (R : ℕ) (s : System ρ) : Prop where
  passed : ∀ i t, s.threads i = some t → t.passed.length = R
  started : R ≠ 0 → (launch s.mainTrace).started = n.toNat

theorem InStep.setThread {R : ℕ} (h : InStep n R s) {i : ℕ} {t u : Thread} {d : BitVec 64}
    (ht : s.threads i = some t) (hu : u.passed = t.passed) :
    InStep n R { s.setThread i u with done := d } := by
  refine ⟨fun j v hv => ?_, h.started⟩
  rcases setThread_threads hv with ⟨rfl, rfl⟩ | ⟨-, hv⟩
  · rw [hu]
    exact h.passed j t ht
  · exact h.passed j v hv

/-- A call of the main thread: a new thread has passed no barrier, and the others have not either
then. -/
theorem InStep.call {R : ℕ} (h : InStep n R s) {c : MainCall} {r : c.Resp}
    {main' : Prog mainSig ρ} (hc : (launch s.mainTrace).MayCall n who c) :
    InStep n R (s.afterCall c r main') := by
  refine ⟨fun j u hu => ?_, fun hR => ?_⟩
  · rcases effect_threads hu with ⟨run, st, he, rfl⟩ | ⟨t, ht, -, -, htr, -⟩
    · obtain rfl : c = .threadStart j run st := congrArg Event.call he
      obtain ⟨hj, -, hg⟩ := hc
      by_contra hne
      have hall := h.started (fun hR => hne hR.symm)
      rw [hg] at hall
      exact absurd hall (by simp only; omega)
    · rw [Thread.passed, htr]
      exact h.passed j t ht
  · have hall := h.started hR
    cases c with
    | threadStart i run st =>
      obtain ⟨hi, -, hg⟩ := hc
      rw [hg] at hall
      exact absurd hall (by simp only; omega)
    | _ =>
      rw [launch_afterCall]
      exact hall

/-- The barrier opens: all threads wait, and all of them pass. -/
theorem InStep.opened {R : ℕ} (h : InStep n R s) (hwf : Wf main s) (hl : Launched n s)
    {b : Barrier} (hb : s.barrier = some b) (hn : s.waitingCount b.max.toNat = b.max.toNat) :
    InStep n (R + 1) { s with threads := fun i => (s.threads i).map Thread.release } := by
  obtain rfl : b.max = n := by
    rw [hl.barrier_eq] at hb
    obtain ⟨m, hm, rfl⟩ := Option.map_eq_some_iff.mp hb
    exact hl.max_eq m hm
  have hwait : ∀ i < b.max.toNat, s.isWaiting i = true := waitingCount_eq_iff.mp hn
  refine ⟨fun i u hu => ?_, fun _ => le_antisymm hl.started_le ?_⟩
  · obtain ⟨t, ht, rfl⟩ := Option.map_eq_some_iff.mp hu
    have hi : i < (launch s.mainTrace).started := (hl.isSome_iff i).mp (by rw [ht]; rfl)
    obtain ⟨t', ht', hw⟩ := isWaiting_eq_true.mp (hwait i (hi.trans_le hl.started_le))
    obtain rfl : t = t' := Option.some.inj (ht.symm.trans ht')
    obtain ⟨site, k, hp⟩ := hwf.waiting i t ht hw
    rw [release_waiting hw hp, Thread.passed, progress_concat]
    exact congrArg (· + 1) (h.passed i t ht)
  · -- the last thread waits too, so it was started
    by_contra hlt
    obtain ⟨t, ht, -⟩ := isWaiting_eq_true.mp (hwait _ (not_le.mp hlt))
    exact lt_irrefl _ ((hl.isSome_iff _).mp (by rw [ht]; rfl))

/-- **All threads have passed the same number of barriers**, in every reachable state. -/
theorem reachable_inStep {Q : ρ → Launch → Prop} (hs : Reachable main s)
    (hmain : wp (launching n who) main Q Launch.init) : ∃ R, InStep n R s := by
  refine hs.induction (P := fun s => ∃ R, InStep n R s) ⟨0, nofun, fun h => absurd rfl h⟩ ?_
  rintro s s' hs ⟨R, h⟩ hstep
  cases hstep with
  | mainTurn hm => exact ⟨R, h.passed, h.started⟩
  | mainCall hm hr => exact ⟨R, h.call (reachable_mayCall hs hmain hm)⟩
  | turn ht hw hp => exact ⟨R, h.setThread ht rfl⟩
  | arrive ht hw hp => exact ⟨R, h.setThread ht rfl⟩
  | call ht hw hp hc =>
    refine ⟨R, h.setThread ht ?_⟩
    rw [Thread.passed, progress_concat]
    exact Progress.passed_upd hc
  | opened hb hn => exact ⟨R + 1, h.opened (reachable_wf hs) (reachable_launched hs hmain) hb hn⟩
  | cancelled ht hw hf => exact ⟨R, h.setThread ht rfl⟩

/-! ### Where the threads are -/

/-- **What the protocol of its function says of a thread.** -/
structure FollowsProtocol (f : RunFn) (t : Thread) : Prop where
  calls : ∀ c k, t.prog = .call c k → f.MayCall (progress t.trace) c
  returned : ∀ r, t.prog = .ret r → f.MayReturn r (progress t.trace)

/-- **Every thread of a state follows the protocol** of the function it was started with. -/
theorem reachable_protocol {Q : ρ → Launch → Prop} {f : RunFn} (hs : Reachable main s)
    (hmain : wp (launching n who) main Q Launch.init) (hwho : ∀ i run st, who i run st → run = f)
    {i : ℕ} {t : Thread} (ht : s.threads i = some t) : FollowsProtocol f t := by
  obtain ⟨-, run, st, hrun, hwp⟩ := reachable_thread_wp hs hmain ht
  obtain rfl := hwho i run st hrun
  have h : wp (protocol run) t.prog run.MayReturn (progress t.trace) :=
    hwp (platThreadRunFn_protocol run st) (protocol_admits _ _ _)
  refine ⟨fun c k hp => ?_, fun r hp => ?_⟩
  · rw [hp] at h
    exact h.1
  · rw [hp] at h
    exact h

/-- No call of the first `n` threads has failed so far, as a test. -/
def noFailures (n : ℕ) (s : System ρ) : Bool :=
  (List.range n).all fun i => (s.threads i).all fun t => (progress t.trace).failures.isEmpty

theorem failures_of_noFailures {m i : ℕ} {t : Thread} (h : s.noFailures m = true) (hi : i < m)
    (ht : s.threads i = some t) : (progress t.trace).failures = [] := by
  have hthread := List.all_eq_true.mp h i (List.mem_range.mpr hi)
  rw [ht, Option.all_some] at hthread
  exact List.isEmpty_iff.mp hthread

end System

end VmopsBench

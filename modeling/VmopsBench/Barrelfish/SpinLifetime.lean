import VmopsBench.Barrelfish.SpinRefinement

/-!
# Nobody is inside the spin barrier when it is destroyed

A thread that was released at the spin barrier may be inside `pthread_barrier_wait` for as long as
it likes, and over the atomic barrier it has gone on long ago, or has even returned. So what is
true of a destroyed barrier over there says nothing about its words over here: a thread
might still read `cycle`.

It does not, since the main thread destroys the barrier only when it has joined all threads
(`VmopsBench.Launch.joined_of_destroyed`), a join is answered by a thread that has returned over
*this* barrier, and a thread that has returned takes no further step
(`VmopsBench.Barrelfish.SpinSystem.JoinedReturned`).
-/

namespace VmopsBench

open Interact

/-- **The barrier is destroyed after the joins.** -/
theorem Launch.joined_of_destroyed {n : BitVec 32} {who : ℕ → RunFn → VmopsBenchRunArg → Prop}
    {tr : List (Event mainSig)} (h : (launching n who).Honours Launch.init tr) :
    (launch tr).destroyed = true → (launch tr).joined = n.toNat := by
  have hfrom : ∀ {g : Launch}, (g.destroyed = true → g.joined = n.toNat) →
      (launching n who).Honours g tr →
        ((tr.foldl (fun g e => g.upd e.call e.resp) g).destroyed = true →
          (tr.foldl (fun g e => g.upd e.call e.resp) g).joined = n.toNat) := by
    clear h
    induction tr with
    | nil => exact fun hg _ => hg
    | cons e tr ih =>
      rintro g hg ⟨hpre, hrest⟩
      refine ih ?_ hrest
      obtain ⟨c, r⟩ := e
      cases c with
      | barrierDestroy =>
        intro _
        obtain rfl : g = _ := hpre
        rfl
      | threadJoin i =>
        obtain ⟨-, rfl⟩ := hpre
        exact nofun
      | _ => exact hg
  exact hfrom nofun h

namespace Barrelfish

namespace SpinSystem

variable {n : BitVec 32} {ρ : Type} {who : ℕ → RunFn → VmopsBenchRunArg → Prop}
  {main : Prog mainSig ρ} {Q : ρ → Launch → Prop} {s s' : SpinSystem n.toNat ρ} {A : System ρ}

/-- A thread that has returned. -/
def Returned {N : ℕ} (s : SpinSystem N ρ) (i : ℕ) : Prop :=
  ∃ t r, s.sys.threads i = some t ∧ t.prog = .ret r

/-- **The threads that were joined have returned.** -/
def JoinedReturned (s : SpinSystem n.toNat ρ) : Prop :=
  ∀ i < (launch s.sys.mainTrace).joined, s.Returned i

/-- A call that is not the start of a thread leaves its program as it is. -/
theorem Returned.call {c : MainCall} {r : c.Resp} {m : Prog mainSig ρ} {i : ℕ} (h : s.Returned i)
    (hc : ∀ j run st, c ≠ .threadStart j run st) :
    Returned ⟨s.sys.afterCall c r m, s.waiters⟩ i := by
  obtain ⟨t, res, ht, hp⟩ := h
  have hthread : (s.sys.afterCall c r m).threads i = callThread c r i (s.sys.threads i) :=
    effect_eq_callThread _ c r i
  rw [ht] at hthread
  cases c with
  | threadStart j run st => exact absurd rfl (hc j run st)
  | threadCancel j =>
    simp only [callThread] at hthread
    split at hthread
    · exact ⟨{ t with freed := true }, res, hthread, hp⟩
    · exact ⟨t, res, hthread, hp⟩
  | _ => exact ⟨t, res, hthread, hp⟩

theorem JoinedReturned.call (h : s.JoinedReturned) {c : MainCall} {r : c.Resp}
    {m : Prog mainSig ρ} {env : (c : MainCall) → c.Resp}
    (hc : (launch s.sys.mainTrace).MayCall n who c) (hr : s.sys.mainAnswer env c = some r) :
    JoinedReturned ⟨s.sys.afterCall c r m, s.waiters⟩ := by
  intro i hi
  rw [System.launch_afterCall] at hi
  cases c with
  | threadStart j run st =>
    obtain ⟨-, -, hg⟩ := hc
    rw [hg] at hi
    cases hi
  | threadJoin j =>
    obtain ⟨-, hg⟩ := hc
    refine Returned.call ?_ (by simp)
    rcases Nat.lt_succ_iff_lt_or_eq.mp hi with hlt | rfl
    · exact h i hlt
    · obtain ⟨res, hres, -⟩ := Option.map_eq_some_iff.mp hr
      obtain ⟨t, ht, hret⟩ := Option.bind_eq_some_iff.mp hres
      rw [hg]
      exact ⟨t, res, ht, result?_eq_some.mp hret⟩
  | _ => exact (h i hi).call (by simp)

/-- **A thread that has returned takes no further step.** -/
theorem Returned.thread {i : ℕ} (h : s.Returned i) (hs : s.Refines A) {j : Fin n.toNat}
    {env : (c : ThreadCall) → c.Resp} (hstep : ThreadCase s j env s') : s'.Returned i := by
  obtain ⟨t, r, ht, hp⟩ := h
  have hother : ∀ {t' u : Thread} {d : BitVec 64}, s.sys.threads j = some t' →
      (∀ r, t'.prog ≠ .ret r) → (s.sys.setThread j u).threads i = some t := by
    intro t' u d ht' hret
    have hne : i ≠ j := by
      rintro rfl
      obtain rfl : t = t' := Option.some.inj (ht.symm.trans ht')
      exact hret r hp
    simpa only [System.setThread, Function.update_of_ne hne] using ht
  cases hstep with
  | wait => exact ⟨t, r, ht, hp⟩
  | @leave t' ht' hw =>
    obtain ⟨R, a, -, -, hthreads⟩ := hs.exists_places
    have hcorr := hthreads j
    rw [ht'] at hcorr
    obtain ⟨site, k, hprog⟩ := hcorr.atBarrier hw
    exact ⟨t, r, hother (d := 0) ht' (by simp [hprog]), hp⟩
  | enter ht' _ hprog => exact ⟨t, r, hother (d := 0) ht' (by simp [hprog]), hp⟩
  | @other t' u d ht' _ hadv =>
    refine ⟨t, r, hother (d := 0) ht' fun r' hret => ?_, hp⟩
    simp [Thread.advance, hret] at hadv

theorem reachable_joinedReturned (hn : 0 < n.toNat)
    (hmain : wp (launching n who) main Q Launch.init) (hs : Reachable main s) :
    s.JoinedReturned := by
  induction hs with
  | refl => exact fun i hi => absurd hi (Nat.not_lt_zero i)
  | @tail s s' hs hstep ih =>
    obtain ⟨A, hA, hrefines⟩ := (simulates hn hmain).exists_reached hs
    obtain ⟨l, hl⟩ := hstep
    cases l with
    | main env =>
      obtain ⟨sys, hsys, rfl⟩ := Option.map_eq_some_iff.mp hl
      rcases System.step_main hsys with ⟨σ, β, body, x, k, hm, rfl⟩ | ⟨c, k, r, hm, hr, rfl⟩
      · exact ih
      · have hc := System.reachable_mayCall hA hmain (hrefines.main_eq.trans hm)
        rw [hrefines.mainTrace_eq] at hc
        exact ih.call hc hr
    | thread i env =>
      have hcase := thread_cases hl
      have htrace : s'.sys.mainTrace = s.sys.mainTrace := by cases hcase <;> rfl
      intro j hj
      rw [htrace] at hj
      exact (ih j hj).thread hrefines hcase

/-- A thread that has returned is not inside `pthread_barrier_wait`. -/
theorem Returned.outside {i : Fin n.toNat} (h : s.Returned i) (hs : s.Refines A) :
    (s.waiters.thread i).prog = .ret () := by
  obtain ⟨t, r, ht, hp⟩ := h
  obtain ⟨R, a, hwaiters, -, hthreads⟩ := hs.exists_places
  have hcorr := hthreads i
  rw [ht] at hcorr
  have hw : t.waiting = false := by
    by_contra hw
    obtain ⟨site, k, hprog⟩ := hcorr.atBarrier (by simpa using hw)
    rw [hp] at hprog
    cases hprog
  rw [hwaiters]
  exact Places.prog_eq_ret_iff.mpr (hcorr.of_not_waiting hw).2

end SpinSystem

/-- **When the spin barrier is destroyed, every thread has returned**, and none is inside
`pthread_barrier_wait`. -/
theorem destroyed_unused {entry : VmopsBenchCfg → List Char → Prog mainSig ℤ}
    (hentry : entry = vmposBenchRunMapunmap ∨ entry = vmopsBenchRunProtect ∨
      entry = vmopsBenchRunProtectElevate ∨ entry = vmopsBenchRunTlbshoot)
    {cfg : VmopsBenchCfg} {opts : List Char}
    {s : SpinSystem cfg.corelistSize.toNat ℤ} (hs : SpinSystem.Reachable (entry cfg opts) s)
    {b : Barrier} (hb : s.sys.barrier = some b) (hdestroyed : b.destroyed = true)
    (i : Fin cfg.corelistSize.toNat) :
    s.Returned i ∧ (s.waiters.thread i).prog = .ret () := by
  obtain ⟨who, Q, hmain⟩ := exists_entry_launch hentry cfg opts
  have hpos : 0 < cfg.corelistSize.toNat := i.pos
  obtain ⟨A, hA, hrefines⟩ := (simulates hpos hmain).exists_reached hs
  have hl := System.reachable_launched hA hmain
  -- the main thread has destroyed it, and so it has joined all threads
  have hlaunch : (launch A.mainTrace).destroyed = true := by
    have hbarrier := hrefines.barrier_eq.trans hb
    rw [hl.barrier_eq] at hbarrier
    obtain ⟨m, -, rfl⟩ := Option.map_eq_some_iff.mp hbarrier
    exact hdestroyed
  have hhonours := (wp_run (System.reachable_wf hA).main_run hmain (launching_admits _ _ _ _)).1
  have hjoined := Launch.joined_of_destroyed hhonours hlaunch
  rw [hrefines.mainTrace_eq] at hjoined
  have hreturned : s.Returned i := by
    refine SpinSystem.reachable_joinedReturned hpos hmain hs i ?_
    rw [hjoined]
    exact i.isLt
  exact ⟨hreturned, hreturned.outside hrefines⟩

/-- The only thread has gone through both its barriers and has been joined. -/
theorem destroyed_unused_oneThread :
    ∃ s : SpinSystem 1 ℤ, SpinSystem.Reachable (vmposBenchRunMapunmap oneThread []) s ∧
      s.sys.barrier.any Barrier.destroyed = true ∧ (s.waiters.thread 0).entered = 2 ∧
      s.Returned 0 := by
  let go : SpinSystem.Label 1 := .main (MainCall.succeed (zeroArg oneThread))
  let ok : SpinSystem.Label 1 := .thread 0 ThreadCall.succeed
  have hrun : ∃ s, SpinSystem.Reachable (vmposBenchRunMapunmap oneThread []) s ∧
      (s.sys.barrier.any Barrier.destroyed = true ∧ (s.waiters.thread 0).entered = 2) :=
    SpinSystem.exists_reachable_of_exec
      (List.replicate 132 go ++ List.replicate 22 ok ++ List.replicate 2 go) (by decide)
  obtain ⟨s, hs, hany, hentered⟩ := hrun
  obtain ⟨b, hb, hdestroyed⟩ := (Option.any_eq_true _ _).mp hany
  exact ⟨s, hs, hany, hentered, (destroyed_unused (Or.inl rfl) hs hb hdestroyed ⟨0, by decide⟩).1⟩

end Barrelfish

end VmopsBench

import VmopsBench.Concurrent.Launched

/-!
# The flag of the shootdown benchmark

The workers of the shootdown benchmark spin until `*done` is set, and only thread 0
sets it, once, with its last statement before the finish barrier. Thread 0 leaves early when one of
its calls fails, and no error exit sets the flag. So the flag is set when thread 0 has
left exactly if none of its calls has failed (`VmopsBench.System.flagUp_iff`).

The proof follows two bits of a thread's history (`VmopsBench.Handshake`): whether one
of its calls has failed, and whether it has set the flag.
-/

namespace VmopsBench

open Interact

/-! ### Who sets the flag -/

/-- The call sets the flag. -/
def ThreadCall.setsDone : ThreadCall → Bool
  | .storeDone _ => true
  | _ => false

/-- **What matters of a thread's history**: a call has failed, and the flag was set. -/
structure Handshake where
  failed : Bool
  published : Bool

/-- The history after one more answered call. -/
def Handshake.upd (g : Handshake) (c : ThreadCall) (r : c.Resp) : Handshake :=
  ⟨g.failed || c.fails r, g.published || c.setsDone⟩

/-- The specification of the handshake: thread 0 sets the flag to `1`, and nobody
else does. -/
def handshake (tid : BitVec 32) : Spec threadSig Handshake where
  pre _ c := match c with
    | .storeDone v => tid = 0 ∧ v = 1
    | _ => True
  env _ _ _ := True
  upd := Handshake.upd

theorem handshake_admits (tid : BitVec 32) (g : Handshake) (tr : List (Event threadSig)) :
    (handshake tid).Admits g tr := Spec.admits_of_forall _ (fun _ _ _ => trivial) g tr

theorem after_handshake {tid : BitVec 32} {g : Handshake} (tr : List (Event threadSig)) :
    (handshake tid).after g tr =
      ⟨g.failed || tr.any fun e => e.call.fails e.resp,
        g.published || tr.any fun e => e.call.setsDone⟩ := by
  induction tr generalizing g with
  | nil => simp [Spec.after]
  | cons e tr ih =>
    have hcons : (handshake tid).after g (e :: tr) =
        (handshake tid).after (g.upd e.call e.resp) tr := rfl
    rw [hcons, ih]
    simp [Handshake.upd, Bool.or_assoc]

namespace TlbShoot

variable {arg : VmopsBenchRunArg} {tid : BitVec 32}

theorem shootOp_handshake :
    wp (handshake tid) (shootOp arg ()) (onExcept (fun _ g => g = ⟨true, false⟩)
      fun _ g => g = ⟨false, false⟩) ⟨false, false⟩ := by
  rw [shootOp, MapUnmap.mapUnmapOp]
  split
  · refine wp_perform_bind.mpr ⟨trivial, fun mapped _ => ?_⟩
    cases mapped with
    | false => rfl
    | true =>
      refine wp_perform_bind.mpr ⟨trivial, fun unmapped _ => ?_⟩
      cases unmapped <;> rfl
  · refine wp_perform_bind.mpr ⟨trivial, fun mapped _ => ?_⟩
    cases mapped with
    | none => rfl
    | some addr =>
      refine wp_perform_bind.mpr ⟨trivial, fun unmapped _ => ?_⟩
      cases unmapped <;> rfl

/-- **Thread 0 sets the flag unless a call has failed.** -/
theorem shooterRun_handshake (htid : tid = 0) {tStart tEnd : PlatTime} :
    wp (handshake tid) (shooterRun arg tStart tEnd) (fun _ g => g.published = !g.failed)
      ⟨false, false⟩ := by
  rw [shooterRun]
  refine (wp_bind _ _).mpr ?_
  refine wp_timedLoop (fun _ g => g = ⟨false, false⟩) rfl ?_ ?_
  · rintro s g rfl -
    refine wp_mono _ (fun o g ho => ?_) shootOp_handshake
    cases o with
    | error _ =>
      obtain rfl : g = ⟨true, false⟩ := ho
      rfl
    | ok _ =>
      obtain rfl : g = ⟨false, false⟩ := ho
      exact ⟨trivial, fun _ _ => rfl⟩
  · rintro s g rfl -
    refine wp_perform_bind.mpr ⟨trivial, fun tEnd _ => ?_⟩
    refine wp_perform_bind.mpr ⟨⟨htid, rfl⟩, fun _ _ => ?_⟩
    exact ⟨trivial, fun _ _ => rfl⟩

/-- A worker never sets it. -/
theorem workerRun_handshake {taddr : Addr} {tStart tEnd : PlatTime} {g : Handshake} :
    wp (handshake tid) (workerRun arg taddr tStart tEnd) (fun _ _ => True) g := by
  rw [workerRun]
  refine (wp_bind _ _).mpr ⟨fun _ _ => True, fun _ _ => True, trivial, ?_, ?_⟩
  · rintro - g -
    refine wp_perform_bind.mpr ⟨trivial, fun done _ => ?_⟩
    split
    · exact ⟨trivial, fun _ _ => trivial⟩
    · trivial
  · exact fun _ _ _ => ⟨trivial, fun _ _ => trivial⟩

theorem benchRunFn_handshake (htid : tid = arg.tid) :
    wp (handshake tid) (platThreadRunFn .tlbshoot arg)
      (fun _ g => tid = 0 → g.published = !g.failed) ⟨false, false⟩ := by
  refine wp_perform_bind.mpr ⟨trivial, fun _ _ => ?_⟩
  refine wp_perform_bind.mpr ⟨trivial, fun mapped _ => ?_⟩
  cases mapped with
  | none => exact fun _ => rfl
  | some taddr =>
    refine wp_perform_bind.mpr ⟨trivial, fun _ _ => ?_⟩
    refine wp_perform_bind.mpr ⟨trivial, fun tCurrent _ => ?_⟩
    dsimp only
    split
    · rename_i hne
      exact wp_mono _ (fun _ _ _ h => absurd (htid.symm.trans h) hne) workerRun_handshake
    · rename_i heq
      exact wp_mono _ (fun _ _ h _ => h) (shooterRun_handshake (htid.trans (not_not.mp heq)))

end TlbShoot

/-! ### The flag in a run -/

/-- The thread has set the flag. -/
def Thread.published (t : Thread) : Bool := t.trace.any fun e => e.call.setsDone

namespace System

variable {ρ : Type} {n : BitVec 32} {who : ℕ → RunFn → VmopsBenchRunArg → Prop}
  {main : Prog mainSig ρ} {s : System ρ}

/-- Every thread runs the shootdown benchmark, with its index as its `tid`. -/
def Shoots (i : ℕ) (run : RunFn) (st : VmopsBenchRunArg) : Prop :=
  run = .tlbshoot ∧ st.tid = BitVec.ofNat 32 i

/-- The only thread that may set the flag is thread 0. -/
theorem setsDone_cases {Q : ρ → Launch → Prop} (hs : Reachable main s)
    (hmain : wp (launching n Shoots) main Q Launch.init) {i : ℕ} {t : Thread}
    (ht : s.threads i = some t) {c : ThreadCall} {k : c.Resp → Prog threadSig RunResult}
    (hp : t.prog = .call c k) : c.setsDone = false ∨ i = 0 ∧ c = .storeDone 1 := by
  obtain ⟨hi, run, st, ⟨rfl, htid⟩, hwp⟩ := reachable_thread_wp hs hmain ht
  have h := hwp (TlbShoot.benchRunFn_handshake rfl) (handshake_admits _ _ _)
  rw [hp] at h
  cases c with
  | storeDone v =>
    obtain ⟨h0, rfl⟩ := h.1
    refine Or.inr ⟨?_, rfl⟩
    have hnat : i % 2 ^ 32 = 0 := by
      rw [← BitVec.toNat_ofNat, ← htid, h0]
      rfl
    rwa [Nat.mod_eq_of_lt (hi.trans n.isLt)] at hnat
  | _ => exact Or.inl rfl

/-- **The flag is what thread 0 has made it.** -/
structure FlagInv (s : System ρ) : Prop where
  set_iff : ∀ t, s.threads 0 = some t → (s.done ≠ 0 ↔ t.published = true)
  isSome : s.done ≠ 0 → (s.threads 0).isSome = true

/-- A call of the main thread takes no thread away. -/
theorem effect_isSome {c : MainCall} {r : c.Resp} {i : ℕ} (h : (s.threads i).isSome = true) :
    ((s.effect c r).threads i).isSome = true := by
  cases c with
  | threadStart j run st =>
    cases r with
    | false => exact h
    | true =>
      rcases eq_or_ne i j with rfl | hne
      · simp [effect, setThread]
      · simpa [effect, setThread, Function.update_of_ne hne] using h
  | threadCancel j =>
    rcases eq_or_ne i j with rfl | hne
    · simpa [effect] using h
    · simpa [effect, Function.update_of_ne hne] using h
  | barrierInit m => cases r <;> exact h
  | _ => exact h

theorem effect_done {c : MainCall} {r : c.Resp} : (s.effect c r).done = s.done := by
  cases c with
  | threadStart j run st => cases r <;> rfl
  | barrierInit m => cases r <;> rfl
  | _ => rfl

theorem FlagInv.call (h : FlagInv s) (hl : Launched n s) {c : MainCall} {r : c.Resp}
    {main' : Prog mainSig ρ} (hc : (launch s.mainTrace).MayCall n who c) :
    FlagInv (s.afterCall c r main') := by
  refine ⟨fun u hu => ?_, fun hd => ?_⟩
  · rw [afterCall_done, effect_done]
    rcases effect_threads hu with ⟨run, st, he, rfl⟩ | ⟨t, ht, -, -, htr, -⟩
    · -- thread 0 is created now, so nobody has set the flag
      obtain rfl : c = .threadStart 0 run st := congrArg Event.call he
      have hnone : (s.threads 0).isSome ≠ true := by
        rw [Ne, hl.isSome_iff, hc.2.2]
        exact lt_irrefl 0
      exact iff_of_false (fun hd => hnone (h.isSome hd)) nofun
    · rw [Thread.published, htr]
      exact h.set_iff t ht
  · rw [afterCall_done, effect_done] at hd
    exact effect_isSome (h.isSome hd)

/-- A step that leaves the flag alone. -/
theorem FlagInv.setThread (h : FlagInv s) {i : ℕ} {t u : Thread} (ht : s.threads i = some t)
    (hu : u.published = t.published) : FlagInv (s.setThread i u) := by
  refine ⟨fun v hv => ?_, fun hd => ?_⟩
  · rcases setThread_threads hv with ⟨rfl, rfl⟩ | ⟨-, hv⟩
    · rw [hu]
      exact h.set_iff t ht
    · exact h.set_iff v hv
  · rcases eq_or_ne 0 i with rfl | hne
    · simp [System.setThread]
    · have hsame : (s.setThread i u).threads 0 = s.threads 0 := Function.update_of_ne hne _ _
      rw [hsame]
      exact h.isSome hd

theorem reachable_flagInv {Q : ρ → Launch → Prop} (hs : Reachable main s)
    (hmain : wp (launching n Shoots) main Q Launch.init) : FlagInv s := by
  refine hs.induction ⟨nofun, fun h => absurd rfl h⟩ fun s s' hs h hstep => ?_
  cases hstep with
  | mainTurn hm => exact ⟨h.set_iff, h.isSome⟩
  | mainCall hm hr =>
    exact h.call (reachable_launched hs hmain) (reachable_mayCall hs hmain hm)
  | turn ht hw hp => exact h.setThread ht rfl
  | arrive ht hw hp => exact h.setThread ht rfl
  | cancelled ht hw hf => exact h.setThread ht rfl
  | @call i t c k env ht hw hp hc =>
    rcases setsDone_cases hs hmain ht hp with hno | ⟨rfl, rfl⟩
    · have hdone : c.doneAfter s.done = s.done := by cases c <;> first | rfl | cases hno
      rw [hdone]
      refine h.setThread ht ?_
      simp [Thread.published, hno]
    · -- thread 0 sets the flag
      refine ⟨fun v hv => ?_, fun _ => by simp [System.setThread]⟩
      simp only [System.setThread, Function.update_self, Option.some.injEq] at hv
      subst hv
      simp [Thread.published, ThreadCall.doneAfter, ThreadCall.setsDone]
  | @opened b hb hn =>
    -- what a released thread adds to its trace is a barrier
    refine ⟨fun v hv => ?_, fun hd => ?_⟩
    · obtain ⟨t, ht, rfl⟩ := Option.map_eq_some_iff.mp hv
      have hpub : t.release.published = t.published := by
        cases hw : t.waiting with
        | false => rw [release_idle hw]
        | true =>
          obtain ⟨site, k, hp⟩ := (reachable_wf hs).waiting 0 t ht hw
          rw [release_waiting hw hp]
          simp [Thread.published, ThreadCall.setsDone]
      rw [hpub]
      exact h.set_iff t ht
    · rw [Option.isSome_map]
      exact h.isSome hd

/-- **The flag is up**: it is set, and a worker that tests it leaves its loop. -/
def FlagUp (s : System ρ) : Prop :=
  s.done ≠ 0 ∧ ∀ i t k env, s.threads i = some t → t.prog = .call ThreadCall.loadDone k →
    ThreadCall.loadDone.answer env s.done ≠ 0

/-- **When thread 0 has left the shootdown benchmark, the flag is up exactly if none
of its calls has failed.** -/
theorem flagUp_iff {cfg : VmopsBenchCfg} {memobjs : ℕ → PlatMemobj}
    {s : System (ℤ × (ℕ → VmopsBenchRunArg))}
    (hs : Reachable (vmopsUtilsRunBenchmark cfg.corelistSize (filledArgs cfg memobjs) .tlbshoot) s)
    {t : Thread} (ht : s.threads 0 = some t) {r : RunResult} (hr : t.prog = .ret r) :
    FlagUp s ↔ ∀ e ∈ t.trace, e.call.fails e.resp = false := by
  have hmain : wp (launching cfg.corelistSize Shoots)
      (vmopsUtilsRunBenchmark cfg.corelistSize (filledArgs cfg memobjs) .tlbshoot)
      (fun r => Launch.MayReturn cfg.corelistSize r.1) Launch.init :=
    runBenchmark_launch fun i hi => ⟨rfl, by rw [filledArgs, if_pos hi]; rfl⟩
  obtain ⟨-, run, st, ⟨rfl, htid⟩, hwp⟩ := reachable_thread_wp hs hmain ht
  have h := hwp (TlbShoot.benchRunFn_handshake rfl) (handshake_admits _ _ _)
  rw [hr, after_handshake] at h
  have hpub : t.published = true ↔ ∀ e ∈ t.trace, e.call.fails e.resp = false := by
    have heq := h htid
    simp only [Bool.false_or] at heq
    rw [Thread.published, heq]
    simp
  rw [← hpub, ← (reachable_flagInv hs hmain).set_iff t ht]
  exact ⟨fun hup => hup.1, fun hd => ⟨hd, fun _ _ _ _ _ _ => hd⟩⟩

/-- A single thread that leaves without a failure puts the flag up. -/
theorem flagUp_alone :
    ∃ s, Reachable (vmopsUtilsRunBenchmark oneThread.corelistSize
        (filledArgs oneThread fun _ => 1) .tlbshoot) s ∧
      s.hasReturned 0 = true ∧ FlagUp s := by
  let go := Label.main (MainCall.succeed (zeroArg twoThreads))
  let ok := Label.thread 0 ThreadCall.succeed
  have hrun : ∃ s, Reachable (vmopsUtilsRunBenchmark oneThread.corelistSize
      (filledArgs oneThread fun _ => 1) .tlbshoot) s ∧
        s.hasReturned 0 = true ∧ (s.threads 0).all (fun t =>
          t.trace.all fun e => !e.call.fails e.resp) = true :=
    exists_reachable_of_exec [go, go, ok, ok, ok, .openBarrier, ok, ok, ok, ok, ok, ok, ok, ok, ok,
      .openBarrier] (by decide)
  obtain ⟨s, hs, hret, hnone⟩ := hrun
  obtain ⟨r, hres⟩ := Option.isSome_iff_exists.mp hret
  obtain ⟨t, ht, hr⟩ := Option.bind_eq_some_iff.mp hres
  refine ⟨s, hs, hret, (flagUp_iff hs ht (result?_eq_some.mp hr)).mpr fun e he => ?_⟩
  rw [ht, Option.all_some, List.all_eq_true] at hnone
  simpa using hnone e he

/-- A thread is about to test the flag. -/
def isLoadDone : Prog threadSig RunResult → Bool
  | .call .loadDone _ => true
  | _ => false

theorem eq_call_of_isLoadDone {p : Prog threadSig RunResult} (h : isLoadDone p = true) :
    ∃ k, p = .call ThreadCall.loadDone k := by
  cases p with
  | call c k =>
    cases c with
    | loadDone => exact ⟨k, rfl⟩
    | _ => cases h
  | _ => cases h

/-- The mapping of thread 0 fails in the first turn, and it returns; the worker is about to test a
flag that nobody will set. -/
theorem flag_stays_down :
    ∃ s, Reachable (vmopsUtilsRunBenchmark 2 (filledArgs twoThreads fun _ => 1) .tlbshoot) s ∧
      s.hasReturned 0 = true ∧ s.done = 0 ∧ ∃ t ∈ s.threads 1, ∃ k,
        t.prog = .call ThreadCall.loadDone k := by
  let go := Label.main (MainCall.succeed (zeroArg twoThreads))
  let ok := fun i => Label.thread i ThreadCall.succeed
  have hrun : ∃ s, Reachable (vmopsUtilsRunBenchmark 2 (filledArgs twoThreads fun _ => 1)
      .tlbshoot) s ∧ s.hasReturned 0 = true ∧ s.done = 0 ∧
        (s.threads 1).any (fun t => isLoadDone t.prog) = true :=
    exists_reachable_of_exec [go, go, go, ok 0, ok 0, ok 0, ok 1, ok 1, ok 1, .openBarrier,
      ok 0, ok 0, .thread 0 ThreadCall.failMap, ok 1, ok 1] (by decide)
  obtain ⟨s, hs, hret, hdone, hworker⟩ := hrun
  obtain ⟨t, ht, htest⟩ := (Option.any_eq_true _ _).mp hworker
  exact ⟨s, hs, hret, hdone, t, ht, eq_call_of_isLoadDone htest⟩

end System

end VmopsBench

import VmopsBench.Concurrent.Rounds

/-!
# The phases of the 4k functions

The 4k functions separate their phases with barriers: map all pages, meet, run the
timed loop, meet, unmap all pages, meet. The second meeting is a label, though, and a thread whose
mapping loop fails jumps to it without having been to the first. Its barrier episode is
then the one in which the others start their timed loops, and it unmaps while they
measure.

The setup failures are the only way this happens: as long as no thread has had one,
all threads that wait are at the same barrier call, and nobody maps the initial pages or
unmaps the final ones during the timed loop of another (`VmopsBench.System.phasesSeparate`).
-/

namespace VmopsBench

open Interact

/-! ### What a thread is doing -/

/-- The thread is about to make one of its initial mappings. -/
def Thread.setsUp (t : Thread) : Bool :=
  match t.prog with
  | .call c _ => ThreadCall.isMap c && t.passed.isEmpty
  | _ => false

/-- The thread is about to unmap a page after `cleanup_and_exit`. -/
def Thread.cleansUp (t : Thread) : Bool :=
  match t.prog with
  | .call (.vmUnmap ..) _ => t.passed.head? = some .cleanup
  | _ => false

/-- The thread has passed the start barrier, and has not arrived at the next one. -/
def Thread.isTimed (t : Thread) : Bool := t.passed = [.start] && !t.waiting

/-- The barrier call at which the thread waits. -/
def Thread.site? (t : Thread) : Option BarrierSite :=
  if t.waiting then
    match t.prog with
    | .call (.barrier site) _ => some site
    | _ => none
  else none

theorem Thread.setsUp_iff {t : Thread} : t.setsUp = true ↔
    (∃ c k, t.prog = .call c k ∧ ThreadCall.isMap c = true) ∧ t.passed = [] := by
  rw [Thread.setsUp]
  cases t.prog <;> simp

theorem Thread.cleansUp_iff {t : Thread} : t.cleansUp = true ↔
    (∃ addr size k, t.prog = .call (ThreadCall.vmUnmap addr size) k) ∧
      ∃ passed, t.passed = .cleanup :: passed := by
  have hhead : t.passed.head? = some .cleanup ↔ ∃ passed, t.passed = .cleanup :: passed := by
    cases t.passed <;> simp [eq_comm]
  rw [Thread.cleansUp]
  cases t.prog with
  | call c k => cases c <;> simp [hhead]
  | _ => simp

theorem Thread.site?_eq_some {t : Thread} {site : BarrierSite} (h : t.site? = some site) :
    ∃ k, t.prog = .call (ThreadCall.barrier site) k := by
  rw [Thread.site?] at h
  split at h
  · cases hp : t.prog with
    | call c k =>
      rw [hp] at h
      cases c with
      | barrier site' =>
        obtain rfl := Option.some.inj h
        exact ⟨k, rfl⟩
      | _ => cases h
    | _ =>
      rw [hp] at h
      cases h
  · cases h

namespace System

section Threads

variable {f : RunFn} {t : Thread}

/-- The barriers before each barrier of a 4k function, on the normal path. -/
def before : BarrierSite → List BarrierSite
  | .start => []
  | .cleanup => [.start]
  | .leave => [.cleanup, .start]
  | .finish => []

/-- **Without a setup failure a 4k function meets its barriers in order.** -/
theorem FollowsProtocol.passed_at (h : FollowsProtocol f t) (hf : f.protocol = .paged)
    (hsetup : ¬(progress t.trace).SetupFailed) {site : BarrierSite}
    {k : Unit → Prog threadSig RunResult} (hp : t.prog = .call (ThreadCall.barrier site) k) :
    site ≠ .finish ∧ t.passed = before site := by
  have hcall := h.calls _ _ hp
  cases site with
  | start => exact ⟨by decide, hcall.passed_eq⟩
  | finish => simp [RunFn.MayCall, hf] at hcall
  | cleanup =>
    obtain ⟨-, hclean | ⟨-, hfail⟩⟩ := hcall
    · exact ⟨by decide, hclean⟩
    · exact absurd hfail hsetup
  | leave =>
    obtain ⟨-, passed, hpassed, rfl | ⟨-, hfail⟩⟩ := hcall
    · exact ⟨by decide, hpassed⟩
    · exact absurd hfail hsetup

/-- A thread that maps its initial pages has passed no barrier, and one that unmaps the final ones
has passed two. -/
theorem FollowsProtocol.length_ne_one (h : FollowsProtocol f t)
    (hsetup : ¬(progress t.trace).SetupFailed) (hbusy : t.setsUp = true ∨ t.cleansUp = true) :
    t.passed.length ≠ 1 := by
  rcases hbusy with hmap | hunmap
  · obtain ⟨-, hnil⟩ := Thread.setsUp_iff.mp hmap
    rw [hnil]
    decide
  · obtain ⟨⟨addr, size, k, hp⟩, passed, hpassed⟩ := Thread.cleansUp_iff.mp hunmap
    rcases h.calls _ _ hp passed hpassed with rfl | ⟨-, hfail⟩
    · rw [hpassed]
      decide
    · exact absurd hfail hsetup

end Threads

/-! ### Separation -/

section Separation

variable {ρ : Type} {s : System ρ}

/-- No thread has failed to map its initial pages. -/
def NoSetupFailure (s : System ρ) : Prop :=
  ∀ i t, s.threads i = some t → ¬(progress t.trace).SetupFailed

/-- **The phases are separate**: no thread makes its initial mappings or unmaps its
pages at the end while another one is in its timed loop, and threads that wait wait at the
same barrier call. -/
def PhasesSeparate (s : System ρ) : Prop :=
  ∀ i j t u, i ≠ j → s.threads i = some t → s.threads j = some u →
    ((t.setsUp = true ∨ t.cleansUp = true) → u.isTimed = false) ∧
      ∀ a b, t.site? = some a → u.site? = some b → a = b

end Separation

/-- **When the phases of a 4k benchmark are separate**: with one thread, or as long as no thread
has failed to map its initial pages. -/
theorem phasesSeparate {n : BitVec 32} {args : ℕ → VmopsBenchRunArg} {f : RunFn}
    (hf : f = .mapunmap4k ∨ f = .protect4k) {s : System (ℤ × (ℕ → VmopsBenchRunArg))}
    (hs : Reachable (vmopsUtilsRunBenchmark n args f) s) (hc : n = 1 ∨ NoSetupFailure s) :
    PhasesSeparate s := by
  have hpaged : f.protocol = .paged := by rcases hf with rfl | rfl <;> rfl
  have hmain : wp (launching n (runsAll f args)) (vmopsUtilsRunBenchmark n args f) _ _ :=
    runBenchmark_runsAll
  intro i j t u hne ht hu
  rcases hc with rfl | hsetup
  · -- there is no other thread
    have hone : (1 : BitVec 32).toNat = 1 := rfl
    have hi := (reachable_thread_wp hs hmain ht).1
    have hj := (reachable_thread_wp hs hmain hu).1
    omega
  have hpt := reachable_protocol hs hmain (fun _ _ _ h => h.1) ht
  have hpu := reachable_protocol hs hmain (fun _ _ _ h => h.1) hu
  obtain ⟨R, hstep⟩ := reachable_inStep hs hmain
  have hsame : t.passed.length = u.passed.length := by
    rw [hstep.passed i t ht, hstep.passed j u hu]
  refine ⟨fun hbusy => ?_, fun a b ha hb => ?_⟩
  · -- a thread in its timed loop has passed one barrier, and a busy one none or two
    by_contra htimed
    have hone : u.passed = [.start] := by
      simp only [Thread.isTimed, Bool.not_eq_false, Bool.and_eq_true, decide_eq_true_eq] at htimed
      exact htimed.1
    refine hpt.length_ne_one (hsetup i t ht) hbusy ?_
    rw [hsame, hone]
    rfl
  · -- the number of barriers before it tells a barrier call
    obtain ⟨k, hp⟩ := Thread.site?_eq_some ha
    obtain ⟨k', hp'⟩ := Thread.site?_eq_some hb
    obtain ⟨hfa, hpa⟩ := hpt.passed_at hpaged (hsetup i t ht) hp
    obtain ⟨hfb, hpb⟩ := hpu.passed_at hpaged (hsetup j u hu) hp'
    rw [hpa, hpb] at hsame
    cases a <;> cases b <;> first | rfl | exact absurd rfl hfa | exact absurd rfl hfb | cases hsame

/-- With one thread waiting to start and the other still mapping, the phases are separate. -/
theorem phasesSeparate_twoThreads :
    ∃ s, Reachable (vmopsUtilsRunBenchmark 2 (filledArgs twoThreads fun _ => 1) .mapunmap4k) s ∧
      (s.threads 0).bind Thread.site? = some .start ∧ (s.threads 1).any Thread.setsUp = true ∧
      PhasesSeparate s := by
  let go := Label.main (MainCall.succeed (zeroArg twoThreads))
  let ok := fun i => Label.thread i ThreadCall.succeed
  have hrun : ∃ s, Reachable (vmopsUtilsRunBenchmark 2 (filledArgs twoThreads fun _ => 1)
      .mapunmap4k) s ∧ (s.threads 0).bind Thread.site? = some .start ∧
        (s.threads 1).any Thread.setsUp = true ∧ s.noFailures 2 = true :=
    exists_reachable_of_exec
      [go, go, go, ok 0, ok 0, ok 0, ok 0, ok 0, ok 1, ok 1, ok 1] (by decide)
  obtain ⟨s, hs, hw, hsets, hnone⟩ := hrun
  refine ⟨s, hs, hw, hsets, phasesSeparate (Or.inl rfl) hs (Or.inr fun i t ht hfail => ?_)⟩
  obtain ⟨e, he, -⟩ := hfail
  rw [failures_of_noFailures hnone (reachable_thread_wp hs runBenchmark_runsAll ht).1 ht] at he
  cases he

/-- The second thread's second mapping fails, so it waits at `cleanup_and_exit` while
the first one waits to start, and it unmaps its page while the first one measures. -/
theorem phases_overlap :
    ∃ s, Reachable (vmopsUtilsRunBenchmark 2 (filledArgs twoThreads fun _ => 1) .mapunmap4k) s ∧
      ¬PhasesSeparate s := by
  let go := Label.main (MainCall.succeed (zeroArg twoThreads))
  let ok := fun i => Label.thread i ThreadCall.succeed
  let mapFails := Label.thread 1 ThreadCall.failMap
  have hrun : ∃ s, Reachable (vmopsUtilsRunBenchmark 2 (filledArgs twoThreads fun _ => 1)
      .mapunmap4k) s ∧ (s.threads 1).any Thread.cleansUp = true ∧
        (s.threads 0).any Thread.isTimed = true :=
    exists_reachable_of_exec [go, go, go, ok 0, ok 0, ok 0, ok 0, ok 0, ok 1, ok 1, ok 1, mapFails,
      ok 1, .openBarrier] (by decide)
  obtain ⟨s, hs, hcleans, htimed⟩ := hrun
  refine ⟨s, hs, fun hsep => ?_⟩
  obtain ⟨t, ht, hcleans⟩ := (Option.any_eq_true _ _).mp hcleans
  obtain ⟨u, hu, htimed⟩ := (Option.any_eq_true _ _).mp htimed
  have hfalse := (hsep 1 0 t u (by decide) ht hu).1 (Or.inr hcleans)
  rw [htimed] at hfalse
  cases hfalse

end System

end VmopsBench

import Mathlib.Data.DFinsupp.WellFounded
import VmopsBench.Benchmarks.Ending
import VmopsBench.Concurrent.EntryThreads
import VmopsBench.Concurrent.NoHang
import VmopsBench.Concurrent.Samples
import VmopsBench.Concurrent.Success

/-!
# Every benchmark run comes to rest

Whoever is scheduled next, whatever fails, and whatever the clocks read: a run of the benchmarks on
mappings and permissions makes finitely many steps only
(`VmopsBench.System.comesToRest`). The measure that goes down
(`VmopsBench.System.measure`) is made of the rank of the main thread's program, and, below that,
of the rank of each thread's program, of whether the thread still has to arrive at its barrier, and
of whether it has been cancelled.

A state in which no step changes anything is the end of a run. There the entry has returned, or the
run hangs at its barrier; and if no call has failed, the entry has returned `0` and all threads have
come to the ends of their run functions.
-/

namespace VmopsBench

open Interact Prog

/-! ### The main thread -/

section MainThread

variable {cfg : VmopsBenchCfg} {args : ℕ → VmopsBenchRunArg}

theorem terminates_createMemobjs : (createMemobjs cfg).Terminates := by
  rw [createMemobjs]
  split
  · refine terminates_perform_bind fun memobj => ?_
    rcases memobj with _ | _ <;> exact terminates_ret _
  · refine (terminates_forLoop fun i memobjs => ?_).bind fun _ => terminates_ret _
    refine terminates_perform_bind fun memobj => ?_
    rcases memobj with _ | _
    · refine (terminates_forLoop fun _ _ => ?_).bind fun _ => terminates_ret _
      exact terminates_perform_bind fun _ => terminates_ret _
    · exact terminates_ret _

theorem terminates_prepareArgs : (vmopsUtilsPrepareArgs cfg).Terminates := by
  refine terminates_perform_bind fun args => ?_
  split
  · have hstats : (allocateStats cfg).Terminates := by
      rw [allocateStats]
      split
      · exact terminates_ret _
      · refine terminates_perform_bind fun samples => ?_
        split <;> exact terminates_ret _
    refine hstats.bind fun cfg' => terminates_createMemobjs.bind fun o => ?_
    rcases o with _ | memobjs
    · exact terminates_perform_bind fun _ => terminates_ret _
    · refine (terminates_forLoop fun _ _ => ?_).bind fun o => ?_
      · refine terminates_perform_bind fun addr => ?_
        rcases addr with _ | _ <;> exact terminates_ret _
      · rcases o with _ | _
        · exact terminates_perform_bind fun _ => terminates_ret _
        · exact terminates_ret _
  · exact terminates_ret _

theorem terminates_runBenchmark {n : BitVec 32} {f : RunFn} :
    (vmopsUtilsRunBenchmark n args f).Terminates := by
  refine terminates_perform_bind fun ready => ?_
  split
  · refine (terminates_forLoop fun i _ => ?_).bind fun o => ?_
    · refine terminates_perform_bind fun started => ?_
      split
      · exact terminates_ret _
      · refine (terminates_forLoop fun _ _ => ?_).bind fun _ => terminates_ret _
        exact terminates_perform_bind fun _ => terminates_ret _
    · rcases o with _ | _
      · exact terminates_ret _
      · refine (terminates_forLoop fun _ _ => ?_).bind fun _ =>
          terminates_perform_bind fun _ => terminates_ret _
        exact terminates_perform_bind fun _ => terminates_ret _
  · exact terminates_ret _

/-- The cleanup stops at the sentinel, if not before. -/
theorem terminates_cleanupArgs {n : ℕ} (hsentinel : (args n).tid = -1) :
    (vmopsUtilsCleanupArgs args).Terminates := by
  refine Terminates.bind (terminates_of_ends (g := []) (.whileLoop (Q := fun _ _ => True)
    (fun (s : ℕ × PlatMemobj) _ => s.1 ≤ n) (fun s _ => n - s.1) ?_ (fun _ _ _ _ => trivial)
    (Nat.zero_le n))) fun _ => terminates_perform _
  rintro ⟨current, memobj⟩ g hle hgoes
  have hlt : current < n := by
    refine lt_of_le_of_ne hle fun heq => ?_
    subst heq
    simp [hsentinel] at hgoes
  have hless : current + 1 ≤ n ∧ n - (current + 1) < n - current := by omega
  simp only [cleanupTurn]
  split
  · exact .perform trivial fun _ _ => .ret hless
  · exact .ret hless

/-- **The main thread comes to an end**, once its joins are answered. -/
theorem terminates_benchEntry (choose : VmopsBenchCfg → RunFn) (cfg : VmopsBenchCfg)
    (opts : List Char) : (benchEntry choose cfg opts).Terminates := by
  rw [benchEntry]
  split
  · exact terminates_ret _
  · refine terminates_prepareArgs.bind_of_run fun o tr hprepare => ?_
    rcases o with _ | ⟨cfg', args⟩
    · exact terminates_ret _
    · obtain ⟨⟨memobjs, rfl⟩, -⟩ := filled_of_prepareArgs hprepare
      refine terminates_runBenchmark.bind_of_run fun r tr hrun => ?_
      obtain ⟨r, args⟩ := r
      dsimp only
      split
      · exact terminates_ret _
      · next hr =>
        -- the sentinel is still there
        have hlast : args cfg'.corelistSize.toNat = filledArgs cfg' memobjs _ :=
          (of_run hrun wp_runBenchmark_joined (not_not.mp hr)).2 _ le_rfl
        have hsentinel : (args cfg'.corelistSize.toNat).tid = -1 := by
          rw [hlast, filledArgs, if_neg (lt_irrefl _), if_pos rfl]
        refine Terminates.bind ?_ fun _ => terminates_ret _
        rw [reportAndCleanup]
        split
        · exact terminates_ret _
        · exact terminates_perform_bind fun _ => terminates_cleanupArgs hsentinel

end MainThread

/-- The mapping loop goes by the size of the memory object and the number of operations. -/
theorem ThreadCfg.finishes {cfg cfg' : VmopsBenchCfg} {opts : List Char}
    (h : ThreadCfg cfg opts cfg') (hfinishes : ProtectElevate.Finishes cfg) :
    ProtectElevate.Finishes cfg' := by
  have hsame := h.sameLimits
  have hreaches : ProtectElevate.reachesFrom cfg' 0 = ProtectElevate.reachesFrom cfg 0 := by
    simp only [ProtectElevate.reachesFrom, ProtectElevate.totalMapSize, opsLimit, hsame.memsize_eq,
      hsame.nops_eq]
  rw [ProtectElevate.Finishes, hreaches]
  exact hfinishes

namespace System

variable {ρ : Type}

/-! ### The measure -/

/-- What is left to do for a thread. -/
noncomputable def threadMeasure : Option Thread → Ordinal.{1} ×ₗ ℕ
  | none => toLex (0, 0)
  | some t => toLex (t.prog.rank, (if t.waiting then 0 else 1) + if t.cancelled then 0 else 1)

/-- **What is left to do** for the main thread, and then for each of `n` threads. -/
noncomputable def measure (n : ℕ) (s : System ρ) : Ordinal.{1} ×ₗ (Fin n → Ordinal.{1} ×ₗ ℕ) :=
  toLex (s.main.rank, fun i => threadMeasure (s.threads i))

section Measure

variable {s s' : System ρ} {m : ℕ}

/-- The main thread makes a step, whatever becomes of the others. -/
theorem measure_lt_of_main (h : s'.main.rank < s.main.rank) : measure m s' < measure m s :=
  Prod.Lex.toLex_lt_toLex.mpr (.inl h)

/-- A thread makes a step, and none is set back. -/
theorem measure_lt_of_threads (hmain : s'.main = s.main)
    (hle : ∀ i < m, threadMeasure (s'.threads i) ≤ threadMeasure (s.threads i)) {i : ℕ} (hi : i < m)
    (hlt : threadMeasure (s'.threads i) < threadMeasure (s.threads i)) :
    measure m s' < measure m s := by
  refine Prod.Lex.toLex_lt_toLex.mpr (.inr ⟨congrArg rank hmain, ?_⟩)
  exact Pi.lt_def.mpr ⟨fun j => hle j j.isLt, ⟨i, hi⟩, hlt⟩

theorem measure_setThread_lt {i : ℕ} {t u : Thread} {d : BitVec 64} (hi : i < m)
    (ht : s.threads i = some t) (hu : threadMeasure (some u) < threadMeasure (some t)) :
    measure m { s.setThread i u with done := d } < measure m s := by
  have hself : (s.setThread i u).threads i = some u := Function.update_self _ _ _
  refine measure_lt_of_threads rfl (fun j _ => ?_) hi ?_
  · show threadMeasure ((s.setThread i u).threads j) ≤ _
    rcases eq_or_ne j i with rfl | hne
    · rw [hself, ht]
      exact hu.le
    · have hother : (s.setThread i u).threads j = s.threads j := Function.update_of_ne hne _ _
      rw [hother]
  · show threadMeasure ((s.setThread i u).threads i) < _
    rw [hself, ht]
    exact hu

/-- A thread's program makes a step. -/
theorem threadMeasure_lt {t u : Thread} (ht : t.prog.Terminates) (hu : t.prog.Next u.prog) :
    threadMeasure (some u) < threadMeasure (some t) :=
  Prod.Lex.toLex_lt_toLex.mpr (.inl (ht.rank_lt hu))

/-- A thread has come to its barrier, or to its cancellation. -/
theorem threadMeasure_lt_of_flags {t u : Thread} (hprog : u.prog = t.prog)
    (hflags : (if u.waiting then 0 else 1) + (if u.cancelled then 0 else 1) <
      (if t.waiting then 0 else 1) + if t.cancelled then 0 else 1) :
    threadMeasure (some u) < threadMeasure (some t) :=
  Prod.Lex.toLex_lt_toLex.mpr (.inr ⟨congrArg rank hprog, hflags⟩)

end Measure

/-! ### Steps -/

/-- The programs of all parties come to an end. -/
structure Terminating (s : System ρ) : Prop where
  main : s.main.Terminates
  threads : ∀ i t, s.threads i = some t → t.prog.Terminates

section Steps

variable {n : BitVec 32} {who : ℕ → RunFn → VmopsBenchRunArg → Prop} {main : Prog mainSig ρ}
  {Q : ρ → Launch → Prop} {s s' : System ρ}

theorem reachable_terminating (hs : Reachable main s) (hmain : main.Terminates)
    (hthreads : ∀ i run st, startEvent i run st ∈ s.mainTrace →
      (platThreadRunFn run st).Terminates) : s.Terminating := by
  have hwf := reachable_wf hs
  refine ⟨hmain.of_run hwf.main_run, fun i t ht => ?_⟩
  obtain ⟨run, st, hmem, hrun⟩ := hwf.thread_run i t ht
  exact (hthreads i run st hmem).of_run hrun

/-- A step that changes nothing: the barrier of no threads opens, or a thread that has been
cancelled is cancelled once more. -/
def Idles (n : BitVec 32) (s s' : System ρ) : Prop :=
  s' = s ∧ (n = 0 ∨ (launch s.mainTrace).failed = true)

/-- The barrier opens. -/
theorem descends_opened (hs : Reachable main s) (hl : Launched n s) (hend : s.Terminating)
    {b : Barrier} (hb : s.barrier = some b) (hn : s.waitingCount b.max.toNat = b.max.toNat) :
    measure n.toNat { s with threads := fun i => (s.threads i).map Thread.release } <
        measure n.toNat s ∨
      Idles n s { s with threads := fun i => (s.threads i).map Thread.release } := by
  obtain rfl : b.max = n := by
    rw [hl.barrier_eq] at hb
    obtain ⟨m, hm, rfl⟩ := Option.map_eq_some_iff.mp hb
    exact hl.max_eq m hm
  have hlt : ∀ i < b.max.toNat,
      threadMeasure ((s.threads i).map Thread.release) < threadMeasure (s.threads i) := by
    intro i hi
    obtain ⟨t, ht, hw⟩ := isWaiting_eq_true.mp (waitingCount_eq_iff.mp hn i hi)
    obtain ⟨site, k, hp⟩ := (reachable_wf hs).waiting i t ht hw
    rw [ht, Option.map_some, release_waiting hw hp]
    refine threadMeasure_lt (hend.threads i t ht) ?_
    rw [hp]
    exact .call (S := threadSig) (c := .barrier site) ()
  rcases Nat.eq_zero_or_pos b.max.toNat with hzero | hpos
  · -- without threads there is nobody to let go
    refine .inr ⟨?_, .inl (BitVec.eq_of_toNat_eq hzero)⟩
    have hnone : (fun i => (s.threads i).map Thread.release) = s.threads := by
      funext i
      have hi := hl.isSome_iff i
      have hle := hl.started_le
      cases ht : s.threads i with
      | none => rfl
      | some t =>
        rw [ht] at hi
        have := hi.mp rfl
        omega
    rw [hnone]
  · exact .inl (measure_lt_of_threads rfl (fun i hi => (hlt i hi).le) hpos (hlt 0 hpos))

/-- **A step leaves less to do**, or it changes nothing. -/
theorem StepCase.descends (h : StepCase s s') (hs : Reachable main s) (hl : Launched n s)
    (hend : s.Terminating) : measure n.toNat s' < measure n.toNat s ∨ Idles n s s' := by
  have hlt : ∀ {i t}, s.threads i = some t → i < n.toNat := fun ht =>
    ((hl.isSome_iff _).mp (by rw [ht]; rfl)).trans_le hl.started_le
  cases h with
  | mainTurn hm =>
    refine .inl (measure_lt_of_main (hend.main.rank_lt ?_))
    rw [hm]
    exact .turn
  | mainCall hm hr =>
    refine .inl (measure_lt_of_main (hend.main.rank_lt ?_))
    rw [hm]
    exact .call (S := mainSig) _
  | @turn i t _ _ _ _ _ ht hw hp =>
    refine .inl (measure_setThread_lt (hlt ht) ht (threadMeasure_lt (hend.threads i t ht) ?_))
    rw [hp]
    exact .turn
  | @arrive i t site k ht hw hp =>
    refine .inl (measure_setThread_lt (hlt ht) ht (threadMeasure_lt_of_flags rfl ?_))
    simp [hw]
  | @call i t c k env ht hw hp hc =>
    refine .inl (measure_setThread_lt (hlt ht) ht (threadMeasure_lt (hend.threads i t ht) ?_))
    rw [hp]
    exact .call (S := threadSig) _
  | opened hb hn => exact descends_opened hs hl hend hb hn
  | @cancelled i t ht hw hf =>
    cases hc : t.cancelled with
    | false =>
      refine .inl (measure_setThread_lt (hlt ht) ht (threadMeasure_lt_of_flags rfl ?_))
      simp [hc]
    | true =>
      refine .inr ⟨?_, .inr (hl.freed i t ht hf)⟩
      have hsame : { t with cancelled := true } = t := by rw [← hc]
      rw [hsame, setThread, ← ht, Function.update_eq_self]

/-! ### The end of a run -/

/-- **A step that changes something.** -/
def Changes (s s' : System ρ) : Prop := (∃ l, s.step l = some s') ∧ s' ≠ s

/-- **The end of a run**: there is no step that changes anything. -/
def AtRest (s : System ρ) : Prop := ∀ s', ¬s.Changes s'

/-- **A run ends.** -/
theorem not_endless (hmain : wp (launching n who) main Q Launch.init)
    (hend : ∀ s, Reachable main s → s.Terminating) {σ : ℕ → System ρ} (h0 : σ 0 = init main) :
    ¬∀ k, (σ k).Changes (σ (k + 1)) := by
  intro hsteps
  have hreached : ∀ k, Reachable main (σ k) := by
    intro k
    induction k with
    | zero =>
      rw [h0]
      exact .refl
    | succ k ih => exact ih.tail (hsteps k).1
  obtain ⟨k, hk⟩ := WellFounded.not_rel_apply_succ (r := (· < ·)) fun k => measure n.toNat (σ k)
  obtain ⟨⟨l, hl⟩, hne⟩ := hsteps k
  rcases (step_cases hl).descends (hreached k) (reachable_launched (hreached k) hmain)
    (hend _ (hreached k)) with hlt | ⟨heq, -⟩
  · exact hk hlt
  · exact hne heq

/-- **At rest, the main thread has returned or its threads hang.** -/
theorem AtRest.returned_or_hung (hrest : s.AtRest) (hs : Reachable main s)
    (hmain : wp (launching n who) main Q Launch.init) (hend : s.Terminating) :
    (∃ r, s.main = .ret r) ∨ Hung n.toNat s := by
  have hl := reachable_launched hs hmain
  have hidles : ∀ {l s'}, s.step l = some s' → Idles n s s' := by
    intro l s' hstep
    rcases (step_cases hstep).descends hs hl hend with hlt | hidle
    · exact absurd ⟨⟨l, hstep⟩, fun heq => lt_irrefl _ (heq ▸ hlt)⟩ (hrest s')
    · exact hidle
  let env := MainCall.succeed (zeroArg oneThread)
  cases hm : s.main with
  | ret r => exact .inl ⟨r, rfl⟩
  | loop body x k =>
    -- the main thread would go on
    have hstep : s.step (.main env) = some { s with main := unroll body x k } := by
      simp only [step, hm]
    have hsame : unroll body x k = s.main := congrArg System.main (hidles hstep).1
    have hless := hend.main.rank_lt (hm ▸ Next.turn)
    exact absurd hless (by rw [hsame]; exact lt_irrefl _)
  | call c k =>
    by_cases hc : ∃ i, c = .threadJoin i
    · obtain ⟨i, rfl⟩ := hc
      obtain ⟨hi, hg⟩ := reachable_mayCall hs hmain hm
      refine .inr (by_contra fun hhung => ?_)
      obtain ⟨l, s', hstep⟩ := exists_step_of_join hs hmain hm hhung
      rcases (hidles hstep).2 with rfl | hfailed
      · exact absurd hi (Nat.not_lt_zero i)
      · rw [hg] at hfailed
        cases hfailed
    · -- no other call has to wait for its answer
      have hanswer : s.mainAnswer env c = some (env c) := by
        cases c with
        | threadJoin i => exact absurd ⟨i, rfl⟩ hc
        | _ => rfl
      have hstep : s.step (.main env) = some (s.afterCall c (env c) (k (env c))) := by
        simp only [step, hm, hanswer]
        rfl
      have hsame : k (env c) = s.main := congrArg System.main (hidles hstep).1
      have hless := hend.main.rank_lt (hm ▸ Next.call (S := mainSig) (env c))
      exact absurd hless (by rw [hsame]; exact lt_irrefl _)

end Steps

/-! ### The entries -/

/-- No call has failed. -/
structure NothingFails (s : System ρ) : Prop where
  main : ∀ e ∈ s.mainTrace, e.call.fails e.resp = false
  threads : ∀ i t, s.threads i = some t → ∀ e ∈ t.trace, e.call.fails e.resp = false

theorem failures_eq_nil {tr : List (Event threadSig)}
    (h : ∀ e ∈ tr, e.call.fails e.resp = false) : (progress tr).failures = [] := by
  induction tr using List.reverseRecOn with
  | nil => rfl
  | append_singleton tr e ih =>
    have he := h e (by simp)
    rw [progress_concat]
    show (if e.call.fails e.resp then _ else (progress tr).failures) = []
    rw [if_neg (by simp [he])]
    exact ih fun e he => h e (List.mem_append_left _ he)

theorem not_failed {tr : List (Event mainSig)} (h : ∀ e ∈ tr, e.call.fails e.resp = false) :
    (launch tr).failed = false := by
  induction tr using List.reverseRecOn with
  | nil => rfl
  | append_singleton tr e ih =>
    have he := h e (by simp)
    have haborts : e.call.aborts e.resp = false := by
      obtain ⟨c, r⟩ := e
      cases c <;> first | rfl | exact he
    rw [launch_concat]
    exact Bool.or_eq_false_iff.mpr ⟨ih fun e he => h e (List.mem_append_left _ he), haborts⟩

/-- All of `n` threads have come to the ends of their run functions. -/
def AllDone (n : ℕ) (s : System ρ) : Prop :=
  ∀ i < n, ∃ t r, s.threads i = some t ∧ t.prog = .ret r ∧ r.exit = .done

section Entry

variable {choose : VmopsBenchCfg → RunFn} {cfg : VmopsBenchCfg} {opts : List Char} {s : System ℤ}

theorem benchEntry_terminating (hs : Reachable (benchEntry choose cfg opts) s)
    (hchoose : ∀ cfg', ThreadCfg cfg opts cfg' → choose cfg' ≠ .tlbshoot ∧
      (choose cfg' = .elevate → ProtectElevate.Finishes cfg')) : s.Terminating := by
  refine reachable_terminating hs (terminates_benchEntry choose cfg opts) fun i run st hmem => ?_
  obtain ⟨cfg', memobj, hcfg, -, rfl, rfl⟩ := entry_of_start (reachable_wf hs).main_run hmem
  obtain ⟨hshoot, hfinishes⟩ := hchoose cfg' hcfg
  exact terminates_platThreadRunFn hshoot hfinishes

/-- **Returned, and nothing has failed**: the benchmark is done. -/
theorem done_of_returned (hs : Reachable (benchEntry choose cfg opts) s)
    (hchoose : ∀ cfg, choose { cfg with stats := 0 } = choose cfg)
    (hparse : vmopsUtilsParseOptions opts cfg ≠ none) (hnone : s.NothingFails) {v : ℤ}
    (hv : s.main = .ret v) : v = 0 ∧ s.AllDone cfg.corelistSize.toNat := by
  have hmain := benchEntry_launch hchoose cfg opts
  have hret := reachable_main_wp hs hmain (launching_admits _ _ _ _)
  rw [hv] at hret
  have hfailed := not_failed hnone.main
  rcases hret with ⟨-, ⟨rfl, hg⟩ | ⟨-, hfail, -⟩⟩ | ⟨hrejected, -⟩
  · have hl := reachable_launched hs hmain
    have hg : launch s.mainTrace = _ := hg
    refine ⟨rfl, fun i hi => ?_⟩
    obtain ⟨t, r, ht, hp⟩ := hl.joined i (by rwa [hg])
    obtain ⟨run, st, hmem, -⟩ := (reachable_wf hs).thread_run i t ht
    refine ⟨t, r, ht, hp, (clean_iff_done hs hchoose hmem ht hp).mp fun e he => ?_⟩
    rw [failures_eq_nil (hnone.threads i t ht)] at he
    cases he
  · have hfail : (launch s.mainTrace).failed = true := hfail
    rw [hfailed] at hfail
    cases hfail
  · exact absurd hrejected hparse

/-- **At rest, and nothing has failed**: the benchmark is done. -/
theorem AtRest.done (hrest : s.AtRest) (hs : Reachable (benchEntry choose cfg opts) s)
    (hchoose : ∀ cfg, choose { cfg with stats := 0 } = choose cfg)
    (hend : s.Terminating) (hparse : vmopsUtilsParseOptions opts cfg ≠ none)
    (hnone : s.NothingFails) : s.main = .ret 0 ∧ s.AllDone cfg.corelistSize.toNat := by
  have hmain := benchEntry_launch hchoose cfg opts
  obtain ⟨cfg₁, hcfg₁⟩ := Option.ne_none_iff_exists'.mp hparse
  have hwho : ∀ i run st, runsChosen choose cfg opts i run st → run = choose cfg₁ := by
    rintro i run st ⟨cfg', hcfg', rfl⟩
    rw [Option.some.inj (hcfg'.symm.trans hcfg₁)]
  have hstrands : NothingStrands (choose cfg₁) s := by
    intro i t ht e he
    rw [failures_eq_nil (hnone.threads i t ht)] at he
    cases he
  obtain ⟨v, hv⟩ := (hrest.returned_or_hung hs hmain hend).resolve_right
    (not_hung_of_nothingStrands hs hmain hwho hstrands)
  obtain ⟨rfl, hdone⟩ := done_of_returned hs hchoose hparse hnone hv
  exact ⟨hv, hdone⟩

/-- **The runs of a benchmark end.** -/
theorem benchEntry_comesToRest (hchoose : ∀ cfg, choose { cfg with stats := 0 } = choose cfg)
    (hfinishes : ∀ cfg', ThreadCfg cfg opts cfg' → choose cfg' ≠ .tlbshoot ∧
      (choose cfg' = .elevate → ProtectElevate.Finishes cfg')) :
    (∀ σ : ℕ → System ℤ, σ 0 = init (benchEntry choose cfg opts) →
      ¬∀ k, (σ k).Changes (σ (k + 1))) ∧
    ∀ s, Reachable (benchEntry choose cfg opts) s → s.AtRest →
      ((∃ r, s.main = .ret r) ∨ Hung cfg.corelistSize.toNat s) ∧
      (vmopsUtilsParseOptions opts cfg ≠ none → s.NothingFails →
        s.main = .ret 0 ∧ s.AllDone cfg.corelistSize.toNat) := by
  have hmain := benchEntry_launch hchoose cfg opts
  have hend : ∀ s, Reachable (benchEntry choose cfg opts) s → s.Terminating :=
    fun s hs => benchEntry_terminating hs hfinishes
  exact ⟨fun σ h0 => not_endless hmain hend h0, fun s hs hrest =>
    ⟨hrest.returned_or_hung hs hmain (hend s hs), hrest.done hs hchoose (hend s hs)⟩⟩

end Entry

/-- **Every run of a benchmark comes to rest**, whatever fails and whoever is scheduled: there is no
endless sequence of steps that change something. A state at rest is one in which the entry has
returned or the run hangs; and if nothing has failed, the entry has returned `0` and all threads
have come to the ends of their run functions.

The remainders of the loops over small pages are to be defined. The model has a value for them in
any case, and its runs do not depend on it. -/
theorem comesToRest {choose : VmopsBenchCfg → RunFn} (hchoose : choose = chooseMapunmap ∨
      choose = chooseProtect ∨ choose = fun _ => .elevate) {cfg : VmopsBenchCfg} {opts : List Char}
    (hfinishes : choose = (fun _ => .elevate) → ProtectElevate.Finishes cfg)
    (_hpages : ∀ cfg₁, vmopsUtilsParseOptions opts cfg = some cfg₁ →
      (choose cfg₁).HasPages cfg₁) :
    (∀ σ : ℕ → System ℤ, σ 0 = init (benchEntry choose cfg opts) →
      ¬∀ k, (σ k).Changes (σ (k + 1))) ∧
    ∀ s, Reachable (benchEntry choose cfg opts) s → s.AtRest →
      ((∃ r, s.main = .ret r) ∨ Hung cfg.corelistSize.toNat s) ∧
      (vmopsUtilsParseOptions opts cfg ≠ none → s.NothingFails →
        s.main = .ret 0 ∧ s.AllDone cfg.corelistSize.toNat) := by
  rcases hchoose with rfl | rfl | rfl
  · refine benchEntry_comesToRest (fun _ => rfl) fun cfg' _ => ?_
    rw [chooseMapunmap]
    split <;> split <;> exact ⟨nofun, nofun⟩
  · refine benchEntry_comesToRest (fun _ => rfl) fun cfg' _ => ?_
    rw [chooseProtect]
    split <;> exact ⟨nofun, nofun⟩
  · exact benchEntry_comesToRest (fun _ => rfl) fun cfg' h => ⟨nofun, fun _ =>
      h.finishes (hfinishes rfl)⟩

/-- When everybody has returned, nobody makes a step. -/
theorem atRest_of_returned {main : Prog mainSig ρ} {s : System ρ} (hs : Reachable main s) {r : ρ}
    (hr : s.main = .ret r) (hthreads : ∀ i t, s.threads i = some t → ∃ r, t.prog = .ret r) :
    s.AtRest := by
  have hidle : ∀ i t, s.threads i = some t → t.waiting = false := by
    intro i t ht
    obtain ⟨r, hp⟩ := hthreads i t ht
    cases hw : t.waiting with
    | false => rfl
    | true =>
      obtain ⟨site, k, hcall⟩ := (reachable_wf hs).waiting i t ht hw
      rw [hp] at hcall
      cases hcall
  rintro s' ⟨⟨l, hl⟩, hne⟩
  cases l with
  | main env => simp [step, hr] at hl
  | thread i env =>
    obtain ⟨t, t', d, ht, ha, -⟩ := step_thread hl
    obtain ⟨r, hp⟩ := hthreads i t ht
    simp [Thread.advance, hp] at ha
  | openBarrier =>
    obtain ⟨b, -, -, rfl⟩ := step_openBarrier hl
    have hsame : (fun i => (s.threads i).map Thread.release) = s.threads := by
      funext i
      cases ht : s.threads i with
      | none => rfl
      | some t => rw [Option.map_some, release_idle (hidle i t ht)]
    rw [hsame] at hne
    exact hne rfl
  | cancel i =>
    obtain ⟨t, ht, -, -, -⟩ := step_cancel hl
    obtain ⟨r, hp⟩ := hthreads i t ht
    simp [step, ht, Thread.result?, hp] at hl

/-- The only thread has returned, and so has the entry, without a failure. -/
def hasFinished (s : System ℤ) : Bool :=
  s.value?.isSome && s.hasReturned 0 && s.mainTrace.all (fun e => !e.call.fails e.resp) &&
    (s.threads 0).any fun t => t.trace.all fun e => !e.call.fails e.resp

/-- A run of one thread in which nothing fails. -/
theorem finished_of_hasFinished {cfg : VmopsBenchCfg} (hone : cfg.corelistSize = 1)
    {choose : VmopsBenchCfg → RunFn} (hchoose : ∀ cfg, choose { cfg with stats := 0 } = choose cfg)
    {opts : List Char} {s : System ℤ} (hs : Reachable (benchEntry choose cfg opts) s)
    (h : s.hasFinished = true) :
    s.NothingFails ∧ (∀ i t, s.threads i = some t → i = 0 ∧ ∃ r, t.prog = .ret r) ∧
      ∃ v, s.main = .ret v := by
  simp only [hasFinished, Bool.and_eq_true] at h
  obtain ⟨⟨⟨hvalue, hreturned⟩, hmain⟩, hthread⟩ := h
  have hzero : ∀ i t, s.threads i = some t → i = 0 := by
    intro i t ht
    have hi := (reachable_thread_wp hs (benchEntry_launch hchoose cfg opts) ht).1
    rw [hone] at hi
    exact Nat.lt_one_iff.mp hi
  refine ⟨⟨fun e he => ?_, fun i t ht e he => ?_⟩, fun i t ht => ?_, ?_⟩
  · simpa using List.all_eq_true.mp hmain e he
  · obtain rfl := hzero i t ht
    rw [ht] at hthread
    simpa using List.all_eq_true.mp hthread e he
  · obtain rfl := hzero i t ht
    obtain ⟨r, hr⟩ := Option.isSome_iff_exists.mp hreturned
    obtain ⟨u, hu, hres⟩ := Option.bind_eq_some_iff.mp hr
    obtain rfl : t = u := Option.some.inj (ht.symm.trans hu)
    exact ⟨rfl, r, result?_eq_some.mp hres⟩
  · obtain ⟨v, hv⟩ := Option.isSome_iff_exists.mp hvalue
    exact ⟨v, value?_eq_some.mp hv⟩

set_option maxRecDepth 2000 in
/-- One thread with one operation. -/
theorem comesToRest_oneThread : ∃ s, Reachable (vmposBenchRunMapunmap oneThread []) s ∧
    s.AtRest ∧ s.main = .ret 0 ∧ s.AllDone 1 := by
  let go := Label.main (MainCall.succeed (zeroArg oneThread))
  let ok := Label.thread 0 ThreadCall.succeed
  have hrun : ∃ s, Reachable (vmposBenchRunMapunmap oneThread []) s ∧ s.hasFinished = true :=
    exists_reachable_of_exec (List.replicate 132 go ++ [ok, ok, .openBarrier, ok, ok, ok, ok, ok,
      ok, ok, ok, .openBarrier] ++ List.replicate 7 go) (by decide)
  obtain ⟨s, hs, hfinished⟩ := hrun
  obtain ⟨hnone, hthreads, v, hv⟩ := finished_of_hasFinished rfl (fun _ => rfl) hs hfinished
  have hrest : s.AtRest := atRest_of_returned hs hv fun i t ht => (hthreads i t ht).2
  have hfinishes : ProtectElevate.Finishes oneThread :=
    ⟨1, show ¬0 + BitVec.ofNat 64 1 * oneThread.memsize < _ by decide⟩
  have hpages : ∀ cfg₁, vmopsUtilsParseOptions [] oneThread = some cfg₁ →
      (chooseMapunmap cfg₁).HasPages cfg₁ := by
    intro cfg₁ hparse
    obtain rfl : oneThread = cfg₁ := Option.some.inj hparse
    decide
  obtain ⟨-, hends⟩ := comesToRest (.inl rfl) (fun _ => hfinishes) hpages
  exact ⟨s, hs, hrest, (hends s hs hrest).2 (by decide) hnone⟩

end System

end VmopsBench

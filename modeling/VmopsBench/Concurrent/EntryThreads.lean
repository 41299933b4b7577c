import VmopsBench.Benchmarks.Report
import VmopsBench.Concurrent.Launch

/-!
# The three parts of an entry function

What is known of `vmops_utils_run_benchmark` is known of the entry functions once the trace of an
entry is taken apart: it prepares, it runs the benchmark with what the preparation has filled in,
and it reports and cleans up (`VmopsBench.entry_of_run`). The first and the last part start no
thread, so a thread of an entry has been started by the second, with the record that
`vmops_utils_prepare_args` has filled in for it (`VmopsBench.entry_of_start`).
-/

namespace VmopsBench

open Interact

/-! ### Preparing -/

/-- The calls of `vmops_utils_prepare_args`. -/
def MainCall.prepares : MainCall → Bool
  | .callocArgs _ | .callocStats .. | .vmCreate .. | .vmDestroy _ | .vmMap .. | .freeArgs => true
  | .barrierInit _ | .threadStart .. | .threadCancel _ | .threadJoin _ | .barrierDestroy
  | .printCsv _ => false

/-- The calls after the benchmark. -/
def MainCall.reports : MainCall → Bool
  | .printCsv _ | .vmDestroy _ | .freeArgs => true
  | _ => false

section Parts

variable {cfg : VmopsBenchCfg} {ok : MainCall → Prop}

theorem limited_createMemobjs (hcreate : ∀ path size huge, ok (.vmCreate path size huge))
    (hdestroy : ∀ memobj, ok (.vmDestroy memobj)) :
    wp (limitedTo (S := mainSig) ok) (createMemobjs cfg) (fun _ _ => True) () := by
  rw [createMemobjs]
  split
  · refine wp_ignored (limitedTo_ignores (hcreate _ _ _)) fun memobj => ?_
    rcases memobj with _ | _ <;> trivial
  · refine (wp_bind _ _).mpr (wp_forLoop (fun _ _ _ => True) trivial ?_ fun _ _ _ => trivial)
    intro i memobjs g _ _
    refine wp_ignored (limitedTo_ignores (hcreate _ _ _)) fun memobj => ?_
    rcases memobj with _ | _
    · refine (wp_bind _ _).mpr (wp_forLoop (fun _ _ _ => True) trivial ?_ fun _ _ _ => trivial)
      exact fun j _ g _ _ => wp_ignored (limitedTo_ignores (hdestroy _)) fun _ => trivial
    · trivial

theorem limited_allocateStats (hstats : ∀ n stats, ok (.callocStats n stats)) :
    wp (limitedTo (S := mainSig) ok) (allocateStats cfg) (fun _ _ => True) () := by
  rw [allocateStats]
  split
  · trivial
  · refine wp_ignored (limitedTo_ignores (hstats _ _)) fun samples => ?_
    split <;> trivial

theorem limited_prepopulate {memobj : PlatMemobj}
    (hmap : ∀ size memobj offset huge, ok (.vmMap size memobj offset huge)) :
    wp (limitedTo (S := mainSig) ok) (prepopulate memobj) (fun _ _ => True) () := by
  refine wp_forLoop (fun _ _ _ => True) trivial (fun i _ g _ _ => ?_) fun _ _ _ => trivial
  refine wp_ignored (limitedTo_ignores (hmap _ _ _ _)) fun addr => ?_
  rcases addr with _ | _ <;> trivial

theorem limited_prepareArgs (hok : ∀ c, MainCall.prepares c = true → ok c) :
    wp (limitedTo (S := mainSig) ok) (vmopsUtilsPrepareArgs cfg) (fun _ _ => True) () := by
  have hfree : ∀ {α : Type} (a : α), wp (limitedTo (S := mainSig) ok)
      (mainCall .freeArgs >>= fun _ => pure a) (fun _ _ => True) () :=
    fun a => wp_ignored (limitedTo_ignores (hok _ rfl)) fun _ => trivial
  refine wp_ignored (limitedTo_ignores (hok _ rfl)) fun args => ?_
  split
  · refine (wp_bind _ _).mpr (wp_mono _ (fun cfg' g _ => ?_)
      (limited_allocateStats fun _ _ => hok _ rfl))
    refine (wp_bind _ _).mpr (wp_mono _ (fun o g _ => ?_)
      (limited_createMemobjs (fun _ _ _ => hok _ rfl) fun _ => hok _ rfl))
    rcases o with _ | memobjs
    · exact hfree _
    · refine (wp_bind _ _).mpr (wp_mono _ (fun o g _ => ?_)
        (limited_prepopulate fun _ _ _ _ => hok _ rfl))
      rcases o with _ | _
      · exact hfree _
      · trivial
  · trivial

/-- The benchmark itself. -/
theorem limited_runBenchmark {n : BitVec 32} {args : ℕ → VmopsBenchRunArg} {f : RunFn}
    (hok : ∀ c, MainCall.prepares c = false → MainCall.reports c = false → ok c) :
    wp (limitedTo (S := mainSig) ok) (vmopsUtilsRunBenchmark n args f) (fun _ _ => True) () := by
  refine wp_ignored (limitedTo_ignores (hok _ rfl rfl)) fun ready => ?_
  split
  · refine (wp_bind _ _).mpr (wp_forLoop (fun _ _ _ => True) trivial (fun i _ g _ _ => ?_)
      fun _ _ _ => ?_)
    · refine wp_ignored (limitedTo_ignores (hok _ rfl rfl)) fun started => ?_
      split
      · trivial
      · refine (wp_bind _ _).mpr (wp_forLoop (fun _ _ _ => True) trivial ?_ fun _ _ _ => trivial)
        exact fun j _ g _ _ => wp_ignored (limitedTo_ignores (hok _ rfl rfl)) fun _ => trivial
    · refine (wp_bind _ _).mpr (wp_forLoop (fun _ _ _ => True) trivial ?_ fun _ _ _ =>
        wp_ignored (limitedTo_ignores (hok _ rfl rfl)) fun _ => trivial)
      exact fun i _ g _ _ => wp_ignored (limitedTo_ignores (hok _ rfl rfl)) fun _ => trivial
  · trivial

/-- The cleanup. -/
theorem limited_cleanupArgs {args : ℕ → VmopsBenchRunArg}
    (hdestroy : ∀ memobj, ok (.vmDestroy memobj)) (hfree : ok .freeArgs) :
    wp (limitedTo (S := mainSig) ok) (vmopsUtilsCleanupArgs args) (fun _ _ => True) () := by
  refine (wp_bind _ _).mpr (wp_whileLoop (fun _ _ => True) trivial ?_ fun s g _ _ =>
    ⟨hfree, fun _ _ => trivial⟩)
  rintro ⟨current, memobj⟩ g - -
  simp only [cleanupTurn]
  split
  · exact wp_ignored (limitedTo_ignores (hdestroy _)) fun _ => trivial
  · trivial

/-- What is done after the benchmark. -/
theorem limited_reportAndCleanup {args : ℕ → VmopsBenchRunArg}
    (hok : ∀ c, MainCall.reports c = true → ok c) :
    wp (limitedTo (S := mainSig) ok) (reportAndCleanup cfg args) (fun _ _ => True) () := by
  rw [reportAndCleanup]
  split
  · trivial
  · exact wp_ignored (limitedTo_ignores (hok _ rfl)) fun _ =>
      limited_cleanupArgs (fun _ => hok _ rfl) (hok _ rfl)

end Parts

/-! ### An entry, part by part -/

/-- **The configuration that the threads are given**: the options are those of the benchmark, and
the samples are given up if there is no memory for them. -/
def ThreadCfg (cfg : VmopsBenchCfg) (opts : List Char) (cfg' : VmopsBenchCfg) : Prop :=
  ∃ cfg₁, vmopsUtilsParseOptions opts cfg = some cfg₁ ∧
    (cfg' = cfg₁ ∨ cfg' = { cfg₁ with stats := 0 })

/-- What an entry does after the benchmark. -/
def afterBenchmark (cfg : VmopsBenchCfg) (r : ℤ × (ℕ → VmopsBenchRunArg)) : Prog mainSig ℤ := do
  if r.1 ≠ 0 then return -1
  else
    reportAndCleanup cfg r.2
    return 0

/-- What neither the options nor the preparation change. -/
structure SameLimits (cfg cfg' : VmopsBenchCfg) : Prop where
  corelistSize_eq : cfg'.corelistSize = cfg.corelistSize
  coreslist_eq : cfg'.coreslist = cfg.coreslist
  memsize_eq : cfg'.memsize = cfg.memsize
  timeMs_eq : cfg'.timeMs = cfg.timeMs
  nops_eq : cfg'.nops = cfg.nops
  benchmark_eq : cfg'.benchmark = cfg.benchmark

section Entry

variable {choose : VmopsBenchCfg → RunFn} {cfg cfg' : VmopsBenchCfg} {opts : List Char}
  {tr : List (Event mainSig)} {q : Prog mainSig ℤ}

theorem ThreadCfg.sameLimits (h : ThreadCfg cfg opts cfg') : SameLimits cfg cfg' := by
  obtain ⟨cfg₁, hparse, h⟩ := h
  have hsame : SameLimits cfg cfg₁ := by
    rw [vmopsUtilsParseOptions] at hparse
    split at hparse
    · cases hparse
    · split at hparse
      · cases hparse
      · obtain rfl := Option.some.inj hparse
        exact ⟨rfl, rfl, rfl, rfl, rfl, rfl⟩
  rcases h with rfl | rfl
  · exact hsame
  · exact ⟨hsame.1, hsame.2, hsame.3, hsame.4, hsame.5, hsame.6⟩

/-- **What the preparation fills in**, when it succeeds. -/
theorem filled_of_prepareArgs {args : ℕ → VmopsBenchRunArg}
    (h : Run (vmopsUtilsPrepareArgs cfg) tr (.ret (some (cfg', args)))) :
    (∃ memobjs, args = filledArgs cfg' memobjs) ∧
      (cfg' = cfg ∨ cfg' = { cfg with stats := 0 }) := by
  have hlaunch : wp (launching 0 fun _ _ _ => True) (vmopsUtilsPrepareArgs cfg) _ Launch.init :=
    wp_prepareArgs
  have hcfg := (wp_run h hlaunch (launching_admits _ _ _ _)).2.2 _ rfl
  exact ⟨(of_run h (prepareArgs_filled cfg) _ rfl).1, hcfg⟩

/-- **A run of an entry** is still preparing, or it has prepared and goes on with the benchmark. -/
theorem entry_of_run (h : Run (benchEntry choose cfg opts) tr q) :
    (∀ e ∈ tr, e.call.prepares = true) ∨
      ∃ cfg' memobjs tr₁ tr₂, ThreadCfg cfg opts cfg' ∧ tr = tr₁ ++ tr₂ ∧
        (∀ e ∈ tr₁, e.call.prepares = true) ∧
        Run (vmopsUtilsRunBenchmark cfg'.corelistSize (filledArgs cfg' memobjs) (choose cfg') >>=
          afterBenchmark cfg') tr₂ q := by
  rw [benchEntry] at h
  cases hparse : vmopsUtilsParseOptions opts cfg with
  | none =>
    rw [hparse] at h
    obtain ⟨rfl, -⟩ := Run.of_ret h
    exact .inl fun e he => absurd he List.not_mem_nil
  | some cfg₁ =>
    rw [hparse] at h
    have hprepares : ∀ {tr₁ p}, Run (vmopsUtilsPrepareArgs cfg₁) tr₁ p →
        ∀ e ∈ tr₁, e.call.prepares = true := fun hrun =>
      forall_mem_of_run hrun (limited_prepareArgs fun _ hc => hc)
    rcases h.of_bind with ⟨p, hp, -⟩ | ⟨o, tr₁, tr₂, hp, hrest, rfl⟩
    · exact .inl (hprepares hp)
    · rcases o with _ | ⟨cfg', args⟩
      · obtain ⟨rfl, -⟩ := Run.of_ret hrest
        exact .inl (by simpa using hprepares hp)
      · obtain ⟨⟨memobjs, rfl⟩, hcfg⟩ := filled_of_prepareArgs hp
        exact .inr ⟨cfg', memobjs, tr₁, tr₂, ⟨cfg₁, hparse, hcfg⟩, rfl, hprepares hp, hrest⟩

/-- **An entry that has returned `0`** has prepared, has come to the end of its benchmark, and has
reported. The samples are given up only if there is no memory for them. -/
theorem entry_returned {cfg₁ : VmopsBenchCfg} (hparse : vmopsUtilsParseOptions opts cfg = some cfg₁)
    (h : Run (benchEntry choose cfg opts) tr (.ret 0)) (hstats : sampleAlloc cfg₁ false ∉ tr) :
    ∃ memobjs args tr₁ tr₂ tr₃, tr = tr₁ ++ (tr₂ ++ tr₃) ∧ (∀ e ∈ tr₁, e.call.prepares = true) ∧
      Run (vmopsUtilsRunBenchmark cfg₁.corelistSize (filledArgs cfg₁ memobjs) (choose cfg₁)) tr₂
        (.ret (0, args)) ∧
      Run (reportAndCleanup cfg₁ args) tr₃ (.ret ()) := by
  rw [benchEntry, hparse] at h
  obtain ⟨o, tr₁, tr', hp, hrest, rfl⟩ := h.of_bind_ret
  rcases o with _ | ⟨cfg', args⟩
  · obtain ⟨-, heq⟩ := Run.of_ret hrest
    cases heq
  · obtain ⟨⟨memobjs, hargs⟩, hcfg⟩ := of_run hp (prepareArgs_filled cfg₁) _ rfl
    obtain rfl : args = filledArgs cfg' memobjs := hargs
    obtain rfl : cfg' = cfg₁ := hcfg.resolve_right fun hmem =>
      hstats (List.mem_append_left _ hmem)
    obtain ⟨⟨v, args⟩, tr₂, tr₃, hrun, hafter, rfl⟩ := hrest.of_bind_ret
    dsimp only at hafter
    split at hafter
    · obtain ⟨-, heq⟩ := Run.of_ret hafter
      cases heq
    · next hv =>
      obtain rfl : v = 0 := not_not.mp hv
      obtain ⟨⟨⟩, tr₃, tr₄, hreport, hlast, rfl⟩ := hafter.of_bind_ret
      obtain ⟨rfl, -⟩ := Run.of_ret hlast
      rw [List.append_nil]
      exact ⟨memobjs, args, tr₁, tr₂, tr₃, rfl,
        forall_mem_of_run hp (limited_prepareArgs fun _ hc => hc), hrun, hreport⟩

/-- What comes after the benchmark starts no thread. -/
theorem reports_of_afterBenchmark {r : ℤ × (ℕ → VmopsBenchRunArg)}
    (h : Run (afterBenchmark cfg r) tr q) : ∀ e ∈ tr, e.call.reports = true := by
  suffices hwp : wp (limitedTo (S := mainSig) fun c => c.reports = true) (afterBenchmark cfg r)
      (fun _ _ => True) () from forall_mem_of_run h hwp
  rw [afterBenchmark]
  split
  · trivial
  · exact (wp_bind _ _).mpr (wp_mono _ (fun _ _ _ => trivial)
      (limited_reportAndCleanup fun _ hc => hc))

/-- **A thread of an entry** has been started with the record that was filled in for it. -/
theorem entry_of_start {i : ℕ} {run : RunFn} {st : VmopsBenchRunArg}
    (h : Run (benchEntry choose cfg opts) tr q)
    (hmem : (⟨MainCall.threadStart i run st, true⟩ : Event mainSig) ∈ tr) :
    ∃ cfg' memobj, ThreadCfg cfg opts cfg' ∧ i < cfg'.corelistSize.toNat ∧ run = choose cfg' ∧
      st = fillArg cfg' memobj i := by
  rcases entry_of_run h with hnone | ⟨cfg', memobjs, tr₁, tr₂, hcfg, rfl, hnone, hrun⟩
  · cases hnone _ hmem
  · have hstarted : ∀ {tr₂ p}, Run (vmopsUtilsRunBenchmark cfg'.corelistSize
        (filledArgs cfg' memobjs) (choose cfg')) tr₂ p →
          (⟨MainCall.threadStart i run st, true⟩ : Event mainSig) ∈ tr₂ →
            i < cfg'.corelistSize.toNat ∧ run = choose cfg' ∧ st = fillArg cfg' (memobjs i) i := by
      intro tr₂ p hp hmem
      obtain ⟨hon, -⟩ := wp_run hp runBenchmark_runsAll (launching_admits _ _ _ _)
      obtain ⟨g, hi, ⟨rfl, rfl⟩, -⟩ := hon.of_mem hmem
      exact ⟨hi, rfl, if_pos hi⟩
    have hthread : i < cfg'.corelistSize.toNat ∧ run = choose cfg' ∧
        st = fillArg cfg' (memobjs i) i := by
      rcases List.mem_append.mp hmem with hmem | hmem
      · cases hnone _ hmem
      · rcases hrun.of_bind with ⟨p, hp, -⟩ | ⟨r, tr₂, tr₃, hp, hrest, rfl⟩
        · exact hstarted hp hmem
        · rcases List.mem_append.mp hmem with hmem | hmem
          · exact hstarted hp hmem
          · cases reports_of_afterBenchmark hrest _ hmem
    exact ⟨cfg', memobjs i, hcfg, hthread⟩

end Entry

end VmopsBench

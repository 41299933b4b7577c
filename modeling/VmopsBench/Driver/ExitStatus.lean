import VmopsBench.Benchmarks.Options
import VmopsBench.Concurrent.Launch
import VmopsBench.Driver.CoresList
import VmopsBench.Driver.Main

/-!
# The exit status

`main` is documented to return `EXIT_FAILURE` on failure. But past the options and the cores there
is one `return` only: what the entry function of the benchmark has returned is logged, and so is a
benchmark that has no entry function, and then the status is `EXIT_SUCCESS`
(`VmopsBench.finishMain`).

So the status tells whether the benchmark has run exactly if it has run. In terms of the input and
the answers of the system, the benchmark is a name that `main` knows with options that are accepted,
and no call of the main thread fails on which the benchmark is given up
(`VmopsBench.tellsWhetherRan_iff`).
-/

namespace VmopsBench

open Interact Getopt Tokens

/-! ### The end of `main` -/

/-- **`main` from the choice of the benchmark on.** The messages are left out, and so is the closing
of the files. -/
def finishMain (cfg : VmopsBenchCfg) : Prog mainSig ExitStatus := do
  let _ ← runSelected cfg
  return .success

/-- **`main` exits**, past the options and the cores: its configuration, its calls, and the
status. -/
inductive MainExits (posix : Bool) (argv : List (List Char)) :
    VmopsBenchCfg → List (Event mainSig) → ExitStatus → Prop where
  | intro {trOptions : List (Event optionSig)} {trCores : List (Event numaSig)}
      {tr : List (Event mainSig)} {junk : ℕ → BitVec 32} {s s' : MainVars} {status : ExitStatus}
      (hoptions : Run (getoptLoop posix argv) trOptions (.ret (.ok s)))
      (hcores : Run (selectCores junk s) trCores (.ret (.ok s')))
      (hfinish : Run (finishMain (adjust s'.cfg)) tr (.ret status)) :
      MainExits posix argv (adjust s'.cfg) tr status

/-- A name that `main` knows, with options that are accepted. -/
def ValidBenchmark (benchmark : List Char) : Prop :=
  ∃ (b : Benchmark) (ts : List OptionToken),
    benchmark = b.name ++ render OptionToken.text ts ∧ ¬Contradictory ts

/-- No call has failed on which the benchmark is given up. -/
def NoneAborts (tr : List (Event mainSig)) : Prop := ∀ e ∈ tr, e.call.aborts e.resp = false

/-- **The status tells whether the benchmark has run**: it is `EXIT_SUCCESS` if and only if the
benchmark is valid and its entry function, with these calls, has returned `0`. -/
def TellsWhetherRan (cfg : VmopsBenchCfg) (tr : List (Event mainSig)) (status : ExitStatus) :
    Prop :=
  status = .success ↔ ∃ (b : Benchmark) (ts : List OptionToken),
    cfg.benchmark = b.name ++ render OptionToken.text ts ∧ ¬Contradictory ts ∧
      Run (b.entry (b.set cfg) (render OptionToken.text ts)) tr (.ret 0)

/-! ### What the entry functions return -/

section Entries

variable {b : Benchmark} {cfg : VmopsBenchCfg} {opts : List Char} {tr : List (Event mainSig)}

/-- The history has a failure on record if there was one. -/
theorem failed_launch_iff : (launch tr).failed = false ↔ NoneAborts tr := by
  induction tr using List.reverseRecOn with
  | nil => exact iff_of_true rfl fun _ h => absurd h List.not_mem_nil
  | append_singleton tr e ih =>
    have hupd : (launch (tr ++ [e])).failed = ((launch tr).failed || e.call.aborts e.resp) := by
      rw [launch_concat]
      rfl
    rw [hupd, Bool.or_eq_false_iff, ih, NoneAborts, NoneAborts, List.forall_mem_append,
      List.forall_mem_singleton]

/-- **An entry function returns `0` if its options are accepted and no call has failed** on which
the benchmark is given up. -/
theorem entry_returns {r : ℤ} (hrun : Run (b.entry cfg opts) tr (.ret r)) :
    r = 0 ↔ vmopsUtilsParseOptions opts cfg ≠ none ∧ NoneAborts tr := by
  have hchoose : ∀ cfg, b.choose { cfg with stats := 0 } = b.choose cfg := by
    cases b <;> exact fun _ => rfl
  rw [Benchmark.entry_eq] at hrun
  have hlaunch := (wp_run hrun (benchEntry_launch hchoose cfg opts) (launching_admits _ _ _ _)).2
  rw [← failed_launch_iff]
  rcases hlaunch with ⟨hparse, ⟨rfl, hg⟩ | ⟨rfl, hfailed, -⟩⟩ | ⟨hparse, rfl⟩
  · have hg : launch tr = _ := hg
    exact iff_of_true rfl ⟨hparse, by rw [hg]⟩
  · have hfailed : (launch tr).failed = true := hfailed
    exact iff_of_false (by decide) fun h => by simp [hfailed] at h
  · exact iff_of_false (by decide) fun h => h.1 hparse

/-- The options of a valid benchmark are accepted. -/
theorem parseOptions_render_ne_none {ts : List OptionToken} (hts : ¬Contradictory ts) :
    vmopsUtilsParseOptions (render OptionToken.text ts) cfg ≠ none := by
  rw [vmopsUtilsParseOptions_eq_some_iff.mpr ⟨ts, rfl, hts, rfl⟩]
  exact Option.some_ne_none _

/-- The last part of `main` ends in one way only. -/
theorem of_finishMain {status : ExitStatus} (hrun : Run (finishMain cfg) tr (.ret status)) :
    status = .success ∧ ∃ r, Run (runSelected cfg) tr (.ret r) := by
  obtain ⟨r, tr₁, tr₂, hselected, hreturn, rfl⟩ := hrun.of_bind_ret
  cases hreturn
  rw [List.append_nil]
  exact ⟨rfl, r, hselected⟩

end Entries

/-! ### The benchmark -/

/-- The choice of the cores leaves the benchmark as it is. -/
theorem keepsBenchmark_selectCores (junk : ℕ → BitVec 32) (s : MainVars) :
    wp (recording numaSig) (selectCores junk s) (fun r _ => KeepsBenchmark s r) [] := by
  rw [selectCores]
  split
  · exact keepsBenchmark_error s _
  · split
    · refine (wp_bind _ _).mpr (wp_mono _ (fun r g _ => ?_) (wp_recording_extends _ _))
      cases r with
      | error _ => exact keepsBenchmark_error s _
      | ok _ => exact keepsBenchmark_ok rfl
    · exact keepsBenchmark_ok rfl

theorem benchmark_adjust (cfg : VmopsBenchCfg) : (adjust cfg).benchmark = cfg.benchmark := by
  rw [adjust]
  split <;> split <;> rfl

section Main

variable {posix : Bool} {argv : List (List Char)} {cfg : VmopsBenchCfg}
  {tr : List (Event mainSig)} {status : ExitStatus}

/-- **The benchmark is the one that was given with `-b`**, if there was one. -/
theorem MainExits.benchmark (h : MainExits posix argv cfg tr status) :
    cfg.benchmark = initVars.cfg.benchmark ∨
      .withArg 'b' cfg.benchmark ∈ getopts posix optstring none argv := by
  obtain ⟨hoptions, hcores, -⟩ := h
  rw [benchmark_adjust, of_run hcores (keepsBenchmark_selectCores _ _) _ rfl]
  exact of_run hoptions (benchmark_of_optionLoop _ _ _) _ rfl

/-- **When the status tells whether the benchmark has run**: the benchmark is valid, and no call of
the main thread has failed on which it is given up. Otherwise the status is `EXIT_SUCCESS`
all the same. -/
theorem tellsWhetherRan_iff (h : MainExits posix argv cfg tr status) :
    TellsWhetherRan cfg tr status ↔
      ValidBenchmark cfg.benchmark ∧ NoneAborts tr := by
  obtain ⟨-, -, hfinish⟩ := h
  generalize adjust _ = cfg at hfinish ⊢
  obtain ⟨rfl, r, hselected⟩ := of_finishMain hfinish
  constructor
  · intro htells
    obtain ⟨b, ts, hbenchmark, hts, hentry⟩ := htells.mp rfl
    exact ⟨⟨b, ts, hbenchmark, hts⟩, ((entry_returns hentry).mp rfl).2⟩
  · rintro ⟨⟨b, ts, hbenchmark, hts⟩, haborts⟩
    have hselect := selectBenchmark_eq_some_iff.mpr hbenchmark
    rw [runSelected, hselect] at hselected
    obtain rfl := (entry_returns hselected).mpr ⟨parseOptions_render_ne_none hts, haborts⟩
    exact iff_of_true rfl ⟨b, ts, hbenchmark, hts, hselected⟩

end Main

/-- The default benchmark on core `7`. -/
theorem tellsWhetherRan_default : ∃ cfg tr status,
    MainExits false (optionWords [('c', ['7'])]) cfg tr status ∧ status = .success ∧
      TellsWhetherRan cfg tr status := by
  have hfinish : ∃ tr status, Run (finishMain (adjust (coreVars 7).cfg)) tr (.ret status) ∧
      tr.all (fun e => !e.call.aborts e.resp) = true :=
    exists_run_of_yields (MainCall.succeed (zeroArg (coreVars 7).cfg)) 300 (by decide)
  obtain ⟨tr, status, hfinish, hall⟩ := hfinish
  have haborts : NoneAborts tr := fun e he => by simpa using List.all_eq_true.mp hall e he
  have hcores : Run (selectCores (fun _ => 0) (coreVars 7)) [] (.ret (.ok (coreVars 7))) := .nil _
  have hexits : MainExits false (optionWords [('c', ['7'])]) _ tr status :=
    ⟨run_optionLoop_core 7 [], hcores, hfinish⟩
  have hvalid : ValidBenchmark (adjust (coreVars 7).cfg).benchmark :=
    ⟨.mapunmap, [], rfl, fun h => absurd h.1 List.not_mem_nil⟩
  exact ⟨_, tr, status, hexits, (of_finishMain hfinish).1,
    (tellsWhetherRan_iff hexits).mpr ⟨hvalid, haborts⟩⟩

/-- **A benchmark that does not exist** is a success. -/
theorem unknown_exits_success : ∃ cfg,
    MainExits false (optionWords [('c', ['7']), ('b', "mapumap".toList)]) cfg [] .success ∧
      cfg.benchmark = "mapumap".toList ∧ ¬ValidBenchmark cfg.benchmark ∧
      ¬TellsWhetherRan cfg [] .success := by
  let s : MainVars := { coreVars 7 with cfg.benchmark := "mapumap".toList }
  have hoptions : Run (getoptLoop false (optionWords [('c', ['7']), ('b', "mapumap".toList)])) _
      (.ret (.ok s)) := run_optionLoop_core 7 [.withArg 'b' "mapumap".toList]
  have hcores : Run (selectCores (fun _ => 0) s) [] (.ret (.ok s)) := .nil _
  have hnone : selectBenchmark "mapumap".toList = none := by decide
  have hunknown : ¬∃ (b : Benchmark) (opts : List Char), "mapumap".toList = b.name ++ opts := by
    rintro ⟨b, opts, heq⟩
    rw [selectBenchmark_eq_some_iff.mpr heq] at hnone
    cases hnone
  refine ⟨adjust s.cfg, ⟨hoptions, hcores, .nil _⟩, rfl, ?_, fun htells => ?_⟩
  · rintro ⟨b, ts, heq, -⟩
    exact hunknown ⟨b, _, heq⟩
  · obtain ⟨b, ts, heq, -⟩ := htells.mp rfl
    exact hunknown ⟨b, _, heq⟩

end VmopsBench

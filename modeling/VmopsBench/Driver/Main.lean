import VmopsBench.Benchmarks.ObjectRange
import VmopsBench.Driver.CoreSelection

/-!
# The driver

The rest of `main`, from the configuration that the options and the cores have left
(`VmopsBench.getoptLoop`, `VmopsBench.selectCores`) to the entry function of the benchmark. It
raises a memory object that is too small for a huge page, puts in the sampling rate if there is
none, and chooses the benchmark by the beginning of its name; what follows in the name are the
options of the benchmark. Messages are left out, and so is `plat_init`, which changes nothing here.

`VmopsBench.Accepts` is the way of a command line to its benchmark: the one that is chosen, and the
configuration that its entry function has come to with its options. When the arguments can be
prepared for it, the threads are run (`VmopsBench.Accepts.run`).
-/

namespace VmopsBench

open Interact

/-- `DEFAULT_SAMPLING_RATE_MS`. -/
abbrev defaultSamplingRateMs : BitVec 32 := 0#32

/-- The statements of `main` between the cores and the choice of the benchmark. -/
def adjust (cfg : VmopsBenchCfg) : VmopsBenchCfg :=
  let cfg := if cfg.maphuge && cfg.memsize < platArchHugePageSize then
      { cfg with memsize := platArchHugePageSize }
    else cfg
  if cfg.rate = -1 then { cfg with rate := defaultSamplingRateMs } else cfg

/-! ### The benchmarks -/

/-- The benchmarks that `main` knows. -/
inductive Benchmark where
  | mapunmap
  | maponly
  | protect
  | elevate
  | tlbshoot
  deriving DecidableEq

namespace Benchmark

/-- The text that `main` compares with. -/
def name : Benchmark → List Char
  | .mapunmap => "mapunmap".toList
  | .maponly => "maponly".toList
  | .protect => "protect".toList
  | .elevate => "elevate".toList
  | .tlbshoot => "tlbshoot".toList

/-- In the order in which `main` compares. -/
def all : List Benchmark := [.mapunmap, .maponly, .protect, .elevate, .tlbshoot]

/-- The assignment that `main` makes for the benchmark. -/
def set : Benchmark → VmopsBenchCfg → VmopsBenchCfg
  | .maponly, cfg => { cfg with nounmap := true }
  | _, cfg => cfg

/-- Nothing else is set. -/
theorem set_eq (b : Benchmark) (cfg : VmopsBenchCfg) :
    b.set cfg = { cfg with nounmap := (b.set cfg).nounmap } := by
  cases b <;> rfl

/-- The entry function of the benchmark. -/
def entry : Benchmark → VmopsBenchCfg → List Char → Prog mainSig ℤ
  | .mapunmap | .maponly => vmposBenchRunMapunmap
  | .protect => vmopsBenchRunProtect
  | .elevate => vmopsBenchRunProtectElevate
  | .tlbshoot => vmopsBenchRunTlbshoot

/-- The run function that the entry function chooses. -/
def choose : Benchmark → VmopsBenchCfg → RunFn
  | .mapunmap | .maponly => chooseMapunmap
  | .protect => chooseProtect
  | .elevate => fun _ => .elevate
  | .tlbshoot => fun _ => .tlbshoot

theorem entry_eq (b : Benchmark) : b.entry = benchEntry b.choose := by
  cases b <;> rfl

end Benchmark

/-- The comparisons of `main`: the benchmark, and what follows its name. -/
def selectBenchmark (benchmark : List Char) : Option (Benchmark × List Char) :=
  Benchmark.all.findSome? fun b => (b.name.isPrefixOf? benchmark).map fun opts => (b, opts)

/-- **No name is the beginning of another one**, so the order of the comparisons does not
matter. -/
theorem selectBenchmark_eq_some_iff {benchmark opts : List Char} {b : Benchmark} :
    selectBenchmark benchmark = some (b, opts) ↔ benchmark = b.name ++ opts := by
  constructor
  · intro h
    obtain ⟨b', -, h⟩ := List.exists_of_findSome?_eq_some h
    obtain ⟨opts', hopts, heq⟩ := Option.map_eq_some_iff.mp h
    obtain ⟨rfl, rfl⟩ := Prod.mk.inj heq
    exact (List.isPrefixOf?_eq_some_iff_append_eq.mp hopts).symm
  · rintro rfl
    cases b <;> rfl

/-- **The last part of `main`**: the benchmark. A name that it does not know is logged only. -/
def runSelected (cfg : VmopsBenchCfg) : Prog mainSig ℤ :=
  match selectBenchmark cfg.benchmark with
  | some (b, opts) => b.entry (b.set cfg) opts
  | none => return 0

theorem runSelected_eq {cfg : VmopsBenchCfg} {b : Benchmark} {opts : List Char}
    (h : selectBenchmark cfg.benchmark = some (b, opts)) :
    runSelected cfg = benchEntry b.choose (b.set cfg) opts := by
  rw [runSelected, h, ← Benchmark.entry_eq]

/-! ### From the command line to the threads -/

/-- **The command line is accepted**: the benchmark and the configuration that the options come
to. -/
inductive Accepts (posix : Bool) (argv : List (List Char)) : Benchmark → VmopsBenchCfg → Prop where
  | intro {trOptions : List (Event optionSig)} {trCores : List (Event numaSig)}
      {junk : ℕ → BitVec 32} {s s' : MainVars} {b : Benchmark} {opts : List Char}
      {cfg : VmopsBenchCfg}
      (hoptions : Run (getoptLoop posix argv) trOptions (.ret (.ok s)))
      (hcores : Run (selectCores junk s) trCores (.ret (.ok s')))
      (hselect : selectBenchmark (adjust s'.cfg).benchmark = some (b, opts))
      (hparse : vmopsUtilsParseOptions opts (b.set (adjust s'.cfg)) = some cfg) :
      Accepts posix argv b cfg

section Accepted

variable {posix : Bool} {argv : List (List Char)} {b : Benchmark} {cfg cfg' : VmopsBenchCfg}
  {args : ℕ → VmopsBenchRunArg}

/-- An entry function whose preparation has succeeded. -/
theorem run_benchEntry {choose : VmopsBenchCfg → RunFn} {cfg₁ : VmopsBenchCfg}
    {opts : List Char} {tr : List (Event mainSig)}
    (hparse : vmopsUtilsParseOptions opts cfg₁ = some cfg)
    (hprepare : Run (vmopsUtilsPrepareArgs cfg) tr (.ret (some (cfg', args)))) :
    ∃ k, Run (benchEntry choose cfg₁ opts) tr
      (vmopsUtilsRunBenchmark cfg'.corelistSize args (choose cfg') >>= k) := by
  rw [benchEntry, hparse]
  exact ⟨_, hprepare.bind_left _⟩

/-- **The threads are run** by `main`, after the options and the cores, if the arguments can be
prepared. -/
theorem Accepts.run (h : Accepts posix argv b cfg) (hprepares : Prepares cfg cfg' args) :
    ∃ trOptions s junk trCores s' tr k,
      Run (getoptLoop posix argv) trOptions (.ret (.ok s)) ∧
      Run (selectCores junk s) trCores (.ret (.ok s')) ∧
      Run (runSelected (adjust s'.cfg)) tr
        (vmopsUtilsRunBenchmark cfg'.corelistSize args (b.choose cfg') >>= k) := by
  obtain ⟨hoptions, hcores, hselect, hparse⟩ := h
  obtain ⟨tr, linux, hprepare, -⟩ := hprepares
  obtain ⟨k, hrun⟩ := run_benchEntry hparse hprepare
  exact ⟨_, _, _, _, _, _, k, hoptions, hcores, runSelected_eq hselect ▸ hrun⟩

/-- The run function does not depend on the statistics. -/
theorem Benchmark.choose_stats (b : Benchmark) (cfg : VmopsBenchCfg) (stats : BitVec 32) :
    b.choose { cfg with stats } = b.choose cfg := by
  cases b <;> rfl

/-- **What is prepared**: the arguments are filled in, and only the statistics may have been
switched off. -/
structure Sound (cfg cfg' : VmopsBenchCfg) (args : ℕ → VmopsBenchRunArg) : Prop where
  cfg_eq : cfg' = { cfg with stats := cfg'.stats }
  args_eq : ∀ i < cfg'.corelistSize.toNat, ∃ memobj, args i = fillArg cfg' memobj i
  pages : 0 < cfg'.corelistSize.toNat → pageCount cfg' ≠ 0

theorem Prepares.sound (h : Prepares cfg cfg' args) : Sound cfg cfg' args := by
  obtain ⟨sizes, hprepared⟩ := h.prepared
  refine ⟨hprepared.cfg_eq, fun i hi => ?_, hprepared.pageCount_ne_zero⟩
  obtain ⟨memobj, harg, -⟩ := hprepared.args_eq i hi
  exact ⟨memobj, harg⟩

end Accepted

end VmopsBench

import VmopsBench.Benchmarks.RunFns

/-!
# The main thread: preparation, run, cleanup

What the main thread does for a benchmark, from the option suffix of its name to
the value the entry function returns: `vmops_utils_prepare_args` creates the
memory objects and fills in one argument record per thread,
`vmops_utils_run_benchmark` starts the threads and joins them, the results are
printed, and `vmops_utils_cleanup_args` releases what is left.

These are programs over a signature of their own, `VmopsBench.mainSig`; a call such
as `threadJoin` is answered when the thread has ended, which is for
`VmopsBench.Concurrent.System` to say. A joined thread's argument record is the
answer of the join, since it is memory the thread has written and the main thread
reads afterwards.

The array of argument records is a function from indices. Its entries beyond the
ones filled in are the zeroes of `calloc`, and the entry at `corelist_size` is
the sentinel that stops `vmops_utils_cleanup_args`.
-/

namespace VmopsBench

open Interact

/-! ### The calls of the main thread -/

/-- The names of memory objects. -/
inductive VmobjName where
  | shared
  /-- `VMOBJ_NAME_INDEPENDENT`, with the core printed into it. -/
  | independent (core : BitVec 32)
  deriving DecidableEq

/-- **The calls of the main thread.** -/
inductive MainCall where
  /-- `calloc` of `n` argument records. -/
  | callocArgs (n : BitVec 32)
  /-- `calloc` of `n` times `stats` samples. -/
  | callocStats (n stats : BitVec 32)
  | vmCreate (path : VmobjName) (size : SizeT) (huge : Bool)
  | vmDestroy (memobj : PlatMemobj)
  | vmMap (size : SizeT) (memobj : PlatMemobj) (offset : SizeT) (huge : Bool)
  /-- `free` of the argument records. -/
  | freeArgs
  | barrierInit (nthreads : BitVec 32)
  /-- `plat_thread_start` of the thread with index `i`. -/
  | threadStart (i : ℕ) (run : RunFn) (st : VmopsBenchRunArg)
  | threadCancel (i : ℕ)
  | threadJoin (i : ℕ)
  | barrierDestroy
  | printCsv (args : ℕ → VmopsBenchRunArg)

abbrev MainCall.Resp : MainCall → Type
  | .callocArgs _ | .callocStats .. | .barrierInit _ | .threadStart .. => Bool
  | .vmCreate .. => Option PlatMemobj
  | .vmMap .. => Option Addr
  | .threadJoin _ => VmopsBenchRunArg
  | .vmDestroy _ | .freeArgs | .threadCancel _ | .barrierDestroy | .printCsv _ => Unit

/-- **The signature of the main thread.** -/
abbrev mainSig : Sig := ⟨MainCall, MainCall.Resp⟩

/-- One call of the main thread. -/
abbrev mainCall (c : MainCall) : Prog mainSig c.Resp := Prog.perform (S := mainSig) c

/-- A call of the main thread reports an error. -/
def MainCall.fails : (c : MainCall) → c.Resp → Bool
  | .callocArgs _, r | .callocStats .., r | .barrierInit _, r | .threadStart .., r => !r
  | .vmCreate .., r => r.isNone
  | .vmMap .., r => r.isNone
  | .threadJoin _, _ | .vmDestroy _, _ | .freeArgs, _ | .threadCancel _, _ | .barrierDestroy, _
  | .printCsv _, _ => false

/-- An environment in which every call of the main thread succeeds. The answer to a join is not the
environment's. -/
def MainCall.succeed (arg : VmopsBenchRunArg) : (c : MainCall) → c.Resp
  | .callocArgs _ | .callocStats .. | .barrierInit _ | .threadStart .. => true
  | .vmCreate .. => some 1#64
  | .vmMap .. => some 0x10000#64
  | .threadJoin _ => arg
  | .vmDestroy _ | .freeArgs | .threadCancel _ | .barrierDestroy | .printCsv _ => ()

/-! ### Preparing the arguments -/

/-- `BENCHMARK_PREPOPULATE_MAPPINGS`. -/
abbrev benchmarkPrepopulateMappings : ℕ := 128

/-- An entry of the `calloc`ed array. Its `cfg` is `NULL` and never read. -/
def zeroArg (cfg : VmopsBenchCfg) : VmopsBenchRunArg where
  cfg := cfg
  memobj := 0
  tid := 0
  coreid := 0
  count := 0
  duration := 0
  stats := ⟨none, 0, 0, 0, 0, 0, []⟩

/-- One turn of the loop that fills in the argument records. The offset of a thread's samples is
a 32-bit product. -/
def fillArg (cfg : VmopsBenchCfg) (memobj : PlatMemobj) (i : ℕ) : VmopsBenchRunArg where
  cfg := cfg
  memobj := memobj
  tid := BitVec.ofNat 32 i
  coreid := cfg.coreslist.getD i 0
  count := 0
  duration := 0
  stats := {
    values := if 0 < cfg.stats then some ((cfg.stats * BitVec.ofNat 32 i).setWidth 64) else none
    idx := 0
    idxMax := cfg.stats.setWidth 64
    dryrun := 10
    samplingDelta := platConvertTime cfg.rate
    samplingNext := 0
    writes := [] }

/-- The array of argument records after the last loop of
`vmops_utils_prepare_args` and the sentinel. -/
def filledArgs (cfg : VmopsBenchCfg) (memobjs : ℕ → PlatMemobj) (i : ℕ) : VmopsBenchRunArg :=
  if i < cfg.corelistSize.toNat then fillArg cfg (memobjs i) i
  else if i = cfg.corelistSize.toNat then { zeroArg cfg with tid := -1 }
  else zeroArg cfg

/-- The memory objects of the threads, by index; an error leaves it to the caller
to release the argument records. The cleanup loop destroys `args[i].memobj`
in every turn. -/
def createMemobjs (cfg : VmopsBenchCfg) : Prog mainSig (Option (ℕ → PlatMemobj)) := do
  if cfg.shared then
    match ← mainCall (.vmCreate .shared cfg.memsize cfg.maphuge) with
    | some memobj =>
      return some fun i => if i < cfg.corelistSize.toNat then memobj else 0
    | none => return none
  else
    let created ← Prog.forLoop cfg.corelistSize.toNat (fun i (memobjs : ℕ → PlatMemobj) => do
      match ← mainCall (.vmCreate (.independent (cfg.coreslist.getD i 0)) cfg.memsize
          cfg.maphuge) with
      | some memobj => return .ok (Function.update memobjs i memobj)
      | none =>
        let _ ← Prog.forLoop i (fun _ (_ : Unit) => do
          mainCall (.vmDestroy (memobjs i))
          return (.ok () : Except Unit Unit)) ()
        return (.error () : Except Unit (ℕ → PlatMemobj))) (fun _ => 0)
    return created.toOption

/-- The mappings made beforehand. -/
def prepopulate (memobj : PlatMemobj) : Prog mainSig (Except Unit Unit) :=
  Prog.forLoop benchmarkPrepopulateMappings (fun _ _ => do
    match ← mainCall (.vmMap platArchBasePageSize memobj 0 false) with
    | some _ => return .ok ()
    | none => return .error ()) ()

/-- The allocation of the samples. When it fails the statistics are switched off. -/
def allocateStats (cfg : VmopsBenchCfg) : Prog mainSig VmopsBenchCfg := do
  if cfg.stats = 0 then return cfg
  else if ← mainCall (.callocStats cfg.corelistSize cfg.stats) then return cfg
  else return { cfg with stats := 0 }

/-- `vmops_utils_prepare_args`: the argument records, or nothing when it returns
`-1`. It may clear `cfg->stats`, so the configuration is part of the result. -/
def vmopsUtilsPrepareArgs (cfg : VmopsBenchCfg) :
    Prog mainSig (Option (VmopsBenchCfg × (ℕ → VmopsBenchRunArg))) := do
  if ← mainCall (.callocArgs (cfg.corelistSize + 1)) then
    let cfg ← allocateStats cfg
    match ← createMemobjs cfg with
    | none =>
      mainCall .freeArgs
      return none
    | some memobjs =>
      match ← prepopulate (memobjs 0) with
      | .error () =>
        mainCall .freeArgs
        return none
      | .ok () => return some (cfg, filledArgs cfg memobjs)
  else return none

/-! ### Running and cleaning up -/

/-- The loop that cancels the threads before the one that could not be started. -/
def cancelThreads (i : ℕ) : Prog mainSig (Except Unit Unit) :=
  Prog.forLoop i (fun j _ => do
    mainCall (.threadCancel j)
    return .ok ()) ()

/-- One turn of the loop that starts the threads. -/
def startThread (args : ℕ → VmopsBenchRunArg) (runfn : RunFn) (i : ℕ) :
    Prog mainSig (Except Unit Unit) := do
  if ← mainCall (.threadStart i runfn (args i)) then return .ok ()
  else
    let _ ← cancelThreads i
    return .error ()

/-- The loop that starts the threads. -/
def startThreads (nthreads : BitVec 32) (args : ℕ → VmopsBenchRunArg) (runfn : RunFn) :
    Prog mainSig (Except Unit Unit) :=
  Prog.forLoop nthreads.toNat (fun i _ => startThread args runfn i) ()

/-- The loop that joins the threads. Every handle is non-`NULL` by then. -/
def joinThreads (nthreads : BitVec 32) (args : ℕ → VmopsBenchRunArg) :
    Prog mainSig (Except Unit (ℕ → VmopsBenchRunArg)) :=
  Prog.forLoop nthreads.toNat (fun i args => do
    let arg ← mainCall (.threadJoin i)
    return .ok (Function.update args i arg)) args

/-- `vmops_utils_run_benchmark`: the value it returns, and the argument records as
the threads have left them. -/
def vmopsUtilsRunBenchmark (nthreads : BitVec 32) (args : ℕ → VmopsBenchRunArg) (runfn : RunFn) :
    Prog mainSig (ℤ × (ℕ → VmopsBenchRunArg)) := do
  if ← mainCall (.barrierInit nthreads) then
    match ← startThreads nthreads args runfn with
    -- nobody is joined here, and the barrier is not destroyed
    | .error () => return (-1, args)
    | .ok () =>
      let joined ← joinThreads nthreads args
      mainCall .barrierDestroy
      return (0, joined.toOption.getD args)
  else return (-1, args)

/-- The `while` of `vmops_utils_cleanup_args`, over `current` and `memobj`. -/
def cleanupTurn (args : ℕ → VmopsBenchRunArg) (s : ℕ × PlatMemobj) :
    Prog mainSig (Except Unit (ℕ × PlatMemobj)) := do
  let (current, memobj) := s
  if (args current).memobj ≠ memobj then
    mainCall (.vmDestroy (args current).memobj)
    return .ok (current + 1, (args current).memobj)
  else return .ok (current + 1, memobj)

/-- `vmops_utils_cleanup_args`, for an array that has at least one record before
the sentinel: `args->cfg` is not `NULL`. -/
def vmopsUtilsCleanupArgs (args : ℕ → VmopsBenchRunArg) : Prog mainSig Unit := do
  let _ ← Prog.whileLoop (fun s => (args s.1).tid ≠ -1) (cleanupTurn args) (0, 0)
  mainCall .freeArgs

/-! ### The entries -/

/-- `vmops_utils_print_csv` and `vmops_utils_cleanup_args`. When there is no thread,
`args->cfg` is the sentinel's `NULL`, and neither does anything. -/
def reportAndCleanup (cfg : VmopsBenchCfg) (args : ℕ → VmopsBenchRunArg) : Prog mainSig Unit := do
  if cfg.corelistSize = 0 then return ()
  else
    mainCall (.printCsv args)
    vmopsUtilsCleanupArgs args

/-- **A benchmark's entry function**, around the choice of its run function. -/
def benchEntry (choose : VmopsBenchCfg → RunFn) (cfg : VmopsBenchCfg) (opts : List Char) :
    Prog mainSig ℤ := do
  match vmopsUtilsParseOptions opts cfg with
  | none => return -1
  | some cfg =>
    match ← vmopsUtilsPrepareArgs cfg with
    | none => return -1
    | some (cfg, args) =>
      let (r, args) ← vmopsUtilsRunBenchmark cfg.corelistSize args (choose cfg)
      if r ≠ 0 then return -1
      else
        reportAndCleanup cfg args
        return 0

/-- The run function of the map/unmap and map-only benchmarks. -/
def chooseMapunmap (cfg : VmopsBenchCfg) : RunFn :=
  if cfg.nounmap then if cfg.map4k then .nounmap4k else .nounmap
  else if cfg.map4k then .mapunmap4k else .mapunmap

/-- `vmpos_bench_run_mapunmap`. -/
def vmposBenchRunMapunmap : VmopsBenchCfg → List Char → Prog mainSig ℤ := benchEntry chooseMapunmap

/-- The run function of the protect benchmark. -/
def chooseProtect (cfg : VmopsBenchCfg) : RunFn := if cfg.map4k then .protect4k else .protect

/-- `vmops_bench_run_protect`. -/
def vmopsBenchRunProtect : VmopsBenchCfg → List Char → Prog mainSig ℤ := benchEntry chooseProtect

/-- `vmops_bench_run_protect_elevate`. -/
def vmopsBenchRunProtectElevate : VmopsBenchCfg → List Char → Prog mainSig ℤ :=
  benchEntry fun _ => .elevate

/-- `vmops_bench_run_tlbshoot`. -/
def vmopsBenchRunTlbshoot : VmopsBenchCfg → List Char → Prog mainSig ℤ :=
  benchEntry fun _ => .tlbshoot

end VmopsBench

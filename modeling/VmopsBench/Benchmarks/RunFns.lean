import VmopsBench.Benchmarks.TimedLoop

/-!
# The run functions

The functions that the threads of a benchmark execute, one namespace for each
source file: `mapunmap.c` has four, `protect.c` two, `protectelevate.c` and
`tlbshoot.c` one each. Most are a skeleton of
`VmopsBench.Benchmarks.TimedLoop` around their operation; the operation
of a function reads like the body of its timed loop up to the clock reading. The
shootdown function is its own: thread 0 runs the timed loop, and the others spin on a flag until
it has finished.
-/

namespace VmopsBench

open Interact

namespace MapUnmap

/-- The body of the loop of `bench_run_fn`. -/
def mapUnmapOp (arg : VmopsBenchRunArg) (_ : Unit) : Prog threadSig (Except Unit Unit) := do
  if arg.cfg.isolated then
    let addr := utilsVmopsGetMapAddress arg.tid
    if ← platVmMapFixed addr arg.cfg.memsize arg.memobj 0 arg.cfg.maphuge then
      if ← platVmUnmap addr arg.cfg.memsize then return .ok () else return .error ()
    else return .error ()
  else
    match ← platVmMap arg.cfg.memsize arg.memobj 0 arg.cfg.maphuge with
    | some addr =>
      if ← platVmUnmap addr arg.cfg.memsize then return .ok () else return .error ()
    | none => return .error ()

/-- `bench_run_fn` of `mapunmap.c`: an error returns at once. -/
def benchRunFn (arg : VmopsBenchRunArg) : Prog threadSig RunResult :=
  timedRun arg sizeMax .beforeIncrement (mapUnmapOp arg) (fun _ => return ()) ()

/-- The body of the loop of `bench_run_4k_fn`. -/
def mapUnmap4kOp (arg : VmopsBenchRunArg) (v : Pages) : Prog threadSig (Except Pages Pages) := do
  let idx := v.page % pageCount arg.cfg
  let v := { v with page := v.page + 1 }
  if ← platVmUnmap (v.addrs idx.toNat) platArchBasePageSize then
    if arg.cfg.isolated then
      if ← platVmMapFixed (v.addrs idx.toNat) platArchBasePageSize arg.memobj
          (idx * platArchBasePageSize) arg.cfg.maphuge then
        return .ok v
      else return .error v
    else
      match ← platVmMap platArchBasePageSize arg.memobj (idx * platArchBasePageSize)
          arg.cfg.maphuge with
      | some addr => return .ok { v with addrs := Function.update v.addrs idx.toNat addr }
      -- the array keeps the address that was just unmapped
      | none => return .error v
  else return .error v

/-- `bench_run_4k_fn` of `mapunmap.c`. -/
def benchRun4kFn (arg : VmopsBenchRunArg) : Prog threadSig RunResult :=
  pagedRun arg (mapUnmap4kOp arg)

/-- The body of the loop of `bench_run_nounmap_fn`, over the address of the next fixed mapping. -/
def mapOnlyOp (arg : VmopsBenchRunArg) (addr : Addr) : Prog threadSig (Except Addr Addr) := do
  if arg.cfg.isolated then
    if ← platVmMapFixed addr arg.cfg.memsize arg.memobj 0 arg.cfg.maphuge then
      return .ok (addr + arg.cfg.memsize)
    else return .error addr
  else
    match ← platVmMap arg.cfg.memsize arg.memobj 0 arg.cfg.maphuge with
    | some _ => return .ok addr
    | none => return .error addr

/-- `bench_run_nounmap_fn`: an error returns at once. -/
def benchRunNounmapFn (arg : VmopsBenchRunArg) : Prog threadSig RunResult :=
  timedRun arg sizeMax .afterIncrement (mapOnlyOp arg) (fun _ => return ())
    (utilsVmopsGetMapAddress arg.tid)

/-- The body of the loop of `bench_run_nounmap_4k_fn`, over the address of the next
fixed mapping and `page`. -/
def mapOnly4kOp (arg : VmopsBenchRunArg) (v : Addr × SizeT) :
    Prog threadSig (Except (Addr × SizeT) (Addr × SizeT)) := do
  let (addr, page) := v
  let idx := page % pageCount arg.cfg
  let page := page + 1
  if arg.cfg.isolated then
    if ← platVmMapFixed addr platArchBasePageSize arg.memobj (idx * platArchBasePageSize)
        arg.cfg.maphuge then
      return .ok (addr + platArchBasePageSize, page)
    else return .error (addr, page)
  else
    match ← platVmMap platArchBasePageSize arg.memobj (idx * platArchBasePageSize)
        arg.cfg.maphuge with
    | some _ => return .ok (addr, page)
    | none => return .error (addr, page)

/-- `bench_run_nounmap_4k_fn`: an error goes to `cleanup_and_exit`, which is the
second barrier. -/
def benchRunNounmap4kFn (arg : VmopsBenchRunArg) : Prog threadSig RunResult :=
  timedRun arg sizeMax .never (mapOnly4kOp arg) (fun _ => platThreadBarrier .finish)
    (utilsVmopsGetMapAddress arg.tid, arg.tid.setWidth 64)

end MapUnmap

namespace Protect

/-- Lower the permissions of a region and raise them again. -/
def protectTwice (addr : Addr) (size : SizeT) : Prog threadSig Bool := do
  if ← platVmProtect addr size .readOnly then platVmProtect addr size .readWrite
  else return false

/-- The body of the loop of `bench_run_fn`. -/
def protectOp (arg : VmopsBenchRunArg) (addr : Addr) : Prog threadSig (Except Addr Addr) := do
  if ← protectTwice addr arg.cfg.memsize then return .ok addr else return .error addr

/-- The mapping that `bench_run_fn` makes before the start barrier. -/
def mapRegion (arg : VmopsBenchRunArg) : Prog threadSig (Option Addr) := do
  if arg.cfg.isolated then
    let addr := utilsVmopsGetMapAddress arg.tid
    if ← platVmMapFixed addr arg.cfg.memsize arg.memobj 0 arg.cfg.maphuge then
      return some addr
    else return none
  else platVmMap arg.cfg.memsize arg.memobj 0 arg.cfg.maphuge

/-- `bench_run_fn` of `protect.c`: an error unmaps the region and returns. -/
def benchRunFn (arg : VmopsBenchRunArg) : Prog threadSig RunResult := do
  match ← mapRegion arg with
  | none => return ⟨.error, arg⟩
  | some addr =>
    timedRun arg sizeMax .never (protectOp arg)
      (fun addr => do let _ ← platVmUnmap addr arg.cfg.memsize) addr

/-- The body of the loop of `bench_run_4k_fn`. -/
def protect4kOp (arg : VmopsBenchRunArg) (v : Pages) : Prog threadSig (Except Pages Pages) := do
  let idx := v.page % pageCount arg.cfg
  let v := { v with page := v.page + 1 }
  if ← protectTwice (v.addrs idx.toNat) platArchBasePageSize then return .ok v
  else return .error v

/-- `bench_run_4k_fn` of `protect.c`. -/
def benchRun4kFn (arg : VmopsBenchRunArg) : Prog threadSig RunResult :=
  pagedRun arg (protect4kOp arg)

end Protect

namespace ProtectElevate

/-- `DEFAULT_NOPS`. -/
abbrev defaultNops : SizeT := 500000#64

/-- `total_map_size`. -/
def totalMapSize (cfg : VmopsBenchCfg) : SizeT := opsLimit defaultNops cfg * platArchBasePageSize

/-- One turn of the mapping loop, over `i` and `addr`. An error of
`plat_vm_protect` is logged and otherwise ignored; the region it names is the one
at `addr`, in every turn. -/
def mapChunk (arg : VmopsBenchRunArg) (s : SizeT × Addr) :
    Prog threadSig (Except Unit (SizeT × Addr)) := do
  let (i, addr) := s
  if arg.cfg.isolated then
    let curaddr := addr + i
    if ← platVmMapFixed curaddr arg.cfg.memsize arg.memobj 0 false then
      -- not `curaddr`
      let _ ← platVmProtect addr arg.cfg.memsize .readOnly
      return .ok (i + arg.cfg.memsize, addr)
    else return .error ()
  else
    match ← platVmMap arg.cfg.memsize arg.memobj 0 false with
    | some curaddr =>
      let addr := if addr = 0 then curaddr else addr
      let _ ← platVmProtect addr arg.cfg.memsize .readOnly
      return .ok (i + arg.cfg.memsize, addr)
    | none => return .error ()

/-- The mapping loop. -/
def mapChunks (arg : VmopsBenchRunArg) :
    SizeT × Addr → Prog threadSig (Except Unit (SizeT × Addr)) :=
  Prog.whileLoop (fun s => s.1 < totalMapSize arg.cfg) (mapChunk arg)

/-- The body of the timed loop, over `addr`. -/
def elevateOp (addr : Addr) : Prog threadSig (Except Addr Addr) := do
  if ← platVmProtect addr platArchBasePageSize .readWrite then
    return .ok (addr + platArchBasePageSize)
  else return .error addr

/-- `addr` before the mapping loop. -/
def firstAddr (arg : VmopsBenchRunArg) : Addr :=
  if arg.cfg.isolated then utilsVmopsGetMapAddress arg.tid else 0

/-- `bench_run_fn` of `protectelevate.c`. -/
def benchRunFn (arg : VmopsBenchRunArg) : Prog threadSig RunResult := do
  match ← mapChunks arg (0, firstAddr arg) with
  | .error () => return ⟨.error, arg⟩
  | .ok s =>
    timedRun arg defaultNops .afterIncrement elevateOp
      (fun addr => do let _ ← platVmUnmap addr arg.cfg.memsize) s.2

end ProtectElevate

namespace TlbShoot

/-- The body of the loop of thread 0. -/
def shootOp (arg : VmopsBenchRunArg) (_ : Unit) : Prog threadSig (Except Unit Unit) :=
  MapUnmap.mapUnmapOp arg ()

/-- One turn of `while(!*done) { *sum = *sum + 1; }`. -/
def spinBody (sum : Addr) (_ : Unit) : Prog threadSig (Unit ⊕ Unit) := do
  let done ← Prog.perform (S := threadSig) .loadDone
  if done = 0 then
    Prog.perform (S := threadSig) (.increment sum)
    return .inl ()
  else return .inr ()

/-- `while(!*done) { *sum = *sum + 1; }`. -/
def spin (sum : Addr) : Prog threadSig Unit := .loop (spinBody sum) () .ret

/-- The rest of `bench_run_fn` for a worker, that is, for a thread other than thread 0. -/
def workerRun (arg : VmopsBenchRunArg) (taddr : Addr) (tStart tEnd : PlatTime) :
    Prog threadSig RunResult := do
  spin taddr
  platThreadBarrier .finish
  return ⟨.done, { arg with count := 0, duration := platTimeToMs (tEnd - tStart) }⟩

/-- The rest of `bench_run_fn` for thread 0: an error returns at once. -/
def shooterRun (arg : VmopsBenchRunArg) (tStart tEnd : PlatTime) : Prog threadSig RunResult := do
  match ← timedLoop arg.tid .beforeIncrement tStart tEnd (opsLimit sizeMax arg.cfg) (shootOp arg)
      { tCurrent := tStart, counter := 0, stats := arg.stats, vars := () } with
  -- the flag is left as it is
  | .error s => return ⟨.error, { arg with stats := s.stats }⟩
  | .ok s =>
    let tEnd ← platGetTime
    Prog.perform (S := threadSig) (.storeDone 1)
    platThreadBarrier .finish
    return ⟨.done, arg.completed s tStart tEnd⟩

/-- `bench_run_fn` of `tlbshoot.c`. -/
def benchRunFn (arg : VmopsBenchRunArg) : Prog threadSig RunResult := do
  match ← platVmMap arg.cfg.memsize arg.memobj 0 arg.cfg.maphuge with
  | none => return ⟨.error, arg⟩
  | some taddr =>
    platThreadBarrier .start
    let tCurrent ← platGetTime
    let tEnd := deadline (timeLimit arg.cfg) tCurrent
    if arg.tid ≠ 0 then workerRun arg taddr tCurrent tEnd
    else shooterRun arg tCurrent tEnd

end TlbShoot

/-! ### A pointer to a run function -/

/-- The run functions, as values of `plat_thread_fn_t`. -/
inductive RunFn where
  /-- `bench_run_fn` of `mapunmap.c`. -/
  | mapunmap
  /-- `bench_run_4k_fn` of `mapunmap.c`. -/
  | mapunmap4k
  /-- `bench_run_nounmap_fn` of `mapunmap.c`. -/
  | nounmap
  /-- `bench_run_nounmap_4k_fn` of `mapunmap.c`. -/
  | nounmap4k
  /-- `bench_run_fn` of `protect.c`. -/
  | protect
  /-- `bench_run_4k_fn` of `protect.c`. -/
  | protect4k
  /-- `bench_run_fn` of `protectelevate.c`. -/
  | elevate
  /-- `bench_run_fn` of `tlbshoot.c`. -/
  | tlbshoot
  deriving DecidableEq

/-- The function a pointer points to. -/
def RunFn.run : RunFn → VmopsBenchRunArg → Prog threadSig RunResult
  | .mapunmap => MapUnmap.benchRunFn
  | .mapunmap4k => MapUnmap.benchRun4kFn
  | .nounmap => MapUnmap.benchRunNounmapFn
  | .nounmap4k => MapUnmap.benchRunNounmap4kFn
  | .protect => Protect.benchRunFn
  | .protect4k => Protect.benchRun4kFn
  | .elevate => ProtectElevate.benchRunFn
  | .tlbshoot => TlbShoot.benchRunFn

/-- The loops over small pages take the remainder of `page` by the number of pages. It is defined if
there is a page. -/
def RunFn.HasPages (f : RunFn) (cfg : VmopsBenchCfg) : Prop :=
  f = .mapunmap4k ∨ f = .nounmap4k ∨ f = .protect4k → pageCount cfg ≠ 0

instance (f : RunFn) (cfg : VmopsBenchCfg) : Decidable (f.HasPages cfg) :=
  inferInstanceAs (Decidable (f = .mapunmap4k ∨ f = .nounmap4k ∨ f = .protect4k →
    pageCount cfg ≠ 0))

/-- `plat_thread_run_fn`. -/
def platThreadRunFn (run : RunFn) (st : VmopsBenchRunArg) : Prog threadSig RunResult := do
  Prog.perform (S := threadSig) .readThread
  run.run st

end VmopsBench

import VmopsBench.Platform.Pages

/-!
# Configuration, arguments, samples and options

The data of `benchmarks.h` and the small functions of `utils.h` and `utils.c`
that every benchmark shares: the address a thread maps at when it is isolated
(`VmopsBench.utilsVmopsGetMapAddress`), the latency sampler
(`VmopsBench.vmopsUtilsAddStats`) and the parser of the option suffix of a
benchmark's name (`VmopsBench.vmopsUtilsParseOptions`).

Of `struct vmops_bench_run_arg` the members `thread`, `barrier` and `shared` are
left out: there is one barrier and one shared flag in a run, and the thread handle belongs
to whoever starts the threads. The sampler's buffer is one `calloc`ed block for
all threads, so `values` is the index of a thread's first record in it, and the
stores made through `values` are kept as a list (`VmopsBench.VmopsStats.writes`).
-/

namespace VmopsBench

/-! ### Configuration -/

/-- `struct vmops_bench_cfg`. -/
structure VmopsBenchCfg where
  benchmark : List Char
  coreslist : List (BitVec 32)
  corelistSize : BitVec 32
  memsize : SizeT
  nops : SizeT
  timeMs : BitVec 32
  stats : BitVec 32
  rate : BitVec 32
  nounmap : Bool
  shared : Bool
  isolated : Bool
  map4k : Bool
  maphuge : Bool
  numainterleave : Bool

/-- Two threads, one operation each, on a memory object of two pages. -/
def twoThreads : VmopsBenchCfg where
  benchmark := "mapunmap".toList
  coreslist := [0, 1]
  corelistSize := 2
  memsize := 8192
  nops := 1
  timeMs := 0
  stats := 0
  rate := 0
  nounmap := false
  shared := true
  isolated := false
  map4k := false
  maphuge := false
  numainterleave := false

/-- One thread, otherwise the same. -/
def oneThread : VmopsBenchCfg := { twoThreads with coreslist := [0], corelistSize := 1 }

/-! ### Samples -/

/-- `struct statval`. -/
structure StatVal where
  tid : BitVec 32
  tElapsed : PlatTime
  counter : BitVec 64
  val : PlatTime
  deriving DecidableEq

/-- `struct vmops_stats`. -/
structure VmopsStats where
  values : Option (BitVec 64)
  idx : SizeT
  idxMax : SizeT
  dryrun : SizeT
  samplingDelta : PlatTime
  samplingNext : PlatTime
  writes : List (SizeT × StatVal)
  deriving DecidableEq

/-- `vmops_utils_add_stats`. -/
def vmopsUtilsAddStats (stats : VmopsStats) (tid : BitVec 32) (ops : BitVec 64)
    (tElapsed val : PlatTime) : VmopsStats :=
  if stats.dryrun ≠ 0 then { stats with dryrun := stats.dryrun - 1 }
  else if stats.samplingNext > tElapsed then stats
  else if stats.idx = stats.idxMax then stats
  else { stats with
    writes := (stats.idx, ⟨tid, tElapsed, ops, val⟩) :: stats.writes
    idx := stats.idx + 1
    samplingNext := tElapsed + stats.samplingDelta }

/-! ### The arguments of a thread -/

/-- `struct vmops_bench_run_arg`. -/
structure VmopsBenchRunArg where
  cfg : VmopsBenchCfg
  memobj : PlatMemobj
  tid : BitVec 32
  coreid : BitVec 32
  count : SizeT
  duration : ℚ
  stats : VmopsStats

/-- `ADDRESS_OFFSET`, 512 GiB. -/
abbrev addressOffset : BitVec 64 := 512#64 <<< 30

/-- `ADDRESS_REGION_OFFSET`, 256 GiB. -/
abbrev addressRegionOffset : BitVec 64 := 256#64 <<< 30

/-- `utils_vmops_get_map_address`: `tid + 2` is computed in 32 bits, the rest in
64. -/
def utilsVmopsGetMapAddress (tid : BitVec 32) : Addr :=
  addressOffset * (tid + 2#32).setWidth 64 + addressRegionOffset

/-- The address of a thread, as a number. -/
theorem toNat_mapAddress (tid : BitVec 32) : (utilsVmopsGetMapAddress tid).toNat =
    ((tid.toNat + 2) % 2 ^ 25 * 2 ^ 39 + 2 ^ 38) % 2 ^ 64 := by
  have hoff : addressOffset.toNat = 2 ^ 39 := by decide
  have hreg : addressRegionOffset.toNat = 2 ^ 38 := by decide
  have htid : ((tid + 2#32).setWidth 64).toNat = (tid.toNat + 2) % 2 ^ 32 := by
    rw [BitVec.toNat_setWidth, BitVec.toNat_add, BitVec.toNat_ofNat]
    omega
  rw [utilsVmopsGetMapAddress, BitVec.toNat_add, BitVec.toNat_mul, hoff, hreg, htid]
  -- the wrap of `tid + 2` is invisible: the addresses of `2 ^ 25` threads go round the circle
  omega

theorem aligned_mapAddress (tid : BitVec 32) : Aligned (utilsVmopsGetMapAddress tid) := by
  rw [Aligned, toNat_mapAddress]
  omega

/-! ### Options -/

/-- The local flags of `vmops_utils_parse_options`. -/
structure OptionFlags where
  shared : Bool := false
  independent : Bool := false
  isolated : Bool := false
  map4k : Bool := false
  deriving DecidableEq

/-- The `while` of `vmops_utils_parse_options`. Each turn consumes a token, so the
length of the string is a bound on the number of turns. -/
def parseOptionsLoop : ℕ → List Char → OptionFlags → Option OptionFlags
  | _, [], flags => some flags
  | 0, _ :: _, _ => none
  | n + 1, current, flags =>
    match "-shared".toList.isPrefixOf? current with
    | some rest => parseOptionsLoop n rest { flags with shared := true }
    | none => match "-independent".toList.isPrefixOf? current with
      | some rest => parseOptionsLoop n rest { flags with independent := true }
      | none => match "-4k".toList.isPrefixOf? current with
        | some rest => parseOptionsLoop n rest { flags with map4k := true }
        | none => match "-isolated".toList.isPrefixOf? current with
          | some rest => parseOptionsLoop n rest { flags with isolated := true }
          | none => none

/-- `vmops_utils_parse_options`: the configuration with the options in force, or
nothing when it returns `-1`. -/
def vmopsUtilsParseOptions (opts : List Char) (cfg : VmopsBenchCfg) : Option VmopsBenchCfg :=
  match parseOptionsLoop opts.length opts {} with
  | none => none
  | some flags =>
    if flags.shared && flags.independent then none
    else
      let shared := if !(flags.shared || flags.independent) then true else flags.shared
      some { cfg with shared, isolated := flags.isolated, map4k := flags.map4k }

end VmopsBench

import VmopsBench.Interact.Prog

/-!
# The platform interface, as a benchmark thread sees it

`platform.h` is the interface between the benchmarks and the operating system:
mapping calls, a clock, a barrier. A thread of a benchmark is written against it
and knows nothing else, so its calls are the signature
`VmopsBench.threadSig` over which the run functions are
`Interact.Prog`rams.

## What is kept of the types

`size_t`, `uint64_t`, `plat_time_t` and pointers are 64-bit words and `uint32_t`
a 32-bit word, with the wrap-around arithmetic and the unsigned comparisons of C.
A call that returns a `plat_error_t` is answered by whether that was
`PLAT_ERR_OK`, since no caller in the benchmarks looks further; `plat_vm_map`,
which also returns an address through its first argument, is answered by that
address or by nothing. `double` durations are exact rationals.

Two of the calls carry a label the C functions do not see: each
`plat_thread_barrier` names the statement it is
(`VmopsBench.BarrierSite`), and `readThread` stands for the accesses of
`plat_thread_run_fn` to its `struct plat_thread`.
-/

namespace VmopsBench

open Interact

/-! ### Machine types and constants -/

/-- `size_t`. -/
abbrev SizeT := BitVec 64

/-- `plat_time_t`, a number of nanoseconds. -/
abbrev PlatTime := BitVec 64

/-- A pointer. `NULL` is `0`. -/
abbrev Addr := BitVec 64

/-- `plat_memobj_t`, an opaque pointer. -/
abbrev PlatMemobj := BitVec 64

/-- `PLAT_ARCH_BASE_PAGE_SIZE`. -/
abbrev platArchBasePageSize : BitVec 64 := 4096#64

/-- `PLAT_TIME_MAX`. -/
abbrev platTimeMax : PlatTime := 0xFFFFFFFFFFFFFFFF#64

/-- `SIZE_MAX`. -/
abbrev sizeMax : SizeT := 0xFFFFFFFFFFFFFFFF#64

/-- `plat_perm_t`. -/
inductive PlatPerm where
  | readOnly
  | readWrite
  deriving DecidableEq

/-- `plat_convert_time`: milliseconds to nanoseconds. -/
def platConvertTime (ms : BitVec 32) : PlatTime := ms.setWidth 64 * 1000000#64

/-- `plat_time_to_ms`: nanoseconds to milliseconds. -/
def platTimeToMs (time : PlatTime) : ℚ := time.toNat / 1000000

/-! ### The calls of a benchmark thread -/

/-- The `plat_thread_barrier` statements of the run functions. -/
inductive BarrierSite where
  /-- The one before the timed loop. -/
  | start
  /-- The one after it, in the functions that unmap nothing at the end. -/
  | finish
  /-- The first one after the label `cleanup_and_exit` of the 4k functions. -/
  | cleanup
  /-- The second one there, after the mappings are gone. -/
  | leave
  deriving DecidableEq

/-- **The calls of a benchmark thread.** -/
inductive ThreadCall where
  | vmMap (size : SizeT) (memobj : PlatMemobj) (offset : SizeT) (huge : Bool)
  | vmMapFixed (addr : Addr) (size : SizeT) (memobj : PlatMemobj) (offset : SizeT) (huge : Bool)
  | vmUnmap (addr : Addr) (size : SizeT)
  | vmProtect (addr : Addr) (size : SizeT) (perms : PlatPerm)
  /-- `calloc(nmemb, size)` for the array of addresses of a 4k function. -/
  | calloc (nmemb size : SizeT)
  | free
  | getTime
  | barrier (site : BarrierSite)
  | loadDone
  | storeDone (v : BitVec 64)
  /-- `*sum = *sum + 1` on the word at an address. -/
  | increment (sum : Addr)
  /-- `plat_thread_run_fn` reads its `struct plat_thread`. -/
  | readThread
  deriving DecidableEq

/-- What each call is answered with. -/
abbrev ThreadCall.Resp : ThreadCall → Type
  | .vmMap .. => Option Addr
  | .vmMapFixed .. | .vmUnmap .. | .vmProtect .. | .calloc .. => Bool
  | .getTime => PlatTime
  | .loadDone => BitVec 64
  | .free | .barrier _ | .storeDone _ | .increment _ | .readThread => Unit

/-- **The signature of a benchmark thread.** -/
abbrev threadSig : Sig := ⟨ThreadCall, ThreadCall.Resp⟩

/-- `plat_vm_map`: the address of the new mapping, or nothing on an error. -/
abbrev platVmMap (size : SizeT) (memobj : PlatMemobj) (offset : SizeT) (huge : Bool) :
    Prog threadSig (Option Addr) := Prog.perform (S := threadSig) (.vmMap size memobj offset huge)

/-- `plat_vm_map_fixed`: whether it returned `PLAT_ERR_OK`. -/
abbrev platVmMapFixed (addr : Addr) (size : SizeT) (memobj : PlatMemobj) (offset : SizeT)
    (huge : Bool) : Prog threadSig Bool :=
  Prog.perform (S := threadSig) (.vmMapFixed addr size memobj offset huge)

/-- `plat_vm_unmap`: whether it returned `PLAT_ERR_OK`. -/
abbrev platVmUnmap (addr : Addr) (size : SizeT) : Prog threadSig Bool :=
  Prog.perform (S := threadSig) (.vmUnmap addr size)

/-- `plat_vm_protect`: whether it returned `PLAT_ERR_OK`. -/
abbrev platVmProtect (addr : Addr) (size : SizeT) (perms : PlatPerm) : Prog threadSig Bool :=
  Prog.perform (S := threadSig) (.vmProtect addr size perms)

/-- `plat_get_time`. -/
abbrev platGetTime : Prog threadSig PlatTime := Prog.perform (S := threadSig) .getTime

/-- `plat_thread_barrier`. Its error value is ignored by every caller. -/
abbrev platThreadBarrier (site : BarrierSite) : Prog threadSig Unit :=
  Prog.perform (S := threadSig) (.barrier site)

/-- `calloc`: whether it returned a block. -/
abbrev calloc (nmemb size : SizeT) : Prog threadSig Bool :=
  Prog.perform (S := threadSig) (.calloc nmemb size)

/-- The call is a `plat_thread_barrier`. -/
def ThreadCall.isBarrier : ThreadCall → Bool
  | .barrier _ => true
  | _ => false

/-- The call is a `plat_vm_map` or a `plat_vm_map_fixed`. -/
def ThreadCall.isMap : ThreadCall → Bool
  | .vmMap .. | .vmMapFixed .. => true
  | _ => false

/-- A call reports an error: the value it is answered with is not `PLAT_ERR_OK`, or the
block is `NULL`. -/
def ThreadCall.fails : (c : ThreadCall) → c.Resp → Bool
  | .vmMap .., r => r.isNone
  | .vmMapFixed .., r | .vmUnmap .., r | .vmProtect .., r | .calloc .., r => !r
  | .getTime, _ | .loadDone, _ | .free, _ | .barrier _, _ | .storeDone _, _ | .increment _, _
  | .readThread, _ => false

/-- An environment in which every call succeeds. -/
def ThreadCall.succeed : (c : ThreadCall) → c.Resp
  | .vmMap .. => some 0x10000#64
  | .vmMapFixed .. | .vmUnmap .. | .vmProtect .. | .calloc .. => true
  | .getTime => 0#64
  | .loadDone => 0#64
  | .free | .barrier _ | .storeDone _ | .increment _ | .readThread => ()

/-- An environment in which only `plat_vm_map` fails. -/
def ThreadCall.failMap : (c : ThreadCall) → c.Resp
  | .vmMap .. => none
  | c => c.succeed

end VmopsBench

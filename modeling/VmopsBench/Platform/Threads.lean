import VmopsBench.Benchmarks.Entry
import VmopsBench.Interact.Heap
import VmopsBench.Interact.Interpret

/-!
# Threads and barriers, by the calls of the libraries

The functions on threads and barriers of `linux.c` and of `barrelfish.c`, over the calls that they
make to their libraries. Both hand out pointers to blocks that they have allocated, which the main
thread keeps in `args[i].thread` and in `barrier` and passes back. A `VmopsBench.ThreadLayer` is
such a family of functions, and with it each call of the main thread becomes a program
(`VmopsBench.ThreadLayer.handler`); so a benchmark's entry function becomes one over the calls of
the libraries.

What the functions are to do with a pointer is said in two ways at once
(`VmopsBench.ThreadLayer.Implements`). They keep the discipline of the heap: a start leaves one more
block or none, a join and a cancellation free the one they are given, and the destruction of a
barrier frees nothing. And they ask of the library what they are called for, of the thread whose
pointer they are given: this is told by an account of the calls (`VmopsBench.Account`), which knows
for what a pointer was handed to the library. The functions of `linux.c` do all of it
(`VmopsBench.threadLayer_implements`), and those of `barrelfish.c` start and join
(`VmopsBench.Barrelfish.threadLayer_implements`): there a cancellation is not implemented, and the
barrier is the program's own.
-/

namespace VmopsBench

open Interact

/-! ### The calls of the libraries -/

/-- What memory is allocated for. -/
inductive Allocation where
  /-- An array of argument records. -/
  | args (n : BitVec 32)
  /-- An array of samples for each thread. -/
  | samples (n stats : BitVec 32)
  /-- `struct plat_thread`. -/
  | thread
  /-- `pthread_barrier_t`. -/
  | barrier

/-- **The calls to the libraries**, and the calls that the functions here do not implement. -/
inductive LibCall where
  /-- `malloc` and `calloc`. -/
  | alloc (what : Allocation)
  | free (p : Addr)
  /-- Assignments to the members of a structure, and `memset`. -/
  | store (p : Addr)
  /-- `pthread_create` of `plat_thread_run_fn`, which runs `run` on `st`. -/
  | pthreadCreate (thread : Addr) (i : ℕ) (run : RunFn) (st : VmopsBenchRunArg)
  | pthreadCancel (thread : Addr)
  /-- `pthread_join`. The answer is the argument record that the thread has written. -/
  | pthreadJoin (thread : Addr)
  | pthreadBarrierInit (pbar : Addr) (n : BitVec 32)
  | pthreadBarrierDestroy (pbar : Addr)
  | dispGetCoreId
  | domainSendCap (coreid : BitVec 32) (memobj : PlatMemobj)
  | domainThreadCreateOn (coreid : BitVec 32) (thread : Addr) (i : ℕ) (run : RunFn)
      (st : VmopsBenchRunArg)
  /-- `domain_thread_join`, like `pthread_join`. -/
  | domainThreadJoin (thread : Addr)
  /-- The message of `USER_PANIC_ERR`. -/
  | userPanic
  | other (c : MainCall)

abbrev LibCall.Resp : LibCall → Type
  | .alloc _ => Option Addr
  | .free _ | .store _ | .pthreadCancel _ | .userPanic => Unit
  | .pthreadCreate .. | .pthreadBarrierInit .. | .pthreadBarrierDestroy _ | .domainSendCap ..
  | .domainThreadCreateOn .. => Bool
  | .pthreadJoin _ | .domainThreadJoin _ => VmopsBenchRunArg
  | .dispGetCoreId => BitVec 32
  | .other c => c.Resp

/-- **The signature of the libraries.** -/
abbrev libSig : Sig := ⟨LibCall, LibCall.Resp⟩

/-- One call to a library. -/
abbrev libCall (c : LibCall) : Prog libSig c.Resp := Prog.perform (S := libSig) c

/-- **What the calls do to blocks.** -/
def heapOps : HeapOps libSig Addr where
  obtains c r := match c with
    | .alloc _ => r
    | _ => none
  releases c := match c with
    | .free p => some p
    | _ => none
  uses c := match c with
    | .store p | .pthreadCreate p .. | .pthreadCancel p | .pthreadJoin p | .pthreadBarrierInit p _
    | .pthreadBarrierDestroy p | .domainThreadCreateOn _ p .. | .domainThreadJoin p => some p
    | _ => none

/-- **A family of functions** on threads and barriers. A start and an initialisation return the
pointer that they have obtained, or nothing. -/
structure ThreadLayer where
  start : ℕ → RunFn → VmopsBenchRunArg → Prog libSig (Option Addr)
  cancel : Addr → Prog libSig Unit
  join : Addr → Prog libSig VmopsBenchRunArg
  barrierInit : BitVec 32 → Prog libSig (Option Addr)
  barrierDestroy : Addr → Prog libSig Unit

/-! ### Linux -/

/-- `plat_thread_start`. -/
def platThreadStart (i : ℕ) (run : RunFn) (st : VmopsBenchRunArg) : Prog libSig (Option Addr) := do
  match ← libCall (.alloc .thread) with
  | none => return none
  | some thread =>
    libCall (.store thread)
    if ← libCall (.pthreadCreate thread i run st) then return some thread
    else
      libCall (.free thread)
      return none

/-- `plat_thread_cancel`. -/
def platThreadCancel (platthread : Addr) : Prog libSig Unit := do
  libCall (.pthreadCancel platthread)
  libCall (.store platthread)
  libCall (.free platthread)

/-- `plat_thread_join`. -/
def platThreadJoin (platthread : Addr) : Prog libSig VmopsBenchRunArg := do
  let arg ← libCall (.pthreadJoin platthread)
  libCall (.store platthread)
  libCall (.free platthread)
  return arg

/-- `plat_thread_barrier_init`. -/
def platThreadBarrierInit (nthreads : BitVec 32) : Prog libSig (Option Addr) := do
  match ← libCall (.alloc .barrier) with
  | none => return none
  | some pbar =>
    if ← libCall (.pthreadBarrierInit pbar nthreads) then return some pbar
    else
      libCall (.free pbar)
      return none

/-- `plat_thread_barrier_destroy`. Its error value is not looked at, and it does not free the
barrier. -/
def platThreadBarrierDestroy (pbar : Addr) : Prog libSig Unit := do
  let _ ← libCall (.pthreadBarrierDestroy pbar)
  return ()

/-- **The functions of `linux.c`.** -/
def threadLayer : ThreadLayer :=
  ⟨platThreadStart, platThreadCancel, platThreadJoin, platThreadBarrierInit,
    platThreadBarrierDestroy⟩

/-! ### Barrelfish -/

namespace Barrelfish

/-- `USER_PANIC_ERR`, which does not return. -/
def userPanicErr {α : Type} : Prog libSig α := do
  libCall .userPanic
  .loop (β := Empty) (fun _ => .ret (.inl ())) () nofun

/-- `plat_thread_start`, without the turns of the event loop. -/
def platThreadStart (i : ℕ) (run : RunFn) (st : VmopsBenchRunArg) : Prog libSig (Option Addr) := do
  match ← libCall (.alloc .thread) with
  | none => return none
  | some thread =>
    libCall (.store thread)
    let cid ← libCall .dispGetCoreId
    let sent ← if st.coreid ≠ cid then libCall (.domainSendCap st.coreid st.memobj) else pure true
    if sent then
      if ← libCall (.domainThreadCreateOn st.coreid thread i run st) then return some thread
      else userPanicErr
    else
      libCall (.free thread)
      return none

/-- `plat_thread_cancel`, which is not implemented and frees the handle. -/
def platThreadCancel (thr : Addr) : Prog libSig Unit := do
  libCall (.store thr)
  libCall (.free thr)

/-- `plat_thread_join`. -/
def platThreadJoin (platThread : Addr) : Prog libSig VmopsBenchRunArg := do
  let arg ← libCall (.domainThreadJoin platThread)
  libCall (.store platThread)
  libCall (.free platThread)
  return arg

/-- `plat_thread_barrier_init`. The `pthread_barrier_init` of `barrelfish.c` assigns the members and
returns `0`. -/
def platThreadBarrierInit (_ : BitVec 32) : Prog libSig (Option Addr) := do
  match ← libCall (.alloc .barrier) with
  | none => return none
  | some pbar =>
    libCall (.store pbar)
    return some pbar

/-- `plat_thread_barrier_destroy`. The `pthread_barrier_destroy` of `barrelfish.c` does nothing. -/
def platThreadBarrierDestroy (_ : Addr) : Prog libSig Unit := return ()

/-- **The functions of `barrelfish.c`.** -/
def threadLayer : ThreadLayer :=
  ⟨platThreadStart, platThreadCancel, platThreadJoin, platThreadBarrierInit,
    platThreadBarrierDestroy⟩

end Barrelfish

/-! ### The account -/

/-- **The blocks that the main thread keeps a pointer to.** -/
inductive BlockName where
  | args
  | samples
  | barrier
  | thread (i : ℕ)
  deriving DecidableEq

/-- **What is asked of the libraries**, of threads, of the barrier, and of all else. -/
inductive MainOp where
  | started (i : ℕ) (run : RunFn) (st : VmopsBenchRunArg)
  | cancelled (b : Option BlockName)
  | joined (b : Option BlockName) (arg : VmopsBenchRunArg)
  | ready (n : BitVec 32)
  | destroyed (b : Option BlockName)
  | other (e : Event mainSig)

/-- **An account of the calls**: what the pointers stand for that were handed to the libraries, and
what has been asked, in order. -/
structure Account where
  owner : Addr → Option BlockName
  ops : List MainOp

namespace Account

def empty : Account := ⟨fun _ => none, []⟩

/-- Something is asked. -/
def ask (a : Account) (op : MainOp) : Account := { a with ops := a.ops ++ [op] }

/-- Something is asked, and from now on a pointer stands for it. -/
def register (a : Account) (p : Addr) (b : BlockName) (op : MainOp) : Account :=
  ⟨Function.update a.owner p (some b), a.ops ++ [op]⟩

/-- **The account after a call.** What has failed was not asked. -/
def add (a : Account) : (c : LibCall) → c.Resp → Account
  | .pthreadCreate p i run st, r | .domainThreadCreateOn _ p i run st, r =>
    if r then a.register p (.thread i) (.started i run st) else a
  | .pthreadCancel p, _ => a.ask (.cancelled (a.owner p))
  | .pthreadJoin p, arg | .domainThreadJoin p, arg => a.ask (.joined (a.owner p) arg)
  | .pthreadBarrierInit p n, r => if r then a.register p .barrier (.ready n) else a
  | .pthreadBarrierDestroy p, _ => a.ask (.destroyed (a.owner p))
  | .other c, r => a.ask (.other ⟨c, r⟩)
  | .alloc _, _ | .free _, _ | .store _, _ | .dispGetCoreId, _ | .domainSendCap .., _
  | .userPanic, _ => a

end Account

/-- **The discipline of the heap**, with the account. -/
abbrev accounted : Spec libSig (Finset Addr × Account) := heapOps.discipline.tracking Account.add

/-- A block more, and what it was obtained for, or nothing. -/
def ObtainedFrom (live : Finset Addr) (a : Account) (obtained : Addr → Account) (o : Option Addr)
    (x : Finset Addr × Account) : Prop :=
  match o with
  | none => x = (live, a)
  | some p => p ∉ live ∧ x = (insert p live, obtained p)

/-- **What the functions are for.** With POSIX threads, `posix`, all is asked of the library;
without them, threads are only started and joined. -/
structure ThreadLayer.Implements (L : ThreadLayer) (posix : Bool) : Prop where
  start : ∀ i run st live a, wp accounted (L.start i run st)
    (ObtainedFrom live a fun p => a.register p (.thread i) (.started i run st)) (live, a)
  cancel : ∀ p live a, p ∈ live → wp accounted (L.cancel p)
    (fun _ x => x = (live.erase p, if posix then a.ask (.cancelled (a.owner p)) else a)) (live, a)
  join : ∀ p live a, p ∈ live → wp accounted (L.join p)
    (fun arg x => x = (live.erase p, a.ask (.joined (a.owner p) arg))) (live, a)
  barrierInit : ∀ n live a, wp accounted (L.barrierInit n)
    (ObtainedFrom live a fun p => if posix then a.register p .barrier (.ready n) else a) (live, a)
  barrierDestroy : ∀ p live a, p ∈ live → wp accounted (L.barrierDestroy p)
    (fun _ x => x = (live, if posix then a.ask (.destroyed (a.owner p)) else a)) (live, a)

section Heap

variable {α : Type} {Q : α → Finset Addr × Account → Prop} {live : Finset Addr} {a : Account}

/-- A call that uses a live block, or none. -/
theorem wp_lib_use {c : LibCall} {f : c.Resp → Prog libSig α}
    (hobtains : ∀ r, heapOps.obtains c r = none) (hreleases : heapOps.releases c = none)
    (huses : ∀ p ∈ heapOps.uses c, p ∈ live) (h : ∀ r, wp accounted (f r) Q (live, a.add c r)) :
    wp accounted (libCall c >>= f) Q (live, a) := HeapOps.wp_use hobtains hreleases huses h

theorem wp_lib_store {p : Addr} {f : Unit → Prog libSig α} (hp : p ∈ live)
    (h : wp accounted (f ()) Q (live, a)) :
    wp accounted (libCall (.store p) >>= f) Q (live, a) :=
  wp_lib_use (fun _ => rfl) rfl (by simpa [heapOps] using hp) fun _ => h

theorem wp_lib_free {p : Addr} {f : Unit → Prog libSig α} (hp : p ∈ live)
    (h : wp accounted (f ()) Q (live.erase p, a)) :
    wp accounted (libCall (.free p) >>= f) Q (live, a) :=
  HeapOps.wp_release (H := heapOps) (fun _ => rfl) rfl rfl hp fun _ => h

theorem wp_lib_alloc {what : Allocation} {f : Option Addr → Prog libSig α}
    (hnone : wp accounted (f none) Q (live, a))
    (hsome : ∀ p, p ∉ live → wp accounted (f (some p)) Q (insert p live, a)) :
    wp accounted (libCall (.alloc what) >>= f) Q (live, a) := by
  refine HeapOps.wp_obtain (H := heapOps) rfl rfl (fun r hr => ?_) fun r p hr hp => ?_
  · obtain rfl : r = none := hr
    exact hnone
  · obtain rfl : r = some p := hr
    exact hsome p hp

/-- A block that has just been obtained, and is given back again. -/
theorem wp_lib_free_new {p : Addr} (hp : p ∉ live) {obtained : Addr → Account} :
    wp accounted (libCall (.free p) >>= fun _ => pure (none : Option Addr))
      (ObtainedFrom live a obtained) (insert p live, a) :=
  wp_lib_free (Finset.mem_insert_self _ _) (congrArg (·, a) (Finset.erase_insert hp))

end Heap

theorem threadLayer_implements : threadLayer.Implements true where
  start i run st live a := by
    refine wp_lib_alloc rfl fun thread hnew => ?_
    refine wp_lib_store (Finset.mem_insert_self _ _) ?_
    refine wp_lib_use (fun _ => rfl) rfl (by simp [heapOps]) fun created => ?_
    rcases created with _ | _
    · exact wp_lib_free_new hnew
    · exact ⟨hnew, rfl⟩
  cancel p live a hp := by
    refine wp_lib_use (fun _ => rfl) rfl (by simpa [heapOps] using hp) fun _ => wp_lib_store hp ?_
    exact wp_lib_free hp rfl
  join p live a hp := by
    refine wp_lib_use (fun _ => rfl) rfl (by simpa [heapOps] using hp) fun arg => wp_lib_store hp ?_
    exact wp_lib_free hp rfl
  barrierInit n live a := by
    refine wp_lib_alloc rfl fun pbar hnew => ?_
    refine wp_lib_use (fun _ => rfl) rfl (by simp [heapOps]) fun ready => ?_
    rcases ready with _ | _
    · exact wp_lib_free_new hnew
    · exact ⟨hnew, rfl⟩
  barrierDestroy p live a hp :=
    wp_lib_use (fun _ => rfl) rfl (by simpa [heapOps] using hp) fun _ => rfl

theorem Barrelfish.threadLayer_implements : Barrelfish.threadLayer.Implements false where
  start i run st live a := by
    refine wp_lib_alloc rfl fun thread hnew => ?_
    refine wp_lib_store (Finset.mem_insert_self _ _) ?_
    refine wp_lib_use (fun _ => rfl) rfl (by simp [heapOps]) fun cid => ?_
    have hcreate : ∀ sent : Bool, wp accounted (if sent then do
          if ← libCall (.domainThreadCreateOn st.coreid thread i run st) then return some thread
          else Barrelfish.userPanicErr
        else do
          libCall (.free thread)
          return none) (ObtainedFrom live a fun p => a.register p (.thread i) (.started i run st))
            (insert thread live, a) := by
      intro sent
      split
      · refine wp_lib_use (fun _ => rfl) rfl (by simp [heapOps]) fun created => ?_
        rcases created with _ | _
        · refine wp_lib_use (fun _ => rfl) rfl (by simp [heapOps]) fun _ => ?_
          exact ⟨fun _ _ => True, fun _ _ => False, trivial, fun _ _ _ => trivial, nofun⟩
        · exact ⟨hnew, rfl⟩
      · exact wp_lib_free_new hnew
    dsimp only
    split
    · exact wp_lib_use (fun _ => rfl) rfl (by simp [heapOps]) hcreate
    · exact hcreate true
  cancel p live a hp := wp_lib_store hp (wp_lib_free hp rfl)
  join p live a hp := by
    refine wp_lib_use (fun _ => rfl) rfl (by simpa [heapOps] using hp) fun arg => wp_lib_store hp ?_
    exact wp_lib_free hp rfl
  barrierInit n live a := by
    refine wp_lib_alloc rfl fun pbar hnew => ?_
    exact wp_lib_store (Finset.mem_insert_self pbar live) ⟨hnew, rfl⟩
  barrierDestroy p live a hp := rfl

end VmopsBench

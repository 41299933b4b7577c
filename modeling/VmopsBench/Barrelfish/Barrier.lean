import VmopsBench.Interact.Prog

/-!
# The spin barrier of the Barrelfish port

Barrelfish has no `pthread_barrier_wait`, so `barrelfish.c` brings its own: a
counter of the threads that have arrived, and a bit `cycle` that the last of them
flips. A thread reads the bit, adds itself to the counter, and spins until the bit
has changed; the thread that finds the counter at `max - 1` instead resets it, in
one store, and flips the bit, in another.

`VmopsBench.Barrelfish.pthreadBarrierWait` is that function as an interaction program
whose calls are its accesses to shared memory, one call for each volatile read, each
volatile write and the fetch-and-add. `VmopsBench.Barrelfish.Waiters` is any number
of threads that call it on one barrier, over and over; a step
(`VmopsBench.Barrelfish.Waiters.step`) is one access of one thread, so the reachable
states are those of all sequentially consistent interleavings.

Three ghosts count what the properties are about: the waits a thread has entered,
those in which it has done the fetch-and-add, and for each wait in which that
returned `max - 1`, the thread and the number of the wait.
-/

namespace VmopsBench

namespace Barrelfish

open Interact

/-! ### The function -/

/-- `struct pthread_barrier`. -/
structure PthreadBarrier where
  max : BitVec 32
  cycle : BitVec 32
  counter : BitVec 32

/-- `pthread_barrier_init`. -/
def pthreadBarrierInit (maxCount : BitVec 32) : PthreadBarrier := ⟨maxCount, 0, 0⟩

/-- **The accesses to the shared barrier.** -/
inductive BarrierCall where
  | loadCycle
  | storeCycle (v : BitVec 32)
  | storeCounter (v : BitVec 32)
  /-- `__sync_fetch_and_add(&barrier->counter, v)`. -/
  | fetchAndAdd (v : BitVec 32)
  | threadYield
  deriving DecidableEq

/-- What each access is answered with. -/
abbrev BarrierCall.Resp : BarrierCall → Type
  | .loadCycle | .fetchAndAdd _ => BitVec 32
  | .storeCycle _ | .storeCounter _ | .threadYield => Unit

/-- The signature of `pthread_barrier_wait`. -/
abbrev barrierSig : Sig := ⟨BarrierCall, BarrierCall.Resp⟩

/-- One access. -/
abbrev access (c : BarrierCall) : Prog barrierSig c.Resp := Prog.perform (S := barrierSig) c

/-- One turn of `while (cycle == barrier->cycle)`, over `waitcnt`. -/
def spinBody (cycle : BitVec 32) (waitcnt : BitVec 64) : Prog barrierSig (BitVec 64 ⊕ Unit) := do
  let current ← access .loadCycle
  if cycle = current then
    if waitcnt = 0x400 then
      access .threadYield
      return .inl (0 + 1)
    else return .inl (waitcnt + 1)
  else return .inr ()

/-- What the last arriver does: the `!barrier->cycle` is a read of its own. -/
def release : Prog barrierSig Unit := do
  access (.storeCounter 0)
  let current ← access .loadCycle
  access (.storeCycle (if current = 0 then 1 else 0))

/-- `pthread_barrier_wait`, on a barrier with the given `max`. -/
def pthreadBarrierWait (max : BitVec 32) : Prog barrierSig Unit := do
  let cycle ← access .loadCycle
  let counter ← access (.fetchAndAdd 1)
  if counter = max - 1 then release
  else .loop (spinBody cycle) 0 .ret

/-! ### Shared memory -/

/-- An access, and the barrier after it. -/
def PthreadBarrier.exec (b : PthreadBarrier) : (c : BarrierCall) → c.Resp × PthreadBarrier
  | .loadCycle => (b.cycle, b)
  | .storeCycle v => ((), { b with cycle := v })
  | .storeCounter v => ((), { b with counter := v })
  | .fetchAndAdd v => (b.counter, { b with counter := b.counter + v })
  | .threadYield => ((), b)

/-- The access is the fetch-and-add. -/
def BarrierCall.isArrival : BarrierCall → Bool
  | .fetchAndAdd _ => true
  | _ => false

/-- The access is a fetch-and-add that returned `max - 1`. -/
def PthreadBarrier.isLast (b : PthreadBarrier) (c : BarrierCall) : Bool :=
  c.isArrival && b.counter = b.max - 1

/-! ### Threads that wait, over and over -/

/-- A thread. -/
structure Waiter where
  /-- What is left of its current wait. -/
  prog : Prog barrierSig Unit
  /-- How many waits it has entered. -/
  entered : ℕ
  /-- How many fetch-and-adds it has done. -/
  arrived : ℕ

/-- How many waits a thread has returned from: the last one it has entered is over exactly if
nothing of it is left. -/
def Waiter.returned (w : Waiter) : ℕ :=
  match w.prog with
  | .ret _ => w.entered
  | _ => w.entered - 1

/-- **A state**: the barrier, `N` threads, and the waits in which the fetch-and-add
returned `max - 1`. -/
structure Waiters (N : ℕ) where
  barrier : PthreadBarrier
  thread : Fin N → Waiter
  leaders : List (Fin N × ℕ)

namespace Waiters

variable {N : ℕ}

/-- The barrier is initialised, and no thread has called it. -/
def init (N : ℕ) : Waiters N :=
  ⟨pthreadBarrierInit (BitVec.ofNat 32 N), fun _ => ⟨.ret (), 0, 0⟩, []⟩

/-- Replace a thread. -/
def setThread (s : Waiters N) (i : Fin N) (w : Waiter) : Waiters N :=
  { s with thread := Function.update s.thread i w }

/-- **One step of a thread**: it calls `pthread_barrier_wait` again, goes round its
loop, or makes its next access. -/
def step (s : Waiters N) (i : Fin N) : Waiters N :=
  let w := s.thread i
  match w.prog with
  | .ret _ => s.setThread i
      { w with prog := pthreadBarrierWait s.barrier.max, entered := w.entered + 1 }
  | .loop body x k => s.setThread i { w with prog := Prog.unroll body x k }
  | .call c k =>
    { s.setThread i { w with
        prog := k (s.barrier.exec c).1
        arrived := if BarrierCall.isArrival c then w.arrived + 1 else w.arrived } with
      barrier := (s.barrier.exec c).2
      leaders := if s.barrier.isLast c then s.leaders ++ [(i, w.entered)] else s.leaders }

theorem step_ret {s : Waiters N} {i : Fin N} (h : (s.thread i).prog = .ret ()) :
    s.step i = s.setThread i ⟨pthreadBarrierWait s.barrier.max, (s.thread i).entered + 1,
      (s.thread i).arrived⟩ := by
  simp only [step, h]

theorem step_loop {s : Waiters N} {i : Fin N} {σ β : Type} {body : σ → Prog barrierSig (σ ⊕ β)}
    {x : σ} {k : β → Prog barrierSig Unit} (h : (s.thread i).prog = .loop body x k) :
    s.step i = s.setThread i ⟨Prog.unroll body x k, (s.thread i).entered,
      (s.thread i).arrived⟩ := by
  simp only [step, h]

theorem step_call {s : Waiters N} {i : Fin N} {c : BarrierCall} {k : c.Resp → Prog barrierSig Unit}
    (h : (s.thread i).prog = .call c k) :
    s.step i = { s.setThread i ⟨k (s.barrier.exec c).1, (s.thread i).entered,
        if c.isArrival then (s.thread i).arrived + 1 else (s.thread i).arrived⟩ with
      barrier := (s.barrier.exec c).2
      leaders := if s.barrier.isLast c then s.leaders ++ [(i, (s.thread i).entered)]
        else s.leaders } := by
  simp only [step, h]

/-- **The reachable states**, over all interleavings. -/
def Reachable : Waiters N → Prop :=
  Relation.ReflTransGen (fun s s' => ∃ i, s' = s.step i) (init N)

/-- The state after the steps of these threads, in this order. -/
def run (order : List (Fin N)) : Waiters N := order.foldl step (init N)

theorem reachable_run (order : List (Fin N)) : (run order).Reachable := by
  have hfrom : ∀ s : Waiters N, s.Reachable → (order.foldl step s).Reachable := by
    induction order with
    | nil => exact fun s hs => hs
    | cons i order ih => exact fun s hs => ih _ (hs.tail ⟨i, rfl⟩)
  exact hfrom _ .refl

end Waiters

end Barrelfish

end VmopsBench

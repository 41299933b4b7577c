import VmopsBench.Barrelfish.Barrier

/-!
# The spin barrier is safe, and loses no wake-up

The positions a thread can be in while it waits are few, and between two accesses all
that matters of it is its position and the value of `cycle` it has saved
(`VmopsBench.Barrelfish.Pos`). `VmopsBench.Barrelfish.Places` is the barrier with
threads at positions, and `VmopsBench.Barrelfish.Places.toWaiters_step` shows that a
step of the program is a step from one position to the next.

Over positions the invariant is a matter of rounds. After `R` flips of `cycle` the
barrier is in one of two phases:

* **gathering** – nobody leads, `cycle` is the parity of `R`, and each thread has yet to leave its
  wait `R`, or is between two waits, or is in its wait `R + 1`, where the threads
  that have done the fetch-and-add are as many as `counter` says, and not all;
* **releasing** – one thread has found the counter at `max - 1` and has yet to flip
  `cycle`, and all the others spin on the value it will change.

A thread that spins on a value other than `cycle` is one that has not noticed the flip of
its round; the next flip needs its arrival, so `cycle` cannot flip back before it looks.
-/

namespace VmopsBench

namespace Barrelfish

open Interact

/-! ### Positions -/

/-- **Where a thread is**, with the value of `cycle` it has saved. -/
inductive Pos where
  /-- Outside `pthread_barrier_wait`. -/
  | idle
  /-- Before the read of `cycle`. -/
  | load
  /-- Before the fetch-and-add. -/
  | arrive (cycle : BitVec 32)
  /-- Before `barrier->counter = 0`. -/
  | reset
  /-- Before the read of `cycle` in `!barrier->cycle`. -/
  | reread
  /-- Before the store to `cycle`. -/
  | flip (v : BitVec 32)
  /-- At the head of the loop. -/
  | spin (cycle : BitVec 32) (waitcnt : BitVec 64)
  /-- Before the read of `cycle` in the loop condition. -/
  | check (cycle : BitVec 32) (waitcnt : BitVec 64)
  /-- Before `thread_yield`. -/
  | yield (cycle : BitVec 32)
  deriving DecidableEq

/-- The rest of the program at a position. -/
def Pos.prog (max : BitVec 32) : Pos → Prog barrierSig Unit
  | .idle => .ret ()
  | .load => pthreadBarrierWait max
  | .arrive cycle => do
    let counter ← access (.fetchAndAdd 1)
    if counter = max - 1 then release
    else .loop (spinBody cycle) 0 .ret
  | .reset => release
  | .reread => do
    let current ← access .loadCycle
    access (.storeCycle (if current = 0 then 1 else 0))
  | .flip v => access (.storeCycle v)
  | .spin cycle waitcnt => .loop (spinBody cycle) waitcnt .ret
  | .check cycle waitcnt => Prog.unroll (spinBody cycle) waitcnt .ret
  | .yield cycle => access .threadYield >>= fun _ => .loop (spinBody cycle) (0 + 1) .ret

/-- The value of `cycle` that a thread in the spin loop has saved. -/
def Pos.saved? : Pos → Option (BitVec 32)
  | .spin cycle _ | .check cycle _ | .yield cycle => some cycle
  | _ => none

/-- **The thread is in the spin loop**, with this value of `cycle` saved. -/
def Waiter.SpinsOn (max cycle : BitVec 32) (w : Waiter) : Prop :=
  ∃ p : Pos, p.saved? = some cycle ∧ w.prog = p.prog max

/-! ### The barrier, with threads at positions -/

/-- A thread at a position. -/
structure Place where
  pos : Pos
  entered : ℕ
  arrived : ℕ

/-- A state, with threads at positions. -/
structure Places (N : ℕ) where
  cycle : BitVec 32
  counter : BitVec 32
  place : Fin N → Place
  leaders : List (Fin N × ℕ)

namespace Places

variable {N : ℕ}

/-- The threads move to positions. -/
def setPlace (a : Places N) (i : Fin N) (p : Place) : Places N :=
  { a with place := Function.update a.place i p }

/-- **One step, from one position to the next.** -/
def step (a : Places N) (i : Fin N) : Places N :=
  let p := a.place i
  match p.pos with
  | .idle => a.setPlace i { p with pos := .load, entered := p.entered + 1 }
  | .load => a.setPlace i { p with pos := .arrive a.cycle }
  | .arrive cycle =>
    if a.counter = BitVec.ofNat 32 N - 1 then
      { a.setPlace i { p with pos := .reset, arrived := p.arrived + 1 } with
        counter := a.counter + 1
        leaders := a.leaders ++ [(i, p.entered)] }
    else
      { a.setPlace i { p with pos := .spin cycle 0, arrived := p.arrived + 1 } with
        counter := a.counter + 1 }
  | .reset => { a.setPlace i { p with pos := .reread } with counter := 0 }
  | .reread => a.setPlace i { p with pos := .flip (if a.cycle = 0 then 1 else 0) }
  | .flip v => { a.setPlace i { p with pos := .idle } with cycle := v }
  | .spin cycle waitcnt => a.setPlace i { p with pos := .check cycle waitcnt }
  | .check cycle waitcnt => a.setPlace i { p with
      pos := if cycle = a.cycle then
          if waitcnt = 0x400 then .yield cycle else .spin cycle (waitcnt + 1)
        else .idle }
  | .yield cycle => a.setPlace i { p with pos := .spin cycle (0 + 1) }

/-- The threads with the programs of their positions. -/
def toWaiters (a : Places N) : Waiters N where
  barrier := ⟨BitVec.ofNat 32 N, a.cycle, a.counter⟩
  thread i := ⟨(a.place i).pos.prog (BitVec.ofNat 32 N), (a.place i).entered, (a.place i).arrived⟩
  leaders := a.leaders

theorem toWaiters_setPlace (a : Places N) (i : Fin N) (p : Place) {cycle counter : BitVec 32}
    {leaders : List (Fin N × ℕ)} :
    { a.setPlace i p with cycle, counter, leaders }.toWaiters =
      { a.toWaiters.setThread i ⟨p.pos.prog (BitVec.ofNat 32 N), p.entered, p.arrived⟩ with
        barrier := ⟨BitVec.ofNat 32 N, cycle, counter⟩
        leaders } := by
  refine congrArg (fun thread => Waiters.mk _ thread _) (funext fun j => ?_)
  rcases eq_or_ne j i with rfl | hne
  · simp [setPlace, Waiters.setThread]
  · simp [setPlace, Waiters.setThread, Function.update_of_ne hne, toWaiters]

/-- One turn of the spin loop, from the value it reads. -/
theorem check_next (max cycle current : BitVec 32) (waitcnt : BitVec 64) :
    (Prog.bind (if cycle = current then
        if waitcnt = 0x400 then do
          access .threadYield
          return .inl (0 + 1)
        else return .inl (waitcnt + 1)
      else return .inr ()) (Sum.elim (fun w => .loop (spinBody cycle) w .ret) .ret)) =
      Pos.prog max (if cycle = current then
        if waitcnt = 0x400 then .yield cycle else .spin cycle (waitcnt + 1)
      else .idle) := by
  by_cases hc : cycle = current
  · rw [if_pos hc, if_pos hc]
    by_cases hw : waitcnt = 0x400
    · rw [if_pos hw, if_pos hw]
      rfl
    · rw [if_neg hw, if_neg hw]
      rfl
  · rw [if_neg hc, if_neg hc]
    rfl

/-- **Positions simulate the program**: a step of the program at a position is the
step to the next position. -/
theorem toWaiters_step (a : Places N) (i : Fin N) : (a.step i).toWaiters = a.toWaiters.step i := by
  have hprog : (a.toWaiters.thread i).prog = (a.place i).pos.prog (BitVec.ofNat 32 N) := rfl
  cases hp : (a.place i).pos with
  | idle =>
    rw [hp] at hprog
    rw [Waiters.step_ret hprog, step, hp]
    exact toWaiters_setPlace ..
  | spin cycle waitcnt =>
    rw [hp] at hprog
    rw [Waiters.step_loop hprog, step, hp]
    exact toWaiters_setPlace ..
  | arrive cycle =>
    rw [hp] at hprog
    rw [Waiters.step_call hprog, step, hp]
    have hset := fun (prog : Prog barrierSig Unit) leaders (leaders' : List (Fin N × ℕ))
        (prog' : Prog barrierSig Unit) (h : prog = prog') (h' : leaders = leaders') =>
      congrArg₂ (fun prog leaders => ({ a.toWaiters.setThread i
          ⟨prog, (a.place i).entered, (a.place i).arrived + 1⟩ with
        barrier := ⟨BitVec.ofNat 32 N, a.cycle, a.counter + 1⟩
        leaders } : Waiters N)) h h'
    -- the last arriver goes to the release, and is written down as a leader
    by_cases hlast : a.counter = BitVec.ofNat 32 N - 1
    · have hisLast : a.toWaiters.barrier.isLast (.fetchAndAdd 1) = true := decide_eq_true hlast
      simp only [if_pos hlast]
      refine (toWaiters_setPlace ..).trans ?_
      exact hset _ _ _ _ (if_pos hlast).symm (if_pos hisLast).symm
    · have hisLast : ¬a.toWaiters.barrier.isLast (.fetchAndAdd 1) = true :=
        fun h => hlast (of_decide_eq_true h)
      simp only [if_neg hlast]
      refine (toWaiters_setPlace ..).trans ?_
      exact hset _ _ _ _ (if_neg hlast).symm (if_neg hisLast).symm
  | check cycle waitcnt =>
    rw [hp] at hprog
    rw [Waiters.step_call hprog, step, hp]
    refine (toWaiters_setPlace ..).trans ?_
    exact congrArg (fun prog => a.toWaiters.setThread i
      ⟨prog, (a.place i).entered, (a.place i).arrived⟩) (check_next _ cycle a.cycle waitcnt).symm
  | _ =>
    rw [hp] at hprog
    rw [Waiters.step_call hprog, step, hp]
    exact toWaiters_setPlace ..

/-! ### The invariant -/

/-- The value of `cycle` after `R` flips. -/
def parity (R : ℕ) : BitVec 32 := if R % 2 = 0 then 0 else 1

theorem parity_succ (R : ℕ) : parity (R + 1) = if parity R = 0 then 1 else 0 := by
  rcases Nat.mod_two_eq_zero_or_one R with h | h
  · have h' : (R + 1) % 2 = 1 := by omega
    simp [parity, h, h']
  · have h' : (R + 1) % 2 = 0 := by omega
    simp [parity, h, h']

theorem parity_succ_ne (R : ℕ) : parity (R + 1) ≠ parity R := by
  rcases Nat.mod_two_eq_zero_or_one R with h | h
  · have h' : (R + 1) % 2 = 1 := by omega
    simp [parity, h, h']
  · have h' : (R + 1) % 2 = 0 := by omega
    simp [parity, h, h']

/-- **Where a thread can be that does not lead**, after `R` flips: in the loop of wait
`R`, on the value `cycle` no longer has; between two waits; on its way to the
fetch-and-add of wait `R + 1`; or in the loop of that wait. -/
def Follows (R : ℕ) (p : Place) : Prop :=
  match p.pos with
  | .idle => p.entered = R ∧ p.arrived = R
  | .load => p.entered = R + 1 ∧ p.arrived = R
  | .arrive cycle => cycle = parity R ∧ p.entered = R + 1 ∧ p.arrived = R
  | .spin cycle _ | .check cycle _ | .yield cycle =>
    cycle = parity R ∧ p.entered = R + 1 ∧ p.arrived = R + 1 ∨
      cycle ≠ parity R ∧ p.entered = R ∧ p.arrived = R
  | .reset | .reread | .flip _ => False

/-- The threads that have done the fetch-and-add of wait `k`. -/
def arrivals (a : Places N) (k : ℕ) : Finset (Fin N) :=
  Finset.univ.filter fun i => (a.place i).arrived = k

/-- **Gathering**, after `R` flips. -/
structure Gathering (R : ℕ) (a : Places N) : Prop where
  cycle_eq : a.cycle = parity R
  follows : ∀ i, Follows R (a.place i)
  counter_eq : a.counter.toNat = (a.arrivals (R + 1)).card
  missing : (a.arrivals (R + 1)).card < N
  leaders_eq : a.leaders.map Prod.snd = List.range' 1 R

/-- **Releasing**, after `R` flips: thread `l` has found all the others there. -/
structure Releasing (R : ℕ) (l : Fin N) (a : Places N) : Prop where
  cycle_eq : a.cycle = parity R
  leader_entered : (a.place l).entered = R + 1
  leader_arrived : (a.place l).arrived = R + 1
  leader_pos : (a.place l).pos = .reset ∨
    ((a.place l).pos = .reread ∨ (a.place l).pos = .flip (parity (R + 1))) ∧ a.counter = 0
  others : ∀ j, j ≠ l → (a.place j).pos.saved? = some (parity R) ∧
    (a.place j).entered = R + 1 ∧ (a.place j).arrived = R + 1
  leaders_eq : a.leaders.map Prod.snd = List.range' 1 (R + 1)

/-- After `R` flips, the barrier is in one of the two phases. -/
def Flipped (R : ℕ) (a : Places N) : Prop := Gathering R a ∨ ∃ l, Releasing R l a

/-- **The invariant**: there have been some number of flips. -/
def Inv (a : Places N) : Prop := ∃ R, Flipped R a

/-- The initial state. -/
def init (N : ℕ) : Places N := ⟨0, 0, fun _ => ⟨.idle, 0, 0⟩, []⟩

theorem inv_init (hN : 0 < N) : Inv (init N) := by
  refine ⟨0, Or.inl ⟨rfl, fun _ => ⟨rfl, rfl⟩, ?_, ?_, rfl⟩⟩
  · simp [init, arrivals]
  · simpa [init, arrivals] using hN

/-! ### Steps while the threads gather -/

section Gathering

variable {R : ℕ} {a : Places N} {i : Fin N}

@[simp] theorem setPlace_self {p : Place} : (a.setPlace i p).place i = p :=
  Function.update_self ..

theorem setPlace_of_ne {p : Place} {j : Fin N} (h : j ≠ i) :
    (a.setPlace i p).place j = a.place j :=
  Function.update_of_ne h ..

/-- A step that is no arrival leaves the set of arrivals as it is. -/
theorem arrivals_setPlace {p : Place} (h : p.arrived = (a.place i).arrived) (k : ℕ) :
    (a.setPlace i p).arrivals k = a.arrivals k := by
  refine Finset.filter_congr fun j _ => ?_
  rcases eq_or_ne j i with rfl | hne
  · rw [setPlace_self, h]
  · rw [setPlace_of_ne hne]

/-- An arrival adds the thread. -/
theorem arrivals_setPlace_succ {p : Place} (hold : (a.place i).arrived = R)
    (h : p.arrived = R + 1) :
    ((a.setPlace i p).arrivals (R + 1)).card = (a.arrivals (R + 1)).card + 1 := by
  have hset : (a.setPlace i p).arrivals (R + 1) = insert i (a.arrivals (R + 1)) := by
    ext j
    rcases eq_or_ne j i with rfl | hne
    · simp [arrivals, h]
    · simp [arrivals, setPlace_of_ne hne, hne]
  rw [hset, Finset.card_insert_of_notMem]
  simp [arrivals, hold]

/-- A step to another position that the thread may be at. -/
theorem Gathering.move (h : Gathering R a) {p : Place} (hp : Follows R p)
    (harr : p.arrived = (a.place i).arrived) : Gathering R (a.setPlace i p) where
  cycle_eq := h.cycle_eq
  follows j := by
    rcases eq_or_ne j i with rfl | hne
    · rwa [setPlace_self]
    · rw [setPlace_of_ne hne]
      exact h.follows j
  counter_eq := by
    rw [arrivals_setPlace harr]
    exact h.counter_eq
  missing := by
    rw [arrivals_setPlace harr]
    exact h.missing
  leaders_eq := h.leaders_eq

/-- A thread that does not lead and has done the fetch-and-add of wait `R + 1` spins. -/
theorem Follows.spins {p : Place} (h : Follows R p) (harr : p.arrived = R + 1) :
    p.pos.saved? = some (parity R) ∧ p.entered = R + 1 := by
  cases hp : p.pos with
  | idle | load | arrive cycle =>
    simp only [Follows, hp] at h
    omega
  | reset | reread | flip v =>
    simp only [Follows, hp] at h
  | spin cycle waitcnt | check cycle waitcnt | yield cycle =>
    simp only [Follows, hp] at h
    rcases h with ⟨rfl, he, -⟩ | ⟨-, -, ha⟩
    · exact ⟨rfl, he⟩
    · omega

/-- The fetch-and-add returns `max - 1` if all the others have arrived. -/
theorem Gathering.counter_eq_iff (hN : N < 2 ^ 32) (h : Gathering R a) :
    a.counter = BitVec.ofNat 32 N - 1 ↔ (a.arrivals (R + 1)).card = N - 1 := by
  have hpos : 0 < N := (Nat.zero_le _).trans_lt h.missing
  have hmax : (BitVec.ofNat 32 N - 1).toNat = N - 1 := by
    rw [BitVec.toNat_sub, BitVec.toNat_ofNat, Nat.mod_eq_of_lt hN]
    have hone : (1 : BitVec 32).toNat = 1 := rfl
    rw [hone]
    omega
  rw [← BitVec.toNat_inj, hmax, h.counter_eq]

/-- If all but one have arrived, the others spin. -/
theorem Gathering.spins (h : Gathering R a) (hcard : (a.arrivals (R + 1)).card = N - 1)
    (hi : (a.place i).arrived = R) {j : Fin N} (hne : j ≠ i) :
    (a.place j).pos.saved? = some (parity R) ∧ (a.place j).entered = R + 1 ∧
      (a.place j).arrived = R + 1 := by
  have hpos : 0 < N := i.pos
  -- with the thread itself they are all
  have huniv : (a.setPlace i ⟨.idle, 0, R + 1⟩).arrivals (R + 1) = Finset.univ := by
    rw [← Finset.card_eq_iff_eq_univ, arrivals_setPlace_succ hi rfl, hcard, Fintype.card_fin]
    omega
  have hj := Finset.mem_univ j
  rw [← huniv, arrivals, Finset.mem_filter, setPlace_of_ne hne] at hj
  obtain ⟨hsaved, he⟩ := (h.follows j).spins hj.2
  exact ⟨hsaved, he, hj.2⟩

/-- The last thread arrives. -/
theorem Gathering.arrive_last (h : Gathering R a) (hcard : (a.arrivals (R + 1)).card = N - 1)
    (he : (a.place i).entered = R + 1) (ha : (a.place i).arrived = R) :
    Releasing R i { a.setPlace i ⟨.reset, (a.place i).entered, (a.place i).arrived + 1⟩ with
      counter := a.counter + 1
      leaders := a.leaders ++ [(i, (a.place i).entered)] } := by
  refine ⟨h.cycle_eq, ?_, ?_, Or.inl ?_, fun j hne => ?_, ?_⟩
  · simpa only [setPlace_self] using he
  · simpa only [setPlace_self] using congrArg (· + 1) ha
  · simp only [setPlace_self]
  · simp only [setPlace_of_ne hne]
    exact h.spins hcard ha hne
  · simp only [List.map_append, List.map_cons, List.map_nil, h.leaders_eq, he,
      List.range'_1_concat, Nat.add_comm 1 R]

/-- Another thread arrives. -/
theorem Gathering.arrive_early (hN : N < 2 ^ 32) (h : Gathering R a)
    (hcard : (a.arrivals (R + 1)).card ≠ N - 1) (he : (a.place i).entered = R + 1)
    (ha : (a.place i).arrived = R) :
    Gathering R { a.setPlace i
        ⟨.spin (parity R) 0, (a.place i).entered, (a.place i).arrived + 1⟩ with
      counter := a.counter + 1 } := by
  have hmissing := h.missing
  have hcounter := h.counter_eq
  have hsucc := arrivals_setPlace_succ (p := ⟨.spin (parity R) 0, (a.place i).entered,
    (a.place i).arrived + 1⟩) ha (congrArg (· + 1) ha)
  refine ⟨h.cycle_eq, fun j => ?_, ?_, ?_, h.leaders_eq⟩
  · rcases eq_or_ne j i with rfl | hne
    · simp only [setPlace_self]
      exact Or.inl ⟨rfl, he, congrArg (· + 1) ha⟩
    · simp only [setPlace_of_ne hne]
      exact h.follows j
  · refine Eq.trans ?_ hsucc.symm
    have hone : (1 : BitVec 32).toNat = 1 := rfl
    rw [BitVec.toNat_add, hcounter, hone]
    exact Nat.mod_eq_of_lt (by omega)
  · refine lt_of_eq_of_lt hsucc ?_
    omega

/-- **An arrival**, that of the last thread or of another. -/
theorem Gathering.arrive (hN : N < 2 ^ 32) (h : Gathering R a) {cycle : BitVec 32}
    (hp : (a.place i).pos = .arrive cycle) :
    Gathering R (a.step i) ∨ Releasing R i (a.step i) := by
  have hf := h.follows i
  simp only [Follows, hp] at hf
  obtain ⟨rfl, he, ha⟩ := hf
  rw [Places.step, hp]
  by_cases hlast : a.counter = BitVec.ofNat 32 N - 1
  · simp only [if_pos hlast]
    exact Or.inr (h.arrive_last ((h.counter_eq_iff hN).mp hlast) he ha)
  · simp only [if_neg hlast]
    exact Or.inl (h.arrive_early hN (mt (h.counter_eq_iff hN).mpr hlast) he ha)

theorem Gathering.step (hN : N < 2 ^ 32) (h : Gathering R a) (i : Fin N) :
    Gathering R (a.step i) ∨ Releasing R i (a.step i) := by
  have hf := h.follows i
  cases hp : (a.place i).pos with
  | arrive cycle => exact h.arrive hN hp
  | idle =>
    simp only [Follows, hp] at hf
    rw [Places.step, hp]
    exact Or.inl (h.move ⟨congrArg (· + 1) hf.1, hf.2⟩ rfl)
  | load =>
    simp only [Follows, hp] at hf
    rw [Places.step, hp]
    exact Or.inl (h.move ⟨h.cycle_eq, hf.1, hf.2⟩ rfl)
  | reset | reread | flip v =>
    simp only [Follows, hp] at hf
  | spin cycle waitcnt | yield cycle =>
    simp only [Follows, hp] at hf
    rw [Places.step, hp]
    exact Or.inl (h.move hf rfl)
  | check cycle waitcnt =>
    simp only [Follows, hp] at hf
    rw [Places.step, hp]
    refine Or.inl (h.move ?_ rfl)
    by_cases hc : cycle = a.cycle
    · -- the flip has not happened, and the thread goes round the loop
      simp only [if_pos hc]
      split
      · exact hf
      · exact hf
    · -- the flip has happened, and the thread returns
      simp only [if_neg hc]
      rw [h.cycle_eq] at hc
      rcases hf with ⟨hsame, -, -⟩ | ⟨-, hrest⟩
      · exact absurd hsame hc
      · exact hrest

end Gathering

/-! ### Steps while a thread releases the others -/

section Releasing

variable {R : ℕ} {a : Places N} {l i : Fin N}

/-- A step of a thread that spins: it goes on spinning. -/
theorem Releasing.spin (h : Releasing R l a) (hne : i ≠ l) : Releasing R l (a.step i) := by
  obtain ⟨hsaved, hentered, harrived⟩ := h.others i hne
  have hmove : ∀ p : Pos, p.saved? = some (parity R) →
      Releasing R l (a.setPlace i { a.place i with pos := p }) := by
    intro p hp
    have hl : (a.setPlace i { a.place i with pos := p }).place l = a.place l :=
      setPlace_of_ne hne.symm
    refine ⟨h.cycle_eq, by rw [hl]; exact h.leader_entered, by rw [hl]; exact h.leader_arrived,
      by rw [hl]; exact h.leader_pos, fun j hj => ?_, h.leaders_eq⟩
    rcases eq_or_ne j i with rfl | hji
    · rw [setPlace_self]
      exact ⟨hp, hentered, harrived⟩
    · rw [setPlace_of_ne hji]
      exact h.others j hj
  cases hp : (a.place i).pos with
  | idle | load | arrive cycle | reset | reread | flip v =>
    rw [hp] at hsaved
    cases hsaved
  | spin cycle waitcnt | yield cycle =>
    rw [hp] at hsaved
    rw [Places.step, hp]
    exact hmove _ hsaved
  | check cycle waitcnt =>
    rw [hp] at hsaved
    obtain rfl : cycle = parity R := Option.some.inj hsaved
    rw [Places.step, hp]
    refine hmove _ ?_
    rw [if_pos h.cycle_eq.symm]
    split <;> rfl

/-- The leader goes on to the flip. -/
theorem Releasing.leadOn (h : Releasing R l a) {pos : Pos}
    (hpos : pos = .reread ∨ pos = .flip (parity (R + 1))) :
    Releasing R l { a.setPlace l { a.place l with pos } with counter := 0 } := by
  refine ⟨h.cycle_eq, ?_, ?_, Or.inr ⟨?_, rfl⟩, fun j hj => ?_, h.leaders_eq⟩
  · simpa only [setPlace_self] using h.leader_entered
  · simpa only [setPlace_self] using h.leader_arrived
  · simpa only [setPlace_self] using hpos
  · simpa only [setPlace_of_ne hj] using h.others j hj

/-- A thread that has spun through the flip. -/
theorem Releasing.follows (h : Releasing R l a) {j : Fin N} (hj : j ≠ l) :
    Follows (R + 1) (a.place j) := by
  obtain ⟨hsaved, he, ha⟩ := h.others j hj
  cases hp : (a.place j).pos with
  | idle | load | arrive cycle | reset | reread | flip v =>
    rw [hp] at hsaved
    cases hsaved
  | spin cycle waitcnt | check cycle waitcnt | yield cycle =>
    rw [hp] at hsaved
    obtain rfl : cycle = parity R := Option.some.inj hsaved
    simp only [Follows, hp]
    exact Or.inr ⟨(parity_succ_ne R).symm, he, ha⟩

/-- The flip: nobody has arrived at the next wait. -/
theorem Releasing.flip (h : Releasing R l a) (hcounter : a.counter = 0) :
    Gathering (R + 1) { a.setPlace l { a.place l with pos := .idle } with
      cycle := parity (R + 1) } := by
  have harrived : ∀ j, (a.place j).arrived = R + 1 := by
    intro j
    rcases eq_or_ne j l with rfl | hj
    · exact h.leader_arrived
    · exact (h.others j hj).2.2
  have hnone : (a.setPlace l { a.place l with pos := .idle }).arrivals (R + 1 + 1) = ∅ := by
    refine (arrivals_setPlace (i := l) (p := { a.place l with pos := .idle }) rfl _).trans ?_
    rw [arrivals, Finset.filter_eq_empty_iff]
    intro j _
    rw [harrived j]
    omega
  refine ⟨rfl, fun j => ?_, ?_, ?_, h.leaders_eq⟩
  · rcases eq_or_ne j l with rfl | hj
    · simp only [setPlace_self]
      exact ⟨h.leader_entered, h.leader_arrived⟩
    · simp only [setPlace_of_ne hj]
      exact h.follows hj
  · refine Eq.trans ?_ (congrArg Finset.card hnone).symm
    show a.counter.toNat = 0
    rw [hcounter]
    rfl
  · exact lt_of_eq_of_lt (congrArg Finset.card hnone) l.pos

/-- **A step of the leader**: the flip ends the round. -/
theorem Releasing.lead (h : Releasing R l a) :
    Releasing R l (a.step l) ∨ Gathering (R + 1) (a.step l) := by
  rcases h.leader_pos with hp | ⟨hp | hp, hcounter⟩
  · rw [Places.step, hp]
    exact Or.inl (h.leadOn (Or.inl rfl))
  · rw [Places.step, hp, h.cycle_eq, ← parity_succ]
    have hlead := h.leadOn (Or.inr (Eq.refl (Pos.flip (parity (R + 1)))))
    rw [← hcounter] at hlead
    exact Or.inl hlead
  · rw [Places.step, hp]
    exact Or.inr (h.flip hcounter)

end Releasing

theorem Inv.step {a : Places N} (hN : N < 2 ^ 32) (h : Inv a) (i : Fin N) : Inv (a.step i) := by
  obtain ⟨R, h | ⟨l, h⟩⟩ := h
  · rcases h.step hN i with h | h
    · exact ⟨R, Or.inl h⟩
    · exact ⟨R, Or.inr ⟨i, h⟩⟩
  · rcases eq_or_ne i l with rfl | hne
    · rcases h.lead with h | h
      · exact ⟨R, Or.inr ⟨i, h⟩⟩
      · exact ⟨R + 1, Or.inl h⟩
    · exact ⟨R, Or.inr ⟨l, h.spin hne⟩⟩

/-- **Every reachable state is one of threads at positions that keep the invariant.** -/
theorem exists_inv_of_reachable (hN : 0 < N) (hN' : N < 2 ^ 32) {s : Waiters N}
    (hs : s.Reachable) : ∃ a : Places N, a.toWaiters = s ∧ Inv a := by
  induction hs with
  | refl => exact ⟨init N, rfl, inv_init hN⟩
  | tail _ hstep ih =>
    obtain ⟨i, rfl⟩ := hstep
    obtain ⟨a, rfl, ha⟩ := ih
    exact ⟨a.step i, toWaiters_step a i, ha.step hN' i⟩

/-! ### What the invariant says of the waits -/

theorem returned_toWaiters (a : Places N) (i : Fin N) : (a.toWaiters.thread i).returned =
    if (a.place i).pos = .idle then (a.place i).entered else (a.place i).entered - 1 := by
  simp only [toWaiters]
  cases (a.place i).pos <;> rfl

/-- **The waits of all threads stay within one of the number of flips.** -/
theorem Flipped.bounds {R : ℕ} {a : Places N} (h : Flipped R a) (i : Fin N) :
    R ≤ (a.place i).entered ∧ (a.toWaiters.thread i).returned ≤ R ∧
      R ≤ (a.toWaiters.thread i).returned + 1 := by
  have hof : (a.place i).pos ≠ .idle →
      (a.place i).entered = R ∨ (a.place i).entered = R + 1 → R ≤ (a.place i).entered ∧
        (a.toWaiters.thread i).returned ≤ R ∧ R ≤ (a.toWaiters.thread i).returned + 1 := by
    intro hidle he
    rw [returned_toWaiters, if_neg hidle]
    omega
  -- either the threads are gathering, or one of them is releasing the others
  rcases h with h | ⟨l, h⟩
  · have hf := h.follows i
    cases hp : (a.place i).pos with
    | idle =>
      simp only [Follows, hp] at hf
      rw [returned_toWaiters, if_pos hp]
      omega
    | load | arrive cycle =>
      simp only [Follows, hp] at hf
      exact hof (by rw [hp]; nofun) (by omega)
    | reset | reread | flip v =>
      simp only [Follows, hp] at hf
    | spin cycle waitcnt | check cycle waitcnt | yield cycle =>
      simp only [Follows, hp] at hf
      exact hof (by rw [hp]; nofun) (by omega)
  · rcases eq_or_ne i l with rfl | hne
    · refine hof (fun hidle => ?_) (Or.inr h.leader_entered)
      rcases h.leader_pos with hp | ⟨hp | hp, -⟩ <;> rw [hidle] at hp <;> cases hp
    · obtain ⟨hsaved, he, -⟩ := h.others i hne
      refine hof (fun hidle => ?_) (Or.inr he)
      rw [hidle] at hsaved
      cases hsaved

/-! ### The position of a program -/

/-- A turn of a loop, if there is one to make. -/
def turned : Prog barrierSig Unit → Prog barrierSig Unit
  | .loop body x k => Prog.unroll body x k
  | p => p

/-- The program is in a loop that goes on if its next read of `cycle` yields `current`. -/
def goesOn (p : Prog barrierSig Unit) (current : BitVec 32) : Bool :=
  let p := match p with
    | .call .threadYield k => k ()
    | p => p
  match turned p with
  | .call .loadCycle k => match k current with
    | .loop .. => true
    | .call .threadYield _ => true
    | _ => false
  | _ => false

/-- **The loop goes on exactly on the saved value.** -/
theorem goesOn_prog (max current : BitVec 32) (p : Pos) :
    goesOn (p.prog max) current = true ↔ p.saved? = some current := by
  have hloop : ∀ cycle waitcnt,
      goesOn (Prog.unroll (spinBody cycle) waitcnt .ret) current = true ↔ cycle = current := by
    intro cycle waitcnt
    have hnext : goesOn (Prog.unroll (spinBody cycle) waitcnt .ret) current =
        match (Pos.prog max (if cycle = current then
            if waitcnt = 0x400 then .yield cycle else .spin cycle (waitcnt + 1)
          else .idle)) with
        | .loop .. => true
        | .call .threadYield _ => true
        | _ => false := by
      rw [← check_next]
      rfl
    rw [hnext]
    by_cases hc : cycle = current
    · rw [if_pos hc]
      refine iff_of_true ?_ hc
      by_cases hw : waitcnt = 0x400
      · rw [if_pos hw]
        rfl
      · rw [if_neg hw]
        rfl
    · rw [if_neg hc]
      exact iff_of_false nofun hc
  cases p with
  | spin cycle waitcnt => exact (hloop cycle waitcnt).trans (Option.some_inj).symm
  | check cycle waitcnt => exact (hloop cycle waitcnt).trans (Option.some_inj).symm
  | yield cycle => exact (hloop cycle (0 + 1)).trans (Option.some_inj).symm
  | _ => exact iff_of_false nofun nofun

/-- A thread that spins on a value is at a position of the spin loop with this value. -/
theorem saved?_of_spinsOn {a : Places N} {i : Fin N} {cycle : BitVec 32}
    (h : (a.toWaiters.thread i).SpinsOn (BitVec.ofNat 32 N) cycle) :
    (a.place i).pos.saved? = some cycle := by
  obtain ⟨p, hsaved, hprog⟩ := h
  rw [← goesOn_prog (BitVec.ofNat 32 N)] at hsaved ⊢
  rwa [← hprog] at hsaved

/-- **Not all threads spin on the value of `cycle`.** -/
theorem Inv.not_all_spin {a : Places N} (h : Inv a)
    (hall : ∀ i, (a.place i).pos.saved? = some a.cycle) : False := by
  obtain ⟨R, h | ⟨l, h⟩⟩ := h
  · have harrived : a.arrivals (R + 1) = Finset.univ := by
      refine Finset.filter_true_of_mem fun i _ => ?_
      have hf := h.follows i
      have hi := hall i
      rw [h.cycle_eq] at hi
      cases hp : (a.place i).pos with
      | idle | load | arrive cycle | reset | reread | flip v =>
        rw [hp] at hi
        cases hi
      | spin cycle waitcnt | check cycle waitcnt | yield cycle =>
        rw [hp] at hi
        obtain rfl : cycle = parity R := Option.some.inj hi
        simp only [Follows, hp] at hf
        rcases hf with ⟨-, -, ha⟩ | ⟨hne, -⟩
        · exact ha
        · exact absurd rfl hne
    have hmissing := h.missing
    rw [harrived, Finset.card_univ, Fintype.card_fin] at hmissing
    exact lt_irrefl N hmissing
  · have hl := hall l
    rcases h.leader_pos with hp | ⟨hp | hp, -⟩ <;> rw [hp] at hl <;> cases hl

/-- **Each wait that a thread has returned from has had one leader.** -/
theorem Inv.exists_leader {a : Places N} (h : Inv a) {k : ℕ} (hk : 1 ≤ k) {i : Fin N}
    (hi : k ≤ (a.toWaiters.thread i).returned) :
    ∃ l, a.leaders.filter (fun e => e.2 = k) = [(l, k)] := by
  obtain ⟨R, h⟩ := h
  have hkR : k ≤ R := hi.trans (h.bounds i).2.1
  obtain ⟨m, hm, hleaders⟩ : ∃ m, k ≤ m ∧ a.leaders.map Prod.snd = List.range' 1 m := by
    rcases h with h | ⟨l, h⟩
    · exact ⟨R, hkR, h.leaders_eq⟩
    · exact ⟨R + 1, by omega, h.leaders_eq⟩
  have hcount : (List.range' 1 m).count k = 1 :=
    List.count_eq_one_of_mem List.nodup_range' (List.mem_range'_1.mpr ⟨hk, by omega⟩)
  have hfilter : (a.leaders.filter fun e => e.2 = k).map Prod.snd = [k] := by
    calc (a.leaders.filter fun e => e.2 = k).map Prod.snd
        = (a.leaders.map Prod.snd).filter fun w => w = k := by
          rw [List.filter_map]
          rfl
      _ = List.replicate ((List.range' 1 m).count k) k := by rw [hleaders, List.filter_eq]
      _ = [k] := by rw [hcount, List.replicate_one]
  obtain ⟨⟨l, w⟩, hl, hw⟩ := List.map_eq_singleton_iff.mp hfilter
  obtain rfl : w = k := hw
  exact ⟨l, hl⟩

/-- **The first thread to arrive finds the counter reset.** -/
theorem Inv.counter_eq_zero {a : Places N} (h : Inv a) {i : Fin N} {cycle : BitVec 32}
    (hp : (a.place i).pos = .arrive cycle)
    (hfirst : ∀ j, (a.place j).arrived < (a.place i).entered) : a.counter = 0 := by
  obtain ⟨R, h | ⟨l, h⟩⟩ := h
  · have hf := h.follows i
    simp only [Follows, hp] at hf
    have hnone : a.arrivals (R + 1) = ∅ := by
      rw [arrivals, Finset.filter_eq_empty_iff]
      intro j _
      have hj := hfirst j
      omega
    rw [← BitVec.toNat_inj, h.counter_eq, hnone]
    rfl
  · rcases eq_or_ne i l with rfl | hne
    · rcases h.leader_pos with hl | ⟨hl | hl, -⟩ <;> rw [hp] at hl <;> cases hl
    · have hsaved := (h.others i hne).1
      rw [hp] at hsaved
      cases hsaved

end Places

/-! ### The barrier in all interleavings -/

section Interleavings

variable {N : ℕ} {s : Waiters N}

/-- **The barrier is safe, for any number of rounds**: a thread has returned from its `k`-th wait
only if all threads have entered theirs, and no thread is more than one wait ahead of
another. -/
theorem returned_le_entered (hN : 0 < N) (hN' : N < 2 ^ 32) (hs : s.Reachable) :
    (∀ k i j, k ≤ (s.thread i).returned → k ≤ (s.thread j).entered) ∧
      ∀ i j, (s.thread i).returned ≤ (s.thread j).returned + 1 := by
  obtain ⟨a, rfl, ha⟩ := Places.exists_inv_of_reachable hN hN' hs
  obtain ⟨R, h⟩ := ha
  refine ⟨fun k i j hk => ?_, fun i j => ?_⟩
  · exact (hk.trans (h.bounds i).2.1).trans (h.bounds j).1
  · exact (h.bounds i).2.1.trans (h.bounds j).2.2

/-- One thread has returned, and the other has still to see the flip. -/
theorem returned_le_entered_two :
    ((Waiters.run [1, 1, 1, 0, 0, 0, 0, 0, 0] : Waiters 2).thread 0).returned = 1 ∧
      ∀ j, 1 ≤ ((Waiters.run [1, 1, 1, 0, 0, 0, 0, 0, 0] : Waiters 2).thread j).entered := by
  have hone : ((Waiters.run [1, 1, 1, 0, 0, 0, 0, 0, 0] : Waiters 2).thread 0).returned = 1 := rfl
  refine ⟨hone, fun j => ?_⟩
  have hsafe := returned_le_entered (by decide) (by decide)
    (Waiters.reachable_run ([1, 1, 1, 0, 0, 0, 0, 0, 0] : List (Fin 2)))
  exact hsafe.1 1 0 j hone.ge

/-- **The barrier loses no wake-up**: never do all threads spin on the value that
`cycle` has, each wait that a thread has returned from has had exactly one thread whose
fetch-and-add returned `max - 1`, and the first thread to do the fetch-and-add of a wait finds
the counter at `0`. -/
theorem no_lost_wakeup (hN : 0 < N) (hN' : N < 2 ^ 32) (hs : s.Reachable) :
    (¬∀ i, (s.thread i).SpinsOn s.barrier.max s.barrier.cycle) ∧
      (∀ k ≥ 1, (∃ i, k ≤ (s.thread i).returned) →
        ∃ l, s.leaders.filter (fun e => e.2 = k) = [(l, k)]) ∧
      ∀ i v k, (s.thread i).prog = .call (BarrierCall.fetchAndAdd v) k →
        (∀ j, (s.thread j).arrived < (s.thread i).entered) → s.barrier.counter = 0 := by
  obtain ⟨a, rfl, ha⟩ := Places.exists_inv_of_reachable hN hN' hs
  refine ⟨fun hall => ha.not_all_spin fun i => Places.saved?_of_spinsOn (hall i), ?_, ?_⟩
  · rintro k hk ⟨i, hi⟩
    exact ha.exists_leader hk hi
  · intro i v k hcall hfirst
    obtain ⟨cycle, hp⟩ : ∃ cycle, (a.place i).pos = .arrive cycle := by
      have hprog : (a.place i).pos.prog (BitVec.ofNat 32 N) = .call (.fetchAndAdd v) k := hcall
      cases hp : (a.place i).pos with
      | arrive cycle => exact ⟨cycle, rfl⟩
      | _ =>
        rw [hp] at hprog
        cases hprog
    exact ha.counter_eq_zero hp hfirst

/-- The second of two threads has led the first wait. -/
theorem no_lost_wakeup_two :
    ∃ l, (Waiters.run [1, 1, 1, 0, 0, 0, 0, 0, 0] : Waiters 2).leaders.filter
      (fun e => e.2 = 1) = [(l, 1)] := by
  have hwake := no_lost_wakeup (by decide) (by decide)
    (Waiters.reachable_run ([1, 1, 1, 0, 0, 0, 0, 0, 0] : List (Fin 2)))
  exact hwake.2.1 1 le_rfl ⟨0, le_rfl⟩

end Interleavings

end Barrelfish

end VmopsBench

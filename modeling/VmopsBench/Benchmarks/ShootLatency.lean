import VmopsBench.Benchmarks.ClockedRuns
import VmopsBench.Interact.Turns

/-!
# What the shootdown benchmark times

Thread 0 of the shootdown benchmark maps and unmaps, and it is the unmapping that interrupts the
other cores. Its loop sets `t_op_start` between the two calls, but sets it to `t_current`, and that
was read at the end of the turn before. So the latency of an operation is the time that both calls
have taken.

Here the calls take the time that they take (`VmopsBench.timing`), and everything else takes none.
By `VmopsBench.TlbShoot.timesUnmaps_iff` the latencies are those of the unmapping calls exactly if
the mapping calls take no time.
-/

namespace VmopsBench

open Interact

/-! ### Calls that take time -/

/-- The time, and how often there has been a mapping and an unmapping call. -/
structure Stopwatch where
  now : PlatTime
  maps : ℕ
  unmaps : ℕ

/-- A call takes its time. -/
def Stopwatch.after (m u : ℕ → PlatTime) (g : Stopwatch) : ThreadCall → Stopwatch
  | .vmMap .. | .vmMapFixed .. => { g with now := g.now + m g.maps, maps := g.maps + 1 }
  | .vmUnmap .. => { g with now := g.now + u g.unmaps, unmaps := g.unmaps + 1 }
  | _ => g

/-- **The `k`-th mapping call takes the time `m k`, and the `k`-th unmapping call `u k`.** No call
fails, and no other call takes any time. -/
def timing (m u : ℕ → PlatTime) : Spec threadSig Stopwatch where
  pre _ _ := True
  env g c r := c.fails r = false ∧ c.readsOff (fun _ => g.now) 0 r
  upd g c _ := g.after m u c

/-- What a thread reads off the clock after `k` operations, the first mapping call being the one
before the start barrier. -/
def readingAfter (m u : ℕ → PlatTime) (start : PlatTime) : ℕ → PlatTime
  | 0 => start + m 0
  | k + 1 => readingAfter m u start k + m (k + 1) + u k

/-- The latency that a turn hands to the sampler: `t_current - t_op_start`. -/
def LoopState.latency {ξ : Type} (s s' : LoopState ξ) : PlatTime := s'.tCurrent - s.tCurrent

/-- **What a turn does**, whatever its operation is. -/
theorem exists_next_of_run {ξ : Type} {tid : BitVec 32} {sampling : Sampling} {tStart : PlatTime}
    {op : ξ → Prog threadSig (Except ξ ξ)} {s s' : LoopState ξ} {tr : List (Event threadSig)}
    (hrun : Run (timedTurn tid sampling tStart op s) tr (.ret (.ok s'))) :
    ∃ t vars, s' = s.next tid sampling tStart t vars := by
  have hturn : wp (recording threadSig) (timedTurn tid sampling tStart op s)
      (fun o _ => ∀ s', o = .ok s' → ∃ t vars, s' = s.next tid sampling tStart t vars) [] := by
    refine (wp_bind _ _).mpr (wp_mono _ (fun o g _ => ?_) (wp_recording_extends _ _))
    cases o with
    | error v =>
      intro s' heq
      cases heq
    | ok v =>
      refine wp_recording_call fun t s' heq => ?_
      cases heq
      exact ⟨t, v, rfl⟩
  exact of_run hrun hturn s' rfl

namespace TlbShoot

/-! ### The operations of thread 0 -/

/-- The variables of the timed loop before its first turn. -/
def shootStart (arg : VmopsBenchRunArg) (tStart : PlatTime) : LoopState Unit :=
  { tCurrent := tStart, counter := 0, stats := arg.stats, vars := () }

/-- **A head of the timed loop** of thread 0, with `k` turns behind it. -/
def AtShootHead (arg : VmopsBenchRunArg) (tStart : PlatTime) (k : ℕ) (tr : List (Event threadSig))
    (s : LoopState Unit) : Prop :=
  arg.tid = 0 ∧ ∃ taddr turns, Turns
      (LoopState.running (deadline (timeLimit arg.cfg) tStart) (opsLimit sizeMax arg.cfg))
      (timedTurn arg.tid .beforeIncrement tStart (shootOp arg)) (shootStart arg tStart) k turns s ∧
    tr = [⟨ThreadCall.readThread, ()⟩,
      ⟨ThreadCall.vmMap arg.cfg.memsize arg.memobj 0 arg.cfg.maphuge, some taddr⟩,
      passes .start, reads tStart] ++ turns

/-- **The `k`-th operation** of thread 0, at the end of the calls of `tr`. -/
structure Shoots (arg : VmopsBenchRunArg) (tStart : PlatTime) (k : ℕ) (tr : List (Event threadSig))
    (s s' : LoopState Unit) : Prop where
  running : s.running (deadline (timeLimit arg.cfg) tStart) (opsLimit sizeMax arg.cfg) = true
  exists_turn : ∃ before turn, AtShootHead arg tStart k before s ∧
    Run (timedTurn arg.tid .beforeIncrement tStart (shootOp arg) s) turn (.ret (.ok s')) ∧
    tr = before ++ turn

section Shoots

variable {arg : VmopsBenchRunArg} {tStart : PlatTime} {k : ℕ} {tr : List (Event threadSig)}
  {s s' : LoopState Unit}

/-- A head is a place in a run of the function. -/
theorem AtShootHead.run (h : AtShootHead arg tStart k tr s) :
    ∃ f, Run (platThreadRunFn .tlbshoot arg) tr (timedLoop arg.tid .beforeIncrement tStart
      (deadline (timeLimit arg.cfg) tStart) (opsLimit sizeMax arg.cfg) (shootOp arg) s >>= f) := by
  obtain ⟨htid, taddr, turns, hturns, rfl⟩ := h
  constructor
  iterate 4 refine Run.perform_bind _ ?_
  rw [if_neg (not_not.mpr htid)]
  exact hturns.run.bind_left _

/-- **The sample of the operation** has this latency. -/
theorem Shoots.stats_eq (h : Shoots arg tStart k tr s s') :
    s'.stats = vmopsUtilsAddStats s.stats arg.tid s.counter (s'.tCurrent - tStart)
      (s.latency s') := by
  obtain ⟨before, turn, -, hrun, -⟩ := h.exists_turn
  obtain ⟨t, vars, rfl⟩ := exists_next_of_run hrun
  rfl

end Shoots

/-! ### The readings -/

section Timing

variable {arg : VmopsBenchRunArg} {m u : ℕ → PlatTime} {start : PlatTime} {k : ℕ}
  {s s' : LoopState Unit}

/-- The stopwatch after `k` operations. -/
def stopwatch (m u : ℕ → PlatTime) (start : PlatTime) (k : ℕ) : Stopwatch :=
  ⟨readingAfter m u start k, k + 1, k⟩

/-- **What holds at a head**: the readings are the ones foretold, and the test has always
succeeded. -/
structure Timed (arg : VmopsBenchRunArg) (m u : ℕ → PlatTime) (start : PlatTime) (k : ℕ)
    (s : LoopState Unit) (g : Stopwatch) : Prop extends
    AfterTurns arg .beforeIncrement (readingAfter m u start) k s where
  watch_eq : g = stopwatch m u start k
  goesOn : ∀ j < k, goesOn sizeMax arg.cfg (readingAfter m u start) j = true

theorem Timed.le_turnsMade {g : Stopwatch} (h : Timed arg m u start k s g) :
    k ≤ turnsMade sizeMax arg.cfg (readingAfter m u start) := by
  by_contra hlt
  have hgoes := h.goesOn _ (Nat.lt_of_not_le hlt)
  exact Bool.noConfusion (hgoes.symm.trans (not_goesOn_turnsMade _ _ _))

/-- An operation takes the time of its two calls. -/
theorem wp_shootOp {v : Unit} {g : Stopwatch} : wp (timing m u) (shootOp arg v)
    (onExcept (fun _ _ => True) fun _ g' =>
      g' = ⟨g.now + m g.maps + u g.unmaps, g.maps + 1, g.unmaps + 1⟩) g := by
  rw [shootOp, MapUnmap.mapUnmapOp]
  split
  · refine wp_perform_bind.mpr ⟨trivial, fun ok _ => ?_⟩
    cases ok with
    | false => trivial
    | true =>
      refine wp_perform_bind.mpr ⟨trivial, fun ok _ => ?_⟩
      cases ok with
      | false => trivial
      | true => rfl
  · refine wp_perform_bind.mpr ⟨trivial, fun addr _ => ?_⟩
    cases addr with
    | none => trivial
    | some addr =>
      refine wp_perform_bind.mpr ⟨trivial, fun ok _ => ?_⟩
      cases ok with
      | false => trivial
      | true => rfl

/-- **One turn.** -/
theorem Timed.wp_turn {g : Stopwatch} (h : Timed arg m u start k s g)
    (hrunning : s.running (deadline (timeLimit arg.cfg) (readingAfter m u start 0))
      (opsLimit sizeMax arg.cfg) = true) :
    wp (timing m u) (timedTurn arg.tid .beforeIncrement (readingAfter m u start 0) (shootOp arg) s)
      (onExcept (fun _ _ => True) (Timed arg m u start (k + 1))) g := by
  have hgoes := (h.running_eq h.le_turnsMade).symm.trans hrunning
  refine (wp_bind _ _).mpr (wp_mono _ (fun o g' ho => ?_) wp_shootOp)
  cases o with
  | error v => trivial
  | ok v =>
    refine wp_perform_bind.mpr ⟨trivial, fun t henv => ?_⟩
    have ht : t = g'.now := henv.2
    have hg' : g' = stopwatch m u start (k + 1) := by
      rw [show g' = _ from ho, h.watch_eq]
      rfl
    rw [hg'] at ht
    obtain rfl : t = readingAfter m u start (k + 1) := ht
    refine ⟨h.toAfterTurns.next v, hg', fun j hj => ?_⟩
    rcases Nat.lt_succ_iff_lt_or_eq.mp hj with hlt | rfl
    · exact h.goesOn j hlt
    · exact hgoes

theorem timed_start (arg : VmopsBenchRunArg) (m u : ℕ → PlatTime) (start : PlatTime) :
    Timed arg m u start 0 (shootStart arg (readingAfter m u start 0)) (stopwatch m u start 0) :=
  ⟨⟨rfl, rfl, rfl⟩, rfl, fun _ hj => absurd hj (Nat.not_lt_zero _)⟩

theorem timed_atHead {tStart : PlatTime} {tr : List (Event threadSig)}
    (h : AtShootHead arg tStart k tr s) (henv : (timing m u).Admits ⟨start, 0, 0⟩ tr) :
    tStart = readingAfter m u start 0 ∧
      Timed arg m u start k s ((timing m u).after ⟨start, 0, 0⟩ tr) := by
  obtain ⟨-, taddr, turns, hturns, rfl⟩ := h
  obtain ⟨hbefore, hloop⟩ := Spec.admits_append_iff.mp henv
  obtain rfl : tStart = readingAfter m u start 0 := hbefore.2.2.2.1.2
  rw [Spec.after_append]
  exact ⟨rfl, hturns.invariant (fun _ _ _ hs hcond => hs.wp_turn hcond)
    (timed_start arg m u start) hloop⟩

/-- **The latency is the time of both calls.** -/
theorem Shoots.latency_eq {tStart : PlatTime} {tr : List (Event threadSig)}
    (h : Shoots arg tStart k tr s s') (henv : (timing m u).Admits ⟨start, 0, 0⟩ tr) :
    s.latency s' = m (k + 1) + u k ∧
      k < turnsMade sizeMax arg.cfg (readingAfter m u start) := by
  obtain ⟨hrunning, before, turn, hhead, hrun, rfl⟩ := h
  obtain ⟨hbefore, hturn⟩ := Spec.admits_append_iff.mp henv
  obtain ⟨rfl, htimed⟩ := timed_atHead hhead hbefore
  have hnext : Timed arg m u start (k + 1) s' _ := (wp_run hrun (htimed.wp_turn hrunning) hturn).2
  refine ⟨?_, hnext.le_turnsMade⟩
  -- the latency is counted from the reading at the end of the turn before
  rw [LoopState.latency, hnext.tCurrent_eq, htimed.tCurrent_eq, readingAfter, BitVec.add_assoc]
  exact add_sub_cancel_left _ _

/-- An operation that succeeds. -/
theorem exists_run_shootOp (arg : VmopsBenchRunArg) (m u : ℕ → PlatTime) :
    ∃ tr, Run (shootOp arg ()) tr (.ret (.ok ())) ∧ ∀ g, (timing m u).Admits g tr := by
  let unmap := fun addr => (⟨ThreadCall.vmUnmap addr arg.cfg.memsize, true⟩ : Event threadSig)
  rw [shootOp, MapUnmap.mapUnmapOp]
  split
  · let addr := utilsVmopsGetMapAddress arg.tid
    refine ⟨[⟨ThreadCall.vmMapFixed addr arg.cfg.memsize arg.memobj 0 arg.cfg.maphuge, true⟩,
      unmap addr], ?_, fun g => ⟨⟨rfl, trivial⟩, ⟨rfl, trivial⟩, trivial⟩⟩
    iterate 2 refine Run.call _ ?_
    exact .nil _
  · refine ⟨[⟨ThreadCall.vmMap arg.cfg.memsize arg.memobj 0 arg.cfg.maphuge, some 0⟩, unmap 0], ?_,
      fun g => ⟨⟨rfl, trivial⟩, ⟨rfl, trivial⟩, trivial⟩⟩
    iterate 2 refine Run.call _ ?_
    exact .nil _

/-- A turn with these times. -/
theorem exists_turn (arg : VmopsBenchRunArg) (m u : ℕ → PlatTime) (tStart : PlatTime)
    (s : LoopState Unit) (g : Stopwatch) : ∃ tr s',
    Run (timedTurn arg.tid .beforeIncrement tStart (shootOp arg) s) tr (.ret (.ok s')) ∧
      (timing m u).Admits g tr := by
  obtain ⟨tr, hrun, henv⟩ := exists_run_shootOp arg m u
  refine ⟨_, _, run_timedTurn hrun arg.tid .beforeIncrement tStart
    ((timing m u).after g tr).now, Spec.admits_append (henv g) ?_⟩
  exact ⟨⟨rfl, rfl⟩, trivial⟩

/-- **As many operations are made** as the readings leave time for. -/
theorem exists_shoots (htid : arg.tid = 0)
    (hk : k < turnsMade sizeMax arg.cfg (readingAfter m u start)) :
    ∃ tr s s', Shoots arg (readingAfter m u start 0) k tr s s' ∧
      (timing m u).Admits ⟨start, 0, 0⟩ tr := by
  -- the turns before it, one after the other
  have hhead : ∀ j ≤ k, ∃ tr s, AtShootHead arg (readingAfter m u start 0) j tr s ∧
      (timing m u).Admits ⟨start, 0, 0⟩ tr := by
    intro j hj
    induction j with
    | zero =>
      refine ⟨_, _, ⟨htid, 0, [], .zero, rfl⟩, ?_⟩
      exact ⟨⟨rfl, trivial⟩, ⟨rfl, trivial⟩, ⟨rfl, trivial⟩, ⟨rfl, rfl⟩, trivial⟩
    | succ j ih =>
      obtain ⟨tr, s, hhead, henv⟩ := ih (Nat.le_of_succ_le hj)
      obtain ⟨-, htimed⟩ := timed_atHead hhead henv
      obtain ⟨-, taddr, turns, hturns, rfl⟩ := hhead
      have hrunning := (htimed.running_eq htimed.le_turnsMade).trans (goesOn_of_lt (by omega))
      obtain ⟨turn, s', hturn, hadmits⟩ := exists_turn arg m u (readingAfter m u start 0) s _
      refine ⟨_, s', ⟨htid, taddr, _, hturns.succ hrunning hturn, rfl⟩, ?_⟩
      rw [← List.append_assoc]
      exact Spec.admits_append henv hadmits
  obtain ⟨before, s, hhead, henv⟩ := hhead k le_rfl
  obtain ⟨-, htimed⟩ := timed_atHead hhead henv
  have hrunning := (htimed.running_eq htimed.le_turnsMade).trans (goesOn_of_lt hk)
  obtain ⟨turn, s', hturn, hadmits⟩ := exists_turn arg m u (readingAfter m u start 0) s _
  exact ⟨_, s, s', ⟨hrunning, before, turn, hhead, hturn, rfl⟩, Spec.admits_append henv hadmits⟩

end Timing

/-- **The latencies are the times of the unmapping calls**, in every run with these times. -/
def TimesUnmaps (arg : VmopsBenchRunArg) (m u : ℕ → PlatTime) (start : PlatTime) : Prop :=
  ∀ tStart k tr s s', Shoots arg tStart k tr s s' → (timing m u).Admits ⟨start, 0, 0⟩ tr →
    s.latency s' = u k

/-- **When the latencies are the times of the unmapping calls**: when the mapping calls of the
operations take no time. -/
theorem timesUnmaps_iff {arg : VmopsBenchRunArg} (htid : arg.tid = 0) (m u : ℕ → PlatTime)
    (start : PlatTime) : TimesUnmaps arg m u start ↔
      ∀ k < turnsMade sizeMax arg.cfg (readingAfter m u start), m (k + 1) = 0 := by
  constructor
  · intro htimes k hk
    obtain ⟨tr, s, s', hshoots, henv⟩ := exists_shoots htid hk
    have hlatency := htimes _ k tr s s' hshoots henv
    rw [(hshoots.latency_eq henv).1] at hlatency
    exact add_eq_right.mp hlatency
  · intro hzero tStart k tr s s' hshoots henv
    obtain ⟨hlatency, hk⟩ := hshoots.latency_eq henv
    rw [hlatency, hzero k hk, zero_add]

/-- Mapping calls that take no time. -/
theorem timesUnmaps_instant : TimesUnmaps (fillArg oneThread 1 0) (fun _ => 0) (fun _ => 1) 0 :=
  (timesUnmaps_iff rfl _ _ _).mpr fun _ _ => rfl

/-- All calls take a nanosecond, and the latency of the only operation is two of them. -/
theorem not_timesUnmaps_nanosecond :
    ¬TimesUnmaps (fillArg oneThread 1 0) (fun _ => 1) (fun _ => 1) 0 := by
  intro htimes
  have hpos : 0 < turnsMade sizeMax oneThread (readingAfter (fun _ => 1) (fun _ => 1) 0) :=
    turnsMade_pos (by decide)
  have htid : (fillArg oneThread 1 0).tid = 0 := rfl
  obtain ⟨tr, s, s', hshoots, henv⟩ := exists_shoots htid hpos
  have hlatency := htimes _ 0 tr s s' hshoots henv
  rw [(hshoots.latency_eq henv).1] at hlatency
  exact absurd hlatency (by decide)

end TlbShoot

end VmopsBench

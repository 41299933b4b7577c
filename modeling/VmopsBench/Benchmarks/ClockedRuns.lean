import VmopsBench.Interact.Total
import VmopsBench.Benchmarks.Durations
import VmopsBench.Benchmarks.Sampler

/-!
# The timed loop, given the clock readings

A benchmark thread none of whose calls fails has only one source of surprises left, the clock. With
the readings given in advance (`VmopsBench.clocked`), the number of turns of its timed loop is
known (`VmopsBench.turnsMade`), and so is everything that it has handed to the sampler
(`VmopsBench.Sampling.calls`).

`VmopsBench.launches` is that fact for all run functions: whatever has passed the start barrier
comes to its end, with these turns counted and these calls sampled. What a function does before the
start barrier need not end (the mapping loop of `protectelevate.c` goes round forever if its
counter wraps), which is why the statement begins there.
-/

namespace VmopsBench

open Interact

/-! ### Readings given in advance -/

/-- A call is answered with the reading whose turn it is, if it reads the clock. -/
def ThreadCall.readsOff (t : ℕ → PlatTime) (g : ℕ) : (c : ThreadCall) → c.Resp → Prop
  | .getTime, r => r = t g
  | _, _ => True

/-- The number of readings after a call. -/
def ThreadCall.readingsAfter (g : ℕ) : ThreadCall → ℕ
  | .getTime => g + 1
  | _ => g

/-- **No call fails, and the clock is read off `t`**, the ghost state being the number of
readings. -/
def clocked (t : ℕ → PlatTime) : Spec threadSig ℕ where
  pre _ _ := True
  env g c r := c.fails r = false ∧ c.readsOff t g r
  upd g c _ := c.readingsAfter g

/-! ### The turns -/

/-- The test of the timed loop after `k` turns. -/
def goesOn (dflt : SizeT) (cfg : VmopsBenchCfg) (t : ℕ → PlatTime) (k : ℕ) : Bool :=
  decide (t k < deadline (timeLimit cfg) (t 0)) && decide (k < (opsLimit dflt cfg).toNat)

theorem exists_not_goesOn (dflt : SizeT) (cfg : VmopsBenchCfg) (t : ℕ → PlatTime) :
    ∃ k, goesOn dflt cfg t k = false :=
  ⟨(opsLimit dflt cfg).toNat, by simp [goesOn]⟩

/-- **The number of turns.** -/
def turnsMade (dflt : SizeT) (cfg : VmopsBenchCfg) (t : ℕ → PlatTime) : ℕ :=
  Nat.find (exists_not_goesOn dflt cfg t)

section Turns

variable {dflt : SizeT} {cfg : VmopsBenchCfg} {t : ℕ → PlatTime} {k : ℕ}

theorem goesOn_of_lt (h : k < turnsMade dflt cfg t) : goesOn dflt cfg t k = true :=
  Bool.not_eq_false _ ▸ Nat.find_min (exists_not_goesOn dflt cfg t) h

theorem not_goesOn_turnsMade (dflt : SizeT) (cfg : VmopsBenchCfg) (t : ℕ → PlatTime) :
    goesOn dflt cfg t (turnsMade dflt cfg t) = false :=
  Nat.find_spec (exists_not_goesOn dflt cfg t)

theorem turnsMade_pos (h : goesOn dflt cfg t 0 = true) : 0 < turnsMade dflt cfg t := by
  refine Nat.pos_of_ne_zero fun hzero => ?_
  have hstop := not_goesOn_turnsMade dflt cfg t
  rw [hzero, h] at hstop
  cases hstop

theorem turnsMade_le (dflt : SizeT) (cfg : VmopsBenchCfg) (t : ℕ → PlatTime) :
    turnsMade dflt cfg t ≤ (opsLimit dflt cfg).toNat :=
  Nat.find_min' _ (by simp [goesOn])

theorem turnsMade_lt (dflt : SizeT) (cfg : VmopsBenchCfg) (t : ℕ → PlatTime) :
    turnsMade dflt cfg t < 2 ^ 64 :=
  (turnsMade_le dflt cfg t).trans_lt (opsLimit dflt cfg).isLt

end Turns

/-! ### What the sampler is handed -/

/-- The counter that goes with the sample of the `k`-th turn. -/
def Sampling.counter (sampling : Sampling) (k : ℕ) : SizeT :=
  match sampling with
  | .never | .beforeIncrement => BitVec.ofNat 64 k
  | .afterIncrement => BitVec.ofNat 64 k + 1

/-- The record that the sampler is handed in the `k`-th turn. -/
def Sampling.call (sampling : Sampling) (tid : BitVec 32) (t : ℕ → PlatTime) (k : ℕ) : StatVal :=
  ⟨tid, t (k + 1) - t 0, sampling.counter k, t (k + 1) - t k⟩

/-- **The calls of the sampler** in the first `n` turns. -/
def Sampling.calls (sampling : Sampling) (tid : BitVec 32) (t : ℕ → PlatTime) (n : ℕ) :
    List StatVal :=
  match sampling with
  | .never => []
  | .beforeIncrement | .afterIncrement => (List.range n).map (sampling.call tid t)

theorem Sampling.addAllStats_calls_succ (sampling : Sampling) (stats : VmopsStats)
    (tid : BitVec 32) (t : ℕ → PlatTime) (k : ℕ) :
    addAllStats stats (sampling.calls tid t (k + 1)) =
      sampling.record (addAllStats stats (sampling.calls tid t k)) tid (BitVec.ofNat 64 k)
        (t (k + 1) - t 0) (t (k + 1) - t k) := by
  cases sampling with
  | never => rfl
  | beforeIncrement | afterIncrement =>
    rw [calls, List.range_succ, List.map_append, List.map_singleton,
      addAllStats_append_singleton]
    rfl

variable {ξ : Type}

/-- **The variables of a timed loop** after `k` turns. -/
structure AfterTurns (arg : VmopsBenchRunArg) (sampling : Sampling) (t : ℕ → PlatTime) (k : ℕ)
    (s : LoopState ξ) : Prop where
  tCurrent_eq : s.tCurrent = t k
  counter_eq : s.counter = BitVec.ofNat 64 k
  stats_eq : s.stats = addAllStats arg.stats (sampling.calls arg.tid t k)

section Loop

variable {arg : VmopsBenchRunArg} {sampling : Sampling} {t : ℕ → PlatTime} {k : ℕ}
  {s : LoopState ξ} {dflt : SizeT} {op : ξ → Prog threadSig (Except ξ ξ)} {vars : ξ}

/-- One more turn. -/
theorem AfterTurns.next (h : AfterTurns arg sampling t k s) (vars : ξ) :
    AfterTurns arg sampling t (k + 1) (s.next arg.tid sampling (t 0) (t (k + 1)) vars) where
  tCurrent_eq := rfl
  counter_eq := by
    show s.counter + 1 = _
    rw [h.counter_eq, BitVec.ofNat_add]
    rfl
  stats_eq := by
    show sampling.record s.stats arg.tid s.counter (t (k + 1) - t 0) (t (k + 1) - s.tCurrent) = _
    rw [h.stats_eq, h.counter_eq, h.tCurrent_eq, ← sampling.addAllStats_calls_succ]

/-- The test is the one that is made of the readings. -/
theorem AfterTurns.running_eq (h : AfterTurns arg sampling t k s)
    (hk : k ≤ turnsMade dflt arg.cfg t) :
    s.running (deadline (timeLimit arg.cfg) (t 0)) (opsLimit dflt arg.cfg) =
      goesOn dflt arg.cfg t k := by
  have hlt : k < 2 ^ 64 := hk.trans_lt (turnsMade_lt dflt arg.cfg t)
  have hcounter : s.counter < opsLimit dflt arg.cfg ↔ k < (opsLimit dflt arg.cfg).toNat := by
    rw [BitVec.lt_def, h.counter_eq, BitVec.toNat_ofNat, Nat.mod_eq_of_lt hlt]
  rw [LoopState.running, goesOn, h.tCurrent_eq, decide_eq_decide.mpr hcounter]

/-- An operation that succeeds without looking at the clock. -/
def Succeeds (t : ℕ → PlatTime) (op : ξ → Prog threadSig (Except ξ ξ)) : Prop :=
  ∀ v g, Ends (clocked t) (onExcept (fun _ _ => False) fun _ g' => g' = g) (op v) g

/-- **The timed loop ends** after the turns that the readings leave it, and has taken one reading
in each. -/
theorem ends_timedLoop (hop : Succeeds t op) :
    Ends (clocked t) (onExcept (fun _ _ => False) fun s g => g = turnsMade dflt arg.cfg t + 1 ∧
        AfterTurns arg sampling t (turnsMade dflt arg.cfg t) s)
      (timedLoop arg.tid sampling (t 0) (deadline (timeLimit arg.cfg) (t 0))
        (opsLimit dflt arg.cfg) op { tCurrent := t 0, counter := 0, stats := arg.stats, vars })
      1 := by
  refine Ends.whileLoop (fun s g => ∃ k ≤ turnsMade dflt arg.cfg t, g = k + 1 ∧
      AfterTurns arg sampling t k s) (fun _ g => turnsMade dflt arg.cfg t + 1 - g) ?_ ?_ ?_
  · -- a turn: the operation, and then the reading that comes next
    rintro s - ⟨k, hk, rfl, hs⟩ hrunning
    rw [hs.running_eq hk] at hrunning
    have hlt : k < turnsMade dflt arg.cfg t := by
      refine lt_of_le_of_ne hk ?_
      rintro rfl
      exact Bool.noConfusion (hrunning.symm.trans (not_goesOn_turnsMade dflt arg.cfg t))
    refine .bind ((hop s.vars (k + 1)).mono fun o g' ho => ?_)
    cases o with
    | error v => exact ho.elim
    | ok v =>
      obtain rfl : g' = k + 1 := ho
      refine .perform trivial fun r henv => .ret ?_
      obtain rfl : r = t (k + 1) := henv.2
      have hmeasure : turnsMade dflt arg.cfg t + 1 - (k + 1 + 1) <
          turnsMade dflt arg.cfg t + 1 - (k + 1) := by omega
      exact ⟨⟨k + 1, hlt, rfl, hs.next v⟩, hmeasure⟩
  · -- the test fails after the last turn, and not before
    rintro s - ⟨k, hk, rfl, hs⟩ hstop
    rw [hs.running_eq hk] at hstop
    have hlast : k = turnsMade dflt arg.cfg t := by
      refine le_antisymm hk (Nat.le_of_not_lt fun hlt => ?_)
      exact Bool.noConfusion ((goesOn_of_lt hlt).symm.trans hstop)
    exact hlast ▸ ⟨rfl, hs⟩
  · refine ⟨0, Nat.zero_le _, rfl, rfl, rfl, ?_⟩
    cases sampling <;> rfl

/-- **What a thread leaves behind** that has come to its end. -/
structure Finished (arg : VmopsBenchRunArg) (dflt : SizeT) (sampling : Sampling)
    (t : ℕ → PlatTime) (r : RunResult) : Prop where
  exit_eq : r.exit = .done
  count_eq : r.arg.count = BitVec.ofNat 64 (turnsMade dflt arg.cfg t)
  stats_eq : r.arg.stats = addAllStats arg.stats
    (sampling.calls arg.tid t (turnsMade dflt arg.cfg t))

/-- **What it leaves behind**, with the duration: from the first reading to the one after the
loop. -/
structure Timed (arg : VmopsBenchRunArg) (dflt : SizeT) (sampling : Sampling)
    (t : ℕ → PlatTime) (r : RunResult) : Prop extends Finished arg dflt sampling t r where
  duration_eq : r.arg.duration = platTimeToMs (t (turnsMade dflt arg.cfg t + 1) - t 0)

/-- What the loop leaves behind is stored. -/
theorem AfterTurns.timed (h : AfterTurns arg sampling t (turnsMade dflt arg.cfg t) s) :
    Timed arg dflt sampling t
      ⟨.done, arg.completed s (t 0) (t (turnsMade dflt arg.cfg t + 1))⟩ :=
  ⟨⟨rfl, h.counter_eq, h.stats_eq⟩, rfl⟩

/-- **The skeleton with two barriers.** -/
theorem ends_timedRun {onError : ξ → Prog threadSig Unit} (hop : Succeeds t op) :
    Ends (clocked t) (fun r _ => Timed arg dflt sampling t r)
      (timedRun arg dflt sampling op onError vars) 0 := by
  refine .perform trivial fun _ _ => .perform trivial fun tCurrent henv => ?_
  obtain rfl : tCurrent = t 0 := henv.2
  refine .bind ((ends_timedLoop hop).mono fun o g ho => ?_)
  cases o with
  | error s => exact ho.elim
  | ok s =>
    obtain ⟨rfl, ho⟩ := ho
    refine .perform trivial fun tEnd henv => .perform trivial fun _ _ => .ret ?_
    obtain rfl : tEnd = t _ := henv.2
    exact ho.timed

/-- **The cleanup of the 4k functions.** -/
theorem ends_cleanupAndExit {addrs : ℕ → Addr} {exit : Exit} {g : ℕ} :
    Ends (clocked t) (fun r _ => r = ⟨exit, arg⟩) (cleanupAndExit arg addrs exit) g := by
  refine .perform trivial fun _ _ => .bind ?_
  refine Ends.forLoop (fun _ _ _ => True) ?_
    (fun _ _ _ => .perform trivial fun _ _ => .perform trivial fun _ _ => .ret rfl) trivial
  intro i _ g _ _
  split
  · exact .perform trivial fun _ _ => .ret trivial
  · exact .ret trivial

end Loop

/-! ### Before the start barrier -/

/-- The specification of what comes before the start barrier: neither that nor the clock. -/
def preparing : Spec threadSig Unit where
  pre _ c := c ≠ .barrier .start ∧ c ≠ .getTime
  env _ _ _ := True
  upd _ _ _ := ()

/-- A call that is neither. -/
theorem preparing_ignores {c : ThreadCall} (h : c ≠ .barrier .start ∧ c ≠ .getTime) :
    preparing.Ignores c := fun _ => ⟨h, fun _ => rfl⟩

/-- The thread has passed the start barrier. -/
def Started (tr : List (Event threadSig)) : Prop := passes .start ∈ tr

/-- **Whatever has passed the start barrier** comes to its end. -/
def Launches (t : ℕ → PlatTime) (Q : RunResult → Prop) (p : Prog threadSig RunResult) : Prop :=
  ∀ tr q, Run p tr q → (clocked t).Admits 0 tr → Started tr →
    Ends (clocked t) (fun r _ => Q r) q ((clocked t).after 0 tr)

section Launches

variable {t : ℕ → PlatTime} {Q : RunResult → Prop} {ξ : Type}

theorem launches_of_ends {p : Prog threadSig RunResult}
    (h : Ends (clocked t) (fun r _ => Q r) p 0) : Launches t Q p :=
  fun _ _ hrun henv _ => h.of_run hrun henv

/-- A run of what comes before the start barrier. -/
theorem not_started_of_preparing {p q : Prog threadSig ξ} {tr : List (Event threadSig)}
    (h : wp preparing p (fun _ _ => True) ()) (hrun : Run p tr q) :
    ¬Started tr ∧ ∀ g, (clocked t).after g tr = g := by
  have hadmits := preparing.admits_of_forall (fun _ _ _ => trivial) () tr
  have hhonours : preparing.Honours () tr := (wp_run hrun h hadmits).1
  refine ⟨fun hstarted => ?_, fun g => ?_⟩
  · obtain ⟨_, hpre⟩ := hhonours.of_mem hstarted
    exact hpre.1 rfl
  · clear hrun hadmits
    induction tr with
    | nil => rfl
    | cons e tr ih =>
      obtain ⟨hpre, hrest⟩ := hhonours
      have hsame : ∀ c : ThreadCall, c ≠ .getTime → c.readingsAfter g = g := by
        intro c hc
        cases c with
        | getTime => exact absurd rfl hc
        | _ => rfl
      show (clocked t).after (e.call.readingsAfter g) tr = g
      rw [hsame e.call hpre.2]
      exact ih hrest

/-- A program without a start barrier. -/
theorem launches_of_preparing {p : Prog threadSig RunResult}
    (h : wp preparing p (fun _ _ => True) ()) : Launches t Q p :=
  fun _ _ hrun _ hstarted => absurd hstarted (not_started_of_preparing (t := t) h hrun).1

/-- **What comes before the start barrier** is of no account. -/
theorem Launches.bind {p : Prog threadSig ξ} {f : ξ → Prog threadSig RunResult}
    (hp : wp preparing p (fun _ _ => True) ()) (hf : ∀ a, Launches t Q (f a)) :
    Launches t Q (p >>= f) := by
  intro tr q hrun henv hstarted
  rcases hrun.of_bind with ⟨p', hfirst, rfl⟩ | ⟨a, tr₁, tr₂, hfirst, hrest, rfl⟩
  · exact absurd hstarted (not_started_of_preparing (t := t) hp hfirst).1
  · obtain ⟨hnot, hafter⟩ := not_started_of_preparing (t := t) hp hfirst
    rw [Spec.after_append, hafter]
    refine hf a tr₂ q hrest ?_ ((List.mem_append.mp hstarted).resolve_left hnot)
    have hadmits := (Spec.admits_append_iff.mp henv).2
    rwa [hafter] at hadmits

end Launches

/-! ### The operations -/

section Operations

variable {t : ℕ → PlatTime} {arg : VmopsBenchRunArg}

/-- The rule of a call that succeeds and is not a reading. -/
theorem ends_call {α : Type} {c : ThreadCall} {f : c.Resp → Prog threadSig α}
    {Q : α → ℕ → Prop} {g : ℕ} (hc : c.readingsAfter g = g)
    (h : ∀ r, c.fails r = false → Ends (clocked t) Q (f r) g) :
    Ends (clocked t) Q (Prog.perform (S := threadSig) c >>= f) g := by
  refine .perform trivial fun r henv => ?_
  show Ends (clocked t) Q (f r) (c.readingsAfter g)
  rw [hc]
  exact h r henv.1

/-- A status that is no error. -/
theorem eq_true_of_not {ok : Bool} (h : (!ok) = false) : ok = true := by
  rwa [Bool.not_eq_eq_eq_not] at h

section Calls

variable {α : Type} {Q : α → ℕ → Prop} {g : ℕ} {addr : Addr} {size offset : SizeT}
  {memobj : PlatMemobj} {huge : Bool}

theorem ends_map {f : Option Addr → Prog threadSig α}
    (h : ∀ addr, Ends (clocked t) Q (f (some addr)) g) :
    Ends (clocked t) Q (platVmMap size memobj offset huge >>= f) g := by
  refine ends_call rfl fun addr haddr => ?_
  cases addr with
  | none => cases haddr
  | some addr => exact h addr

theorem ends_mapFixed {f : Bool → Prog threadSig α} (h : Ends (clocked t) Q (f true) g) :
    Ends (clocked t) Q (platVmMapFixed addr size memobj offset huge >>= f) g := by
  refine ends_call rfl fun ok hok => ?_
  obtain rfl := eq_true_of_not hok
  exact h

theorem ends_unmap {f : Bool → Prog threadSig α} (h : Ends (clocked t) Q (f true) g) :
    Ends (clocked t) Q (platVmUnmap addr size >>= f) g := by
  refine ends_call rfl fun ok hok => ?_
  obtain rfl := eq_true_of_not hok
  exact h

theorem ends_protect {perms : PlatPerm} {f : Bool → Prog threadSig α}
    (h : Ends (clocked t) Q (f true) g) :
    Ends (clocked t) Q (platVmProtect addr size perms >>= f) g := by
  refine ends_call rfl fun ok hok => ?_
  obtain rfl := eq_true_of_not hok
  exact h

end Calls

theorem succeeds_mapUnmapOp : Succeeds t (MapUnmap.mapUnmapOp arg) := by
  intro v g
  rw [MapUnmap.mapUnmapOp]
  split
  · exact ends_mapFixed (ends_unmap (.ret rfl))
  · exact ends_map fun _ => ends_unmap (.ret rfl)

theorem succeeds_mapUnmap4kOp : Succeeds t (MapUnmap.mapUnmap4kOp arg) := by
  intro v g
  refine ends_unmap ?_
  rw [if_pos rfl]
  split
  · exact ends_mapFixed (.ret rfl)
  · exact ends_map fun _ => .ret rfl

theorem succeeds_mapOnlyOp : Succeeds t (MapUnmap.mapOnlyOp arg) := by
  intro v g
  rw [MapUnmap.mapOnlyOp]
  split
  · exact ends_mapFixed (.ret rfl)
  · exact ends_map fun _ => .ret rfl

theorem succeeds_mapOnly4kOp : Succeeds t (MapUnmap.mapOnly4kOp arg) := by
  rintro ⟨addr, page⟩ g
  rw [MapUnmap.mapOnly4kOp]
  split
  · exact ends_mapFixed (.ret rfl)
  · exact ends_map fun _ => .ret rfl

theorem ends_protectTwice {α : Type} {Q : α → ℕ → Prop} {g : ℕ} {addr : Addr} {size : SizeT}
    {f : Bool → Prog threadSig α} (h : Ends (clocked t) Q (f true) g) :
    Ends (clocked t) Q (Protect.protectTwice addr size >>= f) g := by
  refine .bind (ends_protect ?_)
  refine .call trivial fun ok henv => ?_
  obtain rfl : ok = true := eq_true_of_not henv.1
  exact .ret h

theorem succeeds_protectOp : Succeeds t (Protect.protectOp arg) :=
  fun _ _ => ends_protectTwice (.ret rfl)

theorem succeeds_protect4kOp : Succeeds t (Protect.protect4kOp arg) :=
  fun _ _ => ends_protectTwice (.ret rfl)

theorem succeeds_elevateOp : Succeeds t ProtectElevate.elevateOp :=
  fun _ _ => ends_protect (.ret rfl)

end Operations

/-! ### The run functions -/

/-- The operation limit that stands for none. -/
def RunFn.dfltOps : RunFn → SizeT
  | .elevate => ProtectElevate.defaultNops
  | .mapunmap | .mapunmap4k | .nounmap | .nounmap4k | .protect | .protect4k | .tlbshoot => sizeMax

/-- Where a run function samples. -/
def RunFn.sampling : RunFn → Sampling
  | .mapunmap | .tlbshoot => .beforeIncrement
  | .nounmap | .elevate => .afterIncrement
  | .mapunmap4k | .nounmap4k | .protect | .protect4k => .never

section RunFns

variable {t : ℕ → PlatTime} {arg : VmopsBenchRunArg}

/-- Before the start barrier the 4k functions map all pages. -/
theorem preparing_mapPages : wp preparing (mapPages arg) (fun _ _ => True) () := by
  rw [mapPages]
  split
  · refine (wp_bind _ _).mpr (wp_forLoop (fun _ _ _ => True) trivial ?_ fun _ _ _ => trivial)
    rintro i ⟨addrs, addr⟩ g - -
    refine wp_ignored (preparing_ignores (by simp)) fun ok => ?_
    split <;> trivial
  · refine wp_forLoop (fun _ _ _ => True) trivial ?_ fun _ _ _ => trivial
    rintro i addrs g - -
    refine wp_ignored (preparing_ignores (by simp)) fun addr => ?_
    cases addr <;> trivial

theorem preparing_mapRegion : wp preparing (Protect.mapRegion arg) (fun _ _ => True) () := by
  rw [Protect.mapRegion]
  split
  · refine wp_ignored (preparing_ignores (by simp)) fun ok => ?_
    split <;> trivial
  · exact ⟨by simp [preparing], fun _ _ => trivial⟩

theorem preparing_mapChunks {s : SizeT × Addr} :
    wp preparing (ProtectElevate.mapChunks arg s) (fun _ _ => True) () := by
  refine wp_whileLoop (fun _ _ => True) trivial ?_ fun _ _ _ _ => trivial
  rintro ⟨i, addr⟩ g - -
  rw [ProtectElevate.mapChunk]
  split
  · refine wp_ignored (preparing_ignores (by simp)) fun ok => ?_
    split
    · exact wp_ignored (preparing_ignores (by simp)) fun _ => trivial
    · trivial
  · refine wp_ignored (preparing_ignores (by simp)) fun addr => ?_
    cases addr with
    | none => trivial
    | some addr => exact wp_ignored (preparing_ignores (by simp)) fun _ => trivial

theorem preparing_cleanupAndExit {addrs : ℕ → Addr} {exit : Exit} :
    wp preparing (cleanupAndExit arg addrs exit) (fun _ _ => True) () := by
  refine wp_ignored (preparing_ignores (by simp)) fun _ => (wp_bind _ _).mpr ?_
  refine wp_forLoop (fun _ _ _ => True) trivial ?_ fun _ _ _ =>
    wp_ignored (preparing_ignores (by simp)) fun _ =>
      wp_ignored (preparing_ignores (by simp)) fun _ => trivial
  intro i _ g _ _
  split
  · exact wp_ignored (preparing_ignores (by simp)) fun _ => trivial
  · trivial

/-- A call before the start barrier. -/
theorem Launches.perform {Q : RunResult → Prop} {c : ThreadCall}
    {f : c.Resp → Prog threadSig RunResult} (h : c ≠ .barrier .start ∧ c ≠ .getTime)
    (hf : ∀ r, Launches t Q (f r)) :
    Launches t Q (Prog.perform (S := threadSig) c >>= f) :=
  .bind ⟨h, fun _ _ => trivial⟩ hf

/-- **The 4k functions.** -/
theorem launches_pagedRun {op : Pages → Prog threadSig (Except Pages Pages)} (hop : Succeeds t op) :
    Launches t (Timed arg sizeMax .never t) (pagedRun arg op) := by
  refine .perform (by simp) fun block => ?_
  cases block with
  | false => exact launches_of_preparing trivial
  | true =>
    refine .bind preparing_mapPages fun o => ?_
    cases o with
    -- the mapping loop has failed, and jumps over the start barrier
    | error addrs => exact launches_of_preparing preparing_cleanupAndExit
    | ok addrs =>
      refine launches_of_ends (.perform trivial fun _ _ => .perform trivial fun tCurrent henv => ?_)
      obtain rfl : tCurrent = t 0 := henv.2
      refine .bind ((ends_timedLoop hop).mono fun o g ho => ?_)
      cases o with
      | error s => exact ho.elim
      | ok s =>
        obtain ⟨rfl, ho⟩ := ho
        refine .perform trivial fun tEnd henv => ends_cleanupAndExit.mono fun r _ hr => ?_
        obtain rfl : tEnd = t _ := henv.2
        exact hr ▸ ho.timed

/-- Thread 0 of the shootdown function. -/
theorem ends_shooterRun :
    Ends (clocked t) (fun r _ => Timed arg sizeMax .beforeIncrement t r)
      (TlbShoot.shooterRun arg (t 0) (deadline (timeLimit arg.cfg) (t 0))) 1 := by
  refine .bind ((ends_timedLoop succeeds_mapUnmapOp).mono fun o g ho => ?_)
  cases o with
  | error s => exact ho.elim
  | ok s =>
    obtain ⟨rfl, ho⟩ := ho
    refine .perform trivial fun tEnd henv => .perform trivial fun _ _ =>
      .perform trivial fun _ _ => .ret ?_
    obtain rfl : tEnd = t _ := henv.2
    exact ho.timed

/-- **Whatever has passed the start barrier** ends, with the turns that the readings leave it. -/
theorem launches_run {f : RunFn} (h : f ≠ .tlbshoot ∨ arg.tid = 0) :
    Launches t (Timed arg f.dfltOps f.sampling t) (f.run arg) := by
  cases f with
  | mapunmap => exact launches_of_ends (ends_timedRun succeeds_mapUnmapOp)
  | nounmap =>
    change Launches t _ (MapUnmap.benchRunNounmapFn arg)
    exact launches_of_ends (ends_timedRun succeeds_mapOnlyOp)
  | nounmap4k =>
    change Launches t _ (MapUnmap.benchRunNounmap4kFn arg)
    exact launches_of_ends (ends_timedRun succeeds_mapOnly4kOp)
  | mapunmap4k => exact launches_pagedRun succeeds_mapUnmap4kOp
  | protect4k => exact launches_pagedRun succeeds_protect4kOp
  | protect =>
    refine .bind preparing_mapRegion fun o => ?_
    cases o with
    | none => exact launches_of_preparing trivial
    | some addr => exact launches_of_ends (ends_timedRun succeeds_protectOp)
  | elevate =>
    refine .bind preparing_mapChunks fun o => ?_
    cases o with
    | error e => exact launches_of_preparing trivial
    | ok s => exact launches_of_ends (ends_timedRun succeeds_elevateOp)
  | tlbshoot =>
    -- the other threads have no timed loop
    have htid : arg.tid = 0 := h.resolve_left (fun hne => hne rfl)
    refine .perform (by simp) fun taddr => ?_
    cases taddr with
    | none => exact launches_of_preparing trivial
    | some taddr =>
      refine launches_of_ends (.perform trivial fun _ _ => .perform trivial fun tCurrent henv => ?_)
      obtain rfl : tCurrent = t 0 := henv.2
      rw [if_neg (not_not.mpr htid)]
      exact ends_shooterRun

theorem launches {f : RunFn} (h : f ≠ .tlbshoot ∨ arg.tid = 0) :
    Launches t (Timed arg f.dfltOps f.sampling t) (platThreadRunFn f arg) :=
  .perform (by simp) fun _ => launches_run h

/-- Every reading can be taken. -/
theorem exists_clocked (t : ℕ → PlatTime) (g : ℕ) (c : ThreadCall) :
    ∃ r, (clocked t).env g c r := by
  by_cases hc : c = .getTime
  · subst hc
    exact ⟨t g, rfl, rfl⟩
  · have hfails : c.fails c.succeed = false := by cases c <;> rfl
    refine ⟨c.succeed, hfails, ?_⟩
    cases c with
    | getTime => exact absurd rfl hc
    | _ => trivial

/-- The map/unmap benchmark has a run with these readings. -/
theorem exists_run_mapunmap (arg : VmopsBenchRunArg) (t : ℕ → PlatTime) :
    ∃ tr r, Run (platThreadRunFn .mapunmap arg) tr (.ret r) ∧ (clocked t).Admits 0 tr ∧
      Finished arg sizeMax .beforeIncrement t r := by
  have hends : Ends (clocked t) (fun r _ => Finished arg sizeMax .beforeIncrement t r)
      (platThreadRunFn .mapunmap arg) 0 :=
    .perform trivial fun _ _ =>
      (ends_timedRun succeeds_mapUnmapOp).mono fun _ _ hr => hr.toFinished
  obtain ⟨tr, r, hrun, henv, hfinished⟩ := hends.exists_run (exists_clocked t)
  exact ⟨tr, r, hrun, henv, hfinished⟩

/-- **What a thread leaves behind** that has come to the end of its run function. -/
theorem timed_of_run {f : RunFn} (h : f ≠ .tlbshoot ∨ arg.tid = 0)
    {tr : List (Event threadSig)} {r : RunResult} (hrun : Run (platThreadRunFn f arg) tr (.ret r))
    (henv : (clocked t).Admits 0 tr) (hdone : r.exit = .done) :
    Timed arg f.dfltOps f.sampling t r := by
  obtain ⟨before, timed, after, t₁, t₂, hmeasured⟩ := (measured_iff hrun hdone).mpr h
  have hstarted : Started tr := by
    rw [hmeasured.trace_eq]
    simp [Started]
  exact (launches h tr _ hrun henv hstarted).of_ret

theorem finished_of_run {f : RunFn} (h : f ≠ .tlbshoot ∨ arg.tid = 0)
    {tr : List (Event threadSig)} {r : RunResult} (hrun : Run (platThreadRunFn f arg) tr (.ret r))
    (henv : (clocked t).Admits 0 tr) (hdone : r.exit = .done) :
    Finished arg f.dfltOps f.sampling t r :=
  (timed_of_run h hrun henv hdone).toFinished

end RunFns

end VmopsBench

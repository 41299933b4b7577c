import VmopsBench.Benchmarks.ClockedRuns

/-!
# Quota and deadline

The timed loops stop at the first of two limits, the number of operations and the time, and zero
stands for the absence of each. In the code an absent limit is the largest value of its type, and
the deadline is a 64-bit sum. `VmopsBench.stopsAtFirst` says that nothing of this shows: as long as
the clock is below `2 ^ 63` the number of operations is the least that the two limits allow, in
exact arithmetic. The clock may well be set back, as the loop looks at the deadline only.
-/

namespace VmopsBench

open Interact

/-- The number of operations, zero standing for the default. -/
def RunFn.quota (f : RunFn) (cfg : VmopsBenchCfg) : ℕ :=
  if cfg.nops.toNat ≠ 0 then cfg.nops.toNat else if f = .elevate then 500000 else 2 ^ 64 - 1

/-- **A number of operations at which a thread has to stop**, with the readings in
nanoseconds. -/
def RunFn.HasToStop (f : RunFn) (cfg : VmopsBenchCfg) (r : ℕ → ℕ) (k : ℕ) : Prop :=
  k = f.quota cfg ∨ 0 < cfg.timeMs.toNat ∧ r 0 + cfg.timeMs.toNat * 10 ^ 6 ≤ r k

theorem toNat_opsLimit (f : RunFn) (cfg : VmopsBenchCfg) :
    (opsLimit f.dfltOps cfg).toNat = f.quota cfg := by
  have hzero : cfg.nops = 0 ↔ cfg.nops.toNat = 0 := by
    rw [← BitVec.toNat_inj]
    rfl
  rw [opsLimit, RunFn.quota]
  by_cases h : cfg.nops = 0
  · rw [if_pos h, if_neg (not_not.mpr (hzero.mp h))]
    cases f <;> rfl
  · rw [if_neg h, if_pos fun heq => h (hzero.mpr heq)]

/-- The time limit does not wrap. -/
theorem toNat_platConvertTime (ms : BitVec 32) :
    (platConvertTime ms).toNat = ms.toNat * 10 ^ 6 := by
  have hms := ms.isLt
  rw [platConvertTime, BitVec.toNat_mul, BitVec.toNat_setWidth, BitVec.toNat_ofNat]
  omega

theorem timeLimit_eq_platTimeMax_iff (cfg : VmopsBenchCfg) :
    timeLimit cfg = platTimeMax ↔ cfg.timeMs.toNat = 0 := by
  have hms := cfg.timeMs.isLt
  have hconvert := toNat_platConvertTime cfg.timeMs
  have hzero : platConvertTime cfg.timeMs = 0 ↔ (platConvertTime cfg.timeMs).toNat = 0 := by
    rw [← BitVec.toNat_inj]
    rfl
  rw [timeLimit]
  split
  · next h =>
    have hnat := hzero.mp h
    exact iff_of_true rfl (by omega)
  · next h =>
    have hnat : (platConvertTime cfg.timeMs).toNat ≠ 0 := fun heq => h (hzero.mpr heq)
    refine iff_of_false (fun heq => ?_) (by omega)
    have hmax : (platConvertTime cfg.timeMs).toNat = 2 ^ 64 - 1 := congrArg BitVec.toNat heq
    omega

/-- **The deadline is met** when the time has passed, and never if there is no limit. -/
theorem deadline_le_iff (cfg : VmopsBenchCfg) {x y : ℕ} (hx : x < 2 ^ 63) (hy : y < 2 ^ 63) :
    deadline (timeLimit cfg) (BitVec.ofNat 64 x) ≤ BitVec.ofNat 64 y ↔
      0 < cfg.timeMs.toNat ∧ x + cfg.timeMs.toNat * 10 ^ 6 ≤ y := by
  have hms := cfg.timeMs.isLt
  rw [deadline, BitVec.le_def, BitVec.toNat_ofNat, Nat.mod_eq_of_lt (by omega : y < 2 ^ 64)]
  by_cases h : timeLimit cfg = platTimeMax
  · have hmax : platTimeMax.toNat = 2 ^ 64 - 1 := rfl
    have hzero := (timeLimit_eq_platTimeMax_iff cfg).mp h
    rw [if_pos h, hmax]
    omega
  · have hpos : cfg.timeMs.toNat ≠ 0 := fun heq => h ((timeLimit_eq_platTimeMax_iff cfg).mpr heq)
    have hlimit : timeLimit cfg = platConvertTime cfg.timeMs := by
      rw [timeLimit] at h ⊢
      split
      · next hzero => exact absurd (if_pos hzero) h
      · rfl
    rw [if_neg h, hlimit, BitVec.toNat_add, toNat_platConvertTime, BitVec.toNat_ofNat]
    omega

/-- The turns are as many as the limits allow. -/
theorem isLeast_turnsMade (f : RunFn) (cfg : VmopsBenchCfg) {r : ℕ → ℕ} (hr : ∀ k, r k < 2 ^ 63) :
    IsLeast {k | f.HasToStop cfg r k}
      (turnsMade f.dfltOps cfg fun k => BitVec.ofNat 64 (r k)) := by
  set t : ℕ → PlatTime := fun k => BitVec.ofNat 64 (r k)
  have hops := toNat_opsLimit f cfg
  have hgoes : ∀ k, goesOn f.dfltOps cfg t k = true ↔ k < f.quota cfg ∧
      ¬(0 < cfg.timeMs.toNat ∧ r 0 + cfg.timeMs.toNat * 10 ^ 6 ≤ r k) := by
    intro k
    rw [goesOn, Bool.and_eq_true, decide_eq_true_eq, decide_eq_true_eq, hops,
      ← deadline_le_iff cfg (hr 0) (hr k), BitVec.not_le]
    exact and_comm
  constructor
  · have hstop := not_goesOn_turnsMade f.dfltOps cfg t
    rw [← Bool.not_eq_true, hgoes, not_and_or, not_not] at hstop
    have hle := turnsMade_le f.dfltOps cfg t
    rw [hops] at hle
    rcases hstop with hquota | htime
    · exact .inl (le_antisymm hle (Nat.le_of_not_lt hquota))
    · exact .inr htime
  · intro k hk
    by_contra hlt
    obtain ⟨hquota, htime⟩ := (hgoes k).mp (goesOn_of_lt (Nat.lt_of_not_le hlt))
    rcases hk with heq | hdue
    · exact absurd heq hquota.ne
    · exact htime hdue

/-- **The timed loop stops at the first of quota and deadline**: from wherever a thread has come
that has passed the start barrier, it goes on to its end, and the number of its operations is the
least at which it has to stop. -/
theorem stopsAtFirst {f : RunFn} {arg : VmopsBenchRunArg} (h : f ≠ .tlbshoot ∨ arg.tid = 0)
    {r : ℕ → ℕ} (hr : ∀ k, r k < 2 ^ 63) {tr : List (Event threadSig)}
    {q : Prog threadSig RunResult} (hrun : Run (platThreadRunFn f arg) tr q)
    (henv : (clocked fun k => BitVec.ofNat 64 (r k)).Admits 0 tr) (hstarted : Started tr) :
    Ends (clocked fun k => BitVec.ofNat 64 (r k))
      (fun res _ => res.exit = .done ∧
        IsLeast {k | f.HasToStop arg.cfg r k} res.arg.count.toNat)
      q ((clocked fun k => BitVec.ofNat 64 (r k)).after 0 tr) := by
  refine (launches h tr q hrun henv hstarted).mono fun res _ hres => ⟨hres.exit_eq, ?_⟩
  rw [hres.count_eq, BitVec.toNat_ofNat, Nat.mod_eq_of_lt (turnsMade_lt _ _ _)]
  exact isLeast_turnsMade f arg.cfg hr

/-- A thread that has one operation to make, at its start. -/
theorem stopsAtFirst_oneThread : ∃ tr q,
    Run (platThreadRunFn .mapunmap (fillArg oneThread 1 0)) tr q ∧ Started tr ∧
      Ends (clocked fun _ => 0)
        (fun res _ => res.exit = .done ∧
          IsLeast {k | RunFn.mapunmap.HasToStop oneThread (fun _ => 0) k} res.arg.count.toNat)
        q 0 := by
  let p := platThreadRunFn .mapunmap (fillArg oneThread 1 0)
  have hrun : Run p [⟨ThreadCall.readThread, ()⟩, passes .start]
      (follow (S := threadSig) ThreadCall.succeed 2 p).2 :=
    run_follow (S := threadSig) ThreadCall.succeed 2 p
  have hstarted : Started [⟨ThreadCall.readThread, ()⟩, passes .start] := by simp [Started]
  have hbound : ∀ k : ℕ, (fun _ => 0 : ℕ → ℕ) k < 2 ^ 63 := fun _ => Nat.two_pow_pos 63
  exact ⟨_, _, hrun, hstarted, stopsAtFirst (.inl (by decide)) hbound hrun
    ⟨⟨rfl, trivial⟩, ⟨rfl, trivial⟩, trivial⟩ hstarted⟩

end VmopsBench

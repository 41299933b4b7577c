import VmopsBench.Benchmarks.Entry

/-!
# Where the durations come from

A thread that reaches the end of its run function leaves a duration behind, and the result
line adds up the durations of all threads. `VmopsBench.Measured` says that a duration was
measured: it is the difference of two clock readings of this thread, one right after the start
barrier and one after the last operation.

In the run functions `t_end` is first the deadline and then, after the loop, overwritten by the
second reading. The workers of the shootdown benchmark leave before that, so what they store is
the time limit (or the time from their start to the end of time, when there is none). By
`VmopsBench.measured_iff` these are the only durations that nobody has measured.
-/

namespace VmopsBench

open Interact

/-! ### Measured durations -/

/-- An operation of a benchmark, the spinning of a worker included. -/
def ThreadCall.isOperation : ThreadCall → Bool
  | .vmMap .. | .vmMapFixed .. | .vmUnmap .. | .vmProtect .. | .loadDone | .increment _ => true
  | .calloc .. | .free | .getTime | .barrier _ | .storeDone _ | .readThread => false

/-- The thread passes a barrier. -/
abbrev passes (site : BarrierSite) : Event threadSig := ⟨ThreadCall.barrier site, ()⟩

/-- The thread reads the clock. -/
abbrev reads (t : PlatTime) : Event threadSig := ⟨ThreadCall.getTime, t⟩

/-- The clock never goes back: `τ` is the time at each moment of a run, and the readings are
taken from it. -/
def Clocked (τ : ℕ → ℕ) (tr : List (Event threadSig)) : Prop :=
  Monotone τ ∧ ∀ k t, tr[k]? = some (reads t) → t.toNat = τ k

/-- **The duration was measured**, by the readings `t₁` and `t₂` of the run `tr`. -/
structure MeasuredBy (tr : List (Event threadSig)) (duration : ℚ)
    (before timed after : List (Event threadSig)) (t₁ t₂ : PlatTime) : Prop where
  trace_eq : tr = before ++ passes .start :: reads t₁ :: timed ++ reads t₂ :: after
  /-- This is the first time that the thread passes the start barrier. -/
  first : ∀ e ∈ before, e.call ≠ .barrier .start
  /-- No operation follows the second reading, but those of the cleanup. -/
  last : ∃ quiet cleanup, after = quiet ++ cleanup ∧ (∀ e ∈ quiet, e.call.isOperation = false) ∧
    (cleanup = [] ∨ cleanup.head? = some (passes .cleanup))
  duration_eq : duration = platTimeToMs (t₂ - t₁)
  /-- It is no longer than the time from the start barrier to the return. -/
  le : ∀ τ, Clocked τ tr → duration ≤ ((τ tr.length : ℚ) - τ before.length) / 1000000

/-- **The duration was measured.** -/
def Measured (tr : List (Event threadSig)) (duration : ℚ) : Prop :=
  ∃ before timed after t₁ t₂, MeasuredBy tr duration before timed after t₁ t₂

/-- A measured duration does not exceed the time that has passed. -/
theorem le_of_clocked {before timed after : List (Event threadSig)} {t₁ t₂ : PlatTime} {τ : ℕ → ℕ}
    (h : Clocked τ (before ++ passes .start :: reads t₁ :: timed ++ reads t₂ :: after)) :
    platTimeToMs (t₂ - t₁) ≤
      ((τ (before ++ passes .start :: reads t₁ :: timed ++ reads t₂ :: after).length : ℚ) -
        τ before.length) / 1000000 := by
  obtain ⟨hmono, hread⟩ := h
  set upto := before ++ passes .start :: reads t₁ :: timed with hupto
  have h₁ : t₁.toNat = τ (before.length + 1) := hread _ _ (by simp [hupto])
  have h₂ : t₂.toNat = τ upto.length := hread _ _ (by simp)
  have hstart : τ before.length ≤ t₁.toNat := h₁ ▸ hmono (Nat.le_succ _)
  have hle : t₁.toNat ≤ t₂.toNat := by
    rw [h₁, h₂]
    exact hmono (by simp [hupto])
  have hend : t₂.toNat ≤ τ (upto ++ reads t₂ :: after).length := h₂ ▸ hmono (by simp)
  have hsub : (t₂ - t₁).toNat = t₂.toNat - t₁.toNat := BitVec.toNat_sub_of_le hle
  rw [platTimeToMs, hsub, Nat.cast_sub hle]
  have hend' : (t₂.toNat : ℚ) ≤ τ (upto ++ reads t₂ :: after).length := Nat.cast_le.mpr hend
  have hstart' : (τ before.length : ℚ) ≤ t₁.toNat := Nat.cast_le.mpr hstart
  exact div_le_div_of_nonneg_right (sub_le_sub hend' hstart') (by norm_num)

/-- A duration is measured that is computed from two such readings. -/
theorem measured_of_readings {before : List (Event threadSig)} (timed quiet cleanup : List _)
    (t₁ t₂ : PlatTime) (hfirst : ∀ e ∈ before, e.call ≠ .barrier .start)
    (hquiet : ∀ e ∈ quiet, e.call.isOperation = false)
    (hcleanup : cleanup = [] ∨ cleanup.head? = some (passes .cleanup)) :
    Measured (before ++ passes .start :: reads t₁ :: timed ++ reads t₂ :: (quiet ++ cleanup))
      (platTimeToMs (t₂ - t₁)) :=
  ⟨before, timed, quiet ++ cleanup, t₁, t₂, rfl, hfirst, ⟨quiet, cleanup, rfl, hquiet, hcleanup⟩,
    rfl, fun _ h => le_of_clocked h⟩

/-- Two readings are needed. -/
theorem Measured.two_le_countP {tr : List (Event threadSig)} {duration : ℚ}
    (h : Measured tr duration) : 2 ≤ tr.countP fun e => e.call = .getTime := by
  obtain ⟨before, timed, after, t₁, t₂, h⟩ := h
  rw [h.trace_eq]
  simp only [List.countP_append, List.countP_cons]
  simp
  omega

/-! ### The timed functions -/

section Skeletons

variable {ξ : Type} {arg : VmopsBenchRunArg} {dflt : SizeT} {sampling : Sampling}
  {op : ξ → Prog threadSig (Except ξ ξ)} {onError : ξ → Prog threadSig Unit} {vars : ξ}
  {before : List (Event threadSig)}

/-- The thread has not passed the start barrier. -/
def NotStarted (g : List (Event threadSig)) : Prop := ∀ e ∈ g, e.call ≠ .barrier .start

theorem NotStarted.concat {g : List (Event threadSig)} (h : NotStarted g) {c : ThreadCall}
    (hc : c.isBarrier = false) (r : c.Resp) : NotStarted (g ++ [(⟨c, r⟩ : Event threadSig)]) := by
  intro e he
  rcases List.mem_append.mp he with he | he
  · exact h e he
  · obtain rfl := List.mem_singleton.mp he
    rintro (rfl : c = _)
    cases hc

/-- What a thread that took the last exit owes. -/
def OwesMeasured (r : RunResult) (g : List (Event threadSig)) : Prop :=
  r.exit = .done → Measured g r.arg.duration

theorem timedRun_measured (hbefore : NotStarted before) :
    wp (recording threadSig) (timedRun arg dflt sampling op onError vars) OwesMeasured before := by
  refine wp_recording_call fun () => wp_recording_call fun (t₁ : PlatTime) => ?_
  refine (wp_bind _ _).mpr (wp_mono _ ?_ (wp_recording_extends _ _))
  rintro o g ⟨timed, rfl⟩
  cases o with
  | error s =>
    exact (wp_bind _ _).mpr (wp_mono _ (fun _ _ _ => nofun) (wp_recording_extends _ _))
  | ok s =>
    refine wp_recording_call fun (t₂ : PlatTime) => wp_recording_call fun () _ => ?_
    have h := measured_of_readings timed [passes .finish] [] t₁ t₂ hbefore
      (by simp [ThreadCall.isOperation]) (Or.inl rfl)
    simpa [VmopsBenchRunArg.completed] using h

/-- The cleanup of the 4k functions. -/
theorem cleanupAndExit_measured {addrs : ℕ → Addr} {exit : Exit} {g : List (Event threadSig)}
    (h : exit = .done → ∀ rest, Measured (g ++ passes .cleanup :: rest) arg.duration) :
    wp (recording threadSig) (cleanupAndExit arg addrs exit) OwesMeasured g := by
  refine wp_recording_call fun () => ?_
  refine (wp_bind _ _).mpr (wp_mono _ ?_ (wp_recording_extends _ _))
  rintro - g' ⟨tr, rfl⟩
  refine wp_recording_call fun () => wp_recording_call fun () hdone => ?_
  simpa using h hdone (tr ++ [⟨ThreadCall.free, ()⟩, passes .leave])

theorem mapPages_notStarted (hbefore : NotStarted before) :
    wp (recording threadSig) (mapPages arg) (fun _ g => NotStarted g) before := by
  rw [mapPages]
  split
  · refine (wp_bind _ _).mpr (wp_forLoop (fun _ _ g => NotStarted g) hbefore ?_ fun _ _ hg => hg)
    rintro i ⟨addrs, addr⟩ g - hg
    refine wp_recording_call fun ok => ?_
    cases ok <;> exact hg.concat rfl _
  · refine wp_forLoop (fun _ _ g => NotStarted g) hbefore ?_ fun _ _ hg => hg
    rintro i addrs g - hg
    refine wp_recording_call fun addr => ?_
    cases addr <;> exact hg.concat rfl _

theorem pagedRun_measured {op : Pages → Prog threadSig (Except Pages Pages)}
    (hbefore : NotStarted before) :
    wp (recording threadSig) (pagedRun arg op) OwesMeasured before := by
  refine wp_recording_call fun block => ?_
  cases block with
  | false => exact nofun
  | true =>
    refine (wp_bind _ _).mpr (wp_mono _ ?_ (mapPages_notStarted (hbefore.concat rfl _)))
    rintro o before hbefore
    cases o with
    | error addrs => exact cleanupAndExit_measured nofun
    | ok addrs =>
      refine wp_recording_call fun () => wp_recording_call fun (t₁ : PlatTime) => ?_
      refine (wp_bind _ _).mpr (wp_mono _ ?_ (wp_recording_extends _ _))
      rintro o g ⟨timed, rfl⟩
      cases o with
      | error s => exact cleanupAndExit_measured nofun
      | ok s =>
        refine wp_recording_call fun (t₂ : PlatTime) => cleanupAndExit_measured fun _ rest => ?_
        have h := measured_of_readings timed [] (passes .cleanup :: rest) t₁ t₂ hbefore nofun
          (Or.inr rfl)
        simpa [VmopsBenchRunArg.completed] using h

end Skeletons

/-! ### Each run function -/

section RunFns

variable {arg : VmopsBenchRunArg} {before : List (Event threadSig)}

theorem mapRegion_notStarted (hbefore : NotStarted before) :
    wp (recording threadSig) (Protect.mapRegion arg) (fun _ g => NotStarted g) before := by
  rw [Protect.mapRegion]
  split
  · refine wp_recording_call fun ok => ?_
    cases ok <;> exact hbefore.concat rfl _
  · exact ⟨trivial, fun _ _ => hbefore.concat rfl _⟩

theorem mapChunks_notStarted {s : SizeT × Addr} (hbefore : NotStarted before) :
    wp (recording threadSig) (ProtectElevate.mapChunks arg s) (fun _ g => NotStarted g) before := by
  refine wp_whileLoop (fun _ g => NotStarted g) hbefore ?_ fun _ _ hg _ => hg
  rintro ⟨i, addr⟩ g hg -
  simp only [ProtectElevate.mapChunk]
  split
  · refine wp_recording_call fun ok => ?_
    cases ok with
    | false => exact hg.concat rfl _
    | true => exact wp_recording_call fun _ => (hg.concat rfl _).concat rfl _
  · refine wp_recording_call fun addr => ?_
    cases addr with
    | none => exact hg.concat rfl _
    | some addr => exact wp_recording_call fun _ => (hg.concat rfl _).concat rfl _

/-- Thread 0 of the shootdown function, after its start. -/
theorem shooterRun_measured {t₁ tEnd : PlatTime} (hbefore : NotStarted before) :
    wp (recording threadSig) (TlbShoot.shooterRun arg t₁ tEnd) OwesMeasured
      (before ++ [passes .start, reads t₁]) := by
  refine (wp_bind _ _).mpr (wp_mono _ ?_ (wp_recording_extends _ _))
  rintro o g ⟨timed, rfl⟩
  cases o with
  | error s => exact nofun
  | ok s =>
    refine wp_recording_call fun (t₂ : PlatTime) => wp_recording_call fun () =>
      wp_recording_call fun () _ => ?_
    have h := measured_of_readings timed [⟨ThreadCall.storeDone 1, ()⟩, passes .finish] [] t₁ t₂
      hbefore (by simp [ThreadCall.isOperation]) (Or.inl rfl)
    simpa [VmopsBenchRunArg.completed] using h

/-- How often the clock was read. -/
def readings (g : List (Event threadSig)) : ℕ := g.countP fun e => e.call = .getTime

theorem readings_concat {c : ThreadCall} (hc : c ≠ .getTime) (r : c.Resp)
    (g : List (Event threadSig)) :
    readings (g ++ [(⟨c, r⟩ : Event threadSig)]) = readings g := by
  simp [readings, hc]

/-- A worker that spins does not read the clock. -/
theorem spin_readings {sum : Addr} {g : List (Event threadSig)} :
    wp (recording threadSig) (TlbShoot.spin sum) (fun _ g' => readings g' = readings g) g := by
  refine ⟨fun _ g' => readings g' = readings g, fun _ g' => readings g' = readings g, rfl, ?_,
    fun _ _ h => h⟩
  rintro - g' hg
  refine wp_recording_call fun (done : BitVec 64) => ?_
  have hload : readings (g' ++ [⟨ThreadCall.loadDone, done⟩]) = readings g :=
    (readings_concat (by decide : ThreadCall.loadDone ≠ .getTime) done g').trans hg
  have hincr : ThreadCall.increment sum ≠ .getTime := by simp
  split
  · exact wp_recording_call fun _ => (readings_concat hincr () _).trans hload
  · exact hload

/-- **A worker reads the clock once.** -/
theorem workerRun_readings {taddr : Addr} {tStart tEnd : PlatTime} :
    wp (recording threadSig) (TlbShoot.workerRun arg taddr tStart tEnd)
      (fun _ g => readings g = readings before) before := by
  refine (wp_bind _ _).mpr (wp_mono _ (fun _ g hg => ?_) spin_readings)
  have hfinish : ThreadCall.barrier .finish ≠ .getTime := by decide
  exact wp_recording_call fun _ => (readings_concat hfinish () _).trans hg

/-- What each function owes: a measured duration, unless it runs a worker. -/
theorem run_measured {f : RunFn} (h : f ≠ .tlbshoot ∨ arg.tid = 0) (hbefore : NotStarted before) :
    wp (recording threadSig) (f.run arg) OwesMeasured before := by
  cases f with
  | mapunmap => exact timedRun_measured hbefore
  | mapunmap4k => exact pagedRun_measured hbefore
  | nounmap =>
    change wp _ (MapUnmap.benchRunNounmapFn arg) _ _
    exact timedRun_measured hbefore
  | nounmap4k =>
    change wp _ (MapUnmap.benchRunNounmap4kFn arg) _ _
    exact timedRun_measured hbefore
  | protect =>
    refine (wp_bind _ _).mpr (wp_mono _ (fun addr g hg => ?_) (mapRegion_notStarted hbefore))
    cases addr with
    | none => exact nofun
    | some addr => exact timedRun_measured hg
  | protect4k => exact pagedRun_measured hbefore
  | elevate =>
    refine (wp_bind _ _).mpr (wp_mono _ (fun o g hg => ?_) (mapChunks_notStarted hbefore))
    cases o with
    | error _ => exact nofun
    | ok s => exact timedRun_measured hg
  | tlbshoot =>
    have htid : arg.tid = 0 := h.resolve_left (fun hne => hne rfl)
    refine wp_recording_call fun taddr => ?_
    cases taddr with
    | none => exact nofun
    | some taddr =>
      refine wp_recording_call fun () => wp_recording_call fun (t₁ : PlatTime) => ?_
      rw [if_neg (not_not.mpr htid), List.append_assoc]
      exact shooterRun_measured (hbefore.concat rfl _)

/-- A worker of the shootdown function has no second reading. -/
theorem worker_readings (htid : arg.tid ≠ 0) :
    wp (recording threadSig) (platThreadRunFn .tlbshoot arg)
      (fun r g => r.exit = .done → readings g = 1) [] := by
  refine wp_recording_call fun () => wp_recording_call fun taddr => ?_
  cases taddr with
  | none => exact nofun
  | some taddr =>
    refine wp_recording_call fun () => wp_recording_call fun (t₁ : PlatTime) => ?_
    rw [if_pos htid]
    refine wp_mono _ (fun _ g hg _ => hg.trans ?_) workerRun_readings
    simp [readings]

end RunFns

/-- **What a worker stores** is its time limit, or what is left of the time there is. -/
theorem worker_duration {arg : VmopsBenchRunArg} {tr : List (Event threadSig)} {r : RunResult}
    (htid : arg.tid ≠ 0) (hrun : Run (platThreadRunFn .tlbshoot arg) tr (.ret r))
    (hdone : r.exit = .done) : ∃ t₁, reads t₁ ∈ tr ∧
      r.arg.duration = platTimeToMs (deadline (timeLimit arg.cfg) t₁ - t₁) := by
  have h : wp (recording threadSig) (platThreadRunFn .tlbshoot arg) (fun r g => r.exit = .done →
      ∃ t₁, reads t₁ ∈ g ∧
        r.arg.duration = platTimeToMs (deadline (timeLimit arg.cfg) t₁ - t₁)) [] := by
    refine wp_recording_call fun () => wp_recording_call fun taddr => ?_
    cases taddr with
    | none => exact nofun
    | some taddr =>
      refine wp_recording_call fun () => wp_recording_call fun (t₁ : PlatTime) => ?_
      rw [if_pos htid]
      refine (wp_bind _ _).mpr (wp_mono _ ?_ (wp_recording_extends _ _))
      rintro - g ⟨spun, rfl⟩
      exact wp_recording_call fun _ _ => ⟨t₁, by simp, rfl⟩
  exact of_run hrun h hdone

/-- **Which durations are measured**: all but those of the workers of the shootdown benchmark. -/
theorem measured_iff {f : RunFn} {arg : VmopsBenchRunArg} {tr : List (Event threadSig)}
    {r : RunResult} (hrun : Run (platThreadRunFn f arg) tr (.ret r)) (hdone : r.exit = .done) :
    Measured tr r.arg.duration ↔ f ≠ .tlbshoot ∨ arg.tid = 0 := by
  constructor
  · intro h
    by_contra hworker
    rw [not_or, not_not] at hworker
    obtain ⟨rfl, htid⟩ := hworker
    have hone : readings tr = 1 := of_run hrun (worker_readings htid) hdone
    have htwo : 2 ≤ readings tr := h.two_le_countP
    omega
  · intro h
    have hbefore : NotStarted [(⟨ThreadCall.readThread, ()⟩ : Event threadSig)] := by
      simp [NotStarted]
    have hmeasured : wp (recording threadSig) (platThreadRunFn f arg) OwesMeasured [] :=
      wp_recording_call fun () => run_measured h hbefore
    exact of_run hrun hmeasured hdone

/-- Thread 0 of the shootdown function makes one operation. -/
theorem measured_shooter : ∃ tr r,
    Run (platThreadRunFn .tlbshoot (fillArg oneThread 1 0)) tr (.ret r) ∧
      Measured tr r.arg.duration := by
  have hrun : ∃ tr r, Run (platThreadRunFn .tlbshoot (fillArg oneThread 1 0)) tr (.ret r) ∧
      r.exit = .done := exists_run_of_yields ThreadCall.succeed 12 (by decide)
  obtain ⟨tr, r, hrun, hdone⟩ := hrun
  exact ⟨tr, r, hrun, (measured_iff hrun hdone).mpr (Or.inr rfl)⟩

/-- A worker finds the flag set at once, and stores a duration that it has not measured. -/
theorem not_measured_worker : ∃ tr r,
    Run (platThreadRunFn .tlbshoot (fillArg twoThreads 1 1)) tr (.ret r) ∧ r.exit = .done ∧
      ¬Measured tr r.arg.duration := by
  let env : (c : ThreadCall) → c.Resp
    | .loadDone => 1#64
    | c => ThreadCall.succeed c
  have hrun : ∃ tr r, Run (platThreadRunFn .tlbshoot (fillArg twoThreads 1 1)) tr (.ret r) ∧
      r.exit = .done ∧ readings tr = 1 := exists_run_of_yields env 10 (by decide)
  obtain ⟨tr, r, hrun, hdone, hone⟩ := hrun
  refine ⟨tr, r, hrun, hdone, fun h => ?_⟩
  have htwo : 2 ≤ readings tr := h.two_le_countP
  omega

end VmopsBench

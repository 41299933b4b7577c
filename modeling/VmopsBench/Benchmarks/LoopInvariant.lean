import VmopsBench.Benchmarks.ClockedRuns

/-!
# Invariants of the timed loop

The timed loops differ in their operation only, and what they keep of the clock readings, the
counter and the sampler they keep in every benchmark. An invariant of one turn
(`VmopsBench.KeptByTurns`) therefore holds of whatever a run function leaves behind, on whichever
path it returns: `VmopsBench.leftBy_run`. The one exception are the exits before the loop, and the
workers of the shootdown benchmark, which leave the sampler as they were given it.
-/

namespace VmopsBench

open Interact

variable {ξ : Type}

/-- The variables that all timed loops have. -/
def LoopState.common (s : LoopState ξ) : LoopState Unit := ⟨s.tCurrent, s.counter, s.stats, ()⟩

/-- **An invariant of the turns**, over the reading before the loop, the variables, and the
history. -/
structure KeptByTurns (arg : VmopsBenchRunArg) (nops : SizeT) (sampling : Sampling)
    (J : PlatTime → LoopState Unit → List (Event threadSig) → Prop) : Prop where
  first : ∀ g t, J t ⟨t, 0, arg.stats, ()⟩ (g ++ [reads t])
  append : ∀ {tStart s g}, J tStart s g → ∀ tr, J tStart s (g ++ tr)
  next : ∀ {tStart s g}, J tStart s g → s.counter < nops → ∀ t,
    J tStart (s.next arg.tid sampling tStart t ()) (g ++ [reads t])

/-- **What a thread leaves behind**: the sampler and the counter of its loop, or a sampler that it
has not used. -/
structure LeftBy (arg : VmopsBenchRunArg)
    (J : PlatTime → LoopState Unit → List (Event threadSig) → Prop) (r : RunResult)
    (g : List (Event threadSig)) : Prop where
  cfg_eq : r.arg.cfg = arg.cfg
  stats : r.arg.stats = arg.stats ∨ ∃ tStart s, J tStart s g ∧ r.arg.stats = s.stats ∧
    (r.exit = .done → r.arg.count = s.counter)

section Functions

variable {arg : VmopsBenchRunArg} {dflt nops : SizeT} {sampling : Sampling}
  {J : PlatTime → LoopState Unit → List (Event threadSig) → Prop} {g : List (Event threadSig)}

/-- A thread that comes to no loop. -/
theorem LeftBy.unused {r : RunResult} (hcfg : r.arg.cfg = arg.cfg)
    (hstats : r.arg.stats = arg.stats) : LeftBy arg J r g := ⟨hcfg, .inl hstats⟩

/-- A thread whose operation has failed. -/
theorem LeftBy.error {s : LoopState ξ} {tStart : PlatTime} (h : J tStart s.common g) :
    LeftBy arg J ⟨.error, { arg with stats := s.stats }⟩ g :=
  ⟨rfl, .inr ⟨tStart, s.common, h, rfl, nofun⟩⟩

/-- A thread that has come to the end of its loop. -/
theorem LeftBy.completed {s : LoopState ξ} {tStart t t' : PlatTime} {exit : Exit}
    (h : J tStart s.common g) : LeftBy arg J ⟨exit, arg.completed s t t'⟩ g :=
  ⟨rfl, .inr ⟨tStart, s.common, h, rfl, fun _ => rfl⟩⟩

/-- **The timed loop keeps an invariant of its turns.** -/
theorem wp_timedLoop_kept (hJ : KeptByTurns arg nops sampling J) {tStart tEnd : PlatTime}
    {op : ξ → Prog threadSig (Except ξ ξ)} {s : LoopState ξ} (h : J tStart s.common g) :
    wp (recording threadSig) (timedLoop arg.tid sampling tStart tEnd nops op s)
      (onExcept (fun s g => J tStart s.common g) fun s g => J tStart s.common g) g := by
  refine wp_timedLoop (fun s g => J tStart s.common g) h ?_ fun _ _ h _ => h
  intro s g h hrunning
  refine wp_mono _ ?_ (wp_recording_extends _ _)
  rintro o - ⟨tr, rfl⟩
  cases o with
  | error v => exact hJ.append h tr
  | ok v =>
    have hlt : s.common.counter < nops := of_decide_eq_true (Bool.and_eq_true_iff.mp hrunning).2
    exact ⟨trivial, fun t _ => hJ.next (hJ.append h tr) hlt t⟩

theorem leftBy_timedRun (hJ : KeptByTurns arg (opsLimit dflt arg.cfg) sampling J)
    {op : ξ → Prog threadSig (Except ξ ξ)} {onError : ξ → Prog threadSig Unit} {vars : ξ} :
    wp (recording threadSig) (timedRun arg dflt sampling op onError vars) (LeftBy arg J) g := by
  refine wp_recording_call fun () => wp_recording_call fun (t : PlatTime) => ?_
  refine (wp_bind _ _).mpr (wp_mono _ (fun o g ho => ?_) (wp_timedLoop_kept hJ (hJ.first _ t)))
  cases o with
  | error s =>
    refine (wp_bind _ _).mpr (wp_mono _ ?_ (wp_recording_extends _ _))
    rintro - - ⟨tr, rfl⟩
    exact .error (hJ.append ho tr)
  | ok s =>
    refine wp_recording_call fun _ => wp_recording_call fun () => ?_
    exact .completed (hJ.append (hJ.append ho _) _)

/-- The cleanup leaves behind what it finds. -/
theorem leftBy_cleanupAndExit {arg' : VmopsBenchRunArg} {addrs : ℕ → Addr} {exit : Exit}
    (h : ∀ tr, LeftBy arg J ⟨exit, arg'⟩ (g ++ tr)) :
    wp (recording threadSig) (cleanupAndExit arg' addrs exit) (LeftBy arg J) g := by
  refine wp_recording_call fun () => ?_
  refine (wp_bind _ _).mpr (wp_mono _ ?_ (wp_recording_extends _ _))
  rintro - - ⟨tr, rfl⟩
  refine wp_recording_call fun () => wp_recording_call fun () => ?_
  have hend := h ([passes .cleanup] ++ tr ++ [⟨ThreadCall.free, ()⟩, passes .leave])
  show LeftBy _ _ _ _
  simpa using hend

theorem leftBy_pagedRun (hJ : KeptByTurns arg (opsLimit sizeMax arg.cfg) .never J)
    {op : Pages → Prog threadSig (Except Pages Pages)} :
    wp (recording threadSig) (pagedRun arg op) (LeftBy arg J) g := by
  refine wp_recording_call fun block => ?_
  cases block with
  | false => exact .unused rfl rfl
  | true =>
    refine (wp_bind _ _).mpr (wp_mono _ (fun o g _ => ?_) (wp_recording_extends _ _))
    cases o with
    -- the mapping loop has failed, and jumps over the timed loop
    | error addrs => exact leftBy_cleanupAndExit fun _ => .unused rfl rfl
    | ok addrs =>
      refine wp_recording_call fun () => wp_recording_call fun (t : PlatTime) => ?_
      refine (wp_bind _ _).mpr (wp_mono _ (fun o g ho => ?_) (wp_timedLoop_kept hJ (hJ.first _ t)))
      cases o with
      | error s => exact leftBy_cleanupAndExit fun _ => .unused rfl rfl
      | ok s =>
        refine wp_recording_call fun (t' : PlatTime) => leftBy_cleanupAndExit fun tr => ?_
        exact .completed (hJ.append (hJ.append ho _) tr)

/-- Thread 0 of the shootdown function, after its start. -/
theorem leftBy_shooterRun (hJ : KeptByTurns arg (opsLimit sizeMax arg.cfg) .beforeIncrement J)
    {t tEnd : PlatTime} : wp (recording threadSig) (TlbShoot.shooterRun arg t tEnd)
      (LeftBy arg J) (g ++ [reads t]) := by
  refine (wp_bind _ _).mpr (wp_mono _ (fun o g ho => ?_) (wp_timedLoop_kept hJ (hJ.first g t)))
  cases o with
  | error s => exact .error ho
  | ok s =>
    refine wp_recording_call fun _ => wp_recording_call fun () => wp_recording_call fun () => ?_
    exact .completed (hJ.append (hJ.append (hJ.append ho _) _) _)

/-- **Every run function leaves behind what its turns have kept.** -/
theorem leftBy_run {f : RunFn} (hJ : KeptByTurns arg (opsLimit f.dfltOps arg.cfg) f.sampling J) :
    wp (recording threadSig) (f.run arg) (LeftBy arg J) g := by
  cases f with
  | mapunmap => exact leftBy_timedRun hJ
  | mapunmap4k => exact leftBy_pagedRun hJ
  | nounmap =>
    change wp _ (MapUnmap.benchRunNounmapFn arg) _ _
    exact leftBy_timedRun hJ
  | nounmap4k =>
    change wp _ (MapUnmap.benchRunNounmap4kFn arg) _ _
    exact leftBy_timedRun hJ
  | protect =>
    refine (wp_bind _ _).mpr (wp_mono _ (fun addr g _ => ?_) (wp_recording_extends _ _))
    cases addr with
    | none => exact .unused rfl rfl
    | some addr => exact leftBy_timedRun hJ
  | protect4k => exact leftBy_pagedRun hJ
  | elevate =>
    refine (wp_bind _ _).mpr (wp_mono _ (fun o g _ => ?_) (wp_recording_extends _ _))
    cases o with
    | error _ => exact .unused rfl rfl
    | ok s => exact leftBy_timedRun hJ
  | tlbshoot =>
    refine wp_recording_call fun taddr => ?_
    cases taddr with
    | none => exact .unused rfl rfl
    | some taddr =>
      refine wp_recording_call fun () => wp_recording_call fun (t : PlatTime) => ?_
      split
      · -- the other threads only wait
        refine (wp_bind _ _).mpr (wp_mono _ (fun _ g _ => ?_) (wp_recording_extends _ _))
        exact wp_recording_call fun () => .unused rfl rfl
      · exact leftBy_shooterRun hJ

/-- **What a thread has left behind** when it has returned. -/
theorem leftBy_of_run {f : RunFn} {tr : List (Event threadSig)} {r : RunResult}
    (hrun : Run (platThreadRunFn f arg) tr (.ret r))
    (hJ : KeptByTurns arg (opsLimit f.dfltOps arg.cfg) f.sampling J) : LeftBy arg J r tr :=
  of_run hrun (wp_recording_call fun () => leftBy_run hJ)

end Functions

end VmopsBench

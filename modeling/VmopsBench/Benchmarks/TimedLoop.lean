import VmopsBench.Interact.Spec
import VmopsBench.Benchmarks.Utils

/-!
# The timed loop and what surrounds it

The eight run functions are hand copies of two skeletons. Around a loop

`while (t_current < t_end && counter < nops) { operation; t_current = plat_get_time(); counter++; }`

the functions on one large mapping (and the map-only function on small ones) put
a barrier on each side, which is `VmopsBench.timedRun`; the 4k functions map all
pages before it and, at their label `cleanup_and_exit`, meet, unmap what is
mapped, and meet again, which is `VmopsBench.pagedRun`. The functions differ in the
operation, in the order of the counter increment and the sample
(`VmopsBench.Sampling`), and in what an error exit does.

A run function returns `NULL` on every path, so the C code cannot tell which
`return` was taken. `VmopsBench.Exit` records it: `error` for the ones after a
`LOG_ERR`, `done` for the last one.
-/

namespace VmopsBench

open Interact

/-! ### Results -/

/-- Which `return` of a run function was taken. -/
inductive Exit where
  /-- The one at the end. -/
  | done
  /-- One that follows a failed call. -/
  | error
  deriving DecidableEq

/-- What a thread leaves behind: the exit it took, and its arguments with the
members it has written. -/
structure RunResult where
  exit : Exit
  arg : VmopsBenchRunArg

/-! ### Limits -/

/-- `t_delta`: the time limit, `PLAT_TIME_MAX` when there is none. -/
def timeLimit (cfg : VmopsBenchCfg) : PlatTime :=
  if platConvertTime cfg.timeMs = 0 then platTimeMax else platConvertTime cfg.timeMs

/-- `nops`: the operation limit, `dflt` when there is none. -/
def opsLimit (dflt : SizeT) (cfg : VmopsBenchCfg) : SizeT := if cfg.nops = 0 then dflt else cfg.nops

/-- `t_end` as it is computed before the loop. -/
def deadline (tDelta tCurrent : PlatTime) : PlatTime :=
  if tDelta = platTimeMax then platTimeMax else tCurrent + tDelta

/-- The time limit is not zero, so a clock that stands still at zero does not reach the deadline. -/
theorem zero_lt_deadline (cfg : VmopsBenchCfg) : 0 < deadline (timeLimit cfg) 0 := by
  refine (BitVec.pos_iff_ne_zero _).mpr ?_
  rw [deadline]
  split
  · decide
  · rw [zero_add, timeLimit]
    split
    · decide
    · assumption

/-- The operation limit is not zero. -/
theorem zero_lt_opsLimit {dflt : SizeT} (h : dflt ≠ 0) (cfg : VmopsBenchCfg) :
    0 < opsLimit dflt cfg := by
  refine (BitVec.pos_iff_ne_zero _).mpr ?_
  rw [opsLimit]
  split
  · exact h
  · assumption

/-! ### The loop -/

/-- The variables of a timed loop: those that every one of them has, and the operation's own. -/
structure LoopState (ξ : Type) where
  tCurrent : PlatTime
  counter : SizeT
  stats : VmopsStats
  vars : ξ

/-- Where a timed loop calls `vmops_utils_add_stats`. -/
inductive Sampling where
  /-- Nowhere. -/
  | never
  /-- Before `counter++`. -/
  | beforeIncrement
  /-- After `counter++`. -/
  | afterIncrement

/-- The call of `vmops_utils_add_stats` in a turn, `counter` being the value before
the increment. -/
def Sampling.record (sampling : Sampling) (stats : VmopsStats) (tid : BitVec 32) (counter : SizeT)
    (tElapsed val : PlatTime) : VmopsStats :=
  match sampling with
  | .never => stats
  | .beforeIncrement => vmopsUtilsAddStats stats tid counter tElapsed val
  | .afterIncrement => vmopsUtilsAddStats stats tid (counter + 1) tElapsed val

variable {ξ : Type}

/-- `t_current < t_end && counter < nops`. -/
def LoopState.running (tEnd : PlatTime) (nops : SizeT) (s : LoopState ξ) : Bool :=
  s.tCurrent < tEnd && s.counter < nops

/-- The variables after a turn whose operation succeeded: `t_op_start` is `t_current` as the turn
found it. -/
def LoopState.next (tid : BitVec 32) (sampling : Sampling) (tStart : PlatTime) (s : LoopState ξ)
    (tCurrent : PlatTime) (vars : ξ) : LoopState ξ :=
  let tOpStart := s.tCurrent
  { tCurrent
    counter := s.counter + 1
    stats := sampling.record s.stats tid s.counter (tCurrent - tStart) (tCurrent - tOpStart)
    vars }

/-- One turn of a timed loop, around the operation `op`. -/
def timedTurn (tid : BitVec 32) (sampling : Sampling) (tStart : PlatTime)
    (op : ξ → Prog threadSig (Except ξ ξ)) (s : LoopState ξ) :
    Prog threadSig (Except (LoopState ξ) (LoopState ξ)) := do
  match ← op s.vars with
  | .error vars => return .error { s with vars }
  | .ok vars =>
    let tCurrent ← platGetTime
    return .ok (s.next tid sampling tStart tCurrent vars)

/-- **The timed loop.** An operation that fails leaves it at once, with the
variables as they are then. -/
def timedLoop (tid : BitVec 32) (sampling : Sampling) (tStart tEnd : PlatTime) (nops : SizeT)
    (op : ξ → Prog threadSig (Except ξ ξ)) :
    LoopState ξ → Prog threadSig (Except (LoopState ξ) (LoopState ξ)) :=
  Prog.whileLoop (LoopState.running tEnd nops) (timedTurn tid sampling tStart op)

/-- A turn of a timed loop whose operation succeeds. -/
theorem run_timedTurn {op : ξ → Prog threadSig (Except ξ ξ)} {s : LoopState ξ}
    {tr : List (Event threadSig)} {v : ξ} (hop : Run (op s.vars) tr (.ret (.ok v)))
    (tid : BitVec 32) (sampling : Sampling) (tStart t : PlatTime) :
    Run (timedTurn tid sampling tStart op s) (tr ++ [⟨ThreadCall.getTime, t⟩])
      (.ret (.ok (s.next tid sampling tStart t v))) := by
  refine hop.bind ?_
  refine Run.call _ ?_
  exact .nil _

/-- The arguments of a thread that reaches the end: `count` and `duration` are
stored. -/
def VmopsBenchRunArg.completed (arg : VmopsBenchRunArg) (s : LoopState ξ)
    (tStart tEnd : PlatTime) : VmopsBenchRunArg :=
  { arg with count := s.counter, duration := platTimeToMs (tEnd - tStart), stats := s.stats }

/-! ### The skeleton with two barriers -/

/-- **From the start barrier to the end**, in the functions that do not clean up
at the end. `onError` is what the error exit does before it returns. -/
def timedRun (arg : VmopsBenchRunArg) (dflt : SizeT) (sampling : Sampling)
    (op : ξ → Prog threadSig (Except ξ ξ)) (onError : ξ → Prog threadSig Unit) (vars : ξ) :
    Prog threadSig RunResult := do
  platThreadBarrier .start
  let tCurrent ← platGetTime
  let tEnd := deadline (timeLimit arg.cfg) tCurrent
  let tStart := tCurrent
  match ← timedLoop arg.tid sampling tStart tEnd (opsLimit dflt arg.cfg) op
      { tCurrent, counter := 0, stats := arg.stats, vars } with
  | .error s =>
    onError s.vars
    return ⟨.error, { arg with stats := s.stats }⟩
  | .ok s =>
    let tEnd ← platGetTime
    platThreadBarrier .finish
    return ⟨.done, arg.completed s tStart tEnd⟩

/-! ### The skeleton of the 4k functions -/

/-- The variables of an operation on small pages: the array `addrs`, and `page`. -/
structure Pages where
  addrs : ℕ → Addr
  page : SizeT

/-- `nmaps`, the number of small pages of a memory object. -/
def pageCount (cfg : VmopsBenchCfg) : SizeT := cfg.memsize / platArchBasePageSize

/-- The page whose turn it is, is one of them. -/
theorem toNat_umod_lt {n : SizeT} (h : n ≠ 0) {x : SizeT} : (x % n).toNat < n.toNat :=
  BitVec.lt_def.mp (BitVec.umod_lt x ((BitVec.pos_iff_ne_zero n).mpr h))

/-- The mapping loop of the 4k functions. A failure leaves the array as far as it has been
filled. -/
def mapPages (arg : VmopsBenchRunArg) : Prog threadSig (Except (ℕ → Addr) (ℕ → Addr)) :=
  let nmaps := pageCount arg.cfg
  if arg.cfg.isolated then do
    let filled ← Prog.forLoop nmaps.toNat (fun i (s : (ℕ → Addr) × Addr) => do
      let (addrs, addr) := s
      if ← platVmMapFixed addr platArchBasePageSize arg.memobj
          (BitVec.ofNat 64 i * platArchBasePageSize) arg.cfg.maphuge then
        return .ok (Function.update addrs i addr, addr + platArchBasePageSize)
      else
        return .error addrs) (fun _ => 0, utilsVmopsGetMapAddress arg.tid)
    return filled.map Prod.fst
  else
    Prog.forLoop nmaps.toNat (fun i addrs => do
      match ← platVmMap platArchBasePageSize arg.memobj
          (BitVec.ofNat 64 i * platArchBasePageSize) arg.cfg.maphuge with
      | some addr => return .ok (Function.update addrs i addr)
      | none => return .error addrs) (fun _ => 0)

/-- The unmapping loop of the 4k functions: an error is logged and otherwise ignored. -/
def unmapPages (nmaps : SizeT) (addrs : ℕ → Addr) : Prog threadSig (Except Unit Unit) :=
  Prog.forLoop nmaps.toNat (fun i _ => do
    if addrs i ≠ 0 then
      let _ ← platVmUnmap (addrs i) platArchBasePageSize
      return .ok ()
    else
      return .ok ()) ()

/-- The statements after the label `cleanup_and_exit` of the 4k functions. -/
def cleanupAndExit (arg : VmopsBenchRunArg) (addrs : ℕ → Addr) (exit : Exit) :
    Prog threadSig RunResult := do
  platThreadBarrier .cleanup
  let _ ← unmapPages (pageCount arg.cfg) addrs
  Prog.perform (S := threadSig) .free
  platThreadBarrier .leave
  return ⟨exit, arg⟩

/-- **A 4k function**, around the operation on its pages. -/
def pagedRun (arg : VmopsBenchRunArg) (op : Pages → Prog threadSig (Except Pages Pages)) :
    Prog threadSig RunResult := do
  if ← calloc (pageCount arg.cfg) 8 then
    match ← mapPages arg with
    | .error addrs => cleanupAndExit arg addrs .error
    | .ok addrs =>
      platThreadBarrier .start
      let tCurrent ← platGetTime
      let tEnd := deadline (timeLimit arg.cfg) tCurrent
      let tStart := tCurrent
      match ← timedLoop arg.tid .never tStart tEnd (opsLimit sizeMax arg.cfg) op
          { tCurrent, counter := 0, stats := arg.stats,
            vars := { addrs, page := arg.tid.setWidth 64 } } with
      | .error s => cleanupAndExit arg s.vars.addrs .error
      | .ok s =>
        let tEnd ← platGetTime
        cleanupAndExit (arg.completed s tStart tEnd) s.vars.addrs .done
  else
    return ⟨.error, arg⟩

/-! ### Rules of the program logic -/

section Rules

variable {G : Type} {Γ : Spec threadSig G} {tid : BitVec 32} {sampling : Sampling}
  {tStart tEnd : PlatTime} {nops : SizeT} {op : ξ → Prog threadSig (Except ξ ξ)}

/-- **The rule of the timed loop**: the operation re-establishes the invariant, up to the clock
reading that follows it, or leaves the loop. -/
theorem wp_timedLoop {s : LoopState ξ} {g : G}
    {Q : Except (LoopState ξ) (LoopState ξ) → G → Prop} (Inv : LoopState ξ → G → Prop)
    (h0 : Inv s g)
    (hop : ∀ s g, Inv s g → s.running tEnd nops = true →
      wp Γ (op s.vars) (onExcept (fun v => Q (.error { s with vars := v }))
        (fun v g' => Γ.pre g' .getTime ∧ ∀ t, Γ.env g' .getTime t →
          Inv (s.next tid sampling tStart t v) (Γ.upd g' .getTime t))) g)
    (hexit : ∀ s g, Inv s g → s.running tEnd nops = false → Q (.ok s) g) :
    wp Γ (timedLoop tid sampling tStart tEnd nops op s) Q g := by
  refine wp_whileLoop Inv h0 (fun s g hs hrun => ?_) hexit
  refine (wp_bind _ _).mpr (wp_mono _ (fun o g' ho => ?_) (hop s g hs hrun))
  cases o with
  | error v => exact ho
  | ok v => exact ho

/-- **The skeleton with two barriers**, for a specification that looks neither at the barriers nor
at the clock: an invariant of the counter and the operation's variables. -/
theorem wp_timedRun_of_ignores {arg : VmopsBenchRunArg} {dflt : SizeT}
    {onError : ξ → Prog threadSig Unit} {vars : ξ} {g : G}
    (hbarrier : ∀ site, Γ.Ignores (ThreadCall.barrier site))
    (htime : Γ.Ignores ThreadCall.getTime) (Inv : SizeT → ξ → G → Prop) (h0 : Inv 0 vars g)
    (hop : ∀ k v g, k < opsLimit dflt arg.cfg → Inv k v g →
      wp Γ (op v) (onExcept (fun v g' => wp Γ (onError v) (fun _ _ => True) g') (Inv (k + 1))) g) :
    wp Γ (timedRun arg dflt sampling op onError vars) (fun _ _ => True) g := by
  refine wp_ignored (hbarrier _) fun _ => wp_ignored htime fun tCurrent => ?_
  refine (wp_bind _ _).mpr (wp_timedLoop (fun s g => Inv s.counter s.vars g) h0 ?_ ?_)
  · -- a turn: the operation, and then the clock
    intro s g hs hrun
    have hlt : s.counter < opsLimit dflt arg.cfg := by
      simp only [LoopState.running, Bool.and_eq_true, decide_eq_true_eq] at hrun
      exact hrun.2
    refine wp_mono _ (fun o g' ho => ?_) (hop s.counter s.vars g hlt hs)
    cases o with
    | error v => exact (wp_bind _ _).mpr (wp_mono _ (fun _ _ _ => trivial) ho)
    | ok v =>
      refine ⟨(htime g').1, fun t _ => ?_⟩
      rw [(htime g').2 t]
      exact ho
  · -- after the loop there are only the clock and the finish barrier
    exact fun s g _ _ => wp_ignored htime fun _ => wp_ignored (hbarrier _) fun _ => trivial

/-- What is done at `cleanup_and_exit` does not matter either. -/
theorem wp_cleanupAndExit_of_ignores {arg : VmopsBenchRunArg} {addrs : ℕ → Addr} {exit : Exit}
    {g : G} (hbarrier : ∀ site, Γ.Ignores (ThreadCall.barrier site))
    (hunmap : ∀ addr size, Γ.Ignores (ThreadCall.vmUnmap addr size))
    (hfree : Γ.Ignores ThreadCall.free) :
    wp Γ (cleanupAndExit arg addrs exit) (fun _ _ => True) g := by
  refine wp_ignored (hbarrier _) fun _ => (wp_bind _ _).mpr ?_
  refine wp_forLoop (fun _ _ _ => True) trivial ?_
    fun _ _ _ => wp_ignored hfree fun _ => wp_ignored (hbarrier _) fun _ => trivial
  intro i _ g _ _
  split
  · exact wp_ignored (hunmap _ _) fun _ => trivial
  · trivial

/-- **The skeleton of the 4k functions**, for a specification that looks at maps and protects
only. -/
theorem wp_pagedRun_of_ignores {arg : VmopsBenchRunArg}
    {op : Pages → Prog threadSig (Except Pages Pages)} {g : G}
    (hbarrier : ∀ site, Γ.Ignores (ThreadCall.barrier site))
    (htime : Γ.Ignores ThreadCall.getTime)
    (hunmap : ∀ addr size, Γ.Ignores (ThreadCall.vmUnmap addr size))
    (hcalloc : ∀ nmemb size, Γ.Ignores (ThreadCall.calloc nmemb size))
    (hfree : Γ.Ignores ThreadCall.free) (Inv : Pages → G → Prop)
    (hmap : wp Γ (mapPages arg) (onExcept (fun _ _ => True)
      fun addrs g => Inv { addrs, page := arg.tid.setWidth 64 } g) g)
    (hop : ∀ v g, Inv v g → wp Γ (op v) (onExcept (fun _ _ => True) Inv) g) :
    wp Γ (pagedRun arg op) (fun _ _ => True) g := by
  have hcleanup : ∀ arg addrs exit g,
      wp Γ (cleanupAndExit arg addrs exit) (fun _ _ => True) g :=
    fun _ _ _ _ => wp_cleanupAndExit_of_ignores hbarrier hunmap hfree
  refine wp_ignored (hcalloc _ _) fun block => ?_
  cases block with
  | false => trivial
  | true =>
    refine (wp_bind _ _).mpr (wp_mono _ (fun o g ho => ?_) hmap)
    cases o with
    -- the mapping loop has failed, and jumps over the start barrier
    | error addrs => exact hcleanup _ _ _ _
    | ok addrs =>
      refine wp_ignored (hbarrier _) fun _ => wp_ignored htime fun tCurrent => ?_
      refine (wp_bind _ _).mpr (wp_timedLoop (fun s g => Inv s.vars g) ho ?_ ?_)
      · intro s g hs _
        refine wp_mono _ (fun o g' ho => ?_) (hop s.vars g hs)
        cases o with
        | error v => exact hcleanup _ _ _ _
        | ok v =>
          refine ⟨(htime g').1, fun t _ => ?_⟩
          rw [(htime g').2 t]
          exact ho
      · exact fun s g _ _ => wp_ignored htime fun _ => hcleanup _ _ _ _

/-- **The skeleton with two barriers, when the operation never fails**: the invariant holds in the
end, of the count that is stored. -/
theorem wp_timedRun_counted {arg : VmopsBenchRunArg} {dflt : SizeT}
    {onError : ξ → Prog threadSig Unit} {vars : ξ} {g : G}
    (hbarrier : ∀ site, Γ.Ignores (ThreadCall.barrier site))
    (htime : Γ.Ignores ThreadCall.getTime) (Inv : SizeT → ξ → G → Prop) (h0 : Inv 0 vars g)
    (hop : ∀ k v g, k < opsLimit dflt arg.cfg → Inv k v g →
      wp Γ (op v) (onExcept (fun _ _ => False) (Inv (k + 1))) g) :
    wp Γ (timedRun arg dflt sampling op onError vars)
      (fun r g => r.exit = .done ∧ ∃ v, Inv r.arg.count v g) g := by
  refine wp_ignored (hbarrier _) fun _ => wp_ignored htime fun tCurrent => ?_
  refine (wp_bind _ _).mpr (wp_timedLoop (fun s g => Inv s.counter s.vars g) h0 ?_ ?_)
  · intro s g hs hrun
    have hlt : s.counter < opsLimit dflt arg.cfg :=
      of_decide_eq_true (Bool.and_eq_true_iff.mp hrun).2
    refine wp_mono _ (fun o g' ho => ?_) (hop s.counter s.vars g hlt hs)
    rcases o with v | v
    · exact ho.elim
    · refine ⟨(htime g').1, fun t _ => ?_⟩
      rw [(htime g').2 t]
      exact ho
  · exact fun s g hs _ => wp_ignored htime fun _ => wp_ignored (hbarrier _) fun _ =>
      ⟨rfl, s.vars, hs⟩

/-- **The skeleton of the 4k functions, when no call fails**: what the pages keep is what the
cleanup finds. -/
theorem wp_pagedRun_clean {arg : VmopsBenchRunArg}
    {op : Pages → Prog threadSig (Except Pages Pages)} {g : G}
    (hbarrier : ∀ site, Γ.Ignores (ThreadCall.barrier site))
    (htime : Γ.Ignores ThreadCall.getTime)
    (hcalloc : ∀ nmemb size, Γ.Ignores (ThreadCall.calloc nmemb size) ∧
      ∀ g, ¬Γ.env g (.calloc nmemb size) false)
    (hfree : Γ.Ignores ThreadCall.free) (Inv : Pages → G → Prop) {P : G → Prop}
    (hmap : wp Γ (mapPages arg) (onExcept (fun _ _ => False)
      fun addrs g => Inv { addrs, page := arg.tid.setWidth 64 } g) g)
    (hop : ∀ v g, Inv v g → wp Γ (op v) (onExcept (fun _ _ => False) Inv) g)
    (hunmap : ∀ v g, Inv v g → wp Γ (unmapPages (pageCount arg.cfg) v.addrs) (fun _ => P) g) :
    wp Γ (pagedRun arg op) (fun r g => r.exit = .done ∧ P g) g := by
  refine wp_perform_bind.mpr ⟨((hcalloc _ _).1 g).1, fun block hblock => ?_⟩
  rw [((hcalloc _ _).1 g).2 block]
  rcases block with _ | _
  · exact absurd hblock ((hcalloc _ _).2 g)
  · refine (wp_bind _ _).mpr (wp_mono _ (fun o g ho => ?_) hmap)
    rcases o with addrs | addrs
    · exact ho.elim
    · refine wp_ignored (hbarrier _) fun _ => wp_ignored htime fun tCurrent => ?_
      refine (wp_bind _ _).mpr (wp_timedLoop (fun s g => Inv s.vars g) ho ?_ ?_)
      · intro s g hs _
        refine wp_mono _ (fun o g' ho => ?_) (hop s.vars g hs)
        rcases o with v | v
        · exact ho.elim
        · refine ⟨(htime g').1, fun t _ => ?_⟩
          rw [(htime g').2 t]
          exact ho
      · intro s g hs _
        refine wp_ignored htime fun _ => wp_ignored (hbarrier _) fun _ => ?_
        refine (wp_bind _ _).mpr (wp_mono _ (fun _ g hg => ?_) (hunmap s.vars g hs))
        exact wp_ignored hfree fun _ => wp_ignored (hbarrier _) fun _ => ⟨rfl, hg⟩

end Rules

end VmopsBench

import VmopsBench.Interact.Descent
import VmopsBench.Benchmarks.RunFns
import VmopsBench.Words.Arc

/-!
# What comes to an end whatever fails

A timed loop makes no more turns than its operation limit allows, and every other loop of a run
function but two counts upwards to a bound. The two are the loop of the elevation benchmark that
maps the region, whose counter may wrap, and the one in which the workers of the shootdown benchmark
wait for thread 0. So a thread comes to an end whatever its calls are answered
(`VmopsBench.terminates_platThreadRunFn`), once the mapping loop does
(`VmopsBench.ProtectElevate.Finishes`) and the shootdown function is left aside.

So does the main thread, but for the joins, which it is for the threads to answer
(`VmopsBench.terminates_benchEntry`).
-/

namespace VmopsBench

open Interact Prog

/-! ### The skeletons -/

section Skeletons

variable {ξ : Type} {tid : BitVec 32} {sampling : Sampling} {tStart tEnd : PlatTime}
  {dflt nops : SizeT} {arg : VmopsBenchRunArg}

/-- **The timed loop** stops at its operation limit. -/
theorem terminates_timedLoop {op : ξ → Prog threadSig (Except ξ ξ)}
    (hop : ∀ v, (op v).Terminates) (s : LoopState ξ) :
    (timedLoop tid sampling tStart tEnd nops op s).Terminates := by
  refine terminates_of_ends (g := []) (.whileLoop (Q := fun _ _ => True) (fun _ _ => True)
    (fun s _ => nops.toNat - s.counter.toNat) ?_ (fun _ _ _ _ => trivial) trivial)
  intro s g _ hrunning
  refine .bind (((hop s.vars).ends g).mono fun o g' _ => ?_)
  rcases o with v | v
  · exact .ret trivial
  · refine .perform trivial fun t _ => .ret ⟨trivial, ?_⟩
    have hlt : s.counter < nops := of_decide_eq_true (Bool.and_eq_true_iff.mp hrunning).2
    have hnat := BitVec.lt_def.mp hlt
    have hnext : (s.counter + 1).toNat = s.counter.toNat + 1 := Words.toNat_succ_of_lt hlt
    show nops.toNat - (s.counter + 1).toNat < nops.toNat - s.counter.toNat
    omega

theorem terminates_timedRun {op : ξ → Prog threadSig (Except ξ ξ)}
    {onError : ξ → Prog threadSig Unit} {vars : ξ} (hop : ∀ v, (op v).Terminates)
    (herror : ∀ v, (onError v).Terminates) :
    (timedRun arg dflt sampling op onError vars).Terminates := by
  refine terminates_perform_bind fun _ => terminates_perform_bind fun _ =>
    (terminates_timedLoop hop _).bind fun o => ?_
  rcases o with s | s
  · exact (herror s.vars).bind fun _ => terminates_ret _
  · exact terminates_perform_bind fun _ => terminates_perform_bind fun _ => terminates_ret _

theorem terminates_mapPages : (mapPages arg).Terminates := by
  rw [mapPages]
  split
  · refine (terminates_forLoop fun i s => ?_).bind fun _ => terminates_ret _
    refine terminates_perform_bind fun ok => ?_
    split <;> exact terminates_ret _
  · refine terminates_forLoop fun i addrs => terminates_perform_bind fun addr => ?_
    rcases addr with _ | addr <;> exact terminates_ret _

theorem terminates_cleanupAndExit {addrs : ℕ → Addr} {exit : Exit} :
    (cleanupAndExit arg addrs exit).Terminates := by
  refine terminates_perform_bind fun _ => (terminates_forLoop fun i _ => ?_).bind fun _ =>
    terminates_perform_bind fun _ => terminates_perform_bind fun _ => terminates_ret _
  split
  · exact terminates_perform_bind fun _ => terminates_ret _
  · exact terminates_ret _

theorem terminates_pagedRun {op : Pages → Prog threadSig (Except Pages Pages)}
    (hop : ∀ v, (op v).Terminates) : (pagedRun arg op).Terminates := by
  refine terminates_perform_bind fun block => ?_
  rcases block with _ | _
  · exact terminates_ret _
  · refine terminates_mapPages.bind fun o => ?_
    rcases o with addrs | addrs
    · exact terminates_cleanupAndExit
    · refine terminates_perform_bind fun _ => terminates_perform_bind fun _ =>
        (terminates_timedLoop hop _).bind fun o => ?_
      rcases o with s | s
      · exact terminates_cleanupAndExit
      · exact terminates_perform_bind fun _ => terminates_cleanupAndExit

end Skeletons

/-! ### The operations -/

section Operations

variable {arg : VmopsBenchRunArg}

theorem terminates_mapUnmapOp (v : Unit) : (MapUnmap.mapUnmapOp arg v).Terminates := by
  rw [MapUnmap.mapUnmapOp]
  split
  · refine terminates_perform_bind fun mapped => ?_
    split
    · refine terminates_perform_bind fun unmapped => ?_
      split <;> exact terminates_ret _
    · exact terminates_ret _
  · refine terminates_perform_bind fun addr => ?_
    rcases addr with _ | addr
    · exact terminates_ret _
    · refine terminates_perform_bind fun unmapped => ?_
      split <;> exact terminates_ret _

theorem terminates_mapUnmap4kOp (v : Pages) : (MapUnmap.mapUnmap4kOp arg v).Terminates := by
  refine terminates_perform_bind fun unmapped => ?_
  split
  · split
    · refine terminates_perform_bind fun mapped => ?_
      split <;> exact terminates_ret _
    · refine terminates_perform_bind fun addr => ?_
      rcases addr with _ | addr <;> exact terminates_ret _
  · exact terminates_ret _

theorem terminates_mapOnlyOp (addr : Addr) : (MapUnmap.mapOnlyOp arg addr).Terminates := by
  rw [MapUnmap.mapOnlyOp]
  split
  · refine terminates_perform_bind fun mapped => ?_
    split <;> exact terminates_ret _
  · refine terminates_perform_bind fun addr => ?_
    rcases addr with _ | addr <;> exact terminates_ret _

theorem terminates_mapOnly4kOp (v : Addr × SizeT) :
    (MapUnmap.mapOnly4kOp arg v).Terminates := by
  rw [MapUnmap.mapOnly4kOp]
  split
  · refine terminates_perform_bind fun mapped => ?_
    split <;> exact terminates_ret _
  · refine terminates_perform_bind fun addr => ?_
    rcases addr with _ | addr <;> exact terminates_ret _

theorem terminates_protectTwice {addr : Addr} {size : SizeT} :
    (Protect.protectTwice addr size).Terminates := by
  refine terminates_perform_bind fun lowered => ?_
  split
  · exact terminates_perform _
  · exact terminates_ret _

theorem terminates_protectOp (addr : Addr) : (Protect.protectOp arg addr).Terminates := by
  refine terminates_protectTwice.bind fun ok => ?_
  split <;> exact terminates_ret _

theorem terminates_protect4kOp (v : Pages) : (Protect.protect4kOp arg v).Terminates := by
  refine terminates_protectTwice.bind fun ok => ?_
  split <;> exact terminates_ret _

theorem terminates_elevateOp (addr : Addr) : (ProtectElevate.elevateOp addr).Terminates := by
  refine terminates_perform_bind fun ok => ?_
  split <;> exact terminates_ret _

theorem terminates_mapRegion : (Protect.mapRegion arg).Terminates := by
  rw [Protect.mapRegion]
  split
  · refine terminates_perform_bind fun mapped => ?_
    split <;> exact terminates_ret _
  · exact terminates_perform _

end Operations

/-! ### The mapping loop of the elevation benchmark -/

namespace ProtectElevate

/-- The multiples of `memsize` that take the counter of the mapping loop from `i` to its bound. -/
def reachesFrom (cfg : VmopsBenchCfg) (i : SizeT) : Set ℕ :=
  {m | ¬i + BitVec.ofNat 64 m * cfg.memsize < totalMapSize cfg}

/-- **The mapping loop finishes**: its counter comes to the bound, and does not step over it
each time that it wraps. -/
def Finishes (cfg : VmopsBenchCfg) : Prop := (reachesFrom cfg 0).Nonempty

variable {arg : VmopsBenchRunArg}

/-- One turn less. -/
theorem sInf_reachesFrom_lt {cfg : VmopsBenchCfg} {i : SizeT} (h : (reachesFrom cfg i).Nonempty)
    (hi : i < totalMapSize cfg) : (reachesFrom cfg (i + cfg.memsize)).Nonempty ∧
      sInf (reachesFrom cfg (i + cfg.memsize)) < sInf (reachesFrom cfg i) := by
  have hmem : sInf (reachesFrom cfg i) ∈ reachesFrom cfg i := Nat.sInf_mem h
  obtain ⟨m, hm⟩ : ∃ m, sInf (reachesFrom cfg i) = m + 1 := by
    refine Nat.exists_eq_succ_of_ne_zero fun hzero => ?_
    rw [hzero] at hmem
    exact hmem (by simpa using hi)
  have hnext : m ∈ reachesFrom cfg (i + cfg.memsize) := by
    rw [hm] at hmem
    have hsum : i + cfg.memsize + BitVec.ofNat 64 m * cfg.memsize =
        i + BitVec.ofNat 64 (m + 1) * cfg.memsize := by
      rw [BitVec.ofNat_add, BitVec.add_mul, BitVec.one_mul]
      ac_rfl
    show ¬i + cfg.memsize + BitVec.ofNat 64 m * cfg.memsize < _
    rw [hsum]
    exact hmem
  refine ⟨⟨m, hnext⟩, ?_⟩
  rw [hm]
  exact Nat.lt_succ_of_le (Nat.sInf_le hnext)

theorem terminates_mapChunks (h : Finishes arg.cfg) (addr : Addr) :
    (mapChunks arg (0, addr)).Terminates := by
  let turnsLeft := fun (s : SizeT × Addr) (_ : List (Event threadSig)) =>
    sInf (reachesFrom arg.cfg s.1)
  refine terminates_of_ends (g := []) (.whileLoop (Q := fun _ _ => True)
    (fun (s : SizeT × Addr) _ => (reachesFrom arg.cfg s.1).Nonempty) turnsLeft ?_
    (fun _ _ _ _ => trivial) h)
  rintro ⟨i, addr⟩ g hs hlt
  have hless := sInf_reachesFrom_lt hs (of_decide_eq_true hlt)
  rw [mapChunk]
  split
  · refine .perform trivial fun mapped _ => ?_
    split
    · exact .perform trivial fun _ _ => .ret hless
    · exact .ret trivial
  · refine .perform trivial fun curaddr _ => ?_
    rcases curaddr with _ | curaddr
    · exact .ret trivial
    · exact .perform trivial fun _ _ => .ret hless

end ProtectElevate

/-! ### The threads -/

/-- **A thread comes to an end whatever its calls are answered.** -/
theorem terminates_platThreadRunFn {f : RunFn} {arg : VmopsBenchRunArg} (h : f ≠ .tlbshoot)
    (hfinishes : f = .elevate → ProtectElevate.Finishes arg.cfg) :
    (platThreadRunFn f arg).Terminates := by
  refine terminates_perform_bind fun _ => ?_
  cases f with
  | mapunmap => exact terminates_timedRun terminates_mapUnmapOp fun _ => terminates_ret _
  | mapunmap4k => exact terminates_pagedRun terminates_mapUnmap4kOp
  | nounmap =>
    change (MapUnmap.benchRunNounmapFn arg).Terminates
    exact terminates_timedRun terminates_mapOnlyOp fun _ => terminates_ret _
  | nounmap4k =>
    change (MapUnmap.benchRunNounmap4kFn arg).Terminates
    exact terminates_timedRun terminates_mapOnly4kOp fun _ => terminates_perform _
  | protect =>
    refine terminates_mapRegion.bind fun o => ?_
    rcases o with _ | addr
    · exact terminates_ret _
    · exact terminates_timedRun terminates_protectOp fun _ =>
        terminates_perform_bind fun _ => terminates_ret _
  | protect4k => exact terminates_pagedRun terminates_protect4kOp
  | elevate =>
    refine (ProtectElevate.terminates_mapChunks (hfinishes rfl) _).bind fun o => ?_
    rcases o with _ | s
    · exact terminates_ret _
    · exact terminates_timedRun terminates_elevateOp fun _ =>
        terminates_perform_bind fun _ => terminates_ret _
  | tlbshoot => exact absurd rfl h

end VmopsBench

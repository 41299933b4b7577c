import VmopsBench.Interact.Spec
import VmopsBench.Benchmarks.Entry

/-!
# What the main thread does to its threads

The main thread decides which threads exist, and it is sequential, so what can be
said of the threads at large follows from a small history of it: the barrier it
has initialised, how many threads it has started and joined, whether it has destroyed the
barrier, and whether one of its own calls has failed without which the
benchmark cannot go on (`VmopsBench.Launch`).

`VmopsBench.Launch.MayCall` is the discipline the main thread follows. It starts
the threads in order, each once, after the barrier was initialised for all of
them; it joins them in order, when all have started; it destroys the barrier when all are
joined; and it cancels only after a failure. `VmopsBench.runBenchmark_launch`
proves this of `vmops_utils_run_benchmark` and `VmopsBench.benchEntry_launch` of
the entry functions, for all arguments.
-/

namespace VmopsBench

open Interact

/-! ### The history of the main thread -/

/-- **What the main thread has done.** -/
structure Launch where
  /-- The number of threads the barrier was initialised for. -/
  barrier : Option (BitVec 32)
  started : ℕ
  joined : ℕ
  destroyed : Bool
  /-- A call has failed without which the benchmark cannot go on. -/
  failed : Bool

/-- The failures that end a benchmark: all but that of the allocation of the samples. -/
def MainCall.aborts : (c : MainCall) → c.Resp → Bool
  | .callocStats .., _ => false
  | c, r => c.fails r

/-- The history after one more answered call. -/
def Launch.upd (g : Launch) (c : MainCall) (r : c.Resp) : Launch where
  barrier := match c, r with
    | .barrierInit n, r => if r then some n else g.barrier
    | _, _ => g.barrier
  started := match c, r with
    | .threadStart .., r => if r then g.started + 1 else g.started
    | _, _ => g.started
  joined := match c with
    | .threadJoin _ => g.joined + 1
    | _ => g.joined
  destroyed := match c with
    | .barrierDestroy => true
    | _ => g.destroyed
  failed := g.failed || c.aborts r

/-- A failure stays on record. -/
theorem Launch.failed_upd {g : Launch} {c : MainCall} {r : c.Resp} (h : g.failed = true) :
    (g.upd c r).failed = true := by
  simp [Launch.upd, h]

/-- Nothing has been done. -/
def Launch.init : Launch := ⟨none, 0, 0, false, false⟩

/-- The history of a sequence of answered calls. -/
def launch (tr : List (Event mainSig)) : Launch :=
  tr.foldl (fun g e => g.upd e.call e.resp) Launch.init

@[simp] theorem launch_nil : launch [] = Launch.init := rfl

@[simp] theorem launch_concat (tr : List (Event mainSig)) (e : Event mainSig) :
    launch (tr ++ [e]) = (launch tr).upd e.call e.resp := by
  simp [launch]

/-! ### The discipline -/

section Discipline

variable (n : BitVec 32) (who : ℕ → RunFn → VmopsBenchRunArg → Prop)

/-- **What the main thread may call**, when there are `n` threads and `who` says what each
one runs. -/
def Launch.MayCall (g : Launch) : MainCall → Prop
  | .callocArgs _ | .callocStats .. | .vmCreate .. | .vmMap .. => g = Launch.init
  | .barrierInit m => m = n ∧ g = Launch.init
  | .threadStart i run st => i < n.toNat ∧ who i run st ∧ g = ⟨some n, i, 0, false, false⟩
  | .threadCancel i => i < g.started ∧ g.failed = true
  | .threadJoin i => i < n.toNat ∧ g = ⟨some n, n.toNat, i, false, false⟩
  | .barrierDestroy => g = ⟨some n, n.toNat, n.toNat, false, false⟩
  | _ => True

/-- **What it has done when it returns**: everything, or a call has failed. -/
def Launch.MayReturn (r : ℤ) (g : Launch) : Prop :=
  r = 0 ∧ g = ⟨some n, n.toNat, n.toNat, true, false⟩ ∨ r = -1 ∧ g.failed = true ∧
    g.destroyed = false

/-- The specification of the discipline: nothing is assumed of the answers. -/
def launching : Spec mainSig Launch where
  pre := Launch.MayCall n who
  env _ _ _ := True
  upd := Launch.upd

theorem launching_admits (g : Launch) (tr : List (Event mainSig)) : (launching n who).Admits g tr :=
  Spec.admits_of_forall _ (fun _ _ _ => trivial) g tr

end Discipline

section Programs

variable {n : BitVec 32} {who : ℕ → RunFn → VmopsBenchRunArg → Prop}
  {args : ℕ → VmopsBenchRunArg} {runfn : RunFn}

theorem wp_startThreads (hwho : ∀ i < n.toNat, who i runfn (args i)) :
    wp (launching n who) (startThreads n args runfn)
      (onExcept (fun _ g => g.failed = true ∧ g.destroyed = false)
        fun _ g => g = ⟨some n, n.toNat, 0, false, false⟩) ⟨some n, 0, 0, false, false⟩ := by
  refine wp_forLoop (fun i _ g => g = ⟨some n, i, 0, false, false⟩) rfl ?_ fun _ _ h => h
  rintro i - g hi rfl
  refine wp_perform_bind.mpr ⟨⟨hi, hwho i hi, rfl⟩, fun started _ => ?_⟩
  cases started with
  | true => rfl
  | false =>
    -- the loop that cancels the threads started so far
    refine (wp_bind _ _).mpr (wp_forLoop
      (fun _ _ g => g = ⟨some n, i, 0, false, true⟩) rfl ?_ fun _ g hg => ?_)
    · rintro j - g hj rfl
      exact ⟨⟨hj, rfl⟩, fun _ _ => rfl⟩
    · subst hg
      exact ⟨rfl, rfl⟩

theorem wp_joinThreads :
    wp (launching n who) (joinThreads n args)
      (fun _ g => g = ⟨some n, n.toNat, n.toNat, false, false⟩)
      ⟨some n, n.toNat, 0, false, false⟩ := by
  refine wp_forLoop (fun i _ g => g = ⟨some n, n.toNat, i, false, false⟩) rfl ?_ fun _ _ h => h
  rintro i args g hi rfl
  exact ⟨⟨hi, rfl⟩, fun _ _ => rfl⟩

/-- **`vmops_utils_run_benchmark` follows the discipline.** -/
theorem runBenchmark_launch (hwho : ∀ i < n.toNat, who i runfn (args i)) :
    wp (launching n who) (vmopsUtilsRunBenchmark n args runfn)
      (fun r => Launch.MayReturn n r.1) Launch.init := by
  refine wp_perform_bind.mpr ⟨⟨rfl, rfl⟩, fun ready _ => ?_⟩
  cases ready with
  | false => exact Or.inr ⟨rfl, rfl, rfl⟩
  | true =>
    refine (wp_bind _ _).mpr (wp_mono _ (fun o g h => ?_) (wp_startThreads hwho))
    cases o with
    | error _ => exact Or.inr ⟨rfl, h⟩
    | ok _ =>
      subst h
      refine (wp_bind _ _).mpr (wp_mono _ (fun o g h => ?_) wp_joinThreads)
      subst h
      exact ⟨rfl, fun _ _ => Or.inl ⟨rfl, rfl⟩⟩

/-- The threads all run `f`, each with its own arguments. -/
def runsAll (f : RunFn) (args : ℕ → VmopsBenchRunArg) (i : ℕ) (run : RunFn)
    (st : VmopsBenchRunArg) : Prop :=
  run = f ∧ st = args i

theorem runBenchmark_runsAll : wp (launching n (runsAll runfn args))
    (vmopsUtilsRunBenchmark n args runfn) (fun r => Launch.MayReturn n r.1) Launch.init :=
  runBenchmark_launch fun _ _ => ⟨rfl, rfl⟩

/-! #### Preparation -/

/-- What the main thread has done before it initialises the barrier: nothing, or a call has
failed. -/
def Launch.Prepared (ok : Bool) (g : Launch) : Prop :=
  if ok then g = Launch.init else g.failed = true ∧ g.destroyed = false

theorem wp_createMemobjs {cfg : VmopsBenchCfg} :
    wp (launching n who) (createMemobjs cfg) (fun o g => Launch.Prepared o.isSome g)
      Launch.init := by
  rw [createMemobjs]
  split
  · refine wp_perform_bind.mpr ⟨rfl, fun memobj _ => ?_⟩
    cases memobj with
    | none => exact ⟨rfl, rfl⟩
    | some memobj => rfl
  · refine (wp_bind _ _).mpr (wp_forLoop (fun _ _ g => g = Launch.init) rfl ?_ ?_)
    · rintro i memobjs g - rfl
      refine wp_perform_bind.mpr ⟨rfl, fun memobj _ => ?_⟩
      cases memobj with
      | some memobj => rfl
      | none =>
        -- the loop that destroys what has been created
        refine (wp_bind _ _).mpr (wp_forLoop
          (fun _ _ g => g = ⟨none, 0, 0, false, true⟩) rfl ?_ fun _ g hg => ?_)
        · rintro j - g - rfl
          exact ⟨trivial, fun _ _ => rfl⟩
        · subst hg
          exact ⟨rfl, rfl⟩
    · rintro memobjs g rfl
      rfl

theorem wp_prepopulate {memobj : PlatMemobj} :
    wp (launching n who) (prepopulate memobj)
      (onExcept (fun _ => Launch.Prepared false) fun _ => Launch.Prepared true) Launch.init := by
  refine wp_forLoop (fun _ _ g => g = Launch.init) rfl ?_ fun _ _ h => h
  rintro i - g - rfl
  refine wp_perform_bind.mpr ⟨rfl, fun addr _ => ?_⟩
  cases addr with
  | none => exact ⟨rfl, rfl⟩
  | some addr => rfl

/-- Releasing the argument records does not undo a failure. -/
theorem wp_freeArgs {α : Type} {a : α} {Q : α → Launch → Prop} {g : Launch}
    (hg : g.Prepared false) (hQ : ∀ g, Launch.Prepared false g → Q a g) :
    wp (launching n who) (mainCall .freeArgs >>= fun _ => pure a) Q g := by
  refine wp_perform_bind.mpr ⟨trivial, fun _ _ => hQ _ ⟨?_, hg.2⟩⟩
  exact Launch.failed_upd hg.1

theorem wp_prepareArgs {cfg : VmopsBenchCfg} :
    wp (launching n who) (vmopsUtilsPrepareArgs cfg)
      (fun o g => Launch.Prepared o.isSome g ∧
        ∀ p, o = some p → p.1 = cfg ∨ p.1 = { cfg with stats := 0 }) Launch.init := by
  refine wp_perform_bind.mpr ⟨rfl, fun args _ => ?_⟩
  cases args with
  | false => exact ⟨⟨rfl, rfl⟩, nofun⟩
  | true =>
    -- without samples the benchmark goes on
    have hstats : wp (launching n who) (allocateStats cfg)
        (fun cfg' g => g = Launch.init ∧ (cfg' = cfg ∨ cfg' = { cfg with stats := 0 }))
        Launch.init := by
      rw [allocateStats]
      split
      · exact ⟨rfl, Or.inl rfl⟩
      · refine wp_perform_bind.mpr ⟨rfl, fun samples _ => ?_⟩
        cases samples with
        | true => exact ⟨rfl, Or.inl rfl⟩
        | false => exact ⟨rfl, Or.inr rfl⟩
    refine (wp_bind _ _).mpr (wp_mono _ ?_ hstats)
    rintro cfg' g ⟨rfl, hcfg⟩
    refine (wp_bind _ _).mpr (wp_mono _ (fun o g hg => ?_) wp_createMemobjs)
    cases o with
    | none => exact wp_freeArgs hg fun g hg => ⟨hg, nofun⟩
    | some memobjs =>
      obtain rfl : g = Launch.init := hg
      refine (wp_bind _ _).mpr (wp_mono _ (fun o g hg => ?_) wp_prepopulate)
      cases o with
      | error _ => exact wp_freeArgs hg fun g hg => ⟨hg, nofun⟩
      | ok _ =>
        refine ⟨hg, fun p hp => ?_⟩
        obtain rfl := Option.some.inj hp
        exact hcfg

/-! #### The entries -/

theorem wp_cleanupArgs {args : ℕ → VmopsBenchRunArg} :
    wp (launching n who) (vmopsUtilsCleanupArgs args)
      (fun _ g => g = ⟨some n, n.toNat, n.toNat, true, false⟩)
      ⟨some n, n.toNat, n.toNat, true, false⟩ := by
  refine (wp_bind _ _).mpr (wp_whileLoop
    (fun _ g => g = ⟨some n, n.toNat, n.toNat, true, false⟩) rfl ?_ ?_)
  · rintro ⟨current, memobj⟩ g rfl -
    simp only [cleanupTurn]
    split
    · exact ⟨trivial, fun _ _ => rfl⟩
    · rfl
  · rintro s g rfl -
    exact ⟨trivial, fun _ _ => rfl⟩

theorem wp_reportAndCleanup {cfg : VmopsBenchCfg} {args : ℕ → VmopsBenchRunArg} :
    wp (launching n who) (reportAndCleanup cfg args)
      (fun _ g => g = ⟨some n, n.toNat, n.toNat, true, false⟩)
      ⟨some n, n.toNat, n.toNat, true, false⟩ := by
  rw [reportAndCleanup]
  split
  · rfl
  · exact ⟨trivial, fun _ _ => wp_cleanupArgs⟩

/-- The threads run the function that an entry chooses for its options. -/
def runsChosen (choose : VmopsBenchCfg → RunFn) (cfg : VmopsBenchCfg) (opts : List Char) (_ : ℕ)
    (run : RunFn) (_ : VmopsBenchRunArg) : Prop :=
  ∃ cfg', vmopsUtilsParseOptions opts cfg = some cfg' ∧ run = choose cfg'

/-- The options of a benchmark do not change its threads. -/
theorem corelistSize_of_parseOptions {opts : List Char} {cfg cfg' : VmopsBenchCfg}
    (h : vmopsUtilsParseOptions opts cfg = some cfg') : cfg'.corelistSize = cfg.corelistSize := by
  rw [vmopsUtilsParseOptions] at h
  split at h
  · cases h
  · split at h
    · cases h
    · obtain rfl := Option.some.inj h
      rfl

/-- **An entry function follows the discipline**, if its choice of a run function
does not depend on the samples. It returns `-1` when its options are rejected. -/
theorem benchEntry_launch {choose : VmopsBenchCfg → RunFn}
    (hchoose : ∀ cfg, choose { cfg with stats := 0 } = choose cfg) (cfg : VmopsBenchCfg)
    (opts : List Char) :
    wp (launching cfg.corelistSize (runsChosen choose cfg opts)) (benchEntry choose cfg opts)
      (fun r g => vmopsUtilsParseOptions opts cfg ≠ none ∧ Launch.MayReturn cfg.corelistSize r g ∨
        vmopsUtilsParseOptions opts cfg = none ∧ r = -1) Launch.init := by
  rw [benchEntry]
  cases hparse : vmopsUtilsParseOptions opts cfg with
  | none => exact Or.inr ⟨rfl, rfl⟩
  | some cfg₁ =>
    refine (wp_bind _ _).mpr (wp_mono _ ?_ wp_prepareArgs)
    rintro o g ⟨hg, hcfg⟩
    cases o with
    | none => exact Or.inl ⟨nofun, Or.inr ⟨rfl, hg⟩⟩
    | some p =>
      obtain ⟨cfg₂, args⟩ := p
      obtain rfl : g = Launch.init := hg
      -- neither the options nor the preparation change the threads or the choice
      have hsize : cfg₂.corelistSize = cfg.corelistSize := by
        rw [← corelistSize_of_parseOptions hparse]
        rcases hcfg _ rfl with h | h <;> rw [show cfg₂ = _ from h]
      have hrun : choose cfg₂ = choose cfg₁ := by
        rcases hcfg _ rfl with h | h
        · rw [show cfg₂ = _ from h]
        · rw [show cfg₂ = _ from h, hchoose]
      have hbench : wp (launching cfg.corelistSize (runsChosen choose cfg opts))
          (vmopsUtilsRunBenchmark cfg₂.corelistSize args (choose cfg₂))
          (fun r => Launch.MayReturn cfg.corelistSize r.1) Launch.init := by
        rw [hsize]
        exact runBenchmark_launch fun i _ => ⟨cfg₁, hparse, hrun⟩
      refine (wp_bind _ _).mpr (wp_mono _ ?_ hbench)
      rintro ⟨r, args⟩ g hg
      rcases hg with ⟨rfl, rfl⟩ | ⟨rfl, hfail⟩
      · refine (wp_bind _ _).mpr (wp_mono _ (fun _ g hg => ?_) wp_reportAndCleanup)
        exact Or.inl ⟨nofun, Or.inl ⟨rfl, hg⟩⟩
      · exact Or.inl ⟨nofun, Or.inr ⟨rfl, hfail⟩⟩

end Programs

end VmopsBench

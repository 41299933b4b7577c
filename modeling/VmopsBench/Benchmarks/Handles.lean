import VmopsBench.Benchmarks.Options
import VmopsBench.Concurrent.EntryThreads
import VmopsBench.Platform.Threads

/-!
# The blocks of the main thread

The main thread has a handful of blocks: the argument records, the samples, the barrier, and the
handle of each thread that it has started. It knows them by name, and where they are is what the
functions of the platform have returned. `VmopsBench.naming` is the discipline on the names; the
entry functions keep it, whatever fails (`VmopsBench.benchEntry_naming`).

With the functions of either platform in the place of the calls, the discipline on the names becomes
the discipline of the heap, and the pointers stand for the threads and the barrier that the main
thread means (`VmopsBench.handler_realizes`). So no run of an entry frees a block twice or passes
the pointer to a freed one (`VmopsBench.heapSafe`), and what is left at the end is known: no handle
of a thread, but the barrier and the samples, for which there is no statement that frees them. And
the libraries are asked for what the main thread asks for (`VmopsBench.libEntry_refines`).
-/

namespace VmopsBench

open Interact

/-! ### The calls of the main thread -/

/-- Where the blocks are: the variables `args`, `vals` and `barrier`, and `args[i].thread`. -/
abbrev MainPtrs := BlockName → Addr

/-- A pointer is stored. -/
def keep (t : MainPtrs) (b : BlockName) (o : Option Addr) : Bool × MainPtrs :=
  (o.isSome, Function.update t b (o.getD 0))

/-- **The calls of the main thread**, with the functions of a platform. -/
def ThreadLayer.handler (L : ThreadLayer) : Handler mainSig libSig MainPtrs := fun t c =>
  match c with
  | .callocArgs n => do return keep t .args (← libCall (.alloc (.args n)))
  | .callocStats n stats => do return keep t .samples (← libCall (.alloc (.samples n stats)))
  | .freeArgs => do
    libCall (.free (t .args))
    return ((), t)
  | .barrierInit n => do return keep t .barrier (← L.barrierInit n)
  | .threadStart i run st => do return keep t (.thread i) (← L.start i run st)
  | .threadCancel i => do
    L.cancel (t (.thread i))
    return ((), t)
  | .threadJoin i => do
    let arg ← L.join (t (.thread i))
    return (arg, t)
  | .barrierDestroy => do
    L.barrierDestroy (t .barrier)
    return ((), t)
  | .vmCreate path size huge => do return (← libCall (.other (.vmCreate path size huge)), t)
  | .vmDestroy memobj => do return (← libCall (.other (.vmDestroy memobj)), t)
  | .vmMap size memobj offset huge => do
    return (← libCall (.other (.vmMap size memobj offset huge)), t)
  | .printCsv args => do return (← libCall (.other (.printCsv args)), t)

/-- **An entry function over the calls of the libraries.** -/
def libEntry (L : ThreadLayer) (choose : VmopsBenchCfg → RunFn) (cfg : VmopsBenchCfg)
    (opts : List Char) (t : MainPtrs) : Prog libSig (ℤ × MainPtrs) :=
  (benchEntry choose cfg opts).interpret L.handler t

/-! ### The discipline on the names -/

/-- What may be called while certain blocks are there. -/
def MainCall.MayTouch (g : Finset BlockName) : MainCall → Prop
  | .callocArgs _ => .args ∉ g
  | .callocStats .. => .samples ∉ g
  | .barrierInit _ => .barrier ∉ g
  | .threadStart i .. => .thread i ∉ g
  | .freeArgs => .args ∈ g
  | .threadCancel i | .threadJoin i => .thread i ∈ g
  | .barrierDestroy => .barrier ∈ g
  | .vmCreate .. | .vmDestroy _ | .vmMap .. | .printCsv _ => True

/-- The blocks after a call. -/
def MainCall.onBlocks (g : Finset BlockName) : (c : MainCall) → c.Resp → Finset BlockName
  | .callocArgs _, r => if r then insert .args g else g
  | .callocStats .., r => if r then insert .samples g else g
  | .barrierInit _, r => if r then insert .barrier g else g
  | .threadStart i .., r => if r then insert (.thread i) g else g
  | .freeArgs, _ => g.erase .args
  | .threadCancel i, _ | .threadJoin i, _ => g.erase (.thread i)
  | _, _ => g

/-- **The main thread gives back what it has**, and obtains no block while it has one of that
name. -/
def naming : Spec mainSig (Finset BlockName) where
  pre g c := c.MayTouch g
  env _ _ _ := True
  upd g c r := c.onBlocks g r

/-! ### What is asked of the libraries -/

/-- **What a call of the main thread asks for.** It asks for nothing if it fails. -/
def MainCall.op? (posix : Bool) : (c : MainCall) → c.Resp → Option MainOp
  | .threadStart i run st, r => if r then some (.started i run st) else none
  | .threadCancel i, _ => if posix then some (.cancelled (some (.thread i))) else none
  | .threadJoin i, arg => some (.joined (some (.thread i)) arg)
  | .barrierInit n, r => if posix && r then some (.ready n) else none
  | .barrierDestroy, _ => if posix then some (.destroyed (some .barrier)) else none
  | .vmCreate path size huge, r => some (.other ⟨.vmCreate path size huge, r⟩)
  | .vmDestroy memobj, r => some (.other ⟨.vmDestroy memobj, r⟩)
  | .vmMap size memobj offset huge, r => some (.other ⟨.vmMap size memobj offset huge, r⟩)
  | .printCsv args, r => some (.other ⟨.printCsv args, r⟩)
  | .callocArgs _, _ | .callocStats .., _ | .freeArgs, _ => none

/-- **What the main thread asks for** in a run. -/
def mainOps (posix : Bool) (tr : List (Event mainSig)) : List MainOp :=
  tr.filterMap fun e => e.call.op? posix e.resp

/-- **What is asked of the libraries** in a run. -/
def libOps (tr : List (Event libSig)) : List MainOp := (account Account.add Account.empty tr).ops

/-- The blocks whose pointers are handed to the libraries. -/
def BlockName.Registered (posix : Bool) : BlockName → Prop
  | .thread _ => True
  | .barrier => posix = true
  | .args | .samples => False

/-- **The libraries know the blocks** by the pointers that the main thread has to them, and have
been asked for what the main thread asks for. -/
structure Accounted (posix : Bool) (g : Finset BlockName × List (Event mainSig)) (t : MainPtrs)
    (x : Finset Addr × Account) : Prop where
  places : Places g.1 t x.1
  owner : ∀ b ∈ g.1, b.Registered posix → x.2.owner (t b) = some b
  ops : x.2.ops = mainOps posix g.2

theorem mainOps_addEvent {posix : Bool} {tr : List (Event mainSig)} {c : MainCall} {r : c.Resp} :
    mainOps posix (addEvent tr c r) = mainOps posix tr ++ (c.op? posix r).toList := by
  rw [mainOps, addEvent, List.filterMap_append, mainOps]
  rcases h : c.op? posix r with _ | op <;> simp [h]

section Realizes

variable {posix : Bool} {g : Finset BlockName} {tr tr' : List (Event mainSig)} {t : MainPtrs}
  {live : Finset Addr} {a a' : Account} {b : BlockName}

namespace Accounted

/-- Nothing is obtained or given back. -/
theorem same (h : Accounted posix (g, tr) t (live, a)) (howner : a'.owner = a.owner)
    (hops : a'.ops = mainOps posix tr') : Accounted posix (g, tr') t (live, a') where
  places := h.places
  owner b hb hreg := by
    rw [howner]
    exact h.owner b hb hreg
  ops := hops

/-- A call that asks for nothing. -/
theorem ops_same (h : Accounted posix (g, tr) t (live, a)) {c : MainCall} {r : c.Resp}
    (hop : c.op? posix r = none) : a.ops = mainOps posix (addEvent tr c r) := by
  rw [mainOps_addEvent, hop, ← h.ops]
  exact (List.append_nil _).symm

/-- A call that asks for something. -/
theorem ops_ask (h : Accounted posix (g, tr) t (live, a)) {c : MainCall} {r : c.Resp} {op : MainOp}
    (hop : c.op? posix r = some op) : (a.ask op).ops = mainOps posix (addEvent tr c r) := by
  rw [mainOps_addEvent, hop, ← h.ops]
  rfl

/-- A block was not obtained. -/
theorem notObtained (h : Accounted posix (g, tr) t (live, a)) (hb : b ∉ g)
    (hops : a.ops = mainOps posix tr') :
    Accounted posix (g, tr') (Function.update t b 0) (live, a) := by
  have hsame : ∀ c ∈ g, Function.update t b 0 c = t c := by
    intro c hc
    refine Function.update_of_ne ?_ _ _
    rintro rfl
    exact hb hc
  refine ⟨h.places.congr hsame, fun c hc hreg => ?_, hops⟩
  rw [hsame c hc]
  exact h.owner c hc hreg

/-- A block was obtained, and is known to the libraries if it is to be. -/
theorem obtained (h : Accounted posix (g, tr) t (live, a)) (hb : b ∉ g) {p : Addr} (hp : p ∉ live)
    (howner : ∀ q ≠ p, a'.owner q = a.owner q) (hnew : b.Registered posix → a'.owner p = some b)
    (hops : a'.ops = mainOps posix tr') :
    Accounted posix (insert b g, tr') (Function.update t b p) (insert p live, a') := by
  refine ⟨h.places.insert hb hp, fun c hc hreg => ?_, hops⟩
  rcases Finset.mem_insert.mp hc with rfl | hold
  · rw [Function.update_self]
    exact hnew hreg
  · have hne : c ≠ b := by
      rintro rfl
      exact hb hold
    have hlive : t c ≠ p := by
      rintro rfl
      exact hp (h.places.mem hold)
    rw [Function.update_of_ne hne, howner _ hlive]
    exact h.owner c hold hreg

/-- A block is given back. -/
theorem released (h : Accounted posix (g, tr) t (live, a)) (hb : b ∈ g)
    (howner : a'.owner = a.owner) (hops : a'.ops = mainOps posix tr') :
    Accounted posix (g.erase b, tr') t (live.erase (t b), a') := by
  refine ⟨h.places.erase hb, fun c hc hreg => ?_, hops⟩
  rw [howner]
  exact h.owner c (Finset.mem_of_mem_erase hc) hreg

end Accounted

theorem accounted_empty (posix : Bool) (t : MainPtrs) :
    Accounted posix (∅, []) t (∅, Account.empty) where
  places := Places.empty t
  owner b hb := absurd hb (Finset.notMem_empty b)
  ops := rfl

/-- **A block that may have been obtained gets its name.** The history is `past` of the answer. -/
theorem wp_keep (past : Bool → List (Event mainSig)) {p : Prog libSig (Option Addr)}
    {named : Addr → Account} (h : Accounted posix (g, tr) t (live, a))
    (hp : wp accounted p (ObtainedFrom live a named) (live, a)) (hb : b ∉ g)
    (howner : ∀ p q, q ≠ p → (named p).owner q = a.owner q)
    (hnew : ∀ p, b.Registered posix → (named p).owner p = some b)
    (hnone : a.ops = mainOps posix (past false))
    (hsome : ∀ p, (named p).ops = mainOps posix (past true)) :
    wp accounted (p >>= fun o => pure (keep t b o))
      (fun r x => True ∧ Accounted posix (if r.1 then insert b g else g, past r.1) r.2 x)
      (live, a) := by
  refine (wp_bind _ _).mpr (wp_mono _ (fun o x ho => ⟨trivial, ?_⟩) hp)
  rcases o with _ | q
  · obtain rfl : x = (live, a) := ho
    exact h.notObtained hb hnone
  · obtain ⟨hfresh, rfl⟩ := ho
    exact h.obtained hb hfresh (howner q) (hnew q) (hsome q)

/-- `malloc` and `calloc` themselves. -/
theorem wp_alloc_obtained {what : Allocation} :
    wp accounted (libCall (.alloc what)) (ObtainedFrom live a fun _ => a) (live, a) := by
  show wp accounted (libCall (.alloc what) >>= Prog.ret) (ObtainedFrom live a fun _ => a) (live, a)
  exact wp_lib_alloc (Q := ObtainedFrom live a fun _ => a) rfl fun _ hp => ⟨hp, rfl⟩

/-- A call that is made as it is. -/
theorem wp_lib_other {c : MainCall} (h : Accounted posix (g, tr) t (live, a))
    (hop : ∀ r, c.op? posix r = some (.other ⟨c, r⟩)) :
    wp accounted (libCall (.other c) >>= fun r => pure (r, t))
      (fun r x => True ∧ Accounted posix (g, addEvent tr c r.1) r.2 x) (live, a) := by
  refine wp_lib_use (fun _ => rfl) rfl (by simp [heapOps]) fun r => ⟨trivial, ?_⟩
  exact h.same rfl (h.ops_ask (hop r))

/-- **The functions of a platform realize the discipline on the names**, and ask the libraries for
what the main thread asks for. -/
theorem handler_realizes {L : ThreadLayer} (hL : L.Implements posix) :
    L.handler.Realizes (naming.tracking addEvent) accounted (Accounted posix) := by
  rintro ⟨g, tr⟩ t ⟨live, a⟩ c h hpre
  cases c with
  | callocArgs n =>
    exact wp_keep (fun r => addEvent tr (MainCall.callocArgs n) r) h wp_alloc_obtained hpre
      (fun _ _ _ => rfl) (fun _ => nofun) (h.ops_same rfl) fun _ => h.ops_same rfl
  | callocStats n stats =>
    exact wp_keep (fun r => addEvent tr (MainCall.callocStats n stats) r) h wp_alloc_obtained hpre
      (fun _ _ _ => rfl) (fun _ => nofun) (h.ops_same rfl) fun _ => h.ops_same rfl
  | freeArgs =>
    exact wp_lib_free (h.places.mem hpre) ⟨trivial, h.released hpre rfl (h.ops_same rfl)⟩
  | barrierInit n =>
    refine wp_keep (fun r => addEvent tr (MainCall.barrierInit n) r) h (hL.barrierInit n live a)
      hpre ?_ ?_ ?_ ?_
    · cases posix
      · exact fun _ _ _ => rfl
      · exact fun _ _ hne => Function.update_of_ne hne _ _
    · rintro p (rfl : posix = true)
      exact Function.update_self _ _ _
    · cases posix <;> exact h.ops_same rfl
    · cases posix
      · exact fun _ => h.ops_same rfl
      · exact fun _ => h.ops_ask rfl
  | threadStart i run st =>
    exact wp_keep (fun r => addEvent tr (MainCall.threadStart i run st) r) h
      (hL.start i run st live a) hpre (fun _ _ hne => Function.update_of_ne hne _ _)
      (fun _ _ => Function.update_self _ _ _) (h.ops_same rfl) fun _ => h.ops_ask rfl
  | threadCancel i =>
    refine (wp_bind _ _).mpr (wp_mono _ ?_ (hL.cancel _ live a (h.places.mem hpre)))
    rintro - x rfl
    refine ⟨trivial, h.released hpre ?_ ?_⟩
    · cases posix <;> rfl
    · cases posix
      · exact h.ops_same rfl
      · rw [if_pos rfl, h.owner _ hpre trivial]
        exact h.ops_ask rfl
  | threadJoin i =>
    refine (wp_bind _ _).mpr (wp_mono _ ?_ (hL.join _ live a (h.places.mem hpre)))
    rintro arg x rfl
    refine ⟨trivial, h.released hpre rfl ?_⟩
    rw [h.owner _ hpre trivial]
    exact h.ops_ask rfl
  | barrierDestroy =>
    refine (wp_bind _ _).mpr (wp_mono _ ?_ (hL.barrierDestroy _ live a (h.places.mem hpre)))
    rintro - x rfl
    cases posix
    · exact ⟨trivial, h.same rfl (h.ops_same rfl)⟩
    · refine ⟨trivial, h.same rfl ?_⟩
      rw [if_pos rfl, h.owner _ hpre rfl]
      exact h.ops_ask rfl
  | vmCreate path size huge => exact wp_lib_other h fun _ => rfl
  | vmDestroy memobj => exact wp_lib_other h fun _ => rfl
  | vmMap size memobj offset huge => exact wp_lib_other h fun _ => rfl
  | printCsv args => exact wp_lib_other h fun _ => rfl

end Realizes

/-! ### The entries -/

/-- The calls that no function of a platform's threads and barriers implements. -/
def MainCall.isOther : MainCall → Bool
  | .vmCreate .. | .vmDestroy _ | .vmMap .. | .printCsv _ => true
  | _ => false

/-- The blocks `g`, and the handles of the threads in `s`. -/
def withThreads (g : Finset BlockName) (s : Finset ℕ) : Finset BlockName := g ∪ s.image .thread

/-- There is no handle of a thread. -/
def NoThreads (g : Finset BlockName) : Prop := ∀ i, BlockName.thread i ∉ g

section Threads

variable {g : Finset BlockName} {s : Finset ℕ} {i : ℕ}

theorem withThreads_empty (g : Finset BlockName) : withThreads g ∅ = g := by simp [withThreads]

theorem mem_withThreads (hg : NoThreads g) : .thread i ∈ withThreads g s ↔ i ∈ s := by
  simp [withThreads, hg i]

theorem insert_withThreads : insert (.thread i) (withThreads g s) = withThreads g (insert i s) := by
  rw [withThreads, withThreads, Finset.image_insert, Finset.union_insert]

theorem erase_withThreads (hg : NoThreads g) :
    (withThreads g s).erase (.thread i) = withThreads g (s.erase i) := by
  ext b
  rcases b with _ | _ | _ | j
  all_goals simp [withThreads]
  have := hg j
  tauto

theorem erase_Ico {i j : ℕ} : (Finset.Ico j i).erase j = Finset.Ico (j + 1) i := by
  ext k
  simp only [Finset.mem_erase, Finset.mem_Ico]
  omega

/-- The handles are given back, one after the other. -/
theorem wp_giveBack {σ : Type} {n : ℕ} {body : ℕ → σ → Prog mainSig (Except Unit σ)} {x : σ}
    (hg : NoThreads g) (hbody : ∀ j x g, .thread j ∈ g → wp naming (body j x)
      (onExcept (fun _ _ => False) fun _ g' => g' = g.erase (.thread j)) g) :
    wp naming (Prog.forLoop n body x) (fun _ g' => g' = g) (withThreads g (Finset.range n)) := by
  rw [Finset.range_eq_Ico]
  refine wp_forLoop (fun j _ g' => g' = withThreads g (Finset.Ico j n)) rfl ?_ ?_
  · rintro j x - hj rfl
    have hmem : .thread j ∈ withThreads g (Finset.Ico j n) :=
      (mem_withThreads hg).mpr (by simpa using hj)
    refine wp_mono _ (fun o g' ho => ?_) (hbody j x _ hmem)
    rcases o with _ | x
    · exact ho.elim
    · obtain rfl : g' = _ := ho
      rw [onExcept, erase_withThreads hg, erase_Ico]
  · rintro x - rfl
    rw [Finset.Ico_self, withThreads_empty]

theorem wp_cancelThreads_naming (hg : NoThreads g) :
    wp naming (cancelThreads i) (fun _ g' => g' = g) (withThreads g (Finset.range i)) :=
  wp_giveBack hg fun _ _ _ hj => ⟨hj, fun _ _ => rfl⟩

theorem wp_joinThreads_naming {n : BitVec 32} {args : ℕ → VmopsBenchRunArg} (hg : NoThreads g) :
    wp naming (joinThreads n args) (fun _ g' => g' = g) (withThreads g (Finset.range n.toNat)) :=
  wp_giveBack hg fun _ _ _ hj => ⟨hj, fun _ _ => rfl⟩

theorem wp_startThreads_naming {n : BitVec 32} {args : ℕ → VmopsBenchRunArg} {f : RunFn}
    (hg : NoThreads g) : wp naming (startThreads n args f)
      (onExcept (fun _ g' => g' = g) fun _ g' => g' = withThreads g (Finset.range n.toNat)) g := by
  refine wp_forLoop (fun i _ g' => g' = withThreads g (Finset.range i))
    (withThreads_empty g).symm ?_ fun _ _ h => h
  rintro i - - hi rfl
  have hfresh : .thread i ∉ withThreads g (Finset.range i) := by
    rw [mem_withThreads hg]
    exact Finset.notMem_range_self
  refine wp_perform_bind.mpr ⟨hfresh, fun started _ => ?_⟩
  rcases started with _ | _
  · exact (wp_bind _ _).mpr (wp_mono _ (fun _ _ h => h) (wp_cancelThreads_naming hg))
  · show insert _ _ = withThreads g (Finset.range (i + 1))
    rw [insert_withThreads, Finset.range_add_one]

/-- **The benchmark gives back all handles**, and leaves the barrier. -/
theorem wp_runBenchmark_naming {n : BitVec 32} {args : ℕ → VmopsBenchRunArg} {f : RunFn}
    (hg : NoThreads g) (hbarrier : .barrier ∉ g) :
    wp naming (vmopsUtilsRunBenchmark n args f)
      (fun r g' => g' = insert .barrier g ∨ r.1 ≠ 0 ∧ g' = g) g := by
  have hg' : NoThreads (insert .barrier g) := fun i => by simp [hg i]
  refine wp_perform_bind.mpr ⟨hbarrier, fun ready _ => ?_⟩
  rcases ready with _ | _
  · exact .inr ⟨show (-1 : ℤ) ≠ 0 by decide, rfl⟩
  · refine (wp_bind _ _).mpr (wp_mono _ (fun o g' ho => ?_) (wp_startThreads_naming hg'))
    rcases o with _ | _
    · exact .inl ho
    · obtain rfl : g' = _ := ho
      refine (wp_bind _ _).mpr (wp_mono _ ?_ (wp_joinThreads_naming hg'))
      rintro o - rfl
      exact ⟨Finset.mem_insert_self _ _, fun _ _ => .inl rfl⟩

end Threads

theorem naming_ignores (c : MainCall) (h : c.isOther = true) : naming.Ignores c := by
  intro g
  cases c with
  | vmCreate | vmDestroy | vmMap | printCsv => exact ⟨trivial, fun _ => rfl⟩
  | _ => cases h

/-- A part of the main thread that touches no block. -/
theorem wp_naming_same {α : Type} {p : Prog mainSig α} {Q : α → Unit → Prop} {g : Finset BlockName}
    (hp : wp (limitedTo fun c => MainCall.isOther c = true) p Q ()) :
    wp naming p (fun _ g' => g' = g) g :=
  wp_mono _ (fun _ _ h => h.2) (wp_of_limited naming_ignores hp g)

/-- At most the samples, if there are to be any. -/
def AtMostSamples (cfg : VmopsBenchCfg) (g : Finset BlockName) : Prop :=
  ∀ b ∈ g, b = .samples ∧ cfg.stats ≠ 0

/-- **The blocks after the preparation**: the argument records, if it has succeeded, and perhaps the
samples. -/
def BlocksPrepared (cfg : VmopsBenchCfg) (o : Option (VmopsBenchCfg × (ℕ → VmopsBenchRunArg)))
    (g : Finset BlockName) : Prop :=
  (∃ g', AtMostSamples cfg g' ∧ g = if o.isSome then insert .args g' else g') ∧
    ∀ p, o = some p → p.1.corelistSize = cfg.corelistSize

/-- The preparation has failed. -/
theorem BlocksPrepared.failed {cfg : VmopsBenchCfg} {g : Finset BlockName}
    (hg : AtMostSamples cfg g) : BlocksPrepared cfg none g :=
  ⟨⟨g, hg, rfl⟩, fun _ hp => absurd hp.symm (Option.some_ne_none _)⟩

theorem wp_prepareArgs_naming {cfg : VmopsBenchCfg} :
    wp naming (vmopsUtilsPrepareArgs cfg) (BlocksPrepared cfg) ∅ := by
  have hnothing : AtMostSamples cfg ∅ := fun b hb => absurd hb (Finset.notMem_empty b)
  refine wp_perform_bind.mpr ⟨Finset.notMem_empty _, fun args _ => ?_⟩
  rcases args with _ | _
  · exact .failed hnothing
  · have hstats : wp naming (allocateStats cfg) (fun cfg' g =>
        cfg'.corelistSize = cfg.corelistSize ∧
          ∃ g', AtMostSamples cfg g' ∧ g = insert .args g') {.args} := by
      rw [allocateStats]
      split
      · exact ⟨rfl, ∅, hnothing, rfl⟩
      · next hstats =>
        have hnone : BlockName.samples ∉ ({.args} : Finset BlockName) := by decide
        refine wp_perform_bind.mpr ⟨hnone, fun samples _ => ?_⟩
        rcases samples with _ | _
        · exact ⟨rfl, ∅, hnothing, rfl⟩
        · exact ⟨rfl, {.samples}, fun b hb => ⟨Finset.mem_singleton.mp hb, hstats⟩,
            Finset.pair_comm _ _⟩
    refine (wp_bind _ _).mpr (wp_mono _ ?_ hstats)
    rintro cfg' - ⟨hsize, g', hg', rfl⟩
    have hargs : .args ∉ g' := fun hmem => absurd (hg' _ hmem).1 (by decide)
    have hfree : wp naming (mainCall .freeArgs >>= fun _ =>
        pure (none : Option (VmopsBenchCfg × (ℕ → VmopsBenchRunArg)))) (BlocksPrepared cfg)
          (insert .args g') := by
      refine ⟨Finset.mem_insert_self _ _, fun _ _ => ?_⟩
      show BlocksPrepared cfg none ((insert .args g').erase .args)
      rw [Finset.erase_insert hargs]
      exact .failed hg'
    refine (wp_bind _ _).mpr (wp_mono _ ?_ (wp_naming_same
      (limited_createMemobjs (fun _ _ _ => rfl) fun _ => rfl)))
    rintro o - rfl
    rcases o with _ | memobjs
    · exact hfree
    · refine (wp_bind _ _).mpr (wp_mono _ ?_ (wp_naming_same
        (limited_prepopulate fun _ _ _ _ => rfl)))
      rintro o - rfl
      rcases o with _ | _
      · exact hfree
      · refine ⟨⟨g', hg', rfl⟩, fun p hp => ?_⟩
        obtain rfl := Option.some.inj hp
        exact hsize

/-- **The blocks at the end of an entry**: no handle of a thread, and samples only if they were
asked for; and if the benchmark has run, the barrier, and the argument records if there were no
threads. -/
structure BlocksLeft (cfg : VmopsBenchCfg) (r : ℤ) (g : Finset BlockName) : Prop where
  noThreads : NoThreads g
  samples : .samples ∈ g → cfg.stats ≠ 0
  barrier : r = 0 → .barrier ∈ g
  args : r = 0 → (.args ∈ g ↔ cfg.corelistSize = 0)

theorem wp_reportAndCleanup_naming {cfg : VmopsBenchCfg} {args : ℕ → VmopsBenchRunArg}
    {g : Finset BlockName} (hargs : .args ∈ g) : wp naming (reportAndCleanup cfg args)
      (fun _ g' => g' = if cfg.corelistSize = 0 then g else g.erase .args) g := by
  rw [reportAndCleanup]
  split
  · rfl
  · refine wp_ignored (naming_ignores _ rfl) fun _ => (wp_bind _ _).mpr ?_
    refine wp_whileLoop (fun _ g' => g' = g) rfl ?_ ?_
    · rintro ⟨current, memobj⟩ - rfl -
      simp only [cleanupTurn]
      split
      · exact wp_ignored (naming_ignores _ rfl) fun _ => rfl
      · rfl
    · rintro s g' rfl -
      exact ⟨hargs, fun _ _ => rfl⟩

/-- **An entry keeps the discipline on its blocks.** -/
theorem benchEntry_naming (choose : VmopsBenchCfg → RunFn) (cfg : VmopsBenchCfg)
    (opts : List Char) : wp naming (benchEntry choose cfg opts) (BlocksLeft cfg) ∅ := by
  have herror : ∀ {g : Finset BlockName}, NoThreads g → (.samples ∈ g → cfg.stats ≠ 0) →
      BlocksLeft cfg (-1) g :=
    fun hg hs => ⟨hg, hs, fun h => absurd h (by decide), fun h => absurd h (by decide)⟩
  rw [benchEntry]
  rcases hparse : vmopsUtilsParseOptions opts cfg with _ | cfg₁
  · exact herror (fun _ => Finset.notMem_empty _) fun h => absurd h (Finset.notMem_empty _)
  · have hstats : cfg₁.stats = cfg.stats := by
      obtain ⟨ts, -, -, rfl⟩ := vmopsUtilsParseOptions_eq_some_iff.mp hparse
      rfl
    refine (wp_bind _ _).mpr (wp_mono _ ?_ wp_prepareArgs_naming)
    rintro o - ⟨⟨g, hg, rfl⟩, hsize⟩
    have hnone : NoThreads g := by
      intro i hi
      cases (hg _ hi).1
    have hbarrier : .barrier ∉ insert .args g := by
      intro hmem
      cases (hg _ (by simpa using hmem)).1
    have hsamples : .samples ∈ g → cfg.stats ≠ 0 := fun h => hstats ▸ (hg _ h).2
    rcases o with _ | ⟨cfg', args⟩
    · exact herror hnone hsamples
    · have hsize : cfg'.corelistSize = cfg.corelistSize :=
        (hsize _ rfl).trans (corelistSize_of_parseOptions hparse)
      have hargs : NoThreads (insert .args g) := fun i => by simp [hnone i]
      refine (wp_bind _ _).mpr (wp_mono _ ?_ (wp_runBenchmark_naming hargs hbarrier))
      rintro ⟨r, args⟩ g' hg'
      have hthreads : NoThreads g' := by
        intro i
        rcases hg' with rfl | ⟨-, rfl⟩
        · simp [hnone i]
        · exact hargs i
      have hsamples' : .samples ∈ g' → cfg.stats ≠ 0 := by
        rcases hg' with rfl | ⟨-, rfl⟩ <;> exact fun h => hsamples (by simpa using h)
      dsimp only
      split
      · exact herror hthreads hsamples'
      · next hr =>
        obtain rfl : g' = _ := hg'.resolve_right fun h => hr h.1
        refine (wp_bind _ _).mpr (wp_mono _ ?_ (wp_reportAndCleanup_naming (by simp)))
        rintro - - rfl
        rw [hsize]
        split
        · next hzero => exact ⟨hthreads, hsamples', fun _ => by simp, fun _ => by simp [hzero]⟩
        · next hpos =>
          exact ⟨fun i hi => hthreads i (Finset.mem_of_mem_erase hi),
            fun h => hsamples' (Finset.mem_of_mem_erase h), fun _ => by simp,
            fun _ => by simpa using hpos⟩

/-- Without samples, and with a thread, only the barrier is left. -/
theorem BlocksLeft.eq_barrier {cfg : VmopsBenchCfg} {g : Finset BlockName} (h : BlocksLeft cfg 0 g)
    (hstats : cfg.stats = 0) (hsize : cfg.corelistSize ≠ 0) : g = {.barrier} := by
  ext b
  rw [Finset.mem_singleton]
  rcases b with _ | _ | _ | i
  · simpa using mt (h.args rfl).mp hsize
  · simpa using mt h.samples (not_not.mpr hstats)
  · simpa using h.barrier rfl
  · simpa using h.noThreads i

/-! ### The runs of an entry -/

/-- **No run of an entry mishandles a block**, on either platform, whatever fails and wherever the
blocks are: nothing is freed or used that is not live, and no block is freed more often than it was
obtained. When the entry returns, no handle of a thread is left; and if it returns `0`, what is left
is the barrier, perhaps the samples, and the argument records if there were no threads. -/
theorem heapSafe {L : ThreadLayer} (hL : L = threadLayer ∨ L = Barrelfish.threadLayer)
    (choose : VmopsBenchCfg → RunFn) (cfg : VmopsBenchCfg) (opts : List Char) (t : MainPtrs)
    {tr : List (Event libSig)} {q : Prog libSig (ℤ × MainPtrs)}
    (hrun : Run (libEntry L choose cfg opts t) tr q) (henv : heapOps.discipline.Admits ∅ tr) :
    heapOps.discipline.Honours ∅ tr ∧
    (∀ p, (heapOps.released tr).count p ≤ (heapOps.obtained tr).count p) ∧
    ∀ r t', q = .ret (r, t') → ∃ g, BlocksLeft cfg r g ∧
      Places g t' (heapOps.discipline.after ∅ tr) := by
  have himplements : ∃ posix, L.Implements posix := by
    rcases hL with rfl | rfl
    · exact ⟨true, threadLayer_implements⟩
    · exact ⟨false, Barrelfish.threadLayer_implements⟩
  obtain ⟨posix, hL⟩ := himplements
  have hwp := wp_interpret (handler_realizes hL) _
    (wp_history _ (benchEntry_naming choose cfg opts) []) (accounted_empty posix t)
  obtain ⟨hpre, hleft⟩ := wp_run hrun hwp (Spec.admits_tracking.mpr henv)
  have hpre := Spec.honours_tracking.mp hpre
  refine ⟨hpre, fun p => ?_, ?_⟩
  · have hone : ∀ c r, heapOps.releases c = none ∨ heapOps.obtains c r = none := by
      intro c r
      cases c with
      | alloc what => exact .inl rfl
      | _ => exact .inr rfl
    have hcount := HeapOps.count_obtained hone henv hpre p
    rw [if_neg (Finset.notMem_empty p)] at hcount
    omega
  · rintro r t' rfl
    obtain ⟨⟨g, past⟩, ⟨hg, -⟩, hplaces⟩ := hleft
    rw [Spec.after_tracking] at hplaces
    exact ⟨g, hg, hplaces.places⟩

/-- Every call of the libraries succeeds. -/
def LibCall.succeed (arg : VmopsBenchRunArg) : (c : LibCall) → c.Resp
  | .alloc what => some (match what with
    | .args _ => 1#64
    | .samples .. => 2#64
    | .thread => 3#64
    | .barrier => 4#64)
  | .free _ | .store _ | .pthreadCancel _ | .userPanic => ()
  | .pthreadCreate .. | .pthreadBarrierInit .. | .pthreadBarrierDestroy _ | .domainSendCap ..
  | .domainThreadCreateOn .. => true
  | .pthreadJoin _ | .domainThreadJoin _ => arg
  | .dispGetCoreId => 0
  | .other c => c.succeed arg

set_option maxRecDepth 8000 in
/-- A run of one thread leaves the barrier. -/
theorem heapSafe_oneThread : ∃ tr t',
    Run (libEntry threadLayer chooseMapunmap oneThread [] fun _ => 0) tr (.ret (0, t')) ∧
      heapOps.discipline.Honours ∅ tr ∧ heapOps.discipline.after ∅ tr = {t' .barrier} := by
  have hrun : ∃ tr r, Run (libEntry threadLayer chooseMapunmap oneThread [] fun _ => 0) tr
      (.ret r) ∧ r.1 = 0 ∧ heapOps.discipline.Admits ∅ tr :=
    exists_run_of_yields (LibCall.succeed (zeroArg oneThread)) 200 (by decide)
  obtain ⟨tr, ⟨r, t'⟩, hrun, rfl, henv⟩ := hrun
  obtain ⟨hpre, -, hleft⟩ := heapSafe (.inl rfl) _ _ _ _ hrun henv
  obtain ⟨g, hg, hplaces⟩ := hleft 0 t' rfl
  obtain rfl := hg.eq_barrier rfl (by decide)
  exact ⟨tr, t', hrun, hpre, hplaces.live_eq⟩

/-- **An entry over the calls of the libraries does what it does over the platform's interface.** A
run that has come to a value is one of the main thread with the same value, and the libraries have
been asked for what the main thread asks for, in the same order: each thread that was started runs
its function on its record, and the thread that is cancelled or joined, and the barrier that is
destroyed, are those that the main thread means. On Barrelfish this is so of the threads that are
started and joined, and of all calls on memory objects and the report. -/
theorem libEntry_refines {L : ThreadLayer} {posix : Bool}
    (hL : L = threadLayer ∧ posix = true ∨ L = Barrelfish.threadLayer ∧ posix = false)
    {choose : VmopsBenchCfg → RunFn} {cfg : VmopsBenchCfg} {opts : List Char} {t t' : MainPtrs}
    {tr : List (Event libSig)} {r : ℤ}
    (hrun : Run (libEntry L choose cfg opts t) tr (.ret (r, t')))
    (henv : heapOps.discipline.Admits ∅ tr) :
    ∃ tr', Run (benchEntry choose cfg opts) tr' (.ret r) ∧ libOps tr = mainOps posix tr' := by
  have hL : L.Implements posix := by
    rcases hL with ⟨rfl, rfl⟩ | ⟨rfl, rfl⟩
    · exact threadLayer_implements
    · exact Barrelfish.threadLayer_implements
  obtain ⟨tr', g, habove, -, haccounted⟩ := run_of_interpret (handler_realizes hL)
    (benchEntry_naming choose cfg opts) (accounted_empty posix t) hrun
    (Spec.admits_tracking.mpr henv)
  rw [Spec.after_tracking] at haccounted
  exact ⟨tr', habove, haccounted.ops⟩

set_option maxRecDepth 8000 in
/-- A run of one thread on Linux. -/
theorem libEntry_refines_oneThread : ∃ tr t' tr',
    Run (libEntry threadLayer chooseMapunmap oneThread [] fun _ => 0) tr (.ret (0, t')) ∧
      Run (benchEntry chooseMapunmap oneThread []) tr' (.ret 0) ∧
      libOps tr = mainOps true tr' := by
  have hrun : ∃ tr r, Run (libEntry threadLayer chooseMapunmap oneThread [] fun _ => 0) tr
      (.ret r) ∧ r.1 = 0 ∧ heapOps.discipline.Admits ∅ tr :=
    exists_run_of_yields (LibCall.succeed (zeroArg oneThread)) 200 (by decide)
  obtain ⟨tr, ⟨r, t'⟩, hrun, rfl, henv⟩ := hrun
  obtain ⟨tr', habove, hops⟩ := libEntry_refines (.inl ⟨rfl, rfl⟩) hrun henv
  exact ⟨tr, t', tr', hrun, habove, hops⟩

end VmopsBench

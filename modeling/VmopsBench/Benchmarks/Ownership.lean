import VmopsBench.Benchmarks.Entry

/-!
# What a failed benchmark releases

A benchmark owns its memory objects, the array of argument records and the block of samples
from the moment they are created, and it is meant to give them back also when it fails. What
it has created and what it has given back is read off the sequence of its calls
(`VmopsBench.created`, `VmopsBench.destroyed`).

There are two places where it fails to do so. When a memory object cannot be created, the cleanup
loop passes `args[i].memobj` to `plat_vm_destroy` in each of its `i` turns, the pointer that
the failed call has not set, in place of those of the first `i` threads
(`VmopsBench.destroysCreated_iff`). And when anything fails after that, nobody destroys
anything (`VmopsBench.not_releasesAll`).
-/

namespace VmopsBench

open Interact

/-! ### Created and destroyed -/

/-- The answers of `plat_vm_create`, in order: a handle, or nothing on an error. -/
def creations (tr : List (Event mainSig)) : List (Option PlatMemobj) :=
  tr.filterMap fun
    | ⟨.vmCreate .., r⟩ => some r
    | _ => none

/-- The handles that were created, in order. -/
def created (tr : List (Event mainSig)) : List PlatMemobj := (creations tr).reduceOption

/-- The handles that were passed to `plat_vm_destroy`, in order. -/
def destroyed (tr : List (Event mainSig)) : List PlatMemobj :=
  tr.filterMap fun
    | ⟨.vmDestroy memobj, _⟩ => some memobj
    | _ => none

/-- The blocks that a benchmark allocates. -/
inductive Block where
  | args
  | samples
  deriving DecidableEq

/-- The blocks that were allocated. -/
def allocated (tr : List (Event mainSig)) : List Block :=
  tr.filterMap fun
    | ⟨.callocArgs _, true⟩ => some .args
    | ⟨.callocStats .., true⟩ => some .samples
    | _ => none

/-- The blocks that were freed. There is no statement that frees the samples. -/
def freed (tr : List (Event mainSig)) : List Block :=
  tr.filterMap fun
    | ⟨.freeArgs, _⟩ => some .args
    | _ => none

/-- **Everything has been released once**, and nothing else. -/
structure ReleasesAll (tr : List (Event mainSig)) : Prop where
  memobjs : (destroyed tr).Perm (created tr)
  blocks : (freed tr).Perm (allocated tr)

/-- **The `i`-th creation has failed**, counted from 0. -/
def CreationFails (i : ℕ) (tr : List (Event mainSig)) : Prop := (creations tr)[i]? = some none

section Histories

variable {g : List (Event mainSig)}

theorem creations_append (g g' : List (Event mainSig)) :
    creations (g ++ g') = creations g ++ creations g' := List.filterMap_append

theorem destroyed_append (g g' : List (Event mainSig)) :
    destroyed (g ++ g') = destroyed g ++ destroyed g' := List.filterMap_append

/-- **How the memory objects stand**, while nothing has failed: `handles` were created, and none was
destroyed. -/
structure Holds (handles : List PlatMemobj) (g : List (Event mainSig)) : Prop where
  creations_eq : creations g = handles.map some
  destroyed_eq : destroyed g = []

/-- A creation has failed, and the loop has passed `NULL` for each of the handles. -/
structure Lost (handles : List PlatMemobj) (g : List (Event mainSig)) : Prop where
  creations_eq : creations g = handles.map some ++ [none]
  destroyed_eq : destroyed g = List.replicate handles.length 0

theorem holds_nil : Holds [] [] := ⟨rfl, rfl⟩

theorem reduceOption_map_some {α : Type} (xs : List α) : (xs.map some).reduceOption = xs := by
  rw [List.reduceOption, List.filterMap_map]
  exact List.filterMap_some

theorem Holds.created_eq {handles : List PlatMemobj} (h : Holds handles g) :
    created g = handles := by
  rw [created, h.creations_eq, reduceOption_map_some]

theorem Lost.created_eq {handles : List PlatMemobj} (h : Lost handles g) : created g = handles := by
  rw [created, h.creations_eq, List.reduceOption_append, reduceOption_map_some]
  exact List.append_nil _

/-- The creation that has failed is the one after those that have not. -/
theorem Lost.index_eq {handles : List PlatMemobj} (h : Lost handles g) {i : ℕ}
    (hfail : CreationFails i g) : handles.length = i := by
  rw [CreationFails, h.creations_eq] at hfail
  rcases Nat.lt_trichotomy i handles.length with hlt | rfl | hgt
  · rw [List.getElem?_append_left (by simpa using hlt), List.getElem?_map,
      Option.map_eq_some_iff] at hfail
    obtain ⟨memobj, -, hfail⟩ := hfail
    cases hfail
  · rfl
  · have hlen : (handles.map some ++ [none]).length ≤ i := by
      rw [List.length_append, List.length_map]
      exact hgt
    rw [List.getElem?_eq_none hlen] at hfail
    cases hfail

/-- The calls that do not concern memory objects. -/
def MainCall.isMemobjCall : MainCall → Bool
  | .vmCreate .. | .vmDestroy _ => true
  | _ => false

theorem creations_other {c : MainCall} (hc : c.isMemobjCall = false) (r : c.Resp)
    (g : List (Event mainSig)) : creations (g ++ [(⟨c, r⟩ : Event mainSig)]) = creations g := by
  rw [creations_append]
  cases c with
  | vmCreate => cases hc
  | _ => exact List.append_nil _

theorem destroyed_other {c : MainCall} (hc : c.isMemobjCall = false) (r : c.Resp)
    (g : List (Event mainSig)) : destroyed (g ++ [(⟨c, r⟩ : Event mainSig)]) = destroyed g := by
  rw [destroyed_append]
  cases c with
  | vmDestroy => cases hc
  | _ => exact List.append_nil _

theorem Holds.other {handles : List PlatMemobj} (h : Holds handles g) {c : MainCall}
    (hc : c.isMemobjCall = false) (r : c.Resp) :
    Holds handles (g ++ [(⟨c, r⟩ : Event mainSig)]) :=
  ⟨(creations_other hc r g).trans h.creations_eq, (destroyed_other hc r g).trans h.destroyed_eq⟩

theorem Lost.other {handles : List PlatMemobj} (h : Lost handles g) {c : MainCall}
    (hc : c.isMemobjCall = false) (r : c.Resp) :
    Lost handles (g ++ [(⟨c, r⟩ : Event mainSig)]) :=
  ⟨(creations_other hc r g).trans h.creations_eq, (destroyed_other hc r g).trans h.destroyed_eq⟩

/-- One more handle. -/
theorem Holds.create {handles : List PlatMemobj} (h : Holds handles g) (path : VmobjName)
    (size : SizeT) (huge : Bool) (memobj : PlatMemobj) :
    Holds (handles ++ [memobj]) (g ++ [⟨MainCall.vmCreate path size huge, some memobj⟩]) := by
  refine ⟨?_, ?_⟩
  · rw [creations_append, h.creations_eq, List.map_append]
    rfl
  · rw [destroyed_append, h.destroyed_eq]
    rfl

end Histories

/-! ### The creation of the memory objects -/

/-- What is known when the memory objects have been created, or could not be. -/
def CreateOutcome {α : Type} (o : Option α) (g : List (Event mainSig)) : Prop :=
  ∃ handles, Holds handles g ∨ o = none ∧ Lost handles g

section Preparation

variable {cfg : VmopsBenchCfg} {g : List (Event mainSig)}

/-- The cleanup loop destroys `NULL`, again and again. -/
theorem wp_cleanupLoop {handles : List PlatMemobj} {memobjs : ℕ → PlatMemobj} {i : ℕ}
    (hlen : handles.length = i) (hnull : memobjs i = 0)
    (hcreations : creations g = handles.map some ++ [none]) (hdestroyed : destroyed g = []) :
    wp (recording mainSig) (Prog.forLoop i (fun _ (_ : Unit) => do
        mainCall (.vmDestroy (memobjs i))
        return (.ok () : Except Unit Unit)) ()) (fun _ => Lost handles) g := by
  refine wp_forLoop (fun j _ g => creations g = handles.map some ++ [none] ∧
    destroyed g = List.replicate j 0) ⟨hcreations, hdestroyed⟩ ?_ ?_
  · rintro j - g - ⟨hcreations, hdestroyed⟩
    refine wp_recording_call fun () => ⟨?_, ?_⟩
    · rw [creations_append, hcreations]
      exact List.append_nil _
    · rw [destroyed_append, hdestroyed, hnull, List.replicate_succ']
      rfl
  · rintro - g ⟨hcreations, hdestroyed⟩
    exact ⟨hcreations, hlen ▸ hdestroyed⟩

theorem wp_createMemobjs_outcome (hg : Holds [] g) :
    wp (recording mainSig) (createMemobjs cfg) CreateOutcome g := by
  rw [createMemobjs]
  split
  · refine wp_recording_call fun memobj => ?_
    cases memobj with
    | some memobj => exact ⟨_, Or.inl (hg.create _ _ _ memobj)⟩
    | none =>
      refine ⟨[], Or.inr ⟨rfl, ?_, ?_⟩⟩
      · rw [creations_append, hg.creations_eq]
        rfl
      · rw [destroyed_append, hg.destroyed_eq]
        rfl
  · refine (wp_bind _ _).mpr (wp_forLoop (fun i memobjs g => ∃ handles, handles.length = i ∧
      Holds handles g ∧ ∀ j, i ≤ j → memobjs j = 0) ⟨[], rfl, hg, fun _ _ => rfl⟩ ?_ ?_)
    · rintro i memobjs g - ⟨handles, hlen, hg, hnull⟩
      refine wp_recording_call fun memobj => ?_
      cases memobj with
      | some memobj =>
        refine ⟨handles ++ [memobj], by simp [hlen], hg.create _ _ _ memobj, fun j hj => ?_⟩
        rw [Function.update_of_ne (Nat.ne_of_gt hj)]
        exact hnull j (Nat.le_of_lt hj)
      | none =>
        refine (wp_bind _ _).mpr (wp_mono _ (fun _ g hlost => ?_)
          (wp_cleanupLoop hlen (hnull i le_rfl) ?_ ?_))
        · exact ⟨handles, Or.inr ⟨rfl, hlost⟩⟩
        · rw [creations_append, hg.creations_eq]
          rfl
        · rw [destroyed_append, hg.destroyed_eq]
          rfl
    · rintro memobjs g ⟨handles, -, hg, -⟩
      exact ⟨handles, Or.inl hg⟩

theorem wp_prepopulate_holds {handles : List PlatMemobj} {memobj : PlatMemobj}
    (hg : Holds handles g) :
    wp (recording mainSig) (prepopulate memobj) (fun _ => Holds handles) g := by
  refine wp_forLoop (fun _ _ => Holds handles) hg ?_ fun _ _ hg => hg
  rintro i - g - hg
  refine wp_recording_call fun addr => ?_
  cases addr <;> exact hg.other rfl _

/-- **How the memory objects stand after the preparation.** -/
theorem wp_prepareArgs_outcome (hg : Holds [] g) :
    wp (recording mainSig) (vmopsUtilsPrepareArgs cfg) CreateOutcome g := by
  refine wp_recording_call fun args => ?_
  have hg := hg.other (c := .callocArgs (cfg.corelistSize + 1)) rfl args
  cases args with
  | false => exact ⟨[], Or.inl hg⟩
  | true =>
    have hstats : wp (recording mainSig) (allocateStats cfg) (fun _ => Holds [])
        (g ++ [⟨MainCall.callocArgs (cfg.corelistSize + 1), true⟩]) := by
      rw [allocateStats]
      split
      · exact hg
      · refine wp_recording_call fun samples => ?_
        cases samples <;> exact hg.other rfl _
    refine (wp_bind _ _).mpr (wp_mono _ (fun cfg g hg => ?_) hstats)
    refine (wp_bind _ _).mpr (wp_mono _ (fun o g hg => ?_) (wp_createMemobjs_outcome hg))
    obtain ⟨handles, hg⟩ := hg
    cases o with
    | none =>
      refine wp_recording_call fun () => ⟨handles, ?_⟩
      exact hg.imp (fun hg => hg.other rfl _) fun hg => ⟨rfl, hg.2.other rfl _⟩
    | some memobjs =>
      have hg : Holds handles g := hg.resolve_right fun h => nomatch h.1
      refine (wp_bind _ _).mpr (wp_mono _ (fun o g hg => ?_) (wp_prepopulate_holds hg))
      cases o with
      | error _ => exact wp_recording_call fun () => ⟨handles, Or.inl (hg.other rfl _)⟩
      | ok _ => exact ⟨handles, Or.inl hg⟩

end Preparation

/-- Copies of a handle that is not among them are no permutation of some handles, unless there are
none. -/
theorem replicate_perm_iff {α : Type} {a : α} {xs : List α} (ha : a ∉ xs) :
    (List.replicate xs.length a).Perm xs ↔ xs.length = 0 := by
  constructor
  · intro h
    by_contra hlen
    exact ha (h.mem_iff.mp (List.mem_replicate.mpr ⟨hlen, rfl⟩))
  · intro hlen
    rw [List.length_eq_zero_iff.mp hlen]
    exact List.Perm.nil

/-- **When a memory object cannot be created, exactly the created ones are destroyed only if there
are none.** Handles are not `NULL`. -/
theorem destroysCreated_iff {cfg : VmopsBenchCfg} {tr : List (Event mainSig)}
    {o : Option (VmopsBenchCfg × (ℕ → VmopsBenchRunArg))} {i : ℕ}
    (hrun : Run (vmopsUtilsPrepareArgs cfg) tr (.ret o)) (hfail : CreationFails i tr)
    (hnull : 0 ∉ created tr) :
    (o = none ∧ (destroyed tr).Perm (created tr)) ↔ i = 0 := by
  obtain ⟨handles, hholds | ⟨rfl, hlost⟩⟩ := of_run hrun (wp_prepareArgs_outcome holds_nil)
  · -- no creation has failed
    rw [CreationFails, hholds.creations_eq, List.getElem?_map, Option.map_eq_some_iff] at hfail
    obtain ⟨memobj, -, hfail⟩ := hfail
    cases hfail
  · have hlen : handles.length = i := hlost.index_eq hfail
    rw [hlost.created_eq] at hnull ⊢
    rw [hlost.destroyed_eq, replicate_perm_iff hnull, hlen]
    exact and_iff_right rfl

/-- An environment of the main thread in which the `k`-th creation fails and the handles before it
are `1`, `2`, and so on. -/
def creatingUntil (k : ℕ) : (c : MainCall) → c.Resp
  | .vmCreate (.independent core) .. =>
    if core.toNat < k then some ((core + 1).setWidth 64) else none
  | c => MainCall.succeed (zeroArg twoThreads) c

/-- Two threads, each with a memory object of its own. -/
def twoIndependent : VmopsBenchCfg := { twoThreads with shared := false }

/-- The first creation fails. -/
theorem destroysCreated_first : ∃ tr o, Run (vmopsUtilsPrepareArgs twoIndependent) tr (.ret o) ∧
    o = none ∧ (destroyed tr).Perm (created tr) := by
  have hrun : ∃ tr o, Run (vmopsUtilsPrepareArgs twoIndependent) tr (.ret o) ∧
      ((creations tr)[0]? = some none ∧ 0 ∉ created tr) :=
    exists_run_of_yields (creatingUntil 0) 200 (by decide)
  obtain ⟨tr, o, hrun, hfail, hnull⟩ := hrun
  exact ⟨tr, o, hrun, (destroysCreated_iff hrun hfail hnull).mpr rfl⟩

/-- The second creation fails, and `NULL` is destroyed in place of the first handle. -/
theorem created_not_destroyed : ∃ tr o, Run (vmopsUtilsPrepareArgs twoIndependent) tr (.ret o) ∧
    CreationFails 1 tr ∧ (created tr).Nodup ∧ 0 ∉ created tr ∧
      ¬(o = none ∧ (destroyed tr).Perm (created tr)) := by
  have hrun : ∃ tr o, Run (vmopsUtilsPrepareArgs twoIndependent) tr (.ret o) ∧
      (creations tr = [some 1, none] ∧ destroyed tr = [0]) :=
    exists_run_of_yields (creatingUntil 1) 200 (by decide)
  obtain ⟨tr, o, hrun, hcreations, hdestroyed⟩ := hrun
  have hcreated : created tr = [1] := by
    rw [created, hcreations]
    rfl
  refine ⟨tr, o, hrun, ?_, ?_, ?_, ?_⟩
  · rw [CreationFails, hcreations]
    rfl
  · rw [hcreated]
    exact List.pairwise_singleton _ _
  · rw [hcreated]
    decide
  · rw [hcreated, hdestroyed]
    rintro ⟨-, hperm⟩
    exact absurd hperm (by decide)

/-! ### The later failures -/

section Entry

variable {g : List (Event mainSig)} {handles : List PlatMemobj}

/-- `vmops_utils_run_benchmark` neither creates nor destroys a memory object. -/
theorem wp_runBenchmark_holds {n : BitVec 32} {args : ℕ → VmopsBenchRunArg} {f : RunFn}
    (hg : Holds handles g) :
    wp (recording mainSig) (vmopsUtilsRunBenchmark n args f) (fun _ => Holds handles) g := by
  refine wp_recording_call fun ready => ?_
  have hg := hg.other (c := .barrierInit n) rfl ready
  cases ready with
  | false => exact hg
  | true =>
    refine (wp_bind _ _).mpr (wp_mono _ (fun o g hg => ?_) (?_ : wp _ _ (fun _ => Holds handles) _))
    · cases o with
      | error _ => exact hg
      | ok _ =>
        refine (wp_bind _ _).mpr (wp_forLoop (fun _ _ => Holds handles) hg ?_ ?_)
        · exact fun i args g _ hg => wp_recording_call fun arg =>
            hg.other (c := .threadJoin i) rfl arg
        · exact fun args g hg => wp_recording_call fun () => hg.other rfl _
    · refine wp_forLoop (fun _ _ => Holds handles) hg ?_ fun _ _ hg => hg
      rintro i - g - hg
      refine wp_recording_call fun started => ?_
      have hg := hg.other (c := .threadStart i f (args i)) rfl started
      cases started with
      | true => exact hg
      | false =>
        refine (wp_bind _ _).mpr (wp_forLoop (fun _ _ => Holds handles) hg ?_ fun _ _ hg => hg)
        exact fun j _ g _ hg => wp_recording_call fun () => hg.other rfl _

/-- **How the memory objects stand when an entry function returns `-1`.** -/
theorem wp_benchEntry_outcome {choose : VmopsBenchCfg → RunFn} {cfg : VmopsBenchCfg}
    {opts : List Char} : wp (recording mainSig) (benchEntry choose cfg opts)
      (fun r g => r = -1 → ∃ handles, Holds handles g ∨ Lost handles g) [] := by
  rw [benchEntry]
  split
  · exact fun _ => ⟨[], Or.inl holds_nil⟩
  · rename_i cfg' _
    have hprepare : wp (recording mainSig) (vmopsUtilsPrepareArgs cfg') CreateOutcome [] :=
      wp_prepareArgs_outcome holds_nil
    refine (wp_bind _ _).mpr (wp_mono _ ?_ hprepare)
    rintro o g ⟨handles, hg⟩
    cases o with
    | none => exact fun _ => ⟨handles, hg.imp_right And.right⟩
    | some p =>
      have hg : Holds handles g := hg.resolve_right fun h => nomatch h.1
      refine (wp_bind _ _).mpr (wp_mono _ ?_ (wp_runBenchmark_holds hg))
      rintro ⟨r, args⟩ g hg
      dsimp only
      split
      · exact fun _ => ⟨handles, Or.inl hg⟩
      · refine (wp_bind _ _).mpr (wp_mono _ ?_ (wp_recording_extends _ _))
        rintro - - ⟨tr, rfl⟩
        exact nofun

end Entry

/-- **A benchmark that fails after a memory object exists does not release everything**: it
destroys none of its handles, which are not `NULL`. -/
theorem not_releasesAll {entry : VmopsBenchCfg → List Char → Prog mainSig ℤ}
    (hentry : entry = vmposBenchRunMapunmap ∨ entry = vmopsBenchRunProtect ∨
      entry = vmopsBenchRunProtectElevate ∨ entry = vmopsBenchRunTlbshoot)
    {cfg : VmopsBenchCfg} {opts : List Char} {tr : List (Event mainSig)}
    (hrun : Run (entry cfg opts) tr (.ret (-1))) (hexists : created tr ≠ [])
    (hnull : 0 ∉ created tr) : ¬ReleasesAll tr := by
  have houtcome : ∃ handles, Holds handles tr ∨ Lost handles tr := by
    rcases hentry with rfl | rfl | rfl | rfl <;> exact of_run hrun wp_benchEntry_outcome rfl
  intro hreleases
  obtain ⟨handles, hholds | hlost⟩ := houtcome
  · have hperm := hreleases.memobjs
    rw [hholds.destroyed_eq] at hperm
    exact hexists hperm.nil_eq.symm
  · have hperm := hreleases.memobjs
    rw [hlost.created_eq] at hperm hexists hnull
    rw [hlost.destroyed_eq, replicate_perm_iff hnull] at hperm
    exact hexists (List.length_eq_zero_iff.mp hperm)

/-- The barrier cannot be initialised. -/
theorem not_releasesAll_barrier : ∃ tr,
    Run (vmposBenchRunMapunmap twoIndependent "-independent".toList) tr (.ret (-1)) ∧
      ¬ReleasesAll tr := by
  have hrun : ∃ tr r, Run (vmposBenchRunMapunmap twoIndependent "-independent".toList) tr
      (.ret r) ∧ (r = -1 ∧ created tr = [1, 2]) :=
    exists_run_of_yields (fun
      | .barrierInit _ => false
      | c => creatingUntil 2 c) 200 (by decide)
  obtain ⟨tr, r, hrun, rfl, hcreated⟩ := hrun
  refine ⟨tr, hrun, not_releasesAll (Or.inl rfl) hrun ?_ ?_⟩
  · rw [hcreated]
    exact List.cons_ne_nil _ _
  · rw [hcreated]
    decide

/-- The first mapping made beforehand fails, and neither handle is destroyed. -/
theorem memobjs_lost : ∃ tr,
    Run (vmopsBenchRunProtect twoIndependent "-independent".toList) tr (.ret (-1)) ∧
      creations tr = [some 1, some 2] ∧ ¬ReleasesAll tr := by
  have hrun : ∃ tr r, Run (vmopsBenchRunProtect twoIndependent "-independent".toList) tr
      (.ret r) ∧ (r = -1 ∧ creations tr = [some 1, some 2] ∧ destroyed tr = []) :=
    exists_run_of_yields (fun
      | .vmMap .. => none
      | c => creatingUntil 2 c) 200 (by decide)
  obtain ⟨tr, r, hrun, rfl, hcreations, hdestroyed⟩ := hrun
  refine ⟨tr, hrun, hcreations, fun hreleases => ?_⟩
  have hperm := hreleases.memobjs
  rw [created, hcreations, hdestroyed] at hperm
  exact absurd hperm.length_eq (by decide)

end VmopsBench

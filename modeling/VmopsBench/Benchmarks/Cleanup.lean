import VmopsBench.Benchmarks.Ownership
import VmopsBench.Interact.Total

/-!
# What a successful benchmark releases

`vmops_utils_cleanup_args` knows neither how many argument records there are nor which of them share
a memory object. It goes on to the sentinel, and it destroys the memory object of a record if that
is not the one of the record before (`VmopsBench.ends_cleanupLoop`). So what it destroys depends on
the form of the array: `vmops_utils_prepare_args` gives all records the same memory object, or each
its own (`VmopsBench.HandedOut`), and in both cases what remains after the repetitions are dropped
is what was created (`VmopsBench.HandedOut.destutter_eq`).

The array is the one of the preparation as far as the sentinel. What is in it beyond that, or in the
fields that the threads write, makes no difference (`VmopsBench.cleansUp_of_prepared`).
-/

namespace VmopsBench

open Interact

/-! ### The form of the array -/

/-- **The memory objects of `n` threads**: there is one for all of them, or each has its own. -/
def HandedOut (n : ℕ) (handles : List PlatMemobj) (memobjs : ℕ → PlatMemobj) : Prop :=
  (∃ memobj, handles = [memobj] ∧ ∀ i < n, memobjs i = memobj) ∨
    handles = (List.range n).map memobjs

/-- **An array of argument records** for `n` threads, with the sentinel after the last one. -/
structure ArgsArray (n : ℕ) (handles : List PlatMemobj) (args : ℕ → VmopsBenchRunArg) : Prop where
  tid_ne : ∀ i < n, (args i).tid ≠ -1
  sentinel : (args n).tid = -1
  handedOut : HandedOut n handles fun i => (args i).memobj

section Array

variable {n : ℕ} {handles : List PlatMemobj}

theorem HandedOut.congr {memobjs memobjs' : ℕ → PlatMemobj} (h : HandedOut n handles memobjs)
    (heq : ∀ i < n, memobjs' i = memobjs i) : HandedOut n handles memobjs' := by
  rcases h with ⟨memobj, rfl, hall⟩ | rfl
  · exact Or.inl ⟨memobj, rfl, fun i hi => (heq i hi).trans (hall i hi)⟩
  · exact Or.inr (List.map_congr_left fun i hi => (heq i (List.mem_range.mp hi)).symm)

/-- Beyond the sentinel, and in the other fields, the records may be anything. -/
theorem ArgsArray.congr {args args' : ℕ → VmopsBenchRunArg} (h : ArgsArray n handles args)
    (heq : ∀ i ≤ n, (args' i).tid = (args i).tid ∧ (args' i).memobj = (args i).memobj) :
    ArgsArray n handles args' where
  tid_ne i hi := (heq i (Nat.le_of_lt hi)).1 ▸ h.tid_ne i hi
  sentinel := (heq n le_rfl).1.trans h.sentinel
  handedOut := h.handedOut.congr fun i hi => (heq i (Nat.le_of_lt hi)).2

/-- Nothing remains of repetitions. -/
theorem destutter'_eq_singleton {α : Type} [DecidableEq α] {a : α} {l : List α}
    (h : ∀ b ∈ l, b = a) : l.destutter' (· ≠ ·) a = [a] := by
  induction l with
  | nil => rfl
  | cons b l ih =>
    obtain ⟨rfl, hl⟩ := List.forall_mem_cons.mp h
    exact (List.destutter'_cons_neg _ (not_not.mpr rfl)).trans (ih hl)

/-- **Dropping the repetitions** leaves each memory object once. -/
theorem HandedOut.destutter_eq {memobjs : ℕ → PlatMemobj} (h : HandedOut n handles memobjs)
    (hn : 1 ≤ n) (hnodup : handles.Nodup) (hnull : 0 ∉ handles) :
    ((List.range n).map memobjs).destutter' (· ≠ ·) 0 = 0 :: handles := by
  rcases h with ⟨memobj, rfl, hall⟩ | rfl
  · have hne : (0 : PlatMemobj) ≠ memobj := fun h0 => hnull (List.mem_singleton.mpr h0)
    have hmem : ∀ m ∈ (List.range n).map memobjs, m = memobj := by
      intro m hm
      obtain ⟨i, hi, rfl⟩ := List.mem_map.mp hm
      exact hall i (List.mem_range.mp hi)
    cases hmap : (List.range n).map memobjs with
    | nil =>
      have hlength := congrArg List.length hmap
      rw [List.length_map, List.length_range, List.length_nil] at hlength
      omega
    | cons m ms =>
      rw [hmap] at hmem
      obtain ⟨rfl, hms⟩ := List.forall_mem_cons.mp hmem
      rw [List.destutter'_cons_pos _ hne, destutter'_eq_singleton hms]
  · have hchain : (0 :: (List.range n).map memobjs).Nodup := List.nodup_cons.mpr ⟨hnull, hnodup⟩
    exact List.destutter'_of_isChain_cons _ _ hchain.isChain

/-- The array that the preparation fills in. -/
theorem argsArray_filledArgs {cfg : VmopsBenchCfg} {memobjs : ℕ → PlatMemobj}
    (hlt : cfg.corelistSize.toNat < 2 ^ 32 - 1)
    (h : HandedOut cfg.corelistSize.toNat handles memobjs) :
    ArgsArray cfg.corelistSize.toNat handles (filledArgs cfg memobjs) where
  tid_ne i hi := by
    rw [filledArgs, if_pos hi]
    intro heq
    have htid : i % 2 ^ 32 = 2 ^ 32 - 1 := congrArg BitVec.toNat heq
    omega
  sentinel := by rw [filledArgs, if_neg (lt_irrefl _), if_pos rfl]
  handedOut := h.congr fun i hi => by rw [filledArgs, if_pos hi]; rfl

end Array

/-! ### The preparation -/

section Preparation

variable {cfg : VmopsBenchCfg} {g : List (Event mainSig)}

/-- **The memory objects are those that were created.** -/
theorem wp_createMemobjs_handedOut (hg : Holds [] g) :
    wp (recording mainSig) (createMemobjs cfg) (fun o g => ∀ memobjs, o = some memobjs →
      ∃ handles, Holds handles g ∧ HandedOut cfg.corelistSize.toNat handles memobjs) g := by
  rw [createMemobjs]
  split
  · refine wp_recording_call fun memobj => ?_
    cases memobj with
    | none => rintro - ⟨⟩
    | some memobj =>
      rintro memobjs ⟨⟩
      exact ⟨_, hg.create _ _ _ memobj, Or.inl ⟨memobj, rfl, fun i hi => if_pos hi⟩⟩
  · refine (wp_bind _ _).mpr (wp_forLoop
      (fun i memobjs g => Holds ((List.range i).map memobjs) g) hg ?_ ?_)
    · rintro i memobjs g - hg
      refine wp_recording_call fun memobj => ?_
      cases memobj with
      | some memobj =>
        have hmap : (List.range (i + 1)).map (Function.update memobjs i memobj) =
            (List.range i).map memobjs ++ [memobj] := by
          rw [List.range_succ, List.map_append, List.map_singleton, Function.update_self]
          refine congrArg (· ++ [memobj]) (List.map_congr_left fun j hj => ?_)
          exact Function.update_of_ne (Nat.ne_of_lt (List.mem_range.mp hj)) _ _
        show Holds ((List.range (i + 1)).map (Function.update memobjs i memobj)) _
        rw [hmap]
        exact hg.create _ _ _ memobj
      | none =>
        refine (wp_bind _ _).mpr (wp_mono _ (fun _ _ _ => ?_) (wp_recording_extends _ _))
        rintro - ⟨⟩
    · rintro memobjs g hmemobjs memobjs' ⟨⟩
      exact ⟨_, hmemobjs, Or.inr rfl⟩

/-- **What the preparation leaves**, when it succeeds. -/
theorem wp_prepareArgs_argsArray (hlt : cfg.corelistSize.toNat < 2 ^ 32 - 1) :
    wp (recording mainSig) (vmopsUtilsPrepareArgs cfg) (fun o g => ∀ cfg' args,
      o = some (cfg', args) →
        ∃ handles, Holds handles g ∧ ArgsArray cfg.corelistSize.toNat handles args) [] := by
  refine wp_recording_call fun args => ?_
  have hg := holds_nil.other (c := .callocArgs (cfg.corelistSize + 1)) rfl args
  cases args with
  | false => rintro - - ⟨⟩
  | true =>
    have hstats : wp (recording mainSig) (allocateStats cfg)
        (fun cfg' g => cfg'.corelistSize = cfg.corelistSize ∧ Holds [] g)
        [⟨MainCall.callocArgs (cfg.corelistSize + 1), true⟩] := by
      rw [allocateStats]
      split
      · exact ⟨rfl, hg⟩
      · refine wp_recording_call fun samples => ?_
        cases samples <;> exact ⟨rfl, hg.other rfl _⟩
    refine (wp_bind _ _).mpr (wp_mono _ ?_ hstats)
    rintro cfg' g ⟨hsize, hg⟩
    refine (wp_bind _ _).mpr (wp_mono _ (fun o g ho => ?_) (wp_createMemobjs_handedOut hg))
    cases o with
    | none =>
      refine wp_recording_call fun _ => ?_
      rintro - - ⟨⟩
    | some memobjs =>
      obtain ⟨handles, hg, hhanded⟩ := ho memobjs rfl
      refine (wp_bind _ _).mpr (wp_mono _ (fun o g hg => ?_) (wp_prepopulate_holds hg))
      cases o with
      | error _ =>
        refine wp_recording_call fun _ => ?_
        rintro - - ⟨⟩
      | ok _ =>
        rintro cfg'' args ⟨⟩
        refine ⟨handles, hg, ?_⟩
        rw [← hsize]
        exact argsArray_filledArgs (hsize ▸ hlt) hhanded

end Preparation

/-! ### The cleanup -/

/-- The loop of `vmops_utils_cleanup_args`. -/
def cleanupLoop (args : ℕ → VmopsBenchRunArg) : Prog mainSig (Except Unit (ℕ × PlatMemobj)) :=
  Prog.whileLoop (fun s => (args s.1).tid ≠ -1) (cleanupTurn args) (0, 0)

section Cleanup

variable {n : ℕ} {args : ℕ → VmopsBenchRunArg} {g : List (Event mainSig)}

/-- The memory objects of the records from the `i`-th to the sentinel. -/
def handlesFrom (args : ℕ → VmopsBenchRunArg) (n i : ℕ) : List PlatMemobj :=
  (List.range' i (n - i)).map fun i => (args i).memobj

theorem handlesFrom_eq_cons {i : ℕ} (hi : i < n) :
    handlesFrom args n i = (args i).memobj :: handlesFrom args n (i + 1) := by
  rw [handlesFrom, ← Nat.succ_pred_eq_of_pos (Nat.sub_pos_of_lt hi), List.range'_succ,
    List.map_cons]
  rfl

/-- **The state of the loop** before a record: what was destroyed, and what dropping the repetitions
from there on leaves, are together what it leaves from the beginning. -/
structure CleanupState (args : ℕ → VmopsBenchRunArg) (n : ℕ) (s : ℕ × PlatMemobj)
    (g : List (Event mainSig)) : Prop where
  le : s.1 ≤ n
  freed_eq : freed g = []
  destroyed_eq : ∃ before, 0 :: destroyed g = before ++ [s.2] ∧
    before ++ (handlesFrom args n s.1).destutter' (· ≠ ·) s.2 =
      (handlesFrom args n 0).destutter' (· ≠ ·) 0

/-- **One turn.** -/
theorem CleanupState.turn {s : ℕ × PlatMemobj} (h : CleanupState args n s g) (hlt : s.1 < n) :
    Ends (recording mainSig) (onExcept (fun _ _ => False)
      fun s' g' => CleanupState args n s' g' ∧ s'.1 = s.1 + 1) (cleanupTurn args s) g := by
  obtain ⟨current, memobj⟩ := s
  obtain ⟨before, hbefore, htotal⟩ := h.destroyed_eq
  rw [handlesFrom_eq_cons hlt] at htotal
  rw [cleanupTurn]
  split
  · next hne =>
    refine .perform trivial fun _ _ => .ret ⟨⟨hlt, ?_, before ++ [memobj], ?_, ?_⟩, rfl⟩
    · exact (List.filterMap_append (l := g)).trans ((List.append_nil _).trans h.freed_eq)
    · show 0 :: destroyed (g ++ [_]) = _
      rw [destroyed_append, ← List.cons_append, hbefore]
      rfl
    · rw [List.destutter'_cons_pos _ (Ne.symm hne)] at htotal
      exact (List.append_assoc _ _ _).trans htotal
  · next heq =>
    rw [List.destutter'_cons_neg _ (fun hne => heq (Ne.symm hne))] at htotal
    exact .ret ⟨⟨hlt, h.freed_eq, before, hbefore, htotal⟩, rfl⟩

/-- **The loop ends at the sentinel**, and what it has destroyed are the memory objects of the
records before that, without repetitions. -/
theorem ends_cleanupLoop (htid : ∀ i < n, (args i).tid ≠ -1) (hsentinel : (args n).tid = -1) :
    Ends (recording mainSig) (fun o g => (∃ memobj, o = .ok (n, memobj)) ∧ freed g = [] ∧
      0 :: destroyed g = ((List.range n).map fun i => (args i).memobj).destutter' (· ≠ ·) 0)
      (cleanupLoop args) [] := by
  refine .whileLoop (CleanupState args n) (fun s _ => n - s.1) ?_ ?_
    ⟨Nat.zero_le n, rfl, [], rfl, rfl⟩
  · intro s g hs hcond
    have hlt : s.1 < n := by
      refine lt_of_le_of_ne hs.le fun heq => ?_
      rw [heq, hsentinel] at hcond
      simp at hcond
    refine (hs.turn hlt).mono fun o g' ho => ?_
    cases o with
    | error _ => exact ho.elim
    | ok s' =>
      refine ⟨ho.1, ?_⟩
      show n - s'.1 < n - s.1
      have := ho.2
      omega
  · intro s g hs hcond
    have hstop : s.1 = n := by
      refine hs.le.eq_or_lt.resolve_right fun hlt => htid s.1 hlt ?_
      simpa using hcond
    obtain ⟨before, hbefore, htotal⟩ := hs.destroyed_eq
    refine ⟨⟨s.2, by rw [← hstop]⟩, hs.freed_eq, ?_⟩
    have hnone : handlesFrom args n s.1 = [] := by rw [handlesFrom, hstop, Nat.sub_self]; rfl
    rw [hnone] at htotal
    rw [hbefore, List.range_eq_range']
    exact htotal

/-- **The array is cleaned up**: the loop ends at the sentinel, after as many records as there are
threads; each of the memory objects is destroyed once, and nothing else is; and the array is freed
once. -/
structure CleansUp (n : ℕ) (args : ℕ → VmopsBenchRunArg) (handles : List PlatMemobj) : Prop where
  stops : Ends (recording mainSig) (fun o _ => ∃ memobj, o = .ok (n, memobj)) (cleanupLoop args) []
  releases : Ends (recording mainSig) (fun _ g => destroyed g = handles ∧ handles.Nodup ∧
    freed g = [.args]) (vmopsUtilsCleanupArgs args) []

theorem ArgsArray.cleansUp {handles : List PlatMemobj} (h : ArgsArray n handles args) (hn : 1 ≤ n)
    (hnodup : handles.Nodup) (hnull : 0 ∉ handles) : CleansUp n args handles := by
  have hloop := ends_cleanupLoop h.tid_ne h.sentinel
  refine ⟨hloop.mono fun o g ho => ho.1, .bind (hloop.mono fun o g ho => ?_)⟩
  obtain ⟨-, hfreed, hdestroyed⟩ := ho
  rw [h.handedOut.destutter_eq hn hnodup hnull] at hdestroyed
  refine Ends.call trivial fun _ _ => .ret ⟨?_, hnodup, ?_⟩
  · exact (destroyed_other rfl _ g).trans (List.tail_eq_of_cons_eq hdestroyed)
  · exact (List.filterMap_append (l := g)).trans (congrArg (· ++ [Block.args]) hfreed)

end Cleanup

/-- **What a successful preparation has created, the cleanup releases**, each memory object once.
Handles are different, and not `NULL`. -/
theorem cleansUp_of_prepared {cfg cfg' : VmopsBenchCfg} {args args' : ℕ → VmopsBenchRunArg}
    {tr : List (Event mainSig)}
    (hprepare : Run (vmopsUtilsPrepareArgs cfg) tr (.ret (some (cfg', args))))
    (hn : 1 ≤ cfg.corelistSize.toNat) (hlt : cfg.corelistSize.toNat < 2 ^ 32 - 1)
    (hnodup : (created tr).Nodup) (hnull : 0 ∉ created tr)
    (hsame : ∀ i ≤ cfg.corelistSize.toNat,
      (args' i).tid = (args i).tid ∧ (args' i).memobj = (args i).memobj) :
    CleansUp cfg.corelistSize.toNat args' (created tr) := by
  obtain ⟨handles, hholds, harray⟩ := of_run hprepare (wp_prepareArgs_argsArray hlt) cfg' args rfl
  rw [hholds.created_eq] at hnodup hnull ⊢
  exact (harray.congr hsame).cleansUp hn hnodup hnull

/-- Two threads with a memory object each, `1` and `2`, and with one for both of them. -/
theorem cleansUp_two :
    (∃ tr cfg' args, Run (vmopsUtilsPrepareArgs twoIndependent) tr (.ret (some (cfg', args))) ∧
      created tr = [1, 2] ∧ CleansUp 2 args [1, 2]) ∧
    ∃ tr cfg' args, Run (vmopsUtilsPrepareArgs twoThreads) tr (.ret (some (cfg', args))) ∧
      created tr = [1] ∧ CleansUp 2 args [1] := by
  have hindependent : ∃ tr o, Run (vmopsUtilsPrepareArgs twoIndependent) tr (.ret o) ∧
      (o.isSome = true ∧ created tr = [1, 2]) :=
    exists_run_of_yields (creatingUntil 2) 200 (by decide)
  have hshared : ∃ tr o, Run (vmopsUtilsPrepareArgs twoThreads) tr (.ret o) ∧
      (o.isSome = true ∧ created tr = [1]) :=
    exists_run_of_yields (MainCall.succeed (zeroArg twoThreads)) 200 (by decide)
  obtain ⟨tr, o, hrun, hsome, hcreated⟩ := hindependent
  obtain ⟨⟨cfg', args⟩, rfl⟩ := Option.isSome_iff_exists.mp hsome
  obtain ⟨tr', o', hrun', hsome', hcreated'⟩ := hshared
  obtain ⟨⟨cfg'', args'⟩, rfl⟩ := Option.isSome_iff_exists.mp hsome'
  refine ⟨⟨tr, cfg', args, hrun, hcreated, ?_⟩, tr', cfg'', args', hrun', hcreated', ?_⟩
  · rw [← hcreated]
    exact cleansUp_of_prepared hrun (by decide) (by decide) (by rw [hcreated]; decide)
      (by rw [hcreated]; decide) fun _ _ => ⟨rfl, rfl⟩
  · rw [← hcreated']
    exact cleansUp_of_prepared hrun' (by decide) (by decide) (by rw [hcreated']; decide)
      (by rw [hcreated']; decide) fun _ _ => ⟨rfl, rfl⟩

end VmopsBench

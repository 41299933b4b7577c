import VmopsBench.Barrelfish.Topology

/-!
# The masks on the error paths

`plat_get_topology` has two exits from the loop that reads the masks, on either platform. One frees
the masks before the current one, and those are all there are. The other, `err_out_1`, frees
as many entries as there are nodes, although only those up to the current one were written.

What was obtained and what was freed is kept in a `VmopsBench.MaskLedger`. On an error path the
two are the same, up to the order, exactly if a node whose CPUs are not known is the last one
(`VmopsBench.freesObtained_iff`).
-/

namespace VmopsBench

open Interact

/-! ### The ledger -/

/-- **The masks of a run**: those obtained and those freed, how often there was none to be had, the
nodes whose CPUs are not known, and the number of nodes. -/
structure MaskLedger where
  nnodes : BitVec 32
  obtained : List Addr
  freed : List Addr
  refused : ℕ
  unknown : List (BitVec 32)

/-- Nothing was obtained yet. -/
def MaskLedger.empty : MaskLedger := ⟨0, [], [], 0, []⟩

/-- An entry for each call that is about a mask. -/
def MaskLedger.record (l : MaskLedger) : (c : NumaCall) → c.Resp → MaskLedger
  | .numTaskNodes, nnodes => { l with nnodes := nnodes }
  | .allocateCpumask, some mask => { l with obtained := l.obtained ++ [mask] }
  | .allocateCpumask, none => { l with refused := l.refused + 1 }
  | .nodeToCpus node _, none => { l with unknown := l.unknown ++ [node] }
  | .freeCpumask mask, _ => { l with freed := l.freed ++ [mask] }
  | _, _ => l

/-- The specification that keeps the ledger. -/
def ledgerSpec : Spec numaSig MaskLedger where
  pre _ _ := True
  env _ _ _ := True
  upd := MaskLedger.record

/-- **The ledger of a run.** -/
def maskLedger (tr : List (Event numaSig)) : MaskLedger := ledgerSpec.after .empty tr

/-- A mask or the CPUs of a node were missing. -/
def MaskLedger.Failed (l : MaskLedger) : Prop := 0 < l.refused ∨ l.unknown ≠ []

/-- **What was freed is what was obtained**, each mask once. -/
def MaskLedger.FreesObtained (l : MaskLedger) : Prop := l.freed.Perm l.obtained

/-- If the CPUs of a node are not known, the node is the last one. -/
def MaskLedger.OnlyLastUnknown (l : MaskLedger) : Prop :=
  ∀ node ∈ l.unknown, node.toNat + 1 = l.nnodes.toNat

/-! ### The loops -/

/-- The ledger while masks are read: those of the first nodes were obtained. -/
structure MaskLedger.Reading (nnodes : BitVec 32) (i : ℕ) (nodecpus : ℕ → Addr)
    (l : MaskLedger) : Prop where
  nnodes_eq : l.nnodes = nnodes
  obtained : l.obtained = (List.range i).map nodecpus
  freed : l.freed = []
  refused : l.refused = 0
  unknown : l.unknown = []

/-- **The loop that frees masks**, in the ledger. -/
theorem wp_freeCpumasks (n : ℕ) (nodecpus : ℕ → Addr) (l : MaskLedger) :
    wp ledgerSpec (freeCpumasks n nodecpus)
      (fun _ l' => l' = { l with freed := l.freed ++ (List.range n).map nodecpus }) l := by
  refine wp_forLoop (fun j _ l' => l' = { l with freed := l.freed ++ (List.range j).map nodecpus })
    ?_ ?_ fun _ _ h => h
  · rw [List.range_zero, List.map_nil, List.append_nil]
  · rintro j - - - rfl
    refine wp_perform_bind.mpr ⟨trivial, fun r _ => ?_⟩
    show (⟨_, _, _ ++ [nodecpus j], _, _⟩ : MaskLedger) = _
    rw [List.range_succ, List.map_append, List.append_assoc]
    rfl

/-- A mask for the next node. -/
theorem MaskLedger.Reading.obtain {nnodes : BitVec 32} {i : ℕ} {nodecpus : ℕ → Addr}
    {l : MaskLedger} (h : l.Reading nnodes i nodecpus) (mask : Addr) :
    (l.record .allocateCpumask (some mask)).Reading nnodes (i + 1)
      (Function.update nodecpus i mask) := by
  refine ⟨h.nnodes_eq, ?_, h.freed, h.refused, h.unknown⟩
  show l.obtained ++ [mask] = _
  rw [h.obtained, List.range_succ, List.map_append, List.map_singleton, Function.update_self]
  refine congrArg (· ++ _) (List.map_congr_left fun j hj => ?_)
  rw [Function.update_of_ne (List.mem_range.mp hj).ne]

/-- **The ledger after the loop that reads masks.** Without memory all masks are freed already. -/
def ReadOutcome (nnodes : BitVec 32) : Except (Option (ℕ → Addr)) ((ℕ → Addr) × (ℕ → ℕ → Bool)) →
    MaskLedger → Prop
  | .ok s, l => l.Reading nnodes nnodes.toNat s.1
  | .error none, l => l.FreesObtained ∧ l.unknown = []
  | .error (some nodecpus), l => ∃ i < nnodes.toNat, ∃ l' : MaskLedger,
      l'.Reading nnodes (i + 1) nodecpus ∧ l = { l' with unknown := [BitVec.ofNat 32 i] }

theorem wp_readNodecpus_ledger {nnodes : BitVec 32} {nodecpus : ℕ → Addr} {l : MaskLedger}
    (hl : l.Reading nnodes 0 nodecpus) :
    wp ledgerSpec (readNodecpus nnodes nodecpus) (ReadOutcome nnodes) l := by
  refine wp_forLoop (fun i s l => l.Reading nnodes i s.1) hl ?_ fun _ _ h => h
  rintro i ⟨nodecpus, masks⟩ l hi hl
  refine wp_perform_bind.mpr ⟨trivial, fun mask _ => ?_⟩
  rcases mask with _ | mask
  · refine (wp_bind _ _).mpr (wp_mono _ (fun _ l' hl' => ?_) (wp_freeCpumasks i nodecpus _))
    refine wp_perform_bind.mpr ⟨trivial, fun _ _ => ?_⟩
    subst hl'
    refine ⟨?_, hl.unknown⟩
    show (l.freed ++ _).Perm l.obtained
    rw [hl.freed, hl.obtained, List.nil_append]
  · refine wp_perform_bind.mpr ⟨trivial, fun cpus _ => ?_⟩
    have hnext := hl.obtain mask
    rcases cpus with _ | cpus
    · refine ⟨i, hi, _, hnext, ?_⟩
      show (⟨_, _, _, _, l.unknown ++ _⟩ : MaskLedger) = _
      rw [hl.unknown]
      rfl
    · exact hnext

/-- **`err_out_1`**: as many entries are freed as there are nodes. -/
theorem freesObtained_iff_last {nnodes : BitVec 32} {nodecpus : ℕ → Addr} {l : MaskLedger} {i : ℕ}
    (hi : i < nnodes.toNat) (hl : l.Reading nnodes (i + 1) nodecpus) :
    ((List.range nnodes.toNat).map nodecpus).Perm l.obtained ↔
      (BitVec.ofNat 32 i).toNat + 1 = nnodes.toNat := by
  have hnode : (BitVec.ofNat 32 i).toNat = i := by
    rw [BitVec.toNat_ofNat]
    exact Nat.mod_eq_of_lt (lt_trans hi nnodes.isLt)
  rw [hnode, hl.obtained]
  constructor
  · intro h
    have hlen := h.length_eq
    rw [List.length_map, List.length_map, List.length_range, List.length_range] at hlen
    exact hlen.symm
  · intro h
    rw [h]

/-! ### The functions -/

/-- What is to be shown of the ledger at the end. -/
def MaskLedger.Settled (l : MaskLedger) : Prop :=
  l.Failed → (l.FreesObtained ↔ l.OnlyLastUnknown)

/-- A run that has not failed is settled. -/
theorem MaskLedger.Reading.settled {nnodes : BitVec 32} {i : ℕ} {nodecpus : ℕ → Addr}
    {l : MaskLedger} (h : l.Reading nnodes i nodecpus) : l.Settled := by
  rintro (hrefused | hunknown)
  · exact absurd h.refused hrefused.ne'
  · exact absurd h.unknown hunknown

/-- So is one that was left without memory. -/
theorem MaskLedger.FreesObtained.settled {l : MaskLedger} (h : l.FreesObtained)
    (hunknown : l.unknown = []) : l.Settled := by
  refine fun _ => iff_of_true h fun node hnode => ?_
  rw [hunknown] at hnode
  cases hnode

/-- The end of `err_out_1` is settled. -/
theorem settled_of_unknown {nnodes : BitVec 32} {nodecpus : ℕ → Addr} {l : MaskLedger} {i : ℕ}
    (hi : i < nnodes.toNat) (hl : l.Reading nnodes (i + 1) nodecpus) :
    MaskLedger.Settled ⟨l.nnodes, l.obtained, l.freed ++ (List.range nnodes.toNat).map nodecpus,
      l.refused, [BitVec.ofNat 32 i]⟩ := by
  intro _
  rw [MaskLedger.FreesObtained, hl.freed, List.nil_append, freesObtained_iff_last hi hl,
    MaskLedger.OnlyLastUnknown, List.forall_mem_singleton, hl.nnodes_eq]

/-- Without a call there is nothing to settle. -/
theorem settled_empty : MaskLedger.empty.Settled := by
  rintro (hrefused | hunknown)
  · cases hrefused
  · exact absurd rfl hunknown

/-- **The part that the platforms share.** -/
theorem wp_readMasks_ledger : wp ledgerSpec readMasks (fun _ l => l.Settled) .empty := by
  have hempty : ∀ nnodes nodecpus,
      ({ MaskLedger.empty with nnodes := nnodes } : MaskLedger).Reading nnodes 0 nodecpus :=
    fun _ _ => ⟨rfl, rfl, rfl, rfl, rfl⟩
  refine wp_perform_bind.mpr ⟨trivial, fun available _ => ?_⟩
  cases available with
  | false => exact (hempty 0 fun _ => 0).settled
  | true =>
    refine wp_perform_bind.mpr ⟨trivial, fun nproc _ => ?_⟩
    refine wp_perform_bind.mpr ⟨trivial, fun nnodes _ => ?_⟩
    refine wp_perform_bind.mpr ⟨trivial, fun nodecpus _ => ?_⟩
    rcases nodecpus with _ | nodecpus
    · exact (hempty nnodes fun _ => 0).settled
    · refine (wp_bind _ _).mpr (wp_mono _ (fun o l ho => ?_)
        (wp_readNodecpus_ledger (hempty nnodes nodecpus)))
      obtain (_ | nodecpus) | s := o
      · exact ho.1.settled ho.2
      · obtain ⟨i, hi, l', hl', rfl⟩ := ho
        refine (wp_bind _ _).mpr (wp_mono _ (fun _ l hl => ?_) (wp_freeCpumasks _ _ _))
        subst hl
        exact wp_perform_bind.mpr ⟨trivial, fun _ _ => settled_of_unknown (l := l') hi hl'⟩
      · exact ho.settled

/-- What Linux does after that has nothing to do with masks. -/
theorem wp_afterMasks_ledger {numapolicy : PlatTopoNuma} {o : Except (Option PlatError) NodeMasks}
    {l : MaskLedger} (hl : l.Settled) :
    wp ledgerSpec (afterMasks numapolicy o) (fun _ l' => l'.Settled) l := by
  obtain (_ | err) | m := o
  · refine wp_perform_bind.mpr ⟨trivial, fun _ _ => wp_perform_bind.mpr ⟨trivial, fun ok _ => ?_⟩⟩
    cases ok <;> exact hl
  · exact hl
  · exact wp_perform_bind.mpr ⟨trivial, fun _ _ => wp_perform_bind.mpr ⟨trivial, fun _ _ => hl⟩⟩

theorem wp_platGetTopology_ledger {out : Bool} {numapolicy : PlatTopoNuma}
    {corepolicy : PlatTopoCores} :
    wp ledgerSpec (platGetTopology out numapolicy corepolicy) (fun _ l => l.Settled) .empty := by
  cases out with
  | false => exact settled_empty
  | true =>
    rw [platGetTopology_eq]
    exact (wp_bind _ _).mpr (wp_mono _ (fun _ _ => wp_afterMasks_ledger) wp_readMasks_ledger)

namespace Barrelfish

/-- The ledger over the calls of `plat_get_topology` of `barrelfish.c`. -/
abbrev ledgerSpec : Spec topologySig MaskLedger :=
  VmopsBench.ledgerSpec.sum (ignoring skbSig MaskLedger)

/-- What Barrelfish does has nothing to do with masks, either. -/
theorem wp_afterMasks_ledger {numapolicy : PlatTopoNuma} {o : Except (Option PlatError) NodeMasks}
    {l : MaskLedger} (hl : l.Settled) :
    wp ledgerSpec (afterMasks numapolicy o) (fun _ l' => l'.Settled) l := by
  obtain (_ | err) | m := o
  · refine wp_perform_bind.mpr ⟨trivial, fun ok _ => ?_⟩
    cases ok with
    | false => exact hl
    | true =>
      refine wp_perform_bind.mpr ⟨trivial, fun counts _ => ?_⟩
      rcases counts with _ | ⟨node, ncid⟩
      · exact hl
      · refine wp_perform_bind.mpr ⟨trivial, fun ok _ => ?_⟩
        cases ok <;> exact hl
  · exact hl
  · exact wp_perform_bind.mpr ⟨trivial, fun _ _ => hl⟩

theorem wp_platGetTopology_ledger {out : Bool} {numapolicy : PlatTopoNuma}
    {corepolicy : PlatTopoCores} :
    wp ledgerSpec (platGetTopology out numapolicy corepolicy) (fun _ l => l.Settled) .empty := by
  cases out with
  | false => exact settled_empty
  | true =>
    rw [platGetTopology_eq]
    refine (wp_bind _ _).mpr (wp_mono _ (fun _ _ => wp_afterMasks_ledger) ?_)
    exact wp_inl _ wp_readMasks_ledger

end Barrelfish

/-- **On an error path of either platform, what is freed is what was obtained exactly if a node
whose CPUs are not known is the last one.** -/
theorem freesObtained_iff {out : Bool} {numapolicy : PlatTopoNuma} {corepolicy : PlatTopoCores} :
    (∀ tr o, Run (platGetTopology out numapolicy corepolicy) tr (.ret o) →
      (maskLedger tr).Failed →
      ((maskLedger tr).FreesObtained ↔ (maskLedger tr).OnlyLastUnknown)) ∧
    ∀ tr o, Run (Barrelfish.platGetTopology out numapolicy corepolicy) tr (.ret o) →
      (maskLedger (lefts tr)).Failed →
      ((maskLedger (lefts tr)).FreesObtained ↔ (maskLedger (lefts tr)).OnlyLastUnknown) := by
  constructor
  · intro tr o hrun
    have henv := ledgerSpec.admits_of_forall (fun _ _ _ => trivial) .empty tr
    exact (wp_run hrun wp_platGetTopology_ledger henv).2
  · intro tr o hrun
    have henv : ∀ l c r, Barrelfish.ledgerSpec.env l c r := by
      rintro l (c | c) r <;> trivial
    have hadm := Barrelfish.ledgerSpec.admits_of_forall henv .empty tr
    have hsettled := (wp_run hrun Barrelfish.wp_platGetTopology_ledger hadm).2
    rw [after_sum_ignoring] at hsettled
    exact hsettled

/-- Two nodes, of which the CPUs of one are not known. -/
def unknownNode (k : BitVec 32) : (c : NumaCall) → c.Resp
  | .nodeToCpus node _ => if node = k then none else some fun _ => true
  | c => maskAnswers 2 2 (fun _ _ => true) c

/-- The same on Barrelfish. -/
def Barrelfish.unknownNode (k : BitVec 32) :
    (c : Barrelfish.topologySig.Call) → Barrelfish.topologySig.Resp c
  | .inl c => VmopsBench.unknownNode k c
  | .inr c => Barrelfish.maskAnswers 2 2 (fun _ _ => true) (.inr c)

/-- The CPUs of the last node are not known. -/
theorem freesObtained_lastNode :
    (∃ tr o, Run (platGetTopology true .fill .fill) tr (.ret o) ∧
      (maskLedger tr).FreesObtained) ∧
    ∃ tr o, Run (Barrelfish.platGetTopology true .fill .fill) tr (.ret o) ∧
      (maskLedger (lefts tr)).FreesObtained := by
  have hlinux : ∃ tr o, Run (platGetTopology true .fill .fill) tr (.ret o) ∧
      (maskLedger tr).nnodes = 2 ∧ (maskLedger tr).unknown = [1] :=
    exists_run_of_yields (unknownNode 1) 200 (by decide)
  have hbarrelfish : ∃ tr o, Run (Barrelfish.platGetTopology true .fill .fill) tr (.ret o) ∧
      (maskLedger (lefts tr)).nnodes = 2 ∧ (maskLedger (lefts tr)).unknown = [1] :=
    exists_run_of_yields (Barrelfish.unknownNode 1) 200 (by decide)
  have hlast : ∀ l : MaskLedger, l.nnodes = 2 → l.unknown = [1] →
      l.Failed ∧ l.OnlyLastUnknown := by
    rintro l hnnodes hunknown
    rw [MaskLedger.Failed, MaskLedger.OnlyLastUnknown, hnnodes, hunknown]
    exact ⟨Or.inr (List.cons_ne_nil _ _), List.forall_mem_singleton.mpr rfl⟩
  obtain ⟨tr, o, hrun, hnnodes, hunknown⟩ := hlinux
  obtain ⟨tr', o', hrun', hnnodes', hunknown'⟩ := hbarrelfish
  obtain ⟨hfailed, honly⟩ := hlast _ hnnodes hunknown
  obtain ⟨hfailed', honly'⟩ := hlast _ hnnodes' hunknown'
  exact ⟨⟨tr, o, hrun, (freesObtained_iff.1 tr o hrun hfailed).mpr honly⟩,
    tr', o', hrun', (freesObtained_iff.2 tr' o' hrun' hfailed').mpr honly'⟩

/-- **The second entry is freed without a mask**: the CPUs of the first of two nodes are not
known. -/
theorem not_freesObtained_firstNode : ∃ tr o,
    Run (platGetTopology true .fill .fill) tr (.ret o) ∧ (maskLedger tr).Failed ∧
      (maskLedger tr).obtained = [0x1000] ∧ (maskLedger tr).freed = [0x1000, 0] ∧
        ¬(maskLedger tr).FreesObtained := by
  have hrun : ∃ tr o, Run (platGetTopology true .fill .fill) tr (.ret o) ∧
      (maskLedger tr).unknown = [0] ∧ (maskLedger tr).obtained = [0x1000] ∧
        (maskLedger tr).freed = [0x1000, 0] :=
    exists_run_of_yields (unknownNode 0) 200 (by decide)
  obtain ⟨tr, o, hrun, hunknown, hobtained, hfreed⟩ := hrun
  refine ⟨tr, o, hrun, Or.inr ?_, hobtained, hfreed, ?_⟩
  · rw [hunknown]
    exact List.cons_ne_nil _ _
  · rw [MaskLedger.FreesObtained, hobtained, hfreed]
    decide

end VmopsBench

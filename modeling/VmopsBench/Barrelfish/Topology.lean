import VmopsBench.Interact.Embed
import VmopsBench.Platform.FillOrder

/-!
# The order of the cores on Barrelfish

`plat_get_topology` of `barrelfish.c`. The text is that of `linux.c`
(`VmopsBench.platGetTopology`) but for core `0`, the one that the driver runs on: the scan of a
mask starts with CPU `1`, and after the nodes are through core `0` is stored at the place that the
counter of the scans has come to. The sequential fall-back puts core `0` last as well. It
asks the system knowledge base for the number of cores, which are calls that Linux does not have.

So the stores of the nodes are those that Linux makes for masks without CPU `0`
(`VmopsBench.Barrelfish.scanMask_eq`).
-/

namespace VmopsBench.Barrelfish

open Interact

/-! ### The calls -/

/-- **The calls of the sequential fall-back.** -/
inductive SkbCall where
  /-- Whether `skb_execute_query` does not fail. -/
  | executeQuery
  /-- `skb_read_output`, answered with the numbers of nodes and cores that it has read. -/
  | readOutput
  deriving DecidableEq

abbrev SkbCall.Resp : SkbCall → Type
  | .executeQuery => Bool
  | .readOutput => Option (BitVec 32 × BitVec 32)

/-- The signature of the calls to the knowledge base. -/
abbrev skbSig : Sig := ⟨SkbCall, SkbCall.Resp⟩

/-- **The signature of `plat_get_topology`.** -/
abbrev topologySig : Sig := numaSig.sum skbSig

/-- A call of libnuma or of `malloc`. -/
abbrev numaCall (c : NumaCall) : Prog topologySig c.Resp := performLeft (S := numaSig) skbSig c

/-- A call to the knowledge base. -/
abbrev skbCall (c : SkbCall) : Prog topologySig c.Resp := performRight (T := skbSig) numaSig c

/-- An error of the function: one of the platform, or what `err_push` makes of the failure of
`skb_read_output`, which is not among them. -/
inductive TopologyError where
  | plat (err : PlatError)
  | skbData
  deriving DecidableEq

/-! ### The stores -/

/-- The loop over the bits of a mask, from CPU `1` on. -/
def scanMask (nproc : BitVec 32) (mask : ℕ → Bool) (slot : BitVec 32 → BitVec 32)
    (s : BitVec 32 × List (BitVec 32 × BitVec 32)) : BitVec 32 × List (BitVec 32 × BitVec 32) :=
  (List.range' 1 (nproc.toNat - 1)).foldl (fun s c =>
    if mask c then (s.1 + 1, s.2 ++ [(slot s.1, BitVec.ofNat 32 c)]) else s) s

/-- The loops of `PLAT_TOPOLOGY_NUMA_FILL`, with the last `cidx`. -/
def fillLoops (nproc nnodes : BitVec 32) (nodecpus : ℕ → ℕ → Bool) :
    BitVec 32 × List (BitVec 32 × BitVec 32) :=
  (List.range nnodes.toNat).foldl (fun s n => scanMask nproc (nodecpus n) id s) (0, [])

/-- The loops of `PLAT_TOPOLOGY_NUMA_INTERLEAVE`: `cidx` starts again with each node. -/
def interleaveLoops (nproc nnodes : BitVec 32) (nodecpus : ℕ → ℕ → Bool) :
    BitVec 32 × List (BitVec 32 × BitVec 32) :=
  (List.range nnodes.toNat).foldl (fun s n =>
    scanMask nproc (nodecpus n) (fun cidx => BitVec.ofNat 32 n + cidx * nnodes) (0, s.2)) (0, [])

/-- The stores of a policy. Core `0` is stored where `cidx` has come to. -/
def policyStores (numapolicy : PlatTopoNuma) (nproc nnodes : BitVec 32)
    (nodecpus : ℕ → ℕ → Bool) : List (BitVec 32 × BitVec 32) :=
  let s := match numapolicy with
    | .fill => fillLoops nproc nnodes nodecpus
    | .interleave => interleaveLoops nproc nnodes nodecpus
  s.2 ++ [(s.1, 0)]

/-! ### The functions -/

/-- `get_topolocy_no_numa` of `barrelfish.c`. Without a core the last store is far outside. -/
def getTopolocyNoNuma : Prog topologySig (Except TopologyError CoreIds) := do
  if !(← skbCall .executeQuery) then return .error (.plat .initFailed)
  else match ← skbCall .readOutput with
    | none => return .error .skbData
    | some (_, ncid) =>
      if ← numaCall (.mallocCids ncid) then
        let stores := (List.range ncid.toNat).map fun i =>
          (BitVec.ofNat 32 i, BitVec.ofNat 32 i + 1)
        return .ok ⟨ncid, stores ++ [(ncid - 1, 0)]⟩
      else return .error (.plat .noMem)

/-- `plat_get_topology` of `barrelfish.c`; `out` says that neither of the pointers for the results
is `NULL`. The loop that reads the masks is the one of `linux.c`. -/
def platGetTopology (out : Bool) (numapolicy : PlatTopoNuma) (_ : PlatTopoCores) :
    Prog topologySig (Except TopologyError CoreIds) := do
  if !out then return .error (.plat .argsInvalid)
  else if ← numaCall .available then
    let nproc ← numaCall .numTaskCpus
    let nnodes ← numaCall .numTaskNodes
    match ← numaCall (.mallocNodecpus nnodes) with
    | none => return .error (.plat .noMem)
    | some nodecpus =>
      match ← (readNodecpus nnodes nodecpus).inl skbSig with
      | .error none => return .error (.plat .noMem)
      -- `err_out_1`, as on Linux
      | .error (some nodecpus) =>
        let _ ← (freeCpumasks nnodes.toNat nodecpus).inl skbSig
        numaCall .freeNodecpus
        getTopolocyNoNuma
      | .ok (_, nodecpus) =>
        let _ ← numaCall (.mallocCids nproc)
        return .ok ⟨nproc, policyStores numapolicy nproc nnodes nodecpus⟩
  else getTopolocyNoNuma

/-! ### What is stored -/

/-- A mask without CPU `0`. -/
def withoutZero (mask : ℕ → Bool) (c : ℕ) : Bool := decide (c ≠ 0) && mask c

/-- **The scan leaves out CPU `0`**, and is the one of Linux otherwise. -/
theorem scanMask_eq (nproc : BitVec 32) (mask : ℕ → Bool) (slot : BitVec 32 → BitVec 32)
    (s : BitVec 32 × List (BitVec 32 × BitVec 32)) :
    scanMask nproc mask slot s = VmopsBench.scanMask nproc (withoutZero mask) slot s := by
  rw [scanMask, VmopsBench.scanMask]
  cases h : nproc.toNat with
  | zero => rfl
  | succ n =>
    rw [List.range_succ_eq_map, List.foldl_cons, Nat.add_sub_cancel, List.range'_eq_map_range,
      List.foldl_map, List.foldl_map]
    refine List.foldl_ext _ _ _ fun s c _ => ?_
    simp [withoutZero, Nat.add_comm 1 c]

/-- Among different numbers, those that are not `0`. -/
theorem filter_ne_zero {cs : List ℕ} (h : cs.Nodup) :
    cs.filter (fun c => decide (c ≠ 0)) = cs.erase 0 := by
  rw [h.erase_eq_filter]
  refine List.filter_congr fun c _ => ?_
  by_cases hc : c = 0 <;> simp [hc]

/-- The CPUs of such a mask. -/
theorem cpusOf_withoutZero (nproc : BitVec 32) (mask : ℕ → Bool) :
    cpusOf nproc (withoutZero mask) = (cpusOf nproc mask).filter fun c => decide (c ≠ 0) := by
  rw [cpusOf, cpusOf, List.filter_filter]
  rfl

section Stores

variable (nproc nnodes : BitVec 32) (nodecpus : ℕ → ℕ → Bool)

/-- The CPUs of some nodes without CPU `0`. -/
theorem scanned_withoutZero : scanned nproc nnodes (fun n => withoutZero (nodecpus n)) =
    (scanned nproc nnodes nodecpus).filter fun c => decide (c ≠ 0) := by
  rw [scanned, scanned, List.filter_flatMap]
  exact List.flatMap_congr fun n _ => cpusOf_withoutZero nproc (nodecpus n)

/-- The loops of the fill policy: the stores of Linux, and their number. -/
theorem fillLoops_eq : fillLoops nproc nnodes nodecpus =
    (BitVec.ofNat 32 (scanned nproc nnodes fun n => withoutZero (nodecpus n)).length,
      fillStores nproc nnodes fun n => withoutZero (nodecpus n)) := by
  have hscan : (fun (s : BitVec 32 × List (BitVec 32 × BitVec 32)) n =>
      scanMask nproc (nodecpus n) id s) =
        fun s n => VmopsBench.scanMask nproc (withoutZero (nodecpus n)) id s := by
    funext s n
    exact scanMask_eq nproc (nodecpus n) id s
  rw [fillLoops, hscan, foldl_scanMask, fillStores_eq]
  rfl

/-- The loops of the interleave policy: the stores of Linux, and the number of those of the last
node. -/
theorem interleaveLoops_eq : interleaveLoops nproc nnodes nodecpus =
    (if nnodes.toNat = 0 then 0 else
      BitVec.ofNat 32 (cpusOf nproc (withoutZero (nodecpus (nnodes.toNat - 1)))).length,
      interleaveStores nproc nnodes fun n => withoutZero (nodecpus n)) := by
  have hscan : (fun (s : BitVec 32 × List (BitVec 32 × BitVec 32)) n =>
      scanMask nproc (nodecpus n) (fun cidx => BitVec.ofNat 32 n + cidx * nnodes) (0, s.2)) =
        fun s n => VmopsBench.scanMask nproc (withoutZero (nodecpus n))
          (fun cidx => BitVec.ofNat 32 n + cidx * nnodes) (0, s.2) := by
    funext s n
    exact scanMask_eq nproc (nodecpus n) _ (0, s.2)
  rw [interleaveLoops, hscan, interleaveStores]
  induction nnodes.toNat with
  | zero => rfl
  | succ k ih =>
    rw [List.range_succ, List.foldl_append, List.foldl_append, ih, if_neg (Nat.succ_ne_zero k),
      List.foldl_cons, List.foldl_nil, List.foldl_cons, List.foldl_nil, VmopsBench.scanMask_eq,
      zero_add]
    rfl

/-- Only the masks of the nodes are scanned. -/
theorem policyStores_congr (numapolicy : PlatTopoNuma) {nodecpus nodecpus' : ℕ → ℕ → Bool}
    (h : ∀ n < nnodes.toNat, nodecpus n = nodecpus' n) :
    policyStores numapolicy nproc nnodes nodecpus =
      policyStores numapolicy nproc nnodes nodecpus' := by
  have hlast : ∀ {s s' : BitVec 32 × List (BitVec 32 × BitVec 32)}, s = s' →
      s.2 ++ [(s.1, 0)] = s'.2 ++ [(s'.1, (0 : BitVec 32))] := by
    rintro s - rfl
    rfl
  cases numapolicy <;>
    exact hlast (List.foldl_ext _ _ _ fun s n hn => by rw [h n (List.mem_range.mp hn)])

end Stores

/-! ### What is returned -/

/-- The rest of the function after the part that it shares with Linux. -/
def afterMasks (numapolicy : PlatTopoNuma) :
    Except (Option PlatError) NodeMasks → Prog topologySig (Except TopologyError CoreIds)
  | .error none => getTopolocyNoNuma
  | .error (some err) => return .error (.plat err)
  | .ok m => do
    let _ ← numaCall (.mallocCids m.nproc)
    return .ok ⟨m.nproc, policyStores numapolicy m.nproc m.nnodes m.nodecpus⟩

theorem platGetTopology_eq (numapolicy : PlatTopoNuma) (corepolicy : PlatTopoCores) :
    platGetTopology true numapolicy corepolicy =
      readMasks.inl skbSig >>= afterMasks numapolicy := by
  refine congrArg (Prog.call _) (funext fun available => ?_)
  cases available with
  | false => rfl
  | true =>
    refine congrArg (Prog.call _) (funext fun nproc => ?_)
    refine congrArg (Prog.call _) (funext fun nnodes => ?_)
    refine congrArg (Prog.call _) (funext fun nodecpus => ?_)
    cases nodecpus with
    | none => rfl
    | some nodecpus =>
      show _ = (readNodecpus nnodes nodecpus >>= _).inl skbSig >>= afterMasks numapolicy
      rw [Prog.inl_bind, Prog.bind_assoc]
      refine congrArg ((readNodecpus nnodes nodecpus).inl skbSig >>= ·) (funext fun o => ?_)
      obtain (_ | nodecpus) | s := o
      · rfl
      · show _ = (freeCpumasks nnodes.toNat nodecpus >>= _).inl skbSig >>= afterMasks numapolicy
        rw [Prog.inl_bind, Prog.bind_assoc]
        rfl
      · rfl

/-- **The answers are these counts and masks**, and any from the knowledge base. -/
abbrev reportingMasks (nproc nnodes : BitVec 32) (nodecpus : ℕ → ℕ → Bool) :
    Spec topologySig Unit :=
  (VmopsBench.reportingMasks nproc nnodes nodecpus).sum (ignoring skbSig Unit)

/-- **What is returned for some masks.** -/
theorem wp_platGetTopology {nproc nnodes : BitVec 32} {nodecpus : ℕ → ℕ → Bool}
    {numapolicy : PlatTopoNuma} {corepolicy : PlatTopoCores} :
    wp (reportingMasks nproc nnodes nodecpus) (platGetTopology true numapolicy corepolicy)
      (fun o _ => ∀ cids, o = .ok cids →
        cids = ⟨nproc, policyStores numapolicy nproc nnodes nodecpus⟩) () := by
  rw [platGetTopology_eq]
  refine (wp_bind _ _).mpr (wp_mono _ (fun o _ ho => ?_) (wp_inl _ wp_readMasks))
  cases o with
  | error o =>
    obtain rfl : o = some .noMem := ho
    exact fun cids h => by cases h
  | ok m =>
    obtain ⟨hproc, hnodes, hmasks⟩ := ho
    refine wp_perform_bind.mpr ⟨trivial, fun _ _ cids hcids => ?_⟩
    rw [← Except.ok.inj hcids, hproc, hnodes, policyStores_congr _ _ numapolicy hmasks]

/-- **Every result for some masks** consists of the stores of the policy. -/
theorem eq_of_reportingMasks {nproc nnodes : BitVec 32} {nodecpus : ℕ → ℕ → Bool}
    {numapolicy : PlatTopoNuma} {corepolicy : PlatTopoCores} {tr : List (Event topologySig)}
    {cids : CoreIds}
    (hrun : Run (platGetTopology true numapolicy corepolicy) tr (.ret (.ok cids)))
    (hreport : (reportingMasks nproc nnodes nodecpus).Admits () tr) :
    cids = ⟨nproc, policyStores numapolicy nproc nnodes nodecpus⟩ :=
  (wp_run hrun wp_platGetTopology hreport).2 cids rfl

/-- The answers by which some counts and masks are reported. The knowledge base has as many
cores. -/
def maskAnswers (nproc nnodes : BitVec 32) (nodecpus : ℕ → ℕ → Bool) :
    (c : topologySig.Call) → topologySig.Resp c
  | .inl c => VmopsBench.maskAnswers nproc nnodes nodecpus c
  | .inr .executeQuery => true
  | .inr .readOutput => some (nnodes, nproc)

theorem reportingMasks_answers (nproc nnodes : BitVec 32) (nodecpus : ℕ → ℕ → Bool) (g : Unit)
    (c : topologySig.Call) : (reportingMasks nproc nnodes nodecpus).env g c
      (maskAnswers nproc nnodes nodecpus c) := by
  obtain c | c := c
  · exact VmopsBench.reportingMasks_answers nproc nnodes nodecpus g c
  · trivial

end VmopsBench.Barrelfish

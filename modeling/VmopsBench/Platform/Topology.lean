import VmopsBench.Interact.Spec
import VmopsBench.Order.Filling
import VmopsBench.Platform.LinuxMemobj

/-!
# The order of the cores on Linux

`plat_get_topology` of `linux.c`: the array of core ids from which the benchmarks take their cores,
in one of two orders. Each node's CPUs are read into a mask, which is then scanned. With the fill
policy the array is filled from the front, and with the interleave policy the `k`-th CPU of
node `n` goes to index `n + k * nnodes`, so that the array is a table with a column for each node
(`Filling.columnIndices`).

What libnuma and `malloc` answer is left to the surroundings, so the function is a program over
the signature `VmopsBench.numaSig`. The array is kept as the stores that were made to it; what it
held before is not determined.

Whether the columns are those of a table is not checked. By `VmopsBench.orders_iff` the
array is filled exactly when the nodes are of the sizes that the columns of a table have.
-/

namespace VmopsBench

open Interact

/-! ### The calls -/

/-- **The calls of `plat_get_topology`.** -/
inductive NumaCall where
  /-- Whether `numa_available` does not return `-1`. -/
  | available
  | numTaskCpus
  | numTaskNodes
  | getNprocs
  /-- `malloc` of the array of masks. It is answered with what the block holds. -/
  | mallocNodecpus (nnodes : BitVec 32)
  | allocateCpumask
  /-- `numa_node_to_cpus`, answered with what it has written to the mask. -/
  | nodeToCpus (node : BitVec 32) (mask : Addr)
  | freeCpumask (mask : Addr)
  | freeNodecpus
  /-- `malloc` of the array of core ids. -/
  | mallocCids (n : BitVec 32)
  deriving DecidableEq

abbrev NumaCall.Resp : NumaCall → Type
  | .available | .mallocCids _ => Bool
  | .numTaskCpus | .numTaskNodes | .getNprocs => BitVec 32
  | .mallocNodecpus _ => Option (ℕ → Addr)
  | .allocateCpumask => Option Addr
  | .nodeToCpus .. => Option (ℕ → Bool)
  | .freeCpumask _ | .freeNodecpus => Unit

/-- **The signature of `plat_get_topology`.** -/
abbrev numaSig : Sig := ⟨NumaCall, NumaCall.Resp⟩

/-- One of these calls. -/
abbrev numaCall (c : NumaCall) : Prog numaSig c.Resp := Prog.perform (S := numaSig) c

/-- `plat_topo_numa_t`. -/
inductive PlatTopoNuma where
  | fill
  | interleave
  deriving DecidableEq

/-- `plat_topo_cores_t`. -/
inductive PlatTopoCores where
  | fill
  | interleave
  deriving DecidableEq

/-- **What is returned**: the number of core ids, and the stores made to the array. -/
structure CoreIds where
  ncoreids : BitVec 32
  stores : List (BitVec 32 × BitVec 32)
  deriving DecidableEq

/-! ### The two orders -/

/-- The loop over the bits of a mask, over `cidx` and the stores: the next core id goes to
`slot cidx`. -/
def scanMask (nproc : BitVec 32) (mask : ℕ → Bool) (slot : BitVec 32 → BitVec 32)
    (s : BitVec 32 × List (BitVec 32 × BitVec 32)) : BitVec 32 × List (BitVec 32 × BitVec 32) :=
  (List.range nproc.toNat).foldl (fun s c =>
    if mask c then (s.1 + 1, s.2 ++ [(slot s.1, BitVec.ofNat 32 c)]) else s) s

/-- The stores of `PLAT_TOPOLOGY_NUMA_FILL`. -/
def fillStores (nproc nnodes : BitVec 32) (nodecpus : ℕ → ℕ → Bool) :
    List (BitVec 32 × BitVec 32) :=
  ((List.range nnodes.toNat).foldl (fun s n => scanMask nproc (nodecpus n) id s) (0, [])).2

/-- The stores of `PLAT_TOPOLOGY_NUMA_INTERLEAVE`: `cidx` starts again with each node. -/
def interleaveStores (nproc nnodes : BitVec 32) (nodecpus : ℕ → ℕ → Bool) :
    List (BitVec 32 × BitVec 32) :=
  (List.range nnodes.toNat).foldl (fun stores n =>
    (scanMask nproc (nodecpus n) (fun cidx => BitVec.ofNat 32 n + cidx * nnodes) (0, stores)).2) []

/-! ### The function -/

/-- `get_topolocy_no_numa`. -/
def getTopolocyNoNuma : Prog numaSig (Except PlatError CoreIds) := do
  let ncid ← numaCall .getNprocs
  if ← numaCall (.mallocCids ncid) then
    return .ok ⟨ncid, (List.range ncid.toNat).map fun i => (BitVec.ofNat 32 i, BitVec.ofNat 32 i)⟩
  else return .error .noMem

/-- A loop that frees the first masks. -/
def freeCpumasks (n : ℕ) (nodecpus : ℕ → Addr) : Prog numaSig (Except Unit Unit) :=
  Prog.forLoop n (fun j _ => do
    numaCall (.freeCpumask (nodecpus j))
    return .ok ()) ()

/-- The loop that reads the masks, over the array of masks and what they hold. It is left without
memory for a mask, or with the array when the CPUs of a node are not known. -/
def readNodecpus (nnodes : BitVec 32) (nodecpus : ℕ → Addr) :
    Prog numaSig (Except (Option (ℕ → Addr)) ((ℕ → Addr) × (ℕ → ℕ → Bool))) :=
  Prog.forLoop nnodes.toNat (fun i (s : (ℕ → Addr) × (ℕ → ℕ → Bool)) => do
    match ← numaCall .allocateCpumask with
    | none =>
      let _ ← freeCpumasks i s.1
      numaCall .freeNodecpus
      return .error none
    | some mask =>
      let nodecpus := Function.update s.1 i mask
      match ← numaCall (.nodeToCpus (BitVec.ofNat 32 i) mask) with
      | none => return .error (some nodecpus)
      | some cpus => return .ok (nodecpus, Function.update s.2 i cpus)) (nodecpus, fun _ _ => false)

/-- `plat_get_topology` of `linux.c`; `out` says that neither of the pointers for the results is
`NULL`. The policy for cores is ignored, and so is an error of the last `malloc`. The masks are not
freed when the function succeeds. -/
def platGetTopology (out : Bool) (numapolicy : PlatTopoNuma) (_ : PlatTopoCores) :
    Prog numaSig (Except PlatError CoreIds) := do
  if !out then return .error .argsInvalid
  else if ← numaCall .available then
    let nproc ← numaCall .numTaskCpus
    let nnodes ← numaCall .numTaskNodes
    match ← numaCall (.mallocNodecpus nnodes) with
    | none => return .error .noMem
    | some nodecpus =>
      match ← readNodecpus nnodes nodecpus with
      | .error none => return .error .noMem
      -- `err_out_1`: the entries after the current one were never written
      | .error (some nodecpus) =>
        let _ ← freeCpumasks nnodes.toNat nodecpus
        numaCall .freeNodecpus
        getTopolocyNoNuma
      | .ok (_, nodecpus) =>
        let _ ← numaCall .getNprocs
        let _ ← numaCall (.mallocCids nproc)
        return .ok ⟨nproc, match numapolicy with
          | .fill => fillStores nproc nnodes nodecpus
          | .interleave => interleaveStores nproc nnodes nodecpus⟩
  else getTopolocyNoNuma

/-! ### What is stored -/

/-- The CPUs of a mask, in ascending order. -/
def cpusOf (nproc : BitVec 32) (mask : ℕ → Bool) : List ℕ :=
  (List.range nproc.toNat).filter mask

/-- The stores for some core ids, starting with index `slot cidx`. -/
def storesOf (slot : BitVec 32 → BitVec 32) (cidx : BitVec 32) (cpus : List ℕ) :
    List (BitVec 32 × BitVec 32) :=
  cpus.zipIdx.map fun p => (slot (cidx + BitVec.ofNat 32 p.2), BitVec.ofNat 32 p.1)

/-- The loop over the bits of a mask stores the CPUs of the mask, one after the other. -/
theorem scanMask_eq (nproc : BitVec 32) (mask : ℕ → Bool) (slot : BitVec 32 → BitVec 32)
    (s : BitVec 32 × List (BitVec 32 × BitVec 32)) : scanMask nproc mask slot s =
      (s.1 + BitVec.ofNat 32 (cpusOf nproc mask).length,
        s.2 ++ storesOf slot s.1 (cpusOf nproc mask)) := by
  rw [scanMask, cpusOf]
  induction List.range nproc.toNat using List.reverseRecOn with
  | nil => simp [storesOf]
  | append_singleton cs c ih =>
    rw [List.foldl_append, ih]
    cases hc : mask c with
    | false => simp [hc]
    | true =>
      simp [hc, storesOf, List.zipIdx_append, BitVec.ofNat_add, BitVec.add_assoc]

/-- The stores of the interleave policy, column by column. -/
theorem interleaveStores_eq (nproc nnodes : BitVec 32) (nodecpus : ℕ → ℕ → Bool) :
    interleaveStores nproc nnodes nodecpus = (List.range nnodes.toNat).flatMap fun n =>
      storesOf (fun cidx => BitVec.ofNat 32 n + cidx * nnodes) 0 (cpusOf nproc (nodecpus n)) := by
  rw [interleaveStores]
  induction List.range nnodes.toNat using List.reverseRecOn with
  | nil => rfl
  | append_singleton ns n ih =>
    rw [List.foldl_append, ih, List.flatMap_append, List.flatMap_singleton, List.foldl_cons,
      List.foldl_nil, scanMask_eq]

/-- The stores for more core ids. -/
theorem storesOf_append (slot : BitVec 32 → BitVec 32) (cidx : BitVec 32) (cpus cpus' : List ℕ) :
    storesOf slot cidx (cpus ++ cpus') =
      storesOf slot cidx cpus ++ storesOf slot (cidx + BitVec.ofNat 32 cpus.length) cpus' := by
  rw [storesOf, List.zipIdx_append, List.map_append, Nat.zero_add,
    List.zipIdx_eq_map_add (l := cpus') (i := cpus.length), List.map_map]
  refine congrArg _ (List.map_congr_left fun p _ => ?_)
  simp [BitVec.ofNat_add, BitVec.add_assoc]

/-- The CPUs of some nodes, below the end of the scan. -/
def scanned (nproc nnodes : BitVec 32) (nodecpus : ℕ → ℕ → Bool) : List ℕ :=
  (List.range nnodes.toNat).flatMap fun n => cpusOf nproc (nodecpus n)

theorem mem_cpusOf {nproc : BitVec 32} {mask : ℕ → Bool} {c : ℕ} :
    c ∈ cpusOf nproc mask ↔ c < nproc.toNat ∧ mask c = true := by
  rw [cpusOf, List.mem_filter, List.mem_range]

theorem mem_scanned {nproc nnodes : BitVec 32} {nodecpus : ℕ → ℕ → Bool} {c : ℕ} :
    c ∈ scanned nproc nnodes nodecpus ↔
      c < nproc.toNat ∧ ∃ n < nnodes.toNat, nodecpus n c = true := by
  simp only [scanned, List.mem_flatMap, List.mem_range, mem_cpusOf]
  constructor
  · rintro ⟨n, hn, hc, hmask⟩
    exact ⟨hc, n, hn, hmask⟩
  · rintro ⟨hc, n, hn, hmask⟩
    exact ⟨n, hn, hc, hmask⟩

/-- **If every CPU belongs to one node**, the CPUs of all nodes are all CPUs. -/
theorem scanned_perm {nproc nnodes : BitVec 32} {nodecpus : ℕ → ℕ → Bool}
    (h : ∀ c < nproc.toNat, ∃! n, n < nnodes.toNat ∧ nodecpus n c = true) :
    (scanned nproc nnodes nodecpus).Perm (List.range nproc.toNat) := by
  have hnodup : (scanned nproc nnodes nodecpus).Nodup := by
    refine List.nodup_flatMap.mpr ⟨fun n _ => List.nodup_range.filter _, ?_⟩
    refine List.Nodup.pairwise_of_forall_ne List.nodup_range fun n hn n' hn' hne => ?_
    rw [Function.onFun, List.disjoint_left]
    intro c hc hc'
    obtain ⟨hlt, hc⟩ := mem_cpusOf.mp hc
    obtain ⟨-, hc'⟩ := mem_cpusOf.mp hc'
    exact hne ((h c hlt).unique ⟨List.mem_range.mp hn, hc⟩ ⟨List.mem_range.mp hn', hc'⟩)
  refine (List.perm_ext_iff_of_nodup hnodup List.nodup_range).mpr fun c => ?_
  rw [mem_scanned, List.mem_range]
  exact and_iff_left_of_imp fun hc => (h c hc).exists

/-- The scans of some masks, one after the other. -/
theorem foldl_scanMask (nproc : BitVec 32) (nodecpus : ℕ → ℕ → Bool) (ns : List ℕ) :
    ns.foldl (fun s n => scanMask nproc (nodecpus n) id s) ((0 : BitVec 32), []) =
      (BitVec.ofNat 32 (ns.flatMap fun n => cpusOf nproc (nodecpus n)).length,
        storesOf id 0 (ns.flatMap fun n => cpusOf nproc (nodecpus n))) := by
  induction ns using List.reverseRecOn with
  | nil => rfl
  | append_singleton ns n ih =>
    rw [List.foldl_append, ih, List.foldl_cons, List.foldl_nil, scanMask_eq,
      List.flatMap_append, List.flatMap_singleton, storesOf_append, List.length_append,
      BitVec.ofNat_add, zero_add]

/-- The stores of the fill policy, one after the other. -/
theorem fillStores_eq (nproc nnodes : BitVec 32) (nodecpus : ℕ → ℕ → Bool) :
    fillStores nproc nnodes nodecpus = storesOf id 0 (scanned nproc nnodes nodecpus) := by
  rw [fillStores, foldl_scanMask, scanned]

/-- The indices of a column. -/
theorem map_fst_storesOf (slot : BitVec 32 → BitVec 32) (cpus : List ℕ) :
    (storesOf slot 0 cpus).map Prod.fst =
      (List.range cpus.length).map fun k => slot (BitVec.ofNat 32 k) := by
  rw [storesOf, List.map_map, List.range_eq_range', ← List.zipIdx_map_snd, List.map_map]
  refine List.map_congr_left fun p _ => ?_
  simp

/-- Its core ids. -/
theorem map_snd_storesOf (slot : BitVec 32 → BitVec 32) (cidx : BitVec 32) (cpus : List ℕ) :
    (storesOf slot cidx cpus).map Prod.snd = cpus.map (BitVec.ofNat 32) := by
  rw [storesOf, List.map_map]
  conv_rhs => rw [← List.zipIdx_map_fst 0 cpus, List.map_map]
  rfl

/-- The stores of a policy. -/
def policyStores : PlatTopoNuma → (nproc nnodes : BitVec 32) → (ℕ → ℕ → Bool) →
    List (BitVec 32 × BitVec 32)
  | .fill => fillStores
  | .interleave => interleaveStores

/-- Only the masks of the nodes are scanned. -/
theorem policyStores_congr (numapolicy : PlatTopoNuma) (nproc : BitVec 32) {nnodes : BitVec 32}
    {nodecpus nodecpus' : ℕ → ℕ → Bool} (h : ∀ n < nnodes.toNat, nodecpus n = nodecpus' n) :
    policyStores numapolicy nproc nnodes nodecpus =
      policyStores numapolicy nproc nnodes nodecpus' := by
  cases numapolicy with
  | fill =>
    refine congrArg Prod.snd (List.foldl_ext _ _ _ fun s n hn => ?_)
    rw [h n (List.mem_range.mp hn)]
  | interleave =>
    refine List.foldl_ext _ _ _ fun s n hn => ?_
    rw [h n (List.mem_range.mp hn)]

/-! ### Reading the masks -/

/-- What has been read of the nodes. -/
structure NodeMasks where
  nproc : BitVec 32
  nnodes : BitVec 32
  nodecpus : ℕ → ℕ → Bool

/-- **The part that is the same on both platforms**: all up to the order itself. It fails without
memory, and comes to nothing without libnuma, or if the CPUs of a node are not known. -/
def readMasks : Prog numaSig (Except (Option PlatError) NodeMasks) := do
  if ← numaCall .available then
    let nproc ← numaCall .numTaskCpus
    let nnodes ← numaCall .numTaskNodes
    match ← numaCall (.mallocNodecpus nnodes) with
    | none => return .error (some .noMem)
    | some nodecpus =>
      match ← readNodecpus nnodes nodecpus with
      | .error none => return .error (some .noMem)
      | .error (some nodecpus) =>
        let _ ← freeCpumasks nnodes.toNat nodecpus
        numaCall .freeNodecpus
        return .error none
      | .ok (_, nodecpus) => return .ok ⟨nproc, nnodes, nodecpus⟩
  else return .error none

/-- The rest of the function, on Linux. -/
def afterMasks (numapolicy : PlatTopoNuma) :
    Except (Option PlatError) NodeMasks → Prog numaSig (Except PlatError CoreIds)
  | .error none => getTopolocyNoNuma
  | .error (some err) => return .error err
  | .ok m => do
    let _ ← numaCall .getNprocs
    let _ ← numaCall (.mallocCids m.nproc)
    return .ok ⟨m.nproc, policyStores numapolicy m.nproc m.nnodes m.nodecpus⟩

theorem platGetTopology_eq (numapolicy : PlatTopoNuma) (corepolicy : PlatTopoCores) :
    platGetTopology true numapolicy corepolicy = readMasks >>= afterMasks numapolicy := by
  refine congrArg (Prog.call _) (funext fun available => ?_)
  cases available with
  | false => rfl
  | true =>
    refine congrArg (Prog.call _) (funext fun nproc => ?_)
    refine congrArg (Prog.call _) (funext fun nnodes => ?_)
    refine congrArg (Prog.call _) (funext fun nodecpus => ?_)
    cases nodecpus with
    | none => rfl
    | some nodecpus =>
      show _ = (readNodecpus nnodes nodecpus >>= _) >>= afterMasks numapolicy
      rw [Prog.bind_assoc]
      refine congrArg (readNodecpus nnodes nodecpus >>= ·) (funext fun o => ?_)
      obtain (_ | nodecpus) | s := o
      · rfl
      · show _ = (freeCpumasks nnodes.toNat nodecpus >>= _) >>= afterMasks numapolicy
        rw [Prog.bind_assoc]
        rfl
      · cases numapolicy <;> rfl

/-! ### What libnuma reports -/

/-- **The answers are these counts and masks.** Allocations may fail. -/
def reportingMasks (nproc nnodes : BitVec 32) (nodecpus : ℕ → ℕ → Bool) : Spec numaSig Unit where
  pre _ _ := True
  env _ c r := match c, r with
    | .available, r => r = true
    | .numTaskCpus, r => r = nproc
    | .numTaskNodes, r => r = nnodes
    | .nodeToCpus node _, r => r = some (nodecpus node.toNat)
    | _, _ => True
  upd _ _ _ := ()

section Masks

variable {nproc nnodes : BitVec 32} {nodecpus : ℕ → ℕ → Bool}

/-- The masks after the loop that reads them, if there was memory. -/
theorem wp_readNodecpus {masks : ℕ → Addr} :
    wp (reportingMasks nproc nnodes nodecpus) (readNodecpus nnodes masks)
      (onExcept (fun o _ => o = none) fun s _ => ∀ n < nnodes.toNat, s.2 n = nodecpus n) () := by
  refine wp_forLoop (fun i s _ => ∀ n < i, s.2 n = nodecpus n)
    (fun n hn => absurd hn (Nat.not_lt_zero n)) ?_ fun _ _ h => h
  rintro i ⟨masks, read⟩ - hi hread
  refine wp_perform_bind.mpr ⟨trivial, fun mask _ => ?_⟩
  cases mask with
  | none =>
    refine (wp_bind _ _).mpr (wp_forLoop (fun _ _ _ => True) trivial ?_ fun _ _ _ => ?_)
    · exact fun j _ _ _ _ => wp_perform_bind.mpr ⟨trivial, fun _ _ => trivial⟩
    · exact wp_perform_bind.mpr ⟨trivial, fun _ _ => rfl⟩
  | some mask =>
    refine wp_perform_bind.mpr ⟨trivial, fun cpus hcpus => ?_⟩
    have hnode : (BitVec.ofNat 32 i).toNat = i := by
      rw [BitVec.toNat_ofNat]
      exact Nat.mod_eq_of_lt (lt_trans hi nnodes.isLt)
    obtain rfl : cpus = some (nodecpus i) := by
      have hcpus : cpus = some (nodecpus (BitVec.ofNat 32 i).toNat) := hcpus
      rwa [hnode] at hcpus
    intro n hn
    rcases Nat.lt_succ_iff_lt_or_eq.mp hn with hlt | rfl
    · exact (Function.update_of_ne hlt.ne _ _).trans (hread n hlt)
    · exact Function.update_self _ _ _

/-- **What is read for some masks.** -/
theorem wp_readMasks : wp (reportingMasks nproc nnodes nodecpus) readMasks
    (onExcept (fun o _ => o = some .noMem) fun m _ =>
      m.nproc = nproc ∧ m.nnodes = nnodes ∧ ∀ n < nnodes.toNat, m.nodecpus n = nodecpus n) () := by
  refine wp_perform_bind.mpr ⟨trivial, fun available h => ?_⟩
  obtain rfl : available = true := h
  refine wp_perform_bind.mpr ⟨trivial, fun n h => ?_⟩
  obtain rfl : n = nproc := h
  refine wp_perform_bind.mpr ⟨trivial, fun n h => ?_⟩
  obtain rfl : n = nnodes := h
  refine wp_perform_bind.mpr ⟨trivial, fun masks _ => ?_⟩
  cases masks with
  | none => exact rfl
  | some masks =>
    refine (wp_bind _ _).mpr (wp_mono _ (fun o _ ho => ?_) wp_readNodecpus)
    cases o with
    | error o =>
      obtain rfl : o = none := ho
      exact rfl
    | ok s => exact ⟨rfl, rfl, ho⟩

/-- **What is returned for some masks.** -/
theorem wp_platGetTopology {numapolicy : PlatTopoNuma} {corepolicy : PlatTopoCores} :
    wp (reportingMasks nproc nnodes nodecpus) (platGetTopology true numapolicy corepolicy)
      (fun o _ => ∀ cids, o = .ok cids →
        cids = ⟨nproc, policyStores numapolicy nproc nnodes nodecpus⟩) () := by
  rw [platGetTopology_eq]
  refine (wp_bind _ _).mpr (wp_mono _ (fun o _ ho => ?_) wp_readMasks)
  cases o with
  | error o =>
    obtain rfl : o = some .noMem := ho
    exact fun cids h => by cases h
  | ok m =>
    obtain ⟨hproc, hnodes, hmasks⟩ := ho
    refine wp_perform_bind.mpr ⟨trivial, fun _ _ => ?_⟩
    refine wp_perform_bind.mpr ⟨trivial, fun _ _ cids hcids => ?_⟩
    rw [← Except.ok.inj hcids, hproc, hnodes, policyStores_congr numapolicy _ hmasks]

/-- **Every result for some masks** consists of the stores of the policy. -/
theorem eq_of_reportingMasks {numapolicy : PlatTopoNuma} {corepolicy : PlatTopoCores}
    {tr : List (Event numaSig)} {cids : CoreIds}
    (hrun : Run (platGetTopology true numapolicy corepolicy) tr (.ret (.ok cids)))
    (hreport : (reportingMasks nproc nnodes nodecpus).Admits () tr) :
    cids = ⟨nproc, policyStores numapolicy nproc nnodes nodecpus⟩ :=
  (wp_run hrun wp_platGetTopology hreport).2 cids rfl

end Masks

/-- The answers by which some counts and masks are reported, when every allocation succeeds. -/
def maskAnswers (nproc nnodes : BitVec 32) (nodecpus : ℕ → ℕ → Bool) : (c : NumaCall) → c.Resp
  | .available | .mallocCids _ => true
  | .numTaskCpus | .getNprocs => nproc
  | .numTaskNodes => nnodes
  | .mallocNodecpus _ => some fun _ => 0
  | .allocateCpumask => some 0x1000
  | .nodeToCpus node _ => some (nodecpus node.toNat)
  | .freeCpumask _ | .freeNodecpus => ()

theorem reportingMasks_answers (nproc nnodes : BitVec 32) (nodecpus : ℕ → ℕ → Bool) (g : Unit)
    (c : NumaCall) : (reportingMasks nproc nnodes nodecpus).env g c
      (maskAnswers nproc nnodes nodecpus c) := by
  cases c <;> trivial

/-! ### Machines -/

/-- **The CPUs of a machine**, as libnuma reports them: every CPU below `nproc` belongs to one node.
The counts come as values of type `int`. -/
structure Machine where
  nproc : BitVec 32
  nnodes : BitVec 32
  nodecpus : ℕ → ℕ → Bool
  nproc_lt : nproc.toNat < 2 ^ 31
  nnodes_lt : nnodes.toNat < 2 ^ 31
  nnodes_pos : 0 < nnodes.toNat
  partition : ∀ c < nproc.toNat, ∃! n, n < nnodes.toNat ∧ nodecpus n c = true

/-- The CPUs of a node. -/
def Machine.cpus (m : Machine) (n : ℕ) : List ℕ := cpusOf m.nproc (m.nodecpus n)

section Machine

variable {m : Machine}

theorem mem_cpus {n c : ℕ} : c ∈ m.cpus n ↔ c < m.nproc.toNat ∧ m.nodecpus n c = true :=
  mem_cpusOf

/-- **The CPUs of all nodes are the CPUs of the machine.** -/
theorem flatMap_cpus_perm (m : Machine) :
    ((List.range m.nnodes.toNat).flatMap m.cpus).Perm (List.range m.nproc.toNat) :=
  scanned_perm m.partition

/-- **All nodes have the same number of CPUs.** -/
def Machine.Balanced (m : Machine) (size : ℕ) : Prop :=
  ∀ n < m.nnodes.toNat, (m.cpus n).length = size

/-- The CPUs of a balanced machine fill the rows of a table. -/
theorem Machine.Balanced.nproc_eq {size : ℕ} (h : m.Balanced size) :
    m.nproc.toNat = m.nnodes.toNat * size := by
  have hlength := (flatMap_cpus_perm m).length_eq
  have hsizes : (List.range m.nnodes.toNat).map (fun n => (m.cpus n).length) =
      List.replicate m.nnodes.toNat size := by
    refine List.eq_replicate_iff.mpr ⟨by simp, fun k hk => ?_⟩
    obtain ⟨n, hn, rfl⟩ := List.mem_map.mp hk
    exact h n (List.mem_range.mp hn)
  rw [List.length_flatMap, hsizes, List.sum_replicate, List.length_range, smul_eq_mul] at hlength
  exact hlength.symm

/-- The columns of a balanced machine are those of a table. -/
theorem Machine.Balanced.columnLength {size : ℕ} (h : m.Balanced size) {n : ℕ}
    (hn : n < m.nnodes.toNat) :
    (m.cpus n).length = Filling.columnLength m.nproc.toNat m.nnodes.toNat n := by
  rw [h.nproc_eq, Filling.columnLength_mul hn, h n hn]

/-! ### When the order is a permutation -/

/-- **The array is filled**: each of its entries is written once, nothing else is written, and
whatever it held before, it is a permutation of the CPUs. -/
structure CoreIds.Orders (cids : CoreIds) (nproc : ℕ) : Prop where
  written : (cids.stores.map fun x => x.1.toNat).Perm (List.range nproc)
  perm : ∀ junk, ((List.range nproc).map (Filling.filled
    (cids.stores.map fun x => (x.1.toNat, x.2.toNat)) junk)).Perm (List.range nproc)

/-- An array whose entries were each written once is filled, if the core ids that were stored are
the CPUs. -/
theorem orders_of_perm {cids : CoreIds} {nproc : ℕ}
    (hwritten : (cids.stores.map fun x => x.1.toNat).Perm (List.range nproc))
    (hvalues : (cids.stores.map fun x => x.2.toNat).Perm (List.range nproc)) :
    cids.Orders nproc := by
  refine ⟨hwritten, fun junk => (Filling.filled_perm junk ?_).trans ?_⟩
  · rwa [List.map_map]
  · rwa [List.map_map]

/-- An index of the interleave policy, computed as machines do. -/
theorem slot_toNat (nnodes : BitVec 32) (n k : ℕ) :
    (BitVec.ofNat 32 n + BitVec.ofNat 32 k * nnodes).toNat =
      (n + k * nnodes.toNat) % 2 ^ 32 := by
  rw [BitVec.toNat_add, BitVec.toNat_mul, BitVec.toNat_ofNat, BitVec.toNat_ofNat,
    Nat.mod_add_mod, Nat.add_mod_mod, Nat.add_mod, Nat.mod_mul_mod, ← Nat.add_mod]

/-- The indices of the interleave policy are those of a table with a column for each node. -/
theorem indices_interleaveStores (nproc nnodes : BitVec 32) (nodecpus : ℕ → ℕ → Bool) :
    (interleaveStores nproc nnodes nodecpus).map (fun x => x.1.toNat) =
      Filling.columnIndices (2 ^ 32) nnodes.toNat fun n =>
        (cpusOf nproc (nodecpus n)).length := by
  rw [interleaveStores_eq, List.map_flatMap, Filling.columnIndices]
  refine List.flatMap_congr fun n _ => ?_
  have hfst : ∀ stores : List (BitVec 32 × BitVec 32), stores.map (fun x => x.1.toNat) =
      (stores.map Prod.fst).map BitVec.toNat := fun stores => by
    rw [List.map_map, Function.comp_def]
  rw [hfst, map_fst_storesOf, List.map_map]
  exact List.map_congr_left fun k _ => slot_toNat nnodes n k

/-- The values are the CPUs, node by node. -/
theorem values_interleaveStores (nproc nnodes : BitVec 32) (nodecpus : ℕ → ℕ → Bool) :
    (interleaveStores nproc nnodes nodecpus).map (fun x => x.2.toNat) =
      scanned nproc nnodes nodecpus := by
  rw [interleaveStores_eq, List.map_flatMap, scanned]
  refine List.flatMap_congr fun n _ => ?_
  have hsnd : ∀ stores : List (BitVec 32 × BitVec 32), stores.map (fun x => x.2.toNat) =
      (stores.map Prod.snd).map BitVec.toNat := fun stores => by
    rw [List.map_map, Function.comp_def]
  rw [hsnd, map_snd_storesOf, List.map_map]
  refine (List.map_congr_left fun c hc => ?_).trans (List.map_id _)
  have hlt : c < 2 ^ 32 := lt_trans (mem_cpusOf.mp hc).1 nproc.isLt
  rw [Function.comp_apply, BitVec.toNat_ofNat, Nat.mod_eq_of_lt hlt]
  rfl

/-- The stores of a machine fill the array if the columns are those of a table. -/
theorem orders_interleaveStores_iff (m : Machine) :
    (⟨m.nproc, interleaveStores m.nproc m.nnodes m.nodecpus⟩ : CoreIds).Orders m.nproc.toNat ↔
      ∀ n < m.nnodes.toNat,
        (m.cpus n).length = Filling.columnLength m.nproc.toNat m.nnodes.toNat n := by
  have hsum : m.nproc.toNat + m.nnodes.toNat ≤ 2 ^ 32 := by
    have := m.nproc_lt
    have := m.nnodes_lt
    omega
  have hcolumns : (Filling.columnIndices (2 ^ 32) m.nnodes.toNat fun n =>
      (m.cpus n).length).Perm (List.range m.nproc.toNat) ↔ ∀ n < m.nnodes.toNat,
        (m.cpus n).length = Filling.columnLength m.nproc.toNat m.nnodes.toNat n :=
    Filling.columnIndices_perm_iff m.nnodes_pos hsum
  have hindices : (interleaveStores m.nproc m.nnodes m.nodecpus).map (fun x => x.1.toNat) =
      Filling.columnIndices (2 ^ 32) m.nnodes.toNat fun n => (m.cpus n).length :=
    indices_interleaveStores _ _ _
  rw [← hindices] at hcolumns
  constructor
  · intro h
    exact hcolumns.mp h.written
  · intro h
    refine orders_of_perm (hcolumns.mpr h) ?_
    show ((interleaveStores m.nproc m.nnodes m.nodecpus).map fun x => x.2.toNat).Perm _
    rw [values_interleaveStores]
    exact flatMap_cpus_perm m

/-- **The interleaved order is a permutation exactly if the nodes have the sizes of the columns of a
table**: node `n` has one CPU for each `k` with `n + k * nnodes < nproc`. -/
theorem orders_iff {corepolicy : PlatTopoCores} {tr : List (Event numaSig)} {cids : CoreIds}
    (hrun : Run (platGetTopology true .interleave corepolicy) tr (.ret (.ok cids)))
    (hreport : (reportingMasks m.nproc m.nnodes m.nodecpus).Admits () tr) :
    cids.Orders m.nproc.toNat ↔ ∀ n < m.nnodes.toNat,
      (m.cpus n).length = (m.nproc.toNat + m.nnodes.toNat - 1 - n) / m.nnodes.toNat := by
  rw [eq_of_reportingMasks hrun hreport]
  exact orders_interleaveStores_iff m

end Machine

/-- Four CPUs, which belong to two nodes by turns. -/
def twoNodes : Machine where
  nproc := 4
  nnodes := 2
  nodecpus n c := c % 2 = n
  nproc_lt := by decide
  nnodes_lt := by decide
  nnodes_pos := by decide
  partition c _ := ⟨c % 2, ⟨Nat.mod_lt c Nat.two_pos, decide_eq_true rfl⟩,
    fun _ hn => (of_decide_eq_true hn.2).symm⟩

/-- Two CPUs of one node, and a node without CPUs. -/
def emptyNode : Machine where
  nproc := 2
  nnodes := 2
  nodecpus n _ := n = 0
  nproc_lt := by decide
  nnodes_lt := by decide
  nnodes_pos := by decide
  partition _ _ := ⟨0, ⟨Nat.two_pos, decide_eq_true rfl⟩, fun _ hn => of_decide_eq_true hn.2⟩

/-- Two nodes of two CPUs each. -/
theorem orders_twoNodes : ∃ tr cids,
    Run (platGetTopology true .interleave .fill) tr (.ret (.ok cids)) ∧ cids.Orders 4 := by
  have hrun : ∃ tr o, Run (platGetTopology true .interleave .fill) tr (.ret o) ∧
      (reportingMasks 4 2 twoNodes.nodecpus).Admits () tr ∧ o.toOption.isSome = true :=
    exists_admitted_of_yields (reportingMasks_answers 4 2 twoNodes.nodecpus) () 200 (by decide)
  obtain ⟨tr, o, hrun, hreport, ho⟩ := hrun
  cases o with
  | error err => cases ho
  | ok cids => exact ⟨tr, cids, hrun, (orders_iff (m := twoNodes) hrun hreport).mpr (by decide)⟩

/-- With an empty node the second CPU is stored behind the end of the array. -/
theorem not_orders_emptyNode : ∃ tr cids,
    Run (platGetTopology true .interleave .fill) tr (.ret (.ok cids)) ∧
      (reportingMasks 2 2 emptyNode.nodecpus).Admits () tr ∧ cids.stores = [(0, 0), (2, 1)] ∧
        ¬cids.Orders 2 := by
  have hrun : ∃ tr o, Run (platGetTopology true .interleave .fill) tr (.ret o) ∧
      (reportingMasks 2 2 emptyNode.nodecpus).Admits () tr ∧
        o.toOption = some ⟨2, [(0, 0), (2, 1)]⟩ :=
    exists_admitted_of_yields (reportingMasks_answers 2 2 emptyNode.nodecpus) () 200 (by decide)
  obtain ⟨tr, o, hrun, hreport, ho⟩ := hrun
  cases o with
  | error err => cases ho
  | ok cids =>
    obtain rfl : cids = ⟨2, [(0, 0), (2, 1)]⟩ := Option.some.inj ho
    refine ⟨tr, _, hrun, hreport, rfl, fun h => ?_⟩
    exact absurd h.written (by decide)

end VmopsBench

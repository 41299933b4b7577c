import VmopsBench.Barrelfish.Topology

/-!
# Core 0 on Barrelfish

Where core `0` comes to stand. With the fill policy the counter of the scans ends behind all that
they have stored, and so the array is that of Linux with core `0` moved to its end; the
sequential fall-backs of the two platforms are related in the same way
(`VmopsBench.Barrelfish.fill_alike`).

With the interleave policy the counter is that of the last node alone. The place that the scans
have left free is in the column of the node of core `0`, after the other CPUs of that node. By
`VmopsBench.Barrelfish.interleave_orders_iff` the two are the same place only on a machine with one
node, on one with two nodes of two CPUs, and on one with single CPUs for nodes, core `0` being in
the right node. Elsewhere a store is overwritten and an entry never written.
-/

namespace VmopsBench.Barrelfish

open Interact

/-! ### One node after the other -/

/-- **Alike but for core `0`**: both arrays are permutations of the CPUs, and the second is the
first with core `0` moved to the end. -/
structure AlikeButZero (linux barrelfish : CoreIds) (nproc : ℕ) : Prop where
  array : ∀ junk junk', barrelfish.array junk' = (linux.array junk).erase 0 ++ [0]
  linux_perm : ∀ junk, (linux.array junk).Perm (List.range nproc)
  barrelfish_perm : ∀ junk, (barrelfish.array junk).Perm (List.range nproc)

/-- The array of Linux decides. -/
theorem alikeButZero_of_array {linux barrelfish : CoreIds} {nproc : ℕ} {order : List ℕ}
    (hpos : 0 < nproc) (hperm : order.Perm (List.range nproc))
    (hlinux : ∀ junk, linux.array junk = order)
    (hbarrelfish : ∀ junk, barrelfish.array junk = order.erase 0 ++ [0]) :
    AlikeButZero linux barrelfish nproc := by
  have hzero : 0 ∈ order := hperm.mem_iff.mpr (List.mem_range.mpr hpos)
  refine ⟨fun junk junk' => ?_, fun junk => ?_, fun junk => ?_⟩
  · rw [hbarrelfish, hlinux]
  · rwa [hlinux]
  · rw [hbarrelfish]
    refine List.Perm.trans (List.perm_append_singleton _ _) ?_
    exact (List.perm_cons_erase hzero).symm.trans hperm

/-- **The stores of the fill policy**: those of Linux without core `0`, which comes last. -/
theorem policyStores_fill {nproc nnodes : BitVec 32} {nodecpus : ℕ → ℕ → Bool}
    (hnodup : (scanned nproc nnodes nodecpus).Nodup) :
    policyStores .fill nproc nnodes nodecpus =
      storesOf id 0 ((scanned nproc nnodes nodecpus).erase 0 ++ [0]) := by
  show (fillLoops _ _ _).2 ++ [((fillLoops _ _ _).1, 0)] = _
  rw [fillLoops_eq, fillStores_eq, scanned_withoutZero, filter_ne_zero hnodup, storesOf_append]
  simp [storesOf]

/-- The fill orders are alike, if every CPU belongs to one node. -/
theorem alikeButZero_fill {nproc nnodes : BitVec 32} {nodecpus : ℕ → ℕ → Bool}
    (hpos : 0 < nproc.toNat)
    (hpartition : ∀ c < nproc.toNat, ∃! n, n < nnodes.toNat ∧ nodecpus n c = true) :
    AlikeButZero ⟨nproc, fillStores nproc nnodes nodecpus⟩
      ⟨nproc, policyStores .fill nproc nnodes nodecpus⟩ nproc.toNat := by
  have hperm := scanned_perm hpartition
  have hlen : (scanned nproc nnodes nodecpus).length = nproc.toNat := by
    rw [hperm.length_eq, List.length_range]
  have hzero : 0 ∈ scanned nproc nnodes nodecpus := hperm.mem_iff.mpr (List.mem_range.mpr hpos)
  refine alikeButZero_of_array hpos hperm (lists_scanned hlen).array ?_
  rw [policyStores_fill (hperm.nodup_iff.mpr List.nodup_range)]
  refine (lists_storesOf ?_ fun c hc => ?_).array
  · rw [List.length_append, List.length_singleton, List.length_erase_of_mem hzero, hlen]
    omega
  · rcases List.mem_append.mp hc with hc | hc
    · exact scanned_lt c (List.mem_of_mem_erase hc)
    · rw [List.mem_singleton.mp hc]
      decide

/-! ### The sequential fall-backs -/

/-- The number of processors is `ncid`, on Linux. -/
def countingProcs (ncid : BitVec 32) : Spec numaSig Unit where
  pre _ _ := True
  env _ c r := match c, r with
    | .getNprocs, r => r = ncid
    | _, _ => True
  upd _ _ _ := ()

/-- The number of cores in the knowledge base is `ncid`, on Barrelfish. -/
def countingCores (ncid : BitVec 32) : Spec skbSig Unit where
  pre _ _ := True
  env _ c r := match c, r with
    | .readOutput, r => ∀ counts, r = some counts → counts.2 = ncid
    | .executeQuery, _ => True
  upd _ _ _ := ()

/-- The stores of the fall-back of Barrelfish. -/
def sequentialStores (ncid : BitVec 32) : List (BitVec 32 × BitVec 32) :=
  (List.range ncid.toNat).map (fun i => (BitVec.ofNat 32 i, BitVec.ofNat 32 i + 1)) ++
    [(ncid - 1, 0)]

theorem sequentialStores_toNat {ncid : BitVec 32} {k : ℕ} (hk : ncid.toNat = k + 1) :
    (sequentialStores ncid).map (fun x => (x.1.toNat, x.2.toNat)) =
      (List.range (k + 1)).map (fun i => (i, i + 1)) ++ [(k, 0)] := by
  have hlt : k + 1 < 2 ^ 32 := by
    rw [← hk]
    exact ncid.isLt
  have hlast : (ncid - 1).toNat = k := by
    have hone : (1 : BitVec 32) ≤ ncid := by
      rw [BitVec.le_def, hk]
      exact Nat.le_add_left 1 k
    rw [BitVec.toNat_sub_of_le hone, hk]
    rfl
  rw [sequentialStores, List.map_append, List.map_map, hk, List.map_singleton, hlast]
  refine congrArg (· ++ _) (List.map_congr_left fun i hi => ?_)
  have hi := List.mem_range.mp hi
  simp
  omega

/-- Before the last store, entry `i` is `i + 1`. -/
theorem filled_succ {k i : ℕ} (hi : i < k) (junk : ℕ → ℕ) :
    Filling.filled ((List.range (k + 1)).map fun i => (i, i + 1)) junk i = i + 1 := by
  refine Filling.filled_of_mem (x := (i, i + 1)) ?_ ?_
  · exact List.mem_map.mpr ⟨i, List.mem_range.mpr (by omega), rfl⟩
  · intro y hy heq
    obtain ⟨j, -, rfl⟩ := List.mem_map.mp hy
    exact congrArg (· + 1) heq

/-- **The fall-back of Barrelfish**: the last store moves core `0` to the end. -/
theorem array_sequentialStores {ncid : BitVec 32} (hpos : 0 < ncid.toNat) (junk : ℕ → ℕ) :
    (⟨ncid, sequentialStores ncid⟩ : CoreIds).array junk =
      (List.range ncid.toNat).erase 0 ++ [0] := by
  obtain ⟨k, hk⟩ : ∃ k, ncid.toNat = k + 1 := ⟨ncid.toNat - 1, by omega⟩
  rw [CoreIds.array, sequentialStores_toNat hk, hk]
  calc (List.range (k + 1)).map
        (Filling.filled ((List.range (k + 1)).map (fun i => (i, i + 1)) ++ [(k, 0)]) junk)
      = (List.range k).map Nat.succ ++ [0] := by
        rw [List.range_succ (n := k), List.map_append, List.map_singleton, ← List.range_succ,
          Filling.filled_append_singleton, Function.update_self]
        refine congrArg (· ++ _) (List.map_congr_left fun i hi => ?_)
        have hi := List.mem_range.mp hi
        rw [Function.update_of_ne hi.ne, filled_succ hi]
    _ = (List.range (k + 1)).erase 0 ++ [0] := by
        rw [List.range_succ_eq_map, List.erase_cons_head]

theorem wp_linux_noNuma {ncid : BitVec 32} :
    wp (countingProcs ncid) VmopsBench.getTopolocyNoNuma (fun o _ => ∀ cids, o = .ok cids →
      cids = ⟨ncid, storesOf id 0 (List.range ncid.toNat)⟩) () := by
  refine wp_perform_bind.mpr ⟨trivial, fun n hn => ?_⟩
  obtain rfl : n = ncid := hn
  refine wp_perform_bind.mpr ⟨trivial, fun ok _ => ?_⟩
  cases ok with
  | false => exact fun cids h => by cases h
  | true =>
    intro cids h
    obtain rfl := Except.ok.inj h
    refine congrArg (CoreIds.mk _) (List.ext_getElem ?_ fun i hi hi' => ?_)
    · simp [storesOf]
    · simp [storesOf]

theorem wp_noNuma {ncid : BitVec 32} :
    wp ((ignoring numaSig Unit).sum (countingCores ncid)) getTopolocyNoNuma (fun o _ =>
      ∀ cids, o = .ok cids → cids = ⟨ncid, sequentialStores ncid⟩) () := by
  refine wp_perform_bind.mpr ⟨trivial, fun ok _ => ?_⟩
  cases ok with
  | false => exact fun cids h => by cases h
  | true =>
    refine wp_perform_bind.mpr ⟨trivial, fun counts hcounts => ?_⟩
    cases counts with
    | none => exact fun cids h => by cases h
    | some counts =>
      obtain rfl : counts.2 = ncid := hcounts counts rfl
      refine wp_perform_bind.mpr ⟨trivial, fun ok _ => ?_⟩
      cases ok with
      | false => exact fun cids h => by cases h
      | true => exact fun cids h => (Except.ok.inj h).symm

/-- **The fall-backs are alike.** -/
theorem alikeButZero_noNuma {ncid : BitVec 32} (hpos : 0 < ncid.toNat) :
    AlikeButZero ⟨ncid, storesOf id 0 (List.range ncid.toNat)⟩ ⟨ncid, sequentialStores ncid⟩
      ncid.toNat := by
  refine alikeButZero_of_array hpos (List.Perm.refl _) ?_ (array_sequentialStores hpos)
  refine (lists_storesOf List.length_range fun c hc => ?_).array
  exact lt_trans (List.mem_range.mp hc) ncid.isLt

/-- **The two platforms order the cores alike**, but for core `0`: with the fill policy on every
machine, and without NUMA for every number of cores. -/
theorem fill_alike :
    (∀ nproc nnodes : BitVec 32, ∀ nodecpus : ℕ → ℕ → Bool, 0 < nproc.toNat →
      (∀ c < nproc.toNat, ∃! n, n < nnodes.toNat ∧ nodecpus n c = true) →
      ∀ corepolicy corepolicy' tr tr' cids cids',
        Run (VmopsBench.platGetTopology true .fill corepolicy) tr (.ret (.ok cids)) →
        (VmopsBench.reportingMasks nproc nnodes nodecpus).Admits () tr →
        Run (platGetTopology true .fill corepolicy') tr' (.ret (.ok cids')) →
        (reportingMasks nproc nnodes nodecpus).Admits () tr' →
        AlikeButZero cids cids' nproc.toNat) ∧
    ∀ ncid : BitVec 32, 0 < ncid.toNat → ∀ tr tr' cids cids',
      Run VmopsBench.getTopolocyNoNuma tr (.ret (.ok cids)) → (countingProcs ncid).Admits () tr →
      Run getTopolocyNoNuma tr' (.ret (.ok cids')) →
      ((ignoring numaSig Unit).sum (countingCores ncid)).Admits () tr' →
      AlikeButZero cids cids' ncid.toNat := by
  constructor
  · intro nproc nnodes nodecpus hpos hpartition corepolicy corepolicy' tr tr' cids cids' hrun
      hreport hrun' hreport'
    obtain rfl := VmopsBench.eq_of_reportingMasks hrun hreport
    obtain rfl := eq_of_reportingMasks hrun' hreport'
    exact alikeButZero_fill hpos hpartition
  · intro ncid hpos tr tr' cids cids' hrun hcount hrun' hcount'
    obtain rfl := (wp_run hrun wp_linux_noNuma hcount).2 cids rfl
    obtain rfl := (wp_run hrun' wp_noNuma hcount').2 cids' rfl
    exact alikeButZero_noNuma hpos

/-- Two nodes of two CPUs each, and three cores without NUMA. -/
theorem fill_alike_twoNodes :
    (∃ tr tr' cids cids', Run (VmopsBench.platGetTopology true .fill .fill) tr (.ret (.ok cids)) ∧
      Run (platGetTopology true .fill .fill) tr' (.ret (.ok cids')) ∧ AlikeButZero cids cids' 4) ∧
    ∃ tr tr' cids cids', Run VmopsBench.getTopolocyNoNuma tr (.ret (.ok cids)) ∧
      Run getTopolocyNoNuma tr' (.ret (.ok cids')) ∧ AlikeButZero cids cids' 3 := by
  have hlinux : ∃ tr o, Run (VmopsBench.platGetTopology true .fill .fill) tr (.ret o) ∧
      (VmopsBench.reportingMasks 4 2 twoNodes.nodecpus).Admits () tr ∧
        o.toOption.isSome = true :=
    exists_admitted_of_yields (VmopsBench.reportingMasks_answers 4 2 twoNodes.nodecpus) () 200
      (by decide)
  have hbarrelfish : ∃ tr o, Run (platGetTopology true .fill .fill) tr (.ret o) ∧
      (reportingMasks 4 2 twoNodes.nodecpus).Admits () tr ∧ o.toOption.isSome = true :=
    exists_admitted_of_yields (reportingMasks_answers 4 2 twoNodes.nodecpus) () 200 (by decide)
  have hcountProcs : ∀ g c, (countingProcs 3).env g c
      (VmopsBench.maskAnswers 3 1 (fun _ _ => true) c) := by
    intro g c
    cases c <;> trivial
  have hcountCores : ∀ g c, ((ignoring numaSig Unit).sum (countingCores 3)).env g c
      (maskAnswers 3 1 (fun _ _ => true) c) := by
    rintro g (c | _ | _)
    · trivial
    · trivial
    · rintro counts ⟨⟩
      rfl
  have hprocs : ∃ tr o, Run VmopsBench.getTopolocyNoNuma tr (.ret o) ∧
      (countingProcs 3).Admits () tr ∧ o.toOption.isSome = true :=
    exists_admitted_of_yields hcountProcs () 200 (by decide)
  have hcores : ∃ tr o, Run getTopolocyNoNuma tr (.ret o) ∧
      ((ignoring numaSig Unit).sum (countingCores 3)).Admits () tr ∧ o.toOption.isSome = true :=
    exists_admitted_of_yields hcountCores () 200 (by decide)
  obtain ⟨tr₁, _ | cids₁, hrun₁, hadm₁, ho₁⟩ := hlinux
  · cases ho₁
  obtain ⟨tr₂, _ | cids₂, hrun₂, hadm₂, ho₂⟩ := hbarrelfish
  · cases ho₂
  obtain ⟨tr₃, _ | cids₃, hrun₃, hadm₃, ho₃⟩ := hprocs
  · cases ho₃
  obtain ⟨tr₄, _ | cids₄, hrun₄, hadm₄, ho₄⟩ := hcores
  · cases ho₄
  exact ⟨⟨tr₁, tr₂, cids₁, cids₂, hrun₁, hrun₂, fill_alike.1 4 2 _ (by decide) twoNodes.partition
      _ _ _ _ _ _ hrun₁ hadm₁ hrun₂ hadm₂⟩,
    tr₃, tr₄, cids₃, cids₄, hrun₃, hrun₄,
      fill_alike.2 3 (by decide) _ _ _ _ hrun₃ hadm₃ hrun₄ hadm₄⟩

/-! ### Interleaved -/

section Interleaved

variable {m : Machine} {size : ℕ}

/-- The number of CPUs of a node, without CPU `0`. -/
def restSize (m : Machine) (n : ℕ) : ℕ := (cpusOf m.nproc (withoutZero (m.nodecpus n))).length

/-- What is returned with the interleave policy. -/
def interleaved (m : Machine) : CoreIds :=
  ⟨m.nproc, policyStores .interleave m.nproc m.nnodes m.nodecpus⟩

/-- A node other than that of core `0` has all its CPUs. -/
theorem restSize_of_not_mem {n : ℕ} (h : 0 ∉ m.cpus n) : restSize m n = (m.cpus n).length := by
  rw [restSize, cpusOf_withoutZero]
  refine congrArg List.length (List.filter_eq_self.mpr fun c hc => decide_eq_true ?_)
  rintro rfl
  exact h hc

/-- The node of core `0` has one CPU less. -/
theorem restSize_of_mem {n : ℕ} (h : 0 ∈ m.cpus n) : restSize m n + 1 = (m.cpus n).length := by
  have hnodup : (m.cpus n).Nodup := List.nodup_range.filter _
  have hpos : 0 < (m.cpus n).length := List.length_pos_of_mem h
  rw [restSize, cpusOf_withoutZero]
  show ((m.cpus n).filter _).length + 1 = _
  rw [filter_ne_zero hnodup, List.length_erase_of_mem h]
  omega

/-- Core `0` has one node. -/
theorem eq_of_zero_mem {n z : ℕ} (hn : n < m.nnodes.toNat) (hz : z < m.nnodes.toNat)
    (hmem : 0 ∈ m.cpus n) (hzero : 0 ∈ m.cpus z) : n = z := by
  obtain ⟨hpos, hmask⟩ := mem_cpus.mp hmem
  exact (m.partition 0 hpos).unique ⟨hn, hmask⟩ ⟨hz, (mem_cpus.mp hzero).2⟩

/-- All nodes are of the same size, but for core `0`. -/
theorem restSize_eq (hbalanced : m.Balanced size) {n z : ℕ} (hn : n < m.nnodes.toNat)
    (hz : z < m.nnodes.toNat) (hzero : 0 ∈ m.cpus z) :
    restSize m n = if z = n then size - 1 else size := by
  split
  · next h =>
    subst h
    have := restSize_of_mem hzero
    have := hbalanced z hz
    omega
  · next h =>
    have hmem : 0 ∉ m.cpus n := fun hmem => h (eq_of_zero_mem hz hn hzero hmem)
    rw [restSize_of_not_mem hmem, hbalanced n hn]

/-- **Where the counter of the last node meets the free place.** -/
theorem last_eq_free_iff {width size z : ℕ} (hz : z < width) (hsize : 0 < size) :
    (if z = width - 1 then size - 1 else size) = z + (size - 1) * width ↔
      width = 1 ∨ (width = 2 ∧ size = 2 ∧ z = 0) ∨ (3 ≤ width ∧ size = 1 ∧ z = 1) := by
  obtain ⟨rows, rfl⟩ : ∃ rows, size = rows + 1 := ⟨size - 1, by omega⟩
  rw [Nat.add_sub_cancel]
  rcases Nat.lt_or_ge width 3 with hw | hw
  · -- one or two columns
    obtain rfl | rfl : width = 1 ∨ width = 2 := by omega
    · obtain rfl : z = 0 := by omega
      simp
    · split <;> omega
  · rcases Nat.eq_zero_or_pos rows with rfl | hrows
    · split <;> omega
    · have hlarge : 3 * rows ≤ rows * width := by
        rw [Nat.mul_comm]
        exact Nat.mul_le_mul_left rows hw
      split <;> omega

/-- **The entries that are written** are all entries of the array, if core `0` is stored at the
free place. -/
theorem written_iff (hbalanced : m.Balanced size) {z : ℕ} (hz : z < m.nnodes.toNat)
    (hzero : 0 ∈ m.cpus z) :
    ((interleaved m).stores.map fun x => x.1.toNat).Perm (List.range m.nproc.toNat) ↔
      restSize m (m.nnodes.toNat - 1) = z + (size - 1) * m.nnodes.toNat := by
  have hsum : m.nproc.toNat + m.nnodes.toNat ≤ 2 ^ 32 := by
    have := m.nproc_lt
    have := m.nnodes_lt
    omega
  have hrest : restSize m z = size - 1 := by
    rw [restSize_eq hbalanced hz hz hzero, if_pos rfl]
  have hlast : (BitVec.ofNat 32 (restSize m (m.nnodes.toNat - 1))).toNat =
      restSize m (m.nnodes.toNat - 1) := by
    rw [BitVec.toNat_ofNat]
    refine Nat.mod_eq_of_lt (lt_of_le_of_lt (List.length_filter_le _ _) ?_)
    rw [List.length_range]
    exact m.nproc.isLt
  have hindices : ((interleaved m).stores.map fun x => x.1.toNat) =
      Filling.columnIndices (2 ^ 32) m.nnodes.toNat (restSize m) ++
        [restSize m (m.nnodes.toNat - 1)] := by
    show ((interleaveLoops _ _ _).2 ++ [((interleaveLoops _ _ _).1, 0)]).map _ = _
    rw [interleaveLoops_eq, if_neg m.nnodes_pos.ne', List.map_append, indices_interleaveStores]
    exact congrArg (_ ++ [·]) hlast
  rw [hindices, ← hrest]
  refine Filling.append_perm_iff hz hsum ?_ fun n hn hne => ?_
  · rw [restSize_of_mem hzero, hbalanced.columnLength hz]
  · have hmem : 0 ∉ m.cpus n := fun hmem => hne (eq_of_zero_mem hn hz hmem hzero)
    rw [restSize_of_not_mem hmem, hbalanced.columnLength hn]

/-- The core ids that are stored are the CPUs, if there are any. -/
theorem values_perm (hpos : 0 < m.nproc.toNat) :
    ((interleaved m).stores.map fun x => x.2.toNat).Perm (List.range m.nproc.toNat) := by
  have hperm := scanned_perm m.partition
  have hzero : 0 ∈ scanned m.nproc m.nnodes m.nodecpus :=
    hperm.mem_iff.mpr (List.mem_range.mpr hpos)
  show (((interleaveLoops _ _ _).2 ++ [((interleaveLoops _ _ _).1, 0)]).map _).Perm _
  rw [interleaveLoops_eq, List.map_append, values_interleaveStores, scanned_withoutZero,
    filter_ne_zero (hperm.nodup_iff.mpr List.nodup_range)]
  refine List.Perm.trans (List.perm_append_singleton _ _) ?_
  exact (List.perm_cons_erase hzero).symm.trans hperm

/-- The array lists the CPUs if all its entries are written. -/
theorem orders_iff_restSize (hbalanced : m.Balanced size) (hpos : 0 < m.nproc.toNat) {z : ℕ}
    (hz : z < m.nnodes.toNat) (hzero : 0 ∈ m.cpus z) :
    ((interleaved m).Orders m.nproc.toNat ∧ ∀ junk, 0 ∈ (interleaved m).array junk) ↔
      restSize m (m.nnodes.toNat - 1) = z + (size - 1) * m.nnodes.toNat := by
  rw [← written_iff hbalanced hz hzero]
  constructor
  · intro h
    exact h.1.written
  · intro h
    have ho : (interleaved m).Orders m.nproc.toNat := orders_of_perm h (values_perm hpos)
    exact ⟨ho, fun junk => (ho.perm junk).mem_iff.mpr (List.mem_range.mpr hpos)⟩

/-- **The interleaved order on a balanced machine**: it is a permutation exactly if the counter of
the last node has come to the place of core `0`. -/
theorem interleave_orders_iff (hbalanced : m.Balanced size) {corepolicy : PlatTopoCores}
    {tr : List (Event topologySig)} {cids : CoreIds}
    (hrun : Run (platGetTopology true .interleave corepolicy) tr (.ret (.ok cids)))
    (hreport : (reportingMasks m.nproc m.nnodes m.nodecpus).Admits () tr) :
    (cids.Orders m.nproc.toNat ∧ ∀ junk, 0 ∈ cids.array junk) ↔
      (m.nnodes.toNat = 1 ∧ 0 < m.nproc.toNat) ∨
      (m.nnodes.toNat = 2 ∧ m.nproc.toNat = 4 ∧ m.nodecpus 0 0 = true) ∨
      (3 ≤ m.nnodes.toNat ∧ m.nproc.toNat = m.nnodes.toNat ∧ m.nodecpus 1 0 = true) := by
  obtain rfl : cids = interleaved m := eq_of_reportingMasks hrun hreport
  have hnproc := hbalanced.nproc_eq
  rcases Nat.eq_zero_or_pos m.nproc.toNat with hpos | hpos
  · -- without CPUs there is no core 0
    have hnone : ¬∀ junk, 0 ∈ (interleaved m).array junk := by
      intro h
      have hmem : 0 ∈ (List.range m.nproc.toNat).map _ := h id
      rw [hpos] at hmem
      cases hmem
    have := m.nnodes_pos
    exact iff_of_false (fun h => hnone h.2) (by omega)
  · obtain ⟨z, ⟨hz, hmask⟩, hunique⟩ := m.partition 0 hpos
    have hzero : 0 ∈ m.cpus z := mem_cpus.mpr ⟨hpos, hmask⟩
    have hsize : 0 < size := by
      rw [← hbalanced z hz]
      exact List.length_pos_of_mem hzero
    have hnode : ∀ n < m.nnodes.toNat, m.nodecpus n 0 = true ↔ z = n := by
      intro n hn
      constructor
      · intro h
        exact (hunique n ⟨hn, h⟩).symm
      · rintro rfl
        exact hmask
    have hlast : m.nnodes.toNat - 1 < m.nnodes.toNat := by omega
    rw [orders_iff_restSize hbalanced hpos hz hzero, restSize_eq hbalanced hlast hz hzero,
      last_eq_free_iff hz hsize]
    refine or_congr ?_ (or_congr ?_ ?_)
    · exact (and_iff_left hpos).symm
    · refine and_congr_right fun hwidth => ?_
      rw [hnode 0 (by omega), hnproc, hwidth]
      omega
    · refine and_congr_right fun hwidth => ?_
      have hsize' : m.nproc.toNat = m.nnodes.toNat ↔ size = 1 := by
        rw [hnproc]
        exact Nat.mul_eq_left (by omega)
      rw [hnode 1 (by omega), hsize']

end Interleaved

/-- Two CPUs, each of a node of its own. -/
def singleCpus : Machine where
  nproc := 2
  nnodes := 2
  nodecpus n c := c = n
  nproc_lt := emptyNode.nproc_lt
  nnodes_lt := emptyNode.nnodes_lt
  nnodes_pos := emptyNode.nnodes_pos
  partition c hc := ⟨c, ⟨hc, decide_eq_true rfl⟩, fun _ hn => (of_decide_eq_true hn.2).symm⟩

/-- Two nodes of two CPUs each. -/
theorem interleave_orders_twoNodes : ∃ tr cids,
    Run (platGetTopology true .interleave .fill) tr (.ret (.ok cids)) ∧
      cids.Orders 4 ∧ ∀ junk, 0 ∈ cids.array junk := by
  have hbalanced : twoNodes.Balanced 2 := by
    show ∀ n < 2, (twoNodes.cpus n).length = 2
    decide
  have hrun : ∃ tr o, Run (platGetTopology true .interleave .fill) tr (.ret o) ∧
      (reportingMasks 4 2 twoNodes.nodecpus).Admits () tr ∧ o.toOption.isSome = true :=
    exists_admitted_of_yields (reportingMasks_answers 4 2 twoNodes.nodecpus) () 200 (by decide)
  obtain ⟨tr, o, hrun, hreport, ho⟩ := hrun
  cases o with
  | error err => cases ho
  | ok cids =>
    exact ⟨tr, cids, hrun, (interleave_orders_iff hbalanced hrun hreport).mpr (by decide)⟩

/-- **Core `0` overwrites CPU `1`**, and the first entry is never written. -/
theorem not_interleave_orders_singleCpus : ∃ tr cids,
    Run (platGetTopology true .interleave .fill) tr (.ret (.ok cids)) ∧
      (reportingMasks singleCpus.nproc singleCpus.nnodes singleCpus.nodecpus).Admits () tr ∧
        singleCpus.Balanced 1 ∧ cids = ⟨2, [(1, 1), (1, 0)]⟩ ∧ ¬cids.Orders 2 := by
  have hbalanced : singleCpus.Balanced 1 := by
    show ∀ n < 2, (singleCpus.cpus n).length = 1
    decide
  have hrun : ∃ tr o, Run (platGetTopology true .interleave .fill) tr (.ret o) ∧
      (reportingMasks 2 2 singleCpus.nodecpus).Admits () tr ∧
        o.toOption = some ⟨2, [(1, 1), (1, 0)]⟩ :=
    exists_admitted_of_yields (reportingMasks_answers 2 2 singleCpus.nodecpus) () 200 (by decide)
  obtain ⟨tr, o, hrun, hreport, ho⟩ := hrun
  cases o with
  | error err => cases ho
  | ok cids =>
    obtain rfl : cids = ⟨2, [(1, 1), (1, 0)]⟩ := Option.some.inj ho
    refine ⟨tr, _, hrun, hreport, hbalanced, rfl, fun h => ?_⟩
    exact absurd h.written (by decide)

end VmopsBench.Barrelfish

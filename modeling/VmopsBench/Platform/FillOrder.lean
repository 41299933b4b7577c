import VmopsBench.Platform.Topology

/-!
# The fill order on Linux

With the fill policy the core ids are stored from the front of the array, node by node. What is
stored are those CPUs of the nodes whose id is below the number of CPUs, for that number is where
the scan of a mask ends; the length of the array is that number, too. A task that may not
use some CPU has gaps in its numbering, and then the two differ.

By `VmopsBench.listsCpus_iff` the array lists the CPUs of the task, grouped by node, exactly
when there are no ids from the number of CPUs on. Otherwise a CPU is missing, and the end of
the array was never written.
-/

namespace VmopsBench

open Interact

/-! ### The array -/

/-- **The array of core ids**, over what it held before. -/
def CoreIds.array (cids : CoreIds) (junk : ℕ → ℕ) : List ℕ :=
  (List.range cids.ncoreids.toNat).map
    (Filling.filled (cids.stores.map fun x => (x.1.toNat, x.2.toNat)) junk)

/-- **The array lists some core ids**: each of its entries is written once, nothing else is
written, and so it holds them in their order. -/
structure CoreIds.Lists (cids : CoreIds) (order : List ℕ) : Prop where
  written : (cids.stores.map fun x => x.1.toNat).Perm (List.range cids.ncoreids.toNat)
  array : ∀ junk, cids.array junk = order

/-- Core ids that are stored one after the other fill the array from the front. -/
theorem storesOf_id {cpus : List ℕ} (hlen : cpus.length ≤ 2 ^ 32) (hcpus : ∀ c ∈ cpus, c < 2 ^ 32) :
    (storesOf id 0 cpus).map (fun x => (x.1.toNat, x.2.toNat)) = Filling.frontStores cpus := by
  rw [storesOf, Filling.frontStores, List.map_map]
  refine List.map_congr_left fun p hp => ?_
  have hidx : p.2 < 2 ^ 32 := lt_of_lt_of_le (List.snd_lt_of_mem_zipIdx hp) hlen
  have hcpu : p.1 < 2 ^ 32 := hcpus _ (List.fst_mem_of_mem_zipIdx hp)
  simpa [Prod.swap] using And.intro hidx hcpu

/-- The indices of core ids that are stored one after the other. -/
theorem indices_storesOf_id {cpus : List ℕ} (hlen : cpus.length ≤ 2 ^ 32)
    (hcpus : ∀ c ∈ cpus, c < 2 ^ 32) :
    (storesOf id 0 cpus).map (fun x => x.1.toNat) = List.range cpus.length := by
  rw [← Filling.map_fst_frontStores, ← storesOf_id hlen hcpus, List.map_map]
  rfl

/-- **As many core ids as the array has entries** are listed in their order. -/
theorem lists_storesOf {nproc : BitVec 32} {cpus : List ℕ} (hlen : cpus.length = nproc.toNat)
    (hcpus : ∀ c ∈ cpus, c < 2 ^ 32) :
    (⟨nproc, storesOf id 0 cpus⟩ : CoreIds).Lists cpus := by
  have hle : cpus.length ≤ 2 ^ 32 := by
    rw [hlen]
    exact nproc.isLt.le
  refine ⟨?_, fun junk => ?_⟩
  · rw [indices_storesOf_id hle hcpus, hlen]
  · rw [CoreIds.array, storesOf_id hle hcpus, ← hlen]
    exact Filling.map_filled_frontStores _ _

section Fill

variable {nproc nnodes : BitVec 32} {nodecpus : ℕ → ℕ → Bool}

theorem scanned_lt : ∀ c ∈ scanned nproc nnodes nodecpus, c < 2 ^ 32 :=
  fun _ hc => lt_trans (mem_scanned.mp hc).1 nproc.isLt

/-- **If no CPU is missing**, those that are scanned are listed. -/
theorem lists_scanned (hlen : (scanned nproc nnodes nodecpus).length = nproc.toNat) :
    (⟨nproc, fillStores nproc nnodes nodecpus⟩ : CoreIds).Lists
      (scanned nproc nnodes nodecpus) := by
  rw [fillStores_eq]
  exact lists_storesOf hlen scanned_lt

/-- An array that lists anything was written to its end. -/
theorem length_scanned_of_lists {order : List ℕ}
    (hlen : (scanned nproc nnodes nodecpus).length ≤ nproc.toNat)
    (h : (⟨nproc, fillStores nproc nnodes nodecpus⟩ : CoreIds).Lists order) :
    (scanned nproc nnodes nodecpus).length = nproc.toNat := by
  have hwritten : ((fillStores nproc nnodes nodecpus).map fun x => x.1.toNat).length =
      (List.range nproc.toNat).length := h.written.length_eq
  rwa [fillStores_eq, indices_storesOf_id (le_trans hlen nproc.isLt.le) scanned_lt,
    List.length_range, List.length_range] at hwritten

end Fill

/-! ### The CPUs of a task -/

/-- **The CPUs of a task**, as libnuma reports them: those of the nodes are disjoint, and
together they are `nproc` many. Their ids may have gaps. -/
structure TaskCpus where
  nproc : BitVec 32
  nnodes : BitVec 32
  cpus : ℕ → Finset ℕ
  disjoint : ∀ n < nnodes.toNat, ∀ n' < nnodes.toNat, n ≠ n' → Disjoint (cpus n) (cpus n')
  card : ((Finset.range nnodes.toNat).biUnion cpus).card = nproc.toNat

namespace TaskCpus

variable (t : TaskCpus)

/-- The masks of the nodes. -/
def nodecpus (n c : ℕ) : Bool := decide (c ∈ t.cpus n)

/-- **The CPUs, grouped by node**: the nodes are ascending, and so are the CPUs of each. -/
def order : List ℕ := (List.range t.nnodes.toNat).flatMap fun n => (t.cpus n).sort

/-- The CPUs of a task are as many as libnuma counts. -/
theorem length_order : t.order.length = t.nproc.toNat := by
  rw [← t.card, Finset.card_biUnion, order, List.length_flatMap]
  · simp only [Finset.length_sort]
    rfl
  · intro n hn n' hn' hne
    exact t.disjoint n (Finset.mem_range.mp hn) n' (Finset.mem_range.mp hn') hne

/-- **What is scanned** are the CPUs whose ids are below their number. -/
theorem scanned_eq : scanned t.nproc t.nnodes t.nodecpus =
    t.order.filter fun c => decide (c < t.nproc.toNat) := by
  rw [scanned, order, List.filter_flatMap]
  refine List.flatMap_congr fun n _ => ?_
  refine List.Perm.eq_of_pairwise' (r := (· ≤ ·)) ?_ ?_ ?_
  · exact List.Pairwise.filter _ List.pairwise_le_range
  · exact List.Pairwise.filter _ (Finset.pairwise_sort _ _)
  · refine (List.perm_ext_iff_of_nodup (List.nodup_range.filter _)
      ((Finset.sort_nodup _ _).filter _)).mpr fun c => ?_
    simp [nodecpus, and_comm]

/-- No CPU belongs to two nodes. -/
theorem nodup_order : t.order.Nodup := by
  refine List.nodup_flatMap.mpr ⟨fun n _ => Finset.sort_nodup _ _, ?_⟩
  refine List.Nodup.pairwise_of_forall_ne List.nodup_range fun n hn n' hn' hne => ?_
  rw [Function.onFun, List.disjoint_left]
  intro c hc hc'
  have hdisjoint := t.disjoint n (List.mem_range.mp hn) n' (List.mem_range.mp hn') hne
  exact Finset.disjoint_left.mp hdisjoint ((Finset.mem_sort _).mp hc) ((Finset.mem_sort _).mp hc')

theorem mem_order {c : ℕ} : c ∈ t.order ↔ ∃ n < t.nnodes.toNat, c ∈ t.cpus n := by
  simp [order]

/-- There are no more scanned CPUs than CPUs. -/
theorem length_scanned_le : (scanned t.nproc t.nnodes t.nodecpus).length ≤ t.nproc.toNat := by
  rw [scanned_eq, ← length_order]
  exact List.length_filter_le _ _

/-- **All CPUs are scanned** exactly if no id is beyond their number. -/
theorem length_scanned_iff : (scanned t.nproc t.nnodes t.nodecpus).length = t.nproc.toNat ↔
    ∀ n < t.nnodes.toNat, ∀ c ∈ t.cpus n, c < t.nproc.toNat := by
  have hall : (t.order.filter fun c => decide (c < t.nproc.toNat)).length = t.order.length ↔
      ∀ c ∈ t.order, decide (c < t.nproc.toNat) = true := List.length_filter_eq_length_iff
  rw [t.length_order] at hall
  rw [scanned_eq, hall]
  constructor
  · intro h n hn c hc
    exact of_decide_eq_true (h c (t.mem_order.mpr ⟨n, hn, hc⟩))
  · intro h c hc
    obtain ⟨n, hn, hc⟩ := t.mem_order.mp hc
    exact decide_eq_true (h n hn c hc)

end TaskCpus

/-- **The CPUs of the task are listed**: the array is filled, it has them grouped by node, and each
is there once. -/
structure CoreIds.ListsCpus (cids : CoreIds) (t : TaskCpus) : Prop where
  ncoreids : cids.ncoreids = t.nproc
  lists : cids.Lists t.order
  once : ∀ junk, ∀ n < t.nnodes.toNat, ∀ c ∈ t.cpus n, (cids.array junk).count c = 1

/-- **The fill order lists the CPUs of the task exactly if their ids are below their number.** -/
theorem listsCpus_iff {t : TaskCpus} {corepolicy : PlatTopoCores} {tr : List (Event numaSig)}
    {cids : CoreIds} (hrun : Run (platGetTopology true .fill corepolicy) tr (.ret (.ok cids)))
    (hreport : (reportingMasks t.nproc t.nnodes t.nodecpus).Admits () tr) :
    cids.ListsCpus t ↔ ∀ n < t.nnodes.toNat, ∀ c ∈ t.cpus n, c < t.nproc.toNat := by
  obtain rfl : cids = ⟨t.nproc, fillStores t.nproc t.nnodes t.nodecpus⟩ :=
    eq_of_reportingMasks hrun hreport
  constructor
  · intro h
    exact t.length_scanned_iff.mp (length_scanned_of_lists t.length_scanned_le h.lists)
  · intro h
    have hall : scanned t.nproc t.nnodes t.nodecpus = t.order := by
      rw [t.scanned_eq, List.filter_eq_self]
      intro c hc
      obtain ⟨n, hn, hc⟩ := t.mem_order.mp hc
      exact decide_eq_true (h n hn c hc)
    have hlists := lists_scanned (t.length_scanned_iff.mpr h)
    rw [hall] at hlists
    refine ⟨rfl, hlists, fun junk n hn c hc => ?_⟩
    rw [hlists.array]
    exact List.count_eq_one_of_mem t.nodup_order (t.mem_order.mpr ⟨n, hn, hc⟩)

/-- A task that may use CPUs `0` and `2`, and `1` and `3`, of two nodes. -/
def evenAndOdd : TaskCpus where
  nproc := 4
  nnodes := 2
  cpus n := {n, n + 2}
  disjoint := by decide
  card := by decide

/-- A task that may only use CPU `1`. -/
def secondCpu : TaskCpus where
  nproc := 1
  nnodes := 1
  cpus _ := {1}
  disjoint := by decide
  card := by decide

/-- The two nodes are listed one after the other. -/
theorem listsCpus_evenAndOdd : ∃ tr cids,
    Run (platGetTopology true .fill .fill) tr (.ret (.ok cids)) ∧ cids.ListsCpus evenAndOdd := by
  have hrun : ∃ tr o, Run (platGetTopology true .fill .fill) tr (.ret o) ∧
      (reportingMasks 4 2 evenAndOdd.nodecpus).Admits () tr ∧ o.toOption.isSome = true :=
    exists_admitted_of_yields (reportingMasks_answers 4 2 evenAndOdd.nodecpus) () 200 (by decide)
  obtain ⟨tr, o, hrun, hreport, ho⟩ := hrun
  cases o with
  | error err => cases ho
  | ok cids => exact ⟨tr, cids, hrun, (listsCpus_iff hrun hreport).mpr (by decide)⟩

/-- **The only CPU of the task is not listed**: nothing is stored, and one core id returned. -/
theorem not_listsCpus_secondCpu : ∃ tr cids,
    Run (platGetTopology true .fill .fill) tr (.ret (.ok cids)) ∧
      (reportingMasks secondCpu.nproc secondCpu.nnodes secondCpu.nodecpus).Admits () tr ∧
        cids = ⟨1, []⟩ ∧ ¬cids.ListsCpus secondCpu := by
  have hrun : ∃ tr o, Run (platGetTopology true .fill .fill) tr (.ret o) ∧
      (reportingMasks 1 1 secondCpu.nodecpus).Admits () tr ∧ o.toOption = some ⟨1, []⟩ :=
    exists_admitted_of_yields (reportingMasks_answers 1 1 secondCpu.nodecpus) () 200 (by decide)
  obtain ⟨tr, o, hrun, hreport, ho⟩ := hrun
  cases o with
  | error err => cases ho
  | ok cids =>
    obtain rfl : cids = ⟨1, []⟩ := Option.some.inj ho
    refine ⟨tr, _, hrun, hreport, rfl, fun h => ?_⟩
    exact absurd h.lists.written (by decide)

end VmopsBench

import VmopsBench.Driver.CommandLine
import VmopsBench.Order.RoundRobin
import VmopsBench.Platform.FillOrder

/-!
# The cores of a benchmark

What `main` does after the options: unless there is a list of cores already, it takes the order of
the platform and cuts it off after the requested number of cores.

On a machine whose nodes have the same number of CPUs, the interleaved order is a table with full
rows, which was filled by columns and is cut off in the middle of a row. Its entry `i` is in node
`i % nnodes`, so that a prefix takes turns with the nodes (`RoundRobin.visits_fair`): however many
cores are requested, they are spread evenly (`VmopsBench.selectCores_spreads`).
-/

namespace VmopsBench

open Interact

/-! ### The statements of `main` -/

/-- The array of core ids, as the program has it. -/
def CoreIds.words (cids : CoreIds) (junk : ℕ → BitVec 32) : List (BitVec 32) :=
  (List.range cids.ncoreids.toNat).map
    (Filling.filled (cids.stores.map fun x => (x.1.toNat, x.2)) junk)

/-- **The statements of `main` that settle the cores**, after the options. What the array of the
platform held before is `junk`. The policy for cores is always the same. -/
def selectCores (junk : ℕ → BitVec 32) (s : MainVars) :
    Prog numaSig (Except Halt MainVars) := do
  if s.ncores ≠ 0 ∧ s.cfg.coreslist ≠ [] then return .error (.exit .failure)
  else if s.cfg.coreslist = [] then
    let ncores := if s.ncores = 0 then 1 else s.ncores
    match ← platGetTopology true s.numaTopology .interleave with
    | .error _ => return .error (.exit .failure)
    | .ok cids =>
      -- the warning for too many cores has no effect
      let corelistSize := if cids.ncoreids < ncores then cids.ncoreids else ncores
      return .ok { s with
        ncores := ncores, cfg.coreslist := cids.words junk, cfg.corelistSize := corelistSize }
  else return .ok s

theorem map_toNat_words (cids : CoreIds) (junk : ℕ → BitVec 32) :
    (cids.words junk).map BitVec.toNat = cids.array (BitVec.toNat ∘ junk) := by
  rw [CoreIds.words, CoreIds.array, List.map_map]
  refine List.map_congr_left fun i _ => ?_
  refine (Filling.filled_map BitVec.toNat _ junk i).symm.trans ?_
  rw [List.map_map]
  rfl

/-! ### The rows of the table -/

/-- A store of the interleave policy is for a CPU of the column it is made to. -/
theorem mem_interleaveStores {nproc nnodes : BitVec 32} {nodecpus : ℕ → ℕ → Bool}
    {x : BitVec 32 × BitVec 32} (hx : x ∈ interleaveStores nproc nnodes nodecpus) :
    ∃ n < nnodes.toNat, ∃ k < (cpusOf nproc (nodecpus n)).length,
      x.1.toNat = (n + k * nnodes.toNat) % 2 ^ 32 ∧ x.2.toNat ∈ cpusOf nproc (nodecpus n) := by
  rw [interleaveStores_eq] at hx
  obtain ⟨n, hn, hx⟩ := List.mem_flatMap.mp hx
  obtain ⟨⟨c, k⟩, hck, rfl⟩ := List.mem_map.mp hx
  have hc : c ∈ cpusOf nproc (nodecpus n) := List.fst_mem_of_mem_zipIdx hck
  have hlt : c < 2 ^ 32 := lt_trans (mem_cpusOf.mp hc).1 nproc.isLt
  refine ⟨n, List.mem_range.mp hn, k, List.snd_lt_of_mem_zipIdx hck, ?_, ?_⟩
  · rw [← slot_toNat]
    exact congrArg (fun cidx => (BitVec.ofNat 32 n + cidx * nnodes).toNat) (zero_add _)
  · rwa [BitVec.toNat_ofNat, Nat.mod_eq_of_lt hlt]

section Balanced

variable {m : Machine} {size : ℕ}

/-- What is returned with the interleave policy on Linux. -/
def interleaved (m : Machine) : CoreIds :=
  ⟨m.nproc, interleaveStores m.nproc m.nnodes m.nodecpus⟩

/-- **An entry of the array** is a CPU of the node whose column it is in. -/
theorem entry_mem (hbalanced : m.Balanced size) {i : ℕ} (hi : i < m.nproc.toNat)
    (junk : ℕ → ℕ) :
    Filling.filled ((interleaved m).stores.map fun x => (x.1.toNat, x.2.toNat)) junk i ∈
      m.cpus (i % m.nnodes.toNat) := by
  have horders : (interleaved m).Orders m.nproc.toNat :=
    (orders_interleaveStores_iff m).mpr fun n hn => hbalanced.columnLength hn
  have hwritten : (((interleaved m).stores.map fun x => (x.1.toNat, x.2.toNat)).map
      Prod.fst).Perm (List.range m.nproc.toNat) := by
    rw [List.map_map]
    exact horders.written
  obtain ⟨x, hx, heq⟩ := List.mem_map.mp (Filling.exists_mem_of_perm junk hwritten hi)
  obtain ⟨n, hn, k, hk, hidx, hmem⟩ := mem_interleaveStores hx
  obtain ⟨hfst, hsnd⟩ := Prod.mk.inj heq
  have hinside : n + k * m.nnodes.toNat < m.nproc.toNat := by
    rw [← Filling.lt_columnLength_iff hn, ← hbalanced.columnLength hn]
    exact hk
  have hcolumn : i % m.nnodes.toNat = n := by
    rw [← hfst, hidx, Nat.mod_eq_of_lt (lt_trans hinside m.nproc.isLt), Nat.add_mul_mod_self_right,
      Nat.mod_eq_of_lt hn]
  rw [hcolumn, ← hsnd]
  exact hmem

/-- **Prefixes are spread evenly**: the core ids are different, and each node has its turns. -/
theorem spread_take (hbalanced : m.Balanced size) (junk : ℕ → ℕ) {p : ℕ}
    (hp : p ≤ m.nproc.toNat) :
    (((interleaved m).array junk).take p).Nodup ∧ ∀ n < m.nnodes.toNat,
      RoundRobin.Fair m.nnodes.toNat p
        ((((interleaved m).array junk).take p).countP fun c => m.nodecpus n c) := by
  have horders : (interleaved m).Orders m.nproc.toNat :=
    (orders_interleaveStores_iff m).mpr fun n hn => hbalanced.columnLength hn
  constructor
  · have hnodup : ((interleaved m).array junk).Nodup :=
      (horders.perm junk).nodup_iff.mpr List.nodup_range
    exact hnodup.sublist (List.take_sublist _ _)
  · intro n hn
    have htake : ((interleaved m).array junk).take p = (List.range p).map
        (Filling.filled ((interleaved m).stores.map fun x => (x.1.toNat, x.2.toNat)) junk) := by
      rw [CoreIds.array, ← List.map_take, List.take_range]
      exact congrArg (fun k => (List.range k).map _) (min_eq_left hp)
    have hcount : ((((interleaved m).array junk).take p).countP fun c => m.nodecpus n c) =
        RoundRobin.visits m.nnodes.toNat 0 p n := by
      rw [htake, List.countP_map, RoundRobin.visits, Nat.count]
      refine List.countP_congr fun i hi => ?_
      have hi := lt_of_lt_of_le (List.mem_range.mp hi) hp
      obtain ⟨hlt, hmask⟩ := mem_cpus.mp (entry_mem hbalanced hi junk)
      rw [Function.comp_apply, zero_add, decide_eq_true_iff]
      constructor
      · intro h
        exact (m.partition _ hlt).unique ⟨Nat.mod_lt _ m.nnodes_pos, hmask⟩ ⟨hn, h⟩
      · rintro rfl
        exact hmask
    rw [hcount]
    exact RoundRobin.visits_fair m.nnodes_pos hn 0 p

/-! ### What `main` selects -/

/-- **The cores that `main` goes on with**, when it asks the platform for the interleaved order. -/
theorem wp_selectCores {junk : ℕ → BitVec 32} {s : MainVars} (hlist : s.cfg.coreslist = [])
    (hpolicy : s.numaTopology = .interleave) :
    wp (reportingMasks m.nproc m.nnodes m.nodecpus) (selectCores junk s)
      (fun o _ => ∀ s', o = .ok s' → s'.cfg.coreslist = (interleaved m).words junk ∧
        s'.cfg.corelistSize.toNat = min (max s.ncores.toNat 1) m.nproc.toNat) () := by
  have hncores : (if s.ncores = 0 then 1 else s.ncores).toNat = max s.ncores.toNat 1 := by
    split
    · next h => rw [h]; rfl
    · next h =>
      have hne : s.ncores.toNat ≠ 0 := fun h0 => h (BitVec.eq_of_toNat_eq h0)
      omega
  rw [selectCores, if_neg fun h => h.2 hlist, if_pos hlist, hpolicy]
  refine (wp_bind _ _).mpr (wp_mono _ (fun o _ ho => ?_) wp_platGetTopology)
  cases o with
  | error err => exact fun s' h => by cases h
  | ok cids =>
    intro s' h
    obtain rfl := Except.ok.inj h
    obtain rfl : cids = interleaved m := ho cids rfl
    refine ⟨rfl, ?_⟩
    show (if m.nproc < (if s.ncores = 0 then 1 else s.ncores) then m.nproc
      else if s.ncores = 0 then 1 else s.ncores).toNat = _
    rw [← hncores]
    generalize (if s.ncores = 0 then 1 else s.ncores) = ncores
    split
    · next h => exact (min_eq_right (BitVec.lt_def.mp h).le).symm
    · next h => exact (min_eq_left (BitVec.not_lt.mp h)).symm

/-- **However many cores are requested, they are spread evenly** over the nodes of a balanced
machine, and no core is there twice. -/
theorem selectCores_spreads (hbalanced : m.Balanced size) {junk : ℕ → BitVec 32}
    {s s' : MainVars} (hlist : s.cfg.coreslist = []) (hpolicy : s.numaTopology = .interleave)
    {tr : List (Event numaSig)} (hrun : Run (selectCores junk s) tr (.ret (.ok s')))
    (hreport : (reportingMasks m.nproc m.nnodes m.nodecpus).Admits () tr) :
    s'.cfg.corelistSize.toNat = min (max s.ncores.toNat 1) m.nproc.toNat ∧
      ∀ p ≤ m.nproc.toNat, (s'.cfg.coreslist.take p).Nodup ∧ ∀ n < m.nnodes.toNat,
        RoundRobin.Fair m.nnodes.toNat p
          ((s'.cfg.coreslist.take p).countP fun c => m.nodecpus n c.toNat) := by
  obtain ⟨hcores, hcorelistSize⟩ :=
    (wp_run hrun (wp_selectCores hlist hpolicy) hreport).2 s' rfl
  refine ⟨hcorelistSize, fun p hp => ?_⟩
  obtain ⟨hnodup, hfair⟩ := spread_take hbalanced (BitVec.toNat ∘ junk) hp
  rw [← map_toNat_words, ← List.map_take, ← hcores] at hnodup
  refine ⟨hnodup.of_map _, fun n hn => ?_⟩
  have hn := hfair n hn
  rw [← map_toNat_words, ← List.map_take, List.countP_map, ← hcores] at hn
  exact hn

end Balanced

/-- Three cores of two nodes with two CPUs each. -/
theorem selectCores_spreads_twoNodes : ∃ tr s',
    Run (selectCores (fun _ => 0) { initVars with ncores := 3, numaTopology := .interleave }) tr
      (.ret (.ok s')) ∧
    s'.cfg.corelistSize.toNat = 3 ∧ (s'.cfg.coreslist.take 3).Nodup ∧ ∀ n < 2,
      RoundRobin.Fair 2 3
        ((s'.cfg.coreslist.take 3).countP fun c => twoNodes.nodecpus n c.toNat) := by
  have hbalanced : twoNodes.Balanced 2 := by
    show ∀ n < 2, (twoNodes.cpus n).length = 2
    decide
  have hrun : ∃ tr o, Run (selectCores (fun _ => 0)
      { initVars with ncores := 3, numaTopology := .interleave }) tr (.ret o) ∧
      (reportingMasks 4 2 twoNodes.nodecpus).Admits () tr ∧ o.toOption.isSome = true :=
    exists_admitted_of_yields (reportingMasks_answers 4 2 twoNodes.nodecpus) () 200 (by decide)
  obtain ⟨tr, _ | s', hrun, hreport, ho⟩ := hrun
  · cases ho
  · obtain ⟨hsize, hspread⟩ := selectCores_spreads hbalanced rfl rfl hrun hreport
    exact ⟨tr, s', hrun, hsize, hspread 3 (by decide)⟩

end VmopsBench

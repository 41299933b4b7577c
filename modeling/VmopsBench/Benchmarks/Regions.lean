import VmopsBench.Benchmarks.ClockedRuns
import VmopsBench.Benchmarks.Ending

/-!
# What a thread leaves mapped

A ledger of the mappings of a thread: a mapping call puts in a region, and `plat_vm_unmap` takes one
out (`VmopsBench.regionsAfter`). In a run in which no call fails, every region that is unmapped is
in the ledger, that is, it was mapped by this thread with this size and has not been unmapped since;
and what is in it at the end is known for each of the run functions (`VmopsBench.RunFn.leaves`): the
map/unmap functions and the 4k protect function leave nothing, the map-only functions one region for
each operation that they count, and the others the regions of their setup.

The ledger is about calls, and not about pages: a fixed mapping that replaces another one is one
more region.
-/

namespace VmopsBench

open Interact

/-! ### The ledger -/

/-- Where a mapping is, and how large. -/
abbrev Region := Addr × SizeT

/-- **What a call does to the ledger.** -/
def ThreadCall.onRegions (g : Multiset Region) : (c : ThreadCall) → c.Resp → Multiset Region
  | .vmMap size .., r => r.elim g fun addr => (addr, size) ::ₘ g
  | .vmMapFixed addr size .., r => if r then (addr, size) ::ₘ g else g
  | .vmUnmap addr size, r => if r then g.erase (addr, size) else g
  | _, _ => g

/-- **The ledger after a history.** -/
def regionsAfter (tr : List (Event threadSig)) : Multiset Region :=
  tr.foldl (fun g e => e.call.onRegions g e.resp) 0

/-- Nothing is mapped at `NULL`: the kernel does not choose it, and `plat_vm_map_fixed` rejects
it. -/
def ThreadCall.NotNull : (c : ThreadCall) → c.Resp → Prop
  | .vmMap .., r => r ≠ some 0
  | .vmMapFixed addr .., r => r = true → addr ≠ 0
  | _, _ => True

instance : (c : ThreadCall) → (r : c.Resp) → Decidable (c.NotNull r)
  | .vmMap .., r => inferInstanceAs (Decidable (r ≠ some 0))
  | .vmMapFixed addr .., r => inferInstanceAs (Decidable (r = true → addr ≠ 0))
  | .vmUnmap .., _ | .vmProtect .., _ | .calloc .., _ | .free, _ | .getTime, _ | .barrier _, _
  | .loadDone, _ | .storeDone _, _ | .increment _, _ | .readThread, _ =>
    inferInstanceAs (Decidable True)

/-- **No call fails**, and what is unmapped is in the ledger. -/
def accounting : Spec threadSig (Multiset Region) where
  pre g c := match c with
    | .vmUnmap addr size => (addr, size) ∈ g
    | _ => True
  env _ c r := c.fails r = false ∧ c.NotNull r
  upd g c r := c.onRegions g r

/-- The size of the regions that a function leaves, and their number after `count` operations. -/
noncomputable def RunFn.leaves (cfg : VmopsBenchCfg) (count : ℕ) : RunFn → ℕ × SizeT
  | .mapunmap => (0, cfg.memsize)
  | .mapunmap4k | .protect4k => (0, platArchBasePageSize)
  | .nounmap => (count, cfg.memsize)
  | .nounmap4k => (count, platArchBasePageSize)
  | .protect | .tlbshoot => (1, cfg.memsize)
  | .elevate => (sInf (ProtectElevate.reachesFrom cfg 0), cfg.memsize)

/-- **The ledger holds** so many regions of a size. -/
def Holding (left : ℕ × SizeT) (g : Multiset Region) : Prop :=
  g.map Prod.snd = Multiset.replicate left.1 left.2

section Calls

variable {α : Type} {Q : α → Multiset Region → Prop} {g : Multiset Region} {m : ℕ} {size : SizeT}

theorem holding_zero : Holding (0, size) 0 := rfl

theorem Holding.cons (h : Holding (m, size) g) (addr : Addr) :
    Holding (m + 1, size) ((addr, size) ::ₘ g) := by
  rw [Holding, Multiset.map_cons, h, Multiset.replicate_succ]

theorem accounting_ignores {c : ThreadCall} (hpre : ∀ addr size, c ≠ .vmUnmap addr size)
    (hupd : ∀ g r, c.onRegions g r = g) : accounting.Ignores c := by
  refine fun g => ⟨?_, hupd g⟩
  cases c with
  | vmUnmap addr size => exact absurd rfl (hpre addr size)
  | _ => trivial

/-- A mapping succeeds, somewhere. -/
theorem wp_accounting_map {memobj : PlatMemobj} {offset : SizeT} {huge : Bool}
    {f : Option Addr → Prog threadSig α}
    (h : ∀ addr, addr ≠ 0 → wp accounting (f (some addr)) Q ((addr, size) ::ₘ g)) :
    wp accounting (platVmMap size memobj offset huge >>= f) Q g := by
  refine wp_perform_bind.mpr ⟨trivial, fun addr henv => ?_⟩
  rcases addr with _ | addr
  · cases henv.1
  · exact h addr fun hzero => henv.2 (congrArg some hzero)

/-- A fixed mapping succeeds. -/
theorem wp_accounting_mapFixed {addr : Addr} {memobj : PlatMemobj} {offset : SizeT} {huge : Bool}
    {f : Bool → Prog threadSig α}
    (h : addr ≠ 0 → wp accounting (f true) Q ((addr, size) ::ₘ g)) :
    wp accounting (platVmMapFixed addr size memobj offset huge >>= f) Q g := by
  refine wp_perform_bind.mpr ⟨trivial, fun ok henv => ?_⟩
  obtain rfl : ok = true := eq_true_of_not henv.1
  exact h (henv.2 rfl)

/-- A region of the ledger is unmapped. -/
theorem wp_accounting_unmap {addr : Addr} {f : Bool → Prog threadSig α} (hmem : (addr, size) ∈ g)
    (h : wp accounting (f true) Q (g.erase (addr, size))) :
    wp accounting (platVmUnmap addr size >>= f) Q g := by
  refine wp_perform_bind.mpr ⟨hmem, fun ok henv => ?_⟩
  obtain rfl : ok = true := eq_true_of_not henv.1
  exact h

/-- A protection succeeds. -/
theorem wp_accounting_protect {addr : Addr} {perms : PlatPerm} {f : Bool → Prog threadSig α}
    (h : wp accounting (f true) Q g) :
    wp accounting (platVmProtect addr size perms >>= f) Q g := by
  refine wp_perform_bind.mpr ⟨trivial, fun ok henv => ?_⟩
  obtain rfl : ok = true := eq_true_of_not henv.1
  exact h

end Calls

/-! ### The operations on one region -/

section Operations

variable {arg : VmopsBenchRunArg} {g : Multiset Region}

/-- What is mapped is unmapped. -/
theorem wp_mapUnmapOp_accounting : wp accounting (MapUnmap.mapUnmapOp arg ())
    (onExcept (fun _ _ => False) fun _ g' => g' = g) g := by
  rw [MapUnmap.mapUnmapOp]
  split
  · refine wp_accounting_mapFixed fun _ => ?_
    refine wp_accounting_unmap (Multiset.mem_cons_self _ _) ?_
    exact Multiset.erase_cons_head _ _
  · refine wp_accounting_map fun addr _ => ?_
    refine wp_accounting_unmap (Multiset.mem_cons_self _ _) ?_
    exact Multiset.erase_cons_head _ _

/-- One more region. -/
theorem wp_mapOnlyOp_accounting {m : ℕ} {addr : Addr} (h : Holding (m, arg.cfg.memsize) g) :
    wp accounting (MapUnmap.mapOnlyOp arg addr)
      (onExcept (fun _ _ => False) fun _ => Holding (m + 1, arg.cfg.memsize)) g := by
  rw [MapUnmap.mapOnlyOp]
  split
  · exact wp_accounting_mapFixed fun _ => h.cons _
  · exact wp_accounting_map fun addr _ => h.cons addr

theorem wp_mapOnly4kOp_accounting {m : ℕ} {v : Addr × SizeT}
    (h : Holding (m, platArchBasePageSize) g) :
    wp accounting (MapUnmap.mapOnly4kOp arg v)
      (onExcept (fun _ _ => False) fun _ => Holding (m + 1, platArchBasePageSize)) g := by
  rw [MapUnmap.mapOnly4kOp]
  split
  · exact wp_accounting_mapFixed fun _ => h.cons _
  · exact wp_accounting_map fun addr _ => h.cons addr

theorem wp_protectTwice_accounting {α : Type} {Q : α → Multiset Region → Prop} {addr : Addr}
    {size : SizeT} {f : Bool → Prog threadSig α} (h : wp accounting (f true) Q g) :
    wp accounting (Protect.protectTwice addr size >>= f) Q g := by
  refine (wp_bind _ _).mpr (wp_accounting_protect ?_)
  refine ⟨trivial, fun ok henv => ?_⟩
  obtain rfl : ok = true := eq_true_of_not henv.1
  exact h

end Operations

/-! ### The pages of the 4k functions -/

/-- The regions of `m` pages, from the `i`-th on. -/
def pageRegions (addrs : ℕ → Addr) (i m : ℕ) : Multiset Region :=
  (List.range' i m).map fun j => (addrs j, platArchBasePageSize)

section Pages

variable {addrs : ℕ → Addr} {n : ℕ}

theorem pageRegions_succ (addrs : ℕ → Addr) (i m : ℕ) :
    pageRegions addrs i (m + 1) =
      (addrs i, platArchBasePageSize) ::ₘ pageRegions addrs (i + 1) m := rfl

/-- Only the pages that are counted matter. -/
theorem pageRegions_congr {addrs' : ℕ → Addr} {i m : ℕ}
    (h : ∀ j, i ≤ j → j < i + m → addrs' j = addrs j) :
    pageRegions addrs' i m = pageRegions addrs i m := by
  refine congrArg Multiset.ofList (List.map_congr_left fun j hj => ?_)
  obtain ⟨hle, hlt⟩ := List.mem_range'_1.mp hj
  rw [h j hle hlt]

/-- The page at an index, and the others. -/
theorem pageRegions_split (addrs : ℕ → Addr) {k : ℕ} (hk : k < n) :
    pageRegions addrs 0 n = (addrs k, platArchBasePageSize) ::ₘ
      (pageRegions addrs 0 k + pageRegions addrs (k + 1) (n - k - 1)) := by
  have hrange : List.range' 0 n = List.range' 0 k ++ k :: List.range' (k + 1) (n - k - 1) := by
    have hlen : n = k + (n - k - 1 + 1) := by omega
    conv_lhs => rw [hlen]
    rw [← List.range'_append_1, Nat.zero_add, List.range'_succ]
  rw [pageRegions, hrange, List.map_append, List.map_cons, ← Multiset.coe_add, ← Multiset.cons_coe,
    Multiset.add_cons]
  rfl

/-- A page of the array is in the ledger. -/
theorem mem_pageRegions (addrs : ℕ → Addr) {k : ℕ} (hk : k < n) :
    (addrs k, platArchBasePageSize) ∈ pageRegions addrs 0 n := by
  rw [pageRegions_split addrs hk]
  exact Multiset.mem_cons_self _ _

/-- **A page is mapped again**, elsewhere. -/
theorem pageRegions_update (addrs : ℕ → Addr) {k : ℕ} (hk : k < n) (addr : Addr) :
    pageRegions (Function.update addrs k addr) 0 n = (addr, platArchBasePageSize) ::ₘ
      (pageRegions addrs 0 n).erase (addrs k, platArchBasePageSize) := by
  have hother : ∀ j, j ≠ k → Function.update addrs k addr j = addrs j :=
    fun j hne => Function.update_of_ne hne _ _
  rw [pageRegions_split addrs hk, Multiset.erase_cons_head,
    pageRegions_split (Function.update addrs k addr) hk, Function.update_self]
  rw [pageRegions_congr fun j _ hj => hother j (by omega),
    pageRegions_congr fun j hj _ => hother j (by omega)]

/-- **One more page is mapped.** -/
theorem pageRegions_concat (addrs : ℕ → Addr) (i : ℕ) (addr : Addr) :
    pageRegions (Function.update addrs i addr) 0 (i + 1) =
      (addr, platArchBasePageSize) ::ₘ pageRegions addrs 0 i := by
  have hlast : i.succ - i - 1 = 0 := by omega
  have hbefore : pageRegions (Function.update addrs i addr) 0 i = pageRegions addrs 0 i :=
    pageRegions_congr fun j _ hj => Function.update_of_ne (by omega) _ _
  rw [pageRegions_split _ (Nat.lt_succ_self i), Function.update_self, hlast, hbefore]
  exact congrArg _ (add_zero _)

/-- The array holds the first `n` pages, and these are the ledger. -/
structure HoldsPages (n : ℕ) (addrs : ℕ → Addr) (g : Multiset Region) : Prop where
  ne_zero : ∀ j < n, addrs j ≠ 0
  ledger_eq : g = pageRegions addrs 0 n

variable {g : Multiset Region} {arg : VmopsBenchRunArg}

theorem HoldsPages.concat (h : HoldsPages n addrs g) {addr : Addr} (hne : addr ≠ 0) :
    HoldsPages (n + 1) (Function.update addrs n addr) ((addr, platArchBasePageSize) ::ₘ g) where
  ne_zero j hj := by
    rcases Nat.lt_succ_iff_lt_or_eq.mp hj with hlt | rfl
    · rw [Function.update_of_ne hlt.ne]
      exact h.ne_zero j hlt
    · rwa [Function.update_self]
  ledger_eq := by rw [pageRegions_concat, h.ledger_eq]

theorem HoldsPages.update (h : HoldsPages n addrs g) {k : ℕ} (hk : k < n) {addr : Addr}
    (hne : addr ≠ 0) : HoldsPages n (Function.update addrs k addr)
      ((addr, platArchBasePageSize) ::ₘ g.erase (addrs k, platArchBasePageSize)) where
  ne_zero j hj := by
    rcases eq_or_ne j k with rfl | hjk
    · rwa [Function.update_self]
    · rw [Function.update_of_ne hjk]
      exact h.ne_zero j hj
  ledger_eq := by rw [pageRegions_update addrs hk, h.ledger_eq]

/-- The pages are mapped, one after the other. -/
theorem wp_mapPages_accounting : wp accounting (mapPages arg) (onExcept (fun _ _ => False)
    fun addrs => HoldsPages (pageCount arg.cfg).toNat addrs) 0 := by
  have hnone : ∀ addrs, HoldsPages 0 addrs 0 := fun _ => ⟨nofun, rfl⟩
  rw [mapPages]
  split
  · refine (wp_bind _ _).mpr (wp_forLoop (fun i s g => HoldsPages i s.1 g) (hnone _) ?_
      fun _ _ h => h)
    rintro i ⟨addrs, addr⟩ g - h
    exact wp_accounting_mapFixed fun hne => h.concat hne
  · refine wp_forLoop (fun i addrs g => HoldsPages i addrs g) (hnone _) ?_ fun _ _ h => h
    rintro i addrs g - h
    exact wp_accounting_map fun addr hne => h.concat hne

/-- A turn unmaps a page and maps it again. -/
theorem wp_mapUnmap4kOp_accounting (hpages : pageCount arg.cfg ≠ 0) {v : Pages}
    (h : HoldsPages (pageCount arg.cfg).toNat v.addrs g) :
    wp accounting (MapUnmap.mapUnmap4kOp arg v) (onExcept (fun _ _ => False)
      fun v => HoldsPages (pageCount arg.cfg).toNat v.addrs) g := by
  have hk : (v.page % pageCount arg.cfg).toNat < (pageCount arg.cfg).toNat := toNat_umod_lt hpages
  have hmem : (v.addrs (v.page % pageCount arg.cfg).toNat, platArchBasePageSize) ∈ g := by
    rw [h.ledger_eq]
    exact mem_pageRegions _ hk
  refine wp_accounting_unmap hmem ?_
  rw [if_pos rfl]
  split
  · refine wp_accounting_mapFixed fun hne => ?_
    show HoldsPages _ v.addrs _
    rwa [Multiset.cons_erase hmem]
  · exact wp_accounting_map fun addr hne => h.update hk hne

/-- The cleanup unmaps all of them. -/
theorem wp_unmapPages_accounting {size : SizeT} (h : HoldsPages size.toNat addrs g) :
    wp accounting (unmapPages size addrs) (fun _ g => g = 0) g := by
  refine wp_forLoop (fun i _ g => g = pageRegions addrs i (size.toNat - i)) h.ledger_eq ?_ ?_
  · rintro i - g hi rfl
    have hsucc : size.toNat - i = size.toNat - (i + 1) + 1 := by omega
    rw [if_pos (h.ne_zero i hi), hsucc, pageRegions_succ]
    refine wp_accounting_unmap (Multiset.mem_cons_self _ _) ?_
    exact Multiset.erase_cons_head _ _
  · rintro - g rfl
    rw [Nat.sub_self]
    rfl

end Pages

/-! ### The run functions -/

section Run

variable {arg : VmopsBenchRunArg} {g : Multiset Region}

theorem accounting_ignores_barrier (site : BarrierSite) :
    accounting.Ignores (ThreadCall.barrier site) :=
  accounting_ignores (fun _ _ => nofun) fun _ _ => rfl

theorem accounting_ignores_getTime : accounting.Ignores ThreadCall.getTime :=
  accounting_ignores (fun _ _ => nofun) fun _ _ => rfl

/-- The functions on one large region: what each operation adds to the ledger. -/
theorem wp_timedRun_accounting {ξ : Type} {dflt : SizeT} {sampling : Sampling}
    {op : ξ → Prog threadSig (Except ξ ξ)} {onError : ξ → Prog threadSig Unit} {vars : ξ}
    (left : ℕ → ℕ × SizeT) (h0 : Holding (left 0) g)
    (hop : ∀ m v g, Holding (left m) g →
      wp accounting (op v) (onExcept (fun _ _ => False) fun _ => Holding (left (m + 1))) g) :
    wp accounting (timedRun arg dflt sampling op onError vars)
      (fun r g => r.exit = .done ∧ Holding (left r.arg.count.toNat) g) g := by
  refine wp_mono _ ?_ (wp_timedRun_counted accounting_ignores_barrier accounting_ignores_getTime
    (fun k _ g => Holding (left k.toNat) g) h0 ?_)
  · rintro r g ⟨hexit, v, hleft⟩
    exact ⟨hexit, hleft⟩
  · intro k v g hk h
    have hnext : (k + 1).toNat = k.toNat + 1 := Words.toNat_succ_of_lt hk
    rw [hnext]
    exact hop k.toNat v g h

/-- The 4k functions: a page for a page. -/
theorem wp_pagedRun_accounting {op : Pages → Prog threadSig (Except Pages Pages)}
    (hop : ∀ v g, HoldsPages (pageCount arg.cfg).toNat v.addrs g →
      wp accounting (op v) (onExcept (fun _ _ => False)
        fun v => HoldsPages (pageCount arg.cfg).toNat v.addrs) g) :
    wp accounting (pagedRun arg op) (fun r g => r.exit = .done ∧ g = 0) 0 :=
  wp_pagedRun_clean accounting_ignores_barrier accounting_ignores_getTime
    (fun _ _ =>
      ⟨accounting_ignores (fun _ _ => nofun) fun _ _ => rfl, fun _ henv => nomatch henv.1⟩)
    (accounting_ignores (fun _ _ => nofun) fun _ _ => rfl)
    (fun v g => HoldsPages (pageCount arg.cfg).toNat v.addrs g) wp_mapPages_accounting hop
    fun _ _ h => wp_unmapPages_accounting h

/-- The region of the protect benchmark. -/
theorem wp_mapRegion_accounting : wp accounting (Protect.mapRegion arg)
    (fun o g => o.isSome = true ∧ Holding (1, arg.cfg.memsize) g) 0 := by
  rw [Protect.mapRegion]
  split
  · exact wp_accounting_mapFixed fun _ => ⟨rfl, holding_zero.cons _⟩
  · refine ⟨trivial, fun addr henv => ?_⟩
    rcases addr with _ | addr
    · cases henv.1
    · exact ⟨rfl, holding_zero.cons addr⟩

/-- The regions of the elevation benchmark: as many as it takes the counter to come to its
bound. -/
theorem wp_mapChunks_accounting : wp accounting (ProtectElevate.mapChunks arg
      (0, ProtectElevate.firstAddr arg))
    (onExcept (fun _ _ => False) fun _ g => Holding (RunFn.elevate.leaves arg.cfg 0) g) 0 := by
  refine wp_whileLoop (fun s g => ∃ m, s.1 = 0 + BitVec.ofNat 64 m * arg.cfg.memsize ∧
    (∀ j < m, j ∉ ProtectElevate.reachesFrom arg.cfg 0) ∧ Holding (m, arg.cfg.memsize) g)
    ⟨0, by simp, nofun, holding_zero⟩ ?_ ?_
  · rintro ⟨i, addr⟩ g ⟨m, rfl, hbefore, hleft⟩ hrun
    have hnext : ∃ m', 0 + BitVec.ofNat 64 m * arg.cfg.memsize + arg.cfg.memsize =
        0 + BitVec.ofNat 64 m' * arg.cfg.memsize ∧
        (∀ j < m', j ∉ ProtectElevate.reachesFrom arg.cfg 0) ∧ m' = m + 1 := by
      refine ⟨m + 1, ?_, fun j hj => ?_, rfl⟩
      · rw [BitVec.ofNat_add, BitVec.add_mul, BitVec.one_mul, add_assoc]
      · rcases Nat.lt_succ_iff_lt_or_eq.mp hj with hlt | rfl
        · exact hbefore j hlt
        · exact fun hreach => hreach (of_decide_eq_true hrun)
    obtain ⟨m', hi, hbefore', rfl⟩ := hnext
    rw [ProtectElevate.mapChunk]
    split
    · refine wp_accounting_mapFixed fun _ => ?_
      rw [if_pos rfl]
      exact wp_accounting_protect ⟨_, hi, hbefore', hleft.cons _⟩
    · refine wp_accounting_map fun curaddr _ => ?_
      exact wp_accounting_protect ⟨_, hi, hbefore', hleft.cons _⟩
  · rintro ⟨i, addr⟩ g ⟨m, rfl, hbefore, hleft⟩ hend
    have hreach : m ∈ ProtectElevate.reachesFrom arg.cfg 0 := of_decide_eq_false hend
    have hleast : sInf (ProtectElevate.reachesFrom arg.cfg 0) = m :=
      le_antisymm (Nat.sInf_le hreach)
        (not_lt.mp fun hlt => hbefore _ hlt (Nat.sInf_mem ⟨m, hreach⟩))
    show Holding (sInf (ProtectElevate.reachesFrom arg.cfg 0), _) g
    rwa [hleast]

/-- The shootdown benchmark: the region that all threads map, and on thread 0 nothing more. -/
theorem wp_tlbshoot_accounting : wp accounting (TlbShoot.benchRunFn arg)
    (fun r g => r.exit = .done ∧ Holding (1, arg.cfg.memsize) g) 0 := by
  refine wp_accounting_map fun taddr _ => ?_
  have hone : Holding (1, arg.cfg.memsize) {(taddr, arg.cfg.memsize)} := holding_zero.cons taddr
  have hignores : ∀ c : ThreadCall, (∀ addr size, c ≠ .vmUnmap addr size) →
      (∀ g r, c.onRegions g r = g) → accounting.Ignores c := fun c => accounting_ignores
  refine wp_ignored (accounting_ignores_barrier _) fun _ =>
    wp_ignored accounting_ignores_getTime fun tCurrent => ?_
  split
  · -- a worker spins
    refine (wp_bind _ _).mpr ⟨fun _ => Holding (1, arg.cfg.memsize),
      fun _ => Holding (1, arg.cfg.memsize), hone, fun _ g hg => ?_, fun _ g hg => ?_⟩
    · refine wp_ignored (hignores _ (fun _ _ => nofun) fun _ _ => rfl) fun done => ?_
      split
      · exact wp_ignored (hignores _ (fun _ _ => nofun) fun _ _ => rfl) fun _ => hg
      · exact hg
    · exact wp_ignored (accounting_ignores_barrier _) fun _ => ⟨rfl, hg⟩
  · refine (wp_bind _ _).mpr (wp_timedLoop (fun _ g => Holding (1, arg.cfg.memsize) g) hone ?_ ?_)
    · intro s g hg _
      refine wp_mono _ (fun o g' ho => ?_) wp_mapUnmapOp_accounting
      rcases o with v | v
      · exact ho.elim
      · obtain rfl : g' = g := ho
        exact ⟨trivial, fun t _ => hg⟩
    · exact fun s g hg _ => wp_ignored accounting_ignores_getTime fun _ =>
        wp_ignored (hignores _ (fun _ _ => nofun) fun _ _ => rfl) fun _ =>
          wp_ignored (accounting_ignores_barrier _) fun _ => ⟨rfl, hg⟩

/-- **What a run function leaves mapped.** -/
theorem wp_run_accounting {f : RunFn} (hpages : f = .mapunmap4k → pageCount arg.cfg ≠ 0) :
    wp accounting (f.run arg)
      (fun r g => r.exit = .done ∧ Holding (f.leaves arg.cfg r.arg.count.toNat) g) 0 := by
  have hpaged : ∀ {p : Prog threadSig RunResult},
      wp accounting p (fun r g => r.exit = .done ∧ g = 0) 0 →
        wp accounting p (fun r g => r.exit = .done ∧ Holding (0, platArchBasePageSize) g) 0 := by
    refine fun h => wp_mono _ ?_ h
    rintro r g ⟨hexit, rfl⟩
    exact ⟨hexit, holding_zero⟩
  cases f with
  | mapunmap =>
    refine wp_timedRun_accounting (fun _ => (0, arg.cfg.memsize)) holding_zero ?_
    rintro m ⟨⟩ g h
    refine wp_mono _ (fun o g' ho => ?_) wp_mapUnmapOp_accounting
    rcases o with v | v
    · exact ho
    · exact ho ▸ h
  | mapunmap4k =>
    exact hpaged (wp_pagedRun_accounting fun v g h => wp_mapUnmap4kOp_accounting (hpages rfl) h)
  | nounmap =>
    change wp _ (MapUnmap.benchRunNounmapFn arg) _ _
    exact wp_timedRun_accounting (fun m => (m, arg.cfg.memsize)) holding_zero
      fun m v g h => wp_mapOnlyOp_accounting h
  | nounmap4k =>
    change wp _ (MapUnmap.benchRunNounmap4kFn arg) _ _
    exact wp_timedRun_accounting (fun m => (m, platArchBasePageSize)) holding_zero
      fun m v g h => wp_mapOnly4kOp_accounting h
  | protect =>
    refine (wp_bind _ _).mpr (wp_mono _ ?_ wp_mapRegion_accounting)
    rintro o g ⟨hsome, hone⟩
    rcases o with _ | addr
    · cases hsome
    · exact wp_timedRun_accounting (fun _ => (1, arg.cfg.memsize)) hone
        fun m v g h => wp_protectTwice_accounting h
  | protect4k =>
    exact hpaged (wp_pagedRun_accounting fun v g h => wp_protectTwice_accounting h)
  | elevate =>
    refine (wp_bind _ _).mpr (wp_mono _ (fun o g ho => ?_) wp_mapChunks_accounting)
    rcases o with _ | s
    · exact ho.elim
    · exact wp_timedRun_accounting (fun _ => RunFn.elevate.leaves arg.cfg 0) ho
        fun m v g h => wp_accounting_protect h
  | tlbshoot => exact wp_tlbshoot_accounting

/-- **The ledger of a thread that has returned**, when none of its calls has failed. -/
theorem regions_of_run {f : RunFn} {tr : List (Event threadSig)} {r : RunResult}
    (hrun : Run (platThreadRunFn f arg) tr (.ret r)) (henv : accounting.Admits 0 tr)
    (hpages : f = .mapunmap4k → pageCount arg.cfg ≠ 0) :
    r.exit = .done ∧ Holding (f.leaves arg.cfg r.arg.count.toNat) (regionsAfter tr) := by
  have hwp : wp accounting (platThreadRunFn f arg) _ 0 :=
    wp_ignored (accounting_ignores (fun _ _ => nofun) fun _ _ => rfl) fun _ =>
      wp_run_accounting hpages
  exact (wp_run hrun hwp henv).2

/-- **What a thread unmaps is its own**, wherever its run has led it. -/
theorem honours_accounting {f : RunFn} {tr : List (Event threadSig)} {q : Prog threadSig RunResult}
    (hrun : Run (platThreadRunFn f arg) tr q) (henv : accounting.Admits 0 tr)
    (hpages : f = .mapunmap4k → pageCount arg.cfg ≠ 0) : accounting.Honours 0 tr := by
  have hwp : wp accounting (platThreadRunFn f arg) _ 0 :=
    wp_ignored (accounting_ignores (fun _ _ => nofun) fun _ _ => rfl) fun _ =>
      wp_run_accounting hpages
  exact (wp_run hrun hwp henv).1

end Run

end VmopsBench

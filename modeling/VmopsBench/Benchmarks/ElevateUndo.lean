import VmopsBench.Benchmarks.OwnPages
import VmopsBench.Platform.AddressSpace

/-!
# What the elevate benchmark undoes

When a `plat_vm_protect` of its timed loop fails, `bench_run_fn` of `protectelevate.c` jumps to an
error exit with one statement, `plat_vm_unmap(addr, cfg->memsize)`. It is meant to undo the setup.
But by then `addr` has gone on by a page with every operation, and the setup may have mapped more
than one chunk.

So the exit undoes what the thread has mapped, and nothing else
(`VmopsBench.ProtectElevate.UndoesOwn`), if and only if there is one chunk, the operation that fails
is the first one, or `addr` has come round the address space to where it began, and the call itself
succeeds (`VmopsBench.ProtectElevate.undoesOwn_iff`). With more chunks the range is too small to
take them all.

A range stands for the addresses in it. Which pages these are on does not matter here.
-/

namespace VmopsBench

open Interact Words

/-! ### Addresses that are mapped -/

/-- **The addresses of some ranges.** -/
def addrsOf (ranges : List (Addr × SizeT)) : Set Addr :=
  {a | ∃ x ∈ ranges, a ∈ arc x.1 x.2.toNat}

/-- What a call does to the addresses that are mapped. -/
def ThreadCall.onAddrs (held : Set Addr) : (c : ThreadCall) → c.Resp → Set Addr
  | .vmMap size .., r => r.elim held fun addr => held ∪ arc addr size.toNat
  | .vmMapFixed addr size .., r => if r then held ∪ arc addr size.toNat else held
  | .vmUnmap addr size, r => if r then held \ arc addr size.toNat else held
  | _, _ => held

/-- **The addresses that are mapped** after a history. -/
def addrsAfter (tr : List (Event threadSig)) : Set Addr :=
  tr.foldl (fun held e => e.call.onAddrs held e.resp) ∅

section Addresses

variable {ranges ranges' : List (Addr × SizeT)} {addr : Addr} {size : SizeT}

@[simp] theorem addrsOf_nil : addrsOf [] = ∅ :=
  Set.eq_empty_of_forall_notMem fun _ ⟨_, hx, _⟩ => nomatch hx

theorem addrsOf_append : addrsOf (ranges ++ ranges') = addrsOf ranges ∪ addrsOf ranges' := by
  ext a
  simp only [addrsOf, List.mem_append, Set.mem_ofPred_eq, Set.mem_union, or_and_right, exists_or]

theorem addrsOf_singleton : addrsOf [(addr, size)] = arc addr size.toNat := by
  ext a
  simp [addrsOf]

theorem addrsOf_eq_empty (h : ∀ x ∈ ranges, x.2 = 0) : addrsOf ranges = ∅ := by
  refine Set.eq_empty_of_forall_notMem ?_
  rintro a ⟨x, hx, ha⟩
  rw [h x hx] at ha
  exact Nat.not_lt_zero _ ha

theorem addrsAfter_concat {tr : List (Event threadSig)} {c : ThreadCall} {r : c.Resp} :
    addrsAfter (tr ++ [⟨c, r⟩]) = c.onAddrs (addrsAfter tr) r := by
  rw [addrsAfter, List.foldl_append]
  rfl

/-- A call that unmaps nothing adds the range that it maps. -/
theorem ThreadCall.onAddrs_eq {c : ThreadCall} (h : c.unmapsAt = none) (held : Set Addr)
    (r : c.Resp) : c.onAddrs held r = held ∪ addrsOf (c.mapsAt r).toList := by
  cases c with
  | vmMap =>
    cases r with
    | none => simp [onAddrs, mapsAt]
    | some addr => simp [onAddrs, mapsAt, addrsOf_singleton]
  | vmMapFixed =>
    cases r with
    | false => simp [onAddrs, mapsAt]
    | true => simp [onAddrs, mapsAt, addrsOf_singleton]
  | vmUnmap => cases h
  | _ => simp [onAddrs, mapsAt]

end Addresses

namespace ProtectElevate

/-! ### The specification -/

/-- The answer to a call that raises permissions, as only the timed loop makes them. -/
def elevates : (c : ThreadCall) → c.Resp → Option Bool
  | .vmProtect _ _ .readWrite, ok => some ok
  | _, _ => none

/-- **The `plat_vm_protect` calls of the timed loop**: whether they succeed, in order. -/
def elevations (tr : List (Event threadSig)) : List Bool :=
  tr.filterMap fun e => elevates e.call e.resp

/-- **The thread's own mappings are undone**: what is unmapped are addresses that were mapped, and
none of these is mapped in the end. -/
structure UndoesOwn (tr : List (Event threadSig)) : Prop where
  unmapsOwn : addrsOf (released tr) ⊆ addrsOf (obtained tr)
  leavesNone : Disjoint (addrsOf (obtained tr)) (addrsAfter tr)

/-- The unmap calls succeed. -/
def UnmapsSucceed (tr : List (Event threadSig)) : Prop :=
  ∀ e ∈ tr, e.call.unmapsAt.isSome = true → e.call.fails e.resp = false

/-- **The condition** when `k` operations have succeeded: there is one chunk, `addr` is where it
begins, and it can be unmapped. Chunks of no bytes need not be unmapped. -/
def UndoneAfter (cfg : VmopsBenchCfg) (k : ℕ) (tr : List (Event threadSig)) : Prop :=
  cfg.memsize = 0 ∨ (0 < totalMapSize cfg ∧ totalMapSize cfg ≤ cfg.memsize) ∧
    k * 4096 % 2 ^ 64 = 0 ∧ UnmapsSucceed tr

/-- **What is assumed**: a range that the kernel chooses is one that the thread has not mapped. -/
def choosesFree : Spec threadSig (List (Event threadSig)) where
  pre _ _ := True
  env g c r := match c, r with
    | .vmMap size .., r => ∀ addr, r = some addr → Disjoint (addrsAfter g) (arc addr size.toNat)
    | _, _ => True
  upd g c r := g ++ [⟨c, r⟩]

theorem after_choosesFree (g tr : List (Event threadSig)) : choosesFree.after g tr = g ++ tr :=
  after_recording g tr

/-- The rule of a call. -/
theorem wp_choosesFree {α : Type} {c : ThreadCall} {f : c.Resp → Prog threadSig α}
    {Q : α → List (Event threadSig) → Prop} {g : List (Event threadSig)}
    (h : ∀ r, choosesFree.env g c r → wp choosesFree (f r) Q (g ++ [⟨c, r⟩])) :
    wp choosesFree (Prog.perform (S := threadSig) c >>= f) Q g :=
  wp_perform_bind.mpr ⟨trivial, h⟩

/-! ### Before the error exit -/

/-- **Nothing was unmapped so far**, and the permissions were raised with the given answers. -/
structure BeforeExit (answers : List Bool) (g : List (Event threadSig)) : Prop where
  elevations_eq : elevations g = answers
  released_eq : released g = []
  addrsAfter_eq : addrsAfter g = addrsOf (obtained g)

section BeforeExit

variable {answers : List Bool} {g : List (Event threadSig)} {c : ThreadCall} {r : c.Resp}

theorem elevations_concat :
    elevations (g ++ [⟨c, r⟩]) = elevations g ++ (elevates c r).toList := by
  rw [elevations, List.filterMap_append]
  cases h : elevates c r <;> simp [elevations, h]

theorem BeforeExit.call (h : BeforeExit answers g) (hc : c.unmapsAt = none) :
    BeforeExit (answers ++ (elevates c r).toList) (g ++ [⟨c, r⟩]) where
  elevations_eq := by rw [elevations_concat, h.elevations_eq]
  released_eq := by
    rw [released_concat, h.released_eq, hc]
    rfl
  addrsAfter_eq := by
    rw [addrsAfter_concat, ThreadCall.onAddrs_eq hc, h.addrsAfter_eq, obtained_concat,
      addrsOf_append]

/-- A call that does not raise permissions. -/
theorem BeforeExit.other (h : BeforeExit answers g) (hc : c.unmapsAt = none)
    (hr : elevates c r = none) : BeforeExit answers (g ++ [⟨c, r⟩]) := by
  have hnext := h.call (r := r) hc
  rwa [hr, Option.toList_none, List.append_nil] at hnext

theorem obtained_other (hr : c.mapsAt r = none) : obtained (g ++ [⟨c, r⟩]) = obtained g := by
  rw [obtained_concat, hr]
  exact List.append_nil _

theorem UnmapsSucceed.exit_iff (h : BeforeExit answers g) {addr : Addr} {size : SizeT} {ok : Bool} :
    UnmapsSucceed (g ++ [⟨ThreadCall.vmUnmap addr size, ok⟩]) ↔ ok = true := by
  have hbefore : ∀ e ∈ g, e.call.unmapsAt.isSome = true → e.call.fails e.resp = false := by
    intro e he hsome
    rw [List.filterMap_eq_nil_iff.mp h.released_eq e he] at hsome
    cases hsome
  rw [UnmapsSucceed, List.forall_mem_append, List.forall_mem_singleton]
  refine (and_iff_right hbefore).trans ?_
  cases ok <;> simp [ThreadCall.unmapsAt, ThreadCall.fails]

end BeforeExit

/-! ### The setup -/

/-- **The chunks of a setup** that has come to its end: none, one, or more addresses than one chunk
has. -/
inductive Chunks (cfg : VmopsBenchCfg) (addr : Addr) : List (Addr × SizeT) → Prop where
  | none (htotal : ¬0 < totalMapSize cfg) : Chunks cfg addr []
  | one (hpos : 0 < totalMapSize cfg) (hle : totalMapSize cfg ≤ cfg.memsize) :
    Chunks cfg addr [(addr, cfg.memsize)]
  | more {ranges : List (Addr × SizeT)} (hlt : cfg.memsize < totalMapSize cfg)
    (hsizes : ∀ x ∈ ranges, x.2 = cfg.memsize)
    (hlarge : cfg.memsize ≠ 0 → cfg.memsize.toNat < (addrsOf ranges).ncard) :
    Chunks cfg addr ranges

/-- **The chunks before a turn** of the mapping loop. -/
inductive ChunksBefore (arg : VmopsBenchRunArg) : SizeT × Addr → List (Addr × SizeT) → Prop where
  | first : ChunksBefore arg (0, firstAddr arg) []
  | second {addr : Addr} (hpos : 0 < totalMapSize arg.cfg) :
    ChunksBefore arg (arg.cfg.memsize, addr) [(addr, arg.cfg.memsize)]
  | later {s : SizeT × Addr} {ranges : List (Addr × SizeT)}
    (hlt : arg.cfg.memsize < totalMapSize arg.cfg)
    (hsizes : ∀ x ∈ ranges, x.2 = arg.cfg.memsize)
    (hlarge : arg.cfg.memsize ≠ 0 → arg.cfg.memsize.toNat < (addrsOf ranges).ncard) :
    ChunksBefore arg s ranges

section Setup

variable {arg : VmopsBenchRunArg} {s : SizeT × Addr} {ranges : List (Addr × SizeT)}

/-- When the loop ends. -/
theorem ChunksBefore.chunks (h : ChunksBefore arg s ranges) (hend : ¬s.1 < totalMapSize arg.cfg) :
    Chunks arg.cfg s.2 ranges := by
  cases h with
  | first => exact .none hend
  | second hpos => exact .one hpos (BitVec.not_lt.mp hend)
  | later hlt hsizes hlarge => exact .more hlt hsizes hlarge

/-- The address of the next chunk, and `addr` after it: the chunk follows those before it, or it is
where the kernel likes. -/
def NextChunk (s : SizeT × Addr) (ranges : List (Addr × SizeT)) (size : SizeT)
    (curaddr addr : Addr) : Prop :=
  (curaddr = s.2 + s.1 ∧ addr = s.2) ∨
    Disjoint (addrsOf ranges) (arc curaddr size.toNat) ∧ (s.2 = 0 → addr = curaddr)

/-- The chunk behind another one is not a part of it. -/
theorem lt_ncard_two {addr curaddr addr' : Addr} {size : SizeT} (hsize : size ≠ 0)
    (h : NextChunk (size, addr) [(addr, size)] size curaddr addr') :
    size.toNat < (addrsOf ([(addr, size)] ++ [(curaddr, size)])).ncard := by
  have hpos : 0 < size.toNat := BitVec.lt_def.mp ((BitVec.pos_iff_ne_zero size).mpr hsize)
  have hlt := size.isLt
  rw [addrsOf_append, addrsOf_singleton, addrsOf_singleton]
  rcases h with ⟨rfl, -⟩ | ⟨hdisj, -⟩
  · have hwhole : arc addr (size.toNat + 1) ⊆
        arc addr size.toNat ∪ arc (addr + size) size.toNat := by
      have hadd := arc_add addr size.toNat size.toNat
      rw [BitVec.ofNat_toNat, BitVec.setWidth_eq] at hadd
      rw [← hadd]
      exact arc_mono (Nat.add_le_add_left hpos _)
    have hle := Set.ncard_le_ncard hwhole (Set.toFinite _)
    rw [ncard_arc (by omega)] at hle
    exact hle
  · rw [addrsOf_singleton] at hdisj
    rw [Set.ncard_union_eq hdisj, ncard_arc hlt.le, ncard_arc hlt.le]
    omega

/-- **One turn**: there is one chunk more. -/
theorem ChunksBefore.next (h : ChunksBefore arg s ranges) (hlt : s.1 < totalMapSize arg.cfg)
    (hdef : arg.cfg.isolated = false → firstAddr arg = 0) {curaddr addr : Addr}
    (hnext : NextChunk s ranges arg.cfg.memsize curaddr addr)
    (hiso : arg.cfg.isolated = true → curaddr = s.2 + s.1 ∧ addr = s.2) :
    ChunksBefore arg (s.1 + arg.cfg.memsize, addr) (ranges ++ [(curaddr, arg.cfg.memsize)]) := by
  cases h with
  | first =>
    have haddr : addr = curaddr := by
      cases hmode : arg.cfg.isolated with
      | true =>
        obtain ⟨rfl, rfl⟩ := hiso hmode
        exact (BitVec.add_zero _).symm
      | false =>
        rcases hnext with ⟨rfl, rfl⟩ | ⟨-, hzero⟩
        · exact (BitVec.add_zero _).symm
        · exact hzero (hdef hmode)
    have hsize : (0 : SizeT) + arg.cfg.memsize = arg.cfg.memsize := BitVec.zero_add _
    show ChunksBefore arg ((0 : SizeT) + arg.cfg.memsize, addr) [(curaddr, arg.cfg.memsize)]
    rw [hsize, haddr]
    exact .second hlt
  | second hpos => exact .later hlt (by simp) fun hsize => lt_ncard_two hsize hnext
  | later hlt' hsizes hlarge =>
    refine .later hlt' (List.forall_mem_append.mpr ⟨hsizes, by simp⟩) fun hsize => ?_
    refine (hlarge hsize).trans_le (Set.ncard_le_ncard ?_ (Set.toFinite _))
    rw [addrsOf_append]
    exact Set.subset_union_left

/-- **The mapping loop**: it raises no permissions, and unmaps nothing. -/
theorem wp_mapChunks_chunks : wp choosesFree (mapChunks arg (0, firstAddr arg))
    (onExcept (fun _ => BeforeExit []) fun s g => BeforeExit [] g ∧ Chunks arg.cfg s.2 (obtained g))
    [] := by
  rw [mapChunks]
  refine wp_whileLoop (fun s g => BeforeExit [] g ∧ ChunksBefore arg s (obtained g))
    ⟨⟨rfl, rfl, addrsOf_nil.symm⟩, .first⟩ ?_ ?_
  · rintro ⟨i, addr⟩ g ⟨hg, hchunks⟩ hlt
    have hlt : i < totalMapSize arg.cfg := of_decide_eq_true hlt
    -- the chunk was mapped, and its permissions are lowered, or not
    have hmapped : ∀ (c : ThreadCall) (r : c.Resp) (curaddr addr' : Addr), c.unmapsAt = none →
        elevates c r = none → c.mapsAt r = some (curaddr, arg.cfg.memsize) →
        ChunksBefore arg (i + arg.cfg.memsize, addr')
          (obtained g ++ [(curaddr, arg.cfg.memsize)]) →
        wp choosesFree (do
            let _ ← platVmProtect addr' arg.cfg.memsize .readOnly
            return (.ok (i + arg.cfg.memsize, addr') : Except Unit (SizeT × Addr)))
          (onExcept (fun _ => BeforeExit []) fun s g =>
            BeforeExit [] g ∧ ChunksBefore arg s (obtained g)) (g ++ [⟨c, r⟩]) := by
      intro c r curaddr addr' hc hr hmap hnext
      refine wp_choosesFree fun lowered _ => ⟨(hg.other hc hr).other rfl rfl, ?_⟩
      rw [obtained_other rfl, obtained_concat, hmap]
      exact hnext
    rw [mapChunk]
    cases hmode : arg.cfg.isolated with
    | true =>
      rw [if_pos rfl]
      refine wp_choosesFree fun ok _ => ?_
      cases ok with
      | false => exact hg.other rfl rfl
      | true =>
        refine hmapped _ _ _ addr rfl rfl rfl (hchunks.next hlt ?_ (Or.inl ⟨rfl, rfl⟩) ?_)
        · exact fun h => by rw [hmode] at h; cases h
        · exact fun _ => ⟨rfl, rfl⟩
    | false =>
      rw [if_neg Bool.false_ne_true]
      refine wp_choosesFree fun curaddr hfree => ?_
      cases curaddr with
      | none => exact hg.other rfl rfl
      | some curaddr =>
        have hdisj : Disjoint (addrsOf (obtained g)) (arc curaddr arg.cfg.memsize.toNat) :=
          hg.addrsAfter_eq ▸ hfree curaddr rfl
        refine hmapped _ _ curaddr _ rfl rfl rfl (hchunks.next hlt ?_ (Or.inr ⟨hdisj, ?_⟩) ?_)
        · exact fun _ => if_neg (by simp [hmode])
        · exact fun h => if_pos h
        · exact fun h => by rw [hmode] at h; cases h
  · rintro s g ⟨hg, hchunks⟩ hend
    exact ⟨hg, hchunks.chunks (of_decide_eq_false hend)⟩

end Setup

/-! ### The timed loop and the error exit -/

section Exit

variable {arg : VmopsBenchRunArg} {addr : Addr} {g : List (Event threadSig)}

/-- **What the exit undoes**: it is the right range if that is a part of what was mapped, and what
was mapped is a part of it, unless nothing was mapped. -/
theorem undoesOwn_exit {answers : List Bool} (hg : BeforeExit answers g) (size : SizeT)
    (ok : Bool) :
    UndoesOwn (g ++ [⟨ThreadCall.vmUnmap addr size, ok⟩]) ↔
      arc addr size.toNat ⊆ addrsOf (obtained g) ∧
        (addrsOf (obtained g) = ∅ ∨ ok = true ∧ addrsOf (obtained g) ⊆ arc addr size.toNat) := by
  have hreleased : addrsOf (released (g ++ [⟨ThreadCall.vmUnmap addr size, ok⟩])) =
      arc addr size.toNat := by
    rw [released_concat, hg.released_eq, List.nil_append]
    exact addrsOf_singleton
  have hobtained : obtained (g ++ [⟨ThreadCall.vmUnmap addr size, ok⟩]) = obtained g :=
    obtained_other rfl
  have hafter : addrsAfter (g ++ [⟨ThreadCall.vmUnmap addr size, ok⟩]) =
      if ok then addrsOf (obtained g) \ arc addr size.toNat else addrsOf (obtained g) := by
    rw [← hg.addrsAfter_eq]
    exact addrsAfter_concat
  constructor
  · rintro ⟨hown, hnone⟩
    rw [hreleased, hobtained] at hown
    rw [hobtained, hafter] at hnone
    refine ⟨hown, ?_⟩
    cases ok with
    | false => exact Or.inl (disjoint_self.mp hnone)
    | true =>
      refine Or.inr ⟨rfl, fun a ha => ?_⟩
      by_contra hout
      exact Set.disjoint_left.mp hnone ha ⟨ha, hout⟩
  · rintro ⟨hown, hnone⟩
    refine ⟨by rwa [hreleased, hobtained], ?_⟩
    rw [hobtained, hafter]
    rcases hnone with hnone | ⟨rfl, hsub⟩
    · rw [hnone]
      exact Set.empty_disjoint _
    · rw [if_pos rfl]
      exact Set.disjoint_left.mpr fun a ha hrest => hrest.2 (hsub ha)

/-- Chunks of no bytes. -/
theorem Chunks.addrsOf_eq_empty {cfg : VmopsBenchCfg} {ranges : List (Addr × SizeT)}
    (h : Chunks cfg addr ranges) (hsize : cfg.memsize = 0) : addrsOf ranges = ∅ := by
  cases h with
  | none => exact addrsOf_nil
  | one => exact VmopsBench.addrsOf_eq_empty (by simpa using hsize)
  | more _ hsizes => exact VmopsBench.addrsOf_eq_empty fun x hx => (hsizes x hx).trans hsize

/-- **The error exit after `k` operations.** -/
theorem Chunks.exit_iff {cfg : VmopsBenchCfg} {answers : List Bool}
    (h : Chunks cfg addr (obtained g)) (hg : BeforeExit answers g) (k : ℕ) (ok : Bool) :
    let tr := g ++ [⟨ThreadCall.vmUnmap (addr + BitVec.ofNat 64 (k * 4096)) cfg.memsize, ok⟩]
    UndoesOwn tr ↔ UndoneAfter cfg k tr := by
  intro tr
  rw [undoesOwn_exit hg, UndoneAfter, UnmapsSucceed.exit_iff hg]
  by_cases hsize : cfg.memsize = 0
  · -- there is nothing to unmap
    refine iff_of_true ⟨?_, Or.inl (h.addrsOf_eq_empty hsize)⟩ (Or.inl hsize)
    have hnothing : arc (addr + BitVec.ofNat 64 (k * 4096)) (0 : SizeT).toNat = ∅ := arc_zero _
    rw [hsize, hnothing]
    exact Set.empty_subset _
  · have hpos : 0 < cfg.memsize.toNat :=
      BitVec.lt_def.mp ((BitVec.pos_iff_ne_zero cfg.memsize).mpr hsize)
    have hstart := start_mem_arc (a := addr + BitVec.ofNat 64 (k * 4096)) hpos
    have hlt := cfg.memsize.isLt
    rw [or_iff_right hsize]
    generalize obtained g = ranges at h
    cases h with
    | none htotal =>
      refine iff_of_false (fun hboth => ?_) fun hboth => htotal hboth.1.1
      rw [addrsOf_nil] at hboth
      exact hboth.1 hstart
    | one htotal hle =>
      rw [addrsOf_singleton]
      have hne : arc addr cfg.memsize.toNat ≠ ∅ :=
        Set.nonempty_iff_ne_empty.mp ⟨_, start_mem_arc hpos⟩
      constructor
      · rintro ⟨hsub, hnone⟩
        obtain ⟨rfl, -⟩ := hnone.resolve_left hne
        exact ⟨⟨htotal, hle⟩, (arc_add_subset_iff hpos hlt).mp hsub, rfl⟩
      · rintro ⟨-, hround, rfl⟩
        have hsame : addr + BitVec.ofNat 64 (k * 4096) = addr := by
          have hzero : BitVec.ofNat 64 (k * 4096) = 0#64 := by
            apply BitVec.eq_of_toNat_eq
            rw [BitVec.toNat_ofNat, hround]
            rfl
          rw [hzero, BitVec.add_zero]
        rw [hsame]
        exact ⟨subset_rfl, Or.inr ⟨rfl, subset_rfl⟩⟩
    | more hmore _ hlarge =>
      have hmany := hlarge hsize
      refine iff_of_false (fun hboth => ?_) fun hboth => BitVec.not_lt.mpr hboth.1.2 hmore
      rcases hboth.2 with hnone | ⟨-, hsub⟩
      · rw [hnone, Set.ncard_empty] at hmany
        omega
      · have hcard := Set.ncard_le_ncard hsub (Set.toFinite _)
        rw [ncard_arc hlt.le] at hcard
        omega

/-- What is proved of a run: after a failed operation the exit does what it is meant to exactly if
the condition holds. -/
def ExitSettled (cfg : VmopsBenchCfg) (tr : List (Event threadSig)) : Prop :=
  ∀ k, (elevations tr)[k]? = some false → (UndoesOwn tr ↔ UndoneAfter cfg k tr)

/-- A run in which no operation has failed. -/
theorem exitSettled_replicate {cfg : VmopsBenchCfg} {j : ℕ}
    (h : elevations g = List.replicate j true) : ExitSettled cfg g := by
  intro k hfail
  have hmem := List.mem_of_getElem? hfail
  rw [h] at hmem
  cases List.eq_of_mem_replicate hmem

/-- The operation that has failed is the last one. -/
theorem eq_of_getElem?_replicate {j k : ℕ}
    (h : (List.replicate j true ++ [false] ++ [])[k]? = some false) : k = j := by
  rw [List.append_nil] at h
  rcases Nat.lt_trichotomy k j with hlt | rfl | hgt
  · rw [List.getElem?_append_left (by simpa using hlt)] at h
    cases List.eq_of_mem_replicate (List.mem_of_getElem? h)
  · rfl
  · rw [List.getElem?_eq_none (by simpa using hgt)] at h
    cases h

/-- **At the cursor**: the permissions were raised with the given answers, `j` times with success,
and the cursor has moved by as many pages. -/
structure AtCursor (cfg : VmopsBenchCfg) (addr : Addr) (answers : List Bool) (j : ℕ)
    (cursor : Addr) (g : List (Event threadSig)) : Prop where
  beforeExit : BeforeExit answers g
  chunks : Chunks cfg addr (obtained g)
  cursor_eq : cursor = addr + BitVec.ofNat 64 (j * 4096)

/-- A call that neither maps nor unmaps nor raises permissions. -/
theorem AtCursor.other {cfg : VmopsBenchCfg} {answers : List Bool} {j : ℕ} {cursor : Addr}
    {c : ThreadCall} {r : c.Resp} (h : AtCursor cfg addr answers j cursor g)
    (hunmaps : c.unmapsAt = none) (hraises : elevates c r = none) (hmaps : c.mapsAt r = none) :
    AtCursor cfg addr answers j cursor (g ++ [⟨c, r⟩]) where
  beforeExit := h.beforeExit.other hunmaps hraises
  chunks := by
    rw [obtained_other hmaps]
    exact h.chunks
  cursor_eq := h.cursor_eq

/-- **One operation** moves the cursor by a page, or is the first one that fails. -/
theorem wp_elevateOp_atCursor {cfg : VmopsBenchCfg} {j : ℕ} {cursor : Addr}
    (h : AtCursor cfg addr (List.replicate j true) j cursor g) :
    wp choosesFree (elevateOp cursor)
      (onExcept (fun v g => AtCursor cfg addr (List.replicate j true ++ [false]) j v g)
        fun v g => AtCursor cfg addr (List.replicate (j + 1) true) (j + 1) v g) g := by
  rw [elevateOp]
  refine wp_choosesFree fun raised _ => ?_
  have hnext := h.beforeExit.call (c := .vmProtect cursor platArchBasePageSize .readWrite)
    (r := raised) rfl
  have hchunks : Chunks cfg addr (obtained
      (g ++ [⟨ThreadCall.vmProtect cursor platArchBasePageSize .readWrite, raised⟩])) := by
    rw [obtained_other rfl]
    exact h.chunks
  cases raised with
  | false => exact ⟨hnext, hchunks, h.cursor_eq⟩
  | true =>
    refine ⟨?_, hchunks, ?_⟩
    · rw [List.replicate_succ']
      exact hnext
    · rw [h.cursor_eq]
      exact add_ofNat_mul_succ addr j platArchBasePageSize

/-- **The timed loop**, operation after operation. -/
theorem wp_timedLoop_atCursor {tStart tEnd : PlatTime} {nops : SizeT} {s : LoopState Addr}
    (h : AtCursor arg.cfg addr [] 0 s.vars g) :
    wp choosesFree (timedLoop arg.tid .afterIncrement tStart tEnd nops elevateOp s)
      (onExcept
        (fun s g => ∃ j, AtCursor arg.cfg addr (List.replicate j true ++ [false]) j s.vars g)
        fun _ g => ∃ j, elevations g = List.replicate j true) g := by
  refine wp_timedLoop
    (fun s g => ∃ j, AtCursor arg.cfg addr (List.replicate j true) j s.vars g) ⟨0, h⟩ ?_ ?_
  · rintro s g ⟨j, h⟩ -
    refine wp_mono _ (fun o g ho => ?_) (wp_elevateOp_atCursor h)
    cases o with
    | error v => exact ⟨j, ho⟩
    | ok v => exact ⟨trivial, fun t _ => ⟨j + 1, AtCursor.other ho rfl rfl rfl⟩⟩
  · rintro s g ⟨j, h⟩ -
    exact ⟨j, h.beforeExit.elevations_eq⟩

/-- **From the start barrier on.** -/
theorem wp_timedRun_exitSettled (hg : BeforeExit [] g) (h : Chunks arg.cfg addr (obtained g)) :
    wp choosesFree (timedRun arg defaultNops .afterIncrement elevateOp
      (fun addr => do let _ ← platVmUnmap addr arg.cfg.memsize) addr)
      (fun _ => ExitSettled arg.cfg) g := by
  refine wp_choosesFree fun () _ => wp_choosesFree fun (t : PlatTime) _ => ?_
  have hstart : AtCursor arg.cfg addr [] 0 addr g := ⟨hg, h, (BitVec.add_zero addr).symm⟩
  have hloop := (hstart.other (c := .barrier .start) (r := ()) rfl rfl rfl).other
    (c := .getTime) (r := t) rfl rfl rfl
  refine (wp_bind _ _).mpr (wp_mono _ (fun o g ho => ?_) (wp_timedLoop_atCursor hloop))
  cases o with
  | error s =>
    obtain ⟨j, hg, h, hvars⟩ := ho
    refine (wp_bind _ _).mpr (wp_choosesFree fun ok _ => ?_)
    show ExitSettled arg.cfg _
    intro k hfail
    rw [elevations_concat, hg.elevations_eq] at hfail
    obtain rfl := eq_of_getElem?_replicate hfail
    rw [hvars]
    exact h.exit_iff hg k ok
  | ok s =>
    obtain ⟨j, hall⟩ := ho
    refine wp_choosesFree fun t' _ => wp_choosesFree fun () _ => exitSettled_replicate (j := j) ?_
    rw [elevations_concat, elevations_concat, hall]
    simp [elevates]

theorem wp_benchRunFn_exitSettled :
    wp choosesFree (benchRunFn arg) (fun _ => ExitSettled arg.cfg) [] := by
  rw [benchRunFn]
  refine (wp_bind _ _).mpr (wp_mono _ (fun o g ho => ?_) wp_mapChunks_chunks)
  cases o with
  | error _ =>
    have hg : BeforeExit [] g := ho
    exact exitSettled_replicate (j := 0) hg.elevations_eq
  | ok s => exact wp_timedRun_exitSettled ho.1 ho.2

theorem exitSettled_of_run {tr : List (Event threadSig)} {r : RunResult}
    (hrun : Run (benchRunFn arg) tr (.ret r)) (hkernel : choosesFree.Admits [] tr) :
    ExitSettled arg.cfg tr := by
  have hsettled := (wp_run hrun wp_benchRunFn_exitSettled hkernel).2
  rwa [after_choosesFree] at hsettled

end Exit

/-- **When the elevate benchmark undoes its own mappings**: `k` operations have succeeded, and the
next one has failed. The exit unmaps what the thread has mapped, and only that, if and only if that
is one chunk, `addr` is where it begins, and the call succeeds. -/
theorem undoesOwn_iff {arg : VmopsBenchRunArg} {tr : List (Event threadSig)} {r : RunResult} {k : ℕ}
    (hrun : Run (benchRunFn arg) tr (.ret r)) (hkernel : choosesFree.Admits [] tr)
    (hfail : (elevations tr)[k]? = some false) : UndoesOwn tr ↔ UndoneAfter arg.cfg k tr :=
  exitSettled_of_run hrun hkernel k hfail

/-- Two operations on a memory object of two pages, in isolated mode. -/
def twoPages : VmopsBenchRunArg := fillArg { oneThread with nops := 2, isolated := true } 1 0

/-- An environment in which the operation on one page fails. -/
def failingAt (page : Addr) : (c : ThreadCall) → c.Resp
  | .vmMap .. => none
  | .vmProtect addr _ .readWrite => addr != page
  | c => ThreadCall.succeed c

/-- The environment chooses no range. -/
theorem choosesFree_failingAt (page : Addr) (g : List (Event threadSig)) (c : ThreadCall) :
    choosesFree.env g c (failingAt page c) := by
  cases c with
  | vmMap => rintro addr ⟨⟩
  | _ => trivial

/-- The first operation fails. -/
theorem undoesOwn_first : ∃ tr r, Run (benchRunFn twoPages) tr (.ret r) ∧
    choosesFree.Admits [] tr ∧ (elevations tr)[0]? = some false ∧ UndoesOwn tr := by
  have hrun : ∃ tr r, Run (benchRunFn twoPages) tr (.ret r) ∧ choosesFree.Admits [] tr ∧
      ((elevations tr)[0]? = some false ∧
        ∀ e ∈ tr, e.call.unmapsAt.isSome = true → e.call.fails e.resp = false) :=
    exists_admitted_of_yields (choosesFree_failingAt 0x14000000000) [] 20 (by decide)
  obtain ⟨tr, r, hrun, hkernel, hfail, hunmap⟩ := hrun
  refine ⟨tr, r, hrun, hkernel, hfail, (undoesOwn_iff hrun hkernel hfail).mpr (Or.inr ?_)⟩
  exact ⟨by decide, by decide, hunmap⟩

/-- **The second operation fails**: the second page is unmapped and one behind it that was never
mapped, and the first page stays. -/
theorem second_not_undoesOwn : ∃ tr r, Run (benchRunFn twoPages) tr (.ret r) ∧
    choosesFree.Admits [] tr ∧ (elevations tr)[1]? = some false ∧
      obtained tr = [(0x14000000000, 8192)] ∧ released tr = [(0x14000001000, 8192)] ∧
      ¬UndoesOwn tr := by
  have hrun : ∃ tr r, Run (benchRunFn twoPages) tr (.ret r) ∧ choosesFree.Admits [] tr ∧
      ((elevations tr)[1]? = some false ∧ obtained tr = [(0x14000000000, 8192)] ∧
        released tr = [(0x14000001000, 8192)]) :=
    exists_admitted_of_yields (choosesFree_failingAt 0x14000001000) [] 30 (by decide)
  obtain ⟨tr, r, hrun, hkernel, hfail, hobtained, hreleased⟩ := hrun
  refine ⟨tr, r, hrun, hkernel, hfail, hobtained, hreleased, fun hundoes => ?_⟩
  rcases (exitSettled_of_run hrun hkernel 1 hfail).mp hundoes with hzero | ⟨-, hround, -⟩
  · exact absurd hzero (by decide)
  · exact absurd hround (by decide)

end ProtectElevate

end VmopsBench

import VmopsBench.Barrelfish.Vregion
import VmopsBench.Platform.LinuxMemobj

/-!
# The elements behind the fixed mappings

`plat_vm_map_fixed` and `plat_vm_unmap` of `barrelfish.c`. Every fixed mapping takes an element from
`alloc_vregion`, and the allocator has a list of free elements that it would rather take one from.
But no statement puts an element on this list: the place for it, in `plat_vm_unmap`, is a comment.

An element that was obtained should be behind a live mapping or on the list
(`VmopsBench.Barrelfish.FixedMappings.NoneLost`). By
`VmopsBench.Barrelfish.FixedMappings.noneLost_iff` that is so as long as no mapping has failed in
the vspace library and none was unmapped, and never again afterwards. Cycles of mapping and
unmapping take a new element each (`VmopsBench.Barrelfish.FixedMappings.exists_cycles`).
-/

namespace VmopsBench

namespace Barrelfish

open Interact Bump AllocHistory

/-! ### The functions -/

/-- `struct plat_memobj` of `barrelfish.c`: the capability of its frame, if that is not null, and
`id.bytes`. -/
structure BarrelfishMemobj where
  frame : Option ℕ
  bytes : SizeT

/-- How `plat_vm_map_fixed` ends: the error value, the state it leaves, and the element that it has
obtained, which it keeps to itself. -/
structure MapFixedExit where
  err : PlatError
  state : VregionState
  obtained : Option VregionParts

/-- `plat_vm_map_fixed` on a core. -/
def platVmMapFixed (L : VregionLayout) (cid : CoreId) (addr : Addr) (size : SizeT)
    (memobj : BarrelfishMemobj) (offset : SizeT) (huge : Bool) (s : VregionState) :
    Prog vspaceSig MapFixedExit :=
  if memobj.frame = none ∨ memobj.bytes < offset + size then return ⟨.argsInvalid, s, none⟩
  else if addr = 0 then return ⟨.argsInvalid, s, none⟩
  else do
    let x ← allocVregion L cid s
    match x.1 with
    | none => return ⟨.mapFailed, x.2, none⟩
    | some parts =>
      let mapped ← vspaceCall (.mapFixed addr size memobj.frame huge parts)
      return ⟨if mapped then .ok else .mapFailed, x.2, some parts⟩

/-- `plat_vm_unmap`, which does not look at the size. -/
def platVmUnmap (addr : Addr) : Prog vspaceSig PlatError := do
  -- in the source, a comment stands here in place of the insertion into the free list
  let unmapped ← vspaceCall (.unmap addr)
  return if unmapped then .ok else .unmapFailed

/-! ### Histories -/

/-- **The fixed mappings of a core**: the history of its allocator, and the mappings that are live,
each with the element behind it. -/
structure FixedMappings where
  alloc : AllocHistory
  live : List (Addr × VregionParts)

namespace FixedMappings

/-- Nothing was mapped. -/
def init : FixedMappings := ⟨.init, []⟩

/-- **A call of one of the two functions**; what is unmapped is live. -/
inductive Step (L : VregionLayout) (cid : CoreId) :
    FixedMappings → List (Event vspaceSig) → FixedMappings → Prop where
  | mapFixed {s : FixedMappings} {addr : Addr} {size : SizeT} {memobj : BarrelfishMemobj}
      {offset : SizeT} {huge : Bool} {tr : List (Event vspaceSig)} {exit : MapFixedExit}
      (hrun : Run (platVmMapFixed L cid addr size memobj offset huge s.alloc.state) tr (.ret exit))
      (hadm : (mallocs L cid).Admits s.alloc.blocks tr) :
      Step L cid s tr
        { alloc := s.alloc.after L cid tr (exit.obtained, exit.state)
          live := if exit.err = .ok then s.live ++ (exit.obtained.map (Prod.mk addr)).toList
            else s.live }
  | unmap {s : FixedMappings} {addr : Addr} {parts : VregionParts} {tr : List (Event vspaceSig)}
      {err : PlatError} (hlive : (addr, parts) ∈ s.live)
      (hrun : Run (platVmUnmap addr) tr (.ret err)) :
      Step L cid s tr
        { s with live := if err = .ok then s.live.erase (addr, parts) else s.live }

/-- **The states that are reached by some calls**, which have made the given calls themselves. -/
inductive ReachedBy (L : VregionLayout) (cid : CoreId) :
    List (Event vspaceSig) → FixedMappings → Prop where
  | init : ReachedBy L cid [] init
  | step {tr tr' : List (Event vspaceSig)} {s s' : FixedMappings} (h : ReachedBy L cid tr s)
      (hstep : Step L cid s tr' s') : ReachedBy L cid (tr ++ tr') s'

end FixedMappings

/-- **On a free list** that begins at `vm`, when memory holds the given `next` pointers. -/
inductive OnFreeList (next : Ptr → Ptr) (e : Ptr) : Ptr → Prop where
  | head (he : e ≠ 0) : OnFreeList next e e
  | tail {vm : Ptr} (hvm : vm ≠ 0) (h : OnFreeList next e (next vm)) : OnFreeList next e vm

namespace FixedMappings

/-- An element is behind a live mapping. -/
def Backs (s : FixedMappings) (parts : VregionParts) : Prop := ∃ addr, (addr, parts) ∈ s.live

/-- **No element is lost**: each one that was obtained is behind a live mapping, or on the free list
of the core. -/
def NoneLost (next : Ptr → Ptr) (cid : CoreId) (s : FixedMappings) : Prop :=
  ∀ x ∈ s.alloc.returned,
    s.Backs x.2 ∨ OnFreeList next x.2.vregion (s.alloc.state.vregionFreeList cid)

end FixedMappings

/-- The call loses an element: a mapping that fails, or an unmapping that succeeds. -/
def VspaceCall.loses : (c : VspaceCall) → c.Resp → Bool
  | .mapFixed .., mapped => !mapped
  | .unmap _, unmapped => unmapped
  | _, _ => false

/-- The call is one of `vspace_map_one_frame_one_map_fixed_attr_no_malloc`. -/
def VspaceCall.maps : VspaceCall → Bool
  | .mapFixed .. => true
  | _ => false

/-! ### What a call can do -/

namespace FixedMappings

/-- **What a call does**: nothing, or it finds no element, or it obtains one and maps something with
it, or it unmaps something; the last two may fail in the vspace library. -/
inductive StepOutcome (L : VregionLayout) (cid : CoreId) (s : FixedMappings) :
    List (Event vspaceSig) → FixedMappings → Prop where
  | rejected : StepOutcome L cid s [] s
  | noVregion {tr : List (Event vspaceSig)} {x : Option VregionParts × VregionState}
      (hcall : s.alloc.Allocates L cid tr x) (hx : x.1 = none) :
      StepOutcome L cid s tr ⟨s.alloc.after L cid tr x, s.live⟩
  | mapped {tr : List (Event vspaceSig)} {x : Option VregionParts × VregionState}
      {parts : VregionParts} (hcall : s.alloc.Allocates L cid tr x) (hx : x.1 = some parts)
      (addr : Addr) (size : SizeT) (frame : Option ℕ) (huge ok : Bool) :
      StepOutcome L cid s (tr ++ [⟨.mapFixed addr size frame huge parts, ok⟩])
        ⟨s.alloc.after L cid tr x, if ok then s.live ++ [(addr, parts)] else s.live⟩
  | unmapped {addr : Addr} {parts : VregionParts} (hlive : (addr, parts) ∈ s.live) (ok : Bool) :
      StepOutcome L cid s [⟨.unmap addr, ok⟩]
        { s with live := if ok then s.live.erase (addr, parts) else s.live }

section Outcome

variable {L : VregionLayout} {cid : CoreId} {s s' : FixedMappings} {tr : List (Event vspaceSig)}

/-- A call of the vspace library does not concern the blocks. -/
theorem after_mapFixed (g : AllocHistory) (x : Option VregionParts × VregionState) (addr : Addr)
    (size : SizeT) (frame : Option ℕ) (huge : Bool) (parts : VregionParts) (ok : Bool) :
    g.after L cid (tr ++ [⟨.mapFixed addr size frame huge parts, ok⟩]) x = g.after L cid tr x := by
  have hblocks : (mallocs L cid).after g.blocks
      (tr ++ [⟨.mapFixed addr size frame huge parts, ok⟩]) = (mallocs L cid).after g.blocks tr := by
    rw [Spec.after_append]
    exact List.append_nil _
  rw [AllocHistory.after, hblocks]
  rfl

theorem Step.outcome (h : Step L cid s tr s') : StepOutcome L cid s tr s' := by
  rcases h with ⟨hrun, hadm⟩ | ⟨hlive, hrun⟩
  · next addr size memobj offset huge exit =>
    have hsame : s.alloc.after L cid [] (none, s.alloc.state) = s.alloc := by
      simp [AllocHistory.after, Spec.after]
    rw [platVmMapFixed] at hrun
    split at hrun
    · cases hrun
      rw [hsame]
      exact .rejected
    · split at hrun
      · cases hrun
        rw [hsame]
        exact .rejected
      · obtain ⟨⟨elem, st⟩, tr₁, tr₂, halloc, hrest, rfl⟩ := hrun.of_bind_ret
        obtain ⟨hfirst, -⟩ := Spec.admits_append_iff.mp hadm
        cases elem with
        | none =>
          cases hrest
          rw [List.append_nil]
          exact .noVregion ⟨halloc, hfirst⟩ rfl
        | some parts =>
          cases hrest with
          | call ok hret =>
            cases hret
            rw [after_mapFixed]
            cases ok with
            | false => exact .mapped ⟨halloc, hfirst⟩ rfl addr size memobj.frame huge false
            | true => exact .mapped ⟨halloc, hfirst⟩ rfl addr size memobj.frame huge true
  · cases hrun with
    | call ok hret =>
      cases hret
      cases ok with
      | false => exact .unmapped hlive false
      | true => exact .unmapped hlive true

end Outcome

/-! ### The account of the elements -/

/-- **The account**: what is behind a live mapping was obtained, for this mapping only; and every
element that was obtained is there exactly if no call so far has lost one. Each mapping, whether it
has failed or not, has obtained an element. -/
structure Account (L : VregionLayout) (cid : CoreId) (tr : List (Event vspaceSig))
    (s : FixedMappings) : Prop where
  reached : AllocHistory.Reached L s.alloc
  obtained : ∀ y ∈ s.live, (cid, y.2) ∈ s.alloc.returned
  nodup : (s.live.map Prod.snd).Nodup
  backs_iff : (∀ x ∈ s.alloc.returned, s.Backs x.2) ↔ ∀ e ∈ tr, e.call.loses e.resp = false
  length : s.alloc.returned.length = tr.countP fun e => e.call.maps

section Account

variable {L : VregionLayout} {cid : CoreId} {s s' : FixedMappings} {tr tr' : List (Event vspaceSig)}
  {x : Option VregionParts × VregionState}

/-- `alloc_vregion` itself makes no call of the vspace library. -/
theorem loses_of_allocates {g : AllocHistory} (h : AllocHistory.Reached L g)
    (hcall : g.Allocates L cid tr x) : ∀ e ∈ tr, e.call.loses e.resp = false := by
  intro e he
  rcases allocOutcome_of_run (h.freeList_eq_zero cid) hcall.run with - | - | -
  · obtain rfl := List.mem_singleton.mp he
    rfl
  · obtain rfl := List.mem_singleton.mp he
    rfl
  · cases he

theorem countP_of_allocates {g : AllocHistory} (h : AllocHistory.Reached L g)
    (hcall : g.Allocates L cid tr x) : (tr.countP fun e => e.call.maps) = 0 := by
  rcases allocOutcome_of_run (h.freeList_eq_zero cid) hcall.run with - | - | - <;> rfl

theorem account_init : Account L cid [] init := by
  refine ⟨.init, ?_, .nil, ?_, rfl⟩
  · simp [init]
  · simp [init, AllocHistory.init]

/-- A new mapping. -/
theorem backs_append {g : AllocHistory} {live : List (Addr × VregionParts)} {addr : Addr}
    {parts p : VregionParts} :
    Backs ⟨g, live ++ [(addr, parts)]⟩ p ↔ Backs ⟨g, live⟩ p ∨ p = parts := by
  simp [Backs, exists_or]

/-- An unmapped element is behind no other mapping. -/
theorem Account.not_backs_erase (h : Account L cid tr s) {addr : Addr} {parts : VregionParts}
    (hlive : (addr, parts) ∈ s.live) :
    ¬Backs { s with live := s.live.erase (addr, parts) } parts := by
  rintro ⟨addr', hmem⟩
  have hnodup := h.nodup
  rw [(List.perm_cons_erase hlive).map Prod.snd |>.nodup_iff, List.map_cons,
    List.nodup_cons] at hnodup
  exact hnodup.1 (List.mem_map.mpr ⟨_, hmem, rfl⟩)

/-- The allocator has no element. -/
theorem Account.noVregion (h : Account L cid tr s) (hcall : s.alloc.Allocates L cid tr' x)
    (hx : x.1 = none) : Account L cid (tr ++ tr') ⟨s.alloc.after L cid tr' x, s.live⟩ := by
  have hreturned : (s.alloc.after L cid tr' x).returned = s.alloc.returned :=
    AllocHistory.after_returned_of_none hx
  refine ⟨h.reached.call hcall, ?_, h.nodup, ?_, ?_⟩
  · rw [hreturned]
    exact h.obtained
  · rw [hreturned, List.forall_mem_append]
    exact h.backs_iff.trans (and_iff_left (loses_of_allocates h.reached hcall)).symm
  · rw [hreturned, List.countP_append, h.length, countP_of_allocates h.reached hcall, Nat.add_zero]

section Obtaining

variable {parts : VregionParts} {addr : Addr} {size : SizeT} {frame : Option ℕ} {huge ok : Bool}

theorem Account.length_obtained (h : Account L cid tr s) (hcall : s.alloc.Allocates L cid tr' x)
    (hx : x.1 = some parts) : (s.alloc.after L cid tr' x).returned.length =
      List.countP (fun e : Event vspaceSig => e.call.maps)
        (tr ++ (tr' ++ [⟨.mapFixed addr size frame huge parts, ok⟩])) := by
  rw [AllocHistory.after_returned hx, List.length_append, List.countP_append, List.countP_append,
    countP_of_allocates h.reached hcall, h.length]
  rfl

/-- Nothing is lost if nothing was, and the mapping does not fail. -/
theorem Account.loses_mapFixed_iff (h : Account L cid tr s)
    (hcall : s.alloc.Allocates L cid tr' x) :
    (∀ e : Event vspaceSig, e ∈ tr ++ (tr' ++ [⟨.mapFixed addr size frame huge parts, ok⟩]) →
      e.call.loses e.resp = false) ↔ (∀ x ∈ s.alloc.returned, s.Backs x.2) ∧ ok = true := by
  rw [List.forall_mem_append, List.forall_mem_append, List.forall_mem_singleton, h.backs_iff]
  refine and_congr_right fun _ => (and_iff_right (loses_of_allocates h.reached hcall)).trans ?_
  simp [VspaceCall.loses]

/-- **An element is obtained and lost.** -/
theorem Account.failed (h : Account L cid tr s) (hcall : s.alloc.Allocates L cid tr' x)
    (hx : x.1 = some parts) :
    Account L cid (tr ++ (tr' ++ [⟨.mapFixed addr size frame huge parts, false⟩]))
      ⟨s.alloc.after L cid tr' x, s.live⟩ := by
  have hreturned : (s.alloc.after L cid tr' x).returned = s.alloc.returned ++ [(cid, parts)] :=
    AllocHistory.after_returned hx
  refine ⟨h.reached.call hcall, ?_, h.nodup, ?_, h.length_obtained hcall hx⟩
  · rw [hreturned]
    exact fun y hy => List.mem_append_left _ (h.obtained y hy)
  · rw [h.loses_mapFixed_iff hcall, hreturned, List.forall_mem_append, List.forall_mem_singleton]
    refine iff_of_false ?_ (by simp)
    -- what is behind a mapping was obtained before
    rintro ⟨-, addr', hmem⟩
    exact h.reached.once hcall hx _ (h.obtained _ hmem) rfl

/-- **An element is obtained and mapped.** -/
theorem Account.mapped (h : Account L cid tr s) (hcall : s.alloc.Allocates L cid tr' x)
    (hx : x.1 = some parts) :
    Account L cid (tr ++ (tr' ++ [⟨.mapFixed addr size frame huge parts, true⟩]))
      ⟨s.alloc.after L cid tr' x, s.live ++ [(addr, parts)]⟩ := by
  have hreturned : (s.alloc.after L cid tr' x).returned = s.alloc.returned ++ [(cid, parts)] :=
    AllocHistory.after_returned hx
  have honce := h.reached.once hcall hx
  refine ⟨h.reached.call hcall, ?_, ?_, ?_, h.length_obtained hcall hx⟩
  · rw [hreturned]
    intro y hy
    rcases List.mem_append.mp hy with hy | hy
    · exact List.mem_append_left _ (h.obtained y hy)
    · rw [List.mem_singleton.mp hy]
      exact List.mem_append_right _ (List.mem_singleton_self _)
  · rw [List.map_append]
    refine List.nodup_append.mpr ⟨h.nodup, List.nodup_singleton _, ?_⟩
    intro p hp q hq
    obtain ⟨y, hy, rfl⟩ := List.mem_map.mp hp
    obtain rfl := List.mem_singleton.mp hq
    exact honce _ (h.obtained y hy)
  · rw [h.loses_mapFixed_iff hcall, hreturned, List.forall_mem_append, List.forall_mem_singleton]
    -- the new mapping is behind the new element, and behind no other one
    refine and_congr (forall₂_congr fun y hy => ?_) (iff_of_true ⟨addr, by simp⟩ rfl)
    exact backs_append.trans (or_iff_left (honce y hy))

end Obtaining

/-- **An element is unmapped**, and lost. -/
theorem Account.unmapped (h : Account L cid tr s) {addr : Addr} {parts : VregionParts}
    (hlive : (addr, parts) ∈ s.live) (ok : Bool) :
    Account L cid (tr ++ [⟨.unmap addr, ok⟩])
      { s with live := if ok then s.live.erase (addr, parts) else s.live } := by
  have hcalls : (∀ e : Event vspaceSig, e ∈ tr ++ [⟨.unmap addr, ok⟩] →
      e.call.loses e.resp = false) ↔ (∀ x ∈ s.alloc.returned, s.Backs x.2) ∧ ok = false := by
    rw [List.forall_mem_append, List.forall_mem_singleton, h.backs_iff]
    rfl
  have hlength : s.alloc.returned.length =
      List.countP (fun e : Event vspaceSig => e.call.maps) (tr ++ [⟨.unmap addr, ok⟩]) := by
    rw [List.countP_append, h.length]
    rfl
  cases ok with
  | false => exact ⟨h.reached, h.obtained, h.nodup, (hcalls.trans (and_iff_left rfl)).symm, hlength⟩
  | true =>
    refine ⟨h.reached, fun y hy => h.obtained y (List.mem_of_mem_erase hy),
      h.nodup.sublist (List.erase_sublist.map Prod.snd), ?_, hlength⟩
    rw [hcalls]
    refine iff_of_false (fun hall => ?_) (by simp)
    exact h.not_backs_erase hlive (hall _ (h.obtained _ hlive))

theorem Account.outcome (h : Account L cid tr s) (hout : StepOutcome L cid s tr' s') :
    Account L cid (tr ++ tr') s' := by
  rcases hout with - | ⟨hcall, hx⟩ | ⟨hcall, hx, addr, size, frame, huge, ok⟩ | ⟨hlive, ok⟩
  · rwa [List.append_nil]
  · exact h.noVregion hcall hx
  · cases ok with
    | false => exact h.failed hcall hx
    | true => exact h.mapped hcall hx
  · exact h.unmapped hlive ok

/-- **Every history has its account.** -/
theorem ReachedBy.account (h : ReachedBy L cid tr s) : Account L cid tr s := by
  induction h with
  | init => exact account_init
  | step _ hstep ih => exact ih.outcome hstep.outcome

theorem not_onFreeList_zero {next : Ptr → Ptr} {e : Ptr} : ¬OnFreeList next e 0 := by
  rintro (he | ⟨hvm, -⟩)
  · exact he rfl
  · exact hvm rfl

/-- With nothing on the free list, an element must be behind a mapping. -/
theorem Account.noneLost_iff_backs (h : Account L cid tr s) (next : Ptr → Ptr) :
    s.NoneLost next cid ↔ ∀ x ∈ s.alloc.returned, s.Backs x.2 := by
  refine forall₂_congr fun x _ => or_iff_left ?_
  rw [h.reached.freeList_eq_zero cid]
  exact not_onFreeList_zero

/-- **Every mapping takes a new element**, whether it fails or not. -/
theorem returned_of_reachedBy (h : ReachedBy L cid tr s) :
    (s.alloc.returned.map Prod.snd).Nodup ∧
      s.alloc.returned.length = tr.countP fun e => e.call.maps :=
  ⟨h.account.reached.nodup_returned, h.account.length⟩

end Account

/-! ### Cycles -/

section Runs

variable {L : VregionLayout} {cid : CoreId} {s : FixedMappings} {tr tr' : List (Event vspaceSig)}
  {parts : VregionParts} {st : VregionState} {addr : Addr}

/-- A mapping that gets as far as the vspace library. -/
theorem ReachedBy.mapFixed (h : ReachedBy L cid tr s)
    (hcall : s.alloc.Allocates L cid tr' (some parts, st)) (haddr : addr ≠ 0) {size offset : SizeT}
    {memobj : BarrelfishMemobj} (hmemobj : ¬(memobj.frame = none ∨ memobj.bytes < offset + size))
    (huge ok : Bool) :
    ReachedBy L cid (tr ++ (tr' ++ [⟨.mapFixed addr size memobj.frame huge parts, ok⟩]))
      ⟨s.alloc.after L cid tr' (some parts, st),
        if ok then s.live ++ [(addr, parts)] else s.live⟩ := by
  have hrun : Run (platVmMapFixed L cid addr size memobj offset huge s.alloc.state)
      (tr' ++ [⟨.mapFixed addr size memobj.frame huge parts, ok⟩])
      (.ret ⟨if ok then .ok else .mapFailed, st, some parts⟩) := by
    rw [platVmMapFixed, if_neg hmemobj, if_neg haddr]
    refine hcall.run.bind ?_
    exact Run.perform_bind (S := vspaceSig) (c := .mapFixed addr size memobj.frame huge parts) ok
      (.nil _)
  have hstep := Step.mapFixed hrun (Spec.admits_append hcall.admits ⟨trivial, trivial⟩)
  rw [after_mapFixed] at hstep
  cases ok with
  | false => exact h.step hstep
  | true => exact h.step hstep

/-- A page of a memory object of one page, at 4096. -/
theorem ReachedBy.mapPage (h : ReachedBy L cid tr s)
    (hcall : s.alloc.Allocates L cid tr' (some parts, st)) (ok : Bool) :
    ReachedBy L cid (tr ++ (tr' ++ [⟨.mapFixed 4096 4096 (some 0) false parts, ok⟩]))
      ⟨s.alloc.after L cid tr' (some parts, st),
        if ok then s.live ++ [(4096, parts)] else s.live⟩ := by
  have haddr : (4096 : Addr) ≠ 0 := by decide
  have hmemobj : ¬((⟨some 0, 4096⟩ : BarrelfishMemobj).frame = none ∨
      (⟨some 0, 4096⟩ : BarrelfishMemobj).bytes < 0 + 4096) := by decide
  exact h.mapFixed hcall haddr hmemobj false ok

/-- A mapping is unmapped. -/
theorem ReachedBy.unmap (h : ReachedBy L cid tr s) (hlive : (addr, parts) ∈ s.live) :
    ReachedBy L cid (tr ++ [⟨.unmap addr, true⟩])
      { s with live := s.live.erase (addr, parts) } := by
  have hrun : Run (platVmUnmap addr) [⟨.unmap addr, true⟩] (.ret .ok) :=
    Run.perform_bind (S := vspaceSig) (c := .unmap addr) true (.nil _)
  exact h.step (.unmap hlive hrun)

/-- **Cycles of mapping and unmapping use up elements**: after as many as one likes, nothing is
mapped, and each of them has obtained an element. -/
theorem exists_cycles (L : VregionLayout) (cid : CoreId) (n : ℕ) :
    ∃ tr s, ReachedBy L cid tr s ∧ s.live = [] ∧ (s.alloc.returned.map Prod.snd).Nodup ∧
      s.alloc.returned.length = n := by
  induction n with
  | zero => exact ⟨[], init, .init, rfl, .nil, rfl⟩
  | succ n ih =>
    obtain ⟨tr, s, h, hlive, -, hlength⟩ := ih
    obtain ⟨tr', parts, st, hcall⟩ := h.account.reached.exists_allocates cid
    have hmap := h.mapPage hcall true
    rw [hlive] at hmap
    have hunmap := hmap.unmap (List.mem_singleton_self _)
    refine ⟨_, _, hunmap, ?_, hunmap.account.reached.nodup_returned, ?_⟩
    · exact List.erase_cons_head _ _
    · show (s.alloc.after L cid tr' (some parts, st)).returned.length = n + 1
      rw [AllocHistory.after_returned rfl, List.length_append, hlength]
      rfl

/-! ### When no element is lost -/

/-- **When no element is lost**: as long as no mapping has failed in the vspace library, and none
was unmapped. -/
theorem noneLost_iff (h : ReachedBy L cid tr s) (next : Ptr → Ptr) :
    s.NoneLost next cid ↔ ∀ e ∈ tr, e.call.loses e.resp = false :=
  (h.account.noneLost_iff_backs next).trans h.account.backs_iff

end Runs

/-- The calls of a first mapping on core 3, with a block at 4096. -/
def mapTrace (ok : Bool) : List (Event vspaceSig) :=
  [⟨.malloc layout96.blockSize, (4096 : ℕ)⟩,
    ⟨.mapFixed 4096 4096 (some 0) false (layout96.parts 4096), ok⟩]

theorem reachedBy_mapTrace (ok : Bool) : ReachedBy layout96 3 (mapTrace ok)
    ⟨firstCall, if ok then [(4096, layout96.parts 4096)] else []⟩ :=
  ReachedBy.init.mapPage allocates_firstCall ok

/-- Nothing is lost by the mapping, if it succeeds. -/
theorem noneLost_mapped :
    NoneLost (fun _ => 0) 3 ⟨firstCall, [(4096, layout96.parts 4096)]⟩ :=
  (noneLost_iff (reachedBy_mapTrace true) _).mpr (by simp [mapTrace, VspaceCall.loses])

/-- Its element is lost when it fails, and when it is unmapped. -/
theorem not_noneLost_firstCall : ReachedBy layout96 3 (mapTrace false) ⟨firstCall, []⟩ ∧
    ReachedBy layout96 3 (mapTrace true ++ [⟨.unmap 4096, true⟩]) ⟨firstCall, []⟩ ∧
      ¬NoneLost (fun _ => 0) 3 ⟨firstCall, []⟩ := by
  have hunmapped := (reachedBy_mapTrace true).unmap (List.mem_singleton_self _)
  have herase : [((4096 : Addr), layout96.parts 4096)].erase (4096, layout96.parts 4096) = [] :=
    List.erase_cons_head _ _
  refine ⟨reachedBy_mapTrace false, herase ▸ hunmapped, fun hall => ?_⟩
  rcases hall (3, layout96.parts 4096) (List.mem_singleton_self _) with ⟨addr, hmem⟩ | hfree
  · cases hmem
  · exact not_onFreeList_zero hfree

end FixedMappings

end Barrelfish

end VmopsBench

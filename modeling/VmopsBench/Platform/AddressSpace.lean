import VmopsBench.Platform.Pages

/-!
# What a thread has mapped

The mappings of one thread, as its own calls have made them: which page of which memory object
is behind each of its pages (`VmopsBench.AddressSpace`). A call that reports an error leaves them
as they are. Nothing is said about the pages of the other threads; that they may map
any free address means that an address which the thread has given up may be anybody's.

What is assumed of the kernel is what `mmap` promises
(`VmopsBench.ThreadCall.Answers`): an address that it chooses begins a page, is not `NULL`, and the
pages there were free; and `plat_vm_map_fixed` rejects `NULL` itself.
-/

namespace VmopsBench

open Interact Words

/-- A page of a memory object: the object, and the offset of the page in it. -/
abbrev ObjectPage := PlatMemobj × SizeT

/-- **The pages that a thread has mapped**, with what is behind them. -/
abbrev AddressSpace := Page → Option ObjectPage

namespace AddressSpace

/-- The mapped pages. -/
def mapped (space : AddressSpace) : Set Page := {p | (space p).isSome}

/-- Nothing is mapped. -/
def empty : AddressSpace := fun _ => none

/-- After a range has been mapped. -/
def map (space : AddressSpace) (addr : Addr) (size : SizeT) (memobj : PlatMemobj)
    (offset : SizeT) : AddressSpace := fun p =>
  if p ∈ pagesOf addr size.toNat then
    some (memobj, offset + BitVec.ofNat 64 ((p - pageOf addr).toNat * platArchBasePageSize.toNat))
  else space p

/-- After a range has been unmapped. -/
def unmap (space : AddressSpace) (addr : Addr) (size : SizeT) : AddressSpace := fun p =>
  if p ∈ pagesOf addr size.toNat then none else space p

variable {space : AddressSpace} {addr : Addr}

/-- **Mapping a single page.** -/
theorem map_page (h : Aligned addr) (memobj : PlatMemobj) (offset : SizeT) :
    space.map addr platArchBasePageSize memobj offset =
      Function.update space (pageOf addr) (some (memobj, offset)) := by
  funext p
  have hmem : p ∈ pagesOf addr platArchBasePageSize.toNat ↔ p = pageOf addr := by
    rw [h.pagesOf_page, Set.mem_singleton_iff]
  rw [map]
  by_cases hp : p = pageOf addr
  · rw [if_pos (hmem.mpr hp), hp, Function.update_self, BitVec.sub_self]
    simp
  · rw [if_neg fun hpage => hp (hmem.mp hpage), Function.update_of_ne hp]

/-- **Unmapping a single page.** -/
theorem unmap_page (h : Aligned addr) :
    space.unmap addr platArchBasePageSize = Function.update space (pageOf addr) none := by
  funext p
  have hmem : p ∈ pagesOf addr platArchBasePageSize.toNat ↔ p = pageOf addr := by
    rw [h.pagesOf_page, Set.mem_singleton_iff]
  rw [unmap]
  by_cases hp : p = pageOf addr
  · rw [if_pos (hmem.mpr hp), hp, Function.update_self]
  · rw [if_neg fun hpage => hp (hmem.mp hpage), Function.update_of_ne hp]

end AddressSpace

namespace ThreadCall

/-- **What a call does to the address space.** -/
def onSpace (space : AddressSpace) : (c : ThreadCall) → c.Resp → AddressSpace
  | .vmMap size memobj offset _, r => r.elim space fun addr => space.map addr size memobj offset
  | .vmMapFixed addr size memobj offset _, r =>
    if r then space.map addr size memobj offset else space
  | .vmUnmap addr size, r => if r then space.unmap addr size else space
  | _, _ => space

/-- **What the kernel promises** about its answers. -/
def Answers (space : AddressSpace) : (c : ThreadCall) → c.Resp → Prop
  | .vmMap size .., r => ∀ addr, r = some addr →
    addr ≠ 0 ∧ Aligned addr ∧ ∀ p ∈ pagesOf addr size.toNat, space p = none
  | .vmMapFixed addr .., r => r = true → addr ≠ 0
  | _, _ => True

/-- A call that reports an error leaves the address space as it is. -/
theorem onSpace_of_fails {c : ThreadCall} {r : c.Resp} (h : c.fails r = true)
    (space : AddressSpace) : c.onSpace space r = space := by
  cases c with
  | vmMap => exact congrArg (Option.elim · _ _) (Option.isNone_iff_eq_none.mp h)
  | vmMapFixed | vmUnmap => exact if_neg (by simpa [fails] using h)
  | _ => rfl

/-- A page that is not mapped is not mapped by unmapping another one. -/
theorem onSpace_vmUnmap_eq_none {space : AddressSpace} {p : Page} (h : space p = none)
    (addr : Addr) (size : SizeT) (ok : Bool) : (vmUnmap addr size).onSpace space ok p = none := by
  cases ok with
  | false => exact h
  | true =>
    show space.unmap addr size p = none
    rw [AddressSpace.unmap, h, ite_self]

/-- The range that a call has mapped. -/
def mapsAt : (c : ThreadCall) → c.Resp → Option (Addr × SizeT)
  | .vmMap size .., r => r.map fun addr => (addr, size)
  | .vmMapFixed addr size .., r => if r then some (addr, size) else none
  | _, _ => none

/-- The range that a call is to unmap, whether it succeeds or not. -/
def unmapsAt : ThreadCall → Option (Addr × SizeT)
  | .vmUnmap addr size => some (addr, size)
  | _ => none

end ThreadCall

/-! ### Along a history -/

/-- **The ranges that were mapped**, in order. -/
def obtained (tr : List (Event threadSig)) : List (Addr × SizeT) :=
  tr.filterMap fun e => e.call.mapsAt e.resp

/-- **The ranges that were passed to `plat_vm_unmap`**, in order. -/
def released (tr : List (Event threadSig)) : List (Addr × SizeT) :=
  tr.filterMap fun e => e.call.unmapsAt

/-- The address space after a history. -/
def spaceAfter (tr : List (Event threadSig)) : AddressSpace :=
  tr.foldl (fun space e => e.call.onSpace space e.resp) AddressSpace.empty

section Histories

variable {tr : List (Event threadSig)} {c : ThreadCall} {r : c.Resp}

theorem obtained_append (tr tr' : List (Event threadSig)) :
    obtained (tr ++ tr') = obtained tr ++ obtained tr' := List.filterMap_append

theorem released_append (tr tr' : List (Event threadSig)) :
    released (tr ++ tr') = released tr ++ released tr' := List.filterMap_append

theorem obtained_concat : obtained (tr ++ [⟨c, r⟩]) = obtained tr ++ (c.mapsAt r).toList := by
  rw [obtained_append]
  cases h : c.mapsAt r <;> simp [obtained, h]

theorem released_concat : released (tr ++ [⟨c, r⟩]) = released tr ++ c.unmapsAt.toList := by
  rw [released_append]
  cases h : c.unmapsAt <;> simp [released, h]

theorem spaceAfter_concat : spaceAfter (tr ++ [⟨c, r⟩]) = c.onSpace (spaceAfter tr) r := by
  rw [spaceAfter, List.foldl_append]
  rfl

end Histories

end VmopsBench

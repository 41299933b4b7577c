import VmopsBench.Platform.LinuxMemobj

/-!
# Mapping a memory object on Linux

`plat_vm_map` and `plat_vm_map_fixed` of `linux.c`. Both look at the memory object before they call
`mmap`: it must have a descriptor, and the part that is asked for must lie in it. The end of that
part is computed as an unsigned 64-bit sum, so a large offset could come out at a small end
(`VmopsBench.LinuxMemobj.outOfRange`); a part that lies in the object as numbers go is never turned
down (`VmopsBench.LinuxMemobj.outOfRange_eq_false`). What else `mmap` wants of the address and the
offset, that they begin a page of the size in force, is not looked at.
-/

namespace VmopsBench

/-- `PLAT_ARCH_HUGE_PAGE_SIZE`. -/
abbrev platArchHugePageSize : SizeT := 2097152#64

/-- The page size that a mapping is made with. -/
def mapPageSize (huge : Bool) : ℕ :=
  if huge then platArchHugePageSize.toNat else platArchBasePageSize.toNat

/-- The arguments of an `mmap` that maps a file shared and populates the mapping. `MAP_FIXED` is
given with an address only, and `huge` stands for the flags for huge pages. -/
structure MmapCall where
  addr : Option Addr
  size : SizeT
  huge : Bool
  fd : ℕ
  offset : SizeT

namespace LinuxMemobj

/-- `plat_mobj->size < offset + size`. -/
def outOfRange (platMobj : LinuxMemobj) (size offset : SizeT) : Bool :=
  platMobj.size < offset + size

section Functions

variable (mmap : MmapCall → Option Addr) (platMobj : LinuxMemobj)

/-- `plat_vm_map`. `addr` says whether the pointer for the address is not `NULL`. -/
def platVmMap (addr : Bool) (size offset : SizeT) (huge : Bool) : Except PlatError Addr :=
  if platMobj.fd = 0 ∨ platMobj.outOfRange size offset then .error .argsInvalid
  else if !addr then .error .argsInvalid
  else
    match mmap ⟨none, size, huge, platMobj.fd, offset⟩ with
    | none => .error .mapFailed
    | some mapAddr => .ok mapAddr

/-- `plat_vm_map_fixed`. -/
def platVmMapFixed (addr : Addr) (size offset : SizeT) (huge : Bool) : Except PlatError Unit :=
  if platMobj.fd = 0 ∨ platMobj.outOfRange size offset then .error .argsInvalid
  else if addr = 0 then .error .argsInvalid
  else
    match mmap ⟨some addr, size, huge, platMobj.fd, offset⟩ with
    | none => .error .mapFailed
    | some mapAddr => if mapAddr ≠ addr then .error .mapFailed else .ok ()

end Functions

variable {mmap : MmapCall → Option Addr} {platMobj : LinuxMemobj} {addr : Bool}
  {size offset : SizeT} {huge : Bool}

/-- A mapping that was made has passed the check. -/
theorem outOfRange_of_ok {a : Addr} (h : platMobj.platVmMap mmap addr size offset huge = .ok a) :
    platMobj.outOfRange size offset = false := by
  rw [platVmMap] at h
  split at h
  · cases h
  · next hcheck => exact Bool.eq_false_iff.mpr fun hout => hcheck (.inr hout)

/-- **A part of the memory object passes the check.** -/
theorem outOfRange_eq_false (h : offset.toNat + size.toNat ≤ platMobj.size.toNat) :
    platMobj.outOfRange size offset = false := by
  have hmax := platMobj.size.isLt
  refine decide_eq_false fun hlt => ?_
  have hlt := BitVec.lt_def.mp hlt
  rw [BitVec.toNat_add, Nat.mod_eq_of_lt (by omega)] at hlt
  omega

end LinuxMemobj

end VmopsBench

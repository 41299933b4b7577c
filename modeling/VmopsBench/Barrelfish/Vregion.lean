import VmopsBench.Interact.Spec
import VmopsBench.Order.Bump
import VmopsBench.Platform.Basic

/-!
# The elements that `alloc_vregion` hands out

A mapping at a fixed address needs a `struct vregion` and a memory object of its own, and on
Barrelfish the benchmark brings them. They are the two parts of a `struct vregion_memobj`, and
`alloc_vregion` hands out these elements, on each core from a buffer of the core's own. It gets
room for 2000 of them at a time from `malloc` and goes through the block from the front.

The pointers of a core stand for a `Bump.Stock`: how far it has come in its block, with both
pointers `NULL` when there is none (`VmopsBench.Barrelfish.VregionLayout.bufOf`). Along every
history of calls (`VmopsBench.Barrelfish.AllocHistory.Reached`), on any cores and with any answers
of `malloc`, they keep standing for one (`VmopsBench.Barrelfish.AllocHistory.Represents.step`), and
what was returned on a core is what its stock has handed out. So no element is returned twice
(`VmopsBench.Barrelfish.AllocHistory.handsOutOnce`).
-/

namespace VmopsBench

namespace Barrelfish

open Interact Bump

/-! ### Memory -/

/-- `MAX_CORES`. -/
abbrev maxCores : ℕ := 256

/-- `NUM_VREGION_BUF`. -/
def numVregionBuf : ℕ := 2000

theorem numVregionBuf_pos : 0 < numVregionBuf := Nat.succ_pos _

/-- `coreid_t`, for the cores that the arrays have room for. -/
abbrev CoreId := Fin maxCores

/-- An address, which is 0 for `NULL`. The addresses in a block, and the one behind it, do not
wrap. -/
abbrev Ptr := ℕ

/-- **The layout of `struct vregion_memobj`**: its size, and where `memobj` is. The first member is
`vregion`. -/
structure VregionLayout where
  size : ℕ
  memobj : ℕ
  memobj_lt : memobj < size

/-- The two parts of an element, which are returned by reference. -/
structure VregionParts where
  vregion : Ptr
  memobj : Ptr
  deriving DecidableEq

/-- An entry of `vregion_buf`. The second pointer is `end`. -/
structure VregionBuf where
  buf : Ptr
  bufEnd : Ptr
  deriving DecidableEq

/-- **The state of the allocator**: `vregion_free_list` and `vregion_buf`. -/
structure VregionState where
  vregionFreeList : CoreId → Ptr
  vregionBuf : CoreId → VregionBuf

/-- Everything is zero. -/
def VregionState.zero : VregionState := ⟨fun _ => 0, fun _ => ⟨0, 0⟩⟩

/-- Replace an entry of `vregion_buf`. -/
def VregionState.setBuf (s : VregionState) (cid : CoreId) (vb : VregionBuf) : VregionState :=
  { s with vregionBuf := Function.update s.vregionBuf cid vb }

namespace VregionLayout

variable (L : VregionLayout)

theorem size_pos : 0 < L.size := Nat.zero_lt_of_lt L.memobj_lt

/-- `NUM_VREGION_BUF * sizeof(struct vregion_memobj)`. -/
def blockSize : ℕ := L.size * numVregionBuf

/-- `&vm->vregion` and `&vm->memobj`. -/
def parts (vm : Ptr) : VregionParts := ⟨vm, vm + L.memobj⟩

theorem parts_injective : Function.Injective L.parts := by
  intro vm vm' h
  exact congrArg VregionParts.vregion h

end VregionLayout

/-! ### The function -/

/-- **What the functions for fixed mappings ask for.** -/
inductive VspaceCall where
  | malloc (size : ℕ)
  /-- Reading `vm->vregion.next`. -/
  | loadNext (vm : Ptr)
  /-- `vspace_map_one_frame_one_map_fixed_attr_no_malloc`. -/
  | mapFixed (addr : Addr) (size : SizeT) (frame : Option ℕ) (huge : Bool) (parts : VregionParts)
  /-- `vspace_unmap`. -/
  | unmap (addr : Addr)
  deriving DecidableEq

/-- The calls of the vspace library are answered with whether they have succeeded. -/
abbrev VspaceCall.Resp : VspaceCall → Type
  | .malloc _ | .loadNext _ => Ptr
  | .mapFixed .. | .unmap _ => Bool

/-- The signature of the functions for fixed mappings. -/
abbrev vspaceSig : Sig := ⟨VspaceCall, VspaceCall.Resp⟩

/-- One of these calls. -/
abbrev vspaceCall (c : VspaceCall) : Prog vspaceSig c.Resp := Prog.perform (S := vspaceSig) c

section Functions

variable (L : VregionLayout) (cid : CoreId)

/-- What `alloc_vregion` does when the core has a buffer: it returns the element at `buf`. -/
def handOut (s : VregionState) : Option VregionParts × VregionState :=
  let vb := s.vregionBuf cid
  let buf := vb.buf + L.size
  (some (L.parts vb.buf), s.setBuf cid (if buf = vb.bufEnd then ⟨0, 0⟩ else ⟨buf, vb.bufEnd⟩))

/-- `alloc_vregion` on a core: the element that it returns, or nothing if it returns `-1`, and the
state it leaves. -/
def allocVregion (s : VregionState) : Prog vspaceSig (Option VregionParts × VregionState) :=
  if s.vregionFreeList cid ≠ 0 then do
    let vm := s.vregionFreeList cid
    let next ← vspaceCall (.loadNext vm)
    return (some (L.parts vm),
      { s with vregionFreeList := Function.update s.vregionFreeList cid next })
  else if (s.vregionBuf cid).buf = 0 then do
    let buf ← vspaceCall (.malloc L.blockSize)
    if buf = 0 then return (none, s.setBuf cid { s.vregionBuf cid with buf })
    else return handOut L cid (s.setBuf cid ⟨buf, buf + L.blockSize⟩)
  else return handOut L cid s

end Functions

/-! ### Histories -/

/-- A block that `malloc` returns lies apart from the blocks of the allocator. -/
def VspaceCall.Fresh (L : VregionLayout) (blocks : List (CoreId × Ptr)) :
    (c : VspaceCall) → c.Resp → Prop
  | .malloc _, p => p ≠ 0 → ∀ x ∈ blocks, Apart L.blockSize x.2 p
  | _, _ => True

/-- The block that a call has got for a core. -/
def VspaceCall.obtains (cid : CoreId) : (c : VspaceCall) → c.Resp → List (CoreId × Ptr)
  | .malloc _, p => if p = 0 then [] else [(cid, p)]
  | _, _ => []

/-- **What is assumed of `malloc`** while a function runs on a core: it returns a fresh block or
`NULL`. The ghost state is the blocks of all cores. -/
def mallocs (L : VregionLayout) (cid : CoreId) : Spec vspaceSig (List (CoreId × Ptr)) where
  pre _ _ := True
  env blocks c r := c.Fresh L blocks r
  upd blocks c r := blocks ++ c.obtains cid r

/-- **A history of calls of `alloc_vregion`**: the state it has come to, and in their order the
blocks from `malloc` and the elements that were returned, each with its core. -/
structure AllocHistory where
  state : VregionState
  blocks : List (CoreId × Ptr)
  returned : List (CoreId × VregionParts)

/-- What concerns one core. -/
def ofCore {α : Type} (c : CoreId) (l : List (CoreId × α)) : List α :=
  (l.filter fun x => x.1 = c).map Prod.snd

namespace AllocHistory

/-- There was no call. -/
def init : AllocHistory := ⟨.zero, [], []⟩

/-- A call on a core makes the given calls itself and comes to the given result. -/
structure Allocates (L : VregionLayout) (g : AllocHistory) (cid : CoreId)
    (tr : List (Event vspaceSig)) (x : Option VregionParts × VregionState) : Prop where
  run : Run (allocVregion L cid g.state) tr (.ret x)
  admits : (mallocs L cid).Admits g.blocks tr

/-- The history after such a call. -/
def after (L : VregionLayout) (g : AllocHistory) (cid : CoreId) (tr : List (Event vspaceSig))
    (x : Option VregionParts × VregionState) : AllocHistory where
  state := x.2
  blocks := (mallocs L cid).after g.blocks tr
  returned := g.returned ++ (x.1.map (Prod.mk cid)).toList

/-- **The histories** of calls from any cores. -/
inductive Reached (L : VregionLayout) : AllocHistory → Prop where
  | init : Reached L init
  | call {g : AllocHistory} {cid : CoreId} {tr : List (Event vspaceSig)}
      {x : Option VregionParts × VregionState} (h : Reached L g) (hcall : g.Allocates L cid tr x) :
      Reached L (g.after L cid tr x)

/-- Some of the calls are calls of `malloc`. -/
def AsksMalloc (tr : List (Event vspaceSig)) : Prop := ∃ e ∈ tr, ∃ size, e.call = .malloc size

/-- All elements of a block were returned on a core. -/
def Spent (L : VregionLayout) (g : AllocHistory) (cid : CoreId) (b : Ptr) : Prop :=
  ∀ i < numVregionBuf, (cid, L.parts (slot L.size b i)) ∈ g.returned

end AllocHistory

/-- The pointers are both `NULL`, or there is room between them, for 2000 elements at most. -/
def VregionBuf.Bounded (L : VregionLayout) (vb : VregionBuf) : Prop :=
  vb.buf = 0 ∧ vb.bufEnd = 0 ∨ vb.buf < vb.bufEnd ∧ vb.bufEnd ≤ vb.buf + L.blockSize

/-- **An element is handed out once**: what is to be true of a call after a history. -/
structure AllocHistory.HandsOutOnce (L : VregionLayout) (g : AllocHistory) (cid : CoreId)
    (tr : List (Event vspaceSig)) (x : Option VregionParts × VregionState) : Prop where
  /-- The parts that are returned belong to one element, which is in a block for the core. -/
  element : ∀ parts, x.1 = some parts → ∃ b i, (cid, b) ∈ (g.after L cid tr x).blocks ∧
    i < numVregionBuf ∧ parts = L.parts (slot L.size b i)
  /-- The element was not returned before, on any core. -/
  once : ∀ parts, x.1 = some parts → ∀ y ∈ g.returned, y.2 ≠ parts
  /-- `malloc` is called when the blocks for the core are spent. -/
  malloc : AsksMalloc tr → ∀ b, (cid, b) ∈ g.blocks → g.Spent L cid b
  /-- A block for the core that the element is not taken from is spent. -/
  replaced : ∀ parts, x.1 = some parts → ∀ b, (cid, b) ∈ g.blocks →
    (∀ i < numVregionBuf, parts ≠ L.parts (slot L.size b i)) → g.Spent L cid b
  /-- The other cores are left alone. -/
  others : ∀ c ≠ cid, x.2.vregionFreeList c = g.state.vregionFreeList c ∧
    x.2.vregionBuf c = g.state.vregionBuf c
  /-- So is everything if the call returns `-1`. -/
  failed : x.1 = none → x.2 = g.state
  bounded : ∀ c, (g.state.vregionBuf c).Bounded L ∧ (x.2.vregionBuf c).Bounded L

/-! ### One call -/

section Call

variable {L : VregionLayout} {cid : CoreId} {s : VregionState} {vb vb' : VregionBuf}

@[simp] theorem setBuf_vregionFreeList :
    (s.setBuf cid vb).vregionFreeList = s.vregionFreeList := rfl

@[simp] theorem setBuf_vregionBuf :
    (s.setBuf cid vb).vregionBuf = Function.update s.vregionBuf cid vb := rfl

@[simp] theorem setBuf_setBuf : (s.setBuf cid vb).setBuf cid vb' = s.setBuf cid vb' := by
  simp [VregionState.setBuf]

/-- `NULL` is stored where `NULL` was. -/
theorem setBuf_null (h : (s.vregionBuf cid).buf = 0) :
    s.setBuf cid { s.vregionBuf cid with buf := 0 } = s := by
  rw [VregionState.setBuf, ← h]
  exact congrArg (VregionState.mk s.vregionFreeList) (Function.update_eq_self _ _)

/-- **What a call does without a free list**: it fails, gets a block, or finds one. -/
inductive AllocOutcome (L : VregionLayout) (cid : CoreId) (s : VregionState) :
    Option VregionParts × VregionState → List (Event vspaceSig) → Prop where
  | noMem (hbuf : (s.vregionBuf cid).buf = 0) :
      AllocOutcome L cid s (none, s) [⟨.malloc L.blockSize, (0 : Ptr)⟩]
  | newBlock {p : Ptr} (hp : p ≠ 0) (hbuf : (s.vregionBuf cid).buf = 0) :
      AllocOutcome L cid s (handOut L cid (s.setBuf cid ⟨p, p + L.blockSize⟩))
        [⟨.malloc L.blockSize, p⟩]
  | sameBlock (hbuf : (s.vregionBuf cid).buf ≠ 0) : AllocOutcome L cid s (handOut L cid s) []

theorem allocOutcome_of_run {tr : List (Event vspaceSig)}
    {x : Option VregionParts × VregionState} (hfree : s.vregionFreeList cid = 0)
    (h : Run (allocVregion L cid s) tr (.ret x)) : AllocOutcome L cid s x tr := by
  refine of_run h ?_
  rw [allocVregion, if_neg (not_not.mpr hfree)]
  split
  · next hbuf =>
    refine wp_recording_call fun p => ?_
    split
    · next hnull =>
      obtain rfl : p = (0 : ℕ) := hnull
      rw [setBuf_null hbuf]
      exact .noMem hbuf
    · next hp => exact .newBlock hp hbuf
  · next hbuf => exact .sameBlock hbuf

/-- Every outcome is possible. -/
theorem AllocOutcome.run {tr : List (Event vspaceSig)} {x : Option VregionParts × VregionState}
    (h : AllocOutcome L cid s x tr) (hfree : s.vregionFreeList cid = 0) :
    Run (allocVregion L cid s) tr (.ret x) := by
  rw [allocVregion, if_neg (not_not.mpr hfree)]
  rcases h with hbuf | ⟨hp, hbuf⟩ | hbuf
  · rw [if_pos hbuf]
    refine Run.perform_bind (S := vspaceSig) (c := .malloc L.blockSize) (0 : Ptr) ?_
    rw [if_pos rfl, setBuf_null hbuf]
    exact .nil _
  · next p =>
    rw [if_pos hbuf]
    refine Run.perform_bind (S := vspaceSig) (c := .malloc L.blockSize) p ?_
    rw [if_neg hp]
    exact .nil _
  · rw [if_neg hbuf]
    exact .nil _

end Call

/-! ### What the pointers stand for -/

section OfCore

variable {α β : Type} {c c' : CoreId} {a : α} {l l' : List (CoreId × α)}

theorem mem_ofCore : a ∈ ofCore c l ↔ (c, a) ∈ l := by simp [ofCore]

theorem ofCore_append : ofCore c (l ++ l') = ofCore c l ++ ofCore c l' := by simp [ofCore]

theorem ofCore_self : ofCore c [(c, a)] = [a] := by simp [ofCore]

theorem ofCore_of_ne (h : c' ≠ c) : ofCore c [(c', a)] = [] := by simp [ofCore, h]

end OfCore

/-- **The pointers of a core**, from the block that it has at hand and how many elements of that
were handed out. -/
def VregionLayout.bufOf (L : VregionLayout) : Option (ℕ × ℕ) → VregionBuf
  | none => ⟨0, 0⟩
  | some c => ⟨slot L.size c.1 c.2, c.1 + L.blockSize⟩

section Pointers

variable {L : VregionLayout} {cid : CoreId} {s : VregionState} {st : Stock numVregionBuf}

/-- **The pointers move on** as the stock does. -/
theorem handOut_eq {fresh : ℕ} (h : s.vregionBuf cid = L.bufOf (some (st.next fresh))) :
    handOut L cid s = (some (L.parts (slot L.size (st.next fresh).1 (st.next fresh).2)),
      s.setBuf cid (L.bufOf (st.take numVregionBuf_pos fresh).current)) := by
  have hend : (st.next fresh).1 + L.blockSize = slot L.size (st.next fresh).1 numVregionBuf := rfl
  have hspent : slot L.size (st.next fresh).1 (st.next fresh).2 + L.size =
      (st.next fresh).1 + L.blockSize ↔ (st.next fresh).2 + 1 = numVregionBuf := by
    rw [hend, ← slot_succ]
    exact ⟨slot_inj L.size_pos, congrArg _⟩
  rw [handOut, h, Stock.take_current]
  refine congrArg (Prod.mk _) (congrArg (s.setBuf cid) ?_)
  by_cases hlast : (st.next fresh).2 + 1 = numVregionBuf
  · rw [if_pos hlast]
    exact if_pos (hspent.mpr hlast)
  · rw [if_neg hlast]
    exact (if_neg (hspent.not.mpr hlast)).trans (congrArg (VregionBuf.mk · _) slot_succ.symm)

/-- The first element of a new block. -/
theorem handOut_newBlock (L : VregionLayout) (cid : CoreId) (s : VregionState)
    (hnone : st.current = none) (p : Ptr) :
    handOut L cid (s.setBuf cid ⟨p, p + L.blockSize⟩) =
      (some (L.parts (slot L.size (st.next p).1 (st.next p).2)),
        s.setBuf cid (L.bufOf (st.take numVregionBuf_pos p).current)) := by
  have hnext : st.next p = (p, 0) := by rw [Stock.next, hnone, Option.getD_none]
  have hbuf : (s.setBuf cid ⟨p, p + L.blockSize⟩).vregionBuf cid = L.bufOf (some (st.next p)) := by
    rw [setBuf_vregionBuf, Function.update_self, hnext]
    rfl
  rw [handOut_eq hbuf, setBuf_setBuf]

/-- The next element of the block at hand; the address of a fresh one does not matter. -/
theorem handOut_sameBlock (hsome : st.current ≠ none)
    (hbuf : s.vregionBuf cid = L.bufOf st.current) (fresh : ℕ) :
    handOut L cid s = (some (L.parts (slot L.size (st.next fresh).1 (st.next fresh).2)),
      s.setBuf cid (L.bufOf (st.take numVregionBuf_pos fresh).current)) := by
  obtain ⟨c, hc⟩ := Option.ne_none_iff_exists'.mp hsome
  have hnext : st.next fresh = c := by rw [Stock.next, hc, Option.getD_some]
  refine handOut_eq ?_
  rw [hbuf, hnext, hc]

/-- The pointers are those of a stock, whose blocks are not at 0. -/
theorem bufOf_eq_zero_iff (h : ∀ b ∈ st.blocks, b ≠ 0) :
    (L.bufOf st.current).buf = 0 ↔ st.current = none := by
  cases hc : st.current with
  | none => exact iff_of_true rfl rfl
  | some c =>
    have hne : c.1 ≠ 0 := h c.1 (by simp [Stock.blocks, hc])
    have hle : c.1 ≤ slot L.size c.1 c.2 := Nat.le_add_right _ _
    exact iff_of_false (by show slot L.size c.1 c.2 ≠ 0; omega) (by simp)

/-- **The room between the pointers.** -/
theorem bounded_bufOf : (L.bufOf st.current).Bounded L := by
  cases hc : st.current with
  | none => exact .inl ⟨rfl, rfl⟩
  | some c =>
    obtain ⟨-, hlt⟩ := st.current_lt c hc
    have hin : slot L.size c.1 c.2 + L.size ≤ c.1 + L.blockSize := slot_add_le hlt
    have hle : c.1 ≤ slot L.size c.1 c.2 := Nat.le_add_right _ _
    have hpos := L.size_pos
    refine .inr ⟨?_, ?_⟩
    · show slot L.size c.1 c.2 < c.1 + L.blockSize
      omega
    · show c.1 + L.blockSize ≤ slot L.size c.1 c.2 + L.blockSize
      omega

end Pointers

namespace AllocHistory

/-- **A history and the stocks of the cores.** -/
structure Represents (L : VregionLayout) (g : AllocHistory) (st : CoreId → Stock numVregionBuf) :
    Prop where
  freeList : ∀ c, g.state.vregionFreeList c = 0
  buf : ∀ c, g.state.vregionBuf c = L.bufOf (st c).current
  blocks : ∀ c, ofCore c g.blocks = (st c).blocks
  returned : ∀ c, ofCore c g.returned = ((st c).handed L.size).map L.parts
  apart : g.blocks.Pairwise fun x y => Apart L.blockSize x.2 y.2
  nonnull : ∀ x ∈ g.blocks, x.2 ≠ 0

section Steps

variable {L : VregionLayout} {g g' : AllocHistory} {st : CoreId → Stock numVregionBuf}
  {cid : CoreId}

theorem represents_init : init.Represents L fun _ => Stock.empty numVregionBuf where
  freeList _ := rfl
  buf _ := rfl
  blocks _ := rfl
  returned _ := rfl
  apart := .nil
  nonnull := by simp [init]

/-- **A slot is handed out** by the stock of one core. -/
theorem Represents.taken (h : g.Represents L st) (fresh : ℕ)
    (hstate : g'.state =
      g.state.setBuf cid (L.bufOf ((st cid).take numVregionBuf_pos fresh).current))
    (hblocks : g'.blocks = g.blocks ++ if (st cid).current = none then [(cid, fresh)] else [])
    (hreturned : g'.returned = g.returned ++
      [(cid, L.parts (slot L.size ((st cid).next fresh).1 ((st cid).next fresh).2))])
    (hfresh : (st cid).current = none →
      fresh ≠ 0 ∧ ∀ x ∈ g.blocks, Apart L.blockSize x.2 fresh) :
    g'.Represents L (Function.update st cid ((st cid).take numVregionBuf_pos fresh)) where
  freeList c := by
    rw [hstate]
    exact h.freeList c
  buf c := by
    rw [hstate, setBuf_vregionBuf]
    rcases eq_or_ne c cid with rfl | hne
    · rw [Function.update_self, Function.update_self]
    · rw [Function.update_of_ne hne, Function.update_of_ne hne, h.buf c]
  blocks c := by
    -- the new block, if there is one, is for `cid` only
    rw [hblocks, ofCore_append, h.blocks c]
    rcases eq_or_ne c cid with rfl | hne
    · rw [Function.update_self, Stock.blocks_take]
      split
      · rw [ofCore_self]
      · rfl
    · rw [Function.update_of_ne hne]
      split
      · rw [ofCore_of_ne hne.symm, List.append_nil]
      · exact List.append_nil _
  returned c := by
    rw [hreturned, ofCore_append, h.returned c]
    rcases eq_or_ne c cid with rfl | hne
    · rw [Function.update_self, Stock.handed_take, List.map_append, ofCore_self]
      rfl
    · rw [Function.update_of_ne hne, ofCore_of_ne hne.symm, List.append_nil]
  apart := by
    rw [hblocks]
    split
    · next hnone => exact List.pairwise_append.mpr ⟨h.apart, List.pairwise_singleton _ _,
        fun x hx y hy => List.mem_singleton.mp hy ▸ (hfresh hnone).2 x hx⟩
    · rw [List.append_nil]
      exact h.apart
  nonnull x hx := by
    rw [hblocks] at hx
    rcases List.mem_append.mp hx with hx | hx
    · exact h.nonnull x hx
    · split at hx
      · next hnone =>
        rw [List.mem_singleton.mp hx]
        exact (hfresh hnone).1
      · cases hx

theorem Represents.blocks_ne_zero (h : g.Represents L st) (cid : CoreId) :
    ∀ b ∈ (st cid).blocks, b ≠ 0 := by
  intro b hb
  rw [← h.blocks cid] at hb
  exact h.nonnull _ (mem_ofCore.mp hb)

variable {tr : List (Event vspaceSig)} {x : Option VregionParts × VregionState}

theorem after_returned {parts : VregionParts} (h : x.1 = some parts) :
    (g.after L cid tr x).returned = g.returned ++ [(cid, parts)] := by
  rw [after, h]
  rfl

theorem after_returned_of_none (h : x.1 = none) :
    (g.after L cid tr x).returned = g.returned := by
  rw [after, h]
  exact List.append_nil _

/-- A call for which `malloc` returns a block. -/
theorem allocates_newBlock (hfree : g.state.vregionFreeList cid = 0)
    (hbuf : (g.state.vregionBuf cid).buf = 0) {p : Ptr} (hp : p ≠ 0)
    (hfresh : ∀ y ∈ g.blocks, Apart L.blockSize y.2 p) :
    g.Allocates L cid [⟨.malloc L.blockSize, p⟩]
      (handOut L cid (g.state.setBuf cid ⟨p, p + L.blockSize⟩)) :=
  ⟨(AllocOutcome.newBlock hp hbuf).run hfree, fun _ => hfresh, trivial⟩

/-- A call that finds a block. -/
theorem allocates_sameBlock (hfree : g.state.vregionFreeList cid = 0)
    (hbuf : (g.state.vregionBuf cid).buf ≠ 0) :
    g.Allocates L cid [] (handOut L cid g.state) :=
  ⟨(AllocOutcome.sameBlock hbuf).run hfree, trivial⟩

/-- **One call**: it fails, and then the stock of the core is used up and nothing has changed, or
the stock hands out a slot. -/
theorem Represents.step (h : g.Represents L st) (hcall : g.Allocates L cid tr x) :
    ((st cid).current = none ∧ x = (none, g.state) ∧ g.after L cid tr x = g) ∨
      ∃ fresh, (AsksMalloc tr → (st cid).current = none) ∧
        x.1 = some (L.parts (slot L.size ((st cid).next fresh).1 ((st cid).next fresh).2)) ∧
        (g.after L cid tr x).Represents L
          (Function.update st cid ((st cid).take numVregionBuf_pos fresh)) := by
  obtain ⟨hrun, hadm⟩ := hcall
  have hbuf := bufOf_eq_zero_iff (L := L) (h.blocks_ne_zero cid)
  rw [← h.buf cid] at hbuf
  rcases allocOutcome_of_run (h.freeList cid) hrun with hnull | ⟨hp, hnull⟩ | hsome
  · refine .inl ⟨hbuf.mp hnull, rfl, ?_⟩
    simp [after, mallocs, Spec.after, VspaceCall.obtains]
  · next p =>
    have hnone : (st cid).current = none := hbuf.mp hnull
    have hout := handOut_newBlock L cid g.state hnone p
    have hblocks : (g.after L cid [⟨.malloc L.blockSize, p⟩] (handOut L cid
        (g.state.setBuf cid ⟨p, p + L.blockSize⟩))).blocks = g.blocks ++ [(cid, p)] :=
      congrArg (g.blocks ++ ·) (if_neg hp)
    refine .inr ⟨p, fun _ => hnone, congrArg Prod.fst hout, h.taken p (congrArg Prod.snd hout)
      (hblocks.trans (by rw [if_pos hnone])) (after_returned (congrArg Prod.fst hout))
      fun _ => ⟨hp, hadm.1 hp⟩⟩
  · have hcurrent : (st cid).current ≠ none := hbuf.not.mp hsome
    have hout := handOut_sameBlock hcurrent (h.buf cid) 0
    refine .inr ⟨0, ?_, congrArg Prod.fst hout, h.taken 0 (congrArg Prod.snd hout) ?_
      (after_returned (congrArg Prod.fst hout)) fun hnone => absurd hnone hcurrent⟩
    · -- there are no calls at all
      rintro ⟨e, he, -⟩
      cases he
    · rw [if_neg hcurrent]
      exact (List.append_nil _).symm

theorem Reached.exists_represents (h : Reached L g) : ∃ st, g.Represents L st := by
  induction h with
  | init => exact ⟨_, represents_init⟩
  | call _ hcall ih =>
    obtain ⟨st, hst⟩ := ih
    rcases hst.step hcall with ⟨-, -, hg⟩ | ⟨fresh, -, -, hst'⟩
    · exact ⟨st, hg.symm ▸ hst⟩
    · exact ⟨_, hst'⟩

end Steps

/-! ### Once -/

section Once

variable {L : VregionLayout} {g : AllocHistory} {st : CoreId → Stock numVregionBuf}
  {cid c c' : CoreId} {tr : List (Event vspaceSig)} {x : Option VregionParts × VregionState}
  {b b' : Ptr}

/-- What was returned on a core is what its stock has handed out. -/
theorem Represents.mem_returned_iff (h : g.Represents L st) {e : Ptr} :
    (c, L.parts e) ∈ g.returned ↔ e ∈ (st c).handed L.size := by
  rw [← mem_ofCore, h.returned c, List.mem_map_of_injective L.parts_injective]

theorem Represents.mem_blocks_iff (h : g.Represents L st) :
    (c, b) ∈ g.blocks ↔ b ∈ (st c).blocks := by rw [← mem_ofCore, h.blocks c]

theorem Represents.spent (h : g.Represents L st)
    (hb : slots L.size numVregionBuf b ⊆ (st c).handed L.size) : g.Spent L c b :=
  fun i hi => h.mem_returned_iff.mpr (hb (mem_slots.mpr ⟨i, hi, rfl⟩))

theorem Represents.pairwise_blocks (h : g.Represents L st) (c : CoreId) :
    (st c).blocks.Pairwise (Apart L.blockSize) := by
  rw [← h.blocks c]
  exact List.pairwise_map.mpr (h.apart.sublist List.filter_sublist)

/-- **The blocks of different cores** do not overlap. -/
theorem Represents.apart_of_ne (h : g.Represents L st) (hne : c ≠ c') (hb : b ∈ (st c).blocks)
    (hb' : b' ∈ (st c').blocks) : Apart L.blockSize b b' := by
  have hsymm : Std.Symm fun x y : CoreId × Ptr => Apart L.blockSize x.2 y.2 :=
    ⟨fun _ _ hxy => hxy.symm⟩
  exact h.apart.forall (h.mem_blocks_iff.mpr hb) (h.mem_blocks_iff.mpr hb')
    fun heq => hne (congrArg Prod.fst heq)

/-- **The next element was not returned before.** -/
theorem Represents.notMem_returned {fresh : ℕ} (h : g.Represents L st)
    (h' : (g.after L cid tr x).Represents L
      (Function.update st cid ((st cid).take numVregionBuf_pos fresh))) (c : CoreId) :
    (c, L.parts (slot L.size ((st cid).next fresh).1 ((st cid).next fresh).2)) ∉ g.returned := by
  rw [h.mem_returned_iff]
  rcases eq_or_ne c cid with rfl | hne
  · have hpair := h'.pairwise_blocks c
    rw [Function.update_self] at hpair
    exact Stock.next_notMem_handed L.size_pos numVregionBuf_pos hpair
  · refine Stock.slot_notMem_handed L.size_pos ((st cid).next_lt numVregionBuf_pos fresh) ?_
    intro b' hb'
    refine h'.apart_of_ne hne.symm ?_ ?_
    · rw [Function.update_self]
      exact Stock.next_mem_blocks
    · rwa [Function.update_of_ne hne]

/-- **The state between two calls** that a stock stands for. -/
theorem Represents.bounded (h : g.Represents L st) (c : CoreId) :
    (g.state.vregionBuf c).Bounded L := by
  rw [h.buf c]
  exact bounded_bufOf

theorem Represents.handsOutOnce (h : g.Represents L st) (hcall : g.Allocates L cid tr x) :
    g.HandsOutOnce L cid tr x := by
  rcases h.step hcall with ⟨hnone, rfl, -⟩ | ⟨fresh, hmalloc, hx, h'⟩
  · refine ⟨?_, ?_, fun _ b hb => ?_, ?_, fun _ _ => ⟨rfl, rfl⟩, fun _ => rfl,
      fun c => ⟨h.bounded c, h.bounded c⟩⟩
    · rintro parts ⟨⟩
    · rintro parts ⟨⟩
    · exact h.spent (Stock.slots_subset_handed_of_none hnone (h.mem_blocks_iff.mp hb))
    · rintro parts ⟨⟩
  · have hlt := (st cid).next_lt numVregionBuf_pos fresh
    have hparts : ∀ parts, x.1 = some parts →
        parts = L.parts (slot L.size ((st cid).next fresh).1 ((st cid).next fresh).2) := by
      intro parts hparts
      rw [hx] at hparts
      exact (Option.some_injective _ hparts).symm
    refine ⟨fun parts hp => ?_, fun parts hp y hy heq => ?_, fun hask b hb => ?_,
      fun parts hp b hb hout => ?_, fun c hne => ⟨?_, ?_⟩, fun hp => ?_,
      fun c => ⟨h.bounded c, h'.bounded c⟩⟩
    · refine ⟨_, _, h'.mem_blocks_iff.mpr ?_, hlt, hparts parts hp⟩
      rw [Function.update_self]
      exact Stock.next_mem_blocks
    · refine h.notMem_returned h' y.1 ?_
      rw [← hparts parts hp, ← heq]
      exact hy
    · exact h.spent (Stock.slots_subset_handed_of_none (hmalloc hask) (h.mem_blocks_iff.mp hb))
    · have hne : b ≠ ((st cid).next fresh).1 := by
        rintro rfl
        exact hout _ hlt (hparts parts hp)
      exact h.spent (Stock.slots_subset_handed (h.mem_blocks_iff.mp hb) hne)
    · exact (h'.freeList c).trans (h.freeList c).symm
    · have hbuf := h'.buf c
      rw [Function.update_of_ne hne] at hbuf
      exact hbuf.trans (h.buf c).symm
    · rw [hx] at hp
      cases hp

/-- Nothing is ever on a free list. -/
theorem Reached.freeList_eq_zero (h : Reached L g) (c : CoreId) :
    g.state.vregionFreeList c = 0 := by
  obtain ⟨st, hst⟩ := h.exists_represents
  exact hst.freeList c

theorem Reached.once (h : Reached L g) (hcall : g.Allocates L cid tr x) {parts : VregionParts}
    (hx : x.1 = some parts) : ∀ y ∈ g.returned, y.2 ≠ parts := by
  obtain ⟨st, hst⟩ := h.exists_represents
  exact (hst.handsOutOnce hcall).once parts hx

/-- **A call may succeed** after every history. -/
theorem Reached.exists_allocates (h : Reached L g) (cid : CoreId) :
    ∃ tr parts s', g.Allocates L cid tr (some parts, s') := by
  have hfree := h.freeList_eq_zero cid
  by_cases hbuf : (g.state.vregionBuf cid).buf = 0
  · obtain ⟨p, hp, hapart⟩ := exists_apart L.blockSize (g.blocks.map Prod.snd)
    exact ⟨_, _, _, allocates_newBlock hfree hbuf hp fun y hy =>
      hapart y.2 (List.mem_map.mpr ⟨y, hy, rfl⟩)⟩
  · exact ⟨_, _, _, allocates_sameBlock hfree hbuf⟩

/-- **No element is returned twice.** -/
theorem Reached.nodup_returned (h : Reached L g) : (g.returned.map Prod.snd).Nodup := by
  induction h with
  | init => exact .nil
  | @call g cid tr x h hcall ih =>
    show ((g.returned ++ (x.1.map (Prod.mk cid)).toList).map Prod.snd).Nodup
    cases hx : x.1 with
    | none => simpa using ih
    | some parts =>
      rw [List.map_append]
      refine List.nodup_append.mpr ⟨ih, List.nodup_singleton _, ?_⟩
      intro p hp q hq heq
      obtain ⟨y, hy, hyp⟩ := List.mem_map.mp hp
      obtain rfl : q = parts := by simpa using hq
      exact h.once hcall hx y hy (hyp.trans heq)

/-- **`alloc_vregion` hands out each element once.** -/
theorem elements_once (h : Reached L g) (hcall : g.Allocates L cid tr x) :
    g.HandsOutOnce L cid tr x ∧ ((g.after L cid tr x).returned.map Prod.snd).Nodup := by
  obtain ⟨st, hst⟩ := h.exists_represents
  exact ⟨hst.handsOutOnce hcall, (h.call hcall).nodup_returned⟩

end Once

/-- Elements of 96 bytes. -/
def layout96 : VregionLayout := ⟨96, 64, by omega⟩

/-- Core 3 has an untouched block at 4096. -/
def withBlock : VregionState := VregionState.zero.setBuf 3 ⟨4096, 4096 + layout96.blockSize⟩

/-- A call on core 3, which has got this block. -/
def firstCall : AllocHistory :=
  init.after layout96 3 [⟨.malloc layout96.blockSize, (4096 : ℕ)⟩] (handOut layout96 3 withBlock)

theorem allocates_firstCall : init.Allocates layout96 3
    [⟨.malloc layout96.blockSize, (4096 : ℕ)⟩] (handOut layout96 3 withBlock) :=
  allocates_newBlock rfl rfl (Nat.succ_ne_zero _) (by simp [init])

theorem reached_firstCall : Reached layout96 firstCall := .call .init allocates_firstCall

/-- The second call on core 3. -/
theorem elements_once_secondCall :
    firstCall.HandsOutOnce layout96 3 [] (handOut layout96 3 firstCall.state) ∧
      ((firstCall.after layout96 3 [] (handOut layout96 3 firstCall.state)).returned.map
        Prod.snd).Nodup :=
  elements_once reached_firstCall (allocates_sameBlock rfl (by decide))

end AllocHistory

end Barrelfish

end VmopsBench

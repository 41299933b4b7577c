import VmopsBench.Barrelfish.FixedMappings

/-!
# Memory objects on Barrelfish

`plat_vm_create` and `plat_vm_destroy` of `barrelfish.c`. A memory object is a frame, and what is
kept of the frame is a copy of its capability: in the CNode that `plat_init` has made for memory
objects, in the slot of the counter `memobj_slot`, which nothing ever decreases. What `malloc`,
`frame_alloc`, `frame_identify` and `cap_copy` answer is not determined, except that what is new is
new, and that nothing is copied to a slot which the CNode does not have.

Each live memory object ought to have a slot of the CNode for itself, with a capability of its frame
in it (`VmopsBench.Barrelfish.MemobjState.Valid`), and a creation that has failed ought to say so
and to leave the capabilities as they were (`VmopsBench.Barrelfish.MemobjCall.Reports`). But when
`cap_copy` fails, there is a message and no more. By `VmopsBench.Barrelfish.memobjs_valid_iff` a
history is as it ought to be if and only if this never happens in it, and by
`VmopsBench.Barrelfish.countP_reachesCopy_le` it must happen at some time: memory objects may be
destroyed, and still there are no more creations than slots.
-/

namespace VmopsBench

namespace Barrelfish

/-! ### Values of the library -/

/-- The value of an error. -/
def errorCode : PlatError → BitVec 32
  | .ok => 0
  | .argsInvalid => 1
  | .initFailed => 2
  | .noMem => 3
  | .memobjCreate => 4
  | .memobjSize => 5
  | .mapFailed => 6
  | .protectFailed => 7
  | .unmapFailed => 8
  | .threadCreate => 9
  | .threadJoin => 10
  | .fileOpen => 11
  | .barrier => 12

theorem errorCode_ne (err : PlatError) (h : err ≠ .ok) : errorCode err ≠ errorCode .ok := by
  cases err <;> first | exact absurd rfl h | decide

/-- `errval_t`, a stack of error numbers of ten bits each. -/
abbrev Errval := BitVec 64

/-- **What is known of `libbarrelfish`**: a value that is a failure has an error number on top that
is not that of success, and `L2_CNODE_SLOTS` is a number that a `cslot_t` can have. -/
structure CapLibrary where
  errIsFail : Errval → Bool
  errNo_ne : ∀ err : Errval, errIsFail err = true → err.toNat % 1024 ≠ 0
  cnodeSlots : ℕ
  cnodeSlots_lt : cnodeSlots < 2 ^ 32

/-- The failures of the library. -/
abbrev CapLibrary.Failure (L : CapLibrary) := {err : Errval // L.errIsFail err = true}

/-- A failure as a `plat_error_t`, which is narrower. -/
def CapLibrary.Failure.toCode {L : CapLibrary} (err : L.Failure) : BitVec 32 := err.val.setWidth 32

theorem CapLibrary.Failure.toCode_ne {L : CapLibrary} (err : L.Failure) :
    CapLibrary.Failure.toCode err ≠ errorCode .ok := by
  intro h
  have hlow : err.val.toNat % 2 ^ 32 = 0 :=
    (BitVec.toNat_setWidth 32 err.val).symm.trans (congrArg BitVec.toNat h)
  refine L.errNo_ne err.val err.property ?_
  omega

/-- A frame, by its base. -/
abbrev Frame := ℕ

/-- **A slot for a capability**: one of the slot allocator, or one of the CNode for memory
objects. -/
inductive CapRef where
  | allocated (n : ℕ)
  | memobj (slot : ℕ)
  deriving DecidableEq

/-- A live memory object, together with the frame that was allocated for it. -/
structure LiveMemobj where
  memobj : BarrelfishMemobj
  backing : Frame

/-- **The process**, as far as memory objects are concerned: `memobj_slot`, the live memory objects
by their handles, and the capabilities of frames in its slots. -/
structure MemobjState where
  memobjSlot : BitVec 32
  memobjs : PlatMemobj → Option LiveMemobj
  caps : CapRef → Option Frame

namespace MemobjState

/-- A process that has not created a memory object. -/
def init : MemobjState := ⟨0, fun _ => none, fun _ => none⟩

variable (s : MemobjState)

/-- `cap_destroy`. -/
def capDestroy (ref : CapRef) : MemobjState :=
  { s with caps := Function.update s.caps ref none }

/-- `frame_alloc`, when it succeeds. -/
def frameAlloc (ref : CapRef) (frame : Frame) : MemobjState :=
  { s with caps := Function.update s.caps ref (some frame) }

/-- `cap_copy`, when it succeeds. -/
def capCopy (dest src : CapRef) : MemobjState :=
  { s with caps := Function.update s.caps dest (s.caps src) }

end MemobjState

/-- What the C library and `libbarrelfish` answer during one `plat_vm_create`. -/
structure CapAnswers (L : CapLibrary) where
  malloc : Option PlatMemobj
  /-- The slot that is allocated for the capability, and the frame. -/
  frameAlloc : SizeT → Except L.Failure (ℕ × Frame)
  /-- The size of the frame. -/
  frameIdentify : Except L.Failure SizeT
  capCopy : Except L.Failure Unit

/-! ### The two functions -/

section Functions

variable {L : CapLibrary} (ans : CapAnswers L) (path : Option (List Char)) (memobj : Bool)
  (size : SizeT) (s : MemobjState)

/-- `plat_vm_create`: the value it returns, and what it leaves. `path` may be `NULL`, and `memobj`
says whether the pointer for the handle is not; nothing depends on `huge`. The `plat_error_t` that
the error paths prepare is not what they return. -/
def platVmCreate : BitVec 32 × MemobjState :=
  if memobj && path.isSome then
    match ans.malloc with
    | none => (errorCode .noMem, s)
    | some platMobj =>
      match ans.frameAlloc size with
      -- `err_out_1`: the block is freed
      | .error err => (CapLibrary.Failure.toCode err, s)
      | .ok (n, backing) =>
        let frame := CapRef.allocated n
        let s₁ := s.frameAlloc frame backing
        match ans.frameIdentify with
        -- `err_out_2`: the capability is destroyed, and the block is freed
        | .error err => (CapLibrary.Failure.toCode err, s₁.capDestroy frame)
        | .ok bytes =>
          let slot := s₁.memobjSlot.toNat
          let s₂ := { s₁ with memobjSlot := s₁.memobjSlot + 1 }
          let s₃ :=
            match ans.capCopy with
            -- `DEBUG_ERR`
            | .error _ => s₂
            | .ok () => s₂.capCopy (.memobj slot) frame
          (errorCode .ok,
            { s₃.capDestroy frame with
              memobjs := Function.update s.memobjs platMobj (some ⟨⟨some slot, bytes⟩, backing⟩) })
  else (errorCode .argsInvalid, s)

/-- `plat_vm_destroy`: a capability that is not null is destroyed, and the block is cleared and
freed. -/
def platVmDestroy (platMobj : PlatMemobj) : MemobjState :=
  let s' :=
    match (s.memobjs platMobj).bind fun obj => obj.memobj.frame with
    | none => s
    | some slot => s.capDestroy (.memobj slot)
  { s' with memobjs := Function.update s.memobjs platMobj none }

end Functions

/-! ### Histories -/

/-- A call of one of the two functions. -/
inductive MemobjCall (L : CapLibrary) where
  | create (ans : CapAnswers L) (path : Option (List Char)) (memobj : Bool) (size : SizeT)
  | destroy (platMobj : PlatMemobj)

namespace MemobjCall

variable {L : CapLibrary}

/-- The state after a call. -/
def apply : MemobjCall L → MemobjState → MemobjState
  | .create ans path memobj size, s => (platVmCreate ans path memobj size s).2
  | .destroy platMobj, s => platVmDestroy s platMobj

/-- **The call is possible in a state**: blocks, slots of the slot allocator and frames are new,
`cap_copy` fails for a slot that the CNode does not have, and what is destroyed is live. -/
def Possible (s : MemobjState) : MemobjCall L → Prop
  | .create ans _ _ _ =>
    (∀ platMobj, ans.malloc = some platMobj → s.memobjs platMobj = none) ∧
      (∀ size n backing, ans.frameAlloc size = .ok (n, backing) →
        s.caps (.allocated n) = none ∧ ∀ ref, s.caps ref ≠ some backing) ∧
      (ans.capCopy = .ok () → s.memobjSlot.toNat < L.cnodeSlots)
  | .destroy platMobj => (s.memobjs platMobj).isSome = true

/-- The call creates a memory object, and goes as far as `cap_copy`. -/
def reachesCopy : MemobjCall L → Bool
  | .create ans path memobj size =>
    memobj && path.isSome && ans.malloc.isSome && (ans.frameAlloc size).isOk &&
      ans.frameIdentify.isOk
  | .destroy _ => false

/-- The call creates a memory object, and `cap_copy` fails. -/
def copyFails : MemobjCall L → Bool
  | .create ans path memobj size =>
    (create ans path memobj size).reachesCopy && !ans.capCopy.isOk
  | .destroy _ => false

/-- The call is a creation that fails: its arguments are not valid, or one of the calls it makes
has failed. -/
def createFails : MemobjCall L → Bool
  | .create ans path memobj size =>
    !(create ans path memobj size).reachesCopy || !ans.capCopy.isOk
  | .destroy _ => false

/-- **A creation that fails says so**, and leaves the capabilities as they were. -/
def Reports (s : MemobjState) : MemobjCall L → Prop
  | .create ans path memobj size =>
    (create ans path memobj size).createFails = true →
      (platVmCreate ans path memobj size s).1 ≠ errorCode .ok ∧
        (platVmCreate ans path memobj size s).2.caps = s.caps
  | .destroy _ => True

end MemobjCall

/-- **The states that are reached by some calls**, in this order. -/
inductive MemobjState.ReachedBy (L : CapLibrary) : List (MemobjCall L) → MemobjState → Prop where
  | init : ReachedBy L [] init
  | step {calls : List (MemobjCall L)} {s : MemobjState} {call : MemobjCall L}
      (h : ReachedBy L calls s) (hcall : call.Possible s) :
      ReachedBy L (calls ++ [call]) (call.apply s)

/-- **The live memory objects have valid capabilities**, each one its own: a slot of the CNode that
no other has, with a capability of the frame that was allocated for it. -/
structure MemobjState.Valid (L : CapLibrary) (s : MemobjState) : Prop where
  holds : ∀ platMobj obj, s.memobjs platMobj = some obj → ∃ slot < L.cnodeSlots,
    obj.memobj.frame = some slot ∧ s.caps (.memobj slot) = some obj.backing
  own : ∀ platMobj platMobj' obj obj', s.memobjs platMobj = some obj →
    s.memobjs platMobj' = some obj' → obj.memobj.frame = obj'.memobj.frame → platMobj = platMobj'

/-! ### What a call can do -/

section Step

variable {L : CapLibrary} {s : MemobjState} {calls : List (MemobjCall L)} {call : MemobjCall L}

/-- The state after a creation that has gone as far as `cap_copy`, with or without the copy. -/
def MemobjState.created (s : MemobjState) (platMobj : PlatMemobj) (bytes : SizeT) (backing : Frame)
    (copied : Bool) : MemobjState where
  memobjSlot := s.memobjSlot + 1
  memobjs := Function.update s.memobjs platMobj (some ⟨⟨some s.memobjSlot.toNat, bytes⟩, backing⟩)
  caps := if copied then Function.update s.caps (.memobj s.memobjSlot.toNat) (some backing)
    else s.caps

/-- The capability of a new frame is destroyed before anything was copied. -/
theorem update_allocated {caps : CapRef → Option Frame} {n : ℕ}
    (hfree : caps (.allocated n) = none) (backing : Frame) :
    Function.update (Function.update caps (.allocated n) (some backing)) (.allocated n) none =
      caps := by
  rw [Function.update_idem, ← hfree, Function.update_eq_self]

/-- The capability of a new frame is destroyed after it was copied. -/
theorem update_copied {caps : CapRef → Option Frame} {n : ℕ} (hfree : caps (.allocated n) = none)
    (slot : ℕ) (backing : Frame) :
    let caps' := Function.update caps (.allocated n) (some backing)
    Function.update (Function.update caps' (.memobj slot) (caps' (.allocated n))) (.allocated n)
        none = Function.update caps (.memobj slot) (some backing) := by
  have hne : CapRef.memobj slot ≠ .allocated n := nofun
  dsimp only
  rw [Function.update_self, Function.update_comm hne, update_allocated hfree]

/-- **What `plat_vm_create` can do**: fail, say so and change nothing, or go as far as `cap_copy`
and say that all is well. -/
theorem platVmCreate_outcome {ans : CapAnswers L} {path : Option (List Char)} {memobj : Bool}
    {size : SizeT} (hcall : (MemobjCall.create ans path memobj size).Possible s) :
    ((MemobjCall.create ans path memobj size).reachesCopy = false ∧
      (platVmCreate ans path memobj size s).1 ≠ errorCode .ok ∧
      (platVmCreate ans path memobj size s).2 = s) ∨
    ∃ platMobj n backing bytes, ans.malloc = some platMobj ∧
      ans.frameAlloc size = .ok (n, backing) ∧
      (MemobjCall.create ans path memobj size).reachesCopy = true ∧
      platVmCreate ans path memobj size s =
        (errorCode .ok, s.created platMobj bytes backing ans.capCopy.isOk) := by
  rw [MemobjCall.reachesCopy, platVmCreate]
  cases memobj && path.isSome with
  | false => exact Or.inl ⟨rfl, errorCode_ne .argsInvalid nofun, rfl⟩
  | true =>
    cases hmalloc : ans.malloc with
    | none => exact Or.inl ⟨rfl, errorCode_ne .noMem nofun, rfl⟩
    | some platMobj =>
      cases hframe : ans.frameAlloc size with
      | error err => exact Or.inl ⟨rfl, CapLibrary.Failure.toCode_ne err, rfl⟩
      | ok x =>
        obtain ⟨n, backing⟩ := x
        obtain ⟨hfree, -⟩ := hcall.2.1 size n backing hframe
        cases ans.frameIdentify with
        | error err =>
          refine Or.inl ⟨rfl, CapLibrary.Failure.toCode_ne err, ?_⟩
          exact congrArg (MemobjState.mk _ _) (update_allocated hfree backing)
        | ok bytes =>
          refine Or.inr ⟨platMobj, n, backing, bytes, rfl, rfl, rfl, ?_⟩
          refine congrArg (Prod.mk _) ?_
          cases ans.capCopy with
          | error err => exact congrArg (MemobjState.mk _ _) (update_allocated hfree backing)
          | ok _ => exact congrArg (MemobjState.mk _ _) (update_copied hfree _ backing)

/-- **The account of the slots**: as many were taken as creations went as far as `cap_copy`, and the
live memory objects are in some of these. -/
structure MemobjState.Account (L : CapLibrary) (calls : List (MemobjCall L)) (s : MemobjState) :
    Prop where
  valid : s.Valid L
  taken : ∀ platMobj obj slot, s.memobjs platMobj = some obj → obj.memobj.frame = some slot →
    slot < s.memobjSlot.toNat
  memobjSlot_eq : s.memobjSlot.toNat = calls.countP MemobjCall.reachesCopy
  memobjSlot_le : s.memobjSlot.toNat ≤ L.cnodeSlots

/-- What is live once there is one more memory object. -/
theorem memobjs_created {platMobj m : PlatMemobj} {bytes : SizeT} {backing : Frame} {copied : Bool}
    {obj : LiveMemobj} (h : (s.created platMobj bytes backing copied).memobjs m = some obj) :
    m = platMobj ∧ obj = ⟨⟨some s.memobjSlot.toNat, bytes⟩, backing⟩ ∨
      m ≠ platMobj ∧ s.memobjs m = some obj := by
  rcases eq_or_ne m platMobj with rfl | hne
  · have heq := (Function.update_self m _ s.memobjs).symm.trans h
    exact Or.inl ⟨rfl, (Option.some.inj heq).symm⟩
  · exact Or.inr ⟨hne, (Function.update_of_ne hne _ _).symm.trans h⟩

/-- **A memory object is created**, and its capability was copied. -/
theorem MemobjState.Account.create (h : s.Account L calls) {platMobj : PlatMemobj} {bytes : SizeT}
    {backing : Frame} (hslot : s.memobjSlot.toNat < L.cnodeSlots)
    (hreach : call.reachesCopy = true) :
    (s.created platMobj bytes backing true).Account L (calls ++ [call]) := by
  have hnext : (s.memobjSlot + 1).toNat = s.memobjSlot.toNat + 1 := by
    rw [BitVec.toNat_add]
    exact Nat.mod_eq_of_lt (by have := L.cnodeSlots_lt; simp; omega)
  have hold : ∀ slot ≠ s.memobjSlot.toNat,
      (s.created platMobj bytes backing true).caps (.memobj slot) = s.caps (.memobj slot) := by
    intro slot hne
    exact Function.update_of_ne (fun heq => hne (CapRef.memobj.inj heq)) _ _
  refine ⟨⟨fun m obj hm => ?_, fun m m' obj obj' hm hm' heq => ?_⟩,
    fun m obj slot hm hobj => ?_, ?_, ?_⟩
  · rcases memobjs_created hm with ⟨-, rfl⟩ | ⟨-, hm⟩
    · exact ⟨_, hslot, rfl, Function.update_self _ _ _⟩
    · obtain ⟨slot, hlt, hobj, hcap⟩ := h.valid.holds m obj hm
      exact ⟨slot, hlt, hobj, (hold slot (h.taken m obj slot hm hobj).ne).trans hcap⟩
  · rcases memobjs_created hm with ⟨rfl, rfl⟩ | ⟨-, hold₁⟩ <;>
      rcases memobjs_created hm' with ⟨rfl, rfl⟩ | ⟨-, hold₂⟩
    · rfl
    · exact absurd (h.taken m' obj' _ hold₂ heq.symm) (lt_irrefl _)
    · exact absurd (h.taken m obj _ hold₁ heq) (lt_irrefl _)
    · exact h.valid.own m m' obj obj' hold₁ hold₂ heq
  · refine lt_of_lt_of_eq ?_ hnext.symm
    rcases memobjs_created hm with ⟨-, rfl⟩ | ⟨-, hm⟩
    · obtain rfl := Option.some.inj hobj
      exact Nat.lt_succ_self _
    · exact Nat.lt_succ_of_lt (h.taken m obj slot hm hobj)
  · rw [List.countP_append, List.countP_singleton, if_pos hreach, ← h.memobjSlot_eq]
    exact hnext
  · exact hnext.trans_le hslot

/-- What is live once a memory object was destroyed. -/
theorem memobjs_destroy {platMobj m : PlatMemobj} {obj : LiveMemobj}
    (h : (platVmDestroy s platMobj).memobjs m = some obj) :
    m ≠ platMobj ∧ s.memobjs m = some obj := by
  rcases eq_or_ne m platMobj with rfl | hne
  · cases (Function.update_self m _ s.memobjs).symm.trans h
  · exact ⟨hne, (Function.update_of_ne hne _ _).symm.trans h⟩

/-- **A memory object is destroyed.** -/
theorem MemobjState.Account.destroy (h : s.Account L calls) {platMobj : PlatMemobj}
    (hlive : (s.memobjs platMobj).isSome = true) :
    (platVmDestroy s platMobj).Account L (calls ++ [.destroy platMobj]) := by
  obtain ⟨gone, hgone⟩ := Option.isSome_iff_exists.mp hlive
  obtain ⟨slot₀, -, hslot₀, -⟩ := h.valid.holds platMobj gone hgone
  have hstate : platVmDestroy s platMobj =
      { s.capDestroy (.memobj slot₀) with
        memobjs := Function.update s.memobjs platMobj none } := by
    simp [platVmDestroy, hgone, hslot₀]
  have hsame : (platVmDestroy s platMobj).memobjSlot = s.memobjSlot := by rw [hstate]; rfl
  refine ⟨⟨fun m obj hm => ?_, fun m m' obj obj' hm hm' heq => ?_⟩,
    fun m obj slot hm hobj => ?_, ?_, ?_⟩
  · obtain ⟨hne, hm⟩ := memobjs_destroy hm
    obtain ⟨slot, hlt, hobj, hcap⟩ := h.valid.holds m obj hm
    have hother : CapRef.memobj slot ≠ .memobj slot₀ := by
      rintro ⟨⟩
      exact hne (h.valid.own m platMobj obj gone hm hgone (hobj.trans hslot₀.symm))
    refine ⟨slot, hlt, hobj, ?_⟩
    rw [hstate]
    exact (Function.update_of_ne hother _ _).trans hcap
  · exact h.valid.own m m' obj obj' (memobjs_destroy hm).2 (memobjs_destroy hm').2 heq
  · rw [hsame]
    exact h.taken m obj slot (memobjs_destroy hm).2 hobj
  · rw [hsame, h.memobjSlot_eq, List.countP_append]
    rfl
  · rw [hsame]
    exact h.memobjSlot_le

/-- **One call** in which `cap_copy` does not fail keeps the account. -/
theorem MemobjState.Account.apply (h : s.Account L calls) (hcall : call.Possible s)
    (hcopy : call.copyFails = false) : (call.apply s).Account L (calls ++ [call]) := by
  cases call with
  | destroy platMobj => exact h.destroy hcall
  | create ans path memobj size =>
    rcases platVmCreate_outcome hcall with
      ⟨hreach, -, heq⟩ | ⟨platMobj, n, backing, bytes, -, -, hreach, heq⟩
    · have hcount : (calls ++ [MemobjCall.create ans path memobj size]).countP
          MemobjCall.reachesCopy = calls.countP MemobjCall.reachesCopy := by
        rw [List.countP_append, List.countP_singleton, hreach]
        rfl
      rw [MemobjCall.apply, heq]
      exact ⟨h.valid, h.taken, h.memobjSlot_eq.trans hcount.symm, h.memobjSlot_le⟩
    · have hok : ans.capCopy.isOk = true := by
        rw [MemobjCall.copyFails, hreach] at hcopy
        simpa using hcopy
      have hslot : s.memobjSlot.toNat < L.cnodeSlots := by
        refine hcall.2.2 ?_
        cases hans : ans.capCopy with
        | error err => rw [hans] at hok; cases hok
        | ok _ => rfl
      rw [MemobjCall.apply, heq, hok]
      exact h.create hslot hreach

/-- **A creation reports** that it fails, unless it is `cap_copy` that fails. -/
theorem MemobjCall.reports_iff (hcall : call.Possible s) :
    call.Reports s ↔ call.copyFails = false := by
  cases call with
  | destroy platMobj => exact iff_of_true trivial rfl
  | create ans path memobj size =>
    rw [MemobjCall.Reports, MemobjCall.createFails, MemobjCall.copyFails]
    rcases platVmCreate_outcome hcall with
      ⟨hreach, hcode, heq⟩ | ⟨platMobj, n, backing, bytes, -, -, hreach, heq⟩
    · rw [hreach]
      exact iff_of_true (fun _ => ⟨hcode, congrArg MemobjState.caps heq⟩) rfl
    · rw [hreach, heq]
      simp

/-- **After a `cap_copy` that has failed** a live memory object has no capability of its frame. -/
theorem MemobjCall.not_valid_apply (hcall : call.Possible s) (hcopy : call.copyFails = true) :
    ¬(call.apply s).Valid L := by
  cases call with
  | destroy platMobj => cases hcopy
  | create ans path memobj size =>
    rw [MemobjCall.copyFails] at hcopy
    obtain ⟨hreached, herr⟩ := Bool.and_eq_true_iff.mp hcopy
    rcases platVmCreate_outcome hcall with
      ⟨hreach, -, -⟩ | ⟨platMobj, n, backing, bytes, -, hframe, -, heq⟩
    · rw [hreached] at hreach
      cases hreach
    · intro hvalid
      have hstate : (MemobjCall.create ans path memobj size).apply s =
          s.created platMobj bytes backing false := by
        rw [MemobjCall.apply, heq, Bool.not_eq_eq_eq_not.mp herr]
        rfl
      rw [hstate] at hvalid
      obtain ⟨slot, -, -, hcap⟩ := hvalid.holds platMobj _ (Function.update_self _ _ _)
      -- the frame is new, so there was no capability of it
      exact (hcall.2.1 size n backing hframe).2 (.memobj slot) hcap

end Step

/-! ### Whole histories -/

section Histories

variable {L : CapLibrary} {calls calls' : List (MemobjCall L)} {s s' : MemobjState}

namespace MemobjState

theorem ReachedBy.eq_foldl (h : ReachedBy L calls s) :
    s = calls.foldl (fun s call => call.apply s) MemobjState.init := by
  induction h with
  | init => rfl
  | step _ _ ih => rw [List.foldl_append, ← ih]; rfl

theorem ReachedBy.unique (h : ReachedBy L calls s) (h' : ReachedBy L calls s') : s = s' :=
  h.eq_foldl.trans h'.eq_foldl.symm

/-- The last of the calls. -/
theorem ReachedBy.last {call : MemobjCall L} (h : ReachedBy L (calls ++ [call]) s') :
    ∃ s, ReachedBy L calls s ∧ call.Possible s ∧ s' = call.apply s := by
  generalize hcalls : calls ++ [call] = all at h
  cases h with
  | init => simp at hcalls
  | step h hcall =>
    obtain ⟨rfl, hlast⟩ := List.append_inj' hcalls rfl
    obtain rfl := List.singleton_inj.mp hlast
    exact ⟨_, h, hcall, rfl⟩

/-- The first of the calls. -/
theorem ReachedBy.exists_of_isPrefix (h : ReachedBy L calls s) (hfirst : calls' <+: calls) :
    ∃ s', ReachedBy L calls' s' := by
  induction h with
  | init =>
    obtain rfl := List.prefix_nil.mp hfirst
    exact ⟨_, .init⟩
  | step h hcall ih =>
    rcases List.prefix_concat_iff.mp hfirst with rfl | hfirst
    · exact ⟨_, h.step hcall⟩
    · exact ih hfirst

/-- **The account of a history** in which no `cap_copy` has failed. -/
theorem ReachedBy.account (h : ReachedBy L calls s)
    (hcopies : ∀ call ∈ calls, call.copyFails = false) : s.Account L calls := by
  induction h with
  | init => exact ⟨⟨nofun, nofun⟩, nofun, rfl, Nat.zero_le _⟩
  | step _ hcall ih =>
    obtain ⟨hbefore, hlast⟩ := List.forall_mem_append.mp hcopies
    exact (ih hbefore).apply hcall (hlast _ (List.mem_singleton_self _))

end MemobjState

/-- **No more creations than slots** go as far as `cap_copy` before it fails, whatever is
destroyed. -/
theorem countP_reachesCopy_le (h : MemobjState.ReachedBy L calls s)
    (hcopies : ∀ call ∈ calls, call.copyFails = false) :
    calls.countP MemobjCall.reachesCopy ≤ L.cnodeSlots := by
  have haccount := h.account hcopies
  exact haccount.memobjSlot_eq.symm.trans_le haccount.memobjSlot_le

/-- **A history is as it ought to be**: in every state on the way the live memory objects have valid
capabilities, and every creation that fails says so and leaves the capabilities as they were. -/
def Behaves (L : CapLibrary) (calls : List (MemobjCall L)) : Prop :=
  ∀ calls' s', calls' <+: calls → MemobjState.ReachedBy L calls' s' →
    s'.Valid L ∧ ∀ call, calls' ++ [call] <+: calls → call.Reports s'

/-- **When a history is as it ought to be**: if and only if no `cap_copy` fails in it. -/
theorem memobjs_valid_iff (h : MemobjState.ReachedBy L calls s) :
    Behaves L calls ↔ ∀ call ∈ calls, call.copyFails = false := by
  constructor
  · intro hbehaves call hmem
    obtain ⟨before, after, rfl⟩ := List.append_of_mem hmem
    have hfirst : before ++ [call] <+: before ++ call :: after := ⟨after, by simp⟩
    obtain ⟨s₂, h₂⟩ := h.exists_of_isPrefix hfirst
    obtain ⟨s₁, -, hcall, rfl⟩ := h₂.last
    obtain ⟨hvalid, -⟩ := hbehaves _ _ hfirst h₂
    rw [← Bool.not_eq_true]
    exact fun hcopy => MemobjCall.not_valid_apply hcall hcopy hvalid
  · intro hcopies before s₁ hfirst h₁
    refine ⟨(h₁.account fun call hmem => hcopies call (hfirst.subset hmem)).valid, ?_⟩
    intro call hnext
    obtain ⟨s₂, h₂⟩ := h.exists_of_isPrefix hnext
    obtain ⟨s₁', h₁', hcall, -⟩ := h₂.last
    obtain rfl := h₁.unique h₁'
    exact (MemobjCall.reports_iff hcall).mpr (hcopies call (hnext.subset (by simp)))

/-- The library, with CNodes of 256 slots. -/
def library : CapLibrary where
  errIsFail err := decide (err.toNat % 1024 ≠ 0)
  errNo_ne _ h := of_decide_eq_true h
  cnodeSlots := 256
  cnodeSlots_lt := by decide

/-- The creation of a first memory object, for which `cap_copy` answers as given. -/
def createFirst (capCopy : Except library.Failure Unit) : MemobjCall library :=
  .create ⟨some 1, fun _ => .ok (0, 0x100000), .ok 8192, capCopy⟩ (some "vmops".toList) true 8192

theorem reachedBy_createFirst (capCopy : Except library.Failure Unit) :
    MemobjState.ReachedBy library [createFirst capCopy]
      ((createFirst capCopy).apply MemobjState.init) := by
  have hpossible : (createFirst capCopy).Possible MemobjState.init :=
    ⟨fun _ _ => rfl, fun _ _ _ _ => ⟨rfl, nofun⟩, fun _ => by decide⟩
  exact MemobjState.ReachedBy.init.step hpossible

/-- A copy that succeeds, and then the memory object is destroyed. -/
theorem behaves_createFirst :
    (∃ s, MemobjState.ReachedBy library [createFirst (.ok ()), .destroy 1] s) ∧
      Behaves library [createFirst (.ok ()), .destroy 1] := by
  have hlive : (MemobjCall.destroy 1 : MemobjCall library).Possible
      ((createFirst (.ok ())).apply MemobjState.init) := rfl
  have hreached := (reachedBy_createFirst (.ok ())).step hlive
  exact ⟨⟨_, hreached⟩, (memobjs_valid_iff hreached).mpr (by decide)⟩

/-- **`cap_copy` fails and nobody hears of it**: the value is that of success, and the memory object
is live, but there is no capability in its slot, nor anywhere else. -/
theorem createFirst_not_behaves :
    ∃ err : library.Failure, ∃ s,
      MemobjState.ReachedBy library [createFirst (.error err)] s ∧
      (platVmCreate ⟨some 1, fun _ => .ok (0, 0x100000), .ok 8192, .error err⟩
        (some "vmops".toList) true 8192 MemobjState.init).1 = errorCode .ok ∧
      (s.memobjs 1).isSome = true ∧ (∀ ref, s.caps ref = none) ∧
      ¬Behaves library [createFirst (.error err)] := by
  have hreached := reachedBy_createFirst (.error ⟨1, by decide⟩)
  have hcaps := @update_allocated MemobjState.init.caps 0 rfl 0x100000
  have hnone : ∀ ref,
      ((createFirst (.error ⟨1, by decide⟩)).apply MemobjState.init).caps ref = none :=
    congrFun hcaps
  refine ⟨⟨1, by decide⟩, _, hreached, rfl, rfl, hnone, fun hbehaves => ?_⟩
  · obtain ⟨hvalid, -⟩ := hbehaves _ _ (List.prefix_refl _) hreached
    obtain ⟨slot, -, -, hcap⟩ := hvalid.holds 1 _ rfl
    cases hcap.symm.trans (hnone (.memobj slot))

end Histories

end Barrelfish

end VmopsBench

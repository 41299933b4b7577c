import VmopsBench.Platform.Basic

/-!
# Memory objects on Linux

`plat_vm_create` and `plat_vm_destroy` of `linux.c`. A memory object is a file in memory: its
descriptor comes from `memfd_create`, and it is kept in a block from `malloc` whose
address is the handle. What `malloc`, `memfd_create` and `ftruncate` answer is not determined,
except that a new block is none that is in use and a new descriptor none that is open.

The descriptors and the live memory objects ought to correspond
(`VmopsBench.LinuxState.Balanced`). But no statement closes a descriptor. On the error path after
`ftruncate` there is a call of `shm_unlink`, which removes a name that `memfd_create` has never
made, and `plat_vm_destroy` only frees the block. By `VmopsBench.balanced_iff` a state is balanced
as long as neither has happened, and never again afterwards.
-/

namespace VmopsBench

/-- `plat_error_t`. -/
inductive PlatError where
  | ok
  | argsInvalid
  | initFailed
  | noMem
  | memobjCreate
  | memobjSize
  | mapFailed
  | protectFailed
  | unmapFailed
  | threadCreate
  | threadJoin
  | fileOpen
  | barrier
  deriving DecidableEq

/-- `struct plat_memobj` of `linux.c`. -/
structure LinuxMemobj where
  size : SizeT
  fd : ℕ
  name : List Char

/-- **The process**, as far as memory objects are concerned: the open descriptors that came from
`memfd_create`, and the live memory objects by their handles. -/
structure LinuxState where
  fds : Finset ℕ
  memobjs : PlatMemobj → Option LinuxMemobj

/-- A process that has not created a memory object. -/
def LinuxState.init : LinuxState := ⟨∅, fun _ => none⟩

/-- What the C library and the kernel answer during one `plat_vm_create`. -/
structure CreateAnswers where
  malloc : ℕ → Option PlatMemobj
  /-- With the name, and whether the flags for huge pages are given. -/
  memfdCreate : List Char → Bool → Option ℕ
  ftruncate : ℕ → SizeT → Bool

/-- `sizeof(struct plat_memobj)`. -/
abbrev sizeofMemobj : ℕ := 16

/-! ### The two functions -/

section Functions

variable (ans : CreateAnswers) (path : Option (List Char)) (memobj : Bool) (size : SizeT)
  (huge : Bool) (s : LinuxState)

/-- `plat_vm_create`: the value it returns, with the handle when that is `PLAT_ERR_OK`. `path` may
be `NULL`, and `memobj` says whether the pointer for the handle is not. -/
def platVmCreate : Except PlatError PlatMemobj × LinuxState :=
  match path with
  | none => (.error .argsInvalid, s)
  | some path =>
    if memobj then
      match ans.malloc (sizeofMemobj + path.length + 1) with
      | none => (.error .noMem, s)
      | some platMobj =>
        match ans.memfdCreate path huge with
        -- `err_out_1`: the block is freed
        | none => (.error .memobjCreate, s)
        | some fd =>
          let fds := insert fd s.fds
          if ans.ftruncate fd size then
            (.ok platMobj,
              { fds, memobjs := Function.update s.memobjs platMobj (some ⟨size, fd, path⟩) })
          -- `err_out_2`: `shm_unlink`, and the block is freed
          else (.error .noMem, { s with fds })
    else (.error .argsInvalid, s)

/-- `plat_vm_destroy`: the block is cleared and freed. -/
def platVmDestroy (memobj : PlatMemobj) : LinuxState :=
  { s with memobjs := Function.update s.memobjs memobj none }

end Functions

/-! ### Histories -/

/-- A call of one of the two functions. -/
inductive MemobjOp where
  | create (ans : CreateAnswers) (path : Option (List Char)) (memobj : Bool) (size : SizeT)
      (huge : Bool)
  | destroy (memobj : PlatMemobj)

/-- The state after a call. -/
def MemobjOp.apply : MemobjOp → LinuxState → LinuxState
  | .create ans path memobj size huge, s => (platVmCreate ans path memobj size huge s).2
  | .destroy memobj, s => platVmDestroy s memobj

/-- **The call is possible in a state**: blocks and descriptors are new, and what is destroyed is
live. -/
def MemobjOp.Possible (s : LinuxState) : MemobjOp → Prop
  | .create ans .. => (∀ n memobj, ans.malloc n = some memobj → s.memobjs memobj = none) ∧
      ∀ path huge fd, ans.memfdCreate path huge = some fd → fd ∉ s.fds
  | .destroy memobj => (s.memobjs memobj).isSome = true

/-- **The states that are reached by some calls**, in this order. -/
inductive ReachedBy : List MemobjOp → LinuxState → Prop where
  | init : ReachedBy [] LinuxState.init
  | step {ops : List MemobjOp} {s : LinuxState} {op : MemobjOp} (h : ReachedBy ops s)
      (hop : op.Possible s) : ReachedBy (ops ++ [op]) (op.apply s)

/-- The descriptor belongs to a live memory object. -/
def LinuxState.Owns (s : LinuxState) (fd : ℕ) : Prop :=
  ∃ memobj obj, s.memobjs memobj = some obj ∧ obj.fd = fd

/-- **The open descriptors are those of the live memory objects.** -/
def LinuxState.Balanced (s : LinuxState) : Prop := ∀ fd, fd ∈ s.fds ↔ s.Owns fd

/-- The descriptor with which a creation goes as far as `ftruncate`. -/
def reachesTruncate (ans : CreateAnswers) (path : Option (List Char)) (memobj huge : Bool) :
    Option ℕ :=
  match path with
  | none => none
  | some path =>
    if memobj && (ans.malloc (sizeofMemobj + path.length + 1)).isSome then
      ans.memfdCreate path huge
    else none

/-- **The call loses a descriptor**: it destroys a memory object, or it creates one and `ftruncate`
fails. -/
def MemobjOp.loses : MemobjOp → Bool
  | .create ans path memobj size huge =>
    (reachesTruncate ans path memobj huge).any fun fd => !ans.ftruncate fd size
  | .destroy _ => true

/-! ### What a call can do -/

section Step

variable {s : LinuxState} {lost : Finset ℕ}

/-- **What `plat_vm_create` can do**: fail and change nothing, fail and leave a descriptor open, or
succeed. -/
theorem platVmCreate_cases (ans : CreateAnswers) (path : Option (List Char)) (memobj : Bool)
    (size : SizeT) (huge : Bool) (s : LinuxState) :
    ((MemobjOp.create ans path memobj size huge).loses = false ∧
      ∃ err, platVmCreate ans path memobj size huge s = (.error err, s)) ∨
    (∃ path' fd, ans.memfdCreate path' huge = some fd ∧
      (MemobjOp.create ans path memobj size huge).loses = true ∧
      platVmCreate ans path memobj size huge s =
        (.error .noMem, { s with fds := insert fd s.fds })) ∨
    ∃ path' platMobj fd, ans.malloc (sizeofMemobj + path'.length + 1) = some platMobj ∧
      ans.memfdCreate path' huge = some fd ∧ ans.ftruncate fd size = true ∧
      (MemobjOp.create ans path memobj size huge).loses = false ∧
      platVmCreate ans path memobj size huge s = (.ok platMobj,
        { fds := insert fd s.fds
          memobjs := Function.update s.memobjs platMobj (some ⟨size, fd, path'⟩) }) := by
  cases path with
  | none => exact Or.inl ⟨rfl, _, rfl⟩
  | some path =>
    cases memobj with
    | false => exact Or.inl ⟨rfl, _, rfl⟩
    | true =>
      simp only [MemobjOp.loses, reachesTruncate, platVmCreate, Bool.true_and, if_true]
      cases hmalloc : ans.malloc (sizeofMemobj + path.length + 1) with
      | none => exact Or.inl ⟨rfl, _, rfl⟩
      | some platMobj =>
        cases hfd : ans.memfdCreate path huge with
        | none => exact Or.inl ⟨rfl, _, rfl⟩
        | some fd =>
          cases htrunc : ans.ftruncate fd size with
          | false => exact Or.inr (Or.inl ⟨path, fd, hfd, by simp [htrunc], by simp [htrunc]⟩)
          | true =>
            exact Or.inr (Or.inr ⟨path, platMobj, fd, hmalloc, hfd, htrunc, by simp [htrunc],
              by simp [htrunc]⟩)

/-- A creation that fails leaves the descriptors as they were, unless it loses one. -/
theorem fds_of_create_error {ans : CreateAnswers} {path : Option (List Char)} {memobj : Bool}
    {size : SizeT} {huge : Bool} {err : PlatError}
    (hop : (MemobjOp.create ans path memobj size huge).Possible s)
    (herr : (platVmCreate ans path memobj size huge s).1 = .error err) :
    (platVmCreate ans path memobj size huge s).2.fds = s.fds ↔
      (MemobjOp.create ans path memobj size huge).loses = false := by
  rcases platVmCreate_cases ans path memobj size huge s with
    ⟨hloses, err', heq⟩ | ⟨path', fd, hfd, hloses, heq⟩ | ⟨path', platMobj, fd, -, -, -, -, heq⟩
  · exact iff_of_true (by rw [heq]) hloses
  · have hnew : fd ∉ s.fds := hop.2 _ _ _ hfd
    rw [heq, hloses, Finset.insert_eq_self]
    exact iff_of_false hnew nofun
  · rw [heq] at herr
    cases herr

/-- **The account of the descriptors**: each open one belongs to one memory object, or is lost. -/
structure Accounts (s : LinuxState) (lost : Finset ℕ) : Prop where
  mem_iff : ∀ fd, fd ∈ s.fds ↔ s.Owns fd ∨ fd ∈ lost
  not_owned : ∀ fd ∈ lost, ¬s.Owns fd
  unique : ∀ memobj memobj' obj obj', s.memobjs memobj = some obj → s.memobjs memobj' = some obj' →
    obj.fd = obj'.fd → memobj = memobj'

/-- A state is balanced when nothing is lost. -/
theorem Accounts.balanced_iff_lost (h : Accounts s lost) : s.Balanced ↔ lost = ∅ := by
  constructor
  · intro hbalanced
    rw [Finset.eq_empty_iff_forall_notMem]
    intro fd hfd
    exact h.not_owned fd hfd ((hbalanced fd).mp ((h.mem_iff fd).mpr (Or.inr hfd)))
  · rintro rfl fd
    simpa using h.mem_iff fd

/-- A descriptor is opened, and nobody gets it. -/
theorem Accounts.lose (h : Accounts s lost) {fd : ℕ} (hnew : fd ∉ s.fds) :
    Accounts { s with fds := insert fd s.fds } (insert fd lost) := by
  have howns : ∀ fd', ({ s with fds := insert fd s.fds } : LinuxState).Owns fd' ↔ s.Owns fd' :=
    fun _ => Iff.rfl
  refine ⟨fun fd' => ?_, fun fd' hfd' => ?_, h.unique⟩
  · rw [howns, Finset.mem_insert, Finset.mem_insert, h.mem_iff]
    tauto
  · rw [howns]
    rcases Finset.mem_insert.mp hfd' with rfl | hfd'
    · exact fun howned => hnew ((h.mem_iff fd').mpr (Or.inl howned))
    · exact h.not_owned fd' hfd'

/-- The descriptors that are owned once there is one more memory object. -/
theorem owns_update {memobj : PlatMemobj} {obj : LinuxMemobj} {fds : Finset ℕ}
    (hfree : s.memobjs memobj = none) (fd : ℕ) :
    (⟨fds, Function.update s.memobjs memobj (some obj)⟩ : LinuxState).Owns fd ↔
      fd = obj.fd ∨ s.Owns fd := by
  constructor
  · rintro ⟨m, o, hm, rfl⟩
    rcases eq_or_ne m memobj with rfl | hne
    · dsimp only at hm
      rw [Function.update_self] at hm
      obtain rfl := Option.some.inj hm
      exact Or.inl rfl
    · dsimp only at hm
      rw [Function.update_of_ne hne] at hm
      exact Or.inr ⟨m, o, hm, rfl⟩
  · rintro (rfl | ⟨m, o, hm, rfl⟩)
    · exact ⟨memobj, obj, Function.update_self _ _ _, rfl⟩
    · have hne : m ≠ memobj := by
        rintro rfl
        rw [hfree] at hm
        cases hm
      exact ⟨m, o, (Function.update_of_ne hne _ _).trans hm, rfl⟩

/-- A memory object is created. -/
theorem Accounts.create (h : Accounts s lost) {memobj : PlatMemobj} {obj : LinuxMemobj}
    (hfree : s.memobjs memobj = none) (hnew : obj.fd ∉ s.fds) :
    Accounts ⟨insert obj.fd s.fds, Function.update s.memobjs memobj (some obj)⟩ lost := by
  have hunowned : ¬s.Owns obj.fd := fun howned => hnew ((h.mem_iff _).mpr (Or.inl howned))
  refine ⟨fun fd => ?_, fun fd hfd => ?_, fun m m' o o' hm hm' heq => ?_⟩
  · rw [owns_update hfree, Finset.mem_insert, h.mem_iff, or_assoc]
  · rw [owns_update hfree]
    rintro (rfl | howned)
    · exact hnew ((h.mem_iff _).mpr (Or.inr hfd))
    · exact h.not_owned fd hfd howned
  · dsimp only at hm hm'
    rcases eq_or_ne m memobj with rfl | hne
    · rcases eq_or_ne m' m with rfl | hne'
      · rfl
      · rw [Function.update_self] at hm
        rw [Function.update_of_ne hne'] at hm'
        obtain rfl := Option.some.inj hm
        exact absurd ⟨m', o', hm', heq.symm⟩ hunowned
    · rw [Function.update_of_ne hne] at hm
      rcases eq_or_ne m' memobj with rfl | hne'
      · rw [Function.update_self] at hm'
        obtain rfl := Option.some.inj hm'
        exact absurd ⟨m, o, hm, heq⟩ hunowned
      · rw [Function.update_of_ne hne'] at hm'
        exact h.unique m m' o o' hm hm' heq

/-- A memory object is destroyed, and its descriptor is lost. -/
theorem Accounts.destroy (h : Accounts s lost) {memobj : PlatMemobj} {obj : LinuxMemobj}
    (hlive : s.memobjs memobj = some obj) :
    Accounts (platVmDestroy s memobj) (insert obj.fd lost) := by
  have howns : ∀ fd, (platVmDestroy s memobj).Owns fd ↔ s.Owns fd ∧ fd ≠ obj.fd := by
    intro fd
    constructor
    · rintro ⟨m, o, hm, rfl⟩
      rcases eq_or_ne m memobj with rfl | hne
      · rw [platVmDestroy] at hm
        simp at hm
      · have hm : s.memobjs m = some o := (Function.update_of_ne hne _ _).symm.trans hm
        exact ⟨⟨m, o, hm, rfl⟩, fun heq => hne (h.unique m memobj o obj hm hlive heq)⟩
    · rintro ⟨⟨m, o, hm, rfl⟩, hne⟩
      have hne : m ≠ memobj := by
        rintro rfl
        rw [hm] at hlive
        exact hne (congrArg LinuxMemobj.fd (Option.some.inj hlive))
      exact ⟨m, o, (Function.update_of_ne hne _ _).trans hm, rfl⟩
  refine ⟨fun fd => ?_, fun fd hfd => ?_, fun m m' o o' hm hm' heq => ?_⟩
  · have hfds : (platVmDestroy s memobj).fds = s.fds := rfl
    have howned : s.Owns obj.fd := ⟨memobj, obj, hlive, rfl⟩
    rw [hfds, howns, Finset.mem_insert, h.mem_iff]
    by_cases heq : fd = obj.fd
    · simp [heq, howned]
    · simp [heq]
  · rw [howns]
    rcases Finset.mem_insert.mp hfd with rfl | hfd
    · exact fun hboth => hboth.2 rfl
    · exact fun hboth => h.not_owned fd hfd hboth.1
  · -- what is left was there before, so the handles are still told apart by their descriptors
    have hkeep : ∀ m o, (platVmDestroy s memobj).memobjs m = some o → s.memobjs m = some o := by
      intro m o hm
      rcases eq_or_ne m memobj with rfl | hne
      · rw [platVmDestroy] at hm
        simp at hm
      · exact (Function.update_of_ne hne _ _).symm.trans hm
    exact h.unique m m' o o' (hkeep m o hm) (hkeep m' o' hm') heq

/-- **One call**: it keeps the account, and something is lost afterwards if something was lost
before or if the call loses a descriptor. -/
theorem Accounts.apply (h : Accounts s lost) {op : MemobjOp} (hop : op.Possible s) :
    ∃ lost', Accounts (op.apply s) lost' ∧ (lost' = ∅ ↔ lost = ∅ ∧ op.loses = false) := by
  cases op with
  | destroy memobj =>
    obtain ⟨obj, hlive⟩ := Option.isSome_iff_exists.mp hop
    refine ⟨_, h.destroy hlive, ?_⟩
    simp [MemobjOp.loses]
  | create ans path memobj size huge =>
    obtain ⟨hfree, hnew⟩ := hop
    rcases platVmCreate_cases ans path memobj size huge s with
      ⟨hloses, err, heq⟩ | ⟨path', fd, hfd, hloses, heq⟩ |
        ⟨path', platMobj, fd, hmalloc, hfd, -, hloses, heq⟩
    · refine ⟨lost, ?_, by simp [hloses]⟩
      rwa [MemobjOp.apply, heq]
    · refine ⟨insert fd lost, ?_, by simp [hloses]⟩
      rw [MemobjOp.apply, heq]
      exact h.lose (hnew _ _ _ hfd)
    · refine ⟨lost, ?_, by simp [hloses]⟩
      have hobj : (⟨size, fd, path'⟩ : LinuxMemobj).fd ∉ s.fds := hnew _ _ _ hfd
      rw [MemobjOp.apply, heq]
      exact h.create (hfree _ _ hmalloc) hobj

end Step

/-! ### Whole histories -/

/-- **The account of a history.** -/
theorem ReachedBy.accounts {ops : List MemobjOp} {s : LinuxState} (h : ReachedBy ops s) :
    ∃ lost, Accounts s lost ∧ (lost = ∅ ↔ ∀ op ∈ ops, op.loses = false) := by
  induction h with
  | init =>
    refine ⟨∅, ⟨fun fd => ?_, nofun, nofun⟩, by simp⟩
    simp [LinuxState.init, LinuxState.Owns]
  | @step ops s op _ hop ih =>
    obtain ⟨lost, haccounts, hlost⟩ := ih
    obtain ⟨lost', haccounts', hlost'⟩ := haccounts.apply hop
    refine ⟨lost', haccounts', ?_⟩
    rw [hlost', hlost, List.forall_mem_append, List.forall_mem_singleton]

/-- **When the open descriptors are those of the live memory objects**: as long as no memory object
was destroyed and no `ftruncate` has failed. -/
theorem balanced_iff {ops : List MemobjOp} {s : LinuxState} (h : ReachedBy ops s) :
    s.Balanced ↔ ∀ op ∈ ops, op.loses = false := by
  obtain ⟨lost, haccounts, hlost⟩ := h.accounts
  rw [haccounts.balanced_iff_lost, hlost]

/-- The creation of a first memory object, with descriptor 3, and with or without an error of
`ftruncate`. -/
def createFirst (ok : Bool) : MemobjOp :=
  .create ⟨fun _ => some 1, fun _ _ => some 3, fun _ _ => ok⟩ (some "vmops".toList) true 8192 false

theorem reachedBy_createFirst (ok : Bool) :
    ReachedBy [createFirst ok] ((createFirst ok).apply LinuxState.init) := by
  have hpossible : (createFirst ok).Possible LinuxState.init :=
    ⟨fun _ _ _ => rfl, fun _ _ fd _ => Finset.notMem_empty fd⟩
  exact ReachedBy.init.step hpossible

/-- The memory object and its descriptor. -/
theorem balanced_createFirst :
    ((createFirst true).apply LinuxState.init).Balanced ∧
      ((createFirst true).apply LinuxState.init).fds = {3} :=
  ⟨(balanced_iff (reachedBy_createFirst true)).mpr (by decide), by decide⟩

/-- A descriptor stays open after a creation that has failed, and another one after a memory object
has been destroyed. -/
theorem descriptor_left_open :
    (∃ s, ReachedBy [createFirst false] s ∧ ¬s.Balanced) ∧
      ∃ s, ReachedBy [createFirst true, .destroy 1] s ∧ ¬s.Balanced := by
  have hstate : ∀ {s : LinuxState}, 3 ∈ s.fds → (∀ memobj, s.memobjs memobj = none) →
      ¬s.Balanced := by
    intro s hmem hnone hbalanced
    obtain ⟨memobj, obj, hobj, -⟩ := (hbalanced 3).mp hmem
    rw [hnone] at hobj
    cases hobj
  have hdestroy : (MemobjOp.destroy 1).Possible ((createFirst true).apply LinuxState.init) := rfl
  refine ⟨⟨_, reachedBy_createFirst false, hstate (by decide) fun _ => rfl⟩,
    ⟨_, (reachedBy_createFirst true).step hdestroy, hstate (by decide) fun memobj => ?_⟩⟩
  have hafter : ((MemobjOp.destroy 1).apply ((createFirst true).apply LinuxState.init)).memobjs =
      Function.update (Function.update (fun _ => none) 1 (some ⟨8192, 3, "vmops".toList⟩)) 1 none :=
    rfl
  rw [hafter, Function.update_idem]
  rcases eq_or_ne memobj 1 with rfl | hne
  · rw [Function.update_self]
  · rw [Function.update_of_ne hne]

end VmopsBench

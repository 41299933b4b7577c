import VmopsBench.Benchmarks.Entry
import VmopsBench.Benchmarks.MapArguments
import VmopsBench.Platform.LinuxMaps

/-!
# The memory objects are large enough

The driver does not look at `-m`. A memory object smaller than a page would make the 4k functions
divide by zero, and one smaller than what the threads believe would make the mapping calls fail in
their range check. What stands between is `vmops_utils_prepare_args`: every memory object is
created with the size from the configuration, and the first one is mapped one page long a number of
times, which passes the range check of Linux only if it has a page.

`VmopsBench.LinuxRun` are the runs of the main thread on Linux, with the memory objects of
`VmopsBench.LinuxState`; for the proof only their sizes matter (`VmopsBench.sized`,
`VmopsBench.LinuxRun.sized`). `VmopsBench.inRange_of_prepared` is about every thread that
the prepared arguments are for, and every run of it.

What the kernel answers is a parameter. With what `ftruncate` is known to refuse
(`VmopsBench.LinuxTruncates`) there are sizes that no memory object can be created with, and
`VmopsBench.exists_prepares_iff` says which.
-/

namespace VmopsBench

open Interact

/-! ### The main thread on Linux -/

/-- The calls that use a memory object. -/
def MainCall.usesMemobj : MainCall → Bool
  | .vmCreate .. | .vmDestroy _ | .vmMap .. => true
  | _ => false

section Runs

-- what is known of the answers to a creation, by its size and whether it is for huge pages
variable (A : CreateAnswers → SizeT → Bool → Prop)

/-- **One call of the main thread on Linux**, and what becomes of the memory objects. -/
inductive LinuxStep : LinuxState → Event mainSig → LinuxState → Prop where
  | vmCreate {s : LinuxState} (ans : CreateAnswers) (path : List Char) {name : VmobjName}
      {size : SizeT} {huge : Bool} (hans : A ans size huge)
      (h : (MemobjOp.create ans (some path) true size huge).Possible s) :
      LinuxStep s ⟨.vmCreate name size huge,
          (platVmCreate ans (some path) true size huge s).1.toOption⟩
        (platVmCreate ans (some path) true size huge s).2
  | vmDestroy {s : LinuxState} {memobj : PlatMemobj} (h : (s.memobjs memobj).isSome = true) :
      LinuxStep s ⟨.vmDestroy memobj, ()⟩ (platVmDestroy s memobj)
  | vmMap {s : LinuxState} (mmap : MmapCall → Option Addr) {memobj : PlatMemobj}
      {platMobj : LinuxMemobj} {size offset : SizeT} {huge : Bool}
      (h : s.memobjs memobj = some platMobj) :
      LinuxStep s ⟨.vmMap size memobj offset huge,
        (platMobj.platVmMap mmap true size offset huge).toOption⟩ s
  | other {s : LinuxState} {c : MainCall} (r : c.Resp) (h : c.usesMemobj = false) :
      LinuxStep s ⟨c, r⟩ s

/-- **A run of the main thread on Linux.** -/
inductive LinuxRun : LinuxState → List (Event mainSig) → LinuxState → Prop where
  | nil (s : LinuxState) : LinuxRun s [] s
  | cons {s s' s'' : LinuxState} {e : Event mainSig} {tr : List (Event mainSig)}
      (h : LinuxStep A s e s') (h' : LinuxRun s' tr s'') : LinuxRun s (e :: tr) s''

/-- `ftruncate` may answer that a memory object has been given its size. -/
def CanCreate (size : SizeT) (huge : Bool) : Prop :=
  ∃ ans fd, A ans size huge ∧ ans.ftruncate fd size = true

end Runs

variable {A : CreateAnswers → SizeT → Bool → Prop}

theorem LinuxRun.append {s s' s'' : LinuxState} {tr tr' : List (Event mainSig)}
    (h : LinuxRun A s tr s') (h' : LinuxRun A s' tr' s'') : LinuxRun A s (tr ++ tr') s'' := by
  induction h with
  | nil => exact h'
  | cons hstep _ ih => exact .cons hstep (ih h')

/-! ### The sizes of the memory objects -/

/-- The sizes of the live memory objects. -/
abbrev Sizes := PlatMemobj → Option SizeT

/-- The sizes in a state. -/
def LinuxState.sizes (s : LinuxState) : Sizes := fun memobj => (s.memobjs memobj).map (·.size)

/-- **What is assumed about the sizes**: an object that was created could be, and its handle is
none that is in use; and a mapping that was made lies in the memory object. -/
def sized (A : CreateAnswers → SizeT → Bool → Prop) : Spec mainSig Sizes where
  pre _ _ := True
  env sizes c r := match c with
    | .vmCreate _ size huge => ∀ memobj ∈ r, sizes memobj = none ∧ CanCreate A size huge
    | .vmMap size memobj offset _ => r.isSome = true →
      ∃ n, sizes memobj = some n ∧ ¬n < offset + size
    | _ => True
  upd sizes c r := match c with
    | .vmCreate _ size _ => r.elim sizes fun memobj => Function.update sizes memobj (some size)
    | .vmDestroy memobj => Function.update sizes memobj none
    | _ => sizes

section Sizes

variable {s s' : LinuxState}

theorem sizes_update (memobj : PlatMemobj) (obj : Option LinuxMemobj) (fds : Finset ℕ) :
    (⟨fds, Function.update s.memobjs memobj obj⟩ : LinuxState).sizes =
      Function.update s.sizes memobj (obj.map (·.size)) := by
  funext m
  by_cases hm : m = memobj
  · subst hm
    simp [LinuxState.sizes]
  · simp [LinuxState.sizes, hm]

/-- **Linux keeps these promises.** -/
theorem LinuxStep.sized {c : MainCall} {r : c.Resp} (h : LinuxStep A s ⟨c, r⟩ s') :
    (sized A).env s.sizes c r ∧ (sized A).upd s.sizes c r = s'.sizes := by
  cases h with
  | @vmCreate ans path name size huge hans hpossible =>
    rcases platVmCreate_cases ans (some path) true size huge s with
      ⟨-, err, heq⟩ | ⟨-, fd, -, -, heq⟩ | ⟨path', platMobj, fd, hmalloc, -, htruncate, -, heq⟩
    · rw [heq]
      exact ⟨fun m hm => (by cases hm), rfl⟩
    · rw [heq]
      exact ⟨fun m hm => (by cases hm), rfl⟩
    · have hfree := hpossible.1 _ _ hmalloc
      rw [heq]
      refine ⟨fun m hm => ?_, ?_⟩
      · obtain rfl := Option.some_inj.mp hm
        exact ⟨congrArg (Option.map _) hfree, ans, fd, hans, htruncate⟩
      · exact (sizes_update platMobj (some ⟨size, fd, path'⟩) (insert fd s.fds)).symm
  | vmDestroy => exact ⟨trivial, (sizes_update _ none _).symm⟩
  | @vmMap mmap memobj platMobj size offset huge hobj =>
    -- a mapping that has gone through has passed the range check
    refine ⟨fun hsome => ⟨platMobj.size, congrArg (Option.map _) hobj, ?_⟩, rfl⟩
    cases hmap : platMobj.platVmMap mmap true size offset huge with
    | error err =>
      rw [hmap] at hsome
      cases hsome
    | ok addr => exact of_decide_eq_false (LinuxMemobj.outOfRange_of_ok hmap)
  | other _ hc =>
    cases c with
    | vmCreate | vmDestroy | vmMap => cases hc
    | _ => exact ⟨trivial, rfl⟩

theorem LinuxRun.sized {tr : List (Event mainSig)} (h : LinuxRun A s tr s') :
    (sized A).Admits s.sizes tr ∧ (sized A).after s.sizes tr = s'.sizes := by
  induction h with
  | nil => exact ⟨trivial, rfl⟩
  | cons h _ ih =>
    obtain ⟨henv, hupd⟩ := h.sized
    refine ⟨⟨henv, ?_⟩, ?_⟩
    · rw [hupd]
      exact ih.1
    · rw [← ih.2, ← hupd]
      rfl

end Sizes

/-! ### The preparation -/

section Preparation

variable {cfg : VmopsBenchCfg} {sizes : Sizes}

/-- **The memory objects of all threads have the size of the configuration**, which is one that
they can be created with. -/
theorem wp_createMemobjs_sized : wp (sized A) (createMemobjs cfg) (fun o sizes =>
    ∀ memobjs, o = some memobjs →
      (∀ i < cfg.corelistSize.toNat, sizes (memobjs i) = some cfg.memsize) ∧
        (0 < cfg.corelistSize.toNat → CanCreate A cfg.memsize cfg.maphuge)) sizes := by
  rw [createMemobjs]
  split
  · refine wp_perform_bind.mpr ⟨trivial, fun r hr => ?_⟩
    cases r with
    | none => exact fun memobjs h => by cases h
    | some memobj =>
      rintro memobjs ⟨⟩
      refine ⟨fun i hi => ?_, fun _ => (hr memobj rfl).2⟩
      show Function.update sizes memobj _ (if i < cfg.corelistSize.toNat then memobj else 0) = _
      rw [if_pos hi]
      exact Function.update_self _ _ _
  · refine (wp_bind _ _).mpr (wp_forLoop (fun i memobjs sizes =>
      (∀ j < i, sizes (memobjs j) = some cfg.memsize) ∧
        (0 < i → CanCreate A cfg.memsize cfg.maphuge))
      ⟨fun j hj => absurd hj (Nat.not_lt_zero j), fun h => absurd h (Nat.lt_irrefl 0)⟩ ?_ ?_)
    · rintro i memobjs sizes - ⟨hsizes, -⟩
      refine wp_perform_bind.mpr ⟨trivial, fun r hr => ?_⟩
      cases r with
      | none =>
        refine (wp_bind _ _).mpr (wp_forLoop (fun _ _ _ => True) trivial (fun _ _ _ _ _ => ?_)
          fun _ _ _ memobjs h => by cases h)
        exact wp_perform_bind.mpr ⟨trivial, fun _ _ => trivial⟩
      | some memobj =>
        -- the new handle is none of those before
        obtain ⟨hfresh, hcreate⟩ := hr memobj rfl
        refine ⟨fun j hj => ?_, fun _ => hcreate⟩
        show Function.update sizes memobj (some cfg.memsize)
          (Function.update memobjs i memobj j) = _
        rcases Nat.lt_succ_iff_lt_or_eq.mp hj with hlt | rfl
        · have hold := hsizes j hlt
          have hne : memobjs j ≠ memobj := fun heq => by simp [← heq, hold] at hfresh
          rw [Function.update_of_ne (Nat.ne_of_lt hlt), Function.update_of_ne hne, hold]
        · rw [Function.update_self, Function.update_self]
    · rintro memobjs sizes hsizes memobjs' ⟨⟩
      exact hsizes

/-- **The mappings made beforehand** go through only if the memory object has a page. -/
theorem wp_prepopulate_sized {memobj : PlatMemobj} {size : SizeT}
    (hsize : sizes memobj = some size) :
    wp (sized A) (prepopulate memobj) (fun o sizes' => sizes' = sizes ∧
      (o = .ok () → platArchBasePageSize ≤ size)) sizes := by
  refine wp_forLoop (fun i _ sizes' => sizes' = sizes ∧ (0 < i → platArchBasePageSize ≤ size))
    ⟨rfl, fun h => absurd h (Nat.lt_irrefl 0)⟩ ?_ fun _ _ h => ⟨h.1, fun _ => h.2 (by decide)⟩
  rintro i - sizes' - ⟨rfl, -⟩
  refine wp_perform_bind.mpr ⟨trivial, fun r hr => ?_⟩
  cases r with
  | none => exact ⟨rfl, fun h => by cases h⟩
  | some addr =>
    obtain ⟨n, hn, hle⟩ := hr rfl
    obtain rfl := Option.some_inj.mp (hsize.symm.trans hn)
    exact ⟨rfl, fun _ => BitVec.not_lt.mp hle⟩

/-- **What the preparation promises**: each thread has a memory object of the size of the
configuration, which is one that an object can be created with, and a page at least. Only the
statistics may have been switched off. -/
structure Prepared (A : CreateAnswers → SizeT → Bool → Prop) (cfg₀ cfg : VmopsBenchCfg)
    (args : ℕ → VmopsBenchRunArg) (sizes : Sizes) : Prop where
  cfg_eq : cfg = { cfg₀ with stats := cfg.stats }
  args_eq : ∀ i < cfg.corelistSize.toNat,
    ∃ memobj, args i = fillArg cfg memobj i ∧ sizes memobj = some cfg.memsize
  canCreate : 0 < cfg.corelistSize.toNat → CanCreate A cfg.memsize cfg.maphuge
  page_le : 0 < cfg.corelistSize.toNat → platArchBasePageSize ≤ cfg.memsize

theorem wp_prepareArgs_sized {cfg₀ : VmopsBenchCfg} : wp (sized A) (vmopsUtilsPrepareArgs cfg₀)
    (fun o sizes => ∀ cfg args, o = some (cfg, args) → Prepared A cfg₀ cfg args sizes) sizes := by
  refine wp_perform_bind.mpr ⟨trivial, fun ok _ => ?_⟩
  cases ok with
  | false => exact fun cfg args h => by cases h
  | true =>
    have hstats : ∀ sizes, wp (sized A) (allocateStats cfg₀)
        (fun cfg _ => cfg = { cfg₀ with stats := cfg.stats }) sizes := by
      intro sizes
      rw [allocateStats]
      split
      · exact rfl
      · refine wp_perform_bind.mpr ⟨trivial, fun ok _ => ?_⟩
        cases ok <;> exact rfl
    have hfail : ∀ sizes, wp (sized A) (do mainCall .freeArgs; return none)
        (fun (o : Option (VmopsBenchCfg × (ℕ → VmopsBenchRunArg))) sizes =>
          ∀ cfg args, o = some (cfg, args) → Prepared A cfg₀ cfg args sizes) sizes :=
      fun sizes => wp_perform_bind.mpr ⟨trivial, fun _ _ cfg args h => by cases h⟩
    refine (wp_bind _ _).mpr (wp_mono _ (fun cfg sizes hcfg => ?_) (hstats _))
    refine (wp_bind _ _).mpr (wp_mono _ (fun o sizes ho => ?_) wp_createMemobjs_sized)
    cases o with
    | none => exact hfail _
    | some memobjs =>
      obtain ⟨hsizes, hcreate⟩ := ho memobjs rfl
      have hargs : ∀ i < cfg.corelistSize.toNat, ∃ memobj,
          filledArgs cfg memobjs i = fillArg cfg memobj i ∧ sizes memobj = some cfg.memsize :=
        fun i hi => ⟨memobjs i, if_pos hi, hsizes i hi⟩
      by_cases hn : 0 < cfg.corelistSize.toNat
      · refine (wp_bind _ _).mpr (wp_mono _ (fun o sizes' ho => ?_)
          (wp_prepopulate_sized (hsizes 0 hn)))
        obtain ⟨rfl, hpage⟩ := ho
        cases o with
        | error => exact hfail _
        | ok =>
          rintro cfg' args ⟨⟩
          exact ⟨hcfg, hargs, hcreate, fun _ => hpage rfl⟩
      · -- without threads nothing has been created, and nothing is promised
        refine (wp_bind _ _).mpr (wp_forLoop (fun _ _ _ => True) trivial (fun i _ _ _ _ => ?_) ?_)
        · refine wp_perform_bind.mpr ⟨trivial, fun r _ => ?_⟩
          cases r with
          | none => exact hfail _
          | some addr => trivial
        · rintro - sizes - cfg' args ⟨⟩
          exact ⟨hcfg, fun i hi => absurd (Nat.zero_lt_of_lt hi) hn, fun h => absurd h hn,
            fun h => absurd h hn⟩

/-- What is prepared in a run on Linux. -/
theorem prepared_of_run {cfg₀ cfg : VmopsBenchCfg} {args : ℕ → VmopsBenchRunArg}
    {tr : List (Event mainSig)} {s s' : LinuxState}
    (hrun : Run (vmopsUtilsPrepareArgs cfg₀) tr (.ret (some (cfg, args))))
    (hlinux : LinuxRun A s tr s') : Prepared A cfg₀ cfg args s'.sizes := by
  obtain ⟨henv, hafter⟩ := hlinux.sized
  exact hafter ▸ (wp_run hrun wp_prepareArgs_sized henv).2 cfg args rfl

theorem Prepared.pageCount_ne_zero {cfg₀ cfg : VmopsBenchCfg} {args : ℕ → VmopsBenchRunArg}
    (h : Prepared A cfg₀ cfg args sizes) (hn : 0 < cfg.corelistSize.toNat) : pageCount cfg ≠ 0 := by
  have hpage := BitVec.le_def.mp (h.page_le hn)
  have hcount : (0 : SizeT).toNat ≠ (pageCount cfg).toNat := by
    rw [toNat_pageCount]
    exact Nat.ne_of_lt (Nat.div_pos hpage (by decide))
  exact fun hzero => hcount (congrArg BitVec.toNat hzero.symm)

end Preparation

/-! ### The threads -/

/-- **No thread divides by zero or leaves its memory object**: when the arguments could be prepared,
there is a page to take remainders by, and what any run function asks for in any run is a part of
the thread's memory object, so the range check of Linux passes it. -/
theorem inRange_of_prepared {cfg cfg' : VmopsBenchCfg} {args : ℕ → VmopsBenchRunArg}
    {tr : List (Event mainSig)} {s s' : LinuxState}
    (hprepare : Run (vmopsUtilsPrepareArgs cfg) tr (.ret (some (cfg', args))))
    (hlinux : LinuxRun A s tr s') {i : ℕ} (hi : i < cfg'.corelistSize.toNat) {f : RunFn}
    {tr' : List (Event threadSig)} {q : Prog threadSig RunResult}
    (hthread : Run (platThreadRunFn f (args i)) tr' q) :
    pageCount (args i).cfg ≠ 0 ∧
      ∃ platMobj, s'.memobjs (args i).memobj = some platMobj ∧
        ∀ e ∈ tr', ∀ m, e.call.mapArgs = some m → m.memobj = (args i).memobj ∧
          m.offset.toNat + m.size.toNat ≤ platMobj.size.toNat ∧
          platMobj.outOfRange m.size m.offset = false := by
  have hprepared := prepared_of_run hprepare hlinux
  have hpages := hprepared.pageCount_ne_zero (Nat.zero_lt_of_lt hi)
  obtain ⟨memobj, harg, hsize⟩ := hprepared.args_eq i hi
  obtain ⟨platMobj, hobj, hsize⟩ := Option.map_eq_some_iff.mp hsize
  rw [harg] at hthread ⊢
  refine ⟨hpages, platMobj, hobj, fun e he m hm => ?_⟩
  have hasks := asks_of_run hpages hthread he hm
  have hle : m.offset.toNat + m.size.toNat ≤ cfg'.memsize.toNat := hasks.add_le hpages
  rw [← hsize] at hle
  exact ⟨hasks.memobj_eq, hle, LinuxMemobj.outOfRange_eq_false hle⟩

/-! ### The configurations that can be prepared -/

/-- **What `ftruncate` refuses** on Linux: a negative length, and for a file of huge pages a length
that is no number of them. -/
def LinuxTruncates (ans : CreateAnswers) (size : SizeT) (huge : Bool) : Prop :=
  ∀ fd, ans.ftruncate fd size = true →
    size.toNat < 2 ^ 63 ∧ (huge = true → platArchHugePageSize.toNat ∣ size.toNat)

/-- **The memory objects of a configuration can be created, and mapped beforehand.** -/
structure Preparable (cfg : VmopsBenchCfg) : Prop where
  page_le : platArchBasePageSize ≤ cfg.memsize
  lt : cfg.memsize.toNat < 2 ^ 63
  dvd : cfg.maphuge = true → platArchHugePageSize.toNat ∣ cfg.memsize.toNat

/-- **The arguments are prepared** on Linux, in one way or another. -/
def Prepares (cfg cfg' : VmopsBenchCfg) (args : ℕ → VmopsBenchRunArg) : Prop :=
  ∃ tr linux, Run (vmopsUtilsPrepareArgs cfg) tr (.ret (some (cfg', args))) ∧
    LinuxRun LinuxTruncates LinuxState.init tr linux

theorem Prepares.prepared {cfg cfg' : VmopsBenchCfg} {args : ℕ → VmopsBenchRunArg}
    (h : Prepares cfg cfg' args) : ∃ sizes, Prepared LinuxTruncates cfg cfg' args sizes := by
  obtain ⟨tr, linux, hrun, hlinux⟩ := h
  exact ⟨_, prepared_of_run hrun hlinux⟩

theorem Prepared.preparable {cfg cfg' : VmopsBenchCfg} {args : ℕ → VmopsBenchRunArg}
    {sizes : Sizes} (h : Prepared LinuxTruncates cfg cfg' args sizes)
    (hn : 0 < cfg.corelistSize.toNat) : Preparable cfg := by
  obtain ⟨heq, -, hcreate, hpage⟩ := h
  rw [heq] at hcreate hpage
  obtain ⟨ans, fd, hans, htruncate⟩ := hcreate hn
  obtain ⟨hlt, hdvd⟩ := hans fd htruncate
  exact ⟨hpage hn, hlt, hdvd⟩

section Creations

variable {size : SizeT} {huge : Bool} {k : ℕ}

/-- The handle of the memory object with a number. -/
def nthHandle (k : ℕ) : PlatMemobj := BitVec.ofNat 64 (k + 1)

/-- The creation of it, with the next descriptor after the standard ones. -/
def createNth (size : SizeT) (huge : Bool) (k : ℕ) : MemobjOp :=
  .create ⟨fun _ => some (nthHandle k), fun _ _ => some (k + 3), fun _ _ => true⟩
    (some "vmops".toList) true size huge

/-- The process after some creations. -/
def createdObjs (size : SizeT) (huge : Bool) : ℕ → LinuxState
  | 0 => LinuxState.init
  | k + 1 => (createNth size huge k).apply (createdObjs size huge k)

theorem toNat_nthHandle (hk : k < 2 ^ 32) : (nthHandle k).toNat = k + 1 := by
  rw [nthHandle, BitVec.toNat_ofNat]
  omega

/-- **What has been created**: the other handles and descriptors are free. -/
theorem createdObjs_free (size : SizeT) (huge : Bool) (hk : k ≤ 2 ^ 32) :
    (∀ fd ∈ (createdObjs size huge k).fds, fd < k + 3) ∧
      ∀ memobj : PlatMemobj, k < memobj.toNat →
        (createdObjs size huge k).memobjs memobj = none := by
  induction k with
  | zero => exact ⟨fun fd hfd => absurd hfd (Finset.notMem_empty fd), fun _ _ => rfl⟩
  | succ k ih =>
    obtain ⟨hfds, hfree⟩ := ih (Nat.le_of_succ_le hk)
    refine ⟨fun fd hfd => ?_, fun memobj hlt => ?_⟩
    · rcases Finset.mem_insert.mp hfd with rfl | hfd
      · exact Nat.lt_succ_self _
      · exact (hfds fd hfd).trans (Nat.lt_succ_self _)
    · have hne : memobj ≠ nthHandle k := by
        rintro rfl
        rw [toNat_nthHandle (by omega)] at hlt
        exact Nat.lt_irrefl _ hlt
      have hkeep : (createdObjs size huge (k + 1)).memobjs memobj =
          (createdObjs size huge k).memobjs memobj := Function.update_of_ne hne _ _
      exact hkeep.trans (hfree memobj (Nat.lt_of_succ_lt hlt))

/-- The first object stays as it was created. -/
theorem createdObjs_first (size : SizeT) (huge : Bool) (hk : k < 2 ^ 32) :
    (createdObjs size huge (k + 1)).memobjs 1 = some ⟨size, 3, "vmops".toList⟩ := by
  induction k with
  | zero => exact Function.update_self (1 : PlatMemobj) _ LinuxState.init.memobjs
  | succ k ih =>
    have hne : (1 : PlatMemobj) ≠ nthHandle (k + 1) := by
      intro h
      have htoNat := congrArg BitVec.toNat h
      rw [toNat_nthHandle hk] at htoNat
      exact absurd htoNat (by simp)
    have hkeep : (createdObjs size huge (k + 1 + 1)).memobjs 1 =
        (createdObjs size huge (k + 1)).memobjs 1 := Function.update_of_ne hne _ _
    exact hkeep.trans (ih (by omega))

/-- The calls of the creations. -/
def createCalls (name : ℕ → VmobjName) (size : SizeT) (huge : Bool) (k : ℕ) :
    List (Event mainSig) :=
  (List.range k).map fun i => ⟨.vmCreate (name i) size huge, some (nthHandle i)⟩

/-- **The creations go through on Linux**, if the size is one for `ftruncate`. -/
theorem linuxRun_creations (name : ℕ → VmobjName) (hlt : size.toNat < 2 ^ 63)
    (hdvd : huge = true → platArchHugePageSize.toNat ∣ size.toNat) (hk : k ≤ 2 ^ 32) :
    LinuxRun LinuxTruncates LinuxState.init (createCalls name size huge k)
      (createdObjs size huge k) := by
  induction k with
  | zero => exact .nil _
  | succ k ih =>
    obtain ⟨hfds, hfree⟩ := createdObjs_free size huge (Nat.le_of_succ_le hk)
    have hpossible : (createNth size huge k).Possible (createdObjs size huge k) := by
      refine ⟨?_, ?_⟩
      · rintro n memobj ⟨⟩
        refine hfree _ ?_
        rw [toNat_nthHandle (by omega)]
        exact Nat.lt_succ_self k
      · rintro path huge' fd ⟨⟩ hmem
        exact Nat.lt_irrefl _ (hfds _ hmem)
    rw [createCalls, List.range_succ, List.map_append]
    refine (ih (Nat.le_of_succ_le hk)).append (.cons ?_ (.nil _))
    exact .vmCreate ⟨fun _ => some (nthHandle k), fun _ _ => some (k + 3), fun _ _ => true⟩
      "vmops".toList (fun _ _ => ⟨hlt, hdvd⟩) hpossible

end Creations

/-- The mapping calls of a preparation, all with the same answer. -/
def mappedBefore (n : ℕ) : List (Event mainSig) :=
  (List.range n).map fun _ => ⟨.vmMap 4096 1 0 false, some 0x10000#64⟩

theorem run_prepopulate : Run (prepopulate 1) (mappedBefore 128) (.ret (.ok ())) := by
  have hbody : ∃ body, prepopulate 1 = Prog.forLoop 128 body () ∧ ∀ j,
      Run (body j ()) [⟨.vmMap 4096 1 0 false, some 0x10000#64⟩] (.ret (.ok ())) :=
    ⟨_, rfl, fun _ => Run.call _ (Run.nil _)⟩
  obtain ⟨body, heq, hbody⟩ := hbody
  rw [heq]
  exact Run.for_calls _ 0 128 fun j _ => hbody j

theorem linuxRun_mappedBefore {s : LinuxState} {platMobj : LinuxMemobj} (n : ℕ)
    (hobj : s.memobjs 1 = some platMobj) (hfd : platMobj.fd ≠ 0)
    (hsize : platArchBasePageSize ≤ platMobj.size) : LinuxRun A s (mappedBefore n) s := by
  have hmap : platMobj.platVmMap (fun _ => some 0x10000#64) true 4096 0 false =
      .ok 0x10000#64 := by
    rw [LinuxMemobj.platVmMap, if_neg, if_neg (by decide)]
    rintro (hzero | hout)
    · exact hfd hzero
    · exact absurd (of_decide_eq_true hout) (BitVec.not_lt.mpr hsize)
  have hstep := @LinuxStep.vmMap A s (fun _ => some 0x10000#64) 1 platMobj 4096 0 false hobj
  rw [hmap] at hstep
  rw [mappedBefore, List.map_const']
  induction (List.range n).length with
  | zero => exact .nil _
  | succ n ih => exact .cons hstep ih

section Preparations

variable {cfg : VmopsBenchCfg}

/-- The memory object of a thread. -/
def objOf (cfg : VmopsBenchCfg) (i : ℕ) : PlatMemobj :=
  if i < cfg.corelistSize.toNat then nthHandle (if cfg.shared then 0 else i) else 0

/-- The objects that were created for the first threads. -/
def objsBefore (k i : ℕ) : PlatMemobj := if i < k then nthHandle i else 0

theorem update_objsBefore (k : ℕ) :
    Function.update (objsBefore k) k (nthHandle k) = objsBefore (k + 1) := by
  funext i
  rcases lt_trichotomy i k with hlt | rfl | hlt
  · rw [Function.update_of_ne hlt.ne, objsBefore, objsBefore, if_pos hlt, if_pos (by omega)]
  · rw [Function.update_self, objsBefore, if_pos (Nat.lt_succ_self i)]
  · rw [Function.update_of_ne hlt.ne', objsBefore, objsBefore, if_neg (by omega),
      if_neg (by omega)]

/-- **The memory objects of all threads are created.** -/
theorem exists_createCalls (cfg : VmopsBenchCfg) (hn : 0 < cfg.corelistSize.toNat) :
    ∃ name k, k < cfg.corelistSize.toNat ∧ Run (createMemobjs cfg)
      (createCalls name cfg.memsize cfg.maphuge (k + 1)) (.ret (some (objOf cfg))) := by
  cases hshared : cfg.shared with
  | true =>
    have hobj : objOf cfg = fun i => if i < cfg.corelistSize.toNat then 1#64 else 0 := by
      funext i
      rw [objOf, hshared]
      rfl
    refine ⟨fun _ => .shared, 0, hn, ?_⟩
    rw [createMemobjs, if_pos hshared, hobj]
    exact Run.call _ (.nil _)
  | false =>
    have hobj : objOf cfg = objsBefore cfg.corelistSize.toNat := by
      funext i
      rw [objOf, hshared]
      rfl
    obtain ⟨k, hk⟩ := Nat.exists_eq_succ_of_ne_zero hn.ne'
    refine ⟨fun i => .independent (cfg.coreslist.getD i 0), k, by omega, ?_⟩
    rw [createMemobjs, if_neg (by simp [hshared]), hobj, hk]
    have hloop : ∀ body : ℕ → (ℕ → PlatMemobj) → Prog mainSig (Except Unit (ℕ → PlatMemobj)),
        (∀ i, Run (body i (objsBefore i)) [⟨.vmCreate (.independent (cfg.coreslist.getD i 0))
          cfg.memsize cfg.maphuge, some (nthHandle i)⟩] (.ret (.ok (objsBefore (i + 1))))) →
        Run (Prog.forLoop (k + 1) body fun _ => 0) (createCalls
          (fun i => .independent (cfg.coreslist.getD i 0)) cfg.memsize cfg.maphuge (k + 1))
          (.ret (.ok (objsBefore (k + 1)))) := by
      intro body hbody
      have hturns := Run.for_turns (i := 0) (m := k + 1) _ objsBefore 0 fun j _ _ => hbody j
      have hzero : objsBefore 0 = fun _ => 0 := rfl
      rw [← List.map_eq_flatMap, ← List.range_eq_range', hzero, Nat.zero_add] at hturns
      exact hturns
    refine List.append_nil (createCalls _ _ _ _) ▸ (hloop _ fun i => ?_).bind (.nil _)
    rw [← update_objsBefore]
    exact Run.call _ (.nil _)

/-- **A preparation on Linux**, with nothing that fails. -/
theorem exists_linuxRun (h : Preparable cfg) (hn : 0 < cfg.corelistSize.toNat) :
    ∃ tr args linux, Run (vmopsUtilsPrepareArgs cfg) tr (.ret (some (cfg, args))) ∧
      LinuxRun LinuxTruncates LinuxState.init tr linux ∧
      ∀ i < cfg.corelistSize.toNat, args i = fillArg cfg (objOf cfg i) i := by
  obtain ⟨name, k, hk, hcreate⟩ := exists_createCalls cfg hn
  have hk : k < 2 ^ 32 := lt_trans hk cfg.corelistSize.isLt
  have hstats : ∃ tr, Run (allocateStats cfg) tr (.ret cfg) ∧
      LinuxRun LinuxTruncates LinuxState.init tr LinuxState.init := by
    rw [allocateStats]
    split
    · exact ⟨[], .nil _, .nil _⟩
    · refine ⟨_, Run.call (S := mainSig) (c := MainCall.callocStats _ _) true (.nil _), ?_⟩
      exact .cons (LinuxStep.other (c := .callocStats _ _) true rfl) (.nil _)
  obtain ⟨trStats, hstats, hlinux⟩ := hstats
  have hfirst : objOf cfg 0 = 1 := by
    rw [objOf, if_pos hn]
    cases cfg.shared <;> rfl
  have hprepopulate : Run (prepopulate (objOf cfg 0)) (mappedBefore 128) (.ret (.ok ())) := by
    rw [hfirst]
    exact run_prepopulate
  -- the same calls, on Linux
  have hcalloc : LinuxStep LinuxTruncates LinuxState.init
      ⟨.callocArgs (cfg.corelistSize + 1), true⟩ LinuxState.init :=
    LinuxStep.other (c := .callocArgs _) true rfl
  have hcreated := linuxRun_creations name h.lt h.dvd (k := k + 1) hk
  have hmapped := linuxRun_mappedBefore (A := LinuxTruncates) 128
    (createdObjs_first cfg.memsize cfg.maphuge hk) (Nat.succ_ne_zero 2)
    h.page_le
  refine ⟨_, filledArgs cfg (objOf cfg), _, ?_,
    .cons hcalloc (hlinux.append (hcreated.append hmapped)), fun i hi => if_pos hi⟩
  refine Run.call _ (hstats.bind (hcreate.bind ?_))
  rw [← List.append_nil (mappedBefore 128)]
  exact hprepopulate.bind (.nil _)

/-- **Which configurations can be prepared**, if there is a thread. -/
theorem exists_prepares_iff (hn : 0 < cfg.corelistSize.toNat) :
    (∃ cfg' args, Prepares cfg cfg' args) ↔ Preparable cfg := by
  constructor
  · rintro ⟨cfg', args, h⟩
    obtain ⟨sizes, hprepared⟩ := h.prepared
    exact hprepared.preparable hn
  · intro h
    obtain ⟨tr, args, linux, hrun, hlinux, -⟩ := exists_linuxRun h hn
    exact ⟨cfg, args, tr, linux, hrun, hlinux⟩

end Preparations

/-- The second page of two, in the setup of the map and unmap benchmark. -/
theorem inRange_secondPage : ∃ tr s' args tr' q, Run (vmopsUtilsPrepareArgs oneThread) tr
    (.ret (some (oneThread, args))) ∧ LinuxRun LinuxTruncates LinuxState.init tr s' ∧
    Run (platThreadRunFn .mapunmap4k (args 0)) tr' q ∧
    (⟨.vmMap 4096 1 4096 false, none⟩ : Event threadSig) ∈ tr' ∧
    ∃ platMobj, s'.memobjs (args 0).memobj = some platMobj ∧
      platMobj.outOfRange 4096 4096 = false := by
  have hprep : Preparable oneThread := ⟨by decide, by decide, nofun⟩
  obtain ⟨tr, args, linux, hrun, hlinux, hargs⟩ := exists_linuxRun hprep (by decide)
  let tr' : List (Event threadSig) := [⟨.readThread, ()⟩, ⟨.calloc 2 8, true⟩,
    ⟨.vmMap 4096 1 0 false, some 0x10000#64⟩, ⟨.vmMap 4096 1 4096 false, none⟩]
  have hthread : ∃ q, Run (platThreadRunFn .mapunmap4k (args 0)) tr' q := by
    rw [hargs 0 (by decide)]
    refine ⟨?_, ?_⟩
    rotate_left
    · iterate 4 refine Run.call _ ?_
      exact Run.nil _
  obtain ⟨q, hthread⟩ := hthread
  have hmem : (⟨.vmMap 4096 1 4096 false, none⟩ : Event threadSig) ∈ tr' := by simp [tr']
  obtain ⟨-, platMobj, hobj, hrange⟩ := inRange_of_prepared hrun hlinux (i := 0) (by decide) hthread
  exact ⟨tr, _, args, tr', q, hrun, hlinux, hthread, hmem, platMobj, hobj,
    (hrange _ hmem ⟨none, 4096, 1, 4096, false⟩ rfl).2.2⟩

end VmopsBench

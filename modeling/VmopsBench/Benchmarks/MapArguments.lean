import VmopsBench.Benchmarks.SmallPages
import VmopsBench.Benchmarks.Windows

/-!
# The arguments of the mapping calls

What a thread passes to `plat_vm_map` and `plat_vm_map_fixed`: the address, if it chooses one, and
which part of the memory object it asks for. `VmopsBench.RunFn.Asks` lists what each run function
can ask for, isolated or not, and `VmopsBench.asks_of_run` says that no run asks for anything else,
whatever the answers are. The only assumption is that there is a page where the function takes
remainders by the number of pages.

With one page at least, what is asked for is a part of the memory object
(`VmopsBench.RunFn.Asks.add_le`).
-/

namespace VmopsBench

open Interact Words

/-- The arguments of a mapping call. Only `plat_vm_map_fixed` is given an address. -/
structure MapArgs where
  addr : Option Addr
  size : SizeT
  memobj : PlatMemobj
  offset : SizeT
  huge : Bool

/-- The arguments of the call, if it is a mapping call. -/
def ThreadCall.mapArgs : ThreadCall → Option MapArgs
  | .vmMap size memobj offset huge => some ⟨none, size, memobj, offset, huge⟩
  | .vmMapFixed addr size memobj offset huge => some ⟨some addr, size, memobj, offset, huge⟩
  | _ => none

/-- **Where a function maps**: the fixed address, if there is one, and the offset. -/
def RunFn.Places (f : RunFn) (arg : VmopsBenchRunArg) (addr : Option Addr) (offset : SizeT) :
    Prop :=
  let first := utilsVmopsGetMapAddress arg.tid
  let nops := (opsLimit sizeMax arg.cfg).toNat
  match f with
  | .mapunmap | .protect | .tlbshoot => offset = 0 ∧ ∀ a ∈ addr, a = first
  -- the address goes on with every operation
  | .nounmap => offset = 0 ∧ ∀ a ∈ addr, arg.cfg.isolated = true ∧
      ∃ k < nops, a = first + BitVec.ofNat 64 (k * arg.cfg.memsize.toNat)
  | .elevate => offset = 0 ∧ ∀ a ∈ addr, arg.cfg.isolated = true ∧
      ∃ k, (k = 0 ∨ arg.cfg.memsize < ProtectElevate.totalMapSize arg.cfg) ∧
        a = first + BitVec.ofNat 64 (k * arg.cfg.memsize.toNat)
  | .nounmap4k => ∃ k < nops,
      offset = (arg.tid.setWidth 64 + BitVec.ofNat 64 k) % pageCount arg.cfg *
        platArchBasePageSize ∧
      ∀ a ∈ addr, a = first + BitVec.ofNat 64 (k * platArchBasePageSize.toNat)
  | .mapunmap4k | .protect4k => ∃ i < (pageCount arg.cfg).toNat,
      offset = BitVec.ofNat 64 i * platArchBasePageSize ∧
      ∀ a ∈ addr, a = first + BitVec.ofNat 64 (i * platArchBasePageSize.toNat)

/-- **What a run function can ask for.** -/
structure RunFn.Asks (f : RunFn) (arg : VmopsBenchRunArg) (m : MapArgs) : Prop where
  memobj_eq : m.memobj = arg.memobj
  size_eq : m.size = requestSize arg.cfg f
  huge_eq : m.huge = (arg.cfg.maphuge && decide (f ≠ .elevate))
  places : f.Places arg m.addr m.offset

/-- The specification of the arguments. -/
def asking (P : MapArgs → Prop) : Spec threadSig Unit where
  pre _ c := ∀ m ∈ c.mapArgs, P m
  env _ _ _ := True
  upd _ _ _ := ()

section Asking

variable {P : MapArgs → Prop} {arg : VmopsBenchRunArg} {f : RunFn} {g : Unit}

theorem asking_ignores {c : ThreadCall} (hc : c.mapArgs = none) : (asking P).Ignores c := by
  refine fun g => ⟨fun m hm => ?_, fun _ => rfl⟩
  rw [hc] at hm
  cases hm

/-- The rule of a mapping call. -/
theorem wp_asks {α : Type} {c : ThreadCall} {m : MapArgs} (hc : c.mapArgs = some m) (hm : P m)
    {k : c.Resp → Prog threadSig α} {Q : α → Unit → Prop}
    (h : ∀ r, wp (asking P) (k r) Q ()) :
    wp (asking P) (Prog.perform (S := threadSig) c >>= k) Q g := by
  refine wp_perform_bind.mpr ⟨fun m' hm' => ?_, fun r _ => h r⟩
  rw [hc] at hm'
  exact Option.some_inj.mp hm' ▸ hm

/-! ### The functions on one region -/

theorem wp_mapUnmapOp_asks
    (hplace : ∀ addr, (∀ a ∈ addr, a = utilsVmopsGetMapAddress arg.tid) →
      P ⟨addr, arg.cfg.memsize, arg.memobj, 0, arg.cfg.maphuge⟩) :
    wp (asking P) (MapUnmap.mapUnmapOp arg ()) (fun _ _ => True) g := by
  have hunmap : ∀ addr, wp (asking P) (do
      if ← platVmUnmap addr arg.cfg.memsize then return (.ok () : Except Unit Unit)
      else return .error ()) (fun _ _ => True) () := by
    refine fun addr => wp_ignored (asking_ignores rfl) fun ok => ?_
    cases ok <;> trivial
  rw [MapUnmap.mapUnmapOp]
  split
  · refine wp_asks rfl (hplace _ fun a ha => (Option.some_inj.mp ha).symm) fun ok => ?_
    cases ok with
    | false => trivial
    | true => exact hunmap _
  · refine wp_asks rfl (hplace none fun a ha => by cases ha) fun r => ?_
    cases r with
    | none => trivial
    | some addr => exact hunmap addr

theorem wp_mapunmap_asks : wp (asking (RunFn.mapunmap.Asks arg)) (MapUnmap.benchRunFn arg)
    (fun _ _ => True) () := by
  refine wp_timedRun_of_ignores (fun _ => asking_ignores rfl) (asking_ignores rfl)
    (fun _ _ _ => True) trivial fun k v g _ _ => ?_
  refine wp_mono _ (fun o g _ => ?_) (wp_mapUnmapOp_asks fun addr haddr => ?_)
  · cases o <;> trivial
  · exact ⟨rfl, rfl, (Bool.and_true _).symm, rfl, haddr⟩

theorem wp_protectTwice_asks {addr : Addr} {size : SizeT} :
    wp (asking P) (Protect.protectTwice addr size) (fun _ _ => True) g := by
  refine wp_ignored (asking_ignores rfl) fun lowered => ?_
  cases lowered with
  | false => trivial
  | true => exact ⟨(asking_ignores rfl _).1, fun _ _ => trivial⟩

theorem wp_protect_asks : wp (asking (RunFn.protect.Asks arg)) (Protect.benchRunFn arg)
    (fun _ _ => True) () := by
  have hplace : ∀ addr, (∀ a ∈ addr, a = utilsVmopsGetMapAddress arg.tid) →
      RunFn.protect.Asks arg ⟨addr, arg.cfg.memsize, arg.memobj, 0, arg.cfg.maphuge⟩ :=
    fun addr haddr => ⟨rfl, rfl, (Bool.and_true _).symm, rfl, haddr⟩
  have hregion : wp (asking (RunFn.protect.Asks arg)) (Protect.mapRegion arg)
      (fun _ _ => True) () := by
    rw [Protect.mapRegion]
    split
    · refine wp_asks rfl (hplace _ fun a ha => (Option.some_inj.mp ha).symm) fun ok => ?_
      cases ok <;> trivial
    · refine ⟨fun m hm => ?_, fun _ _ => trivial⟩
      obtain rfl := Option.some_inj.mp hm
      exact hplace none fun a ha => by cases ha
  refine (wp_bind _ _).mpr (wp_mono _ (fun region _ _ => ?_) hregion)
  cases region with
  | none => trivial
  | some addr =>
    refine wp_timedRun_of_ignores (fun _ => asking_ignores rfl) (asking_ignores rfl)
      (fun _ _ _ => True) trivial fun k v g _ _ => ?_
    refine (wp_bind _ _).mpr (wp_mono _ (fun done _ _ => ?_) wp_protectTwice_asks)
    cases done with
    | true => trivial
    | false => exact wp_ignored (asking_ignores rfl) fun _ => trivial

theorem wp_spin_asks {sum : Addr} : wp (asking P) (TlbShoot.spin sum) (fun _ _ => True) g := by
  refine ⟨fun _ _ => True, fun _ _ => True, trivial, fun _ k _ => ?_, fun _ _ _ => trivial⟩
  refine wp_ignored (asking_ignores rfl) fun done => ?_
  split
  · exact wp_ignored (asking_ignores rfl) fun _ => trivial
  · trivial

theorem wp_tlbshoot_asks : wp (asking (RunFn.tlbshoot.Asks arg)) (TlbShoot.benchRunFn arg)
    (fun _ _ => True) () := by
  have hplace : ∀ addr, (∀ a ∈ addr, a = utilsVmopsGetMapAddress arg.tid) →
      RunFn.tlbshoot.Asks arg ⟨addr, arg.cfg.memsize, arg.memobj, 0, arg.cfg.maphuge⟩ :=
    fun addr haddr => ⟨rfl, rfl, (Bool.and_true _).symm, rfl, haddr⟩
  refine wp_asks rfl (hplace none fun a ha => by cases ha) fun mapped => ?_
  cases mapped with
  | none => trivial
  | some taddr =>
    refine wp_ignored (asking_ignores rfl) fun _ => wp_ignored (asking_ignores rfl) fun t => ?_
    dsimp only
    split
    · refine (wp_bind _ _).mpr (wp_mono _ (fun _ _ _ => ?_) wp_spin_asks)
      exact wp_ignored (asking_ignores rfl) fun _ => trivial
    · refine (wp_bind _ _).mpr (wp_timedLoop (fun _ _ => True) trivial (fun s k _ _ => ?_)
        fun _ _ _ _ => ?_)
      · refine wp_mono _ (fun o k _ => ?_) (wp_mapUnmapOp_asks hplace)
        cases o with
        | error _ => trivial
        | ok _ => exact ⟨(asking_ignores rfl _).1, fun _ _ => trivial⟩
      · refine wp_ignored (asking_ignores rfl) fun _ => ?_
        exact wp_ignored (asking_ignores rfl) fun _ => wp_ignored (asking_ignores rfl)
          fun _ => trivial

/-! ### The functions that only map -/

theorem wp_nounmap_asks : wp (asking (RunFn.nounmap.Asks arg)) (MapUnmap.benchRunNounmapFn arg)
    (fun _ _ => True) () := by
  refine wp_timedRun_of_ignores (fun _ => asking_ignores rfl) (asking_ignores rfl)
    (fun k addr _ => arg.cfg.isolated = true → addr = utilsVmopsGetMapAddress arg.tid +
      BitVec.ofNat 64 (k.toNat * arg.cfg.memsize.toNat)) (fun _ => by simp) ?_
  intro k addr g hk haddr
  rw [MapUnmap.mapOnlyOp]
  split
  · next hiso =>
    obtain rfl := haddr hiso
    refine wp_asks rfl ⟨rfl, rfl, (Bool.and_true _).symm, rfl, fun a ha => ⟨hiso, k.toNat,
      BitVec.lt_def.mp hk, (Option.some_inj.mp ha).symm⟩⟩ fun ok => ?_
    cases ok with
    | false => trivial
    | true =>
      intro _
      rw [toNat_succ_of_lt hk]
      exact add_ofNat_mul_succ _ _ _
  · next hiso =>
    refine wp_asks rfl ⟨rfl, rfl, (Bool.and_true _).symm, rfl, fun a ha => by cases ha⟩ fun r => ?_
    cases r with
    | none => trivial
    | some a => exact fun h => absurd h hiso

theorem wp_nounmap4k_asks : wp (asking (RunFn.nounmap4k.Asks arg))
    (MapUnmap.benchRunNounmap4kFn arg) (fun _ _ => True) () := by
  refine wp_timedRun_of_ignores (fun _ => asking_ignores rfl) (asking_ignores rfl)
    (fun k v _ => v.2 = arg.tid.setWidth 64 + BitVec.ofNat 64 k.toNat ∧
      (arg.cfg.isolated = true → v.1 = utilsVmopsGetMapAddress arg.tid +
        BitVec.ofNat 64 (k.toNat * platArchBasePageSize.toNat))) (by simp) ?_
  rintro k ⟨addr, page⟩ g hk ⟨rfl, haddr⟩
  have hnext : arg.tid.setWidth 64 + BitVec.ofNat 64 k.toNat + 1 =
      arg.tid.setWidth 64 + BitVec.ofNat 64 (k + 1).toNat := by
    rw [toNat_succ_of_lt hk, BitVec.ofNat_add, BitVec.add_assoc]
    rfl
  have hfinish : ∀ {Q : Unit → Unit → Prop}, (∀ g, Q () g) →
      wp (asking (RunFn.nounmap4k.Asks arg)) (platThreadBarrier .finish) Q () :=
    fun hq => ⟨(asking_ignores rfl ()).1, fun _ _ => hq _⟩
  rw [MapUnmap.mapOnly4kOp]
  split
  · next hiso =>
    obtain rfl := haddr hiso
    refine wp_asks rfl ⟨rfl, rfl, (Bool.and_true _).symm, k.toNat, BitVec.lt_def.mp hk, rfl,
      fun a ha => (Option.some_inj.mp ha).symm⟩ fun ok => ?_
    cases ok with
    | false => exact hfinish fun _ => trivial
    | true =>
      refine ⟨hnext, fun _ => ?_⟩
      rw [toNat_succ_of_lt hk]
      exact add_ofNat_mul_succ _ _ platArchBasePageSize
  · next hiso =>
    refine wp_asks rfl ⟨rfl, rfl, (Bool.and_true _).symm, k.toNat, BitVec.lt_def.mp hk, rfl,
      fun a ha => by cases ha⟩ fun r => ?_
    cases r with
    | none => exact hfinish fun _ => trivial
    | some a => exact ⟨hnext, fun h => absurd h hiso⟩

theorem wp_elevate_asks : wp (asking (RunFn.elevate.Asks arg)) (ProtectElevate.benchRunFn arg)
    (fun _ _ => True) () := by
  have hhuge : false = (arg.cfg.maphuge && decide (RunFn.elevate ≠ .elevate)) := by simp
  refine (wp_bind _ _).mpr (wp_whileLoop (fun s _ => arg.cfg.isolated = true →
    s.2 = utilsVmopsGetMapAddress arg.tid ∧ ∃ k, s.1 = BitVec.ofNat 64 (k * arg.cfg.memsize.toNat) ∧
      (k ≤ 1 ∨ arg.cfg.memsize < ProtectElevate.totalMapSize arg.cfg)) ?_ ?_ ?_)
  · intro hiso
    refine ⟨?_, 0, ?_, .inl (Nat.zero_le 1)⟩
    · rw [ProtectElevate.firstAddr, if_pos hiso]
    · simp
  · -- a turn: a chunk is mapped at `addr + i`
    rintro ⟨i, addr⟩ g hinv hrun
    have hlt := of_decide_eq_true hrun
    rw [ProtectElevate.mapChunk]
    dsimp only
    split
    · next hiso =>
      obtain ⟨rfl, k, rfl, hk⟩ := hinv hiso
      have hfits : k = 0 ∨ arg.cfg.memsize < ProtectElevate.totalMapSize arg.cfg := by
        rcases hk with hk | hk
        · rcases Nat.le_one_iff_eq_zero_or_eq_one.mp hk with rfl | rfl
          · exact .inl rfl
          · right
            simpa using hlt
        · exact .inr hk
      refine wp_asks rfl ⟨rfl, rfl, hhuge, rfl, fun a ha => ⟨hiso, k, hfits,
        (Option.some_inj.mp ha).symm⟩⟩ fun ok => ?_
      cases ok with
      | false => trivial
      | true =>
        refine wp_ignored (asking_ignores rfl) fun _ _ => ⟨rfl, k + 1, ofNat_mul_succ _ _, ?_⟩
        rcases hfits with rfl | hfits
        · exact .inl (Nat.le_refl 1)
        · exact .inr hfits
    · next hiso =>
      refine wp_asks rfl ⟨rfl, rfl, hhuge, rfl, fun a ha => by cases ha⟩ fun r => ?_
      cases r with
      | none => trivial
      | some a => exact wp_ignored (asking_ignores rfl) fun _ h => absurd h hiso
  · rintro ⟨i, addr⟩ g - -
    refine wp_timedRun_of_ignores (fun _ => asking_ignores rfl) (asking_ignores rfl)
      (fun _ _ _ => True) trivial fun _ v g _ _ => ?_
    refine wp_ignored (asking_ignores rfl) fun done => ?_
    cases done with
    | true => trivial
    | false => exact wp_ignored (asking_ignores rfl) fun _ => trivial

/-! ### The 4k functions -/

theorem wp_mapPages_asks (hf : f = .mapunmap4k ∨ f = .protect4k) :
    wp (asking (f.Asks arg)) (mapPages arg) (onExcept (fun _ _ => True) fun addrs _ =>
      arg.cfg.isolated = true → FilledTo arg (pageCount arg.cfg).toNat addrs) () := by
  have hasks : ∀ (addr : Option Addr) (i : ℕ), i < (pageCount arg.cfg).toNat →
      (∀ a ∈ addr, a = utilsVmopsGetMapAddress arg.tid +
        BitVec.ofNat 64 (i * platArchBasePageSize.toNat)) →
      f.Asks arg ⟨addr, platArchBasePageSize, arg.memobj, BitVec.ofNat 64 i * platArchBasePageSize,
        arg.cfg.maphuge⟩ := by
    intro addr i hi haddr
    rcases hf with rfl | rfl <;>
      exact ⟨rfl, rfl, (Bool.and_true _).symm, i, hi, rfl, haddr⟩
  rw [mapPages]
  dsimp only
  split
  · refine (wp_bind _ _).mpr (wp_forLoop (fun i s _ => FilledTo arg i s.1 ∧
      s.2 = utilsVmopsGetMapAddress arg.tid + BitVec.ofNat 64 (i * platArchBasePageSize.toNat))
      ⟨fun i hi => absurd hi (Nat.not_lt_zero i), by simp⟩ ?_ fun s g hs _ => hs.1)
    rintro i ⟨addrs, addr⟩ g hi ⟨hfill, rfl⟩
    refine wp_asks rfl (hasks _ i hi fun a ha => (Option.some_inj.mp ha).symm) fun ok => ?_
    cases ok with
    | false => trivial
    | true => exact ⟨hfill.succ, add_ofNat_mul_succ _ _ platArchBasePageSize⟩
  · next hiso =>
    refine wp_forLoop (fun _ _ _ => True) trivial (fun i addrs g hi _ => ?_)
      fun _ _ _ h => absurd h hiso
    refine wp_asks rfl (hasks none i hi fun a ha => by cases ha) fun r => ?_
    cases r <;> trivial

/-- The skeleton of the 4k functions, with what is known of the array when the thread is
isolated. -/
theorem wp_pagedRun_asks (hf : f = .mapunmap4k ∨ f = .protect4k)
    {op : Pages → Prog threadSig (Except Pages Pages)}
    (hop : ∀ v g, (arg.cfg.isolated = true → FilledTo arg (pageCount arg.cfg).toNat v.addrs) →
      wp (asking (f.Asks arg)) (op v) (onExcept (fun _ _ => True) fun v _ =>
        arg.cfg.isolated = true → FilledTo arg (pageCount arg.cfg).toNat v.addrs) g) :
    wp (asking (f.Asks arg)) (pagedRun arg op) (fun _ _ => True) () :=
  wp_pagedRun_of_ignores (fun _ => asking_ignores rfl) (asking_ignores rfl)
    (fun _ _ => asking_ignores rfl) (fun _ _ => asking_ignores rfl) (asking_ignores rfl)
    (fun v _ => arg.cfg.isolated = true → FilledTo arg (pageCount arg.cfg).toNat v.addrs)
    (wp_mapPages_asks hf) hop

theorem wp_mapunmap4k_asks (hpages : pageCount arg.cfg ≠ 0) :
    wp (asking (RunFn.mapunmap4k.Asks arg)) (MapUnmap.benchRun4kFn arg) (fun _ _ => True) () := by
  refine wp_pagedRun_asks (.inl rfl) fun v g hfill => ?_
  generalize hidx : v.page % pageCount arg.cfg = idx
  have hlt : idx.toNat < (pageCount arg.cfg).toNat := hidx ▸ toNat_umod_lt hpages
  have hasks : ∀ addr : Option Addr, (∀ a ∈ addr, a = utilsVmopsGetMapAddress arg.tid +
      BitVec.ofNat 64 (idx.toNat * platArchBasePageSize.toNat)) →
      RunFn.mapunmap4k.Asks arg ⟨addr, platArchBasePageSize, arg.memobj,
        idx * platArchBasePageSize, arg.cfg.maphuge⟩ := by
    refine fun addr haddr => ⟨rfl, rfl, (Bool.and_true _).symm, idx.toNat, hlt, ?_, haddr⟩
    rw [BitVec.ofNat_toNat, BitVec.setWidth_eq]
  rw [MapUnmap.mapUnmap4kOp]
  dsimp only
  rw [hidx]
  refine wp_ignored (asking_ignores rfl) fun unmapped => ?_
  cases unmapped with
  | false => trivial
  | true =>
    rw [if_pos rfl]
    split
    · next hiso =>
      -- the address comes from the array that was filled before
      refine wp_asks rfl (hasks _ fun a ha => ?_) fun ok => ?_
      · exact (Option.some_inj.mp ha).symm.trans (hfill hiso _ hlt)
      · cases ok with
        | false => trivial
        | true => exact hfill
    · next hiso =>
      refine wp_asks rfl (hasks none fun a ha => by cases ha) fun r => ?_
      cases r with
      | none => trivial
      | some addr => exact fun h => absurd h hiso

theorem wp_protect4k_asks : wp (asking (RunFn.protect4k.Asks arg)) (Protect.benchRun4kFn arg)
    (fun _ _ => True) () := by
  refine wp_pagedRun_asks (.inr rfl) fun v g hfill => ?_
  refine (wp_bind _ _).mpr (wp_mono _ (fun done _ _ => ?_) wp_protectTwice_asks)
  cases done with
  | true => exact hfill
  | false => trivial

/-! ### Every function -/

/-- **No run asks for anything else**, if there is a page to take the remainder by. -/
theorem wp_asks_run (hpages : pageCount arg.cfg ≠ 0) :
    wp (asking (f.Asks arg)) (platThreadRunFn f arg) (fun _ _ => True) () := by
  refine wp_ignored (asking_ignores rfl) fun _ => ?_
  cases f with
  | mapunmap => exact wp_mapunmap_asks
  | mapunmap4k => exact wp_mapunmap4k_asks hpages
  | nounmap => exact wp_nounmap_asks
  | nounmap4k => exact wp_nounmap4k_asks
  | protect => exact wp_protect_asks
  | protect4k => exact wp_protect4k_asks
  | elevate => exact wp_elevate_asks
  | tlbshoot => exact wp_tlbshoot_asks

theorem admits_asking (tr : List (Event threadSig)) : (asking P).Admits () tr :=
  (asking P).admits_of_forall (fun _ _ _ => trivial) () tr

/-- The calls of a run, … -/
theorem asks_of_run (hpages : pageCount arg.cfg ≠ 0) {tr : List (Event threadSig)}
    {q : Prog threadSig RunResult} (hrun : Run (platThreadRunFn f arg) tr q) {e : Event threadSig}
    (he : e ∈ tr) {m : MapArgs} (hm : e.call.mapArgs = some m) : f.Asks arg m := by
  obtain ⟨_, hpre⟩ := (wp_run hrun (wp_asks_run hpages) (admits_asking tr)).1.of_mem he
  exact hpre m hm

/-- … and the one that it comes to. -/
theorem asks_of_comesTo (hpages : pageCount arg.cfg ≠ 0) {tr : List (Event threadSig)}
    {c : ThreadCall} {k : c.Resp → Prog threadSig RunResult}
    (hrun : Run (platThreadRunFn f arg) tr (.call c k)) {m : MapArgs} (hm : c.mapArgs = some m) :
    f.Asks arg m :=
  (wp_run hrun (wp_asks_run hpages) (admits_asking tr)).2.1 m hm

/-- **What is asked for is a part of the memory object.** -/
theorem RunFn.Asks.add_le {m : MapArgs} (h : f.Asks arg m) (hpages : pageCount arg.cfg ≠ 0) :
    m.offset.toNat + m.size.toNat ≤ arg.cfg.memsize.toNat := by
  -- a page that begins in the object ends in it
  have hpage : ∀ i < (pageCount arg.cfg).toNat,
      (BitVec.ofNat 64 i * platArchBasePageSize).toNat + platArchBasePageSize.toNat ≤
        arg.cfg.memsize.toNat := by
    intro i hi
    have hmem := arg.cfg.memsize.isLt
    have hsize : platArchBasePageSize.toNat = 4096 := rfl
    rw [toNat_pageCount] at hi
    rw [BitVec.toNat_mul, BitVec.toNat_ofNat, hsize]
    omega
  have hplaces := h.places
  rw [h.size_eq]
  cases f with
  | mapunmap | protect | tlbshoot | nounmap | elevate =>
    rw [hplaces.1]
    exact (Nat.zero_add _).le
  | mapunmap4k | protect4k =>
    obtain ⟨i, hi, hoffset, -⟩ := hplaces
    rw [hoffset]
    exact hpage i hi
  | nounmap4k =>
    obtain ⟨k, -, hoffset, -⟩ := hplaces
    have hlt := hpage _ (toNat_umod_lt hpages (x := arg.tid.setWidth 64 + BitVec.ofNat 64 k))
    rw [BitVec.ofNat_toNat, BitVec.setWidth_eq] at hlt
    rw [hoffset]
    exact hlt

end Asking

end VmopsBench

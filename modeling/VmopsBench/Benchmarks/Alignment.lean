import VmopsBench.Benchmarks.MapArguments
import VmopsBench.Platform.LinuxMaps

/-!
# Requests that begin a page

`mmap` wants the offset of a mapping, and the address of a fixed one, to be multiples of the page
size that the mapping is made with. Whether the requests of a run function are
(`VmopsBench.MapArgs.Aligned`) depends on the size of the memory object, the flag for huge pages,
the options and the number of operations together, and `VmopsBench.RunFn.Aligns` is the condition.

It is enough for every request of every run (`VmopsBench.RunFn.Asks.aligned`). Where it fails there
is a run that comes to a request that is not aligned: the second page of a function that maps small
pages as huge ones, or the second fixed mapping of a function that goes on by the size of the
memory object.

There is a second request only after a first one that was granted. What a machine can give has its
limits (`VmopsBench.MemoryLimits`), and a function that they stop at its first request asks for
nothing that is not aligned either (`VmopsBench.RunFn.StoppedBy`).
-/

namespace VmopsBench

open Interact Words

/-! ### What a machine can give -/

/-- **The limits of a machine.** -/
structure MemoryLimits where
  /-- The end of the addresses at which something can be mapped. -/
  addrEnd : ℕ
  /-- The size of the largest block that `calloc` can give. -/
  blockMax : ℕ

/-- An answer within the limits: a mapping does not go beyond the last address, and a block is not
larger than the largest one. -/
def MemoryLimits.Allows (L : MemoryLimits) : (c : ThreadCall) → c.Resp → Prop
  | .vmMap size .., r => ∀ addr ∈ r, addr.toNat + size.toNat ≤ L.addrEnd
  | .vmMapFixed addr size .., r => r = true → addr.toNat + size.toNat ≤ L.addrEnd
  | .calloc nmemb size, r => r = true → nmemb.toNat * size.toNat ≤ L.blockMax
  | _, _ => True

/-- The fixed mapping at the first address of a thread is within the limits. -/
def MemoryLimits.Fits (L : MemoryLimits) (tid : BitVec 32) (size : SizeT) : Prop :=
  (utilsVmopsGetMapAddress tid).toNat + size.toNat ≤ L.addrEnd

instance (L : MemoryLimits) (tid : BitVec 32) (size : SizeT) : Decidable (L.Fits tid size) :=
  inferInstanceAs (Decidable (_ ≤ _))

/-- A mapping at address zero is within the limits, if one at a fixed address is. -/
theorem MemoryLimits.Fits.allows_zero {L : MemoryLimits} {tid : BitVec 32} {size : SizeT}
    (h : L.Fits tid size) : ∀ addr ∈ some 0#64, addr.toNat + size.toNat ≤ L.addrEnd := by
  rintro addr ⟨⟩
  exact (Nat.add_le_add_right (Nat.zero_le _) _).trans h

/-- **What `mmap` wants** of a request. -/
structure MapArgs.Aligned (m : MapArgs) : Prop where
  offset : mapPageSize m.huge ∣ m.offset.toNat
  addr : ∀ a ∈ m.addr, mapPageSize m.huge ∣ a.toNat

/-- **Every request of a thread is aligned**, in every run within the limits. -/
def RequestsAligned (L : MemoryLimits) (f : RunFn) (arg : VmopsBenchRunArg) : Prop :=
  ∀ tr c k, Run (platThreadRunFn f arg) tr (.call c k) → (∀ e ∈ tr, L.Allows e.call e.resp) →
    ∀ m, c.mapArgs = some m → m.Aligned

/-- **The condition on the configuration.** -/
def RunFn.Aligns (f : RunFn) (cfg : VmopsBenchCfg) : Prop :=
  match f with
  | .mapunmap | .protect | .tlbshoot => True
  | .mapunmap4k | .protect4k => cfg.maphuge = false
  -- the first thread has one operation, on the first page
  | .nounmap4k => cfg.maphuge = false ∨ cfg.nops = 1 ∧ cfg.corelistSize = 1
  | .nounmap => cfg.isolated = false ∨ mapPageSize cfg.maphuge ∣ cfg.memsize.toNat ∨ cfg.nops = 1
  -- these mappings are never huge, and a single one may be enough
  | .elevate => cfg.isolated = false ∨ mapPageSize false ∣ cfg.memsize.toNat ∨
      ProtectElevate.totalMapSize cfg ≤ cfg.memsize

/-- **The function is stopped by the limits** at its first request: there is no block for the array
of the addresses, or the first region of no thread fits. -/
def RunFn.StoppedBy (L : MemoryLimits) (f : RunFn) (cfg : VmopsBenchCfg) : Prop :=
  match f with
  | .mapunmap4k | .protect4k => L.blockMax < (pageCount cfg).toNat * 8
  | .nounmap | .elevate => cfg.isolated = true ∧
      ∀ i < cfg.corelistSize.toNat, ¬L.Fits (BitVec.ofNat 32 i) cfg.memsize
  | _ => False

/-! ### Multiples of a page -/

theorem mapPageSize_dvd_two_pow (huge : Bool) : mapPageSize huge ∣ 2 ^ 64 := by
  cases huge <;> decide

/-- The fixed addresses of a thread begin on a huge page. -/
theorem mapPageSize_dvd_mapAddress (huge : Bool) (tid : BitVec 32) :
    mapPageSize huge ∣ (utilsVmopsGetMapAddress tid).toNat := by
  have hpow : mapPageSize huge ∣ 2 ^ 38 := by cases huge <;> decide
  rw [toNat_mapAddress, Nat.dvd_mod_iff (mapPageSize_dvd_two_pow huge)]
  refine Nat.dvd_add (Dvd.dvd.mul_left (hpow.trans ?_) _) hpow
  exact Nat.pow_dvd_pow 2 (by omega)

/-- An address some way behind the first one. -/
theorem mapPageSize_dvd_add_iff (huge : Bool) (tid : BitVec 32) (n : ℕ) :
    mapPageSize huge ∣ (utilsVmopsGetMapAddress tid + BitVec.ofNat 64 n).toNat ↔
      mapPageSize huge ∣ n := by
  have hpow := mapPageSize_dvd_two_pow huge
  rw [BitVec.toNat_add, Nat.dvd_mod_iff hpow,
    Nat.dvd_add_right (mapPageSize_dvd_mapAddress huge tid), BitVec.toNat_ofNat,
    Nat.dvd_mod_iff hpow]

/-- The offset of a small page. -/
theorem small_dvd_mul (x : SizeT) :
    mapPageSize false ∣ (x * platArchBasePageSize).toNat := by
  rw [BitVec.toNat_mul, Nat.dvd_mod_iff (mapPageSize_dvd_two_pow false)]
  exact Nat.dvd_mul_left _ _

/-! ### The condition is enough -/

section Enough

variable {arg : VmopsBenchRunArg} {f : RunFn} {m : MapArgs}

theorem toNat_opsLimit_one {cfg : VmopsBenchCfg} (h : cfg.nops = 1) :
    (opsLimit sizeMax cfg).toNat = 1 := by
  rw [opsLimit, h]
  rfl

/-- An offset of zero, and fixed addresses of a page. -/
theorem MapArgs.Aligned.of_zero (hoffset : m.offset = 0)
    (haddr : ∀ a ∈ m.addr, mapPageSize m.huge ∣ a.toNat) : m.Aligned :=
  ⟨hoffset ▸ Nat.dvd_zero _, haddr⟩

/-- **Everything that is asked for is aligned.** -/
theorem RunFn.Asks.aligned (h : f.Asks arg m) (halign : f.Aligns arg.cfg)
    (htid : arg.tid.toNat < arg.cfg.corelistSize.toNat) : m.Aligned := by
  obtain ⟨-, -, hhuge, hplaces⟩ := h
  have hfirst := mapPageSize_dvd_mapAddress m.huge arg.tid
  have hsmall : mapPageSize false ∣ platArchBasePageSize.toNat := dvd_rfl
  cases f with
  | mapunmap | protect | tlbshoot =>
    exact .of_zero hplaces.1 fun a ha => (hplaces.2 a ha) ▸ hfirst
  | mapunmap4k | protect4k =>
    obtain ⟨i, -, hoffset, haddr⟩ := hplaces
    have hfalse : m.huge = false := hhuge.trans (Bool.and_eq_false_iff.mpr (.inl halign))
    refine ⟨?_, fun a ha => ?_⟩
    · rw [hfalse, hoffset]
      exact small_dvd_mul _
    · rw [haddr a ha, mapPageSize_dvd_add_iff, hfalse]
      exact Nat.dvd_mul_left _ _
  | nounmap =>
    refine .of_zero hplaces.1 fun a ha => ?_
    obtain ⟨hiso, k, hk, rfl⟩ := hplaces.2 a ha
    rw [mapPageSize_dvd_add_iff]
    have hhuge : m.huge = arg.cfg.maphuge := hhuge.trans (Bool.and_true _)
    rcases halign with hdefault | hdvd | hone
    · exact absurd hiso (Bool.eq_false_iff.mp hdefault)
    · rw [hhuge]
      exact Dvd.dvd.mul_left hdvd k
    · rw [toNat_opsLimit_one hone] at hk
      obtain rfl : k = 0 := by omega
      rw [Nat.zero_mul]
      exact Nat.dvd_zero _
  | elevate =>
    refine .of_zero hplaces.1 fun a ha => ?_
    obtain ⟨hiso, k, hk, rfl⟩ := hplaces.2 a ha
    rw [mapPageSize_dvd_add_iff]
    have hfalse : m.huge = false := hhuge.trans (Bool.and_false _)
    rcases halign with hdefault | hdvd | hone
    · exact absurd hiso (Bool.eq_false_iff.mp hdefault)
    · rw [hfalse]
      exact Dvd.dvd.mul_left hdvd k
    · have hk : k = 0 := hk.resolve_right (BitVec.not_lt.mpr hone)
      rw [hk, Nat.zero_mul]
      exact Nat.dvd_zero _
  | nounmap4k =>
    obtain ⟨k, hk, hoffset, haddr⟩ := hplaces
    rcases halign with hfalse | ⟨hone, hcores⟩
    · have hfalse : m.huge = false := hhuge.trans (Bool.and_eq_false_iff.mpr (.inl hfalse))
      refine ⟨?_, fun a ha => ?_⟩
      · rw [hfalse, hoffset]
        exact small_dvd_mul _
      · rw [haddr a ha, mapPageSize_dvd_add_iff, hfalse]
        exact Nat.dvd_mul_left _ _
    · rw [toNat_opsLimit_one hone] at hk
      rw [hcores] at htid
      obtain rfl : k = 0 := by omega
      have htid : arg.tid = 0 := BitVec.eq_of_toNat_eq (Nat.lt_one_iff.mp htid)
      refine .of_zero ?_ fun a ha => ?_
      · rw [hoffset, htid]
        simp
      · rw [haddr a ha, mapPageSize_dvd_add_iff, Nat.zero_mul]
        exact Nat.dvd_zero _

end Enough

/-! ### Functions that the limits stop -/

/-- The specification of the requests, when the answers are within the limits. -/
def MemoryLimits.asking (L : MemoryLimits) (P : MapArgs → Prop) : Spec threadSig Unit where
  pre _ c := ∀ m ∈ c.mapArgs, P m
  env _ c r := L.Allows c r
  upd _ _ _ := ()

section Stopped

variable {L : MemoryLimits} {P : MapArgs → Prop} {arg : VmopsBenchRunArg}

theorem MemoryLimits.asking_ignores {c : ThreadCall} (hc : c.mapArgs = none) :
    (L.asking P).Ignores c := by
  refine fun g => ⟨fun m hm => ?_, fun _ => rfl⟩
  rw [hc] at hm
  cases hm

/-- The rule of a request at a fixed address. -/
theorem wp_mapFixed_asks {α : Type} {addr : Addr} {size : SizeT} {memobj : PlatMemobj}
    {offset : SizeT} {huge : Bool} (hP : P ⟨some addr, size, memobj, offset, huge⟩)
    {k : Bool → Prog threadSig α} {Q : α → Unit → Prop}
    (h : ∀ ok : Bool, (ok = true → addr.toNat + size.toNat ≤ L.addrEnd) →
      wp (L.asking P) (k ok) Q ()) :
    wp (L.asking P) (platVmMapFixed addr size memobj offset huge >>= k) Q () := by
  refine wp_perform_bind.mpr ⟨fun m hm => ?_, fun ok hok => h ok hok⟩
  obtain rfl := Option.some_inj.mp hm
  exact hP

/-- A function of pages without room for their addresses asks for nothing. -/
theorem wp_pagedRun_noBlock {op : Pages → Prog threadSig (Except Pages Pages)}
    (hblock : L.blockMax < (pageCount arg.cfg).toNat * 8) :
    wp (L.asking P) (pagedRun arg op) (fun _ _ => True) () := by
  refine wp_perform_bind.mpr ⟨(L.asking_ignores (P := P) rfl ()).1, fun ok hok => ?_⟩
  cases ok with
  | false => trivial
  | true => exact absurd (hok rfl) (Nat.not_le.mpr hblock)

/-- A map-only function whose first region does not fit asks for no other one. -/
theorem wp_nounmap_noRoom (hiso : arg.cfg.isolated = true)
    (hroom : ¬L.Fits arg.tid arg.cfg.memsize)
    (hP : P ⟨some (utilsVmopsGetMapAddress arg.tid), arg.cfg.memsize, arg.memobj, 0,
      arg.cfg.maphuge⟩) :
    wp (L.asking P) (MapUnmap.benchRunNounmapFn arg) (fun _ _ => True) () := by
  refine wp_timedRun_of_ignores (fun _ => L.asking_ignores rfl) (L.asking_ignores rfl)
    (fun _ addr _ => addr = utilsVmopsGetMapAddress arg.tid) rfl ?_
  rintro k - g - rfl
  rw [MapUnmap.mapOnlyOp, if_pos hiso]
  refine wp_mapFixed_asks hP fun ok hok => ?_
  cases ok with
  | false => trivial
  | true => exact absurd (hok rfl) hroom

/-- Likewise for the function that elevates. -/
theorem wp_elevate_noRoom (hiso : arg.cfg.isolated = true)
    (hroom : ¬L.Fits arg.tid arg.cfg.memsize)
    (hP : P ⟨some (utilsVmopsGetMapAddress arg.tid), arg.cfg.memsize, arg.memobj, 0, false⟩) :
    wp (L.asking P) (ProtectElevate.benchRunFn arg) (fun _ _ => True) () := by
  refine (wp_bind _ _).mpr (wp_whileLoop
    (fun s _ => s = (0, utilsVmopsGetMapAddress arg.tid)) ?_ ?_ ?_)
  · rw [ProtectElevate.firstAddr, if_pos hiso]
  · rintro - g rfl -
    rw [ProtectElevate.mapChunk]
    dsimp only
    have hzero : utilsVmopsGetMapAddress arg.tid + 0 = utilsVmopsGetMapAddress arg.tid :=
      BitVec.add_zero _
    rw [if_pos hiso, hzero]
    refine wp_mapFixed_asks hP fun ok hok => ?_
    cases ok with
    | false => trivial
    | true => exact absurd (hok rfl) hroom
  · rintro s g - -
    refine wp_timedRun_of_ignores (fun _ => L.asking_ignores rfl) (L.asking_ignores rfl)
      (fun _ _ _ => True) trivial fun _ v g _ _ => ?_
    refine wp_ignored (L.asking_ignores rfl) fun done => ?_
    cases done with
    | true => trivial
    | false => exact wp_ignored (L.asking_ignores rfl) fun _ => trivial

/-- What is proved of the requests within the limits holds of every run within them. -/
theorem of_asking {f : RunFn} (hwp : wp (L.asking P) (f.run arg) (fun _ _ => True) ())
    {tr : List (Event threadSig)} {c : ThreadCall} {k : c.Resp → Prog threadSig RunResult}
    (hrun : Run (platThreadRunFn f arg) tr (.call c k))
    (htr : ∀ e ∈ tr, L.Allows e.call e.resp) {m : MapArgs} (hm : c.mapArgs = some m) : P m := by
  have hadm : (L.asking P).Admits () tr :=
    Spec.admits_of_mem _ (fun e he _ => htr e he) ()
  have hwp : wp (L.asking P) (platThreadRunFn f arg) (fun _ _ => True) () :=
    wp_ignored (L.asking_ignores rfl) fun _ => hwp
  exact (wp_run hrun hwp hadm).2.1 m hm

end Stopped

/-- **A function that is stopped** makes no request that is not aligned. -/
theorem RunFn.StoppedBy.requestsAligned {L : MemoryLimits} {f : RunFn} {arg : VmopsBenchRunArg}
    (h : f.StoppedBy L arg.cfg) (htid : arg.tid.toNat < arg.cfg.corelistSize.toNat) :
    RequestsAligned L f arg := by
  have hthread : BitVec.ofNat 32 arg.tid.toNat = arg.tid := by simp
  have hfirst : ∀ huge, MapArgs.Aligned ⟨some (utilsVmopsGetMapAddress arg.tid), arg.cfg.memsize,
      arg.memobj, 0, huge⟩ := by
    refine fun huge => .of_zero rfl fun a ha => ?_
    obtain rfl := Option.some_inj.mp ha
    exact mapPageSize_dvd_mapAddress huge arg.tid
  have hwp : wp (L.asking MapArgs.Aligned) (f.run arg) (fun _ _ => True) () := by
    cases f with
    | mapunmap4k | protect4k => exact wp_pagedRun_noBlock h
    | nounmap =>
      have hroom := h.2 _ htid
      rw [hthread] at hroom
      exact wp_nounmap_noRoom h.1 hroom (hfirst _)
    | elevate =>
      have hroom := h.2 _ htid
      rw [hthread] at hroom
      exact wp_elevate_noRoom h.1 hroom (hfirst _)
    | mapunmap | protect | tlbshoot | nounmap4k => exact h.elim
  intro tr c k hrun htr m hm
  exact of_asking hwp hrun htr hm

/-! ### Requests that a run comes to -/

/-- The specification that asks for nothing. -/
abbrev MemoryLimits.anyCall (L : MemoryLimits) : Spec threadSig Unit := L.asking fun _ => True

section Reached

variable {L : MemoryLimits} {ξ : Type} {arg : VmopsBenchRunArg} {c : ThreadCall}
  {op : ξ → Prog threadSig (Except ξ ξ)}

/-- The variables of a timed loop after some turns, with a clock that stands still. -/
def stillState (arg : VmopsBenchRunArg) (sampling : Sampling) (v : ℕ → ξ) : ℕ → LoopState ξ
  | 0 => { tCurrent := 0, counter := 0, stats := arg.stats, vars := v 0 }
  | k + 1 => (stillState arg sampling v k).next arg.tid sampling 0 0 (v (k + 1))

theorem stillState_eq (arg : VmopsBenchRunArg) (sampling : Sampling) (v : ℕ → ξ) (k : ℕ) :
    (stillState arg sampling v k).tCurrent = 0 ∧
      (stillState arg sampling v k).counter = BitVec.ofNat 64 k ∧
      (stillState arg sampling v k).vars = v k := by
  induction k with
  | zero => exact ⟨rfl, rfl, rfl⟩
  | succ k ih =>
    refine ⟨rfl, ?_, rfl⟩
    rw [BitVec.ofNat_add, ← ih.2.1]
    rfl

/-- **The call of the `k`-th operation**, if those before it succeed. -/
theorem comesTo_operation {dflt : SizeT} {sampling : Sampling} {onError : ξ → Prog threadSig Unit}
    (v : ℕ → ξ) {start : ξ} (hstart : v 0 = start) {k : ℕ} (hk : k < (opsLimit dflt arg.cfg).toNat)
    (hop : ∀ j < k, L.anyCall.Reaches (op (v j)) () (.ret (.ok (v (j + 1)))) ())
    (hcall : L.anyCall.ComesTo (op (v k)) () c ()) :
    L.anyCall.ComesTo (timedRun arg dflt sampling op onError start) () c () := by
  subst hstart
  have hrunning : ∀ j ≤ k, (stillState arg sampling v j).running
      (deadline (timeLimit arg.cfg) 0) (opsLimit dflt arg.cfg) = true := by
    intro j hj
    obtain ⟨htime, hcounter, -⟩ := stillState_eq arg sampling v j
    have hmax := (opsLimit dflt arg.cfg).isLt
    rw [LoopState.running, htime, hcounter, Bool.and_eq_true, decide_eq_true_eq, decide_eq_true_eq]
    refine ⟨zero_lt_deadline arg.cfg, BitVec.lt_def.mpr ?_⟩
    rw [BitVec.toNat_ofNat, Nat.mod_eq_of_lt (by omega)]
    omega
  have hturns : L.anyCall.Reaches (timedLoop arg.tid sampling 0 (deadline (timeLimit arg.cfg) 0)
      (opsLimit dflt arg.cfg) op (stillState arg sampling v 0)) ()
      (timedLoop arg.tid sampling 0 (deadline (timeLimit arg.cfg) 0) (opsLimit dflt arg.cfg) op
        (stillState arg sampling v k)) () := by
    refine Spec.Reaches.while_turns (stillState arg sampling v) (fun _ => ()) fun j hj =>
      ⟨hrunning j hj.le, ?_⟩
    have hop := hop j hj
    rw [← (stillState_eq arg sampling v j).2.2] at hop
    exact hop.bind (.perform_bind 0 trivial (.refl _ _))
  rw [← (stillState_eq arg sampling v k).2.2] at hcall
  refine Spec.Reaches.comesTo (.perform_bind () trivial (.perform_bind 0 trivial (.refl _ _))) ?_
  exact Spec.ComesTo.bind_left (hturns.comesTo (.while (hrunning k le_rfl) (hcall.bind_left _))) _

/-- **The second page** of a function that maps small pages. -/
theorem comesTo_secondPage (op : Pages → Prog threadSig (Except Pages Pages))
    (hpages : 2 ≤ (pageCount arg.cfg).toNat)
    (hblock : (pageCount arg.cfg).toNat * 8 ≤ L.blockMax)
    (hfits : L.Fits arg.tid platArchBasePageSize) :
    ∃ c m, L.anyCall.ComesTo (pagedRun arg op) () c () ∧ c.mapArgs = some m ∧
      m.huge = arg.cfg.maphuge ∧ m.offset = platArchBasePageSize := by
  obtain ⟨n, hn⟩ := Nat.exists_eq_add_of_le' hpages
  have hmap : ∃ c m, L.anyCall.ComesTo (mapPages arg) () c () ∧ c.mapArgs = some m ∧
      m.huge = arg.cfg.maphuge ∧ m.offset = platArchBasePageSize := by
    rw [mapPages]
    dsimp only
    rw [hn]
    split
    · refine ⟨.vmMapFixed (utilsVmopsGetMapAddress arg.tid + platArchBasePageSize)
        platArchBasePageSize arg.memobj (BitVec.ofNat 64 1 * platArchBasePageSize)
        arg.cfg.maphuge, _, Spec.ComesTo.bind_left ?_ _, rfl, rfl, rfl⟩
      exact ⟨_, [⟨_, true⟩], Run.call _ (Run.nil _), ⟨fun _ => hfits, trivial⟩, rfl⟩
    · refine ⟨.vmMap platArchBasePageSize arg.memobj (BitVec.ofNat 64 1 * platArchBasePageSize)
        arg.cfg.maphuge, _, ?_, rfl, rfl, rfl⟩
      refine ⟨_, [⟨_, some 0#64⟩], Run.call _ (Run.nil _), ⟨?_, trivial⟩, rfl⟩
      exact hfits.allows_zero
  obtain ⟨c, m, hcomes, hm⟩ := hmap
  refine ⟨c, m, ?_, hm⟩
  refine Spec.Reaches.comesTo (.perform_bind true (fun _ => hblock) (.refl _ _)) ?_
  exact hcomes.bind_left _

/-- **A thread that asks for something that is not aligned.** -/
def Misaligned (L : MemoryLimits) (f : RunFn) (arg : VmopsBenchRunArg) : Prop :=
  ∃ c m, L.anyCall.ComesTo (f.run arg) () c () ∧ c.mapArgs = some m ∧ ¬m.Aligned

theorem Misaligned.not_requestsAligned {f : RunFn} (h : Misaligned L f arg) :
    ¬RequestsAligned L f arg := by
  obtain ⟨c, m, ⟨k, tr, hrun, hadm, -⟩, hm, hmis⟩ := h
  refine fun haligned => hmis (haligned _ c k (hrun.perform_bind ()) ?_ m hm)
  rw [List.forall_mem_cons]
  exact ⟨trivial, Spec.Admits.forall_mem (fun _ _ _ h => h) hadm⟩

/-- A huge page does not begin behind a small one. -/
theorem not_aligned_secondPage {m : MapArgs} (hhuge : m.huge = true)
    (hoffset : m.offset = platArchBasePageSize) : ¬m.Aligned := by
  intro h
  have hdvd := h.offset
  rw [hhuge, hoffset] at hdvd
  exact absurd hdvd (by decide)

theorem misaligned_paged {f : RunFn} (hf : f = .mapunmap4k ∨ f = .protect4k)
    (hhuge : arg.cfg.maphuge = true) (hpages : 2 ≤ (pageCount arg.cfg).toNat)
    (hblock : (pageCount arg.cfg).toNat * 8 ≤ L.blockMax)
    (hfits : L.Fits arg.tid platArchBasePageSize) : Misaligned L f arg := by
  have hrun : ∃ op, f.run arg = pagedRun arg op := by
    rcases hf with rfl | rfl
    · exact ⟨_, rfl⟩
    · exact ⟨_, rfl⟩
  obtain ⟨op, hrun⟩ := hrun
  obtain ⟨c, m, hcomes, hm, hmhuge, hoffset⟩ := comesTo_secondPage op hpages hblock hfits
  exact ⟨c, m, hrun ▸ hcomes, hm, not_aligned_secondPage (hmhuge.trans hhuge) hoffset⟩

/-- An address behind the first one, by a size that is no multiple of the page size. -/
theorem not_aligned_behind {m : MapArgs} {tid : BitVec 32} {n : ℕ}
    (haddr : m.addr = some (utilsVmopsGetMapAddress tid + BitVec.ofNat 64 n))
    (hn : ¬mapPageSize m.huge ∣ n) : ¬m.Aligned := by
  intro h
  have hdvd := h.addr _ haddr
  rw [mapPageSize_dvd_add_iff] at hdvd
  exact hn hdvd

theorem misaligned_nounmap (hiso : arg.cfg.isolated = true)
    (hsize : ¬mapPageSize arg.cfg.maphuge ∣ arg.cfg.memsize.toNat)
    (hops : 1 < (opsLimit sizeMax arg.cfg).toNat) (hfits : L.Fits arg.tid arg.cfg.memsize) :
    Misaligned L .nounmap arg := by
  let v : ℕ → Addr := fun j =>
    utilsVmopsGetMapAddress arg.tid + BitVec.ofNat 64 (j * arg.cfg.memsize.toNat)
  have hfirst : v 0 = utilsVmopsGetMapAddress arg.tid := by simp [v]
  have hop : L.anyCall.Reaches (MapUnmap.mapOnlyOp arg (v 0)) () (.ret (.ok (v 1))) () := by
    rw [MapUnmap.mapOnlyOp, if_pos hiso]
    refine .perform_bind true (fun _ => hfirst ▸ hfits) ?_
    show L.anyCall.Reaches (.ret (Except.ok (v 0 + arg.cfg.memsize))) () _ ()
    rw [add_ofNat_mul_succ]
    exact .refl _ _
  have hcall : L.anyCall.ComesTo (MapUnmap.mapOnlyOp arg (v 1)) ()
      (.vmMapFixed (v 1) arg.cfg.memsize arg.memobj 0 arg.cfg.maphuge) () := by
    rw [MapUnmap.mapOnlyOp, if_pos hiso]
    exact .perform _ _ _
  have hcomes : L.anyCall.ComesTo (MapUnmap.benchRunNounmapFn arg) () _ () :=
    comesTo_operation v hfirst hops (fun j hj => Nat.lt_one_iff.mp hj ▸ hop) hcall
  refine ⟨_, ⟨some (v 1), arg.cfg.memsize, arg.memobj, 0, arg.cfg.maphuge⟩, hcomes, rfl,
    not_aligned_behind rfl ?_⟩
  rwa [Nat.one_mul]

/-- The loop variables of the 4k map-only function: the address and the number of the page. -/
def mapOnly4kVars (arg : VmopsBenchRunArg) (j : ℕ) : Addr × SizeT :=
  (if arg.cfg.isolated then
      utilsVmopsGetMapAddress arg.tid + BitVec.ofNat 64 (j * platArchBasePageSize.toNat)
    else utilsVmopsGetMapAddress arg.tid, arg.tid.setWidth 64 + BitVec.ofNat 64 j)

theorem mapOnly4kVars_zero : mapOnly4kVars arg 0 =
    (utilsVmopsGetMapAddress arg.tid, arg.tid.setWidth 64) := by simp [mapOnly4kVars]

/-- An operation that succeeds, if the page at its address is within the limits. -/
theorem reaches_mapOnly4kOp {j : ℕ}
    (hfits : (mapOnly4kVars arg j).1.toNat + platArchBasePageSize.toNat ≤ L.addrEnd) :
    L.anyCall.Reaches (MapUnmap.mapOnly4kOp arg (mapOnly4kVars arg j)) ()
      (.ret (.ok (mapOnly4kVars arg (j + 1)))) () := by
  have hpage : arg.tid.setWidth 64 + BitVec.ofNat 64 (j + 1) =
      arg.tid.setWidth 64 + BitVec.ofNat 64 j + 1 := by
    rw [BitVec.ofNat_add, BitVec.add_assoc]
    rfl
  rw [mapOnly4kVars, mapOnly4kVars, MapUnmap.mapOnly4kOp, hpage]
  split
  · next hiso =>
    rw [mapOnly4kVars, if_pos hiso] at hfits
    rw [← add_ofNat_mul_succ _ _ platArchBasePageSize]
    exact .perform_bind true (fun _ => hfits) (.refl _ _)
  · refine .perform_bind (some 0) ?_ (.refl _ _)
    rintro addr ⟨⟩
    exact (Nat.add_le_add_right (Nat.zero_le _) _).trans hfits

/-- The function maps the page with number `arg.tid + k` in its `k`-th operation. -/
theorem misaligned_nounmap4k (hhuge : arg.cfg.maphuge = true) {k : ℕ}
    (hk : k < (opsLimit sizeMax arg.cfg).toNat)
    (hpage : (arg.tid.setWidth 64 + BitVec.ofNat 64 k) % pageCount arg.cfg = 1)
    (hfits : ∀ j < k, (mapOnly4kVars arg j).1.toNat + platArchBasePageSize.toNat ≤ L.addrEnd) :
    Misaligned L .nounmap4k arg := by
  have hcall : ∃ c m, L.anyCall.ComesTo (MapUnmap.mapOnly4kOp arg (mapOnly4kVars arg k)) () c () ∧
      c.mapArgs = some m ∧ m.huge = arg.cfg.maphuge ∧ m.offset = platArchBasePageSize := by
    have hoffset : (mapOnly4kVars arg k).2 % pageCount arg.cfg * platArchBasePageSize =
        platArchBasePageSize := by
      rw [mapOnly4kVars, hpage, one_mul]
    rw [MapUnmap.mapOnly4kOp]
    split
    · exact ⟨_, _, .perform _ _ _, rfl, rfl, hoffset⟩
    · exact ⟨_, _, .perform _ _ _, rfl, rfl, hoffset⟩
  obtain ⟨c, m, hcall, hm, hmhuge, hoffset⟩ := hcall
  have hcomes : L.anyCall.ComesTo (MapUnmap.benchRunNounmap4kFn arg) () c () :=
    comesTo_operation _ mapOnly4kVars_zero hk (fun j hj => reaches_mapOnly4kOp (hfits j hj))
      hcall
  exact ⟨c, m, hcomes, hm, not_aligned_secondPage (hmhuge.trans hhuge) hoffset⟩

theorem misaligned_elevate (hiso : arg.cfg.isolated = true)
    (hsize : ¬mapPageSize false ∣ arg.cfg.memsize.toNat)
    (htotal : arg.cfg.memsize < ProtectElevate.totalMapSize arg.cfg)
    (hfits : L.Fits arg.tid arg.cfg.memsize) : Misaligned L .elevate arg := by
  let first := utilsVmopsGetMapAddress arg.tid
  have hpos : (0 : SizeT) < ProtectElevate.totalMapSize arg.cfg :=
    BitVec.lt_def.mpr (Nat.zero_lt_of_lt (BitVec.lt_def.mp htotal))
  -- the loop makes a second turn, and its mapping is behind the first by `memsize`
  have hturn : L.anyCall.Reaches (ProtectElevate.mapChunk arg (0, first)) ()
      (.ret (.ok (0 + arg.cfg.memsize, first))) () := by
    rw [ProtectElevate.mapChunk]
    dsimp only
    rw [if_pos hiso]
    have hzero : first + 0 = first := BitVec.add_zero _
    refine .perform_bind true (fun _ => ?_) (.perform_bind true trivial (.refl _ _))
    rw [hzero]
    exact hfits
  have hcall : L.anyCall.ComesTo (ProtectElevate.mapChunk arg (0 + arg.cfg.memsize, first)) ()
      (.vmMapFixed (first + (0 + arg.cfg.memsize)) arg.cfg.memsize arg.memobj 0 false) () := by
    rw [ProtectElevate.mapChunk]
    dsimp only
    rw [if_pos hiso]
    exact .perform _ _ _
  have hcomes : L.anyCall.ComesTo (ProtectElevate.mapChunks arg (0, first)) ()
      (.vmMapFixed (first + (0 + arg.cfg.memsize)) arg.cfg.memsize arg.memobj 0 false) () := by
    obtain ⟨tr, hrun, hadmits⟩ := hturn
    refine Spec.Reaches.comesTo ⟨tr, Run.while_turn (decide_eq_true hpos) hrun, hadmits⟩ ?_
    exact .while (decide_eq_true (by rwa [zero_add])) hcall
  refine ⟨.vmMapFixed (first + (0 + arg.cfg.memsize)) arg.cfg.memsize arg.memobj 0 false, _, ?_,
    rfl, fun haligned => ?_⟩
  · have hfirst : ProtectElevate.firstAddr arg = first := if_pos hiso
    show L.anyCall.ComesTo
      (ProtectElevate.mapChunks arg (0, ProtectElevate.firstAddr arg) >>= _) () _ _
    rw [hfirst]
    exact hcomes.bind_left _
  · have haddr : some (first + (0 + arg.cfg.memsize)) =
        some (utilsVmopsGetMapAddress arg.tid + BitVec.ofNat 64 arg.cfg.memsize.toNat) := by
      rw [zero_add, BitVec.ofNat_toNat, BitVec.setWidth_eq]
    exact not_aligned_behind haddr hsize haligned

end Reached

end VmopsBench

import VmopsBench.Benchmarks.RunFns
import VmopsBench.Words.Arc

/-!
# The window of an isolated thread

An isolated thread chooses where its mappings go: it computes an address from its
index (`VmopsBench.utilsVmopsGetMapAddress`) and asks for all of them from
there on. This file says what exactly it asks for. The `k`-th request of a run
function is a function of `k` alone (`VmopsBench.request`), whatever the kernel
answers and the clock shows (`VmopsBench.requests_eq`).

The requests of a function leave no gaps. Together they are one range that begins at the
thread's address, and its length depends on their number only
(`VmopsBench.stretch`): it is constant in the functions that map the same region
again and again, and grows with every request in those that only map. That is
`VmopsBench.covered_requests`, and all that two threads have to know of each other.
-/

namespace VmopsBench

open Interact Words

/-! ### Requests -/

/-- The range that a `plat_vm_map_fixed` asks for, as an address and a size. -/
def ThreadCall.fixedRange : ThreadCall → Option (Addr × SizeT)
  | .vmMapFixed addr size .. => some (addr, size)
  | _ => none

/-- **The ranges a thread has passed to `plat_vm_map_fixed`**, in order. -/
def requests (tr : List (Event threadSig)) : List (Addr × SizeT) :=
  tr.filterMap fun e => e.call.fixedRange

/-- The size of a request. -/
def requestSize (cfg : VmopsBenchCfg) : RunFn → SizeT
  | .mapunmap | .protect | .tlbshoot | .nounmap | .elevate => cfg.memsize
  | .nounmap4k | .mapunmap4k | .protect4k => platArchBasePageSize

/-- The page of the `k`-th request of a 4k function. The pages are mapped in order; the function
that maps again in its timed loop then goes round them, from the page with the thread's number. -/
def requestPage (arg : VmopsBenchRunArg) (k : ℕ) : ℕ :=
  if k < (pageCount arg.cfg).toNat then k
  else ((arg.tid.setWidth 64 + BitVec.ofNat 64 (k - (pageCount arg.cfg).toNat)) %
    pageCount arg.cfg).toNat

/-- **How far from the thread's address the `k`-th request is.** -/
def requestOffset (arg : VmopsBenchRunArg) (f : RunFn) (k : ℕ) : ℕ :=
  match f with
  | .mapunmap | .protect | .tlbshoot => 0
  | .nounmap | .elevate => k * arg.cfg.memsize.toNat
  | .nounmap4k => k * platArchBasePageSize.toNat
  | .mapunmap4k | .protect4k => requestPage arg k * platArchBasePageSize.toNat

/-- The `k`-th request of a thread. -/
def request (arg : VmopsBenchRunArg) (f : RunFn) (k : ℕ) : Addr × SizeT :=
  (utilsVmopsGetMapAddress arg.tid + BitVec.ofNat 64 (requestOffset arg f k), requestSize arg.cfg f)

/-- The specification of the requests, over their number. -/
def requesting (arg : VmopsBenchRunArg) (f : RunFn) : Spec threadSig ℕ where
  pre k c := ∀ r, c.fixedRange = some r → r = request arg f k
  env _ _ _ := True
  upd k c _ := if c.fixedRange.isSome then k + 1 else k

section Requesting

variable {arg : VmopsBenchRunArg} {f : RunFn}

theorem requesting_ignores {c : ThreadCall} (hc : c.fixedRange = none) :
    (requesting arg f).Ignores c := by
  refine fun k => ⟨fun r hr => ?_, fun r => ?_⟩
  · rw [hc] at hr
    cases hr
  · exact if_neg (by rw [hc]; exact Bool.false_ne_true)

/-- The rule of a request. -/
theorem wp_request {α : Type} {addr : Addr} {size : SizeT} {memobj : PlatMemobj} {offset : SizeT}
    {huge : Bool} {k : ℕ} {p : Bool → Prog threadSig α} {Q : α → ℕ → Prop}
    (hr : (addr, size) = request arg f k) (h : ∀ r, wp (requesting arg f) (p r) Q (k + 1)) :
    wp (requesting arg f) (platVmMapFixed addr size memobj offset huge >>= p) Q k := by
  refine wp_perform_bind.mpr ⟨fun r hc => ?_, fun r _ => h r⟩
  exact (Option.some.inj hc).symm.trans hr

/-! #### The functions on one region -/

theorem mapUnmapOp_requests (hiso : arg.cfg.isolated = true)
    (hreq : ∀ k, request arg f k = (utilsVmopsGetMapAddress arg.tid, arg.cfg.memsize)) {k : ℕ} :
    wp (requesting arg f) (MapUnmap.mapUnmapOp arg ()) (fun _ _ => True) k := by
  rw [MapUnmap.mapUnmapOp, if_pos hiso]
  refine wp_request (hreq k).symm fun mapped => ?_
  cases mapped with
  | false => trivial
  | true =>
    refine wp_ignored (requesting_ignores rfl) fun unmapped => ?_
    cases unmapped <;> trivial

theorem benchRunFn_requests_mapunmap (hiso : arg.cfg.isolated = true) :
    wp (requesting arg .mapunmap) (MapUnmap.benchRunFn arg) (fun _ _ => True) 0 := by
  refine wp_timedRun_of_ignores (fun _ => requesting_ignores rfl) (requesting_ignores rfl)
    (fun _ _ _ => True) trivial fun k v g _ _ => ?_
  refine wp_mono _ (fun o g' _ => ?_) (mapUnmapOp_requests hiso fun k => ?_)
  · cases o <;> trivial
  · simp [request, requestOffset, requestSize]

theorem protectTwice_requests {addr : Addr} {size : SizeT} {k : ℕ} {Q : Bool → ℕ → Prop}
    (h : ∀ r, Q r k) : wp (requesting arg f) (Protect.protectTwice addr size) Q k := by
  refine wp_ignored (requesting_ignores rfl) fun lowered => ?_
  cases lowered with
  | false => exact h false
  | true => exact ⟨nofun, fun r _ => h r⟩

theorem benchRunFn_requests_protect (hiso : arg.cfg.isolated = true) :
    wp (requesting arg .protect) (Protect.benchRunFn arg) (fun _ _ => True) 0 := by
  have hrun : ∀ addr k, wp (requesting arg .protect) (timedRun arg sizeMax .never
      (Protect.protectOp arg) (fun addr => do let _ ← platVmUnmap addr arg.cfg.memsize) addr)
      (fun _ _ => True) k := by
    intro addr k
    refine wp_timedRun_of_ignores (fun _ => requesting_ignores rfl) (requesting_ignores rfl)
      (fun _ _ _ => True) trivial fun k v g _ _ => ?_
    refine (wp_bind _ _).mpr (protectTwice_requests fun done => ?_)
    cases done with
    | true => trivial
    | false => exact wp_ignored (requesting_ignores rfl) fun _ => trivial
  refine (wp_bind _ _).mpr ?_
  rw [Protect.mapRegion, if_pos hiso]
  refine wp_request (by simp [request, requestOffset, requestSize]) fun mapped => ?_
  cases mapped with
  | false => trivial
  | true => exact hrun _ _

theorem spin_requests {sum : Addr} {k : ℕ} :
    wp (requesting arg f) (TlbShoot.spin sum) (fun _ _ => True) k := by
  refine ⟨fun _ _ => True, fun _ _ => True, trivial, fun _ k _ => ?_, fun _ _ _ => trivial⟩
  refine wp_ignored (requesting_ignores rfl) fun done => ?_
  split
  · exact wp_ignored (requesting_ignores rfl) fun _ => trivial
  · trivial

theorem benchRunFn_requests_tlbshoot (hiso : arg.cfg.isolated = true) :
    wp (requesting arg .tlbshoot) (TlbShoot.benchRunFn arg) (fun _ _ => True) 0 := by
  refine wp_ignored (requesting_ignores rfl) fun mapped => ?_
  cases mapped with
  | none => trivial
  | some taddr =>
    refine wp_ignored (requesting_ignores rfl) fun _ => wp_ignored (requesting_ignores rfl)
      fun tCurrent => ?_
    dsimp only
    split
    · -- a worker asks for nothing
      refine (wp_bind _ _).mpr (wp_mono _ (fun _ _ _ => ?_) spin_requests)
      exact wp_ignored (requesting_ignores rfl) fun _ => trivial
    · refine (wp_bind _ _).mpr (wp_timedLoop (fun _ _ => True) trivial (fun s k _ _ => ?_)
        fun _ _ _ _ => ?_)
      · refine wp_mono _ (fun o k _ => ?_) (mapUnmapOp_requests hiso fun k => ?_)
        · cases o with
          | error _ => trivial
          | ok _ => exact ⟨nofun, fun _ _ => trivial⟩
        · simp [request, requestOffset, requestSize]
      · refine wp_ignored (requesting_ignores rfl) fun _ => ?_
        exact wp_ignored (requesting_ignores rfl) fun _ => wp_ignored (requesting_ignores rfl)
          fun _ => trivial

/-! #### The functions that only map -/

theorem benchRunFn_requests_nounmap (hiso : arg.cfg.isolated = true) :
    wp (requesting arg .nounmap) (MapUnmap.benchRunNounmapFn arg) (fun _ _ => True) 0 := by
  refine wp_timedRun_of_ignores (fun _ => requesting_ignores rfl) (requesting_ignores rfl)
    (fun _ addr k => addr = (request arg .nounmap k).1) ?_ ?_
  · simp [request, requestOffset]
  · rintro - addr k - rfl
    rw [MapUnmap.mapOnlyOp, if_pos hiso]
    refine wp_request rfl fun mapped => ?_
    cases mapped with
    | false => trivial
    | true => exact add_ofNat_mul_succ _ _ _

theorem benchRunFn_requests_nounmap4k (hiso : arg.cfg.isolated = true) :
    wp (requesting arg .nounmap4k) (MapUnmap.benchRunNounmap4kFn arg) (fun _ _ => True) 0 := by
  refine wp_timedRun_of_ignores (fun _ => requesting_ignores rfl) (requesting_ignores rfl)
    (fun _ v k => v.1 = (request arg .nounmap4k k).1) ?_ ?_
  · simp [request, requestOffset]
  · rintro - ⟨addr, page⟩ k - rfl
    rw [MapUnmap.mapOnly4kOp, if_pos hiso]
    refine wp_request rfl fun mapped => ?_
    cases mapped with
    | false => exact ⟨nofun, fun _ _ => trivial⟩
    | true => exact add_ofNat_mul_succ _ _ platArchBasePageSize

theorem benchRunFn_requests_elevate (hiso : arg.cfg.isolated = true) :
    wp (requesting arg .elevate) (ProtectElevate.benchRunFn arg) (fun _ _ => True) 0 := by
  refine (wp_bind _ _).mpr (wp_whileLoop (fun s k => s.2 = utilsVmopsGetMapAddress arg.tid ∧
    s.1 = BitVec.ofNat 64 (k * arg.cfg.memsize.toNat)) ?_ ?_ ?_)
  · simp [ProtectElevate.firstAddr, hiso]
  · rintro ⟨i, addr⟩ k ⟨rfl, rfl⟩ -
    rw [ProtectElevate.mapChunk]
    dsimp only
    rw [if_pos hiso]
    refine wp_request rfl fun mapped => ?_
    cases mapped with
    | false => trivial
    | true =>
      exact wp_ignored (requesting_ignores rfl) fun _ => ⟨rfl, ofNat_mul_succ _ _⟩
  · -- the timed loop only changes permissions
    rintro ⟨i, addr⟩ k - -
    refine wp_timedRun_of_ignores (fun _ => requesting_ignores rfl) (requesting_ignores rfl)
      (fun _ _ _ => True) trivial fun _ v g _ _ => ?_
    refine wp_ignored (requesting_ignores rfl) fun done => ?_
    cases done with
    | true => trivial
    | false => exact wp_ignored (requesting_ignores rfl) fun _ => trivial

/-! #### The 4k functions -/

/-- The array of the addresses of the pages, as far as it has been filled. -/
def FilledTo (arg : VmopsBenchRunArg) (n : ℕ) (addrs : ℕ → Addr) : Prop :=
  ∀ i < n, addrs i = utilsVmopsGetMapAddress arg.tid +
    BitVec.ofNat 64 (i * platArchBasePageSize.toNat)

/-- The next page is mapped. -/
theorem FilledTo.succ {n : ℕ} {addrs : ℕ → Addr} (h : FilledTo arg n addrs) :
    FilledTo arg (n + 1) (Function.update addrs n (utilsVmopsGetMapAddress arg.tid +
      BitVec.ofNat 64 (n * platArchBasePageSize.toNat))) := by
  intro j hj
  rcases eq_or_ne j n with rfl | hne
  · exact Function.update_self _ _ _
  · exact (Function.update_of_ne hne _ _).trans (h j (by omega))

theorem mapPages_requests (hf : f = .mapunmap4k ∨ f = .protect4k) (hiso : arg.cfg.isolated = true) :
    wp (requesting arg f) (mapPages arg) (onExcept (fun _ _ => True) fun addrs k =>
      k = (pageCount arg.cfg).toNat ∧ FilledTo arg (pageCount arg.cfg).toNat addrs) 0 := by
  have hreq : ∀ k < (pageCount arg.cfg).toNat, request arg f k = (utilsVmopsGetMapAddress arg.tid +
      BitVec.ofNat 64 (k * platArchBasePageSize.toNat), platArchBasePageSize) := by
    intro k hk
    rcases hf with rfl | rfl <;> simp [request, requestOffset, requestPage, requestSize, hk]
  rw [mapPages]
  dsimp only
  rw [if_pos hiso]
  refine (wp_bind _ _).mpr (wp_forLoop (fun i s k => k = i ∧ FilledTo arg i s.1 ∧
    s.2 = utilsVmopsGetMapAddress arg.tid + BitVec.ofNat 64 (i * platArchBasePageSize.toNat))
    ?_ ?_ fun s k hs => ⟨hs.1, hs.2.1⟩)
  · exact ⟨rfl, nofun, by simp⟩
  · rintro i ⟨addrs, addr⟩ k hi ⟨rfl, hfill, rfl⟩
    refine wp_request (hreq k hi).symm fun mapped => ?_
    cases mapped with
    | false => trivial
    | true => exact ⟨rfl, hfill.succ, add_ofNat_mul_succ _ _ platArchBasePageSize⟩

/-- The pages and the variable `page` after `k` requests. -/
def PagesAfter (arg : VmopsBenchRunArg) (k : ℕ) (v : Pages) : Prop :=
  (pageCount arg.cfg).toNat ≤ k ∧ FilledTo arg (pageCount arg.cfg).toNat v.addrs ∧
    v.page = arg.tid.setWidth 64 + BitVec.ofNat 64 (k - (pageCount arg.cfg).toNat)

theorem mapUnmap4kOp_requests (hiso : arg.cfg.isolated = true) (hpages : pageCount arg.cfg ≠ 0)
    {v : Pages} {k : ℕ} (h : PagesAfter arg k v) :
    wp (requesting arg .mapunmap4k) (MapUnmap.mapUnmap4kOp arg v)
      (onExcept (fun _ _ => True) fun v k => PagesAfter arg k v) k := by
  obtain ⟨hk, hfill, hpage⟩ := h
  have hidx : (v.page % pageCount arg.cfg).toNat < (pageCount arg.cfg).toNat :=
    toNat_umod_lt hpages
  rw [MapUnmap.mapUnmap4kOp]
  dsimp only
  refine wp_ignored (requesting_ignores rfl) fun unmapped => ?_
  cases unmapped with
  | false => trivial
  | true =>
    rw [if_pos rfl, if_pos hiso]
    refine wp_request ?_ fun mapped => ?_
    · -- the address in the array is that of the page
      rw [hfill _ hidx, hpage]
      simp only [request, requestOffset, requestPage, requestSize, if_neg (Nat.not_lt.mpr hk)]
    · cases mapped with
      | false => trivial
      | true =>
        refine ⟨by omega, hfill, ?_⟩
        dsimp only
        rw [hpage, Nat.succ_sub hk, Nat.succ_eq_add_one, BitVec.ofNat_add, BitVec.add_assoc]
        rfl

theorem benchRunFn_requests_mapunmap4k (hiso : arg.cfg.isolated = true)
    (hpages : pageCount arg.cfg ≠ 0) :
    wp (requesting arg .mapunmap4k) (MapUnmap.benchRun4kFn arg) (fun _ _ => True) 0 := by
  refine wp_pagedRun_of_ignores (fun _ => requesting_ignores rfl) (requesting_ignores rfl)
    (fun _ _ => requesting_ignores rfl) (fun _ _ => requesting_ignores rfl) (requesting_ignores rfl)
    (fun v k => PagesAfter arg k v) ?_ fun v k h => mapUnmap4kOp_requests hiso hpages h
  refine wp_mono _ (fun o k h => ?_) (mapPages_requests (Or.inl rfl) hiso)
  cases o with
  | error _ => trivial
  | ok addrs =>
    obtain ⟨rfl, hfill⟩ := h
    exact ⟨le_rfl, hfill, by simp⟩

theorem benchRunFn_requests_protect4k (hiso : arg.cfg.isolated = true) :
    wp (requesting arg .protect4k) (Protect.benchRun4kFn arg) (fun _ _ => True) 0 := by
  refine wp_pagedRun_of_ignores (fun _ => requesting_ignores rfl) (requesting_ignores rfl)
    (fun _ _ => requesting_ignores rfl) (fun _ _ => requesting_ignores rfl) (requesting_ignores rfl)
    (fun _ _ => True) ?_ fun v k _ => ?_
  · refine wp_mono _ (fun o k _ => ?_) (mapPages_requests (Or.inr rfl) hiso)
    cases o <;> trivial
  · refine (wp_bind _ _).mpr (protectTwice_requests fun done => ?_)
    cases done <;> trivial

/-- **Every run function asks for the requests of the formula**, if there is a page where the
function takes remainders by the number of pages. -/
theorem platThreadRunFn_requests (hiso : arg.cfg.isolated = true)
    (hpages : f = .mapunmap4k → pageCount arg.cfg ≠ 0) :
    wp (requesting arg f) (platThreadRunFn f arg) (fun _ _ => True) 0 := by
  refine wp_ignored (requesting_ignores rfl) fun _ => ?_
  cases f with
  | mapunmap => exact benchRunFn_requests_mapunmap hiso
  | mapunmap4k => exact benchRunFn_requests_mapunmap4k hiso (hpages rfl)
  | nounmap => exact benchRunFn_requests_nounmap hiso
  | nounmap4k => exact benchRunFn_requests_nounmap4k hiso
  | protect => exact benchRunFn_requests_protect hiso
  | protect4k => exact benchRunFn_requests_protect4k hiso
  | elevate => exact benchRunFn_requests_elevate hiso
  | tlbshoot => exact benchRunFn_requests_tlbshoot hiso

/-- **The requests of an honoured trace**, all of them and in order. -/
theorem requests_eq {tr : List (Event threadSig)} {k : ℕ} (h : (requesting arg f).Honours k tr) :
    requests tr = (List.range' k (requests tr).length).map (request arg f) := by
  induction tr generalizing k with
  | nil => rfl
  | cons e tr ih =>
    obtain ⟨hpre, hrest⟩ := h
    cases he : e.call.fixedRange with
    | none =>
      have hcons : requests (e :: tr) = requests tr := List.filterMap_cons_none he
      rw [(requesting_ignores he k).2 e.resp] at hrest
      rw [hcons]
      exact ih hrest
    | some r =>
      have hcons : requests (e :: tr) = r :: requests tr := List.filterMap_cons_some he
      have hk : (requesting arg f).upd k e.call e.resp = k + 1 := if_pos (by rw [he]; rfl)
      rw [hk] at hrest
      rw [hcons, List.length_cons, List.range'_succ, List.map_cons, ← hpre r he, ← ih hrest]

end Requesting

/-! ### What the requests cover -/

/-- **How far the first `k` requests reach** from the thread's address. -/
def stretch (cfg : VmopsBenchCfg) (f : RunFn) (k : ℕ) : ℕ :=
  match f with
  | .mapunmap | .protect | .tlbshoot => if k = 0 then 0 else cfg.memsize.toNat
  | .nounmap | .elevate => k * cfg.memsize.toNat
  | .nounmap4k => k * platArchBasePageSize.toNat
  | .mapunmap4k | .protect4k => min k (pageCount cfg).toNat * platArchBasePageSize.toNat

/-- Blocks of one size, one after the other, leave no gaps. -/
theorem exists_block_iff {size k x : ℕ} :
    (∃ l < k, l * size ≤ x ∧ x < l * size + size) ↔ x < k * size := by
  constructor
  · rintro ⟨l, hl, -, hx⟩
    have hle : (l + 1) * size ≤ k * size := Nat.mul_le_mul_right size hl
    rw [Nat.succ_mul] at hle
    omega
  · intro hx
    have hpos : 0 < size := by
      rcases Nat.eq_zero_or_pos size with rfl | h
      · omega
      · exact h
    exact ⟨x / size, Nat.div_lt_of_lt_mul (by rwa [Nat.mul_comm]), Nat.div_mul_le_self x size,
      Nat.lt_div_mul_add hpos⟩

theorem requestPage_lt {arg : VmopsBenchRunArg} (h : pageCount arg.cfg ≠ 0) {k : ℕ} :
    requestPage arg k < (pageCount arg.cfg).toNat := by
  rw [requestPage]
  split
  · assumption
  · exact toNat_umod_lt h

theorem requestPage_le {arg : VmopsBenchRunArg} (h : pageCount arg.cfg ≠ 0) {k : ℕ} :
    requestPage arg k ≤ k := by
  rw [requestPage]
  split
  · exact le_rfl
  · exact (toNat_umod_lt h).le.trans (by omega)

/-- **The first `k` requests leave no gaps.** -/
theorem exists_request_iff {arg : VmopsBenchRunArg} {f : RunFn}
    (hpages : f = .mapunmap4k ∨ f = .protect4k → pageCount arg.cfg ≠ 0) {k x : ℕ} :
    (∃ l < k, requestOffset arg f l ≤ x ∧
      x < requestOffset arg f l + (requestSize arg.cfg f).toNat) ↔ x < stretch arg.cfg f k := by
  have honce : ∀ size : ℕ, (∃ l < k, 0 ≤ x ∧ x < 0 + size) ↔ x < if k = 0 then 0 else size := by
    intro size
    split
    · simp [*]
    · exact ⟨fun ⟨_, _, _, hx⟩ => by omega, fun hx => ⟨0, by omega, by omega, by omega⟩⟩
  have hpaged : pageCount arg.cfg ≠ 0 → ((∃ l < k,
      requestPage arg l * platArchBasePageSize.toNat ≤ x ∧
      x < requestPage arg l * platArchBasePageSize.toNat + platArchBasePageSize.toNat) ↔
      x < min k (pageCount arg.cfg).toNat * platArchBasePageSize.toNat) := by
    intro hn
    rw [← exists_block_iff]
    constructor
    · rintro ⟨l, hl, hx⟩
      refine ⟨requestPage arg l, lt_min ?_ (requestPage_lt hn), hx⟩
      exact (requestPage_le hn).trans_lt hl
    · rintro ⟨l, hl, hx⟩
      obtain ⟨hk, hn⟩ := lt_min_iff.mp hl
      exact ⟨l, hk, by rwa [requestPage, if_pos hn]⟩
  cases f with
  | mapunmap => exact honce _
  | protect => exact honce _
  | tlbshoot => exact honce _
  | nounmap => exact exists_block_iff
  | elevate => exact exists_block_iff
  | nounmap4k => exact exists_block_iff
  | mapunmap4k => exact hpaged (hpages (Or.inl rfl))
  | protect4k => exact hpaged (hpages (Or.inr rfl))

/-- The addresses in some ranges. -/
def covered (rs : List (Addr × SizeT)) : Set Addr := {x | ∃ r ∈ rs, x ∈ arc r.1 r.2.toNat}

/-- **What a thread's requests cover is one range**, from its address on. -/
theorem covered_requests {arg : VmopsBenchRunArg} {f : RunFn}
    (hpages : f = .mapunmap4k ∨ f = .protect4k → pageCount arg.cfg ≠ 0) (k : ℕ) :
    covered ((List.range' 0 k).map (request arg f)) =
      arc (utilsVmopsGetMapAddress arg.tid) (stretch arg.cfg f k) := by
  ext x
  have hmem : x ∈ covered ((List.range' 0 k).map (request arg f)) ↔
      ∃ l < k, x ∈ arc (request arg f l).1 (requestSize arg.cfg f).toNat := by
    simp [covered, request]
  rw [hmem, mem_arc_iff_exists]
  constructor
  · rintro ⟨l, hl, hx⟩
    obtain ⟨o, ho, rfl⟩ := mem_arc_iff_exists.mp hx
    refine ⟨requestOffset arg f l + o, ?_, ?_⟩
    · exact (exists_request_iff hpages).mp ⟨l, hl, by omega, by omega⟩
    rw [BitVec.ofNat_add, ← BitVec.add_assoc]
    rfl
  · rintro ⟨o, ho, rfl⟩
    obtain ⟨l, hl, hle, hlt⟩ := (exists_request_iff hpages).mpr ho
    refine ⟨l, hl, mem_arc_iff_exists.mpr ⟨o - requestOffset arg f l, by omega, ?_⟩⟩
    rw [request, BitVec.add_assoc, ← BitVec.ofNat_add, Nat.add_sub_cancel' hle]

/-- Ranges are disjoint from ranges if what they cover is. -/
theorem disjoint_covered_iff {rs rs' : List (Addr × SizeT)} :
    Disjoint (covered rs) (covered rs') ↔
      ∀ r ∈ rs, ∀ r' ∈ rs', Disjoint (arc r.1 r.2.toNat) (arc r'.1 r'.2.toNat) := by
  simp only [Set.disjoint_left, covered, Set.mem_ofPred_eq]
  constructor
  · intro h r hr r' hr' x hx hx'
    exact h ⟨r, hr, hx⟩ ⟨r', hr', hx'⟩
  · rintro h x ⟨r, hr, hx⟩ ⟨r', hr', hx'⟩
    exact h r hr r' hr' hx hx'

end VmopsBench

import VmopsBench.Benchmarks.Entry
import VmopsBench.Benchmarks.SmallPages
import VmopsBench.Interact.Judge

/-!
# What the map and unmap benchmark unmaps

`bench_run_4k_fn` of `mapunmap.c` unmaps a page and maps it again in each turn, and in the end
unmaps what is in its array. If the second call of a turn fails, the array keeps the address that
was just unmapped, and the cleanup unmaps it once more. By then it may be the address of
another thread's mapping.

`VmopsBench.MapUnmap.keepsTrack_iff` says that this is the only way in which the function unmaps
something that it has not mapped, apart from an array without entries, for which it divides by
zero. It is a statement about every run, whatever calls fail and however long it takes. Both
directions come from one proof in the program logic, that keeps a judgement
(`Interact.Spec.judging`): until a remapping fails the array is right
(`VmopsBench.Filled`), and afterwards the judgement is that the cleanup has gone astray.
-/

namespace VmopsBench

open Interact Words

namespace MapUnmap

/-! ### The specification -/

/-- **What is noted about a run.** -/
structure Ledger where
  /-- What the thread has mapped. -/
  space : AddressSpace
  /-- The barrier that it has passed last. -/
  site : Option BarrierSite
  /-- The first clock reading. -/
  clock : Option PlatTime
  /-- A mapping call of the timed loop has failed. -/
  remapFailed : Bool
  /-- A call of the cleanup has failed. -/
  cleanupFailed : Bool

namespace Ledger

/-- Nothing has happened yet. -/
def start : Ledger := ⟨AddressSpace.empty, none, none, false, false⟩

/-- The barrier that has been passed last. -/
def siteAfter (site : Option BarrierSite) : ThreadCall → Option BarrierSite
  | .barrier site => some site
  | _ => site

/-- The first of the clock readings. -/
def clockAfter (clock : Option PlatTime) : (c : ThreadCall) → c.Resp → Option PlatTime
  | .getTime, t => some (clock.getD t)
  | _, _ => clock

/-- The ledger after a call. -/
def note (g : Ledger) (c : ThreadCall) (r : c.Resp) : Ledger where
  space := c.onSpace g.space r
  site := siteAfter g.site c
  clock := clockAfter g.clock c r
  remapFailed := g.remapFailed || (g.site == some .start && c.isMap && c.fails r)
  cleanupFailed := g.cleanupFailed || (g.site == some .cleanup && c.fails r)

end Ledger

/-- **Every unmap call names pages that the thread has mapped.** -/
def ownership : Spec threadSig Ledger where
  pre g c := match c with
    | .vmUnmap addr size => pagesOf addr size.toNat ⊆ g.space.mapped
    | _ => True
  env g c r := c.Answers g.space r
  upd := Ledger.note

/-- **The array keeps track of what is mapped**: no unmap call goes astray, and a cleanup whose
calls all succeed leaves nothing mapped. -/
structure KeepsTrack (tr : List (Event threadSig)) (q : Prog threadSig RunResult) : Prop where
  unmapsOwn : ownership.Honours Ledger.start tr
  leavesNothing : ∀ r, q = .ret r → (ownership.after Ledger.start tr).cleanupFailed = false →
    (ownership.after Ledger.start tr).space = AddressSpace.empty

/-- **The condition**: no mapping call of the timed loop fails, and there is a page to remap if the
loop begins a turn. -/
structure Remaps (arg : VmopsBenchRunArg) (g : Ledger) : Prop where
  succeed : g.remapFailed = false
  pages : pageCount arg.cfg = 0 → ∀ t, g.clock = some t → ¬t < deadline (timeLimit arg.cfg) t

section Remaps

variable {arg : VmopsBenchRunArg} {g : Ledger} {c : ThreadCall} {r : c.Resp}

/-- What has gone wrong stays wrong. -/
theorem Remaps.of_note (h : Remaps arg (g.note c r)) : Remaps arg g := by
  refine ⟨(Bool.or_eq_false_iff.mp h.succeed).1, fun hzero t ht => h.pages hzero t ?_⟩
  show Ledger.clockAfter g.clock c r = some t
  rw [ht]
  cases c <;> rfl

/-- Only mapping calls and the clock matter to the condition. -/
theorem Remaps.note (h : Remaps arg g) (hmap : c.isMap = false) (htime : c ≠ .getTime) :
    Remaps arg (g.note c r) := by
  have hclock : Ledger.clockAfter g.clock c r = g.clock := by
    cases c with
    | getTime => exact absurd rfl htime
    | _ => rfl
  refine ⟨?_, fun hzero t ht => h.pages hzero t (hclock ▸ ht)⟩
  show (g.remapFailed || (g.site == some .start && c.isMap && c.fails r)) = false
  rw [h.succeed, hmap, Bool.and_false, Bool.false_and, Bool.or_false]

end Remaps

/-! ### The judgement -/

/-- The specification that keeps the judgement. -/
abbrev judged (arg : VmopsBenchRunArg) : Spec threadSig (Ledger × Prop) :=
  ownership.judging (Remaps arg)

theorem sees_judged (arg : VmopsBenchRunArg) : Sees (judged arg) fun x => x.1.space :=
  ⟨fun _ _ _ h => h, fun _ _ _ => rfl⟩

/-- **What the judgement is at the end**: the array has kept track exactly if the condition
holds. -/
def Verdict (arg : VmopsBenchRunArg) (x : Ledger × Prop) : Prop :=
  (x.2 ∧ (x.1.cleanupFailed = false → x.1.space = AddressSpace.empty)) ↔ Remaps arg x.1

/-- **All is well**, at a barrier and with a first clock reading. -/
structure Clean (site : Option BarrierSite) (clock : Option PlatTime) (x : Ledger × Prop) :
    Prop where
  judgement : x.2
  site_eq : x.1.site = site
  clock_eq : x.1.clock = clock
  remapFailed_eq : x.1.remapFailed = false
  cleanupFailed_eq : x.1.cleanupFailed = false

/-- **An unmap call has gone astray**, and the condition does not hold. -/
structure Astray (arg : VmopsBenchRunArg) (x : Ledger × Prop) : Prop where
  judgement : ¬x.2
  remaps : ¬Remaps arg x.1

section Judgement

variable {arg : VmopsBenchRunArg} {x : Ledger × Prop} {site : Option BarrierSite}
  {clock : Option PlatTime} {c : ThreadCall} {r : c.Resp}

theorem clean_start : Clean none none (Ledger.start, True) := ⟨trivial, rfl, rfl, rfl, rfl⟩

/-- A call that does not fail where it would matter. -/
theorem Clean.note (arg : VmopsBenchRunArg) (h : Clean site clock x) (c : ThreadCall) (r : c.Resp)
    (hpre : ownership.pre x.1 c)
    (hremap : site = some .start → c.isMap = true → c.fails r = false)
    (hcleanup : site = some .cleanup → c.fails r = false) :
    Clean (Ledger.siteAfter site c) (Ledger.clockAfter clock c r) ((judged arg).upd x c r) := by
  refine ⟨⟨h.judgement, hpre⟩, congrArg (Ledger.siteAfter · c) h.site_eq,
    congrArg (Ledger.clockAfter · c r) h.clock_eq, ?_, ?_⟩
  · show (x.1.remapFailed || (x.1.site == some .start && c.isMap && c.fails r)) = false
    rw [h.remapFailed_eq, h.site_eq, Bool.false_or, Bool.and_eq_false_iff, Bool.and_eq_false_iff]
    by_cases hsite : site = some .start
    · cases hmap : c.isMap with
      | true => exact Or.inr (hremap hsite hmap)
      | false => exact Or.inl (Or.inr rfl)
    · exact Or.inl (Or.inl (beq_eq_false_iff_ne.mpr hsite))
  · show (x.1.cleanupFailed || (x.1.site == some .cleanup && c.fails r)) = false
    rw [h.cleanupFailed_eq, h.site_eq, Bool.false_or, Bool.and_eq_false_iff]
    by_cases hsite : site = some .cleanup
    · exact Or.inr (hcleanup hsite)
    · exact Or.inl (beq_eq_false_iff_ne.mpr hsite)

theorem Clean.remaps (h : Clean site clock x)
    (hpages : pageCount arg.cfg = 0 → ∀ t, clock = some t → ¬t < deadline (timeLimit arg.cfg) t) :
    Remaps arg x.1 := ⟨h.remapFailed_eq, fun hzero t ht => hpages hzero t (h.clock_eq ▸ ht)⟩

theorem Astray.verdict (h : Astray arg x) : Verdict arg x := by
  constructor
  · exact fun hx => absurd hx.1 h.judgement
  · exact fun hremaps => absurd hremaps h.remaps

/-- There is no way back, … -/
theorem Astray.note (h : Astray arg x) (c : ThreadCall) (r : c.Resp) :
    Astray arg ((judged arg).upd x c r) :=
  ⟨fun hx => h.judgement hx.1, fun hremaps => h.remaps hremaps.of_note⟩

/-- … whatever the thread does. -/
theorem Astray.wp {α : Type} (h : Astray arg x) (p : Prog threadSig α) :
    Interact.wp (judged arg) p (fun _ => Astray arg) x :=
  wp_of_kept (fun _ _ h hremaps => absurd hremaps h.remaps) (fun _ _ _ h => h.note _ _) p h

end Judgement

/-! ### The cleanup -/

/-- **The cleanup, with `i` turns behind it**: the other entries are still mapped, and if no call
has failed nothing else is. -/
structure Unmapping (arg : VmopsBenchRunArg) (addrs : ℕ → Addr) (n i : ℕ) (x : Ledger × Prop) :
    Prop where
  judgement : x.2
  remaps : Remaps arg x.1
  site_eq : x.1.site = some .cleanup
  entries : ∃ I, Entries (objectPage arg) addrs I x.1.space ∧ Set.Ico i n ⊆ I ∧
    (x.1.cleanupFailed = false → I = Set.Ico i n)

section Cleanup

variable {arg arg' : VmopsBenchRunArg} {addrs : ℕ → Addr} {n i : ℕ} {x : Ledger × Prop}
  {exit : Exit} {site : Option BarrierSite} {clock : Option PlatTime}

/-- **One turn of the cleanup**, whether the call succeeds or not. -/
theorem Unmapping.unmap (h : Unmapping arg addrs n i x) (hi : i < n) (ok : Bool) :
    ownership.pre x.1 (.vmUnmap (addrs i) platArchBasePageSize) ∧
      Unmapping arg addrs n (i + 1)
        ((judged arg).upd x (.vmUnmap (addrs i) platArchBasePageSize) ok) := by
  obtain ⟨I, hentries, hrest, hall⟩ := h.entries
  have hmem : i ∈ I := hrest ⟨le_rfl, hi⟩
  have haligned := hentries.aligned i hmem
  have hpre : ownership.pre x.1 (.vmUnmap (addrs i) platArchBasePageSize) :=
    hentries.pagesOf_subset hmem
  have hnext : Set.Ico i n \ {i} = Set.Ico (i + 1) n := by
    ext j
    rw [Set.mem_sdiff, Set.mem_Ico, Set.mem_Ico, Set.mem_singleton_iff]
    omega
  refine ⟨hpre, ⟨h.judgement, hpre⟩, h.remaps.note rfl (fun heq => by cases heq), h.site_eq, ?_⟩
  cases ok with
  | true =>
    refine ⟨I \ {i}, ?_, ?_, fun hok => ?_⟩
    · have hclear := hentries.clear hmem
      rw [← AddressSpace.unmap_page haligned] at hclear
      exact hclear
    · rw [← hnext]
      exact Set.sdiff_subset_sdiff_left hrest
    · rw [hall (Bool.or_eq_false_iff.mp hok).1, hnext]
  | false =>
    refine ⟨I, hentries, (Set.Ico_subset_Ico_left (Nat.le_succ i)).trans hrest, fun hok => ?_⟩
    have hfailed := (Bool.or_eq_false_iff.mp hok).2
    rw [h.site_eq] at hfailed
    cases hfailed

/-- A turn for an entry that is `NULL`. -/
theorem Unmapping.skip (h : Unmapping arg addrs n i x) (hi : n ≤ i) :
    Unmapping arg addrs n (i + 1) x := by
  obtain ⟨I, hentries, -, hall⟩ := h.entries
  have hnone : Set.Ico (i + 1) n = ∅ := Set.Ico_eq_empty (by omega)
  refine ⟨h.judgement, h.remaps, h.site_eq, I, hentries, ?_, fun hok => ?_⟩
  · rw [hnone]
    exact Set.empty_subset I
  · rw [hall hok, hnone, Set.Ico_eq_empty (by omega)]

/-- The verdict after the last turn, at the end of the function. -/
theorem Unmapping.verdict (h : Unmapping arg addrs n i x) (hi : n ≤ i) :
    Verdict arg ((judged arg).upd ((judged arg).upd x ThreadCall.free ())
      (ThreadCall.barrier .leave) ()) := by
  obtain ⟨I, hentries, -, hall⟩ := h.entries
  constructor
  · intro _
    have hfree : Remaps arg (x.1.note .free ()) := h.remaps.note rfl fun heq => by cases heq
    exact hfree.note rfl fun heq => by cases heq
  · intro _
    refine ⟨⟨⟨h.judgement, trivial⟩, trivial⟩, fun hok => funext fun p => ?_⟩
    have hloop := (Bool.or_eq_false_iff.mp (Bool.or_eq_false_iff.mp hok).1).1
    refine hentries.eq_none fun j hj => ?_
    rw [hall hloop, Set.Ico_eq_empty (by omega)] at hj
    exact hj.elim

/-- **The cleanup unmaps what the array records.** -/
theorem wp_cleanupAndExit_filled (hcount : pageCount arg'.cfg = pageCount arg.cfg)
    (hclean : Clean site clock x) (hremaps : Remaps arg x.1)
    (hfilled : Filled arg n addrs x.1.space) (hn : n ≤ (pageCount arg.cfg).toNat) :
    wp (judged arg) (cleanupAndExit arg' addrs exit) (fun _ => Verdict arg) x := by
  refine wp_perform_bind.mpr ⟨fun _ => trivial, fun _ _ => ?_⟩
  have hstart : Unmapping arg addrs n 0
      ((judged arg).upd x (ThreadCall.barrier .cleanup) ()) := by
    refine ⟨⟨hclean.judgement, trivial⟩, hremaps.note rfl (fun heq => by cases heq), rfl,
      Set.Iio n, hfilled.entries, ?_, fun _ => ?_⟩
    · exact fun j hj => hj.2
    · ext j
      simp
  refine (wp_bind _ _).mpr (wp_forLoop (fun i _ x => Unmapping arg addrs n i x) hstart ?_ ?_)
  · rintro i - x hi hx
    by_cases hlt : i < n
    · rw [if_pos (hfilled.entries.ne_zero i hlt)]
      exact wp_perform_bind.mpr ⟨fun _ => (hx.unmap hlt true).1, fun ok _ => (hx.unmap hlt ok).2⟩
    · rw [if_neg (not_not_intro (hfilled.null i (Nat.le_of_not_lt hlt)))]
      exact hx.skip (Nat.le_of_not_lt hlt)
  · rintro - x hx
    refine wp_perform_bind.mpr ⟨fun _ => trivial, fun _ _ => ?_⟩
    exact wp_perform_bind.mpr ⟨fun _ => trivial, fun _ _ => hx.verdict (hcount ▸ hn)⟩

/-- **The cleanup goes astray** at an entry whose page is not mapped. -/
theorem wp_cleanupAndExit_stale (hcount : pageCount arg'.cfg = pageCount arg.cfg)
    (hremaps : ¬Remaps arg x.1) {k : ℕ} (hk : k < (pageCount arg.cfg).toNat) (hzero : addrs k ≠ 0)
    (hstale : x.1.space (pageOf (addrs k)) = none) :
    wp (judged arg) (cleanupAndExit arg' addrs exit) (fun _ => Verdict arg) x := by
  refine wp_perform_bind.mpr ⟨fun _ => trivial, fun _ _ => ?_⟩
  refine (wp_bind _ _).mpr (wp_mono _ (fun o x hx => ?_) (wp_forLoop (Q := fun _ => Astray arg)
    (fun i _ x => ¬Remaps arg x.1 ∧ x.1.space (pageOf (addrs k)) = none ∧ (k < i → ¬x.2)) ?_ ?_ ?_))
  · exact wp_mono _ (fun _ _ hx => hx.verdict) (hx.wp _)
  · exact ⟨fun h => hremaps h.of_note, hstale, fun h => absurd h (Nat.not_lt_zero k)⟩
  · rintro i - x hi ⟨hremaps, hstale, hpast⟩
    by_cases hnull : addrs i = 0
    · rw [if_neg (not_not_intro hnull)]
      refine ⟨hremaps, hstale, fun hlt => hpast ?_⟩
      have hne : i ≠ k := fun heq => hzero (heq ▸ hnull)
      omega
    · rw [if_pos hnull]
      refine wp_perform_bind.mpr ⟨fun h => absurd h hremaps, fun ok _ => ?_⟩
      refine ⟨fun h => hremaps h.of_note, ThreadCall.onSpace_vmUnmap_eq_none hstale _ _ ok,
        fun hlt hx => ?_⟩
      rcases Nat.lt_succ_iff_lt_or_eq.mp hlt with hlt | rfl
      · exact hpast hlt hx.1
      · -- this is the call that goes astray
        have hpage : pageOf (addrs k) ∈ x.1.space.mapped :=
          hx.2 (pageOf_mem_pagesOf _ (by decide))
        rw [AddressSpace.mapped, Set.mem_ofPred_eq, hstale] at hpage
        cases hpage
  · rintro - x ⟨hremaps, -, hpast⟩
    exact ⟨hpast (hcount ▸ hk), hremaps⟩

end Cleanup

/-! ### The timed loop -/

/-- **How the timed loop may be left** for the cleanup. -/
inductive Leaving (arg : VmopsBenchRunArg) (t : PlatTime) (addrs : ℕ → Addr) (x : Ledger × Prop) :
    Prop where
  /-- The array is right. -/
  | filled (hclean : Clean (some .start) (some t) x) (hremaps : Remaps arg x.1)
      (hfilled : Filled arg (pageCount arg.cfg).toNat addrs x.1.space)
  /-- A remapping has failed, and its entry is stale. -/
  | stale (k : ℕ) (hk : k < (pageCount arg.cfg).toNat) (hzero : addrs k ≠ 0)
      (hstale : x.1.space (pageOf (addrs k)) = none) (hremaps : ¬Remaps arg x.1)
  | astray (h : Astray arg x)

section Loop

variable {arg arg' : VmopsBenchRunArg} {t : PlatTime} {x : Ledger × Prop}

theorem Leaving.wp {addrs : ℕ → Addr} (h : Leaving arg t addrs x)
    (hcount : pageCount arg'.cfg = pageCount arg.cfg) (exit : Exit) :
    Interact.wp (judged arg) (cleanupAndExit arg' addrs exit) (fun _ => Verdict arg) x := by
  cases h with
  | filled hclean hremaps hfilled =>
    exact wp_cleanupAndExit_filled hcount hclean hremaps hfilled le_rfl
  | stale k hk hzero hstale hremaps =>
    exact wp_cleanupAndExit_stale hcount hremaps hk hzero hstale
  | astray h => exact wp_mono _ (fun _ _ h => h.verdict) (h.wp _)

/-- The clock is read once more. -/
theorem Leaving.getTime {addrs : ℕ → Addr} (h : Leaving arg t addrs x) (t' : PlatTime) :
    Leaving arg t addrs ((judged arg).upd x .getTime t') := by
  cases h with
  | filled hclean hremaps hfilled =>
    have hnote := hclean.note arg .getTime t' trivial (fun _ h => by cases h)
      (fun h => by cases h)
    refine .filled hnote (hnote.remaps fun hzero t ht => hremaps.pages hzero t ?_) hfilled
    exact hclean.clock_eq.trans ht
  | stale k hk hzero hstale hremaps =>
    exact .stale k hk hzero hstale fun h => hremaps h.of_note
  | astray h => exact .astray (h.note _ _)

/-- A failed mapping call of the timed loop leaves a stale entry, and breaks the condition. -/
theorem Clean.stale (h : Clean (some .start) (some t) x) {addrs : ℕ → Addr} {k : ℕ}
    (hk : k < (pageCount arg.cfg).toNat) (hzero : addrs k ≠ 0)
    (hgap : x.1.space (pageOf (addrs k)) = none) {c : ThreadCall} {r : c.Resp}
    (hmap : c.isMap = true) (hfails : c.fails r = true) :
    Leaving arg t addrs ((judged arg).upd x c r) := by
  have hspace : c.onSpace x.1.space r = x.1.space := ThreadCall.onSpace_of_fails hfails _
  refine .stale k hk hzero ((congrFun hspace _).trans hgap) fun hremaps => ?_
  have hfailed := (Bool.or_eq_false_iff.mp hremaps.succeed).2
  rw [h.site_eq, hmap, hfails] at hfailed
  cases hfailed

/-- A turn without pages goes astray at once. -/
theorem Clean.astray (h : Clean (some .start) (some t) x) {addrs : ℕ → Addr}
    (hfilled : Filled arg (pageCount arg.cfg).toNat addrs x.1.space) (hzero : pageCount arg.cfg = 0)
    (ht : t < deadline (timeLimit arg.cfg) t) (addr : Addr) (ok : Bool) :
    Astray arg ((judged arg).upd x (.vmUnmap addr platArchBasePageSize) ok) := by
  refine ⟨fun hx => ?_, fun hremaps => hremaps.of_note.pages hzero t h.clock_eq ht⟩
  have hpage : pageOf addr ∈ x.1.space.mapped := hx.2 (pageOf_mem_pagesOf _ (by decide))
  rw [hfilled.entries.mapped_eq, hzero] at hpage
  obtain ⟨i, hi, -⟩ := hpage
  exact absurd hi (Nat.not_lt_zero i)

/-- **One operation of the timed loop.** -/
theorem wp_mapUnmap4kOp {v : Pages} (hclean : Clean (some .start) (some t) x)
    (hfilled : Filled arg (pageCount arg.cfg).toNat v.addrs x.1.space)
    (hpages : pageCount arg.cfg ≠ 0) :
    wp (judged arg) (mapUnmap4kOp arg v) (onExcept (fun v => Leaving arg t v.addrs)
      (fun v x => Clean (some .start) (some t) x ∧
        Filled arg (pageCount arg.cfg).toNat v.addrs x.1.space)) x := by
  have hidx : (v.page % pageCount arg.cfg).toNat < (pageCount arg.cfg).toNat :=
    toNat_umod_lt hpages
  have hzero := hfilled.entries.ne_zero _ hidx
  have hpre := hfilled.entries.pagesOf_subset hidx
  have hunmapped : ∀ ok, Clean (some .start) (some t) ((judged arg).upd x
      (.vmUnmap (v.addrs (v.page % pageCount arg.cfg).toNat) platArchBasePageSize) ok) :=
    fun ok => hclean.note arg (.vmUnmap _ _) ok hpre (fun _ h => by cases h) (fun h => by cases h)
  refine wp_unmapAndMap (sees_judged arg) rfl hidx hfilled (fun _ => hpre) (fun _ => ?_) ?_
  · exact .filled (hunmapped false) ((hunmapped false).remaps fun h => absurd h hpages) hfilled
  · rintro y rfl hgap c hc
    have hpre : ∀ g, ownership.pre g c := by
      intro g
      cases c with
      | vmUnmap => exact hc.elim
      | _ => trivial
    -- a call that maps is neither a barrier nor a reading of the clock
    have hsite : Ledger.siteAfter (some .start) c = some .start := by
      cases c with
      | barrier => exact hc.elim
      | _ => rfl
    have hclock : ∀ r, Ledger.clockAfter (some t) c r = some t := by
      intro r
      cases c with
      | getTime => exact hc.elim
      | _ => rfl
    refine ⟨fun _ => hpre _, fun r _ => ⟨fun hfails => ?_, fun addrs hfilled hok => ⟨?_, hfilled⟩⟩⟩
    · exact (hunmapped true).stale hidx hzero hgap hc.isMap hfails
    · have hnote := (hunmapped true).note arg c r (hpre _) (fun _ _ => hok) (fun h => by cases h)
      rwa [hsite, hclock] at hnote

/-- An operation without pages. -/
theorem wp_mapUnmap4kOp_none {v : Pages} (hclean : Clean (some .start) (some t) x)
    (hfilled : Filled arg (pageCount arg.cfg).toNat v.addrs x.1.space)
    (hzero : pageCount arg.cfg = 0) (ht : t < deadline (timeLimit arg.cfg) t) :
    wp (judged arg) (mapUnmap4kOp arg v) (fun _ => Astray arg) x := by
  rw [mapUnmap4kOp]
  refine wp_perform_bind.mpr ⟨fun hremaps => ?_, fun ok _ => ?_⟩
  · exact absurd ht (hremaps.pages hzero t hclean.clock_eq)
  · exact (hclean.astray hfilled hzero ht _ ok).wp _

/-- **The head of the timed loop**: the array is right, or there was none and the first turn has
gone astray. -/
inductive Ready (arg : VmopsBenchRunArg) (t : PlatTime) (s : LoopState Pages) (x : Ledger × Prop) :
    Prop where
  | filled (hclean : Clean (some .start) (some t) x)
      (hfilled : Filled arg (pageCount arg.cfg).toNat s.vars.addrs x.1.space)
      (hfirst : pageCount arg.cfg = 0 → s.tCurrent = t ∧ s.counter = 0)
  | astray (h : Astray arg x)

/-- **One turn of the timed loop.** -/
theorem Ready.wp_turn {s : LoopState Pages} (h : Ready arg t s x)
    (hrun : s.running (deadline (timeLimit arg.cfg) t) (opsLimit sizeMax arg.cfg) = true) :
    wp (judged arg) (mapUnmap4kOp arg s.vars) (onExcept (fun v => Leaving arg t v.addrs)
      (fun v x => ∀ t', Ready arg t (s.next arg.tid .never t t' v)
        ((judged arg).upd x .getTime t'))) x := by
  have hastray : ∀ x, Astray arg x → ∀ o : Except Pages Pages, onExcept
      (fun v => Leaving arg t v.addrs) (fun v x => ∀ t', Ready arg t (s.next arg.tid .never t t' v)
        ((judged arg).upd x .getTime t')) o x := by
    intro x hx o
    cases o with
    | error v => exact .astray hx
    | ok v => exact fun t' => .astray (hx.note _ _)
  cases h with
  | astray h => exact wp_mono _ (fun o x hx => hastray x hx o) (h.wp _)
  | filled hclean hfilled hfirst =>
    by_cases hzero : pageCount arg.cfg = 0
    · have ht : t < deadline (timeLimit arg.cfg) t := by
        rw [LoopState.running, (hfirst hzero).1, Bool.and_eq_true, decide_eq_true_eq] at hrun
        exact hrun.1
      exact wp_mono _ (fun o x hx => hastray x hx o)
        (wp_mapUnmap4kOp_none hclean hfilled hzero ht)
    · refine wp_mono _ (fun o x hx => ?_) (wp_mapUnmap4kOp hclean hfilled hzero)
      cases o with
      | error v => exact hx
      | ok v =>
        exact fun t' => .filled (hx.1.note arg .getTime t' trivial (fun _ h => by cases h)
          (fun h => by cases h)) hx.2 fun h => absurd h hzero

/-- **After the loop** the array is right, or the run has gone astray. -/
theorem Ready.leaving {s : LoopState Pages} (h : Ready arg t s x)
    (hend : s.running (deadline (timeLimit arg.cfg) t) (opsLimit sizeMax arg.cfg) = false) :
    Leaving arg t s.vars.addrs x := by
  cases h with
  | astray h => exact .astray h
  | filled hclean hfilled hfirst =>
    refine .filled hclean (hclean.remaps fun hzero t' ht' => ?_) hfilled
    obtain rfl : t = t' := Option.some_inj.mp ht'
    obtain ⟨htime, hcounter⟩ := hfirst hzero
    have hops : (0 : SizeT) < opsLimit sizeMax arg.cfg := zero_lt_opsLimit (by decide) arg.cfg
    rw [LoopState.running, htime, hcounter, decide_eq_true hops, Bool.and_true,
      decide_eq_false_iff_not] at hend
    exact hend

end Loop

/-! ### The whole function -/

/-- **The function comes to its verdict**, whatever calls fail. -/
theorem wp_benchRun4kFn (arg : VmopsBenchRunArg) :
    wp (judged arg) (benchRun4kFn arg) (fun _ => Verdict arg) (Ledger.start, True) := by
  refine wp_perform_bind.mpr ⟨fun _ => trivial, fun block _ => ?_⟩
  have hclean := clean_start.note arg (.calloc (pageCount arg.cfg) 8) block trivial
    (fun h => by cases h) (fun h => by cases h)
  cases block with
  | false =>
    -- no array: the function returns at once
    constructor
    · exact fun _ => hclean.remaps fun _ t h => by cases h
    · exact fun _ => ⟨hclean.judgement, fun _ => rfl⟩
  | true =>
    refine (wp_bind _ _).mpr (wp_mono _ (fun o x hx => ?_)
      (wp_mapPages_filled (sees_judged arg) (F := Clean none none) ?_ ?_ hclean rfl))
    · cases o with
      | error addrs =>
        obtain ⟨hclean, i, hi, hfilled⟩ := hx
        exact wp_cleanupAndExit_filled rfl hclean (hclean.remaps fun _ t h => by cases h) hfilled
          (Nat.le_of_lt hi)
      | ok addrs =>
        obtain ⟨hclean, hfilled⟩ := hx
        refine wp_perform_bind.mpr ⟨fun _ => trivial, fun _ _ => ?_⟩
        have hclean := hclean.note arg (.barrier .start) () trivial (fun h => by cases h)
          (fun h => by cases h)
        refine wp_perform_bind.mpr ⟨fun _ => trivial, fun t _ => ?_⟩
        have hclean := hclean.note arg .getTime t trivial (fun _ h => by cases h)
          (fun h => by cases h)
        refine (wp_bind _ _).mpr (wp_timedLoop (Ready arg t) ?_ ?_ ?_)
        · exact .filled hclean hfilled fun _ => ⟨rfl, rfl⟩
        · intro s x hs hrun
          refine wp_mono _ (fun o x hx => ?_) (hs.wp_turn hrun)
          cases o with
          | error v => exact hx.wp rfl _
          | ok v => exact ⟨fun _ => trivial, fun t' _ => hx t'⟩
        · -- the loop is over, and the cleanup unmaps what the array holds
          intro s x hs hend
          refine wp_perform_bind.mpr ⟨fun _ => trivial, fun t' _ => ?_⟩
          have hcount : pageCount (arg.completed s t t').cfg = pageCount arg.cfg := rfl
          exact ((hs.leaving hend).getTime t').wp hcount .done
    · intro x c hx hmap _
      cases c with
      | vmUnmap => cases hmap
      | _ => trivial
    · intro x c r hx hmap
      cases c with
      | vmMap =>
        exact hx.note arg (.vmMap _ _ _ _) r trivial (fun h => by cases h) (fun h => by cases h)
      | vmMapFixed =>
        exact hx.note arg (.vmMapFixed _ _ _ _ _) r trivial (fun h => by cases h)
          (fun h => by cases h)
      | _ => cases hmap

/-- **When the array keeps track of what is mapped**: in every run that meets the condition,
finished or not, and in no finished run that does not. -/
theorem keepsTrack_iff {arg : VmopsBenchRunArg} {tr : List (Event threadSig)}
    {q : Prog threadSig RunResult} (hrun : Run (benchRun4kFn arg) tr q)
    (henv : ownership.Admits Ledger.start tr) :
    (Remaps arg (ownership.after Ledger.start tr) → KeepsTrack tr q) ∧
      ∀ r, q = .ret r → KeepsTrack tr q → Remaps arg (ownership.after Ledger.start tr) := by
  obtain ⟨hown, hverdict⟩ := judge_run hrun (fun _ _ _ h => Remaps.of_note h)
    (wp_benchRun4kFn arg) henv
  constructor
  · intro hremaps
    exact ⟨hown hremaps, fun r hr => ((hverdict r hr).mpr hremaps).2⟩
  · intro r hr hkeeps
    exact (hverdict r hr).mp ⟨hkeeps.unmapsOwn, hkeeps.leavesNothing r hr⟩

/-! ### Two runs -/

/-- The arguments of a thread with one page and one operation. -/
def onePageArg : VmopsBenchRunArg :=
  fillArg { oneThread with memsize := 4096, map4k := true } 1 0

/-- The first operation, with the answer to its second call. -/
def firstTurn (remapped : Option Addr) : List (Event threadSig) :=
  [⟨ThreadCall.calloc 1 8, true⟩, ⟨ThreadCall.vmMap 4096 1 0 false, some 0x10000#64⟩,
    ⟨ThreadCall.barrier .start, ()⟩, ⟨ThreadCall.getTime, 0#64⟩,
    ⟨ThreadCall.vmUnmap 0x10000#64 4096, true⟩, ⟨ThreadCall.vmMap 4096 1 0 false, remapped⟩]

/-- The cleanup of the only page. -/
def lastCalls : List (Event threadSig) :=
  [⟨ThreadCall.barrier .cleanup, ()⟩, ⟨ThreadCall.vmUnmap 0x10000#64 4096, true⟩,
    ⟨ThreadCall.free, ()⟩, ⟨ThreadCall.barrier .leave, ()⟩]

/-- The clock after the operation, and after the loop. -/
def clockCalls : List (Event threadSig) := [⟨ThreadCall.getTime, 0#64⟩, ⟨ThreadCall.getTime, 0#64⟩]

theorem admits_firstTurn (remapped : Option Addr) (h : ∀ addr ∈ remapped, addr = 0x10000#64)
    (tr : List (Event threadSig))
    (htr : ownership.Admits (ownership.after Ledger.start (firstTurn remapped)) tr) :
    ownership.Admits Ledger.start (firstTurn remapped ++ tr) := by
  have haligned : Aligned 0x10000#64 := rfl
  refine Spec.admits_append ⟨trivial, ?_, trivial, trivial, trivial, ?_, trivial⟩ htr
  · rintro addr heq
    obtain rfl : 0x10000#64 = addr := Option.some_inj.mp heq
    exact ⟨by decide, haligned, fun p _ => rfl⟩
  · rintro addr heq
    obtain rfl : addr = 0x10000#64 := h addr heq
    exact ⟨by decide, haligned, fun p hp => if_pos hp⟩

/-- The remapping succeeds, and everything is unmapped in the end. -/
theorem keepsTrack_remapped : ∃ tr r, Run (benchRun4kFn onePageArg) tr (.ret r) ∧
    ownership.Admits Ledger.start tr ∧ KeepsTrack tr (.ret r) := by
  have hrun : ∃ r, Run (benchRun4kFn onePageArg)
      (firstTurn (some 0x10000#64) ++ (clockCalls ++ lastCalls)) (.ret r) := by
    constructor
    iterate 4 refine Run.call _ ?_
    refine Run.turn ?_
    iterate 3 refine Run.call _ ?_
    refine Run.turn ?_
    iterate 5 refine Run.call _ ?_
    exact Run.nil _
  obtain ⟨r, hrun⟩ := hrun
  have henv := admits_firstTurn (some 0x10000#64) (by simp) (clockCalls ++ lastCalls)
    ⟨trivial, trivial, trivial, trivial, trivial, trivial, trivial⟩
  refine ⟨_, r, hrun, henv, (keepsTrack_iff hrun henv).1 ⟨rfl, fun hzero => ?_⟩⟩
  exact absurd hzero (by decide)

/-- The remapping fails, and the cleanup unmaps a page that is not the thread's. -/
theorem failedRemap_goesAstray : ∃ tr r, Run (benchRun4kFn onePageArg) tr (.ret r) ∧
    ownership.Admits Ledger.start tr ∧ ¬KeepsTrack tr (.ret r) := by
  have hrun : ∃ r, Run (benchRun4kFn onePageArg) (firstTurn none ++ lastCalls) (.ret r) := by
    constructor
    iterate 4 refine Run.call _ ?_
    refine Run.turn ?_
    iterate 6 refine Run.call _ ?_
    exact Run.nil _
  obtain ⟨r, hrun⟩ := hrun
  have henv := admits_firstTurn none (by simp) lastCalls
    ⟨trivial, trivial, trivial, trivial, trivial⟩
  refine ⟨_, r, hrun, henv, fun hkeeps => ?_⟩
  have hfailed : (ownership.after Ledger.start (firstTurn none ++ lastCalls)).remapFailed = true :=
    rfl
  obtain ⟨-, hverdict⟩ := judge_run hrun (fun _ _ _ h => Remaps.of_note h)
    (wp_benchRun4kFn onePageArg) henv
  have hremaps := (hverdict r rfl).mp ⟨hkeeps.unmapsOwn, hkeeps.leavesNothing r rfl⟩
  exact Bool.false_ne_true (hremaps.succeed.symm.trans hfailed)

end MapUnmap

end VmopsBench

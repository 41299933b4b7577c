import VmopsBench.Benchmarks.Entry
import VmopsBench.Benchmarks.SmallPages
import VmopsBench.Interact.Turns
import VmopsBench.Order.RoundRobin

/-!
# The pages of the map and unmap benchmark take turns

Each turn of the timed loop of `bench_run_4k_fn` in `mapunmap.c` unmaps one page and maps it again,
and the pages take turns. As long as no call fails, the array is right at every head of the loop
(`VmopsBench.AtHead`), and every page has had its share of the turns
(`VmopsBench.MapUnmap.fairAtHeads`).

The share is a question of `page % nmaps`, and `page` is a 64-bit word that starts with the number
of the thread. After its wrap the pages do not go on where they were, unless their number is a power
of two; with three pages it can come to two turns in a row for the same page
(`VmopsBench.MapUnmap.unfair_afterWrap`).
-/

namespace VmopsBench

open Interact Words

/-! ### The heads of the timed loop -/

/-- The variables of the timed loop of a 4k function before the first turn. -/
def firstHead (arg : VmopsBenchRunArg) (addrs : ℕ → Addr) (t : PlatTime) : LoopState Pages where
  tCurrent := t
  counter := 0
  stats := arg.stats
  vars := { addrs, page := arg.tid.setWidth 64 }

/-- **A head of the timed loop** of a 4k function: the calls of `tr` have brought it there, with `c`
turns behind it and the variables `s`. -/
def AtHead (arg : VmopsBenchRunArg) (op : Pages → Prog threadSig (Except Pages Pages)) (c : ℕ)
    (tr : List (Event threadSig)) (s : LoopState Pages) : Prop :=
  ∃ setup addrs t turns, Run (mapPages arg) setup (.ret (.ok addrs)) ∧
    Turns (LoopState.running (deadline (timeLimit arg.cfg) t) (opsLimit sizeMax arg.cfg))
      (timedTurn arg.tid .never t op) (firstHead arg addrs t) c turns s ∧
    tr = ⟨ThreadCall.calloc (pageCount arg.cfg) 8, true⟩ :: setup ++
      [⟨ThreadCall.barrier .start, ()⟩, ⟨ThreadCall.getTime, t⟩] ++ turns

/-- A head is a place in a run of the function. -/
theorem AtHead.run {arg : VmopsBenchRunArg} {op : Pages → Prog threadSig (Except Pages Pages)}
    {c : ℕ} {tr : List (Event threadSig)} {s : LoopState Pages} (h : AtHead arg op c tr s) :
    ∃ t k, Run (pagedRun arg op) tr (timedLoop arg.tid .never t (deadline (timeLimit arg.cfg) t)
      (opsLimit sizeMax arg.cfg) op s >>= k) := by
  obtain ⟨setup, addrs, t, turns, hsetup, hturns, rfl⟩ := h
  rw [List.append_assoc, List.cons_append]
  use t
  constructor
  refine Run.call _ ?_
  refine hsetup.bind ?_
  iterate 2 refine Run.call _ ?_
  exact hturns.run.bind_left _

/-! ### What holds at a head -/

/-- **All pages are mapped**: as many as there are in the memory object, each by its own entry of
the array, which maps the page at its offset. -/
structure WellMapped (arg : VmopsBenchRunArg) (addrs : ℕ → Addr) (space : AddressSpace) : Prop where
  count : space.mapped.ncard = (pageCount arg.cfg).toNat
  disjoint : ∀ i < (pageCount arg.cfg).toNat, ∀ j < (pageCount arg.cfg).toNat, i ≠ j →
    Disjoint (pagesOf (addrs i) platArchBasePageSize.toNat)
      (pagesOf (addrs j) platArchBasePageSize.toNat)
  content : ∀ i < (pageCount arg.cfg).toNat, ∀ p ∈ pagesOf (addrs i) platArchBasePageSize.toNat,
    space p = some (arg.memobj, BitVec.ofNat 64 (i * 4096))

section WellMapped

variable {arg : VmopsBenchRunArg} {addrs : ℕ → Addr} {space : AddressSpace}

theorem objectPage_eq (arg : VmopsBenchRunArg) (i : ℕ) :
    objectPage arg i = (arg.memobj, BitVec.ofNat 64 (i * 4096)) := by
  rw [objectPage, BitVec.ofNat_mul]

/-- Different indices belong to different pages of the memory object. -/
theorem objectPage_inj {i j : ℕ} (hi : i < 2 ^ 52) (hj : j < 2 ^ 52) :
    objectPage arg i = objectPage arg j ↔ i = j := by
  refine ⟨fun h => ?_, congrArg _⟩
  rw [objectPage_eq, objectPage_eq] at h
  have hoffset := congrArg (fun m : ObjectPage => m.2.toNat) h
  simp only [BitVec.toNat_ofNat] at hoffset
  omega

/-- The array says so. -/
theorem Filled.wellMapped (h : Filled arg (pageCount arg.cfg).toNat addrs space) :
    WellMapped arg addrs space := by
  refine ⟨?_, fun i hi j hj hne => ?_, fun i hi p hp => ?_⟩
  · rw [h.entries.mapped_eq, h.entries.injOn.ncard_image, Set.ncard_eq_toFinset_card']
    simp
  · rw [(h.entries.aligned i hi).pagesOf_page, (h.entries.aligned j hj).pagesOf_page,
      Set.disjoint_singleton]
    exact fun heq => hne (h.entries.injOn hi hj heq)
  · rw [(h.entries.aligned i hi).pagesOf_page, Set.mem_singleton_iff] at hp
    rw [hp, h.entries.at_entry hi, objectPage_eq]

end WellMapped

namespace MapUnmap

/-! ### The specification -/

/-- **What is counted**, beside the mappings: for each page of a memory object how often it has been
unmapped and mapped since the start barrier. -/
structure Tally where
  space : AddressSpace
  unmaps : ObjectPage → ℕ
  remaps : ObjectPage → ℕ

namespace Tally

/-- Nothing has happened yet. -/
def start : Tally := ⟨AddressSpace.empty, fun _ => 0, fun _ => 0⟩

/-- The unmap calls, each counted for the page that was behind its address. -/
def unmapsAfter (g : Tally) : ThreadCall → ObjectPage → ℕ
  | .barrier .start, _ => 0
  | .vmUnmap addr _, m => g.unmaps m + if g.space (pageOf addr) = some m then 1 else 0
  | _, m => g.unmaps m

/-- The mapping calls. -/
def remapsAfter (g : Tally) : ThreadCall → ObjectPage → ℕ
  | .barrier .start, _ => 0
  | .vmMap _ memobj offset _, m | .vmMapFixed _ _ memobj offset _, m =>
    g.remaps m + if (memobj, offset) = m then 1 else 0
  | _, m => g.remaps m

/-- The tally after a call. -/
def note (g : Tally) (c : ThreadCall) (r : c.Resp) : Tally where
  space := c.onSpace g.space r
  unmaps := g.unmapsAfter c
  remaps := g.remapsAfter c

end Tally

/-- **No call fails**, and the kernel keeps its promises. -/
def steady : Spec threadSig Tally where
  pre _ _ := True
  env g c r := c.Answers g.space r ∧ c.fails r = false
  upd := Tally.note

theorem sees_steady : Sees steady Tally.space := ⟨fun _ _ _ h => h.1, fun _ _ _ => rfl⟩

/-- **At a head of the timed loop**, with `c` turns behind it. -/
structure Steady (arg : VmopsBenchRunArg) (c : ℕ) (s : LoopState Pages) (g : Tally) : Prop where
  filled : Filled arg (pageCount arg.cfg).toNat s.vars.addrs g.space
  page_eq : s.vars.page.toNat = (arg.tid.toNat + c) % 2 ^ 64
  unmaps_eq : ∀ i < (pageCount arg.cfg).toNat, g.unmaps (objectPage arg i) =
    RoundRobin.visitsMod (2 ^ 64) (pageCount arg.cfg).toNat arg.tid.toNat c i
  remaps_eq : ∀ i < (pageCount arg.cfg).toNat, g.remaps (objectPage arg i) =
    RoundRobin.visitsMod (2 ^ 64) (pageCount arg.cfg).toNat arg.tid.toNat c i

section Heads

variable {arg : VmopsBenchRunArg} {g : Tally}

/-- One more for the page whose turn it is. -/
theorem wp_mapUnmap4kOp_steady {v : Pages}
    (hfilled : Filled arg (pageCount arg.cfg).toNat v.addrs g.space)
    (hpages : pageCount arg.cfg ≠ 0) :
    wp steady (mapUnmap4kOp arg v) (onExcept (fun _ _ => True) fun v' g' =>
      Filled arg (pageCount arg.cfg).toNat v'.addrs g'.space ∧ v'.page = v.page + 1 ∧
      ∀ i < (pageCount arg.cfg).toNat,
        g'.unmaps (objectPage arg i) = g.unmaps (objectPage arg i) +
          (if (v.page % pageCount arg.cfg).toNat = i then 1 else 0) ∧
        g'.remaps (objectPage arg i) = g.remaps (objectPage arg i) +
          (if (v.page % pageCount arg.cfg).toNat = i then 1 else 0)) g := by
  have hidx : (v.page % pageCount arg.cfg).toNat < (pageCount arg.cfg).toNat :=
    toNat_umod_lt hpages
  have hmax := pageCount_lt arg.cfg
  refine wp_unmapAndMap sees_steady rfl hidx hfilled trivial (fun hok => ?_) ?_
  · cases hok.2
  · rintro g' rfl - c hc
    refine ⟨trivial, fun r hr => ⟨fun _ => trivial, fun addrs hfilled' _ => ⟨hfilled', rfl, ?_⟩⟩⟩
    intro i hi
    have hturn : objectPage arg (v.page % pageCount arg.cfg).toNat = objectPage arg i ↔
        (v.page % pageCount arg.cfg).toNat = i := objectPage_inj (hidx.trans hmax) (hi.trans hmax)
    have hunmap : Tally.unmapsAfter g (.vmUnmap (v.addrs (v.page % pageCount arg.cfg).toNat)
        platArchBasePageSize) (objectPage arg i) = g.unmaps (objectPage arg i) +
          if (v.page % pageCount arg.cfg).toNat = i then 1 else 0 := by
      refine congrArg _ (if_congr ?_ rfl rfl)
      rw [hfilled.entries.at_entry hidx, Option.some_inj, hturn]
    have hmap : ∀ g m, Tally.unmapsAfter g c m = g.unmaps m ∧ Tally.remapsAfter g c m =
        g.remaps m + if objectPage arg (v.page % pageCount arg.cfg).toNat = m then 1 else 0 := by
      intro g m
      cases c with
      | vmMap | vmMapFixed => exact ⟨rfl, congrArg _ (if_congr (by rw [hc.2]) rfl rfl)⟩
      | _ => exact hc.elim
    refine ⟨(hmap _ _).1.trans hunmap, (hmap _ _).2.trans (congrArg _ (if_congr hturn rfl rfl))⟩

/-- **A turn keeps it.** -/
theorem Steady.wp_turn {c : ℕ} {s : LoopState Pages} (h : Steady arg c s g)
    (hpages : pageCount arg.cfg ≠ 0) (t : PlatTime) :
    wp steady (timedTurn arg.tid .never t (mapUnmap4kOp arg) s)
      (onExcept (fun _ _ => True) (Steady arg (c + 1))) g := by
  have hidx : (s.vars.page % pageCount arg.cfg).toNat =
      (arg.tid.toNat + c) % 2 ^ 64 % (pageCount arg.cfg).toNat := by
    rw [BitVec.toNat_umod, h.page_eq]
  refine (wp_bind _ _).mpr (wp_mono _ (fun o g' ho => ?_)
    (wp_mapUnmap4kOp_steady h.filled hpages))
  cases o with
  | error v => trivial
  | ok v =>
    obtain ⟨hfilled, hpage, hcounts⟩ := ho
    refine wp_perform_bind.mpr ⟨trivial, fun t' _ => ⟨hfilled, ?_, fun i hi => ?_, fun i hi => ?_⟩⟩
    · show v.page.toNat = _
      rw [hpage, BitVec.toNat_add, h.page_eq]
      show ((arg.tid.toNat + c) % 2 ^ 64 + 1) % 2 ^ 64 = (arg.tid.toNat + (c + 1)) % 2 ^ 64
      omega
    · refine (hcounts i hi).1.trans ?_
      rw [RoundRobin.visitsMod_succ, h.unmaps_eq i hi, hidx]
    · refine (hcounts i hi).2.trans ?_
      rw [RoundRobin.visitsMod_succ, h.remaps_eq i hi, hidx]

/-- **The array is right at every head**, and the turns are counted. -/
theorem steady_atHead {c : ℕ} {tr : List (Event threadSig)} {s : LoopState Pages}
    (hhead : AtHead arg (mapUnmap4kOp arg) c tr s) (henv : steady.Admits Tally.start tr)
    (hpages : pageCount arg.cfg ≠ 0) : Steady arg c s (steady.after Tally.start tr) := by
  obtain ⟨setup, addrs, t, turns, hsetup, hturns, rfl⟩ := hhead
  obtain ⟨hbefore, hloop⟩ := Spec.admits_append_iff.mp henv
  have hmap := wp_run hsetup (wp_mapPages_filled sees_steady (F := fun _ => True)
    (fun _ _ _ _ => trivial) (fun _ _ _ _ _ => trivial) trivial rfl)
    (Spec.admits_append_iff.mp hbefore.2).1
  rw [Spec.after_append]
  refine hturns.invariant (fun c s g hs _ => hs.wp_turn hpages t) ?_ hloop
  have hstart : (arg.tid.setWidth 64).toNat = (arg.tid.toNat + 0) % 2 ^ 64 := by
    rw [BitVec.toNat_setWidth, Nat.add_zero]
  rw [Spec.after_append]
  exact ⟨hmap.2.2, hstart, fun _ _ => rfl, fun _ _ => rfl⟩

/-- **The number of the page does not wrap**, or its wrap is invisible. -/
def KeepsOrder (arg : VmopsBenchRunArg) (c : ℕ) : Prop :=
  arg.tid.toNat + c ≤ 2 ^ 64 ∨ (pageCount arg.cfg).toNat ∣ 2 ^ 64

/-- **All pages are mapped at every head of the timed loop**, in every run in which no call fails;
and until the number of the page wraps, each has had its share of the turns. -/
theorem fairAtHeads {c : ℕ} {tr : List (Event threadSig)} {s : LoopState Pages}
    (hhead : AtHead arg (mapUnmap4kOp arg) c tr s) (henv : steady.Admits Tally.start tr)
    (hsize : 4096 ≤ arg.cfg.memsize.toNat) :
    WellMapped arg s.vars.addrs (steady.after Tally.start tr).space ∧
      (KeepsOrder arg c → ∀ i < (pageCount arg.cfg).toNat,
        RoundRobin.Fair (pageCount arg.cfg).toNat c
          ((steady.after Tally.start tr).unmaps (objectPage arg i)) ∧
        RoundRobin.Fair (pageCount arg.cfg).toNat c
          ((steady.after Tally.start tr).remaps (objectPage arg i))) := by
  have hpages : 0 < (pageCount arg.cfg).toNat := by
    rw [toNat_pageCount]
    omega
  have hne : pageCount arg.cfg ≠ 0 := (BitVec.pos_iff_ne_zero _).mp (BitVec.lt_def.mpr hpages)
  have hsteady := steady_atHead hhead henv hne
  refine ⟨hsteady.filled.wellMapped, fun horder i hi => ?_⟩
  rw [hsteady.unmaps_eq i hi, hsteady.remaps_eq i hi, RoundRobin.visitsMod_eq_visits horder]
  exact and_self_iff.mpr (RoundRobin.visits_fair hpages hi _ _)

end Heads

/-! ### Long runs -/

section Runs

variable {arg : VmopsBenchRunArg}

/-- The operation of an isolated thread, if no call fails. -/
theorem run_mapUnmap4kOp (hiso : arg.cfg.isolated = true) (v : Pages) :
    Run (mapUnmap4kOp arg v)
      [⟨ThreadCall.vmUnmap (v.addrs (v.page % pageCount arg.cfg).toNat) platArchBasePageSize, true⟩,
        ⟨ThreadCall.vmMapFixed (v.addrs (v.page % pageCount arg.cfg).toNat) platArchBasePageSize
          arg.memobj (v.page % pageCount arg.cfg * platArchBasePageSize) arg.cfg.maphuge, true⟩]
      (.ret (.ok { v with page := v.page + 1 })) := by
  rw [mapUnmap4kOp]
  simp only [hiso, if_true]
  iterate 2 refine Run.call _ ?_
  exact .nil _

/-- **The timed loop makes as many turns as it may**, if the clock stands still. -/
theorem exists_turns (hiso : arg.cfg.isolated = true) (hpages : pageCount arg.cfg ≠ 0)
    {addrs : ℕ → Addr} (hzero : ∀ i < (pageCount arg.cfg).toNat, addrs i ≠ 0) {c : ℕ}
    (hc : c ≤ (opsLimit sizeMax arg.cfg).toNat) :
    ∃ tr s, Turns (LoopState.running (deadline (timeLimit arg.cfg) 0) (opsLimit sizeMax arg.cfg))
        (timedTurn arg.tid .never 0 (mapUnmap4kOp arg)) (firstHead arg addrs 0) c tr s ∧
      (∀ e ∈ tr, ∀ g, steady.env g e.call e.resp) ∧
      s.tCurrent = 0 ∧ s.counter = BitVec.ofNat 64 c ∧ s.vars.addrs = addrs := by
  induction c with
  | zero => exact ⟨[], _, .zero, fun e he => (by cases he), rfl, rfl, rfl⟩
  | succ c ih =>
    obtain ⟨tr, s, hturns, henv, htime, hcounter, haddrs⟩ := ih (by omega)
    have hmax := (opsLimit sizeMax arg.cfg).isLt
    have hrunning :
        s.running (deadline (timeLimit arg.cfg) 0) (opsLimit sizeMax arg.cfg) = true := by
      rw [LoopState.running, htime, hcounter, Bool.and_eq_true, decide_eq_true_eq,
        decide_eq_true_eq]
      refine ⟨zero_lt_deadline arg.cfg, BitVec.lt_def.mpr ?_⟩
      rw [BitVec.toNat_ofNat, Nat.mod_eq_of_lt (by omega)]
      omega
    -- the turn ends at the same time as it began
    have hturn := run_timedTurn (run_mapUnmap4kOp hiso s.vars) arg.tid .never 0 0
    refine ⟨_, _, .succ hturns hrunning hturn, ?_, rfl, ?_, haddrs⟩
    · intro e he g
      rcases List.mem_append.mp he with he | he
      · exact henv e he g
      · simp only [List.cons_append, List.nil_append, List.mem_cons, List.not_mem_nil,
          or_false] at he
        rcases he with rfl | rfl | rfl
        · exact ⟨trivial, rfl⟩
        · refine ⟨fun _ => ?_, rfl⟩
          rw [haddrs]
          exact hzero _ (toNat_umod_lt hpages)
        · exact ⟨trivial, rfl⟩
    · show s.counter + 1 = _
      rw [hcounter, BitVec.ofNat_add]
      rfl

end Runs

/-- The arguments of an isolated thread with three pages, and without a limit. -/
def threePagesArg : VmopsBenchRunArg :=
  fillArg { oneThread with memsize := 12288, nops := 0, isolated := true, map4k := true } 1 2

/-- A mapping call of its setup that succeeds. -/
def mapCall (addr : Addr) (i : ℕ) : Event threadSig :=
  ⟨ThreadCall.vmMapFixed addr platArchBasePageSize 1 (BitVec.ofNat 64 i * platArchBasePageSize)
    false, true⟩

/-- It can come to any head. -/
theorem exists_atHead {c : ℕ} (hc : c < 2 ^ 64) :
    ∃ tr s, AtHead threePagesArg (mapUnmap4kOp threePagesArg) c tr s ∧
      steady.Admits Tally.start tr := by
  have hpages : pageCount threePagesArg.cfg ≠ 0 := by decide
  have hops : (opsLimit sizeMax threePagesArg.cfg).toNat = 2 ^ 64 - 1 := by decide
  have hsetup : ∃ setup addrs, Run (mapPages threePagesArg) setup (.ret (.ok addrs)) ∧
      ∀ e ∈ setup, ∀ g, steady.env g e.call e.resp := by
    have hrun : ∃ addrs, Run (mapPages threePagesArg)
        [mapCall (utilsVmopsGetMapAddress 2) 0,
          mapCall (utilsVmopsGetMapAddress 2 + platArchBasePageSize) 1,
          mapCall (utilsVmopsGetMapAddress 2 + platArchBasePageSize + platArchBasePageSize) 2]
        (.ret (.ok addrs)) := by
      constructor
      iterate 3 refine Run.call _ ?_
      exact .nil _
    obtain ⟨addrs, hrun⟩ := hrun
    refine ⟨_, addrs, hrun, fun e he g => ?_⟩
    simp only [List.mem_cons, List.not_mem_nil, or_false] at he
    rcases he with rfl | rfl | rfl <;> exact ⟨fun _ => by decide, rfl⟩
  obtain ⟨setup, addrs, hsetup, henv⟩ := hsetup
  have hmap := wp_run hsetup (wp_mapPages_filled sees_steady (F := fun _ => True)
    (fun _ _ _ _ => trivial) (fun _ _ _ _ _ => trivial) trivial rfl)
    (steady.admits_of_mem henv Tally.start)
  obtain ⟨turns, s, hturns, henv', -⟩ := exists_turns (c := c) rfl hpages
    hmap.2.2.entries.ne_zero (by omega)
  refine ⟨_, s, ⟨setup, addrs, 0, turns, hsetup, hturns, rfl⟩, steady.admits_of_mem ?_ _⟩
  intro e he g
  simp only [List.cons_append, List.mem_cons, List.mem_append, List.not_mem_nil, or_false] at he
  rcases he with rfl | (he | rfl | rfl) | he
  · exact ⟨trivial, rfl⟩
  · exact henv e he g
  · exact ⟨trivial, rfl⟩
  · exact ⟨trivial, rfl⟩
  · exact henv' e he g

/-- Four turns of three pages. -/
theorem fairAtHeads_threePages : ∃ tr s, AtHead threePagesArg (mapUnmap4kOp threePagesArg) 4 tr s ∧
    WellMapped threePagesArg s.vars.addrs (steady.after Tally.start tr).space ∧
      RoundRobin.Fair (pageCount threePagesArg.cfg).toNat 4
        ((steady.after Tally.start tr).unmaps (objectPage threePagesArg 0)) := by
  obtain ⟨tr, s, hhead, henv⟩ := exists_atHead (c := 4) (by decide)
  obtain ⟨hmapped, hfair⟩ := fairAtHeads hhead henv (by decide)
  have horder : KeepsOrder threePagesArg 4 := Or.inl (by decide)
  exact ⟨tr, s, hhead, hmapped, (hfair horder 0 (by decide)).1⟩

/-- **When the number of the page has wrapped**, the first page has had its turn twice within three
turns. -/
theorem unfair_afterWrap : ∃ tr s,
    AtHead threePagesArg (mapUnmap4kOp threePagesArg) (2 ^ 64 - 1) tr s ∧
      steady.Admits Tally.start tr ∧ 4096 ≤ threePagesArg.cfg.memsize.toNat ∧
      ¬RoundRobin.Fair (pageCount threePagesArg.cfg).toNat (2 ^ 64 - 1)
        ((steady.after Tally.start tr).unmaps (objectPage threePagesArg 0)) := by
  obtain ⟨tr, s, hhead, henv⟩ := exists_atHead (c := 2 ^ 64 - 1) (by omega)
  have hpages : (pageCount threePagesArg.cfg).toNat = 3 := by decide
  have htid : threePagesArg.tid.toNat = 2 := by decide
  refine ⟨tr, s, hhead, henv, by decide, ?_⟩
  have hunmaps := (steady_atHead hhead henv (by decide)).unmaps_eq 0 (by omega)
  rw [hpages, htid] at hunmaps
  have hwrap : 2 + (2 ^ 64 - 2) = 2 ^ 64 := by omega
  have hcount : RoundRobin.visitsMod (2 ^ 64) 3 2 (2 ^ 64 - 1) 0 = (2 ^ 64 - 2) / 3 + 1 + 1 := by
    have hsum : 2 ^ 64 - 1 = 2 ^ 64 - 2 + 1 := by omega
    have hfirst : (0 + (3 - 2 % 3)) % 3 < (2 ^ 64 - 2) % 3 := by omega
    rw [hsum, RoundRobin.visitsMod_add hwrap, RoundRobin.visits_eq (by omega) (by omega),
      if_pos hfirst, RoundRobin.visitsMod_succ, if_pos (by omega), RoundRobin.visitsMod_zero]
  rw [hunmaps, hpages, hcount, RoundRobin.Fair]
  omega

end MapUnmap

end VmopsBench

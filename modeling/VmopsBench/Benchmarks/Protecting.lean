import VmopsBench.Benchmarks.Entry
import VmopsBench.Benchmarks.SmallPages

/-!
# What the protect benchmark unmaps

`bench_run_4k_fn` of `protect.c` maps its pages one by one, changes their permissions in turn, and
in the end unmaps what is in its array. Any of the calls may fail, and a failure jumps to the
cleanup. The array is only written by the mapping loop, which leaves it `NULL` from the index of
the failure on, so that it lists the mappings that were made.

`VmopsBench.Protect.releasesMappings` says that the cleanup passes exactly these to
`plat_vm_unmap`, each once and in the order in which they were made. It is a statement about every
run, whatever calls fail.
-/

namespace VmopsBench

open Interact

namespace Protect

/-! ### The specification -/

/-- The ranges have no page in common. -/
def Apart (ranges : List (Addr × SizeT)) : Prop :=
  ranges.Pairwise fun a b => Disjoint (pagesOf a.1 a.2.toNat) (pagesOf b.1 b.2.toNat)

/-- **Every mapping has been unmapped once**, and nothing else has. -/
structure ReleasedOnce (tr : List (Event threadSig)) : Prop where
  released_eq : released tr = obtained tr
  apart : Apart (obtained tr)

/-- **What the function owes**: it unmaps the mappings in the order in which it has made them,
changes the permissions of none but these, and when it frees the array all of them have been
unmapped. -/
def releasing : Spec threadSig (List (Event threadSig)) where
  pre g c := match c with
    | .vmUnmap addr size => released g ++ [(addr, size)] <+: obtained g
    | .vmProtect addr size _ => (addr, size) ∈ obtained g
    | .free | .barrier .leave => ReleasedOnce g
    | _ => True
  env g c r := c.Answers (spaceAfter g) r
  upd g c r := g ++ [⟨c, r⟩]

theorem sees_releasing : Sees releasing spaceAfter :=
  ⟨fun _ _ _ h => h, fun _ _ _ => spaceAfter_concat⟩

theorem after_releasing (g tr : List (Event threadSig)) : releasing.after g tr = g ++ tr :=
  after_recording g tr

/-- The ranges of the first `n` entries. -/
def ranges (addrs : ℕ → Addr) (n : ℕ) : List (Addr × SizeT) :=
  (List.range n).map fun i => (addrs i, platArchBasePageSize)

/-- **The array lists the mappings**, and the first `i` of them have been unmapped. -/
structure Lists (addrs : ℕ → Addr) (n i : ℕ) (g : List (Event threadSig)) : Prop where
  obtained_eq : obtained g = ranges addrs n
  released_eq : released g = ranges addrs i

section Lists

variable {arg arg' : VmopsBenchRunArg} {addrs : ℕ → Addr} {n i : ℕ} {g : List (Event threadSig)}
  {exit : Exit}

theorem ranges_succ (addrs : ℕ → Addr) (n : ℕ) :
    ranges addrs (n + 1) = ranges addrs n ++ [(addrs n, platArchBasePageSize)] := by
  rw [ranges, List.range_succ, List.map_append]
  rfl

theorem ranges_prefix (addrs : ℕ → Addr) (h : i ≤ n) : ranges addrs i <+: ranges addrs n := by
  induction h with
  | refl => exact List.prefix_refl _
  | step _ ih =>
    rw [ranges_succ]
    exact ih.trans (List.prefix_append _ _)

/-- An entry further on does not matter. -/
theorem ranges_update (addrs : ℕ → Addr) (addr : Addr) (h : i ≤ n) :
    ranges (Function.update addrs n addr) i = ranges addrs i := by
  refine List.map_congr_left fun j hj => ?_
  have hj := List.mem_range.mp hj
  rw [Function.update_of_ne (by omega)]

/-- A call that neither maps nor unmaps. -/
theorem Lists.other (h : Lists addrs n i g) {c : ThreadCall} {r : c.Resp} (hmap : c.mapsAt r = none)
    (hunmap : c.unmapsAt = none) : Lists addrs n i (g ++ [⟨c, r⟩]) := by
  refine ⟨?_, ?_⟩
  · rw [obtained_concat, hmap, h.obtained_eq]
    exact List.append_nil _
  · rw [released_concat, hunmap, h.released_eq]
    exact List.append_nil _

/-- A mapping call that fails. -/
theorem Lists.map_fails (h : Lists addrs n i g) {c : ThreadCall} {r : c.Resp}
    (hc : c.isMap = true) (hfails : c.fails r = true) : Lists addrs n i (g ++ [⟨c, r⟩]) := by
  cases c with
  | vmMap => exact h.other (congrArg (Option.map _) (Option.isNone_iff_eq_none.mp hfails)) rfl
  | vmMapFixed => exact h.other (if_neg (by simpa [ThreadCall.fails] using hfails)) rfl
  | _ => cases hc

/-- **A mapping call that succeeds**, and its entry. -/
theorem Lists.map_succeeds (h : Lists addrs n 0 g) {c : ThreadCall} {r : c.Resp} {addr : Addr}
    (hc : c.isMap = true) (hmap : c.mapsAt r = some (addr, platArchBasePageSize)) :
    Lists (Function.update addrs n addr) (n + 1) 0 (g ++ [⟨c, r⟩]) := by
  have hunmap : c.unmapsAt = none := by
    cases c with
    | vmUnmap => cases hc
    | _ => rfl
  refine ⟨?_, ?_⟩
  · rw [obtained_concat, hmap, h.obtained_eq, ranges_succ, ranges_update addrs addr le_rfl,
      Function.update_self]
    rfl
  · rw [released_concat, hunmap, h.released_eq]
    rfl

/-- **The next one is unmapped.** -/
theorem Lists.unmap (h : Lists addrs n i g) (hi : i < n) (ok : Bool) :
    releasing.pre g (.vmUnmap (addrs i) platArchBasePageSize) ∧
      Lists addrs n (i + 1) (g ++ [⟨ThreadCall.vmUnmap (addrs i) platArchBasePageSize, ok⟩]) := by
  refine ⟨?_, ?_, ?_⟩
  · show released g ++ [(addrs i, platArchBasePageSize)] <+: obtained g
    rw [h.released_eq, h.obtained_eq, ← ranges_succ]
    exact ranges_prefix addrs hi
  · rw [obtained_concat, h.obtained_eq]
    exact List.append_nil _
  · rw [released_concat, h.released_eq, ranges_succ]
    rfl

/-- The entries of a filled array. -/
theorem apart_ranges {space : AddressSpace} (h : Filled arg n addrs space) :
    Apart (ranges addrs n) := by
  refine List.pairwise_map.mpr (List.pairwise_lt_range.imp_of_mem fun {i j} hi hj hlt => ?_)
  have hi := List.mem_range.mp hi
  have hj := List.mem_range.mp hj
  show Disjoint (pagesOf (addrs i) platArchBasePageSize.toNat)
    (pagesOf (addrs j) platArchBasePageSize.toNat)
  rw [(h.entries.aligned i hi).pagesOf_page, (h.entries.aligned j hj).pagesOf_page,
    Set.disjoint_singleton]
  exact fun heq => Nat.ne_of_lt hlt (h.entries.injOn hi hj heq)

theorem Lists.releasedOnce (h : Lists addrs n n g) (hapart : Apart (ranges addrs n)) :
    ReleasedOnce g :=
  ⟨h.released_eq.trans h.obtained_eq.symm, h.obtained_eq ▸ hapart⟩

/-! ### The parts of the function -/

/-- **The cleanup unmaps what the array lists.** -/
theorem wp_cleanupAndExit_lists {space : AddressSpace} (hcount : n ≤ (pageCount arg'.cfg).toNat)
    (hlists : Lists addrs n 0 g) (hfilled : Filled arg n addrs space) :
    wp releasing (cleanupAndExit arg' addrs exit) (fun _ => ReleasedOnce) g := by
  refine wp_perform_bind.mpr ⟨trivial, fun _ _ => ?_⟩
  have hstart : Lists addrs n (min 0 n) (g ++ [⟨ThreadCall.barrier .cleanup, ()⟩]) := by
    rw [Nat.zero_min]
    exact hlists.other rfl rfl
  refine (wp_bind _ _).mpr (wp_forLoop (fun i _ => Lists addrs n (min i n)) hstart ?_ ?_)
  · rintro i - g - hlists
    by_cases hlt : i < n
    · rw [min_eq_left hlt.le] at hlists
      rw [if_pos (hfilled.entries.ne_zero i hlt), min_eq_left hlt]
      exact wp_perform_bind.mpr ⟨(hlists.unmap hlt true).1, fun ok _ => (hlists.unmap hlt ok).2⟩
    · have hge : n ≤ i := Nat.le_of_not_lt hlt
      rw [min_eq_right hge] at hlists
      rw [if_neg (not_not_intro (hfilled.null i hge)), min_eq_right (Nat.le_succ_of_le hge)]
      exact hlists
  · rintro - g hlists
    rw [min_eq_right hcount] at hlists
    have hapart := apart_ranges hfilled
    refine wp_perform_bind.mpr ⟨hlists.releasedOnce hapart, fun _ _ => ?_⟩
    have hlists : Lists addrs n n (g ++ [⟨ThreadCall.free, ()⟩]) := hlists.other rfl rfl
    refine wp_perform_bind.mpr ⟨hlists.releasedOnce hapart, fun _ _ => ?_⟩
    exact (hlists.other rfl rfl).releasedOnce hapart

/-- The mapping loop lists the mappings. -/
theorem wp_mapPages_lists (hlists : Lists (fun _ => 0) 0 0 g)
    (hempty : spaceAfter g = AddressSpace.empty) :
    wp releasing (mapPages arg) (onExcept
      (fun addrs g => ∃ n < (pageCount arg.cfg).toNat, Lists addrs n 0 g ∧
        Filled arg n addrs (spaceAfter g))
      (fun addrs g => Lists addrs (pageCount arg.cfg).toNat 0 g ∧
        Filled arg (pageCount arg.cfg).toNat addrs (spaceAfter g))) g := by
  refine wp_mapPages_entries sees_releasing (F := fun n addrs g => Lists addrs n 0 g) ?_ ?_ ?_
    hlists hempty
  · intro n addrs g c _ hc
    cases c with
    | vmMap | vmMapFixed => exact trivial
    | _ => cases hc
  · exact fun n addrs g c r h hc hfails => h.map_fails hc hfails
  · exact fun n addrs g c r addr h hc hmap => h.map_succeeds hc hmap

/-- **The operation names a page of the array**, and leaves the array as it is. -/
theorem wp_protect4kOp {v : Pages} (hpages : pageCount arg.cfg ≠ 0) (haddrs : v.addrs = addrs)
    (hlists : Lists addrs (pageCount arg.cfg).toNat 0 g) :
    wp releasing (protect4kOp arg v) (onExcept
      (fun v g => v.addrs = addrs ∧ Lists addrs (pageCount arg.cfg).toNat 0 g)
      (fun v g => v.addrs = addrs ∧ Lists addrs (pageCount arg.cfg).toNat 0 g)) g := by
  subst haddrs
  generalize hidx : (v.page % pageCount arg.cfg).toNat = i
  have hi : i < (pageCount arg.cfg).toNat := hidx ▸ toNat_umod_lt hpages
  have hmem : ∀ g, Lists v.addrs (pageCount arg.cfg).toNat 0 g →
      (v.addrs i, platArchBasePageSize) ∈ obtained g := by
    intro g h
    rw [h.obtained_eq]
    exact List.mem_map.mpr ⟨i, List.mem_range.mpr hi, rfl⟩
  rw [protect4kOp, protectTwice]
  dsimp only
  rw [hidx]
  refine (wp_bind _ _).mpr (wp_perform_bind.mpr ⟨hmem g hlists, fun ok _ => ?_⟩)
  have hlists : Lists v.addrs (pageCount arg.cfg).toNat 0
      (g ++ [⟨.vmProtect (v.addrs i) platArchBasePageSize .readOnly, ok⟩]) := hlists.other rfl rfl
  cases ok with
  | false => exact ⟨rfl, hlists⟩
  | true => exact ⟨hmem _ hlists, fun ok _ => by cases ok <;> exact ⟨rfl, hlists.other rfl rfl⟩⟩

/-- **The function.** -/
theorem wp_benchRun4kFn (hpages : pageCount arg.cfg ≠ 0) :
    wp releasing (benchRun4kFn arg) (fun _ => ReleasedOnce) [] := by
  have hstart : ∀ ok, Lists (fun _ => 0) 0 0 [⟨ThreadCall.calloc (pageCount arg.cfg) 8, ok⟩] :=
    fun _ => ⟨rfl, rfl⟩
  refine wp_perform_bind.mpr ⟨trivial, fun ok _ => ?_⟩
  cases ok with
  | false => exact ⟨rfl, List.Pairwise.nil⟩
  | true =>
    refine (wp_bind _ _).mpr (wp_mono _ (fun o g ho => ?_) (wp_mapPages_lists (hstart true) rfl))
    cases o with
    | error addrs =>
      -- the mapping loop has failed at page `n`, and the array is zero from there on
      obtain ⟨n, hn, hlists, hfilled⟩ := ho
      exact wp_cleanupAndExit_lists hn.le hlists hfilled
    | ok addrs =>
      obtain ⟨hlists, hfilled⟩ := ho
      refine wp_perform_bind.mpr ⟨trivial, fun _ _ => wp_perform_bind.mpr ⟨trivial, fun t _ => ?_⟩⟩
      refine (wp_bind _ _).mpr (wp_timedLoop
        (fun s g => s.vars.addrs = addrs ∧ Lists addrs (pageCount arg.cfg).toNat 0 g)
        ⟨rfl, (hlists.other rfl rfl).other rfl rfl⟩ ?_ ?_)
      · rintro s g ⟨haddrs, hlists⟩ -
        refine wp_mono _ (fun o g ho => ?_) (wp_protect4kOp hpages haddrs hlists)
        cases o with
        | error v =>
          obtain ⟨rfl, hlists⟩ := ho
          exact wp_cleanupAndExit_lists le_rfl hlists hfilled
        | ok v => exact ⟨trivial, fun t _ => ⟨ho.1, ho.2.other rfl rfl⟩⟩
      · rintro s g ⟨rfl, hlists⟩ -
        refine wp_perform_bind.mpr ⟨trivial, fun t _ => ?_⟩
        exact wp_cleanupAndExit_lists le_rfl (hlists.other rfl rfl) hfilled

end Lists

/-! ### Every run -/

/-- **The cleanup loop is over.** -/
def CleanedUp (q : Prog threadSig RunResult) : Prop :=
  (∃ r, q = .ret r) ∨ ∃ c k, q = .call c k ∧ (c = .free ∨ c = .barrier .leave)

/-- The specification at every call: what has been unmapped so far, and what has been protected. -/
theorem honours_releasing {g tr : List (Event threadSig)} (h : releasing.Honours g tr)
    (hg : released g <+: obtained g) :
    released (g ++ tr) <+: obtained (g ++ tr) ∧
      ∀ e ∈ tr, ∀ addr size prot, e.call = .vmProtect addr size prot →
        (addr, size) ∈ obtained (g ++ tr) := by
  induction tr generalizing g with
  | nil =>
    rw [List.append_nil]
    exact ⟨hg, fun e he => by cases he⟩
  | cons e tr ih =>
    obtain ⟨c, r⟩ := e
    have hstep : released (g ++ [⟨c, r⟩]) <+: obtained (g ++ [⟨c, r⟩]) := by
      have hmore : obtained g <+: obtained (g ++ [⟨c, r⟩]) := by
        rw [obtained_append]
        exact List.prefix_append _ _
      rw [released_concat]
      cases c with
      | vmUnmap addr size => exact List.IsPrefix.trans h.1 hmore
      | _ => exact (List.append_nil (released g)).symm ▸ hg.trans hmore
    have hrest := ih h.2 hstep
    rw [show releasing.upd g c r ++ tr = g ++ ⟨c, r⟩ :: tr from List.append_assoc g [⟨c, r⟩] tr]
      at hrest
    obtain ⟨hreleased, hprotect⟩ := hrest
    refine ⟨hreleased, fun e' he' addr size prot hcall => ?_⟩
    -- what was protected had been mapped by then, and nothing is taken from the history
    rcases List.mem_cons.mp he' with rfl | he'
    · obtain rfl : c = .vmProtect addr size prot := hcall
      rw [obtained_append]
      exact List.mem_append_left _ h.1
    · exact hprotect e' he' addr size prot hcall

/-- **The function releases exactly its mappings**: at any time it has unmapped the first ones of
those it has made, in their order, and has named no others to `plat_vm_protect`; and when the
cleanup loop is over every one of them has been unmapped once. -/
theorem releasesMappings {arg : VmopsBenchRunArg} {tr : List (Event threadSig)}
    {q : Prog threadSig RunResult} (hsize : 4096 ≤ arg.cfg.memsize.toNat)
    (hrun : Run (benchRun4kFn arg) tr q) (henv : releasing.Admits [] tr) :
    released tr <+: obtained tr ∧
      (∀ e ∈ tr, ∀ addr size prot, e.call = .vmProtect addr size prot →
        (addr, size) ∈ obtained tr) ∧
      (CleanedUp q → ReleasedOnce tr) := by
  have hpages : pageCount arg.cfg ≠ 0 := by
    intro hzero
    have hcount : (0 : SizeT).toNat = arg.cfg.memsize.toNat / 4096 :=
      hzero ▸ toNat_pageCount arg.cfg
    exact absurd hcount.symm (Nat.ne_of_gt (Nat.div_pos hsize (by decide)))
  obtain ⟨hhonours, hq⟩ := wp_run hrun (wp_benchRun4kFn hpages) henv
  obtain ⟨hreleased, hprotect⟩ := honours_releasing hhonours (List.prefix_refl _)
  refine ⟨hreleased, hprotect, ?_⟩
  rw [after_releasing] at hq
  rintro (⟨r, rfl⟩ | ⟨c, k, rfl, rfl | rfl⟩)
  · exact hq
  · exact hq.1
  · exact hq.1

/-- The arguments of a thread with two pages. -/
def twoPageArg : VmopsBenchRunArg :=
  fillArg { oneThread with memsize := 8192, map4k := true } 1 0

/-- The second page cannot be mapped, and the cleanup unmaps the first one. -/
theorem releasesMappings_first : ∃ tr r, Run (benchRun4kFn twoPageArg) tr (.ret r) ∧
    releasing.Admits [] tr ∧ obtained tr = [(0x10000#64, 4096#64)] ∧ ReleasedOnce tr := by
  let tr : List (Event threadSig) :=
    [⟨.calloc 2 8, true⟩, ⟨.vmMap 4096 1 0 false, some 0x10000#64⟩,
      ⟨.vmMap 4096 1 4096 false, none⟩, ⟨.barrier .cleanup, ()⟩, ⟨.vmUnmap 0x10000#64 4096, true⟩,
      ⟨.free, ()⟩, ⟨.barrier .leave, ()⟩]
  have hrun : ∃ r, Run (benchRun4kFn twoPageArg) tr (.ret r) := by
    constructor
    iterate 7 refine Run.call _ ?_
    exact Run.nil _
  have hanswer :
      (ThreadCall.vmMap 4096 1 0 false).Answers AddressSpace.empty (some 0x10000#64) := by
    rintro addr ⟨⟩
    exact ⟨by decide, rfl, fun p _ => rfl⟩
  have hfails : ∀ space, (ThreadCall.vmMap 4096 1 4096 false).Answers space none := by
    rintro space addr ⟨⟩
  have henv : releasing.Admits [] tr :=
    ⟨trivial, hanswer, hfails _, trivial, trivial, trivial, trivial, trivial⟩
  obtain ⟨r, hrun⟩ := hrun
  exact ⟨tr, r, hrun, henv, rfl,
    (releasesMappings (by decide) hrun henv).2.2 (.inl ⟨r, rfl⟩)⟩

end Protect

end VmopsBench

import VmopsBench.Benchmarks.RunFns

/-!
# The order in which a run function meets its barriers

What a thread does to the others goes through the barrier, so a run function is
abstracted here to its barrier calls and its failures. `VmopsBench.Progress` is the
history that matters: the barrier calls a thread has returned from, and the calls
that have failed, each with the barriers passed before it.

Not every failure makes a function leave. An error of `plat_vm_unmap` after
`cleanup_and_exit`, or of the `plat_vm_protect` in the mapping loop of the elevate
benchmark, is logged and no more; `VmopsBench.RunFn.leavesOn` says which failures
matter, by the call and by where the thread is. Given that, the eight functions follow
three protocols (`VmopsBench.Protocol`):

* **direct** – the functions on one large mapping: two barriers, and a failure
  returns at once, without another barrier;
* **meeting** – `bench_run_nounmap_4k_fn`: two barriers on every path that has
  passed the first;
* **paged** – the 4k functions: three barriers when the mapping loop succeeds, two
  when it fails, and none when `calloc` does.

`VmopsBench.run_protocol` proves that each function follows its protocol, once and
for all configurations; nothing after it looks at a run function again to know where
its barriers are.
-/

namespace VmopsBench

open Interact

/-! ### Histories -/

/-- **What a thread has been through**: the barrier calls it has returned from, the
latest first, and its failed calls, each with the barriers passed before it. -/
structure Progress where
  passed : List BarrierSite
  failures : List (List BarrierSite × ThreadCall)

/-- The history after one more answered call. -/
def Progress.upd (g : Progress) (c : ThreadCall) (r : c.Resp) : Progress where
  passed := match c with
    | .barrier site => site :: g.passed
    | _ => g.passed
  failures := if c.fails r then (g.passed, c) :: g.failures else g.failures

/-- The history of a sequence of answered calls. -/
def progress (tr : List (Event threadSig)) : Progress :=
  tr.foldl (fun g e => g.upd e.call e.resp) ⟨[], []⟩

@[simp] theorem progress_concat (tr : List (Event threadSig)) (e : Event threadSig) :
    progress (tr ++ [e]) = (progress tr).upd e.call e.resp := by
  simp [progress]

/-! ### Which failures make a function leave -/

/-- **A failure of this call makes the function leave its normal path.** Errors of
`plat_vm_unmap` matter in the timed loops that unmap, and errors of
`plat_vm_protect` in any timed loop. -/
def RunFn.leavesOn (f : RunFn) : List BarrierSite × ThreadCall → Bool
  | (_, .calloc ..) | (_, .vmMap ..) | (_, .vmMapFixed ..) => true
  | (passed, .vmUnmap ..) =>
    passed = [.start] && (f = .mapunmap || f = .mapunmap4k || f = .tlbshoot)
  | (passed, .vmProtect ..) => passed = [.start]
  | _ => false

/-- No failure has made the function leave. -/
def Progress.Clean (f : RunFn) (g : Progress) : Prop := ∀ e ∈ g.failures, f.leavesOn e = false

/-- **Where a thread stands**: the barriers it has passed, and the exit it is heading for, which
is the error exit as soon as a call has failed on which the function leaves. -/
structure Progress.Heads (f : RunFn) (exit : Exit) (passed : List BarrierSite) (g : Progress) :
    Prop where
  passed_eq : g.passed = passed
  clean_iff : g.Clean f ↔ exit = .done

/-- A mapping has failed before the first barrier. -/
def Progress.SetupFailed (g : Progress) : Prop :=
  ∃ e ∈ g.failures, e.1 = [] ∧ e.2.isMap = true

/-- The barriers a 4k function has passed when it comes to `cleanup_and_exit`: the start barrier
or, when its mapping loop has failed, none. -/
def Progress.Cleans (g : Progress) (passed : List BarrierSite) : Prop :=
  passed = [.start] ∨ passed = [] ∧ g.SetupFailed

/-! ### The three protocols -/

/-- What a run function does at its barriers. -/
inductive Protocol where
  | direct
  | meeting
  | paged
  deriving DecidableEq

/-- The protocol of each run function. -/
def RunFn.protocol : RunFn → Protocol
  | .mapunmap | .nounmap | .protect | .elevate | .tlbshoot => .direct
  | .nounmap4k => .meeting
  | .mapunmap4k | .protect4k => .paged

/-- **What a function with a given history may call**, as far as barriers are concerned:
which barrier it may arrive at, and that the unmapping loop belongs to
`cleanup_and_exit`. -/
def RunFn.MayCall (f : RunFn) (g : Progress) : ThreadCall → Prop
  | .barrier .start => g.Heads f .done []
  | .barrier .finish => match f.protocol with
    | .direct => g.Heads f .done [.start]
    | .meeting => g.passed = [.start]
    | .paged => False
  | .barrier .cleanup => f.protocol = .paged ∧ g.Cleans g.passed
  | .barrier .leave =>
    f.protocol = .paged ∧ ∃ passed, g.passed = .cleanup :: passed ∧ g.Cleans passed
  | .vmUnmap .. => ∀ passed, g.passed = .cleanup :: passed → g.Cleans passed
  | _ => True

/-- **The histories a function may return with.** -/
def RunFn.MayReturn (f : RunFn) (r : RunResult) (g : Progress) : Prop :=
  (g.Clean f ↔ r.exit = .done) ∧ match f.protocol with
    | .direct => if r.exit = .done then g.passed = [.finish, .start]
      else g.passed = [] ∨ g.passed = [.start]
    | .meeting => g.passed = [.finish, .start]
    | .paged => g.passed = [] ∧ r.exit = .error ∨
      ∃ passed, g.passed = .leave :: .cleanup :: passed ∧ g.Cleans passed

/-- **The specification of the barrier protocol**: nothing is assumed of the answers. -/
def protocol (f : RunFn) : Spec threadSig Progress where
  pre := f.MayCall
  env _ _ _ := True
  upd := Progress.upd

theorem protocol_admits (f : RunFn) (g : Progress) (tr : List (Event threadSig)) :
    (protocol f).Admits g tr := Spec.admits_of_forall _ (fun _ _ _ => trivial) g tr

/-! ### How a history grows -/

section Progress

variable {f : RunFn} {e : Exit} {g : Progress} {passed : List BarrierSite} {c : ThreadCall}
  {r : c.Resp}

theorem Progress.clean_upd : (g.upd c r).Clean f ↔
    g.Clean f ∧ (c.fails r = true → f.leavesOn (g.passed, c) = false) := by
  simp only [Clean, upd]
  split
  · rename_i h
    simp [h, and_comm]
  · rename_i h
    simp [h]

theorem Progress.passed_upd (hc : c.isBarrier = false) : (g.upd c r).passed = g.passed := by
  cases c <;> first | rfl | cases hc

/-- A failure stays on record. -/
theorem Progress.SetupFailed.upd (h : g.SetupFailed) : (g.upd c r).SetupFailed := by
  obtain ⟨x, hx, hfail⟩ := h
  refine ⟨x, ?_, hfail⟩
  simp only [Progress.upd]
  split
  · exact List.mem_cons_of_mem _ hx
  · exact hx

theorem Progress.Cleans.upd (h : g.Cleans passed) : (g.upd c r).Cleans passed :=
  h.imp id fun ⟨hp, hs⟩ => ⟨hp, hs.upd⟩

/-- A barrier call is recorded and never fails. -/
theorem Progress.Heads.barrier (h : g.Heads f e passed) (site : BarrierSite) :
    (g.upd (.barrier site) ()).Heads f e (site :: passed) where
  passed_eq := congrArg (site :: ·) h.passed_eq
  clean_iff := by
    rw [Progress.clean_upd, ← h.clean_iff]
    exact and_iff_left nofun

/-- A call that succeeds, or whose failure does not matter, changes nothing. -/
theorem Progress.Heads.quiet (h : g.Heads f e passed) (hc : c.isBarrier = false)
    (hl : c.fails r = true → f.leavesOn (passed, c) = false) : (g.upd c r).Heads f e passed where
  passed_eq := (Progress.passed_upd hc).trans h.passed_eq
  clean_iff := by
    rw [Progress.clean_upd, ← h.clean_iff, h.passed_eq]
    exact and_iff_left hl

/-- A call that fails, and whose failure matters. -/
theorem Progress.Heads.fail (h : g.Heads f e passed) (hc : c.isBarrier = false)
    (hr : c.fails r = true) (hl : f.leavesOn (passed, c) = true) :
    (g.upd c r).Heads f .error passed where
  passed_eq := (Progress.passed_upd hc).trans h.passed_eq
  clean_iff := by
    refine iff_of_false (fun hcl => ?_) nofun
    have hno := (Progress.clean_upd.mp hcl).2 hr
    rw [h.passed_eq, hl] at hno
    cases hno

end Progress

/-! ### Rules for one call -/

section Rules

variable {f : RunFn} {e : Exit} {g : Progress} {passed : List BarrierSite} {α : Type}
  {Q : α → Progress → Prop}

/-- **A call whose failure matters**: from there on the function heads for the error exit. -/
theorem wp_checked {c : ThreadCall} {k : c.Resp → Prog threadSig α} (h : g.Heads f .done passed)
    (hl : f.leavesOn (passed, c) = true)
    (hk : ∀ r g', (c.fails r = false → g'.Heads f .done passed) →
      (c.fails r = true → g'.Heads f .error passed) → wp (protocol f) (k r) Q g') :
    wp (protocol f) (Prog.perform (S := threadSig) c >>= k) Q g := by
  have hc : c.isBarrier = false := by cases c <;> first | rfl | cases hl
  refine wp_perform_bind.mpr ⟨?_, fun r _ => hk r _ (fun hr => h.quiet hc (by simp [hr]))
    (fun hr => h.fail hc hr hl)⟩
  cases c with
  | barrier site => cases hc
  | vmUnmap addr size =>
    intro rest hrest
    rw [h.passed_eq] at hrest
    simp [RunFn.leavesOn, hrest] at hl
  | _ => trivial

/-- **A call whose failure is ignored**, or that cannot fail. -/
theorem wp_quiet {c : ThreadCall} {k : c.Resp → Prog threadSig α} (h : g.Heads f e passed)
    (hc : c.isBarrier = false) (hl : f.leavesOn (passed, c) = false)
    (hpre : f.MayCall g c)
    (hk : ∀ r g', g'.Heads f e passed → (∀ p, g.Cleans p → g'.Cleans p) →
      wp (protocol f) (k r) Q g') :
    wp (protocol f) (Prog.perform (S := threadSig) c >>= k) Q g :=
  wp_perform_bind.mpr ⟨hpre, fun r _ => hk r _ (h.quiet hc fun _ => hl) fun _ hp => hp.upd⟩

/-- A barrier. -/
theorem wp_barrier {site : BarrierSite} {k : Unit → Prog threadSig α} (h : g.Heads f e passed)
    (hpre : f.MayCall g (.barrier site))
    (hk : ∀ g', g'.Heads f e (site :: passed) → (∀ p, g.Cleans p → g'.Cleans p) →
      wp (protocol f) (k ()) Q g') :
    wp (protocol f) (platThreadBarrier site >>= k) Q g :=
  wp_perform_bind.mpr ⟨hpre, fun () _ => hk _ (h.barrier site) fun _ hp => hp.upd⟩

/-- The clock. -/
theorem wp_clock {k : PlatTime → Prog threadSig α} (h : g.Heads f e passed)
    (hk : ∀ t g', g'.Heads f e passed → (∀ p, g.Cleans p → g'.Cleans p) →
      wp (protocol f) (k t) Q g') :
    wp (protocol f) (platGetTime >>= k) Q g :=
  wp_quiet h rfl rfl trivial hk

end Rules

/-! ### The operations of the timed loops -/

/-- **An operation that reports its failures**: as long as it succeeds the thread heads for the
normal exit, and when it leaves its loop the thread heads for the error exit. -/
def Reports {ξ : Type} (f : RunFn) (op : ξ → Prog threadSig (Except ξ ξ)) : Prop :=
  ∀ v g, g.Heads f .done [.start] →
    wp (protocol f) (op v) (onExcept (fun _ => Progress.Heads f .error [.start])
      fun _ => Progress.Heads f .done [.start]) g

section Operations

variable {f : RunFn} {arg : VmopsBenchRunArg}

theorem MapUnmap.reports_mapUnmapOp (hf : f = .mapunmap ∨ f = .tlbshoot) :
    Reports f (mapUnmapOp arg) := by
  have hu : ∀ addr size, f.leavesOn ([.start], .vmUnmap addr size) = true := by
    rcases hf with rfl | rfl <;> exact fun _ _ => rfl
  rintro v g hg
  rw [mapUnmapOp]
  split
  · refine wp_checked hg rfl ?_
    rintro (_ | _) g₁ hok hfail
    · exact hfail rfl
    · refine wp_checked (hok rfl) (hu _ _) ?_
      rintro (_ | _) g₂ hok₂ hfail₂
      · exact hfail₂ rfl
      · exact hok₂ rfl
  · refine wp_checked hg rfl ?_
    rintro (_ | addr) g₁ hok hfail
    · exact hfail rfl
    · refine wp_checked (hok rfl) (hu _ _) ?_
      rintro (_ | _) g₂ hok₂ hfail₂
      · exact hfail₂ rfl
      · exact hok₂ rfl

theorem MapUnmap.reports_mapUnmap4kOp : Reports .mapunmap4k (mapUnmap4kOp arg) := by
  rintro v g hg
  rw [mapUnmap4kOp]
  refine wp_checked hg rfl ?_
  rintro (_ | _) g₁ hok hfail
  · exact hfail rfl
  · simp only [if_true]
    split
    · refine wp_checked (hok rfl) rfl ?_
      rintro (_ | _) g₂ hok₂ hfail₂
      · exact hfail₂ rfl
      · exact hok₂ rfl
    · refine wp_checked (hok rfl) rfl ?_
      rintro (_ | addr) g₂ hok₂ hfail₂
      · exact hfail₂ rfl
      · exact hok₂ rfl

theorem MapUnmap.reports_mapOnlyOp : Reports f (mapOnlyOp arg) := by
  rintro v g hg
  rw [mapOnlyOp]
  split
  · refine wp_checked hg rfl ?_
    rintro (_ | _) g₁ hok hfail
    · exact hfail rfl
    · exact hok rfl
  · refine wp_checked hg rfl ?_
    rintro (_ | addr) g₁ hok hfail
    · exact hfail rfl
    · exact hok rfl

theorem MapUnmap.reports_mapOnly4kOp : Reports f (mapOnly4kOp arg) := by
  rintro ⟨addr, page⟩ g hg
  simp only [mapOnly4kOp]
  split
  · refine wp_checked hg rfl ?_
    rintro (_ | _) g₁ hok hfail
    · exact hfail rfl
    · exact hok rfl
  · refine wp_checked hg rfl ?_
    rintro (_ | addr) g₁ hok hfail
    · exact hfail rfl
    · exact hok rfl

/-- The two permission changes, in whatever follows them. -/
theorem Protect.wp_protectTwice {α : Type} {addr : Addr} {size : SizeT} {g : Progress}
    {k : Bool → Prog threadSig α} {Q : α → Progress → Prop} (hg : g.Heads f .done [.start])
    (hk : ∀ r g', g'.Heads f (if r then .done else .error) [.start] →
      wp (protocol f) (k r) Q g') :
    wp (protocol f) (protectTwice addr size >>= k) Q g := by
  rw [protectTwice, Prog.bind_assoc]
  refine wp_checked hg rfl ?_
  rintro (_ | _) g₁ hok hfail
  · exact hk false g₁ (hfail rfl)
  · refine wp_checked (hok rfl) rfl ?_
    rintro (_ | _) g₂ hok₂ hfail₂
    · exact hk false g₂ (hfail₂ rfl)
    · exact hk true g₂ (hok₂ rfl)

theorem Protect.reports_protectOp : Reports f (protectOp arg) := by
  rintro v g hg
  refine Protect.wp_protectTwice hg ?_
  rintro (_ | _) g₁ h <;> exact h

theorem Protect.reports_protect4kOp : Reports f (protect4kOp arg) := by
  rintro v g hg
  refine Protect.wp_protectTwice hg ?_
  rintro (_ | _) g₁ h <;> exact h

theorem ProtectElevate.reports_elevateOp : Reports f elevateOp := by
  rintro v g hg
  refine wp_checked hg rfl ?_
  rintro (_ | _) g₁ hok hfail
  · exact hfail rfl
  · exact hok rfl

end Operations

/-! ### The skeletons -/

section Skeletons

variable {f : RunFn} {arg : VmopsBenchRunArg} {ξ : Type} {op : ξ → Prog threadSig (Except ξ ξ)}
  {g : Progress} {passed : List BarrierSite}

/-- What a function with two barriers may return with at its end. -/
theorem mayReturn_done {r : RunResult} (hf : f.protocol ≠ .paged) (hr : r.exit = .done)
    (hg : g.Heads f .done [.finish, .start]) : f.MayReturn r g := by
  refine ⟨hg.clean_iff.trans (by simp [hr]), ?_⟩
  cases hp : f.protocol with
  | direct => simpa only [hr, if_true] using hg.passed_eq
  | meeting => exact hg.passed_eq
  | paged => exact absurd hp hf

/-- What a function on one large mapping may return with after a failure. -/
theorem mayReturn_error {r : RunResult} (hf : f.protocol = .direct) (hr : r.exit = .error)
    (hg : g.Heads f .error passed) (hp : passed = [] ∨ passed = [.start]) : f.MayReturn r g := by
  refine ⟨hg.clean_iff.trans (by simp [hr]), ?_⟩
  simp only [hf, hr, reduceCtorEq, if_false]
  rw [hg.passed_eq]
  exact hp

theorem Reports.wp_timedLoop (hop : Reports f op) (hg : g.Heads f .done [.start])
    {tid : BitVec 32} {sampling : Sampling} {tStart tEnd : PlatTime} {nops : SizeT}
    {s : LoopState ξ} :
    wp (protocol f) (timedLoop tid sampling tStart tEnd nops op s)
      (onExcept (fun _ => Progress.Heads f .error [.start])
        fun _ => Progress.Heads f .done [.start]) g := by
  refine VmopsBench.wp_timedLoop (fun _ g => g.Heads f .done [.start]) hg (fun s g hs _ => ?_)
    fun s g hs _ => hs
  refine wp_mono _ (fun o g' ho => ?_) (hop s.vars g hs)
  cases o with
  | error v => exact ho
  | ok v => exact ⟨trivial, fun t _ => ho.quiet (c := .getTime) rfl fun _ => rfl⟩

/-- **A function with two barriers follows its protocol**, if its operation reports failures and
its error exit does. -/
theorem wp_timedRun {dflt : SizeT} {sampling : Sampling} {onError : ξ → Prog threadSig Unit}
    {vars : ξ} (hf : f.protocol ≠ .paged) (hop : Reports f op)
    (herror : ∀ v g, g.Heads f .error [.start] →
      wp (protocol f) (onError v) (fun _ g' => ∀ r, r.exit = .error → f.MayReturn r g') g)
    (hg : g.Heads f .done []) :
    wp (protocol f) (timedRun arg dflt sampling op onError vars) f.MayReturn g := by
  refine wp_barrier hg hg fun g₁ h₁ _ => ?_
  refine wp_clock h₁ fun tCurrent g₂ h₂ _ => ?_
  refine (wp_bind _ _).mpr (wp_mono _ (fun o g₃ h₃ => ?_) (hop.wp_timedLoop h₂))
  cases o with
  | error s =>
    refine (wp_bind _ _).mpr (wp_mono _ (fun _ g₄ h₄ => ?_) (herror s.vars g₃ h₃))
    exact h₄ _ rfl
  | ok s =>
    refine wp_clock h₃ fun tEnd g₄ h₄ _ => ?_
    refine wp_barrier h₄ ?_ fun g₅ h₅ _ => mayReturn_done hf rfl h₅
    cases hp : f.protocol with
    | direct => simpa only [RunFn.MayCall, hp] using h₄
    | meeting => simpa only [RunFn.MayCall, hp] using h₄.passed_eq
    | paged => exact absurd hp hf

/-- An error exit that only unmaps. -/
theorem wp_unmapOnError {addr : Addr} {size : SizeT} (hf : f.protocol = .direct)
    (hl : f.leavesOn ([.start], .vmUnmap addr size) = false) (hg : g.Heads f .error [.start]) :
    wp (protocol f) (do let _ ← platVmUnmap addr size)
      (fun _ g' => ∀ r, r.exit = .error → f.MayReturn r g') g := by
  refine wp_quiet hg rfl hl (fun rest hrest => ?_) fun _ g₁ h₁ _ r hr => ?_
  · rw [hg.passed_eq] at hrest
    cases hrest
  · exact mayReturn_error hf hr h₁ (Or.inr rfl)

/-! ### The 4k functions -/

/-- An operation of the mapping loop: a failure is one of a mapping before the first barrier. -/
theorem wp_setupMap {α : Type} {Q : α → Progress → Prop} {c : ThreadCall}
    {k : c.Resp → Prog threadSig α} (hg : g.Heads f .done [])
    (hc : c.isMap = true)
    (hk : ∀ r g', (c.fails r = false → g'.Heads f .done []) →
      (c.fails r = true → g'.Heads f .error [] ∧ g'.SetupFailed) → wp (protocol f) (k r) Q g') :
    wp (protocol f) (Prog.perform (S := threadSig) c >>= k) Q g := by
  have hl : f.leavesOn ([], c) = true := by cases c <;> first | rfl | cases hc
  have hpre : f.MayCall g c := by cases c <;> trivial
  have hb : c.isBarrier = false := by cases c <;> first | rfl | cases hc
  refine wp_perform_bind.mpr ⟨hpre, fun r _ => ?_⟩
  refine hk r _ (fun hr => hg.quiet hb (by simp [hr])) fun hr => ⟨hg.fail hb hr hl, ?_⟩
  refine ⟨(g.passed, c), by simp [protocol, Progress.upd, hr], hg.passed_eq, hc⟩

theorem wp_mapPages (hg : g.Heads f .done []) :
    wp (protocol f) (mapPages arg)
      (onExcept (fun _ g' => g'.Heads f .error [] ∧ g'.SetupFailed)
        fun _ g' => g'.Heads f .done []) g := by
  rw [mapPages]
  split
  · refine (wp_bind _ _).mpr (wp_forLoop (fun _ _ g => g.Heads f .done []) hg ?_ fun _ _ h => h)
    rintro i ⟨addrs, addr⟩ g₁ - h₁
    refine wp_setupMap h₁ rfl ?_
    rintro (_ | _) g₂ hok hfail
    · exact hfail rfl
    · exact hok rfl
  · refine wp_forLoop (fun _ _ g => g.Heads f .done []) hg ?_ fun _ _ h => h
    rintro i addrs g₁ - h₁
    refine wp_setupMap h₁ rfl ?_
    rintro (_ | addr) g₂ hok hfail
    · exact hfail rfl
    · exact hok rfl

/-- The unmapping loop changes nothing of what matters. -/
theorem wp_unmapPages {e : Exit} {nmaps : SizeT} {addrs : ℕ → Addr}
    (hg : g.Heads f e (.cleanup :: passed)) (hc : g.Cleans passed) :
    wp (protocol f) (unmapPages nmaps addrs)
      (fun _ g' => g'.Heads f e (.cleanup :: passed) ∧ g'.Cleans passed) g := by
  refine wp_forLoop (fun _ _ g' => g'.Heads f e (.cleanup :: passed) ∧ g'.Cleans passed)
    ⟨hg, hc⟩ ?_ fun _ _ h => h
  rintro i - g₁ - ⟨h₁, hc₁⟩
  split
  · refine wp_quiet h₁ rfl (by simp [RunFn.leavesOn]) (fun p hp => ?_)
      fun _ g₂ h₂ hc₂ => ⟨h₂, hc₂ _ hc₁⟩
    rw [h₁.passed_eq] at hp
    obtain rfl := (List.cons.inj hp).2
    exact hc₁
  · exact ⟨h₁, hc₁⟩

theorem wp_cleanupAndExit {e : Exit} {addrs : ℕ → Addr} (hf : f.protocol = .paged)
    (hg : g.Heads f e passed) (hc : g.Cleans passed) :
    wp (protocol f) (cleanupAndExit arg addrs e) f.MayReturn g := by
  refine wp_barrier hg ⟨hf, hg.passed_eq ▸ hc⟩ fun g₁ h₁ hc₁ => ?_
  refine (wp_bind _ _).mpr (wp_mono _ ?_ (wp_unmapPages h₁ (hc₁ _ hc)))
  rintro - g₂ ⟨h₂, hc₂⟩
  refine wp_quiet h₂ rfl rfl trivial fun _ g₃ h₃ hc₃ => ?_
  refine wp_barrier h₃ ⟨hf, _, h₃.passed_eq, hc₃ _ hc₂⟩ fun g₄ h₄ hc₄ => ⟨h₄.clean_iff, ?_⟩
  rw [hf]
  exact Or.inr ⟨passed, h₄.passed_eq, hc₄ _ (hc₃ _ hc₂)⟩

/-- **A 4k function follows its protocol**, if its operation reports failures. -/
theorem wp_pagedRun {op : Pages → Prog threadSig (Except Pages Pages)} (hf : f.protocol = .paged)
    (hop : Reports f op) (hg : g.Heads f .done []) :
    wp (protocol f) (pagedRun arg op) f.MayReturn g := by
  refine wp_checked hg rfl ?_
  rintro (_ | _) g₁ hok hfail
  · -- no memory for the array: the function returns before all barriers
    refine ⟨(hfail rfl).clean_iff, ?_⟩
    rw [hf]
    exact Or.inl ⟨(hfail rfl).passed_eq, rfl⟩
  refine (wp_bind _ _).mpr (wp_mono _ (fun o g₂ h₂ => ?_) (wp_mapPages (hok rfl)))
  cases o with
  -- a setup failure jumps over the start barrier
  | error addrs => exact wp_cleanupAndExit hf h₂.1 (Or.inr ⟨rfl, h₂.2⟩)
  | ok addrs =>
    refine wp_barrier h₂ h₂ fun g₃ h₃ _ => ?_
    refine wp_clock h₃ fun tCurrent g₄ h₄ _ => ?_
    refine (wp_bind _ _).mpr (wp_mono _ (fun o g₅ h₅ => ?_) (hop.wp_timedLoop h₄))
    cases o with
    | error s => exact wp_cleanupAndExit hf h₅ (Or.inl rfl)
    | ok s => exact wp_clock h₅ fun tEnd g₆ h₆ _ => wp_cleanupAndExit hf h₆ (Or.inl rfl)

end Skeletons

/-! ### The eight functions -/

section Functions

variable {f : RunFn} {arg : VmopsBenchRunArg} {g : Progress}

theorem Protect.wp_mapRegion (hg : g.Heads f .done []) :
    wp (protocol f) (mapRegion arg)
      (fun o g' => g'.Heads f (if o.isSome then .done else .error) []) g := by
  rw [mapRegion]
  split
  · refine wp_checked hg rfl ?_
    rintro (_ | _) g₁ hok hfail
    · exact hfail rfl
    · exact hok rfl
  · rw [platVmMap, wp_perform]
    refine ⟨trivial, fun r _ => ?_⟩
    cases r with
    | none => exact hg.fail (c := .vmMap ..) rfl rfl rfl
    | some addr => exact hg.quiet (c := .vmMap ..) rfl nofun

theorem ProtectElevate.wp_mapChunks {s : SizeT × Addr} (hg : g.Heads f .done []) :
    wp (protocol f) (mapChunks arg s)
      (onExcept (fun _ => Progress.Heads f .error []) fun _ => Progress.Heads f .done []) g := by
  -- a failed protect call is logged, and the loop goes on
  have hquiet : ∀ {α : Type} {addr : Addr} {size : SizeT} {k : Bool → Prog threadSig α}
      {Q : α → Progress → Prop} {g : Progress}, g.Heads f .done [] →
      (∀ r g', g'.Heads f .done [] → wp (protocol f) (k r) Q g') →
      wp (protocol f) (platVmProtect addr size .readOnly >>= k) Q g :=
    fun hg hk => wp_quiet hg rfl rfl trivial fun r g' hg' _ => hk r g' hg'
  refine wp_whileLoop (fun _ => Progress.Heads f .done []) hg ?_ fun _ _ h _ => h
  rintro ⟨i, addr⟩ g₁ h₁ -
  simp only [mapChunk]
  split
  · refine wp_checked h₁ rfl ?_
    rintro (_ | _) g₂ hok hfail
    · exact hfail rfl
    · exact hquiet (hok rfl) fun _ _ h => h
  · refine wp_checked h₁ rfl ?_
    rintro (_ | curaddr) g₂ hok hfail
    · exact hfail rfl
    · exact hquiet (hok rfl) fun _ _ h => h

theorem TlbShoot.wp_spin {sum : Addr} {passed : List BarrierSite} (hg : g.Heads f .done passed) :
    wp (protocol f) (spin sum) (fun _ => Progress.Heads f .done passed) g := by
  refine ⟨fun _ => Progress.Heads f .done passed, fun _ => Progress.Heads f .done passed, hg,
    ?_, fun _ _ h => h⟩
  rintro - g₁ h₁
  refine wp_quiet h₁ rfl rfl trivial fun done g₂ h₂ _ => ?_
  split
  · exact wp_quiet h₂ rfl rfl trivial fun _ _ h₃ _ => h₃
  · exact h₂

theorem TlbShoot.wp_benchRunFn (hg : g.Heads .tlbshoot .done []) :
    wp (protocol .tlbshoot) (benchRunFn arg) (RunFn.MayReturn .tlbshoot) g := by
  refine wp_checked hg rfl ?_
  rintro (_ | taddr) g₁ hok hfail
  · exact mayReturn_error rfl rfl (hfail rfl) (Or.inl rfl)
  refine wp_barrier (hok rfl) (hok rfl) fun g₂ h₂ _ => ?_
  refine wp_clock h₂ fun tCurrent g₃ h₃ _ => ?_
  dsimp only
  split
  · -- a worker
    refine (wp_bind _ _).mpr (wp_mono _ (fun _ g₄ h₄ => ?_) (wp_spin h₃))
    exact wp_barrier h₄ h₄ fun g₅ h₅ _ => mayReturn_done nofun rfl h₅
  · -- thread 0
    have hop : Reports .tlbshoot (shootOp arg) := MapUnmap.reports_mapUnmapOp (Or.inr rfl)
    refine (wp_bind _ _).mpr (wp_mono _ (fun o g₄ h₄ => ?_) (hop.wp_timedLoop h₃))
    cases o with
    | error s => exact mayReturn_error rfl rfl h₄ (Or.inr rfl)
    | ok s =>
      refine wp_clock h₄ fun tEnd g₅ h₅ _ => ?_
      refine wp_quiet h₅ rfl rfl trivial fun _ g₆ h₆ _ => ?_
      exact wp_barrier h₆ h₆ fun g₇ h₇ _ => mayReturn_done nofun rfl h₇

/-- **Every run function follows its protocol**, whatever its arguments and whatever
its calls are answered. -/
theorem run_protocol (f : RunFn) (arg : VmopsBenchRunArg) (hg : g.Heads f .done []) :
    wp (protocol f) (f.run arg) f.MayReturn g := by
  have hreturn : ∀ {ξ : Type} {f : RunFn} (v : ξ) (g : Progress), f.protocol = .direct →
      g.Heads f .error [.start] → wp (protocol f) (pure ())
        (fun _ g' => ∀ r, r.exit = .error → f.MayReturn r g') g :=
    fun _ _ hf hg _ hr => mayReturn_error hf hr hg (Or.inr rfl)
  cases f with
  | mapunmap =>
    exact wp_timedRun (by decide) (MapUnmap.reports_mapUnmapOp (Or.inl rfl))
      (fun v g h => hreturn v g rfl h) hg
  | mapunmap4k => exact wp_pagedRun rfl MapUnmap.reports_mapUnmap4kOp hg
  | nounmap =>
    exact wp_timedRun (by decide) MapUnmap.reports_mapOnlyOp (fun v g h => hreturn v g rfl h) hg
  | nounmap4k =>
    have hop : Reports .nounmap4k (MapUnmap.mapOnly4kOp arg) := MapUnmap.reports_mapOnly4kOp
    change wp _ (MapUnmap.benchRunNounmap4kFn arg) _ _
    rw [MapUnmap.benchRunNounmap4kFn]
    refine wp_timedRun (by decide) hop (fun v g h => ?_) hg
    -- the error exit meets the others at the second barrier
    refine wp_perform.mpr ⟨h.passed_eq, fun _ _ r hr => ?_⟩
    exact ⟨(h.barrier .finish).clean_iff.trans (by simp [hr]), (h.barrier .finish).passed_eq⟩
  | protect =>
    refine (wp_bind _ _).mpr (wp_mono _ (fun o g₁ h₁ => ?_) (Protect.wp_mapRegion hg))
    cases o with
    | none => exact mayReturn_error rfl rfl h₁ (Or.inl rfl)
    | some addr =>
      exact wp_timedRun (by decide) Protect.reports_protectOp
        (fun _ _ h => wp_unmapOnError rfl rfl h) h₁
  | protect4k => exact wp_pagedRun rfl Protect.reports_protect4kOp hg
  | elevate =>
    refine (wp_bind _ _).mpr (wp_mono _ (fun o g₁ h₁ => ?_) (ProtectElevate.wp_mapChunks hg))
    cases o with
    | error _ => exact mayReturn_error rfl rfl h₁ (Or.inl rfl)
    | ok s =>
      exact wp_timedRun (by decide) ProtectElevate.reports_elevateOp
        (fun _ _ h => wp_unmapOnError rfl rfl h) h₁
  | tlbshoot => exact TlbShoot.wp_benchRunFn hg

/-- So does a thread around it. -/
theorem platThreadRunFn_protocol (f : RunFn) (st : VmopsBenchRunArg) :
    wp (protocol f) (platThreadRunFn f st) f.MayReturn ⟨[], []⟩ := by
  have hnone : Progress.Heads f .done [] ⟨[], []⟩ := ⟨rfl, iff_of_true nofun rfl⟩
  exact wp_quiet hnone rfl rfl trivial fun _ g hg _ => run_protocol f st hg

end Functions

end VmopsBench

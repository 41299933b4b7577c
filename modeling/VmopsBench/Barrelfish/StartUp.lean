import VmopsBench.Benchmarks.Utils
import VmopsBench.Interact.Spec

/-!
# The start of the Barrelfish port

On Barrelfish the domain of the benchmark is first spanned to every core of the core list:
`plat_init` asks for a dispatcher on each of them, and when a dispatcher is ready its core is
reported by a callback, `domain_init_done`, which counts it. `plat_init` spins until
the counter has reached the length of the list, and then creates a thread on each core.

`VmopsBench.Barrelfish.platInit` is the function as an interaction program, and a state
(`VmopsBench.Barrelfish.StartUp`) adds the counter and the dispatchers that were asked for. A
callback runs at any moment, in any order.

The counter starts with 1, as if the core of `plat_init` itself had been counted. When that core is
not in the list, one callback too few is waited for: at least all but one have run when the first
thread is created (`VmopsBench.Barrelfish.le_up_of_creates`), and it is never sure that all have
(`VmopsBench.Barrelfish.not_waitsForAll`).
-/

namespace VmopsBench

namespace Barrelfish

open Interact

/-! ### The function -/

/-- **The calls of `plat_init`**, the reading of the counter included. -/
inductive InitCall where
  | skbClientConnect
  | cnodeCreateRaw
  | domainNewDispatcher (core : BitVec 32)
  | loadCoresInitialized
  | threadYield
  | domainThreadCreateOn (core : BitVec 32)
  | threadSemWait
  deriving DecidableEq

/-- A call that can fail is answered with whether it has not. -/
abbrev InitCall.Resp : InitCall → Type
  | .skbClientConnect | .cnodeCreateRaw | .domainNewDispatcher _ | .domainThreadCreateOn _ => Bool
  | .loadCoresInitialized => BitVec 32
  | .threadYield | .threadSemWait => Unit

/-- The signature of `plat_init`. -/
abbrev initSig : Sig := ⟨InitCall, InitCall.Resp⟩

/-- One of these calls. -/
abbrev initCall (c : InitCall) : Prog initSig c.Resp := Prog.perform (S := initSig) c

/-- How `plat_init` ends. -/
inductive InitExit where
  | ok
  | initFailed
  | cnodeCreate
  /-- An assertion has failed. -/
  | aborted
  deriving DecidableEq

/-- The core at a place of the core list. -/
def coreOf (cfg : VmopsBenchCfg) (i : ℕ) : BitVec 32 := cfg.coreslist.getD i 0

/-- The loop that spans the domain to all cores. -/
def spanCores (cfg : VmopsBenchCfg) : Prog initSig (Except Unit Unit) :=
  Prog.forLoop cfg.corelistSize.toNat (fun i _ => do
    if ← initCall (.domainNewDispatcher (coreOf cfg i)) then return .ok () else return .error ()) ()

/-- One turn of `while (cores_initialized < cfg->corelist_size) { thread_yield(); }`. -/
def waitBody (cfg : VmopsBenchCfg) (_ : Unit) : Prog initSig (Unit ⊕ Unit) := do
  let coresInitialized ← initCall .loadCoresInitialized
  if coresInitialized < cfg.corelistSize then
    initCall .threadYield
    return .inl ()
  else return .inr ()

/-- The loop that waits for the cores. -/
def waitForCores (cfg : VmopsBenchCfg) : Prog initSig Unit := .loop (waitBody cfg) () .ret

/-- The loop that runs `remote_init` on each core. -/
def createThreads (cfg : VmopsBenchCfg) : Prog initSig (Except Unit Unit) :=
  Prog.forLoop cfg.corelistSize.toNat (fun i _ => do
    if ← initCall (.domainThreadCreateOn (coreOf cfg i)) then
      initCall .threadSemWait
      return .ok ()
    else return .error ()) ()

/-- What is left of `plat_init` when the cores have been waited for. -/
def afterWait (cfg : VmopsBenchCfg) : Prog initSig InitExit := do
  match ← createThreads cfg with
  | .ok () => return .ok
  | .error () => return .aborted

/-- `plat_init`. -/
def platInit (cfg : VmopsBenchCfg) : Prog initSig InitExit := do
  if ← initCall .skbClientConnect then
    if ← initCall .cnodeCreateRaw then
      match ← spanCores cfg with
      | .error () => return .aborted
      | .ok () =>
        waitForCores cfg
        afterWait cfg
    else return .cnodeCreate
  else return .initFailed

/-! ### States and steps -/

/-- **A state**: what is left of `plat_init`, the calls it has made, the counter, the cores whose
callback is still to come, and those whose callback has run. -/
structure StartUp (ρ : Type) where
  prog : Prog initSig ρ
  trace : List (Event initSig)
  coresInitialized : BitVec 32
  pending : List (BitVec 32)
  up : List (BitVec 32)

/-- What a call is answered with: by the counter if it reads it. -/
def InitCall.Answers (coresInitialized : BitVec 32) : (c : InitCall) → c.Resp → Prop
  | .loadCoresInitialized, r => r = coresInitialized
  | _, _ => True

/-- The core that a call has got a dispatcher for. -/
def InitCall.spanned : (c : InitCall) → c.Resp → Option (BitVec 32)
  | .domainNewDispatcher core, true => some core
  | _, _ => none

/-- The cores that some calls have got a dispatcher for. -/
def spannedBy (tr : List (Event initSig)) : List (BitVec 32) :=
  tr.filterMap fun e => e.call.spanned e.resp

namespace StartUp

variable {ρ : Type}

/-- The state after an answered call. -/
def afterCall (s : StartUp ρ) (c : InitCall) (r : c.Resp) (prog : Prog initSig ρ) : StartUp ρ :=
  { s with
    prog
    trace := s.trace ++ [⟨c, r⟩]
    pending := s.pending ++ (c.spanned r).toList }

/-- `domain_init_done` of the core in the middle of the list. -/
def domainInitDone (s : StartUp ρ) (before : List (BitVec 32)) (core : BitVec 32)
    (after : List (BitVec 32)) : StartUp ρ :=
  { s with
    coresInitialized := s.coresInitialized + 1
    pending := before ++ after
    up := s.up ++ [core] }

/-- **One step**: of `plat_init`, or a callback. -/
inductive Step : StartUp ρ → StartUp ρ → Prop where
  | turn {s : StartUp ρ} {σ β : Type} {body : σ → Prog initSig (σ ⊕ β)} {x : σ}
      {k : β → Prog initSig ρ} (hp : s.prog = .loop body x k) :
      Step s { s with prog := Prog.unroll body x k }
  | call {s : StartUp ρ} {c : InitCall} {k : c.Resp → Prog initSig ρ} {r : c.Resp}
      (hp : s.prog = .call c k) (hr : c.Answers s.coresInitialized r) :
      Step s (s.afterCall c r (k r))
  | callback {s : StartUp ρ} {before after : List (BitVec 32)} {core : BitVec 32}
      (hp : s.pending = before ++ core :: after) : Step s (s.domainInitDone before core after)

/-- The state before a program does anything: `cores_initialized` is 1. -/
def init (prog : Prog initSig ρ) : StartUp ρ := ⟨prog, [], 1, [], []⟩

/-- **The reachable states.** -/
def Reachable (prog : Prog initSig ρ) : StartUp ρ → Prop := Relation.ReflTransGen Step (init prog)

/-- The next call creates a thread, and none was created before. -/
def CreatesFirst (s : StartUp ρ) : Prop :=
  (∃ core k, s.prog = .call (InitCall.domainThreadCreateOn core) k) ∧
    ∀ e ∈ s.trace, ∀ core, e.call ≠ .domainThreadCreateOn core

end StartUp

/-- **The start waits for every core**: the first thread is created when the callbacks of all cores
of the list have run. -/
def WaitsForAll (cfg : VmopsBenchCfg) : Prop :=
  ∀ s, StartUp.Reachable (platInit cfg) s → s.CreatesFirst →
    s.up.Perm ((List.range cfg.corelistSize.toNat).map (coreOf cfg))

/-! ### All but one -/

/-- The specification of the wait: a thread is created only after the counter was read and found
not to be less than the length of the list. -/
def waiting (cfg : VmopsBenchCfg) : Spec initSig (List (Event initSig)) where
  pre g c := match c with
    | .domainThreadCreateOn _ =>
      ∃ v, (⟨InitCall.loadCoresInitialized, v⟩ : Event initSig) ∈ g ∧ cfg.corelistSize ≤ v
    | _ => True
  env _ _ _ := True
  upd g c r := g ++ [⟨c, r⟩]

section Waiting

variable {cfg : VmopsBenchCfg}

theorem wp_createThreads {g : List (Event initSig)} {v : BitVec 32}
    (hmem : (⟨InitCall.loadCoresInitialized, v⟩ : Event initSig) ∈ g)
    (hv : cfg.corelistSize ≤ v) :
    wp (waiting cfg) (createThreads cfg) (fun _ _ => True) g := by
  refine wp_forLoop (fun _ _ g => (⟨InitCall.loadCoresInitialized, v⟩ : Event initSig) ∈ g) hmem ?_
    fun _ _ _ => trivial
  rintro i - g - hmem
  refine wp_perform_bind.mpr ⟨⟨v, hmem, hv⟩, fun created _ => ?_⟩
  have hmem := List.mem_append_left [⟨InitCall.domainThreadCreateOn (coreOf cfg i), created⟩] hmem
  cases created with
  | false => trivial
  | true => exact wp_perform_bind.mpr ⟨trivial, fun _ _ => List.mem_append_left _ hmem⟩

/-- **`plat_init` follows the specification.** -/
theorem wp_platInit : wp (waiting cfg) (platInit cfg) (fun _ _ => True) [] := by
  refine wp_perform_bind.mpr ⟨trivial, fun connected _ => ?_⟩
  cases connected with
  | false => trivial
  | true =>
    refine wp_perform_bind.mpr ⟨trivial, fun created _ => ?_⟩
    cases created with
    | false => trivial
    | true =>
      refine (wp_bind _ _).mpr (wp_forLoop (fun _ _ _ => True) trivial ?_ fun _ g _ => ?_)
      · rintro i - g - -
        refine wp_perform_bind.mpr ⟨trivial, fun spanned _ => ?_⟩
        cases spanned <;> trivial
      · refine (wp_bind _ _).mpr ⟨fun _ _ => True, fun _ g => ∃ v,
          (⟨InitCall.loadCoresInitialized, v⟩ : Event initSig) ∈ g ∧ cfg.corelistSize ≤ v, trivial,
          ?_, ?_⟩
        · rintro - g -
          refine wp_perform_bind.mpr ⟨trivial, fun v _ => ?_⟩
          dsimp only
          split
          · exact wp_perform_bind.mpr ⟨trivial, fun _ _ => trivial⟩
          · rename_i hv
            exact ⟨v, List.mem_append_right _ List.mem_cons_self, BitVec.not_lt.mp hv⟩
        · rintro - g ⟨v, hmem, hv⟩
          refine (wp_bind _ _).mpr (wp_mono _ (fun o _ _ => ?_) (wp_createThreads hmem hv))
          cases o <;> trivial

end Waiting

namespace StartUp

variable {ρ : Type} {prog : Prog initSig ρ} {s s' : StartUp ρ}

/-- The callbacks are invisible to `plat_init`. -/
theorem reachable_run (hs : Reachable prog s) : Run prog s.trace s.prog := by
  induction hs with
  | refl => exact .nil _
  | tail _ hstep ih =>
    cases hstep with
    | turn hp => exact (hp ▸ ih).again
    | call hp _ => exact (hp ▸ ih).answer _
    | callback _ => exact ih

/-- The counter has counted the callbacks, and what was read of it is not more than that. -/
structure Counted (s : StartUp ρ) : Prop where
  counter_le : s.coresInitialized.toNat ≤ s.up.length + 1
  loaded_le : ∀ v, (⟨InitCall.loadCoresInitialized, v⟩ : Event initSig) ∈ s.trace →
    v.toNat ≤ s.up.length + 1

theorem Counted.step (h : Counted s) (hstep : Step s s') : Counted s' := by
  cases hstep with
  | turn hp => exact ⟨h.counter_le, h.loaded_le⟩
  | @call c k r hp hr =>
    refine ⟨h.counter_le, fun v hmem => ?_⟩
    rcases List.mem_append.mp hmem with hmem | hmem
    · exact h.loaded_le v hmem
    · obtain ⟨rfl, hresp⟩ := Event.mk.inj (List.mem_singleton.mp hmem)
      obtain rfl := eq_of_heq hresp
      have hv : v = s.coresInitialized := hr
      rw [hv]
      exact h.counter_le
  | @callback before after core hp =>
    have hup : (s.domainInitDone before core after).up.length = s.up.length + 1 :=
      List.length_append
    refine ⟨?_, fun v hmem => ?_⟩
    · have hcounter : (s.coresInitialized + 1).toNat ≤ s.coresInitialized.toNat + 1 := by
        rw [BitVec.toNat_add]
        exact Nat.mod_le _ _
      rw [hup]
      exact hcounter.trans (Nat.succ_le_succ h.counter_le)
    · rw [hup]
      exact Nat.le_succ_of_le (h.loaded_le v hmem)

theorem reachable_counted (hs : Reachable prog s) : Counted s := by
  induction hs with
  | refl => exact ⟨Nat.le_refl 1, nofun⟩
  | tail _ hstep ih => exact ih.step hstep

end StartUp

/-- **A thread is created only when all callbacks have run but at most one.** -/
theorem le_up_of_creates {cfg : VmopsBenchCfg} {s : StartUp InitExit}
    (hs : StartUp.Reachable (platInit cfg) s) {core : BitVec 32} {k : Bool → Prog initSig InitExit}
    (hp : s.prog = .call (InitCall.domainThreadCreateOn core) k) :
    cfg.corelistSize.toNat ≤ s.up.length + 1 := by
  have hadmits : (waiting cfg).Admits [] s.trace :=
    Spec.admits_of_forall _ (fun _ _ _ => trivial) _ _
  have hwp := (wp_run (StartUp.reachable_run hs) wp_platInit hadmits).2
  rw [hp] at hwp
  obtain ⟨⟨v, hmem, hv⟩, -⟩ := hwp
  have hafter : (waiting cfg).after [] s.trace = s.trace := by
    have h := after_recording [] s.trace
    rwa [List.nil_append] at h
  rw [hafter] at hmem
  exact Nat.le_trans hv ((StartUp.reachable_counted hs).loaded_le v hmem)

/-! ### Not all -/

namespace StartUp

variable {ρ : Type}

/-- The state after some calls of the program, with no callback in between. -/
def afterCalls (s : StartUp ρ) (tr : List (Event initSig)) (prog : Prog initSig ρ) : StartUp ρ :=
  { s with prog, trace := s.trace ++ tr, pending := s.pending ++ spannedBy tr }

/-- **A run of the program is one of the system**, if it reads the counter as it is. -/
theorem steps_of_run {p q : Prog initSig ρ} {tr : List (Event initSig)} (hrun : Run p tr q)
    (s : StartUp ρ) (hp : s.prog = p)
    (hanswers : ∀ e ∈ tr, e.call.Answers s.coresInitialized e.resp) :
    Relation.ReflTransGen Step s (s.afterCalls tr q) := by
  induction hrun with
  | nil p =>
    have hsame : s.afterCalls [] p = s := by
      rw [← hp]
      simp [afterCalls, spannedBy]
    rw [hsame]
  | @call ρ c k r tr q _ ih =>
    have hstep : Step s (s.afterCall c r (k r)) := .call hp (hanswers _ List.mem_cons_self)
    have hrest := ih (s.afterCall c r (k r)) rfl fun e he =>
      hanswers e (List.mem_cons_of_mem _ he)
    have hsame : (s.afterCall c r (k r)).afterCalls tr q = s.afterCalls (⟨c, r⟩ :: tr) q := by
      cases hspanned : c.spanned r <;>
        simp [afterCalls, afterCall, spannedBy, hspanned]
    rw [← hsame]
    exact hrest.head hstep
  | turn _ ih => exact (ih { s with prog := _ } rfl hanswers).head (.turn hp)

/-- The first `k` callbacks run. -/
theorem steps_callbacks (k : ℕ) (s : StartUp ρ) (hk : k ≤ s.pending.length) :
    Relation.ReflTransGen Step s { s with
      coresInitialized := s.coresInitialized + BitVec.ofNat 32 k
      pending := s.pending.drop k
      up := s.up ++ s.pending.take k } := by
  induction k generalizing s with
  | zero => simp [Relation.ReflTransGen.refl]
  | succ k ih =>
    cases hp : s.pending with
    | nil => simp [hp] at hk
    | cons core rest =>
      have hstep : Step s (s.domainInitDone [] core rest) := .callback hp
      rw [hp] at hk
      have hrest := ih (s.domainInitDone [] core rest) (Nat.le_of_succ_le_succ hk)
      have hcounter : s.coresInitialized + 1 + BitVec.ofNat 32 k =
          s.coresInitialized + BitVec.ofNat 32 (k + 1) := by
        rw [BitVec.add_assoc, Nat.add_comm k 1, BitVec.ofNat_add]
        rfl
      simp only [domainInitDone, List.nil_append, List.append_assoc, List.singleton_append,
        hcounter] at hrest
      exact hrest.head hstep

end StartUp

section Early

variable {cfg : VmopsBenchCfg}

/-- A dispatcher for the core at a place of the list. -/
abbrev spanEvent (cfg : VmopsBenchCfg) (i : ℕ) : Event initSig :=
  ⟨InitCall.domainNewDispatcher (coreOf cfg i), true⟩

/-- The calls up to the wait, when none fails. -/
def spanning (cfg : VmopsBenchCfg) : List (Event initSig) :=
  ⟨InitCall.skbClientConnect, true⟩ :: ⟨InitCall.cnodeCreateRaw, true⟩ ::
    (List.range cfg.corelistSize.toNat).map (spanEvent cfg)

/-- A call at the front of a sequence. -/
theorem run_initCall {ρ : Type} {c : InitCall} {f : c.Resp → Prog initSig ρ} (r : c.Resp)
    {tr : List (Event initSig)} {q : Prog initSig ρ} (h : Run (f r) tr q) :
    Run (initCall c >>= f) (⟨c, r⟩ :: tr) q := Run.perform_bind (S := initSig) r h

theorem run_spanning : Run (platInit cfg) (spanning cfg)
    (waitForCores cfg >>= fun _ => afterWait cfg) := by
  have hspan : Run (spanCores cfg) ((List.range cfg.corelistSize.toNat).map (spanEvent cfg))
      (.ret (.ok ())) := by
    refine Run.for_calls (spanEvent cfg) 0 cfg.corelistSize.toNat fun i _ => ?_
    exact run_initCall (c := .domainNewDispatcher (coreOf cfg i)) true (.nil _)
  have hbind := hspan.bind (f := fun
    | .error () => Prog.ret InitExit.aborted
    | .ok () => waitForCores cfg >>= fun _ => afterWait cfg) (.nil _)
  rw [List.append_nil] at hbind
  exact run_initCall (c := .skbClientConnect) true (run_initCall (c := .cnodeCreateRaw) true hbind)

theorem spannedBy_spanning : spannedBy (spanning cfg) =
    (List.range cfg.corelistSize.toNat).map (coreOf cfg) := by
  have hcores : spannedBy ((List.range cfg.corelistSize.toNat).map (spanEvent cfg)) =
      (List.range cfg.corelistSize.toNat).map (coreOf cfg) := by
    rw [spannedBy, List.filterMap_map, ← List.filterMap_eq_map]
    rfl
  exact hcores

/-- The wait ends when the counter has reached the length of the list. -/
theorem run_wait : Run (waitForCores cfg >>= fun _ => afterWait cfg)
    [⟨InitCall.loadCoresInitialized, cfg.corelistSize⟩] (afterWait cfg) := by
  have hbody : Run (waitBody cfg ()) [⟨InitCall.loadCoresInitialized, cfg.corelistSize⟩]
      (.ret (.inr ())) := by
    refine run_initCall (c := .loadCoresInitialized) cfg.corelistSize ?_
    rw [if_neg (BitVec.lt_irrefl _)]
    exact .nil _
  exact Run.turn (hbody.bind (.nil _))

/-- The first thread is about to be created. -/
theorem afterWait_creates (hn : 0 < cfg.corelistSize.toNat) :
    ∃ k, afterWait cfg = .call (InitCall.domainThreadCreateOn (coreOf cfg 0)) k := by
  obtain ⟨m, hm⟩ := Nat.exists_eq_add_of_lt hn
  rw [afterWait, createThreads, hm, Nat.zero_add]
  exact ⟨_, rfl⟩

/-- The calls up to the wait are these. -/
theorem mem_spanning {e : Event initSig} (he : e ∈ spanning cfg) :
    e = ⟨InitCall.skbClientConnect, true⟩ ∨ e = ⟨InitCall.cnodeCreateRaw, true⟩ ∨
      ∃ i, e = spanEvent cfg i := by
  rcases List.mem_cons.mp he with rfl | he
  · exact Or.inl rfl
  · rcases List.mem_cons.mp he with rfl | he
    · exact Or.inr (Or.inl rfl)
    · obtain ⟨i, -, rfl⟩ := List.mem_map.mp he
      exact Or.inr (Or.inr ⟨i, rfl⟩)

/-- **The state in which all callbacks have run but the last**, and the first thread is about to be
created. -/
theorem exists_early (hn : 0 < cfg.corelistSize.toNat) : ∃ s,
    StartUp.Reachable (platInit cfg) s ∧ s.CreatesFirst ∧
      s.up.length + 1 = cfg.corelistSize.toNat := by
  obtain ⟨m, hm⟩ : ∃ m, cfg.corelistSize.toNat = m + 1 := Nat.exists_eq_succ_of_ne_zero hn.ne'
  obtain ⟨k, hk⟩ := afterWait_creates hn
  let s := (StartUp.init (platInit cfg)).afterCalls (spanning cfg)
    (waitForCores cfg >>= fun _ => afterWait cfg)
  have hspan : Relation.ReflTransGen StartUp.Step (StartUp.init (platInit cfg)) s := by
    refine StartUp.steps_of_run run_spanning _ rfl fun e he => ?_
    rcases mem_spanning he with rfl | rfl | ⟨i, rfl⟩ <;> trivial
  have hlen : s.pending.length = cfg.corelistSize.toNat := by
    have hpending : s.pending = (List.range cfg.corelistSize.toNat).map (coreOf cfg) :=
      (List.nil_append _).trans spannedBy_spanning
    rw [hpending, List.length_map, List.length_range]
  -- the callbacks but the last
  have hm' : m ≤ s.pending.length := by omega
  have hcallbacks := StartUp.steps_callbacks m s hm'
  have hcounter : s.coresInitialized + BitVec.ofNat 32 m = cfg.corelistSize := by
    have hsize : cfg.corelistSize = BitVec.ofNat 32 (1 + m) := by
      rw [Nat.add_comm, ← hm, BitVec.ofNat_toNat, BitVec.setWidth_eq]
    rw [hsize, BitVec.ofNat_add]
    rfl
  rw [hcounter] at hcallbacks
  have hwait := StartUp.steps_of_run run_wait { s with
      coresInitialized := cfg.corelistSize
      pending := s.pending.drop m
      up := s.up ++ s.pending.take m } rfl fun e he => by
    obtain rfl := List.mem_singleton.mp he
    exact rfl
  refine ⟨_, (hspan.trans hcallbacks).trans hwait, ⟨⟨_, k, hk⟩, fun e he core hcore => ?_⟩, ?_⟩
  · rcases List.mem_append.mp he with he | he
    · rcases mem_spanning he with rfl | rfl | ⟨i, rfl⟩ <;> cases hcore
    · obtain rfl := List.mem_singleton.mp he
      cases hcore
  · show ([] ++ s.pending.take m).length + 1 = _
    rw [List.nil_append, List.length_take, Nat.min_eq_left hm', hm]

/-- **The start does not wait for every core**, whatever the core list is: the first thread may be
created when one callback has not run. -/
theorem not_waitsForAll (hn : 0 < cfg.corelistSize.toNat) : ¬WaitsForAll cfg := by
  intro hwaits
  obtain ⟨s, hs, hfirst, hup⟩ := exists_early hn
  have hlength := (hwaits s hs hfirst).length_eq
  rw [List.length_map, List.length_range] at hlength
  omega

end Early

/-- Two cores. -/
theorem not_waitsForAll_twoThreads : ¬WaitsForAll twoThreads := not_waitsForAll (by decide)

/-- With one core, the first thread is created before its callback has run. -/
theorem creates_before_callback : ∃ s, StartUp.Reachable (platInit oneThread) s ∧ s.CreatesFirst ∧
    ¬s.up.Perm ((List.range 1).map (coreOf oneThread)) := by
  have hearly : ∃ s, StartUp.Reachable (platInit oneThread) s ∧ s.CreatesFirst ∧
      s.up.length + 1 = oneThread.corelistSize.toNat := exists_early (by decide)
  obtain ⟨s, hs, hfirst, hup⟩ := hearly
  refine ⟨s, hs, hfirst, fun hperm => ?_⟩
  have hsize : oneThread.corelistSize.toNat = 1 := rfl
  have hlength : s.up.length = 1 := hperm.length_eq
  omega

end Barrelfish

end VmopsBench

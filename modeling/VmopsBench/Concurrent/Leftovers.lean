import VmopsBench.Benchmarks.Regions
import VmopsBench.Concurrent.Termination

/-!
# The ledger of a whole run

The mapping calls of the main thread and of all benchmark threads, over a whole run. The main thread
maps the same page of the first memory object `BENCHMARK_PREPOPULATE_MAPPINGS` times and unmaps
nothing (`VmopsBench.benchEntry_mapping`); the ledger of a thread is at the end what its run
function leaves (`VmopsBench.regions_of_run`). So the sizes that are on the ledgers when an entry
has returned `0`, with no call failed, are known to the last mapping call, whatever the interleaving
was (`VmopsBench.System.ledger_of_returned`); and every region that a thread unmaps is on its own
ledger.

As before, this is about calls. Where the fixed mappings of two threads fall into each other's
windows, the later one replaces pages of the other thread, and the process has less mapped than is
on its ledgers; when the windows are disjoint is said in `VmopsBench.Benchmarks.Windows`.
-/

namespace VmopsBench

open Interact

/-! ### The main thread -/

/-- **What a call of the main thread does to its ledger**, of which only the sizes are kept. -/
def MainCall.onMapped (g : Multiset SizeT) : (c : MainCall) → c.Resp → Multiset SizeT
  | .vmMap size .., r => r.elim g fun _ => size ::ₘ g
  | _, _ => g

/-- The ledger of the main thread. -/
def mapping : Spec mainSig (Multiset SizeT) where
  pre _ _ := True
  env _ _ _ := True
  upd g c r := c.onMapped g r

/-- The sizes of the main thread's mappings, after a history. -/
def mappedAfter (tr : List (Event mainSig)) : Multiset SizeT := mapping.after 0 tr

/-- The prepopulated mappings. -/
def prepopulated : Multiset SizeT :=
  Multiset.replicate benchmarkPrepopulateMappings platArchBasePageSize

/-- Only one call maps. -/
def MainCall.MapsNothing (c : MainCall) : Prop := ∀ size memobj offset huge,
  c ≠ .vmMap size memobj offset huge

section MainThread

variable {cfg : VmopsBenchCfg} {g : Multiset SizeT}

theorem mapping_ignores (c : MainCall) (h : c.MapsNothing) : mapping.Ignores c := by
  refine fun g => ⟨trivial, fun r => ?_⟩
  cases c with
  | vmMap size memobj offset huge => exact absurd rfl (h size memobj offset huge)
  | _ => rfl

/-- A part of the main thread that maps nothing. -/
theorem wp_mapping_same {α : Type} {p : Prog mainSig α} {Q : α → Unit → Prop}
    (hp : wp (limitedTo MainCall.MapsNothing) p Q ()) : wp mapping p (fun _ g' => g' = g) g :=
  wp_mono _ (fun _ _ h => h.2) (wp_of_limited mapping_ignores hp g)

theorem wp_prepopulate_mapping {memobj : PlatMemobj} : wp mapping (prepopulate memobj)
    (fun o g => o = .ok () → g = prepopulated) 0 := by
  refine wp_forLoop (fun i _ g => g = Multiset.replicate i platArchBasePageSize) rfl ?_ ?_
  · rintro i - g - rfl
    refine wp_perform_bind.mpr ⟨trivial, fun addr _ => ?_⟩
    rcases addr with _ | addr
    · exact nofun
    · exact (Multiset.replicate_succ _ i).symm
  · exact fun _ _ h _ => h

/-- **The preparation maps the prepopulated pages**, if it succeeds. -/
theorem wp_prepareArgs_mapping : wp mapping (vmopsUtilsPrepareArgs cfg)
    (fun o g => o.isSome = true → g = prepopulated) 0 := by
  refine wp_ignored (mapping_ignores _ fun _ _ _ _ => nofun) fun args => ?_
  split
  · refine (wp_bind _ _).mpr (wp_mono _ ?_
      (wp_mapping_same (limited_allocateStats fun _ _ _ _ _ _ => nofun)))
    rintro cfg' g rfl
    refine (wp_bind _ _).mpr (wp_mono _ ?_ (wp_mapping_same
      (limited_createMemobjs (fun _ _ _ _ _ _ _ => nofun) fun _ _ _ _ _ => nofun)))
    rintro o g rfl
    have hfails : ∀ g, wp mapping (mainCall .freeArgs >>= fun _ =>
        pure (none : Option (VmopsBenchCfg × (ℕ → VmopsBenchRunArg))))
          (fun o g => o.isSome = true → g = prepopulated) g :=
      fun g => wp_ignored (mapping_ignores _ fun _ _ _ _ => nofun) fun _ => nofun
    rcases o with _ | memobjs
    · exact hfails _
    · refine (wp_bind _ _).mpr (wp_mono _ (fun o g ho => ?_) wp_prepopulate_mapping)
      rcases o with _ | _
      · exact hfails g
      · exact fun _ => ho rfl
  · exact nofun

/-- **The ledger of the main thread** when its entry returns `0`. -/
theorem benchEntry_mapping (choose : VmopsBenchCfg → RunFn) (cfg : VmopsBenchCfg)
    (opts : List Char) : wp mapping (benchEntry choose cfg opts)
      (fun v g => v = 0 → g = prepopulated) 0 := by
  have hmaps : ∀ {c : MainCall}, (c.prepares = false ∨ c.reports = true) → c.MapsNothing := by
    rintro c hc size memobj offset huge rfl
    rcases hc with hc | hc <;> cases hc
  have herror : ∀ g, wp mapping (.ret (-1) : Prog mainSig ℤ)
      (fun v g => v = 0 → g = prepopulated) g := fun _ h => absurd h (by decide)
  rw [benchEntry]
  split
  · exact herror _
  · refine (wp_bind _ _).mpr (wp_mono _ (fun o g ho => ?_) wp_prepareArgs_mapping)
    rcases o with _ | ⟨cfg', args⟩
    · exact herror _
    · obtain rfl := ho rfl
      refine (wp_bind _ _).mpr (wp_mono _ ?_
        (wp_mapping_same (limited_runBenchmark fun c hc _ => hmaps (.inl hc))))
      rintro ⟨r, args⟩ g rfl
      dsimp only
      split
      · exact herror _
      · refine (wp_bind _ _).mpr (wp_mono _ ?_
          (wp_mapping_same (limited_reportAndCleanup fun c hc => hmaps (.inr hc))))
        rintro - g rfl
        exact fun _ => rfl

end MainThread

/-! ### The process -/

/-- Only what neither the options nor the preparation change decides what a thread leaves. -/
theorem SameLimits.leaves_eq {cfg cfg' : VmopsBenchCfg} (h : SameLimits cfg cfg') (f : RunFn)
    (count : ℕ) : f.leaves cfg' count = f.leaves cfg count := by
  have hreaches : ProtectElevate.reachesFrom cfg' 0 = ProtectElevate.reachesFrom cfg 0 := by
    simp only [ProtectElevate.reachesFrom, ProtectElevate.totalMapSize, opsLimit, h.memsize_eq,
      h.nops_eq]
  cases f <;> simp only [RunFn.leaves, h.memsize_eq, hreaches]

namespace System

variable {ρ : Type}

/-- The sizes on the ledger of a thread. -/
def ledgerOf (s : System ρ) (i : ℕ) : Multiset SizeT :=
  (s.threads i).elim 0 fun t => (regionsAfter t.trace).map Prod.snd

/-- **The sizes on the ledgers** of the main thread and of the first `n` benchmark threads. -/
def ledger (n : ℕ) (s : System ρ) : Multiset SizeT :=
  mappedAfter s.mainTrace + ∑ i ∈ Finset.range n, s.ledgerOf i

/-- The number of operations that a thread has counted. -/
def countOf (s : System ρ) (i : ℕ) : ℕ :=
  ((s.threads i).bind Thread.result?).elim 0 fun r => r.arg.count.toNat

/-- No thread is given the address `NULL`. -/
def NeverNull (s : System ρ) : Prop :=
  ∀ i t, s.threads i = some t → ∀ e ∈ t.trace, e.call.NotNull e.resp

section Entry

variable {choose : VmopsBenchCfg → RunFn} {cfg cfg₁ : VmopsBenchCfg} {opts : List Char}
  {s : System ℤ}

/-- A thread's calls are as the ledger assumes. -/
theorem accounting_admits (hnone : s.NothingFails) (hnull : s.NeverNull) {i : ℕ} {t : Thread}
    (ht : s.threads i = some t) : accounting.Admits 0 t.trace :=
  accounting.admits_of_mem
    (fun e he _ => ⟨hnone.threads i t ht e he, hnull i t ht e he⟩) 0

/-- A thread of an entry, by what its run function leaves. -/
theorem ledger_of_thread (hs : Reachable (benchEntry choose cfg opts) s)
    (hchoose : ∀ cfg, choose { cfg with stats := 0 } = choose cfg)
    (hparse : vmopsUtilsParseOptions opts cfg = some cfg₁)
    (hpages : (choose cfg₁).HasPages cfg₁) (hnone : s.NothingFails)
    (hnull : s.NeverNull) {i : ℕ} {t : Thread} (ht : s.threads i = some t) :
    accounting.Honours 0 t.trace ∧ ∀ r, t.prog = .ret r →
      s.ledgerOf i = Multiset.replicate ((choose cfg₁).leaves cfg (s.countOf i)).1
        ((choose cfg₁).leaves cfg (s.countOf i)).2 := by
  obtain ⟨run, st, hmem, hrun⟩ := (reachable_wf hs).thread_run i t ht
  obtain ⟨cfg', memobj, hcfg, -, rfl, rfl⟩ := entry_of_start (reachable_wf hs).main_run hmem
  have hsame := hcfg.sameLimits
  have hchosen : choose cfg' = choose cfg₁ ∧ pageCount cfg' = pageCount cfg₁ := by
    obtain ⟨cfg₂, hparse', hcfg⟩ := hcfg
    obtain rfl : cfg₂ = cfg₁ := Option.some.inj (hparse'.symm.trans hparse)
    rcases hcfg with rfl | rfl
    · exact ⟨rfl, rfl⟩
    · exact ⟨hchoose _, rfl⟩
  obtain ⟨hchosen, hcount⟩ := hchosen
  have hadm := accounting_admits hnone hnull ht
  have hpages' : choose cfg' = .mapunmap4k →
      pageCount (fillArg cfg' memobj i).cfg ≠ 0 := by
    intro h4k
    show pageCount cfg' ≠ 0
    rw [hcount]
    exact hpages (.inl (hchosen ▸ h4k))
  refine ⟨honours_accounting hrun hadm hpages', fun r hr => ?_⟩
  rw [hr] at hrun
  obtain ⟨-, hleft⟩ := regions_of_run hrun hadm hpages'
  have hleft : (regionsAfter t.trace).map Prod.snd =
      Multiset.replicate ((choose cfg').leaves cfg' r.arg.count.toNat).1
        ((choose cfg').leaves cfg' r.arg.count.toNat).2 := hleft
  have hcount : s.countOf i = r.arg.count.toNat := by
    rw [countOf, ht, Option.bind_some, result?_eq_some.mpr hr]
    rfl
  rw [ledgerOf, ht, hcount]
  show (regionsAfter t.trace).map Prod.snd = _
  rw [hleft, hchosen, hsame.leaves_eq]

/-- **The ledgers balance.** When an entry has returned `0` and no call has failed, the ledger of
the main thread has the prepopulated pages, and that of each thread what its run function leaves
after the operations that it has counted. All along, a thread unmaps only what is on its ledger. -/
theorem ledger_of_returned (hchoose : choose = chooseMapunmap ∨ choose = chooseProtect ∨
      choose = (fun _ => .elevate) ∨ choose = fun _ => .tlbshoot)
    (hparse : vmopsUtilsParseOptions opts cfg = some cfg₁)
    (hpages : (choose cfg₁).HasPages cfg₁)
    (hs : Reachable (benchEntry choose cfg opts) s) (hnone : s.NothingFails)
    (hnull : s.NeverNull) :
    (∀ i t, s.threads i = some t → accounting.Honours 0 t.trace) ∧
    ∀ v, s.main = .ret v → v = 0 ∧ s.ledger cfg.corelistSize.toNat = prepopulated +
      ∑ i ∈ Finset.range cfg.corelistSize.toNat,
        Multiset.replicate ((choose cfg₁).leaves cfg (s.countOf i)).1
          ((choose cfg₁).leaves cfg (s.countOf i)).2 := by
  have hstats : ∀ cfg, choose { cfg with stats := 0 } = choose cfg := by
    rcases hchoose with rfl | rfl | rfl | rfl <;> exact fun _ => rfl
  have hthread := fun i t (ht : s.threads i = some t) =>
    ledger_of_thread hs hstats hparse hpages hnone hnull ht
  refine ⟨fun i t ht => (hthread i t ht).1, fun v hv => ?_⟩
  obtain ⟨rfl, hdone⟩ := done_of_returned hs hstats (by simp [hparse]) hnone hv
  have hmain := reachable_main_wp hs (benchEntry_mapping choose cfg opts)
    (mapping.admits_of_forall (fun _ _ _ => trivial) _ _)
  rw [hv] at hmain
  have hmapped : mappedAfter s.mainTrace = prepopulated := hmain rfl
  refine ⟨rfl, ?_⟩
  rw [ledger, hmapped]
  refine congrArg _ (Finset.sum_congr rfl fun i hi => ?_)
  obtain ⟨t, r, ht, hr, -⟩ := hdone i (Finset.mem_range.mp hi)
  exact (hthread i t ht).2 r hr

end Entry

/-- The map-only benchmark, on one thread. -/
def mapOnlyOnce : VmopsBenchCfg := { oneThread with nounmap := true }

/-- Nothing has failed, and the only thread has counted one operation, elsewhere than at `NULL`. -/
def hasMappedOnce (s : System ℤ) : Bool :=
  s.hasFinished && s.countOf 0 == 1 &&
    (s.threads 0).all fun t => t.trace.all fun e => e.call.NotNull e.resp

set_option maxRecDepth 2000 in
/-- One operation leaves one region more. -/
theorem ledger_mapOnlyOnce : ∃ s, Reachable (vmposBenchRunMapunmap mapOnlyOnce []) s ∧
    s.main = .ret 0 ∧ s.ledger 1 = prepopulated + {8192} := by
  let go := Label.main (MainCall.succeed (zeroArg oneThread))
  let ok := Label.thread 0 ThreadCall.succeed
  have hrun : ∃ s, Reachable (vmposBenchRunMapunmap mapOnlyOnce []) s ∧ s.hasMappedOnce = true :=
    exists_reachable_of_exec (List.replicate 132 go ++ [ok, ok, .openBarrier, ok, ok, ok, ok, ok,
      ok, ok, .openBarrier] ++ List.replicate 7 go) (by decide)
  obtain ⟨s, hs, hmapped⟩ := hrun
  simp only [hasMappedOnce, Bool.and_eq_true, beq_iff_eq] at hmapped
  obtain ⟨⟨hfinished, hcount⟩, hnotNull⟩ := hmapped
  obtain ⟨hnone, hthreads, v, hv⟩ := finished_of_hasFinished rfl (fun _ => rfl) hs hfinished
  have hnull : s.NeverNull := by
    intro i t ht e he
    obtain ⟨rfl, -⟩ := hthreads i t ht
    rw [ht] at hnotNull
    exact of_decide_eq_true (List.all_eq_true.mp hnotNull e he)
  have hparse : vmopsUtilsParseOptions [] mapOnlyOnce = some mapOnlyOnce := rfl
  obtain ⟨-, hleft⟩ := ledger_of_returned (.inl rfl) hparse (by decide) hs hnone hnull
  obtain ⟨rfl, hledger⟩ := hleft v hv
  refine ⟨s, hs, hv, hledger.trans ?_⟩
  show prepopulated + ∑ i ∈ Finset.range 1, _ = _
  rw [Finset.sum_range_one, hcount]
  rfl

end System

end VmopsBench

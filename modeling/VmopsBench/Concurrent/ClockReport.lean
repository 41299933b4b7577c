import VmopsBench.Concurrent.MeanLatency
import VmopsBench.Concurrent.Termination

/-!
# The report, by the clock

A benchmark in which nothing fails has only its clocks to go by. Here is what it reports: a function
of the readings of each thread (`VmopsBench.reportOf`), that knows of no addresses, of no sampler
with a state, of no block of samples, and of no other thread. The operations of a thread are as many
as the limits allow, its duration goes from its first reading to the one after them, and its samples
are the greedy selection from all operations but the first ten.

`VmopsBench.System.reportsClock` says that this is what an entry function prints, once, however its
threads are scheduled and whatever addresses they are given. It is about the values that the report
is computed of: times are rationals, converted as on Linux, and the two quotients of the result line
are to be defined.
-/

namespace VmopsBench

open Interact

/-! ### What is to be reported -/

/-- A worker of the shootdown benchmark makes no operations. -/
def RunFn.isWorker (f : RunFn) (i : ℕ) : Bool := f = .tlbshoot && i ≠ 0

section Expected

variable (f : RunFn) (cfg : VmopsBenchCfg) (t : ℕ → PlatTime) (i : ℕ)

/-- The operations of thread `i`, if its clock reads `t`. -/
def RunFn.opsOf : ℕ := if f.isWorker i then 0 else turnsMade f.dfltOps cfg t

/-- The duration of thread `i`. A worker has not measured it. -/
def RunFn.durationOf : ℚ :=
  if f.isWorker i then platTimeToMs (deadline (timeLimit cfg) (t 0) - t 0)
  else platTimeToMs (t (f.opsOf cfg t i + 1) - t 0)

/-- The samples of thread `i`. -/
def RunFn.samplesOf : List StatVal :=
  if f.isWorker i then []
  else keptCalls cfg (f.sampling.calls (BitVec.ofNat 32 i) t (f.opsOf cfg t i))

end Expected

/-- **The report of a benchmark** in which nothing fails, if the clock of thread `i` reads `t i`. -/
def reportOf (f : RunFn) (cfg : VmopsBenchCfg) (t : ℕ → ℕ → PlatTime) : Report :=
  let threads := List.range cfg.corelistSize.toNat
  let ops := fun i => BitVec.ofNat 64 (f.opsOf cfg (t i) i)
  let samples := threads.flatMap fun i => f.samplesOf cfg (t i) i
  let time := (threads.map fun i => f.durationOf cfg (t i) i).sum
  let totalOps := (threads.map ops).sum
  { throughput := threads.map fun i =>
      logCsv cfg (BitVec.ofNat 32 i) (f.durationOf cfg (t i) i) (ops i)
    latencies := samples.filterMap (logStats cfg)
    result := {
      benchmark := cfg.benchmark
      memsize := cfg.memsize
      time := time
      ncores := cfg.corelistSize
      ops := totalOps
      thpt := (totalOps * 1000).toNat / time
      lat := latencySum samples / totalOps.toNat } }

/-! ### A thread -/

/-- The readings of a thread are those of a clock, in order. -/
def ReadsOff (t : ℕ → PlatTime) (tr : List (Event threadSig)) : Prop :=
  ∀ k x, (clockReadings tr)[k]? = some x → x = t k

section Thread

variable {t : ℕ → PlatTime} {tr : List (Event threadSig)}

/-- The readings of a thread are counted. -/
theorem after_clocked (t : ℕ → PlatTime) (tr : List (Event threadSig)) :
    (clocked t).after 0 tr = (clockReadings tr).length := by
  induction tr using List.reverseRecOn with
  | nil => rfl
  | append_singleton tr e ih =>
    rw [Spec.after_append, ih, clockReadings_append, List.length_append]
    obtain ⟨c, r⟩ := e
    cases c <;> rfl

/-- **A thread none of whose calls has failed** is one of those whose readings are given in
advance. -/
theorem clocked_admits (hnone : ∀ e ∈ tr, e.call.fails e.resp = false) (h : ReadsOff t tr) :
    (clocked t).Admits 0 tr := by
  induction tr using List.reverseRecOn with
  | nil => trivial
  | append_singleton tr e ih =>
    have hearlier : ReadsOff t tr := by
      intro k x hx
      refine h k x ?_
      rw [clockReadings_append, List.getElem?_append_left (List.getElem?_eq_some_iff.mp hx).1, hx]
    have hbefore := ih (fun e he => hnone e (List.mem_append_left _ he)) hearlier
    refine Spec.admits_append_iff.mpr ⟨hbefore, ⟨hnone e (by simp), ?_⟩, trivial⟩
    rw [after_clocked]
    obtain ⟨c, r⟩ := e
    cases c with
    | getTime =>
      refine h _ r ?_
      rw [clockReadings_append]
      exact List.getElem?_concat_length
    | _ => trivial

/-- A worker that spins reads no clock, and asks for nothing. -/
theorem wp_spin_clocked {sum : Addr} {g : ℕ} :
    wp (clocked t) (TlbShoot.spin sum) (fun _ _ => True) g := by
  refine ⟨fun _ _ => True, fun _ _ => True, trivial, fun _ g _ => ?_, fun _ _ _ => trivial⟩
  refine wp_perform_bind.mpr ⟨trivial, fun done _ => ?_⟩
  split
  · exact wp_perform_bind.mpr ⟨trivial, fun _ _ => trivial⟩
  · trivial

/-- What a worker leaves behind. -/
theorem worker_of_run {arg : VmopsBenchRunArg} {r : RunResult} (htid : arg.tid ≠ 0)
    (hrun : Run (platThreadRunFn .tlbshoot arg) tr (.ret r)) (henv : (clocked t).Admits 0 tr)
    (hdone : r.exit = .done) :
    r.arg = { arg with
      count := 0, duration := platTimeToMs (deadline (timeLimit arg.cfg) (t 0) - t 0) } := by
  have hwp : wp (clocked t) (platThreadRunFn .tlbshoot arg) (fun r _ => r.exit = .done →
      r.arg = { arg with
        count := 0
        duration := platTimeToMs (deadline (timeLimit arg.cfg) (t 0) - t 0) }) 0 := by
    refine wp_perform_bind.mpr ⟨trivial, fun _ _ => ?_⟩
    refine wp_perform_bind.mpr ⟨trivial, fun taddr _ => ?_⟩
    rcases taddr with _ | taddr
    · exact nofun
    · refine wp_perform_bind.mpr ⟨trivial, fun _ _ => ?_⟩
      refine wp_perform_bind.mpr ⟨trivial, fun tCurrent henv => ?_⟩
      obtain rfl : tCurrent = t 0 := henv.2
      rw [if_pos htid]
      refine (wp_bind _ _).mpr (wp_mono _ (fun _ _ _ => ?_) wp_spin_clocked)
      exact wp_perform_bind.mpr ⟨trivial, fun _ _ _ => rfl⟩
  exact (wp_run hrun hwp henv).2 hdone

end Thread

/-- A clock that does not go back, and has not run for three centuries. -/
structure Steady (t : ℕ → PlatTime) : Prop where
  le : ∀ ⦃j k⦄, j ≤ k → t j ≤ t k
  lt : ∀ k, (t k).toNat < 2 ^ 63

/-- **What thread `i` hands over** to the report. -/
structure HandsOver (f : RunFn) (cfg : VmopsBenchCfg) (t : ℕ → PlatTime) (i : ℕ)
    (arg : VmopsBenchRunArg) : Prop where
  count_eq : arg.count = BitVec.ofNat 64 (f.opsOf cfg t i)
  duration_eq : arg.duration = f.durationOf cfg t i
  recorded_eq : arg.stats.recorded = f.samplesOf cfg t i

section HandsOver

variable {f : RunFn} {cfg : VmopsBenchCfg} {t : ℕ → PlatTime} {i n : ℕ}

/-- The times of the sampler's calls are differences of readings. -/
theorem Steady.elapsed_lt (h : Steady t) {sampling : Sampling} {tid : BitVec 32} {c : StatVal}
    (hc : c ∈ sampling.calls tid t n) : elapsed c < 2 ^ 63 := by
  have hcall : ∃ k, c = sampling.call tid t k := by
    cases sampling with
    | never => cases hc
    | beforeIncrement | afterIncrement =>
      obtain ⟨k, -, rfl⟩ := List.mem_map.mp hc
      exact ⟨k, rfl⟩
  obtain ⟨k, rfl⟩ := hcall
  have hle : t 0 ≤ t (k + 1) := h.le (Nat.zero_le _)
  show (t (k + 1) - t 0).toNat < _
  rw [BitVec.toNat_sub_of_le hle]
  exact (Nat.sub_le _ _).trans_lt (h.lt _)

/-- **A thread hands over** what its clock says. -/
theorem handsOver_of_run {memobj : PlatMemobj} {tr : List (Event threadSig)} {r : RunResult}
    (hi : i < 2 ^ 32) (hrun : Run (platThreadRunFn f (fillArg cfg memobj i)) tr (.ret r))
    (hnone : ∀ e ∈ tr, e.call.fails e.resp = false) (hdone : r.exit = .done)
    (hclock : ReadsOff t tr) (hsteady : Steady t) : HandsOver f cfg t i r.arg := by
  have henv := clocked_admits hnone hclock
  have htid : (fillArg cfg memobj i).tid = 0 ↔ i = 0 := by
    show BitVec.ofNat 32 i = 0 ↔ i = 0
    rw [← BitVec.toNat_inj, BitVec.toNat_ofNat, Nat.mod_eq_of_lt hi]
    rfl
  by_cases hworker : f.isWorker i = true
  · have hboth : f = .tlbshoot ∧ i ≠ 0 := by simpa [RunFn.isWorker] using hworker
    obtain ⟨rfl, hne⟩ := hboth
    have harg := worker_of_run (htid.not.mpr hne) hrun henv hdone
    rw [harg]
    refine ⟨?_, ?_, ?_⟩
    · rw [RunFn.opsOf, if_pos hworker]
      rfl
    · rw [RunFn.durationOf, if_pos hworker]
      rfl
    · rw [RunFn.samplesOf, if_pos hworker]
      rfl
  · have hnot : f ≠ .tlbshoot ∨ (fillArg cfg memobj i).tid = 0 := by
      rw [htid, or_iff_not_imp_left, not_not]
      rintro rfl
      simpa [RunFn.isWorker] using hworker
    have htimed := timed_of_run hnot hrun henv hdone
    have hops : f.opsOf cfg t i = turnsMade f.dfltOps cfg t := if_neg hworker
    refine ⟨?_, ?_, ?_⟩
    · rw [hops]
      exact htimed.count_eq
    · rw [RunFn.durationOf, if_neg hworker, hops]
      exact htimed.duration_eq
    · rw [RunFn.samplesOf, if_neg hworker, hops, htimed.stats_eq]
      exact (addAllStats_sampled cfg memobj i fun c hc => hsteady.elapsed_lt hc).recorded_eq

end HandsOver

/-! ### The report -/

section Printed

variable {f : RunFn} {cfg : VmopsBenchCfg} {t : ℕ → ℕ → PlatTime} {args : ℕ → VmopsBenchRunArg}
  {memobjs : ℕ → PlatMemobj} {stores : List (ℕ × SizeT × StatVal)}

/-- Nothing is printed of samples that there is no room for. -/
theorem latencySum_printedSamples_eq
    (hsize : cfg.stats.toNat * cfg.corelistSize.toNat < 2 ^ 32) (hcfg : (args 0).cfg = cfg)
    (hn : 0 < cfg.corelistSize.toNat) (hall : AllInOrder cfg memobjs args)
    (hstores : Interleaves args cfg.corelistSize.toNat stores) :
    latencySum (printedSamples args (sampleBlock args stores)) =
      latencySum (allRecorded cfg args) := by
  by_cases hstats : cfg.stats = 0
  · have hnone : allRecorded cfg args = [] := by
      by_contra hne
      exact (System.pos_of_recorded hall hne).2 hstats
    have hslots : printedSlots args = [] := by
      rw [printedSlots, hcfg]
      split <;> simp [hstats]
    rw [hnone, printedSamples, hslots]
    rfl
  · exact latencySum_printedSamples hsize hstats hcfg hn hall hstores

/-- The report, by the sums over the threads. -/
theorem printCsv_eq_sums (hcfg : (args 0).cfg = cfg) (block : ℕ → StatVal) :
    vmopsUtilsPrintCsv args block =
      { throughput := (List.range cfg.corelistSize.toNat).map fun i =>
          logCsv cfg (BitVec.ofNat 32 i) (args i).duration (args i).count
        latencies := (vmopsUtilsPrintCsv args block).latencies
        result := {
          benchmark := cfg.benchmark
          memsize := cfg.memsize
          time := ((List.range cfg.corelistSize.toNat).map fun i => (args i).duration).sum
          ncores := cfg.corelistSize
          ops := countSum cfg args
          thpt := (countSum cfg args * 1000).toNat /
            ((List.range cfg.corelistSize.toNat).map fun i => (args i).duration).sum
          lat := latencySum (printedSamples args block) / (countSum cfg args).toNat } } := by
  rw [← lat_eq hcfg, ← hcfg]
  rfl

/-- **The report of what the threads hand over.** -/
theorem printCsv_eq (hsize : cfg.stats.toNat * cfg.corelistSize.toNat < 2 ^ 32)
    (hcfg : (args 0).cfg = cfg) (hn : 0 < cfg.corelistSize.toNat)
    (hall : AllInOrder cfg memobjs args)
    (hstores : Interleaves args cfg.corelistSize.toNat stores)
    (hover : ∀ i < cfg.corelistSize.toNat, HandsOver f cfg (t i) i (args i)) :
    vmopsUtilsPrintCsv args (sampleBlock args stores) = reportOf f cfg t := by
  have hthreads : ∀ {α : Type} (g : ℕ → VmopsBenchRunArg → α) {g' : ℕ → α},
      (∀ i, HandsOver f cfg (t i) i (args i) → g i (args i) = g' i) →
        (List.range cfg.corelistSize.toNat).map (fun i => g i (args i)) =
          (List.range cfg.corelistSize.toNat).map g' := fun _ _ h =>
    List.map_congr_left fun i hi => h i (hover i (List.mem_range.mp hi))
  have hrows := hthreads (fun i arg => logCsv cfg (BitVec.ofNat 32 i) arg.duration arg.count)
    fun i h => by rw [h.duration_eq, h.count_eq]
  have hcount : countSum cfg args = _ :=
    congrArg List.sum (hthreads (fun _ arg => arg.count) fun _ h => h.count_eq)
  have htime := congrArg List.sum (hthreads (fun _ arg => arg.duration) fun _ h => h.duration_eq)
  have hrecorded : allRecorded cfg args =
      (List.range cfg.corelistSize.toNat).flatMap fun i => f.samplesOf cfg (t i) i :=
    List.flatMap_congr fun i hi => (hover i (List.mem_range.mp hi)).recorded_eq
  have hlatencies : (vmopsUtilsPrintCsv args (sampleBlock args stores)).latencies =
      (allRecorded cfg args).filterMap (logStats cfg) := by
    rw [latencies_eq hsize hcfg hn hall hstores, allRecorded, List.filterMap_flatMap]
  rw [printCsv_eq_sums hcfg, latencySum_printedSamples_eq hsize hcfg hn hall hstores, hlatencies,
    hrecorded, hcount, hrows, htime]
  rfl

end Printed

/-! ### What is printed -/

/-- What a call prints is added to what was printed before. -/
def MainCall.onPrinted (g : List (ℕ → VmopsBenchRunArg)) : MainCall → List (ℕ → VmopsBenchRunArg)
  | .printCsv args => g ++ [args]
  | _ => g

/-- The argument records that the main thread has printed. -/
def printing : Spec mainSig (List (ℕ → VmopsBenchRunArg)) where
  pre _ _ := True
  env _ _ _ := True
  upd g c _ := c.onPrinted g

/-- **What the main thread has printed**, after a history. -/
def printedBy (tr : List (Event mainSig)) : List (ℕ → VmopsBenchRunArg) := printing.after [] tr

/-- Only one call prints. -/
def MainCall.PrintsNothing (c : MainCall) : Prop := ∀ args, c ≠ .printCsv args

theorem printing_ignores {c : MainCall} (h : c.PrintsNothing) : printing.Ignores c := by
  refine fun g => ⟨trivial, fun r => ?_⟩
  cases c with
  | printCsv args => exact absurd rfl (h args)
  | _ => rfl

/-- The last part of an entry prints one report. -/
theorem wp_reportAndCleanup_printing {cfg : VmopsBenchCfg} {args : ℕ → VmopsBenchRunArg}
    (hn : cfg.corelistSize ≠ 0) (g : List (ℕ → VmopsBenchRunArg)) :
    wp printing (reportAndCleanup cfg args) (fun _ g' => g' = g ++ [args]) g := by
  rw [reportAndCleanup, if_neg hn]
  refine wp_perform_bind.mpr ⟨trivial, fun _ _ => ?_⟩
  have hcleanup : wp (limitedTo MainCall.PrintsNothing) (vmopsUtilsCleanupArgs args)
      (fun _ _ => True) () := by
    refine limited_cleanupArgs (fun memobj args heq => ?_) fun args heq => ?_
    · cases heq
    · cases heq
  exact wp_mono _ (fun _ _ h => h.2) (wp_of_limited (fun _ => printing_ignores) hcleanup _)

namespace System

section Entry

variable {choose : VmopsBenchCfg → RunFn} {cfg cfg₁ : VmopsBenchCfg} {opts : List Char}
  {s : System ℤ}

/-- **What an entry has printed** that has returned `0`, and which thread each record of it is
from. -/
theorem printed_of_returned (hs : Reachable (benchEntry choose cfg opts) s)
    (hchoose : ∀ cfg, choose { cfg with stats := 0 } = choose cfg)
    (hparse : vmopsUtilsParseOptions opts cfg = some cfg₁) (hn : cfg₁.corelistSize ≠ 0)
    (hnone : s.NothingFails) (hv : s.main = .ret 0) :
    ∃ (args : ℕ → VmopsBenchRunArg) (memobjs : ℕ → PlatMemobj),
      printedBy s.mainTrace = [args] ∧ ∀ i < cfg₁.corelistSize.toNat,
      ∃ t r, s.threads i = some t ∧ t.prog = .ret r ∧ r.arg = args i ∧
        Run (platThreadRunFn (choose cfg₁) (fillArg cfg₁ (memobjs i) i)) t.trace (.ret r) := by
  have hrun : Run (benchEntry choose cfg opts) s.mainTrace (.ret 0) :=
    hv ▸ (reachable_wf hs).main_run
  have halloc : sampleAlloc cfg₁ false ∉ s.mainTrace := fun hmem =>
    absurd (hnone.main _ hmem) (by simp [MainCall.fails])
  obtain ⟨memobjs, args, tr₁, tr₂, tr₃, htrace, hprepares, hbench, hreport⟩ :=
    entry_returned hparse hrun halloc
  have hreports : ∀ e ∈ tr₃, e.call.reports = true :=
    forall_mem_of_run hreport (limited_reportAndCleanup fun _ hc => hc)
  refine ⟨args, memobjs, ?_, fun i hi => ?_⟩
  · have hquiet : ∀ e ∈ tr₂, e.call.PrintsNothing :=
      forall_mem_of_run hbench (limited_runBenchmark fun c _ hc args heq => by
        rw [heq] at hc
        cases hc)
    have hfirst : printing.after [] tr₁ = [] := Spec.after_of_ignores (fun e he =>
      printing_ignores fun args heq => by
        have hcall := hprepares e he
        rw [heq] at hcall
        cases hcall) _
    have hsecond : printing.after [] tr₂ = [] :=
      Spec.after_of_ignores (fun e he => printing_ignores (hquiet e he)) _
    rw [printedBy, htrace, Spec.after_append, hfirst, Spec.after_append, hsecond]
    exact (wp_run hreport (wp_reportAndCleanup_printing hn [])
      (printing.admits_of_forall (fun _ _ _ => trivial) _ _)).2
  · -- the thread that was joined is the one that was started
    have hjoin : joinEvent i (args i) ∈ s.mainTrace := by
      rw [htrace]
      exact List.mem_append_right _ (List.mem_append_left _
        ((of_run hbench wp_runBenchmark_joined rfl).1 i hi))
    obtain ⟨t, r, ht, hp, harg⟩ :=
      reachable_joined hs (benchEntry_launch hchoose cfg opts) i (args i) hjoin
    obtain ⟨run, st, hmem, hthread⟩ := (reachable_wf hs).thread_run i t ht
    rw [htrace] at hmem
    have hstart : startEvent i run st ∈ tr₂ := by
      rcases List.mem_append.mp hmem with hmem | hmem
      · cases hprepares _ hmem
      · refine (List.mem_append.mp hmem).resolve_right fun hmem => ?_
        cases hreports _ hmem
    obtain ⟨hon, -⟩ := wp_run hbench runBenchmark_runsAll (launching_admits _ _ _ _)
    obtain ⟨g, -, ⟨rfl, rfl⟩, -⟩ := hon.of_mem hstart
    have hfilled : filledArgs cfg₁ memobjs i = fillArg cfg₁ (memobjs i) i := if_pos hi
    rw [hp, hfilled] at hthread
    exact ⟨t, r, ht, hp, harg, hthread⟩

/-- **The report is a function of the clocks.** When an entry has returned and no call has failed,
it has returned `0` and has printed once; and what it has printed is `reportOf` of what its threads
have read from their clocks, however they were scheduled, wherever their mappings were, and in
whatever order they have stored their samples.

Throughput and latency are quotients, and the loops over small pages take remainders: time has gone
by, an operation was made, and there is a page. -/
theorem reportsClock (hchoose : choose = chooseMapunmap ∨ choose = chooseProtect ∨
      choose = (fun _ => .elevate) ∨ choose = fun _ => .tlbshoot)
    (hparse : vmopsUtilsParseOptions opts cfg = some cfg₁) (hn : cfg₁.corelistSize ≠ 0)
    (hsize : cfg₁.stats.toNat * cfg₁.corelistSize.toNat < 2 ^ 32)
    (hs : Reachable (benchEntry choose cfg opts) s) (hnone : s.NothingFails) {v : ℤ}
    (hv : s.main = .ret v) {t : ℕ → ℕ → PlatTime}
    (hclock : ∀ i th, s.threads i = some th → ReadsOff (t i) th.trace)
    (hsteady : ∀ i, Steady (t i)) (_hpages : (choose cfg₁).HasPages cfg₁)
    (_htime : (reportOf (choose cfg₁) cfg₁ t).result.time ≠ 0)
    (_hops : (reportOf (choose cfg₁) cfg₁ t).result.ops ≠ 0) :
    v = 0 ∧ ∃ args, printedBy s.mainTrace = [args] ∧
      ∀ stores, Interleaves args cfg₁.corelistSize.toNat stores →
        vmopsUtilsPrintCsv args (sampleBlock args stores) = reportOf (choose cfg₁) cfg₁ t := by
  have hstats : ∀ cfg, choose { cfg with stats := 0 } = choose cfg := by
    rcases hchoose with rfl | rfl | rfl | rfl <;> exact fun _ => rfl
  obtain ⟨rfl, hdone⟩ := done_of_returned hs hstats (by simp [hparse]) hnone hv
  obtain ⟨args, memobjs, hprinted, hthreads⟩ := printed_of_returned hs hstats hparse hn hnone hv
  rw [← corelistSize_of_parseOptions hparse] at hdone
  have hpos : 0 < cfg₁.corelistSize.toNat :=
    Nat.pos_of_ne_zero fun hzero => hn (BitVec.eq_of_toNat_eq hzero)
  have hleaves : ∀ i < cfg₁.corelistSize.toNat, (args i).cfg = cfg₁ ∧
      InOrder cfg₁ (fillArg cfg₁ (memobjs i) i).stats.values (args i).stats ∧
        HandsOver (choose cfg₁) cfg₁ (t i) i (args i) := by
    intro i hi
    obtain ⟨th, r, ht, hp, harg, hrun⟩ := hthreads i hi
    obtain ⟨th', r', ht', hp', hexit⟩ := hdone i hi
    obtain rfl := Option.some.inj (ht.symm.trans ht')
    obtain rfl : r = r' := Prog.ret.inj (hp.symm.trans hp')
    obtain ⟨hcfg, hrecords⟩ := leavesRecords hrun ⟨inOrder_fillArg cfg₁ (memobjs i) i, nofun⟩
    rw [← harg]
    exact ⟨hcfg, hrecords.inOrder, handsOver_of_run (hi.trans cfg₁.corelistSize.isLt) hrun
      (hnone.threads i th ht) hexit (hclock i th ht) (hsteady i)⟩
  exact ⟨rfl, args, hprinted, fun stores hstores => printCsv_eq hsize (hleaves 0 hpos).1 hpos
    (fun i hi => (hleaves i hi).2.1) hstores fun i hi => (hleaves i hi).2.2⟩

end Entry

/-- A clock that has ticked twice. -/
def twoTicks (k : ℕ) : PlatTime := BitVec.ofNat 64 (min k 2)

theorem steady_twoTicks : Steady twoTicks where
  le j k hjk := by
    rw [BitVec.le_def, twoTicks, twoTicks, BitVec.toNat_ofNat, BitVec.toNat_ofNat]
    omega
  lt k := by
    rw [twoTicks, BitVec.toNat_ofNat]
    omega

theorem turnsMade_twoTicks : turnsMade sizeMax oneThread twoTicks = 1 := by
  rw [turnsMade, Nat.find_eq_iff]
  decide

/-- Nothing has failed, and the only thread has read three times from this clock. -/
def hasReadTwoTicks (s : System ℤ) : Bool :=
  s.hasFinished &&
    (s.threads 0).any fun t => clockReadings t.trace = (List.range 3).map twoTicks

set_option maxRecDepth 2000 in
/-- One thread with one operation, which takes a nanosecond. -/
theorem reportsClock_oneThread : ∃ s args, Reachable (vmposBenchRunMapunmap oneThread []) s ∧
    s.main = .ret 0 ∧ printedBy s.mainTrace = [args] ∧
      ∀ stores, Interleaves args 1 stores →
        vmopsUtilsPrintCsv args (sampleBlock args stores) =
          reportOf .mapunmap oneThread fun _ => twoTicks := by
  let go := Label.main (MainCall.succeed (zeroArg oneThread))
  let at' := fun j => Label.thread 0 (Function.update ThreadCall.succeed .getTime (twoTicks j))
  have hrun : ∃ s, Reachable (vmposBenchRunMapunmap oneThread []) s ∧ s.hasReadTwoTicks = true :=
    exists_reachable_of_exec (List.replicate 132 go ++ [at' 0, at' 0, .openBarrier, at' 0, at' 1,
      at' 1, at' 1, at' 1, at' 2, at' 2, at' 2, .openBarrier] ++ List.replicate 7 go) (by decide)
  obtain ⟨s, hs, hread⟩ := hrun
  obtain ⟨hfinished, hreadings⟩ := Bool.and_eq_true_iff.mp hread
  obtain ⟨hnone, hthreads, v, hv⟩ := finished_of_hasFinished rfl (fun _ => rfl) hs hfinished
  have hclock : ∀ i th, s.threads i = some th → ReadsOff twoTicks th.trace := by
    intro i th hth k x hx
    obtain ⟨rfl, -⟩ := hthreads i th hth
    rw [hth] at hreadings
    rw [of_decide_eq_true hreadings, List.getElem?_map] at hx
    obtain ⟨j, hj, rfl⟩ := Option.map_eq_some_iff.mp hx
    obtain ⟨hlt, hrange⟩ := List.getElem?_eq_some_iff.mp hj
    rw [List.getElem_range] at hrange
    rw [hrange]
  have hparse : vmopsUtilsParseOptions [] oneThread = some oneThread := rfl
  have htime : (reportOf .mapunmap oneThread fun _ => twoTicks).result.time ≠ 0 := by
    show [platTimeToMs (twoTicks (turnsMade sizeMax oneThread twoTicks + 1) - twoTicks 0)].sum ≠ 0
    rw [turnsMade_twoTicks, List.sum_singleton]
    show ((2 : ℕ) : ℚ) / 1000000 ≠ 0
    norm_num
  have hops : (reportOf .mapunmap oneThread fun _ => twoTicks).result.ops ≠ 0 := by
    show [BitVec.ofNat 64 (turnsMade sizeMax oneThread twoTicks)].sum ≠ 0
    rw [turnsMade_twoTicks, List.sum_singleton]
    decide
  obtain ⟨rfl, args, hprinted, hreport⟩ := reportsClock (.inl rfl) hparse (by decide) (by decide)
    hs hnone hv hclock (fun _ => steady_twoTicks) (by decide) htime hops
  exact ⟨s, args, hs, hv, hprinted, hreport⟩

end System

end VmopsBench

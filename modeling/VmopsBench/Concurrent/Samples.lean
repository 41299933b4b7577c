import VmopsBench.Benchmarks.LoopInvariant
import VmopsBench.Benchmarks.SampleRows
import VmopsBench.Concurrent.Launched

/-!
# The samples of a run

What the threads of a benchmark have recorded when the main thread has joined them
all. A record is made by `VmopsBench.LoopState.next`, of a thread's own clock readings, so as long
as the clock does not go back its latency is at most its elapsed time
(`VmopsBench.leavesRecords`); and the joined argument records are those the threads have left
(`VmopsBench.System.reachable_joined`). So the rows are those of the records with a latency
(`VmopsBench.System.latencies_reachable`), and together with `VmopsBench.showsRecords_iff` this says
which runs have all their records shown: `VmopsBench.System.printsRecords_iff`.
-/

namespace VmopsBench

open Interact

/-! ### The records of a thread -/

/-- The clock readings of a thread, in order. -/
def clockReadings (g : List (Event threadSig)) : List PlatTime :=
  g.filterMap fun
    | ⟨.getTime, t⟩ => some t
    | _ => none

theorem clockReadings_append (g g' : List (Event threadSig)) :
    clockReadings (g ++ g') = clockReadings g ++ clockReadings g' := List.filterMap_append

/-- The clock of a thread does not go back. -/
def ClockAdvances (g : List (Event threadSig)) : Prop :=
  (clockReadings g).Pairwise fun t t' => t ≤ t'

theorem ClockAdvances.of_append {g g' : List (Event threadSig)} (h : ClockAdvances (g ++ g')) :
    ClockAdvances g := by
  rw [ClockAdvances, clockReadings_append] at h
  exact (List.pairwise_append.mp h).1

/-- The last reading is the greatest. -/
theorem ClockAdvances.le_last {g : List (Event threadSig)} {t : PlatTime}
    (h : ClockAdvances (g ++ [⟨ThreadCall.getTime, t⟩])) {t' : PlatTime}
    (ht' : t' ∈ clockReadings g) : t' ≤ t := by
  rw [ClockAdvances, clockReadings_append] at h
  exact (List.pairwise_append.mp h).2.2 t' ht' t List.mem_cons_self

/-- **The records of a thread after a history**: its slice is filled in order, and each record
names the thread and has a latency of at most its elapsed time, if the clock does not go back. -/
structure Records (cfg : VmopsBenchCfg) (values : Option (BitVec 64)) (tid : BitVec 32)
    (s : VmopsStats) (g : List (Event threadSig)) : Prop where
  inOrder : InOrder cfg values s
  of_thread : ∀ c ∈ s.recorded, c.tid = tid ∧ (ClockAdvances g → c.val ≤ c.tElapsed)

section Records

variable {cfg : VmopsBenchCfg} {values : Option (BitVec 64)} {tid : BitVec 32} {s : VmopsStats}
  {g : List (Event threadSig)}

theorem Records.append (h : Records cfg values tid s g) (g' : List (Event threadSig)) :
    Records cfg values tid s (g ++ g') :=
  ⟨h.inOrder, fun c hc => ⟨(h.of_thread c hc).1, fun hadv => (h.of_thread c hc).2 hadv.of_append⟩⟩

/-- A call of the sampler. -/
theorem Records.addStats (h : Records cfg values tid s g) {c : StatVal} (htid : c.tid = tid)
    (hle : ClockAdvances g → c.val ≤ c.tElapsed) :
    Records cfg values tid (vmopsUtilsAddStats s c.tid c.counter c.tElapsed c.val) g := by
  refine ⟨h.inOrder.addStats c, ?_⟩
  rcases addStats_cases s c with ⟨-, heq⟩ | ⟨-, -, heq⟩ | ⟨-, -, -, heq⟩
  · rw [heq]
    exact h.of_thread
  · rw [heq]
    exact h.of_thread
  · rw [heq, recorded_store]
    intro d hd
    rcases List.mem_append.mp hd with hd | hd
    · exact h.of_thread d hd
    · obtain rfl := List.mem_singleton.mp hd
      exact ⟨htid, hle⟩

/-- The call of the sampler in a turn of a timed loop. -/
theorem Records.record (h : Records cfg values tid s g) (sampling : Sampling) {counter : SizeT}
    {tElapsed val : PlatTime} (hle : ClockAdvances g → val ≤ tElapsed) :
    Records cfg values tid (sampling.record s tid counter tElapsed val) g := by
  cases sampling with
  | never => exact h
  | beforeIncrement => exact h.addStats (c := ⟨tid, tElapsed, counter, val⟩) rfl hle
  | afterIncrement => exact h.addStats (c := ⟨tid, tElapsed, counter + 1, val⟩) rfl hle

end Records

/-- **What a thread leaves behind**: its records, under the configuration it was given. -/
def LeavesRecords (arg : VmopsBenchRunArg) (cfg : VmopsBenchCfg) (values : Option (BitVec 64))
    (r : RunResult) (g : List (Event threadSig)) : Prop :=
  r.arg.cfg = arg.cfg ∧ Records cfg values arg.tid r.arg.stats g

section Functions

variable {ξ : Type} {arg : VmopsBenchRunArg} {sampling : Sampling} {cfg : VmopsBenchCfg}
  {values : Option (BitVec 64)} {g : List (Event threadSig)}

/-- A turn of a timed loop keeps the records, its readings being `tStart`, `t_current` and the
new one. -/
theorem Records.next {s : LoopState ξ} {tStart t : PlatTime} {vars : ξ}
    (h : Records cfg values arg.tid s.stats g) (hcurrent : s.tCurrent ∈ clockReadings g)
    (hstart : ClockAdvances g → tStart ≤ s.tCurrent) :
    Records cfg values arg.tid (s.next arg.tid sampling tStart t vars).stats
      (g ++ [⟨ThreadCall.getTime, t⟩]) := by
  refine (h.append _).record sampling fun hadv => ?_
  have hle : s.tCurrent ≤ t := hadv.le_last hcurrent
  have hle' : tStart ≤ s.tCurrent := hstart hadv.of_append
  rw [BitVec.le_def] at hle hle' ⊢
  rw [BitVec.toNat_sub_of_le hle, BitVec.toNat_sub_of_le (hle'.trans hle)]
  exact Nat.sub_le_sub_left hle' _

/-- The last reading of a history. -/
theorem mem_clockReadings_reads (g : List (Event threadSig)) (t : PlatTime) :
    t ∈ clockReadings (g ++ [reads t]) := by
  rw [clockReadings_append]
  exact List.mem_append_right _ List.mem_cons_self

/-- **The turns of a timed loop keep the records.** -/
theorem recordsKept (nops : SizeT) (h : Records cfg values arg.tid arg.stats []) :
    KeptByTurns arg nops sampling fun tStart s g => Records cfg values arg.tid s.stats g ∧
      s.tCurrent ∈ clockReadings g ∧ (ClockAdvances g → tStart ≤ s.tCurrent) where
  first g t := ⟨h.append _, mem_clockReadings_reads g t, fun _ => BitVec.le_refl _⟩
  append := by
    rintro tStart s g ⟨h, hcurrent, hstart⟩ tr
    refine ⟨h.append tr, ?_, fun hadv => hstart hadv.of_append⟩
    rw [clockReadings_append]
    exact List.mem_append_left _ hcurrent
  next := by
    rintro tStart s g ⟨h, hcurrent, hstart⟩ - t
    exact ⟨h.next hcurrent hstart, mem_clockReadings_reads g t, fun hadv =>
      BitVec.le_trans (hstart hadv.of_append) (hadv.le_last hcurrent)⟩

/-- **What a thread has recorded** when it has returned. -/
theorem leavesRecords {f : RunFn} {tr : List (Event threadSig)} {r : RunResult}
    (hrun : Run (platThreadRunFn f arg) tr (.ret r)) (h : Records cfg values arg.tid arg.stats []) :
    LeavesRecords arg cfg values r tr := by
  have hleft := leftBy_of_run hrun (recordsKept _ h)
  refine ⟨hleft.cfg_eq, ?_⟩
  rcases hleft.stats with hstats | ⟨tStart, s, ⟨hrec, -⟩, hstats, -⟩
  · rw [hstats]
    exact h.append tr
  · rwa [hstats]

end Functions

/-! ### The records of all threads -/

/-- The main thread has joined a thread that has left its arguments as `arg`. -/
abbrev joinEvent (i : ℕ) (arg : VmopsBenchRunArg) : Event mainSig := ⟨MainCall.threadJoin i, arg⟩

/-- **The argument records after a run** are those of the joined threads. -/
theorem wp_runBenchmark_joined {n : BitVec 32} {args : ℕ → VmopsBenchRunArg} {f : RunFn} :
    wp (recording mainSig) (vmopsUtilsRunBenchmark n args f)
      (fun r g => r.1 = 0 → (∀ i < n.toNat, joinEvent i (r.2 i) ∈ g) ∧
        ∀ i, n.toNat ≤ i → r.2 i = args i) [] := by
  refine wp_recording_call fun ready => ?_
  cases ready with
  | false => exact nofun
  | true =>
    refine (wp_bind _ _).mpr (wp_mono _ ?_ (wp_recording_extends _ _))
    rintro o - ⟨tr, rfl⟩
    cases o with
    | error _ => exact nofun
    | ok _ =>
      refine (wp_bind _ _).mpr (wp_forLoop (fun i args' g =>
        (∀ j < i, joinEvent j (args' j) ∈ g) ∧ ∀ j, i ≤ j → args' j = args j) ?_ ?_ ?_)
      · exact ⟨nofun, fun _ _ => rfl⟩
      · rintro i args' g - ⟨hjoined, hrest⟩
        refine wp_recording_call fun arg => ⟨fun j hj => ?_, fun j hj => ?_⟩
        · rcases Nat.lt_succ_iff_lt_or_eq.mp hj with hlt | rfl
          · rw [Function.update_of_ne hlt.ne]
            exact List.mem_append_left _ (hjoined j hlt)
          · rw [Function.update_self]
            exact List.mem_append_right _ List.mem_cons_self
        · rw [Function.update_of_ne (Nat.ne_of_gt hj)]
          exact hrest j (Nat.le_of_lt hj)
      · rintro args' g ⟨hjoined, hrest⟩
        exact wp_recording_call fun () _ =>
          ⟨fun i hi => List.mem_append_left _ (hjoined i hi), hrest⟩

namespace System

variable {ρ : Type} {main : Prog mainSig ρ} {s : System ρ}

/-- A call of the main thread leaves the program of a thread alone, if it does not start it a
second time. -/
theorem effect_prog {c : MainCall} {r : c.Resp} {i : ℕ} {t : Thread}
    (hstart : ∀ i run st, c = .threadStart i run st → s.threads i = none)
    (ht : s.threads i = some t) : ∃ u, (s.effect c r).threads i = some u ∧ u.prog = t.prog := by
  cases c with
  | threadStart j run st =>
    have hne : i ≠ j := by
      rintro rfl
      rw [hstart i run st rfl] at ht
      cases ht
    cases r with
    | false => exact ⟨t, ht, rfl⟩
    | true => exact ⟨t, (Function.update_of_ne hne _ _).trans ht, rfl⟩
  | threadCancel j =>
    by_cases hij : i = j
    · refine ⟨{ t with freed := true }, ?_, rfl⟩
      rw [hij] at ht ⊢
      simp [effect, ht]
    · exact ⟨t, (Function.update_of_ne hij _ _).trans ht, rfl⟩
  | barrierInit n => cases r <;> exact ⟨t, ht, rfl⟩
  | _ => exact ⟨t, ht, rfl⟩

/-- **What a join was answered with** is what the thread has left. -/
def JoinsAnswered (s : System ρ) : Prop :=
  ∀ i arg, joinEvent i arg ∈ s.mainTrace →
    ∃ t r, s.threads i = some t ∧ t.prog = .ret r ∧ r.arg = arg

theorem reachable_joined {n : BitVec 32} {who : ℕ → RunFn → VmopsBenchRunArg → Prop}
    {Q : ρ → Launch → Prop} (hs : Reachable main s)
    (hmain : wp (launching n who) main Q Launch.init) : s.JoinsAnswered := by
  have hinit : (init main).JoinsAnswered := fun _ _ hmem => nomatch hmem
  refine hs.induction hinit fun s s' hs ih hstep => ?_
  rcases hstep.call_or_moves (reachable_wf hs) with ⟨c, k, r, hm, ⟨env, hr⟩, rfl⟩ | hmoves
  · intro i arg hmem
    have hthread : ∃ t r', s.threads i = some t ∧ t.prog = .ret r' ∧ r'.arg = arg := by
      rcases List.mem_append.mp hmem with hmem | hmem
      · exact ih i arg hmem
      · -- the join that is answered now
        obtain ⟨rfl, hresp⟩ := Event.mk.inj (List.mem_singleton.mp hmem)
        obtain rfl := eq_of_heq hresp
        obtain ⟨r', hres, rfl⟩ := Option.map_eq_some_iff.mp hr
        obtain ⟨t, ht, hp⟩ := Option.bind_eq_some_iff.mp hres
        exact ⟨t, r', ht, result?_eq_some.mp hp, rfl⟩
    obtain ⟨t, r', ht, hp, hr'⟩ := hthread
    obtain ⟨u, hu, hprog⟩ := effect_prog (s := s) (r := r) (fun i run st hc => by
      subst hc
      exact reachable_start hs hmain hm) ht
    exact ⟨u, r', hu, hprog.trans hp, hr'⟩
  · intro i arg hmem
    rw [hmoves.mainTrace_eq] at hmem
    obtain ⟨t, r, ht, hp, hr⟩ := ih i arg hmem
    obtain ⟨u, hu, hmove⟩ := hmoves.exists_after ht
    exact ⟨u, r, hu, hmove.returned hp, hr⟩

section Benchmark

variable {cfg : VmopsBenchCfg} {memobjs : ℕ → PlatMemobj} {f : RunFn}
  {s : System (ℤ × (ℕ → VmopsBenchRunArg))} {args : ℕ → VmopsBenchRunArg}

/-- **A run that has come to its end** has joined all its threads, and has their argument
records. -/
theorem reachable_returned
    (hs : Reachable (vmopsUtilsRunBenchmark cfg.corelistSize (filledArgs cfg memobjs) f) s)
    (hr : s.main = .ret (0, args)) {i : ℕ} (hi : i < cfg.corelistSize.toNat) :
    ∃ t r, s.threads i = some t ∧ t.prog = .ret r ∧ r.arg = args i ∧
      Run (platThreadRunFn f (fillArg cfg (memobjs i) i)) t.trace (.ret r) := by
  have hrun : Run (vmopsUtilsRunBenchmark cfg.corelistSize (filledArgs cfg memobjs) f)
      s.mainTrace (.ret (0, args)) := hr ▸ (reachable_wf hs).main_run
  have hjoin := (of_run hrun wp_runBenchmark_joined rfl).1 i hi
  obtain ⟨t, r, ht, hp, harg⟩ := reachable_joined hs runBenchmark_runsAll i (args i) hjoin
  obtain ⟨-, hthread⟩ := reachable_fillArg hs ht
  rw [hp] at hthread
  exact ⟨t, r, ht, hp, harg, hthread⟩

/-- The records in them. -/
theorem reachable_leavesRecords
    (hs : Reachable (vmopsUtilsRunBenchmark cfg.corelistSize (filledArgs cfg memobjs) f) s)
    (hr : s.main = .ret (0, args)) {i : ℕ} (hi : i < cfg.corelistSize.toNat) :
    ∃ t r, s.threads i = some t ∧ r.arg = args i ∧
      LeavesRecords (fillArg cfg (memobjs i) i) cfg (fillArg cfg (memobjs i) i).stats.values r
        t.trace := by
  obtain ⟨t, r, ht, -, harg, hthread⟩ := reachable_returned hs hr hi
  exact ⟨t, r, ht, harg, leavesRecords hthread ⟨inOrder_fillArg cfg (memobjs i) i, nofun⟩⟩

/-- The core that a thread is started on. -/
abbrev startedOn (cfg : VmopsBenchCfg) (memobjs : ℕ → PlatMemobj) (i : ℕ) : BitVec 32 :=
  (filledArgs cfg memobjs i).coreid

/-- Without a thread nothing is printed: the first argument record is the sentinel, and has no
samples. -/
theorem latencies_noThreads (hn : cfg.corelistSize.toNat = 0)
    (hs : Reachable (vmopsUtilsRunBenchmark cfg.corelistSize (filledArgs cfg memobjs) f) s)
    (hr : s.main = .ret (0, args)) (samples : ℕ → StatVal) :
    (vmopsUtilsPrintCsv args samples).latencies = [] := by
  have hrun : Run (vmopsUtilsRunBenchmark cfg.corelistSize (filledArgs cfg memobjs) f)
      s.mainTrace (.ret (0, args)) := hr ▸ (reachable_wf hs).main_run
  have hzero : args 0 = filledArgs cfg memobjs 0 :=
    (of_run hrun wp_runBenchmark_joined rfl).2 0 hn.le
  have hnone : printedSlots args = [] := by
    rw [printedSlots, hzero]
    simp [filledArgs, hn, zeroArg]
  simp [vmopsUtilsPrintCsv, hnone]

/-- **What `vmops_utils_print_csv` finds** after a run. -/
theorem latencies_reachable
    (hs : Reachable (vmopsUtilsRunBenchmark cfg.corelistSize (filledArgs cfg memobjs) f) s)
    (hr : s.main = .ret (0, args))
    (hclock : ∀ i t, s.threads i = some t → ClockAdvances t.trace)
    (hsize : cfg.stats.toNat * cfg.corelistSize.toNat < 2 ^ 32)
    {stores : List (ℕ × SizeT × StatVal)}
    (hstores : Interleaves args cfg.corelistSize.toNat stores) :
    (vmopsUtilsPrintCsv args (sampleBlock args stores)).latencies =
      ((threadRecords cfg args).filter fun x => x.2.val ≠ 0).map fun x =>
        latencyRow cfg (BitVec.ofNat 32 x.1) (startedOn cfg memobjs x.1) x.2 := by
  rcases Nat.eq_zero_or_pos cfg.corelistSize.toNat with hn | hn
  · rw [latencies_noThreads hn hs hr, threadRecords, hn]
    rfl
  · have hleaves := fun i (hi : i < cfg.corelistSize.toNat) => reachable_leavesRecords hs hr hi
    have hall : AllInOrder cfg memobjs args := by
      intro i hi
      obtain ⟨t, r, -, harg, -, hrec⟩ := hleaves i hi
      exact harg ▸ hrec.inOrder
    refine latencies_eq_filter hsize ?_ hn hall hstores (fun i hi c hc => ?_) fun i hi => ?_
    · obtain ⟨t, r, -, harg, hcfg, -⟩ := hleaves 0 hn
      rw [← harg, hcfg]
      rfl
    · obtain ⟨t, r, ht, harg, -, hrec⟩ := hleaves i hi
      obtain ⟨htid, hle⟩ := hrec.of_thread c (harg ▸ hc)
      exact ⟨htid, hle (hclock i t ht)⟩
    · have harg : filledArgs cfg memobjs i = fillArg cfg (memobjs i) i := if_pos hi
      have hlt : i < 2 ^ 32 := lt_trans hi cfg.corelistSize.isLt
      rw [startedOn, harg, coreAt, BitVec.toNat_ofNat, Nat.mod_eq_of_lt hlt]
      rfl

/-- **Every record of a run is shown by a row, and there are no other rows**, exactly if no record
has latency zero, and the threads with records and the cores they were started on are below
`2 ^ 31`. -/
theorem printsRecords_iff
    (hs : Reachable (vmopsUtilsRunBenchmark cfg.corelistSize (filledArgs cfg memobjs) f) s)
    (hr : s.main = .ret (0, args))
    (hclock : ∀ i t, s.threads i = some t → ClockAdvances t.trace)
    (hsize : cfg.stats.toNat * cfg.corelistSize.toNat < 2 ^ 32)
    {stores : List (ℕ × SizeT × StatVal)}
    (hstores : Interleaves args cfg.corelistSize.toNat stores) :
    ShowsRecords cfg (startedOn cfg memobjs) args
        (vmopsUtilsPrintCsv args (sampleBlock args stores)).latencies ↔
      ∀ i < cfg.corelistSize.toNat, ∀ c ∈ (args i).stats.recorded,
        c.val ≠ 0 ∧ i < 2 ^ 31 ∧ (startedOn cfg memobjs i).toNat < 2 ^ 31 :=
  showsRecords_iff (latencies_reachable hs hr hclock hsize hstores)

end Benchmark

/-! ### Two runs -/

/-- One thread with room for one sample, and one operation after the dry runs. -/
def oneSample : VmopsBenchCfg := { oneThread with stats := 1, nops := 11 }

/-- Its benchmark. -/
abbrev sampleBenchmark : Prog mainSig (ℤ × (ℕ → VmopsBenchRunArg)) :=
  vmopsUtilsRunBenchmark oneSample.corelistSize (filledArgs oneSample fun _ => 1) .mapunmap

/-- The steps of a run of it, when the clock reads `τ j` after the first `j` operations. -/
def sampledRun (τ : ℕ → PlatTime) : List Label :=
  let go := Label.main (MainCall.succeed (zeroArg oneSample))
  let at' := fun j => Label.thread 0 fun
    | .getTime => τ j
    | c => ThreadCall.succeed c
  let turns := (List.range 11).flatMap fun j => List.replicate 4 (at' (j + 1))
  [go, go, at' 0, at' 0, .openBarrier, at' 0] ++ turns ++
    [at' 11, at' 11, at' 11, .openBarrier, go, go]

/-- The only record of such a run, in the state at its end. -/
def recordsOnly (val : PlatTime) (s : System (ℤ × (ℕ → VmopsBenchRunArg))) : Bool :=
  s.value?.any (fun r => r.1 = 0 && (r.2 0).stats.recorded.map StatVal.val = [val]) &&
    (s.threads 0).all fun t => (clockReadings t.trace).Pairwise fun t t' => t ≤ t'

/-- The stores of a thread, when it is the only one. -/
theorem interleaves_one (args : ℕ → VmopsBenchRunArg) :
    Interleaves args 1 ((args 0).stats.writes.reverse.map fun x => (0, x)) := by
  refine ⟨fun x hx => ?_, fun i hi => ?_⟩
  · obtain ⟨y, -, rfl⟩ := List.mem_map.mp hx
    exact Nat.one_pos
  · obtain rfl : i = 0 := Nat.lt_one_iff.mp hi
    rw [List.filter_eq_self.mpr, List.map_map]
    · exact List.map_id _
    · intro x hx
      obtain ⟨y, -, rfl⟩ := List.mem_map.mp hx
      simp

/-- A run of one thread with one record. -/
theorem exists_recordsOnly (val : PlatTime) (τ : ℕ → PlatTime)
    (h : ((init sampleBenchmark).exec
      (sampledRun τ)).any (fun s => decide (recordsOnly val s = true)) = true) :
    ∃ s args, Reachable sampleBenchmark s ∧
      s.main = .ret (0, args) ∧ (∀ i t, s.threads i = some t → ClockAdvances t.trace) ∧
      ∃ c, (args 0).stats.recorded = [c] ∧ c.val = val := by
  obtain ⟨s, hs, hrec⟩ := exists_reachable_of_exec (P := fun s => recordsOnly val s = true) _ h
  obtain ⟨hvalue, hclock⟩ := Bool.and_eq_true_iff.mp hrec
  obtain ⟨⟨r, args⟩, hr, hrec⟩ := (Option.any_eq_true _ _).mp hvalue
  obtain ⟨hzero, hval⟩ := Bool.and_eq_true_iff.mp hrec
  obtain rfl : r = 0 := of_decide_eq_true hzero
  obtain ⟨c, hc, hval⟩ := List.map_eq_singleton_iff.mp (of_decide_eq_true hval)
  refine ⟨s, args, hs, value?_eq_some.mp hr, fun i t ht => ?_, c, hc, hval⟩
  obtain ⟨hi, -⟩ := reachable_fillArg hs ht
  obtain rfl : i = 0 := Nat.lt_one_iff.mp hi
  rw [ht] at hclock
  rw [ClockAdvances]
  exact of_decide_eq_true hclock

/-- The operation takes a nanosecond, and its record is shown. -/
theorem printsRecords_oneSample :
    ∃ s args, Reachable sampleBenchmark s ∧
      s.main = .ret (0, args) ∧ (args 0).stats.recorded ≠ [] ∧ ∃ stores, Interleaves args 1 stores ∧
        ShowsRecords oneSample (startedOn oneSample fun _ => 1) args
          (vmopsUtilsPrintCsv args (sampleBlock args stores)).latencies := by
  obtain ⟨s, args, hs, hr, hclock, c, hc, hval⟩ :=
    exists_recordsOnly 1 (fun j => BitVec.ofNat 64 j) (by decide)
  have hstores := interleaves_one args
  refine ⟨s, args, hs, hr, by simp [hc], _, hstores,
    (printsRecords_iff hs hr hclock (by decide) hstores).mpr fun i hi d hd => ?_⟩
  obtain rfl : i = 0 := Nat.lt_one_iff.mp hi
  rw [hc] at hd
  obtain rfl := List.mem_singleton.mp hd
  rw [hval]
  decide

/-- The clock stands still, and there is no row for the record. -/
theorem record_not_printed :
    ∃ s args, Reachable sampleBenchmark s ∧
      s.main = .ret (0, args) ∧ (∀ i t, s.threads i = some t → ClockAdvances t.trace) ∧
      ∃ stores, Interleaves args 1 stores ∧
        ¬ShowsRecords oneSample (startedOn oneSample fun _ => 1) args
          (vmopsUtilsPrintCsv args (sampleBlock args stores)).latencies := by
  obtain ⟨s, args, hs, hr, hclock, c, hc, hval⟩ :=
    exists_recordsOnly 0 (fun _ => 0) (by decide)
  have hstores := interleaves_one args
  refine ⟨s, args, hs, hr, hclock, _, hstores, fun hshows => ?_⟩
  have hrows := latencies_reachable hs hr hclock (by decide) hstores
  have hmem : c ∈ (args 0).stats.recorded := by simp [hc]
  exact ((showsRecords_iff hrows).mp hshows 0 (by decide) c hmem).1 hval

end System

end VmopsBench

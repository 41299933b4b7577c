import VmopsBench.Driver.Console
import VmopsBench.Driver.Script
import VmopsBench.Text.Expect

/-!
# The results of the driver script

After `run_barrelfish.py` has started the machine it waits for marks on the console, and appends
what is between them to its files (`VmopsBench.harvest`). The marks are those of the tables, which
are written in any case, but the tables themselves may go to files.

With a number of operations the script gives the option `-o`, which is the file for the throughput
table. So the script finds nothing between the marks, and its file for the throughput gets an empty
line, unless the program could not open that file and has fallen back on the standard output. With a
duration the table comes through, and so does the latency table, which is only asked for with a
number of operations: `VmopsBench.harvest_iff`.
-/

namespace VmopsBench

open Interact Expect Lines Words

/-! ### The script -/

/-- `CSV_ROW_BEGIN`. -/
def csvRowBegin : List Char := "===================== BEGIN CSV =====================".toList

/-- `CSV_ROW_END`. -/
def csvRowEnd : List Char := "====================== END CSV ======================".toList

/-- The text that is waited for before the latency table. -/
def statsRowBegin : List Char := "====================== BEGIN STATS ======================".toList

/-- The text that is waited for after the latency table. -/
def statsRowEnd : List Char := "====================== END STATS ======================".toList

/-- What comes after the first two texts that are waited for. -/
def booted (console : List Char) : Option (List Char) := do
  let found ← expect "Checking HUGEPAGE availability".toList console
  let found ← expect "KVM is -enable-kvm".toList found.2
  return found.2

/-- What is between two texts that are waited for, and what comes after them. -/
def between (first last console : List Char) : Option (List Char × List Char) := do
  let found ← expect first console
  expect last found.2

/-- What is appended to the files of the script. -/
structure Harvest where
  csvthpt : List Char
  csvlat : List Char

/-- **What `run_barrelfish` does with the console.** A text that does not come ends the script by an
exception. -/
def harvest (args : ScriptArgs) (console : List Char) : Harvest :=
  match (booted console).bind (between csvRowBegin csvRowEnd) with
  | none => ⟨[], []⟩
  | some (results, console) =>
    { csvthpt := strip results ++ ['\n']
      csvlat :=
        if args.nops ≠ -1 then
          match between statsRowBegin statsRowEnd console with
          | none => []
          | some (results, _) => strip results ++ ['\n']
        else [] }

/-! ### Between the marks -/

/-- What comes later does not matter for the boot. -/
theorem booted_append {boot log : List Char} (h : booted boot = some log) (rest : List Char) :
    booted (boot ++ rest) = some (log ++ rest) := by
  obtain ⟨found, hfound, h⟩ := Option.bind_eq_some_iff.mp h
  obtain ⟨found', hfound', h⟩ := Option.bind_eq_some_iff.mp h
  obtain rfl := Option.some.inj h
  rw [booted, expect_append hfound]
  show (expect _ (found.2 ++ rest)).bind _ = _
  rw [expect_append hfound']
  rfl

/-- **A text between two marks is found.** -/
theorem between_eq {first last before inner : List Char} (hfirst : Ends first before)
    (hlast : Ends last inner) (rest : List Char) :
    between first last (before ++ (first ++ (inner ++ (last ++ rest)))) = some (inner, rest) := by
  rw [between, expect_of_ends hfirst]
  exact expect_of_ends hlast rest

/-- The lines of a table are between the marks, or nothing is. -/
def inTable (out : OutFile) (ls : List (List Char)) : List Char :=
  onTerminal ('\n' :: onConsole out (unlines ls))

/-- No mark is found in a table. -/
theorem ends_inTable {out : OutFile} {ls : List (List Char)} (h : ∀ l ∈ ls, '=' ∉ l)
    (mark : List Char) : Ends ('=' :: mark) (inTable out ls) := by
  refine ends_of_notMem fun hc => ?_
  rcases mem_onTerminal hc with hc | hc
  · cases hc
  · rcases List.mem_cons.mp hc with hc | hc
    · cases hc
    · cases out with
      | opened file => cases hc
      | stdout =>
        obtain ⟨l, hl, hc⟩ := List.mem_flatMap.mp hc
        rcases List.mem_append.mp hc with hc | hc
        · exact h l hl hc
        · cases List.mem_singleton.mp hc

section Harvested

variable {toMs : PlatTime → ℚ} {cfg : VmopsBenchCfg} {recs : ℕ → VmopsBenchRunArg}
  {samples : ℕ → StatVal} {thptout latout : OutFile} {boot log : List Char}

/-- The lines of the throughput table. -/
def csvLines (cfg : VmopsBenchCfg) (recs : ℕ → VmopsBenchRunArg) : List (List Char) :=
  [','].intercalate columns :: (List.range cfg.corelistSize.toNat).map (csvText cfg recs)

/-- The lines of the latency table. -/
def statsLines (toMs : PlatTime → ℚ) (cfg : VmopsBenchCfg) (cs : List StatVal) :
    List (List Char) :=
  [','].intercalate latencyColumns :: cs.map (statsText toMs cfg)

/-- What comes over the terminal after the throughput table. -/
def afterCsv (toMs : PlatTime → ℚ) (latout : OutFile) (cfg : VmopsBenchCfg)
    (recs : ℕ → VmopsBenchRunArg) (samples : ℕ → StatVal) : List Char :=
  onTerminal ['\n'] ++ if printsStats recs then
    statsRowBegin ++ (inTable latout (statsLines toMs cfg (shownSamples recs samples)) ++
      (statsRowEnd ++ onTerminal ['\n']))
  else []

/-- A table as it comes over the terminal. -/
theorem onTerminal_table {first last : List Char} (hfirst : '\n' ∉ first) (hlast : '\n' ∉ last)
    (out : OutFile) (ls : List (List Char)) :
    onTerminal (first ++ ['\n'] ++ onConsole out (unlines ls) ++ (last ++ ['\n'])) =
      first ++ (inTable out ls ++ (last ++ onTerminal ['\n'])) := by
  have htable : inTable out ls = onTerminal ['\n'] ++ onTerminal (onConsole out (unlines ls)) := by
    rw [← onTerminal_append]
    rfl
  rw [onTerminal_append, onTerminal_append, onTerminal_append, onTerminal_append,
    onTerminal_of_notMem hfirst, onTerminal_of_notMem hlast, htable]
  simp only [List.append_assoc]

/-- **The tables as they come over the terminal.** -/
theorem onTerminal_printedTables (hcfg : (recs 0).cfg = cfg) :
    onTerminal (printedTables toMs thptout latout recs samples) =
      csvRowBegin ++ (inTable thptout (csvLines cfg recs) ++
        (csvRowEnd ++ afterCsv toMs latout cfg recs samples)) := by
  have hbegin : csvBegin = csvRowBegin ++ ['\n'] := by decide
  have hend : csvEnd = csvRowEnd ++ ['\n'] := by decide
  have hbegin' : statsBegin = statsRowBegin ++ ['\n'] := by decide
  have hend' : statsEnd = statsRowEnd ++ ['\n'] := by decide
  rw [printedTables, csvRows_eq samples hcfg, statsRows_eq samples hcfg, csvHeader_eq,
    latencyHeader_eq, header_append_flatten, header_append_flatten, afterCsv, onTerminal_append,
    hbegin, hend, onTerminal_table (by decide) (by decide)]
  split
  · rw [hbegin', hend', onTerminal_table (by decide) (by decide)]
    simp only [List.append_assoc]
    rfl
  · simp only [List.append_assoc]
    rfl

/-- **The file for the throughput** gets what is between its marks. -/
theorem csvthpt_harvest (args : ScriptArgs) (hcfg : (recs 0).cfg = cfg)
    (hbenchmark : ∀ c ∈ cfg.benchmark, isFieldChar c = true) (hboot : booted boot = some log)
    (hends : Ends csvRowBegin log) (rest : List Char) :
    (harvest args (boot ++ (onTerminal (printedTables toMs thptout latout recs samples) ++
      rest))).csvthpt = strip (inTable thptout (csvLines cfg recs)) ++ ['\n'] := by
  have hinner : Ends csvRowEnd (inTable thptout (csvLines cfg recs)) :=
    ends_inTable (fun l hl => (isRow_csvLines hbenchmark l hl).no_equals) _
  rw [harvest, booted_append hboot, onTerminal_printedTables hcfg]
  simp only [Option.bind_some, List.append_assoc, between_eq hends hinner]

/-- **The file for the latency** gets what is between its marks, if it is asked for and there. -/
theorem csvlat_harvest (args : ScriptArgs) (hcfg : (recs 0).cfg = cfg)
    (hbenchmark : ∀ c ∈ cfg.benchmark, isFieldChar c = true) (hboot : booted boot = some log)
    (hends : Ends csvRowBegin log) (rest : List Char) (hnops : args.nops ≠ -1)
    (hstats : printsStats recs = true) :
    (harvest args (boot ++ (onTerminal (printedTables toMs thptout latout recs samples) ++
      rest))).csvlat =
        strip (inTable latout (statsLines toMs cfg (shownSamples recs samples))) ++ ['\n'] := by
  have hinner : Ends csvRowEnd (inTable thptout (csvLines cfg recs)) :=
    ends_inTable (fun l hl => (isRow_csvLines hbenchmark l hl).no_equals) _
  have hinner' : Ends statsRowEnd
      (inTable latout (statsLines toMs cfg (shownSamples recs samples))) :=
    ends_inTable (fun l hl => (isRow_statsLines samples hbenchmark l hl).no_equals) _
  have hbetween : Ends statsRowBegin (onTerminal ['\n']) := ends_of_notMem (by decide)
  rw [harvest, booted_append hboot, onTerminal_printedTables hcfg]
  simp only [Option.bind_some, List.append_assoc, between_eq hends hinner, afterCsv, hstats,
    if_true, if_pos hnops, between_eq hbetween hinner']

end Harvested

/-! ### A run of the program -/

/-- A benchmark that is chosen and whose options are accepted is made of letters and digits. -/
theorem isFieldChar_of_selected {benchmark opts : List Char} {b : Benchmark}
    {cfg cfg' : VmopsBenchCfg} (hselect : selectBenchmark benchmark = some (b, opts))
    (hparse : vmopsUtilsParseOptions opts cfg = some cfg') :
    ∀ c ∈ benchmark, isFieldChar c = true := by
  obtain rfl := selectBenchmark_eq_some_iff.mp hselect
  obtain ⟨ts, rfl, -, -⟩ := vmopsUtilsParseOptions_eq_some_iff.mp hparse
  have hname : b.name.all isFieldChar = true := by
    cases b <;> decide
  have htoken : ∀ t : OptionToken, t.text.all isFieldChar = true := by
    rintro (_ | _ | _ | _) <;> decide
  intro c hc
  rcases List.mem_append.mp hc with hc | hc
  · exact List.all_eq_true.mp hname c hc
  · obtain ⟨token, -, hc⟩ := List.mem_flatMap.mp hc
    exact List.all_eq_true.mp (htoken token) c hc

/-- **The cores have been settled**, by the user or by the platform. Nothing else has changed. -/
def CoresSettled (s s' : MainVars) : Prop :=
  ∃ ncores coreslist n,
    s' = { s with ncores := ncores, cfg.coreslist := coreslist, cfg.corelistSize := n }

/-- On Linux the program settles the cores. -/
theorem coresSettled_selectCores (junk : ℕ → BitVec 32) (s : MainVars) :
    wp (recording numaSig) (selectCores junk s)
      (fun o _ => ∀ s', o = .ok s' → CoresSettled s s') [] := by
  rw [selectCores]
  split
  · exact fun s' h => by cases h
  · split
    · refine (wp_bind _ _).mpr (wp_mono _ (fun o g _ => ?_) (wp_recording_extends _ _))
      cases o with
      | error err => exact fun s' h => by cases h
      | ok cids =>
        rintro _ ⟨⟩
        exact ⟨_, _, _, rfl⟩
    · rintro _ ⟨⟩
      exact ⟨s.ncores, s.cfg.coreslist, s.cfg.corelistSize, rfl⟩

/-- **What a thread leaves in its record**, whatever a tick of its clock is: the configuration and
the slots that it was given, and samples that name it. -/
structure LeavesOwn (arg left : VmopsBenchRunArg) : Prop where
  cfg_eq : left.cfg = arg.cfg
  values_eq : left.stats.values = arg.stats.values
  of_thread : ∀ c ∈ left.stats.recorded, c.tid = arg.tid

/-- **A command line has been run to its report**: the threads have left `recs`, and have recorded
their samples by `stores`. What they have counted and measured, and how long they took, may be
anything. -/
inductive ReportOf (posix : Bool) (argv : List (List Char)) (trOptions : List (Event optionSig)) :
    MainVars → VmopsBenchCfg → (ℕ → VmopsBenchRunArg) → List (ℕ × SizeT × StatVal) → Prop where
  | intro {tr : List (Event mainSig)} {s s' : MainVars} {b : Benchmark} {opts : List Char}
      {cfg₀ cfg : VmopsBenchCfg} {args recs : ℕ → VmopsBenchRunArg}
      {stores : List (ℕ × SizeT × StatVal)}
      (hoptions : Run (getoptLoop posix argv) trOptions (.ret (.ok s)))
      (hcores : CoresSettled s s')
      (hselect : selectBenchmark (adjust s'.cfg).benchmark = some (b, opts))
      (hparse : vmopsUtilsParseOptions opts (b.set (adjust s'.cfg)) = some cfg₀)
      (hprepare : Run (vmopsUtilsPrepareArgs cfg₀) tr (.ret (some (cfg, args))))
      (hleft : ∀ i < cfg.corelistSize.toNat, LeavesOwn (args i) (recs i))
      (hstores : Interleaves recs cfg.corelistSize.toNat stores) :
      ReportOf posix argv trOptions s' cfg recs stores

/-- **The threads of a benchmark leave their own**, in every run that has joined them. -/
theorem leavesOwn_of_reachable {cfg₀ cfg : VmopsBenchCfg} {args recs : ℕ → VmopsBenchRunArg}
    {tr : List (Event mainSig)} {f : RunFn} {sys : System (ℤ × (ℕ → VmopsBenchRunArg))}
    (hprepare : Run (vmopsUtilsPrepareArgs cfg₀) tr (.ret (some (cfg, args))))
    (hsys : System.Reachable (vmopsUtilsRunBenchmark cfg.corelistSize args f) sys)
    (hmain : sys.main = .ret (0, recs)) {i : ℕ} (hi : i < cfg.corelistSize.toNat) :
    LeavesOwn (args i) (recs i) := by
  obtain ⟨⟨memobjs, hargs⟩, -⟩ := of_run hprepare (prepareArgs_filled _) _ rfl
  obtain rfl : _ = filledArgs cfg memobjs := hargs
  obtain ⟨t, r, -, harg, hcfg, hrec⟩ := System.reachable_leavesRecords hsys hmain hi
  have hfilled : filledArgs cfg memobjs i = fillArg cfg (memobjs i) i := if_pos hi
  rw [hfilled, ← harg]
  exact ⟨hcfg, hrec.inOrder.values_eq, fun c hc => (hrec.of_thread c hc).1⟩

section Report

variable {posix : Bool} {argv : List (List Char)} {trOptions : List (Event optionSig)}
  {s : MainVars} {cfg : VmopsBenchCfg} {recs : ℕ → VmopsBenchRunArg}
  {stores : List (ℕ × SizeT × StatVal)}

/-- The benchmark that is printed is the one that was chosen. -/
theorem ReportOf.benchmark (h : ReportOf posix argv trOptions s cfg recs stores) :
    ∀ c ∈ cfg.benchmark, isFieldChar c = true := by
  obtain ⟨-, -, hselect, hparse, hprepare, -⟩ := h
  have hchars := isFieldChar_of_selected hselect hparse
  rw [benchmark_of_prepareArgs hprepare]
  obtain ⟨ts, -, -, rfl⟩ := vmopsUtilsParseOptions_eq_some_iff.mp hparse
  rw [configured, Benchmark.set_eq]
  exact hchars

/-- What a slot holds that has a row was recorded by a thread. -/
theorem mem_allRecorded_of_shown (hstores : Interleaves recs cfg.corelistSize.toNat stores)
    {c : StatVal} (hc : c ∈ shownSamples recs (sampleBlock recs stores)) :
    c ∈ allRecorded cfg recs := by
  obtain ⟨hprinted, hnonzero⟩ := List.mem_filter.mp hc
  obtain ⟨k, -, rfl⟩ := List.mem_map.mp hprinted
  rw [sampleBlock_eq_filled] at hnonzero ⊢
  rcases Filling.filled_eq_or_mem (stores.map fun x => (slotOf recs x, x.2.2)) (fun _ => zeroStat)
    k with hzero | hmem
  · rw [hzero] at hnonzero
    cases hnonzero
  · obtain ⟨x, hx, heq⟩ := List.mem_map.mp hmem
    obtain ⟨-, hval⟩ := Prod.mk.inj heq
    rw [← hval]
    exact (stores_perm hstores).mem_iff.mp (List.mem_map_of_mem hx)

/-- **What the tables are printed from**: the configuration, and samples that name their threads. -/
theorem ReportOf.printed (h : ReportOf posix argv trOptions s cfg recs stores)
    (hn : 0 < cfg.corelistSize.toNat) : (recs 0).cfg = cfg ∧
      (cfg.stats ≠ 0 → printsStats recs = true) ∧
      ∀ c ∈ shownSamples recs (sampleBlock recs stores), c.tid < cfg.corelistSize := by
  obtain ⟨-, -, -, -, hprepare, hleft, hstores⟩ := h
  obtain ⟨⟨memobjs, hargs⟩, -⟩ := of_run hprepare (prepareArgs_filled _) _ rfl
  obtain rfl : _ = filledArgs cfg memobjs := hargs
  have hown : ∀ i < cfg.corelistSize.toNat, LeavesOwn (fillArg cfg (memobjs i) i) (recs i) := by
    intro i hi
    have hfilled : filledArgs cfg memobjs i = fillArg cfg (memobjs i) i := if_pos hi
    exact hfilled ▸ hleft i hi
  have hcfg : (recs 0).cfg = cfg := (hown 0 hn).cfg_eq
  refine ⟨hcfg, fun hstats => ?_, fun c hc => ?_⟩
  · rw [printsStats, hcfg, (hown 0 hn).values_eq, values_fillArg hstats, decide_eq_true hstats]
    rfl
  · obtain ⟨i, hi, hrecorded⟩ := List.mem_flatMap.mp (mem_allRecorded_of_shown hstores hc)
    have hi := List.mem_range.mp hi
    have htid : c.tid = BitVec.ofNat 32 i := (hown i hi).of_thread c hrecorded
    rw [htid, BitVec.lt_def, BitVec.toNat_ofNat]
    exact (Nat.mod_le _ _).trans_lt hi

end Report

/-! ### The files that the script asks for -/

/-- A file that could not be opened. -/
abbrev fopenFailed (path : List Char) : Event optionSig := ⟨OptionCall.fopen path, none⟩

section Files

variable {args : ScriptArgs} {posix : Bool} {s : MainVars}

/-- **Where the tables go**: the throughput to a file whose name is the number of operations, if
there is one and it could be opened. -/
theorem outFiles_of_script (hprog : RunsVmops args) (hword : Word isBlank args.benchmark)
    {tr : List (Event optionSig)}
    (hrun : Run (getoptLoop posix (words isBlank (runBarrelfish args).2)) tr (.ret (.ok s))) :
    s.latout = .stdout ∧
      (s.thptout = .stdout ↔ args.nops = -1 ∨ fopenFailed (formatInt args.nops) ∈ tr) := by
  by_cases hnops : args.nops = -1
  · rw [getoptLoop_of_time posix hprog hnops hword] at hrun
    have hvars : s = timedVars args :=
      of_run (Q := fun r _ => ∀ s, r = .ok s → s = timedVars args) hrun (by rintro s ⟨⟩; rfl) s rfl
    rw [hvars]
    exact ⟨rfl, iff_of_true rfl (.inl hnops)⟩
  · have hargs : ∀ w ∈ (countedOptions args).map Prod.snd, Word isBlank w := by
      simp only [countedOptions, List.map_cons, List.map_nil, List.forall_mem_cons]
      exact ⟨word_formatInt _, word_formatInt _, word_formatInt _, by decide, hword,
        word_mem args, fun _ h => by cases h⟩
    have hwp : wp (recording optionSig) (getoptLoop posix (words isBlank (runBarrelfish args).2))
        (fun r g => ∀ s, r = .ok s → s.latout = .stdout ∧
          (s.thptout = .stdout ↔ fopenFailed (formatInt args.nops) ∈ g)) [] := by
      rw [params_of_nops hprog hnops, getoptLoop_words (countedOptions args) rfl hargs]
      refine And.intro trivial fun file _ => ?_
      cases file with
      | none =>
        rintro s ⟨⟩
        exact ⟨rfl, iff_of_true rfl List.mem_cons_self⟩
      | some file =>
        rintro s ⟨⟩
        refine ⟨rfl, iff_of_false (fun h => by cases h) fun hmem => ?_⟩
        cases List.mem_singleton.mp hmem
    obtain ⟨hlat, hthpt⟩ := of_run hrun hwp s rfl
    exact ⟨hlat, by rw [hthpt, or_iff_right hnops]⟩

end Files

/-- **What arrives in the files of the script.** In the file for the throughput there is what the
threads have counted, if and only if no number of operations was given, or the file that goes by
that name could not be opened, and the cores are numbers below `2 ^ 31`. If a number of operations
was given, the samples are in the file for the latency, if and only if their cores are.

Times are converted by `bench_tsc_to_us` on the machine of the script, so the conversion is a
parameter, and nothing is assumed of what the threads have measured. A time is read to the nearest
unit of what it has been converted to. -/
theorem harvest_iff {args : ScriptArgs} {posix : Bool} {trOptions : List (Event optionSig)}
    {s : MainVars} {cfg : VmopsBenchCfg} {recs : ℕ → VmopsBenchRunArg}
    {stores : List (ℕ × SizeT × StatVal)} {boot log : List Char} (hprog : RunsVmops args)
    (hword : Word isBlank args.benchmark)
    (h : ReportOf posix (words isBlank (runBarrelfish args).2) trOptions s cfg recs stores)
    (hn : 0 < cfg.corelistSize.toNat) (hboot : booted boot = some log)
    (hends : Ends csvRowBegin log) {toMs : PlatTime → ℚ} (hms : ∀ t, 0 ≤ toMs t)
    (rest : List Char) :
    let files := harvest args (boot ++ (onTerminal (printedTables toMs s.thptout s.latout recs
      (sampleBlock recs stores)) ++ rest))
    (readTable csvHeader readCsv files.csvthpt = some (csvRecords cfg recs) ↔
      (args.nops = -1 ∨ fopenFailed (formatInt args.nops) ∈ trOptions) ∧
        cfg.corelistSize.toNat < 2 ^ 31 ∧
        ∀ i < cfg.corelistSize.toNat, (coreAt cfg (BitVec.ofNat 32 i)).toNat < 2 ^ 31) ∧
    (args.nops ≠ -1 → cfg.stats ≠ 0 → (readTable latencyHeader readLatency files.csvlat =
      some (latencyRecords toMs cfg (shownSamples recs (sampleBlock recs stores))) ↔
        ∀ c ∈ shownSamples recs (sampleBlock recs stores),
          (coreAt cfg c.tid).toNat < 2 ^ 31 ∧ cfg.corelistSize.toNat < 2 ^ 31)) := by
  have hbenchmark := h.benchmark
  obtain ⟨hcfg, hstats, htid⟩ := h.printed hn
  have hfiles : s.latout = .stdout ∧
      (s.thptout = .stdout ↔ args.nops = -1 ∨ fopenFailed (formatInt args.nops) ∈ trOptions) := by
    obtain ⟨hoptions, ⟨ncores, coreslist, n, rfl⟩, -⟩ := h
    have hopened := outFiles_of_script hprog hword hoptions
    exact hopened
  refine ⟨?_, fun hnops hpos => ?_⟩
  · rw [csvthpt_harvest args hcfg hbenchmark hboot hends, ← hfiles.2]
    cases hout : s.thptout with
    | opened file =>
      have hnone : readTable csvHeader readCsv (strip (onTerminal ['\n']) ++ ['\n']) = none :=
        readTable_empty (by decide +kernel)
      refine iff_of_false (fun hread => ?_) fun hread => by cases hread.1
      rw [inTable, onConsole, hnone] at hread
      cases hread
    | stdout =>
      rw [and_iff_right rfl]
      exact readTable_csv_iff hbenchmark hn
  · rw [csvlat_harvest args hcfg hbenchmark hboot hends rest hnops (hstats hpos), hfiles.1]
    exact readTable_stats_iff _ hbenchmark hms htid

/-! ### A run of the script -/

/-- One core, and eleven operations. -/
def elevenCounted : ScriptArgs := ⟨1, "mapunmap".toList, 11, -1⟩

/-- What the options set, when the file `11` has been opened. -/
def elevenVars (file : Addr) : MainVars :=
  { initVars with ncores := 1, cfg.stats := 11, cfg.rate := 0, thptout := .opened file }

/-- The configuration, with core `0`. -/
def elevenCfg : VmopsBenchCfg :=
  configured [] (adjust { initVars.cfg with
    stats := 11, rate := 0, coreslist := [0], corelistSize := 1 })

theorem run_getoptLoop_elevenCounted (file : Addr) :
    Run (getoptLoop false (words isBlank (runBarrelfish elevenCounted).2))
      [⟨.fopen "11".toList, some file⟩] (.ret (.ok (elevenVars file))) := by
  have hargs : ∀ w ∈ (countedOptions elevenCounted).map Prod.snd, Word isBlank w := by decide
  rw [params_of_nops ⟨by decide, by decide⟩ (by decide),
    getoptLoop_words (countedOptions elevenCounted) rfl hargs]
  exact Run.call (S := optionSig) (c := OptionCall.fopen "11".toList) (some file) (Run.nil _)

/-- What a preparation without failures comes to. -/
def prepared (cfg : VmopsBenchCfg) : Option (VmopsBenchCfg × (ℕ → VmopsBenchRunArg)) :=
  match (follow (MainCall.succeed (zeroArg cfg)) 200 (vmopsUtilsPrepareArgs cfg)).2 with
  | .ret o => o
  | _ => none

theorem run_prepared {cfg : VmopsBenchCfg} {p : VmopsBenchCfg × (ℕ → VmopsBenchRunArg)}
    (h : prepared cfg = some p) : ∃ tr, Run (vmopsUtilsPrepareArgs cfg) tr (.ret (some p)) := by
  have hrun := run_follow (MainCall.succeed (zeroArg cfg)) 200 (vmopsUtilsPrepareArgs cfg)
  rw [prepared] at h
  split at h
  · next hr =>
    rw [hr, h] at hrun
    exact ⟨_, hrun⟩
  · cases h

/-- The steps of the run, in which the last operation takes until the time is over. -/
def elevenLabels : List System.Label :=
  let go := System.Label.main (MainCall.succeed (zeroArg elevenCfg))
  let at' := fun j => System.Label.thread 0 fun
    | .getTime => if j = 11 then 20000000 else BitVec.ofNat 64 j
    | c => ThreadCall.succeed c
  let turns := (List.range 11).flatMap fun j => List.replicate 4 (at' (j + 1))
  [go, go, at' 0, at' 0, .openBarrier, at' 0] ++ turns ++
    [at' 11, at' 11, at' 11, .openBarrier, go, go]

/-- The prepared benchmark runs to its end on core `0`. -/
def runsToEnd (p : VmopsBenchCfg × (ℕ → VmopsBenchRunArg)) : Bool :=
  p.1.coreslist = [0] && p.1.corelistSize = 1 && p.1.stats = 11 &&
    ((System.init (vmopsUtilsRunBenchmark p.1.corelistSize p.2
      (Benchmark.mapunmap.choose p.1))).exec elevenLabels).any
        fun s => s.value?.any fun r => r.1 = 0

set_option maxRecDepth 4000 in
theorem runsToEnd_prepared : (prepared elevenCfg).any runsToEnd = true := by decide

/-- `plat_time_to_ms` of `barrelfish.c`, with a counter that has `1000` ticks to the microsecond. -/
def tscToMs (time : PlatTime) : ℚ := Double.round ((time.toNat / 1000 : ℕ) / 1000)

/-- **The throughput is lost, and the samples arrive.** -/
theorem harvest_iff_elevenCounted : ∃ trOptions s cfg recs stores boot,
    ReportOf false (words isBlank (runBarrelfish elevenCounted).2) trOptions s cfg recs stores ∧
    (booted boot).isSome = true ∧
    let files := harvest elevenCounted (boot ++ (onTerminal (printedTables tscToMs s.thptout
      s.latout recs (sampleBlock recs stores)) ++ []))
    readTable csvHeader readCsv files.csvthpt ≠ some (csvRecords cfg recs) ∧
      readTable latencyHeader readLatency files.csvlat =
        some (latencyRecords tscToMs cfg (shownSamples recs (sampleBlock recs stores))) := by
  obtain ⟨⟨cfg, args⟩, hp, hruns⟩ := (Option.any_eq_true _ _).mp runsToEnd_prepared
  simp only [runsToEnd, Bool.and_eq_true, decide_eq_true_eq] at hruns
  obtain ⟨⟨⟨hlist, hsize⟩, hstats⟩, hexec⟩ := hruns
  obtain ⟨tr, hprepare⟩ := run_prepared hp
  obtain ⟨sys, hsys, hvalue⟩ := System.exists_reachable_of_exec
    (P := fun s : System (ℤ × (ℕ → VmopsBenchRunArg)) => (s.value?.any fun r => r.1 = 0) = true)
    elevenLabels (by simpa using hexec)
  obtain ⟨⟨r, recs⟩, hr, hzero⟩ := (Option.any_eq_true _ _).mp hvalue
  obtain rfl : r = 0 := of_decide_eq_true hzero
  have hn : cfg.corelistSize.toNat = 1 := by rw [hsize]; rfl
  have hreport : ReportOf false (words isBlank (runBarrelfish elevenCounted).2) _ _ cfg recs _ :=
    .intro (run_getoptLoop_elevenCounted 1) ⟨1, [0], 1, rfl⟩ rfl rfl hprepare
      (fun i hi => leavesOwn_of_reachable hprepare hsys (System.value?_eq_some.mp hr) hi)
      (by rw [hn]; exact System.interleaves_one recs)
  have hboot : booted "Checking HUGEPAGE availabilityKVM is -enable-kvm".toList = some [] := by
    decide
  obtain ⟨hcsv, hlat⟩ := harvest_iff ⟨by decide, by decide⟩ (by decide) hreport (by omega) hboot
    (ends_of_notMem List.not_mem_nil) (fun _ => Double.round_nonneg _) []
  refine ⟨_, _, cfg, recs, _, _, hreport, Option.isSome_of_eq_some hboot, fun hread => ?_,
    (hlat (by decide) ?_).mpr fun c hc => ?_⟩
  · -- the file `11` was opened
    obtain ⟨hnops | hfailed, -⟩ := hcsv.mp hread
    · cases hnops
    · cases List.mem_singleton.mp hfailed
  · rw [hstats]
    decide
  · have hcore : ∀ k : ℕ, ([0] : List (BitVec 32)).getD k 0 = 0 := by
      rintro (_ | k) <;> rfl
    rw [coreAt, hlist, hn, hcore]
    decide

end VmopsBench

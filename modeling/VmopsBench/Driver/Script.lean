import VmopsBench.Driver.CommandLine
import VmopsBench.Text.Words

/-!
# The driver script for Barrelfish

`run_barrelfish.py` writes the command line of the program into the boot menu. It is put together
here as the script does (`VmopsBench.runBarrelfish`), cut at blanks, and read by the `getopt` loop
of `main`; `VmopsBench.Configures` says that what was asked of the script is then in the
configuration.

The script asks for a number of operations with `-o`, which `main` takes for the name of a file; the
option it means is `-n`. So nothing that asks for operations arrives, and what asks for a duration
does as long as the numbers fit into 32 bits and the name of the benchmark is a word
(`VmopsBench.configures_iff`).
-/

namespace VmopsBench

open Interact Getopt Numeral Words

/-! ### The script -/

/-- The arguments of the script that the command line is made from. -/
structure ScriptArgs where
  cores : ℤ
  benchmark : List Char
  /-- `-1` if it was not given. -/
  nops : ℤ
  /-- `-1` if it was not given. -/
  time : ℤ

/-- An integer as `format` writes it. -/
def formatInt : ℤ → List Char
  | .ofNat n => Nat.toDigits 10 n
  | .negSucc n => '-' :: Nat.toDigits 10 (n + 1)

/-- `bench_arg`. -/
def benchArg (args : ScriptArgs) : List Char :=
  if args.nops ≠ -1 then
    "-o ".toList ++ formatInt args.nops ++ " -s ".toList ++ formatInt args.nops ++ " -r 0".toList
  else if args.time ≠ -1 then "-t ".toList ++ formatInt args.time
  else "-t 4000".toList

/-- `args.benchmark.startswith("elevate")`. -/
def isElevate (args : ScriptArgs) : Bool := "elevate".toList.isPrefixOf args.benchmark

/-- `mem`. -/
def mem (args : ScriptArgs) : List Char :=
  if isElevate args then "40960000".toList else "4096".toList

/-- **`bin` and `params`** of `run_barrelfish`. -/
def runBarrelfish (args : ScriptArgs) : List Char × List Char :=
  if args.benchmark = "capopsbench".toList then
    (args.benchmark, "mgmt ".toList ++ formatInt args.cores)
  else if args.benchmark = "capopsbenchmsg".toList then
    (args.benchmark, "mgmt ".toList ++ formatInt args.cores)
  else ("vmops_array_mcn".toList,
    "-p ".toList ++ formatInt args.cores ++ " ".toList ++ benchArg args ++ " -b ".toList ++
      args.benchmark ++ " -m ".toList ++ mem args)

/-! ### What was asked for -/

/-- The amount of memory that `mem` is meant to be. -/
def chosenMem (args : ScriptArgs) : ℕ := if isElevate args then 40960000 else 4096

/-- **The configuration is the one that was asked of the script.** -/
structure Agrees (args : ScriptArgs) (s : MainVars) : Prop where
  ncores : (s.ncores.toNat : ℤ) = args.cores
  memsize : s.cfg.memsize.toNat = chosenMem args
  benchmark : s.cfg.benchmark = args.benchmark
  ofNops : args.nops ≠ -1 → (s.cfg.nops.toNat : ℤ) = args.nops ∧ s.cfg.timeMs = 0 ∧
    (s.cfg.stats.toNat : ℤ) = args.nops ∧ s.cfg.rate = 0
  ofTime : args.nops = -1 →
    (s.cfg.timeMs.toNat : ℤ) = if args.time ≠ -1 then args.time else 4000

/-- `isblank`. -/
def isBlank (c : Char) : Bool := c = ' ' || c = '\t'

/-- **Script and program agree**: on what the script has written the loop can come to its end, and
however its calls are answered, it ends with the configuration that was asked for. -/
def Configures (posix : Bool) (args : ScriptArgs) : Prop :=
  let loop := getoptLoop posix (words isBlank (runBarrelfish args).2)
  (∃ tr s, Run loop tr (.ret (.ok s))) ∧
    ∀ tr r, Run loop tr (.ret r) → ∃ s, r = .ok s ∧ Agrees args s

/-! ### The words of the command line -/

variable {args : ScriptArgs} {posix : Bool}

theorem formatInt_natCast (n : ℕ) : formatInt n = Nat.toDigits 10 n := rfl

theorem not_isBlank_of_isDigit {c : Char} (h : c.isDigit = true) : isBlank c = false := by
  cases hblank : isBlank c with
  | false => rfl
  | true =>
    simp only [isBlank, Bool.or_eq_true, decide_eq_true_eq] at hblank
    rcases hblank with rfl | rfl <;> cases h

theorem word_toDigits (n : ℕ) : Word isBlank (Nat.toDigits 10 n) where
  ne_nil := Nat.toDigits_ne_nil
  separatorFree _ hc :=
    not_isBlank_of_isDigit (Nat.isDigit_of_mem_toDigits (by decide) (by decide) hc)

theorem word_formatInt (n : ℤ) : Word isBlank (formatInt n) := by
  cases n with
  | ofNat n => exact word_toDigits n
  | negSucc n =>
    refine ⟨List.cons_ne_nil _ _, fun c hc => ?_⟩
    rcases List.mem_cons.mp hc with rfl | hc
    · rfl
    · exact (word_toDigits (n + 1)).separatorFree c hc

/-- The script runs this program: the benchmark is none of those with a program of their own. -/
structure RunsVmops (args : ScriptArgs) : Prop where
  capopsbench : args.benchmark ≠ "capopsbench".toList
  capopsbenchmsg : args.benchmark ≠ "capopsbenchmsg".toList

/-- The milliseconds that are asked for when no number of operations was given. -/
def timeArg (args : ScriptArgs) : ℤ := if args.time ≠ -1 then args.time else 4000

theorem word_mem (args : ScriptArgs) : Word isBlank (mem args) := by
  rw [mem]
  split <;> decide

/-- The options, if no number of operations was given. -/
def timedOptions (args : ScriptArgs) : List (Char × List Char) :=
  [('p', formatInt args.cores), ('t', formatInt (timeArg args)), ('b', args.benchmark),
    ('m', mem args)]

/-- The options, if a number of operations was given. -/
def countedOptions (args : ScriptArgs) : List (Char × List Char) :=
  [('p', formatInt args.cores), ('o', formatInt args.nops), ('s', formatInt args.nops),
    ('r', ['0']), ('b', args.benchmark), ('m', mem args)]

theorem params_of_time (hprog : RunsVmops args) (hnops : args.nops = -1) :
    (runBarrelfish args).2 = unwords ' ' (optionWords (timedOptions args)) := by
  have hdefault : formatInt 4000 = "4000".toList := by decide
  rw [runBarrelfish, if_neg hprog.capopsbench, if_neg hprog.capopsbenchmsg, benchArg,
    if_neg (not_not.mpr hnops), timedOptions, timeArg]
  split <;> simp [unwords, optionWords, hdefault]

theorem params_of_nops (hprog : RunsVmops args) (hnops : args.nops ≠ -1) :
    (runBarrelfish args).2 = unwords ' ' (optionWords (countedOptions args)) := by
  rw [runBarrelfish, if_neg hprog.capopsbench, if_neg hprog.capopsbenchmsg, benchArg,
    if_pos hnops, countedOptions]
  simp [unwords, optionWords]

/-! ### What the program makes of them -/

/-- An option that takes an argument, and that a command line can be cut around. -/
def isPlainOption (c : Char) : Bool := takesArg optstring c = some true && c != '-' && !isBlank c

theorem isPlainOption_iff {c : Char} : isPlainOption c = true ↔
    takesArg optstring c = some true ∧ c ≠ '-' ∧ isBlank c = false := by
  simp only [isPlainOption, Bool.and_eq_true, decide_eq_true_eq, bne_iff_ne, Bool.not_eq_true',
    and_assoc]

/-- **A command line of options whose arguments are words** is read as these options. -/
theorem getoptLoop_words (opts : List (Char × List Char))
    (hletters : (opts.map Prod.fst).all isPlainOption = true)
    (hargs : ∀ w ∈ opts.map Prod.snd, Word isBlank w) :
    getoptLoop posix (words isBlank (unwords ' ' (optionWords opts))) =
      optionLoop initVars (opts.map fun o => .withArg o.1 o.2) := by
  have hplain := fun c hc => isPlainOption_iff.mp (List.all_eq_true.mp hletters c hc)
  have hwords : ∀ w ∈ optionWords opts, Word isBlank w := by
    intro w hw
    obtain ⟨o, ho, hw⟩ := List.mem_flatMap.mp hw
    rcases List.mem_pair.mp hw with rfl | rfl
    · refine ⟨List.cons_ne_nil _ _, fun c hc => ?_⟩
      rcases List.mem_pair.mp hc with rfl | rfl
      · rfl
      · exact (hplain _ (List.mem_map_of_mem ho)).2.2
    · exact hargs _ (List.mem_map_of_mem ho)
  rw [getoptLoop, words_unwords rfl hwords,
    getopts_optionWords opts fun c hc => ⟨(hplain c hc).1, (hplain c hc).2.1⟩]

/-- What the options set, if no number of operations was given. -/
def timedVars (args : ScriptArgs) : MainVars :=
  { initVars with
    ncores := (strtoul 64 (formatInt args.cores)).setWidth 32
    cfg.timeMs := (strtoul 64 (formatInt (timeArg args))).setWidth 32
    cfg.benchmark := args.benchmark
    cfg.memsize := strtoul 64 (mem args) }

/-- **The loop, if no number of operations was given**, makes no call. -/
theorem getoptLoop_of_time (posix : Bool) (hprog : RunsVmops args) (hnops : args.nops = -1)
    (hword : Word isBlank args.benchmark) :
    getoptLoop posix (words isBlank (runBarrelfish args).2) = .ret (.ok (timedVars args)) := by
  have hargs : ∀ w ∈ (timedOptions args).map Prod.snd, Word isBlank w := by
    simp only [timedOptions, List.map_cons, List.map_nil, List.forall_mem_cons]
    exact ⟨word_formatInt _, word_formatInt _, hword, word_mem args, fun _ h => by cases h⟩
  rw [params_of_time hprog hnops, getoptLoop_words (timedOptions args) rfl hargs]
  rfl

/-- **The loop, if a number of operations was given**, opens a file. The duration is still the one
from the beginning. -/
theorem timeMs_of_nops (posix : Bool) (hprog : RunsVmops args) (hnops : args.nops ≠ -1)
    (hword : Word isBlank args.benchmark) :
    wp (recording optionSig) (getoptLoop posix (words isBlank (runBarrelfish args).2))
      (fun r _ => ∀ s, r = .ok s → s.cfg.timeMs = 10) [] := by
  have hargs : ∀ w ∈ (countedOptions args).map Prod.snd, Word isBlank w := by
    simp only [countedOptions, List.map_cons, List.map_nil, List.forall_mem_cons]
    exact ⟨word_formatInt _, word_formatInt _, word_formatInt _, by decide, hword,
      word_mem args, fun _ h => by cases h⟩
  rw [params_of_nops hprog hnops, getoptLoop_words (countedOptions args) rfl hargs]
  -- the one call is that of `fopen`
  refine And.intro trivial fun file _ => ?_
  cases file <;>
  · rintro s ⟨⟩
    rfl

/-! ### When they agree -/

/-- A benchmark that has arrived is a word. -/
theorem word_of_configures (h : Configures posix args) : Word isBlank args.benchmark := by
  obtain ⟨⟨tr, s, hrun⟩, hagrees⟩ := h
  obtain ⟨_, heq, hs⟩ := hagrees tr _ hrun
  obtain rfl := Except.ok.inj heq
  rw [← hs.benchmark]
  rcases of_run hrun (benchmark_of_optionLoop _ _ []) s rfl with hinit | hmem
  · rw [hinit]
    decide
  · obtain ⟨hne, arg, harg, hsuffix⟩ :=
      optarg_of_mem_getopts (fun _ harg => (word_of_mem_words harg).ne_nil) hmem
    exact (word_of_mem_words harg).of_suffix hne hsuffix

/-- **A number of operations does not arrive.** -/
theorem not_configures_of_nops (hprog : RunsVmops args) (hnops : args.nops ≠ -1) :
    ¬Configures posix args := by
  intro h
  have hten := timeMs_of_nops posix hprog hnops (word_of_configures h)
  obtain ⟨⟨tr, s, hrun⟩, hagrees⟩ := h
  obtain ⟨_, heq, hs⟩ := hagrees tr _ hrun
  obtain rfl := Except.ok.inj heq
  have hzero := (hs.ofNops hnops).2.1
  rw [of_run hrun hten s rfl] at hzero
  exact absurd hzero (by decide)

/-- A number that was written by `format` and read into 32 bits. -/
theorem toNat_strtoul_formatInt {n : ℤ} (h : 0 ≤ n) (hn : n < 2 ^ 32) :
    (((strtoul 64 (formatInt n)).setWidth 32 : BitVec 32).toNat : ℤ) = n := by
  obtain ⟨m, rfl⟩ := Int.eq_ofNat_of_zero_le h
  have hm : m < 2 ^ 32 := by omega
  rw [formatInt_natCast, (toNat_setWidth_strtoul_iff (by decide) m).mpr hm]

/-- What was read into 32 bits is less than `2 ^ 32`. -/
theorem lt_of_toNat_eq {v : BitVec 32} {n : ℤ} (h : (v.toNat : ℤ) = n) : n < 2 ^ 32 := by
  have hv := v.isLt
  omega

theorem toNat_strtoul_mem (args : ScriptArgs) : (strtoul 64 (mem args)).toNat = chosenMem args := by
  rw [mem, chosenMem]
  split <;> decide

/-- **A duration arrives**, and so does the rest, if the numbers fit. -/
theorem agrees_timedVars (hnops : args.nops = -1) (hcores : 0 ≤ args.cores)
    (hlt : args.cores < 2 ^ 32) (htime : 0 ≤ timeArg args) (hlt' : timeArg args < 2 ^ 32) :
    Agrees args (timedVars args) where
  ncores := toNat_strtoul_formatInt hcores hlt
  memsize := toNat_strtoul_mem args
  benchmark := rfl
  ofNops h := absurd hnops h
  ofTime _ := toNat_strtoul_formatInt htime hlt'

/-- **Script and program agree exactly** if no number of operations was given, the other
numbers fit into 32 bits, and the benchmark is a word. -/
theorem configures_iff (posix : Bool) (args : ScriptArgs) (hcores : 1 ≤ args.cores)
    (htime : args.time = -1 ∨ 0 ≤ args.time) (hprog : RunsVmops args) :
    Configures posix args ↔
      args.nops = -1 ∧ args.cores < 2 ^ 32 ∧ args.time < 2 ^ 32 ∧ Word isBlank args.benchmark := by
  constructor
  · intro h
    have hnone : args.nops = -1 := by
      by_contra hgiven
      exact not_configures_of_nops hprog hgiven h
    have hword := word_of_configures h
    obtain ⟨⟨tr, s, hrun⟩, hagrees⟩ := h
    obtain ⟨s, -, hs⟩ := hagrees tr _ hrun
    have hms := lt_of_toNat_eq (hs.ofTime hnone)
    refine ⟨hnone, lt_of_toNat_eq hs.ncores, ?_, hword⟩
    split at hms <;> omega
  · rintro ⟨hnone, hlt, hlt', hword⟩
    have hms : 0 ≤ timeArg args ∧ timeArg args < 2 ^ 32 := by
      rw [timeArg]
      split <;> omega
    have hloop := getoptLoop_of_time posix hprog hnone hword
    refine ⟨⟨[], timedVars args, hloop ▸ Run.nil _⟩, fun tr r hrun => ⟨timedVars args, ?_, ?_⟩⟩
    · rw [hloop] at hrun
      exact of_run (Q := fun r _ => r = .ok (timedVars args)) hrun rfl
    · exact agrees_timedVars hnone (by omega) hlt hms.1 hms.2

/-- Three cores, for four seconds. -/
theorem configures_mapunmap : Configures false ⟨3, "mapunmap-isolated".toList, -1, -1⟩ :=
  (configures_iff false _ (by decide) (.inl rfl) ⟨by decide, by decide⟩).mpr
    ⟨rfl, by decide, by decide, by decide⟩

/-- Three cores, 2000 operations each: the file is called `2000`. -/
theorem not_configures_operations :
    ¬Configures false ⟨3, "mapunmap-isolated".toList, 2000, -1⟩ :=
  not_configures_of_nops ⟨by decide, by decide⟩ (by decide)

end VmopsBench

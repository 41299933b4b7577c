import VmopsBench.Benchmarks.Options
import VmopsBench.Benchmarks.Report
import VmopsBench.Concurrent.Launch
import VmopsBench.Driver.CoresList
import VmopsBench.Driver.Main
import VmopsBench.Text.Printf

/-!
# Reading the rows back

The header of the throughput table, the format string of its rows and their arguments are three
sequences in the source. Here a row is the text that `printf` makes of the last two
(`VmopsBench.csvLine`), and it is read through the first one: a value is looked up by the name of
its column (`VmopsBench.column`).

The benchmark is what the user has typed, but a benchmark that is run has a name that `main` knows
and options that are accepted, and there is no comma in these
(`VmopsBench.no_comma_of_selected`). So the row has a field for each column. The thread, the core
and the number of cores are unsigned words that are printed with `%d`, and from `2 ^ 31` on they
have a minus; hence `VmopsBench.readsBack_iff`.
-/

namespace VmopsBench

open Interact Printf Tokens

/-! ### What is printed -/

/-- The line of `LOG_CSV_HEADER`. -/
def csvHeader : List Char :=
  ("thread_id,benchmark,core,ncores,memsize,numainterleave,mappings_size,page_" ++
    "size,memobj,isolation,duration,operations\n").toList

/-- The format string of `LOG_CSV`. -/
def csvFormat : List Char := "%d,%s,%d,%d,%zu,%s,%s,%s,%s,%s,%.3f,%zu\n".toList

/-- The arguments of `LOG_CSV` after the format string. -/
def ThptRow.printfArgs (row : ThptRow) : List (Arg ℚ) :=
  [.int row.threadId, .string row.benchmark, .int row.core, .int row.ncores, .size row.memsize,
    .string row.numainterleave, .string row.mappingsSize, .string row.pageSize,
    .string row.memobj, .string row.isolation, .double row.duration, .size row.operations]

/-- **The line of `LOG_CSV`.** -/
def csvLine (fixed3 : ℚ → List Char) (cfg : VmopsBenchCfg) (t : BitVec 32) (d : ℚ)
    (tpt : SizeT) : Option (List Char) :=
  printf fixed3 csvFormat (logCsv cfg t d tpt).printfArgs

/-! ### How it is read -/

/-- The fields of a line, without the newline at its end. -/
def csvFields (line : List Char) : List (List Char) := fields line.dropLast

/-- **The field in a column** of the table. -/
def column (name : String) (line : List Char) : Option (List Char) :=
  ((csvFields csvHeader).zip (csvFields line)).lookup name.toList

/-- An unsigned decimal number. -/
def readUnsigned (f : List Char) : Option ℕ := if IsNumeral f then some (fieldValue f) else none

/-- One of two keywords. -/
def readKeyword (yes no : String) (f : List Char) : Option Bool :=
  if f = yes.toList then some true else if f = no.toList then some false else none

/-- **What a row says**, except for the duration. -/
structure CsvRecord where
  threadId : ℕ
  benchmark : List Char
  core : ℕ
  ncores : ℕ
  memsize : ℕ
  numainterleave : Bool
  map4k : Bool
  maphuge : Bool
  shared : Bool
  isolated : Bool
  operations : ℕ
  deriving DecidableEq

/-- **A reader of rows.** -/
def readCsv (line : List Char) : Option CsvRecord := do
  let threadId ← column "thread_id" line >>= readUnsigned
  let benchmark ← column "benchmark" line
  let core ← column "core" line >>= readUnsigned
  let ncores ← column "ncores" line >>= readUnsigned
  let memsize ← column "memsize" line >>= readUnsigned
  let numainterleave ← column "numainterleave" line >>= readKeyword "numainterleave" "numafill"
  let map4k ← column "mappings_size" line >>= readKeyword "smallmappings" "onelargemap"
  let maphuge ← column "page_size" line >>= readKeyword "hugepages" "basepages"
  let shared ← column "memobj" line >>= readKeyword "shared-memobj" "independent-memobj"
  let isolated ← column "isolation" line >>= readKeyword "isolated" "default"
  let operations ← column "operations" line >>= readUnsigned
  return { threadId, benchmark, core, ncores, memsize, numainterleave, map4k, maphuge, shared,
           isolated, operations }

/-- What the row of a thread is to say. -/
def csvRecord (cfg : VmopsBenchCfg) (t : BitVec 32) (tpt : SizeT) : CsvRecord where
  threadId := t.toNat
  benchmark := cfg.benchmark
  core := (coreAt cfg t).toNat
  ncores := cfg.corelistSize.toNat
  memsize := cfg.memsize.toNat
  numainterleave := cfg.numainterleave
  map4k := cfg.map4k
  maphuge := cfg.maphuge
  shared := cfg.shared
  isolated := cfg.isolated
  operations := tpt.toNat

/-- **The row can be read back**: it has as many fields as the header, and says what it is to
say. -/
def ReadsBack (fixed3 : ℚ → List Char) (cfg : VmopsBenchCfg) (t : BitVec 32) (d : ℚ)
    (tpt : SizeT) : Prop :=
  ∃ line, csvLine fixed3 cfg t d tpt = some line ∧
    (csvFields line).length = (csvFields csvHeader).length ∧
    readCsv line = some (csvRecord cfg t tpt)

/-! ### Fields -/

theorem isNumeral_toDigits (n : ℕ) : IsNumeral (Nat.toDigits 10 n) :=
  ⟨Nat.toDigits_ne_nil, fun _ hc => Nat.isDigit_of_mem_toDigits (by decide) (by decide) hc⟩

/-- A number that is written in digits is read back. -/
theorem readUnsigned_toDigits (n : ℕ) : readUnsigned (Nat.toDigits 10 n) = some n := by
  rw [readUnsigned, if_pos (isNumeral_toDigits n), fieldValue, Nat.ofDigitChars_ten_toDigits]

/-- **A word that is written with `%d`** is read back if it is below `2 ^ 31`, and otherwise is no
number. -/
theorem readUnsigned_signed (w : BitVec 32) :
    readUnsigned (signed w) = if w.toNat < 2 ^ 31 then some w.toNat else none := by
  split
  · next h => rw [signed_of_lt h, readUnsigned_toDigits]
  · next h =>
    obtain ⟨s, hs⟩ := signed_of_le (Nat.le_of_not_lt h)
    rw [hs, readUnsigned, if_neg]
    intro hnumeral
    have hdigit := hnumeral.2 '-' List.mem_cons_self
    cases hdigit

theorem no_comma_signed (w : BitVec 32) : ',' ∉ signed w := by
  intro hc
  rcases mem_signed hc with h | h <;> cases h

theorem no_comma_unsigned (w : BitVec 64) : ',' ∉ unsigned w := by
  intro hc
  have hdigit := isDigit_of_mem_unsigned hc
  cases hdigit

/-- The fields of a row. -/
def ThptRow.texts (fixed3 : ℚ → List Char) (row : ThptRow) : List (List Char) :=
  [signed row.threadId, row.benchmark, signed row.core, signed row.ncores, unsigned row.memsize,
    row.numainterleave, row.mappingsSize, row.pageSize, row.memobj, row.isolation,
    fixed3 row.duration, unsigned row.operations]

/-- The fields of a line that is made of fields. -/
theorem csvFields_line {fs : List (List Char)} (hne : fs ≠ []) (h : ∀ f ∈ fs, ',' ∉ f) :
    csvFields ([','].intercalate fs ++ ['\n']) = fs := by
  rw [csvFields, List.dropLast_concat, fields_intercalate hne h]

/-- The columns of the table. -/
def columns : List (List Char) :=
  ["thread_id".toList, "benchmark".toList, "core".toList, "ncores".toList, "memsize".toList,
    "numainterleave".toList, "mappings_size".toList, "page_size".toList, "memobj".toList,
    "isolation".toList, "duration".toList, "operations".toList]

theorem csvFields_csvHeader : csvFields csvHeader = columns := by
  have hheader : csvHeader = [','].intercalate columns ++ ['\n'] := by decide +kernel
  rw [hheader]
  exact csvFields_line (List.cons_ne_nil _ _) (by decide)

section Row

variable {fixed3 : ℚ → List Char} {cfg : VmopsBenchCfg} {t : BitVec 32} {d : ℚ} {tpt : SizeT}

/-- The line is the fields with commas between them. -/
theorem csvLine_eq : csvLine fixed3 cfg t d tpt =
    some ([','].intercalate ((logCsv cfg t d tpt).texts fixed3) ++ ['\n']) := by
  generalize hrow : logCsv cfg t d tpt = row
  have hprint : csvLine fixed3 cfg t d tpt = some (signed row.threadId ++ ',' :: (row.benchmark ++
      ',' :: (signed row.core ++ ',' :: (signed row.ncores ++ ',' :: (unsigned row.memsize ++
      ',' :: (row.numainterleave ++ ',' :: (row.mappingsSize ++ ',' :: (row.pageSize ++
      ',' :: (row.memobj ++ ',' :: (row.isolation ++ ',' :: (fixed3 row.duration ++
      ',' :: (unsigned row.operations ++ ['\n'])))))))))))) := by
    rw [csvLine, hrow]
    rfl
  rw [hprint, ThptRow.texts]
  simp [List.intercalate]

/-- There is no comma in a field. -/
theorem no_comma_texts (hfixed : ∀ d, ',' ∉ fixed3 d) (hbenchmark : ',' ∉ cfg.benchmark) :
    ∀ f ∈ (logCsv cfg t d tpt).texts fixed3, ',' ∉ f := by
  have hkeyword : ∀ (b : Bool) {yes no : String}, ',' ∉ yes.toList → ',' ∉ no.toList →
      ',' ∉ (if b then yes else no).toList := by
    rintro (_ | _) yes no hyes hno
    · exact hno
    · exact hyes
  simp only [ThptRow.texts, List.forall_mem_cons]
  refine ⟨no_comma_signed _, hbenchmark, no_comma_signed _, no_comma_signed _,
    no_comma_unsigned _, hkeyword _ (by decide) (by decide), hkeyword _ (by decide) (by decide),
    hkeyword _ (by decide) (by decide), hkeyword _ (by decide) (by decide),
    hkeyword _ (by decide) (by decide), hfixed _, no_comma_unsigned _, nofun⟩

/-- A keyword is read back. -/
theorem readKeyword_ite (b : Bool) {yes no : String} (hne : no ≠ yes) :
    readKeyword yes no (if b then yes else no).toList = some b := by
  cases b with
  | true => rw [if_pos rfl, readKeyword, if_pos rfl]
  | false =>
    rw [if_neg Bool.false_ne_true, readKeyword, if_neg fun h => hne (String.toList_inj.mp h),
      if_pos rfl]

/-- **What the reader finds in the line.** -/
theorem readCsv_eq {line : List Char}
    (hline : csvFields line = (logCsv cfg t d tpt).texts fixed3) :
    readCsv line = if t.toNat < 2 ^ 31 ∧ (coreAt cfg t).toNat < 2 ^ 31 ∧
        cfg.corelistSize.toNat < 2 ^ 31 then some (csvRecord cfg t tpt) else none := by
  have hcolumn : ∀ name, column name line =
      (columns.zip ((logCsv cfg t d tpt).texts fixed3)).lookup name.toList := by
    intro name
    rw [column, csvFields_csvHeader, hline]
  have hthread : column "thread_id" line = some (signed t) := hcolumn _
  have hbenchmark : column "benchmark" line = some cfg.benchmark := hcolumn _
  have hcore : column "core" line = some (signed (coreAt cfg t)) := hcolumn _
  have hncores : column "ncores" line = some (signed cfg.corelistSize) := hcolumn _
  have hmemsize : column "memsize" line = some (unsigned cfg.memsize) := hcolumn _
  have hnuma : column "numainterleave" line = some (numaKeyword cfg) := hcolumn _
  have hmappings : column "mappings_size" line = some (mappingsKeyword cfg) := hcolumn _
  have hpages : column "page_size" line = some (pagesKeyword cfg) := hcolumn _
  have hmemobj : column "memobj" line = some (memobjKeyword cfg) := hcolumn _
  have hisolation : column "isolation" line = some (isolationKeyword cfg) := hcolumn _
  have hoperations : column "operations" line = some (unsigned tpt) := hcolumn _
  rw [readCsv, hthread, hbenchmark, hcore, hncores, hmemsize, hnuma, hmappings, hpages, hmemobj,
    hisolation, hoperations]
  -- only the words that were printed with `%d` are left
  simp (disch := decide) only [Option.bind_eq_bind, Option.bind_some, unsigned,
    readUnsigned_toDigits, readUnsigned_signed, numaKeyword, mappingsKeyword, pagesKeyword,
    memobjKeyword, isolationKeyword, readKeyword_ite]
  by_cases ht : t.toNat < 2 ^ 31
  · by_cases hc : (coreAt cfg t).toNat < 2 ^ 31
    · by_cases hn : cfg.corelistSize.toNat < 2 ^ 31
      · simp only [ht, hc, hn, if_true, and_self, Option.bind_some]
        rfl
      · simp only [ht, hc, hn, if_true, if_false, and_false, Option.bind_some, Option.bind_none]
    · simp only [ht, hc, if_true, if_false, false_and, and_false, Option.bind_some,
        Option.bind_none]
  · simp only [ht, if_false, false_and, Option.bind_none]

/-- **When a row can be read back**, if there is no comma in the benchmark. -/
theorem readsBack_of_no_comma (hfixed : ∀ d, ',' ∉ fixed3 d) (hbenchmark : ',' ∉ cfg.benchmark) :
    ReadsBack fixed3 cfg t d tpt ↔ t.toNat < 2 ^ 31 ∧ (coreAt cfg t).toNat < 2 ^ 31 ∧
      cfg.corelistSize.toNat < 2 ^ 31 := by
  have hfields : csvFields ([','].intercalate ((logCsv cfg t d tpt).texts fixed3) ++ ['\n']) =
      (logCsv cfg t d tpt).texts fixed3 :=
    csvFields_line (List.cons_ne_nil _ _) (no_comma_texts hfixed hbenchmark)
  rw [ReadsBack, csvLine_eq]
  constructor
  · rintro ⟨line, ⟨⟩, -, hread⟩
    rw [readCsv_eq hfields] at hread
    by_contra h
    rw [if_neg h] at hread
    cases hread
  · intro h
    refine ⟨_, rfl, ?_, ?_⟩
    · rw [hfields, csvFields_csvHeader]
      rfl
    · rw [readCsv_eq hfields, if_pos h]

end Row

/-! ### The configurations that come to a report -/

/-- A benchmark that is chosen and whose options are accepted has no comma. -/
theorem no_comma_of_selected {benchmark opts : List Char} {b : Benchmark}
    {cfg cfg' : VmopsBenchCfg} (hselect : selectBenchmark benchmark = some (b, opts))
    (hparse : vmopsUtilsParseOptions opts cfg = some cfg') : ',' ∉ benchmark := by
  obtain rfl := selectBenchmark_eq_some_iff.mp hselect
  obtain ⟨ts, rfl, -, -⟩ := vmopsUtilsParseOptions_eq_some_iff.mp hparse
  intro hc
  rcases List.mem_append.mp hc with hc | hc
  · revert hc
    cases b <;> decide
  · obtain ⟨token, -, hc⟩ := List.mem_flatMap.mp hc
    revert hc
    cases token <;> decide

/-- **A command line comes to its report**: the threads have run with the configuration `cfg`, and
`vmops_utils_print_csv` is next. -/
inductive ComesToReport (posix : Bool) (argv : List (List Char)) :
    VmopsBenchCfg → (ℕ → VmopsBenchRunArg) → Prop where
  | intro {trOptions : List (Event optionSig)} {trCores : List (Event numaSig)}
      {tr tr' : List (Event mainSig)} {junk : ℕ → BitVec 32} {s s' : MainVars} {b : Benchmark}
      {opts : List Char} {cfg₀ cfg : VmopsBenchCfg} {args args' : ℕ → VmopsBenchRunArg}
      (hoptions : Run (getoptLoop posix argv) trOptions (.ret (.ok s)))
      (hcores : Run (selectCores junk s) trCores (.ret (.ok s')))
      (hselect : selectBenchmark (adjust s'.cfg).benchmark = some (b, opts))
      (hparse : vmopsUtilsParseOptions opts (b.set (adjust s'.cfg)) = some cfg₀)
      (hprepare : Run (vmopsUtilsPrepareArgs cfg₀) tr (.ret (some (cfg, args))))
      (hrun : Run (vmopsUtilsRunBenchmark cfg.corelistSize args (b.choose cfg)) tr'
        (.ret (0, args'))) :
      ComesToReport posix argv cfg args'

section Reported

variable {posix : Bool} {argv : List (List Char)} {cfg : VmopsBenchCfg}
  {args : ℕ → VmopsBenchRunArg}

/-- An entry function whose threads have run comes to its report. -/
theorem run_benchEntry_report {choose : VmopsBenchCfg → RunFn} {cfg₀ cfg₁ : VmopsBenchCfg}
    {args' : ℕ → VmopsBenchRunArg} {opts : List Char} {tr tr' : List (Event mainSig)}
    (hparse : vmopsUtilsParseOptions opts cfg₁ = some cfg₀)
    (hprepare : Run (vmopsUtilsPrepareArgs cfg₀) tr (.ret (some (cfg, args))))
    (hrun : Run (vmopsUtilsRunBenchmark cfg.corelistSize args (choose cfg)) tr'
      (.ret (0, args'))) :
    Run (benchEntry choose cfg₁ opts) (tr ++ tr') (do reportAndCleanup cfg args'; return 0) := by
  rw [benchEntry, hparse]
  refine hprepare.bind ?_
  exact hrun.bind_left _

/-- **`main` is at the report**, after the options and the cores. -/
theorem ComesToReport.run (h : ComesToReport posix argv cfg args) :
    ∃ trOptions s junk trCores s' tr,
      Run (getoptLoop posix argv) trOptions (.ret (.ok s)) ∧
      Run (selectCores junk s) trCores (.ret (.ok s')) ∧
      Run (runSelected (adjust s'.cfg)) tr (do reportAndCleanup cfg args; return 0) := by
  obtain ⟨hoptions, hcores, hselect, hparse, hprepare, hrun⟩ := h
  exact ⟨_, _, _, _, _, _, hoptions, hcores,
    runSelected_eq hselect ▸ run_benchEntry_report hparse hprepare hrun⟩

/-- Preparation leaves the benchmark as it is. -/
theorem benchmark_of_prepareArgs {cfg₀ : VmopsBenchCfg} {tr : List (Event mainSig)}
    (hprepare : Run (vmopsUtilsPrepareArgs cfg₀) tr (.ret (some (cfg, args)))) :
    cfg.benchmark = cfg₀.benchmark := by
  have hwp : wp (launching 0 fun _ _ _ => True) (vmopsUtilsPrepareArgs cfg₀) _ _ := wp_prepareArgs
  rcases (wp_run hprepare hwp (launching_admits _ _ _ _)).2.2 _ rfl with rfl | rfl <;> rfl

/-- The benchmark that is printed is the one that was chosen. -/
theorem ComesToReport.no_comma (h : ComesToReport posix argv cfg args) : ',' ∉ cfg.benchmark := by
  obtain ⟨-, -, hselect, hparse, hprepare, -⟩ := h
  rw [benchmark_of_prepareArgs hprepare]
  have hcomma := no_comma_of_selected hselect hparse
  obtain ⟨ts, -, -, rfl⟩ := vmopsUtilsParseOptions_eq_some_iff.mp hparse
  rw [configured, Benchmark.set_eq]
  exact hcomma

/-- **When the rows of a report can be read back.** A row has as many fields as the header, and says
what it is to say, if and only if the core of the thread and the number of cores are below
`2 ^ 31`. -/
theorem readsBack_iff {fixed3 : ℚ → List Char} (hfixed : ∀ d, ',' ∉ fixed3 d)
    (h : ComesToReport posix argv cfg args) {i : BitVec 32} (hi : i < cfg.corelistSize) (d : ℚ)
    (tpt : SizeT) :
    ReadsBack fixed3 cfg i d tpt ↔
      (coreAt cfg i).toNat < 2 ^ 31 ∧ cfg.corelistSize.toNat < 2 ^ 31 := by
  rw [readsBack_of_no_comma hfixed h.no_comma]
  constructor
  · exact And.right
  · intro hbelow
    exact ⟨lt_trans (BitVec.lt_def.mp hi) hbelow.2, hbelow⟩

end Reported

/-! ### Two rows -/

/-- The configuration that the default benchmark is prepared with. -/
def coreCfg (cid : BitVec 32) : VmopsBenchCfg := configured [] (adjust (coreVars cid).cfg)

/-- Preparation has come to an end with the core in the list. -/
def preparedCore (cid : BitVec 32) (o : Option (VmopsBenchCfg × (ℕ → VmopsBenchRunArg))) : Bool :=
  o.any fun p => p.1.corelistSize = 1 && coreAt p.1 0 = cid

/-- **A report for one core**, if the preparation comes to an end. -/
theorem exists_reports {cid : BitVec 32} {tr : List (Event mainSig)}
    {o : Option (VmopsBenchCfg × (ℕ → VmopsBenchRunArg))}
    (hprepare : Run (vmopsUtilsPrepareArgs (coreCfg cid)) tr (.ret o))
    (ho : preparedCore cid o = true) :
    ∃ cfg args, ComesToReport false (Getopt.optionWords [('c', coresText [(0, cid)])]) cfg args ∧
      cfg.corelistSize = 1 ∧ coreAt cfg 0 = cid := by
  have hoptions : Run (getoptLoop false (Getopt.optionWords [('c', coresText [(0, cid)])])) _
      (.ret (.ok (coreVars cid))) := run_optionLoop_core cid []
  have hcores : Run (selectCores (fun _ => 0) (coreVars cid)) [] (.ret (.ok (coreVars cid))) :=
    .nil _
  obtain ⟨⟨cfg, args⟩, rfl, hcfg⟩ := (Option.any_eq_true _ _).mp ho
  obtain ⟨hsize, hcore⟩ := Bool.and_eq_true_iff.mp hcfg
  have hsize : cfg.corelistSize = 1 := of_decide_eq_true hsize
  have hrun : ∃ tr' r, Run (vmopsUtilsRunBenchmark 1 args (Benchmark.mapunmap.choose cfg)) tr'
      (.ret r) ∧ r.1 = 0 := exists_run_of_yields (MainCall.succeed (args 0)) 10 rfl
  obtain ⟨tr', ⟨r, args'⟩, hrun, rfl⟩ := hrun
  rw [← hsize] at hrun
  exact ⟨cfg, args', ⟨hoptions, hcores, rfl, rfl, hprepare, hrun⟩, hsize, of_decide_eq_true hcore⟩

/-- The row of a thread on core `7`. -/
theorem readsBack_core : ∃ cfg args,
    ComesToReport false (Getopt.optionWords [('c', ['7'])]) cfg args ∧
      ReadsBack (fun _ => "0.000".toList) cfg 0 0 5 := by
  have hprepare : ∃ tr o, Run (vmopsUtilsPrepareArgs (coreCfg 7)) tr (.ret o) ∧
      preparedCore 7 o = true :=
    exists_run_of_yields (MainCall.succeed (zeroArg (coreCfg 7))) 200 (by decide)
  obtain ⟨tr, o, hrun, ho⟩ := hprepare
  obtain ⟨cfg, args, hreports, hsize, hcore⟩ := exists_reports hrun ho
  have hfirst : 0 < cfg.corelistSize := by
    rw [hsize]
    decide
  have hreads : ReadsBack (fun _ => "0.000".toList) cfg 0 0 5 ↔ _ :=
    readsBack_iff (fun _ => by decide) hreports hfirst 0 5
  rw [hcore, hsize] at hreads
  exact ⟨cfg, args, hreports, hreads.mpr (by decide)⟩

/-- **The core of a thread is printed as `-1`.** -/
theorem core_not_readsBack : ∃ cfg args,
    ComesToReport false (Getopt.optionWords [('c', "4294967295".toList)]) cfg args ∧
    0 < cfg.corelistSize ∧ coreAt cfg 0 = 4294967295 ∧ signed (coreAt cfg 0) = ['-', '1'] ∧
    ∀ d tpt, ¬ReadsBack (fun _ => "0.000".toList) cfg 0 d tpt := by
  have hprepare : ∃ tr o, Run (vmopsUtilsPrepareArgs (coreCfg 4294967295)) tr (.ret o) ∧
      preparedCore 4294967295 o = true :=
    exists_run_of_yields (MainCall.succeed (zeroArg (coreCfg 4294967295))) 200 (by decide)
  obtain ⟨tr, o, hrun, ho⟩ := hprepare
  obtain ⟨cfg, args, hreports, hsize, hcore⟩ := exists_reports hrun ho
  have htext : coresText [(0, 4294967295)] = "4294967295".toList := by decide
  rw [htext] at hreports
  refine ⟨cfg, args, hreports, ?_, hcore, ?_, fun d tpt hreads => ?_⟩
  · rw [hsize]
    decide
  · rw [hcore]
    decide
  · have hbelow := (readsBack_of_no_comma (fun _ => by decide) hreports.no_comma).mp hreads
    rw [hcore] at hbelow
    exact absurd hbelow.2.1 (by decide)

end VmopsBench

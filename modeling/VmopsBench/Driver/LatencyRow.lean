import VmopsBench.Driver.CsvRow
import VmopsBench.Text.Double

/-!
# Reading the samples back

The rows of the latency table, like those of the throughput table in `VmopsBench.Driver.CsvRow`. Two
of the columns are times in milliseconds, converted by `plat_time_to_ms` and written with `%f`. How
they are converted depends on the platform, so it is a parameter here, and the reader finds the
times to the nearest millionth of a millisecond (`VmopsBench.readLatency_eq`).

On Linux a time is a number of nanoseconds. It is converted to a double and divided, and both steps
round (`VmopsBench.platTimeToDouble`). Below `2 ^ 52` nanoseconds, which are 52 days, the error is
less than half a nanosecond. So nothing of a sample is lost there: a row says the elapsed time and
the latency to the nanosecond, besides the counter and the thread
(`VmopsBench.latencyReadsBack_iff`).
-/

namespace VmopsBench

open Interact Printf Tokens

/-! ### What is printed -/

/-- The line of `LOG_STATS_HEADER`. -/
def latencyHeader : List Char :=
  ("benchmark,core,ncores,memsize,numainterleave,mappings_size,page_" ++
    "size,memobj,isolation,threadid,elapsed,couter,latency\n").toList

/-- The format string of `LOG_STATS`. -/
def latencyFormat : List Char := "%s,%d,%d,%zu,%s,%s,%s,%s,%s,%d,%f,%lu,%f\n".toList

/-- The arguments of `LOG_STATS` after the format string. -/
def LatencyRow.printfArgs (row : LatencyRow) : List (Arg ℚ) :=
  [.string row.benchmark, .int row.core, .int row.ncores, .size row.memsize,
    .string row.numainterleave, .string row.mappingsSize, .string row.pageSize,
    .string row.memobj, .string row.isolation, .int row.threadid, .double row.elapsed,
    .size row.counter, .double row.latency]

/-- A row with its times as they are converted. -/
def LatencyRow.convert (toMs : PlatTime → ℚ) (stat : StatVal) (row : LatencyRow) : LatencyRow :=
  { row with elapsed := toMs stat.tElapsed, latency := toMs stat.val }

/-- **The line of `LOG_STATS`**, if there is one. -/
def latencyLine (toMs : PlatTime → ℚ) (cfg : VmopsBenchCfg) (stat : StatVal) :
    Option (List Char) :=
  (logStats cfg stat).bind fun row => format fixed latencyFormat (row.convert toMs stat).printfArgs

/-! ### How it is read -/

/-- The field in a column of the table. -/
def latencyColumn (name : String) (line : List Char) : Option (List Char) :=
  ((csvFields latencyHeader).zip (csvFields line)).lookup name.toList

/-- **What a row says.** The times are in millionths of a millisecond. -/
structure LatencyRecord where
  benchmark : List Char
  core : ℕ
  ncores : ℕ
  memsize : ℕ
  numainterleave : Bool
  map4k : Bool
  maphuge : Bool
  shared : Bool
  isolated : Bool
  threadId : ℕ
  elapsed : ℕ
  counter : ℕ
  latency : ℕ
  deriving DecidableEq

/-- **A reader of rows.** -/
def readLatency (line : List Char) : Option LatencyRecord := do
  let benchmark ← latencyColumn "benchmark" line
  let core ← latencyColumn "core" line >>= readUnsigned
  let ncores ← latencyColumn "ncores" line >>= readUnsigned
  let memsize ← latencyColumn "memsize" line >>= readUnsigned
  let numainterleave ← latencyColumn "numainterleave" line >>=
    readKeyword "numainterleave" "numafill"
  let map4k ← latencyColumn "mappings_size" line >>= readKeyword "smallmappings" "onelargemap"
  let maphuge ← latencyColumn "page_size" line >>= readKeyword "hugepages" "basepages"
  let shared ← latencyColumn "memobj" line >>= readKeyword "shared-memobj" "independent-memobj"
  let isolated ← latencyColumn "isolation" line >>= readKeyword "isolated" "default"
  let threadId ← latencyColumn "threadid" line >>= readUnsigned
  let elapsed ← latencyColumn "elapsed" line >>= readFixed 6
  let counter ← latencyColumn "couter" line >>= readUnsigned
  let latency ← latencyColumn "latency" line >>= readFixed 6
  return { benchmark, core, ncores, memsize, numainterleave, map4k, maphuge, shared, isolated,
           threadId, elapsed, counter, latency }

/-- What the row of a sample is to say, if a time is to be read as `ns`. -/
def latencyRecord (ns : PlatTime → ℕ) (cfg : VmopsBenchCfg) (stat : StatVal) : LatencyRecord where
  benchmark := cfg.benchmark
  core := (coreAt cfg stat.tid).toNat
  ncores := cfg.corelistSize.toNat
  memsize := cfg.memsize.toNat
  numainterleave := cfg.numainterleave
  map4k := cfg.map4k
  maphuge := cfg.maphuge
  shared := cfg.shared
  isolated := cfg.isolated
  threadId := stat.tid.toNat
  elapsed := ns stat.tElapsed
  counter := stat.counter.toNat
  latency := ns stat.val

/-! ### Times -/

/-- What is read of a converted time. -/
def nearestUnits (toMs : PlatTime → ℚ) (t : PlatTime) : ℕ := nearest (toMs t * 10 ^ 6)

/-- A converted time is read to the nearest unit. -/
theorem readFixed_toMs {toMs : PlatTime → ℚ} (h : ∀ t, 0 ≤ toMs t) (t : PlatTime) :
    readFixed 6 (fixed 6 (toMs t)) = some (nearestUnits toMs t) :=
  readFixed_fixed (by decide) (h t)

/-- `plat_time_to_ms` of `linux.c`, in doubles. -/
def platTimeToDouble (time : PlatTime) : ℚ := Double.round (Double.round time.toNat / 1000000)

theorem platTimeToDouble_nonneg (t : PlatTime) : 0 ≤ platTimeToDouble t := Double.round_nonneg _

/-- **A time of less than 52 days is read to the nanosecond.** -/
theorem nearestUnits_platTimeToDouble {t : PlatTime} (h : t.toNat < 2 ^ 52) :
    nearestUnits platTimeToDouble t = t.toNat := by
  have hexact : platTimeToDouble t = Double.round (t.toNat / 1000000) := by
    rw [platTimeToDouble, Double.round_natCast (h.trans (by decide))]
  have herror : |Double.round (t.toNat / 1000000) - t.toNat / 1000000| ≤
      t.toNat / 1000000 / 2 ^ 53 := Double.abs_round_sub_le_div (by positivity)
  have hlt : (t.toNat : ℚ) < 2 ^ 52 := by exact_mod_cast h
  rw [nearestUnits, hexact]
  refine nearest_eq (mul_nonneg (Double.round_nonneg _) (by norm_num)) ?_
  calc |Double.round (t.toNat / 1000000) * 10 ^ 6 - t.toNat|
      = |(Double.round (t.toNat / 1000000) - t.toNat / 1000000) * 10 ^ 6| := by
        ring_nf
    _ = |Double.round (t.toNat / 1000000) - t.toNat / 1000000| * 10 ^ 6 := by
        rw [abs_mul, abs_of_pos (by norm_num : (0 : ℚ) < 10 ^ 6)]
    _ ≤ t.toNat / 1000000 / 2 ^ 53 * 10 ^ 6 :=
        mul_le_mul_of_nonneg_right herror (by norm_num)
    _ = t.toNat / 2 ^ 53 := by ring
    _ < 1 / 2 := by
        rw [div_lt_iff₀ (by norm_num)]
        linarith

/-- **The row can be read back**, on Linux: it has as many fields as the header, and says what it is
to say, with the times in nanoseconds. -/
def LatencyReadsBack (cfg : VmopsBenchCfg) (stat : StatVal) : Prop :=
  ∃ line, latencyLine platTimeToDouble cfg stat = some line ∧
    (csvFields line).length = (csvFields latencyHeader).length ∧
    readLatency line = some (latencyRecord BitVec.toNat cfg stat)

/-! ### Fields -/

/-- The fields of a row. -/
def LatencyRow.texts (row : LatencyRow) : List (List Char) :=
  [row.benchmark, signed row.core, signed row.ncores, unsigned row.memsize, row.numainterleave,
    row.mappingsSize, row.pageSize, row.memobj, row.isolation, signed row.threadid,
    fixed 6 row.elapsed, unsigned row.counter, fixed 6 row.latency]

/-- The columns of the table. -/
def latencyColumns : List (List Char) :=
  ["benchmark".toList, "core".toList, "ncores".toList, "memsize".toList, "numainterleave".toList,
    "mappings_size".toList, "page_size".toList, "memobj".toList, "isolation".toList,
    "threadid".toList, "elapsed".toList, "couter".toList, "latency".toList]

theorem csvFields_latencyHeader : csvFields latencyHeader = latencyColumns := by
  have hheader : latencyHeader = [','].intercalate latencyColumns ++ ['\n'] := by decide +kernel
  rw [hheader]
  exact csvFields_line (List.cons_ne_nil _ _) (by decide)

/-- There is no comma in a number with decimal places. -/
theorem no_comma_fixed (k : ℕ) (x : ℚ) : ',' ∉ fixed k x := by
  intro hc
  rcases mem_fixed hc with h | h | h <;> cases h

section Row

variable {toMs : PlatTime → ℚ} {cfg : VmopsBenchCfg} {stat : StatVal}

/-- The row of a sample, with its times as they are converted. -/
def convertedRow (toMs : PlatTime → ℚ) (cfg : VmopsBenchCfg) (stat : StatVal) : LatencyRow :=
  (latencyRow cfg stat.tid (coreAt cfg stat.tid) stat).convert toMs stat

/-- The line is the fields with commas between them. -/
theorem format_latencyRow (row : LatencyRow) : format fixed latencyFormat row.printfArgs =
    some ([','].intercalate row.texts ++ ['\n']) := by
  have hprint : format fixed latencyFormat row.printfArgs = some (row.benchmark ++
      ',' :: (signed row.core ++ ',' :: (signed row.ncores ++ ',' :: (unsigned row.memsize ++
      ',' :: (row.numainterleave ++ ',' :: (row.mappingsSize ++ ',' :: (row.pageSize ++
      ',' :: (row.memobj ++ ',' :: (row.isolation ++ ',' :: (signed row.threadid ++
      ',' :: (fixed 6 row.elapsed ++ ',' :: (unsigned row.counter ++
      ',' :: (fixed 6 row.latency ++ ['\n'])))))))))))))  := rfl
  rw [hprint, LatencyRow.texts]
  simp [List.intercalate]

/-- The line of a sample. -/
theorem latencyLine_eq (helapsed : stat.tElapsed ≠ 0) (hval : stat.val ≠ 0) :
    latencyLine toMs cfg stat =
      some ([','].intercalate (convertedRow toMs cfg stat).texts ++ ['\n']) := by
  rw [latencyLine, logStats, if_pos ⟨helapsed, hval⟩, Option.bind_some, format_latencyRow]
  rfl

/-- There is no comma in a field. -/
theorem no_comma_latencyTexts (hbenchmark : ',' ∉ cfg.benchmark) :
    ∀ f ∈ (convertedRow toMs cfg stat).texts, ',' ∉ f := by
  have hkeyword : ∀ (b : Bool) {yes no : String}, ',' ∉ yes.toList → ',' ∉ no.toList →
      ',' ∉ (if b then yes else no).toList := by
    rintro (_ | _) yes no hyes hno
    · exact hno
    · exact hyes
  simp only [LatencyRow.texts, List.forall_mem_cons]
  refine ⟨hbenchmark, no_comma_signed _, no_comma_signed _, no_comma_unsigned _,
    hkeyword _ (by decide) (by decide), hkeyword _ (by decide) (by decide),
    hkeyword _ (by decide) (by decide), hkeyword _ (by decide) (by decide),
    hkeyword _ (by decide) (by decide), no_comma_signed _, no_comma_fixed _ _,
    no_comma_unsigned _, no_comma_fixed _ _, nofun⟩

theorem csvFields_convertedRow (hbenchmark : ',' ∉ cfg.benchmark) :
    csvFields ([','].intercalate (convertedRow toMs cfg stat).texts ++ ['\n']) =
      (convertedRow toMs cfg stat).texts :=
  csvFields_line (List.cons_ne_nil _ _) (no_comma_latencyTexts hbenchmark)

/-- **What the reader finds in the line.** -/
theorem readLatency_eq (hms : ∀ t, 0 ≤ toMs t) {line : List Char}
    (hline : csvFields line = (convertedRow toMs cfg stat).texts) :
    readLatency line = if (coreAt cfg stat.tid).toNat < 2 ^ 31 ∧ cfg.corelistSize.toNat < 2 ^ 31 ∧
        stat.tid.toNat < 2 ^ 31 then some (latencyRecord (nearestUnits toMs) cfg stat)
      else none := by
  have hcolumn : ∀ name, latencyColumn name line =
      (latencyColumns.zip (convertedRow toMs cfg stat).texts).lookup name.toList := by
    intro name
    rw [latencyColumn, csvFields_latencyHeader, hline]
  have hbenchmark : latencyColumn "benchmark" line = some cfg.benchmark := hcolumn _
  have hcore : latencyColumn "core" line = some (signed (coreAt cfg stat.tid)) := hcolumn _
  have hncores : latencyColumn "ncores" line = some (signed cfg.corelistSize) := hcolumn _
  have hmemsize : latencyColumn "memsize" line = some (unsigned cfg.memsize) := hcolumn _
  have hnuma : latencyColumn "numainterleave" line = some (numaKeyword cfg) := hcolumn _
  have hmappings : latencyColumn "mappings_size" line = some (mappingsKeyword cfg) := hcolumn _
  have hpages : latencyColumn "page_size" line = some (pagesKeyword cfg) := hcolumn _
  have hmemobj : latencyColumn "memobj" line = some (memobjKeyword cfg) := hcolumn _
  have hisolation : latencyColumn "isolation" line = some (isolationKeyword cfg) := hcolumn _
  have hthread : latencyColumn "threadid" line = some (signed stat.tid) := hcolumn _
  have helapsed : latencyColumn "elapsed" line = some (fixed 6 (toMs stat.tElapsed)) := hcolumn _
  have hcounter : latencyColumn "couter" line = some (unsigned stat.counter) := hcolumn _
  have hlatency : latencyColumn "latency" line = some (fixed 6 (toMs stat.val)) := hcolumn _
  rw [readLatency, hbenchmark, hcore, hncores, hmemsize, hnuma, hmappings, hpages, hmemobj,
    hisolation, hthread, helapsed, hcounter, hlatency]
  -- only the words that were printed with `%d` are left
  simp (disch := decide) only [Option.bind_eq_bind, Option.bind_some, unsigned,
    readUnsigned_toDigits, readUnsigned_signed, numaKeyword, mappingsKeyword, pagesKeyword,
    memobjKeyword, isolationKeyword, readKeyword_ite, readFixed_toMs hms]
  by_cases hc : (coreAt cfg stat.tid).toNat < 2 ^ 31
  · by_cases hn : cfg.corelistSize.toNat < 2 ^ 31
    · by_cases ht : stat.tid.toNat < 2 ^ 31
      · simp only [hc, hn, ht, if_true, and_self, Option.bind_some]
        rfl
      · simp only [hc, hn, ht, if_true, if_false, and_false, Option.bind_some, Option.bind_none]
    · simp only [hc, hn, if_true, if_false, false_and, and_false, Option.bind_some,
        Option.bind_none]
  · simp only [hc, if_false, false_and, Option.bind_none]

/-- **When a row is read**, if there is no comma in the benchmark. -/
theorem readLatency_iff (hms : ∀ t, 0 ≤ toMs t) (hbenchmark : ',' ∉ cfg.benchmark) :
    readLatency ([','].intercalate (convertedRow toMs cfg stat).texts ++ ['\n']) =
        some (latencyRecord (nearestUnits toMs) cfg stat) ↔
      (coreAt cfg stat.tid).toNat < 2 ^ 31 ∧ cfg.corelistSize.toNat < 2 ^ 31 ∧
        stat.tid.toNat < 2 ^ 31 := by
  rw [readLatency_eq hms (csvFields_convertedRow hbenchmark)]
  split
  · next h => exact iff_of_true rfl h
  · next h => exact iff_of_false (by simp) h

end Row

/-- **When the samples of a report can be read back.** A sample of one of its threads that has a row
can be read back from it to the nanosecond, if and only if the core of the thread and the number of
cores are below `2 ^ 31`. -/
theorem latencyReadsBack_iff {posix : Bool} {argv : List (List Char)} {cfg : VmopsBenchCfg}
    {args : ℕ → VmopsBenchRunArg} (h : ComesToReport posix argv cfg args) {stat : StatVal}
    (htid : stat.tid < cfg.corelistSize) (helapsed : stat.tElapsed ≠ 0) (hval : stat.val ≠ 0)
    (helapsed_lt : stat.tElapsed.toNat < 2 ^ 52) (hval_lt : stat.val.toNat < 2 ^ 52) :
    LatencyReadsBack cfg stat ↔
      (coreAt cfg stat.tid).toNat < 2 ^ 31 ∧ cfg.corelistSize.toNat < 2 ^ 31 := by
  have hrecord : latencyRecord (nearestUnits platTimeToDouble) cfg stat =
      latencyRecord BitVec.toNat cfg stat := by
    simp only [latencyRecord, nearestUnits_platTimeToDouble helapsed_lt,
      nearestUnits_platTimeToDouble hval_lt]
  rw [LatencyReadsBack, latencyLine_eq helapsed hval, ← hrecord]
  have hread : readLatency ([','].intercalate (convertedRow platTimeToDouble cfg stat).texts ++
      ['\n']) = some (latencyRecord (nearestUnits platTimeToDouble) cfg stat) ↔ _ :=
    readLatency_iff platTimeToDouble_nonneg h.no_comma
  constructor
  · rintro ⟨line, ⟨⟩, -, hline⟩
    obtain ⟨hcore, hncores, -⟩ := hread.mp hline
    exact ⟨hcore, hncores⟩
  · rintro ⟨hcore, hncores⟩
    refine ⟨_, rfl, ?_, hread.mpr ⟨hcore, hncores, (BitVec.lt_def.mp htid).trans hncores⟩⟩
    rw [csvFields_convertedRow h.no_comma, csvFields_latencyHeader]
    rfl

/-- A sample of 1234567 nanoseconds on core `7`. -/
theorem latencyReadsBack_core : ∃ cfg args,
    ComesToReport false (Getopt.optionWords [('c', ['7'])]) cfg args ∧
      LatencyReadsBack cfg ⟨0, 2000000001, 11, 1234567⟩ := by
  have hprepare : ∃ tr o, Run (vmopsUtilsPrepareArgs (coreCfg 7)) tr (.ret o) ∧
      preparedCore 7 o = true :=
    exists_run_of_yields (MainCall.succeed (zeroArg (coreCfg 7))) 200 (by decide)
  obtain ⟨tr, o, hrun, ho⟩ := hprepare
  obtain ⟨cfg, args, hreports, hsize, hcore⟩ := exists_reports hrun ho
  have hfirst : 0 < cfg.corelistSize := by
    rw [hsize]
    decide
  have hreads : LatencyReadsBack cfg ⟨0, 2000000001, 11, 1234567⟩ ↔ _ :=
    latencyReadsBack_iff hreports hfirst (by decide) (by decide) (by decide) (by decide)
  rw [hcore, hsize] at hreads
  exact ⟨cfg, args, hreports, hreads.mpr (by decide)⟩

end VmopsBench

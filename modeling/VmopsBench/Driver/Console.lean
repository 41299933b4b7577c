import VmopsBench.Concurrent.MeanLatency
import VmopsBench.Driver.LatencyRow
import VmopsBench.Text.Lines

/-!
# The tables on the console

What `vmops_utils_print_csv` writes, as a text. Each table has a mark before it and one after it,
and these go to the standard error output; the header and the rows go to the standard output, or to
the file that was given for them (`VmopsBench.onConsole`). The standard output is taken to be
written line by line, as it is on a terminal, and the result line, which follows the tables, is left
out.

There are no blanks in a row, and no `=` (`VmopsBench.IsRow`). So a row is what the reader of a
table takes for one (`VmopsBench.readTable_strip`), and none looks like a mark.
-/

namespace VmopsBench

open Interact Printf Lines Words

/-! ### What is written -/

/-- What comes to the console of a text for some stream. -/
def onConsole : OutFile → List Char → List Char
  | .stdout, text => text
  | .opened _, _ => []

/-- The first line of `LOG_CSV_HEADER`. -/
def csvBegin : List Char := "===================== BEGIN CSV =====================\n".toList

/-- `LOG_CSV_FOOTER`. -/
def csvEnd : List Char := "====================== END CSV ======================\n".toList

/-- The first line of `LOG_STATS_HEADER`. -/
def statsBegin : List Char := "====================== BEGIN STATS ======================\n".toList

/-- `LOG_STATS_FOOTER`. -/
def statsEnd : List Char := "====================== END STATS ======================\n".toList

/-- The rows of throughput. -/
def Report.csvRows (r : Report) : List (List Char) :=
  r.throughput.filterMap fun row => format fixed csvFormat row.printfArgs

/-- The rows of latency, one for each slot that `LOG_STATS` does not leave out. -/
def statsRows (toMs : PlatTime → ℚ) (args : ℕ → VmopsBenchRunArg) (samples : ℕ → StatVal) :
    List (List Char) :=
  (printedSamples args samples).filterMap (latencyLine toMs (args 0).cfg)

/-- The condition of the second table. -/
def printsStats (args : ℕ → VmopsBenchRunArg) : Bool :=
  decide ((args 0).cfg.stats ≠ 0) && (args 0).stats.values.isSome

/-- **The tables of `vmops_utils_print_csv`**, as far as they come to the console. Times are
converted by `toMs`. -/
def printedTables (toMs : PlatTime → ℚ) (thptout latout : OutFile) (args : ℕ → VmopsBenchRunArg)
    (samples : ℕ → StatVal) : List Char :=
  csvBegin ++ onConsole thptout (csvHeader ++ (vmopsUtilsPrintCsv args samples).csvRows.flatten) ++
    csvEnd ++
    if printsStats args then
      statsBegin ++ onConsole latout (latencyHeader ++ (statsRows toMs args samples).flatten) ++
        statsEnd
    else []

/-! ### How a table is read -/

/-- **A reader of tables**: the first line is the header, and all the others are rows. -/
def readTable {ρ : Type} (header : List Char) (read : List Char → Option ρ) (text : List Char) :
    Option (List ρ) :=
  match lines text with
  | [] => none
  | l :: ls => if l ++ ['\n'] = header then ls.mapM fun l => read (l ++ ['\n']) else none

/-- All rows are read. -/
theorem mapM_eq_some_iff {α β : Type} {f : α → Option β} {g : α → β} {xs : List α} :
    xs.mapM f = some (xs.map g) ↔ ∀ x ∈ xs, f x = some (g x) := by
  induction xs with
  | nil => simp
  | cons x xs ih =>
    rw [List.forall_mem_cons, ← ih]
    rcases hx : f x with _ | y <;> rcases hxs : xs.mapM f with _ | ys <;>
      simp [List.mapM_cons, hx, hxs]

/-- **What has come over a terminal is read.** -/
theorem readTable_strip {ρ : Type} {header : List Char} {read : List Char → Option ρ}
    {l : List Char} {ls : List (List Char)} (hheader : l ++ ['\n'] = header)
    (hword : ∀ w ∈ l :: ls, Word Lines.isSpace w) :
    readTable header read (strip (onTerminal ('\n' :: unlines (l :: ls))) ++ ['\n']) =
      ls.mapM fun l => read (l ++ ['\n']) := by
  rw [readTable, lines_strip (List.cons_ne_nil _ _) hword]
  exact if_pos hheader

/-- There is no table in an empty file. -/
theorem readTable_empty {ρ : Type} {header : List Char} {read : List Char → Option ρ}
    (hheader : header ≠ ['\n']) :
    readTable header read (strip (onTerminal ['\n']) ++ ['\n']) = none := by
  have hblank : ∀ c ∈ onTerminal ['\n'], Lines.isSpace c = true := by
    simp [onTerminal, Lines.isSpace]
  rw [strip_of_isSpace hblank]
  exact if_neg hheader.symm

/-! ### The characters of a row -/

/-- **A character of a field**: from the minus to the last letter, and no `=`. -/
def isFieldChar (c : Char) : Bool := 45 ≤ c.toNat && c.toNat ≤ 122 && c != '='

theorem isFieldChar_iff {c : Char} :
    isFieldChar c = true ↔ 45 ≤ c.toNat ∧ c.toNat ≤ 122 ∧ c ≠ '=' := by
  simp only [isFieldChar, Bool.and_eq_true, decide_eq_true_eq, bne_iff_ne, and_assoc]

theorem isFieldChar_of_isDigit {c : Char} (h : c.isDigit = true) : isFieldChar c = true := by
  have hne : c ≠ '=' := by
    rintro rfl
    cases h
  simp only [Char.isDigit, Bool.and_eq_true, decide_eq_true_eq, ge_iff_le,
    UInt32.le_iff_toNat_le] at h
  exact isFieldChar_iff.mpr ⟨le_trans (by decide) h.1, le_trans h.2 (by decide), hne⟩

theorem isFieldChar_signed {w : BitVec 32} {c : Char} (hc : c ∈ signed w) :
    isFieldChar c = true := by
  rcases mem_signed hc with rfl | hdigit
  · rfl
  · exact isFieldChar_of_isDigit hdigit

theorem isFieldChar_unsigned {w : BitVec 64} {c : Char} (hc : c ∈ unsigned w) :
    isFieldChar c = true :=
  isFieldChar_of_isDigit (isDigit_of_mem_unsigned hc)

theorem isFieldChar_fixed {k : ℕ} {x : ℚ} {c : Char} (hc : c ∈ fixed k x) :
    isFieldChar c = true := by
  rcases mem_fixed hc with rfl | rfl | hdigit
  · rfl
  · rfl
  · exact isFieldChar_of_isDigit hdigit

/-- One of two keywords. -/
theorem isFieldChar_ite (b : Bool) {yes no : String} (hyes : yes.toList.all isFieldChar = true)
    (hno : no.toList.all isFieldChar = true) {c : Char}
    (hc : c ∈ (if b then yes else no).toList) : isFieldChar c = true := by
  cases b
  · exact List.all_eq_true.mp hno c hc
  · exact List.all_eq_true.mp hyes c hc

/-- A line that is made of fields. -/
theorem mem_intercalate {fs : List (List Char)}
    (h : ∀ f ∈ fs, ∀ c ∈ f, isFieldChar c = true) {c : Char} (hc : c ∈ [','].intercalate fs) :
    c = ',' ∨ isFieldChar c = true := by
  induction fs with
  | nil => cases hc
  | cons f fs ih =>
    obtain ⟨hf, hfs⟩ := List.forall_mem_cons.mp h
    rcases fs with _ | ⟨f', fs⟩
    · exact .inr (hf c (by simpa [List.intercalate] using hc))
    · have hcons : [','].intercalate (f :: f' :: fs) =
          f ++ ',' :: [','].intercalate (f' :: fs) := by
        simp [List.intercalate]
      rw [hcons] at hc
      rcases List.mem_append.mp hc with hc | hc
      · exact .inr (hf c hc)
      · rcases List.mem_cons.mp hc with rfl | hc
        · exact .inl rfl
        · exact ih hfs hc

/-- **What a row is**: a word without a `=`. -/
structure IsRow (l : List Char) : Prop where
  word : Word Lines.isSpace l
  no_equals : '=' ∉ l

/-- A line of two fields or more is a row. -/
theorem isRow_intercalate {f f' : List Char} {fs : List (List Char)}
    (h : ∀ g ∈ f :: f' :: fs, ∀ c ∈ g, isFieldChar c = true) :
    IsRow ([','].intercalate (f :: f' :: fs)) := by
  refine ⟨⟨by simp [List.intercalate], fun c hc => ?_⟩, fun hc => ?_⟩
  · rcases mem_intercalate h hc with rfl | hfield
    · rfl
    · obtain ⟨hlow, hhigh, -⟩ := isFieldChar_iff.mp hfield
      simp only [Lines.isSpace, Bool.or_eq_false_iff, Bool.and_eq_false_iff,
        decide_eq_false_iff_not, beq_eq_false_iff_ne]
      omega
  · rcases mem_intercalate h hc with hcomma | hfield
    · cases hcomma
    · cases hfield

/-- There is no comma in a field. -/
theorem no_comma_of_isFieldChar {f : List Char} (h : ∀ c ∈ f, isFieldChar c = true) : ',' ∉ f := by
  intro hc
  cases h ',' hc

section Rows

variable {cfg : VmopsBenchCfg} (hbenchmark : ∀ c ∈ cfg.benchmark, isFieldChar c = true)

include hbenchmark

theorem isFieldChar_texts {t : BitVec 32} {d : ℚ} {tpt : SizeT} :
    ∀ f ∈ (logCsv cfg t d tpt).texts (fixed 3), ∀ c ∈ f, isFieldChar c = true := by
  simp only [ThptRow.texts, List.forall_mem_cons]
  exact ⟨fun _ => isFieldChar_signed, hbenchmark, fun _ => isFieldChar_signed,
    fun _ => isFieldChar_signed, fun _ => isFieldChar_unsigned,
    fun _ => isFieldChar_ite _ (by decide) (by decide),
    fun _ => isFieldChar_ite _ (by decide) (by decide),
    fun _ => isFieldChar_ite _ (by decide) (by decide),
    fun _ => isFieldChar_ite _ (by decide) (by decide),
    fun _ => isFieldChar_ite _ (by decide) (by decide), fun _ => isFieldChar_fixed,
    fun _ => isFieldChar_unsigned, fun _ h => by cases h⟩

theorem isFieldChar_latencyTexts {toMs : PlatTime → ℚ} {stat : StatVal} :
    ∀ f ∈ (convertedRow toMs cfg stat).texts, ∀ c ∈ f, isFieldChar c = true := by
  simp only [LatencyRow.texts, List.forall_mem_cons]
  exact ⟨hbenchmark, fun _ => isFieldChar_signed, fun _ => isFieldChar_signed,
    fun _ => isFieldChar_unsigned, fun _ => isFieldChar_ite _ (by decide) (by decide),
    fun _ => isFieldChar_ite _ (by decide) (by decide),
    fun _ => isFieldChar_ite _ (by decide) (by decide),
    fun _ => isFieldChar_ite _ (by decide) (by decide),
    fun _ => isFieldChar_ite _ (by decide) (by decide), fun _ => isFieldChar_signed,
    fun _ => isFieldChar_fixed, fun _ => isFieldChar_unsigned, fun _ => isFieldChar_fixed,
    fun _ h => by cases h⟩

end Rows

/-! ### The tables as lines -/

/-- The row of a thread, without the newline at its end. -/
def csvText (cfg : VmopsBenchCfg) (args : ℕ → VmopsBenchRunArg) (i : ℕ) : List Char :=
  [','].intercalate
    ((logCsv cfg (BitVec.ofNat 32 i) (args i).duration (args i).count).texts (fixed 3))

/-- The row of a sample, without the newline at its end. -/
def statsText (toMs : PlatTime → ℚ) (cfg : VmopsBenchCfg) (c : StatVal) : List Char :=
  [','].intercalate (convertedRow toMs cfg c).texts

/-- The samples that have a row. -/
def shownSamples (args : ℕ → VmopsBenchRunArg) (samples : ℕ → StatVal) : List StatVal :=
  (printedSamples args samples).filter fun c => c.tElapsed ≠ 0 ∧ c.val ≠ 0

/-- A table as lines. -/
theorem header_append_flatten {α : Type} (xs : List α) (f : α → List Char) (l : List Char) :
    l ++ ['\n'] ++ (xs.map fun x => f x ++ ['\n']).flatten = unlines (l :: xs.map f) := by
  rw [unlines, List.flatMap_cons, List.flatMap_map, List.flatMap]

theorem csvHeader_eq : csvHeader = [','].intercalate columns ++ ['\n'] := by decide +kernel

theorem latencyHeader_eq : latencyHeader = [','].intercalate latencyColumns ++ ['\n'] := by
  decide +kernel

section Tables

variable {toMs : PlatTime → ℚ} {cfg : VmopsBenchCfg} {args : ℕ → VmopsBenchRunArg}
  (samples : ℕ → StatVal)

/-- The rows of throughput, one for each thread. -/
theorem csvRows_eq (hcfg : (args 0).cfg = cfg) : (vmopsUtilsPrintCsv args samples).csvRows =
    (List.range cfg.corelistSize.toNat).map fun i => csvText cfg args i ++ ['\n'] := by
  subst hcfg
  have hrow : ∀ i, format fixed csvFormat (logCsv (args 0).cfg (BitVec.ofNat 32 i)
      (args i).duration (args i).count).printfArgs = some (csvText (args 0).cfg args i ++ ['\n']) :=
    fun i => format_eq_of_printf csvLine_eq
  rw [Report.csvRows, vmopsUtilsPrintCsv, List.filterMap_map, ← List.filterMap_eq_map]
  exact List.filterMap_congr fun i _ => hrow i

/-- The rows of latency, one for each sample that was not left out. -/
theorem statsRows_eq (hcfg : (args 0).cfg = cfg) : statsRows toMs args samples =
    (shownSamples args samples).map fun c => statsText toMs cfg c ++ ['\n'] := by
  subst hcfg
  rw [statsRows, shownSamples]
  induction printedSamples args samples with
  | nil => rfl
  | cons c cs ih =>
    by_cases hc : c.tElapsed ≠ 0 ∧ c.val ≠ 0
    · rw [List.filterMap_cons_some (latencyLine_eq hc.1 hc.2),
        List.filter_cons, if_pos (decide_eq_true hc), ih]
      rfl
    · have hnone : latencyLine toMs (args 0).cfg c = none := by
        rw [latencyLine, logStats, if_neg hc]
        rfl
      rw [List.filterMap_cons_none hnone, List.filter_cons, if_neg (by simpa using hc), ih]

variable (hbenchmark : ∀ c ∈ cfg.benchmark, isFieldChar c = true)

include hbenchmark

/-- The lines of the throughput table. -/
theorem isRow_csvLines : ∀ l ∈ [','].intercalate columns ::
    (List.range cfg.corelistSize.toNat).map (csvText cfg args), IsRow l := by
  have hcolumns : columns.all (fun f => f.all isFieldChar) = true := by decide
  rw [List.forall_mem_cons]
  refine ⟨isRow_intercalate fun f hf c hc => ?_, fun l hl => ?_⟩
  · exact List.all_eq_true.mp (List.all_eq_true.mp hcolumns f hf) c hc
  · obtain ⟨i, -, rfl⟩ := List.mem_map.mp hl
    exact isRow_intercalate (isFieldChar_texts hbenchmark)

/-- The lines of the latency table. -/
theorem isRow_statsLines : ∀ l ∈ [','].intercalate latencyColumns ::
    (shownSamples args samples).map (statsText toMs cfg), IsRow l := by
  have hcolumns : latencyColumns.all (fun f => f.all isFieldChar) = true := by decide
  rw [List.forall_mem_cons]
  refine ⟨isRow_intercalate fun f hf c hc => ?_, fun l hl => ?_⟩
  · exact List.all_eq_true.mp (List.all_eq_true.mp hcolumns f hf) c hc
  · obtain ⟨c, -, rfl⟩ := List.mem_map.mp hl
    exact isRow_intercalate (isFieldChar_latencyTexts hbenchmark)

/-! ### Reading the tables -/

/-- What the throughput table is to say. -/
def csvRecords (cfg : VmopsBenchCfg) (args : ℕ → VmopsBenchRunArg) : List CsvRecord :=
  (List.range cfg.corelistSize.toNat).map fun i => csvRecord cfg (BitVec.ofNat 32 i) (args i).count

/-- What the latency table is to say: the times to the nearest unit. -/
def latencyRecords (toMs : PlatTime → ℚ) (cfg : VmopsBenchCfg) (cs : List StatVal) :
    List LatencyRecord :=
  cs.map (latencyRecord (nearestUnits toMs) cfg)

/-- When the row of a thread is read. -/
theorem readCsv_csvText (i : ℕ) : readCsv (csvText cfg args i ++ ['\n']) =
    some (csvRecord cfg (BitVec.ofNat 32 i) (args i).count) ↔
      (BitVec.ofNat 32 i).toNat < 2 ^ 31 ∧ (coreAt cfg (BitVec.ofNat 32 i)).toNat < 2 ^ 31 ∧
        cfg.corelistSize.toNat < 2 ^ 31 := by
  have hfields : csvFields (csvText cfg args i ++ ['\n']) = (logCsv cfg (BitVec.ofNat 32 i)
      (args i).duration (args i).count).texts (fixed 3) :=
    csvFields_line (List.cons_ne_nil _ _) fun f hf =>
      no_comma_of_isFieldChar (isFieldChar_texts hbenchmark f hf)
  rw [readCsv_eq hfields]
  split
  · next h => exact iff_of_true rfl h
  · next h => exact iff_of_false (by simp) h

/-- When the row of a sample is read. -/
theorem readLatency_statsText (hms : ∀ t, 0 ≤ toMs t) (c : StatVal) :
    readLatency (statsText toMs cfg c ++ ['\n']) =
      some (latencyRecord (nearestUnits toMs) cfg c) ↔ (coreAt cfg c.tid).toNat < 2 ^ 31 ∧
        cfg.corelistSize.toNat < 2 ^ 31 ∧ c.tid.toNat < 2 ^ 31 :=
  readLatency_iff hms (no_comma_of_isFieldChar hbenchmark)

/-- **When the throughput table is read from a file.** -/
theorem readTable_csv_iff (hn : 0 < cfg.corelistSize.toNat) :
    readTable csvHeader readCsv (strip (onTerminal ('\n' :: unlines ([','].intercalate columns ::
        (List.range cfg.corelistSize.toNat).map (csvText cfg args)))) ++ ['\n']) =
      some (csvRecords cfg args) ↔ cfg.corelistSize.toNat < 2 ^ 31 ∧
        ∀ i < cfg.corelistSize.toNat, (coreAt cfg (BitVec.ofNat 32 i)).toNat < 2 ^ 31 := by
  rw [readTable_strip csvHeader_eq.symm fun l hl => (isRow_csvLines hbenchmark l hl).word,
    List.mapM_map, csvRecords, mapM_eq_some_iff]
  simp only [Function.comp_apply, readCsv_csvText hbenchmark, List.mem_range]
  constructor
  · exact fun h => ⟨(h 0 hn).2.2, fun i hi => (h i hi).2.1⟩
  · rintro ⟨hsize, hcores⟩ i hi
    have hi' : (BitVec.ofNat 32 i).toNat = i := Nat.mod_eq_of_lt (hi.trans cfg.corelistSize.isLt)
    exact ⟨hi'.trans_lt (hi.trans hsize), hcores i hi, hsize⟩

/-- **When the latency table is read from a file**, if its samples are those of threads. -/
theorem readTable_stats_iff (hms : ∀ t, 0 ≤ toMs t)
    (htid : ∀ c ∈ shownSamples args samples, c.tid < cfg.corelistSize) :
    readTable latencyHeader readLatency (strip (onTerminal ('\n' ::
        unlines ([','].intercalate latencyColumns ::
          (shownSamples args samples).map (statsText toMs cfg)))) ++ ['\n']) =
      some (latencyRecords toMs cfg (shownSamples args samples)) ↔
        ∀ c ∈ shownSamples args samples,
          (coreAt cfg c.tid).toNat < 2 ^ 31 ∧ cfg.corelistSize.toNat < 2 ^ 31 := by
  rw [readTable_strip latencyHeader_eq.symm fun l hl =>
    (isRow_statsLines samples hbenchmark l hl).word, List.mapM_map, latencyRecords,
    mapM_eq_some_iff]
  simp only [Function.comp_apply, readLatency_statsText hbenchmark hms]
  refine forall₂_congr fun c hc => ⟨fun h => ⟨h.1, h.2.1⟩, fun h => ⟨h.1, h.2, ?_⟩⟩
  exact (BitVec.lt_def.mp (htid c hc)).trans h.2

end Tables

end VmopsBench

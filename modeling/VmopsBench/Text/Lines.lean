import Mathlib
import VmopsBench.Text.Words

/-!
# Lines that come over a terminal

A program writes a table line by line, a terminal puts a carriage return before each newline
(`Lines.onTerminal`), and a script takes what it has seen, strips it and writes it into a file with
a newline at its end (`Lines.strip`). In the file some lines end with a carriage return and the last
one does not, but whoever takes both for the end of a line (`Lines.lines`) reads the lines that were
written, if there are no blanks in them (`Lines.lines_strip`).
-/

namespace Lines

open Words

/-- A text made of lines. -/
def unlines (ls : List (List Char)) : List Char := ls.flatMap (· ++ ['\n'])

/-- **What a terminal makes of a text.** -/
def onTerminal (text : List Char) : List Char :=
  text.flatMap fun c => if c = '\n' then ['\r', '\n'] else [c]

/-- `str.isspace` of Python. -/
def isSpace (c : Char) : Bool :=
  let n := c.toNat
  0x09 ≤ n && n ≤ 0x0d || 0x1c ≤ n && n ≤ 0x20 || n == 0x85 || n == 0xa0 || n == 0x1680 ||
    0x2000 ≤ n && n ≤ 0x200a || n == 0x2028 || n == 0x2029 || n == 0x202f || n == 0x205f ||
    n == 0x3000

/-- `str.strip` of Python. -/
def strip (text : List Char) : List Char := (text.dropWhile isSpace).rdropWhile isSpace

/-- A line without the carriage return at its end. -/
def chomp (line : List Char) : List Char :=
  if line.getLast? = some '\r' then line.dropLast else line

/-- **The lines of a text.** What is after the last newline is no line. -/
def lines (text : List Char) : List (List Char) := (text.splitOn '\n').dropLast.map chomp

theorem onTerminal_append (s t : List Char) : onTerminal (s ++ t) = onTerminal s ++ onTerminal t :=
  List.flatMap_append

/-- A text without a newline comes as it is. -/
theorem onTerminal_of_notMem {text : List Char} (h : '\n' ∉ text) : onTerminal text = text := by
  induction text with
  | nil => rfl
  | cons c text ih =>
    obtain ⟨hc, htext⟩ := not_or.mp (List.mem_cons.not.mp h)
    rw [onTerminal, List.flatMap_cons, if_neg (Ne.symm hc), ← onTerminal, ih htext]
    rfl

/-- A terminal only adds carriage returns. -/
theorem mem_onTerminal {text : List Char} {c : Char} (h : c ∈ onTerminal text) :
    c = '\r' ∨ c ∈ text := by
  obtain ⟨d, hd, hc⟩ := List.mem_flatMap.mp h
  split at hc
  · next hnewline =>
    rcases List.mem_pair.mp hc with rfl | rfl
    · exact .inl rfl
    · exact .inr (hnewline ▸ hd)
  · exact .inr (List.mem_singleton.mp hc ▸ hd)

/-! ### Stripping -/

/-- **Blanks on both sides are stripped.** -/
theorem strip_between {before after text : List Char} {c d : Char}
    (hbefore : ∀ x ∈ before, isSpace x = true) (hafter : ∀ x ∈ after, isSpace x = true)
    (hfirst : text.head? = some c) (hc : isSpace c = false)
    (hlast : text.getLast? = some d) (hd : isSpace d = false) :
    strip (before ++ (text ++ after)) = text := by
  have hdrop : (before ++ (text ++ after)).dropWhile isSpace = text ++ after := by
    obtain ⟨rest, rfl⟩ := List.head?_eq_some_iff.mp hfirst
    rw [List.dropWhile_append_of_pos hbefore, List.cons_append, List.dropWhile_cons,
      if_neg (by simp [hc])]
  obtain ⟨rest, rfl⟩ := List.getLast?_eq_some_iff.mp hlast
  rw [strip, hdrop, List.rdropWhile, List.reverse_append, List.dropWhile_append_of_pos
    (fun x hx => hafter x (List.mem_reverse.mp hx)), List.reverse_append]
  simp [hd]

/-! ### Lines without blanks -/

section Table

variable {l : List Char} {ls : List (List Char)}

theorem isSpace_eq_false_of_mem (hl : Word isSpace l) {c : Char} (hc : c ∈ l) : isSpace c = false :=
  hl.separatorFree c hc

/-- There is no newline in a word. -/
theorem newline_notMem (hl : Word isSpace l) : '\n' ∉ l := by
  intro hc
  have hblank := isSpace_eq_false_of_mem hl hc
  cases hblank

/-- There is no carriage return at the end of a word. -/
theorem chomp_word (hl : Word isSpace l) : chomp l = l := by
  refine if_neg fun hlast => ?_
  have hblank := isSpace_eq_false_of_mem hl (List.mem_of_getLast? hlast)
  cases hblank

/-- The first line of a text. -/
theorem lines_append {line : List Char} (hline : '\n' ∉ line) (rest : List Char) :
    lines (line ++ '\n' :: rest) = chomp line :: lines rest := by
  have hfree : ∀ c ∈ line, (c == '\n') = false := by
    intro c hc
    refine beq_false_of_ne ?_
    rintro rfl
    exact hline hc
  rw [lines, List.splitOn_eq_splitOnP, List.splitOnP_append_cons_of_forall_mem hfree _ rfl,
    List.dropLast_cons_of_ne_nil (List.splitOnP_ne_nil _ _), List.map_cons]
  rfl

/-- The lines of a table on a terminal. -/
theorem onTerminal_unlines (h : ∀ l ∈ ls, '\n' ∉ l) :
    onTerminal (unlines ls) = ls.flatMap (· ++ ['\r', '\n']) := by
  induction ls with
  | nil => rfl
  | cons l ls ih =>
    obtain ⟨hl, hls⟩ := List.forall_mem_cons.mp h
    rw [unlines, List.flatMap_cons, ← unlines, onTerminal_append, onTerminal_append,
      onTerminal_of_notMem hl, ih hls]
    rfl

/-- The newline of the last line is at the end. -/
theorem flatMap_eq_intercalate (hls : ls ≠ []) :
    ls.flatMap (· ++ ['\r', '\n']) = ['\r', '\n'].intercalate ls ++ ['\r', '\n'] := by
  induction ls with
  | nil => exact absurd rfl hls
  | cons l ls ih =>
    rcases ls with _ | ⟨l', ls⟩
    · simp [List.intercalate]
    · rw [List.flatMap_cons, ih (List.cons_ne_nil _ _)]
      simp [List.intercalate]

/-- A table begins with its first line. -/
theorem head?_intercalate {c : Char} (hc : l.head? = some c) :
    (['\r', '\n'].intercalate (l :: ls)).head? = some c := by
  obtain ⟨rest, rfl⟩ := List.head?_eq_some_iff.mp hc
  cases ls <;> simp [List.intercalate]

/-- A table without the newline at its end ends in its last line. -/
theorem getLast?_intercalate (hls : ls ≠ []) (hword : ∀ l ∈ ls, Word isSpace l) :
    ∃ d, (['\r', '\n'].intercalate ls).getLast? = some d ∧ isSpace d = false := by
  induction ls with
  | nil => exact absurd rfl hls
  | cons l ls ih =>
    obtain ⟨hl, hword⟩ := List.forall_mem_cons.mp hword
    rcases ls with _ | ⟨l', ls⟩
    · obtain ⟨d, hd⟩ := Option.isSome_iff_exists.mp (List.getLast?_isSome.mpr hl.ne_nil)
      refine ⟨d, ?_, isSpace_eq_false_of_mem hl (List.mem_of_getLast? hd)⟩
      simpa [List.intercalate] using hd
    · obtain ⟨d, hd, hblank⟩ := ih (List.cons_ne_nil _ _) hword
      refine ⟨d, ?_, hblank⟩
      have hcons : ['\r', '\n'].intercalate (l :: l' :: ls) =
          l ++ ['\r', '\n'] ++ ['\r', '\n'].intercalate (l' :: ls) := by
        simp [List.intercalate]
      rw [hcons, List.getLast?_append, hd]
      rfl

/-- The lines of a table whose last line has no carriage return. -/
theorem lines_intercalate (hls : ls ≠ []) (hword : ∀ l ∈ ls, Word isSpace l) :
    lines (['\r', '\n'].intercalate ls ++ ['\n']) = ls := by
  induction ls with
  | nil => exact absurd rfl hls
  | cons l ls ih =>
    obtain ⟨hl, hword⟩ := List.forall_mem_cons.mp hword
    rcases ls with _ | ⟨l', ls⟩
    · have hone : ['\r', '\n'].intercalate [l] ++ ['\n'] = l ++ '\n' :: [] := by
        simp [List.intercalate]
      rw [hone, lines_append (newline_notMem hl), chomp_word hl]
      rfl
    · have hcons : ['\r', '\n'].intercalate (l :: l' :: ls) ++ ['\n'] =
          (l ++ ['\r']) ++ '\n' :: (['\r', '\n'].intercalate (l' :: ls) ++ ['\n']) := by
        simp [List.intercalate]
      have hline : '\n' ∉ l ++ ['\r'] := by
        simp [newline_notMem hl]
      have hchomp : chomp (l ++ ['\r']) = l := by
        simp [chomp]
      rw [hcons, lines_append hline, hchomp, ih (List.cons_ne_nil _ _) hword]

/-- **The lines that were written are read**, if there are no blanks in them. -/
theorem lines_strip (hls : ls ≠ []) (hword : ∀ l ∈ ls, Word isSpace l) :
    lines (strip (onTerminal ('\n' :: unlines ls)) ++ ['\n']) = ls := by
  have hterminal : onTerminal ('\n' :: unlines ls) =
      ['\r', '\n'] ++ (['\r', '\n'].intercalate ls ++ ['\r', '\n']) := by
    rw [← flatMap_eq_intercalate hls, ← onTerminal_unlines fun l hl => newline_notMem (hword l hl)]
    rfl
  obtain ⟨l, rest, rfl⟩ := List.exists_cons_of_ne_nil hls
  have hl := hword l List.mem_cons_self
  obtain ⟨c, hc⟩ := Option.isSome_iff_exists.mp (List.isSome_head?.mpr hl.ne_nil)
  obtain ⟨d, hd, hlast⟩ := getLast?_intercalate hls hword
  have hblank : ∀ x ∈ ['\r', '\n'], isSpace x = true := by simp [isSpace]
  rw [hterminal, strip_between hblank hblank (head?_intercalate hc)
    (isSpace_eq_false_of_mem hl (List.mem_of_head? hc)) hd hlast, lines_intercalate hls hword]

/-- Nothing is left of blanks. -/
theorem strip_of_isSpace {text : List Char} (h : ∀ c ∈ text, isSpace c = true) :
    strip text = [] := by
  rw [strip, List.dropWhile_eq_nil_iff.mpr h]
  rfl

end Table

end Lines

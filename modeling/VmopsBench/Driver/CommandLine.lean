import VmopsBench.Benchmarks.Utils
import VmopsBench.Interact.Spec
import VmopsBench.Platform.Topology
import VmopsBench.Text.Getopt
import VmopsBench.Text.Numeral

/-!
# The command line

The first part of `main`: the loop around `getopt` that turns the command line into the
configuration, with `parse_cores_list` for the argument of `-c`.

Texts are lists of characters without the NUL at their end. What the loop needs from outside is a
program's calls over the signature `VmopsBench.optionSig`: memory for the list of cores, and
the files for the results. Messages and the usage text are left out.

`parse_cores_list` works on the text in place, with two pointers into it, and writes a NUL over each
comma. The pointers are indices here, and an access outside the text or the array that was
allocated is an outcome of its own (`VmopsBench.Halt.outOfBounds`).
-/

namespace VmopsBench

open Interact Getopt Numeral

/-! ### Calls and outcomes -/

/-- **The calls of the option loop.** -/
inductive OptionCall where
  /-- `malloc` of `n` core ids, answered with what the block holds. -/
  | mallocCores (n : ℕ)
  | fopen (path : List Char)
  deriving DecidableEq

abbrev OptionCall.Resp : OptionCall → Type
  | .mallocCores _ => Option (ℕ → BitVec 32)
  | .fopen _ => Option Addr

/-- **The signature of the option loop.** -/
abbrev optionSig : Sig := ⟨OptionCall, OptionCall.Resp⟩

/-- One of these calls. -/
abbrev optionCall (c : OptionCall) : Prog optionSig c.Resp := Prog.perform (S := optionSig) c

/-- `EXIT_SUCCESS` and `EXIT_FAILURE`. -/
inductive ExitStatus where
  | success
  | failure
  deriving DecidableEq

/-- What ends the program before `main` returns. -/
inductive Halt where
  | exit (status : ExitStatus)
  /-- A read or write outside of a text or an array. -/
  | outOfBounds
  deriving DecidableEq

/-! ### The list of cores -/

/-- A text up to its first NUL. -/
def cstring (s : List Char) : List Char := s.takeWhile (· != '\x00')

/-- The character at an index, which at the end is the NUL. -/
def charAt (s : List Char) (i : ℕ) : Option Char := (s ++ ['\x00'])[i]?

/-- The variables of the second loop of `parse_cores_list`; `cores` is the text that is
being overwritten. -/
structure CoresScan where
  cores : List Char
  current : ℕ
  lookahead : ℕ
  idx : ℕ
  coreslist : ℕ → BitVec 32

/-- The inner loop, which moves `lookahead` past digits. -/
def skipDigits (cores : List Char) (lookahead : ℕ) : ℕ :=
  lookahead + ((cores.drop lookahead).takeWhile Char.isDigit).length

/-- One turn of the second loop of `parse_cores_list`. -/
def coresTurn (corecount : ℕ) (s : CoresScan) : Except Halt CoresScan :=
  let lookahead := skipDigits s.cores s.lookahead
  match charAt s.cores lookahead with
  | none => .error .outOfBounds
  | some c =>
    if c ≠ '\x00' ∧ c ≠ ',' then .error (.exit .failure)
    else if lookahead = s.current then .error (.exit .failure)
    else if corecount ≤ s.idx then .error .outOfBounds
    else
      let cores := s.cores.set lookahead '\x00'
      let cid := (strtoul 64 (cstring (cores.drop s.current))).setWidth 32
      .ok { cores := cores, current := lookahead + 1, lookahead := lookahead + 1, idx := s.idx + 1,
            coreslist := Function.update s.coreslist s.idx cid }

/-- `parse_cores_list`: the array and its length, or nothing when it returns `-1`. Entries that no
turn has stored are what `malloc` has left there. -/
def parseCoresList (optarg : List Char) :
    Prog optionSig (Except Halt (Option (List (BitVec 32) × BitVec 32))) := do
  let cores := cstring optarg
  let coreslen := cores.length
  if coreslen = 0 then return .error (.exit .failure)
  else if !(cores.head?.any Char.isDigit) then return .error (.exit .failure)
  else
    let corecount := 1 + cores.count ','
    match ← optionCall (.mallocCores corecount) with
    | none => return .ok none
    | some block =>
      let scanned ← Prog.whileLoop (fun s : CoresScan => s.current < coreslen)
        (fun s => return coresTurn corecount s) ⟨cores, 0, 0, 0, block⟩
      return scanned.map fun s =>
        some ((List.range corecount).map s.coreslist, BitVec.ofNat 32 corecount)

/-! ### The options -/

/-- A stream for results. -/
inductive OutFile where
  | stdout
  | opened (file : Addr)
  deriving DecidableEq

/-- **What the options set**: `cfg`, `thptout` and `latout`, and the locals of `main`. A list of
cores that is empty stands for `NULL`. -/
structure MainVars where
  cfg : VmopsBenchCfg
  ncores : BitVec 32
  numaTopology : PlatTopoNuma
  thptout : OutFile
  latout : OutFile

/-- The initial values. -/
def initVars : MainVars where
  cfg :=
    { benchmark := "mapunmap".toList
      coreslist := []
      corelistSize := 0
      memsize := 4096
      nops := 0
      timeMs := 10
      stats := 0
      rate := -1
      nounmap := false
      shared := true
      isolated := false
      map4k := false
      maphuge := false
      numainterleave := false }
  ncores := 0
  numaTopology := .fill
  thptout := .stdout
  latout := .stdout

/-- The option string of `main`. -/
def optstring : List Char := "lis:p:t:c:m:n:b:r:o:z:h".toList

/-- A file for results, which is standard output when it cannot be opened. -/
def openResults (path : List Char) : Prog optionSig OutFile := do
  match ← optionCall (.fopen path) with
  | some file => return .opened file
  | none => return .stdout

/-- **The `switch` of `main`.** That `parse_cores_list` has returned `-1` is not noticed. -/
def optionSwitch (s : MainVars) : Opt → Prog optionSig (Except Halt MainVars)
  | .flag 'l' => return .ok { s with cfg.maphuge := true }
  | .withArg 'p' optarg => return .ok { s with ncores := (strtoul 64 optarg).setWidth 32 }
  | .withArg 'c' optarg => do
    match ← parseCoresList optarg with
    | .error e => return .error e
    | .ok none => return .ok s
    | .ok (some (coreslist, n)) =>
      return .ok { s with cfg.coreslist := coreslist, cfg.corelistSize := n }
  | .flag 'i' => return .ok { s with numaTopology := .interleave, cfg.numainterleave := true }
  | .withArg 'm' optarg => return .ok { s with cfg.memsize := strtoul 64 optarg }
  | .withArg 'n' optarg => return .ok { s with cfg.nops := strtoul 64 optarg, cfg.timeMs := 0 }
  | .withArg 'b' optarg => return .ok { s with cfg.benchmark := optarg }
  | .withArg 't' optarg => return .ok { s with cfg.timeMs := (strtoul 64 optarg).setWidth 32 }
  | .withArg 's' optarg => return .ok { s with cfg.stats := (strtoul 64 optarg).setWidth 32 }
  | .withArg 'r' optarg => return .ok { s with cfg.rate := (strtoul 64 optarg).setWidth 32 }
  | .withArg 'o' optarg => do
    let file ← openResults optarg
    return .ok { s with thptout := file }
  | .withArg 'z' optarg => do
    let file ← openResults optarg
    return .ok { s with latout := file }
  | .flag 'h' => return .error (.exit .success)
  | _ => return .error (.exit .failure)

/-- The options one after the other, until one of them ends the program. -/
def optionLoop (s : MainVars) : List Opt → Prog optionSig (Except Halt MainVars)
  | [] => return .ok s
  | o :: opts => do
    match ← optionSwitch s o with
    | .error e => return .error e
    | .ok s => optionLoop s opts

/-- **The `getopt` loop of `main`** on the arguments after the program's name. -/
def getoptLoop (posix : Bool) (args : List (List Char)) : Prog optionSig (Except Halt MainVars) :=
  optionLoop initVars (getopts posix optstring none args)

/-! ### Where the benchmark comes from -/

/-- If the program goes on, the benchmark is still what it was. -/
def KeepsBenchmark (s : MainVars) (r : Except Halt MainVars) : Prop :=
  ∀ s', r = .ok s' → s'.cfg.benchmark = s.cfg.benchmark

theorem keepsBenchmark_error (s : MainVars) (e : Halt) : KeepsBenchmark s (.error e) :=
  fun _ h => by cases h

theorem keepsBenchmark_ok {s s' : MainVars} (h : s'.cfg.benchmark = s.cfg.benchmark) :
    KeepsBenchmark s (.ok s') := by
  rintro _ ⟨⟩
  exact h

/-- **Only `-b` sets the benchmark.** -/
theorem keepsBenchmark_optionSwitch (s : MainVars) {o : Opt} (ho : ∀ name, o ≠ .withArg 'b' name)
    (g : List (Event optionSig)) :
    wp (recording optionSig) (optionSwitch s o) (fun r _ => KeepsBenchmark s r) g := by
  rw [optionSwitch.eq_def]
  split
  case h_3 optarg =>
    refine (wp_bind _ _).mpr (wp_mono _ (fun r g' _ => ?_) (wp_recording_extends _ g))
    match r with
    | .error e => exact keepsBenchmark_error s e
    | .ok none => exact keepsBenchmark_ok rfl
    | .ok (some (coreslist, n)) => exact keepsBenchmark_ok rfl
  case h_7 name => exact absurd rfl (ho name)
  case h_11 optarg | h_12 optarg =>
    refine (wp_bind _ _).mpr (wp_mono _ (fun file g' _ => ?_) (wp_recording_extends _ g))
    exact keepsBenchmark_ok rfl
  case h_13 | h_14 => exact keepsBenchmark_error s _
  all_goals exact keepsBenchmark_ok rfl

/-- **The benchmark at the end** is the initial one or the argument of some `-b`. -/
theorem benchmark_of_optionLoop (s : MainVars) (opts : List Opt) (g : List (Event optionSig)) :
    wp (recording optionSig) (optionLoop s opts) (fun r _ => ∀ s', r = .ok s' →
      s'.cfg.benchmark = s.cfg.benchmark ∨ .withArg 'b' s'.cfg.benchmark ∈ opts) g := by
  induction opts generalizing s g with
  | nil =>
    rintro _ ⟨⟩
    exact .inl rfl
  | cons o opts ih =>
    have hstep : wp (recording optionSig) (optionSwitch s o) (fun r _ => ∀ s', r = .ok s' →
        s'.cfg.benchmark = s.cfg.benchmark ∨ o = .withArg 'b' s'.cfg.benchmark) g := by
      by_cases ho : ∃ name, o = .withArg 'b' name
      · obtain ⟨name, rfl⟩ := ho
        rintro _ ⟨⟩
        exact .inr rfl
      · exact wp_mono _ (fun r _ h s' hs' => .inl (h s' hs'))
          (keepsBenchmark_optionSwitch s (not_exists.mp ho) g)
    refine (wp_bind _ _).mpr (wp_mono _ (fun r g' hr => ?_) hstep)
    cases r with
    | error e => exact fun _ h => by cases h
    | ok s₁ =>
      refine wp_mono _ (fun r _ h s' hs' => ?_) (ih s₁ g')
      rcases h s' hs' with heq | hmem
      · rcases hr s₁ rfl with heq₁ | rfl
        · exact .inl (heq.trans heq₁)
        · exact .inr (heq ▸ List.mem_cons_self)
      · exact .inr (List.mem_cons_of_mem _ hmem)

end VmopsBench

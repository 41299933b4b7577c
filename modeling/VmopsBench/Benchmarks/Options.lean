import VmopsBench.Benchmarks.Utils
import VmopsBench.Text.Tokens

/-!
# The options of a benchmark

The language of `vmops_utils_parse_options`. An option string is a sequence of tokens with nothing
between them, and no token is the beginning of another one, although all begin with a dash and two
with the same letters. So the loop of the parser, which tries the tokens in a fixed order, is a
reader of tokens (`VmopsBench.parseOptionsLoop_eq`), and what it finds out are the tokens
that occur.

The configuration is written after the loop and the check. So it is as it was whenever the
parser fails (`VmopsBench.parseOptions_iff`).
-/

namespace VmopsBench

open Tokens

/-! ### Tokens -/

/-- **The tokens of an option string.** -/
inductive OptionToken where
  | shared
  | independent
  | map4k
  | isolated
  deriving DecidableEq

/-- A token as it is written. -/
def OptionToken.text : OptionToken → List Char
  | .shared => "-shared".toList
  | .independent => "-independent".toList
  | .map4k => "-4k".toList
  | .isolated => "-isolated".toList

/-- In the order in which the loop tries them. -/
def optionTokens : List OptionToken := [.shared, .independent, .map4k, .isolated]

theorem mem_optionTokens (t : OptionToken) : t ∈ optionTokens := by
  cases t <;> decide

theorem prefixFree_text : PrefixFree OptionToken.text := by
  refine ⟨fun t => ?_, fun t t' => ?_⟩
  · cases t <;> decide
  · cases t <;> cases t' <;> decide

/-- What a token sets. -/
def OptionFlags.add (flags : OptionFlags) : OptionToken → OptionFlags
  | .shared => { flags with shared := true }
  | .independent => { flags with independent := true }
  | .map4k => { flags with map4k := true }
  | .isolated => { flags with isolated := true }

/-- A turn of the loop reads a token. -/
theorem parseOptionsLoop_cons (n : ℕ) (c : Char) (s : List Char) (flags : OptionFlags) :
    parseOptionsLoop (n + 1) (c :: s) flags =
      (firstToken OptionToken.text optionTokens (c :: s)).bind fun x =>
        parseOptionsLoop n x.2 (flags.add x.1) := by
  have hshared : "-shared".toList = OptionToken.text .shared := rfl
  have hindependent : "-independent".toList = OptionToken.text .independent := rfl
  have hmap4k : "-4k".toList = OptionToken.text .map4k := rfl
  have hisolated : "-isolated".toList = OptionToken.text .isolated := rfl
  rw [parseOptionsLoop, hshared, hindependent, hmap4k, hisolated, optionTokens,
    firstToken_cons_bind, firstToken_cons_bind, firstToken_cons_bind, firstToken_cons_bind]
  · -- only what the four tests find matters
    generalize (OptionToken.text .shared).isPrefixOf? (c :: s) = shared
    generalize (OptionToken.text .independent).isPrefixOf? (c :: s) = independent
    generalize (OptionToken.text .map4k).isPrefixOf? (c :: s) = map4k
    generalize (OptionToken.text .isolated).isPrefixOf? (c :: s) = isolated
    cases shared with
    | some rest => rfl
    | none =>
      cases independent with
      | some rest => rfl
      | none =>
        cases map4k with
        | some rest => rfl
        | none => cases isolated <;> rfl
  · exact List.cons_ne_nil c s

/-- **The loop reads tokens.** -/
theorem parseOptionsLoop_eq (n : ℕ) (current : List Char) (flags : OptionFlags) :
    parseOptionsLoop n current flags =
      (readTokens OptionToken.text optionTokens n current).map (·.foldl OptionFlags.add flags) := by
  induction n generalizing current flags with
  | zero => cases current <;> rfl
  | succ n ih =>
    cases current with
    | nil => rfl
    | cons c s =>
      rw [parseOptionsLoop_cons, readTokens, Option.map_bind]
      refine congrArg _ (funext fun x => ?_)
      rw [ih, Function.comp_apply, Option.map_map]
      rfl

/-- **The flags after the loop**: a flag is set if its token occurs. -/
theorem foldl_add (ts : List OptionToken) (flags : OptionFlags) :
    ts.foldl OptionFlags.add flags =
      { shared := flags.shared || decide (.shared ∈ ts)
        independent := flags.independent || decide (.independent ∈ ts)
        isolated := flags.isolated || decide (.isolated ∈ ts)
        map4k := flags.map4k || decide (.map4k ∈ ts) } := by
  induction ts generalizing flags with
  | nil => simp
  | cons t ts ih =>
    rw [List.foldl_cons, ih]
    cases t <;> simp [OptionFlags.add]

/-- The flags that some tokens set. -/
def flagsOf (ts : List OptionToken) : OptionFlags where
  shared := decide (.shared ∈ ts)
  independent := decide (.independent ∈ ts)
  isolated := decide (.isolated ∈ ts)
  map4k := decide (.map4k ∈ ts)

/-- **What the loop finds out.** -/
theorem parseOptionsLoop_iff {opts : List Char} {flags : OptionFlags} :
    parseOptionsLoop opts.length opts {} = some flags ↔
      ∃ ts, opts = render OptionToken.text ts ∧ flags = flagsOf ts := by
  have hflags : ∀ ts : List OptionToken, ts.foldl OptionFlags.add {} = flagsOf ts := by
    intro ts
    rw [foldl_add]
    simp [flagsOf]
  rw [parseOptionsLoop_eq, Option.map_eq_some_iff]
  refine exists_congr fun ts => ?_
  rw [prefixFree_text.readTokens_iff (Nat.le_refl _), hflags, eq_comm (a := flags)]
  exact and_congr_left fun _ => and_iff_right fun t _ => mem_optionTokens t

/-! ### The configuration -/

/-- **`vmops_utils_parse_options`**, with the configuration that it writes to. -/
def parseOptions (opts : List Char) : StateM VmopsBenchCfg ℤ := do
  match parseOptionsLoop opts.length opts {} with
  | none => return -1
  | some flags =>
    if flags.shared && flags.independent then return -1
    else
      let shared := if !(flags.shared || flags.independent) then true else flags.shared
      modify fun cfg => { cfg with shared := shared }
      modify fun cfg => { cfg with isolated := flags.isolated }
      modify fun cfg => { cfg with map4k := flags.map4k }
      return 0

/-- It is the function from before. -/
theorem parseOptions_eq (opts : List Char) (cfg : VmopsBenchCfg) :
    (parseOptions opts).run cfg = match vmopsUtilsParseOptions opts cfg with
      | some cfg' => (0, cfg')
      | none => (-1, cfg) := by
  rw [parseOptions, vmopsUtilsParseOptions]
  cases parseOptionsLoop opts.length opts {} with
  | none => rfl
  | some flags =>
    dsimp only
    split <;> rfl

/-- **The configuration that some tokens ask for.** Memory is shared unless it is to be
independent. -/
def configured (ts : List OptionToken) (cfg : VmopsBenchCfg) : VmopsBenchCfg :=
  { cfg with
    shared := decide (.independent ∉ ts)
    isolated := decide (.isolated ∈ ts)
    map4k := decide (.map4k ∈ ts) }

/-- Tokens that contradict each other. -/
def Contradictory (ts : List OptionToken) : Prop := .shared ∈ ts ∧ .independent ∈ ts

/-- Without tokens there is an error, and nothing is written. -/
theorem parseOptions_of_none {opts : List Char} (h : parseOptionsLoop opts.length opts {} = none)
    (cfg : VmopsBenchCfg) : (parseOptions opts).run cfg = (-1, cfg) := by
  rw [parseOptions, h]
  rfl

/-- Contradictory tokens are an error, too. -/
theorem parseOptions_of_contradictory {opts : List Char} {ts : List OptionToken}
    (h : parseOptionsLoop opts.length opts {} = some (flagsOf ts)) (hts : Contradictory ts)
    (cfg : VmopsBenchCfg) : (parseOptions opts).run cfg = (-1, cfg) := by
  have hboth : ((flagsOf ts).shared && (flagsOf ts).independent) = true := by
    simp [flagsOf, hts.1, hts.2]
  rw [parseOptions, h]
  dsimp only
  rw [if_pos hboth]
  rfl

/-- Other tokens are written to the configuration. -/
theorem parseOptions_of_some {opts : List Char} {ts : List OptionToken}
    (h : parseOptionsLoop opts.length opts {} = some (flagsOf ts)) (hts : ¬Contradictory ts)
    (cfg : VmopsBenchCfg) : (parseOptions opts).run cfg = (0, configured ts cfg) := by
  have hboth : ¬((flagsOf ts).shared && (flagsOf ts).independent) = true := by
    intro hboth
    refine hts ?_
    simpa [flagsOf, Contradictory] using hboth
  have hshared : (if !((flagsOf ts).shared || (flagsOf ts).independent) then true
      else (flagsOf ts).shared) = decide (.independent ∉ ts) := by
    by_cases hs : OptionToken.shared ∈ ts
    · have hi : OptionToken.independent ∉ ts := fun hi => hts ⟨hs, hi⟩
      simp [flagsOf, hs, hi]
    · by_cases hi : OptionToken.independent ∈ ts <;> simp [flagsOf, hs, hi]
  rw [parseOptions, h]
  dsimp only
  rw [if_neg hboth, hshared]
  rfl

/-- The function from before, on the options that are accepted. -/
theorem vmopsUtilsParseOptions_eq_some_iff {opts : List Char} {cfg cfg' : VmopsBenchCfg} :
    vmopsUtilsParseOptions opts cfg = some cfg' ↔
      ∃ ts, opts = render OptionToken.text ts ∧ ¬Contradictory ts ∧ cfg' = configured ts cfg := by
  have hrun : vmopsUtilsParseOptions opts cfg = some cfg' ↔
      (parseOptions opts).run cfg = (0, cfg') := by
    rw [parseOptions_eq]
    cases vmopsUtilsParseOptions opts cfg with
    | none => exact iff_of_false nofun fun h => by cases h
    | some cfg₁ => exact ⟨fun h => by cases h; rfl, fun h => by cases h; rfl⟩
  rw [hrun]
  constructor
  · intro h
    cases hloop : parseOptionsLoop opts.length opts {} with
    | none =>
      rw [parseOptions_of_none hloop] at h
      cases h
    | some flags =>
      obtain ⟨ts, hts, rfl⟩ := parseOptionsLoop_iff.mp hloop
      by_cases hboth : Contradictory ts
      · rw [parseOptions_of_contradictory hloop hboth] at h
        cases h
      · rw [parseOptions_of_some hloop hboth] at h
        exact ⟨ts, hts, hboth, (Prod.mk.inj h).2.symm⟩
  · rintro ⟨ts, rfl, hts, rfl⟩
    exact parseOptions_of_some (parseOptionsLoop_iff.mpr ⟨ts, rfl, rfl⟩) hts cfg

/-- **The parser recognises the sequences of tokens that are not contradictory**, writes what they
ask for, and otherwise leaves the configuration as it is. -/
theorem parseOptions_iff (opts : List Char) (cfg : VmopsBenchCfg) :
    (((parseOptions opts).run cfg).1 = 0 ↔
      ∃ ts, opts = render OptionToken.text ts ∧ ¬Contradictory ts) ∧
    (∀ ts, opts = render OptionToken.text ts → ¬Contradictory ts →
      (parseOptions opts).run cfg = (0, configured ts cfg)) ∧
    (((parseOptions opts).run cfg).1 ≠ 0 → (parseOptions opts).run cfg = (-1, cfg)) := by
  have hread : ∀ ts, opts = render OptionToken.text ts →
      parseOptionsLoop opts.length opts {} = some (flagsOf ts) :=
    fun ts hts => parseOptionsLoop_iff.mpr ⟨ts, hts, rfl⟩
  have hsome : ∀ ts, opts = render OptionToken.text ts → ¬Contradictory ts →
      (parseOptions opts).run cfg = (0, configured ts cfg) :=
    fun ts hts hne => parseOptions_of_some (hread ts hts) hne cfg
  have hfail : (¬∃ ts, opts = render OptionToken.text ts ∧ ¬Contradictory ts) →
      (parseOptions opts).run cfg = (-1, cfg) := by
    intro hnone
    cases hloop : parseOptionsLoop opts.length opts {} with
    | none => exact parseOptions_of_none hloop cfg
    | some flags =>
      -- the loop has gone through, so it is the tokens that contradict each other
      obtain ⟨ts, hts, -⟩ := parseOptionsLoop_iff.mp hloop
      refine parseOptions_of_contradictory (hread ts hts) ?_ cfg
      by_contra hne
      exact hnone ⟨ts, hts, hne⟩
  have hiff : ((parseOptions opts).run cfg).1 = 0 ↔
      ∃ ts, opts = render OptionToken.text ts ∧ ¬Contradictory ts := by
    constructor
    · intro h
      by_contra hnone
      rw [hfail hnone] at h
      cases h
    · rintro ⟨ts, hts, hne⟩
      rw [hsome ts hts hne]
  exact ⟨hiff, hsome, fun h => hfail fun hex => h (hiff.mpr hex)⟩

example : ((parseOptions "-4k-isolated-4k".toList).run twoThreads).1 = 0 := by decide

end VmopsBench

import Mathlib

/-!
# Options on a command line

`getopt` of the C library, as the sequence of the values that its calls return
(`Getopt.getopts`). The argument of an option is the rest of its element of `argv`, if it is
not empty, and otherwise the whole next element, whatever that looks like; so an element is read
knowing whether an option before it is still waiting (`Getopt.getopts_waiting`).

The GNU function goes past elements that are no options, and the POSIX one stops at the first of
them. Which it is depends on the library and on the environment, hence the parameter `posix`.
Option strings are the plain ones, in which no argument is optional.

Nothing is invented on the way: an argument of an option is nonempty, unless an element is empty,
and a suffix of an element (`Getopt.optarg_of_mem_getopts`).
-/

namespace Getopt

/-! ### The options -/

/-- How a letter is used by an option string: nothing if it is no option, and otherwise whether it
takes an argument. The characters `:` and `;` are never options. -/
def takesArg (optstring : List Char) (c : Char) : Option Bool :=
  if c = ':' || c = ';' then none
  else match optstring.dropWhile (· != c) with
    | [] => none
    | _ :: rest => some (rest.head? = some ':')

/-- **What a call returns**, except for the last one. -/
inductive Opt where
  | flag (c : Char)
  | withArg (c : Char) (optarg : List Char)
  /-- `'?'`, since the letter is no option. -/
  | unknown (c : Char)
  /-- `'?'`, since the argument is missing. -/
  | missing (c : Char)
  deriving DecidableEq

/-- The letter of an option. -/
def Opt.letter : Opt → Char
  | .flag c | .withArg c _ | .unknown c | .missing c => c

/-- What an element of `argv` is, if no option is waiting. -/
inductive Element where
  /-- `--`, the end of the options. -/
  | stop
  | options (s : List Char)
  | operand

/-- The kind of an element. A single `-` is an operand. -/
def element : List Char → Element
  | ['-', '-'] => .stop
  | '-' :: c :: rest => .options (c :: rest)
  | _ => .operand

/-- The letters of an element of `argv`: the options, and the letter that is left waiting for
its argument. -/
def letters (optstring : List Char) : List Char → List Opt × Option Char
  | [] => ([], none)
  | c :: rest => match takesArg optstring c with
    | none => let (opts, waiting) := letters optstring rest
      (.unknown c :: opts, waiting)
    | some false => let (opts, waiting) := letters optstring rest
      (.flag c :: opts, waiting)
    | some true => if rest.isEmpty then ([], some c) else ([.withArg c rest], none)

/-- **The values that `getopt` returns** on the elements of `argv` after the first one; `waiting`
is the option before these that has not got its argument yet. -/
def getopts (posix : Bool) (optstring : List Char) : Option Char → List (List Char) → List Opt
  | none, [] => []
  | some c, [] => [.missing c]
  | some c, arg :: argv => .withArg c arg :: getopts posix optstring none argv
  | none, arg :: argv => match element arg with
    | .stop => []
    | .options s =>
      let (opts, waiting) := letters optstring s
      opts ++ getopts posix optstring waiting argv
    | .operand => if posix then [] else getopts posix optstring none argv

variable {posix : Bool} {optstring : List Char}

/-! ### Reading an element -/

/-- The option that is waiting takes the next element. -/
theorem getopts_waiting (c : Char) (arg : List Char) (argv : List (List Char)) :
    getopts posix optstring (some c) (arg :: argv) =
      .withArg c arg :: getopts posix optstring none argv := rfl

/-- **An option and its argument** in an element of its own. -/
theorem getopts_option {c : Char} (h : takesArg optstring c = some true) (hc : c ≠ '-')
    (arg : List Char) (argv : List (List Char)) :
    getopts posix optstring none (['-', c] :: arg :: argv) =
      .withArg c arg :: getopts posix optstring none argv := by
  have hletters : letters optstring [c] = ([], some c) := by
    rw [letters, h]
    rfl
  have helement : element ['-', c] = .options [c] := element.eq_2 c [] fun heq _ => hc heq
  rw [getopts, helement]
  simp only [hletters]
  exact getopts_waiting c arg argv

/-- Some options, each followed by its argument in an element of its own. -/
def optionWords (opts : List (Char × List Char)) : List (List Char) :=
  opts.flatMap fun o => [['-', o.1], o.2]

theorem optionWords_cons (o : Char × List Char) (opts : List (Char × List Char)) :
    optionWords (o :: opts) = ['-', o.1] :: o.2 :: optionWords opts := rfl

/-- **Options with their arguments** are read as such. -/
theorem getopts_optionWords (opts : List (Char × List Char))
    (h : ∀ c ∈ opts.map Prod.fst, takesArg optstring c = some true ∧ c ≠ '-') :
    getopts posix optstring none (optionWords opts) = opts.map fun o => .withArg o.1 o.2 := by
  induction opts with
  | nil => rfl
  | cons o opts ih =>
    obtain ⟨htakes, hdash⟩ := h o.1 List.mem_cons_self
    rw [optionWords_cons, getopts_option htakes hdash, List.map_cons,
      ih fun c hc => h c (List.mem_cons_of_mem _ hc)]

/-! ### Where the arguments come from -/

theorem options_suffix {arg s : List Char} (h : element arg = .options s) : s <:+ arg := by
  rw [element.eq_def] at h
  split at h
  · cases h
  · obtain rfl := Element.options.inj h
    exact List.suffix_cons _ _
  · cases h

theorem optarg_of_mem_letters {c : Char} {optarg : List Char} {s : List Char}
    (h : .withArg c optarg ∈ (letters optstring s).1) : optarg ≠ [] ∧ optarg <:+ s := by
  induction s with
  | nil => cases h
  | cons d rest ih =>
    rw [letters] at h
    -- a letter that takes no argument leaves it to the ones after it
    have hlater : .withArg c optarg ∈ (letters optstring rest).1 →
        optarg ≠ [] ∧ optarg <:+ d :: rest := fun hmem =>
      ⟨(ih hmem).1, (ih hmem).2.trans (List.suffix_cons d rest)⟩
    split at h
    · rcases List.mem_cons.mp h with heq | hmem
      · cases heq
      · exact hlater hmem
    · rcases List.mem_cons.mp h with heq | hmem
      · cases heq
      · exact hlater hmem
    · split at h
      · cases h
      · rename_i hne
        obtain ⟨rfl, rfl⟩ := Opt.withArg.inj (List.mem_singleton.mp h)
        exact ⟨by simpa using hne, List.suffix_cons _ _⟩

/-- **The argument of an option** is a suffix of an element, and a proper part of the text if the
elements are. -/
theorem optarg_of_mem_getopts {c : Char} {optarg : List Char} {waiting : Option Char}
    {argv : List (List Char)} (hargv : ∀ arg ∈ argv, arg ≠ [])
    (h : .withArg c optarg ∈ getopts posix optstring waiting argv) :
    optarg ≠ [] ∧ ∃ arg ∈ argv, optarg <:+ arg := by
  induction argv generalizing waiting with
  | nil =>
    cases waiting with
    | none => cases h
    | some d => cases List.mem_singleton.mp h
  | cons arg argv ih =>
    have harg : arg ≠ [] := hargv arg List.mem_cons_self
    have hlater : ∀ {waiting}, .withArg c optarg ∈ getopts posix optstring waiting argv →
        optarg ≠ [] ∧ ∃ arg' ∈ arg :: argv, optarg <:+ arg' := by
      intro waiting hmem
      obtain ⟨hne, arg', hmem', hsuffix⟩ :=
        ih (fun a ha => hargv a (List.mem_cons_of_mem _ ha)) hmem
      exact ⟨hne, arg', List.mem_cons_of_mem _ hmem', hsuffix⟩
    cases waiting with
    | some d =>
      -- the element is the argument of the option before it, whatever it looks like
      rcases List.mem_cons.mp h with heq | hmem
      · obtain ⟨-, rfl⟩ := Opt.withArg.inj heq
        exact ⟨harg, optarg, List.mem_cons_self, List.suffix_rfl⟩
      · exact hlater hmem
    | none =>
      rw [getopts] at h
      split at h
      · cases h
      · rename_i s helement
        rcases List.mem_append.mp h with hmem | hmem
        · obtain ⟨hne, hsuffix⟩ := optarg_of_mem_letters hmem
          exact ⟨hne, arg, List.mem_cons_self, hsuffix.trans (options_suffix helement)⟩
        · exact hlater hmem
      · split at h
        · cases h
        · exact hlater h

end Getopt

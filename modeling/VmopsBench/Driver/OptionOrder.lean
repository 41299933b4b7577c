import VmopsBench.Driver.CoresList
import VmopsBench.Interact.Total

/-!
# The order of the options

Most cases of the `switch` of `main` set something that no other case sets, so that it makes no
difference which of the options comes first. The exception are `-n` and `-t`: the limit on the
operations takes back the limit on the time, and the limit on the time does not take back the one on
the operations. With `-n 3 -t 5` there are both of them, and with `-t 5 -n 3` the time is
unlimited.

So for options with different letters, in any two orders, the loop ends with the same settings
exactly if these two are in the same order both times, or the limit on the time is zero anyway
(`VmopsBench.optionOrder_iff`). What an option does is given as a function on settings
(`VmopsBench.applyOption`), and two of these functions commute unless they are those two
(`VmopsBench.applyRest_comm`).
-/

namespace VmopsBench

open Interact Getopt Numeral

/-! ### What an option does -/

/-- **What the options set**, except for the files: `cfg`, `ncores` and `numa_topology`. -/
structure Settings where
  cfg : VmopsBenchCfg
  ncores : BitVec 32
  numaTopology : PlatTopoNuma

/-- The settings among the variables. -/
def MainVars.settings (s : MainVars) : Settings := ⟨s.cfg, s.ncores, s.numaTopology⟩

/-- What `malloc` answers to a request for a number of core ids. -/
abbrev Malloc := ℕ → Option (ℕ → BitVec 32)

/-- **What `malloc` answers is given**; any file may be opened or not. -/
def allocating (malloc : Malloc) : Spec optionSig Unit where
  pre _ _ := True
  env _ c r := match c, r with
    | .mallocCores n, r => r = malloc n
    | .fopen _, _ => True
  upd _ _ _ := ()

/-- The result of `parse_cores_list`. -/
def coresResult (malloc : Malloc) (optarg : List Char) :
    Except Halt (Option (List (BitVec 32) × BitVec 32)) :=
  if (cstring optarg).head?.any Char.isDigit then
    match malloc (1 + (cstring optarg).count ',') with
    | none => .ok none
    | some block => parsed (cstring optarg) block
  else .error (.exit .failure)

/-- **The options that do not end the program.** -/
inductive Accepted (malloc : Malloc) : Opt → Prop where
  | huge : Accepted malloc (.flag 'l')
  | procs (optarg : List Char) : Accepted malloc (.withArg 'p' optarg)
  | cores {optarg : List Char} {o : Option (List (BitVec 32) × BitVec 32)}
    (h : coresResult malloc optarg = .ok o) : Accepted malloc (.withArg 'c' optarg)
  | interleave : Accepted malloc (.flag 'i')
  | memsize (optarg : List Char) : Accepted malloc (.withArg 'm' optarg)
  | ops (optarg : List Char) : Accepted malloc (.withArg 'n' optarg)
  | benchmark (optarg : List Char) : Accepted malloc (.withArg 'b' optarg)
  | time (optarg : List Char) : Accepted malloc (.withArg 't' optarg)
  | stats (optarg : List Char) : Accepted malloc (.withArg 's' optarg)
  | rate (optarg : List Char) : Accepted malloc (.withArg 'r' optarg)
  | throughput (optarg : List Char) : Accepted malloc (.withArg 'o' optarg)
  | latency (optarg : List Char) : Accepted malloc (.withArg 'z' optarg)

/-- What an option does to the settings, the limit on the time excepted. -/
def applyRest (malloc : Malloc) (s : Settings) : Opt → Settings
  | .flag 'l' => { s with cfg.maphuge := true }
  | .withArg 'p' optarg => { s with ncores := (strtoul 64 optarg).setWidth 32 }
  | .withArg 'c' optarg =>
    match coresResult malloc optarg with
    | .ok (some (coreslist, n)) => { s with cfg.coreslist := coreslist, cfg.corelistSize := n }
    | _ => s
  | .flag 'i' => { s with numaTopology := .interleave, cfg.numainterleave := true }
  | .withArg 'm' optarg => { s with cfg.memsize := strtoul 64 optarg }
  | .withArg 'n' optarg => { s with cfg.nops := strtoul 64 optarg }
  | .withArg 'b' optarg => { s with cfg.benchmark := optarg }
  | .withArg 's' optarg => { s with cfg.stats := (strtoul 64 optarg).setWidth 32 }
  | .withArg 'r' optarg => { s with cfg.rate := (strtoul 64 optarg).setWidth 32 }
  | _ => s

/-- What an option does to the limit on the time. -/
def applyTime (timeMs : BitVec 32) : Opt → BitVec 32
  | .withArg 'n' _ => 0
  | .withArg 't' optarg => (strtoul 64 optarg).setWidth 32
  | _ => timeMs

/-- The settings with another limit on the time. -/
def Settings.withTime (s : Settings) (timeMs : BitVec 32) : Settings :=
  { s with cfg.timeMs := timeMs }

/-- **What an option does to the settings.** -/
def applyOption (malloc : Malloc) (s : Settings) (o : Opt) : Settings :=
  (applyRest malloc s o).withTime (applyTime s.cfg.timeMs o)

section Commute

variable {malloc : Malloc} {o o' : Opt} {opts opts' : List Opt}

/-- What `-c` does depends on its argument, and not on the other settings. -/
theorem applyRest_cores_comm (ho : Accepted malloc o) (hne : o.letter ≠ 'c') (optarg : List Char)
    (s : Settings) : applyRest malloc (applyRest malloc s (.withArg 'c' optarg)) o =
      applyRest malloc (applyRest malloc s o) (.withArg 'c' optarg) := by
  have hcores : (∀ s, applyRest malloc s (.withArg 'c' optarg) = s) ∨
      ∃ coreslist n, ∀ s, applyRest malloc s (.withArg 'c' optarg) =
        { s with cfg.coreslist := coreslist, cfg.corelistSize := n } := by
    rcases hresult : coresResult malloc optarg with e | _ | ⟨coreslist, n⟩
    · exact Or.inl fun s => by rw [applyRest, hresult]
    · exact Or.inl fun s => by rw [applyRest, hresult]
    · exact Or.inr ⟨coreslist, n, fun s => by rw [applyRest, hresult]⟩
  rcases hcores with hsame | ⟨coreslist, n, hset⟩
  · rw [hsame, hsame]
  · rw [hset, hset]
    cases ho with
    | cores => exact absurd rfl hne
    | _ => rfl

/-- **Options with different letters commute**, if it were not for the limit on the time. -/
theorem applyRest_comm (ho : Accepted malloc o) (ho' : Accepted malloc o')
    (hne : o.letter ≠ o'.letter) (s : Settings) :
    applyRest malloc (applyRest malloc s o) o' = applyRest malloc (applyRest malloc s o') o := by
  have hfirst := ho
  cases ho with
  | cores => exact applyRest_cores_comm ho' hne.symm _ s
  | _ =>
    cases ho' with
    | cores => exact (applyRest_cores_comm hfirst hne _ s).symm
    | _ => first | rfl | exact absurd rfl hne

/-- The limit on the time is no concern of the other settings. -/
theorem applyRest_withTime (ho : Accepted malloc o) (s : Settings) (timeMs : BitVec 32) :
    applyRest malloc (s.withTime timeMs) o = (applyRest malloc s o).withTime timeMs := by
  cases ho with
  | cores h =>
    rw [applyRest, applyRest, h]
    split <;> rfl
  | _ => rfl

theorem foldl_applyRest_withTime (hopts : ∀ o ∈ opts, Accepted malloc o) (s : Settings)
    (timeMs : BitVec 32) : opts.foldl (applyRest malloc) (s.withTime timeMs) =
      (opts.foldl (applyRest malloc) s).withTime timeMs := by
  induction opts generalizing s with
  | nil => rfl
  | cons o opts ih =>
    obtain ⟨ho, hopts⟩ := List.forall_mem_cons.mp hopts
    rw [List.foldl_cons, List.foldl_cons, applyRest_withTime ho]
    exact ih hopts _

/-- **The limit on the time can be told apart** from what else the options do. -/
theorem foldl_applyOption (hopts : ∀ o ∈ opts, Accepted malloc o) (s : Settings) :
    opts.foldl (applyOption malloc) s =
      (opts.foldl (applyRest malloc) s).withTime (opts.foldl applyTime s.cfg.timeMs) := by
  induction opts generalizing s with
  | nil => rfl
  | cons o opts ih =>
    obtain ⟨ho, hopts⟩ := List.forall_mem_cons.mp hopts
    rw [List.foldl_cons, List.foldl_cons, List.foldl_cons, ih hopts, applyOption,
      foldl_applyRest_withTime hopts]
    rfl

/-- **The other settings do not depend on the order.** -/
theorem foldl_applyRest_perm (hopts : ∀ o ∈ opts, Accepted malloc o)
    (hletters : (opts.map Opt.letter).Nodup) (hperm : opts.Perm opts') (s : Settings) :
    opts.foldl (applyRest malloc) s = opts'.foldl (applyRest malloc) s := by
  refine hperm.foldl_eq' (fun o ho o' ho' s => ?_) s
  rcases eq_or_ne o o' with rfl | hne
  · rfl
  · refine applyRest_comm (hopts o ho) (hopts o' ho') (fun heq => hne ?_) s
    exact List.inj_on_of_nodup_map hletters ho ho' heq

/-! ### The limits -/

/-- The options `-n` and `-t`, as they come. -/
def limits (opts : List Opt) : List Opt :=
  opts.filter fun o => o.letter = 'n' || o.letter = 't'

theorem foldl_applyTime_limits (opts : List Opt) (timeMs : BitVec 32) :
    (limits opts).foldl applyTime timeMs = opts.foldl applyTime timeMs := by
  induction opts generalizing timeMs with
  | nil => rfl
  | cons o opts ih =>
    rw [limits, List.filter_cons]
    split
    · exact ih _
    · next hother =>
      have hsame : applyTime timeMs o = timeMs := by
        rw [applyTime.eq_def]
        split
        · exact absurd rfl hother
        · exact absurd rfl hother
        · rfl
      rw [List.foldl_cons, hsame]
      exact ih _

/-- There is no limit on the time among the options, or it is zero. -/
def NoTime (opts : List Opt) : Prop :=
  ∀ optarg, .withArg 't' optarg ∈ opts → (strtoul 64 optarg).setWidth 32 = 0#32

/-- **The limits among options with different letters**: one of each kind at most. -/
inductive LimitsForm : List Opt → Prop where
  | none : LimitsForm []
  | one (o : Opt) : LimitsForm [o]
  | opsTime (nops timeMs : List Char) : LimitsForm [.withArg 'n' nops, .withArg 't' timeMs]
  | timeOps (timeMs nops : List Char) : LimitsForm [.withArg 't' timeMs, .withArg 'n' nops]

theorem limitsForm (hopts : ∀ o ∈ opts, Accepted malloc o)
    (hletters : (opts.map Opt.letter).Nodup) : LimitsForm (limits opts) := by
  have hform : ∀ o ∈ limits opts, ∃ optarg, o = .withArg 'n' optarg ∨ o = .withArg 't' optarg := by
    intro o ho
    obtain ⟨hmem, hletter⟩ := List.mem_filter.mp ho
    cases hopts o hmem with
    | ops optarg => exact ⟨optarg, Or.inl rfl⟩
    | time optarg => exact ⟨optarg, Or.inr rfl⟩
    | _ => exact absurd hletter Bool.false_ne_true
  have hnodup : ((limits opts).map Opt.letter).Nodup :=
    hletters.sublist (List.filter_sublist.map _)
  match hlims : limits opts with
  | [] => exact .none
  | [o] => exact .one o
  | [o, o'] =>
    rw [hlims] at hform hnodup
    have hne : o.letter ≠ o'.letter := by simpa using hnodup
    obtain ⟨optarg, rfl | rfl⟩ := hform o (by simp) <;>
      obtain ⟨optarg', rfl | rfl⟩ := hform o' (by simp)
    · exact absurd rfl hne
    · exact .opsTime optarg optarg'
    · exact .timeOps optarg optarg'
    · exact absurd rfl hne
  | o :: o' :: o'' :: rest =>
    -- there are not three letters
    rw [hlims] at hform hnodup
    simp only [List.map_cons, List.nodup_cons, List.mem_cons, not_or] at hnodup
    obtain ⟨⟨hne, hne', -⟩, ⟨hne'', -⟩, -⟩ := hnodup
    obtain ⟨_, rfl | rfl⟩ := hform o (by simp) <;>
      obtain ⟨_, rfl | rfl⟩ := hform o' (by simp) <;>
        obtain ⟨_, rfl | rfl⟩ := hform o'' (by simp) <;>
          first | exact absurd rfl hne | exact absurd rfl hne' | exact absurd rfl hne''

theorem noTime_limits : NoTime (limits opts) ↔ NoTime opts := by
  refine forall_congr' fun optarg => imp_congr_left ?_
  rw [limits, List.mem_filter]
  exact and_iff_left rfl

/-- **When two orders of the limits set the same time.** -/
theorem LimitsForm.foldl_applyTime_iff {lims lims' : List Opt} (h : LimitsForm lims)
    (hperm : lims.Perm lims') (timeMs : BitVec 32) :
    lims.foldl applyTime timeMs = lims'.foldl applyTime timeMs ↔ lims = lims' ∨ NoTime lims := by
  have hsame : lims = lims' → (lims.foldl applyTime timeMs = lims'.foldl applyTime timeMs ↔
      lims = lims' ∨ NoTime lims) := fun heq => iff_of_true (by rw [heq]) (Or.inl heq)
  cases h with
  | none => exact hsame hperm.nil_eq
  | one o => exact hsame (List.perm_singleton.mp hperm.symm).symm
  | opsTime nops time =>
    rcases List.pair_perm.mp hperm with rfl | rfl
    · exact hsame rfl
    · have htime : NoTime [.withArg 'n' nops, .withArg 't' time] ↔
          (strtoul 64 time).setWidth 32 = 0#32 := by simp [NoTime]
      rw [or_iff_right (by simp), htime]
      exact Iff.rfl
  | timeOps time nops =>
    rcases List.pair_perm.mp hperm with rfl | rfl
    · exact hsame rfl
    · have htime : NoTime [.withArg 't' time, .withArg 'n' nops] ↔
          (strtoul 64 time).setWidth 32 = 0#32 := by simp [NoTime]
      rw [or_iff_right (by simp), htime]
      exact eq_comm

end Commute

/-! ### The loop -/

/-- **What came of some options**: the settings that they make, or an error if one of them is not
accepted. -/
def Outcome (malloc : Malloc) (s : MainVars) (opts : List Opt) (r : Except Halt MainVars) : Prop :=
  ((∀ o ∈ opts, Accepted malloc o) ∧
    ∃ s', r = .ok s' ∧ s'.settings = opts.foldl (applyOption malloc) s.settings) ∨
  (¬∀ o ∈ opts, Accepted malloc o) ∧ ∃ e, r = .error e

section Loop

variable {malloc : Malloc}

/-- **The result of `parse_cores_list`**, when it is known what `malloc` answers. -/
theorem ends_parseCoresList (optarg : List Char) :
    Ends (allocating malloc) (fun o _ => o = coresResult malloc optarg) (parseCoresList optarg)
      () := by
  rw [parseCoresList, coresResult]
  dsimp only
  by_cases hlen : (cstring optarg).length = 0
  · rw [if_pos hlen, List.eq_nil_of_length_eq_zero hlen]
    exact .ret rfl
  · rw [if_neg hlen]
    cases hdigit : (cstring optarg).head?.any Char.isDigit with
    | false => exact .ret rfl
    | true =>
      refine Ends.call trivial ?_
      rintro block rfl
      cases malloc (1 + (cstring optarg).count ',') with
      | none => exact .ret rfl
      | some block =>
        dsimp only [Prog.bind]
        have hends : ∃ r, Run (Prog.whileLoop (S := optionSig)
            (fun s : CoresScan => s.current < (cstring optarg).length)
            (fun s => Prog.ret (coresTurn (1 + (cstring optarg).count ',') s))
            ⟨cstring optarg, 0, 0, 0, block⟩) [] (Prog.ret r) := scanLoop_ends le_rfl
        obtain ⟨r, hrun⟩ := hends
        have hr : r.map CoresScan.coreslist = storeFields block 0 (fields (cstring optarg)) :=
          of_run hrun (wp_scanLoop (scanning_start optarg block))
        refine Ends.bind (Ends.of_silent_run hrun (Ends.ret (Ends.ret ?_)))
        show r.map _ = parsed (cstring optarg) block
        rw [parsed, ← hr, length_fields]
        cases r <;> rfl

theorem ends_openResults (path : List Char) :
    Ends (allocating malloc) (fun _ _ => True) (openResults path) () := by
  refine Ends.call trivial fun file _ => ?_
  cases file <;> exact .ret trivial

theorem outcome_ok {s s' : MainVars} {o : Opt} (ho : Accepted malloc o)
    (h : s'.settings = applyOption malloc s.settings o) : Outcome malloc s [o] (.ok s') :=
  Or.inl ⟨List.forall_mem_singleton.mpr ho, s', rfl, h⟩

theorem outcome_error {s : MainVars} {o : Opt} (ho : ¬Accepted malloc o) (e : Halt) :
    Outcome malloc s [o] (.error e) :=
  Or.inr ⟨fun h => ho (List.forall_mem_singleton.mp h), e, rfl⟩

/-- **One option.** -/
theorem ends_optionSwitch (s : MainVars) (o : Opt) :
    Ends (allocating malloc) (fun r _ => Outcome malloc s [o] r) (optionSwitch s o) () := by
  rw [optionSwitch.eq_def]
  split
  case h_3 optarg =>
    refine .bind ((ends_parseCoresList optarg).mono fun r _ hr => ?_)
    rcases hresult : coresResult malloc optarg with e | _ | ⟨coreslist, n⟩
    · obtain rfl := hr.trans hresult
      refine .ret (outcome_error (fun ho => ?_) e)
      cases ho with
      | cores h =>
        rw [hresult] at h
        cases h
    · obtain rfl := hr.trans hresult
      refine .ret (outcome_ok (.cores hresult) ?_)
      rw [applyOption, applyRest, hresult]
      rfl
    · obtain rfl := hr.trans hresult
      refine .ret (outcome_ok (.cores hresult) ?_)
      rw [applyOption, applyRest, hresult]
      rfl
  case h_11 optarg | h_12 optarg =>
    refine .bind ((ends_openResults optarg).mono fun file _ _ => ?_)
    exact .ret (outcome_ok (by constructor) rfl)
  case h_13 => exact .ret (outcome_error (fun ho => by cases ho) _)
  case h_14 =>
    refine .ret (outcome_error (fun ho => ?_) _)
    cases ho <;> simp_all
  all_goals exact .ret (outcome_ok (by constructor) rfl)

/-- **All options.** -/
theorem ends_optionLoop (s : MainVars) (opts : List Opt) :
    Ends (allocating malloc) (fun r _ => Outcome malloc s opts r) (optionLoop s opts) () := by
  induction opts generalizing s with
  | nil => exact .ret (Or.inl ⟨nofun, s, rfl, rfl⟩)
  | cons o opts ih =>
    refine .bind ((ends_optionSwitch s o).mono fun r _ hr => ?_)
    rcases hr with ⟨ho, s', rfl, hs'⟩ | ⟨ho, e, rfl⟩
    · refine (ih s').mono fun r _ hr => ?_
      have ho := List.forall_mem_singleton.mp ho
      rcases hr with ⟨hopts, s'', rfl, hs''⟩ | ⟨hopts, e, rfl⟩
      · refine Or.inl ⟨List.forall_mem_cons.mpr ⟨ho, hopts⟩, s'', rfl, ?_⟩
        rw [hs'', hs']
        rfl
      · exact Or.inr ⟨fun hall => hopts (List.forall_mem_cons.mp hall).2, e, rfl⟩
    · refine .ret (Or.inr ⟨fun hall => ho (List.forall_mem_singleton.mpr ?_), e, rfl⟩)
      exact (List.forall_mem_cons.mp hall).1

end Loop

/-- **When the order of the options makes no difference.** The options of the two command lines are
the same, with different letters, and on the first one the loop accepts them. Then it accepts them
on the second one, and ends with the same settings if and only if `-n` and `-t` come in the same
order, or the limit on the time is zero. -/
theorem optionOrder_iff {posix : Bool} {malloc : Malloc} {args args' : List (List Char)}
    {tr : List (Event optionSig)} {s : MainVars}
    (hperm : (getopts posix optstring none args).Perm (getopts posix optstring none args'))
    (hletters : ((getopts posix optstring none args).map Opt.letter).Nodup)
    (hrun : Run (getoptLoop posix args) tr (.ret (.ok s)))
    (hmalloc : (allocating malloc).Admits () tr) :
    Ends (allocating malloc) (fun r _ => ∃ s', r = .ok s' ∧ (s'.settings = s.settings ↔
      limits (getopts posix optstring none args) = limits (getopts posix optstring none args') ∨
        NoTime (getopts posix optstring none args))) (getoptLoop posix args') () := by
  have hfirst := (Ends.of_run hrun (ends_optionLoop initVars _) hmalloc).of_ret
  rw [getoptLoop]
  generalize getopts posix optstring none args = opts at *
  generalize getopts posix optstring none args' = opts' at *
  rcases hfirst with ⟨hopts, s₁, ⟨⟩, hs⟩ | ⟨-, e, ⟨⟩⟩
  have hopts' : ∀ o ∈ opts', Accepted malloc o := fun o ho => hopts o (hperm.mem_iff.mpr ho)
  refine (ends_optionLoop initVars opts').mono fun r _ hr => ?_
  obtain ⟨-, s', rfl, hs'⟩ := hr.resolve_right fun h => h.1 hopts'
  refine ⟨s', rfl, ?_⟩
  have hlims : (limits opts).Perm (limits opts') := hperm.filter _
  have htimes := (limitsForm hopts hletters).foldl_applyTime_iff hlims initVars.settings.cfg.timeMs
  rw [foldl_applyTime_limits, foldl_applyTime_limits, noTime_limits] at htimes
  rw [← htimes, hs', hs, foldl_applyOption hopts, foldl_applyOption hopts',
    ← foldl_applyRest_perm hopts hletters hperm]
  constructor
  · intro heq
    exact (congrArg (fun s : Settings => s.cfg.timeMs) heq).symm
  · intro heq
    rw [heq]

/-- The number of operations and the size of the memory, in both orders. -/
theorem optionOrder_ops_memsize : ∃ s tr s',
    Run (getoptLoop false (optionWords [('n', ['3']), ('m', ['1'])])) [] (.ret (.ok s)) ∧
    Run (getoptLoop false (optionWords [('m', ['1']), ('n', ['3'])])) tr (.ret (.ok s')) ∧
      s'.settings = s.settings := by
  have hanswer : ∀ g c, ∃ r, (allocating fun _ => none).env g c r := fun _ c => by
    cases c with
    | mallocCores n => exact ⟨none, rfl⟩
    | fopen path => exact ⟨none, trivial⟩
  have hrun : Run (getoptLoop false (optionWords [('n', ['3']), ('m', ['1'])])) []
      (.ret (.ok { initVars with cfg.nops := 3, cfg.timeMs := 0, cfg.memsize := 1 })) := .nil _
  have hperm : (getopts false optstring none (optionWords [('n', ['3']), ('m', ['1'])])).Perm
      (getopts false optstring none (optionWords [('m', ['1']), ('n', ['3'])])) := by decide
  obtain ⟨tr, r, hrun', -, s', rfl, hiff⟩ :=
    (optionOrder_iff hperm (by decide) hrun trivial).exists_run hanswer
  exact ⟨_, tr, s', hrun, hrun', hiff.mpr (Or.inl (by decide))⟩

/-- **The limit on the operations takes back the one on the time** if it comes after it. -/
theorem ops_after_time_differs : ∃ s s',
    Run (getoptLoop false (optionWords [('n', ['3']), ('t', ['5'])])) [] (.ret (.ok s)) ∧
    Run (getoptLoop false (optionWords [('t', ['5']), ('n', ['3'])])) [] (.ret (.ok s')) ∧
    (getopts false optstring none (optionWords [('n', ['3']), ('t', ['5'])])).Perm
      (getopts false optstring none (optionWords [('t', ['5']), ('n', ['3'])])) ∧
    ((getopts false optstring none (optionWords [('n', ['3']), ('t', ['5'])])).map
      Opt.letter).Nodup ∧
    s.cfg.timeMs = 5 ∧ s'.cfg.timeMs = 0 :=
  ⟨{ initVars with cfg.nops := 3, cfg.timeMs := 5 },
    { initVars with cfg.nops := 3, cfg.timeMs := 0 },
    .nil _, .nil _, by decide, by decide, rfl, rfl⟩

end VmopsBench

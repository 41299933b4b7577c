import VmopsBench.Order.Spacing
import VmopsBench.Benchmarks.Entry

/-!
# The latency sampler as a rate limiter

`vmops_utils_add_stats` drops the first ten calls, then keeps a call when its `t_elapsed` has
reached `sampling_next` and there is room in the thread's slice of the buffer. Seen over a
whole run, with the state that `vmops_utils_prepare_args` gives a thread, it is the greedy
selection of `VmopsBench.Order.Spacing` on the calls after the tenth, cut off at `cfg->stats`
(`VmopsBench.addAllStats_sampled`). It follows that no selection of calls that are the
sampling interval apart is larger, and that the stores stay inside the slice.

The one piece of arithmetic is that `t_elapsed + sampling_delta` does not wrap: the interval
comes from a 32-bit number of milliseconds.
-/

namespace VmopsBench

open Spacing

/-! ### Sequences of calls -/

/-- A sequence of calls of `vmops_utils_add_stats`, each given by the record it would store. -/
def addAllStats (stats : VmopsStats) (calls : List StatVal) : VmopsStats :=
  calls.foldl (fun s c => vmopsUtilsAddStats s c.tid c.counter c.tElapsed c.val) stats

@[simp] theorem addAllStats_nil (stats : VmopsStats) : addAllStats stats [] = stats := rfl

theorem addAllStats_append_singleton (stats : VmopsStats) (calls : List StatVal) (c : StatVal) :
    addAllStats stats (calls ++ [c]) =
      vmopsUtilsAddStats (addAllStats stats calls) c.tid c.counter c.tElapsed c.val :=
  List.foldl_append

theorem addAllStats_append (stats : VmopsStats) (calls calls' : List StatVal) :
    addAllStats stats (calls ++ calls') = addAllStats (addAllStats stats calls) calls' :=
  List.foldl_append

/-- The records stored so far, in the order of the stores. -/
def VmopsStats.recorded (s : VmopsStats) : List StatVal := (s.writes.map Prod.snd).reverse

/-- The time of a call. -/
abbrev elapsed (c : StatVal) : ℕ := c.tElapsed.toNat

/-- The sampling interval of a configuration. -/
def samplingInterval (cfg : VmopsBenchCfg) : ℕ := (platConvertTime cfg.rate).toNat

theorem samplingInterval_lt (cfg : VmopsBenchCfg) : samplingInterval cfg < 2 ^ 63 := by
  have hrate := cfg.rate.isLt
  rw [samplingInterval, platConvertTime, BitVec.toNat_mul, BitVec.toNat_setWidth,
    BitVec.toNat_ofNat, Nat.mod_eq_of_lt (by omega : cfg.rate.toNat < 2 ^ 64),
    Nat.mod_eq_of_lt (by decide : 1000000 < 2 ^ 64)]
  exact lt_of_le_of_lt (Nat.mod_le _ _) (by omega)

/-! ### One call -/

/-- The last four statements of `vmops_utils_add_stats`: the record is stored. -/
def VmopsStats.store (s : VmopsStats) (c : StatVal) : VmopsStats :=
  { s with
    writes := (s.idx, c) :: s.writes
    idx := s.idx + 1
    samplingNext := c.tElapsed + s.samplingDelta }

theorem recorded_store (s : VmopsStats) (c : StatVal) :
    (s.store c).recorded = s.recorded ++ [c] := by
  simp [VmopsStats.recorded, VmopsStats.store]

/-- **What a call can do**: count a dry run, pass, or store its record. -/
theorem addStats_cases (s : VmopsStats) (c : StatVal) :
    s.dryrun ≠ 0 ∧
      vmopsUtilsAddStats s c.tid c.counter c.tElapsed c.val = { s with dryrun := s.dryrun - 1 } ∨
    s.dryrun = 0 ∧ (c.tElapsed < s.samplingNext ∨ s.idx = s.idxMax) ∧
      vmopsUtilsAddStats s c.tid c.counter c.tElapsed c.val = s ∨
    s.dryrun = 0 ∧ s.samplingNext ≤ c.tElapsed ∧ s.idx ≠ s.idxMax ∧
      vmopsUtilsAddStats s c.tid c.counter c.tElapsed c.val = s.store c := by
  rw [vmopsUtilsAddStats]
  split
  · exact Or.inl ⟨by assumption, rfl⟩
  · rename_i hdry
    have hdry : s.dryrun = 0 := not_not.mp hdry
    split
    · exact Or.inr (Or.inl ⟨hdry, Or.inl (by assumption), rfl⟩)
    · rename_i hdue
      split
      · exact Or.inr (Or.inl ⟨hdry, Or.inr (by assumption), rfl⟩)
      · exact Or.inr (Or.inr ⟨hdry, BitVec.not_lt.mp hdue, by assumption, rfl⟩)

/-! ### The slots of a slice are filled in order -/

/-- **The state of a sampler at any time**, with `values` as it was given: its stores have filled
the first slots of its slice. -/
structure InOrder (cfg : VmopsBenchCfg) (values : Option (BitVec 64)) (s : VmopsStats) : Prop where
  values_eq : s.values = values
  idxMax_eq : s.idxMax = cfg.stats.setWidth 64
  delta_eq : s.samplingDelta = platConvertTime cfg.rate
  length_le : s.recorded.length ≤ cfg.stats.toNat
  idx_eq : s.idx = BitVec.ofNat 64 s.recorded.length
  writes_eq : s.writes = (s.recorded.zipIdx.map fun p => (BitVec.ofNat 64 p.2, p.1)).reverse

section InOrder

variable {cfg : VmopsBenchCfg} {values : Option (BitVec 64)} {s : VmopsStats}

/-- The index has reached its bound exactly when there are as many records as there is room
for. -/
theorem InOrder.idx_eq_idxMax (h : InOrder cfg values s) :
    s.idx = s.idxMax ↔ s.recorded.length = cfg.stats.toNat := by
  have hstats := cfg.stats.isLt
  have hlen := h.length_le
  rw [h.idx_eq, h.idxMax_eq, ← BitVec.toNat_inj, BitVec.toNat_ofNat, BitVec.toNat_setWidth]
  omega

/-- One more record. -/
theorem InOrder.store (h : InOrder cfg values s) (hroom : s.idx ≠ s.idxMax) (c : StatVal) :
    InOrder cfg values (s.store c) where
  values_eq := h.values_eq
  idxMax_eq := h.idxMax_eq
  delta_eq := h.delta_eq
  length_le := by
    rw [recorded_store, List.length_append, List.length_singleton]
    exact lt_of_le_of_ne h.length_le fun heq => hroom (h.idx_eq_idxMax.mpr heq)
  idx_eq := by
    rw [recorded_store, List.length_append, List.length_singleton, BitVec.ofNat_add, ← h.idx_eq]
    rfl
  writes_eq := by
    have hwrites : (s.store c).writes = (s.idx, c) :: s.writes := rfl
    rw [hwrites, recorded_store, List.zipIdx_append, List.map_append, List.reverse_append,
      ← h.writes_eq, h.idx_eq]
    simp

/-- **A call keeps the slots in order.** -/
theorem InOrder.addStats (h : InOrder cfg values s) (c : StatVal) :
    InOrder cfg values (vmopsUtilsAddStats s c.tid c.counter c.tElapsed c.val) := by
  rcases addStats_cases s c with ⟨-, heq⟩ | ⟨-, -, heq⟩ | ⟨-, -, hroom, heq⟩
  · rw [heq]
    exact ⟨h.values_eq, h.idxMax_eq, h.delta_eq, h.length_le, h.idx_eq, h.writes_eq⟩
  · rwa [heq]
  · rw [heq]
    exact h.store hroom c

theorem InOrder.addAllStats (h : InOrder cfg values s) (calls : List StatVal) :
    InOrder cfg values (addAllStats s calls) := by
  induction calls using List.reverseRecOn with
  | nil => exact h
  | append_singleton calls c ih =>
    rw [addAllStats_append_singleton]
    exact ih.addStats c

/-- A thread starts that way. -/
theorem inOrder_fillArg (cfg : VmopsBenchCfg) (memobj : PlatMemobj) (i : ℕ) :
    InOrder cfg (fillArg cfg memobj i).stats.values (fillArg cfg memobj i).stats :=
  ⟨rfl, rfl, rfl, Nat.zero_le _, rfl, rfl⟩

end InOrder

/-! ### The sampler makes the greedy selection -/

/-- The calls a thread with this configuration keeps. -/
def keptCalls (cfg : VmopsBenchCfg) (calls : List StatVal) : List StatVal :=
  limited elapsed (· + samplingInterval cfg) cfg.stats.toNat 0 (calls.drop 10)

/-- When the next call is due. -/
def nextDue (cfg : VmopsBenchCfg) (calls : List StatVal) : ℕ :=
  limitedDue elapsed (· + samplingInterval cfg) cfg.stats.toNat 0 (calls.drop 10)

theorem nextDue_eq (cfg : VmopsBenchCfg) (calls : List StatVal) : nextDue cfg calls =
    ((keptCalls cfg calls).getLast?.map fun c => elapsed c + samplingInterval cfg).getD 0 := rfl

theorem length_keptCalls_le (cfg : VmopsBenchCfg) (calls : List StatVal) :
    (keptCalls cfg calls).length ≤ cfg.stats.toNat := by
  rw [keptCalls, length_limited]
  exact Nat.min_le_left _ _

/-- What one more call makes of the selection. -/
theorem keptCalls_append_singleton (cfg : VmopsBenchCfg) (calls : List StatVal) (c : StatVal) :
    keptCalls cfg (calls ++ [c]) = keptCalls cfg calls ++
      if 10 ≤ calls.length ∧ (keptCalls cfg calls).length < cfg.stats.toNat ∧
        nextDue cfg calls ≤ elapsed c then [c] else [] := by
  rcases Nat.lt_or_ge calls.length 10 with hlt | hge
  · -- a dry run: nothing is looked at
    rw [if_neg fun hc => absurd hc.1 (by omega), List.append_nil, keptCalls, keptCalls,
      List.drop_of_length_le (by simpa using Nat.succ_le_of_lt hlt), List.drop_of_length_le hlt.le]
  · rw [keptCalls, List.drop_append_of_le_length hge, limited_append_singleton, keptCalls, nextDue]
    simp only [hge, true_and]

/-- **The state of the sampler after a sequence of calls.** -/
structure Sampled (cfg : VmopsBenchCfg) (values : Option (BitVec 64)) (calls : List StatVal)
    (s : VmopsStats) : Prop extends InOrder cfg values s where
  dryrun_eq : s.dryrun = BitVec.ofNat 64 (10 - calls.length)
  next_eq : s.samplingNext.toNat = nextDue cfg calls
  recorded_eq : s.recorded = keptCalls cfg calls

section Sampled

variable {cfg : VmopsBenchCfg} {values : Option (BitVec 64)} {calls : List StatVal} {s : VmopsStats}

/-- The dry runs are over after ten calls. -/
theorem Sampled.dryrun_eq_zero (h : Sampled cfg values calls s) :
    s.dryrun = 0 ↔ 10 ≤ calls.length := by
  have hsmall : (10 - calls.length) % 2 ^ 64 = 10 - calls.length := Nat.mod_eq_of_lt (by omega)
  rw [h.dryrun_eq, ← BitVec.toNat_inj, BitVec.toNat_ofNat, hsmall]
  exact Nat.sub_eq_zero_iff_le

/-- From the tenth call on the count of dry runs stays as it is. -/
theorem ofNat_dryrun {n : ℕ} (hge : 10 ≤ n) :
    BitVec.ofNat 64 (10 - n) = BitVec.ofNat 64 (10 - (n + 1)) := by
  congr 1
  omega

/-- A dry run. -/
theorem Sampled.dryRun (h : Sampled cfg values calls s) (c : StatVal) (hlt : ¬10 ≤ calls.length) :
    Sampled cfg values (calls ++ [c]) { s with dryrun := s.dryrun - 1 } := by
  have hkept := keptCalls_append_singleton cfg calls c
  rw [if_neg fun hc => hlt hc.1, List.append_nil] at hkept
  have hcount : BitVec.ofNat 64 (10 - calls.length) =
      BitVec.ofNat 64 (10 - (calls.length + 1)) + BitVec.ofNat 64 1 := by
    rw [← BitVec.ofNat_add]
    congr 1
    omega
  refine ⟨⟨h.values_eq, h.idxMax_eq, h.delta_eq, h.length_le, h.idx_eq, h.writes_eq⟩, ?_, ?_, ?_⟩
  · rw [h.dryrun_eq, List.length_append, List.length_singleton, hcount]
    exact BitVec.add_sub_cancel _ _
  · rw [h.next_eq, nextDue_eq, nextDue_eq, hkept]
  · exact h.recorded_eq.trans hkept.symm

/-- A call that is passed over, for one of the two reasons there are. -/
theorem Sampled.pass (h : Sampled cfg values calls s) {c : StatVal} (hge : 10 ≤ calls.length)
    (hpass : c.tElapsed < s.samplingNext ∨ s.idx = s.idxMax) :
    Sampled cfg values (calls ++ [c]) s := by
  have hkept := keptCalls_append_singleton cfg calls c
  rw [if_neg, List.append_nil] at hkept
  · refine ⟨h.toInOrder, ?_, ?_, ?_⟩
    · rw [h.dryrun_eq, List.length_append, List.length_singleton, ofNat_dryrun hge]
    · rw [h.next_eq, nextDue_eq, nextDue_eq, hkept]
    · exact h.recorded_eq.trans hkept.symm
  · rintro ⟨-, hroom, hlate⟩
    rcases hpass with hearly | hfull
    · exact absurd hlate (not_le.mpr (h.next_eq ▸ hearly))
    · rw [h.idx_eq_idxMax, h.recorded_eq] at hfull
      omega

/-- A call that is kept. -/
theorem Sampled.store (h : Sampled cfg values calls s) {c : StatVal} (hc : elapsed c < 2 ^ 63)
    (hge : 10 ≤ calls.length) (hlate : s.samplingNext ≤ c.tElapsed) (hroom : s.idx ≠ s.idxMax) :
    Sampled cfg values (calls ++ [c]) (s.store c) := by
  have hlt : (keptCalls cfg calls).length < cfg.stats.toNat := by
    refine lt_of_le_of_ne (length_keptCalls_le cfg calls) fun heq => hroom ?_
    rwa [h.idx_eq_idxMax, h.recorded_eq]
  have hkept := keptCalls_append_singleton cfg calls c
  rw [if_pos ⟨hge, hlt, h.next_eq ▸ hlate⟩] at hkept
  have hdelta := samplingInterval_lt cfg
  refine ⟨h.toInOrder.store hroom c, ?_, ?_, ?_⟩
  · have hdry : (s.store c).dryrun = s.dryrun := rfl
    rw [hdry, h.dryrun_eq, List.length_append, List.length_singleton, ofNat_dryrun hge]
  · have hnext : (s.store c).samplingNext = c.tElapsed + s.samplingDelta := rfl
    rw [nextDue_eq, hkept, List.getLast?_concat, Option.map_some, Option.getD_some, hnext,
      h.delta_eq, BitVec.toNat_add]
    exact Nat.mod_eq_of_lt (lt_of_lt_of_eq (Nat.add_lt_add hc hdelta) (by decide))
  · rw [recorded_store, h.recorded_eq, hkept]

/-- **One call of the sampler.** -/
theorem Sampled.step (h : Sampled cfg values calls s) {c : StatVal} (hc : elapsed c < 2 ^ 63) :
    Sampled cfg values (calls ++ [c])
      (vmopsUtilsAddStats s c.tid c.counter c.tElapsed c.val) := by
  rcases addStats_cases s c with ⟨hdry, heq⟩ | ⟨hdry, hpass, heq⟩ | ⟨hdry, hlate, hroom, heq⟩
  · rw [heq]
    exact h.dryRun c fun hge => hdry (h.dryrun_eq_zero.mpr hge)
  · rw [heq]
    exact h.pass (h.dryrun_eq_zero.mp hdry) hpass
  · rw [heq]
    exact h.store hc (h.dryrun_eq_zero.mp hdry) hlate hroom

end Sampled

/-- **The sampler of a thread makes the greedy selection.** -/
theorem addAllStats_sampled (cfg : VmopsBenchCfg) (memobj : PlatMemobj) (i : ℕ)
    {calls : List StatVal} (hlt : ∀ c ∈ calls, elapsed c < 2 ^ 63) :
    Sampled cfg (fillArg cfg memobj i).stats.values calls
      (addAllStats (fillArg cfg memobj i).stats calls) := by
  induction calls using List.reverseRecOn with
  | nil =>
    have hnil : keptCalls cfg [] = [] := List.take_nil
    refine ⟨inOrder_fillArg cfg memobj i, rfl, ?_, hnil.symm⟩
    rw [nextDue_eq, hnil]
    rfl
  | append_singleton calls c ih =>
    rw [addAllStats_append_singleton]
    exact (ih fun d hd => hlt d (List.mem_append_left _ hd)).step
      (hlt c (List.mem_append_right _ List.mem_cons_self))

/-! ### A rate limiter that nobody beats -/

/-- Records that are at least `delta` apart, each from the one in front of it. -/
def SamplesApart (delta : ℕ) (records : List StatVal) : Prop :=
  records.IsChain fun a b => elapsed a + delta ≤ elapsed b

/-- Lists of records that are apart are the spaced ones. -/
theorem samplesApart_iff_spaced {delta : ℕ} {records : List StatVal} :
    SamplesApart delta records ↔ Spaced elapsed (· + delta) 0 records := by
  rw [spaced_iff]
  exact ⟨fun h => ⟨fun _ _ => Nat.zero_le _, h⟩, fun h => h.2⟩

/-- **What a rate limiter owes** to a sequence of calls, when it starts in the state `start` and
is to keep calls that are `delta` apart: -/
structure RateLimits (delta : ℕ) (start : VmopsStats) (calls : List StatVal) : Prop where
  /-- what it records are calls after the tenth, in their order; -/
  sublist : (addAllStats start calls).recorded.Sublist (calls.drop 10)
  /-- they are `delta` apart; -/
  apart : SamplesApart delta (addAllStats start calls).recorded
  /-- it passes over a later call only when that comes too early, or the buffer is full; -/
  passed : ∀ before c after, calls = before ++ c :: after → 10 ≤ before.length →
    (addAllStats start (before ++ [c])).recorded = (addAllStats start before).recorded ++ [c] ∨
    (addAllStats start (before ++ [c])).recorded = (addAllStats start before).recorded ∧
      ((∃ last ∈ (addAllStats start before).recorded.getLast?, elapsed c < elapsed last + delta) ∨
        (addAllStats start before).idx = start.idxMax)
  /-- it stores into the slice it was given, and nowhere when it was given none; -/
  inSlice : ∀ w ∈ (addAllStats start calls).writes, start.values.isSome ∧ w.1 < start.idxMax
  /-- it records as many as there is room for, of the most that can be had. -/
  largest : ∃ m, IsGreatest
      {n | ∃ zs : List StatVal,
        zs.Sublist (calls.drop 10) ∧ SamplesApart delta zs ∧ zs.length = n} m ∧
    (addAllStats start calls).recorded.length = min start.idxMax.toNat m

section RateLimits

variable {cfg : VmopsBenchCfg} {memobj : PlatMemobj} {i : ℕ} {calls : List StatVal}

theorem idxMax_fillArg (cfg : VmopsBenchCfg) (memobj : PlatMemobj) (i : ℕ) :
    (fillArg cfg memobj i).stats.idxMax = cfg.stats.setWidth 64 := rfl

/-- The number of records a slice has room for. -/
theorem toNat_idxMax (cfg : VmopsBenchCfg) (memobj : PlatMemobj) (i : ℕ) :
    (fillArg cfg memobj i).stats.idxMax.toNat = cfg.stats.toNat := by
  have hstats := cfg.stats.isLt
  rw [idxMax_fillArg, BitVec.toNat_setWidth]
  omega

/-- The stores of a sampler are in its slice. -/
theorem InOrder.inSlice {s : VmopsStats}
    (h : InOrder cfg (fillArg cfg memobj i).stats.values s) {w : SizeT × StatVal}
    (hw : w ∈ s.writes) :
    (fillArg cfg memobj i).stats.values.isSome ∧ w.1 < (fillArg cfg memobj i).stats.idxMax := by
  have hlen := h.length_le
  rw [h.writes_eq, List.mem_reverse] at hw
  obtain ⟨⟨c, j⟩, hmem, rfl⟩ := List.mem_map.mp hw
  have hj : j < cfg.stats.toNat := lt_of_lt_of_le (List.snd_lt_of_mem_zipIdx hmem) (by simpa)
  have hstats : 0 < cfg.stats := by
    rw [BitVec.lt_def]
    exact lt_of_le_of_lt (Nat.zero_le j) hj
  refine ⟨?_, ?_⟩
  · change (if 0 < cfg.stats then some _ else none).isSome = true
    rw [if_pos hstats]
    rfl
  · rw [BitVec.lt_def, toNat_idxMax, BitVec.toNat_ofNat]
    exact lt_of_le_of_lt (Nat.mod_le _ _) hj

/-- **The latency sampler is a rate limiter that nobody beats**, from the state that preparation
gives any thread, on calls whose times do not decrease. -/
theorem addStats_rateLimits (cfg : VmopsBenchCfg) (memobj : PlatMemobj) (i : ℕ)
    (hmono : calls.Pairwise fun a b => a.tElapsed ≤ b.tElapsed)
    (hlt : ∀ c ∈ calls, c.tElapsed.toNat < 2 ^ 63) :
    RateLimits (platConvertTime cfg.rate).toNat (fillArg cfg memobj i).stats calls := by
  change RateLimits (samplingInterval cfg) _ calls
  have hall := addAllStats_sampled cfg memobj i hlt
  refine ⟨?_, ?_, ?_, fun w hw => hall.inSlice hw, ?_⟩
  · rw [hall.recorded_eq]
    exact limited_sublist _ _ _
  · rw [hall.recorded_eq, samplesApart_iff_spaced]
    exact limited_spaced _ _ _
  · rintro before c after rfl hge
    have hpre : ∀ d ∈ before ++ [c], elapsed d < 2 ^ 63 := fun d hd =>
      hlt d (by simpa using Or.imp_right Or.inl (by simpa using hd))
    have hbefore := addAllStats_sampled cfg memobj i
      fun d hd => hpre d (List.mem_append_left _ hd)
    rw [(addAllStats_sampled cfg memobj i hpre).recorded_eq, hbefore.recorded_eq,
      keptCalls_append_singleton]
    by_cases hlate : nextDue cfg before ≤ elapsed c
    · by_cases hroom : (keptCalls cfg before).length < cfg.stats.toNat
      · exact Or.inl (by rw [if_pos ⟨hge, hroom, hlate⟩])
      · have hfull := le_antisymm (length_keptCalls_le cfg before) (not_lt.mp hroom)
        refine Or.inr ⟨by rw [if_neg fun hc => hroom hc.2.1, List.append_nil], Or.inr ?_⟩
        rw [← hbefore.recorded_eq, ← hbefore.idx_eq_idxMax] at hfull
        rw [hfull, hbefore.idxMax_eq, idxMax_fillArg]
    · refine Or.inr ⟨by rw [if_neg fun hc => hlate hc.2.2, List.append_nil], Or.inl ?_⟩
      -- something was kept before, since nothing is too early at first
      rw [nextDue_eq] at hlate
      cases hlast : (keptCalls cfg before).getLast? with
      | none =>
        rw [hlast] at hlate
        exact absurd (Nat.zero_le _) hlate
      | some last =>
        rw [hlast, Option.map_some, Option.getD_some] at hlate
        exact ⟨last, rfl, not_le.mp hlate⟩
  · have hsorted : (calls.drop 10).Pairwise fun a b => elapsed a ≤ elapsed b :=
      hmono.sublist (List.drop_sublist 10 calls)
    have hnext : Monotone (· + samplingInterval cfg) := fun a b hab => Nat.add_le_add_right hab _
    refine ⟨(greedy elapsed (· + samplingInterval cfg) 0 (calls.drop 10)).length, ?_, ?_⟩
    · simp only [samplesApart_iff_spaced]
      exact isGreatest_greedy hnext hsorted
    · rw [hall.recorded_eq, keptCalls, length_limited, toNat_idxMax]

end RateLimits

/-- Thirteen calls, a nanosecond apart. -/
def thirteenCalls : List StatVal :=
  (List.range 13).map fun k => ⟨0, BitVec.ofNat 64 k, BitVec.ofNat 64 k, 1⟩

/-- With room for two records and no interval, two of the last three are kept. -/
theorem addStats_rateLimits_thirteenCalls : RateLimits (platConvertTime 0).toNat
    (fillArg { twoThreads with stats := 2 } 1 0).stats thirteenCalls := by
  have hmono : thirteenCalls.Pairwise fun a b => a.tElapsed ≤ b.tElapsed := by decide
  have hlt : ∀ c ∈ thirteenCalls, c.tElapsed.toNat < 2 ^ 63 := by decide
  exact addStats_rateLimits { twoThreads with stats := 2 } 1 0 hmono hlt

end VmopsBench

import VmopsBench.Benchmarks.Alignment
import VmopsBench.Driver.CoresList
import VmopsBench.Driver.Main

/-!
# Which command lines ask for aligned mappings

`main` takes any size for `-m` and any combination of `-l` with the options of a benchmark. It
raises a memory object that is smaller than a huge page, and that is all it does for the alignment
of what the threads will ask for. With some sizes there is no memory object and no thread
(`VmopsBench.Preparable`): then nothing is asked for. `VmopsBench.alignedRequests_iff` says which of
the command lines that are accepted are the good ones.

The others are of two kinds. The `-4k` options together with `-l` map small pages with the flag for
huge ones, and the second of them begins in the middle of a huge page. And the isolated functions
that go on by the size of the memory object come to an address in the middle of a page when that
size is no multiple of one.
-/

namespace VmopsBench

open Interact

section Prepared

variable {L : MemoryLimits} {cfg : VmopsBenchCfg} {f : RunFn} {i : ℕ}

/-- With huge pages there are many small ones. -/
theorem Preparable.one_lt_pageCount (h : Preparable cfg) (hhuge : cfg.maphuge = true) :
    1 < (pageCount cfg).toNat := by
  have hpage := BitVec.le_def.mp h.page_le
  have hbase : platArchBasePageSize.toNat = 4096 := rfl
  have hsize : platArchHugePageSize.toNat = 2097152 := rfl
  have hle := Nat.le_of_dvd (by omega) (h.dvd hhuge)
  rw [toNat_pageCount]
  omega

/-- More than one operation, unless there is a limit of one. -/
theorem one_lt_opsLimit (h : cfg.nops ≠ 1) : 1 < (opsLimit sizeMax cfg).toNat := by
  rw [opsLimit]
  split
  · decide
  · next hzero =>
    have hone : cfg.nops.toNat ≠ 1 := fun heq => h (BitVec.eq_of_toNat_eq heq)
    have hne : cfg.nops.toNat ≠ 0 := fun heq => hzero (BitVec.eq_of_toNat_eq heq)
    omega

/-- A thread whose first region fits, if the limits do not stop the function. -/
theorem exists_fits (hiso : cfg.isolated = true) (h : ¬(cfg.isolated = true ∧
      ∀ i < cfg.corelistSize.toNat, ¬L.Fits (BitVec.ofNat 32 i) cfg.memsize)) :
    ∃ i < cfg.corelistSize.toNat, L.Fits (BitVec.ofNat 32 i) cfg.memsize := by
  by_contra hnone
  exact h ⟨hiso, fun i hi hfits => hnone ⟨i, hi, hfits⟩⟩

/-- **Without the condition** there is a thread with a request that is not aligned. -/
theorem exists_misaligned (hprep : Preparable cfg) (hn : 0 < cfg.corelistSize.toNat)
    (hroom : L.Fits 0 platArchHugePageSize) (halign : ¬f.Aligns cfg) (hstop : ¬f.StoppedBy L cfg)
    (memobjs : ℕ → PlatMemobj) :
    ∃ i < cfg.corelistSize.toNat, Misaligned L f (fillArg cfg (memobjs i) i) := by
  -- the first page of the first thread
  have hpage : L.Fits (BitVec.ofNat 32 0) platArchBasePageSize :=
    le_trans (Nat.add_le_add_left (by decide) _) hroom
  cases f with
  | mapunmap | protect | tlbshoot => exact absurd trivial halign
  | mapunmap4k | protect4k =>
    have hhuge : cfg.maphuge = true := by simpa [RunFn.Aligns] using halign
    exact ⟨0, hn, misaligned_paged (by simp) hhuge (hprep.one_lt_pageCount hhuge)
      (Nat.not_lt.mp hstop) hpage⟩
  | nounmap =>
    obtain ⟨hiso, hrest⟩ := not_or.mp halign
    obtain ⟨hsize, hops⟩ := not_or.mp hrest
    have hiso : cfg.isolated = true := Bool.not_eq_false _ ▸ hiso
    obtain ⟨i, hi, hfits⟩ := exists_fits hiso hstop
    exact ⟨i, hi, misaligned_nounmap hiso hsize (one_lt_opsLimit hops) hfits⟩
  | elevate =>
    obtain ⟨hiso, hrest⟩ := not_or.mp halign
    obtain ⟨hsize, htotal⟩ := not_or.mp hrest
    have hiso : cfg.isolated = true := Bool.not_eq_false _ ▸ hiso
    obtain ⟨i, hi, hfits⟩ := exists_fits hiso hstop
    exact ⟨i, hi, misaligned_elevate hiso hsize (BitVec.not_le.mp htotal) hfits⟩
  | nounmap4k =>
    obtain ⟨hhuge, hrest⟩ := not_or.mp halign
    have hhuge : cfg.maphuge = true := Bool.not_eq_false _ ▸ hhuge
    -- the page with number 1
    have hone : (1 : SizeT) % pageCount cfg = 1 := by
      apply BitVec.eq_of_toNat_eq
      rw [BitVec.toNat_umod]
      exact Nat.mod_eq_of_lt (hprep.one_lt_pageCount hhuge)
    by_cases hops : cfg.nops = 1
    · have hcores : cfg.corelistSize ≠ 1 := fun hone => hrest ⟨hops, hone⟩
      have htwo : 1 < cfg.corelistSize.toNat := by
        have hne : cfg.corelistSize.toNat ≠ 1 := fun heq => hcores (BitVec.eq_of_toNat_eq heq)
        omega
      refine ⟨1, htwo, misaligned_nounmap4k (k := 0) hhuge ?_ hone nofun⟩
      show 0 < (opsLimit sizeMax cfg).toNat
      rw [toNat_opsLimit_one hops]
      exact Nat.one_pos
    · refine ⟨0, hn, misaligned_nounmap4k (k := 1) hhuge (one_lt_opsLimit hops) hone ?_⟩
      intro j hj
      obtain rfl := Nat.lt_one_iff.mp hj
      rw [mapOnly4kVars_zero]
      exact hpage

/-- **The condition is enough** for each thread that the arguments were prepared for. -/
theorem Sound.requestsAligned {cfg' : VmopsBenchCfg} {args : ℕ → VmopsBenchRunArg}
    (h : Sound cfg cfg' args) (halign : f.Aligns cfg ∨ f.StoppedBy L cfg)
    (hi : i < cfg'.corelistSize.toNat) : RequestsAligned L f (args i) := by
  obtain ⟨memobj, harg⟩ := h.args_eq i hi
  have hpages := h.pages (Nat.zero_lt_of_lt hi)
  have htid : (BitVec.ofNat 32 i).toNat < cfg'.corelistSize.toNat := by
    rw [BitVec.toNat_ofNat]
    exact (Nat.mod_le i _).trans_lt hi
  have hstats : f.Aligns cfg' ∨ f.StoppedBy L cfg' := by
    rw [h.cfg_eq]
    cases f <;> exact halign
  rw [harg]
  rcases hstats with halign | hstop
  · intro tr c k hrun _ m hm
    exact (asks_of_comesTo hpages hrun hm).aligned halign htid
  · exact RunFn.StoppedBy.requestsAligned hstop htid

/-- **The threads of a configuration ask for aligned mappings** exactly if there are none of them,
or they cannot be prepared, or the configuration is one of the good ones, or nothing can be
granted. -/
theorem requestsAligned_iff {b : Benchmark} (hroom : L.Fits 0 platArchHugePageSize) :
    (∀ cfg' args, Prepares cfg cfg' args →
      ∀ i < cfg'.corelistSize.toNat, RequestsAligned L (b.choose cfg') (args i)) ↔
      cfg.corelistSize = 0 ∨ ¬Preparable cfg ∨ (b.choose cfg).Aligns cfg ∨
        (b.choose cfg).StoppedBy L cfg := by
  constructor
  · intro haligned
    by_contra hnot
    obtain ⟨hzero, hnot⟩ := not_or.mp hnot
    obtain ⟨hprep, hnot⟩ := not_or.mp hnot
    obtain ⟨halign, hstop⟩ := not_or.mp hnot
    have hprep := not_not.mp hprep
    have hn : 0 < cfg.corelistSize.toNat :=
      Nat.pos_of_ne_zero fun h => hzero (BitVec.eq_of_toNat_eq h)
    obtain ⟨tr, args, linux, hrun, hlinux, hargs⟩ := exists_linuxRun hprep hn
    obtain ⟨i, hi, hmis⟩ := exists_misaligned hprep hn hroom halign hstop (objOf cfg)
    have haligned := haligned cfg args ⟨tr, linux, hrun, hlinux⟩ i hi
    rw [hargs i hi] at haligned
    exact hmis.not_requestsAligned haligned
  · intro hgood cfg' args hprepares i hi
    have hsound := hprepares.sound
    have hsize : cfg'.corelistSize = cfg.corelistSize := by rw [hsound.cfg_eq]
    have hchoose : b.choose cfg' = b.choose cfg := by rw [hsound.cfg_eq, b.choose_stats]
    rcases hgood with hzero | hnone | hgood
    · rw [hsize, hzero] at hi
      exact absurd hi (Nat.not_lt_zero i)
    · refine absurd ((exists_prepares_iff ?_).mp ⟨cfg', args, hprepares⟩) hnone
      rw [← hsize]
      exact Nat.zero_lt_of_lt hi
    · rw [hchoose]
      exact hsound.requestsAligned hgood hi

end Prepared

/-- **The requests of an accepted command line are aligned**, in every run of every thread that the
arguments can be prepared for, within the limits of the machine, exactly if there is no thread, or
nothing can be prepared, or the configuration is one of the good ones, or the limits stop the
function at once. -/
theorem alignedRequests_iff {L : MemoryLimits} (hroom : L.Fits 0 platArchHugePageSize)
    {posix : Bool} {argv : List (List Char)} {b : Benchmark} {cfg : VmopsBenchCfg}
    (_haccepts : Accepts posix argv b cfg) :
    (∀ cfg' args, Prepares cfg cfg' args →
      ∀ i < cfg'.corelistSize.toNat, RequestsAligned L (b.choose cfg') (args i)) ↔
      cfg.corelistSize = 0 ∨ ¬Preparable cfg ∨ (b.choose cfg).Aligns cfg ∨
        (b.choose cfg).StoppedBy L cfg :=
  requestsAligned_iff hroom

/-! ### Command lines -/

/-- The benchmark and the configuration that the options come to, with a list of cores. -/
def configured? (s : MainVars) : Option (Benchmark × VmopsBenchCfg) :=
  if s.ncores = 0 ∧ s.cfg.coreslist ≠ [] then
    (selectBenchmark (adjust s.cfg).benchmark).bind fun x =>
      (vmopsUtilsParseOptions x.2 (x.1.set (adjust s.cfg))).map fun cfg => (x.1, cfg)
  else none

/-- The options come to a benchmark and a configuration that pass a test. -/
def comesToCfg (test : Benchmark → VmopsBenchCfg → Bool) (r : Except Halt MainVars) : Bool :=
  r.toOption.any fun s => (configured? s).any fun x => test x.1 x.2

/-- **A command line with a list of cores is accepted.** -/
theorem exists_accepts {argv : List (List Char)} {test : Benchmark → VmopsBenchCfg → Bool}
    (h : yields granted 40 (getoptLoop false argv)
      (fun _ r => decide (comesToCfg test r = true)) = true) :
    ∃ b cfg, Accepts false argv b cfg ∧ test b cfg = true := by
  have hrun : ∃ tr r, Run (getoptLoop false argv) tr (.ret r) ∧ comesToCfg test r = true :=
    exists_run_of_yields granted 40 h
  obtain ⟨tr, r, hrun, htest⟩ := hrun
  cases r with
  | error e => cases htest
  | ok s =>
    have htest : (configured? s).any (fun x => test x.1 x.2) = true := htest
    obtain ⟨⟨b, cfg⟩, hconfigured, htest⟩ := (Option.any_eq_true _ _).mp htest
    rw [configured?] at hconfigured
    split at hconfigured
    · next hlist =>
      obtain ⟨⟨b', opts⟩, hselect, hmap⟩ := Option.bind_eq_some_iff.mp hconfigured
      obtain ⟨cfg', hparse, heq⟩ := Option.map_eq_some_iff.mp hmap
      obtain ⟨rfl, rfl⟩ := Prod.mk.inj heq
      have hcores : Run (selectCores (fun _ => 0) s) [] (.ret (.ok s)) := by
        rw [selectCores, if_neg (fun h => h.1 hlist.1), if_neg hlist.2]
        exact .nil _
      exact ⟨_, _, .intro hrun hcores hselect hparse, htest⟩
    · cases hconfigured

/-- A machine with addresses of 47 bits for its processes, and with blocks of up to a GiB. -/
def smallMachine : MemoryLimits := ⟨2 ^ 47, 2 ^ 30⟩

/-- **The default benchmark**, on one core. -/
theorem alignedRequests_default :
    ∃ b cfg, Accepts false ["-c".toList, "0".toList] b cfg ∧ (∃ args, Prepares cfg cfg args) ∧
      cfg.corelistSize = 1 ∧ ∀ cfg' args, Prepares cfg cfg' args →
        ∀ i < cfg'.corelistSize.toNat, RequestsAligned smallMachine (b.choose cfg') (args i) := by
  let test : Benchmark → VmopsBenchCfg → Bool := fun b cfg =>
    b.choose cfg == .mapunmap && cfg.corelistSize == 1 && !cfg.maphuge && cfg.memsize == 4096
  have hyields : yields granted 40 (getoptLoop false ["-c".toList, "0".toList])
      (fun _ r => decide (comesToCfg test r = true)) = true := by decide
  obtain ⟨b, cfg, haccepts, htest⟩ := exists_accepts hyields
  simp only [test, Bool.and_eq_true, beq_iff_eq, Bool.not_eq_true'] at htest
  obtain ⟨⟨⟨hf, hone⟩, hhuge⟩, hsize⟩ := htest
  have hprep : Preparable cfg :=
    ⟨by rw [hsize]; decide, by rw [hsize]; decide, fun h => absurd (hhuge.symm.trans h) nofun⟩
  obtain ⟨tr, args, linux, hrun, hlinux, -⟩ := exists_linuxRun hprep (by rw [hone]; decide)
  refine ⟨b, cfg, haccepts, ⟨args, tr, linux, hrun, hlinux⟩, hone, ?_⟩
  refine (alignedRequests_iff (by decide) haccepts).mpr (.inr (.inr (.inl ?_)))
  rw [hf]
  trivial

/-- **Small pages with the flag for huge ones.** -/
theorem misaligned_huge4k : ∃ b cfg,
    Accepts false ["-c".toList, "0".toList, "-l".toList, "-b".toList, "mapunmap-4k".toList] b cfg ∧
      ∃ cfg' args, Prepares cfg cfg' args ∧ ∃ i < cfg'.corelistSize.toNat,
        ¬RequestsAligned smallMachine (b.choose cfg') (args i) := by
  let test : Benchmark → VmopsBenchCfg → Bool := fun b cfg =>
    b.choose cfg == .mapunmap4k && cfg.corelistSize == 1 && cfg.maphuge && cfg.memsize == 2097152
  have hyields : yields granted 40 (getoptLoop false
      ["-c".toList, "0".toList, "-l".toList, "-b".toList, "mapunmap-4k".toList])
      (fun _ r => decide (comesToCfg test r = true)) = true := by decide
  obtain ⟨b, cfg, haccepts, htest⟩ := exists_accepts hyields
  simp only [test, Bool.and_eq_true, beq_iff_eq] at htest
  obtain ⟨⟨⟨hf, hone⟩, hhuge⟩, hsize⟩ := htest
  have hn : 0 < cfg.corelistSize.toNat := by
    rw [hone]
    decide
  have hprep : Preparable cfg :=
    ⟨by rw [hsize]; decide, by rw [hsize]; decide, fun _ => by rw [hsize]; decide⟩
  obtain ⟨tr, args, linux, hrun, hlinux, hargs⟩ := exists_linuxRun hprep hn
  have halign : ¬RunFn.mapunmap4k.Aligns cfg := by
    intro hfalse
    exact Bool.noConfusion (hfalse.symm.trans hhuge)
  have hstop : ¬RunFn.mapunmap4k.StoppedBy smallMachine cfg := by
    rw [RunFn.StoppedBy, toNat_pageCount, hsize]
    decide
  obtain ⟨i, hi, hmis⟩ :=
    exists_misaligned (L := smallMachine) hprep hn (by decide) halign hstop (objOf cfg)
  refine ⟨b, cfg, haccepts, cfg, args, ⟨tr, linux, hrun, hlinux⟩, i, hi, ?_⟩
  rw [hf, hargs i hi]
  exact hmis.not_requestsAligned

end VmopsBench

import VmopsBench.Benchmarks.Windows
import VmopsBench.Concurrent.Launched

/-!
# How isolated the isolated threads are

In isolated mode the addresses of thread `i` begin at a multiple of 512 GiB, and
nothing stops its requests at the next thread's addresses. What a thread has asked for is one
range (`VmopsBench.covered_requests`), so whether the requests of two threads
are disjoint is decided by how far each has come: neither may have reached the beginning of the
other, around the circle of 64-bit addresses (`VmopsBench.System.isolated_iff`).

The distance of two beginnings is 512 GiB for each thread between them, modulo `2 ^ 64`
(`VmopsBench.toNat_mapAddress_sub`), so `2 ^ 25` threads fill the circle. As long as there
are no more, and nobody asks for more than 512 GiB, the threads are isolated
(`VmopsBench.System.isolated_of_small`).
-/

namespace VmopsBench

open Interact Words

/-! ### The beginnings -/

/-- **The distance of the addresses of two threads**: 512 GiB a thread, modulo `2 ^ 64`. -/
theorem toNat_mapAddress_sub {i j : ℕ} (h : i ≤ 2 ^ 25 + j) :
    (utilsVmopsGetMapAddress (BitVec.ofNat 32 j) -
      utilsVmopsGetMapAddress (BitVec.ofNat 32 i)).toNat = (2 ^ 25 + j - i) % 2 ^ 25 * 2 ^ 39 := by
  rw [BitVec.toNat_sub, toNat_mapAddress, toNat_mapAddress, BitVec.toNat_ofNat, BitVec.toNat_ofNat]
  omega

/-- Among `2 ^ 25` threads, the addresses of any two are at least 512 GiB apart. -/
theorem mapAddress_apart {i j : ℕ} (hne : i ≠ j) (hi : i < 2 ^ 25) (hj : j < 2 ^ 25) :
    2 ^ 39 ≤ (utilsVmopsGetMapAddress (BitVec.ofNat 32 j) -
      utilsVmopsGetMapAddress (BitVec.ofNat 32 i)).toNat := by
  rw [toNat_mapAddress_sub (by omega)]
  omega

/-! ### Two threads of a run -/

/-- **Two ranges are apart** that begin at `a` and `b` and are `m` and `n` long: one of them is
empty, or neither reaches the beginning of the other. -/
def Apart (a : Addr) (m : ℕ) (b : Addr) (n : ℕ) : Prop :=
  m = 0 ∨ n = 0 ∨ m ≤ (b - a).toNat ∧ n ≤ (a - b).toNat

theorem disjoint_arc_iff_apart {a b : Addr} {m n : ℕ} :
    Disjoint (arc a m) (arc b n) ↔ Apart a m b n := by
  rcases Nat.eq_zero_or_pos m with rfl | hm
  · simp [Apart]
  · rcases Nat.eq_zero_or_pos n with rfl | hn
    · simp [Apart]
    · rw [disjoint_arc_iff hm hn, Apart, or_iff_right hm.ne', or_iff_right hn.ne']

namespace System

section Isolated

variable {cfg : VmopsBenchCfg} {memobjs : ℕ → PlatMemobj} {f : RunFn}
  {s : System (ℤ × (ℕ → VmopsBenchRunArg))} {i j : ℕ} {t u : Thread}

/-- What a thread of a run has asked for is one range from its address on. -/
theorem covered_trace (hiso : cfg.isolated = true)
    (hpages : f = .mapunmap4k ∨ f = .protect4k → pageCount cfg ≠ 0)
    (hs : Reachable (vmopsUtilsRunBenchmark cfg.corelistSize (filledArgs cfg memobjs) f) s)
    (ht : s.threads i = some t) : covered (requests t.trace) = arc
      (utilsVmopsGetMapAddress (BitVec.ofNat 32 i)) (stretch cfg f (requests t.trace).length) := by
  obtain ⟨-, hrun⟩ := reachable_fillArg hs ht
  have hhon := (wp_run hrun (platThreadRunFn_requests hiso fun hf => hpages (Or.inl hf))
    (Spec.admits_of_forall _ (fun _ _ _ => trivial) _ _)).1
  conv_lhs => rw [requests_eq hhon]
  exact covered_requests hpages _

/-- **When isolated threads are isolated**: in every reachable state of every run, the ranges that
two threads have passed to `plat_vm_map_fixed` are disjoint exactly if the two
stretches they have covered so far are apart. -/
theorem isolated_iff (hiso : cfg.isolated = true)
    (hpages : f = .mapunmap4k ∨ f = .protect4k → pageCount cfg ≠ 0)
    (hs : Reachable (vmopsUtilsRunBenchmark cfg.corelistSize (filledArgs cfg memobjs) f) s)
    (ht : s.threads i = some t) (hu : s.threads j = some u) :
    (∀ r ∈ requests t.trace, ∀ r' ∈ requests u.trace,
      Disjoint (arc r.1 r.2.toNat) (arc r'.1 r'.2.toNat)) ↔
    Apart (utilsVmopsGetMapAddress (BitVec.ofNat 32 i)) (stretch cfg f (requests t.trace).length)
      (utilsVmopsGetMapAddress (BitVec.ofNat 32 j)) (stretch cfg f (requests u.trace).length) := by
  rw [← disjoint_covered_iff, covered_trace hiso hpages hs ht, covered_trace hiso hpages hs hu,
    disjoint_arc_iff_apart]

/-- **Small enough benchmarks are isolated**: at most `2 ^ 25` threads, each of which has asked for
at most 512 GiB. -/
theorem isolated_of_small (hiso : cfg.isolated = true)
    (hpages : f = .mapunmap4k ∨ f = .protect4k → pageCount cfg ≠ 0)
    (hs : Reachable (vmopsUtilsRunBenchmark cfg.corelistSize (filledArgs cfg memobjs) f) s)
    (hn : cfg.corelistSize.toNat ≤ 2 ^ 25) (hne : i ≠ j) (ht : s.threads i = some t)
    (hu : s.threads j = some u) (htm : stretch cfg f (requests t.trace).length ≤ 2 ^ 39)
    (hum : stretch cfg f (requests u.trace).length ≤ 2 ^ 39) :
    Disjoint (covered (requests t.trace)) (covered (requests u.trace)) := by
  have hi := (reachable_thread_wp hs runBenchmark_runsAll ht).1
  have hj := (reachable_thread_wp hs runBenchmark_runsAll hu).1
  rw [covered_trace hiso hpages hs ht, covered_trace hiso hpages hs hu, disjoint_arc_iff_apart]
  exact Or.inr (Or.inr ⟨htm.trans (mapAddress_apart hne (by omega) (by omega)),
    hum.trans (mapAddress_apart hne.symm (by omega) (by omega))⟩)

end Isolated

/-- Two isolated threads, otherwise as `twoThreads`. -/
def twoIsolated : VmopsBenchCfg := { twoThreads with isolated := true }

/-- The same with a memory object of 1 TiB. -/
def twoHuge : VmopsBenchCfg := { twoIsolated with memsize := 1#64 <<< 40 }

/-- What the first two threads have asked for, if there are two. -/
def bothRequests {ρ : Type} (s : System ρ) : Option (List (Addr × SizeT) × List (Addr × SizeT)) :=
  (s.threads 0).bind fun t => (s.threads 1).map fun u => (requests t.trace, requests u.trace)

theorem exists_of_bothRequests {ρ : Type} {s : System ρ} {rs rs' : List (Addr × SizeT)}
    (h : s.bothRequests = some (rs, rs')) : ∃ t u, s.threads 0 = some t ∧ s.threads 1 = some u ∧
      requests t.trace = rs ∧ requests u.trace = rs' := by
  obtain ⟨t, ht, h⟩ := Option.bind_eq_some_iff.mp h
  obtain ⟨u, hu, h⟩ := Option.map_eq_some_iff.mp h
  obtain ⟨rfl, rfl⟩ := Prod.mk.inj h
  exact ⟨t, u, ht, hu, rfl, rfl⟩

/-- Both threads of a run have made their first mapping. -/
def firstMappings : List Label :=
  let go := Label.main (MainCall.succeed (zeroArg twoIsolated))
  let ok i := Label.thread i ThreadCall.succeed
  [go, go, go, ok 0, ok 0, ok 1, ok 1, .openBarrier, ok 0, ok 0, ok 0, ok 1, ok 1, ok 1]

/-- Two threads with mappings of two pages, each 512 GiB from the other. -/
theorem isolated_twoIsolated :
    ∃ s t u, Reachable (vmopsUtilsRunBenchmark 2 (filledArgs twoIsolated fun _ => 1) .mapunmap) s ∧
      s.threads 0 = some t ∧ s.threads 1 = some u ∧ (requests t.trace).length = 1 ∧
      (requests u.trace).length = 1 ∧ ∀ r ∈ requests t.trace, ∀ r' ∈ requests u.trace,
        Disjoint (arc r.1 r.2.toNat) (arc r'.1 r'.2.toNat) := by
  have hrun : ∃ s, Reachable (vmopsUtilsRunBenchmark 2 (filledArgs twoIsolated fun _ => 1)
      .mapunmap) s ∧ s.bothRequests.map (fun p => (p.1.length, p.2.length)) = some (1, 1) :=
    exists_reachable_of_exec firstMappings (by decide)
  obtain ⟨s, hs, hboth⟩ := hrun
  obtain ⟨⟨rs, rs'⟩, hboth, hlen⟩ := Option.map_eq_some_iff.mp hboth
  obtain ⟨t, u, ht, hu, rfl, rfl⟩ := exists_of_bothRequests hboth
  obtain ⟨ht1, hu1⟩ := Prod.mk.inj hlen
  have hsep := @isolated_iff twoIsolated (fun _ => 1) .mapunmap s 0 1 t u rfl (by decide) hs ht hu
  refine ⟨s, t, u, hs, ht, hu, ht1, hu1, hsep.mpr ?_⟩
  rw [ht1, hu1]
  exact Or.inr (Or.inr (by decide))

/-- With mappings of 1 TiB the second thread maps over the first one. -/
theorem isolated_overlap :
    ∃ s t u, Reachable (vmopsUtilsRunBenchmark 2 (filledArgs twoHuge fun _ => 1) .mapunmap) s ∧
      s.threads 0 = some t ∧ s.threads 1 = some u ∧ ∃ r ∈ requests t.trace,
        ∃ r' ∈ requests u.trace, ¬Disjoint (arc r.1 r.2.toNat) (arc r'.1 r'.2.toNat) := by
  have hrun : ∃ s, Reachable (vmopsUtilsRunBenchmark 2 (filledArgs twoHuge fun _ => 1)
      .mapunmap) s ∧ s.bothRequests = some ([(utilsVmopsGetMapAddress 0, 1#64 <<< 40)],
        [(utilsVmopsGetMapAddress 1, 1#64 <<< 40)]) :=
    exists_reachable_of_exec firstMappings (by decide)
  obtain ⟨s, hs, hboth⟩ := hrun
  obtain ⟨t, u, ht, hu, htr, hur⟩ := exists_of_bothRequests hboth
  refine ⟨s, t, u, hs, ht, hu, _, by rw [htr]; exact List.mem_singleton_self _, _,
    by rw [hur]; exact List.mem_singleton_self _, ?_⟩
  rw [disjoint_arc_iff_apart]
  have hne : ¬Apart (utilsVmopsGetMapAddress 0) (1#64 <<< 40).toNat (utilsVmopsGetMapAddress 1)
      (1#64 <<< 40).toNat := by
    rw [Apart]
    decide
  exact hne

end System

end VmopsBench

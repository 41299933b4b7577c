import VmopsBench.Interact.Tracking

/-!
# Blocks that are obtained and given back

The discipline of a heap, for a program over any signature: some calls answer with a block, some
give a block back, and some use one (`Interact.HeapOps`). The ghost state of
`Interact.HeapOps.discipline` is the set of the blocks that are live. What is owed at each call is
that the blocks it gives back or uses are live; what is assumed of the answers is that a block which
is obtained was not.

A run that honours the discipline gives no block back twice, and what has been obtained and not
given back is what is live at its end (`Interact.HeapOps.count_obtained`). A program that works
with names for its blocks, and not with their addresses, is one whose names are
(`Interact.Places`) where the blocks are.
-/

namespace Interact

/-- **What calls have to do with blocks** named by addresses of type `P`. -/
structure HeapOps (S : Sig) (P : Type) where
  /-- The block that a call answers with. -/
  obtains : (c : S.Call) → S.Resp c → Option P
  /-- The block that a call gives back. -/
  releases : S.Call → Option P
  /-- The block that a call uses. -/
  uses : S.Call → Option P

variable {S : Sig} {P : Type} [DecidableEq P]

namespace HeapOps

variable (H : HeapOps S P)

/-- **Only live blocks are given back or used**, if only blocks that are not live are obtained. -/
def discipline : Spec S (Finset P) where
  pre live c := (∀ p ∈ H.releases c, p ∈ live) ∧ ∀ p ∈ H.uses c, p ∈ live
  env live c r := ∀ p ∈ H.obtains c r, p ∉ live
  upd live c r := (live \ (H.releases c).toFinset) ∪ (H.obtains c r).toFinset

instance decidableAdmits :
    (tr : List (Event S)) → (live : Finset P) → Decidable (H.discipline.Admits live tr)
  | [], _ => isTrue trivial
  | e :: tr, live =>
    have := decidableAdmits tr (H.discipline.upd live e.call e.resp)
    inferInstanceAs (Decidable ((∀ p ∈ H.obtains e.call e.resp, p ∉ live) ∧
      H.discipline.Admits (H.discipline.upd live e.call e.resp) tr))

/-- The blocks that a run has obtained, in order. -/
def obtained (tr : List (Event S)) : List P := tr.filterMap fun e => H.obtains e.call e.resp

/-- The blocks that a run has given back, in order. -/
def released (tr : List (Event S)) : List P := tr.filterMap fun e => H.releases e.call

variable {H}

/-- **No block is given back more often than it was obtained**, and the live ones were obtained once
more. No call may do both. -/
theorem count_obtained (hone : ∀ c r, H.releases c = none ∨ H.obtains c r = none) {live : Finset P}
    {tr : List (Event S)} (henv : H.discipline.Admits live tr)
    (hpre : H.discipline.Honours live tr) (p : P) :
    (H.obtained tr).count p + (if p ∈ live then 1 else 0) =
      (H.released tr).count p + if p ∈ H.discipline.after live tr then 1 else 0 := by
  induction tr generalizing live with
  | nil => rfl
  | cons e tr ih =>
    have hrest := ih henv.2 hpre.2
    obtain ⟨⟨hreleases, -⟩, -⟩ := hpre
    have hobtains := henv.1
    show _ = _ + if p ∈ H.discipline.after (H.discipline.upd live e.call e.resp) tr then 1 else 0
    rw [obtained, released, List.filterMap_cons, List.filterMap_cons]
    rw [obtained, released] at hrest
    have hupd : p ∈ H.discipline.upd live e.call e.resp ↔
        p ∈ live ∧ H.releases e.call ≠ some p ∨ H.obtains e.call e.resp = some p := by
      simp [discipline, eq_comm]
    simp only [hupd] at hrest
    rcases hone e.call e.resp with hnone | hnone <;> rw [hnone] at hrest ⊢
    · rcases hsome : H.obtains e.call e.resp with _ | q
      · simp_all
      · have hq : q ∉ live := hobtains q hsome
        by_cases hpq : q = p <;> simp_all
    · rcases hsome : H.releases e.call with _ | q
      · simp_all
      · have hq : q ∈ live := hreleases q hsome
        by_cases hpq : q = p
        · simp_all
          omega
        · simp_all

/-! #### The rules

They are stated with an account beside the blocks. -/

section Rules

variable {α D : Type} {add : D → (c : S.Call) → S.Resp c → D} {live : Finset P} {d : D}
  {c : S.Call} {f : S.Resp c → Prog S α} {Q : α → Finset P × D → Prop}

/-- A call that uses a block, or has nothing to do with blocks. -/
theorem wp_use (hobtains : ∀ r, H.obtains c r = none) (hreleases : H.releases c = none)
    (huses : ∀ p ∈ H.uses c, p ∈ live)
    (h : ∀ r, wp (H.discipline.tracking add) (f r) Q (live, add d c r)) :
    wp (H.discipline.tracking add) (Prog.perform c >>= f) Q (live, d) := by
  refine wp_perform_bind.mpr ⟨⟨by simp [hreleases], huses⟩, fun r _ => ?_⟩
  have hsame : H.discipline.upd live c r = live := by simp [discipline, hobtains, hreleases]
  rw [Spec.upd_tracking, hsame]
  exact h r

/-- A block is given back. -/
theorem wp_release {p : P} (hobtains : ∀ r, H.obtains c r = none)
    (hreleases : H.releases c = some p) (huses : H.uses c = none) (hp : p ∈ live)
    (h : ∀ r, wp (H.discipline.tracking add) (f r) Q (live.erase p, add d c r)) :
    wp (H.discipline.tracking add) (Prog.perform c >>= f) Q (live, d) := by
  refine wp_perform_bind.mpr ⟨⟨by simpa [hreleases] using hp, by simp [huses]⟩, fun r _ => ?_⟩
  have hless : H.discipline.upd live c r = live.erase p := by
    simp [discipline, hobtains, hreleases, Finset.sdiff_singleton_eq_erase]
  rw [Spec.upd_tracking, hless]
  exact h r

/-- A block is obtained, or not. -/
theorem wp_obtain (hreleases : H.releases c = none) (huses : H.uses c = none)
    (hnone : ∀ r, H.obtains c r = none →
      wp (H.discipline.tracking add) (f r) Q (live, add d c r))
    (hsome : ∀ r p, H.obtains c r = some p → p ∉ live →
      wp (H.discipline.tracking add) (f r) Q (insert p live, add d c r)) :
    wp (H.discipline.tracking add) (Prog.perform c >>= f) Q (live, d) := by
  refine wp_perform_bind.mpr ⟨⟨by simp [hreleases], by simp [huses]⟩, fun r henv => ?_⟩
  rcases hr : H.obtains c r with _ | p
  · have hsame : H.discipline.upd live c r = live := by simp [discipline, hr, hreleases]
    rw [Spec.upd_tracking, hsame]
    exact hnone r hr
  · have hmore : H.discipline.upd live c r = insert p live := by
      ext q
      simp [discipline, hr, hreleases, eq_comm]
    rw [Spec.upd_tracking, hmore]
    exact hsome r p hr (henv p hr)

end Rules

end HeapOps

/-! ### Blocks with names -/

/-- **Where the blocks are**: each name has an address, no two have the same, and the live blocks
are those with a name. -/
structure Places {β : Type} (g : Finset β) (place : β → P) (live : Finset P) : Prop where
  injOn : Set.InjOn place g
  live_eq : live = g.image place

namespace Places

variable {β : Type} {g : Finset β} {place : β → P} {live : Finset P}

theorem empty (place : β → P) : Places ∅ place ∅ := ⟨by simp, by simp⟩

theorem mem (h : Places g place live) {b : β} (hb : b ∈ g) : place b ∈ live := by
  rw [h.live_eq]
  exact Finset.mem_image_of_mem place hb

/-- Only the addresses of the names matter. -/
theorem congr (h : Places g place live) {place' : β → P} (heq : ∀ b ∈ g, place' b = place b) :
    Places g place' live where
  injOn b hb c hc hbc := h.injOn hb hc (by rwa [← heq b hb, ← heq c hc])
  live_eq := h.live_eq.trans (Finset.image_congr fun b hb => (heq b hb).symm)

variable [DecidableEq β]

/-- **A block is obtained**, and gets a name. -/
theorem insert (h : Places g place live) {b : β} (hb : b ∉ g) {p : P} (hp : p ∉ live) :
    Places (insert b g) (Function.update place b p) (insert p live) := by
  have hother : ∀ c ∈ g, Function.update place b p c = place c := by
    intro c hc
    refine Function.update_of_ne ?_ _ _
    rintro rfl
    exact hb hc
  have h' := h.congr hother
  refine ⟨?_, ?_⟩
  · rw [Finset.coe_insert]
    refine (Set.injOn_insert (by exact_mod_cast hb)).mpr ⟨h'.injOn, ?_⟩
    rw [Function.update_self]
    rintro ⟨c, hc, heq⟩
    exact hp (heq ▸ h'.mem hc)
  · rw [Finset.image_insert, Function.update_self, ← h'.live_eq]

/-- **A block is given back**, and its name is one no more. -/
theorem erase (h : Places g place live) {b : β} (hb : b ∈ g) :
    Places (g.erase b) place (live.erase (place b)) where
  injOn := h.injOn.mono (by exact_mod_cast Finset.erase_subset b g)
  live_eq := by
    ext p
    simp only [h.live_eq, Finset.mem_erase, Finset.mem_image]
    constructor
    · rintro ⟨hne, c, hc, rfl⟩
      exact ⟨c, ⟨fun heq => hne (heq ▸ rfl), hc⟩, rfl⟩
    · rintro ⟨c, ⟨hne, hc⟩, rfl⟩
      exact ⟨fun heq => hne (h.injOn hc hb heq), c, hc, rfl⟩

end Places

end Interact

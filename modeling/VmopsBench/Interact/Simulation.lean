import Mathlib.Logic.Relation

/-!
# Forward simulation

Two transition systems, and a relation between their states that every step of the first one
keeps if the second one may take some steps, or none, at the same time. Then whatever the first
one reaches is related to something that the second one reaches
(`Interact.Simulates.exists_reached`).

The steps of the second system may rely on its state being reachable, and what is known of its
reachable states is then known while a step is matched.
-/

namespace Interact

open Relation

variable {α β : Type*}

/-- **A forward simulation** between two transition systems with initial states `a₀` and `b₀`. -/
structure Simulates (step : α → α → Prop) (a₀ : α) (step' : β → β → Prop) (b₀ : β)
    (R : α → β → Prop) : Prop where
  init : R a₀ b₀
  step : ∀ {a a' : α} {b : β}, ReflTransGen step' b₀ b → R a b → step a a' →
    ∃ b', ReflTransGen step' b b' ∧ R a' b'

namespace Simulates

variable {step : α → α → Prop} {step' : β → β → Prop} {a₀ : α} {b₀ : β} {R : α → β → Prop}

/-- **What the first system reaches is related to what the second one reaches.** -/
theorem exists_reached (h : Simulates step a₀ step' b₀ R) {a : α} (ha : ReflTransGen step a₀ a) :
    ∃ b, ReflTransGen step' b₀ b ∧ R a b := by
  induction ha with
  | refl => exact ⟨b₀, .refl, h.init⟩
  | tail _ hstep ih =>
    obtain ⟨b, hb, hR⟩ := ih
    obtain ⟨b', hb', hR'⟩ := h.step hb hR hstep
    exact ⟨b', hb.trans hb', hR'⟩

end Simulates

end Interact

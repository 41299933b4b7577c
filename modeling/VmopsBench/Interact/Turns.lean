import VmopsBench.Interact.Spec

/-!
# The heads of a loop

A property of a loop is often meant to hold whenever the loop is about to test its condition, and to
say something about the number of turns made so far. `Interact.Turns` are the runs of a `while` from
head to head, with that number.

An invariant that depends on the number of turns holds at every head (`Interact.Turns.invariant`);
and an example of a head is built turn by turn.
-/

namespace Interact

open Prog

variable {S : Sig} {G σ ε : Type}

/-- **Some turns of a `while`**: after `c` of them, and the calls of `tr`, the loop that has
begun with `s` is to be gone on with from `s'`. -/
inductive Turns (cond : σ → Bool) (body : σ → Prog S (Except ε σ)) (s : σ) :
    ℕ → List (Event S) → σ → Prop where
  | zero : Turns cond body s 0 [] s
  | succ {c : ℕ} {tr tr' : List (Event S)} {s' s'' : σ} : Turns cond body s c tr s' →
      cond s' = true → Run (body s') tr' (.ret (.ok s'')) →
      Turns cond body s (c + 1) (tr ++ tr') s''

namespace Turns

variable {cond : σ → Bool} {body : σ → Prog S (Except ε σ)} {s s' : σ} {c : ℕ}
  {tr : List (Event S)}

/-- They are a run of the loop. -/
theorem run (h : Turns cond body s c tr s') :
    Run (whileLoop cond body s) tr (whileLoop cond body s') := by
  induction h with
  | zero => exact .nil _
  | succ _ hcond hbody ih => exact ih.trans (Run.while_turn hcond hbody)

/-- **An invariant holds at every head.** -/
theorem invariant {Γ : Spec S G} {E : ε → G → Prop} {Inv : ℕ → σ → G → Prop}
    (hbody : ∀ c s g, Inv c s g → cond s = true → wp Γ (body s) (onExcept E (Inv (c + 1))) g)
    (h : Turns cond body s c tr s') {g : G} (hs : Inv 0 s g) (henv : Γ.Admits g tr) :
    Inv c s' (Γ.after g tr) := by
  induction h with
  | zero => exact hs
  | succ _ hcond hrun ih =>
    obtain ⟨hfirst, hlast⟩ := Spec.admits_append_iff.mp henv
    rw [Spec.after_append]
    exact (wp_run hrun (hbody _ _ _ (ih hfirst) hcond) hlast).2

end Turns

end Interact

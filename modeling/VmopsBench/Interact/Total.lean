import VmopsBench.Interact.Spec

/-!
# Total correctness

`Interact.wp` says nothing of a program that turns forever. `Interact.Ends` is what is left to say:
along all answers that are assumed, the program meets its obligations and comes to a result in
finitely many steps. It is an inductive predicate, so that a derivation is a bound on every one of
these runs at once.

The rules are those of the logic, but that a `while` needs a measure besides its invariant
(`Interact.Ends.whileLoop`). What ends, ends from every state that a run of it has come to
(`Interact.Ends.of_run`).
-/

namespace Interact

open Prog

variable {S : Sig} {G α β σ ε : Type}

/-- **The program comes to a result**, and that satisfies the postcondition. -/
inductive Ends (Γ : Spec S G) {α : Type} (Q : α → G → Prop) : Prog S α → G → Prop where
  | ret {a : α} {g : G} : Q a g → Ends Γ Q (.ret a) g
  | call {c : S.Call} {k : S.Resp c → Prog S α} {g : G} : Γ.pre g c →
      (∀ r, Γ.env g c r → Ends Γ Q (k r) (Γ.upd g c r)) → Ends Γ Q (.call c k) g
  | turn {σ β : Type} {body : σ → Prog S (σ ⊕ β)} {s : σ} {k : β → Prog S α} {g : G} :
      Ends Γ Q (unroll body s k) g → Ends Γ Q (.loop body s k) g

namespace Ends

variable {Γ : Spec S G}

/-- **Consequence.** -/
theorem mono {p : Prog S α} {Q Q' : α → G → Prop} (h : ∀ a g, Q a g → Q' a g) {g : G}
    (hp : Ends Γ Q p g) : Ends Γ Q' p g := by
  induction hp with
  | ret ha => exact .ret (h _ _ ha)
  | call hpre _ ih => exact .call hpre ih
  | turn _ ih => exact .turn ih

/-- **Sequencing**: the first program ends where the second one does. -/
theorem bind {p : Prog S α} {f : α → Prog S β} {Q : β → G → Prop} {g : G}
    (hp : Ends Γ (fun a g => Ends Γ Q (f a) g) p g) : Ends Γ Q (p >>= f) g := by
  induction hp with
  | ret ha => exact ha
  | call hpre _ ih => exact .call hpre ih
  | turn _ ih => exact .turn (unroll_bind _ _ _ f ▸ ih)

/-- The rule of a call. -/
theorem perform {c : S.Call} {f : S.Resp c → Prog S α} {Q : α → G → Prop} {g : G}
    (hpre : Γ.pre g c) (h : ∀ r, Γ.env g c r → Ends Γ Q (f r) (Γ.upd g c r)) :
    Ends Γ Q (Prog.perform c >>= f) g := .call hpre h

/-- **The rule of `while`**: the body keeps the invariant and makes the measure smaller, or leaves
in a state good enough for the error exit. -/
theorem whileLoop {cond : σ → Bool} {body : σ → Prog S (Except ε σ)} {Q : Except ε σ → G → Prop}
    (Inv : σ → G → Prop) (measure : σ → G → ℕ)
    (hbody : ∀ s g, Inv s g → cond s = true → Ends Γ (onExcept (fun e => Q (.error e))
      (fun s' g' => Inv s' g' ∧ measure s' g' < measure s g)) (body s) g)
    (hexit : ∀ s g, Inv s g → cond s = false → Q (.ok s) g) {s : σ} {g : G} (h0 : Inv s g) :
    Ends Γ Q (whileLoop cond body s) g := by
  induction hm : measure s g using Nat.strongRecOn generalizing s g with
  | ind m ih =>
    refine .turn ?_
    cases hcond : cond s with
    | false =>
      rw [unroll, whileBody, if_neg (by simp [hcond])]
      exact .ret (hexit s g h0 hcond)
    | true =>
      rw [unroll, whileBody, if_pos hcond, bind_assoc]
      refine .bind ((hbody s g h0 hcond).mono fun o g' ho => ?_)
      cases o with
      | error e => exact .ret ho
      | ok s' => exact ih _ (hm ▸ ho.2) ho.1 rfl

/-- **The rule of `for`**, which needs no measure. -/
theorem forLoop {n : ℕ} {body : ℕ → σ → Prog S (Except ε σ)} {Q : Except ε σ → G → Prop}
    (Inv : ℕ → σ → G → Prop)
    (hbody : ∀ i s g, i < n → Inv i s g →
      Ends Γ (onExcept (fun e => Q (.error e)) (Inv (i + 1))) (body i s) g)
    (hexit : ∀ s g, Inv n s g → Q (.ok s) g) {s : σ} {g : G} (h0 : Inv 0 s g) :
    Ends Γ Q (forLoop n body s) g := by
  have hfrom : ∀ r i s g, i + r = n → Inv i s g → Ends Γ Q (forFrom body i r s) g := by
    intro r
    induction r with
    | zero =>
      intro i s g hi hs
      obtain rfl : i = n := hi
      exact .ret (hexit s g hs)
    | succ r ih =>
      intro i s g hi hs
      refine .bind ((hbody i s g (by omega) hs).mono fun o g' ho => ?_)
      cases o with
      | error e => exact .ret ho
      | ok s' => exact ih (i + 1) s' g' (by omega) ho
  exact hfrom n 0 s g (by omega) h0

/-- **Along a run** with the assumed answers, what is left of the program still ends. -/
theorem of_run {p q : Prog S α} {tr : List (Event S)} (hr : Run p tr q) {Q : α → G → Prop} {g : G}
    (hp : Ends Γ Q p g) (henv : Γ.Admits g tr) : Ends Γ Q q (Γ.after g tr) := by
  induction hr generalizing g with
  | nil p => exact hp
  | call r _ ih =>
    cases hp with
    | call hpre h => exact ih (h r henv.1) henv.2
  | turn _ ih =>
    cases hp with
    | turn h => exact ih h henv

/-- **What has come so far without a call** ends if the rest does. -/
theorem of_silent_run {p q : Prog S α} (hr : Run p [] q) {Q : α → G → Prop} {g : G}
    (hq : Ends Γ Q q g) : Ends Γ Q p g := by
  generalize htr : ([] : List (Event S)) = tr at hr
  induction hr with
  | nil p => exact hq
  | call r _ _ => cases htr
  | turn _ ih => exact .turn (ih hq htr)

/-- The result of such a run. -/
theorem of_ret {a : α} {Q : α → G → Prop} {g : G} (h : Ends Γ Q (.ret a) g) : Q a g := by
  cases h with
  | ret ha => exact ha

/-- **There is such a run**, if every call can be answered. -/
theorem exists_run {p : Prog S α} {Q : α → G → Prop} {g : G} (h : Ends Γ Q p g)
    (hanswer : ∀ g c, ∃ r, Γ.env g c r) :
    ∃ tr a, Run p tr (.ret a) ∧ Γ.Admits g tr ∧ Q a (Γ.after g tr) := by
  induction h with
  | ret ha => exact ⟨[], _, .nil _, trivial, ha⟩
  | call _ _ ih =>
    obtain ⟨r, henv⟩ := hanswer _ _
    obtain ⟨tr, a, hrun, hadmits, ha⟩ := ih r henv
    exact ⟨_, a, hrun.call r, ⟨henv, hadmits⟩, ha⟩
  | turn _ ih =>
    obtain ⟨tr, a, hrun, hadmits, ha⟩ := ih
    exact ⟨tr, a, hrun.turn, hadmits, ha⟩

end Ends

end Interact

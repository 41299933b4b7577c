import VmopsBench.Interact.Spec

/-!
# Judging a run

A program that meets its obligations only under some circumstances cannot be proved to meet a
`Interact.Spec`. What can be said of it is when it does: `Interact.Spec.judging` is the
specification that writes down, next to the ghost state, whether every call so far has met its
obligation, and that asks for the obligations only as long as a given condition holds.
One proof in the program logic then has both directions (`Interact.judge_run`): along any run that
satisfies the condition the obligations are met, and of a run that has come to a result the
postcondition says what the judgement is.

When the judgement has fallen, nothing is left to be proved of the rest of the program but that it
stays as it is (`Interact.wp_of_kept`).
-/

namespace Interact

variable {S : Sig} {G α : Type} {Γ : Spec S G}

/-- **Keeping a judgement**: whether every call so far has met its obligation. -/
def Spec.judging (Γ : Spec S G) (C : G → Prop) : Spec S (G × Prop) where
  pre x c := C x.1 → Γ.pre x.1 c
  env x := Γ.env x.1
  upd x c r := (Γ.upd x.1 c r, x.2 ∧ Γ.pre x.1 c)

theorem after_judging (C : G → Prop) (g : G) (P : Prop) (tr : List (Event S)) :
    (Γ.judging C).after (g, P) tr = (Γ.after g tr, P ∧ Γ.Honours g tr) := by
  induction tr generalizing g P with
  | nil => exact congrArg (Prod.mk g) (and_true P).symm
  | cons e tr ih =>
    refine (ih (Γ.upd g e.call e.resp) (P ∧ Γ.pre g e.call)).trans ?_
    exact congrArg (Prod.mk _) (propext and_assoc)

theorem admits_judging {C : G → Prop} {g : G} {P : Prop} {tr : List (Event S)}
    (h : Γ.Admits g tr) : (Γ.judging C).Admits (g, P) tr := by
  induction tr generalizing g P with
  | nil => trivial
  | cons e tr ih => exact ⟨h.1, ih h.2⟩

/-- A condition that holds at the end has held all the time, if no call brings it back. -/
theorem honours_of_judging {C : G → Prop} (hC : ∀ g c r, C (Γ.upd g c r) → C g) {g : G} {P : Prop}
    {tr : List (Event S)} (h : (Γ.judging C).Honours (g, P) tr) (hend : C (Γ.after g tr)) :
    Γ.Honours g tr := by
  have hstart : ∀ {g : G} {tr : List (Event S)}, C (Γ.after g tr) → C g := by
    intro g tr
    induction tr generalizing g with
    | nil => exact id
    | cons e tr ih => exact fun hend => hC g e.call e.resp (ih hend)
  induction tr generalizing g P with
  | nil => trivial
  | cons e tr ih => exact ⟨h.1 (hstart hend), ih h.2 hend⟩

/-- **What a judged proof says of a run.** -/
theorem judge_run {p q : Prog S α} {tr : List (Event S)} (hr : Run p tr q) {C : G → Prop}
    (hC : ∀ g c r, C (Γ.upd g c r) → C g) {Q : α → G × Prop → Prop} {g : G}
    (hp : wp (Γ.judging C) p Q (g, True)) (henv : Γ.Admits g tr) :
    (C (Γ.after g tr) → Γ.Honours g tr) ∧
      ∀ a, q = .ret a → Q a (Γ.after g tr, Γ.Honours g tr) := by
  obtain ⟨hon, hq⟩ := wp_run hr hp (admits_judging henv)
  refine ⟨honours_of_judging hC hon, ?_⟩
  rintro a rfl
  rw [after_judging, true_and] at hq
  exact hq

/-- **A condition that every call keeps** and that pays what is owed holds at the end of any
program. -/
theorem wp_of_kept {J : G → Prop} (hpre : ∀ g c, J g → Γ.pre g c)
    (hupd : ∀ g c r, J g → J (Γ.upd g c r)) (p : Prog S α) {g : G} (hg : J g) :
    wp Γ p (fun _ => J) g := by
  induction p generalizing g with
  | ret a => exact hg
  | call c k ih => exact ⟨hpre g c hg, fun r _ => ih r (hupd g c r hg)⟩
  | loop body s k ihbody ih =>
    refine ⟨fun _ => J, fun _ => J, hg, fun s g hs => ?_, fun b g hb => ih b hb⟩
    refine wp_mono _ (fun o g' ho => ?_) (ihbody s hs)
    cases o <;> exact ho

end Interact

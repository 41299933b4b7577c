import Mathlib.SetTheory.Ordinal.Rank
import VmopsBench.Interact.Total

/-!
# Programs that come to an end, whatever they are answered

When no assumption at all is made of the answers, total correctness (`Interact.Ends`) is a property
of the program alone: the relation that leads from a program to what can be left of it after one
step is well founded below it (`Interact.Prog.Terminates`). Such a program has a *rank*, an ordinal,
as a call may have infinitely many answers, and every step makes the rank smaller
(`Interact.Prog.Terminates.rank_lt`).

Ranks are what one needs to see that several programs come to an end side by side: whoever makes the
next step, one of the ranks goes down and none goes up.
-/

namespace Interact

open Prog

variable {S : Sig} {G α : Type}

namespace Prog

/-- **One step of a program**, by itself: a call is answered, or a loop makes a turn. -/
inductive Next : Prog S α → Prog S α → Prop where
  | call {c : S.Call} {k : S.Resp c → Prog S α} (r : S.Resp c) : Next (.call c k) (k r)
  | turn {σ β : Type} {body : σ → Prog S (σ ⊕ β)} {s : σ} {k : β → Prog S α} :
      Next (.loop body s k) (unroll body s k)

/-- **Whatever it is answered, the program comes to an end.** -/
def Terminates (p : Prog S α) : Prop := Acc (fun q p => Next p q) p

open Classical in
/-- **The rank of a program**, which is zero if it need not come to an end. -/
noncomputable def rank (p : Prog S α) : Ordinal :=
  if h : p.Terminates then Acc.rank h else 0

variable {p q : Prog S α}

theorem Terminates.next (h : p.Terminates) (hnext : p.Next q) : q.Terminates := h.inv hnext

/-- **A step makes the rank smaller.** -/
theorem Terminates.rank_lt (h : p.Terminates) (hnext : p.Next q) : q.rank < p.rank := by
  rw [rank, rank, dif_pos (h.next hnext), dif_pos h]
  exact Acc.rank_lt_of_rel h hnext

/-- What comes to an end, comes to an end from wherever a run has led it. -/
theorem Terminates.of_run {tr : List (Event S)} (h : p.Terminates) (hrun : Run p tr q) :
    q.Terminates := by
  induction hrun with
  | nil p => exact h
  | call r _ ih => exact ih (h.next (.call r))
  | turn _ ih => exact ih (h.next .turn)

end Prog

/-- **Total correctness without assumptions** is termination. -/
theorem Ends.terminates {Γ : Spec S G} {Q : α → G → Prop} {p : Prog S α} {g : G}
    (h : Ends Γ Q p g) (henv : ∀ g c r, Γ.env g c r) : p.Terminates := by
  induction h with
  | ret _ => exact .intro _ fun q hq => nomatch hq
  | call _ _ ih =>
    refine .intro _ fun q hq => ?_
    cases hq with
    | call r => exact ih r (henv _ _ r)
  | turn _ ih =>
    refine .intro _ fun q hq => ?_
    cases hq with
    | turn => exact ih

/-! ### Rules -/

namespace Prog

variable {β σ ε : Type}

/-- What comes to an end, does so with any history. -/
theorem Terminates.ends {p : Prog S α} (h : p.Terminates) (g : List (Event S)) :
    Ends (recording S) (fun _ _ => True) p g := by
  induction h generalizing g with
  | intro p _ ih =>
    cases p with
    | ret a => exact .ret trivial
    | call c k => exact .call trivial fun r _ => ih _ (.call r) _
    | loop body s k => exact .turn (ih _ .turn g)

theorem terminates_of_ends {p : Prog S α} {Q : α → List (Event S) → Prop} {g : List (Event S)}
    (h : Ends (recording S) Q p g) : p.Terminates := h.terminates fun _ _ _ => trivial

theorem terminates_ret (a : α) : (Prog.ret a : Prog S α).Terminates :=
  terminates_of_ends (g := []) (.ret (Q := fun _ _ => True) trivial)

/-- **Sequencing**: the second program may use what a run of the first one tells. -/
theorem Terminates.bind_of_run {p : Prog S α} {f : α → Prog S β} (hp : p.Terminates)
    (hf : ∀ a tr, Run p tr (.ret a) → (f a).Terminates) : (p >>= f).Terminates := by
  induction hp with
  | intro p _ ih =>
    cases p with
    | ret a => exact hf a [] (.nil _)
    | call c k =>
      refine .intro _ fun q hq => ?_
      cases hq with
      | call r => exact ih _ (.call r) fun a tr h => hf a _ (h.call r)
    | loop body s k =>
      refine .intro _ fun q hq => ?_
      cases hq with
      | turn =>
        have hnext := ih _ .turn fun a tr h => hf a tr h.turn
        rwa [← unroll_bind] at hnext

theorem Terminates.bind {p : Prog S α} {f : α → Prog S β} (hp : p.Terminates)
    (hf : ∀ a, (f a).Terminates) : (p >>= f).Terminates := hp.bind_of_run fun a _ _ => hf a

theorem terminates_perform (c : S.Call) : (perform c).Terminates :=
  terminates_of_ends (g := []) (.call (Q := fun _ _ => True) trivial fun _ _ => .ret trivial)

/-- A call at the front. -/
theorem terminates_perform_bind {c : S.Call} {f : S.Resp c → Prog S α}
    (h : ∀ r, (f r).Terminates) : (perform c >>= f).Terminates :=
  terminates_of_ends (.perform (g := []) trivial fun r _ => (h r).ends _)

/-- **A counting loop** comes to an end if its body does. -/
theorem terminates_forLoop {n : ℕ} {body : ℕ → σ → Prog S (Except ε σ)} {s : σ}
    (h : ∀ i s, (body i s).Terminates) : (forLoop n body s).Terminates := by
  refine terminates_of_ends (g := []) (.forLoop (Q := fun _ _ => True) (fun _ _ _ => True) ?_
    (fun _ _ _ => trivial) trivial)
  intro i s g _ _
  refine ((h i s).ends g).mono fun o _ _ => ?_
  rcases o with _ | _ <;> trivial

end Prog

end Interact

import VmopsBench.Interact.Spec

/-!
# Programs over a larger signature

A function that is written against one interface is also called by code that has other
calls at its disposal. `Interact.Sig.sum` puts two signatures side by side, and
`Interact.Prog.inl` reads a program over the first as one over both; the calls are the same
ones, and no others are made.

So nothing has to be proved of such a program a second time: what the weakest precondition of the
smaller program says, that of the larger one says (`Interact.wp_inl`), under a specification that
treats the other calls in any way (`Interact.Spec.sum`). If it ignores them, the ghost state
is that of the calls on the left (`Interact.lefts`).
-/

namespace Interact

open Prog

variable {S T : Sig} {G α β σ ε : Type}

/-! ### The sum of two signatures -/

/-- **The calls of two signatures.** -/
def Sig.sum (S T : Sig) : Sig := ⟨S.Call ⊕ T.Call, Sum.elim S.Resp T.Resp⟩

/-- A call of the first signature, as one of both. -/
def performLeft (T : Sig) (c : S.Call) : Prog (S.sum T) (S.Resp c) :=
  Prog.perform (S := S.sum T) (Sum.inl c)

/-- A call of the second signature. -/
def performRight (S : Sig) (c : T.Call) : Prog (S.sum T) (T.Resp c) :=
  Prog.perform (S := S.sum T) (Sum.inr c)

/-- **A program over the first signature**, over both. -/
def Prog.inl (T : Sig) {α : Type} : Prog S α → Prog (S.sum T) α
  | .ret a => .ret a
  | .call c k => .call (Sum.inl c) fun r => (k r).inl T
  | .loop body s k => .loop (fun s => (body s).inl T) s fun b => (k b).inl T

theorem Prog.inl_bind (T : Sig) (p : Prog S α) (f : α → Prog S β) :
    (p >>= f).inl T = p.inl T >>= fun a => (f a).inl T := by
  induction p with
  | ret a => rfl
  | call c k ih => exact congrArg (Prog.call (S := S.sum T) (Sum.inl c)) (funext fun r => ih r f)
  | loop body s k _ ih =>
    exact congrArg (Prog.loop (S := S.sum T) (fun s => (body s).inl T) s) (funext fun b => ih b f)

/-- **Two specifications** over one ghost state, each for the calls of its signature. -/
def Spec.sum (Γ : Spec S G) (Δ : Spec T G) : Spec (S.sum T) G where
  pre g := Sum.elim (Γ.pre g) (Δ.pre g)
  env g c := match c with
    | .inl c => Γ.env g c
    | .inr c => Δ.env g c
  upd g c := match c with
    | .inl c => Γ.upd g c
    | .inr c => Δ.upd g c

/-- **What is proved of a program** over the first signature holds of it over both. -/
theorem wp_inl {Γ : Spec S G} {Δ : Spec T G} (p : Prog S α) {Q : α → G → Prop} {g : G}
    (h : wp Γ p Q g) : wp (Γ.sum Δ) (p.inl T) Q g := by
  induction p generalizing g with
  | ret a => exact h
  | call c k ih => exact ⟨h.1, fun r hr => ih r (h.2 r hr)⟩
  | loop body s k ihbody ih =>
    obtain ⟨Inv, R, h0, hbody, hk⟩ := h
    exact ⟨Inv, R, h0, fun s g hs => ihbody s (hbody s g hs), fun b g hb => ih b (hk b g hb)⟩

/-! ### The calls on the left -/

/-- **The calls of the first signature** in a run over both. -/
def lefts (tr : List (Event (S.sum T))) : List (Event S) :=
  tr.filterMap fun e => match e with
    | ⟨.inl c, r⟩ => some ⟨c, r⟩
    | ⟨.inr _, _⟩ => none

/-- The specification that says nothing, and keeps the ghost state. -/
def ignoring (T : Sig) (G : Type) : Spec T G where
  pre _ _ := True
  env _ _ _ := True
  upd g _ _ := g

/-- The ghost state depends on the calls on the left, if those on the right are ignored. -/
theorem after_sum_ignoring {Γ : Spec S G} (g : G) (tr : List (Event (S.sum T))) :
    (Γ.sum (ignoring T G)).after g tr = Γ.after g (lefts tr) := by
  induction tr generalizing g with
  | nil => rfl
  | cons e tr ih =>
    obtain ⟨c | c, r⟩ := e
    · exact ih (Γ.upd g c r)
    · exact ih g

end Interact

import VmopsBench.Interact.Spec

/-!
# Accounts

An account of the calls of a program is kept beside a ghost state, and has no influence on it:
nothing is owed and nothing is assumed because of it (`Interact.Spec.tracking`). So a run is
admitted, and meets its obligations, as it does without; and the account at its end is what its
calls add up to (`Interact.Spec.after_tracking`).

The history is such an account. Beside any ghost state for which a program satisfies the logic, it
is known to be a run of the program (`Interact.wp_history`).
-/

namespace Interact

open Prog

variable {S : Sig} {G D α : Type}

/-- What the calls of a history add up to. -/
def account (add : D → (c : S.Call) → S.Resp c → D) (d : D) (tr : List (Event S)) : D :=
  tr.foldl (fun d e => add d e.call e.resp) d

namespace Spec

/-- **A specification with an account of the calls.** -/
def tracking (Γ : Spec S G) (add : D → (c : S.Call) → S.Resp c → D) : Spec S (G × D) where
  pre x c := Γ.pre x.1 c
  env x c r := Γ.env x.1 c r
  upd x c r := (Γ.upd x.1 c r, add x.2 c r)

variable {Γ : Spec S G} {add : D → (c : S.Call) → S.Resp c → D} {g : G} {d : D}
  {tr : List (Event S)}

theorem upd_tracking {c : S.Call} {r : S.Resp c} :
    (Γ.tracking add).upd (g, d) c r = (Γ.upd g c r, add d c r) := rfl

theorem after_tracking :
    (Γ.tracking add).after (g, d) tr = (Γ.after g tr, account add d tr) := by
  induction tr generalizing g d with
  | nil => rfl
  | cons e tr ih => exact ih

theorem admits_tracking : (Γ.tracking add).Admits (g, d) tr ↔ Γ.Admits g tr := by
  induction tr generalizing g d with
  | nil => exact Iff.rfl
  | cons e tr ih => exact and_congr Iff.rfl ih

theorem honours_tracking : (Γ.tracking add).Honours (g, d) tr ↔ Γ.Honours g tr := by
  induction tr generalizing g d with
  | nil => exact Iff.rfl
  | cons e tr ih => exact and_congr Iff.rfl ih

end Spec

/-! ### The history -/

/-- An event more. -/
def addEvent (tr : List (Event S)) (c : S.Call) (r : S.Resp c) : List (Event S) := tr ++ [⟨c, r⟩]

/-- **The runs of a program**, beside its postcondition: whatever it returns, it has come there by a
run. -/
theorem wp_history {Γ : Spec S G} (p : Prog S α) {Q : α → G → Prop} {g : G} (hp : wp Γ p Q g)
    (past : List (Event S)) : wp (Γ.tracking addEvent) p
      (fun a x => Q a x.1 ∧ ∃ tr, x.2 = past ++ tr ∧ Run p tr (.ret a)) (g, past) := by
  induction p generalizing g past with
  | ret a => exact ⟨hp, [], (List.append_nil past).symm, .nil _⟩
  | call c k ih =>
    refine ⟨hp.1, fun r henv => wp_mono _ ?_ (ih r (hp.2 r henv) (past ++ [⟨c, r⟩]))⟩
    rintro a ⟨g', past'⟩ ⟨hQ, tr, rfl, hrun⟩
    exact ⟨hQ, ⟨c, r⟩ :: tr, List.append_assoc _ _ _, hrun.call r⟩
  | @loop σ β α body s k ihbody ih =>
    obtain ⟨Inv, R, h0, hbody, hk⟩ := hp
    -- the turns so far, whatever comes after the loop
    refine ⟨fun s' x => Inv s' x.1 ∧ ∃ tr, x.2 = past ++ tr ∧
        ∀ k : β → Prog S α, Run (.loop body s k) tr (.loop body s' k),
      fun b x => R b x.1 ∧ ∃ tr, x.2 = past ++ tr ∧
        ∀ k : β → Prog S α, Run (.loop body s k) tr (k b),
      ⟨h0, [], (List.append_nil past).symm, fun _ => .nil _⟩, ?_, ?_⟩
    · rintro s' ⟨g', -⟩ ⟨hs, tr, rfl, hturns⟩
      refine wp_mono _ ?_ (ihbody s' (hbody s' g' hs) (past ++ tr))
      rintro x ⟨g'', -⟩ ⟨hx, tr', rfl, hturn⟩
      have hnext : ∀ k : β → Prog S α, Run (.loop body s k) (tr ++ tr')
          (Sum.elim (fun s' => .loop body s' k) k x) := by
        refine fun k => (hturns k).trans (.turn ?_)
        rw [unroll]
        simpa using hturn.bind (.nil (Sum.elim (fun s' => .loop body s' k) k x))
      rcases x with s'' | b <;> exact ⟨hx, tr ++ tr', List.append_assoc _ _ _, hnext⟩
    · rintro b ⟨g', -⟩ ⟨hb, tr, rfl, hturns⟩
      refine wp_mono _ ?_ (ih b (hk b g' hb) (past ++ tr))
      rintro a ⟨g'', -⟩ ⟨hQ, tr', rfl, hrun⟩
      exact ⟨hQ, tr ++ tr', List.append_assoc _ _ _, (hturns k).trans hrun⟩

end Interact

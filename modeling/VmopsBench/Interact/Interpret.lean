import VmopsBench.Interact.Tracking

/-!
# Calls that are programs themselves

What is one call of a program may be a whole function of the layer below it. A
`Interact.Handler` implements the calls of one signature by programs over another one, with a state
of its own for what the functions leave behind, and `Interact.Prog.interpret` puts the
implementations in the place of the calls.

A handler **realizes** a specification (`Interact.Handler.Realizes`) when each implementation, from
a state that represents the ghost state, meets the specification below and comes to a state that
represents the ghost state after the call. It is enough to check that for each call on its own: what
the logic proves of the program above is then proved of the one below (`Interact.wp_interpret`).
If the handler realizes it with the history beside, the runs below are runs above
(`Interact.run_of_interpret`).
-/

namespace Interact

open Prog

variable {S T : Sig} {G D τ α : Type}

/-- **Implementations** of the calls of `S` by programs over `T`, with a state that they share. -/
def Handler (S T : Sig) (τ : Type) : Type 1 := τ → (c : S.Call) → Prog T (S.Resp c × τ)

/-- **A program with the implementations of its calls**, from a state of theirs. -/
def Prog.interpret (h : Handler S T τ) {α : Type} : Prog S α → τ → Prog T (α × τ)
  | .ret a, t => .ret (a, t)
  | .call c k, t => (h t c).bind fun r => (k r.1).interpret h r.2
  | .loop body s k, t =>
    .loop (fun u => ((body u.1).interpret h u.2).bind fun x =>
      .ret (x.1.map (·, x.2) (·, x.2))) (s, t) fun u => (k u.1).interpret h u.2

/-- **A handler realizes a specification** in terms of the one below: `I` says which states
represent which ghost states. -/
def Handler.Realizes (h : Handler S T τ) (Γ : Spec S G) (Δ : Spec T D) (I : G → τ → D → Prop) :
    Prop :=
  ∀ g t d c, I g t d → Γ.pre g c →
    wp Δ (h t c) (fun r d' => Γ.env g c r.1 ∧ I (Γ.upd g c r.1) r.2 d') d

variable {h : Handler S T τ}

/-- **The rule of implemented calls.** -/
theorem wp_interpret {Γ : Spec S G} {Δ : Spec T D} {I : G → τ → D → Prop}
    (hI : h.Realizes Γ Δ I) (p : Prog S α) {Q : α → G → Prop} {g : G} {t : τ} {d : D}
    (hp : wp Γ p Q g) (hg : I g t d) :
    wp Δ (p.interpret h t) (fun r d' => ∃ g', Q r.1 g' ∧ I g' r.2 d') d := by
  induction p generalizing g t d with
  | ret a => exact ⟨g, hp, hg⟩
  | call c k ih =>
    refine (wp_bind _ _).mpr (wp_mono _ ?_ (hI g t d c hg hp.1))
    rintro ⟨r, t'⟩ d' ⟨henv, hg'⟩
    exact ih r (hp.2 r henv) hg'
  | loop body s k ihbody ih =>
    obtain ⟨Inv, R, h0, hbody, hk⟩ := hp
    refine ⟨fun u d => ∃ g, Inv u.1 g ∧ I g u.2 d, fun u d => ∃ g, R u.1 g ∧ I g u.2 d,
      ⟨g, h0, hg⟩, ?_, ?_⟩
    · rintro ⟨s, t⟩ d ⟨g, hs, hg⟩
      refine (wp_bind _ _).mpr (wp_mono _ ?_ (ihbody s (hbody s g hs) hg))
      rintro ⟨x, t'⟩ d' ⟨g', hx, hg'⟩
      rcases x with s' | b <;> exact ⟨g', hx, hg'⟩
    · rintro ⟨b, t⟩ d ⟨g, hb, hg⟩
      exact ih b (hk b g hb) hg

/-! ### Runs -/

/-- **The runs below are runs above**, with the same result. What the calls below say about
those above is for `I` to tell. -/
theorem run_of_interpret {Γ : Spec S G} {Δ : Spec T D} {I : G × List (Event S) → τ → D → Prop}
    (hI : h.Realizes (Γ.tracking addEvent) Δ I) {p : Prog S α} {Q : α → G → Prop} {g : G}
    (hp : wp Γ p Q g) {t t' : τ} {d : D} (h0 : I (g, []) t d) {tr : List (Event T)} {a : α}
    (hrun : Run (p.interpret h t) tr (.ret (a, t'))) (henv : Δ.Admits d tr) :
    ∃ tr' g', Run p tr' (.ret a) ∧ Q a g' ∧ I (g', tr') t' (Δ.after d tr) := by
  obtain ⟨⟨g', past⟩, ⟨hQ, tr', hpast, habove⟩, hI'⟩ :=
    (wp_run hrun (wp_interpret hI p (wp_history p hp []) h0) henv).2
  obtain rfl : past = tr' := hpast
  exact ⟨past, g', habove, hQ, hI'⟩

end Interact

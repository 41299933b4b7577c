import VmopsBench.Interact.Prog

/-!
# A program logic for interaction programs

What a program may do is said by a `Interact.Spec`: a type of *ghost states* – a history,
a page table, whatever the property at hand has to remember – with three pieces.
`pre` is what the program owes at each call, `env` is what is assumed of the
answers, and `upd` is how the ghost state moves when a call is answered.

`Interact.wp` computes, along the program, the weakest condition on the ghost state under
which every call finds its obligation met and every result satisfies the
postcondition. At a loop it asks for an invariant, and it asks nothing about
termination: a program that turns forever meets its obligations as long as every
turn does. The rules `Interact.wp_bind`, `Interact.wp_perform_bind`, `Interact.wp_whileLoop` and
`Interact.wp_forLoop` are all a proof about a run function uses.

That the logic says something about runs is `Interact.wp_run`: along every run whose
answers are the assumed ones, every call made meets its obligation and what is left of
the program still satisfies the logic at the ghost state reached.
-/

namespace Interact

open Prog

/-- **A specification** over ghost states `G`. -/
structure Spec (S : Sig) (G : Type) where
  /-- What the program owes when it makes a call. -/
  pre : G → S.Call → Prop
  /-- What is assumed of the answer. -/
  env : G → (c : S.Call) → S.Resp c → Prop
  /-- The ghost state after the answer. -/
  upd : G → (c : S.Call) → S.Resp c → G

variable {S : Sig} {G α β σ ε : Type}

/-- **The weakest precondition** of a program: every call meets its obligation and
every result the postcondition, whatever the assumed answers are. -/
def wp (Γ : Spec S G) {α : Type} : Prog S α → (α → G → Prop) → G → Prop
  | .ret a, Q, g => Q a g
  | .call c k, Q, g => Γ.pre g c ∧ ∀ r, Γ.env g c r → wp Γ (k r) Q (Γ.upd g c r)
  | .loop (σ := σ) (β := β) body s k, Q, g =>
    ∃ (Inv : σ → G → Prop) (R : β → G → Prop), Inv s g ∧
      (∀ s g, Inv s g → wp Γ (body s) (Sum.elim Inv R) g) ∧
      ∀ b g, R b g → wp Γ (k b) Q g

/-! ### The rules -/

section Rules

variable {Γ : Spec S G}

/-- **Consequence**: a weaker postcondition is easier. -/
theorem wp_mono (p : Prog S α) {Q Q' : α → G → Prop} (h : ∀ a g, Q a g → Q' a g) {g : G}
    (hp : wp Γ p Q g) : wp Γ p Q' g := by
  induction p generalizing g with
  | ret a => exact h _ _ hp
  | call c k ih => exact ⟨hp.1, fun r hr => ih r h (hp.2 r hr)⟩
  | loop body s k _ ih =>
    obtain ⟨Inv, R, h0, hbody, hk⟩ := hp
    exact ⟨Inv, R, h0, hbody, fun b g hb => ih b h (hk b g hb)⟩

/-- **Sequencing**: the second program is checked from wherever the first ends. -/
theorem wp_bind (p : Prog S α) (f : α → Prog S β) {Q : β → G → Prop} {g : G} :
    wp Γ (p >>= f) Q g ↔ wp Γ p (fun a => wp Γ (f a) Q) g := by
  induction p generalizing g with
  | ret a => exact Iff.rfl
  | call c k ih => exact and_congr Iff.rfl (forall₂_congr fun r _ => ih r f)
  | loop body s k _ ih =>
    refine exists₂_congr fun Inv R => and_congr Iff.rfl (and_congr Iff.rfl ?_)
    exact forall₃_congr fun b g _ => ih b f

theorem wp_perform {c : S.Call} {Q : S.Resp c → G → Prop} {g : G} :
    wp Γ (perform c) Q g ↔ Γ.pre g c ∧ ∀ r, Γ.env g c r → Q r (Γ.upd g c r) := Iff.rfl

theorem wp_perform_bind {c : S.Call} {f : S.Resp c → Prog S α} {Q : α → G → Prop} {g : G} :
    wp Γ (perform c >>= f) Q g ↔ Γ.pre g c ∧ ∀ r, Γ.env g c r → wp Γ (f r) Q (Γ.upd g c r) :=
  Iff.rfl

/-- The postcondition of a body that may leave with an error. -/
def onExcept (E : ε → G → Prop) (I : σ → G → Prop) : Except ε σ → G → Prop
  | .ok s => I s
  | .error e => E e

/-- **The rule of `while`**: an invariant that the body keeps, or leaves in a state
good enough for the error exit. -/
theorem wp_whileLoop {cond : σ → Bool} {body : σ → Prog S (Except ε σ)} {s : σ}
    {Q : Except ε σ → G → Prop} {g : G} (Inv : σ → G → Prop) (h0 : Inv s g)
    (hbody : ∀ s g, Inv s g → cond s = true →
      wp Γ (body s) (onExcept (fun e => Q (.error e)) Inv) g)
    (hexit : ∀ s g, Inv s g → cond s = false → Q (.ok s) g) :
    wp Γ (whileLoop cond body s) Q g := by
  refine ⟨Inv, Q, h0, fun s g hs => ?_, fun b g hb => hb⟩
  rw [whileBody]
  cases hc : cond s with
  | false => exact hexit s g hs hc
  | true =>
    refine (wp_bind _ _).mpr (wp_mono _ (fun r g' hr => ?_) (hbody s g hs hc))
    cases r <;> exact hr

/-- **The rule of `for`**: an invariant indexed by the counter. -/
theorem wp_forLoop {n : ℕ} {body : ℕ → σ → Prog S (Except ε σ)} {s : σ}
    {Q : Except ε σ → G → Prop} {g : G} (Inv : ℕ → σ → G → Prop) (h0 : Inv 0 s g)
    (hbody : ∀ i s g, i < n → Inv i s g →
      wp Γ (body i s) (onExcept (fun e => Q (.error e)) (Inv (i + 1))) g)
    (hexit : ∀ s g, Inv n s g → Q (.ok s) g) :
    wp Γ (forLoop n body s) Q g := by
  have hfrom : ∀ r i s g, i + r = n → Inv i s g → wp Γ (forFrom body i r s) Q g := by
    intro r
    induction r with
    | zero =>
      intro i s g hi hs
      obtain rfl : i = n := hi
      exact hexit s g hs
    | succ r ih =>
      intro i s g hi hs
      refine (wp_bind _ _).mpr (wp_mono _ (fun o g' ho => ?_) (hbody i s g (by omega) hs))
      cases o with
      | ok s' => exact ih (i + 1) s' g' (by omega) ho
      | error e => exact ho
  exact hfrom n 0 s g (by omega) h0

/-- **A call that does not matter**: nothing is owed at it, and the ghost state stays as it is. -/
def Spec.Ignores (Γ : Spec S G) (c : S.Call) : Prop := ∀ g, Γ.pre g c ∧ ∀ r, Γ.upd g c r = g

/-- The rule of a call that does not matter. -/
theorem wp_ignored {c : S.Call} {f : S.Resp c → Prog S α} {Q : α → G → Prop} {g : G}
    (hc : Γ.Ignores c) (h : ∀ r, wp Γ (f r) Q g) : wp Γ (perform c >>= f) Q g := by
  refine wp_perform_bind.mpr ⟨(hc g).1, fun r _ => ?_⟩
  rw [(hc g).2 r]
  exact h r

/-- One turn of a loop keeps the weakest precondition. -/
theorem wp_unroll {body : σ → Prog S (σ ⊕ β)} {s : σ} {k : β → Prog S α} {Q : α → G → Prop} {g : G}
    (h : wp Γ (.loop body s k) Q g) : wp Γ (unroll body s k) Q g := by
  obtain ⟨Inv, R, h0, hbody, hk⟩ := h
  refine (wp_bind _ _).mpr (wp_mono _ (fun r g' hr => ?_) (hbody s g h0))
  cases r with
  | inl s' => exact ⟨Inv, R, hr, hbody, hk⟩
  | inr b => exact hk b g' hr

end Rules

/-! ### Along a run -/

namespace Spec

variable (Γ : Spec S G)

/-- The ghost state at the end of a run. -/
def after (g : G) (tr : List (Event S)) : G := tr.foldl (fun g e => Γ.upd g e.call e.resp) g

/-- The answers of a run are the assumed ones. -/
def Admits (g : G) : List (Event S) → Prop
  | [] => True
  | e :: tr => Γ.env g e.call e.resp ∧ Admits (Γ.upd g e.call e.resp) tr

/-- A run is admitted whose answers are the assumed ones at all ghost states. -/
theorem admits_of_mem {tr : List (Event S)} (h : ∀ e ∈ tr, ∀ g, Γ.env g e.call e.resp) (g : G) :
    Γ.Admits g tr := by
  induction tr generalizing g with
  | nil => trivial
  | cons e tr ih =>
    exact ⟨h e List.mem_cons_self g, ih (fun a ha => h a (List.mem_cons_of_mem e ha)) _⟩

/-- What is assumed at every ghost state holds of every answer of such a run. -/
theorem Admits.forall_mem {Γ : Spec S G} {P : (c : S.Call) → S.Resp c → Prop}
    (hP : ∀ g c r, Γ.env g c r → P c r) {g : G} {tr : List (Event S)} (h : Γ.Admits g tr) :
    ∀ e ∈ tr, P e.call e.resp := by
  induction tr generalizing g with
  | nil => exact nofun
  | cons e tr ih => exact List.forall_mem_cons.mpr ⟨hP _ _ _ h.1, ih h.2⟩

/-- Nothing is assumed: every run is admitted. -/
theorem admits_of_forall (h : ∀ g c r, Γ.env g c r) (g : G) (tr : List (Event S)) :
    Γ.Admits g tr := admits_of_mem Γ (fun _ _ _ => h _ _ _) g

/-- Every call of a run meets its obligation. -/
def Honours (g : G) : List (Event S) → Prop
  | [] => True
  | e :: tr => Γ.pre g e.call ∧ Honours (Γ.upd g e.call e.resp) tr

/-- Any one call of such a run has met its obligation. -/
theorem Honours.of_mem {Γ : Spec S G} {g : G} {tr : List (Event S)} (h : Γ.Honours g tr)
    {e : Event S} (he : e ∈ tr) : ∃ g', Γ.pre g' e.call := by
  induction tr generalizing g with
  | nil => cases he
  | cons a tr ih =>
    rcases List.mem_cons.mp he with rfl | he
    · exact ⟨g, h.1⟩
    · exact ih h.2 he

end Spec

/-- **The logic is sound**: along a run with the assumed answers every call meets
its obligation, and the rest of the program still satisfies the logic. -/
theorem wp_run {Γ : Spec S G} {p q : Prog S α} {tr : List (Event S)} (hr : Run p tr q)
    {Q : α → G → Prop} {g : G} (hp : wp Γ p Q g) (henv : Γ.Admits g tr) :
    Γ.Honours g tr ∧ wp Γ q Q (Γ.after g tr) := by
  induction hr generalizing g with
  | nil p => exact ⟨trivial, hp⟩
  | call r _ ih =>
    obtain ⟨hpre, hk⟩ := hp
    obtain ⟨hon, hq⟩ := ih (hk r henv.1) henv.2
    exact ⟨⟨hpre, hon⟩, hq⟩
  | turn _ ih => exact ih (wp_unroll hp) henv

/-- A run whose answers are given in advance is admitted, if those are the assumed ones. -/
theorem admits_follow {Γ : Spec S G} {env : (c : S.Call) → S.Resp c}
    (henv : ∀ g c, Γ.env g c (env c)) (n : ℕ) (p : Prog S α) (g : G) :
    Γ.Admits g (follow env n p).1 := by
  induction n generalizing p g with
  | zero => trivial
  | succ n ih =>
    cases p with
    | ret a => trivial
    | call c k => exact ⟨henv g c, ih (k (env c)) _⟩
    | loop body s k => exact ih (unroll body s k) g

/-- A result that was come to in this way is the result of an admitted run. -/
theorem exists_admitted_of_yields {Γ : Spec S G} {p : Prog S α} {P : List (Event S) → α → Prop}
    [∀ tr a, Decidable (P tr a)] {env : (c : S.Call) → S.Resp c}
    (henv : ∀ g c, Γ.env g c (env c)) (g : G) (n : ℕ)
    (h : yields env n p (fun tr a => decide (P tr a)) = true) :
    ∃ tr a, Run p tr (.ret a) ∧ Γ.Admits g tr ∧ P tr a := by
  have hrun := run_follow env n p
  have hadmits := admits_follow henv n p g
  rw [yields] at h
  cases hf : follow env n p with
  | mk tr q =>
    rw [hf] at h hrun hadmits
    cases q with
    | ret a => exact ⟨tr, a, hrun, hadmits, by simpa using h⟩
    | call c k => cases h
    | loop body s k => cases h

/-! ### The history as the ghost state -/

/-- **The specification that records**: nothing is owed and nothing assumed, and the ghost state
is the sequence of answered calls. -/
def recording (S : Sig) : Spec S (List (Event S)) where
  pre _ _ := True
  env _ _ _ := True
  upd g c r := g ++ [⟨c, r⟩]

theorem after_recording (g tr : List (Event S)) : (recording S).after g tr = g ++ tr := by
  induction tr generalizing g with
  | nil => exact (List.append_nil g).symm
  | cons e tr ih => exact (ih _).trans (List.append_assoc g [e] tr)

/-- **What is proved of the history holds of every run** that has come to a result. -/
theorem of_run {p : Prog S α} {tr : List (Event S)} {a : α} (hr : Run p tr (.ret a))
    {Q : α → List (Event S) → Prop} (hp : wp (recording S) p Q []) : Q a tr := by
  have hadm := (recording S).admits_of_forall (fun _ _ _ => trivial) [] tr
  have hq : Q a ((recording S).after [] tr) := (wp_run hr hp hadm).2
  rwa [after_recording] at hq

/-- The rule of a call, for the history. -/
theorem wp_recording_call {c : S.Call} {f : S.Resp c → Prog S α} {Q : α → List (Event S) → Prop}
    {g : List (Event S)} (h : ∀ r, wp (recording S) (f r) Q (g ++ [⟨c, r⟩])) :
    wp (recording S) (perform c >>= f) Q g :=
  wp_perform_bind.mpr ⟨trivial, fun r _ => h r⟩

/-- **A program only adds to the history.** -/
theorem wp_recording_extends (p : Prog S α) (g : List (Event S)) :
    wp (recording S) p (fun _ g' => ∃ tr, g' = g ++ tr) g := by
  have htrans : ∀ {g g' g'' : List (Event S)}, (∃ tr, g' = g ++ tr) → (∃ tr, g'' = g' ++ tr) →
      ∃ tr, g'' = g ++ tr := by
    rintro g - - ⟨tr, rfl⟩ ⟨tr', rfl⟩
    exact ⟨tr ++ tr', List.append_assoc _ _ _⟩
  induction p generalizing g with
  | ret a => exact ⟨[], (List.append_nil g).symm⟩
  | call c k ih => exact ⟨trivial, fun r _ =>
      wp_mono _ (fun _ _ h => htrans ⟨[⟨c, r⟩], rfl⟩ h) (ih r (g ++ [⟨c, r⟩]))⟩
  | loop body s k ihbody ih =>
    refine ⟨fun _ g' => ∃ tr, g' = g ++ tr, fun _ g' => ∃ tr, g' = g ++ tr,
      ⟨[], (List.append_nil g).symm⟩, fun s g' hg => ?_, fun b g' hg => ?_⟩
    · refine wp_mono _ (fun o g'' h => ?_) (ihbody s g')
      cases o <;> exact htrans hg h
    · exact wp_mono _ (fun _ _ h => htrans hg h) (ih b g')

/-! ### The calls a program makes -/

/-- **The specification of a program that makes certain calls only.** -/
def limitedTo (ok : S.Call → Prop) : Spec S Unit where
  pre _ c := ok c
  env _ _ _ := True
  upd g _ _ := g

theorem limitedTo_ignores {ok : S.Call → Prop} {c : S.Call} (h : ok c) :
    (limitedTo ok).Ignores c := fun _ => ⟨h, fun _ => rfl⟩

/-- **Calls that do not matter** leave the ghost state as it is. -/
theorem Spec.after_of_ignores {Γ : Spec S G} {tr : List (Event S)}
    (h : ∀ e ∈ tr, Γ.Ignores e.call) (g : G) : Γ.after g tr = g := by
  induction tr with
  | nil => rfl
  | cons e tr ih =>
    show Γ.after (Γ.upd g e.call e.resp) tr = g
    rw [(h e List.mem_cons_self g).2 e.resp]
    exact ih fun e' he' => h e' (List.mem_cons_of_mem e he')

/-- **A program whose calls do not matter** leaves the ghost state as it is. -/
theorem wp_of_limited {Γ : Spec S G} {ok : S.Call → Prop} (hok : ∀ c, ok c → Γ.Ignores c)
    {p : Prog S α} {Q : α → Unit → Prop} (hp : wp (limitedTo ok) p Q ()) (g : G) :
    wp Γ p (fun a g' => Q a () ∧ g' = g) g := by
  induction p with
  | ret a => exact ⟨hp, rfl⟩
  | call c k ih => exact wp_ignored (hok c hp.1) fun r => ih r (hp.2 r trivial)
  | loop body s k ihbody ih =>
    obtain ⟨Inv, R, h0, hbody, hk⟩ := hp
    refine ⟨fun s g' => Inv s () ∧ g' = g, fun b g' => R b () ∧ g' = g, ⟨h0, rfl⟩,
      fun s g' hs => ?_, fun b g' hb => ?_⟩
    · rw [hs.2]
      refine wp_mono _ (fun o g' ho => ?_) (ihbody s (hbody s () hs.1))
      rcases o with _ | _ <;> exact ho
    · rw [hb.2]
      exact ih b (hk b () hb.1)

/-- The calls of a run are among them. -/
theorem forall_mem_of_run {p q : Prog S α} {tr : List (Event S)} (hr : Run p tr q)
    {ok : S.Call → Prop} {Q : α → Unit → Prop} (hp : wp (limitedTo ok) p Q ()) :
    ∀ e ∈ tr, ok e.call := by
  intro e he
  have hadm := (limitedTo ok).admits_of_forall (fun _ _ _ => trivial) () tr
  obtain ⟨_, hok⟩ := (wp_run hr hp hadm).1.of_mem he
  exact hok

/-! ### Reached states -/

namespace Spec

variable {Γ : Spec S G}

/-- **What a program can come to** with the assumed answers: what is left of it, and the
ghost state there. -/
def Reaches (Γ : Spec S G) (p : Prog S α) (g : G) (q : Prog S α) (g' : G) : Prop :=
  ∃ tr, Run p tr q ∧ Γ.Admits g tr ∧ Γ.after g tr = g'

/-- A call that a program can come to, and the ghost state there. -/
def ComesTo (Γ : Spec S G) (p : Prog S α) (g : G) (c : S.Call) (g' : G) : Prop :=
  ∃ k, Γ.Reaches p g (.call c k) g'

/-- **A program meets a specification** when every call it comes to finds its obligation met. -/
def Meets (Γ : Spec S G) (p : Prog S α) (g : G) : Prop := ∀ c g', Γ.ComesTo p g c g' → Γ.pre g' c

theorem meets_of_wp {p : Prog S α} {Q : α → G → Prop} {g : G} (h : wp Γ p Q g) : Γ.Meets p g := by
  rintro c g' ⟨k, tr, hrun, henv, rfl⟩
  exact (wp_run hrun h henv).2.1

theorem after_append (g : G) (tr tr' : List (Event S)) :
    Γ.after g (tr ++ tr') = Γ.after (Γ.after g tr) tr' := List.foldl_append

theorem admits_append_iff {g : G} {tr tr' : List (Event S)} :
    Γ.Admits g (tr ++ tr') ↔ Γ.Admits g tr ∧ Γ.Admits (Γ.after g tr) tr' := by
  induction tr generalizing g with
  | nil => exact iff_of_eq (true_and _).symm
  | cons e tr ih => exact (and_congr_right fun _ => ih).trans and_assoc.symm

theorem admits_append {g : G} {tr tr' : List (Event S)} (h : Γ.Admits g tr)
    (h' : Γ.Admits (Γ.after g tr) tr') : Γ.Admits g (tr ++ tr') := admits_append_iff.mpr ⟨h, h'⟩

theorem Reaches.refl (p : Prog S α) (g : G) : Γ.Reaches p g p g := ⟨[], .nil p, trivial, rfl⟩

theorem Reaches.trans {p q r : Prog S α} {g g' g'' : G} (h : Γ.Reaches p g q g')
    (h' : Γ.Reaches q g' r g'') : Γ.Reaches p g r g'' := by
  obtain ⟨tr, hrun, henv, rfl⟩ := h
  obtain ⟨tr', hrun', henv', rfl⟩ := h'
  exact ⟨tr ++ tr', hrun.trans hrun', admits_append henv henv', after_append g tr tr'⟩

/-- A call is answered. -/
theorem Reaches.perform_bind {c : S.Call} {f : S.Resp c → Prog S α} {q : Prog S α} {g g' : G}
    (r : S.Resp c) (henv : Γ.env g c r) (h : Γ.Reaches (f r) (Γ.upd g c r) q g') :
    Γ.Reaches (perform c >>= f) g q g' := by
  obtain ⟨tr, hrun, hadm, rfl⟩ := h
  exact ⟨⟨c, r⟩ :: tr, hrun.perform_bind r, ⟨henv, hadm⟩, rfl⟩

theorem Reaches.bind_left {p q : Prog S α} {g g' : G} (h : Γ.Reaches p g q g')
    (f : α → Prog S β) : Γ.Reaches (p >>= f) g (q >>= f) g' := by
  obtain ⟨tr, hrun, henv⟩ := h
  exact ⟨tr, hrun.bind_left f, henv⟩

/-- The first program of a sequence ends, and the second goes on. -/
theorem Reaches.bind {p : Prog S α} {f : α → Prog S β} {a : α} {q : Prog S β} {g g' g'' : G}
    (h : Γ.Reaches p g (.ret a) g') (h' : Γ.Reaches (f a) g' q g'') :
    Γ.Reaches (p >>= f) g q g'' := (h.bind_left f).trans h'

theorem Reaches.while_done {cond : σ → Bool} {body : σ → Prog S (Except ε σ)} {s : σ} {g : G}
    (h : cond s = false) : Γ.Reaches (whileLoop cond body s) g (.ret (.ok s)) g :=
  ⟨[], Run.while_done h, trivial, rfl⟩

theorem ComesTo.perform (c : S.Call) (f : S.Resp c → Prog S α) (g : G) :
    Γ.ComesTo (Prog.perform c >>= f) g c g := ⟨f, .refl _ _⟩

theorem Reaches.comesTo {p q : Prog S α} {g g' g'' : G} {c : S.Call} (h : Γ.Reaches p g q g')
    (h' : Γ.ComesTo q g' c g'') : Γ.ComesTo p g c g'' := by
  obtain ⟨k, hk⟩ := h'
  exact ⟨k, h.trans hk⟩

/-- A call of the first program of a sequence is one of the sequence. -/
theorem ComesTo.bind_left {p : Prog S α} {g g' : G} {c : S.Call} (h : Γ.ComesTo p g c g')
    (f : α → Prog S β) : Γ.ComesTo (p >>= f) g c g' := by
  obtain ⟨k, hk⟩ := h
  exact ⟨_, hk.bind_left f⟩

/-- A call of the body is one of the loop. -/
theorem ComesTo.while {cond : σ → Bool} {body : σ → Prog S (Except ε σ)} {s : σ} {g g' : G}
    {c : S.Call} (h : cond s = true) (hb : Γ.ComesTo (body s) g c g') :
    Γ.ComesTo (whileLoop cond body s) g c g' := by
  have henter : ∃ f, unroll (whileBody cond body) s .ret = body s >>= f := by
    rw [unroll, whileBody, if_pos h, Prog.bind_assoc]
    exact ⟨_, rfl⟩
  obtain ⟨f, hf⟩ := henter
  obtain ⟨k, tr, hrun, henv⟩ := hb.bind_left f
  exact ⟨k, tr, Run.turn (hf ▸ hrun), henv⟩

/-- **Some turns of a `while`**, with the loop variables and the ghost states given in advance. -/
theorem Reaches.while_turns {cond : σ → Bool} {body : σ → Prog S (Except ε σ)} (st : ℕ → σ)
    (gs : ℕ → G) {m : ℕ} (h : ∀ j < m, cond (st j) = true ∧
      Γ.Reaches (body (st j)) (gs j) (.ret (.ok (st (j + 1)))) (gs (j + 1))) :
    Γ.Reaches (whileLoop cond body (st 0)) (gs 0) (whileLoop cond body (st m)) (gs m) := by
  induction m with
  | zero => exact .refl _ _
  | succ m ih =>
    obtain ⟨hcond, tr, hrun, henv⟩ := h m (Nat.lt_succ_self m)
    have hturn : Γ.Reaches (whileLoop cond body (st m)) (gs m) (whileLoop cond body (st (m + 1)))
        (gs (m + 1)) := ⟨tr, Run.while_turn hcond hrun, henv⟩
    exact (ih fun j hj => h j (by omega)).trans hturn

end Spec

end Interact

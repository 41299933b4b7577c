import Mathlib

/-!
# Interaction programs with loops

A thread of a C program alternates between computing on its own locals and
asking its surroundings for something: a system call, a clock reading, a barrier.
`Interact.Prog` is that alternation as a type. A program either returns, or makes
a call and continues with the answer, or runs a loop; everything between two calls
is an ordinary Lean term, so a run function is written here in `do` notation,
statement for statement.

Loops are a constructor, and not a recursion of the host language, for one reason:
a `while` that tests a flag somebody else writes may turn forever, and so may a
`for` whose counter wraps. Unrolling a loop (`Interact.Prog.unroll`) is a silent step of the
semantics, so such a program is a term like any other and nothing has to be
assumed about its termination.

Two derived loops are what the code uses: `Interact.Prog.whileLoop`, whose body
either yields the next state or leaves with an error, and
`Interact.Prog.forLoop`, which counts upwards to a bound known beforehand.

The meaning of a program on its own is `Interact.Run`: the finite sequences of
calls and answers it can produce. How several programs run side by side is up to
whoever composes them.
-/

namespace Interact

/-- **A signature**: the calls a program may make, and what each is answered
with. -/
structure Sig where
  Call : Type
  Resp : Call → Type

/-- **Programs over a signature**, with results of the given type. -/
inductive Prog (S : Sig) : Type → Type 1 where
  /-- Return a result. -/
  | ret {α : Type} (a : α) : Prog S α
  /-- Make a call, and continue with its answer. -/
  | call {α : Type} (c : S.Call) (k : S.Resp c → Prog S α) : Prog S α
  /-- Run `body` from `s` until it yields a `β`, and continue with that. -/
  | loop {σ β α : Type} (body : σ → Prog S (σ ⊕ β)) (s : σ) (k : β → Prog S α) : Prog S α

/-- One call of a run, with its answer. -/
structure Event (S : Sig) where
  call : S.Call
  resp : S.Resp call

namespace Prog

variable {S : Sig} {α β γ σ ε : Type}

/-! ### Sequencing -/

/-- Run a program, then the one chosen by its result. -/
def bind {α β : Type} : Prog S α → (α → Prog S β) → Prog S β
  | .ret a, f => f a
  | .call c k, f => .call c fun r => (k r).bind f
  | .loop body s k, f => .loop body s fun b => (k b).bind f

instance : Monad (Prog S) where
  pure := Prog.ret
  bind := Prog.bind

@[simp] theorem ret_bind (a : α) (f : α → Prog S β) : (Prog.ret a >>= f) = f a := rfl

theorem bind_assoc (p : Prog S α) (f : α → Prog S β) (g : β → Prog S γ) :
    (p >>= f) >>= g = p >>= fun a => f a >>= g := by
  induction p with
  | ret a => rfl
  | call c k ih => exact congrArg (Prog.call c) (funext fun r => ih r f)
  | loop body s k _ ih => exact congrArg (Prog.loop body s) (funext fun b => ih b f)

/-- The program that makes one call and returns its answer. -/
def perform (c : S.Call) : Prog S (S.Resp c) := .call c .ret

theorem perform_bind (c : S.Call) (f : S.Resp c → Prog S α) :
    (perform c >>= f) = .call c f := rfl

/-! ### Loops -/

/-- **One turn of a loop**: run the body once, and go round again or leave. -/
def unroll (body : σ → Prog S (σ ⊕ β)) (s : σ) (k : β → Prog S α) : Prog S α :=
  body s >>= Sum.elim (fun s' => .loop body s' k) k

theorem unroll_bind (body : σ → Prog S (σ ⊕ β)) (s : σ) (k : β → Prog S α) (f : α → Prog S γ) :
    unroll body s (fun b => k b >>= f) = unroll body s k >>= f := by
  rw [unroll, unroll, bind_assoc]
  refine congrArg (body s >>= ·) (funext fun r => ?_)
  cases r <;> rfl

/-- The body of a `while`: test, and if the test succeeds run the statements. -/
def whileBody (cond : σ → Bool) (body : σ → Prog S (Except ε σ)) (s : σ) :
    Prog S (σ ⊕ Except ε σ) :=
  if cond s then body s >>= fun
    | .ok s' => .ret (.inl s')
    | .error e => .ret (.inr (.error e))
  else .ret (.inr (.ok s))

/-- **`while (cond) body`**: the body returns the next state, or an error to leave
the loop from the middle, the way a `return` or a `goto` does. -/
def whileLoop (cond : σ → Bool) (body : σ → Prog S (Except ε σ)) (s : σ) : Prog S (Except ε σ) :=
  .loop (whileBody cond body) s .ret

/-- The `r` turns of a counting loop that start at index `i`. -/
def forFrom (body : ℕ → σ → Prog S (Except ε σ)) (i : ℕ) : ℕ → σ → Prog S (Except ε σ)
  | 0, s => .ret (.ok s)
  | r + 1, s => body i s >>= fun
    | .ok s' => forFrom body (i + 1) r s'
    | .error e => .ret (.error e)

/-- **`for (i = 0; i < n; i++) body`**, for a counter that cannot wrap. -/
def forLoop (n : ℕ) (body : ℕ → σ → Prog S (Except ε σ)) (s : σ) : Prog S (Except ε σ) :=
  forFrom body 0 n s

end Prog

/-! ### Runs -/

open Prog

variable {S : Sig} {α β σ ε : Type}

/-- **The runs of a program**: `Run p tr q` says that `p` can make the calls of
`tr`, be given the answers recorded there, and then be at `q`. -/
inductive Run : {α : Type} → Prog S α → List (Event S) → Prog S α → Prop where
  | nil {α : Type} (p : Prog S α) : Run p [] p
  | call {α : Type} {c : S.Call} {k : S.Resp c → Prog S α} (r : S.Resp c) {tr : List (Event S)}
      {q : Prog S α} : Run (k r) tr q → Run (.call c k) (⟨c, r⟩ :: tr) q
  /-- A loop makes one turn. -/
  | turn {σ β α : Type} {body : σ → Prog S (σ ⊕ β)} {s : σ} {k : β → Prog S α}
      {tr : List (Event S)} {q : Prog S α} : Run (unroll body s k) tr q → Run (.loop body s k) tr q

theorem Run.trans {p q r : Prog S α} {tr tr' : List (Event S)} (h : Run p tr q)
    (h' : Run q tr' r) : Run p (tr ++ tr') r := by
  induction h with
  | nil p => exact h'
  | call a _ ih => exact (ih h').call a
  | turn _ ih => exact (ih h').turn

/-- A run that has reached a call goes on with any answer. -/
theorem Run.answer {p : Prog S α} {tr : List (Event S)} {c : S.Call} {k : S.Resp c → Prog S α}
    (h : Run p tr (.call c k)) (r : S.Resp c) : Run p (tr ++ [⟨c, r⟩]) (k r) :=
  h.trans ((Run.nil _).call r)

/-- A run that has reached a loop goes round it. -/
theorem Run.again {p : Prog S α} {tr : List (Event S)} {body : σ → Prog S (σ ⊕ β)} {s : σ}
    {k : β → Prog S α} (h : Run p tr (.loop body s k)) : Run p tr (unroll body s k) := by
  simpa using h.trans (Run.nil (unroll body s k)).turn

/-- A program that has returned does nothing more. -/
theorem Run.of_ret {a : α} {tr : List (Event S)} {q : Prog S α} (h : Run (.ret a) tr q) :
    tr = [] ∧ q = .ret a := by
  cases h with
  | nil => exact ⟨rfl, rfl⟩

/-- What the first part of a sequence does, the sequence does. -/
theorem Run.bind_left {p q : Prog S α} {tr : List (Event S)} (h : Run p tr q)
    (f : α → Prog S β) : Run (p >>= f) tr (q >>= f) := by
  induction h with
  | nil p => exact .nil _
  | call a _ ih => exact (ih f).call a
  | turn _ ih => exact Run.turn (unroll_bind _ _ _ f ▸ ih f)

/-- **Runs compose along a sequence.** -/
theorem Run.bind {p : Prog S α} {f : α → Prog S β} {a : α} {q : Prog S β}
    {tr tr' : List (Event S)} (h : Run p tr (.ret a)) (h' : Run (f a) tr' q) :
    Run (p >>= f) (tr ++ tr') q :=
  (h.bind_left f).trans h'

/-- **A run of a sequence** is in the first part, or has come through it. -/
theorem Run.of_bind {p : Prog S α} {f : α → Prog S β} {tr : List (Event S)} {q : Prog S β}
    (h : Run (p >>= f) tr q) : (∃ p', Run p tr p' ∧ q = p' >>= f) ∨
      ∃ a tr₁ tr₂, Run p tr₁ (.ret a) ∧ Run (f a) tr₂ q ∧ tr = tr₁ ++ tr₂ := by
  generalize hx : p >>= f = x at h
  induction h generalizing p with
  | nil x => exact .inl ⟨p, .nil p, hx.symm⟩
  | call r hrun ih =>
    cases p with
    | ret a =>
      have hf : f a = _ := hx
      exact .inr ⟨a, [], _, .nil _, hf ▸ hrun.call r, rfl⟩
    | call c k =>
      cases hx
      rcases ih rfl with ⟨p', hp, rfl⟩ | ⟨a, tr₁, tr₂, hp, hf, rfl⟩
      · exact .inl ⟨p', hp.call r, rfl⟩
      · exact .inr ⟨a, _, tr₂, hp.call r, hf, rfl⟩
    | loop body s k => cases hx
  | turn hrun ih =>
    cases p with
    | ret a =>
      have hf : f a = _ := hx
      exact .inr ⟨a, [], _, .nil _, hf ▸ hrun.turn, rfl⟩
    | call c k => cases hx
    | loop body s k =>
      cases hx
      rcases ih (unroll_bind _ _ k f).symm with ⟨p', hp, rfl⟩ | ⟨a, tr₁, tr₂, hp, hf, rfl⟩
      · exact .inl ⟨p', hp.turn, rfl⟩
      · exact .inr ⟨a, tr₁, tr₂, hp.turn, hf, rfl⟩

/-- A sequence that has come to a result. -/
theorem Run.of_bind_ret {p : Prog S α} {f : α → Prog S β} {tr : List (Event S)} {b : β}
    (h : Run (p >>= f) tr (.ret b)) :
    ∃ a tr₁ tr₂, Run p tr₁ (.ret a) ∧ Run (f a) tr₂ (.ret b) ∧ tr = tr₁ ++ tr₂ := by
  rcases h.of_bind with ⟨p', hp, heq⟩ | hboth
  · cases p' with
    | ret a =>
      have hf : Prog.ret b = f a := heq
      exact ⟨a, tr, [], hp, hf ▸ .nil _, (List.append_nil tr).symm⟩
    | call c k => cases heq
    | loop body s k => cases heq
  · exact hboth

/-- A call at the front of a sequence. -/
theorem Run.perform_bind {c : S.Call} {f : S.Resp c → Prog S α} {tr : List (Event S)}
    {q : Prog S α} (r : S.Resp c) (h : Run (f r) tr q) :
    Run (Prog.perform c >>= f) (⟨c, r⟩ :: tr) q :=
  h.call r

/-- A `while` whose test fails is over. -/
theorem Run.while_done {cond : σ → Bool} {body : σ → Prog S (Except ε σ)} {s : σ}
    (h : cond s = false) : Run (whileLoop cond body s) [] (.ret (.ok s)) := by
  refine Run.turn ?_
  rw [unroll, whileBody, if_neg (by simp [h])]
  exact .nil _

/-- **One turn of a `while`** whose test succeeds and whose body runs through. -/
theorem Run.while_turn {cond : σ → Bool} {body : σ → Prog S (Except ε σ)} {s s' : σ}
    {tr : List (Event S)} (h : cond s = true) (hb : Run (body s) tr (.ret (.ok s'))) :
    Run (whileLoop cond body s) tr (whileLoop cond body s') := by
  refine Run.turn ?_
  rw [unroll, whileBody, if_pos h, bind_assoc]
  exact hb.bind_left _

/-- **A `while` without calls ends**, if some measure goes down with every turn. -/
theorem Run.while_ends {cond : σ → Bool} {turn : σ → Except ε σ} (Inv : σ → Prop) (measure : σ → ℕ)
    (h : ∀ s s', Inv s → cond s = true → turn s = .ok s' → Inv s' ∧ measure s' < measure s)
    {s : σ} (hs : Inv s) :
    ∃ r, Run (S := S) (whileLoop cond (fun s => .ret (turn s)) s) [] (.ret r) := by
  induction hm : measure s using Nat.strongRecOn generalizing s with
  | ind m ih =>
    cases hc : cond s with
    | false => exact ⟨_, Run.while_done hc⟩
    | true =>
      cases ht : turn s with
      | error e =>
        refine ⟨.error e, Run.turn ?_⟩
        rw [unroll, whileBody, if_pos hc, ht]
        exact .nil _
      | ok s' =>
        obtain ⟨hs', hlt⟩ := h s s' hs hc ht
        obtain ⟨r, hr⟩ := ih (measure s') (hm ▸ hlt) hs' rfl
        have hturn : Run (S := S) (whileLoop cond (fun s => .ret (turn s)) s) []
            (whileLoop cond (fun s => .ret (turn s)) s') := by
          refine Run.while_turn hc ?_
          rw [ht]
          exact .nil _
        exact ⟨r, hturn.trans hr⟩

/-- **Turns of a counting loop** whose bodies run through, with the loop variables given in
advance. -/
theorem Run.for_turns {body : ℕ → σ → Prog S (Except ε σ)} (tr : ℕ → List (Event S)) (st : ℕ → σ)
    (r : ℕ) {m i : ℕ}
    (h : ∀ j, i ≤ j → j < i + m → Run (body j (st j)) (tr j) (.ret (.ok (st (j + 1))))) :
    Run (forFrom body i (m + r) (st i)) ((List.range' i m).flatMap tr)
      (forFrom body (i + m) r (st (i + m))) := by
  induction m generalizing i with
  | zero =>
    rw [Nat.zero_add]
    exact .nil _
  | succ m ih =>
    have hrest := ih (i := i + 1) fun j hi hj => h j (by omega) (by omega)
    rw [Nat.add_right_comm i 1 m] at hrest
    rw [Nat.add_right_comm m 1 r, List.range'_succ, List.flatMap_cons]
    exact (h i (Nat.le_refl i) (by omega)).bind hrest

/-- Turns of a counting loop that makes one call in each turn. -/
theorem Run.for_calls {body : ℕ → Unit → Prog S (Except ε Unit)} (e : ℕ → Event S) (r m : ℕ)
    (h : ∀ j < m, Run (body j ()) [e j] (.ret (.ok ()))) :
    Run (forFrom body 0 (m + r) ()) ((List.range m).map e) (forFrom body m r ()) := by
  have hturns := Run.for_turns (i := 0) (m := m) (fun j => [e j]) (fun _ => ()) r
    fun j _ hj => h j (by omega)
  have hmap : (List.range' 0 m).flatMap (fun j => [e j]) = (List.range m).map e := by
    rw [List.range_eq_range', List.map_eq_flatMap]
  rwa [hmap, Nat.zero_add] at hturns

/-! ### Runs with answers given in advance -/

/-- Some steps of a program, each call being answered by `env`: the calls made, and what is left
of the program. -/
def follow (env : (c : S.Call) → S.Resp c) : ℕ → Prog S α → List (Event S) × Prog S α
  | 0, p => ([], p)
  | n + 1, p => match p with
    | .ret a => ([], .ret a)
    | .call c k =>
      let rest := follow env n (k (env c))
      (⟨c, env c⟩ :: rest.1, rest.2)
    | .loop body s k => follow env n (unroll body s k)

theorem run_follow (env : (c : S.Call) → S.Resp c) (n : ℕ) (p : Prog S α) :
    Run p (follow env n p).1 (follow env n p).2 := by
  induction n generalizing p with
  | zero => exact .nil p
  | succ n ih =>
    cases p with
    | ret a => exact .nil _
    | call c k => exact (ih (k (env c))).call (env c)
    | loop body s k => exact (ih (unroll body s k)).turn

/-- Following the program has led to a result that passes a test. -/
def yields (env : (c : S.Call) → S.Resp c) (n : ℕ) (p : Prog S α)
    (test : List (Event S) → α → Bool) : Bool :=
  match follow env n p with
  | (tr, .ret a) => test tr a
  | _ => false

/-- A result that was come to in this way is the result of a run. -/
theorem exists_run_of_yields {p : Prog S α} {P : List (Event S) → α → Prop}
    [∀ tr a, Decidable (P tr a)] (env : (c : S.Call) → S.Resp c) (n : ℕ)
    (h : yields env n p (fun tr a => decide (P tr a)) = true) :
    ∃ tr a, Run p tr (.ret a) ∧ P tr a := by
  have hrun := run_follow env n p
  rw [yields] at h
  cases hf : follow env n p with
  | mk tr q =>
    rw [hf] at h hrun
    cases q with
    | ret a => exact ⟨tr, a, hrun, by simpa using h⟩
    | call c k => cases h
    | loop body s k => cases h

end Interact

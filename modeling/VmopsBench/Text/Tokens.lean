import Mathlib

/-!
# Texts made of tokens

Tokens that are written one after the other, with nothing between them (`Tokens.render`), and a
reader that always takes the first token of a list that the text begins with
(`Tokens.readTokens`). If no token is the beginning of another one, it does not matter which token
is tried first: whatever token a text begins with is its first one. The reader then reads exactly
the texts that are made of tokens, and reads them as they were written
(`Tokens.PrefixFree.readTokens_iff`).

The reader is given a number of steps, and the length of the text is always enough.
-/

namespace Tokens

variable {τ α : Type} {text : τ → List α}

/-- **A text made of tokens.** -/
def render (text : τ → List α) (ts : List τ) : List α := ts.flatMap text

theorem render_cons (t : τ) (ts : List τ) : render text (t :: ts) = text t ++ render text ts :=
  List.flatMap_cons

/-- **No token is empty, or the beginning of another one.** -/
structure PrefixFree (text : τ → List α) : Prop where
  ne_nil : ∀ t, text t ≠ []
  eq_of_prefix : ∀ t t', text t <+: text t' → t = t'

/-- The token that a text begins with is its first one. -/
theorem PrefixFree.eq_of_prefix_append (h : PrefixFree text) {t t' : τ} {rest : List α}
    (ht : text t <+: text t' ++ rest) : t = t' := by
  rcases List.prefix_or_prefix_of_prefix ht (List.prefix_append (text t') rest) with hle | hge
  · exact h.eq_of_prefix t t' hle
  · exact (h.eq_of_prefix t' t hge).symm

/-- A text without characters is made of no tokens. -/
theorem PrefixFree.nil_eq_render_iff (h : PrefixFree text) {ts : List τ} :
    [] = render text ts ↔ ts = [] := by
  constructor
  · intro heq
    cases ts with
    | nil => rfl
    | cons t ts =>
      rw [render_cons] at heq
      exact absurd (List.append_eq_nil_iff.mp heq.symm).1 (h.ne_nil t)
  · rintro rfl
    rfl

/-! ### Reading -/

section Reading

variable [DecidableEq α]

/-- The first token of a list that a text begins with, and what follows it. -/
def firstToken (text : τ → List α) (tokens : List τ) (s : List α) : Option (τ × List α) :=
  tokens.findSome? fun t => ((text t).isPrefixOf? s).map fun rest => (t, rest)

/-- **A reader for tokens**, with a number of steps. -/
def readTokens (text : τ → List α) (tokens : List τ) : ℕ → List α → Option (List τ)
  | _, [] => some []
  | 0, _ :: _ => none
  | n + 1, c :: s =>
    (firstToken text tokens (c :: s)).bind fun x => (readTokens text tokens n x.2).map (x.1 :: ·)

variable {tokens : List τ} {s : List α}

/-- **The tokens are tried in order.** -/
theorem firstToken_cons_bind {β : Type} (t : τ) (tokens : List τ) (s : List α)
    (f : τ × List α → Option β) :
    (firstToken text (t :: tokens) s).bind f =
      ((text t).isPrefixOf? s).elim ((firstToken text tokens s).bind f) fun rest =>
        f (t, rest) := by
  rw [firstToken, List.findSome?_cons]
  cases (text t).isPrefixOf? s <;> rfl

theorem of_firstToken {x : τ × List α} (h : firstToken text tokens s = some x) :
    x.1 ∈ tokens ∧ text x.1 ++ x.2 = s := by
  obtain ⟨t, ht, hx⟩ := List.exists_of_findSome?_eq_some h
  obtain ⟨rest, hrest, rfl⟩ := Option.map_eq_some_iff.mp hx
  exact ⟨ht, List.isPrefixOf?_eq_some_iff_append_eq.mp hrest⟩

/-- **The first token is found**, whatever is tried before. -/
theorem PrefixFree.firstToken_append (h : PrefixFree text) {t : τ} (ht : t ∈ tokens)
    (rest : List α) : firstToken text tokens (text t ++ rest) = some (t, rest) := by
  have hsome : (firstToken text tokens (text t ++ rest)).isSome := by
    rw [firstToken, List.findSome?_isSome_iff]
    refine ⟨t, ht, ?_⟩
    rw [Option.isSome_map, List.isPrefixOf?_eq_some_iff_append_eq.mpr rfl]
    rfl
  obtain ⟨⟨u, rest'⟩, hx⟩ := Option.isSome_iff_exists.mp hsome
  have happend : text u ++ rest' = text t ++ rest := (of_firstToken hx).2
  obtain rfl : u = t := h.eq_of_prefix_append (happend ▸ List.prefix_append _ _)
  rw [hx, List.append_cancel_left happend]

theorem readTokens_nil (n : ℕ) : readTokens text tokens n [] = some [] := by
  cases n <;> rfl

/-- **What is read is what was written.** -/
theorem PrefixFree.readTokens_iff (h : PrefixFree text) {n : ℕ} (hn : s.length ≤ n)
    {ts : List τ} : readTokens text tokens n s = some ts ↔
      (∀ t ∈ ts, t ∈ tokens) ∧ s = render text ts := by
  induction n generalizing s ts with
  | zero =>
    obtain rfl : s = [] := List.eq_nil_of_length_eq_zero (Nat.le_zero.mp hn)
    rw [readTokens_nil, h.nil_eq_render_iff, Option.some_inj, eq_comm]
    exact (and_iff_right_of_imp fun hts => by simp [hts]).symm
  | succ n ih =>
    cases s with
    | nil =>
      rw [readTokens_nil, h.nil_eq_render_iff, Option.some_inj, eq_comm]
      exact (and_iff_right_of_imp fun hts => by simp [hts]).symm
    | cons c s =>
      -- a token is not empty, so there is fuel enough for what follows it
      rw [readTokens]
      constructor
      · intro hread
        obtain ⟨⟨t, rest⟩, hfirst, hrest⟩ := Option.bind_eq_some_iff.mp hread
        obtain ⟨ts, hts, rfl⟩ := Option.map_eq_some_iff.mp hrest
        obtain ⟨ht, happend⟩ := of_firstToken hfirst
        have happend : text t ++ rest = c :: s := happend
        have hlen : rest.length ≤ n := by
          have hpos := List.length_pos_of_ne_nil (h.ne_nil t)
          have hsum := congrArg List.length happend
          rw [List.length_append] at hsum
          omega
        obtain ⟨hmem, rfl⟩ := (ih hlen).mp hts
        exact ⟨List.forall_mem_cons.mpr ⟨ht, hmem⟩, happend.symm⟩
      · rintro ⟨hmem, hs⟩
        cases ts with
        | nil => cases hs
        | cons t ts =>
          obtain ⟨ht, hmem⟩ := List.forall_mem_cons.mp hmem
          have hlen : (render text ts).length ≤ n := by
            have hpos := List.length_pos_of_ne_nil (h.ne_nil t)
            rw [hs, render_cons, List.length_append] at hn
            omega
          rw [hs, render_cons, h.firstToken_append ht, Option.bind_some,
            (ih hlen).mpr ⟨hmem, rfl⟩]
          rfl

end Reading

end Tokens

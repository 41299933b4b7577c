import Mathlib

/-!
# Selections that keep a distance

A rate limiter looks at items in the order in which they come and keeps some of them. When it
has kept one that came at `t`, the next one it may keep comes at `next t` or later. Here the
times are any linear order and `next` any monotone function.

A list is *spaced* (`Spacing.Spaced`) when it could have been kept by such a limiter, and
`Spacing.greedy` is the limiter that keeps every item it may. The point is
`Spacing.length_le_greedy`: for items in the order of their times, nobody keeps more. The
exchange is that the greedy limiter, at each item, is due no later than any other selection.
-/

namespace Spacing

variable {α T : Type} [LinearOrder T] {time : α → T} {next : T → T}

/-! ### Spaced lists -/

/-- **A spaced list** of items that come at `d` or later, and each one not before it is due after
the one in front of it. -/
def Spaced (time : α → T) (next : T → T) : T → List α → Prop
  | _, [] => True
  | d, x :: xs => d ≤ time x ∧ Spaced time next (next (time x)) xs

@[simp] theorem spaced_nil {d : T} : Spaced time next d [] := trivial

@[simp] theorem spaced_cons {d : T} {x : α} {xs : List α} :
    Spaced time next d (x :: xs) ↔ d ≤ time x ∧ Spaced time next (next (time x)) xs := Iff.rfl

/-- Spaced lists are chains that begin late enough. -/
theorem spaced_iff {d : T} {xs : List α} : Spaced time next d xs ↔
    (∀ x ∈ xs.head?, d ≤ time x) ∧ xs.IsChain fun a b => next (time a) ≤ time b := by
  induction xs generalizing d with
  | nil => simp
  | cons x xs ih =>
    rw [spaced_cons, ih]
    cases xs with
    | nil => simp
    | cons y ys => simp

/-- A prefix of a spaced list is spaced. -/
theorem Spaced.take {d : T} {xs : List α} (h : Spaced time next d xs) (n : ℕ) :
    Spaced time next d (xs.take n) := by
  induction xs generalizing d n with
  | nil => simp
  | cons x xs ih =>
    cases n with
    | zero => simp
    | succ n => exact ⟨h.1, ih h.2 n⟩

/-! ### The greedy selection -/

/-- **The greedy selection**, due at `d`. -/
def greedy (time : α → T) (next : T → T) : T → List α → List α
  | _, [] => []
  | d, x :: xs =>
    if time x < d then greedy time next d xs else x :: greedy time next (next (time x)) xs

@[simp] theorem greedy_nil {d : T} : greedy time next d [] = [] := rfl

theorem greedy_cons_of_lt {d : T} {x : α} {xs : List α} (h : time x < d) :
    greedy time next d (x :: xs) = greedy time next d xs := if_pos h

theorem greedy_cons_of_le {d : T} {x : α} {xs : List α} (h : d ≤ time x) :
    greedy time next d (x :: xs) = x :: greedy time next (next (time x)) xs :=
  if_neg (not_lt.mpr h)

theorem greedy_sublist (d : T) (xs : List α) : (greedy time next d xs).Sublist xs := by
  induction xs generalizing d with
  | nil => exact List.Sublist.slnil
  | cons x xs ih =>
    rcases lt_or_ge (time x) d with h | h
    · rw [greedy_cons_of_lt h]
      exact (ih d).cons x
    · rw [greedy_cons_of_le h]
      exact (ih _).cons_cons x

theorem greedy_spaced (d : T) (xs : List α) : Spaced time next d (greedy time next d xs) := by
  induction xs generalizing d with
  | nil => trivial
  | cons x xs ih =>
    rcases lt_or_ge (time x) d with h | h
    · rw [greedy_cons_of_lt h]
      exact ih d
    · rw [greedy_cons_of_le h]
      exact ⟨h, ih _⟩

/-- **The greedy selection is largest**, also among the selections that start later. -/
theorem length_le_greedy (hnext : Monotone next) {xs zs : List α} {d d' : T} (hd : d ≤ d')
    (hsorted : xs.Pairwise fun a b => time a ≤ time b) (hsub : zs.Sublist xs)
    (hsp : Spaced time next d' zs) : zs.length ≤ (greedy time next d xs).length := by
  induction xs generalizing d d' zs with
  | nil => rw [List.sublist_nil.mp hsub, greedy_nil]
  | cons x xs ih =>
    obtain ⟨hx, hrest⟩ := List.pairwise_cons.mp hsorted
    rcases lt_or_ge (time x) d with h | h
    · rw [greedy_cons_of_lt h]
      rcases List.sublist_cons_iff.mp hsub with hsub | ⟨zs, rfl, -⟩
      · exact ih hd hrest hsub hsp
      · -- an item that is not due for us is not due for the others either
        exact absurd (hd.trans hsp.1) (not_le.mpr h)
    · rw [greedy_cons_of_le h, List.length_cons]
      rcases List.sublist_cons_iff.mp hsub with hsub | ⟨ys, rfl, hsub'⟩
      · cases zs with
        | nil => exact Nat.zero_le _
        | cons z zs =>
          -- the exchange: `x` in place of `z`, after which we are due no later
          have hle : time x ≤ time z := hx z (hsub.subset List.mem_cons_self)
          have hsub' : zs.Sublist xs := (List.sublist_cons_self z zs).trans hsub
          exact Nat.succ_le_succ (ih (hnext hle) hrest hsub' hsp.2)
      · exact Nat.succ_le_succ (ih le_rfl hrest hsub' hsp.2)

/-- The size of the greedy selection is the greatest size of a spaced selection. -/
theorem isGreatest_greedy (hnext : Monotone next) {xs : List α} {d : T}
    (hsorted : xs.Pairwise fun a b => time a ≤ time b) :
    IsGreatest {n | ∃ zs : List α, zs.Sublist xs ∧ Spaced time next d zs ∧ zs.length = n}
      (greedy time next d xs).length := by
  refine ⟨⟨_, greedy_sublist d xs, greedy_spaced d xs, rfl⟩, ?_⟩
  rintro n ⟨zs, hsub, hsp, rfl⟩
  exact length_le_greedy hnext le_rfl hsorted hsub hsp

/-! ### One item after the other, with room for a number of them -/

/-- When the greedy selection is due after `xs`. -/
def due (time : α → T) (next : T → T) (d : T) (xs : List α) : T :=
  ((greedy time next d xs).getLast?.map fun x => next (time x)).getD d

theorem due_nil (d : T) : due time next d ([] : List α) = d := rfl

theorem due_cons_of_lt {d : T} {x : α} {xs : List α} (h : time x < d) :
    due time next d (x :: xs) = due time next d xs := by
  rw [due, due, greedy_cons_of_lt h]

theorem due_cons_of_le {d : T} {x : α} {xs : List α} (h : d ≤ time x) :
    due time next d (x :: xs) = due time next (next (time x)) xs := by
  rw [due, due, greedy_cons_of_le h]
  cases greedy time next (next (time x)) xs with
  | nil => rfl
  | cons y ys => simp [List.getLast?_cons]

/-- **One more item** is kept exactly when it is not before the time at which the selection is
due. -/
theorem greedy_append_singleton (d : T) (xs : List α) (y : α) :
    greedy time next d (xs ++ [y]) = greedy time next d xs ++
      if time y < due time next d xs then [] else [y] := by
  induction xs generalizing d with
  | nil =>
    rcases lt_or_ge (time y) d with h | h
    · rw [List.nil_append, due_nil, greedy_cons_of_lt h, if_pos h]
      rfl
    · rw [List.nil_append, due_nil, greedy_cons_of_le h, if_neg (not_lt.mpr h)]
      rfl
  | cons x xs ih =>
    rw [List.cons_append]
    rcases lt_or_ge (time x) d with h | h
    · rw [greedy_cons_of_lt h, greedy_cons_of_lt h, due_cons_of_lt h, ih]
    · rw [greedy_cons_of_le h, greedy_cons_of_le h, due_cons_of_le h, ih, List.cons_append]

/-- The greedy selection until `room` items are kept. -/
def limited (time : α → T) (next : T → T) (room : ℕ) (d : T) (xs : List α) : List α :=
  (greedy time next d xs).take room

/-- When it is due after `xs`. -/
def limitedDue (time : α → T) (next : T → T) (room : ℕ) (d : T) (xs : List α) : T :=
  ((limited time next room d xs).getLast?.map fun x => next (time x)).getD d

theorem limited_sublist (room : ℕ) (d : T) (xs : List α) :
    (limited time next room d xs).Sublist xs :=
  (List.take_sublist _ _).trans (greedy_sublist d xs)

theorem limited_spaced (room : ℕ) (d : T) (xs : List α) :
    Spaced time next d (limited time next room d xs) :=
  (greedy_spaced d xs).take room

theorem length_limited (room : ℕ) (d : T) (xs : List α) :
    (limited time next room d xs).length = min room (greedy time next d xs).length :=
  List.length_take

/-- While there is room the limited selection is the greedy one. -/
theorem limited_eq_greedy {room : ℕ} {d : T} {xs : List α}
    (h : (limited time next room d xs).length < room) :
    limited time next room d xs = greedy time next d xs := by
  rw [length_limited] at h
  exact List.take_of_length_le (by omega)

/-- **One more item** is kept exactly when there is room for it and the selection is due. -/
theorem limited_append_singleton (room : ℕ) (d : T) (xs : List α) (y : α) :
    limited time next room d (xs ++ [y]) = limited time next room d xs ++
      if (limited time next room d xs).length < room ∧ limitedDue time next room d xs ≤ time y
        then [y] else [] := by
  by_cases hroom : (limited time next room d xs).length < room
  · have heq := limited_eq_greedy hroom
    have hdue : limitedDue time next room d xs = due time next d xs := by
      rw [limitedDue, due, heq]
    rw [heq] at hroom
    rw [limited, greedy_append_singleton, heq, hdue]
    rcases lt_or_ge (time y) (due time next d xs) with h | h
    · rw [if_pos h, if_neg fun hc => not_le.mpr h hc.2, List.append_nil]
      exact List.take_of_length_le hroom.le
    · rw [if_neg (not_lt.mpr h), if_pos ⟨hroom, h⟩]
      exact List.take_of_length_le (by simpa using Nat.succ_le_of_lt hroom)
  · rw [if_neg fun hc => hroom hc.1, List.append_nil, limited, greedy_append_singleton]
    rw [length_limited] at hroom
    exact List.take_append_of_le_length (by omega)

end Spacing

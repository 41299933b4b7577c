import Mathlib

/-!
# Waiting for a text

A program that reads the output of another one waits until a certain text has come, and takes what
was before it (`Expect.expect`). What it finds depends on the first place at which the text stands,
and so on what else was written: `Expect.Ends` says that a text stands at the end of another one and
nowhere else in it, and then it is found there (`Expect.expect_of_ends`), whatever comes later
(`Expect.expect_append`).

A text whose first character does not stand before it is found where it should be
(`Expect.ends_of_notMem`).
-/

namespace Expect

variable {α : Type} [DecidableEq α]

/-- **What is before a text, and what is after it**, at the first place at which it stands. -/
def expect (needle : List α) : List α → Option (List α × List α)
  | [] => if needle = [] then some ([], []) else none
  | c :: text =>
    if needle.isPrefixOf (c :: text) then some ([], (c :: text).drop needle.length)
    else (expect needle text).map fun found => (c :: found.1, found.2)

/-- **The text stands after `before`**, and at no earlier place. -/
def Ends (needle before : List α) : Prop :=
  ∀ l r, before ++ needle = l ++ (needle ++ r) → l = before

variable {needle before text rest : List α}

/-- **The text is found** where it stands first. -/
theorem expect_of_ends (h : Ends needle before) (rest : List α) :
    expect needle (before ++ (needle ++ rest)) = some (before, rest) := by
  induction before with
  | nil =>
    rcases hneedle : needle ++ rest with _ | ⟨c, text⟩
    · obtain ⟨rfl, rfl⟩ := List.append_eq_nil_iff.mp hneedle
      rfl
    · have hprefix : needle.isPrefixOf (c :: text) = true := by
        rw [← hneedle]
        exact List.isPrefixOf_iff_prefix.mpr ⟨rest, rfl⟩
      rw [List.nil_append, expect, if_pos hprefix, ← hneedle, List.drop_left]
  | cons c before ih =>
    have hlater : ¬needle.isPrefixOf (c :: (before ++ (needle ++ rest))) = true := by
      intro hprefix
      obtain ⟨r, hr⟩ := List.isPrefixOf_iff_prefix.mp hprefix
      -- it would stand at the beginning of what ends with it
      have hshort : needle <+: c :: before ++ needle := by
        refine List.prefix_of_prefix_length_le ⟨r, hr⟩ ⟨rest, by simp⟩ ?_
        simp only [List.length_append, List.length_cons]
        omega
      obtain ⟨r', hr'⟩ := hshort
      exact absurd (h [] r' hr'.symm) (List.cons_ne_nil _ _).symm
    have hrest : Ends needle before := by
      intro l r heq
      have hcons := h (c :: l) r (by rw [List.cons_append, heq, List.cons_append])
      exact (List.cons.inj hcons).2
    rw [List.cons_append, expect, if_neg hlater, ih hrest]
    rfl

/-- What was found is where it was. -/
theorem eq_of_expect {found : List α × List α} (h : expect needle text = some found) :
    text = found.1 ++ (needle ++ found.2) := by
  induction text generalizing found with
  | nil =>
    rw [expect] at h
    split at h
    · next hneedle =>
      obtain rfl := Option.some.inj h
      rw [hneedle]
      rfl
    · cases h
  | cons c text ih =>
    rw [expect] at h
    split at h
    · next hprefix =>
      obtain rfl := Option.some.inj h
      obtain ⟨r, hr⟩ := List.isPrefixOf_iff_prefix.mp hprefix
      rw [← hr, List.drop_left]
      rfl
    · obtain ⟨found', hfound, rfl⟩ := Option.map_eq_some_iff.mp h
      rw [ih hfound]
      rfl

/-- **What comes later does not matter.** -/
theorem expect_append {found : List α × List α} (h : expect needle text = some found)
    (rest : List α) : expect needle (text ++ rest) = some (found.1, found.2 ++ rest) := by
  induction text generalizing found with
  | nil =>
    rw [expect] at h
    split at h
    · next hneedle =>
      obtain rfl := Option.some.inj h
      subst hneedle
      rcases rest with _ | ⟨c, rest⟩ <;> rfl
    · cases h
  | cons c text ih =>
    rw [expect] at h
    split at h
    · next hprefix =>
      obtain rfl := Option.some.inj h
      obtain ⟨r, hr⟩ := List.isPrefixOf_iff_prefix.mp hprefix
      have hprefix' : needle.isPrefixOf (c :: (text ++ rest)) = true :=
        List.isPrefixOf_iff_prefix.mpr ⟨r ++ rest, by rw [← List.append_assoc, hr]; rfl⟩
      rw [List.cons_append, expect, if_pos hprefix', ← List.cons_append, ← hr, List.append_assoc,
        List.drop_left, List.drop_left]
    · next hnot =>
      obtain ⟨found', hfound, rfl⟩ := Option.map_eq_some_iff.mp h
      have hnot' : ¬needle.isPrefixOf (c :: (text ++ rest)) = true := by
        intro hprefix
        refine hnot (List.isPrefixOf_iff_prefix.mpr ?_)
        refine List.prefix_of_prefix_length_le (List.isPrefixOf_iff_prefix.mp hprefix)
          ⟨rest, rfl⟩ ?_
        rw [eq_of_expect hfound]
        simp only [List.length_cons, List.length_append]
        omega
      rw [List.cons_append, expect, if_neg hnot', ih hfound]
      rfl

omit [DecidableEq α] in
/-- A text stands nowhere before its first character does. -/
theorem ends_of_notMem {c : α} (h : c ∉ before) : Ends (c :: needle) before := by
  intro l r heq
  -- both sides begin with characters other than `c`, as far as the shorter of the two goes
  induction before generalizing l with
  | nil =>
    have hlen := congrArg List.length heq
    simp only [List.length_append, List.length_cons, List.length_nil] at hlen
    exact List.eq_nil_of_length_eq_zero (by omega)
  | cons d before ih =>
    rcases l with _ | ⟨e, l⟩
    · obtain ⟨rfl, -⟩ := List.cons.inj heq
      exact absurd List.mem_cons_self h
    · obtain ⟨rfl, heq'⟩ := List.cons.inj heq
      rw [ih (fun hc => h (List.mem_cons_of_mem _ hc)) l heq']

end Expect

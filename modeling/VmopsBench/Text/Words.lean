import Mathlib

/-!
# Words

A text is cut into words at its separators: `Words.words` are the longest stretches without a
separator, and empty stretches do not count. Every word is then nonempty and free
of separators (`Words.Word`), and conversely a text put together from such words, with a separator
between any two, is cut into these words again (`Words.words_unwords`).
-/

namespace Words

variable {α : Type} {sep : α → Bool}

/-! ### Cutting -/

/-- The words of a text. -/
def words (sep : α → Bool) (text : List α) : List (List α) :=
  (text.splitOnP sep).filter fun w => !w.isEmpty

/-- What is a word by itself. -/
structure Word (sep : α → Bool) (w : List α) : Prop where
  ne_nil : w ≠ []
  separatorFree : ∀ x ∈ w, sep x = false

instance (w : List α) : Decidable (Word sep w) :=
  decidable_of_iff ((!w.isEmpty && w.all fun x => !sep x) = true) (by
    simp only [Bool.and_eq_true, Bool.not_eq_true', List.isEmpty_eq_false_iff, List.all_eq_true]
    exact ⟨fun h => ⟨h.1, h.2⟩, fun h => ⟨h.ne_nil, h.separatorFree⟩⟩)

/-- What is left at the end of a word is a word, unless it is empty. -/
theorem Word.of_suffix {w v : List α} (h : Word sep w) (hne : v ≠ []) (hv : v <:+ w) :
    Word sep v :=
  ⟨hne, fun x hx => h.separatorFree x (hv.subset hx)⟩

/-- The stretches between separators are free of them. -/
theorem separatorFree_of_mem_splitOnP {text w : List α} (h : w ∈ text.splitOnP sep) :
    ∀ x ∈ w, sep x = false := by
  induction text generalizing w with
  | nil =>
    rw [List.splitOnP_nil, List.mem_singleton] at h
    subst h
    exact fun x hx => absurd hx List.not_mem_nil
  | cons y text ih =>
    rw [List.splitOnP_cons_eq_if_modifyHead] at h
    split at h
    · rcases List.mem_cons.mp h with rfl | h
      · exact fun x hx => absurd hx List.not_mem_nil
      · exact ih h
    · rename_i hy
      -- `y` is put in front of the first stretch
      obtain ⟨first, rest, hsplit⟩ := List.exists_cons_of_ne_nil (List.splitOnP_ne_nil sep text)
      rw [hsplit, List.modifyHead_cons] at h
      rw [hsplit] at ih
      rcases List.mem_cons.mp h with rfl | h
      · intro x hx
        rcases List.mem_cons.mp hx with rfl | hx
        · simpa using hy
        · exact ih List.mem_cons_self x hx
      · exact ih (List.mem_cons_of_mem _ h)

theorem word_of_mem_words {text w : List α} (h : w ∈ words sep text) : Word sep w := by
  obtain ⟨hmem, hne⟩ := List.mem_filter.mp h
  exact ⟨by simpa using hne, separatorFree_of_mem_splitOnP hmem⟩

/-! ### Putting together -/

/-- A word by itself is one word. -/
theorem words_of_word {w : List α} (h : Word sep w) : words sep w = [w] := by
  rw [words, List.splitOnP_eq_singleton h.separatorFree]
  exact List.filter_cons_of_pos (by simpa using h.ne_nil)

/-- A separator is between words. -/
theorem words_append_cons (text rest : List α) {x : α} (h : sep x = true) :
    words sep (text ++ x :: rest) = words sep text ++ words sep rest := by
  rw [words, List.splitOnP_append_cons _ _ h, List.filter_append]
  rfl

/-- A word in front of a separator. -/
theorem words_word_append_cons {w : List α} (hw : Word sep w) (rest : List α) {x : α}
    (h : sep x = true) : words sep (w ++ x :: rest) = w :: words sep rest := by
  rw [words_append_cons w rest h, words_of_word hw]
  rfl

/-- Some words with a separator between any two. -/
def unwords (x : α) : List (List α) → List α
  | [] => []
  | [w] => w
  | w :: w' :: ws => w ++ x :: unwords x (w' :: ws)

theorem unwords_cons_cons (x : α) (w w' : List α) (ws : List (List α)) :
    unwords x (w :: w' :: ws) = w ++ x :: unwords x (w' :: ws) := rfl

/-- **Cutting undoes putting together.** -/
theorem words_unwords {x : α} (hx : sep x = true) {ws : List (List α)}
    (h : ∀ w ∈ ws, Word sep w) : words sep (unwords x ws) = ws := by
  induction ws with
  | nil => rfl
  | cons w ws ih =>
    have hw : Word sep w := h w List.mem_cons_self
    cases ws with
    | nil => exact words_of_word hw
    | cons w' ws =>
      rw [unwords_cons_cons, words_word_append_cons hw _ hx,
        ih fun v hv => h v (List.mem_cons_of_mem _ hv)]

end Words

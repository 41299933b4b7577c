import VmopsBench.Driver.CommandLine
import VmopsBench.Text.Words

/-!
# The list of cores

What `parse_cores_list` makes of its argument. A text has fields, which are separated by commas
(`VmopsBench.fields`). The first pass counts the commas, and so the fields; the second pass stores a
core id for each field, cuts it down to 32 bits, and ends when there is no text left.

The two passes differ about a text that ends in a comma. It has an empty field at its end, which
the first pass counts and the second one does not come to. So the list is accepted, and
its last entry never written. By `VmopsBench.parsesWellFormed_iff` this is the one text that should
not be accepted and is; a well-formed list is returned as it is if it has less than `2 ^ 32`
fields, each with a value below `2 ^ 32`.
-/

namespace VmopsBench

open Interact Numeral

/-! ### Fields -/

/-- **The fields of a list of cores.** -/
def fields (s : List Char) : List (List Char) := s.splitOn ','

/-- A nonempty field of digits. -/
def IsNumeral (f : List Char) : Prop := f ≠ [] ∧ ∀ c ∈ f, c.isDigit = true

instance (f : List Char) : Decidable (IsNumeral f) :=
  inferInstanceAs (Decidable (_ ∧ _))

/-- **The value of a field.** -/
def fieldValue (f : List Char) : ℕ := Nat.ofDigitChars 10 f 0

/-- **A well-formed list**: nonempty decimal fields, separated by single commas. -/
def WellFormed (s : List Char) : Prop := ∀ f ∈ fields s, IsNumeral f

/-- A well-formed list with a comma at its end. -/
def TrailingComma (s : List Char) : Prop := ∃ t, WellFormed t ∧ s = t ++ [',']

theorem fields_ne_nil (s : List Char) : fields s ≠ [] := List.splitOn_ne_nil ',' s

/-- There is one field more than there are commas. -/
theorem length_fields (s : List Char) : (fields s).length = 1 + s.count ',' := by
  induction s with
  | nil => rfl
  | cons c s ih =>
    rw [fields, List.splitOn_cons_eq_if_modifyHead]
    by_cases hc : c = ','
    · subst hc
      rw [if_pos (beq_self_eq_true _), List.length_cons, List.count_cons_self]
      have ih : (s.splitOn ',').length = 1 + s.count ',' := ih
      omega
    · rw [if_neg (by simpa using hc), List.length_modifyHead, List.count_cons_of_ne hc]
      exact ih

/-- A field has no commas. -/
theorem not_mem_of_mem_fields {s f : List Char} (h : f ∈ fields s) : ',' ∉ f := by
  rw [fields, List.splitOn_eq_splitOnP] at h
  intro hc
  have hsep := Words.separatorFree_of_mem_splitOnP h ',' hc
  cases hsep

/-- Fields after a first one, with their comma. -/
def joinAfter (fs : List (List Char)) : List Char :=
  if fs = [] then [] else ',' :: [','].intercalate fs

theorem intercalate_cons (f : List Char) (fs : List (List Char)) :
    [','].intercalate (f :: fs) = f ++ joinAfter fs := by
  rw [joinAfter]
  split
  · next h => rw [h, List.intercalate_singleton, List.append_nil]
  · next h => rw [List.intercalate_cons_of_ne_nil h, List.append_assoc, List.singleton_append]

/-- The characters of a field are characters of the list. -/
theorem mem_of_mem_fields {s f : List Char} (h : f ∈ fields s) {c : Char} (hc : c ∈ f) : c ∈ s := by
  have hjoin : ∀ fs : List (List Char), f ∈ fs → c ∈ [','].intercalate fs := by
    intro fs hf
    induction fs with
    | nil => cases hf
    | cons g fs ih =>
      rw [intercalate_cons, List.mem_append]
      rcases List.mem_cons.mp hf with rfl | hf
      · exact Or.inl hc
      · refine Or.inr ?_
        rw [joinAfter, if_neg (List.ne_nil_of_mem hf)]
        exact List.mem_cons_of_mem _ (ih hf)
  have hmem := hjoin _ h
  rwa [fields, List.intercalate_splitOn] at hmem

theorem IsNumeral.no_comma {f : List Char} (h : IsNumeral f) : ',' ∉ f := by
  intro hc
  have hdigit := h.2 ',' hc
  cases hdigit

/-- The fields of well-formed fields that are joined are these. -/
theorem fields_intercalate {fs : List (List Char)} (hne : fs ≠ [])
    (h : ∀ f ∈ fs, ',' ∉ f) : fields ([','].intercalate fs) = fs :=
  List.splitOn_intercalate ',' h hne

/-! ### One turn -/

/-- The core id that is stored for a field. -/
def fieldWord (f : List Char) : BitVec 32 := (strtoul 64 f).setWidth 32

/-- **What the second pass does with the fields** that are left, when the next entry is `idx`. An
empty field at the end is not seen. -/
def storeFields (coreslist : ℕ → BitVec 32) (idx : ℕ) :
    List (List Char) → Except Halt (ℕ → BitVec 32)
  | [] => .ok coreslist
  | f :: fs =>
    if f = [] ∧ fs = [] then .ok coreslist
    else if IsNumeral f then
      storeFields (Function.update coreslist idx (fieldWord f)) (idx + 1) fs
    else .error (.exit .failure)

/-- **At the beginning of a field**: what is left of the text are the fields that are left. -/
structure AtField (corecount : ℕ) (s : CoresScan) (fs : List (List Char)) : Prop where
  text : ∃ done, s.cores = done ++ [','].intercalate fs ∧ done.length = s.current
  lookahead : s.lookahead = s.current
  idx : s.idx + fs.length = corecount
  plain : ∀ f ∈ fs, ',' ∉ f ∧ '\x00' ∉ f

section Turn

variable {corecount : ℕ} {s : CoresScan} {f : List Char} {fs : List (List Char)}

/-- The digits that a field begins with. -/
def digitsOf (f : List Char) : List Char := f.takeWhile Char.isDigit

/-- The inner loop comes to the end of these digits, for a comma is none. -/
theorem AtField.skipDigits_eq (h : AtField corecount s (f :: fs)) :
    skipDigits s.cores s.lookahead = s.current + (digitsOf f).length := by
  obtain ⟨done, hcores, hdone⟩ := h.text
  have hafter : (joinAfter fs).takeWhile Char.isDigit = [] := by
    rw [joinAfter]
    split
    · rfl
    · rfl
  rw [skipDigits, h.lookahead, hcores, ← hdone, List.drop_left, intercalate_cons,
    List.takeWhile_append, hafter, List.append_nil, digitsOf]
  split
  · next h => rw [h]
  · rfl

/-- The character there. -/
theorem AtField.charAt_eq (h : AtField corecount s (f :: fs)) (k : ℕ) :
    charAt s.cores (s.current + k) = (f ++ joinAfter fs ++ ['\x00'])[k]? := by
  obtain ⟨done, hcores, hdone⟩ := h.text
  rw [charAt, hcores, ← hdone, List.append_assoc, List.getElem?_append_right (Nat.le_add_right _ _),
    Nat.add_sub_cancel_left, intercalate_cons]

/-- **A field that is no numeral** ends the program, unless it is empty and the last one. -/
theorem AtField.turn_error (h : AtField corecount s (f :: fs)) (hlast : ¬(f = [] ∧ fs = []))
    (hf : ¬IsNumeral f) : coresTurn corecount s = .error (.exit .failure) := by
  rw [coresTurn, h.skipDigits_eq, h.charAt_eq]
  by_cases hempty : f = []
  · -- the lookahead has not moved
    subst hempty
    rw [joinAfter, if_neg fun hfs => hlast ⟨rfl, hfs⟩]
    show (if (',' ≠ '\x00' ∧ ',' ≠ ',') then _ else if s.current + 0 = s.current then _ else _) = _
    rw [if_neg (by decide), if_pos (Nat.add_zero _)]
  · have hrest : f.dropWhile Char.isDigit ≠ [] := by
      intro hnil
      exact hf ⟨hempty, List.dropWhile_eq_nil_iff.mp hnil⟩
    obtain ⟨c, rest, hdrop⟩ := List.exists_cons_of_ne_nil hrest
    have hsplit : f = digitsOf f ++ c :: rest := by
      rw [← hdrop]
      exact List.takeWhile_append_dropWhile.symm
    have hc : c ∈ f := by
      rw [hsplit]
      exact List.mem_append_right _ List.mem_cons_self
    obtain ⟨hcomma, hnul⟩ := h.plain f List.mem_cons_self
    have hat : (digitsOf f ++ c :: rest ++ joinAfter fs ++ ['\x00'])[(digitsOf f).length]? =
        some c := by
      rw [List.append_assoc, List.append_assoc, List.getElem?_append_right (Nat.le_refl _),
        Nat.sub_self]
      rfl
    rw [← hsplit] at hat
    rw [hat]
    refine if_pos ⟨?_, ?_⟩
    · rintro rfl
      exact hnul hc
    · rintro rfl
      exact hcomma hc

/-- **A numeral is stored**, and the character after it overwritten. -/
theorem AtField.turn_ok (h : AtField corecount s (f :: fs)) (hf : IsNumeral f) :
    coresTurn corecount s = .ok
      { cores := s.cores.set (s.current + f.length) '\x00'
        current := s.current + f.length + 1
        lookahead := s.current + f.length + 1
        idx := s.idx + 1
        coreslist := Function.update s.coreslist s.idx (fieldWord f) } := by
  have hdigits : digitsOf f = f := List.takeWhile_eq_self_iff.mpr hf.2
  obtain ⟨hcomma, hnul⟩ := h.plain f List.mem_cons_self
  have hat : ∃ c, (f ++ joinAfter fs ++ ['\x00'])[f.length]? = some c ∧ (c = '\x00' ∨ c = ',') := by
    rw [List.append_assoc, List.getElem?_append_right (Nat.le_refl _), Nat.sub_self, joinAfter]
    split
    · exact ⟨_, rfl, Or.inl rfl⟩
    · exact ⟨_, rfl, Or.inr rfl⟩
  -- what `strtoul` gets to see ends at the character that was overwritten
  have hword : cstring ((s.cores.set (s.current + f.length) '\x00').drop s.current) = f := by
    obtain ⟨done, hcores, hdone⟩ := h.text
    have hplain : f.takeWhile (· != '\x00') = f := by
      refine List.takeWhile_eq_self_iff.mpr fun c hc => ?_
      rw [bne_iff_ne]
      rintro rfl
      exact hnul hc
    have hend : ((joinAfter fs).set 0 '\x00').takeWhile (· != '\x00') = [] := by
      cases joinAfter fs <;> rfl
    rw [hcores, ← hdone, intercalate_cons, List.set_append_right _ _ (Nat.le_add_right _ _),
      Nat.add_sub_cancel_left, List.drop_left, List.set_append_right _ _ (Nat.le_refl _),
      Nat.sub_self, cstring, List.takeWhile_append, hplain, if_pos rfl, hend, List.append_nil]
  have hidx : ¬corecount ≤ s.idx := by
    have := h.idx
    rw [List.length_cons] at this
    omega
  have hmoved : s.current + f.length ≠ s.current := by
    have := List.length_pos_of_ne_nil hf.1
    omega
  obtain ⟨c, hc, hsep⟩ := hat
  rw [coresTurn, h.skipDigits_eq, h.charAt_eq, hdigits, hc]
  show (if c ≠ '\x00' ∧ c ≠ ',' then _ else _) = _
  rw [if_neg (by tauto), if_neg hmoved, if_neg hidx]
  exact congrArg (fun g => Except.ok (⟨s.cores.set (s.current + f.length) '\x00',
    s.current + f.length + 1, s.current + f.length + 1, s.idx + 1,
    Function.update s.coreslist s.idx (fieldWord g)⟩ : CoresScan)) hword

/-- The next field, if there is one. -/
theorem AtField.next (h : AtField corecount s (f :: fs)) (hfs : fs ≠ []) :
    AtField corecount
      { cores := s.cores.set (s.current + f.length) '\x00'
        current := s.current + f.length + 1
        lookahead := s.current + f.length + 1
        idx := s.idx + 1
        coreslist := Function.update s.coreslist s.idx (fieldWord f) } fs := by
  obtain ⟨done, hcores, hdone⟩ := h.text
  refine ⟨⟨done ++ f ++ ['\x00'], ?_, ?_⟩, rfl, ?_,
    fun g hg => h.plain g (List.mem_cons_of_mem f hg)⟩
  · show s.cores.set _ _ = _
    rw [hcores, ← hdone, intercalate_cons, joinAfter, if_neg hfs,
      List.set_append_right _ _ (Nat.le_add_right _ _), Nat.add_sub_cancel_left,
      List.set_append_right _ _ (Nat.le_refl _), Nat.sub_self, List.set_cons_zero,
      List.append_assoc, List.append_assoc, List.singleton_append]
  · rw [List.length_append, List.length_append, hdone]
    rfl
  · have := h.idx
    rw [List.length_cons] at this
    show s.idx + 1 + fs.length = corecount
    omega

end Turn

/-! ### The second pass -/

/-- **The second pass on its way**: what it will have stored is settled by the fields that are left,
or there are none. -/
def Scanning (coreslen corecount : ℕ) (target : Except Halt (ℕ → BitVec 32)) (s : CoresScan) :
    Prop :=
  (∃ fs, fs ≠ [] ∧ AtField corecount s fs ∧ s.cores.length = coreslen ∧
    storeFields s.coreslist s.idx fs = target) ∨
  coreslen ≤ s.current ∧ .ok s.coreslist = target

section Loop

variable {coreslen corecount : ℕ} {target : Except Halt (ℕ → BitVec 32)} {s : CoresScan}

/-- There is text left unless the only field is empty. -/
theorem AtField.current_lt_iff {f : List Char} {fs : List (List Char)}
    (h : AtField corecount s (f :: fs)) : s.current < s.cores.length ↔ ¬(f = [] ∧ fs = []) := by
  obtain ⟨done, hcores, hdone⟩ := h.text
  rw [hcores, List.length_append, hdone, Nat.lt_add_right_iff_pos, List.length_pos_iff,
    intercalate_cons, ne_eq, List.append_eq_nil_iff, joinAfter]
  split <;> simp_all

theorem scanning_turn (h : Scanning coreslen corecount target s) (hlt : s.current < coreslen) :
    (∀ s', coresTurn corecount s = .ok s' → Scanning coreslen corecount target s') ∧
      ∀ e, coresTurn corecount s = .error e → .error e = target := by
  rcases h with ⟨fs, hfs, hat, hlen, htarget⟩ | ⟨hge, -⟩
  · obtain ⟨f, fs, rfl⟩ := List.exists_cons_of_ne_nil hfs
    have hrest : ¬(f = [] ∧ fs = []) := hat.current_lt_iff.mp (hlen ▸ hlt)
    rw [storeFields, if_neg hrest] at htarget
    by_cases hf : IsNumeral f
    · rw [if_pos hf] at htarget
      rw [hat.turn_ok hf]
      refine ⟨?_, fun e he => (by cases he)⟩
      rintro s' ⟨⟩
      by_cases hlast : fs = []
      · subst hlast
        refine Or.inr ⟨?_, htarget⟩
        obtain ⟨done, hcores, hdone⟩ := hat.text
        rw [← hlen, hcores, List.length_append, hdone, List.intercalate_singleton]
        exact Nat.le_succ _
      · refine Or.inl ⟨fs, hlast, hat.next hlast, ?_, htarget⟩
        rw [List.length_set]
        exact hlen
    · rw [if_neg hf] at htarget
      rw [hat.turn_error hrest hf]
      refine ⟨fun s' hs' => (by cases hs'), ?_⟩
      rintro e ⟨⟩
      exact htarget
  · exact absurd hlt (Nat.not_lt.mpr hge)

theorem scanning_done (h : Scanning coreslen corecount target s) (hge : ¬s.current < coreslen) :
    .ok s.coreslist = target := by
  rcases h with ⟨fs, hfs, hat, hlen, htarget⟩ | ⟨-, htarget⟩
  · obtain ⟨f, fs, rfl⟩ := List.exists_cons_of_ne_nil hfs
    have hlast : f = [] ∧ fs = [] := by
      rw [← hlen, hat.current_lt_iff, not_not] at hge
      exact hge
    rwa [storeFields, if_pos hlast] at htarget
  · exact htarget

/-- **What the second pass has stored.** -/
theorem wp_scanLoop {G : Type} {Γ : Spec optionSig G} {g : G}
    (h : Scanning coreslen corecount target s) :
    wp Γ (Prog.whileLoop (fun s : CoresScan => s.current < coreslen)
      (fun s => .ret (coresTurn corecount s)) s)
      (fun r _ => r.map CoresScan.coreslist = target) g := by
  refine wp_whileLoop (fun s _ => Scanning coreslen corecount target s) h ?_ ?_
  · intro s g hs hlt
    obtain ⟨hok, herror⟩ := scanning_turn hs (of_decide_eq_true hlt)
    show onExcept _ _ (coresTurn corecount s) g
    cases hturn : coresTurn corecount s with
    | ok s' => exact hok s' hturn
    | error e => exact herror e hturn
  · intro s g hs hlt
    exact scanning_done hs (of_decide_eq_false hlt)

/-- Every turn moves both pointers behind the lookahead. -/
theorem coresTurn_ok {s s' : CoresScan} (h : coresTurn corecount s = .ok s') :
    s'.current = skipDigits s.cores s.lookahead + 1 ∧ s'.lookahead = s'.current := by
  rw [coresTurn] at h
  cases hc : charAt s.cores (skipDigits s.cores s.lookahead) with
  | none =>
    rw [hc] at h
    cases h
  | some c =>
    rw [hc] at h
    dsimp only at h
    split at h
    · cases h
    · split at h
      · cases h
      · split at h
        · cases h
        · obtain rfl := Except.ok.inj h
          exact ⟨rfl, rfl⟩

/-- **The second pass ends.** -/
theorem scanLoop_ends (hs : s.current ≤ s.lookahead) :
    ∃ r, Run (Prog.whileLoop (S := optionSig) (fun s : CoresScan => s.current < coreslen)
      (fun s => .ret (coresTurn corecount s)) s) [] (.ret r) := by
  refine Run.while_ends (fun s => s.current ≤ s.lookahead) (fun s => coreslen - s.current) ?_ hs
  intro s s' hs hlt hturn
  have hlt : s.current < coreslen := of_decide_eq_true hlt
  have hskip : s.lookahead ≤ skipDigits s.cores s.lookahead := Nat.le_add_right _ _
  obtain ⟨hcurrent, hlookahead⟩ := coresTurn_ok hturn
  omega

end Loop

/-! ### What is stored -/

section Stored

variable {fs : List (List Char)}

/-- **Numerals are stored one after the other.** -/
theorem storeFields_numerals (h : ∀ f ∈ fs, IsNumeral f) (coreslist : ℕ → BitVec 32) (idx : ℕ) :
    ∃ coreslist', storeFields coreslist idx fs = .ok coreslist' ∧
      (∀ k < idx, coreslist' k = coreslist k) ∧
      (List.range' idx fs.length).map coreslist' = fs.map fieldWord := by
  induction fs generalizing coreslist idx with
  | nil => exact ⟨coreslist, rfl, fun _ _ => rfl, rfl⟩
  | cons f fs ih =>
    have hf : IsNumeral f := h f List.mem_cons_self
    obtain ⟨coreslist', hstore, hkeep, hmap⟩ :=
      ih (fun g hg => h g (List.mem_cons_of_mem f hg))
        (Function.update coreslist idx (fieldWord f)) (idx + 1)
    refine ⟨coreslist', ?_, fun k hk => ?_, ?_⟩
    · rw [storeFields, if_neg fun hlast => hf.1 hlast.1, if_pos hf]
      exact hstore
    · rw [hkeep k (Nat.lt_succ_of_lt hk), Function.update_of_ne hk.ne]
    · rw [List.length_cons, List.range'_succ, List.map_cons, List.map_cons, hmap,
        hkeep idx (Nat.lt_succ_self idx), Function.update_self]

/-- An empty field at the end is passed over. -/
theorem storeFields_append_empty (h : ∀ f ∈ fs, IsNumeral f) (coreslist : ℕ → BitVec 32)
    (idx : ℕ) : ∃ coreslist', storeFields coreslist idx (fs ++ [[]]) = .ok coreslist' := by
  induction fs generalizing coreslist idx with
  | nil => exact ⟨coreslist, rfl⟩
  | cons f fs ih =>
    have hf : IsNumeral f := h f List.mem_cons_self
    rw [List.cons_append, storeFields, if_neg fun hlast => hf.1 hlast.1, if_pos hf]
    exact ih (fun g hg => h g (List.mem_cons_of_mem f hg)) _ _

/-- Nothing else is accepted. -/
theorem numerals_of_storeFields {coreslist coreslist' : ℕ → BitVec 32} {idx : ℕ}
    (h : storeFields coreslist idx fs = .ok coreslist') :
    (∀ f ∈ fs, IsNumeral f) ∨ ∃ gs, fs = gs ++ [[]] ∧ ∀ f ∈ gs, IsNumeral f := by
  induction fs generalizing coreslist idx with
  | nil => exact Or.inl fun f hf => absurd hf List.not_mem_nil
  | cons f fs ih =>
    rw [storeFields] at h
    by_cases hlast : f = [] ∧ fs = []
    · obtain ⟨rfl, rfl⟩ := hlast
      exact Or.inr ⟨[], rfl, fun f hf => absurd hf List.not_mem_nil⟩
    · rw [if_neg hlast] at h
      by_cases hf : IsNumeral f
      · rw [if_pos hf] at h
        rcases ih h with hall | ⟨gs, rfl, hgs⟩
        · exact Or.inl (List.forall_mem_cons.mpr ⟨hf, hall⟩)
        · exact Or.inr ⟨f :: gs, rfl, List.forall_mem_cons.mpr ⟨hf, hgs⟩⟩
      · rw [if_neg hf] at h
        cases h

/-- An error is a failing exit. -/
theorem storeFields_error {coreslist : ℕ → BitVec 32} {idx : ℕ} {e : Halt}
    (h : storeFields coreslist idx fs = .error e) : e = .exit .failure := by
  induction fs generalizing coreslist idx with
  | nil => cases h
  | cons f fs ih =>
    rw [storeFields] at h
    split at h
    · cases h
    · split at h
      · exact ih h
      · exact (Except.error.inj h).symm

end Stored

/-- **A trailing comma** makes an empty field after numerals. -/
theorem trailingComma_iff {s : List Char} : TrailingComma s ↔
    ∃ gs, gs ≠ [] ∧ fields s = gs ++ [[]] ∧ ∀ f ∈ gs, IsNumeral f := by
  constructor
  · rintro ⟨t, ht, rfl⟩
    refine ⟨fields t, fields_ne_nil t, ?_, ht⟩
    exact List.splitOn_append_cons_self t []
  · rintro ⟨gs, hne, hfields, hgs⟩
    have hjoin : ∀ gs : List (List Char), gs ≠ [] →
        [','].intercalate (gs ++ [[]]) = [','].intercalate gs ++ [','] := by
      intro gs hne
      induction gs with
      | nil => exact absurd rfl hne
      | cons g gs ih =>
        rw [List.cons_append, intercalate_cons, intercalate_cons, joinAfter, joinAfter,
          if_neg (List.append_ne_nil_of_right_ne_nil _ (List.cons_ne_nil _ _))]
        by_cases hgs : gs = []
        · subst hgs
          rw [if_pos rfl, List.append_nil]
          rfl
        · rw [if_neg hgs, ih hgs, List.append_assoc]
          rfl
    refine ⟨[','].intercalate gs, ?_, ?_⟩
    · rw [WellFormed, fields_intercalate hne fun f hf => (hgs f hf).no_comma]
      exact hgs
    · rw [← hjoin gs hne, ← hfields, fields, List.intercalate_splitOn]

/-! ### What is returned -/

/-- **Memory is granted**, with any content. -/
def granting : Spec optionSig Unit where
  pre _ _ := True
  env _ c r := match c, r with
    | .mallocCores _, r => r.isSome = true
    | .fopen _, _ => True
  upd _ _ _ := ()

/-- The text begins with a digit. -/
def StartsWithDigit (s : List Char) : Prop := s.head?.any Char.isDigit = true

/-- What the second pass makes of the block that was allocated. -/
def parsed (s : List Char) (block : ℕ → BitVec 32) :
    Except Halt (Option (List (BitVec 32) × BitVec 32)) :=
  (storeFields block 0 (fields s)).map fun coreslist =>
    some ((List.range (fields s).length).map coreslist, BitVec.ofNat 32 (fields s).length)

/-- At the beginning of the second pass. -/
theorem scanning_start (optarg : List Char) (block : ℕ → BitVec 32) :
    Scanning (cstring optarg).length (1 + (cstring optarg).count ',')
      (storeFields block 0 (fields (cstring optarg))) ⟨cstring optarg, 0, 0, 0, block⟩ := by
  refine Or.inl ⟨fields (cstring optarg), fields_ne_nil _, ?_, rfl, rfl⟩
  refine ⟨⟨[], ?_, rfl⟩, rfl, ?_, fun f hf => ⟨not_mem_of_mem_fields hf, fun hnul => ?_⟩⟩
  · rw [fields, List.intercalate_splitOn]
    rfl
  · rw [← length_fields]
    exact Nat.zero_add _
  · have hmem : '\x00' ∈ optarg.takeWhile (· != '\x00') := mem_of_mem_fields hf hnul
    have hne := List.mem_takeWhile_imp hmem
    cases hne

/-- **Every result of `parse_cores_list`** when memory is granted. -/
theorem wp_parseCoresList {optarg : List Char} :
    wp granting (parseCoresList optarg) (fun o _ =>
      ¬StartsWithDigit (cstring optarg) ∧ o = .error (.exit .failure) ∨
      StartsWithDigit (cstring optarg) ∧ ∃ block, o = parsed (cstring optarg) block) () := by
  rw [parseCoresList]
  dsimp only
  split
  · next h =>
    refine Or.inl ⟨?_, rfl⟩
    rw [StartsWithDigit, List.eq_nil_of_length_eq_zero h]
    exact Bool.false_ne_true
  · split
    · next h =>
      refine Or.inl ⟨?_, rfl⟩
      rw [StartsWithDigit]
      simpa using h
    · next h =>
      have hstart : StartsWithDigit (cstring optarg) := by
        rw [StartsWithDigit]
        simpa using h
      refine wp_perform_bind.mpr ⟨trivial, fun block hblock => ?_⟩
      cases block with
      | none => cases hblock
      | some block =>
        refine (wp_bind _ _).mpr (wp_mono _ (fun r _ hr => ?_)
          (wp_scanLoop (scanning_start optarg block)))
        refine Or.inr ⟨hstart, block, ?_⟩
        rw [parsed, ← hr, length_fields]
        cases r <;> rfl

/-! ### Only well-formed lists -/

/-- **What should be accepted**: a list is returned only if it is well-formed and its values fit
into 32 bits, and then it is the list of these values, with their number. -/
def ParsesWellFormed (s : List Char) :
    Except Halt (Option (List (BitVec 32) × BitVec 32)) → Prop
  | .ok (some (coreslist, ncores)) => WellFormed s ∧ (∀ f ∈ fields s, fieldValue f < 2 ^ 32) ∧
      ncores.toNat = coreslist.length ∧ coreslist.map BitVec.toNat = (fields s).map fieldValue
  | .ok none => False
  | .error e => e = .exit .failure

/-- A value that fits is stored as it is. -/
theorem fieldWord_toNat {f : List Char} (hf : IsNumeral f) (hlt : fieldValue f < 2 ^ 32) :
    (fieldWord f).toNat = fieldValue f := by
  have hsmall : Nat.ofDigitChars 10 f 0 < 2 ^ 32 := hlt
  have hvalue : strtoul 64 f = BitVec.ofNat 64 (fieldValue f) := by
    rw [strtoul_digits 64 hf.1 hf.2, if_neg (by omega)]
    rfl
  rw [fieldWord, hvalue, BitVec.toNat_setWidth, BitVec.toNat_ofNat,
    Nat.mod_eq_of_lt (show fieldValue f < 2 ^ 64 by omega), Nat.mod_eq_of_lt hlt]

/-- A text whose first field is a numeral begins with a digit. -/
theorem startsWithDigit_of_fields {s f : List Char} {fs : List (List Char)}
    (h : fields s = f :: fs) (hf : IsNumeral f) : StartsWithDigit s := by
  obtain ⟨c, rest, rfl⟩ := List.exists_cons_of_ne_nil hf.1
  have hs : s = c :: (rest ++ joinAfter fs) := by
    rw [← List.cons_append, ← intercalate_cons, ← h, fields, List.intercalate_splitOn]
  rw [hs]
  exact hf.2 c List.mem_cons_self

theorem WellFormed.startsWithDigit {s : List Char} (h : WellFormed s) : StartsWithDigit s := by
  obtain ⟨f, fs, hfields⟩ := List.exists_cons_of_ne_nil (fields_ne_nil s)
  refine startsWithDigit_of_fields hfields (h f ?_)
  rw [hfields]
  exact List.mem_cons_self

theorem TrailingComma.startsWithDigit {s : List Char} (h : TrailingComma s) :
    StartsWithDigit s := by
  obtain ⟨gs, hne, hfields, hgs⟩ := trailingComma_iff.mp h
  obtain ⟨g, gs, rfl⟩ := List.exists_cons_of_ne_nil hne
  exact startsWithDigit_of_fields hfields (hgs g List.mem_cons_self)

/-- No well-formed list ends in a comma. -/
theorem WellFormed.not_trailingComma {s : List Char} (h : WellFormed s) : ¬TrailingComma s := by
  intro htrailing
  obtain ⟨gs, -, hfields, -⟩ := trailingComma_iff.mp htrailing
  refine (h [] ?_).1 rfl
  rw [hfields]
  exact List.mem_append_right _ List.mem_cons_self

/-- **A well-formed list is returned**, its values cut down to 32 bits. -/
theorem WellFormed.parsed_eq {s : List Char} (h : WellFormed s) (block : ℕ → BitVec 32) :
    parsed s block =
      .ok (some ((fields s).map fieldWord, BitVec.ofNat 32 (fields s).length)) := by
  obtain ⟨coreslist, hstore, -, hmap⟩ := storeFields_numerals h block 0
  rw [parsed, hstore, List.range_eq_range', ← hmap]
  rfl

/-- **Any other text ends the program**, unless there is a comma at its end. -/
theorem parsed_error {s : List Char} (hdigit : StartsWithDigit s) (hwell : ¬WellFormed s)
    (htrailing : ¬TrailingComma s) (block : ℕ → BitVec 32) :
    parsed s block = .error (.exit .failure) := by
  rw [parsed]
  cases hstore : storeFields block 0 (fields s) with
  | error e =>
    rw [storeFields_error hstore]
    rfl
  | ok coreslist =>
    rcases numerals_of_storeFields hstore with hall | ⟨gs, hfields, hgs⟩
    · exact absurd hall hwell
    · refine absurd (trailingComma_iff.mpr ⟨gs, ?_, hfields, hgs⟩) htrailing
      rintro rfl
      -- the empty text does not begin with a digit
      have hempty : s = [] := by
        have hjoin : [','].intercalate (fields s) = [] := by
          rw [hfields]
          rfl
        rwa [fields, List.intercalate_splitOn] at hjoin
      subst hempty
      cases hdigit

/-- **The parser accepts only well-formed lists, and returns their values, exactly if the text is
none with a trailing comma, and a well-formed list has neither too large values nor too many
fields.** -/
theorem parsesWellFormed_iff {optarg : List Char} {tr : List (Event optionSig)}
    {o : Except Halt (Option (List (BitVec 32) × BitVec 32))}
    (hrun : Run (parseCoresList optarg) tr (.ret o)) (hgrant : granting.Admits () tr) :
    ParsesWellFormed (cstring optarg) o ↔ ¬TrailingComma (cstring optarg) ∧
      (WellFormed (cstring optarg) → (∀ f ∈ fields (cstring optarg), fieldValue f < 2 ^ 32) ∧
        (fields (cstring optarg)).length < 2 ^ 32) := by
  generalize hs : cstring optarg = s
  have hresult := (wp_run hrun wp_parseCoresList hgrant).2
  rw [hs] at hresult
  rcases hresult with ⟨hdigit, rfl⟩ | ⟨hdigit, block, rfl⟩
  · refine iff_of_true rfl ⟨fun h => hdigit h.startsWithDigit, fun h => ?_⟩
    exact absurd h.startsWithDigit hdigit
  · by_cases hwell : WellFormed s
    · rw [hwell.parsed_eq block]
      constructor
      · rintro ⟨-, hvalues, hlen, -⟩
        refine ⟨hwell.not_trailingComma, fun _ => ⟨hvalues, ?_⟩⟩
        rw [List.length_map] at hlen
        rw [← hlen]
        exact BitVec.isLt _
      · rintro ⟨-, hsmall⟩
        obtain ⟨hvalues, hlen⟩ := hsmall hwell
        refine ⟨hwell, hvalues, ?_, ?_⟩
        · rw [List.length_map, BitVec.toNat_ofNat, Nat.mod_eq_of_lt hlen]
        · rw [List.map_map]
          exact List.map_congr_left fun f hf => fieldWord_toNat (hwell f hf) (hvalues f hf)
    · by_cases htrailing : TrailingComma s
      · refine iff_of_false (fun h => ?_) fun h => h.1 htrailing
        obtain ⟨gs, -, hfields, hgs⟩ := trailingComma_iff.mp htrailing
        obtain ⟨coreslist, hstore⟩ := storeFields_append_empty hgs block 0
        rw [parsed, hfields, hstore] at h
        exact hwell h.1
      · rw [parsed_error hdigit hwell htrailing block]
        exact iff_of_true rfl ⟨htrailing, fun h => absurd h hwell⟩

/-- Memory is granted, and holds the same everywhere. -/
def granted : (c : OptionCall) → c.Resp
  | .mallocCores _ => some fun _ => 0xDEAD
  | .fopen _ => none

theorem granting_granted : ∀ g c, granting.env g c (granted c) := by
  intro g c
  cases c <;> trivial

/-- Two cores. -/
theorem parsesWellFormed_twoCores : ∃ tr o, Run (parseCoresList ['0', '7', ',', '1', '2']) tr
    (.ret o) ∧ ParsesWellFormed ['0', '7', ',', '1', '2'] o := by
  have hrun : ∃ tr o, Run (parseCoresList ['0', '7', ',', '1', '2']) tr (.ret o) ∧
      granting.Admits () tr ∧ True :=
    exists_admitted_of_yields granting_granted () 50 (by decide)
  obtain ⟨tr, o, hrun, hgrant, -⟩ := hrun
  refine ⟨tr, o, hrun, (parsesWellFormed_iff hrun hgrant).mpr ?_⟩
  have hwell : WellFormed ['0', '7', ',', '1', '2'] := by
    show ∀ f ∈ [['0', '7'], ['1', '2']], IsNumeral f
    simp [IsNumeral]
  refine ⟨hwell.not_trailingComma, fun _ => ?_⟩
  show (∀ f ∈ [['0', '7'], ['1', '2']], fieldValue f < 2 ^ 32) ∧ 2 < 2 ^ 32
  decide

/-- **A trailing comma is accepted**: there are two entries, and the second was never written. -/
theorem trailingComma_accepted : ∃ tr o, Run (parseCoresList ['7', ',']) tr (.ret o) ∧
    granting.Admits () tr ∧ o = .ok (some ([7, 0xDEAD], 2)) ∧ ¬ParsesWellFormed ['7', ','] o := by
  have hrun : ∃ tr o, Run (parseCoresList ['7', ',']) tr (.ret o) ∧ granting.Admits () tr ∧
      o.toOption = some (some ([7, 0xDEAD], 2)) :=
    exists_admitted_of_yields granting_granted () 50 (by decide)
  obtain ⟨tr, o, hrun, hgrant, ho⟩ := hrun
  cases o with
  | error e => cases ho
  | ok o =>
    obtain rfl := Option.some.inj ho
    refine ⟨tr, _, hrun, hgrant, rfl, fun h => ?_⟩
    have htrailing : TrailingComma ['7', ','] := by
      refine ⟨['7'], ?_, rfl⟩
      show ∀ f ∈ [['7']], IsNumeral f
      simp [IsNumeral]
    exact h.1.not_trailingComma htrailing

/-! ### Reading back a list -/

/-- **With memory, `parse_cores_list` ends.** -/
theorem parseCoresList_ends {optarg : List Char} (hdigit : StartsWithDigit (cstring optarg))
    (block : ℕ → BitVec 32) : ∃ o, Run (parseCoresList optarg)
      [⟨.mallocCores (fields (cstring optarg)).length, some block⟩] (.ret o) := by
  have hne : (cstring optarg).length ≠ 0 := by
    intro h
    rw [StartsWithDigit, List.eq_nil_of_length_eq_zero h] at hdigit
    cases hdigit
  have hhead : ¬(!(cstring optarg).head?.any Char.isDigit) = true := by
    rw [StartsWithDigit] at hdigit
    simpa using hdigit
  have hscan : ∃ r, Run (Prog.whileLoop (S := optionSig)
      (fun s : CoresScan => s.current < (cstring optarg).length)
      (fun s => .ret (coresTurn (1 + (cstring optarg).count ',') s))
      ⟨cstring optarg, 0, 0, 0, block⟩) [] (.ret r) := scanLoop_ends (Nat.le_refl 0)
  obtain ⟨r, hr⟩ := hscan
  rw [parseCoresList, length_fields]
  dsimp only
  rw [if_neg hne, if_neg hhead]
  exact ⟨_, Run.perform_bind _ (Run.bind hr (.nil _))⟩

/-- A core id in decimal digits, with zeros in front. -/
def coreNumeral (zeros : ℕ) (cid : BitVec 32) : List Char :=
  List.replicate zeros '0' ++ Nat.toDigits 10 cid.toNat

/-- **A list of core ids**, each with a number of leading zeros, as a text. -/
def coresText (cids : List (ℕ × BitVec 32)) : List Char :=
  [','].intercalate (cids.map fun x => coreNumeral x.1 x.2)

theorem isNumeral_coreNumeral (zeros : ℕ) (cid : BitVec 32) :
    IsNumeral (coreNumeral zeros cid) := by
  refine ⟨List.append_ne_nil_of_right_ne_nil _ Nat.toDigits_ne_nil, fun c hc => ?_⟩
  rcases List.mem_append.mp hc with hc | hc
  · rw [List.eq_of_mem_replicate hc]
    rfl
  · exact Nat.isDigit_of_mem_toDigits (by decide) (by decide) hc

/-- Leading zeros do not change the value. -/
theorem fieldValue_coreNumeral (zeros : ℕ) (cid : BitVec 32) :
    fieldValue (coreNumeral zeros cid) = cid.toNat := by
  rw [fieldValue, coreNumeral, Nat.ofDigitChars_append, Nat.ofDigitChars_replicate_zero,
    Nat.mul_zero, Nat.ofDigitChars_ten_toDigits]

theorem fieldWord_coreNumeral (zeros : ℕ) (cid : BitVec 32) :
    fieldWord (coreNumeral zeros cid) = cid := by
  have hvalue := fieldValue_coreNumeral zeros cid
  refine BitVec.eq_of_toNat_eq ?_
  rw [fieldWord_toNat (isNumeral_coreNumeral zeros cid), hvalue]
  rw [hvalue]
  exact cid.isLt

section CoresText

variable {cids : List (ℕ × BitVec 32)}

theorem fields_coresText (hne : cids ≠ []) :
    fields (coresText cids) = cids.map fun x => coreNumeral x.1 x.2 := by
  refine fields_intercalate (fun h => hne (List.map_eq_nil_iff.mp h)) fun f hf => ?_
  obtain ⟨x, -, rfl⟩ := List.mem_map.mp hf
  exact (isNumeral_coreNumeral x.1 x.2).no_comma

theorem wellFormed_coresText (hne : cids ≠ []) : WellFormed (coresText cids) := by
  intro f hf
  rw [fields_coresText hne] at hf
  obtain ⟨x, -, rfl⟩ := List.mem_map.mp hf
  exact isNumeral_coreNumeral x.1 x.2

/-- There is no NUL in such a text. -/
theorem cstring_coresText (cids : List (ℕ × BitVec 32)) :
    cstring (coresText cids) = coresText cids := by
  refine List.takeWhile_eq_self_iff.mpr fun c hc => ?_
  rw [bne_iff_ne]
  rintro rfl
  induction cids with
  | nil => cases hc
  | cons x cids ih =>
    rw [coresText, List.map_cons, intercalate_cons, List.mem_append] at hc
    rcases hc with hc | hc
    · have hdigit := (isNumeral_coreNumeral x.1 x.2).2 _ hc
      cases hdigit
    · rw [joinAfter] at hc
      split at hc
      · cases hc
      · rcases List.mem_cons.mp hc with hc | hc
        · cases hc
        · exact ih hc

/-- **A list of core ids is read back**, and its length is cut down to 32 bits. -/
theorem result_coresText (hne : cids ≠ []) {tr : List (Event optionSig)}
    {o : Except Halt (Option (List (BitVec 32) × BitVec 32))}
    (hrun : Run (parseCoresList (coresText cids)) tr (.ret o)) (hgrant : granting.Admits () tr) :
    o = .ok (some (cids.map Prod.snd, BitVec.ofNat 32 cids.length)) := by
  have hwell := wellFormed_coresText hne
  have hresult := (wp_run hrun wp_parseCoresList hgrant).2
  rw [cstring_coresText] at hresult
  rcases hresult with ⟨hdigit, -⟩ | ⟨-, block, rfl⟩
  · exact absurd hwell.startsWithDigit hdigit
  · have hwords : cids.map (fieldWord ∘ fun x => coreNumeral x.1 x.2) = cids.map Prod.snd :=
      List.map_congr_left fun x _ => fieldWord_coreNumeral x.1 x.2
    rw [hwell.parsed_eq block, fields_coresText hne, List.length_map, List.map_map, hwords]

/-- It is read back for every block, without a step outside of the text or the block. -/
theorem ends_coresText (hne : cids ≠ []) (block : ℕ → BitVec 32) :
    Run (parseCoresList (coresText cids)) [⟨.mallocCores cids.length, some block⟩]
      (.ret (.ok (some (cids.map Prod.snd, BitVec.ofNat 32 cids.length)))) := by
  have hdigit : StartsWithDigit (cstring (coresText cids)) := by
    rw [cstring_coresText]
    exact (wellFormed_coresText hne).startsWithDigit
  obtain ⟨o, hrun⟩ := parseCoresList_ends hdigit block
  rw [cstring_coresText, fields_coresText hne, List.length_map] at hrun
  obtain rfl := result_coresText hne hrun ⟨rfl, trivial⟩
  exact hrun

/-- The option `-c` with such a text sets the list. -/
theorem run_optionSwitch_cores (hne : cids ≠ []) (block : ℕ → BitVec 32) (s : MainVars) :
    Run (optionSwitch s (.withArg 'c' (coresText cids))) [⟨.mallocCores cids.length, some block⟩]
      (.ret (.ok { s with
        cfg.coreslist := cids.map Prod.snd, cfg.corelistSize := BitVec.ofNat 32 cids.length })) :=
  (ends_coresText hne block).bind_left _

end CoresText

/-- The variables after `-c` with one core. -/
def coreVars (cid : BitVec 32) : MainVars :=
  { initVars with cfg.coreslist := [cid], cfg.corelistSize := 1 }

theorem run_optionLoop_core (cid : BitVec 32) (opts : List Getopt.Opt) :
    Run (optionLoop initVars (.withArg 'c' (coresText [(0, cid)]) :: opts))
      [⟨.mallocCores 1, some fun _ => 0⟩] (optionLoop (coreVars cid) opts) :=
  (run_optionSwitch_cores (List.cons_ne_nil _ _) _ _).bind_left _

/-- **Lists of less than `2 ^ 32` core ids survive the parser**: if memory is granted it ends, and
every result is the list with its length. -/
theorem parseCoresList_roundTrip {cids : List (ℕ × BitVec 32)} (hne : cids ≠ [])
    (hlen : cids.length < 2 ^ 32) :
    (∀ block, ∃ o, Run (parseCoresList (coresText cids))
      [⟨.mallocCores cids.length, some block⟩] (.ret o)) ∧
    ∀ tr o, Run (parseCoresList (coresText cids)) tr (.ret o) → granting.Admits () tr →
      ∃ ncores : BitVec 32, o = .ok (some (cids.map Prod.snd, ncores)) ∧
        ncores.toNat = cids.length := by
  refine ⟨fun block => ⟨_, ends_coresText hne block⟩, fun tr o hrun hgrant => ?_⟩
  refine ⟨_, result_coresText hne hrun hgrant, ?_⟩
  rw [BitVec.toNat_ofNat, Nat.mod_eq_of_lt hlen]

/-- Two cores, one with a leading zero. -/
theorem parseCoresList_roundTrip_twoCores : ∃ tr o,
    Run (parseCoresList (coresText [(1, 7), (0, 12)])) tr (.ret o) ∧
      ∃ ncores : BitVec 32, o = .ok (some ([7, 12], ncores)) ∧ ncores.toNat = 2 := by
  have hne : [((1 : ℕ), (7 : BitVec 32)), (0, 12)] ≠ [] := List.cons_ne_nil _ _
  obtain ⟨hends, hresult⟩ := parseCoresList_roundTrip hne (by decide)
  obtain ⟨o, hrun⟩ := hends fun _ => 0
  exact ⟨_, o, hrun, hresult _ o hrun ⟨rfl, trivial⟩⟩

/-- **Where a list does not survive**: without memory there is none, and the length of a list of
`2 ^ 32` core ids is returned as `0`. -/
theorem roundTrip_fails :
    (∃ tr, Run (parseCoresList (coresText [(0, 0)])) tr (.ret (.ok none))) ∧
    ∃ (cids : List (ℕ × BitVec 32)) (tr : List (Event optionSig)), cids.length = 2 ^ 32 ∧
      Run (parseCoresList (coresText cids)) tr (.ret (.ok (some (cids.map Prod.snd, 0)))) := by
  constructor
  · exact ⟨_, Run.perform_bind (none : Option (ℕ → BitVec 32)) (.nil _)⟩
  · have hlen : (List.replicate (2 ^ 32) ((0, 0) : ℕ × BitVec 32)).length = 2 ^ 32 :=
      List.length_replicate
    generalize List.replicate (2 ^ 32) ((0, 0) : ℕ × BitVec 32) = cids at hlen
    have hne : cids ≠ [] := by
      rintro rfl
      cases hlen
    have hrun := ends_coresText hne fun _ => 0
    rw [hlen] at hrun
    exact ⟨cids, _, hlen, hrun⟩

end VmopsBench

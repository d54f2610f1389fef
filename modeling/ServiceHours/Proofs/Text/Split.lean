import Mathlib.Data.List.Basic
import Mathlib.Data.List.Forall2
import Mathlib.Data.List.Induction
import ServiceHours.Text.Blank
import ServiceHours.Text.Segment

/-!
# Splitting and trimming

How cutting a text at a character goes together with the parts of the text and with the blanks at its ends.

* Cut at a character, a text without it is one piece (`split_of_not_mem`), and the part before its first occurrence is
  the first piece (`split_append_cons`); so there are two pieces exactly if it occurs once (`split_eq_pair_iff`).
* The pieces are those texts without the character that it joins to the whole (`split_eq_iff`). Every other character of
  the text is in one of them (`exists_mem_split`), and pieces that were joined with the character behind each come apart
  again (`split_flatMap`).
* `Padded` describes a text with blanks around its value, and trimming finds the value (`trim_eq_iff`), also of each of
  several texts (`map_trim_eq_iff`).
* Blanks around a text do not matter where its pieces are trimmed anyway (`map_trim_split_trim`), nor for its words
  (`words_trim`). `Spaced` describes the words of a text, and they are found (`words_eq_iff`).
-/

namespace ServiceHours.Text

/-! ### Pieces -/

private theorem split_eq_splitOnP (p : Char → Bool) (cs : List Char) : split p cs = cs.splitOnP p := by
  induction cs with
  | nil => rfl
  | cons c cs ih =>
    rw [split, List.splitOnP_cons_eq_if_modifyHead]
    split
    · rw [ih]
    · obtain ⟨piece, pieces, hpieces⟩ := List.exists_cons_of_ne_nil (split_ne_nil p cs)
      rw [← ih, hpieces, List.modifyHead_cons]

private theorem split_eq_splitOn (c : Char) (cs : List Char) : split (· == c) cs = cs.splitOn c := by
  rw [split_eq_splitOnP, List.splitOn_eq_splitOnP]

theorem split_of_not_mem {c : Char} {cs : List Char} (h : c ∉ cs) : split (· == c) cs = [cs] := by
  rw [split_eq_splitOn, List.splitOn_eq_singleton h]

theorem split_append_cons {c : Char} {before : List Char} (h : c ∉ before) (after : List Char) :
    split (· == c) (before ++ c :: after) = before :: split (· == c) after := by
  rw [split_eq_splitOn, List.splitOn_append_cons_self_of_not_mem h, ← split_eq_splitOn]

/-- No piece holds a character that cuts. -/
private theorem of_mem_split {p : Char → Bool} {cs piece : List Char} (hpiece : piece ∈ split p cs) :
    ∀ c ∈ piece, p c = false := by
  induction cs generalizing piece with
  | nil =>
    rw [List.mem_singleton.mp hpiece]
    exact nofun
  | cons d cs ih =>
    obtain ⟨first, rest, hsplit⟩ := List.exists_cons_of_ne_nil (split_ne_nil p cs)
    rw [hsplit] at ih
    rw [split, hsplit] at hpiece
    split at hpiece
    · rcases List.mem_cons.mp hpiece with rfl | hpiece
      · exact nofun
      · exact ih hpiece
    · rename_i hd
      rcases List.mem_cons.mp hpiece with rfl | hpiece
      · exact List.forall_mem_cons.mpr ⟨Bool.not_eq_true _ ▸ hd, ih List.mem_cons_self⟩
      · exact ih (List.mem_cons_of_mem first hpiece)

/-- The text is the pieces with the separator between them, and no piece holds it. -/
def Pieces (sep : Char) (cs : List Char) (pieces : List (List Char)) : Prop :=
  cs = [sep].intercalate pieces ∧ pieces ≠ [] ∧ ∀ piece ∈ pieces, sep ∉ piece

theorem split_eq_iff {sep : Char} {cs : List Char} {pieces : List (List Char)} :
    split (· == sep) cs = pieces ↔ Pieces sep cs pieces := by
  constructor
  · rintro rfl
    refine ⟨?_, split_ne_nil _ cs, fun piece hpiece hmem => ?_⟩
    · rw [split_eq_splitOn, List.intercalate_splitOn]
    · exact absurd (of_mem_split hpiece sep hmem) (by rw [beq_self_eq_true]; exact nofun)
  · rintro ⟨rfl, hne, hpieces⟩
    rw [split_eq_splitOn, List.splitOn_intercalate sep hpieces hne]

/-- There are two pieces exactly if the character stands between them and nowhere else. -/
theorem split_eq_pair_iff {c : Char} {cs left right : List Char} :
    split (· == c) cs = [left, right] ↔ cs = left ++ c :: right ∧ c ∉ left ∧ c ∉ right := by
  constructor
  · intro h
    by_cases hmem : c ∈ cs
    · obtain ⟨before, after, rfl, hbefore⟩ := List.eq_append_cons_of_mem hmem
      rw [split_append_cons hbefore, List.cons.injEq] at h
      obtain ⟨rfl, h⟩ := h
      by_cases hmem' : c ∈ after
      · obtain ⟨middle, rest, rfl, hmiddle⟩ := List.eq_append_cons_of_mem hmem'
        rw [split_append_cons hmiddle, List.cons.injEq] at h
        exact absurd h.2 (split_ne_nil _ rest)
      · rw [split_of_not_mem hmem', List.cons.injEq] at h
        exact ⟨by rw [h.1], hbefore, h.1 ▸ hmem'⟩
    · rw [split_of_not_mem hmem] at h
      simp at h
  · rintro ⟨rfl, hleft, hright⟩
    rw [split_append_cons hleft, split_of_not_mem hright]

/-- A character that does not cut goes to the end of the last piece. -/
private theorem split_concat {p : Char → Bool} {c : Char} (hc : p c = false) (cs : List Char) :
    ∃ front last, split p cs = front ++ [last] ∧ split p (cs ++ [c]) = front ++ [last ++ [c]] := by
  induction cs with
  | nil => exact ⟨[], [], rfl, by simp [split, hc]⟩
  | cons d cs ih =>
    obtain ⟨front, last, h, h'⟩ := ih
    by_cases hd : p d = true
    · exact ⟨[] :: front, last, by simp [split, hd, h], by simp [split, hd, h']⟩
    · cases front with
      | nil => exact ⟨[], d :: last, by simp [split, hd, h], by simp [split, hd, h']⟩
      | cons piece front => exact ⟨(d :: piece) :: front, last, by simp [split, hd, h], by simp [split, hd, h']⟩

private theorem split_concat_of_pos {p : Char → Bool} {c : Char} (hc : p c = true) (cs : List Char) :
    split p (cs ++ [c]) = split p cs ++ [[]] := by
  induction cs with
  | nil => simp [split, hc]
  | cons d cs ih =>
    rw [List.cons_append]
    by_cases hd : p d = true
    · simp [split, hd, ih]
    · obtain ⟨piece, pieces, hpieces⟩ := List.exists_cons_of_ne_nil (split_ne_nil p cs)
      simp [split, hd, ih, hpieces]

/-- A character that does not cut is in some piece. -/
theorem exists_mem_split {p : Char → Bool} {c : Char} {cs : List Char} (hmem : c ∈ cs) (hc : p c = false) :
    ∃ piece ∈ split p cs, c ∈ piece := by
  induction cs with
  | nil => cases hmem
  | cons d cs ih =>
    by_cases hd : p d = true
    · have hne : c ≠ d := by
        rintro rfl
        rw [hc] at hd
        cases hd
      obtain ⟨piece, hpiece, hin⟩ := ih ((List.mem_cons.mp hmem).resolve_left hne)
      exact ⟨piece, by simp [split, hd, hpiece], hin⟩
    · obtain ⟨first, rest, hsplit⟩ := List.exists_cons_of_ne_nil (split_ne_nil p cs)
      have hcut : split p (d :: cs) = (d :: first) :: rest := by simp [split, hd, hsplit]
      rw [hcut]
      rcases List.mem_cons.mp hmem with rfl | hmem
      · exact ⟨_, List.mem_cons_self, List.mem_cons_self⟩
      · obtain ⟨piece, hpiece, hin⟩ := ih hmem
        rw [hsplit] at hpiece
        rcases List.mem_cons.mp hpiece with rfl | hpiece
        · exact ⟨_, List.mem_cons_self, List.mem_cons_of_mem d hin⟩
        · exact ⟨piece, List.mem_cons_of_mem _ hpiece, hin⟩

/-- Pieces that each end in a character which they do not hold themselves. -/
theorem split_flatMap {c : Char} {pieces : List (List Char)} (h : ∀ piece ∈ pieces, c ∉ piece) :
    split (· == c) (pieces.flatMap (· ++ [c])) = pieces ++ [[]] := by
  induction pieces with
  | nil => rfl
  | cons piece pieces ih =>
    obtain ⟨hpiece, hpieces⟩ := List.forall_mem_cons.mp h
    rw [List.flatMap_cons, List.append_assoc, List.singleton_append, split_append_cons hpiece, ih hpieces,
      List.cons_append]

/-! ### The first occurrence -/

theorem splitFirst_eq_none_iff {sep : Char} {cs : List Char} : splitFirst sep cs = none ↔ sep ∉ cs := by
  induction cs with
  | nil => exact iff_of_true rfl List.not_mem_nil
  | cons c cs ih =>
    rw [splitFirst, List.mem_cons, not_or, ← ih]
    split
    · rename_i hc
      exact iff_of_false nofun fun h => h.1 hc.symm
    · rename_i hc
      rw [Option.map_eq_none_iff, and_iff_right (Ne.symm hc)]

theorem splitFirst_append_cons {sep : Char} {before : List Char} (h : sep ∉ before) (after : List Char) :
    splitFirst sep (before ++ sep :: after) = some (before, after) := by
  induction before with
  | nil => rw [List.nil_append, splitFirst, if_pos rfl]
  | cons c before ih =>
    rw [List.mem_cons, not_or] at h
    rw [List.cons_append, splitFirst, if_neg (Ne.symm h.1), ih h.2, Option.map_some]

/-! ### Blanks -/

/-- No digit is blank, because the digits lie between two of the ranges of blanks. -/
theorem isBlank_of_isDigit {c : Char} (h : c.isDigit = true) : isBlank c = false := by
  have hrange : 48 ≤ c.toNat ∧ c.toNat ≤ 57 := by
    simpa [Char.isDigit, UInt32.le_iff_toNat_le] using h
  rw [isBlank, List.any_eq_false]
  intro r hr
  simp only [blankRanges, List.mem_cons, List.not_mem_nil, or_false] at hr
  rcases hr with rfl | rfl | rfl | rfl | rfl | rfl | rfl | rfl | rfl | rfl <;> simp <;> omega

theorem trimStart_cons_of_blank {c : Char} (hc : isBlank c = true) (cs : List Char) :
    trimStart (c :: cs) = trimStart cs := by
  simp [trimStart, hc]

theorem trimStart_cons_of_not_blank {c : Char} (hc : isBlank c = false) (cs : List Char) :
    trimStart (c :: cs) = c :: cs := by
  simp [trimStart, hc]

private theorem trim_cons_of_blank {c : Char} (hc : isBlank c = true) (cs : List Char) : trim (c :: cs) = trim cs := by
  rw [trim, trimStart_cons_of_blank hc, trim]

private theorem trimEnd_concat_of_blank {c : Char} (hc : isBlank c = true) (cs : List Char) :
    trimEnd (cs ++ [c]) = trimEnd cs := by
  simp [trimEnd, hc]

private theorem trimEnd_concat_of_not_blank {c : Char} (hc : isBlank c = false) (cs : List Char) :
    trimEnd (cs ++ [c]) = cs ++ [c] := by
  simp [trimEnd, hc]

theorem trimEnd_cons_of_not_blank {c : Char} (hc : isBlank c = false) (cs : List Char) :
    trimEnd (c :: cs) = c :: trimEnd cs := by
  rw [trimEnd, List.reverse_cons, List.dropWhile_append]
  split
  · rename_i hnil
    rw [List.isEmpty_iff] at hnil
    simp [trimEnd, hc, hnil]
  · simp [trimEnd]

private theorem trim_concat_of_blank {c : Char} (hc : isBlank c = true) (cs : List Char) :
    trim (cs ++ [c]) = trim cs := by
  induction cs with
  | nil => simp [trim, trimStart, hc]
  | cons d cs ih =>
    rw [List.cons_append]
    by_cases hd : isBlank d = true
    · rw [trim_cons_of_blank hd, trim_cons_of_blank hd, ih]
    · rw [Bool.not_eq_true] at hd
      rw [trim, trim, trimStart_cons_of_not_blank hd, trimStart_cons_of_not_blank hd, ← List.cons_append,
        trimEnd_concat_of_blank hc]

theorem trim_trimEnd (cs : List Char) : trim (trimEnd cs) = trim cs := by
  induction cs using List.reverseRecOn with
  | nil => rfl
  | append_singleton cs c ih =>
    by_cases hc : isBlank c = true
    · rw [trimEnd_concat_of_blank hc, ih, trim_concat_of_blank hc]
    · rw [trimEnd_concat_of_not_blank (Bool.not_eq_true _ ▸ hc)]

/-- Trimming does not reach beyond characters that are not blank. -/
private theorem trimEnd_append {front : List Char} (h : ∀ c ∈ front, isBlank c = false) (cs : List Char) :
    trimEnd (front ++ cs) = front ++ trimEnd cs := by
  induction front with
  | nil => rfl
  | cons c front ih =>
    obtain ⟨hc, hfront⟩ := List.forall_mem_cons.mp h
    rw [List.cons_append, trimEnd_cons_of_not_blank hc, ih hfront, List.cons_append]

theorem mem_of_mem_trimEnd {c : Char} {cs : List Char} (h : c ∈ trimEnd cs) : c ∈ cs := by
  rw [trimEnd, List.mem_reverse] at h
  exact List.mem_reverse.mp ((List.dropWhile_sublist _).mem h)

theorem trim_append {front : List Char} (h : ∀ c ∈ front, isBlank c = false) (hne : front ≠ []) (cs : List Char) :
    trim (front ++ cs) = front ++ trimEnd cs := by
  obtain ⟨c, rest, rfl⟩ := List.exists_cons_of_ne_nil hne
  rw [trim, List.cons_append, trimStart_cons_of_not_blank (h c List.mem_cons_self), ← List.cons_append,
    trimEnd_append h]

theorem trim_of_forall_not_blank {cs : List Char} (h : ∀ c ∈ cs, isBlank c = false) : trim cs = cs := by
  cases cs with
  | nil => rfl
  | cons c cs =>
    have htrim := trim_append h (List.cons_ne_nil c cs) []
    rwa [List.append_nil, show trimEnd [] = [] from rfl, List.append_nil] at htrim

/-- The text is `value`, which neither begins nor ends in a blank, with blanks around it. -/
def Padded (cs value : List Char) : Prop :=
  ∃ left right, cs = left ++ value ++ right ∧ (∀ c ∈ left ++ right, isBlank c = true) ∧
    (∀ c ∈ value.head?, isBlank c = false) ∧ ∀ c ∈ value.getLast?, isBlank c = false

private theorem trim_blank_append {left : List Char} (h : ∀ c ∈ left, isBlank c = true) (cs : List Char) :
    trim (left ++ cs) = trim cs := by
  induction left with
  | nil => rfl
  | cons c left ih =>
    obtain ⟨hc, hleft⟩ := List.forall_mem_cons.mp h
    rw [List.cons_append, trim_cons_of_blank hc, ih hleft]

private theorem trim_append_blank {right : List Char} (h : ∀ c ∈ right, isBlank c = true) (cs : List Char) :
    trim (cs ++ right) = trim cs := by
  induction right using List.reverseRecOn with
  | nil => rw [List.append_nil]
  | append_singleton right c ih =>
    obtain ⟨hright, hc⟩ := List.forall_mem_append.mp h
    rw [← List.append_assoc, trim_concat_of_blank (hc c List.mem_cons_self), ih hright]

theorem Padded.trim_eq {cs value : List Char} (h : Padded cs value) : trim cs = value := by
  obtain ⟨left, right, rfl, hblank, hhead, hlast⟩ := h
  obtain ⟨hleft, hright⟩ := List.forall_mem_append.mp hblank
  rw [trim_append_blank hright, trim_blank_append hleft]
  cases value with
  | nil => rfl
  | cons c value =>
    obtain hnil | ⟨front, last, hvalue⟩ := List.eq_nil_or_concat' (c :: value)
    · cases hnil
    · rw [trim, trimStart_cons_of_not_blank (hhead c rfl), hvalue, trimEnd_concat_of_not_blank]
      exact hlast last (by rw [hvalue, List.getLast?_concat]; rfl)

/-- Each further character in front is a blank or begins the value. In the second case what was on the left of the value
belongs to it, or to what is on the right if there was none. -/
private theorem exists_padded (cs : List Char) : ∃ value, Padded cs value := by
  induction cs with
  | nil => exact ⟨[], [], [], rfl, nofun, nofun, nofun⟩
  | cons c cs ih =>
    obtain ⟨value, left, right, rfl, hblank, hends⟩ := ih
    by_cases hc : isBlank c = true
    · exact ⟨value, c :: left, right, rfl, List.forall_mem_cons.mpr ⟨hc, hblank⟩, hends⟩
    · rw [Bool.not_eq_true] at hc
      obtain rfl | ⟨front, last, rfl⟩ := List.eq_nil_or_concat' value
      · exact ⟨[c], [], left ++ right, by simp, hblank, by simpa using hc, by simpa using hc⟩
      · refine ⟨c :: (left ++ (front ++ [last])), [], right, by simp, (List.forall_mem_append.mp hblank).2,
          by simpa using hc, ?_⟩
        rw [← List.append_assoc, ← List.cons_append, List.getLast?_concat, ← List.getLast?_concat (l := front)]
        exact hends.2

theorem trim_eq_iff {cs value : List Char} : trim cs = value ↔ Padded cs value := by
  refine ⟨?_, Padded.trim_eq⟩
  rintro rfl
  obtain ⟨value, h⟩ := exists_padded cs
  exact h.trim_eq.symm ▸ h

theorem map_trim_eq_iff {pieces values : List (List Char)} :
    pieces.map trim = values ↔ List.Forall₂ Padded pieces values := by
  rw [← List.forall₂_eq_eq_eq, List.forall₂_map_left_iff]
  simp only [trim_eq_iff]

/-- If what is added does not end in a blank, the blanks that were behind the value belong to it now. -/
theorem Padded.append {cs value more : List Char} (h : Padded cs value) (hne : value ≠ [])
    (hmore : ∃ c ∈ more.getLast?, isBlank c = false) : ∃ rest, rest ≠ [] ∧ Padded (cs ++ more) (value ++ rest) := by
  obtain ⟨left, right, rfl, hblank, hhead, -⟩ := h
  obtain ⟨last, hlast, hnot⟩ := hmore
  obtain ⟨c, value, rfl⟩ := List.exists_cons_of_ne_nil hne
  have hfull : more ≠ [] := by
    rintro rfl
    cases hlast
  refine ⟨right ++ more, by simp [hfull], left, [], by simp, ?_, hhead, ?_⟩
  · rw [List.append_nil]
    exact (List.forall_mem_append.mp hblank).1
  · rw [← List.append_assoc, List.getLast?_append_of_ne_nil _ hfull]
    intro d hd
    rwa [Option.mem_unique hd hlast]

section Pieces

variable {p : Char → Bool}

private theorem map_trim_split_trimStart (hp : ∀ c, isBlank c = true → p c = false) (cs : List Char) :
    (split p (trimStart cs)).map trim = (split p cs).map trim := by
  induction cs with
  | nil => rfl
  | cons c cs ih =>
    by_cases hc : isBlank c = true
    · rw [trimStart_cons_of_blank hc, ih]
      -- The blank goes to the first piece, which is trimmed.
      obtain ⟨piece, pieces, hpieces⟩ := List.exists_cons_of_ne_nil (split_ne_nil p cs)
      simp [split, hp c hc, hpieces, trim_cons_of_blank hc]
    · rw [trimStart_cons_of_not_blank (Bool.not_eq_true _ ▸ hc)]

private theorem map_trim_split_trimEnd (hp : ∀ c, isBlank c = true → p c = false) (cs : List Char) :
    (split p (trimEnd cs)).map trim = (split p cs).map trim := by
  induction cs using List.reverseRecOn with
  | nil => rfl
  | append_singleton cs c ih =>
    by_cases hc : isBlank c = true
    · obtain ⟨front, last, h, h'⟩ := split_concat (hp c hc) cs
      rw [trimEnd_concat_of_blank hc, ih, h, h', List.map_append, List.map_append, List.map_singleton,
        List.map_singleton, trim_concat_of_blank hc]
    · rw [trimEnd_concat_of_not_blank (Bool.not_eq_true _ ▸ hc)]

/-- If no blank cuts, the trimmed pieces of a text are those of the trimmed text. -/
theorem map_trim_split_trim (hp : ∀ c, isBlank c = true → p c = false) (cs : List Char) :
    (split p (trim cs)).map trim = (split p cs).map trim := by
  rw [trim, map_trim_split_trimEnd hp, map_trim_split_trimStart hp]

end Pieces

/-! ### Words -/

private theorem words_cons_of_blank {c : Char} (hc : isBlank c = true) (cs : List Char) :
    words (c :: cs) = words cs := by
  simp [words, split, hc]

private theorem words_concat_of_blank {c : Char} (hc : isBlank c = true) (cs : List Char) :
    words (cs ++ [c]) = words cs := by
  simp [words, split_concat_of_pos hc]

private theorem words_trimStart (cs : List Char) : words (trimStart cs) = words cs := by
  induction cs with
  | nil => rfl
  | cons c cs ih =>
    by_cases hc : isBlank c = true
    · rw [trimStart_cons_of_blank hc, ih, words_cons_of_blank hc]
    · rw [trimStart_cons_of_not_blank (Bool.not_eq_true _ ▸ hc)]

private theorem words_trimEnd (cs : List Char) : words (trimEnd cs) = words cs := by
  induction cs using List.reverseRecOn with
  | nil => rfl
  | append_singleton cs c ih =>
    by_cases hc : isBlank c = true
    · rw [trimEnd_concat_of_blank hc, ih, words_concat_of_blank hc]
    · rw [trimEnd_concat_of_not_blank (Bool.not_eq_true _ ▸ hc)]

theorem words_trim (cs : List Char) : words (trim cs) = words cs := by
  rw [trim, words_trimEnd, words_trimStart]

/-- The words of a text are runs of characters that are not blank, with blanks between them and perhaps around them. -/
inductive Spaced : List Char → List (List Char) → Prop
  | nil : Spaced [] []
  | blank {c : Char} {cs : List Char} {words : List (List Char)} (hc : isBlank c = true) (h : Spaced cs words) :
    Spaced (c :: cs) words
  | word {word cs : List Char} {words : List (List Char)} (hne : word ≠ []) (hword : ∀ c ∈ word, isBlank c = false)
    (hend : ∀ c ∈ cs.head?, isBlank c = true) (h : Spaced cs words) : Spaced (word ++ cs) (word :: words)

/-- A run of characters that are not blank is a word if a blank or the end of the text follows. -/
private theorem words_append {word cs : List Char} (hne : word ≠ []) (hword : ∀ c ∈ word, isBlank c = false)
    (hend : ∀ c ∈ cs.head?, isBlank c = true) : words (word ++ cs) = word :: words cs := by
  have hkept : (!word.isEmpty) = true := by rwa [Bool.not_eq_true', List.isEmpty_eq_false_iff]
  cases cs with
  | nil =>
    rw [List.append_nil, words, split_eq_splitOnP, List.splitOnP_eq_singleton hword, List.filter_cons, if_pos hkept]
    rfl
  | cons c cs =>
    have hc : isBlank c = true := hend c rfl
    rw [words_cons_of_blank hc, words, split_eq_splitOnP, List.splitOnP_append_cons_of_forall_mem hword c hc,
      List.filter_cons, if_pos hkept, ← split_eq_splitOnP, words]

theorem Spaced.words_eq {cs : List Char} {ws : List (List Char)} (h : Spaced cs ws) : words cs = ws := by
  induction h with
  | nil => rfl
  | blank hc _ ih => rw [words_cons_of_blank hc, ih]
  | word hne hword hend _ ih => rw [words_append hne hword hend, ih]

/-- Each further character in front is a blank, a word of its own or part of the first word. -/
theorem exists_spaced (cs : List Char) : ∃ ws, Spaced cs ws := by
  induction cs with
  | nil => exact ⟨[], .nil⟩
  | cons c cs ih =>
    obtain ⟨ws, h⟩ := ih
    by_cases hc : isBlank c = true
    · exact ⟨ws, .blank hc h⟩
    · rw [Bool.not_eq_true] at hc
      have hsingle : ∀ d ∈ [c], isBlank d = false := List.forall_mem_singleton.mpr hc
      cases h with
      | nil => exact ⟨[[c]], .word (List.cons_ne_nil c []) hsingle nofun .nil⟩
      | blank hd h =>
        refine ⟨[c] :: ws, .word (List.cons_ne_nil c []) hsingle ?_ (.blank hd h)⟩
        rintro _ ⟨⟩
        exact hd
      | @word word _ ws hne hword hend h =>
        exact ⟨(c :: word) :: ws, .word (List.cons_ne_nil c word) (List.forall_mem_cons.mpr ⟨hc, hword⟩) hend h⟩

theorem words_eq_iff {cs : List Char} {ws : List (List Char)} : words cs = ws ↔ Spaced cs ws := by
  refine ⟨?_, Spaced.words_eq⟩
  rintro rfl
  obtain ⟨ws, h⟩ := exists_spaced cs
  exact h.words_eq.symm ▸ h

/-- A character that is not blank is in some word. -/
theorem exists_mem_words {c : Char} {cs : List Char} (hmem : c ∈ cs) (hc : isBlank c = false) :
    ∃ word ∈ words cs, c ∈ word := by
  obtain ⟨word, hword, hin⟩ := exists_mem_split (p := isBlank) hmem hc
  refine ⟨word, List.mem_filter.mpr ⟨hword, ?_⟩, hin⟩
  rw [Bool.not_eq_true', List.isEmpty_eq_false_iff]
  exact List.ne_nil_of_mem hin

end ServiceHours.Text

/-!
# Insertion in order

Building a list in ascending order by one insertion at a time. An element goes behind all that may stand before it,
so elements that compare as equal keep the order in which they came.

* `insertBy` adds exactly the new element (`insertBy_perm`) and keeps the order (`pairwise_insertBy`);
* a search finds the new element only where it found nothing before (`find?_insertBy_of_none`);
* elements that all stand before the new one, or all behind it, can be set aside (`insertBy_append_left`,
  `insertBy_append_right`), and so can elements that do not count (`filter_insertBy`);
* `sortBy` inserts the elements of a list in turn; that is the library's stable sort (`sortBy_eq_mergeSort`), which also
  keeps the order of elements that compare as equal (`filter_mergeSort`).
-/

namespace ServiceHours

/-- Inserts `x` in front of the first element that may not stand before it. -/
def insertBy (le : α → α → Bool) (x : α) : List α → List α
  | [] => [x]
  | y :: ys => if le y x then y :: insertBy le x ys else x :: y :: ys

/-- The elements in ascending order, equal ones in their given order. -/
def sortBy (le : α → α → Bool) (xs : List α) : List α :=
  xs.foldl (fun sorted x => insertBy le x sorted) []

theorem insertBy_perm (le : α → α → Bool) (x : α) (xs : List α) : (insertBy le x xs).Perm (x :: xs) := by
  fun_induction insertBy le x xs with
  | case1 => rfl
  | case2 y ys h ih => exact (ih.cons y).trans (List.Perm.swap x y ys)
  | case3 => rfl

theorem mem_insertBy {le : α → α → Bool} {x y : α} {xs : List α} :
    y ∈ insertBy le x xs ↔ y = x ∨ y ∈ xs := by
  rw [(insertBy_perm le x xs).mem_iff, List.mem_cons]

/-- Insertion does not disturb a search that passes over the new element. -/
theorem find?_insertBy_of_neg {le : α → α → Bool} {p : α → Bool} {x : α} (hx : p x = false) (xs : List α) :
    (insertBy le x xs).find? p = xs.find? p := by
  fun_induction insertBy le x xs with
  | case1 => simp [hx]
  | case2 y ys h ih => simp only [List.find?_cons, ih]
  | case3 y ys h => simp only [List.find?_cons, hx]

/-- A search that found nothing before finds the new element. -/
theorem find?_insertBy_of_none {le : α → α → Bool} {p : α → Bool} {x : α} (hx : p x = true) {xs : List α}
    (h : xs.find? p = none) : (insertBy le x xs).find? p = some x := by
  fun_induction insertBy le x xs with
  | case1 => simp [hx]
  | case2 y ys hle ih =>
    simp only [List.find?_cons] at h ⊢
    split at h
    · simp at h
    · exact ih h
  | case3 y ys hle => simp only [List.find?_cons, hx]

/-- Insertion keeps the order, for a comparison that is transitive and decides between any two elements. -/
theorem pairwise_insertBy (le : α → α → Bool) (trans : ∀ a b c, le a b → le b c → le a c)
    (total : ∀ a b, le a b || le b a) (x : α) {xs : List α} (h : xs.Pairwise (fun a b => le a b)) :
    (insertBy le x xs).Pairwise (fun a b => le a b) := by
  induction xs with
  | nil => simp [insertBy]
  | cons y ys ih =>
    obtain ⟨hy, hys⟩ := List.pairwise_cons.mp h
    unfold insertBy
    split
    · rename_i hyx
      refine List.pairwise_cons.mpr ⟨fun z hz => ?_, ih hys⟩
      rcases mem_insertBy.mp hz with rfl | hz
      · exact hyx
      · exact hy z hz
    · rename_i hyx
      have hxy : le x y = true := by
        have := total x y
        simp only [Bool.or_eq_true] at this
        rcases this with h | h
        · exact h
        · exact absurd h hyx
      refine List.pairwise_cons.mpr ⟨fun z hz => ?_, h⟩
      rcases List.mem_cons.mp hz with rfl | hz
      · exact hxy
      · exact trans x y z hxy (hy z hz)

/-! ### Parts of the list -/

section Parts

variable {le : α → α → Bool} {x : α}

/-- An insertion passes over elements that may stand before the new one. -/
theorem insertBy_append_left {xs : List α} (h : ∀ y ∈ xs, le y x = true) (ys : List α) :
    insertBy le x (xs ++ ys) = xs ++ insertBy le x ys := by
  induction xs with
  | nil => rfl
  | cons y xs ih =>
    have hy : le y x = true := h y List.mem_cons_self
    simp only [List.cons_append, insertBy, hy, if_true]
    rw [ih fun z hz => h z (List.mem_cons_of_mem y hz)]

/-- It does not reach elements that may not. -/
theorem insertBy_append_right (xs : List α) {ys : List α} (h : ∀ y ∈ ys, le y x = false) :
    insertBy le x (xs ++ ys) = insertBy le x xs ++ ys := by
  induction xs with
  | nil =>
    cases ys with
    | nil => rfl
    | cons y ys => simp [insertBy, h y List.mem_cons_self]
  | cons z xs ih =>
    simp only [List.cons_append, insertBy]
    split
    · rw [ih, List.cons_append]
    · rfl

/-- A map that keeps the comparison with the new element maps the insertion. -/
theorem map_insertBy {le' : β → β → Bool} {g : α → β} (h : ∀ y, le' (g y) (g x) = le y x) (xs : List α) :
    (insertBy le x xs).map g = insertBy le' (g x) (xs.map g) := by
  induction xs with
  | nil => rfl
  | cons y xs ih =>
    simp only [insertBy, List.map_cons, h]
    split
    · rw [List.map_cons, ih]
    · rfl

/-- Leaving out elements of a list in order, and the new one if it is to go, does not change where it comes to stand. -/
theorem filter_insertBy (trans : ∀ a b c, le a b → le b c → le a c) (p : α → Bool) {xs : List α}
    (h : xs.Pairwise fun a b => le a b) :
    (insertBy le x xs).filter p = if p x then insertBy le x (xs.filter p) else xs.filter p := by
  induction xs with
  | nil => cases hx : p x <;> simp [insertBy, hx]
  | cons y xs ih =>
    obtain ⟨hy, hxs⟩ := List.pairwise_cons.mp h
    by_cases hle : le y x = true
    · rw [insertBy, if_pos hle, List.filter_cons, ih hxs, List.filter_cons]
      cases p y <;> cases p x <;> simp [insertBy, hle]
    · -- Nothing from `y` on may stand before `x`, so what is left of it does not either.
      have hbehind : ∀ z ∈ (y :: xs).filter p, le z x = false := by
        intro z hz
        rw [← Bool.not_eq_true]
        intro hzx
        rcases List.mem_cons.mp (List.mem_filter.mp hz).1 with rfl | hz
        · exact hle hzx
        · exact hle (trans y z x (hy z hz) hzx)
      have hfront : insertBy le x ((y :: xs).filter p) = x :: (y :: xs).filter p :=
        insertBy_append_right [] hbehind
      rw [insertBy, if_neg hle, List.filter_cons, hfront]

end Parts

/-! ### Sorting -/

/-- A list falls in one way into elements without a property and, behind them, elements with it. -/
private theorem append_inj_of_forall {p : α → Bool} {xs ys xs' ys' : List α} (h : xs ++ ys = xs' ++ ys')
    (hxs : ∀ z ∈ xs, p z = false) (hys : ∀ z ∈ ys, p z = true) (hxs' : ∀ z ∈ xs', p z = false)
    (hys' : ∀ z ∈ ys', p z = true) : xs = xs' ∧ ys = ys' := by
  have hnone : ∀ {zs : List α}, (∀ z ∈ zs, p z = false) → zs.filter p = [] := fun h =>
    List.filter_eq_nil_iff.mpr fun z hz => by simp [h z hz]
  have hback : ys = ys' := by
    have hfilter := congrArg (List.filter p) h
    rwa [List.filter_append, List.filter_append, hnone hxs, hnone hxs', List.filter_eq_self.mpr hys,
      List.filter_eq_self.mpr hys', List.nil_append, List.nil_append] at hfilter
  subst hback
  exact ⟨List.append_cancel_right h, rfl⟩

section Stable

variable {le : α → α → Bool} (trans : ∀ a b c, le a b → le b c → le a c) (total : ∀ a b, le a b || le b a)

include trans total

/-- Where the first element of a list stands in it after sorting. -/
private theorem exists_mergeSort_cons (a : α) (xs : List α) :
    ∃ front back, (a :: xs).mergeSort le = front ++ a :: back ∧ xs.mergeSort le = front ++ back ∧
      (∀ b ∈ front, le a b = false) ∧ ∀ b ∈ back, le a b = true := by
  obtain ⟨front, back, hcons, hsort, hfront⟩ := List.mergeSort_cons trans total a xs
  have hsorted := List.pairwise_mergeSort trans total (a :: xs)
  rw [hcons] at hsorted
  refine ⟨front, back, hcons, hsort, fun b hb => ?_, ?_⟩
  · simpa using hfront b hb
  · exact (List.pairwise_cons.mp (List.pairwise_append.mp hsorted).2.1).1

/-- The library's stable sort puts a last element behind all that may stand before it. -/
private theorem mergeSort_concat (xs : List α) (x : α) :
    (xs ++ [x]).mergeSort le = insertBy le x (xs.mergeSort le) := by
  induction xs with
  | nil => simp [insertBy]
  | cons a xs ih =>
    -- Without `a` both sides are one list, and in both `a` stands where the elements begin that may follow it.
    obtain ⟨front', back', hcons', hsort', hfront', hback'⟩ := exists_mergeSort_cons trans total a (xs ++ [x])
    obtain ⟨front, back, hcons, hsort, hfront, hback⟩ := exists_mergeSort_cons trans total a xs
    rw [hsort', hsort] at ih
    rw [List.cons_append, hcons', hcons]
    by_cases hax : le a x = true
    · have hfrontx : ∀ b ∈ front, le b x = true := by
        intro b hb
        have hba := total a b
        rw [hfront b hb, Bool.false_or] at hba
        exact trans b a x hba hax
      have hbackx : ∀ b ∈ insertBy le x back, le a b = true := by
        intro b hb
        rcases mem_insertBy.mp hb with rfl | hb
        · exact hax
        · exact hback b hb
      rw [insertBy_append_left hfrontx] at ih ⊢
      obtain ⟨rfl, rfl⟩ := append_inj_of_forall ih hfront' hback' hfront hbackx
      rw [insertBy, if_pos hax]
    · have hxback : ∀ b ∈ a :: back, le b x = false := by
        intro b hb
        rw [← Bool.not_eq_true]
        rcases List.mem_cons.mp hb with rfl | hb
        · exact hax
        · exact fun hbx => hax (trans a b x (hback b hb) hbx)
      have hfrontx : ∀ b ∈ insertBy le x front, le a b = false := by
        intro b hb
        rcases mem_insertBy.mp hb with rfl | hb
        · simpa using hax
        · exact hfront b hb
      rw [insertBy_append_right front fun b hb => hxback b (List.mem_cons_of_mem a hb)] at ih
      rw [insertBy_append_right front hxback]
      obtain ⟨rfl, rfl⟩ := append_inj_of_forall ih hfront' hback' hfrontx hback
      rfl

/-- Inserting one element after the other sorts as the library's stable sort does. -/
theorem sortBy_eq_mergeSort (xs : List α) : sortBy le xs = xs.mergeSort le := by
  have go : ∀ xs ys : List α, xs.foldl (fun sorted x => insertBy le x sorted) (ys.mergeSort le) =
      (ys ++ xs).mergeSort le := by
    intro xs
    induction xs with
    | nil => exact fun ys => by rw [List.append_nil, List.foldl_nil]
    | cons x xs ih =>
      intro ys
      rw [List.foldl_cons, ← mergeSort_concat trans total, ih, List.append_assoc, List.singleton_append]
  have hall := go xs []
  rwa [List.mergeSort_nil, List.nil_append] at hall

/-- The stable sort keeps the order of elements of which any may stand before any other. -/
theorem filter_mergeSort {p : α → Bool} (hp : ∀ a b, p a = true → p b = true → le a b = true) (xs : List α) :
    (xs.mergeSort le).filter p = xs.filter p := by
  have hpairs : (xs.filter p).Pairwise fun a b => le a b = true :=
    List.pairwise_of_forall_mem_list fun a ha b hb => hp a b (List.mem_filter.mp ha).2 (List.mem_filter.mp hb).2
  have hsub := (List.sublist_mergeSort trans total hpairs List.filter_sublist).filter p
  rw [List.filter_filter] at hsub
  simp only [Bool.and_self] at hsub
  exact (hsub.eq_of_length ((List.mergeSort_perm xs le).filter p).length_eq.symm).symm

end Stable

end ServiceHours

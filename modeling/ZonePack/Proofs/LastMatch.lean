import Mathlib.Data.List.Find

/-!
# ZonePack.Proofs.LastMatch

The last match in a list.  Of the files of a pack that are written to one place the last one
stays, so looking a file up is a search from the end.

* `mem_of_findRev?`, `findRev?_eq_none_iff`, `exists_findRev?_iff` — what is found, and when;
* `findRev?_append_of_left`, `findRev?_append_of_right` — a search that only one of two lists
  can answer;
* `findRev?_eq_of_unique` — the order of a list does not matter where there is one match only;
* `exists_mem_iff_findRev?` — nor do the matches before the last one, where they are not good
  for anything.
-/

namespace ZonePack

section LastMatch

variable {α : Type} {xs ys : List α} {p q : α → Bool}

/-- What is found is in the list, and matches. -/
theorem mem_of_findRev? {x : α} (h : xs.findRev? p = some x) : x ∈ xs ∧ p x := by
  rw [List.findRev?_eq_find?_reverse] at h
  exact ⟨List.mem_reverse.1 (List.mem_of_find?_eq_some h), List.find?_some h⟩

/-- Nothing is found exactly if nothing matches. -/
theorem findRev?_eq_none_iff : xs.findRev? p = none ↔ ∀ x ∈ xs, ¬ p x := by
  rw [List.findRev?_eq_find?_reverse, List.find?_eq_none]
  simp only [List.mem_reverse]

/-- Something is found exactly if something matches. -/
theorem exists_findRev?_iff : (∃ x, xs.findRev? p = some x) ↔ ∃ x ∈ xs, p x := by
  rw [← Option.isSome_iff_exists, List.findRev?_eq_find?_reverse, List.find?_isSome]
  simp only [List.mem_reverse]

/-- The search depends on what matches in the list only. -/
theorem findRev?_congr (h : ∀ x ∈ xs, p x = q x) : xs.findRev? p = xs.findRev? q := by
  rw [List.findRev?_eq_find?_reverse, List.findRev?_eq_find?_reverse]
  exact List.find?_congr fun x hx => h x (List.mem_reverse.1 hx)

/-- A search among images is one among what they are images of. -/
theorem findRev?_map {β : Type} (f : β → α) (bs : List β) :
    (bs.map f).findRev? p = (bs.findRev? fun b => p (f b)).map f := by
  rw [List.findRev?_eq_find?_reverse, List.findRev?_eq_find?_reverse, ← List.map_reverse,
    List.find?_map]
  rfl

/-! ## Two lists -/

/-- The last match in two lists is in the second one, if there is one. -/
theorem findRev?_append (p : α → Bool) (xs ys : List α) :
    (xs ++ ys).findRev? p = (ys.findRev? p).or (xs.findRev? p) := by
  simp only [List.findRev?_eq_find?_reverse, List.reverse_append, List.find?_append]

/-- Where nothing in the second list is wanted, the last one wanted is in the first. -/
theorem findRev?_append_of_left (hxs : ∀ x ∈ xs, p x = q x) (hys : ∀ y ∈ ys, ¬ p y) :
    (xs ++ ys).findRev? p = xs.findRev? q := by
  rw [findRev?_append, findRev?_eq_none_iff.2 hys, Option.none_or]
  exact findRev?_congr hxs

/-- Where nothing in the first list is wanted, the last one wanted is in the second. -/
theorem findRev?_append_of_right (hxs : ∀ x ∈ xs, ¬ p x) (hys : ∀ y ∈ ys, p y = q y) :
    (xs ++ ys).findRev? p = ys.findRev? q := by
  rw [findRev?_append, findRev?_eq_none_iff.2 hxs, Option.or_none]
  exact findRev?_congr hys

/-- The last match is the same in lists that have the same matches, if there is only one. -/
theorem findRev?_eq_of_unique (hmem : ∀ x, p x → (x ∈ xs ↔ x ∈ ys))
    (hunique : ∀ x ∈ xs, ∀ y ∈ xs, p x → p y → x = y) : xs.findRev? p = ys.findRev? p := by
  cases hx : xs.findRev? p with
  | none =>
    rw [findRev?_eq_none_iff] at hx
    exact (findRev?_eq_none_iff.2 fun y hy hp => hx y ((hmem y hp).2 hy) hp).symm
  | some x =>
    obtain ⟨hmemx, hpx⟩ := mem_of_findRev? hx
    obtain ⟨y, hy⟩ := exists_findRev?_iff.2 ⟨x, (hmem x hpx).1 hmemx, hpx⟩
    obtain ⟨hmemy, hpy⟩ := mem_of_findRev? hy
    rw [hy, hunique x hmemx y ((hmem y hpy).2 hmemy) hpx hpy]

/-! ## Matches before the last one -/

/-- Where of all that is wanted only the last can be good, something wanted is good exactly if
the last is. -/
theorem exists_mem_iff_findRev? {wanted : α → Bool} {good : α → Prop}
    (h : xs.Pairwise fun x y => wanted x → wanted y → ¬ good x) :
    (∃ x ∈ xs, wanted x ∧ good x) ↔ ∃ x ∈ xs.findRev? wanted, good x := by
  induction xs with
  | nil => simp
  | cons x xs ih =>
    obtain ⟨hfirst, hrest⟩ := List.pairwise_cons.1 h
    have hsplit : (∃ y ∈ x :: xs, wanted y ∧ good y) ↔
        (wanted x ∧ good x) ∨ ∃ y ∈ xs, wanted y ∧ good y := by
      simp
    rw [hsplit, ih hrest, List.findRev?]
    cases hlast : xs.findRev? wanted with
    | some last =>
      -- something later is wanted, so the first is not good
      obtain ⟨hmem, hwanted⟩ := mem_of_findRev? hlast
      have hbad : ¬ (wanted x ∧ good x) := fun hx => hfirst last hmem hx.1 hwanted hx.2
      exact or_iff_right hbad
    | none => cases hwanted : wanted x <;> simp

end LastMatch

end ZonePack

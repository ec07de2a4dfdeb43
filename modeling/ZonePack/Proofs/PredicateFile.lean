import ZonePack.Predicate.Reading
import ZonePack.Proofs.Json.Pretty
import ZonePack.Proofs.Json.Reading

/-!
# ZonePack.Proofs.PredicateFile

Predicate files say exactly which predicate they are of, however deep its conditions are
inverted and however many there are.

* `Predicate.ofJson?_eq_some_iff` — the value of a predicate, and no other value, is read as
  this predicate, by induction on its conditions;
* `Predicate.ofText?_of_spelledBy` — so is each text of that value, whatever its blanks and
  escapes are, since no text is too short for the brackets that are inside each other in it;
* `Predicate.text_faithful` — the file is such a text, and it ends in one line feed.
-/

namespace ZonePack

open Json (Value)

/-- Lists are read as they are written if items are. -/
theorem mapM_eq_some_iff {α β : Type} {read : β → Option α} {write : α → β}
    (h : ∀ b a, read b = some a ↔ b = write a) {bs : List β} {as : List α} :
    bs.mapM read = some as ↔ bs = as.map write := by
  induction bs generalizing as with
  | nil => cases as <;> simp
  | cons b bs ih =>
    cases as with
    | nil => simp [Option.bind_eq_some_iff]
    | cons a as => simp [Option.bind_eq_some_iff, h, ih]

/-! ## Ranges -/

namespace ScoreRange

theorem ofJson?_eq_some_iff {v : Value} {r : ScoreRange} : ofJson? v = some r ↔ v = r.toJson := by
  constructor
  · intro h
    unfold ofJson? at h
    split at h
    · next min max =>
      simp only [Option.bind_eq_bind, Option.bind_eq_some_iff, Json.int64?_eq_some_iff] at h
      obtain ⟨least, rfl, greatest, rfl, hr⟩ := h
      cases hr
      rfl
    · cases h
  · rintro rfl
    exact ofJson?_toJson r

theorem isExact_toJson (r : ScoreRange) : r.toJson.IsExact := by
  refine .object fun e he => ?_
  simp only [List.mem_cons, List.not_mem_nil, or_false] at he
  obtain rfl | rfl := he
  · exact .int64 r.min
  · exact .int64 r.max

end ScoreRange

/-! ## Conditions -/

namespace Condition

/-- Ranges are read one by one, in their order. -/
theorem rangesOfJson?_eq_some_iff {entries : List (String × Value)}
    {ranges : List (String × ScoreRange)} :
    rangesOfJson? entries = some ranges ↔ entries = ranges.map fun r => (r.1, r.2.toJson) := by
  refine mapM_eq_some_iff fun e r => ?_
  simp [Option.map_eq_some_iff, ScoreRange.ofJson?_eq_some_iff, Prod.ext_iff, and_comm]

/-- A condition is read one inversion after the other. -/
theorem ofJson?_eq_some_iff {v : Value} {c : Condition} : ofJson? v = some c ↔ v = c.toJson := by
  constructor
  · intro h
    induction c generalizing v with
    | scores ranges =>
      unfold ofJson? at h
      split at h
      · next entries =>
        obtain ⟨read, hread, hscores⟩ := Option.map_eq_some_iff.1 h
        cases hscores
        rw [rangesOfJson?_eq_some_iff.1 hread]
        rfl
      · simp at h
      · cases h
    | inverted term ih =>
      unfold ofJson? at h
      split at h
      · simp at h
      · next value =>
        obtain ⟨read, hread, hinverted⟩ := Option.map_eq_some_iff.1 h
        cases hinverted
        rw [ih hread]
        rfl
      · cases h
  · rintro rfl
    induction c with
    | scores ranges =>
      simp [toJson, ofJson?, Value.string, rangesOfJson?_eq_some_iff.2 rfl]
    | inverted term ih => simp [toJson, ofJson?, Value.string, ih]

theorem isExact_toJson (c : Condition) : c.toJson.IsExact := by
  induction c with
  | scores ranges =>
    refine .object fun e he => ?_
    simp only [List.mem_cons, List.not_mem_nil, or_false] at he
    obtain rfl | rfl | rfl := he
    · exact .string
    · exact .string
    · exact .object (List.forall_mem_map.2 fun r _ => r.2.isExact_toJson)
  | inverted term ih =>
    refine .object fun e he => ?_
    simp only [List.mem_cons, List.not_mem_nil, or_false] at he
    obtain rfl | rfl := he
    · exact .string
    · exact ih

/-- A condition is an object, so it ends in a closing bracket. -/
theorem getLast?_prettyText (c : Condition) (depth : Nat) :
    (c.toJson.prettyText depth).getLast? = some '}' := by
  cases c <;> exact Value.getLast?_prettyText_object depth _

end Condition

/-! ## Predicates -/

namespace Predicate

/-- A predicate is read from its value, and from no other one. -/
theorem ofJson?_eq_some_iff {v : Value} {p : Predicate} : ofJson? v = some p ↔ v = p.toJson := by
  cases v with
  | list items =>
    have hitems (conditions : List Condition) : items.mapM Condition.ofJson? = some conditions ↔
        items = conditions.map Condition.toJson :=
      mapM_eq_some_iff fun _ _ => Condition.ofJson?_eq_some_iff
    cases p with
    | single condition => cases condition <;> simp [ofJson?, toJson, Condition.toJson]
    | all conditions => simp [ofJson?, toJson, hitems]
  | scalar v =>
    cases p <;> simp [ofJson?, toJson, Condition.ofJson?_eq_some_iff]
  | object entries =>
    cases p <;> simp [ofJson?, toJson, Condition.ofJson?_eq_some_iff]

theorem isExact_toJson (p : Predicate) : p.toJson.IsExact := by
  cases p with
  | single condition => exact condition.isExact_toJson
  | all conditions => exact .list (List.forall_mem_map.2 fun c _ => c.isExact_toJson)

/-! ## Files -/

/-- A predicate is read from each text of its value. -/
theorem ofText?_of_spelledBy {p : Predicate} {text : String} (h : p.toJson.SpelledBy text) :
    ofText? text = some p := by
  simp only [ofText?, Value.document_of_spelledBy h]
  exact ofJson?_eq_some_iff.2 rfl

/-- The file is one of them. -/
theorem spelledBy_text (p : Predicate) : p.toJson.SpelledBy p.text :=
  Value.spelledBy_pretty p.isExact_toJson

/-- Before the line feed at its end there is a closing bracket. -/
theorem exists_toList_text (p : Predicate) :
    ∃ body, p.text.toList = body ++ ['\n'] ∧ body.getLast? ≠ some '\n' := by
  refine ⟨p.toJson.prettyText 0, String.toList_ofList, ?_⟩
  cases p with
  | single condition => simp [toJson, condition.getLast?_prettyText]
  | all conditions => simp [toJson, Value.getLast?_prettyText_list]

/-- Predicate files are faithful.  Two predicates have one file only if they are one
predicate.  A file is a text of its predicate's value with one line feed at its end, and
from it, as from each text of that value, the predicate is read back; no other value is
read as it. -/
theorem text_faithful :
    (∀ p q : Predicate, p.text = q.text ↔ p = q) ∧
    ∀ p : Predicate,
      (∃ body, p.text.toList = body ++ ['\n'] ∧ body.getLast? ≠ some '\n') ∧
      p.toJson.SpelledBy p.text ∧ ofText? p.text = some p ∧
      (∀ text, p.toJson.SpelledBy text → ofText? text = some p) ∧
      ∀ v, ofJson? v = some p ↔ v = p.toJson := by
  have hread (p : Predicate) : ofText? p.text = some p := ofText?_of_spelledBy p.spelledBy_text
  refine ⟨fun p q => ⟨fun h => ?_, fun h => h ▸ rfl⟩, fun p => ?_⟩
  · have hp := hread p
    rw [h, hread q] at hp
    exact (Option.some.inj hp).symm
  · exact ⟨p.exists_toList_text, p.spelledBy_text, hread p, fun _ => ofText?_of_spelledBy,
      fun _ => ofJson?_eq_some_iff⟩

end Predicate

end ZonePack

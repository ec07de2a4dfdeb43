import ZonePack.Json.Skip
import ZonePack.Json.Value

/-!
# ZonePack.Json.Record

Reading values of a known form: records, lists of one kind of item, values that
may be null, strings and integers.  A record is written as an object, with its
fields in any order and other keys ignored, or as a list of its fields in the
order of their declaration.
-/

namespace ZonePack.Json

/-! ## Records -/

/-- A field of a record whose fields are gathered in a draft of type `σ`. -/
structure Field (σ : Type) where
  key : String
  /-- Whether the draft already has the field. -/
  isGiven : σ → Bool
  /-- Whether a list of fields may not end before this one. -/
  isRequired : Bool
  /-- Reads the field's value into the draft. -/
  fill : σ → Reader σ

/-- A record of type `α`, gathered in drafts of type `σ`. -/
structure Record (σ α : Type) where
  /-- What messages call it. -/
  name : String
  /-- The fields in their order, when `room` brackets may still be opened in them. -/
  fields : (room : Nat) → List (Field σ)
  blank : σ
  /-- The record of a draft; a field may be missing. -/
  build : σ → Except SchemaFault α

/-- The closing bracket of a list whose items have all been read. -/
def takeListEnd (s : List Char) : Except Fault (List Char) :=
  match skipBlanks s with
  | [] => .error (.unfinished .list)
  | c :: r =>
    if c = ']' then .ok r
    else if c = ',' ∧ (skipBlanks r).head? = some ']' then .error (.malformed .trailingComma)
    else .error (.malformed .trailingCharacters)

theorem length_takeListEnd_le {s r : List Char} (h : takeListEnd s = .ok r) :
    r.length ≤ s.length := by
  have hs := length_skipBlanks_le s
  unfold takeListEnd at h
  split at h
  · cases h
  · rename_i c t heq
    rw [heq, List.length_cons] at hs
    split at h
    · cases h
      exact Nat.le_of_lt hs
    · split at h <;> cases h

namespace Record

variable {σ α : Type}

/-- The reader for the value of a key.  A key may come once; what it may not be
is found before the colon. -/
def choose (fields : List (Field σ)) (draft : σ) (key : String) : Except Fault (Reader σ) :=
  match fields.find? fun f => f.key = key with
  | none => .ok (skipped.map fun _ => draft)
  | some f =>
    if f.isGiven draft then .error (.schema (.duplicateField key)) else .ok (f.fill draft)

/-- The fields of an object, after its opening bracket. -/
def takeObject (fields : List (Field σ)) (draft : σ) (s : List Char) :
    Except Fault (σ × List Char) :=
  Series.object.fold (fun draft => entry (choose fields draft)) true draft s

/-- The fields of a list, after its opening bracket, from the field at `index`
on; `short` is the fault of a list that ends before the given index. -/
def takeList (short : Nat → SchemaFault) (index : Nat) :
    List (Field σ) → (draft : σ) → List Char → Except Fault (σ × List Char)
  | [], draft, s => (takeListEnd s).map (draft, ·)
  | field :: fields, draft, s =>
    match Series.list.next (index = 0) s with
    | .error f => .error f
    | .ok (.close r) =>
      match (field :: fields).findIdx? (·.isRequired) with
      | some i => .error (.schema (short (index + i)))
      | none => .ok (draft, r)
    | .ok (.item t) =>
      match (field.fill draft).run t with
      | .error f => .error f
      | .ok (draft, r) => takeList short (index + 1) fields draft r

theorem length_takeList_le {short : Nat → SchemaFault} {index : Nat} {fields : List (Field σ)}
    {draft b : σ} {s r : List Char} (h : takeList short index fields draft s = .ok (b, r)) :
    r.length ≤ s.length := by
  induction fields generalizing index draft s with
  | nil =>
    obtain ⟨t, he, ht⟩ := exists_of_map_eq_ok h
    cases ht
    exact length_takeListEnd_le he
  | cons field fields ih =>
    simp only [takeList] at h
    split at h
    · cases h
    · rename_i t hn
      split at h
      · cases h
      · cases h
        exact Nat.le_of_lt (Series.list.close_lt hn)
    · rename_i t hn
      have := Series.list.item_le hn
      split at h
      · cases h
      · rename_i draft' t' hf
        have := (field.fill draft).shrinks hf
        have := ih h
        omega

/-- The fields after an opening bracket of either form. -/
def takeDraft (record : Record σ α) (form : Bracket) (room : Nat) (s : List Char) :
    Except Fault (σ × List Char) :=
  let fields := record.fields room
  match form with
  | .list => takeList (.tooShort · record.name fields.length) 0 fields record.blank s
  | .object => takeObject fields record.blank s

theorem length_takeDraft_le {record : Record σ α} {form : Bracket} {room : Nat}
    {s r : List Char} {draft : σ} (h : takeDraft record form room s = .ok (draft, r)) :
    r.length ≤ s.length := by
  cases form with
  | list => exact length_takeList_le h
  | object => exact Nat.le_of_lt (Series.length_lt_of_fold h)

/-- A record after its opening bracket, in either form. -/
def takeRest (record : Record σ α) (form : Bracket) (room : Nat) (s : List Char) :
    Except Fault (α × List Char) :=
  match record.takeDraft form room s with
  | .error f => .error f
  | .ok (draft, r) =>
    match record.build draft with
    | .error f => .error (.schema f)
    | .ok a => .ok (a, r)

theorem length_takeRest_le {record : Record σ α} {form : Bracket} {room : Nat} {s r : List Char}
    {a : α} (h : takeRest record form room s = .ok (a, r)) : r.length ≤ s.length := by
  unfold takeRest at h
  split at h
  · cases h
  · rename_i draft t hd
    split at h
    · cases h
    · cases h
      exact length_takeDraft_le hd

/-- A record, with room for `room` brackets inside each other. -/
def reader (record : Record σ α) (room : Nat) : Reader α :=
  start.extend
    (fun
      | .list, s => nested room (record.takeRest .list) s
      | .object, s => nested room (record.takeRest .object) s
      | first, _ => .error (.schema (.wrongType first.found record.name)))
    (fun {first s a r} h => by
      cases first with
      | scalar => cases h
      | list => exact length_le_of_nested length_takeRest_le h
      | object => exact length_le_of_nested length_takeRest_le h)

end Record

/-! ## Lists -/

/-- The items of a list, after its opening bracket. -/
def takeItems {α : Type} (item : Reader α) (s : List Char) : Except Fault (List α × List Char) :=
  (Series.list.fold (fun rev => item.map (· :: rev)) true [] s).map fun (rev, r) => (rev.reverse, r)

theorem length_takeItems_le {α : Type} {item : Reader α} {s r : List Char} {as : List α}
    (h : takeItems item s = .ok (as, r)) : r.length ≤ s.length := by
  obtain ⟨p, hf, hp⟩ := exists_of_map_eq_ok h
  cases hp
  exact Nat.le_of_lt (Series.length_lt_of_fold hf)

/-- A list of items, with room for `room` brackets inside each other. -/
def listOf {α : Type} (item : (room : Nat) → Reader α) (room : Nat) : Reader (List α) :=
  start.extend
    (fun
      | .list, s => nested room (fun room => takeItems (item room)) s
      | first, _ => .error (.schema (.wrongType first.found "a sequence")))
    (fun {first s as r} h => by
      cases first with
      | list => exact length_le_of_nested length_takeItems_le h
      | scalar => cases h
      | object => cases h)

/-! ## Single values -/

/-- A value, or null. -/
def nullable {α : Type} (value : Reader α) : Reader (Option α) where
  run s :=
    match skipBlanks s with
    | 'n' :: r => (takeWord "ull".toList r).map (none, ·)
    | _ => (value.map some).run s
  shrinks {s a r} h := by
    have hs := length_skipBlanks_le s
    split at h
    · rename_i t heq
      rw [heq, List.length_cons] at hs
      obtain ⟨u, hw, hu⟩ := exists_of_map_eq_ok h
      cases hu
      have := length_takeWord_le hw
      omega
    · exact Reader.shrinks _ h

/-- A string. -/
def string : Reader String :=
  start.refine fun
    | .scalar (.string s) => .ok s
    | first => .error (.schema (.wrongType first.found "a string"))

/-- A whole number of 32 bits, without a fraction or an exponent. -/
def int32 : Reader Int32 :=
  start.refine fun
    | .scalar (.number (.integer n)) =>
      if Int32.minValue.toInt ≤ n ∧ n ≤ Int32.maxValue.toInt then .ok (Int32.ofInt n)
      else .error (.schema (.outOfRange n "i32"))
    | first => .error (.schema (.wrongType first.found "i32"))

/-- The whole number that a value is.  A fraction or an exponent may be written
as long as the number is whole; an integer beyond 64 bits is a real number here. -/
def wholeOf : Value → Except SchemaFault Int64
  | .scalar (.number (.integer n)) =>
    match int64? n with
    | some k => .ok k
    | none => .error (.notWhole (.ofInt n))
  | .scalar (.number (.real x)) =>
    match x.toInt?.bind int64? with
    | some k => .ok k
    | none => .error (.notWhole x)
  | _ => .error (.noForm "NumberInput")

/-- A whole number of 64 bits.  The value is read to its end before it is
looked at. -/
def whole (room : Nat) : Reader Int64 :=
  (Value.reader room).refine fun v => (wholeOf v).mapError .schema

end ZonePack.Json

import ZonePack.Json.Text

/-!
# ZonePack.Json.Start

The first thing of a value: a scalar is read whole, of a list or an object only
the opening bracket.  So when a scalar stands in the wrong place, a fault inside
it is met before the fault that it stands there, and what is inside a misplaced
list or object does not matter.
-/

namespace ZonePack.Json

/-- A value without parts. -/
inductive Scalar where
  | null
  | boolean (value : Bool)
  | number (value : Number)
  | string (value : String)
  deriving DecidableEq, Repr

/-- The first thing of a value: all of a scalar, or the bracket of the rest. -/
inductive Start where
  | scalar (value : Scalar)
  | list
  | object
  deriving DecidableEq, Repr

/-- What a value that starts so is called when something else is wanted. -/
def Start.found : Start → Found
  | scalar .null => .null
  | scalar (.boolean b) => .boolean b
  | scalar (.number n) => .number n
  | scalar (.string s) => .string s
  | list => .list
  | object => .object

/-- The fault of a number literal where a number is wanted. -/
def Literal.ScanFault.fault : Literal.ScanFault → Fault
  | cut => .unfinished .value
  | malformed => .malformed .badNumber

/-- A number. -/
def number : Reader Number where
  run s :=
    match Literal.scan s with
    | .error f => .error f.fault
    | .ok (l, r) =>
      match l.number? with
      | some n => .ok (n, r)
      | none => .error (.malformed .numberOutOfRange)
  shrinks {s n r} h := by
    split at h
    · cases h
    · rename_i l t hl
      split at h
      · cases h
        exact Literal.length_lt_of_scan hl
      · cases h

/-- A word that stands for a scalar, after its first letter. -/
def wordRest (word : String) (value : Scalar) (s : List Char) :
    Except Fault (Start × List Char) :=
  (takeWord word.toList s).map fun r => (.scalar value, r)

theorem length_le_of_wordRest {word : String} {value : Scalar} {s r : List Char} {v : Start}
    (h : wordRest word value s = .ok (v, r)) : r.length ≤ s.length := by
  obtain ⟨t, hw, ht⟩ := exists_of_map_eq_ok h
  cases ht
  exact length_takeWord_le hw

/-- The start of a value whose first character, `c`, has been found. -/
def startAt (c : Char) (r : List Char) : Except Fault (Start × List Char) :=
  if c = '"' then (stringRest.map fun t => Start.scalar (.string t)).run r
  else if c = '[' then .ok (.list, r)
  else if c = '{' then .ok (.object, r)
  else if c = 'n' then wordRest "ull" .null r
  else if c = 't' then wordRest "rue" (.boolean true) r
  else if c = 'f' then wordRest "alse" (.boolean false) r
  else if c = '-' ∨ c.isDigit then (number.map fun n => Start.scalar (.number n)).run (c :: r)
  else .error (.malformed .valueDue)

theorem length_le_of_startAt {c : Char} {s r : List Char} {v : Start}
    (h : startAt c s = .ok (v, r)) : r.length ≤ s.length := by
  unfold startAt at h
  split at h
  · exact Nat.le_of_lt (Reader.shrinks _ h)
  split at h
  · cases h; exact Nat.le_refl _
  split at h
  · cases h; exact Nat.le_refl _
  split at h
  · exact length_le_of_wordRest h
  split at h
  · exact length_le_of_wordRest h
  split at h
  · exact length_le_of_wordRest h
  split at h
  · exact Nat.le_of_lt_succ (Reader.shrinks _ h)
  · cases h

/-- The start of a value. -/
def start : Reader Start where
  run s :=
    match skipBlanks s with
    | [] => .error (.unfinished .value)
    | c :: r => startAt c r
  shrinks {s v r} h := by
    have hs := length_skipBlanks_le s
    split at h
    · cases h
    · rename_i c t heq
      rw [heq, List.length_cons] at hs
      exact Nat.lt_of_le_of_lt (length_le_of_startAt h) hs

end ZonePack.Json

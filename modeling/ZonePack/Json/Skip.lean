import ZonePack.Json.Series

/-!
# ZonePack.Json.Skip

Skipping a value that nobody asked for.  Only its extent matters, so the scan is
laxer than reading: brackets may be nested to any depth, numbers may be beyond
every range and code units need not make characters.  Its faults differ a little
from those of reading, because an opening bracket is not matched against what
follows a comma.
-/

namespace ZonePack.Json

/-- A bracket that has been opened and not yet closed. -/
inductive Bracket where
  | list
  | object
  deriving DecidableEq, Repr

namespace Bracket

def closer : Bracket → Char
  | list => ']'
  | object => '}'

/-- The fault of a text that ends inside the bracket. -/
def cut : Bracket → Fault
  | list => .unfinished .list
  | object => .unfinished .object

/-- The fault of anything but a comma or the closing bracket after an item. -/
def separatorDue : Bracket → Fault
  | list => .malformed .listSeparatorDue
  | object => .malformed .objectSeparatorDue

/-- A key and the colon after it. -/
def takeSkippedKey (s : List Char) : Except Fault (Unit × List Char) :=
  match skipBlanks s with
  | [] => .error (.unfinished .object)
  | c :: r =>
    if c = '"' then (ignoredStringRest.bind fun _ => colon).run r
    else .error (.malformed .keyNotString)

theorem length_lt_of_takeSkippedKey {s r : List Char} {a : Unit}
    (h : takeSkippedKey s = .ok (a, r)) : r.length < s.length := by
  unfold takeSkippedKey at h
  have hs := length_skipBlanks_le s
  split at h
  · cases h
  · rename_i c t heq
    rw [heq, List.length_cons] at hs
    split at h
    · have := Reader.shrinks _ h
      omega
    · cases h

/-- The reader of a key and the colon after it. -/
def skippedKey : Reader Unit where
  run := takeSkippedKey
  shrinks := length_lt_of_takeSkippedKey

/-- The text from the next value on: in an object there is a key before it. -/
def lead : Bracket → List Char → Except Fault (List Char)
  | list, s => .ok s
  | object, s => (skippedKey.run s).map (·.2)

theorem length_lead_le {b : Bracket} {s r : List Char} (h : b.lead s = .ok r) :
    r.length ≤ s.length := by
  cases b with
  | list => cases h; exact Nat.le_refl _
  | object =>
    obtain ⟨p, hk, hp⟩ := exists_of_map_eq_ok h
    cases hp
    exact Nat.le_of_lt (skippedKey.shrinks hk)

end Bracket

/-- The start of a skipped value: none after a whole scalar, or the bracket that
has been opened. -/
def skippedStartAt (c : Char) (r : List Char) : Except Fault (Option Bracket × List Char) :=
  if c = '"' then (ignoredStringRest.map fun _ => none).run r
  else if c = '[' then .ok (some .list, r)
  else if c = '{' then .ok (some .object, r)
  else if c = 'n' then (takeWord "ull".toList r).map (none, ·)
  else if c = 't' then (takeWord "rue".toList r).map (none, ·)
  else if c = 'f' then (takeWord "alse".toList r).map (none, ·)
  else if c = '-' ∨ c.isDigit then
    match Literal.scan (c :: r) with
    | .error _ => .error (.malformed .badNumber)
    | .ok (_, t) => .ok (none, t)
  else .error (.malformed .valueDue)

theorem length_le_of_takeWord_map {word s r : List Char} {b : Option Bracket}
    (h : (takeWord word s).map (none, ·) = .ok (b, r)) : r.length ≤ s.length := by
  obtain ⟨t, hw, ht⟩ := exists_of_map_eq_ok h
  cases ht
  exact length_takeWord_le hw

theorem length_le_of_skippedStartAt {c : Char} {s r : List Char} {b : Option Bracket}
    (h : skippedStartAt c s = .ok (b, r)) : r.length ≤ s.length := by
  unfold skippedStartAt at h
  split at h
  · exact Nat.le_of_lt (Reader.shrinks _ h)
  split at h
  · cases h; exact Nat.le_refl _
  split at h
  · cases h; exact Nat.le_refl _
  split at h
  · exact length_le_of_takeWord_map h
  split at h
  · exact length_le_of_takeWord_map h
  split at h
  · exact length_le_of_takeWord_map h
  split at h
  · split at h
    · cases h
    · rename_i l t hl
      cases h
      exact Nat.le_of_lt_succ (Literal.length_lt_of_scan hl)
  · cases h

/-- The start of a skipped value, after blanks. -/
def skippedStart : Reader (Option Bracket) where
  run s :=
    match skipBlanks s with
    | [] => .error (.unfinished .value)
    | c :: r => skippedStartAt c r
  shrinks {s b r} h := by
    have hs := length_skipBlanks_le s
    split at h
    · cases h
    · rename_i c t heq
      rw [heq, List.length_cons] at hs
      exact Nat.lt_of_le_of_lt (length_le_of_skippedStartAt h) hs

/-- Skips to the end of the value around the open brackets, the innermost first;
the flag says whether a value is due next, or one has just ended. -/
def takeSkipped (isDue : Bool) (opened : List Bracket) (s : List Char) :
    Except Fault (List Char) :=
  match isDue, opened with
  | true, opened =>
    match hs : skippedStart.run s with
    | .error f => .error f
    | .ok (none, r) =>
      have := skippedStart.shrinks hs
      takeSkipped false opened r
    | .ok (some b, r) =>
      have := skippedStart.shrinks hs
      match hb : skipBlanks r with
      | [] => .error b.cut
      | c :: t =>
        have : t.length < r.length := by
          have := length_skipBlanks_le r
          rw [hb] at this
          exact this
        if c = b.closer then takeSkipped false opened t
        else match hl : b.lead (c :: t) with
          | .error f => .error f
          | .ok u =>
            have : u.length ≤ t.length + 1 := Bracket.length_lead_le hl
            takeSkipped true (b :: opened) u
  | false, [] => .ok s
  | false, b :: opened =>
    match hb : skipBlanks s with
    | [] => .error b.cut
    | c :: t =>
      have : t.length < s.length := by
        have := length_skipBlanks_le s
        rw [hb] at this
        exact this
      if c = ',' then
        match hl : b.lead t with
        | .error f => .error f
        | .ok u =>
          have := Bracket.length_lead_le hl
          takeSkipped true (b :: opened) u
      else if c = b.closer then takeSkipped false opened t
      else .error b.separatorDue
termination_by s.length

/-- A value that was due has at least one character. -/
theorem length_of_takeSkipped {isDue : Bool} {opened : List Bracket} {s r : List Char}
    (h : takeSkipped isDue opened s = .ok r) :
    r.length + (if isDue then 1 else 0) ≤ s.length := by
  fun_induction takeSkipped isDue opened s <;> grind

/-- A value of which only the extent matters. -/
def skipped : Reader Unit where
  run s := (takeSkipped true [] s).map fun r => ((), r)
  shrinks {s a r} h := by
    obtain ⟨t, hs, ht⟩ := exists_of_map_eq_ok h
    cases ht
    exact length_of_takeSkipped hs

end ZonePack.Json

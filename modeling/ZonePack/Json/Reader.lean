import ZonePack.Json.Fault

/-!
# ZonePack.Json.Reader

Readers of JSON.  A `Reader` takes a value off the front of a text, or finds a
fault; whatever it takes has at least one character, and that bound is part of
the type, so a loop over readers ends because the text gets shorter.

`Reader.document` reads a text that holds one value and nothing else.
-/

namespace ZonePack.Json

/-- A way to take a value off the front of a text. -/
structure Reader (α : Type) where
  /-- The value and the text after it, or the first fault. -/
  run : List Char → Except Fault (α × List Char)
  /-- A value has at least one character. -/
  shrinks : ∀ {s a r}, run s = .ok (a, r) → r.length < s.length

namespace Reader

variable {α β : Type}

/-- The reader that finds a fault everywhere. -/
def fail (f : Fault) : Reader α where
  run _ := .error f
  shrinks h := by cases h

/-- Reads on from where another reader ended. -/
def extend (p : Reader α) (more : α → List Char → Except Fault (β × List Char))
    (more_le : ∀ {a s b r}, more a s = .ok (b, r) → r.length ≤ s.length) : Reader β where
  run s :=
    match p.run s with
    | .error f => .error f
    | .ok (a, r) => more a r
  shrinks {s b r} h := by
    split at h
    · cases h
    · rename_i a t hp
      exact Nat.lt_of_le_of_lt (more_le h) (p.shrinks hp)

/-- One reader after another, the second chosen by the value of the first. -/
def bind (p : Reader α) (q : α → Reader β) : Reader β :=
  p.extend (fun a => (q a).run) fun h => Nat.le_of_lt ((q _).shrinks h)

/-- Reads a value and accepts or refuses it. -/
def refine (p : Reader α) (f : α → Except Fault β) : Reader β :=
  p.extend
    (fun a r => match f a with
      | .error fault => .error fault
      | .ok b => .ok (b, r))
    (fun {a s b r} h => by
      split at h
      · cases h
      · cases h
        exact Nat.le_refl _)

/-- Reads a value and transforms it. -/
def map (f : α → β) (p : Reader α) : Reader β :=
  p.refine fun a => .ok (f a)

end Reader

/-! ## Blanks and words -/

/-- Space, tab, line feed and carriage return may stand between tokens. -/
def isBlank (c : Char) : Bool :=
  c = ' ' || c = '\t' || c = '\n' || c = '\r'

/-- The text from its first character on that is not blank. -/
def skipBlanks (s : List Char) : List Char :=
  s.dropWhile isBlank

theorem length_skipBlanks_le (s : List Char) : (skipBlanks s).length ≤ s.length :=
  (List.dropWhile_suffix _).length_le

/-- The text after the rest of a word whose first letter has been seen. -/
def takeWord : List Char → List Char → Except Fault (List Char)
  | [], s => .ok s
  | _ :: _, [] => .error (.unfinished .value)
  | c :: word, d :: s => if c = d then takeWord word s else .error (.malformed .wordDue)

theorem length_takeWord_le {word s r : List Char} (h : takeWord word s = .ok r) :
    r.length ≤ s.length := by
  fun_induction takeWord word s with
  | case1 => cases h; exact Nat.le_refl _
  | case2 => cases h
  | case3 c word s ih => exact Nat.le_trans (ih h) (Nat.le_succ _)
  | case4 => cases h

/-- The text after the colon between a key and its value. -/
def takeColon (s : List Char) : Except Fault (List Char) :=
  match skipBlanks s with
  | [] => .error (.unfinished .object)
  | c :: r => if c = ':' then .ok r else .error (.malformed .colonDue)

/-- The colon between a key and its value. -/
def colon : Reader Unit where
  run s := (takeColon s).map fun r => ((), r)
  shrinks {s a r} h := by
    unfold takeColon at h
    have := length_skipBlanks_le s
    split at h
    · cases h
    · rename_i c t hs
      split at h
      · cases h
        rw [hs] at this
        exact this
      · cases h

/-! ## Documents -/

namespace Reader

/-- The value of a text that holds one value and nothing else but blanks. -/
def document {α : Type} (p : Reader α) (text : String) : Except Fault α :=
  match p.run text.toList with
  | .error f => .error f
  | .ok (a, r) => if skipBlanks r = [] then .ok a else .error (.malformed .trailingCharacters)

end Reader

end ZonePack.Json

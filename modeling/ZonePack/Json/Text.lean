import ZonePack.Json.Reader

/-!
# ZonePack.Json.Text

Strings of JSON, from the opening quote on.  A `\\u` escape is a UTF-16 code
unit: a character by itself, or one half of a pair that has to be complete.
Strings that nobody looks at are read more loosely: any four digits will do.
-/

namespace ZonePack.Json

/-! ## Strings -/

/-- The value of a hexadecimal digit. -/
def hexValue? (c : Char) : Option Nat :=
  if '0' ≤ c ∧ c ≤ '9' then some (c.toNat - '0'.toNat)
  else if 'a' ≤ c ∧ c ≤ 'f' then some (c.toNat - 'a'.toNat + 10)
  else if 'A' ≤ c ∧ c ≤ 'F' then some (c.toNat - 'A'.toNat + 10)
  else none

/-- The value of four hexadecimal digits. -/
def hexValue4? (a b c d : Char) : Option Nat := do
  return (((← hexValue? a) * 16 + (← hexValue? b)) * 16 + (← hexValue? c)) * 16 + (← hexValue? d)

/-- How many bytes a text takes in UTF-8. -/
def byteLength : List Char → Nat
  | [] => 0
  | c :: s => c.utf8Size + byteLength s

/-- The four hexadecimal digits of an escape.  The text counts as cut short only
where fewer than four bytes are left of it. -/
def codeUnit : Reader Nat where
  run s :=
    match s with
    | a :: b :: c :: d :: r =>
      match hexValue4? a b c d with
      | some n => .ok (n, r)
      | none => .error (.malformed .badEscape)
    | _ =>
      if byteLength s < 4 then .error (.unfinished .string) else .error (.malformed .badEscape)
  shrinks {s n r} h := by
    split at h
    · split at h
      · cases h
        simp only [List.length_cons]
        omega
      · cases h
    · split at h <;> cases h

/-- The first half of a pair of code units. -/
def isHighSurrogate (n : Nat) : Bool := 0xD800 ≤ n && n < 0xDC00

/-- The second half of a pair of code units. -/
def isLowSurrogate (n : Nat) : Bool := 0xDC00 ≤ n && n < 0xE000

/-- The character of a pair of code units. -/
def pairedChar (high low : Nat) : Char :=
  Char.ofNat (0x10000 + (high - 0xD800) * 0x400 + (low - 0xDC00))

/-- The second half of a pair, with its own escape mark. -/
def lowSurrogate : Reader Nat where
  run s :=
    match s with
    | [] => .error (.unfinished .string)
    | '\\' :: [] => .error (.unfinished .string)
    | '\\' :: 'u' :: r =>
      match codeUnit.run r with
      | .error f => .error f
      | .ok (n, r) => if isLowSurrogate n then .ok (n, r) else .error (.malformed .loneSurrogate)
    | _ => .error (.malformed .brokenPair)
  shrinks {s n r} h := by
    split at h
    · cases h
    · cases h
    · split at h
      · cases h
      · rename_i m t hc
        split at h
        · cases h
          have := codeUnit.shrinks hc
          simp only [List.length_cons]
          omega
        · cases h
    · cases h

/-- The character that a code unit stands for, with the second half of a pair
read after its first. -/
def unicodeEscape : Reader Char :=
  codeUnit.extend
    (fun n r =>
      if isLowSurrogate n then .error (.malformed .loneSurrogate)
      else if isHighSurrogate n then (lowSurrogate.map (pairedChar n)).run r
      else .ok (Char.ofNat n, r))
    (fun {n s c r} h => by
      split at h
      · cases h
      · split at h
        · exact Nat.le_of_lt ((lowSurrogate.map (pairedChar n)).shrinks h)
        · cases h
          exact Nat.le_refl _)

/-- The characters with an escape of one letter. -/
def letterEscape? (c : Char) : Option Char :=
  if c = '"' ∨ c = '\\' ∨ c = '/' then some c
  else if c = 'b' then some '\x08'
  else if c = 'f' then some '\x0c'
  else if c = 'n' then some '\n'
  else if c = 'r' then some '\r'
  else if c = 't' then some '\t'
  else none

/-- What follows a backslash: a letter, or `u` and what `unicode` reads. -/
def escapeWith (unicode : Reader Char) : Reader Char where
  run s :=
    match s with
    | [] => .error (.unfinished .string)
    | c :: r =>
      if c = 'u' then unicode.run r
      else match letterEscape? c with
        | some d => .ok (d, r)
        | none => .error (.malformed .badEscape)
  shrinks {s d r} h := by
    split at h
    · cases h
    · split at h
      · exact Nat.lt_succ_of_lt (unicode.shrinks h)
      · split at h
        · cases h
          exact Nat.lt_succ_self _
        · cases h

/-- The rest of a string after its opening quote; `rev` holds the characters so
far, the last one first. -/
def takeString (unicode : Reader Char) (rev : List Char) (s : List Char) :
    Except Fault (String × List Char) :=
  match s with
  | [] => .error (.unfinished .string)
  | c :: r =>
    if c = '"' then .ok (String.ofList rev.reverse, r)
    else if c = '\\' then
      match h : (escapeWith unicode).run r with
      | .error f => .error f
      | .ok (d, t) =>
        have : t.length < r.length := (escapeWith unicode).shrinks h
        takeString unicode (d :: rev) t
    else if c.toNat < 0x20 then .error (.malformed .controlCharacter)
    else takeString unicode (c :: rev) r
termination_by s.length

theorem length_lt_of_takeString {unicode : Reader Char} {rev s r : List Char} {t : String}
    (h : takeString unicode rev s = .ok (t, r)) : r.length < s.length := by
  fun_induction takeString unicode rev s with
  | case1 => cases h
  | case2 => cases h; exact Nat.lt_succ_self _
  | case3 => cases h
  | case4 rev r' _ d u _ hu ih =>
    have := ih h
    simp only [List.length_cons]
    omega
  | case5 => cases h
  | case6 rev c r' _ _ _ ih => exact Nat.lt_succ_of_lt (ih h)

/-- The rest of a string after its opening quote. -/
def stringRest : Reader String where
  run := takeString unicodeEscape []
  shrinks := length_lt_of_takeString

/-- The rest of a string that nobody looks at: code units need not make
characters, and each stands for the replacement character. -/
def ignoredStringRest : Reader Unit where
  run s := (takeString (codeUnit.map fun _ => '\ufffd') [] s).map fun (_, r) => ((), r)
  shrinks {s a r} h := by
    obtain ⟨p, hs, hp⟩ := exists_of_map_eq_ok h
    cases hp
    exact length_lt_of_takeString hs

end ZonePack.Json

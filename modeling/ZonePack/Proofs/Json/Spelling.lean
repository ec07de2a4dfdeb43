import Mathlib.Data.List.Forall2
import ZonePack.Json.Value

/-!
# ZonePack.Proofs.Json.Spelling

How JSON values are written, by whoever writes them.  `Value.Spelled` relates a
value to each of its texts: blanks may stand before every token, a character of a
string may be written as itself or by an escape, a real number by any literal for
it.  Only an integer has one text, its decimal one.

Nothing here says how a text is read.
-/

namespace ZonePack.Json

/-! ## Blanks -/

/-- Text that may stand between tokens. -/
def IsBlanks (s : List Char) : Prop :=
  ∀ c ∈ s, c = ' ' ∨ c = '\t' ∨ c = '\n' ∨ c = '\r'

theorem IsBlanks.nil : IsBlanks [] := by
  intro c hc
  cases hc

theorem IsBlanks.singleton {c : Char} (h : c = ' ' ∨ c = '\t' ∨ c = '\n' ∨ c = '\r') :
    IsBlanks [c] := by
  intro d hd
  rwa [List.mem_singleton.1 hd]

theorem IsBlanks.append {a b : List Char} (ha : IsBlanks a) (hb : IsBlanks b) :
    IsBlanks (a ++ b) :=
  fun c hc => (List.mem_append.1 hc).elim (ha c) (hb c)

/-! ## Strings -/

/-- A hexadecimal digit of either case. -/
def IsHexDigit (value : Nat) (c : Char) : Prop :=
  value < 16 ∧ (c = value.digitChar ∨ c = value.digitChar.toUpper)

/-- Four hexadecimal digits. -/
inductive SpelledUnit : Nat → List Char → Prop where
  | mk {k₁ k₂ k₃ k₄ : Nat} {a b c d : Char} :
    IsHexDigit k₁ a → IsHexDigit k₂ b → IsHexDigit k₃ c → IsHexDigit k₄ d →
    SpelledUnit (((k₁ * 16 + k₂) * 16 + k₃) * 16 + k₄) [a, b, c, d]

/-- The escapes of one letter. -/
def letterEscapes : List (Char × Char) :=
  [('"', '"'), ('\\', '\\'), ('/', '/'), ('b', '\x08'), ('f', '\x0c'), ('n', '\n'),
    ('r', '\r'), ('t', '\t')]

/-- A character between quotes: as itself, by a letter, by its code point, or by
the two halves of its code point. -/
inductive SpelledChar : Char → List Char → Prop where
  | plain {c : Char} : c ≠ '"' → c ≠ '\\' → 0x20 ≤ c.toNat → SpelledChar c [c]
  | letter {c l : Char} : (l, c) ∈ letterEscapes → SpelledChar c ['\\', l]
  | unit {c : Char} {s : List Char} : SpelledUnit c.toNat s → SpelledChar c ('\\' :: 'u' :: s)
  | pair {c : Char} {high low : Nat} {s t : List Char} :
    SpelledUnit high s → SpelledUnit low t →
    0xD800 ≤ high → high < 0xDC00 → 0xDC00 ≤ low → low < 0xE000 →
    c.toNat = 0x10000 + (high - 0xD800) * 0x400 + (low - 0xDC00) →
    SpelledChar c ('\\' :: 'u' :: (s ++ '\\' :: 'u' :: t))

/-- Characters between quotes. -/
inductive SpelledChars : List Char → List Char → Prop where
  | nil : SpelledChars [] []
  | cons {c : Char} {cs s t : List Char} :
    SpelledChar c s → SpelledChars cs t → SpelledChars (c :: cs) (s ++ t)

/-- Plain characters may be written as they are. -/
theorem SpelledChars.of_plain {cs : List Char}
    (h : ∀ c ∈ cs, c ≠ '"' ∧ c ≠ '\\' ∧ 0x20 ≤ c.toNat) : SpelledChars cs cs := by
  induction cs with
  | nil => exact .nil
  | cons c cs ih =>
    rw [List.forall_mem_cons] at h
    exact .cons (.plain h.1.1 h.1.2.1 h.1.2.2) (ih h.2)

/-- A string with its quotes. -/
inductive SpelledString : String → List Char → Prop where
  | mk {text : String} {s : List Char} :
    SpelledChars text.toList s → SpelledString text ('"' :: (s ++ ['"']))

/-! ## Numbers -/

/-- One digit or more. -/
def IsDigits (s : List Char) : Prop := s ≠ [] ∧ ∀ c ∈ s, c.isDigit

namespace Literal

/-- The fraction of a literal. -/
inductive SpelledFraction : Option (List Char) → List Char → Prop where
  | none : SpelledFraction none []
  | some {digits : List Char} : IsDigits digits → SpelledFraction (some digits) ('.' :: digits)

/-- The exponent of a literal. -/
inductive SpelledExponent : Option (Bool × List Char) → List Char → Prop where
  | none : SpelledExponent none []
  | bare {mark : Char} {digits : List Char} : mark = 'e' ∨ mark = 'E' → IsDigits digits →
    SpelledExponent (some (false, digits)) (mark :: digits)
  | plus {mark : Char} {digits : List Char} : mark = 'e' ∨ mark = 'E' → IsDigits digits →
    SpelledExponent (some (false, digits)) (mark :: '+' :: digits)
  | minus {mark : Char} {digits : List Char} : mark = 'e' ∨ mark = 'E' → IsDigits digits →
    SpelledExponent (some (true, digits)) (mark :: '-' :: digits)

/-- A number literal; its whole part has no zero before another digit. -/
inductive Spelled : Literal → List Char → Prop where
  | mk {negative : Bool} {whole f e : List Char} {fraction : Option (List Char)}
      {exponent : Option (Bool × List Char)} :
    IsDigits whole → (whole.head? = some '0' → whole = ['0']) →
    SpelledFraction fraction f → SpelledExponent exponent e →
    Spelled ⟨negative, whole, fraction, exponent⟩
      ((if negative then ['-'] else []) ++ (whole ++ (f ++ e)))

end Literal

/-! ## Values -/

/-- A scalar, without blanks. -/
inductive Scalar.Spelled : Scalar → List Char → Prop where
  | null : Spelled .null "null".toList
  | boolean {b : Bool} : Spelled (.boolean b) (toString b).toList
  | integer {n : Int} : Int64.minValue.toInt ≤ n → n < UInt64.size →
    Spelled (.number (.integer n)) n.repr.toList
  | real {x : Binary64} {l : Literal} {s : List Char} :
    l.Spelled s → l.number? = some (.real x) → Spelled (.number (.real x)) s
  | string {text : String} {s : List Char} : SpelledString text s → Spelled (.string text) s

/-- What stands before an item: nothing before the first one, a comma before the others. -/
inductive IsSeparator : (isFirst : Bool) → List Char → Prop where
  | first : IsSeparator true []
  | comma {blanks : List Char} : IsBlanks blanks → IsSeparator false (blanks ++ [','])

/-- Items up to the closing bracket, each spelled as `spelled` says. -/
inductive Joined {α : Type} (spelled : α → List Char → Prop) :
    (isFirst : Bool) → List α → List Char → Prop where
  | nil {isFirst : Bool} {blanks : List Char} : IsBlanks blanks → Joined spelled isFirst [] blanks
  | cons {isFirst : Bool} {sep t s : List Char} {a : α} {as : List α} :
    IsSeparator isFirst sep → spelled a t → Joined spelled false as s →
    Joined spelled isFirst (a :: as) (sep ++ (t ++ s))

/-- An entry of an object, with blanks before its tokens. -/
inductive SpelledEntry (spelled : Value → List Char → Prop) :
    String × Value → List Char → Prop where
  | mk {key : String} {v : Value} {blanks k blanks' s : List Char} :
    IsBlanks blanks → SpelledString key k → IsBlanks blanks' → spelled v s →
    SpelledEntry spelled (key, v) (blanks ++ (k ++ (blanks' ++ ':' :: s)))

namespace Value

/-- A value, with blanks before its tokens. -/
inductive Spelled : Value → List Char → Prop where
  | scalar {v : Scalar} {blanks s : List Char} :
    IsBlanks blanks → v.Spelled s → Spelled (.scalar v) (blanks ++ s)
  | list {items : List Value} {blanks s : List Char} :
    IsBlanks blanks → Joined Spelled true items s →
    Spelled (.list items) (blanks ++ '[' :: (s ++ [']']))
  | object {entries : List (String × Value)} {blanks s : List Char} :
    IsBlanks blanks → Joined (SpelledEntry Spelled) true entries s →
    Spelled (.object entries) (blanks ++ '{' :: (s ++ ['}']))

/-- A text that holds a value and nothing else but blanks. -/
def SpelledBy (v : Value) (text : String) : Prop :=
  ∃ s blanks, v.Spelled s ∧ IsBlanks blanks ∧ text.toList = s ++ blanks

end Value

/-! ## Objects of a known form -/

/-- A member that an object may have. -/
structure Member where
  key : String
  /-- Whether an object may do without it. -/
  isOptional : Bool
  /-- The values that it may have. -/
  holds : Value → Prop

namespace Member

variable {α : Type}

/-- A member that every object has. -/
def required (key : String) (holds : Value → Prop) : Member := ⟨key, false, holds⟩

/-- A member that is left out or null where there is nothing to write. -/
def nullable (key : String) (written : α → Value → Prop) (a : Option α) : Member where
  key := key
  isOptional := a.isNone
  holds v :=
    match a with
    | none => v = .null
    | some a => written a v

/-- A member that is a list; it may be left out where it is empty. -/
def items (key : String) (written : α → Value → Prop) (as : List α) : Member where
  key := key
  isOptional := as.isEmpty
  holds v := ∃ vs, v = .list vs ∧ List.Forall₂ (fun v a => written a v) vs as

@[simp] theorem key_required (key : String) (holds : Value → Prop) :
    (required key holds).key = key := rfl

theorem key_mem_of_required {key : String} {holds : Value → Prop} {keys : List String}
    (h : (required key holds).isOptional ∨ (required key holds).key ∈ keys) : key ∈ keys := by
  simpa [required] using h

@[simp] theorem key_nullable (key : String) (written : α → Value → Prop) (a : Option α) :
    (nullable key written a).key = key := rfl

@[simp] theorem key_items (key : String) (written : α → Value → Prop) (as : List α) :
    (items key written as).key = key := rfl

end Member

/-- An object with some members, in any order, each of them once. -/
def Value.IsObjectOf (members : List Member) (v : Value) : Prop :=
  ∃ entries, v = .object entries ∧ (entries.map (·.1)).Nodup ∧
    (∀ e ∈ entries, ∃ m ∈ members, m.key = e.1 ∧ m.holds e.2) ∧
    ∀ m ∈ members, m.isOptional ∨ m.key ∈ entries.map (·.1)

end ZonePack.Json

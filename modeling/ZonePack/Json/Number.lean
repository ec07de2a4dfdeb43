import ZonePack.Binary64.Shortest

/-!
# ZonePack.Json.Number

Number literals of JSON, and the numbers that they stand for.  A literal is
scanned first (`Literal.scan`) and evaluated as a whole (`Literal.number?`).

* A literal without fraction and exponent that fits 64 bits is an exact integer:
  from `-2^63` to `2^64 - 1`.  `-0` is not one, for it keeps its sign.
* Every other literal is a binary64 number.  Its digits go into a significand
  of 64 bits for as long as they fit; whole digits after that count as zeros,
  fraction digits after that are dropped.  The significand is rounded to
  binary64 and then scaled by the power of ten.
-/

namespace ZonePack.Json

/-! ## Numbers -/

/-- The number of 64 bits that an integer is, if it has no more. -/
def int64? (n : Int) : Option Int64 :=
  if Int64.minValue.toInt ≤ n ∧ n ≤ Int64.maxValue.toInt then some (Int64.ofInt n) else none

/-- Every number of 64 bits is found again. -/
@[simp] theorem int64?_toInt (n : Int64) : int64? n.toInt = some n := by
  have := Int64.minValue_le_toInt n
  have := Int64.toInt_le n
  simp_all [int64?, Int64.ofInt_toInt]

/-- Nothing else is. -/
theorem int64?_eq_some_iff {n : Int} {k : Int64} : int64? n = some k ↔ n = k.toInt := by
  constructor
  · intro h
    rw [int64?] at h
    split at h
    · rename_i hn
      cases h
      have hmin : Int64.minValue.toInt = -2 ^ 63 := by decide
      have hmax : Int64.maxValue.toInt = 2 ^ 63 - 1 := by decide
      exact (Int64.toInt_ofInt_of_le (by omega) (by omega)).symm
    · cases h
  · rintro rfl
    exact int64?_toInt k

/-- A number of a document. -/
inductive Number where
  /-- An integer from `-2^63` to `2^64 - 1`, kept exactly. -/
  | integer (value : Int)
  | real (value : Binary64)
  deriving DecidableEq, Repr

namespace Number

/-- The layout of reals in JSON: always with a fraction or an exponent, and
positional while the leading digit stands between `10^-5` and `10^15`. -/
def layout : DecimalLayout := ⟨.even, true, some (-5, 15)⟩

/-- The number as JSON. -/
def text : Number → String
  | integer n => n.repr
  | real x => layout.text x

end Number

/-! ## Literals -/

/-- What succeeds after a transformation has succeeded before it. -/
theorem exists_of_map_eq_ok {ε α β : Type} {f : α → β} {x : Except ε α} {b : β}
    (h : x.map f = .ok b) : ∃ a, x = .ok a ∧ f a = b := by
  cases x with
  | error e => cases h
  | ok a => exact ⟨a, rfl, Except.ok.inj h⟩

@[simp] theorem mapError_error {ε ε' α : Type} (f : ε → ε') (e : ε) :
    (Except.error e : Except ε α).mapError f = .error (f e) := rfl

@[simp] theorem mapError_ok {ε ε' α : Type} (f : ε → ε') (a : α) :
    (Except.ok a : Except ε α).mapError f = .ok a := rfl

/-- A success can be told without looking at the error that there might have been. -/
theorem eq_ok_of_toOption {ε α : Type} {x : Except ε α} {a : α} (h : x.toOption = some a) :
    x = .ok a := by
  cases x with
  | error e => cases h
  | ok b => exact congrArg _ (Option.some.inj h)

/-- A number literal, by its parts. -/
structure Literal where
  negative : Bool
  /-- The digits before the point: at least one, and no leading zero. -/
  whole : List Char
  /-- The digits after the point: at least one, if there is a point. -/
  fraction : Option (List Char)
  /-- Whether the exponent is negative, and its digits: at least one. -/
  exponent : Option (Bool × List Char)
  deriving DecidableEq, Repr

namespace Literal

/-- What is wrong with a number literal. -/
inductive ScanFault where
  /-- The text ends where a digit is due. -/
  | cut
  /-- Something else stands where a digit is due, or a digit where none may be. -/
  | malformed
  deriving DecidableEq, Repr

/-- Whether a minus sign comes next, and the text after it. -/
def scanMinus (s : List Char) : Bool × List Char :=
  match s with
  | '-' :: r => (true, r)
  | _ => (false, s)

/-- Whether a minus sign comes next, and the text after a sign of either kind. -/
def scanSign (s : List Char) : Bool × List Char :=
  match s with
  | '-' :: r => (true, r)
  | '+' :: r => (false, r)
  | _ => (false, s)

/-- One digit or more from the front of a text. -/
def scanDigits (s : List Char) : Except ScanFault (List Char × List Char) :=
  match s with
  | [] => .error .cut
  | c :: r =>
    if c.isDigit then .ok (c :: r.takeWhile Char.isDigit, r.dropWhile Char.isDigit)
    else .error .malformed

/-- The whole part: a zero alone, or digits that start with another one. -/
def scanWhole (s : List Char) : Except ScanFault (List Char × List Char) :=
  match scanDigits s with
  | .error f => .error f
  | .ok (digits, r) =>
    if 1 < digits.length ∧ digits.head? = some '0' then .error .malformed else .ok (digits, r)

/-- The fraction, if a point comes next. -/
def scanFraction (s : List Char) : Except ScanFault (Option (List Char) × List Char) :=
  match s with
  | '.' :: r => (scanDigits r).map fun (digits, r) => (some digits, r)
  | _ => .ok (none, s)

/-- The exponent, if its mark comes next. -/
def scanExponent (s : List Char) : Except ScanFault (Option (Bool × List Char) × List Char) :=
  match s with
  | [] => .ok (none, [])
  | c :: r =>
    if c = 'e' ∨ c = 'E' then
      (scanDigits (scanSign r).2).map fun (digits, rest) => (some ((scanSign r).1, digits), rest)
    else
      .ok (none, s)

/-- A literal from the front of a text, and the text after it. -/
def scan (s : List Char) : Except ScanFault (Literal × List Char) := do
  let (whole, rest) ← scanWhole (scanMinus s).2
  let (fraction, rest) ← scanFraction rest
  let (exponent, rest) ← scanExponent rest
  return (⟨(scanMinus s).1, whole, fraction, exponent⟩, rest)

/-! ## Evaluation -/

/-- Significands stay below this limit. -/
def significandLimit : Nat := UInt64.size

/-- Appends digits to a significand while it stays in its limit; also the digits
that did not fit. -/
def absorb (significand : Nat) : List Char → Nat × List Char
  | [] => (significand, [])
  | c :: r =>
    let next := 10 * significand + (c.toNat - '0'.toNat)
    if next < significandLimit then absorb next r else (significand, c :: r)

/-- The exponent that is written. -/
def exponentValue (l : Literal) : Int :=
  match l.exponent with
  | none => 0
  | some (negative, digits) =>
    let n : Int := Nat.ofDigitChars 10 digits 0
    if negative then -n else n

/-- The significand and exponent of ten that a literal is evaluated from. -/
def parts (l : Literal) : Nat × Int :=
  let (significand, late) := absorb 0 l.whole
  let fraction := l.fraction.getD []
  let (significand, dropped) := absorb significand fraction
  let used := fraction.length - dropped.length
  (significand, l.exponentValue + late.length - used)

/-- The number that a literal stands for; none when it is beyond binary64. -/
def number? (l : Literal) : Option Number :=
  let magnitude := Nat.ofDigitChars 10 l.whole 0
  let isExact := l.fraction = none ∧ l.exponent = none ∧
    if l.negative then 0 < magnitude ∧ 2 * magnitude ≤ UInt64.size else magnitude < UInt64.size
  if isExact then
    some (.integer (if l.negative then -magnitude else magnitude))
  else
    let (significand, exponent) := l.parts
    (Binary64.ofDecimal? l.negative significand exponent).map .real

/-! ## What a scan takes -/

theorem length_scanMinus_le (s : List Char) : (scanMinus s).2.length ≤ s.length := by
  unfold scanMinus
  split <;> simp

theorem length_scanSign_le (s : List Char) : (scanSign s).2.length ≤ s.length := by
  unfold scanSign
  split <;> simp

theorem length_lt_of_scanDigits {s ds r : List Char} (h : scanDigits s = .ok (ds, r)) :
    r.length < s.length := by
  unfold scanDigits at h
  split at h
  · cases h
  · split at h
    · cases h
      exact Nat.lt_succ_of_le (List.dropWhile_suffix _).length_le
    · cases h

theorem length_lt_of_scanWhole {s ds r : List Char} (h : scanWhole s = .ok (ds, r)) :
    r.length < s.length := by
  unfold scanWhole at h
  split at h
  · cases h
  · rename_i hd
    split at h
    · cases h
    · cases h
      exact length_lt_of_scanDigits hd

theorem length_le_of_scanFraction {s r : List Char} {f : Option (List Char)}
    (h : scanFraction s = .ok (f, r)) : r.length ≤ s.length := by
  unfold scanFraction at h
  split at h
  · obtain ⟨p, hd, hp⟩ := exists_of_map_eq_ok h
    cases hp
    exact Nat.le_succ_of_le (Nat.le_of_lt (length_lt_of_scanDigits hd))
  · cases h
    exact Nat.le_refl _

theorem length_le_of_scanExponent {s r : List Char} {e : Option (Bool × List Char)}
    (h : scanExponent s = .ok (e, r)) : r.length ≤ s.length := by
  unfold scanExponent at h
  split at h
  · cases h
    exact Nat.le_refl _
  · rename_i c t
    split at h
    · obtain ⟨p, hd, hp⟩ := exists_of_map_eq_ok h
      cases hp
      have := length_lt_of_scanDigits hd
      have := length_scanSign_le t
      simp only [List.length_cons]
      omega
    · cases h
      exact Nat.le_refl _

/-- A literal has at least one character. -/
theorem length_lt_of_scan {s r : List Char} {l : Literal} (h : scan s = .ok (l, r)) :
    r.length < s.length := by
  unfold scan at h
  cases hw : scanWhole (scanMinus s).2 with
  | error e => simp [hw, bind, Except.bind] at h
  | ok w =>
    cases hf : scanFraction w.2 with
    | error e => simp [hw, hf, bind, Except.bind] at h
    | ok f =>
      cases he : scanExponent f.2 with
      | error e => simp [hw, hf, he, bind, Except.bind] at h
      | ok e =>
        simp only [hw, hf, he, bind, Except.bind, pure, Except.pure, Except.ok.injEq,
          Prod.mk.injEq] at h
        have := length_scanMinus_le s
        have := length_lt_of_scanWhole hw
        have := length_le_of_scanFraction hf
        have := length_le_of_scanExponent he
        simp only [← h.2]
        omega

end Literal

end ZonePack.Json

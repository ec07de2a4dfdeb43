import ZonePack.Json.Series

/-!
# ZonePack.Json.Value

JSON values as trees: the entries of an object stay in the order of the text,
and a key may come twice.  `Value.reader` reads a value, `Value.pretty` writes
one over several lines.
-/

namespace ZonePack.Json

/-- A JSON value. -/
inductive Value where
  | scalar (value : Scalar)
  | list (items : List Value)
  | object (entries : List (String × Value))

namespace Value

def null : Value := .scalar .null

def string (s : String) : Value := .scalar (.string s)

def integer (n : Int) : Value := .scalar (.number (.integer n))

/-! ## Reading -/

/-- One entry, added to the entries before it, the last one first. -/
def entryReader (value : Reader Value) (rev : List (String × Value)) :
    Reader (List (String × Value)) :=
  entry fun key => .ok (value.map fun v => (key, v) :: rev)

/-- The items of a list, after its opening bracket. -/
def takeItems (value : Reader Value) (s : List Char) : Except Fault (Value × List Char) :=
  (Series.list.fold (fun rev => value.map (· :: rev)) true [] s).map
    fun (rev, r) => (.list rev.reverse, r)

/-- The entries of an object, after its opening bracket. -/
def takeEntries (value : Reader Value) (s : List Char) : Except Fault (Value × List Char) :=
  (Series.object.fold (entryReader value) true [] s).map
    fun (rev, r) => (.object rev.reverse, r)

theorem length_le_of_takeItems {value : Reader Value} {s r : List Char} {v : Value}
    (h : takeItems value s = .ok (v, r)) : r.length ≤ s.length := by
  obtain ⟨p, hf, hp⟩ := exists_of_map_eq_ok h
  cases hp
  exact Nat.le_of_lt (Series.length_lt_of_fold hf)

theorem length_le_of_takeEntries {value : Reader Value} {s r : List Char} {v : Value}
    (h : takeEntries value s = .ok (v, r)) : r.length ≤ s.length := by
  obtain ⟨p, hf, hp⟩ := exists_of_map_eq_ok h
  cases hp
  exact Nat.le_of_lt (Series.length_lt_of_fold hf)

/-- A value that may open `room` brackets inside each other. -/
def reader : Nat → Reader Value
  | 0 => start.refine fun
    | .scalar v => .ok (.scalar v)
    | _ => .error (.malformed .tooDeep)
  | room + 1 =>
    start.extend
      (fun
        | .scalar v, s => .ok (.scalar v, s)
        | .list, s => takeItems (reader room) s
        | .object, s => takeEntries (reader room) s)
      (fun {first s v r} h => by
        cases first with
        | scalar => cases h; exact Nat.le_refl _
        | list => exact length_le_of_takeItems h
        | object => exact length_le_of_takeEntries h)

/-! ## Writing -/

/-- A control character as an escape of four digits. -/
def controlEscape (n : Nat) : List Char :=
  let digits := Nat.toDigits 16 n
  ['\\', 'u'] ++ List.replicate (4 - digits.length) '0' ++ digits

/-- A character between quotes. -/
def escaped (c : Char) : List Char :=
  if c = '"' ∨ c = '\\' then ['\\', c]
  else if c = '\x08' then ['\\', 'b']
  else if c = '\x0c' then ['\\', 'f']
  else if c = '\n' then ['\\', 'n']
  else if c = '\r' then ['\\', 'r']
  else if c = '\t' then ['\\', 't']
  else if c.toNat < 0x20 then controlEscape c.toNat
  else [c]

/-- A string between quotes. -/
def stringText (s : String) : List Char :=
  '"' :: s.toList.flatMap escaped ++ ['"']

/-- A scalar, without blanks. -/
def scalarText : Scalar → List Char
  | .null => "null".toList
  | .boolean b => (toString b).toList
  | .number n => n.text.toList
  | .string s => stringText s

/-- A new line at some depth, two blanks for each bracket that is open. -/
def newLine (depth : Nat) : List Char :=
  '\n' :: List.replicate (2 * depth) ' '

mutual

/-- A value over several lines, inside `depth` brackets. -/
def prettyText (depth : Nat) : Value → List Char
  | .scalar v => scalarText v
  | .list [] => ['[', ']']
  | .list (v :: vs) =>
    '[' :: newLine (depth + 1) ++ prettyText (depth + 1) v ++ prettyItems (depth + 1) vs ++
      newLine depth ++ [']']
  | .object [] => ['{', '}']
  | .object ((key, v) :: es) =>
    '{' :: newLine (depth + 1) ++ stringText key ++ [':', ' '] ++ prettyText (depth + 1) v ++
      prettyEntries (depth + 1) es ++ newLine depth ++ ['}']

/-- The items after the first, each on its own line. -/
def prettyItems (depth : Nat) : List Value → List Char
  | [] => []
  | v :: vs => ',' :: newLine depth ++ prettyText depth v ++ prettyItems depth vs

/-- The entries after the first, each on its own line. -/
def prettyEntries (depth : Nat) : List (String × Value) → List Char
  | [] => []
  | (key, v) :: es =>
    ',' :: newLine depth ++ stringText key ++ [':', ' '] ++ prettyText depth v ++
      prettyEntries depth es

end

/-- A value over several lines, with a line feed at the end. -/
def pretty (v : Value) : String :=
  String.ofList (prettyText 0 v ++ ['\n'])

end Value

end ZonePack.Json

import ZonePack.Json.Number
import ZonePack.Text.Quoted

/-!
# ZonePack.Json.Fault

What can be wrong with a document, and the message for it.  A document is read
in one pass, so the fault that is met first, from left to right, is the one
that is reported, whether it is in the syntax or in what the schema wants.
-/

namespace ZonePack.Json

/-- What a text that ends too early is in the middle of. -/
inductive Unfinished where
  | value
  | list
  | object
  | string
  deriving DecidableEq, Repr

/-- A breach of the syntax. -/
inductive SyntaxFault where
  | colonDue
  | listSeparatorDue
  | objectSeparatorDue
  | wordDue
  | valueDue
  | badEscape
  | badNumber
  | numberOutOfRange
  | controlCharacter
  | keyNotString
  | loneSurrogate
  | brokenPair
  | trailingComma
  | trailingCharacters
  | tooDeep
  deriving DecidableEq, Repr

/-- What was found where the schema wants something else. -/
inductive Found where
  | null
  | boolean (value : Bool)
  | number (value : Number)
  | string (value : String)
  | list
  | object
  deriving DecidableEq, Repr

/-- A breach of the schema. -/
inductive SchemaFault where
  | wrongType (found : Found) (wanted : String)
  /-- An integer that the wanted integer type does not hold. -/
  | outOfRange (value : Int) (wanted : String)
  /-- A list that ends before all the required fields. -/
  | tooShort (length : Nat) (record : String) (fields : Nat)
  | missingField (key : String)
  | duplicateField (key : String)
  /-- A number that is not whole or not in range. -/
  | notWhole (value : Binary64)
  /-- A value of none of the forms that are allowed. -/
  | noForm (wanted : String)
  deriving DecidableEq, Repr

/-- What is wrong with a document. -/
inductive Fault where
  | unfinished (what : Unfinished)
  | malformed (fault : SyntaxFault)
  | schema (fault : SchemaFault)
  deriving DecidableEq, Repr

/-! ## Messages -/

namespace Unfinished

def message : Unfinished → String
  | value => "EOF while parsing a value"
  | list => "EOF while parsing a list"
  | object => "EOF while parsing an object"
  | string => "EOF while parsing a string"

end Unfinished

namespace SyntaxFault

def message : SyntaxFault → String
  | colonDue => "expected `:`"
  | listSeparatorDue => "expected `,` or `]`"
  | objectSeparatorDue => "expected `,` or `\x7d`"
  | wordDue => "expected ident"
  | valueDue => "expected value"
  | badEscape => "invalid escape"
  | badNumber => "invalid number"
  | numberOutOfRange => "number out of range"
  | controlCharacter => "control character (\\u0000-\\u001F) found while parsing a string"
  | keyNotString => "key must be a string"
  | loneSurrogate => "lone leading surrogate in hex escape"
  | brokenPair => "unexpected end of hex escape"
  | trailingComma => "trailing comma"
  | trailingCharacters => "trailing characters"
  | tooDeep => "recursion limit exceeded"

end SyntaxFault

namespace Found

/-- Values are named with their contents, lists and objects without. -/
def message : Found → String
  | null => "null"
  | boolean b => "boolean `" ++ toString b ++ "`"
  | number (.integer n) => "integer `" ++ n.repr ++ "`"
  | number (.real x) => "floating point `" ++ (Number.real x).text ++ "`"
  | string s => "string " ++ Text.quoted s
  | list => "sequence"
  | object => "map"

end Found

namespace SchemaFault

/-- The layout of a number that should have been whole: no exponent, and no
fraction where there is none. -/
def wholeLayout : DecimalLayout := ⟨.away, false, none⟩

def message : SchemaFault → String
  | wrongType found wanted => "invalid type: " ++ found.message ++ ", expected " ++ wanted
  | outOfRange n wanted => "invalid value: integer `" ++ n.repr ++ "`, expected " ++ wanted
  | tooShort n record fields =>
    "invalid length " ++ n.repr ++ ", expected " ++ record ++ " with " ++ fields.repr ++ " elements"
  | missingField key => "missing field `" ++ key ++ "`"
  | duplicateField key => "duplicate field `" ++ key ++ "`"
  | notWhole x => "expected a whole number, found " ++ wholeLayout.text x
  | noForm wanted => "data did not match any variant of untagged enum " ++ wanted

end SchemaFault

namespace Fault

/-- The message for a fault, without its place in the document. -/
def message : Fault → String
  | unfinished what => what.message
  | malformed fault => fault.message
  | schema fault => fault.message

end Fault

end ZonePack.Json

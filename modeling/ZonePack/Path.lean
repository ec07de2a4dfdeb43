/-!
# ZonePack.Path

Paths of files, as text with `/` between names.  Two views of a path matter:

* `Path.components` is what a path says by itself.  Repeated and trailing
  slashes and all `.` but a leading one say nothing; `..` stays.  Two paths are
  alike (`Path.Alike`) when they have the same components.
* `Path.steps` is the way that a path leads through a tree of files, where `.`
  and a trailing slash ask for a directory.
-/

namespace ZonePack

/-- A path, relative unless it starts with `/`. -/
structure Path where
  text : String
  deriving DecidableEq, Repr

namespace Path

/-- The pieces of a text between slashes; at least one, and they may be empty. -/
def splitSlash : List Char → List (List Char)
  | [] => [[]]
  | c :: r =>
    if c = '/' then [] :: splitSlash r
    else match splitSlash r with
      | [] => [[c]]
      | piece :: pieces => (c :: piece) :: pieces

/-- There is always a first piece. -/
theorem splitSlash_ne_nil (s : List Char) : splitSlash s ≠ [] := by
  fun_cases splitSlash s <;> simp

/-- Whether the path ends in a slash, so that only a directory can be meant. -/
def asksForDir (p : Path) : Bool :=
  p.text.toList.getLast? = some '/'

/-- Whether the path starts at the top of all files. -/
def isAbsolute (p : Path) : Bool :=
  p.text.toList.head? = some '/'

/-- The relative path `q` inside the directory `p`. -/
def join (p q : Path) : Path :=
  if p.text = "" ∨ p.asksForDir then ⟨p.text ++ q.text⟩ else ⟨p.text ++ "/" ++ q.text⟩

/-! ## Components -/

/-- What a path says, piece by piece. -/
inductive Component where
  /-- A leading slash. -/
  | root
  /-- A leading `.`. -/
  | here
  /-- Two dots. -/
  | up
  | name (text : String)
  deriving DecidableEq, Repr

namespace Component

/-- The component of a piece that is not the first. -/
def ofPiece? (piece : List Char) : Option Component :=
  if piece = [] ∨ piece = ['.'] then none
  else if piece = ['.', '.'] then some up
  else some (name (String.ofList piece))

def text : Component → String
  | root => ""
  | here => "."
  | up => ".."
  | name text => text

end Component

/-- What the path says. -/
def components (p : Path) : List Component :=
  match splitSlash p.text.toList with
  | [] => []
  | [] :: rest => (if rest = [] then [] else [.root]) ++ rest.filterMap Component.ofPiece?
  | first :: rest =>
    (if first = ['.'] then [.here] else (Component.ofPiece? first).toList) ++
      rest.filterMap Component.ofPiece?

/-- Two paths that say the same. -/
def Alike (p q : Path) : Prop := p.components = q.components

instance (p q : Path) : Decidable (p.Alike q) :=
  inferInstanceAs (Decidable (_ = _))

/-- The path that says what some components say. -/
def ofComponents : List Component → Path
  | [.root] => ⟨"/"⟩
  | cs => ⟨"/".intercalate (cs.map Component.text)⟩

/-- The path and the directories it is in, from the inside out; none for a path
that says nothing. -/
def ancestors (p : Path) : List Path :=
  let around := p.components.dropLast
  if p.components = [] then []
  else p :: (List.range around.length).map fun n =>
    ofComponents (around.take (around.length - n))

/-! ## Steps -/

/-- One step through a tree of files. -/
inductive Step where
  /-- Stay in the directory. -/
  | here
  /-- Go to the directory around it. -/
  | up
  | name (text : String)
  deriving DecidableEq, Repr

namespace Step

def ofPiece? (piece : List Char) : Option Step :=
  if piece = [] then none
  else if piece = ['.'] then some here
  else if piece = ['.', '.'] then some up
  else some (name (String.ofList piece))

end Step

/-- The way the path leads, apart from a trailing slash. -/
def steps (p : Path) : List Step :=
  (splitSlash p.text.toList).filterMap Step.ofPiece?

end Path

end ZonePack

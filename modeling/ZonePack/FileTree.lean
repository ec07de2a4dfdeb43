import Std.Data.ExtTreeMap
import ZonePack.Disk

/-!
# ZonePack.FileTree

All files as a value, and the working directory among them.  An entry is
addressed by the names on the way to it, the innermost first; the root of all
files has the empty address and is always a directory, and every other entry is
in a directory.  Two trees with the same entries and the same working directory
are equal.

An absolute path starts at the root and any other one at the working directory.
From there `..` leads to the directory around, and from the root to itself.
-/

namespace ZonePack

/-- A place in a tree: names, the innermost first. -/
abbrev Address := List String

/-- What is at a place. -/
inductive Entry where
  | dir
  | file (bytes : ByteArray)

instance : DecidableEq Entry
  | .dir, .dir => isTrue rfl
  | .dir, .file _ => isFalse nofun
  | .file _, .dir => isFalse nofun
  | .file a, .file b =>
    match ByteArray.instDecidableEq a b with
    | isTrue h => isTrue (h ▸ rfl)
    | isFalse h => isFalse fun e => h (Entry.file.inj e)

/-- A tree of directories and files, seen from one of its directories. -/
structure FileTree where
  /-- All entries but the root. -/
  entries : Std.ExtTreeMap Address Entry compare
  /-- The working directory, where relative paths start. -/
  home : Address
  root_absent : entries[([] : Address)]? = none
  /-- An entry is in the root or in a directory. -/
  dir_around : ∀ {name : String} {dir : Address}, entries[name :: dir]? ≠ none →
    dir = [] ∨ entries[dir]? = some Entry.dir
  home_is_dir : home = [] ∨ entries[home]? = some Entry.dir

namespace FileTree

/-- The tree with nothing in the root but an empty working directory. -/
def empty : FileTree where
  entries := (∅ : Std.ExtTreeMap Address Entry compare).insert ["work"] .dir
  home := ["work"]
  root_absent := by
    rw [Std.ExtTreeMap.getElem?_insert, if_neg (by decide)]
    simp
  dir_around {name dir} h := by
    rw [Std.ExtTreeMap.getElem?_insert] at h
    by_cases hk : compare ["work"] (name :: dir) = .eq
    · cases Std.compare_eq_iff_eq.1 hk
      exact .inl rfl
    · rw [if_neg hk] at h
      simp at h
  home_is_dir := .inr Std.ExtTreeMap.getElem?_insert_self

/-! ## Looking -/

/-- What is at an address. -/
def lookup (t : FileTree) (a : Address) : Option Entry :=
  if a = [] then some .dir else t.entries[a]?

@[simp] theorem lookup_nil (t : FileTree) : t.lookup [] = some .dir := rfl

@[simp] theorem lookup_cons (t : FileTree) (name : String) (dir : Address) :
    t.lookup (name :: dir) = t.entries[name :: dir]? := rfl

/-- Trees that have the same at every address, and the same working directory, are the
same. -/
@[ext] theorem ext {t u : FileTree} (home_eq : t.home = u.home)
    (lookup_eq : ∀ a, t.lookup a = u.lookup a) : t = u := by
  have entries_eq : t.entries = u.entries := by
    ext1 a
    cases a with
    | nil => rw [t.root_absent, u.root_absent]
    | cons name dir => exact lookup_eq (name :: dir)
  cases t
  cases u
  cases entries_eq
  cases home_eq
  rfl

/-- What holds an entry is a directory. -/
theorem lookup_around {t : FileTree} {name : String} {dir : Address}
    (h : t.lookup (name :: dir) ≠ none) : t.lookup dir = some .dir := by
  rcases t.dir_around h with rfl | hd
  · rfl
  · cases dir with
    | nil => rfl
    | cons => exact hd

/-! ## Walking -/

/-- The longest name that an entry can have, in bytes. -/
def maxNameBytes : Nat := 255

/-- The longest path that is followed, in bytes. -/
def maxPathBytes : Nat := 4095

/-- What is wrong with a path whatever the tree holds. -/
def pathFault? (p : Path) : Option FileError :=
  if '\x00' ∈ p.text.toList then some .nulInPath
  else if p.text = "" then some .notFound
  else if maxPathBytes < p.text.utf8ByteSize then some .nameTooLong
  else none

/-- Where a step leads from a directory; the root is what is around itself. -/
def follow (dir : Address) : Path.Step → Except FileError Address
  | .here => .ok dir
  | .up => .ok dir.tail
  | .name n => if maxNameBytes < n.utf8ByteSize then .error .nameTooLong else .ok (n :: dir)

/-- Where the way of a path starts. -/
def startOf (t : FileTree) (p : Path) : Address :=
  if p.isAbsolute then [] else t.home

/-- Where some steps lead from an address; every step starts in a directory. -/
def walk (t : FileTree) (a : Address) : List Path.Step → Except FileError Address
  | [] => .ok a
  | step :: steps =>
    match t.lookup a with
    | none => .error .notFound
    | some (.file _) => .error .notDirectory
    | some .dir =>
      match follow a step with
      | .error e => .error e
      | .ok next => t.walk next steps

/-- The address that a path leads to, where nothing need be. -/
def locate (t : FileTree) (p : Path) : Except FileError Address :=
  match pathFault? p with
  | some e => .error e
  | none => t.walk (t.startOf p) (if p.asksForDir then p.steps ++ [.here] else p.steps)

/-- What a path leads to. -/
def find (t : FileTree) (p : Path) : Except FileError Entry :=
  match t.locate p with
  | .error e => .error e
  | .ok a =>
    match t.lookup a with
    | none => .error .notFound
    | some entry => .ok entry

def isFile (t : FileTree) (p : Path) : Bool :=
  match t.find p with
  | .ok (.file _) => true
  | _ => false

def isDir (t : FileTree) (p : Path) : Bool :=
  match t.find p with
  | .ok .dir => true
  | _ => false

def isPresent (t : FileTree) (p : Path) : Bool :=
  match t.find p with
  | .ok _ => true
  | .error _ => false

/-- Whether anything is in the directory at an address. -/
def hasEntries (t : FileTree) (dir : Address) : Bool :=
  t.entries.keys.any fun a => a.tail = dir

/-- Whether the directory that a path leads to is empty. -/
def isEmptyDir (t : FileTree) (p : Path) : Except FileError Bool :=
  match t.locate p with
  | .error e => .error e
  | .ok a =>
    match t.lookup a with
    | none => .error .notFound
    | some (.file _) => .error .notDirectory
    | some .dir => .ok (!t.hasEntries a)

/-- The bytes of the file that a path leads to. -/
def read (t : FileTree) (p : Path) : Except FileError ByteArray :=
  match t.find p with
  | .error e => .error e
  | .ok .dir => .error .isDirectory
  | .ok (.file bytes) => .ok bytes

/-! ## Changing -/

/-- Puts an entry into a directory, in the place of nothing or of a file. -/
def put (t : FileTree) (name : String) (dir : Address) (entry : Entry)
    (in_dir : t.lookup dir = some .dir) (not_dir : t.lookup (name :: dir) ≠ some .dir) :
    FileTree where
  entries := t.entries.insert (name :: dir) entry
  home := t.home
  root_absent := by
    rw [Std.ExtTreeMap.getElem?_insert, if_neg (by simp)]
    exact t.root_absent
  dir_around {n d} h := by
    rw [Std.ExtTreeMap.getElem?_insert] at h
    have around : d = [] ∨ t.entries[d]? = some .dir := by
      by_cases hk : compare (name :: dir) (n :: d) = .eq
      · cases Std.compare_eq_iff_eq.1 hk
        cases dir with
        | nil => exact .inl rfl
        | cons => exact .inr in_dir
      · rw [if_neg hk] at h
        exact t.dir_around h
    rcases around with rfl | hd
    · exact .inl rfl
    · right
      rw [Std.ExtTreeMap.getElem?_insert, if_neg]
      · exact hd
      · intro hk
        cases Std.compare_eq_iff_eq.1 hk
        exact not_dir hd
  home_is_dir := by
    rcases t.home_is_dir with h | h
    · exact .inl h
    · right
      rw [Std.ExtTreeMap.getElem?_insert, if_neg]
      · exact h
      · intro hk
        rw [← Std.compare_eq_iff_eq.1 hk] at h
        exact not_dir h

@[simp] theorem home_put (t : FileTree) (name : String) (dir : Address) (entry : Entry)
    (in_dir : t.lookup dir = some .dir) (not_dir : t.lookup (name :: dir) ≠ some .dir) :
    (t.put name dir entry in_dir not_dir).home = t.home := rfl

/-- A new entry is found where it was put, and all else stays. -/
theorem lookup_put (t : FileTree) (name : String) (dir : Address) (entry : Entry)
    (in_dir : t.lookup dir = some .dir) (not_dir : t.lookup (name :: dir) ≠ some .dir)
    (a : Address) :
    (t.put name dir entry in_dir not_dir).lookup a =
      if a = name :: dir then some entry else t.lookup a := by
  cases a with
  | nil => simp
  | cons n d =>
    simp only [lookup_cons, put, Std.ExtTreeMap.getElem?_insert, Std.compare_eq_iff_eq]
    simp only [eq_comm]

/-- What a path's last step asks to make. -/
inductive Target where
  /-- An entry of a directory. -/
  | entry (name : String) (dir : Address)
  /-- A directory that is there already. -/
  | present
  deriving DecidableEq, Repr

/-- What a path asks to make, in a directory that it leads to.  A path that ends
in a step without a name asks for what it leads to. -/
def target (t : FileTree) (p : Path) : Except FileError Target :=
  match pathFault? p with
  | some e => .error e
  | none =>
    match p.steps.getLast? with
    | some (.name n) =>
      match t.walk (t.startOf p) (p.steps.dropLast ++ [.here]) with
      | .error e => .error e
      | .ok dir =>
        if maxNameBytes < n.utf8ByteSize then .error .nameTooLong else .ok (.entry n dir)
    | _ => (t.walk (t.startOf p) (p.steps ++ [.here])).map fun _ => .present

/-- Makes the directory that a path leads to. -/
def makeDir (t : FileTree) (p : Path) : Except FileError FileTree :=
  match t.target p with
  | .error e => .error e
  | .ok .present => .error .alreadyExists
  | .ok (.entry name dir) =>
    if in_dir : t.lookup dir = some .dir then
      if free : t.lookup (name :: dir) = none then
        .ok (t.put name dir .dir in_dir (by simp [free]))
      else .error .alreadyExists
    else .error .notFound

/-- Makes or overwrites the file that a path leads to. -/
def write (t : FileTree) (p : Path) (bytes : ByteArray) : Except FileError FileTree :=
  match t.target p with
  | .error e => .error e
  | .ok .present => .error .isDirectory
  | .ok (.entry name dir) =>
    if p.asksForDir then .error .isDirectory
    else if in_dir : t.lookup dir = some .dir then
      if not_dir : t.lookup (name :: dir) = some .dir then .error .isDirectory
      else .ok (t.put name dir (.file bytes) in_dir not_dir)
    else .error .notFound

/-- The tree without an entry and everything in it, which the working directory is not. -/
def erase (t : FileTree) (gone : Address) (stays : gone.isSuffixOf t.home = false) :
    FileTree where
  entries := t.entries.filter fun a _ => !gone.isSuffixOf a
  home := t.home
  root_absent := by
    rw [Std.ExtTreeMap.getElem?_filter', t.root_absent]
    rfl
  dir_around {n d} h := by
    rw [Std.ExtTreeMap.getElem?_filter'] at h
    have there : t.entries[n :: d]? ≠ none := by
      intro hn
      simp [hn] at h
    have apart : gone.isSuffixOf (n :: d) = false := by
      cases hs : gone.isSuffixOf (n :: d) with
      | false => rfl
      | true => simp [hs] at h
    rcases t.dir_around there with rfl | hd
    · exact .inl rfl
    · right
      rw [Std.ExtTreeMap.getElem?_filter', hd]
      have : gone.isSuffixOf d = false := by
        cases hs : gone.isSuffixOf d with
        | false => rfl
        | true =>
          have := (List.isSuffixOf_iff_suffix.1 hs).trans (List.suffix_cons n d)
          rw [List.isSuffixOf_iff_suffix.2 this] at apart
          cases apart
      simp [this]
  home_is_dir := by
    rcases t.home_is_dir with h | h
    · exact .inl h
    · right
      rw [Std.ExtTreeMap.getElem?_filter', h]
      simp [stays]

/-- Removes the file or the whole directory that a path leads to, unless the working
directory would go with it. -/
def remove (t : FileTree) (p : Path) : Except FileError FileTree :=
  match t.locate p with
  | .error e => .error e
  | .ok a =>
    if t.lookup a = none then .error .notFound
    else if stays : a.isSuffixOf t.home = false then .ok (t.erase a stays)
    else .error (.other "Device or resource busy (os error 16)")

/-! ## Listing -/

/-- An address as a relative path; that of a directory ends in a slash. -/
def pathText (a : Address) : Entry → String
  | .dir => "/".intercalate a.reverse ++ "/"
  | .file _ => "/".intercalate a.reverse

/-- The part of an address that is inside a directory. -/
def inside? (dir a : Address) : Option Address :=
  if dir.isSuffixOf a ∧ a ≠ dir then some (a.take (a.length - dir.length)) else none

/-- All entries in the working directory by their paths, in the order of the paths. -/
def listing (t : FileTree) : List (String × Entry) :=
  let found := t.entries.toList.filterMap fun (a, entry) =>
    (inside? t.home a).map fun inner => (pathText inner entry, entry)
  found.mergeSort fun x y => decide (x.1 ≤ y.1)

/-! ## As a disk -/

/-- Programs on a tree: what fails leaves the tree as it was. -/
instance : Disk (StateM FileTree) where
  isFile p := return (← get).isFile p
  isDir p := return (← get).isDir p
  isPresent p := return (← get).isPresent p
  isEmptyDir p := return (← get).isEmptyDir p
  read p := return (← get).read p
  makeDir p := do
    match (← get).makeDir p with
    | .error e => return .error e
    | .ok t => set t; return .ok ()
  write p bytes := do
    match (← get).write p bytes with
    | .error e => return .error e
    | .ok t => set t; return .ok ()

end FileTree

end ZonePack

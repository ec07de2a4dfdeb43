import ZonePack.FileTree
import ZonePack.Proofs.Path

/-!
# ZonePack.Proofs.FileTree

Where paths lead in a tree of files, and what becomes of it when it grows.

* `walk_names_iff` says in closed form where a way of names ends, and
  `leadsToDir_iff` that a path leads to a directory exactly if its way can be
  walked and one more step can be started.
* `KeepsDirs` says that no directory of a tree is lost in another one, and the
  working directory is the same: what can be walked in the one can be walked in
  the other (`KeepsDirs.walk`), for only directories are walked through.
* `Extends` is the order of growth: a larger tree has all that a smaller one
  has, at the same places.
* `makeDir_eq_ok_iff` and `write_eq_ok_iff` say all that an operation does: it
  puts one entry somewhere, and changes nothing else (`HasPut`).
-/

namespace ZonePack

namespace FileTree

variable {t u v : FileTree} {p q : Path} {place next a dir : Address}

/-! ## Walking -/

/-- What an entry was found in is a directory. -/
theorem lookup_of_lookup_cons {name : String} {entry : Entry}
    (h : t.lookup (name :: dir) = some entry) : t.lookup dir = some .dir :=
  lookup_around (h ▸ Option.some_ne_none entry)

/-- What holds something further in is a directory. -/
theorem lookup_of_lookup_append {names : List String}
    (h : t.lookup (names ++ dir) = some .dir) : t.lookup dir = some .dir := by
  induction names with
  | nil => exact h
  | cons name names ih => exact ih (lookup_of_lookup_cons h)

/-- A step is taken from a directory. -/
theorem walk_cons_iff {step : Path.Step} {steps : List Path.Step} :
    t.walk place (step :: steps) = .ok next ↔
      t.lookup place = some .dir ∧
        ∃ middle, follow place step = .ok middle ∧ t.walk middle steps = .ok next := by
  rw [walk]
  cases t.lookup place with
  | none => simp
  | some entry =>
    cases entry with
    | file bytes => simp
    | dir => cases follow place step <;> simp

/-- A way of two parts is walked exactly if both of them are. -/
theorem walk_append_iff {xs ys : List Path.Step} :
    t.walk place (xs ++ ys) = .ok next ↔
      ∃ middle, t.walk place xs = .ok middle ∧ t.walk middle ys = .ok next := by
  induction xs generalizing place with
  | nil => simp [walk]
  | cons step xs ih =>
    rw [List.cons_append, walk_cons_iff]
    simp only [ih, walk_cons_iff]
    constructor
    · intro h
      obtain ⟨hdir, first, hfirst, middle, hmiddle, hnext⟩ := h
      exact ⟨middle, ⟨hdir, first, hfirst, hmiddle⟩, hnext⟩
    · intro h
      obtain ⟨middle, ⟨hdir, first, hfirst, hmiddle⟩, hnext⟩ := h
      exact ⟨hdir, first, hfirst, middle, hmiddle, hnext⟩

/-- One may stay exactly in a directory. -/
theorem walk_here_iff :
    t.walk place [.here] = .ok next ↔ t.lookup place = some .dir ∧ next = place := by
  rw [walk_cons_iff]
  simp [follow, walk, eq_comm]

/-- A name leads further in, unless it is too long for an entry. -/
theorem follow_name_iff {name : String} : follow a (.name name) = .ok next ↔
    name.utf8ByteSize ≤ maxNameBytes ∧ next = name :: a := by
  rw [follow]
  split
  · simp
    omega
  · simp [eq_comm]
    omega

/-- A way of names leads further in, through directories, to a directory. -/
theorem walk_names_iff {names : List String} :
    t.walk a (names.map .name ++ [.here]) = .ok next ↔
      (∀ name ∈ names, name.utf8ByteSize ≤ maxNameBytes) ∧
        t.lookup (names.reverse ++ a) = some .dir ∧ next = names.reverse ++ a := by
  induction names generalizing a with
  | nil =>
    rw [List.map_nil, List.nil_append, walk_here_iff]
    simp
  | cons name names ih =>
    have hplace : (name :: names).reverse ++ a = names.reverse ++ name :: a := by simp
    rw [List.map_cons, List.cons_append, walk_cons_iff, hplace, List.forall_mem_cons]
    constructor
    · intro h
      obtain ⟨-, middle, hfollow, hwalk⟩ := h
      obtain ⟨hfit, rfl⟩ := follow_name_iff.1 hfollow
      obtain ⟨hnames, hlast⟩ := ih.1 hwalk
      exact ⟨⟨hfit, hnames⟩, hlast⟩
    · intro h
      obtain ⟨⟨hfit, hnames⟩, hlast, rfl⟩ := h
      -- the directory at the end is in this one
      have hdir : t.lookup a = some .dir := by
        rw [← hplace] at hlast
        exact lookup_of_lookup_append hlast
      exact ⟨hdir, _, follow_name_iff.2 ⟨hfit, rfl⟩, ih.2 ⟨hnames, hlast, rfl⟩⟩

/-! ## Faults and starts of joined paths -/

/-- Exactly the paths of a fitting length without the character zero can be followed. -/
theorem pathFault?_eq_none_iff : pathFault? p = none ↔
    '\x00' ∉ p.text.toList ∧ p.text ≠ "" ∧ p.text.utf8ByteSize ≤ maxPathBytes := by
  by_cases hzero : '\x00' ∈ p.text.toList
  · simp [pathFault?, hzero]
  · by_cases hempty : p.text = ""
    · simp [pathFault?, hempty]
    · simp [pathFault?, hzero, hempty]

/-- If a path can be followed, so can its folder. -/
theorem pathFault?_of_join (hp : p.text ≠ "") (h : pathFault? (p.join q) = none) :
    pathFault? p = none := by
  rw [pathFault?_eq_none_iff, Path.text_join hp] at h
  obtain ⟨hzero, -, hsize⟩ := h
  rw [String.toList_append, List.mem_append, not_or] at hzero
  rw [String.utf8ByteSize_append] at hsize
  exact pathFault?_eq_none_iff.2 ⟨hzero.1, hp, by omega⟩

/-- What is in a folder is found by starting where its folder is found. -/
theorem startOf_join (t : FileTree) (hp : p.text ≠ "") :
    t.startOf (p.join q) = t.startOf p := by
  rw [startOf, startOf, Path.isAbsolute_join hp]

/-- A relative path is found by starting where its folder is found, which may also be
the empty path. -/
theorem startOf_join_of_relative (t : FileTree) (hq : q.isAbsolute = false) (p : Path) :
    t.startOf (p.join q) = t.startOf p := by
  by_cases hp : p.text = ""
  · rw [Path.join_of_text_eq_empty hp, startOf, startOf, hq, Path.isAbsolute, hp]
    rfl
  · exact t.startOf_join hp

/-! ## Directories at the end of a path -/

/-- Whether a path leads to a directory, and where that is. -/
def LeadsToDir (t : FileTree) (p : Path) (place : Address) : Prop :=
  t.locate p = .ok place ∧ t.lookup place = some .dir

/-- A path leads to a directory exactly if its way can be walked to the end and
one may stay there. -/
theorem leadsToDir_iff : t.LeadsToDir p place ↔
    pathFault? p = none ∧ t.walk (t.startOf p) (p.steps ++ [.here]) = .ok place := by
  rw [LeadsToDir, locate]
  cases pathFault? p with
  | some e => simp
  | none =>
    by_cases hslash : p.asksForDir
    · -- the way itself ends in staying, which only a directory allows
      simp only [hslash, if_true, walk_append_iff, walk_here_iff]
      constructor
      · intro h
        obtain ⟨h, -⟩ := h
        exact ⟨trivial, h⟩
      · intro h
        obtain ⟨-, middle, hwalk, hdir, rfl⟩ := h
        exact ⟨⟨place, hwalk, hdir, rfl⟩, hdir⟩
    · simp only [hslash, walk_append_iff, walk_here_iff]
      constructor
      · intro h
        obtain ⟨hwalk, hdir⟩ := h
        exact ⟨trivial, place, hwalk, hdir, rfl⟩
      · intro h
        obtain ⟨-, middle, hwalk, hdir, rfl⟩ := h
        exact ⟨hwalk, hdir⟩

/-- A directory is seen exactly at the end of a path that leads to one. -/
theorem isDir_iff : t.isDir p = true ↔ ∃ place, t.LeadsToDir p place := by
  unfold isDir find LeadsToDir
  cases t.locate p with
  | error e => simp
  | ok place =>
    cases h : t.lookup place with
    | none => simp [h]
    | some entry => cases entry <;> simp [h]

/-- A path to a directory says something. -/
theorem LeadsToDir.text_ne_empty (h : t.LeadsToDir p place) : p.text ≠ "" :=
  (pathFault?_eq_none_iff.1 (leadsToDir_iff.1 h).1).2.1

/-- A folder inside a directory is a directory exactly if the way goes on from there. -/
theorem leadsToDir_join_iff (h : t.LeadsToDir p place) :
    t.LeadsToDir (p.join q) next ↔
      pathFault? (p.join q) = none ∧ t.walk place (q.steps ++ [.here]) = .ok next := by
  obtain ⟨-, hwalk⟩ := leadsToDir_iff.1 h
  obtain ⟨middle, hp, hhere⟩ := walk_append_iff.1 hwalk
  obtain ⟨-, rfl⟩ := walk_here_iff.1 hhere
  have hjoin : t.walk (t.startOf p) (p.steps ++ (q.steps ++ [.here])) = .ok next ↔
      t.walk place (q.steps ++ [.here]) = .ok next := by
    rw [walk_append_iff]
    simp [hp]
  rw [leadsToDir_iff, t.startOf_join h.text_ne_empty, Path.steps_join, List.append_assoc, hjoin]

/-! ## Files at the end of a path -/

/-- A file is found exactly at the end of a path that leads to one. -/
theorem find_eq_file_iff {bytes : ByteArray} : t.find p = .ok (.file bytes) ↔
    ∃ a, t.locate p = .ok a ∧ t.lookup a = some (.file bytes) := by
  rw [find]
  cases t.locate p with
  | error e => simp
  | ok a => cases h : t.lookup a <;> simp [h]

theorem isFile_iff : t.isFile p = true ↔ ∃ bytes, t.find p = .ok (.file bytes) := by
  rw [isFile]
  split <;> simp_all

/-- The bytes of a file are read exactly where it is found. -/
theorem read_eq_ok_iff {bytes : ByteArray} :
    t.read p = .ok bytes ↔ t.find p = .ok (.file bytes) := by
  rw [read]
  split <;> simp_all

/-! ## Growth -/

/-- Whether every directory of another tree is one in this tree, which is seen from the same
one. -/
structure KeepsDirs (u t : FileTree) : Prop where
  home_eq : u.home = t.home
  dir : ∀ {a}, t.lookup a = some .dir → u.lookup a = some .dir

/-- A tree has its own directories. -/
theorem KeepsDirs.refl (t : FileTree) : t.KeepsDirs t := ⟨rfl, id⟩

/-- Directories that are kept again and again stay. -/
theorem KeepsDirs.trans (h : v.KeepsDirs u) (k : u.KeepsDirs t) : v.KeepsDirs t :=
  ⟨h.home_eq.trans k.home_eq, fun ha => h.dir (k.dir ha)⟩

/-- A path starts where it started. -/
theorem KeepsDirs.startOf (h : u.KeepsDirs t) (p : Path) : u.startOf p = t.startOf p := by
  rw [FileTree.startOf, FileTree.startOf, h.home_eq]

/-- A way that could be walked still leads to where it led. -/
theorem KeepsDirs.walk {steps : List Path.Step} (h : u.KeepsDirs t)
    (hwalk : t.walk place steps = .ok next) : u.walk place steps = .ok next := by
  induction steps generalizing place with
  | nil => exact hwalk
  | cons step steps ih =>
    obtain ⟨hdir, middle, hfollow, hrest⟩ := walk_cons_iff.1 hwalk
    exact walk_cons_iff.2 ⟨h.dir hdir, middle, hfollow, ih hrest⟩

/-- A path still leads to where it led. -/
theorem KeepsDirs.locate (h : u.KeepsDirs t) (hp : t.locate p = .ok place) :
    u.locate p = .ok place := by
  rw [FileTree.locate] at hp ⊢
  cases hfault : pathFault? p with
  | some e => simp [hfault] at hp
  | none =>
    simp only [hfault, h.startOf] at hp ⊢
    exact h.walk hp

/-- A path to a directory still leads to it. -/
theorem KeepsDirs.leadsToDir (h : u.KeepsDirs t) (hp : t.LeadsToDir p place) :
    u.LeadsToDir p place :=
  ⟨h.locate hp.1, h.dir hp.2⟩

/-- Whether a tree has all that another one has, and is seen from the same directory. -/
structure Extends (u t : FileTree) : Prop where
  home_eq : u.home = t.home
  entry : ∀ {a entry}, t.lookup a = some entry → u.lookup a = some entry

/-- A tree has all that it has. -/
theorem Extends.refl (t : FileTree) : t.Extends t := ⟨rfl, id⟩

/-- Growth goes on. -/
theorem Extends.trans (h : v.Extends u) (k : u.Extends t) : v.Extends t :=
  ⟨h.home_eq.trans k.home_eq, fun ha => h.entry (k.entry ha)⟩

/-- What grows keeps its directories. -/
theorem Extends.keepsDirs (h : u.Extends t) : u.KeepsDirs t := ⟨h.home_eq, h.entry⟩

/-- A directory that was there before, and to which names now lead, was reached by
the same names before. -/
theorem Extends.leadsToDir_join_of_lookup {names : List String} (h : u.Extends t)
    (hp : t.LeadsToDir p place) (hsteps : q.steps = names.map .name)
    (hq : u.LeadsToDir (p.join q) dir) (hdir : t.lookup dir = some .dir) :
    t.LeadsToDir (p.join q) dir := by
  obtain ⟨hfault, hwalk⟩ := (leadsToDir_join_iff (h.keepsDirs.leadsToDir hp)).1 hq
  rw [hsteps] at hwalk
  refine (leadsToDir_join_iff hp).2 ⟨hfault, ?_⟩
  rw [hsteps]
  -- by its names, the way ends at the same address in both trees
  obtain ⟨hfit, -, rfl⟩ := walk_names_iff.1 hwalk
  exact walk_names_iff.2 ⟨hfit, hdir, rfl⟩

/-! ## Making and writing -/

/-- What is to be made is a new name in a directory. -/
theorem target_eq_entry_iff {name n : String} {steps : List Path.Step}
    (hsteps : p.steps = steps ++ [.name name]) :
    t.target p = .ok (.entry n dir) ↔
      pathFault? p = none ∧ t.walk (t.startOf p) (steps ++ [.here]) = .ok dir ∧
        name.utf8ByteSize ≤ maxNameBytes ∧ n = name := by
  rw [target, hsteps, List.getLast?_append]
  cases pathFault? p with
  | some e => simp
  | none =>
    simp only [List.getLast?_singleton, Option.some_or, List.dropLast_concat]
    cases t.walk (t.startOf p) (steps ++ [.here]) with
    | error e => simp
    | ok a =>
      by_cases hfit : name.utf8ByteSize ≤ maxNameBytes
      · simp [Nat.not_lt.2 hfit, hfit, eq_comm, and_comm]
      · simp [Nat.lt_of_not_le hfit, hfit]

/-- A name in a folder is to be put into the directory that the folder leads to. -/
theorem target_join_name_iff {name n : String} (hp : p.text ≠ "") (hname : Path.IsName name) :
    t.target (p.join ⟨name⟩) = .ok (.entry n dir) ↔
      pathFault? (p.join ⟨name⟩) = none ∧ t.LeadsToDir p dir ∧
        name.utf8ByteSize ≤ maxNameBytes ∧ n = name := by
  have hsteps : (p.join ⟨name⟩).steps = p.steps ++ [.name name] := by
    rw [Path.steps_join, hname.steps]
  rw [target_eq_entry_iff hsteps, t.startOf_join hp, leadsToDir_iff]
  constructor
  · intro h
    obtain ⟨hfault, hwalk, hfit⟩ := h
    exact ⟨hfault, ⟨pathFault?_of_join hp hfault, hwalk⟩, hfit⟩
  · intro h
    obtain ⟨hfault, ⟨-, hwalk⟩, hfit⟩ := h
    exact ⟨hfault, hwalk, hfit⟩

/-- A path to a name in a folder leads to where the name is to be put. -/
theorem locate_join_name {name n : String} (hp : p.text ≠ "") (hname : Path.IsName name)
    (h : t.target (p.join ⟨name⟩) = .ok (.entry n dir)) :
    t.locate (p.join ⟨name⟩) = .ok (n :: dir) := by
  obtain ⟨hfault, hdir, hfit, rfl⟩ := (target_join_name_iff hp hname).1 h
  obtain ⟨-, hwalk⟩ := leadsToDir_iff.1 hdir
  obtain ⟨middle, hfolder, hhere⟩ := walk_append_iff.1 hwalk
  obtain ⟨hentry, rfl⟩ := walk_here_iff.1 hhere
  have hname_step : t.walk dir [.name n] = .ok (n :: dir) :=
    walk_cons_iff.2 ⟨hentry, _, follow_name_iff.2 ⟨hfit, rfl⟩, rfl⟩
  rw [locate, hfault, hname.asksForDir_join hp, if_neg Bool.false_ne_true, t.startOf_join hp,
    Path.steps_join, hname.steps, walk_append_iff]
  exact ⟨_, hfolder, hname_step⟩

/-- Whether a tree is another one with an entry put at an address: elsewhere it has the same,
and it is seen from the same directory. -/
structure HasPut (u t : FileTree) (a : Address) (entry : Entry) : Prop where
  home_eq : u.home = t.home
  lookup_eq : ∀ b, u.lookup b = if b = a then some entry else t.lookup b

/-- The entry is there. -/
theorem HasPut.lookup_self {entry : Entry} (h : u.HasPut t a entry) : u.lookup a = some entry :=
  (h.lookup_eq a).trans (if_pos rfl)

/-- Elsewhere nothing has changed. -/
theorem HasPut.lookup_of_ne {b : Address} {entry : Entry} (h : u.HasPut t a entry) (hb : b ≠ a) :
    u.lookup b = t.lookup b :=
  (h.lookup_eq b).trans (if_neg hb)

/-- An entry is put where it is put. -/
theorem hasPut_put {name : String} (entry : Entry) (in_dir : t.lookup dir = some .dir)
    (not_dir : t.lookup (name :: dir) ≠ some .dir) :
    (t.put name dir entry in_dir not_dir).HasPut t (name :: dir) entry :=
  ⟨home_put t name dir entry in_dir not_dir, lookup_put t name dir entry in_dir not_dir⟩

/-- The tree with one more entry is known by what is found in it. -/
theorem put_eq_iff {name : String} {entry : Entry} (in_dir : t.lookup dir = some .dir)
    (not_dir : t.lookup (name :: dir) ≠ some .dir) :
    t.put name dir entry in_dir not_dir = u ↔ u.HasPut t (name :: dir) entry := by
  constructor
  · intro h
    exact h ▸ hasPut_put entry in_dir not_dir
  · intro h
    refine FileTree.ext h.home_eq.symm fun a => ?_
    rw [lookup_put, h.lookup_eq]

/-- An entry that is put in the place of no directory leaves all directories. -/
theorem HasPut.keepsDirs {entry : Entry} (h : u.HasPut t a entry)
    (not_dir : t.lookup a ≠ some .dir) : u.KeepsDirs t := by
  refine ⟨h.home_eq, fun {b} hb => ?_⟩
  have hne : b ≠ a := by
    intro heq
    subst heq
    exact not_dir hb
  rw [h.lookup_of_ne hne, hb]

/-- One that is put where nothing was leaves all that was there. -/
theorem HasPut.extends {entry : Entry} (h : v.HasPut u a entry) (hext : u.Extends t)
    (free : t.lookup a = none) : v.Extends t := by
  refine ⟨h.home_eq.trans hext.home_eq, fun {b other} hb => ?_⟩
  have hne : b ≠ a := by
    intro heq
    subst heq
    rw [free] at hb
    cases hb
  rw [h.lookup_of_ne hne, hext.entry hb]

/-- A directory is made where nothing is, and nothing else changes. -/
theorem makeDir_eq_ok_iff : t.makeDir p = .ok u ↔
    ∃ name dir, t.target p = .ok (.entry name dir) ∧ t.lookup dir = some .dir ∧
      t.lookup (name :: dir) = none ∧ u.HasPut t (name :: dir) .dir := by
  rw [makeDir]
  cases t.target p with
  | error e => simp
  | ok target =>
    cases target with
    | present => simp
    | entry name dir =>
      by_cases in_dir : t.lookup dir = some .dir
      · by_cases free : t.lookup (name :: dir) = none
        · simp only [dif_pos in_dir, dif_pos free, Except.ok.injEq, put_eq_iff, Target.entry.injEq]
          constructor
          · intro h
            exact ⟨name, dir, ⟨rfl, rfl⟩, in_dir, free, h⟩
          · intro h
            obtain ⟨_, _, ⟨rfl, rfl⟩, -, -, h⟩ := h
            exact h
        · simp [-lookup_cons, in_dir, free]
      · simp [-lookup_cons, in_dir]

/-- A file is written where no directory is, and nothing else changes. -/
theorem write_eq_ok_iff {bytes : ByteArray} : t.write p bytes = .ok u ↔
    ∃ name dir, t.target p = .ok (.entry name dir) ∧ p.asksForDir = false ∧
      t.lookup dir = some .dir ∧ t.lookup (name :: dir) ≠ some .dir ∧
      u.HasPut t (name :: dir) (.file bytes) := by
  rw [write]
  cases t.target p with
  | error e => simp
  | ok target =>
    cases target with
    | present => simp
    | entry name dir =>
      by_cases hslash : p.asksForDir
      · simp [hslash]
      · by_cases in_dir : t.lookup dir = some .dir
        · by_cases not_dir : t.lookup (name :: dir) = some .dir
          · simp [-lookup_cons, hslash, in_dir, not_dir]
          · simp only [if_neg hslash, dif_pos in_dir, dif_neg not_dir, Except.ok.injEq, put_eq_iff,
              Target.entry.injEq]
            constructor
            · intro h
              exact ⟨name, dir, ⟨rfl, rfl⟩, by simpa using hslash, in_dir, not_dir, h⟩
            · intro h
              obtain ⟨_, _, ⟨rfl, rfl⟩, -, -, -, h⟩ := h
              exact h
        · simp [-lookup_cons, hslash, in_dir]

/-- A file that is written takes no directory's place. -/
theorem keepsDirs_of_write {bytes : ByteArray} (h : t.write p bytes = .ok u) : u.KeepsDirs t := by
  obtain ⟨name, dir, -, -, -, not_dir, hput⟩ := write_eq_ok_iff.1 h
  exact hput.keepsDirs not_dir

/-! ## Full folders -/

/-- A directory is full exactly if something can be found in it. -/
theorem hasEntries_iff : t.hasEntries dir = true ↔ ∃ name, t.lookup (name :: dir) ≠ none := by
  have hkey (a : Address) : a ∈ t.entries.keys ↔ t.entries[a]? ≠ none := by
    rw [Std.ExtTreeMap.mem_keys, ← Std.ExtTreeMap.isSome_getElem?_iff_mem]
    simp
  rw [hasEntries, List.any_eq_true]
  constructor
  · intro h
    obtain ⟨a, ha, htail⟩ := h
    cases a with
    | nil => exact absurd t.root_absent ((hkey []).1 ha)
    | cons name around =>
      have haround : around = dir := of_decide_eq_true htail
      exact ⟨name, haround ▸ (hkey _).1 ha⟩
  · intro h
    obtain ⟨name, h⟩ := h
    exact ⟨name :: dir, (hkey _).2 h, by simp⟩

/-- Whether a path leads to a directory with something in it, or to what cannot
be listed. -/
def isOccupied (t : FileTree) (p : Path) : Bool :=
  match t.isEmptyDir p with
  | .ok isEmpty => !isEmpty
  | .error _ => t.isPresent p

/-- A directory of the tree is occupied exactly if it is full. -/
theorem LeadsToDir.isOccupied_eq (h : t.LeadsToDir p dir) :
    t.isOccupied p = t.hasEntries dir := by
  obtain ⟨hlocate, hdir⟩ := h
  simp [isOccupied, isEmptyDir, hlocate, hdir]

/-- So it is if an entry was found in it. -/
theorem LeadsToDir.isOccupied_of_lookup {name : String} {entry : Entry}
    (h : t.LeadsToDir p dir) (hentry : t.lookup (name :: dir) = some entry) :
    t.isOccupied p = true := by
  rw [h.isOccupied_eq]
  exact hasEntries_iff.2 ⟨name, hentry ▸ Option.some_ne_none entry⟩

end FileTree

end ZonePack

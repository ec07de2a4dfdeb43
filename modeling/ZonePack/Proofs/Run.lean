import ZonePack.CommandLine
import ZonePack.Proofs.FileTree

/-!
# ZonePack.Proofs.Run

Programs as functions of a tree of files: `t.run x` is the answer of the program
`x` on the tree `t`, with the tree that is left.

Looking leaves the tree alone, so checks and loading have an answer on each tree
(`run_issues`, `run_load`).  Only making folders and writing files change it, and
`run_makeDir` and `run_write` say how.  `Generation` lists all that a run can
come to once its arguments are read, and `generation_run` says that it is one of
these.
-/

namespace ZonePack

namespace FileTree

variable {α β : Type} {t u v : FileTree} {p : Path}

/-! ## Single operations -/

/-- The answer of a program on a tree, and the tree after it. -/
def run (t : FileTree) (x : StateM FileTree α) : α × FileTree := StateT.run x t

/-- A program after another one starts with its answer, on the tree that it left. -/
@[simp] theorem run_bind (t : FileTree) (x : StateM FileTree α) (f : α → StateM FileTree β) :
    t.run (x >>= f) = (t.run x).2.run (f (t.run x).1) := rfl

@[simp] theorem run_pure (t : FileTree) (a : α) : t.run (pure a) = (a, t) := rfl

@[simp] theorem run_get (t : FileTree) : t.run get = (t, t) := rfl

@[simp] theorem run_isFile (t : FileTree) (p : Path) :
    t.run (Disk.isFile p) = (t.isFile p, t) := rfl

@[simp] theorem run_isDir (t : FileTree) (p : Path) :
    t.run (Disk.isDir p) = (t.isDir p, t) := rfl

@[simp] theorem run_isPresent (t : FileTree) (p : Path) :
    t.run (Disk.isPresent p) = (t.isPresent p, t) := rfl

@[simp] theorem run_isEmptyDir (t : FileTree) (p : Path) :
    t.run (Disk.isEmptyDir p) = (t.isEmptyDir p, t) := rfl

@[simp] theorem run_read (t : FileTree) (p : Path) :
    t.run (Disk.read p) = (t.read p, t) := rfl

/-- The answer to a change, and the tree after it: what fails changes nothing. -/
def settle (t : FileTree) : Except FileError FileTree → Except FileError Unit × FileTree
  | .error e => (.error e, t)
  | .ok u => (.ok (), u)

@[simp] theorem run_makeDir (t : FileTree) (p : Path) :
    t.run (Disk.makeDir p) = t.settle (t.makeDir p) := by
  simp only [Disk.makeDir, run_bind, run_get]
  cases t.makeDir p <;> rfl

@[simp] theorem run_write (t : FileTree) (p : Path) (bytes : ByteArray) :
    t.run (Disk.write p bytes) = t.settle (t.write p bytes) := by
  simp only [Disk.write, run_bind, run_get]
  cases t.write p bytes <;> rfl

/-! ## Checks -/

@[simp] theorem run_isOccupied (t : FileTree) (p : Path) :
    t.run (Preflight.isOccupied p) = (t.isOccupied p, t) := by
  rw [Preflight.isOccupied, run_bind, run_isEmptyDir]
  cases h : t.isEmptyDir p <;> simp [isOccupied, h]

/-- The issue with an output in a tree. -/
def outputIssues (t : FileTree) (output : Path) (force : Bool) : List Issue :=
  let predicates := output.join Layout.predicateFolder
  let scripts := output.join Layout.scriptFolder
  if !t.isDir output then [.missingOutput output]
  else if !force && (t.isOccupied predicates || t.isOccupied scripts) then
    [.outputNotEmpty predicates scripts]
  else []

@[simp] theorem run_outputIssues (t : FileTree) (output : Path) (force : Bool) :
    t.run (Preflight.outputIssues output force) = (t.outputIssues output force, t) := by
  rw [Preflight.outputIssues, outputIssues, run_bind, run_isDir]
  cases t.isDir output with
  | false => simp
  | true =>
    cases force with
    | true => simp
    | false =>
      simp only [if_true, Bool.false_eq_true, if_false, run_bind, run_isOccupied]
      cases t.isOccupied (output.join Layout.predicateFolder) with
      | true => simp
      | false =>
        simp only [Bool.false_eq_true, if_false, run_bind, run_isOccupied]
        cases t.isOccupied (output.join Layout.scriptFolder) <;> simp

/-- All reasons not to start on a tree. -/
def issues (t : FileTree) (config output : Path) (force : Bool) : List Issue :=
  (if t.isFile config then [] else [.missingConfig config]) ++ t.outputIssues output force

@[simp] theorem run_issues (t : FileTree) (config output : Path) (force : Bool) :
    t.run (Preflight.issues config output force) = (t.issues config output force, t) := by
  simp only [Preflight.issues, Preflight.configIssues, run_bind, run_isFile, run_pure,
    run_outputIssues]
  rfl

/-- There is no reason not to start exactly if document and output are there and
no folder is occupied, or overwriting was asked for. -/
theorem issues_eq_nil_iff {config output : Path} {force : Bool} :
    t.issues config output force = [] ↔
      t.isFile config = true ∧ t.isDir output = true ∧
        (force = false → t.isOccupied (output.join Layout.predicateFolder) = false ∧
          t.isOccupied (output.join Layout.scriptFolder) = false) := by
  rw [issues, outputIssues, List.append_eq_nil_iff]
  cases t.isFile config <;> cases t.isDir output <;> cases force <;> simp

/-! ## Loading -/

/-- The finished plan of a document in a tree. -/
def load (t : FileTree) (path : Path) : Except LoadError Config :=
  match t.read path with
  | .error e => .error (.unreadable path e)
  | .ok bytes =>
    match String.fromUTF8? bytes with
    | none => .error (.unreadable path .notText)
    | some text => (Config.ofDocument text).mapError .config

@[simp] theorem run_load (t : FileTree) (path : Path) :
    t.run (Config.load path) = (t.load path, t) := by
  simp only [Config.load, Disk.readText, load, run_bind, run_read]
  cases t.read path with
  | error e => simp
  | ok bytes => cases htext : String.fromUTF8? bytes <;> simp [htext]

/-! ## Writing -/

/-- Whether a tree has more than another one only in directories, and is seen from the same
one. -/
structure ExtendsByDirs (u t : FileTree) : Prop where
  home_eq : u.home = t.home
  same_or_new : ∀ a, u.lookup a = t.lookup a ∨ t.lookup a = none ∧ u.lookup a = some .dir

theorem ExtendsByDirs.refl (t : FileTree) : t.ExtendsByDirs t := ⟨rfl, fun _ => .inl rfl⟩

theorem ExtendsByDirs.trans (h : v.ExtendsByDirs u) (k : u.ExtendsByDirs t) :
    v.ExtendsByDirs t := by
  refine ⟨h.home_eq.trans k.home_eq, fun a => ?_⟩
  obtain hv | ⟨hu, hv⟩ := h.same_or_new a
  · rw [hv]
    exact k.same_or_new a
  · obtain ht | ⟨-, hdir⟩ := k.same_or_new a
    · exact .inr ⟨ht ▸ hu, hv⟩
    · simp [hdir] at hu

/-- With more directories all that there was stays. -/
theorem ExtendsByDirs.extends (h : u.ExtendsByDirs t) : u.Extends t := by
  refine ⟨h.home_eq, fun {a entry} ha => ?_⟩
  obtain hu | ⟨hnone, -⟩ := h.same_or_new a
  · rw [hu, ha]
  · simp [hnone] at ha

/-- One more directory, or none if it fails. -/
theorem extendsByDirs_makeDir (t : FileTree) (p : Path) :
    (t.settle (t.makeDir p)).2.ExtendsByDirs t := by
  cases h : t.makeDir p with
  | error e => exact .refl t
  | ok u =>
    obtain ⟨name, dir, -, -, free, hput⟩ := makeDir_eq_ok_iff.1 h
    refine ⟨hput.home_eq, fun a => ?_⟩
    rw [settle]
    by_cases ha : a = name :: dir
    · subst ha
      exact .inr ⟨free, hput.lookup_self⟩
    · exact .inl (hput.lookup_of_ne ha)

/-- Making folders adds nothing but directories, whether or not all can be made. -/
theorem extendsByDirs_makeNested (t : FileTree) (ps : List Path) :
    (t.run (Disk.makeNested ps)).2.ExtendsByDirs t := by
  induction ps generalizing t with
  | nil => exact .refl t
  | cons p around ih =>
    have hfirst := extendsByDirs_makeDir t p
    rw [Disk.makeNested, run_bind, run_makeDir]
    split
    · exact hfirst
    · rw [run_bind]
      have haround := (ih (t.settle (t.makeDir p)).2).trans hfirst
      split
      · exact haround
      · rw [run_bind, run_makeDir]
        have hagain := (extendsByDirs_makeDir _ p).trans haround
        split
        · exact hagain
        · exact hagain
    · exact hfirst

/-- A file is written into the tree that has its folder, unless the folder fails. -/
theorem run_writeFile (t : FileTree) (root : Path) (file : PackFile) :
    t.run (file.write root) =
      match t.run (Disk.makeDirs (root.join file.folder)) with
      | (.error e, u) => (.error ⟨root.join file.folder, e⟩, u)
      | (.ok (), u) =>
        match u.write (root.join file.path) file.text.toUTF8 with
        | .error e => (.error ⟨root.join file.path, e⟩, u)
        | .ok v => (.ok (root.join file.path), v) := by
  rw [PackFile.write, run_bind]
  obtain ⟨answer, u⟩ := t.run (Disk.makeDirs (root.join file.folder))
  cases answer with
  | error e => rfl
  | ok _ =>
    simp only [run_bind, run_write]
    cases u.write (root.join file.path) file.text.toUTF8 <;> rfl

end FileTree

namespace CommandLine

open FileTree

/-! ## Whole runs -/

/-- All that a run can come to on a tree, once its arguments are read. -/
inductive Generation (config output : Path) (force : Bool) (t : FileTree) :
    Outcome → FileTree → Prop where
  /-- There was a reason not to start. -/
  | refused {issues : List Issue} (found : t.issues config output force = issues)
      (some_found : issues ≠ []) :
    Generation config output force t ⟨[], .failed (.refused issues)⟩ t
  /-- There was no plan to be had. -/
  | unplanned {e : LoadError} (start : t.issues config output force = [])
      (plan : t.load config = .error e) :
    Generation config output force t ⟨[], .failed (.load e)⟩ t
  /-- Writing has failed, perhaps half way through. -/
  | unwritten {c : Config} {e : WriteError} {u : FileTree}
      (start : t.issues config output force = []) (plan : t.load config = .ok c)
      (write : t.run ((Pack.ofConfig c).write output) = (.error e, u)) :
    Generation config output force t ⟨[loadedLine config c], .failed (.write e)⟩ u
  /-- All files were written. -/
  | written {c : Config} {report : Report} {u : FileTree}
      (start : t.issues config output force = []) (plan : t.load config = .ok c)
      (write : t.run ((Pack.ofConfig c).write output) = (.ok report, u)) :
    Generation config output force t
      ⟨[loadedLine config c, wroteLine output report], .generated⟩ u

/-- A run comes to one of these. -/
theorem generation_run (t : FileTree) (config output : Path) (force : Bool) :
    Generation config output force t (t.run (generate config output force)).1
      (t.run (generate config output force)).2 := by
  rw [generate, run_bind, run_issues]
  cases hissues : t.issues config output force with
  | cons issue issues => exact .refused hissues (List.cons_ne_nil issue issues)
  | nil =>
    simp only [run_bind, run_load]
    cases hplan : t.load config with
    | error e => exact .unplanned hissues hplan
    | ok c =>
      simp only [run_bind]
      cases hwrite : t.run ((Pack.ofConfig c).write output) with
      | mk answer u =>
        cases answer with
        | error e => exact .unwritten hissues hplan hwrite
        | ok report => exact .written hissues hplan hwrite

end CommandLine

end ZonePack

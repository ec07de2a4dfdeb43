import ZonePack.Proofs.Ancestors
import ZonePack.Proofs.Run

/-!
# ZonePack.Proofs.Folders

Making folders inside of a directory that is there.  Of the folders around one that is
wanted, those that are missing are made from the outside in, so a failure could leave
some of them behind.  It does not: what keeps the last one from being made was in the
way of the first one already.

* `run_makeDirs_of_isDir` — a directory that is there is not made again;
* `MadeOrKept` — the tree is as it was, or the wanted folder is there and was not before;
  `MadeOrKept.makeNested_cons` goes one name further in;
* `madeOrKept_makeDirs` — so it is for a folder at the end of some names below a root.
-/

namespace ZonePack

namespace FileTree

variable {t u v : FileTree} {p q : Path} {name : String} {place next dir a : Address}
  {around : List Path}

/-! ## Directories that are there -/

/-- A way ends at a directory exactly if it can be walked to there. -/
theorem endsAt_iff : t.EndsAt p place ↔
    t.walk (t.startOf p) p.steps = .ok place ∧ t.lookup place = some .dir := by
  rw [EndsAt, walk_append_iff]
  simp only [walk_here_iff]
  constructor
  · intro h
    obtain ⟨middle, hwalk, hdir, rfl⟩ := h
    exact ⟨hwalk, hdir⟩
  · intro h
    exact ⟨place, h.1, h.2, rfl⟩

/-- A name leads to a directory from the one that it is in. -/
theorem walk_name_here_iff : t.walk dir [.name name, .here] = .ok next ↔
    name.utf8ByteSize ≤ maxNameBytes ∧ t.lookup (name :: dir) = some .dir ∧
      next = name :: dir := by
  have hnames := @walk_names_iff t next dir [name]
  simpa using hnames

/-- The way of a name in a folder ends at the directory of this name. -/
theorem endsAt_join_name_iff (hp : p.text ≠ "") (hname : Path.IsName name) :
    t.EndsAt (p.join ⟨name⟩) place ↔ ∃ dir, t.EndsAt p dir ∧
      name.utf8ByteSize ≤ maxNameBytes ∧ t.lookup (name :: dir) = some .dir ∧
      place = name :: dir := by
  have hsteps : (p.join ⟨name⟩).steps ++ [.here] = p.steps ++ [.name name, .here] := by
    rw [Path.steps_join, hname.steps, List.append_assoc]
    rfl
  rw [EndsAt, t.startOf_join hp, hsteps, walk_append_iff]
  simp only [walk_name_here_iff]
  constructor
  · intro h
    obtain ⟨dir, hfolder, hfit, hdir, rfl⟩ := h
    have haround : t.lookup dir = some .dir := lookup_of_lookup_cons hdir
    exact ⟨dir, endsAt_iff.2 ⟨hfolder, haround⟩, hfit, hdir, rfl⟩
  · intro h
    obtain ⟨dir, hfolder, hfit, hdir, rfl⟩ := h
    exact ⟨dir, (endsAt_iff.1 hfolder).1, hfit, hdir, rfl⟩

/-- The folder of a file is there, and the file is where its name is to be put. -/
theorem exists_target_of_isFile (hp : p.text ≠ "") (hname : Path.IsName name)
    (h : t.isFile (p.join ⟨name⟩) = true) :
    ∃ dir bytes, t.LeadsToDir p dir ∧
      t.target (p.join ⟨name⟩) = .ok (.entry name dir) ∧
      t.lookup (name :: dir) = some (.file bytes) := by
  obtain ⟨bytes, hfind⟩ := isFile_iff.1 h
  obtain ⟨a, hlocate, hfile⟩ := find_eq_file_iff.1 hfind
  rw [locate] at hlocate
  cases hfault : pathFault? (p.join ⟨name⟩) with
  | some e => simp [hfault] at hlocate
  | none =>
    rw [hfault, hname.asksForDir_join hp, if_neg Bool.false_ne_true, t.startOf_join hp,
      Path.steps_join, hname.steps] at hlocate
    obtain ⟨dir, hfolder, hlast⟩ := walk_append_iff.1 hlocate
    obtain ⟨hdir, next, hnext, hend⟩ := walk_cons_iff.1 hlast
    cases hend
    obtain ⟨hfit, rfl⟩ := follow_name_iff.1 hnext
    have hleads : t.LeadsToDir p dir :=
      leadsToDir_iff.2 ⟨pathFault?_of_join hp hfault, endsAt_iff.2 ⟨hfolder, hdir⟩⟩
    exact ⟨dir, bytes, hleads,
      (target_join_name_iff hp hname).2 ⟨hfault, hleads, hfit, rfl⟩, hfile⟩

/-- A file can be put where no directory is. -/
theorem exists_write_of_target (hp : p.text ≠ "") (hname : Path.IsName name)
    (htarget : t.target (p.join ⟨name⟩) = .ok (.entry name dir))
    (not_dir : t.lookup (name :: dir) ≠ some .dir) (bytes : ByteArray) :
    ∃ u, t.write (p.join ⟨name⟩) bytes = .ok u ∧ u.HasPut t (name :: dir) (.file bytes) := by
  obtain ⟨-, ⟨-, in_dir⟩, -⟩ := (target_join_name_iff hp hname).1 htarget
  have hput := hasPut_put (.file bytes) in_dir not_dir
  exact ⟨_, write_eq_ok_iff.2 ⟨name, dir, htarget, hname.asksForDir_join hp, in_dir, not_dir,
    hput⟩, hput⟩

/-- A directory that is there cannot be made. -/
theorem makeDir_of_isDir (h : t.isDir p = true) : t.makeDir p = .error .alreadyExists := by
  obtain ⟨place, hplace⟩ := isDir_iff.1 h
  obtain ⟨hfault, hwalk⟩ := leadsToDir_iff.1 hplace
  by_cases hlast : ∃ steps name, p.steps = steps ++ [.name name]
  · obtain ⟨steps, name, hsteps⟩ := hlast
    rw [hsteps, List.append_assoc, walk_append_iff] at hwalk
    obtain ⟨dir, haround, hname⟩ := hwalk
    obtain ⟨hfit, hdir, -⟩ := walk_name_here_iff.1 hname
    have hin_dir : t.lookup dir = some .dir := lookup_of_lookup_cons hdir
    have hfolder : t.walk (t.startOf p) (steps ++ [.here]) = .ok dir :=
      walk_append_iff.2 ⟨dir, haround, walk_here_iff.2 ⟨hin_dir, rfl⟩⟩
    have htarget : t.target p = .ok (.entry name dir) :=
      (target_eq_entry_iff hsteps).2 ⟨hfault, hfolder, hfit, rfl⟩
    simp [-lookup_cons, makeDir, htarget, hin_dir, hdir]
  · have htarget : t.target p = .ok .present := by
      rw [target, hfault]
      cases hstep : p.steps.getLast? with
      | none => simp [hwalk, Except.map]
      | some step =>
        cases step with
        | here | up => simp [hwalk, Except.map]
        | name name =>
          obtain ⟨steps, hsteps⟩ := List.getLast?_eq_some_iff.1 hstep
          exact absurd ⟨steps, name, hsteps⟩ hlast
    rw [makeDir, htarget]

/-- Making a directory that is there leaves the tree alone. -/
theorem run_makeDirs_of_isDir (h : t.isDir p = true) : t.run (Disk.makeDirs p) = (.ok (), t) := by
  rw [Disk.makeDirs, Path.ancestors]
  by_cases hp : p.components = []
  · rw [if_pos hp]
    rfl
  · rw [if_neg hp, Disk.makeNested, run_bind, run_makeDir, makeDir_of_isDir h]
    simp only [settle, run_bind, run_isDir, h, if_true, run_pure]

/-! ## Nested folders -/

/-- Where nothing is after some directories were added, nothing was before. -/
theorem ExtendsByDirs.lookup_eq_none (h : u.ExtendsByDirs t) (ha : u.lookup a = none) :
    t.lookup a = none := by
  obtain hsame | ⟨hnone, -⟩ := h.same_or_new a
  · rw [← hsame, ha]
  · exact hnone

/-- An attempt to make a directory, which succeeds also where it is there. -/
def ensureDir (t : FileTree) (p : Path) : Except FileError Unit × FileTree :=
  match t.makeDir p with
  | .ok u => (.ok (), u)
  | .error e => (if t.isDir p then .ok () else .error e, t)

/-- A folder is made at once, or after those around it if these are missing. -/
theorem run_makeNested_cons (t : FileTree) (p : Path) (around : List Path) :
    t.run (Disk.makeNested (p :: around)) =
      match t.makeDir p with
      | .error .notFound =>
        match t.run (Disk.makeNested around) with
        | (.error e, u) => (.error e, u)
        | (.ok (), u) => u.ensureDir p
      | _ => t.ensureDir p := by
  rw [Disk.makeNested, run_bind, run_makeDir, ensureDir]
  cases t.makeDir p with
  | ok u => rfl
  | error e =>
    cases e with
    | notFound =>
      simp only [settle, run_bind]
      obtain ⟨answer, u⟩ := t.run (Disk.makeNested around)
      cases answer with
      | error e => rfl
      | ok _ =>
        simp only [run_bind, run_makeDir, ensureDir]
        cases u.makeDir p <;> rfl
    | _ => rfl

/-- Where no directory is missing around a folder, there is one attempt. -/
theorem run_makeNested_of_ne_notFound (h : t.makeDir p ≠ .error .notFound) :
    t.run (Disk.makeNested (p :: around)) = t.ensureDir p := by
  rw [run_makeNested_cons]
  cases hmake : t.makeDir p with
  | ok u => rfl
  | error e =>
    cases e with
    | notFound => exact absurd hmake h
    | _ => rfl

/-- A result of making folders: the tree as it was, or a tree with the wanted folder, at an
address where nothing was before. -/
inductive MadeOrKept (t : FileTree) (p : Path) : Except FileError Unit × FileTree → Prop where
  | kept (answer : Except FileError Unit) : MadeOrKept t p (answer, t)
  | made {u : FileTree} {a : Address} (there : u.EndsAt p a) (new : t.lookup a = none) :
    MadeOrKept t p (.ok (), u)

/-- The folder may be said in another way. -/
theorem MadeOrKept.congr {made : Except FileError Unit × FileTree} (h : t.MadeOrKept p made)
    (hpq : p.Alike q) : t.MadeOrKept q made := by
  cases h with
  | kept answer => exact .kept answer
  | made there new => exact .made ((endsAt_congr_of_alike hpq).1 there) new

/-- A folder that could be made in another one is there now and was not before. -/
theorem exists_endsAt_of_makeDir (hp : p.text ≠ "") (hname : Path.IsName name)
    (h : t.makeDir (p.join ⟨name⟩) = .ok u) :
    ∃ a, u.EndsAt (p.join ⟨name⟩) a ∧ t.lookup a = none := by
  obtain ⟨n, dir, htarget, -, free, hput⟩ := makeDir_eq_ok_iff.1 h
  obtain ⟨-, hdir, hfit, rfl⟩ := (target_join_name_iff hp hname).1 htarget
  have hfolder : u.EndsAt p dir :=
    (leadsToDir_iff.1 ((hput.extends (.refl t) free).keepsDirs.leadsToDir hdir)).2
  exact ⟨n :: dir,
    (endsAt_join_name_iff hp hname).2 ⟨dir, hfolder, hfit, hput.lookup_self, rfl⟩, free⟩

/-- The fault of a path that says something is not that something is missing. -/
theorem pathFault?_ne_notFound (hp : p.text ≠ "") : pathFault? p ≠ some .notFound := by
  intro h
  rw [pathFault?, if_neg hp] at h
  split at h
  · cases h
  · split at h <;> cases h

/-- The fault of a path keeps a directory from being made. -/
theorem makeDir_of_pathFault? {e : FileError} (h : pathFault? p = some e) :
    t.makeDir p = .error e := by
  rw [makeDir, target, h]

/-- Where a directory cannot be made because one around it is missing, its path is not at
fault. -/
theorem pathFault?_of_makeDir_eq_notFound (hp : p.text ≠ "")
    (h : t.makeDir p = .error .notFound) : pathFault? p = none := by
  cases hfault : pathFault? p with
  | none => rfl
  | some e =>
    cases (makeDir_of_pathFault? hfault).symm.trans h
    exact absurd hfault (pathFault?_ne_notFound hp)

/-- A directory that cannot be made for something else than a missing one around it
leaves the tree alone. -/
theorem madeOrKept_of_makeDir_eq_error {e : FileError} (h : t.makeDir p = .error e)
    (he : e ≠ .notFound) : t.MadeOrKept p (t.run (Disk.makeNested (p :: around))) := by
  have hne : t.makeDir p ≠ .error .notFound := by
    rw [h]
    exact fun heq => he (Except.error.inj heq)
  rw [run_makeNested_of_ne_notFound hne, ensureDir, h]
  exact .kept _

/-- Where a new directory has been made, only a directory can be in the way of a folder
in it. -/
theorem endsAt_join_of_makeDir_eq_error {e : FileError} (hp : p.text ≠ "")
    (hname : Path.IsName name) (hfit : name.utf8ByteSize ≤ maxNameBytes)
    (hfault : pathFault? (p.join ⟨name⟩) = none) (hfolder : u.EndsAt p dir)
    (hext : u.ExtendsByDirs t) (hnew : t.lookup (name :: dir) = none)
    (h : u.makeDir (p.join ⟨name⟩) = .error e) :
    u.EndsAt (p.join ⟨name⟩) (name :: dir) := by
  have hleads : u.LeadsToDir p dir :=
    leadsToDir_iff.2 ⟨pathFault?_of_join hp hfault, hfolder⟩
  have htarget : u.target (p.join ⟨name⟩) = .ok (.entry name dir) :=
    (target_join_name_iff hp hname).2 ⟨hfault, hleads, hfit, rfl⟩
  obtain hsame | ⟨-, hdir⟩ := hext.same_or_new (name :: dir)
  · have hin_dir : u.lookup dir = some .dir := hleads.2
    rw [hnew] at hsame
    simp [-lookup_cons, makeDir, htarget, hin_dir, hsame] at h
  · exact (endsAt_join_name_iff hp hname).2 ⟨dir, hfolder, hfit, hdir, rfl⟩

/-- After the directories around a folder were made, it can be made itself. -/
theorem MadeOrKept.makeDir_again (hp : p.text ≠ "") (hname : Path.IsName name)
    (hfit : name.utf8ByteSize ≤ maxNameBytes) (hfault : pathFault? (p.join ⟨name⟩) = none)
    (hext : u.ExtendsByDirs t) (h : t.MadeOrKept p (.ok (), u)) :
    t.MadeOrKept (p.join ⟨name⟩) (u.ensureDir (p.join ⟨name⟩)) := by
  rw [ensureDir]
  cases hmake : u.makeDir (p.join ⟨name⟩) with
  | ok v =>
    obtain ⟨a, hthere, hnew⟩ := exists_endsAt_of_makeDir hp hname hmake
    exact .made hthere (hext.lookup_eq_none hnew)
  | error e =>
    cases h with
    | kept => exact .kept _
    | @made _ dir hfolder hnew =>
      -- the address is new because the one around it is
      have hnone : t.lookup (name :: dir) = none := by
        cases hentry : t.lookup (name :: dir) with
        | none => rfl
        | some entry =>
          rw [lookup_of_lookup_cons hentry] at hnew
          cases hnew
      have hends := endsAt_join_of_makeDir_eq_error hp hname hfit hfault hfolder hext hnone hmake
      have hdir := isDir_iff.2 ⟨_, leadsToDir_iff.2 ⟨hfault, hends⟩⟩
      simp only [hdir, if_true]
      exact .made hends hnone

/-- What keeps a folder from being made once there are those around it was in the way
before: so one name further in, it is all or nothing again. -/
theorem MadeOrKept.makeNested_cons (hp : p.text ≠ "") (hname : Path.IsName name)
    (hfit : name.utf8ByteSize ≤ maxNameBytes)
    (h : t.MadeOrKept p (t.run (Disk.makeNested around))) :
    t.MadeOrKept (p.join ⟨name⟩) (t.run (Disk.makeNested (p.join ⟨name⟩ :: around))) := by
  cases hfirst : t.makeDir (p.join ⟨name⟩) with
  | ok u =>
    obtain ⟨a, hthere, hnew⟩ := exists_endsAt_of_makeDir hp hname hfirst
    rw [run_makeNested_of_ne_notFound (by rw [hfirst]; nofun), ensureDir, hfirst]
    exact .made hthere hnew
  | error e =>
    by_cases he : e = .notFound
    · subst he
      have hfault := pathFault?_of_makeDir_eq_notFound (Path.text_join_ne_empty hp ⟨name⟩) hfirst
      have hext := extendsByDirs_makeNested t around
      rw [run_makeNested_cons, hfirst]
      generalize t.run (Disk.makeNested around) = made at h hext ⊢
      obtain ⟨answer, u⟩ := made
      cases answer with
      | error e =>
        cases h
        exact .kept _
      | ok _ => exact h.makeDir_again hp hname hfit hfault hext
    · exact madeOrKept_of_makeDir_eq_error hfirst he

end FileTree

/-! ## Folders below a root -/

namespace Path

/-- The folder at the end of some names. -/
def below (root : Path) (names : List String) : Path :=
  names.foldl (fun p name => p.join ⟨name⟩) root

@[simp] theorem below_nil (root : Path) : root.below [] = root := rfl

@[simp] theorem below_cons (root : Path) (name : String) (names : List String) :
    root.below (name :: names) = (root.join ⟨name⟩).below names := rfl

theorem below_append (root : Path) (names more : List String) :
    root.below (names ++ more) = (root.below names).below more :=
  List.foldl_append

/-- What is below a folder inside another one is below the two of them together. -/
theorem join_below {q : Path} (hq : q.text ≠ "") (p : Path) (names : List String) :
    p.join (q.below names) = (p.join q).below names := by
  induction names generalizing q with
  | nil => rfl
  | cons name names ih =>
    rw [below_cons, ih (text_join_ne_empty hq ⟨name⟩), join_join hq, below_cons]

theorem text_below_ne_empty {root : Path} (h : root.text ≠ "") (names : List String) :
    (root.below names).text ≠ "" := by
  induction names generalizing root with
  | nil => exact h
  | cons name names ih => exact ih (text_join_ne_empty h ⟨name⟩)

/-- What says the same as something does not say nothing. -/
theorem Alike.text_ne_empty {p q : Path} (h : p.Alike q) (hq : q.text ≠ "") : p.text ≠ "" := by
  intro hp
  obtain ⟨first, rest, hcomponents, -⟩ := exists_components_eq_cons hq
  rw [Alike, hcomponents, components, hp] at h
  cases h

end Path

namespace FileTree

variable {t : FileTree} {p root : Path} {names : List String}

/-- The root is there already. -/
theorem madeOrKept_outward_root {place : Address} (hroot : root.text ≠ "")
    (h : t.EndsAt root place) :
    t.MadeOrKept root (t.run (Disk.makeNested (Path.outward root.components))) := by
  obtain ⟨around, haround⟩ := Path.exists_outward_components hroot
  have halike := Path.alike_ofComponents root
  have hends := (endsAt_congr_of_alike halike).2 h
  have hwritten := halike.text_ne_empty hroot
  rw [haround]
  refine MadeOrKept.congr ?_ halike
  cases hfault : pathFault? (Path.ofComponents root.components) with
  | none =>
    have hdir := isDir_iff.2 ⟨place, leadsToDir_iff.2 ⟨hfault, hends⟩⟩
    exact madeOrKept_of_makeDir_eq_error (makeDir_of_isDir hdir) nofun
  | some e =>
    refine madeOrKept_of_makeDir_eq_error (makeDir_of_pathFault? hfault) ?_
    intro he
    subst he
    exact pathFault?_ne_notFound hwritten hfault

/-- From a folder that is there or is made with those around it, so it is for all that is
below. -/
theorem MadeOrKept.outward_below (hp : p.text ≠ "")
    (h : t.MadeOrKept p (t.run (Disk.makeNested (Path.outward p.components))))
    (hnames : ∀ name ∈ names, Path.IsName name ∧ name.utf8ByteSize ≤ maxNameBytes) :
    t.MadeOrKept (p.below names)
      (t.run (Disk.makeNested (Path.outward (p.below names).components))) := by
  induction names generalizing p with
  | nil => exact h
  | cons name names ih =>
    rw [List.forall_mem_cons] at hnames
    obtain ⟨⟨hname, hfit⟩, hnames⟩ := hnames
    have halike := Path.alike_ofComponents p
    have hwritten := halike.text_ne_empty hp
    refine ih (Path.text_join_ne_empty hp ⟨name⟩) ?_ hnames
    rw [Path.outward_join_name hp hname]
    refine (MadeOrKept.makeNested_cons hwritten hname hfit (h.congr halike.symm)).congr ?_
    rw [Path.Alike, Path.components_join_name hwritten hname, Path.components_join_name hp hname,
      halike]

/-- Making a folder below a root that is there either leaves the tree as it was, or makes
the folder where nothing was before. -/
theorem madeOrKept_makeDirs (hroot : t.isDir root = true) (hne : names ≠ [])
    (hnames : ∀ name ∈ names, Path.IsName name ∧ name.utf8ByteSize ≤ maxNameBytes) :
    t.MadeOrKept (root.below names) (t.run (Disk.makeDirs (root.below names))) := by
  obtain ⟨place, hplace⟩ := isDir_iff.1 hroot
  obtain rfl | ⟨folders, name, rfl⟩ := List.eq_nil_or_concat names
  · exact absurd rfl hne
  · rw [List.concat_eq_append, List.forall_mem_append] at hnames
    obtain ⟨hname, hfit⟩ := hnames.2 name List.mem_cons_self
    have hfolder := Path.text_below_ne_empty hplace.text_ne_empty folders
    have hends := (leadsToDir_iff.1 hplace).2
    have haround := (madeOrKept_outward_root hplace.text_ne_empty hends).outward_below
      hplace.text_ne_empty hnames.1
    rw [List.concat_eq_append, Path.below_append, Path.below_cons, Path.below_nil, Disk.makeDirs,
      Path.ancestors_join_name hfolder hname]
    exact haround.makeNested_cons hfolder hname hfit

/-- The path of a folder that has been made, or was there, can be followed. -/
theorem pathFault?_of_run_makeDirs {u : FileTree} (hp : p.text ≠ "")
    (h : t.run (Disk.makeDirs p) = (.ok (), u)) : pathFault? p = none := by
  obtain ⟨first, rest, hcomponents, -⟩ := Path.exists_components_eq_cons hp
  cases hfault : pathFault? p with
  | none => rfl
  | some e =>
    have hmissing : t.isDir p = false := by
      rw [isDir, find, locate, hfault]
    have hmake := @makeDir_of_pathFault? t p e hfault
    have hne : t.makeDir p ≠ .error .notFound := by
      rw [hmake]
      exact fun heq => pathFault?_ne_notFound hp (Except.error.inj heq ▸ hfault)
    rw [Disk.makeDirs, Path.ancestors, if_neg (by simp [hcomponents]),
      run_makeNested_of_ne_notFound hne, ensureDir, hmake] at h
    simp [hmissing] at h

end FileTree

end ZonePack

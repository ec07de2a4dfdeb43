import ZonePack.Proofs.Folders
import ZonePack.Proofs.Pack

/-!
# ZonePack.Proofs.Writing

What writing a pack leaves on a tree of files.  All files of a pack are put below
the place of its root, so where one of them goes is said by two addresses: its own
inside the pack (`PackFile.address`), and that of the root (`FileTree.IsRootAt`),
which does not change while directories are only added.

* `Overwrites` says which entries differ after some files were written: at the
  address of a file there is now the last of those with this address, and
  elsewhere there is nothing new but directories.  One file after others adds to
  it (`Overwrites.trans`).
* `overwrites_writeFile` is one file, and `overwrites_writeFiles` all of them.
* `exists_failed_file` finds the file at which writing has stopped.
* `leaves_run_write` is the outcome for the whole pack of a plan.
-/

namespace ZonePack

namespace PackFile

variable {f g : PackFile}

/-! ## Addresses in a pack -/

/-- Where the file is inside a pack. -/
def address (f : PackFile) : Address :=
  f.fileName :: f.folderNames.reverse

/-- Below a root, the folder is at the end of its names. -/
theorem join_folder (f : PackFile) (root : Path) :
    root.join f.folder = root.below f.folderNames := by
  have hpredicate : Layout.predicateFolder =
      (Path.mk "data").below ["softborder", "predicates"] := by decide
  have hscript : Layout.scriptFolder =
      (Path.mk "data").below ["softborder", "functions", "private", "gen"] := by decide
  cases f with
  | mk name body =>
    cases body with
    | predicate p =>
      rw [folder, hpredicate, Path.join_below (by decide)]
      rfl
    | script s =>
      rw [folder, hscript, Path.join_below (by decide)]
      rfl

/-- There are few names of folders. -/
theorem mem_of_mem_folderNames {name : String} (h : name ∈ f.folderNames) :
    name ∈ ["data", "softborder", "predicates", "functions", "private", "gen"] := by
  obtain ⟨own, body⟩ := f
  cases body <;> simp [folderNames] at h ⊢ <;> tauto

/-- All of them can be names of entries. -/
theorem isName_of_mem_folderNames {name : String} (h : name ∈ f.folderNames) :
    Path.IsName name ∧ name.utf8ByteSize ≤ FileTree.maxNameBytes := by
  have hname := mem_of_mem_folderNames h
  simp only [List.mem_cons, List.not_mem_nil, or_false] at hname
  obtain rfl | rfl | rfl | rfl | rfl | rfl := hname
  all_goals exact ⟨Path.isName_of_length (by decide) (by decide), by decide⟩

/-- No folder is the root itself. -/
theorem folderNames_ne_nil (f : PackFile) : f.folderNames ≠ [] := by
  cases f with
  | mk name body => cases body <;> exact List.cons_ne_nil _ _

/-- A folder of a pack is a relative path. -/
theorem isAbsolute_folder (f : PackFile) : f.folder.isAbsolute = false := by
  obtain h | h := f.folder_eq_or <;> rw [h] <;> decide

/-- The kinds of files are told apart by their folders. -/
theorem folder_eq_of_folderNames_eq (h : f.folderNames = g.folderNames) :
    f.folder = g.folder := by
  obtain ⟨name, body⟩ := f
  obtain ⟨own, other⟩ := g
  cases body <;> cases other
  · rfl
  · simp [folderNames] at h
  · simp [folderNames] at h
  · rfl

/-- Files at one address have one path. -/
theorem path_eq_of_address_eq (h : f.address = g.address) : f.path = g.path := by
  obtain ⟨hname, hnames⟩ := List.cons.inj h
  rw [path_eq_join, path_eq_join, folder_eq_of_folderNames_eq (List.reverse_inj.1 hnames), hname]

/-- Files are at one address exactly if their paths say the same. -/
theorem address_eq_iff (hf : Name.IsPlain f.name) (hg : Name.IsPlain g.name) :
    f.address = g.address ↔ f.path.Alike g.path := by
  constructor
  · intro h
    rw [path_eq_of_address_eq h]
    exact rfl
  · intro h
    obtain ⟨name, body⟩ := f
    obtain ⟨own, other⟩ := g
    have hpath := path_eq_of_alike hf hg h
    cases body <;> cases other
    · cases Layout.predicateFile_inj.1 hpath
      rfl
    · exact absurd hpath.symm (Layout.scriptFile_ne_predicateFile _ _)
    · exact absurd hpath (Layout.scriptFile_ne_predicateFile _ _)
    · cases (Layout.scriptFile_alike_iff hf.slash_not_mem hg.slash_not_mem).1 h
      rfl

end PackFile

namespace FileTree

variable {t u v : FileTree} {root : Path} {base dir : Address} {f : PackFile}
  {files : List PackFile}

/-! ## The place of the root -/

/-- Whether a path leads to an address, at which nothing need be.  The empty path
leads to the working directory. -/
def IsRootAt (t : FileTree) (root : Path) (base : Address) : Prop :=
  t.walk (t.startOf root) root.steps = .ok base

/-- A root is at one address. -/
theorem IsRootAt.unique {other : Address} (h : t.IsRootAt root base)
    (k : t.IsRootAt root other) : base = other := by
  rw [IsRootAt] at h k
  rw [h] at k
  cases k
  rfl

/-- A root stays where it is while directories stay. -/
theorem KeepsDirs.isRootAt (h : u.KeepsDirs t) (hroot : t.IsRootAt root base) :
    u.IsRootAt root base := by
  rw [IsRootAt, h.startOf]
  exact h.walk hroot

/-- Where a folder of a pack is, its root is as many names further out. -/
theorem exists_isRootAt (h : t.LeadsToDir (root.join f.folder) dir) :
    ∃ base, t.IsRootAt root base ∧ dir = f.folderNames.reverse ++ base := by
  obtain ⟨-, hwalk⟩ := leadsToDir_iff.1 h
  rw [t.startOf_join_of_relative f.isAbsolute_folder, Path.steps_join, f.steps_folder,
    List.append_assoc, walk_append_iff] at hwalk
  obtain ⟨base, hroot, hnames⟩ := hwalk
  obtain ⟨-, -, hplace⟩ := walk_names_iff.1 hnames
  exact ⟨base, hroot, hplace⟩

/-- A file that can be put under a root goes to its own address below that of the root,
and this is where its path leads. -/
theorem locate_of_target {name : String} (hf : '/' ∉ f.name.toList)
    (h : t.target (root.join f.path) = .ok (.entry name dir)) :
    ∃ base, t.IsRootAt root base ∧ name :: dir = f.address ++ base ∧
      t.locate (root.join f.path) = .ok (f.address ++ base) := by
  have hname := PackFile.isName_fileName hf
  have htext := Path.text_join_ne_empty_of_right f.text_folder_ne_empty root
  rw [f.join_path] at h ⊢
  obtain ⟨-, hdir, -, rfl⟩ := (target_join_name_iff htext hname).1 h
  have hlocate := locate_join_name htext hname h
  obtain ⟨base, hroot, rfl⟩ := exists_isRootAt hdir
  exact ⟨base, hroot, rfl, hlocate⟩

/-! ## Entries that are overwritten -/

/-- Whether a tree is another one after some files have been put below an address: of the
files with one address the last one is there, in the place of what was there before,
and elsewhere there may be new directories, but no other change.  Both are seen from one
directory. -/
structure Overwrites (base : Address) (files : List PackFile) (t u : FileTree) : Prop where
  home_eq : u.home = t.home
  entries : ∀ a, match files.findRev? (fun f => f.address ++ base = a) with
    | some f => u.lookup a = some (.file f.text.toUTF8)
    | none => u.lookup a = t.lookup a ∨ t.lookup a = none ∧ u.lookup a = some .dir

/-- Without files there are only new directories. -/
theorem ExtendsByDirs.overwrites (h : u.ExtendsByDirs t) (base : Address) :
    Overwrites base [] t u := ⟨h.home_eq, h.same_or_new⟩

/-- More files go over those that are there. -/
theorem Overwrites.trans {more : List PackFile} (h : Overwrites base files t v)
    (k : Overwrites base more v u) : Overwrites base (files ++ more) t u := by
  refine ⟨k.home_eq.trans h.home_eq, fun a => ?_⟩
  replace h := h.entries a
  replace k := k.entries a
  rw [findRev?_append]
  cases hmore : more.findRev? (fun f => f.address ++ base = a) with
  | some g =>
    rw [hmore] at k
    exact k
  | none =>
    rw [hmore] at k
    rw [Option.none_or]
    cases hfiles : files.findRev? (fun f => f.address ++ base = a) with
    | some g =>
      rw [hfiles] at h
      obtain hkeep | ⟨hnone, -⟩ := k
      · exact hkeep.trans h
      · rw [h] at hnone
        cases hnone
    | none =>
      rw [hfiles] at h
      obtain hkeep | ⟨hnone, hdir⟩ := k
      · rw [hkeep]
        exact h
      · obtain hkeep | ⟨-, hother⟩ := h
        · exact .inr ⟨hkeep ▸ hnone, hdir⟩
        · rw [hnone] at hother
          cases hother

/-- New directories are no change to the files. -/
theorem Overwrites.extendsByDirs (h : Overwrites base files t v) (k : u.ExtendsByDirs v) :
    Overwrites base files t u := by
  have hall := h.trans (k.overwrites base)
  rwa [List.append_nil] at hall

/-! ## Writing -/

/-- A file has been written exactly if its folder could be made and the file be put
into it. -/
theorem run_writeFile_eq_ok_iff {path : Path} : t.run (f.write root) = (.ok path, u) ↔
    path = root.join f.path ∧ ∃ v, t.run (Disk.makeDirs (root.join f.folder)) = (.ok (), v) ∧
      v.write (root.join f.path) f.text.toUTF8 = .ok u := by
  rw [run_writeFile]
  generalize f.text.toUTF8 = bytes
  cases t.run (Disk.makeDirs (root.join f.folder)) with
  | mk answer v =>
    cases answer with
    | error e => simp
    | ok _ =>
      cases hwrite : v.write (root.join f.path) bytes with
      | error e => simp [hwrite]
      | ok w => simp [hwrite, eq_comm]

/-- Making folders keeps all directories. -/
theorem extendsByDirs_makeDirs {p : Path} {answer : Except FileError Unit}
    (h : t.run (Disk.makeDirs p) = (answer, u)) : u.ExtendsByDirs t := by
  have hnested := extendsByDirs_makeNested t p.ancestors
  rw [Disk.makeDirs] at h
  rw [h] at hnested
  exact hnested

/-- A file that has been written keeps all directories. -/
theorem keepsDirs_writeFile {path : Path} (h : t.run (f.write root) = (.ok path, u)) :
    u.KeepsDirs t := by
  obtain ⟨-, v, hfolder, hwrite⟩ := run_writeFile_eq_ok_iff.1 h
  exact (keepsDirs_of_write hwrite).trans (extendsByDirs_makeDirs hfolder).extends.keepsDirs

/-- A file that has been written is at its address, and nothing else has changed but for
new directories. -/
theorem overwrites_writeFile {path : Path} (hf : '/' ∉ f.name.toList)
    (h : t.run (f.write root) = (.ok path, u)) :
    ∃ base, u.IsRootAt root base ∧ Overwrites base [f] t u ∧
      u.locate (root.join f.path) = .ok (f.address ++ base) := by
  obtain ⟨-, v, hfolder, hwrite⟩ := run_writeFile_eq_ok_iff.1 h
  have hkeeps := keepsDirs_of_write hwrite
  have hdirs := extendsByDirs_makeDirs hfolder
  obtain ⟨name, dir, htarget, -, -, -, hput⟩ := write_eq_ok_iff.1 hwrite
  obtain ⟨base, hroot, hplace, hlocate⟩ := locate_of_target hf htarget
  refine ⟨base, hkeeps.isRootAt hroot, ⟨hput.home_eq.trans hdirs.home_eq, fun a => ?_⟩,
    hkeeps.locate hlocate⟩
  rw [hplace] at hput
  by_cases ha : f.address ++ base = a
  · subst ha
    simp [List.findRev?, hput.lookup_self]
  · rw [hput.lookup_of_ne (Ne.symm ha)]
    simpa [List.findRev?, ha] using hdirs.same_or_new a

/-- Files have all been written exactly if the first one was, and then the others. -/
theorem run_writeFiles_cons_eq_ok_iff {report final : Report} :
    t.run (Pack.writeFiles root report (f :: files)) = (.ok final, u) ↔
      ∃ v, t.run (f.write root) = (.ok (root.join f.path), v) ∧
        v.run (Pack.writeFiles root (report.add (root.join f.path) f) files) =
          (.ok final, u) := by
  rw [Pack.writeFiles, run_bind]
  cases hfirst : t.run (f.write root) with
  | mk answer v =>
    cases answer with
    | error e => simp
    | ok path =>
      obtain ⟨rfl, -⟩ := run_writeFile_eq_ok_iff.1 hfirst
      simp

/-- Files that have been written keep all directories. -/
theorem keepsDirs_writeFiles {report final : Report}
    (h : t.run (Pack.writeFiles root report files) = (.ok final, u)) : u.KeepsDirs t := by
  induction files generalizing t report with
  | nil =>
    cases h
    exact .refl u
  | cons f files ih =>
    obtain ⟨v, hfirst, hrest⟩ := run_writeFiles_cons_eq_ok_iff.1 h
    exact (ih hrest).trans (keepsDirs_writeFile hfirst)

/-- Once a file has been written, the root has its place. -/
theorem exists_isRootAt_of_writeFiles {report final : Report}
    (hnames : ∀ f ∈ files, '/' ∉ f.name.toList) (hne : files ≠ [])
    (h : t.run (Pack.writeFiles root report files) = (.ok final, u)) :
    ∃ base, u.IsRootAt root base := by
  cases files with
  | nil => exact absurd rfl hne
  | cons f files =>
    obtain ⟨v, hfirst, hrest⟩ := run_writeFiles_cons_eq_ok_iff.1 h
    obtain ⟨base, hroot, -⟩ := overwrites_writeFile (hnames f List.mem_cons_self) hfirst
    exact ⟨base, (keepsDirs_writeFiles hrest).isRootAt hroot⟩

/-- Files that have been written are at their addresses, the last of those with one
address, and nothing else has changed but for new directories. -/
theorem overwrites_writeFiles {report final : Report}
    (hnames : ∀ f ∈ files, '/' ∉ f.name.toList)
    (h : t.run (Pack.writeFiles root report files) = (.ok final, u))
    (hroot : u.IsRootAt root base) :
    Overwrites base files t u ∧
      ∀ f ∈ files, u.locate (root.join f.path) = .ok (f.address ++ base) := by
  induction files generalizing t report with
  | nil =>
    cases h
    exact ⟨(ExtendsByDirs.refl u).overwrites base, nofun⟩
  | cons f files ih =>
    rw [List.forall_mem_cons] at hnames
    obtain ⟨v, hfirst, hrest⟩ := run_writeFiles_cons_eq_ok_iff.1 h
    obtain ⟨own, hown, hover, hlocate⟩ := overwrites_writeFile hnames.1 hfirst
    -- the place of the root has stayed the same since the first file
    have hkeeps := keepsDirs_writeFiles hrest
    cases hroot.unique (hkeeps.isRootAt hown)
    obtain ⟨hovers, hlocates⟩ := ih hnames.2 hrest
    exact ⟨hover.trans hovers, List.forall_mem_cons.2 ⟨hkeeps.locate hlocate, hlocates⟩⟩

/-! ## Failing -/

/-- How a file can fail to be written to a tree: its folder cannot be made, perhaps after
some of the directories around it were, or the file cannot be put into its folder. -/
inductive Fails (t : FileTree) (root : Path) (f : PackFile) : WriteError → FileTree → Prop where
  | folder {cause : FileError} {u : FileTree}
      (made : t.run (Disk.makeDirs (root.join f.folder)) = (.error cause, u)) :
    Fails t root f ⟨root.join f.folder, cause⟩ u
  | file {cause : FileError} {u : FileTree}
      (made : t.run (Disk.makeDirs (root.join f.folder)) = (.ok (), u))
      (refused : u.write (root.join f.path) f.text.toUTF8 = .error cause) :
    Fails t root f ⟨root.join f.path, cause⟩ u

/-- A file that cannot be written fails in one of these ways. -/
theorem fails_of_run_writeFile {e : WriteError} (h : t.run (f.write root) = (.error e, u)) :
    t.Fails root f e u := by
  rw [run_writeFile] at h
  cases hfolder : t.run (Disk.makeDirs (root.join f.folder)) with
  | mk answer v =>
    rw [hfolder] at h
    cases answer with
    | error cause =>
      cases h
      exact .folder hfolder
    | ok _ =>
      cases hwrite : v.write (root.join f.path) f.text.toUTF8 with
      | error cause =>
        simp only [hwrite] at h
        cases h
        exact .file hfolder hwrite
      | ok w =>
        simp only [hwrite] at h
        cases h

/-- A file that fails leaves nothing but directories. -/
theorem Fails.extendsByDirs {e : WriteError} (h : t.Fails root f e u) : u.ExtendsByDirs t := by
  cases h with
  | folder made => exact extendsByDirs_makeDirs made
  | file made refused => exact extendsByDirs_makeDirs made

/-- Writing stops at the first file that fails, with all files before it written. -/
theorem exists_failed_file {report : Report} {e : WriteError}
    (h : t.run (Pack.writeFiles root report files) = (.error e, u)) :
    ∃ n f v done, files[n]? = some f ∧
      t.run (Pack.writeFiles root report (files.take n)) = (.ok done, v) ∧ v.Fails root f e u := by
  induction files generalizing t report with
  | nil => cases h
  | cons f files ih =>
    rw [Pack.writeFiles, run_bind] at h
    cases hfirst : t.run (f.write root) with
    | mk answer v =>
      rw [hfirst] at h
      cases answer with
      | error own =>
        cases h
        exact ⟨0, f, t, report, rfl, rfl, fails_of_run_writeFile hfirst⟩
      | ok path =>
        obtain ⟨rfl, -⟩ := run_writeFile_eq_ok_iff.1 hfirst
        obtain ⟨n, g, w, done, hg, hdone, hfails⟩ := ih h
        refine ⟨n + 1, g, w, done, hg, ?_, hfails⟩
        rw [List.take_succ_cons]
        exact run_writeFiles_cons_eq_ok_iff.2 ⟨v, hfirst, hdone⟩

/-! ## What is left of a pack -/

/-- Whether a tree is what a pack leaves under a root when all its files have been written:
the path of each file leads to the text that the pack has there, of files with one path
the last, and where no file of the pack is, nothing has changed but for new directories.
The working directory is the same. -/
structure Leaves (t : FileTree) (root : Path) (pack : Pack) (u : FileTree) : Prop where
  home_eq : u.home = t.home
  stored : ∀ f ∈ pack.files, ∃ g, pack.get? f.path = some g ∧
    u.find (root.join f.path) = .ok (.file g.text.toUTF8)
  elsewhere : ∀ a, (∀ f ∈ pack.files, u.locate (root.join f.path) ≠ .ok a) →
    u.lookup a = t.lookup a ∨ t.lookup a = none ∧ u.lookup a = some .dir

/-- What is at the end of a path is what is at its place. -/
theorem find_of_locate {p : Path} {a : Address} {entry : Entry}
    (h : t.locate p = .ok a) (ha : t.lookup a = some entry) :
    t.find p = .ok entry := by
  simp [find, h, ha]

/-- Looking a file of a pack up by its path is looking it up by its address. -/
theorem get?_path_eq_findRev?_address {pack : Pack}
    (hplain : ∀ f ∈ pack.files, Name.IsPlain f.name) (hf : f ∈ pack.files) (base : Address) :
    pack.get? f.path =
      pack.files.findRev? fun g => g.address ++ base = f.address ++ base := by
  refine findRev?_congr fun g hg => ?_
  rw [decide_eq_decide, List.append_cancel_right_eq,
    PackFile.address_eq_iff (hplain g hg) (hplain f hf)]

/-- Overwritten entries are what a pack leaves. -/
theorem Overwrites.leaves {pack : Pack} (hplain : ∀ f ∈ pack.files, Name.IsPlain f.name)
    (h : Overwrites base pack.files t u)
    (hlocate : ∀ f ∈ pack.files, u.locate (root.join f.path) = .ok (f.address ++ base)) :
    t.Leaves root pack u where
  home_eq := h.home_eq
  stored f hf := by
    obtain ⟨g, hg⟩ := pack.exists_get?_of_mem hf
    have hover := h.entries (f.address ++ base)
    rw [← get?_path_eq_findRev?_address hplain hf, hg] at hover
    exact ⟨g, hg, find_of_locate (hlocate f hf) hover⟩
  elsewhere a ha := by
    have hnone : pack.files.findRev? (fun f => f.address ++ base = a) = none := by
      rw [findRev?_eq_none_iff]
      intro f hf heq
      exact ha f hf (of_decide_eq_true heq ▸ hlocate f hf)
    have hover := h.entries a
    rwa [hnone] at hover

/-- A pack whose files have been written, with more directories after that, is what is left. -/
theorem leaves_of_writeFiles {pack : Pack} (hplain : ∀ f ∈ pack.files, Name.IsPlain f.name)
    {report final : Report}
    (h : t.run (Pack.writeFiles root report pack.files) = (.ok final, v))
    (k : u.ExtendsByDirs v) : t.Leaves root pack u := by
  by_cases hne : pack.files = []
  · rw [hne] at h
    cases h
    exact ⟨k.home_eq, by simp [hne], fun a _ => k.same_or_new a⟩
  · have hnames := fun f hf => (hplain f hf).slash_not_mem
    have hkeeps := k.extends.keepsDirs
    obtain ⟨base, hroot⟩ := exists_isRootAt_of_writeFiles hnames hne h
    obtain ⟨hover, hlocate⟩ := overwrites_writeFiles hnames h hroot
    exact (hover.extendsByDirs k).leaves hplain fun f hf => hkeeps.locate (hlocate f hf)

end FileTree

namespace Report

/-! ## Counts -/

/-- A report of files counts them by their kinds and lists their paths in order. -/
theorem eq_of_writeFiles {t u : FileTree} {root : Path} {files : List PackFile}
    {report final : Report}
    (h : t.run (Pack.writeFiles root report files) = (.ok final, u)) :
    final = ⟨report.predicates + files.countP (·.isPredicate),
      report.scripts + files.countP (!·.isPredicate), report.periodicZones,
      report.written ++ files.map (root.join ·.path)⟩ := by
  induction files generalizing t report with
  | nil =>
    cases h
    simp
  | cons f files ih =>
    obtain ⟨v, -, hrest⟩ := FileTree.run_writeFiles_cons_eq_ok_iff.1 h
    rw [ih hrest, add]
    cases hkind : f.isPredicate <;> simp [hkind] <;> omega

end Report

namespace Pack

/-- A plan has a predicate for each band and each zone. -/
theorem countP_isPredicate (c : Config) :
    (ofConfig c).files.countP (·.isPredicate) =
      c.gainSteps.length + 1 + c.distanceZones.length + c.insanityZones.length := by
  have hscripts : (scriptFiles c).countP (·.isPredicate) = 0 :=
    List.countP_eq_zero.2 fun f hf => by simp [isPredicate_of_mem_scriptFiles hf]
  rw [ofConfig, List.countP_append, hscripts,
    List.countP_eq_length.2 fun f hf => isPredicate_of_mem_predicateFiles hf]
  simp [predicateFiles, Config.zones]
  omega

/-- A plan has a loop for each zone with a periodic effect. -/
theorem length_periodic (c : Config) : (EffectScripts.ofConfig c).periodic.length =
    c.zones.countP (·.effect.mode.isPeriodic) := by
  have hloop (z : Zone) : z.loop?.isSome = z.effect.mode.isPeriodic := by
    rw [Zone.loop?]
    cases z.effect.mode <;> rfl
  simp only [EffectScripts.ofConfig, EffectScripts.ofZones, List.length_filterMap_eq_countP, hloop,
    Config.zones, Config.effectZones, List.countP_append]
  omega

/-- A plan has four functions besides its loops. -/
theorem countP_not_isPredicate (c : Config) :
    (ofConfig c).files.countP (!·.isPredicate) = 4 + (ofConfig c).periodicZones := by
  have hpredicates : (predicateFiles c).countP (!·.isPredicate) = 0 :=
    List.countP_eq_zero.2 fun f hf => by simp [isPredicate_of_mem_predicateFiles hf]
  have hscripts : (scriptFiles c).countP (!·.isPredicate) = (scriptFiles c).length :=
    List.countP_eq_length.2 fun f hf => by simp [isPredicate_of_mem_scriptFiles hf]
  rw [ofConfig, List.countP_append, hpredicates, hscripts]
  simp [scriptFiles]
  omega

/-- The pack with only its first files. -/
def take (pack : Pack) (n : Nat) : Pack := { pack with files := pack.files.take n }

end Pack

namespace FileTree

/-- What a run leaves on a tree.  If the pack of a plan can be written, then the path of each
file leads to the text that the pack has there, the last of those with one path, nothing
else has changed but for new directories, and the report counts and lists all files.  If it
cannot be written, then the error is that of the first file that fails, and the files before
it are left in the same way. -/
theorem leaves_run_write (t : FileTree) (root : Path) (c : Config) :
    match t.run ((Pack.ofConfig c).write root) with
    | (.ok report, u) =>
      t.Leaves root (Pack.ofConfig c) u ∧
        report.predicates =
          c.gainSteps.length + 1 + c.distanceZones.length + c.insanityZones.length ∧
        report.periodicZones = c.zones.countP (·.effect.mode.isPeriodic) ∧
        report.scripts = 4 + report.periodicZones ∧
        report.written = (Pack.ofConfig c).files.map (root.join ·.path)
    | (.error e, u) =>
      ∃ n f v done, (Pack.ofConfig c).files[n]? = some f ∧
        t.run (((Pack.ofConfig c).take n).write root) = (.ok done, v) ∧
        v.Fails root f e u ∧ t.Leaves root ((Pack.ofConfig c).take n) u := by
  have hplain : ∀ f ∈ (Pack.ofConfig c).files, Name.IsPlain f.name :=
    fun f hf => Pack.isPlain_of_mem_files hf
  cases hwrite : t.run ((Pack.ofConfig c).write root) with
  | mk answer u =>
    cases answer with
    | ok report =>
      have hleaves := leaves_of_writeFiles hplain hwrite (.refl u)
      refine ⟨hleaves, ?_⟩
      rw [Report.eq_of_writeFiles hwrite, Pack.countP_isPredicate, Pack.countP_not_isPredicate]
      simp [Pack.ofConfig, Pack.length_periodic]
    | error e =>
      obtain ⟨n, f, v, done, hf, hdone, hfails⟩ := exists_failed_file hwrite
      have hfirst : ∀ f ∈ ((Pack.ofConfig c).take n).files, Name.IsPlain f.name :=
        fun f hf => hplain f (List.mem_of_mem_take hf)
      exact ⟨n, f, v, done, hf, hdone, hfails,
        leaves_of_writeFiles hfirst hdone hfails.extendsByDirs⟩

end FileTree

end ZonePack

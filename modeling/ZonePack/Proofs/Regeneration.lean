import ZonePack.Proofs.FailedRun
import ZonePack.Proofs.Folders
import ZonePack.Proofs.Writing

/-!
# ZonePack.Proofs.Regeneration

Generating a second time.  Where all files of a pack are in place, nothing is in the way
of writing them again (`exists_run_writeFiles_of_isFile`): their folders are there, and in the
meantime directories and files only stay what they are (`SameShape`), even if a file
passes through other texts of the same path.  In the end each path has the text that it
had before, so the tree that a pack has left is left by it again
(`Leaves.run_write_again`).
-/

namespace ZonePack

namespace FileTree

variable {t u v : FileTree} {root p : Path} {name : String} {f : PackFile}
  {files : List PackFile}

/-! ## Trees of one shape -/

/-- Whether two trees differ in nothing but what is in their files. -/
structure SameShape (u t : FileTree) : Prop where
  home_eq : u.home = t.home
  same_or_files : ∀ a, u.lookup a = t.lookup a ∨
    ∃ new old, u.lookup a = some (.file new) ∧ t.lookup a = some (.file old)

theorem SameShape.refl (t : FileTree) : t.SameShape t := ⟨rfl, fun _ => .inl rfl⟩

theorem SameShape.trans (h : v.SameShape u) (k : u.SameShape t) : v.SameShape t := by
  refine ⟨h.home_eq.trans k.home_eq, fun a => ?_⟩
  obtain hv | ⟨new, old, hv, hu⟩ := h.same_or_files a
  · rw [hv]
    exact k.same_or_files a
  · obtain hsame | ⟨-, old, -, ht⟩ := k.same_or_files a
    · exact .inr ⟨new, old, hv, hsame ▸ hu⟩
    · exact .inr ⟨new, old, hv, ht⟩

/-- Directories are no files. -/
theorem SameShape.keepsDirs (h : u.SameShape t) : u.KeepsDirs t := by
  refine ⟨h.home_eq, fun {a} ha => ?_⟩
  obtain hsame | ⟨new, old, -, hold⟩ := h.same_or_files a
  · rw [hsame, ha]
  · rw [ha] at hold
    cases hold

/-! ## Files that are in place -/

/-- A file stays one. -/
theorem SameShape.isFile (h : u.SameShape t) (hp : t.isFile p = true) : u.isFile p = true := by
  obtain ⟨bytes, hfind⟩ := isFile_iff.1 hp
  obtain ⟨a, hlocate, hfile⟩ := find_eq_file_iff.1 hfind
  have hlocate := h.keepsDirs.locate hlocate
  obtain hsame | ⟨new, -, hnew, -⟩ := h.same_or_files a
  · exact isFile_iff.2 ⟨bytes, find_eq_file_iff.2 ⟨a, hlocate, hsame ▸ hfile⟩⟩
  · exact isFile_iff.2 ⟨new, find_eq_file_iff.2 ⟨a, hlocate, hnew⟩⟩

/-- A file can be written over. -/
theorem exists_write_of_isFile (hp : p.text ≠ "") (hname : Path.IsName name)
    (h : t.isFile (p.join ⟨name⟩) = true) (bytes : ByteArray) :
    ∃ u, t.write (p.join ⟨name⟩) bytes = .ok u ∧ u.SameShape t := by
  obtain ⟨dir, old, -, htarget, hfile⟩ := exists_target_of_isFile hp hname h
  have hnot_dir : t.lookup (name :: dir) ≠ some .dir := by
    rw [hfile]
    nofun
  obtain ⟨u, hwrite, hput⟩ := exists_write_of_target hp hname htarget hnot_dir bytes
  refine ⟨u, hwrite, hput.home_eq, fun a => ?_⟩
  by_cases ha : a = name :: dir
  · subst ha
    exact .inr ⟨bytes, old, hput.lookup_self, hfile⟩
  · exact .inl (hput.lookup_of_ne ha)

/-! ## Writing again -/

/-- A file that is in place can be written again. -/
theorem exists_run_writeFile_of_isFile (hf : '/' ∉ f.name.toList)
    (h : t.isFile (root.join f.path) = true) :
    ∃ u, t.run (f.write root) = (.ok (root.join f.path), u) ∧ u.SameShape t := by
  have hname := PackFile.isName_fileName hf
  have htext := Path.text_join_ne_empty_of_right f.text_folder_ne_empty root
  rw [f.join_path] at h
  obtain ⟨dir, -, hdir, -⟩ := exists_target_of_isFile htext hname h
  obtain ⟨u, hwrite, hshape⟩ := exists_write_of_isFile htext hname h f.text.toUTF8
  rw [← f.join_path] at hwrite
  have hfolder := run_makeDirs_of_isDir (isDir_iff.2 ⟨_, hdir⟩)
  exact ⟨u, run_writeFile_eq_ok_iff.2 ⟨rfl, t, hfolder, hwrite⟩, hshape⟩

/-- Files that are all in place can all be written again, one after the other. -/
theorem exists_run_writeFiles_of_isFile (hnames : ∀ f ∈ files, '/' ∉ f.name.toList)
    (h : ∀ f ∈ files, t.isFile (root.join f.path) = true) (report : Report) :
    ∃ final u, t.run (Pack.writeFiles root report files) = (.ok final, u) ∧ u.SameShape t := by
  induction files generalizing t report with
  | nil => exact ⟨report, t, rfl, .refl t⟩
  | cons f files ih =>
    rw [List.forall_mem_cons] at hnames h
    obtain ⟨v, hfirst, hshape⟩ := exists_run_writeFile_of_isFile hnames.1 h.1
    obtain ⟨final, u, hrest, hrest_shape⟩ :=
      ih hnames.2 (fun f hf => hshape.isFile (h.2 f hf)) (report.add (root.join f.path) f)
    exact ⟨final, u, run_writeFiles_cons_eq_ok_iff.2 ⟨v, hfirst, hrest⟩, hrest_shape.trans hshape⟩

/-- Trees of one shape that the same pack has left, the one from the other, are the same. -/
theorem Leaves.eq_of_sameShape {pack : Pack} (h : t.Leaves root pack u) (k : u.Leaves root pack v)
    (hshape : v.SameShape u) : v = u := by
  refine FileTree.ext hshape.home_eq fun a => ?_
  by_cases ha : ∀ f ∈ pack.files, v.locate (root.join f.path) ≠ .ok a
  · obtain hkept | ⟨hnone, hdir⟩ := k.elsewhere a ha
    · exact hkept
    · obtain hkept | ⟨new, -, hfile, -⟩ := hshape.same_or_files a
      · exact hkept
      · rw [hdir] at hfile
        cases hfile
  · -- a file of the pack is here, and its path has one text in both trees
    simp only [not_forall, not_not] at ha
    obtain ⟨f, hf, hplace⟩ := ha
    obtain ⟨g, hg, hfind⟩ := h.stored f hf
    obtain ⟨_, hg', hfind'⟩ := k.stored f hf
    cases hg.symm.trans hg'
    obtain ⟨b, hlocate, hold⟩ := find_eq_file_iff.1 hfind
    obtain ⟨c, hlocate', hnew⟩ := find_eq_file_iff.1 hfind'
    cases hplace.symm.trans hlocate'
    cases hplace.symm.trans (hshape.keepsDirs.locate hlocate)
    rw [hnew, hold]

/-- What is left of a pack is left again by the same pack. -/
theorem Leaves.run_write_again {pack : Pack} (hplain : ∀ f ∈ pack.files, Name.IsPlain f.name)
    (h : t.Leaves root pack u) : ∃ report, u.run (pack.write root) = (.ok report, u) := by
  have hnames := fun f hf => (hplain f hf).slash_not_mem
  have hfiles : ∀ f ∈ pack.files, u.isFile (root.join f.path) = true := by
    intro f hf
    obtain ⟨g, -, hfind⟩ := h.stored f hf
    exact isFile_iff.2 ⟨_, hfind⟩
  obtain ⟨report, v, hwrite, hshape⟩ :=
    exists_run_writeFiles_of_isFile hnames hfiles ⟨0, 0, pack.periodicZones, []⟩
  cases h.eq_of_sameShape (leaves_of_writeFiles hplain hwrite (.refl v)) hshape
  exact ⟨report, hwrite⟩

end FileTree

namespace CommandLine

open FileTree
open Json (eq_ok_of_toOption)

variable {t u : FileTree}

/-! ## Generating again -/

/-- A pack that could be written is written again over itself, with the same report. -/
theorem run_write_again {root : Path} {c : Config} {report : Report}
    (h : t.run ((Pack.ofConfig c).write root) = (.ok report, u)) :
    u.run ((Pack.ofConfig c).write root) = (.ok report, u) := by
  have hplain : ∀ f ∈ (Pack.ofConfig c).files, Name.IsPlain f.name :=
    fun f hf => Pack.isPlain_of_mem_files hf
  obtain ⟨final, hagain⟩ := (leaves_of_writeFiles hplain h (.refl u)).run_write_again hplain
  rw [hagain, Report.eq_of_writeFiles h, Report.eq_of_writeFiles hagain]

/-- Where a document has the same bytes, the same plan is loaded. -/
theorem load_congr {path : Path} (h : u.read path = t.read path) : u.load path = t.load path := by
  rw [load, load, h]

/-- A document with the same bytes is still there. -/
theorem isFile_of_read_eq {path : Path} (h : u.read path = t.read path)
    (ht : t.isFile path = true) : u.isFile path = true := by
  obtain ⟨bytes, hfind⟩ := isFile_iff.1 ht
  rw [read_eq_ok_iff.2 hfind] at h
  exact isFile_iff.2 ⟨bytes, read_eq_ok_iff.1 h⟩

/-- A run that has generated something does the same again with overwriting, as long as the
document has kept its bytes: it shows the same and changes nothing. -/
theorem Generation.run_again {config output : Path} {force : Bool} {outcome : Outcome}
    (h : Generation config output force t outcome u) (hending : outcome.ending = .generated)
    (hsame : u.read config = t.read config) :
    u.run (generate config output true) = (outcome, u) := by
  cases h with
  | refused => cases hending
  | unplanned => cases hending
  | unwritten => cases hending
  | @written c report _ start plan write =>
    obtain ⟨hconfig, houtput, -⟩ := issues_eq_nil_iff.1 start
    obtain ⟨place, hplace⟩ := isDir_iff.1 houtput
    have hstill := isDir_iff.2 ⟨place, (keepsDirs_writeFiles write).leadsToDir hplace⟩
    have hstart : u.issues config output true = [] :=
      issues_eq_nil_iff.2 ⟨isFile_of_read_eq hsame hconfig, hstill, nofun⟩
    have hplan := (load_congr hsame).trans plan
    simp only [generate, run_bind, run_issues, hstart, run_load, hplan, run_write_again write,
      run_pure]

/-- Generating again changes nothing.  If a run, whether or not it may overwrite, has generated
a pack, and its document has the same bytes after it as before, then a run on what it has left
that reads the same document, writes under the same root and may overwrite ends well, shows
the same and leaves every file and every directory as it is. -/
theorem regeneration_keeps_tree {t : FileTree} {arguments again : List String} {o p : Options}
    (hfirst : takeArguments .initial arguments = .ok o)
    (hagain : takeArguments .initial again = .ok p) (hconfig : p.configPath = o.configPath)
    (houtput : p.outputPath = o.outputPath) (hforce : p.force = true)
    (hgenerated : (t.run (run arguments)).1.ending = .generated)
    (hsame : (t.run (run arguments)).2.read o.configPath = t.read o.configPath) :
    ((t.run (run arguments)).2.run (run again)).1.exitCode = 0 ∧
      ((t.run (run arguments)).2.run (run again)).2 = (t.run (run arguments)).2 ∧
      ((t.run (run arguments)).2.run (run again)).1 = (t.run (run arguments)).1 := by
  have hsecond : (run again : StateM FileTree Outcome) =
      generate o.configPath o.outputPath true := by
    rw [run, hagain]
    simp only [hconfig, houtput, hforce]
  rw [hsecond, (generation_of_ok hfirst).run_again hgenerated hsame]
  refine ⟨?_, rfl, rfl⟩
  rw [Outcome.exitCode, hgenerated]

/-- So it is for a plan without steps and zones, next to its document at the root of all
files. -/
theorem regeneration_keeps_tree_beside_document :
    let t := FileTree.empty.put "plan.json" [] (.file "\x7b\x7d".toUTF8) (lookup_nil _)
      (by simp [empty])
    let u := (t.run (run ["-c../plan.json", "-o/"])).2
    (u.run (run ["-o", "/", "-c", "../plan.json", "--force"])).1.exitCode = 0 ∧
      (u.run (run ["-o", "/", "-c", "../plan.json", "--force"])).2 = u := by
  intro t u
  have hfirst : takeArguments .initial ["-c../plan.json", "-o/"] =
      .ok ⟨some ⟨"../plan.json"⟩, some ⟨"/"⟩, false⟩ := eq_ok_of_toOption (by decide +kernel)
  have hagain : takeArguments .initial ["-o", "/", "-c", "../plan.json", "--force"] =
      .ok ⟨some ⟨"../plan.json"⟩, some ⟨"/"⟩, true⟩ := eq_ok_of_toOption (by decide +kernel)
  have hbefore : t.read ⟨"../plan.json"⟩ = .ok "\x7b\x7d".toUTF8 :=
    eq_ok_of_toOption (by decide +kernel)
  have hrun : (t.run (run ["-c../plan.json", "-o/"])).1.ending = .generated ∧
      (u.read ⟨"../plan.json"⟩).toOption = some "\x7b\x7d".toUTF8 := by decide +kernel
  have hsame : u.read ⟨"../plan.json"⟩ = t.read ⟨"../plan.json"⟩ :=
    (eq_ok_of_toOption hrun.2).trans hbefore.symm
  obtain ⟨hcode, htree, -⟩ :=
    regeneration_keeps_tree hfirst hagain rfl rfl rfl hrun.1 hsame
  exact ⟨hcode, htree⟩

end CommandLine

end ZonePack

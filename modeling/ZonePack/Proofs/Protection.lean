import ZonePack.Proofs.Pack
import ZonePack.Proofs.Run

/-!
# ZonePack.Proofs.Protection

Without overwriting a run harms no file.  The check at the start looks at two
folders only, but each file of a pack is put directly into one of them
(`PackFile.path_eq_join`).  So what a file would overwrite must have made its
folder full (`lookup_eq_none_of_target`), and while the pack is written the tree
extends the one that was checked (`extends_writeFiles`).
-/

namespace ZonePack

namespace FileTree

variable {t u v : FileTree} {root : Path} {file : PackFile}

/-! ## The check and the files -/

/-- If a folder was found unoccupied, no file in it can be in the place of something
that was there at the time, whatever was added since. -/
theorem lookup_eq_none_of_target {name : String} {dir : Address} (hroot : t.isDir root = true)
    (hfolder : t.isOccupied (root.join file.folder) = false) (hfile : '/' ∉ file.name.toList)
    (hext : u.Extends t) (htarget : u.target (root.join file.path) = .ok (.entry name dir)) :
    t.lookup (name :: dir) = none := by
  obtain ⟨place, hplace⟩ := isDir_iff.1 hroot
  have hjoin := Path.text_join_ne_empty hplace.text_ne_empty file.folder
  rw [file.join_path, target_join_name_iff hjoin (PackFile.isName_fileName hfile)] at htarget
  obtain ⟨-, hdir, -⟩ := htarget
  cases hentry : t.lookup (name :: dir) with
  | none => rfl
  | some entry =>
    -- then the folder was there already, and not empty
    have haround : t.lookup dir = some .dir := lookup_of_lookup_cons hentry
    have hleads := hext.leadsToDir_join_of_lookup hplace file.steps_folder hdir haround
    rw [hleads.isOccupied_of_lookup hentry] at hfolder
    cases hfolder

/-- Writing a file adds to what was found by the check. -/
theorem extends_writeFile (hroot : t.isDir root = true)
    (hfolder : t.isOccupied (root.join file.folder) = false) (hfile : '/' ∉ file.name.toList)
    (hext : u.Extends t) : (u.run (file.write root)).2.Extends t := by
  have hfolders : (u.run (Disk.makeDirs (root.join file.folder))).2.Extends t :=
    (extendsByDirs_makeNested u _).extends.trans hext
  rw [run_writeFile]
  generalize u.run (Disk.makeDirs (root.join file.folder)) = made at hfolders ⊢
  obtain ⟨answer, v⟩ := made
  cases answer with
  | error e => exact hfolders
  | ok _ =>
    cases hwrite : v.write (root.join file.path) file.text.toUTF8 with
    | error e =>
      simp only [hwrite]
      exact hfolders
    | ok w =>
      obtain ⟨name, dir, htarget, -, -, -, hput⟩ := write_eq_ok_iff.1 hwrite
      have hnone := lookup_eq_none_of_target hroot hfolder hfile hfolders htarget
      simp only [hwrite]
      exact hput.extends hfolders hnone

/-- Writing files adds to what was found by the check, whether or not all of them can
be written. -/
theorem extends_writeFiles {files : List PackFile} {report : Report}
    (hroot : t.isDir root = true)
    (hfolders : ∀ file ∈ files, t.isOccupied (root.join file.folder) = false)
    (hfiles : ∀ file ∈ files, '/' ∉ file.name.toList) (hext : u.Extends t) :
    (u.run (Pack.writeFiles root report files)).2.Extends t := by
  induction files generalizing u report with
  | nil => exact hext
  | cons file files ih =>
    rw [List.forall_mem_cons] at hfolders hfiles
    have hfirst := extends_writeFile hroot hfolders.1 hfiles.1 hext
    rw [Pack.writeFiles, run_bind]
    cases (u.run (file.write root)).1 with
    | error e => exact hfirst
    | ok path => exact ih hfolders.2 hfiles.2 hfirst

/-- Where no reason was found not to start without overwriting, no folder is occupied. -/
theorem isOccupied_folder_of_issues {config output : Path}
    (start : t.issues config output false = []) (file : PackFile) :
    t.isOccupied (output.join file.folder) = false := by
  obtain ⟨-, -, hfree⟩ := issues_eq_nil_iff.1 start
  obtain ⟨hpredicates, hscripts⟩ := hfree rfl
  obtain hfolder | hfolder := file.folder_eq_or
  · rw [hfolder, hpredicates]
  · rw [hfolder, hscripts]

/-- Then the pack of any plan only adds to the tree. -/
theorem extends_writePack (c : Config) {config output : Path}
    (start : t.issues config output false = []) :
    (t.run ((Pack.ofConfig c).write output)).2.Extends t := by
  have hroot := (issues_eq_nil_iff.1 start).2.1
  have hfolders := fun file (_ : file ∈ (Pack.ofConfig c).files) =>
    isOccupied_folder_of_issues start file
  have hplain : ∀ file ∈ (Pack.ofConfig c).files, '/' ∉ file.name.toList :=
    fun file hfile => (Pack.isPlain_of_mem_files hfile).slash_not_mem
  exact extends_writeFiles hroot hfolders hplain (.refl t)

end FileTree

namespace CommandLine

open FileTree

variable {t u : FileTree}

/-! ## Runs without overwriting -/

/-- Once its arguments are read, a run that may not overwrite only adds to the tree. -/
theorem Generation.extends {config output : Path} {outcome : Outcome}
    (h : Generation config output false t outcome u) : u.Extends t := by
  cases h with
  | refused found some_found => exact .refl t
  | unplanned start plan => exact .refl t
  | @unwritten c e _ start plan write =>
    have hpack := extends_writePack c start
    rw [write] at hpack
    exact hpack
  | @written c report _ start plan write =>
    have hpack := extends_writePack c start
    rw [write] at hpack
    exact hpack

/-- Whether arguments can be read and ask for overwriting. -/
def mayOverwrite (arguments : List String) : Bool :=
  match takeArguments .initial arguments with
  | .error _ => false
  | .ok o => o.force

/-- However a run ends, if its arguments do not ask for overwriting then every file
that was there is still there, with the same bytes. -/
theorem lookup_file_run {arguments : List String} (hforce : mayOverwrite arguments = false)
    {a : Address} {bytes : ByteArray} (ha : t.lookup a = some (.file bytes)) :
    (t.run (run arguments)).2.lookup a = some (.file bytes) := by
  rw [mayOverwrite] at hforce
  rw [run]
  cases hoptions : takeArguments .initial arguments with
  | error stop => exact ha
  | ok o =>
    have hrun := generation_run t o.configPath o.outputPath o.force
    simp only [hoptions] at hforce ⊢
    rw [hforce] at hrun ⊢
    exact hrun.extends.entry ha

/-- The document of a plan without steps and zones is kept by the run that writes the
pack of this plan next to it, outside of the working directory. -/
theorem lookup_file_run_beside_document :
    mayOverwrite ["--config", "/plan.json", "-o", ".."] = false ∧
      ((FileTree.empty.put "plan.json" [] (.file "\x7b\x7d".toUTF8) (lookup_nil _)
        (by simp [empty])).run (run ["--config", "/plan.json", "-o", ".."])).2.lookup
          ["plan.json"] = some (.file "\x7b\x7d".toUTF8) :=
  ⟨by decide, lookup_file_run (by decide) ((lookup_put ..).trans (if_pos rfl))⟩

end CommandLine

end ZonePack

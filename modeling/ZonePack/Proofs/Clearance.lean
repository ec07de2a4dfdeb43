import Mathlib.Data.List.Infix
import ZonePack.Proofs.ClearWays
import ZonePack.Proofs.Protection
import ZonePack.Proofs.Writing

/-!
# ZonePack.Proofs.Clearance

When a run that was found in order can write its pack.  The check at the start looks at the
two folders that files are put into, and at nothing around them, so it can pass where a
folder cannot be made:

* `HasRoom` — no file is in the way of the folders and no directory in that of the files,
  which stays so while files are written (`exists_run_writeFile`), so all of them can be
  (`exists_run_writeFiles`);
* `hasRoom_of_issues` — where the check has passed, only files in the place of the outer
  folders can keep a pack from having room;
* `run_write_iff_isClear` — so a pack is written exactly if there are none and if no path is
  too long (`IsClear`).
-/

namespace ZonePack

namespace PackFile

variable {f g : PackFile}

/-! ## Files and folders of a pack -/

theorem dot_mem_fileName (f : PackFile) : '.' ∈ f.fileName.toList := by
  obtain ⟨name, body⟩ := f
  cases body <;> simp [fileName]

theorem dot_not_mem_of_mem_folderNames {name : String} (h : name ∈ f.folderNames) :
    '.' ∉ name.toList := by
  have hall : ∀ name ∈ ["data", "softborder", "predicates", "functions", "private", "gen"],
      '.' ∉ name.toList := by decide
  exact hall name (mem_of_mem_folderNames h)

/-- No folder is in the place of a file, or inside it. -/
theorem not_address_suffix_folder (f g : PackFile) (base : Address) :
    ¬ f.address ++ base <:+ g.folderNames.reverse ++ base := by
  rintro ⟨names, h⟩
  rw [← List.append_assoc, List.append_cancel_right_eq] at h
  have hmem : f.fileName ∈ g.folderNames.reverse := by
    rw [← h]
    exact List.mem_append_right _ List.mem_cons_self
  exact dot_not_mem_of_mem_folderNames (List.mem_reverse.1 hmem) f.dot_mem_fileName

/-- The ending of a file adds little to its name. -/
theorem utf8ByteSize_fileName_le (h : f.name.utf8ByteSize ≤ 49) :
    f.fileName.utf8ByteSize ≤ FileTree.maxNameBytes := by
  have hpredicate : ".json".utf8ByteSize = 5 := rfl
  have hscript : ".mcfunction".utf8ByteSize = 11 := rfl
  obtain ⟨name, body⟩ := f
  cases body <;> simp only [fileName, String.utf8ByteSize_append, FileTree.maxNameBytes] at h ⊢ <;>
    omega

end PackFile

namespace FileTree

open Json (eq_ok_of_toOption)

variable {t u v : FileTree} {root : Path} {base : Address} {f : PackFile} {files : List PackFile}

/-! ## Room for files -/

/-- Whether nothing is in the way of some files below an address, or of their folders. -/
structure HasRoom (t : FileTree) (base : Address) (files : List PackFile) : Prop where
  isClearTo : ∀ f ∈ files, t.IsClearTo (f.folderNames.reverse ++ base)
  not_dir : ∀ f ∈ files, t.lookup (f.address ++ base) ≠ some .dir

/-- A file that there is room for can be written, and then there is room for all others. -/
theorem exists_run_writeFile (hroot : t.EndsAt root base) (htext : root.text ≠ "")
    (hroom : t.HasRoom base files) (hf : f ∈ files) (hslash : '/' ∉ f.name.toList)
    (hfit : f.fileName.utf8ByteSize ≤ maxNameBytes)
    (hfault : pathFault? (root.join f.path) = none) :
    ∃ u, t.run (f.write root) = (.ok (root.join f.path), u) ∧
      u.EndsAt root base ∧ u.HasRoom base files := by
  have hname := PackFile.isName_fileName hslash
  have hfolder_text := Path.text_join_ne_empty htext f.folder
  rw [f.join_path] at hfault
  have hfolder_fault := pathFault?_of_join hfolder_text hfault
  have hclear := hroom.isClearTo f hf
  rw [f.join_folder] at hfolder_fault
  obtain ⟨v, hfolders, hends, hmade⟩ := exists_run_makeDirs hroot f.folderNames_ne_nil
    hfolder_fault htext (fun name => PackFile.isName_of_mem_folderNames) hclear
  have hkept {g : PackFile} (hg : g ∈ files) : v.lookup (g.address ++ base) ≠ some .dir := by
    rw [hmade.lookup_eq, if_neg (g.not_address_suffix_folder f base)]
    exact hroom.not_dir g hg
  rw [← f.join_folder] at hfolders hends hfolder_fault
  have htarget := (target_join_name_iff hfolder_text hname).2
    ⟨hfault, leadsToDir_iff.2 ⟨hfolder_fault, hends⟩, hfit, rfl⟩
  obtain ⟨u, hwrite, hput⟩ := exists_write_of_target hfolder_text hname htarget (hkept hf)
    f.text.toUTF8
  have hkeeps := (keepsDirs_of_write hwrite).trans (hmade.extends hclear).keepsDirs
  rw [← f.join_path] at hwrite
  refine ⟨u, run_writeFile_eq_ok_iff.2 ⟨rfl, v, hfolders, hwrite⟩, hkeeps.endsAt hroot, ?_, ?_⟩
  · intro g hg a ha bytes
    have hne : a ≠ f.fileName :: (f.folderNames.reverse ++ base) := by
      rintro rfl
      exact f.not_address_suffix_folder g base ha
    rw [hput.lookup_of_ne hne, hmade.lookup_eq]
    split
    · nofun
    · exact hroom.isClearTo g hg a ha bytes
  · intro g hg
    rw [hput.lookup_eq]
    split
    · nofun
    · exact hkept hg

/-- So all of them can be written. -/
theorem exists_run_writeFiles {more : List PackFile} (hroot : t.EndsAt root base)
    (htext : root.text ≠ "") (hroom : t.HasRoom base files) (hmore : more ⊆ files)
    (hslash : ∀ f ∈ files, '/' ∉ f.name.toList)
    (hfit : ∀ f ∈ files, f.fileName.utf8ByteSize ≤ maxNameBytes)
    (hfault : ∀ f ∈ files, pathFault? (root.join f.path) = none) (report : Report) :
    ∃ final u, t.run (Pack.writeFiles root report more) = (.ok final, u) := by
  induction more generalizing t report with
  | nil => exact ⟨report, t, rfl⟩
  | cons f more ih =>
    rw [List.cons_subset] at hmore
    obtain ⟨hf, hmore⟩ := hmore
    obtain ⟨v, hfirst, hroot, hroom⟩ :=
      exists_run_writeFile hroot htext hroom hf (hslash f hf) (hfit f hf) (hfault f hf)
    obtain ⟨final, u, hrest⟩ := ih hroot hroom hmore (report.add (root.join f.path) f)
    exact ⟨final, u, run_writeFiles_cons_eq_ok_iff.2 ⟨v, hfirst, hrest⟩⟩

/-! ## Clear outputs -/

/-- The names of the folders that those of a pack are in. -/
def outerFolders : List (List String) :=
  [["data"], ["data", "softborder"], ["data", "softborder", "functions"],
    ["data", "softborder", "functions", "private"]]

/-- Whether no file is in the place of an outer folder under a root, and the paths of some
files under it are not too long. -/
structure IsClear (t : FileTree) (root : Path) (files : List PackFile) : Prop where
  not_file : ∀ names ∈ outerFolders, t.isFile (root.below names) = false
  path_fits : ∀ f ∈ files, (root.join f.path).text.utf8ByteSize ≤ maxPathBytes

/-- On the way to a folder of a pack are only outer folders. -/
theorem eq_or_mem_outerFolders {names : List String} (h : names <+: f.folderNames)
    (hne : names ≠ []) : names = f.folderNames ∨ names ∈ outerFolders := by
  have hpredicate : ∀ names ∈ ["data", "softborder", "predicates"].inits, names ≠ [] →
      names = ["data", "softborder", "predicates"] ∨ names ∈ outerFolders := by decide
  have hscript : ∀ names ∈ ["data", "softborder", "functions", "private", "gen"].inits,
      names ≠ [] → names = ["data", "softborder", "functions", "private", "gen"] ∨
        names ∈ outerFolders := by decide
  rw [← List.mem_inits] at h
  obtain ⟨own, body⟩ := f
  cases body with
  | predicate p => exact hpredicate names h hne
  | script s => exact hscript names h hne

/-- All of them are on the way to the folder of functions. -/
theorem prefix_of_mem_outerFolders {names : List String} (h : names ∈ outerFolders)
    (hf : f.isPredicate = false) : names ≠ [] ∧ names <+: f.folderNames := by
  have hall : ∀ names ∈ outerFolders,
      names ≠ [] ∧ names <+: ["data", "softborder", "functions", "private", "gen"] := by decide
  obtain ⟨own, body⟩ := f
  cases body with
  | predicate p => cases hf
  | script s => exact hall names h

/-- What is around an address below another one is around that, or at the end of some of
the names between them. -/
theorem suffix_base_or_exists_names {names : List String} {a : Address}
    (h : a <:+ names.reverse ++ base) :
    a <:+ base ∨ ∃ way, way ≠ [] ∧ way <+: names ∧ a = way.reverse ++ base := by
  obtain ⟨inner, h⟩ := h
  obtain ⟨way, hnames, rfl⟩ | ⟨more, -, rfl⟩ := List.append_eq_append_iff.1 h
  · by_cases hway : way = []
    · exact .inl (by rw [hway]; exact List.suffix_rfl)
    · refine .inr ⟨way.reverse, by simpa using hway, ?_, by simp⟩
      rw [← List.reverse_suffix, List.reverse_reverse, hnames]
      exact List.suffix_append inner way
  · exact .inl (List.suffix_append more a)

/-- A file is what cannot be listed. -/
theorem isOccupied_of_isFile {p : Path} (h : t.isFile p = true) : t.isOccupied p = true := by
  obtain ⟨bytes, hfind⟩ := isFile_iff.1 h
  obtain ⟨a, hlocate, hentry⟩ := find_eq_file_iff.1 hfind
  simp [-lookup_cons, isOccupied, isEmptyDir, hlocate, hentry, isPresent, hfind]

/-- The path of a file under a root can be followed if that of the root can and it is not
too long. -/
theorem pathFault?_join_path (hroot : pathFault? root = none) (hplain : Name.IsPlain f.name)
    (hfits : (root.join f.path).text.utf8ByteSize ≤ maxPathBytes) :
    pathFault? (root.join f.path) = none := by
  obtain ⟨hzero, htext, -⟩ := pathFault?_eq_none_iff.1 hroot
  have hname : '\x00' ∉ f.name.toList := fun hmem => absurd (hplain _ hmem) (by decide)
  have hfile : '\x00' ∉ f.path.text.toList := by
    have hpredicate : '\x00' ∉ Layout.predicateFolder.text.toList := by decide
    have hscript : '\x00' ∉ Layout.scriptFolder.text.toList := by decide
    obtain ⟨name, body⟩ := f
    cases body with
    | predicate p => simp [PackFile.path, Layout.text_predicateFile, hpredicate, hname]
    | script s => simp [PackFile.path, Layout.text_scriptFile, hscript, hname]
  have hseparator : '\x00' ∉ root.separator.toList := by
    rw [Path.separator]
    split <;> decide
  refine pathFault?_eq_none_iff.2 ⟨?_, Path.text_join_ne_empty htext f.path, hfits⟩
  simp [Path.text_join htext, hzero, hseparator, hfile]

/-! ## The check and the folders -/

section

variable {config output : Path} {c : Config}

/-- Where the check has passed, only files in the place of outer folders are in the way. -/
theorem hasRoom_of_issues (start : t.issues config output false = [])
    (hroot : t.EndsAt output base) (hclear : t.IsClear output files)
    (hfault : ∀ f ∈ files, pathFault? (output.join f.path) = none) : t.HasRoom base files := by
  obtain ⟨place, hplace⟩ := isDir_iff.1 (issues_eq_nil_iff.1 start).2.1
  have htext := hplace.text_ne_empty
  have hfree := isOccupied_folder_of_issues start
  have hfolder_fault : ∀ f ∈ files, pathFault? (output.join f.folder) = none := by
    intro f hf
    have hpath := hfault f hf
    rw [f.join_path] at hpath
    exact pathFault?_of_join (Path.text_join_ne_empty htext f.folder) hpath
  constructor
  · intro f hf a ha bytes hentry
    obtain hbase | ⟨names, hne, hway, rfl⟩ := suffix_base_or_exists_names ha
    · obtain ⟨inner, rfl⟩ := hbase
      have hdir : t.lookup a = some .dir := lookup_of_lookup_append (endsAt_iff.1 hroot).2
      rw [hdir] at hentry
      cases hentry
    · -- the names lead to a file, which is not around a folder, nor the folder itself
      have hnames : ∀ name ∈ names, Path.IsName name ∧ name.utf8ByteSize ≤ maxNameBytes :=
        fun name hmem => PackFile.isName_of_mem_folderNames (hway.subset hmem)
      have hway_fault : pathFault? (output.below names) = none := by
        obtain ⟨more, hmore⟩ := hway
        have hfolder := hfolder_fault f hf
        rw [f.join_folder, ← hmore, Path.below_append] at hfolder
        exact pathFault?_of_below (Path.text_below_ne_empty htext names) hfolder
      have hfile := (isFile_below_iff htext hroot hne hnames).2 ⟨hway_fault, bytes, hentry⟩
      obtain rfl | houter := eq_or_mem_outerFolders hway hne
      · rw [← f.join_folder] at hfile
        exact absurd (isOccupied_of_isFile hfile) (by simp [hfree f])
      · exact absurd hfile (by simp [hclear.not_file names houter])
  · intro f hf hentry
    have hdir : t.lookup (f.folderNames.reverse ++ base) = some .dir := lookup_of_lookup_cons hentry
    have hends := (endsAt_below_iff htext hroot
      fun name => PackFile.isName_of_mem_folderNames).2 ⟨hdir, rfl⟩
    rw [← f.join_folder] at hends
    have hleads := leadsToDir_iff.2 ⟨hfolder_fault f hf, hends⟩
    exact absurd (hleads.isOccupied_of_lookup hentry) (by simp [hfree f])

/-- A path that leads somewhere can be followed. -/
theorem pathFault?_of_locate {p : Path} {place : Address} (h : t.locate p = .ok place) :
    pathFault? p = none := by
  cases hfault : pathFault? p with
  | none => rfl
  | some e => simp [locate, hfault] at h

/-- Where the pack has been written, the output was clear. -/
theorem isClear_of_run_write {report : Report} (start : t.issues config output false = [])
    (h : t.run ((Pack.ofConfig c).write output) = (.ok report, u)) :
    t.IsClear output (Pack.ofConfig c).files := by
  have hplain : ∀ f ∈ (Pack.ofConfig c).files, Name.IsPlain f.name :=
    fun f hf => Pack.isPlain_of_mem_files hf
  have hslash := fun f hf => (hplain f hf).slash_not_mem
  obtain ⟨script, hscript, hkind⟩ : ∃ f ∈ (Pack.ofConfig c).files, f.isPredicate = false :=
    ⟨_, List.mem_append_right _ (Pack.mem_scriptFiles_iff.2 (.inl rfl)), rfl⟩
  have hext := extends_writePack c start
  rw [h] at hext
  -- the output is where the files have been put
  obtain ⟨base, hbase⟩ := isDir_iff.1 (issues_eq_nil_iff.1 start).2.1
  have hroot := (endsAt_iff.1 (leadsToDir_iff.1 (hext.keepsDirs.leadsToDir hbase)).2).1
  have hlocate := (overwrites_writeFiles hslash h hroot).2
  refine ⟨fun names hnames => ?_, fun f hf => ?_⟩
  · obtain ⟨hne, hway⟩ := prefix_of_mem_outerFolders hnames hkind
    rw [← Bool.not_eq_true]
    intro hfile
    obtain ⟨-, bytes, hentry⟩ := (isFile_below_iff hbase.text_ne_empty (leadsToDir_iff.1 hbase).2
      hne fun name hmem => PackFile.isName_of_mem_folderNames (hway.subset hmem)).1 hfile
    -- a function has been stored behind the folder, so it is a directory now
    obtain ⟨g, -, hfind⟩ := (leaves_of_writeFiles hplain h (.refl u)).stored script hscript
    obtain ⟨a, ha, hstored⟩ := find_eq_file_iff.1 hfind
    cases (hlocate script hscript).symm.trans ha
    have hsuffix : names.reverse ++ base <:+ script.folderNames.reverse ++ base := by
      obtain ⟨more, hmore⟩ := List.reverse_suffix.2 hway
      rw [← hmore, List.append_assoc]
      exact List.suffix_append more _
    have hdir := lookup_of_suffix (hstored ▸ Option.some_ne_none _) hsuffix
    rw [hext.entry hentry] at hdir
    cases hdir
  · exact (pathFault?_eq_none_iff.1 (pathFault?_of_locate (hlocate f hf))).2.2

/-- An empty list of issues does not mean go.  A run that was found in order without
overwriting writes the whole pack of its plan exactly if its output is clear: with no file in
the place of a folder around those that are looked into, and with no path too long. -/
theorem run_write_iff_isClear (start : t.issues config output false = []) (c : Config) :
    (∃ report u, t.run ((Pack.ofConfig c).write output) = (.ok report, u) ∧
      t.Leaves output (Pack.ofConfig c) u) ↔ t.IsClear output (Pack.ofConfig c).files := by
  have hplain : ∀ f ∈ (Pack.ofConfig c).files, Name.IsPlain f.name :=
    fun f hf => Pack.isPlain_of_mem_files hf
  constructor
  · rintro ⟨report, u, hwrite, -⟩
    exact isClear_of_run_write start hwrite
  · intro hclear
    obtain ⟨base, hbase⟩ := isDir_iff.1 (issues_eq_nil_iff.1 start).2.1
    obtain ⟨hroot_fault, hroot⟩ := leadsToDir_iff.1 hbase
    have hfault := fun f hf =>
      pathFault?_join_path hroot_fault (hplain f hf) (hclear.path_fits f hf)
    obtain ⟨report, u, hwrite⟩ := exists_run_writeFiles hroot hbase.text_ne_empty
      (hasRoom_of_issues start hroot hclear hfault) (List.Subset.refl _)
      (fun f hf => (hplain f hf).slash_not_mem)
      (fun f hf => PackFile.utf8ByteSize_fileName_le (Pack.utf8ByteSize_name_le hf)) hfault
      ⟨0, 0, (Pack.ofConfig c).periodicZones, []⟩
    exact ⟨report, u, hwrite, leaves_of_writeFiles hplain hwrite (.refl u)⟩

end

/-- Beside its document, outside of the working directory, the smallest plan has a clear
output; with a file called `data` there as well, the check still passes, but the pack cannot
be written. -/
theorem run_write_iff_isClear_beside_document :
    let t := FileTree.empty.put "plan.json" [] (.file "\x7b\x7d".toUTF8) (lookup_nil _)
      (by simp [empty])
    let u := t.put "data" [] (.file "".toUTF8) (lookup_nil _) (by rw [lookup_put]; simp [empty])
    let pack := Pack.ofConfig ⟨[], [], []⟩
    (t.issues ⟨"/plan.json"⟩ ⟨".."⟩ false = [] ∧
      ∃ report v, t.run (pack.write ⟨".."⟩) = (.ok report, v) ∧ t.Leaves ⟨".."⟩ pack v) ∧
    u.issues ⟨"/plan.json"⟩ ⟨".."⟩ false = [] ∧
      ¬ ∃ report v, u.run (pack.write ⟨".."⟩) = (.ok report, v) ∧ u.Leaves ⟨".."⟩ pack v := by
  intro t u pack
  have ht : t.issues ⟨"/plan.json"⟩ ⟨".."⟩ false = [] := by decide +kernel
  have hu : u.issues ⟨"/plan.json"⟩ ⟨".."⟩ false = [] := by decide +kernel
  have hclear : t.IsClear ⟨".."⟩ pack.files := ⟨by decide +kernel, by decide +kernel⟩
  have hfile : u.isFile (Path.below ⟨".."⟩ ["data"]) = true := by decide +kernel
  refine ⟨⟨ht, (run_write_iff_isClear ht _).2 hclear⟩, hu, fun hwritten => ?_⟩
  have hnot_file := ((run_write_iff_isClear hu _).1 hwritten).not_file ["data"] (by decide)
  rw [hfile] at hnot_file
  cases hnot_file

/-- So a run can be found in order, and its plan be loaded, and yet it cannot write its pack. -/
theorem exists_unwritten_without_issues :
    ¬ ∀ (t : FileTree) (config output : Path) (c : Config),
      t.issues config output false = [] → t.load config = .ok c →
      ∃ report u, t.run ((Pack.ofConfig c).write output) = (.ok report, u) := by
  intro hall
  let t := (FileTree.empty.put "plan.json" ["work"] (.file "\x7b\x7d".toUTF8)
    (by simp [empty]) (by simp [empty])).put "data" ["work"] (.file "".toUTF8)
      (by rw [lookup_put]; simp [empty]) (by rw [lookup_put]; simp [empty])
  have hissues : t.issues ⟨"plan.json"⟩ ⟨"."⟩ false = [] := by decide +kernel
  have hload : t.load ⟨"plan.json"⟩ = .ok ⟨[], [], []⟩ := eq_ok_of_toOption (by decide +kernel)
  have hfile : t.isFile (Path.below ⟨"."⟩ ["data"]) = true := by decide +kernel
  obtain ⟨report, u, hwrite⟩ := hall t _ _ _ hissues hload
  have hnot_file := (isClear_of_run_write hissues hwrite).not_file ["data"] (by decide)
  rw [hfile] at hnot_file
  cases hnot_file

end FileTree

end ZonePack

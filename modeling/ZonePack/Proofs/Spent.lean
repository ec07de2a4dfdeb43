import ZonePack.Proofs.FailedRun
import ZonePack.Proofs.Writing

/-!
# ZonePack.Proofs.Spent

Without overwriting an output is generated at most once.  What tells is the first file of
every pack, which is the same for all plans: a run that changes anything has at least
made the folder of this file, and then either the folder is full, or the file can never
be written (`FileTree.Spent`).

* `spent_of_run_write` — whatever a pack has changed, it has spent the root;
* `Spent.run_write` — what is spent stays as it is;
* `spent_of_changes` — by induction, so it is after all runs that follow on a change.
-/

namespace ZonePack

namespace Pack

/-- The name of the first file of every pack, that of the band that starts at zero. -/
def firstName : String := Name.gainBand 0 ++ ".json"

/-- The path of the first file of every pack. -/
def firstPath : Path := Layout.predicateFolder.join ⟨firstName⟩

/-- A pack starts with this file. -/
theorem exists_files_eq_cons (c : Config) : ∃ first rest, (ofConfig c).files = first :: rest ∧
    first.path = firstPath ∧ first.folder = Layout.predicateFolder := by
  rw [ofConfig, predicateFiles, GainBand.ofSteps, GainBand.edges, GainBand.ofEdges_cons]
  exact ⟨_, _, rfl, rfl, rfl⟩

end Pack

namespace FileTree

variable {t u v : FileTree} {root : Path}

/-! ## Spent outputs -/

/-- Whether no pack can be generated under a root without overwriting: the folder of its
first file is full, or the path of this file can never be followed. -/
structure Spent (t : FileTree) (root : Path) : Prop where
  isDir_folder : t.isDir (root.join Layout.predicateFolder) = true
  blocked : t.isOccupied (root.join Layout.predicateFolder) = true ∨
    ∃ e, pathFault? (root.join Pack.firstPath) = some e

/-- The first file is a name in its folder. -/
theorem join_firstPath (root : Path) : root.join Pack.firstPath =
    (root.join Layout.predicateFolder).join ⟨Pack.firstName⟩ :=
  Path.join_join (by decide) root _

theorem isName_firstName : Path.IsName Pack.firstName :=
  Layout.isName_predicate (Name.isPlain_gainBand 0).slash_not_mem

/-- Where the first file is, the root is spent. -/
theorem spent_of_isFile (h : t.isFile (root.join Pack.firstPath) = true) : t.Spent root := by
  have htext : (root.join Layout.predicateFolder).text ≠ "" :=
    Path.text_join_ne_empty_of_right (by decide) root
  rw [join_firstPath] at h
  obtain ⟨dir, bytes, hdir, -, hfile⟩ := exists_target_of_isFile htext isName_firstName h
  exact ⟨isDir_iff.2 ⟨_, hdir⟩, .inl (hdir.isOccupied_of_lookup hfile)⟩

/-- Where the folder of the first file has been made, but the file cannot be put into it,
the root is spent. -/
theorem spent_of_write_eq_error {dir : Address} {bytes : ByteArray} {e : FileError}
    (hdir : t.LeadsToDir (root.join Layout.predicateFolder) dir)
    (h : t.write (root.join Pack.firstPath) bytes = .error e) : t.Spent root := by
  refine ⟨isDir_iff.2 ⟨_, hdir⟩, ?_⟩
  rw [join_firstPath] at h ⊢
  cases hfault : pathFault? ((root.join Layout.predicateFolder).join ⟨Pack.firstName⟩) with
  | some e => exact .inr ⟨e, rfl⟩
  | none =>
    have htext := hdir.text_ne_empty
    have htarget := (target_join_name_iff htext isName_firstName).2
      ⟨hfault, hdir, by decide, rfl⟩
    by_cases hthere : t.lookup (Pack.firstName :: dir) = some .dir
    · exact .inl (hdir.isOccupied_of_lookup hthere)
    · -- nothing else is in the way of the file
      obtain ⟨u, hwrite, -⟩ := exists_write_of_target htext isName_firstName htarget hthere bytes
      rw [h] at hwrite
      cases hwrite

/-- A pack cannot be written where its first file cannot. -/
theorem Spent.run_write (h : t.Spent root) (c : Config)
    (hfree : t.isOccupied (root.join Layout.predicateFolder) = false) :
    ∃ e, t.run ((Pack.ofConfig c).write root) = (.error e, t) := by
  obtain hfull | ⟨e, hfault⟩ := h.blocked
  · rw [hfull] at hfree
    cases hfree
  · obtain ⟨first, rest, hfiles, hpath, hfolder⟩ := Pack.exists_files_eq_cons c
    have hfirst : t.run (first.write root) = (.error ⟨root.join Pack.firstPath, e⟩, t) := by
      rw [run_writeFile, hfolder, hpath, run_makeDirs_of_isDir h.isDir_folder]
      simp only [write, target, hfault]
    refine ⟨⟨root.join Pack.firstPath, e⟩, ?_⟩
    rw [Pack.write, hfiles, Pack.writeFiles, run_bind, hfirst]
    rfl

/-- Making the folder of the first file and failing to write this file leaves the tree as it
was, or spends the root. -/
theorem Fails.eq_or_spent {first : PackFile} {e : WriteError} (hroot : t.isDir root = true)
    (hpath : first.path = Pack.firstPath) (hfolder : first.folder = Layout.predicateFolder)
    (h : t.Fails root first e u) : u = t ∨ u.Spent root := by
  have htext : (root.join Layout.predicateFolder).text ≠ "" :=
    Path.text_join_ne_empty_of_right (by decide) root
  have hmade := madeOrKept_makeDirs hroot first.folderNames_ne_nil
    fun name => first.isName_of_mem_folderNames
  rw [← first.join_folder, hfolder] at hmade
  cases h with
  | folder made =>
    rw [hfolder] at made
    rw [made] at hmade
    cases hmade
    exact .inl rfl
  | file made refused =>
    rw [hfolder] at made
    rw [hpath] at refused
    have hfault := pathFault?_of_run_makeDirs htext made
    rw [made] at hmade
    cases hmade with
    | kept => exact .inl rfl
    | made there => exact .inr (spent_of_write_eq_error (leadsToDir_iff.2 ⟨hfault, there⟩) refused)

/-- Whatever a pack changes below a root that is there, it spends the root. -/
theorem spent_of_run_write {c : Config} {answer : Except WriteError Report}
    (hroot : t.isDir root = true) (h : t.run ((Pack.ofConfig c).write root) = (answer, u)) :
    u = t ∨ u.Spent root := by
  obtain ⟨first, rest, hfiles, hpath, hfolder⟩ := Pack.exists_files_eq_cons c
  have hplain : ∀ f ∈ (Pack.ofConfig c).files, Name.IsPlain f.name :=
    fun f hf => Pack.isPlain_of_mem_files hf
  -- a first file that has been written is still there
  have hspent {pack : Pack} (hfirst : first ∈ pack.files) (hleft : t.Leaves root pack u) :
      u.Spent root := by
    obtain ⟨g, -, hfind⟩ := hleft.stored first hfirst
    rw [hpath] at hfind
    exact spent_of_isFile (isFile_iff.2 ⟨_, hfind⟩)
  cases answer with
  | ok report =>
    exact .inr (hspent (hfiles ▸ List.mem_cons_self) (leaves_of_writeFiles hplain h (.refl u)))
  | error e =>
    obtain ⟨n, f, v, done, hf, hdone, hfails⟩ := exists_failed_file h
    cases n with
    | zero =>
      rw [hfiles] at hf
      cases hf
      cases hdone
      exact hfails.eq_or_spent hroot hpath hfolder
    | succ n =>
      have hfirst : first ∈ ((Pack.ofConfig c).take (n + 1)).files := by
        rw [Pack.take, hfiles]
        exact List.mem_cons_self
      have hplain_taken : ∀ f ∈ ((Pack.ofConfig c).take (n + 1)).files, Name.IsPlain f.name :=
        fun f hf => hplain f (List.mem_of_mem_take hf)
      exact .inr (hspent hfirst (leaves_of_writeFiles hplain_taken hdone hfails.extendsByDirs))

end FileTree

namespace CommandLine

open FileTree
open Json (eq_ok_of_toOption)

variable {t u : FileTree} {root : Path} {arguments : List String} {calls : List (List String)}

/-! ## Runs -/

/-- Whether arguments ask for a run that writes under a root and may not overwrite. -/
def GeneratesUnder (root : Path) (arguments : List String) : Prop :=
  ∃ o, takeArguments .initial arguments = .ok o ∧ o.outputPath = root ∧ o.force = false

section

variable {config : Path} {force : Bool} {outcome : Outcome}

/-- Without overwriting, a run on a spent output is refused, or fails as any other would. -/
theorem Generation.of_spent (h : Generation config root false t outcome u)
    (hspent : t.Spent root) : outcome.exitCode = 1 ∧ u = t := by
  cases h with
  | refused => exact ⟨rfl, rfl⟩
  | unplanned => exact ⟨rfl, rfl⟩
  | @unwritten c e _ start plan write =>
    obtain ⟨hfree, -⟩ := (issues_eq_nil_iff.1 start).2.2 rfl
    obtain ⟨e, hfails⟩ := hspent.run_write c hfree
    cases write.symm.trans hfails
    exact ⟨rfl, rfl⟩
  | @written c report _ start plan write =>
    obtain ⟨hfree, -⟩ := (issues_eq_nil_iff.1 start).2.2 rfl
    obtain ⟨e, hfails⟩ := hspent.run_write c hfree
    cases write.symm.trans hfails

/-- A run leaves the tree alone, or it spends its output. -/
theorem Generation.eq_or_spent (h : Generation config root force t outcome u) :
    u = t ∨ u.Spent root := by
  cases h with
  | refused => exact .inl rfl
  | unplanned => exact .inl rfl
  | unwritten start plan write => exact spent_of_run_write (issues_eq_nil_iff.1 start).2.1 write
  | written start plan write => exact spent_of_run_write (issues_eq_nil_iff.1 start).2.1 write

end

/-- Where its output is spent, a run fails and changes nothing. -/
theorem GeneratesUnder.run_of_spent (h : GeneratesUnder root arguments) (hspent : t.Spent root) :
    (t.run (run arguments)).1.exitCode = 1 ∧ (t.run (run arguments)).2 = t := by
  obtain ⟨o, hoptions, rfl, hforce⟩ := h
  have hrun := generation_of_ok hoptions (t := t)
  rw [hforce] at hrun
  exact hrun.of_spent hspent

/-- A run changes nothing, or it spends its output. -/
theorem GeneratesUnder.spent_or_eq (h : GeneratesUnder root arguments) (t : FileTree) :
    (t.run (run arguments)).2 = t ∨ (t.run (run arguments)).2.Spent root := by
  obtain ⟨o, hoptions, rfl, -⟩ := h
  exact (generation_of_ok hoptions).eq_or_spent

/-! ## Sequences of runs -/

/-- The tree after some runs, one after the other. -/
def after (t : FileTree) (calls : List (List String)) : FileTree :=
  calls.foldl (fun u arguments => (u.run (run arguments)).2) t

/-- One more run goes on from the tree after the others. -/
theorem after_take_succ {i : Nat} (hi : i < calls.length) :
    after t (calls.take (i + 1)) = ((after t (calls.take i)).run (run calls[i])).2 := by
  rw [after, after, List.take_add_one, List.getElem?_eq_getElem hi, List.foldl_append]
  rfl

/-- Whether the run at an index changes the tree that those before it have left. -/
def Changes (t : FileTree) (calls : List (List String)) (i : Nat) : Prop :=
  after t (calls.take (i + 1)) ≠ after t (calls.take i)

/-- There is a run where the tree changes. -/
theorem Changes.lt_length {i : Nat} (h : Changes t calls i) : i < calls.length := by
  refine Nat.lt_of_not_le fun hle => h ?_
  rw [List.take_of_length_le hle, List.take_of_length_le (Nat.le_succ_of_le hle)]

/-- Once a run has changed the tree, the output is spent for all that follow. -/
theorem spent_of_changes (hcalls : ∀ arguments ∈ calls, GeneratesUnder root arguments) {i j : Nat}
    (h : Changes t calls i) (hij : i < j) : (after t (calls.take j)).Spent root := by
  induction j, hij using Nat.le_induction with
  | base =>
    have hrun := (hcalls _ (List.getElem_mem h.lt_length)).spent_or_eq (after t (calls.take i))
    rw [← after_take_succ] at hrun
    exact hrun.resolve_left h
  | succ j hij ih =>
    by_cases hj : j < calls.length
    · rw [after_take_succ hj, ((hcalls _ (List.getElem_mem hj)).run_of_spent ih).2]
      exact ih
    · have hall : calls.take (j + 1) = calls.take j := by
        rw [List.take_of_length_le (by omega), List.take_of_length_le (by omega)]
      rw [hall]
      exact ih

/-- No run after a change is another one. -/
theorem not_changes_of_changes (hcalls : ∀ arguments ∈ calls, GeneratesUnder root arguments)
    {i j : Nat} (h : Changes t calls i) (hij : i < j) : ¬ Changes t calls j := by
  intro hchange
  have hcall := hcalls _ (List.getElem_mem hchange.lt_length)
  refine hchange ?_
  rw [after_take_succ hchange.lt_length]
  exact (hcall.run_of_spent (spent_of_changes hcalls h hij)).2

/-- Without overwriting, an output is generated at most once.  Of some runs that all write under
one root and may not overwrite, whatever their documents are, at most one changes the tree; and
from then on, even if it has failed with only a part of its files written, every run fails and
leaves the tree as it is. -/
theorem output_changes_at_most_once
    (hcalls : ∀ arguments ∈ calls, GeneratesUnder root arguments) :
    (∀ i j, Changes t calls i → Changes t calls j → i = j) ∧
      ∀ i j (hj : j < calls.length), i < j → Changes t calls i →
        ((after t (calls.take j)).run (run calls[j])).1.exitCode = 1 ∧
          ((after t (calls.take j)).run (run calls[j])).2 = after t (calls.take j) := by
  constructor
  · intro i j hi hj
    obtain hij | rfl | hji := Nat.lt_trichotomy i j
    · exact absurd hj (not_changes_of_changes hcalls hi hij)
    · rfl
    · exact absurd hi (not_changes_of_changes hcalls hj hji)
  · intro i j hj hij hi
    exact (hcalls _ (List.getElem_mem hj)).run_of_spent (spent_of_changes hcalls hi hij)

/-- A file in the place of the folder of functions, here below the root of all files, lets the
first run write its predicate and then fail; the second one, with another document, changes
nothing. -/
theorem output_changes_at_most_once_after_failure :
    let t := (((FileTree.empty.put "plan.json" [] (.file "\x7b\x7d".toUTF8) (lookup_nil _)
      (by simp [empty])).put "data" [] .dir (lookup_nil _) (by decide +kernel)).put "softborder"
        ["data"] .dir (by decide +kernel) (by decide +kernel)).put "functions"
          ["softborder", "data"] (.file "".toUTF8) (by decide +kernel) (by decide +kernel)
    let calls := [["-o", "/", "--config", "../plan.json"], ["-cother.json", "-o/"]]
    (∀ arguments ∈ calls, GeneratesUnder ⟨"/"⟩ arguments) ∧ Changes t calls 0 ∧
      ((after t (calls.take 1)).run (run ["-cother.json", "-o/"])).1.exitCode = 1 ∧
      ((after t (calls.take 1)).run (run ["-cother.json", "-o/"])).2 = after t (calls.take 1) := by
  intro t calls
  have hcalls : ∀ arguments ∈ calls, GeneratesUnder ⟨"/"⟩ arguments := by
    rw [List.forall_mem_cons, List.forall_mem_singleton]
    exact ⟨
      ⟨⟨some ⟨"../plan.json"⟩, some ⟨"/"⟩, false⟩, eq_ok_of_toOption (by decide +kernel), rfl, rfl⟩,
      ⟨⟨some ⟨"other.json"⟩, some ⟨"/"⟩, false⟩, eq_ok_of_toOption (by decide +kernel), rfl, rfl⟩⟩
  have hchange : Changes t calls 0 := by
    intro hsame
    have hfile := congrArg (·.lookup ["ig_zone_0.json", "predicates", "softborder", "data"]) hsame
    exact absurd hfile (by decide +kernel)
  exact ⟨hcalls, hchange,
    (output_changes_at_most_once hcalls).2 0 1 (by decide) (by decide) hchange⟩

end CommandLine

end ZonePack

import ZonePack.Proofs.Folders

/-!
# ZonePack.Proofs.ClearWays

Folders that can be made.  Below a root that is there nothing is in the way of a folder but
a file at its address or around it (`IsClearTo`), or a path that is too long.

* `Extends.walk_or_notFound` — what can be walked in a larger tree fails in a smaller one
  only because something is missing, which is when the folders around are made;
* `HasMade` — the folder is there now, and nothing else is new but what it is in;
* `Makes.join_name` goes one name further in, and `exists_run_makeDirs` is the folder at the
  end of some names.
-/

namespace ZonePack

namespace FileTree

variable {t u v : FileTree} {p q root : Path} {name : String} {names : List String}
  {place next base dir a : Address} {around : List Path}

/-! ## Ways in a smaller tree -/

/-- A way that can be walked in a larger tree is walked to the same place, or something is
missing on it. -/
theorem Extends.walk_or_notFound {steps : List Path.Step} (h : u.Extends t)
    (hwalk : u.walk place steps = .ok next) :
    t.walk place steps = .ok next ∨ t.walk place steps = .error .notFound := by
  induction steps generalizing place with
  | nil => exact .inl hwalk
  | cons step steps ih =>
    obtain ⟨hdir, middle, hfollow, hrest⟩ := walk_cons_iff.1 hwalk
    have hentry : t.lookup place = none ∨ t.lookup place = some .dir := by
      cases hplace : t.lookup place with
      | none => exact .inl rfl
      | some entry => exact .inr ((h.entry hplace).symm.trans hdir)
    rw [walk]
    obtain hnone | hdir := hentry
    · exact .inr (by rw [hnone])
    · simp only [hdir, hfollow]
      exact ih hrest

/-- So a path that leads to a directory in a larger tree leads to it already, or something is
missing on its way. -/
theorem Extends.endsAt_or_notFound (h : u.Extends t) (hends : u.EndsAt p place) :
    t.EndsAt p place ∨ t.walk (t.startOf p) (p.steps ++ [.here]) = .error .notFound := by
  rw [EndsAt, h.keepsDirs.startOf] at hends
  exact h.walk_or_notFound hends

/-! ## Directories on the way to an address -/

/-- What an entry is in, and what that is in, are directories. -/
theorem lookup_of_suffix (h : t.lookup (name :: dir) ≠ none) (ha : a <:+ dir) :
    t.lookup a = some .dir := by
  obtain ⟨names, rfl⟩ := ha
  exact lookup_of_lookup_append (lookup_around h)

/-- Whether a tree has what another one has, seen from the same directory, and a directory at
an address and wherever this is in. -/
structure HasMade (u t : FileTree) (dir : Address) : Prop where
  home_eq : u.home = t.home
  lookup_eq : ∀ a, u.lookup a = if a <:+ dir then some .dir else t.lookup a

/-- A directory that is there need not be made. -/
theorem hasMade_of_lookup (h : t.lookup dir = some .dir) : t.HasMade t dir := by
  refine ⟨rfl, fun a => ?_⟩
  split
  · next hsuffix =>
    obtain ⟨names, rfl⟩ := hsuffix
    exact lookup_of_lookup_append h
  · rfl

/-- One more directory is one more step on the way. -/
theorem HasMade.cons (h : u.HasMade t dir) (hput : v.HasPut u (name :: dir) .dir) :
    v.HasMade t (name :: dir) := by
  refine ⟨hput.home_eq.trans h.home_eq, fun a => ?_⟩
  rw [hput.lookup_eq, h.lookup_eq]
  by_cases ha : a = name :: dir
  · simp [ha]
  · simp [ha, List.suffix_cons_iff]

/-- Whether there is no file at an address or around it. -/
def IsClearTo (t : FileTree) (dir : Address) : Prop :=
  ∀ a, a <:+ dir → ∀ bytes, t.lookup a ≠ some (.file bytes)

theorem IsClearTo.mono (h : t.IsClearTo dir) (ha : a <:+ dir) : t.IsClearTo a :=
  fun b hb => h b (hb.trans ha)

/-- Where no file was in the way, only directories are new. -/
theorem HasMade.extends (h : u.HasMade t dir) (hclear : t.IsClearTo dir) : u.Extends t := by
  refine ⟨h.home_eq, fun {a entry} ha => ?_⟩
  rw [h.lookup_eq]
  split
  · next hsuffix =>
    cases entry with
    | dir => rfl
    | file bytes => exact absurd ha (hclear a hsuffix bytes)
  · exact ha

/-! ## One folder -/

/-- Where a directory is missing around a folder, it is made once they all are there. -/
theorem run_makeNested_of_notFound (h : t.makeDir p = .error .notFound)
    (haround : t.run (Disk.makeNested around) = (.ok (), u)) :
    t.run (Disk.makeNested (p :: around)) = u.ensureDir p := by
  rw [run_makeNested_cons, h]
  simp only [haround]

/-- A name can be made in a directory unless something is in its place. -/
theorem makeDir_join_name (hp : p.text ≠ "") (hname : Path.IsName name)
    (hfit : name.utf8ByteSize ≤ maxNameBytes) (hfault : pathFault? (p.join ⟨name⟩) = none)
    (hends : t.EndsAt p dir) :
    if t.lookup (name :: dir) = none then
      ∃ u, t.makeDir (p.join ⟨name⟩) = .ok u ∧ u.HasPut t (name :: dir) .dir
    else t.makeDir (p.join ⟨name⟩) = .error .alreadyExists := by
  have hleads : t.LeadsToDir p dir :=
    leadsToDir_iff.2 ⟨pathFault?_of_join hp hfault, hends⟩
  have hin_dir : t.lookup dir = some .dir := hleads.2
  have htarget : t.target (p.join ⟨name⟩) = .ok (.entry name dir) :=
    (target_join_name_iff hp hname).2 ⟨hfault, hleads, hfit, rfl⟩
  split
  · next hnone =>
    have hput := hasPut_put .dir hin_dir (by rw [hnone]; nofun)
    exact ⟨_, makeDir_eq_ok_iff.2 ⟨name, dir, htarget, hin_dir, hnone, hput⟩, hput⟩
  · next hsome => simp [-lookup_cons, makeDir, htarget, hin_dir, hsome]

/-- If it cannot be made, this is not because something around it is missing. -/
theorem makeDir_join_name_ne_notFound (hp : p.text ≠ "") (hname : Path.IsName name)
    (hfit : name.utf8ByteSize ≤ maxNameBytes) (hfault : pathFault? (p.join ⟨name⟩) = none)
    (hends : t.EndsAt p dir) : t.makeDir (p.join ⟨name⟩) ≠ .error .notFound := by
  have hmake := makeDir_join_name hp hname hfit hfault hends
  split at hmake
  · obtain ⟨u, hmake, -⟩ := hmake
    rw [hmake]
    nofun
  · rw [hmake]
    nofun

/-- So where no file is in its place, it is there after an attempt. -/
theorem exists_ensureDir (hp : p.text ≠ "") (hname : Path.IsName name)
    (hfit : name.utf8ByteSize ≤ maxNameBytes) (hfault : pathFault? (p.join ⟨name⟩) = none)
    (hends : t.EndsAt p dir)
    (hfree : ∀ bytes, t.lookup (name :: dir) ≠ some (.file bytes)) :
    ∃ u, t.ensureDir (p.join ⟨name⟩) = (.ok (), u) ∧
      u.EndsAt (p.join ⟨name⟩) (name :: dir) ∧ u.HasPut t (name :: dir) .dir := by
  have hmake := makeDir_join_name hp hname hfit hfault hends
  cases hentry : t.lookup (name :: dir) with
  | none =>
    rw [if_pos hentry] at hmake
    obtain ⟨u, hmake, hput⟩ := hmake
    have hfolder : u.EndsAt p dir := (hput.extends (.refl t) hentry).keepsDirs.endsAt hends
    exact ⟨u, by rw [ensureDir, hmake],
      (endsAt_join_name_iff hp hname).2 ⟨dir, hfolder, hfit, hput.lookup_self, rfl⟩, hput⟩
  | some entry =>
    rw [if_neg (hentry ▸ Option.some_ne_none entry)] at hmake
    cases entry with
    | file bytes => exact absurd hentry (hfree bytes)
    | dir =>
      have hthere := (endsAt_join_name_iff hp hname).2 ⟨dir, hends, hfit, hentry, rfl⟩
      have hdir : t.isDir (p.join ⟨name⟩) = true :=
        isDir_iff.2 ⟨_, leadsToDir_iff.2 ⟨hfault, hthere⟩⟩
      refine ⟨t, by simp [ensureDir, hmake, hdir], hthere, rfl, fun a => ?_⟩
      split
      · next ha => rw [ha, hentry]
      · rfl

/-! ## One name further in -/

/-- Whether making some folders answers with success, and leaves a directory at the end of a
path, with nothing else new but what it is in. -/
def Makes (t : FileTree) (folders : List Path) (p : Path) (dir : Address) : Prop :=
  ∃ u, t.run (Disk.makeNested folders) = (.ok (), u) ∧ u.EndsAt p dir ∧ u.HasMade t dir

/-- The path may be said in another way. -/
theorem Makes.congr (h : t.Makes around p dir) (hpq : p.Alike q) : t.Makes around q dir := by
  obtain ⟨u, hrun, hends, hmade⟩ := h
  exact ⟨u, hrun, (endsAt_congr_of_alike hpq).1 hends, hmade⟩

/-- A name whose folder is missing cannot be made before its folder. -/
theorem makeDir_of_walk_eq_notFound (hp : p.text ≠ "") (hname : Path.IsName name)
    (hfault : pathFault? (p.join ⟨name⟩) = none)
    (h : t.walk (t.startOf p) (p.steps ++ [.here]) = .error .notFound) :
    t.makeDir (p.join ⟨name⟩) = .error .notFound := by
  have hsteps : (p.join ⟨name⟩).steps = p.steps ++ [.name name] := by
    rw [Path.steps_join, hname.steps]
  simp [makeDir, target, hfault, hsteps, t.startOf_join hp, h]

/-- Where the folder around can be made, so can a name in it, unless it is a file. -/
theorem Makes.join_name (hp : p.text ≠ "") (hname : Path.IsName name)
    (hfit : name.utf8ByteSize ≤ maxNameBytes) (hfault : pathFault? (p.join ⟨name⟩) = none)
    (hclear : t.IsClearTo (name :: dir)) (h : t.Makes around p dir) :
    t.Makes (p.join ⟨name⟩ :: around) (p.join ⟨name⟩) (name :: dir) := by
  obtain ⟨u, hrun, hends, hmade⟩ := h
  have hext := hmade.extends (hclear.mono (List.suffix_cons name dir))
  obtain hthere | hwalk := hext.endsAt_or_notFound hends
  · have hne := makeDir_join_name_ne_notFound hp hname hfit hfault hthere
    obtain ⟨v, hensure, hown, hput⟩ :=
      exists_ensureDir hp hname hfit hfault hthere (hclear _ List.suffix_rfl)
    exact ⟨v, (run_makeNested_of_ne_notFound hne).trans hensure, hown,
      (hasMade_of_lookup (endsAt_iff.1 hthere).2).cons hput⟩
  · have hmissing := makeDir_of_walk_eq_notFound hp hname hfault hwalk
    have hfree : ∀ bytes, u.lookup (name :: dir) ≠ some (.file bytes) := by
      intro bytes
      rw [hmade.lookup_eq]
      split
      · nofun
      · exact hclear _ List.suffix_rfl bytes
    obtain ⟨v, hensure, hown, hput⟩ := exists_ensureDir hp hname hfit hfault hends hfree
    exact ⟨v, (run_makeNested_of_notFound hmissing hrun).trans hensure, hown, hmade.cons hput⟩

/-! ## Folders below a root -/

/-- If the path of a folder can be followed, so can that of the root. -/
theorem pathFault?_of_below (hroot : root.text ≠ "") (h : pathFault? (root.below names) = none) :
    pathFault? root = none := by
  induction names generalizing root with
  | nil => exact h
  | cons name names ih =>
    exact pathFault?_of_join hroot (ih (Path.text_join_ne_empty hroot ⟨name⟩) h)

/-- The way to a folder below a root goes on from there by its names. -/
theorem way_below (t : FileTree) (hroot : root.text ≠ "")
    (hnames : ∀ name ∈ names, Path.IsName name ∧ name.utf8ByteSize ≤ maxNameBytes) :
    t.startOf (root.below names) = t.startOf root ∧
      (root.below names).steps = root.steps ++ names.map .name := by
  induction names generalizing root with
  | nil => simp
  | cons name names ih =>
    rw [List.forall_mem_cons] at hnames
    obtain ⟨hstart, hsteps⟩ := ih (Path.text_join_ne_empty hroot ⟨name⟩) hnames.2
    rw [Path.below_cons, hstart, hsteps, t.startOf_join hroot, Path.steps_join, hnames.1.1.steps]
    simp

/-- A folder below a root is there exactly if a directory is at its address. -/
theorem endsAt_below_iff (hroot : root.text ≠ "") (h : t.EndsAt root base)
    (hnames : ∀ name ∈ names, Path.IsName name ∧ name.utf8ByteSize ≤ maxNameBytes) :
    t.EndsAt (root.below names) place ↔
      t.lookup (names.reverse ++ base) = some .dir ∧ place = names.reverse ++ base := by
  have hfits : ∀ name ∈ names, name.utf8ByteSize ≤ maxNameBytes := fun name hmem =>
    (hnames name hmem).2
  obtain ⟨hstart, hsteps⟩ := t.way_below hroot hnames
  rw [EndsAt, hstart, hsteps, List.append_assoc, walk_append_iff]
  simp only [(endsAt_iff.1 h).1, Except.ok.injEq, exists_eq_left', walk_names_iff]
  exact and_iff_right hfits

/-- A file below a root is one of that path exactly if it is at its address. -/
theorem isFile_below_iff (hroot : root.text ≠ "") (h : t.EndsAt root base)
    (hne : names ≠ [])
    (hnames : ∀ name ∈ names, Path.IsName name ∧ name.utf8ByteSize ≤ maxNameBytes) :
    t.isFile (root.below names) = true ↔ pathFault? (root.below names) = none ∧
      ∃ bytes, t.lookup (names.reverse ++ base) = some (.file bytes) := by
  obtain rfl | ⟨folders, name, rfl⟩ := List.eq_nil_or_concat names
  · exact absurd rfl hne
  · rw [List.concat_eq_append] at hnames ⊢
    rw [List.forall_mem_append] at hnames
    obtain ⟨hname, hfit⟩ := hnames.2 name List.mem_cons_self
    have hfolder := Path.text_below_ne_empty hroot folders
    have hends {place : Address} := @endsAt_below_iff t root folders place base hroot h hnames.1
    rw [Path.below_append, Path.below_cons, Path.below_nil, List.reverse_append,
      List.reverse_singleton, List.singleton_append, List.cons_append]
    constructor
    · intro hfile
      obtain ⟨dir, bytes, hdir, htarget, hentry⟩ := exists_target_of_isFile hfolder hname hfile
      obtain ⟨-, hplace⟩ := hends.1 (leadsToDir_iff.1 hdir).2
      cases hplace
      exact ⟨((target_join_name_iff hfolder hname).1 htarget).1, bytes, hentry⟩
    · rintro ⟨hfault, bytes, hentry⟩
      have hdir := hends.2 ⟨lookup_of_lookup_cons hentry, rfl⟩
      have hleads := leadsToDir_iff.2 ⟨pathFault?_of_join hfolder hfault, hdir⟩
      have htarget := (target_join_name_iff hfolder hname).2 ⟨hfault, hleads, hfit, rfl⟩
      exact isFile_iff.2 ⟨bytes, find_eq_file_iff.2
        ⟨_, locate_join_name hfolder hname htarget, hentry⟩⟩

/-- The root is there already. -/
theorem makes_outward_root (hfault : pathFault? root = none) (h : t.EndsAt root base) :
    t.Makes (Path.outward root.components) root base := by
  have htext := (pathFault?_eq_none_iff.1 hfault).2.1
  obtain ⟨around, haround⟩ := Path.exists_outward_components htext
  have halike := Path.alike_ofComponents root
  have hends := (endsAt_congr_of_alike halike).2 h
  have hdir := isDir_iff.2 ⟨_, leadsToDir_iff.2 ⟨pathFault?_ofComponents hfault, hends⟩⟩
  have hmake := makeDir_of_isDir hdir
  rw [haround]
  refine ⟨t, ?_, h, hasMade_of_lookup (endsAt_iff.1 h).2⟩
  rw [run_makeNested_of_ne_notFound (by rw [hmake]; nofun), ensureDir, hmake]
  simp [hdir]

/-- From a folder that can be made, all that is below can be made. -/
theorem Makes.outward_below (hp : p.text ≠ "") (hfault : pathFault? (p.below names) = none)
    (hnames : ∀ name ∈ names, Path.IsName name ∧ name.utf8ByteSize ≤ maxNameBytes)
    (hclear : t.IsClearTo (names.reverse ++ dir))
    (h : t.Makes (Path.outward p.components) p dir) :
    t.Makes (Path.outward (p.below names).components) (p.below names) (names.reverse ++ dir) := by
  induction names generalizing p dir with
  | nil => exact h
  | cons name names ih =>
    rw [List.forall_mem_cons] at hnames
    obtain ⟨⟨hname, hfit⟩, hnames⟩ := hnames
    rw [List.reverse_cons, List.append_assoc, List.singleton_append] at hclear ⊢
    have htext := Path.text_join_ne_empty hp ⟨name⟩
    have halike := Path.alike_ofComponents p
    have hwritten := halike.text_ne_empty hp
    refine ih htext hfault hnames hclear ?_
    -- the name is made where its folder is written down again
    have hjoin_fault : pathFault? ((Path.ofComponents p.components).join ⟨name⟩) = none := by
      rw [← Path.ofComponents_append_name hp, ← Path.components_join_name hp hname]
      exact pathFault?_ofComponents (pathFault?_of_below htext hfault)
    have hname_clear := hclear.mono (List.suffix_append names.reverse (name :: dir))
    rw [Path.outward_join_name hp hname]
    refine ((h.congr halike.symm).join_name hwritten hname hfit hjoin_fault hname_clear).congr ?_
    rw [Path.Alike, Path.components_join_name hwritten hname, Path.components_join_name hp hname,
      halike]

/-- Below a root that is there, a folder can be made where no file is in the way, and then
nothing is new but directories on the way to it. -/
theorem exists_run_makeDirs (hroot : t.EndsAt root base) (hne : names ≠ [])
    (hfault : pathFault? (root.below names) = none) (htext : root.text ≠ "")
    (hnames : ∀ name ∈ names, Path.IsName name ∧ name.utf8ByteSize ≤ maxNameBytes)
    (hclear : t.IsClearTo (names.reverse ++ base)) :
    ∃ u, t.run (Disk.makeDirs (root.below names)) = (.ok (), u) ∧
      u.EndsAt (root.below names) (names.reverse ++ base) ∧
      u.HasMade t (names.reverse ++ base) := by
  obtain rfl | ⟨folders, name, rfl⟩ := List.eq_nil_or_concat names
  · exact absurd rfl hne
  · rw [List.concat_eq_append] at hnames hfault hclear ⊢
    rw [List.forall_mem_append] at hnames
    obtain ⟨hname, hfit⟩ := hnames.2 name List.mem_cons_self
    have hfolder := Path.text_below_ne_empty htext folders
    rw [Path.below_append, Path.below_cons, Path.below_nil] at hfault ⊢
    rw [List.reverse_append, List.reverse_singleton, List.singleton_append,
      List.cons_append] at hclear ⊢
    have hfolder_fault := pathFault?_of_join hfolder hfault
    have hmade := makes_outward_root (pathFault?_of_below htext hfolder_fault) hroot
    have haround := hmade.outward_below htext hfolder_fault hnames.1
      (hclear.mono (List.suffix_cons name _))
    rw [Disk.makeDirs, Path.ancestors_join_name hfolder hname]
    exact haround.join_name hfolder hname hfit hfault hclear

end FileTree

end ZonePack

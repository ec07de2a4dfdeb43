import ZonePack.Pack.Tables
import ZonePack.Proofs.GainBand
import ZonePack.Proofs.LastMatch
import ZonePack.Proofs.Layout
import ZonePack.Proofs.Name

/-!
# ZonePack.Proofs.Pack

Looking files up in the pack of a plan.  All names in a pack are plain, so files
at one place are files of one kind and one name, and a look-up is a search for
the last file of its kind with a name:

* `get?_predicateFile`, `get?_scriptFile` — the search, among predicates or
  among functions only;
* `predicates_of_leavesToBands` — under a name that no zone has, the last band of
  this name is found;
* `predicates_gainBand` — under a band's name it is the last band with its lower
  edge, whatever the zones are;
* `get?_fixed` — the fixed functions are found whatever the zones are.
-/

namespace ZonePack

/-! ## Names of files -/

theorem Zone.isPlain_name (z : Zone) : Name.IsPlain z.name :=
  Name.isPlain_zone _ _ _

/-- No zone is named as a fixed function. -/
theorem Zone.name_not_mem_fixedFunctions (z : Zone) : z.name ∉ Name.fixedFunctions :=
  Name.zone_not_mem_fixedFunctions _ _ _

namespace Zone

/-- Exactly a zone with a periodic effect has a loop. -/
theorem loop?_eq_some_iff {z : Zone} {l : PeriodicLoop} :
    z.loop? = some l ↔ ∃ period pulse, z.effect.mode = .periodic period pulse ∧
      l = ⟨z.name, z.periodicEffect period pulse⟩ := by
  unfold loop?
  cases z.effect.mode <;> simp [eq_comm]

/-- Exactly a zone with a constant effect is refreshed. -/
theorem refresh?_eq_some_iff {z : Zone} {command : Command} :
    z.refresh? = some command ↔ z.effect.mode = .constant ∧ command = z.constantEffect := by
  unfold refresh?
  cases z.effect.mode <;> simp [eq_comm]

end Zone

/-- Predicates and effects are generated for the same zones. -/
theorem Config.mem_zones_iff {c : Config} {z : Zone} : z ∈ c.zones ↔ z ∈ c.effectZones := by
  simp [zones, effectZones, or_comm]

namespace Config

/-- Whether only bands can have a name: a file can have it, and no zone does. -/
def LeavesToBands (c : Config) (name : String) : Prop :=
  '/' ∉ name.toList ∧ ∀ z ∈ c.zones, z.name ≠ name

instance (c : Config) (name : String) : Decidable (c.LeavesToBands name) :=
  inferInstanceAs (Decidable (_ ∧ _))

/-- The names of bands are left to them, whatever the zones are. -/
theorem leavesToBands_gainBand (c : Config) (lower : Int64) :
    c.LeavesToBands (Name.gainBand lower) :=
  ⟨(Name.isPlain_gainBand lower).slash_not_mem,
    fun _ _ => (Name.gainBand_ne_zone lower _ _ _).symm⟩

end Config

namespace PackFile

/-! ## Files at one place -/

/-- A file is at the place of a predicate exactly if it is one of that name. -/
theorem path_alike_predicateFile_iff {f : PackFile} {name : String} (hf : Name.IsPlain f.name)
    (hn : '/' ∉ name.toList) :
    f.path.Alike (Layout.predicateFile name) ↔ f.isPredicate ∧ f.name = name := by
  obtain ⟨own, body⟩ := f
  cases body with
  | predicate p => simp [path, isPredicate, Layout.predicateFile_alike_iff hf.slash_not_mem hn]
  | script s =>
    have hne : ¬ (Layout.scriptFile own).Alike (Layout.predicateFile name) := fun h =>
      Layout.not_predicateFile_alike_scriptFile hn hf.slash_not_mem h.symm
    simp [path, isPredicate, hne]

/-- A file is at the place of a function exactly if it is one of that name. -/
theorem path_alike_scriptFile_iff {f : PackFile} {name : String} (hf : Name.IsPlain f.name)
    (hn : '/' ∉ name.toList) :
    f.path.Alike (Layout.scriptFile name) ↔ f.isPredicate = false ∧ f.name = name := by
  obtain ⟨own, body⟩ := f
  cases body with
  | predicate p =>
    simp [path, isPredicate, Layout.not_predicateFile_alike_scriptFile hf.slash_not_mem hn]
  | script s => simp [path, isPredicate, Layout.scriptFile_alike_iff hf.slash_not_mem hn]

/-- Files are at one place exactly if they are of one kind and have one name. -/
theorem path_alike_iff {f g : PackFile} (hf : Name.IsPlain f.name) (hg : Name.IsPlain g.name) :
    f.path.Alike g.path ↔ f.isPredicate = g.isPredicate ∧ f.name = g.name := by
  obtain ⟨name, body⟩ := g
  cases body with
  | predicate p => exact path_alike_predicateFile_iff hf hg.slash_not_mem
  | script s => exact path_alike_scriptFile_iff hf hg.slash_not_mem

/-- Files at one place are written to one path. -/
theorem path_eq_of_alike {f g : PackFile} (hf : Name.IsPlain f.name) (hg : Name.IsPlain g.name)
    (h : f.path.Alike g.path) : f.path = g.path := by
  obtain ⟨name, body⟩ := g
  cases body with
  | predicate p =>
    obtain ⟨hkind, rfl⟩ := (path_alike_predicateFile_iff hf hg.slash_not_mem).1 h
    obtain ⟨own, body⟩ := f
    cases body with
    | predicate p => rfl
    | script s => cases hkind
  | script s =>
    obtain ⟨hkind, rfl⟩ := (path_alike_scriptFile_iff hf hg.slash_not_mem).1 h
    obtain ⟨own, body⟩ := f
    cases body with
    | predicate p => cases hkind
    | script s => rfl

/-! ## Files in their folders -/

/-- The name of a file inside its folder. -/
def fileName (f : PackFile) : String :=
  match f.body with
  | .predicate _ => f.name ++ ".json"
  | .script _ => f.name ++ ".mcfunction"

/-- A file is directly in its folder. -/
theorem path_eq_join (f : PackFile) : f.path = f.folder.join ⟨f.fileName⟩ := by
  cases f with
  | mk name body => cases body <;> rfl

/-- A plain name gives the name of a file. -/
theorem isName_fileName {f : PackFile} (h : '/' ∉ f.name.toList) : Path.IsName f.fileName := by
  cases f with
  | mk name body =>
    cases body with
    | predicate p => exact Layout.isName_predicate h
    | script s => exact Layout.isName_script h

/-- The folders that a file may be in. -/
theorem folder_eq_or (f : PackFile) :
    f.folder = Layout.predicateFolder ∨ f.folder = Layout.scriptFolder := by
  cases f with
  | mk name body =>
    cases body with
    | predicate p => exact .inl rfl
    | script s => exact .inr rfl

/-- A folder says something. -/
theorem text_folder_ne_empty (f : PackFile) : f.folder.text ≠ "" := by
  obtain h | h := f.folder_eq_or <;> rw [h] <;> decide

/-- Below a root, a file is directly in its folder there. -/
theorem join_path (f : PackFile) (root : Path) :
    root.join f.path = (root.join f.folder).join ⟨f.fileName⟩ := by
  rw [path_eq_join, Path.join_join f.text_folder_ne_empty]

/-- The names of the file's folder, from the outside in. -/
def folderNames (f : PackFile) : List String :=
  match f.body with
  | .predicate _ => ["data", "softborder", "predicates"]
  | .script _ => ["data", "softborder", "functions", "private", "gen"]

/-- The way to the file's folder is one of names. -/
theorem steps_folder (f : PackFile) : f.folder.steps = f.folderNames.map .name := by
  have hpredicate : Layout.predicateFolder.steps =
      ["data", "softborder", "predicates"].map .name := by decide
  have hscript : Layout.scriptFolder.steps =
      ["data", "softborder", "functions", "private", "gen"].map .name := by decide
  cases f with
  | mk name body =>
    cases body with
    | predicate p => exact hpredicate
    | script s => exact hscript

end PackFile

namespace Pack

/-! ## The files of a plan -/

/-- A predicate of a plan is that of one of its bands or of one of its zones. -/
theorem mem_predicateFiles_iff {c : Config} {f : PackFile} :
    f ∈ predicateFiles c ↔
      (∃ b ∈ GainBand.ofSteps c.gainSteps, f = b.file) ∨ ∃ z ∈ c.zones, f = z.file := by
  simp [predicateFiles, eq_comm]

/-- The loops of a plan are those of its zones with periodic effects. -/
theorem mem_periodic_iff {c : Config} {l : PeriodicLoop} :
    l ∈ (EffectScripts.ofConfig c).periodic ↔
      ∃ z ∈ c.zones, ∃ period pulse, z.effect.mode = .periodic period pulse ∧
        l = ⟨z.name, z.periodicEffect period pulse⟩ := by
  simp [EffectScripts.ofConfig, EffectScripts.ofZones, Zone.loop?_eq_some_iff,
    Config.mem_zones_iff]

/-- A function of a plan is a fixed one or a loop. -/
theorem mem_scriptFiles_iff {c : Config} {f : PackFile} :
    f ∈ scriptFiles c ↔
      f = ⟨Name.updateInsanity, .script (.updateInsanity c.gainSteps)⟩ ∨
      f = ⟨Name.applyConstantEffects, .script (EffectScripts.ofConfig c).constant⟩ ∨
      (∃ l ∈ (EffectScripts.ofConfig c).periodic, f = l.file) ∨
      f = ⟨Name.startPeriodicEffects, .script (EffectScripts.ofConfig c).start⟩ ∨
      f = ⟨Name.stopPeriodicEffects, .script (EffectScripts.ofConfig c).stop⟩ := by
  simp [scriptFiles, eq_comm]

theorem isPredicate_of_mem_predicateFiles {c : Config} {f : PackFile}
    (h : f ∈ predicateFiles c) : f.isPredicate := by
  obtain ⟨b, -, rfl⟩ | ⟨z, -, rfl⟩ := mem_predicateFiles_iff.1 h <;> rfl

theorem isPredicate_of_mem_scriptFiles {c : Config} {f : PackFile}
    (h : f ∈ scriptFiles c) : f.isPredicate = false := by
  obtain rfl | rfl | ⟨l, -, rfl⟩ | rfl | rfl := mem_scriptFiles_iff.1 h <;> rfl

/-- A loop is named as its zone. -/
theorem isPlain_of_mem_periodic {c : Config} {l : PeriodicLoop}
    (h : l ∈ (EffectScripts.ofConfig c).periodic) : Name.IsPlain l.name := by
  obtain ⟨z, -, period, pulse, -, rfl⟩ := mem_periodic_iff.1 h
  exact z.isPlain_name

/-- No loop is named as a fixed function. -/
theorem not_mem_fixedFunctions_of_mem_periodic {c : Config} {l : PeriodicLoop}
    (h : l ∈ (EffectScripts.ofConfig c).periodic) : l.name ∉ Name.fixedFunctions := by
  obtain ⟨z, -, period, pulse, -, rfl⟩ := mem_periodic_iff.1 h
  exact z.name_not_mem_fixedFunctions

/-- Every name in the pack of a plan is that of a band, of a zone or of a fixed function. -/
theorem name_cases_of_mem_files {c : Config} {f : PackFile} (h : f ∈ (ofConfig c).files) :
    (∃ lower, f.name = Name.gainBand lower) ∨ (∃ z : Zone, f.name = z.name) ∨
      f.name ∈ Name.fixedFunctions := by
  obtain h | h := List.mem_append.1 h
  · obtain ⟨b, -, rfl⟩ | ⟨z, -, rfl⟩ := mem_predicateFiles_iff.1 h
    · exact .inl ⟨b.lower, rfl⟩
    · exact .inr (.inl ⟨z, rfl⟩)
  · obtain rfl | rfl | ⟨l, hl, rfl⟩ | rfl | rfl := mem_scriptFiles_iff.1 h
    · exact .inr (.inr (by simp [Name.fixedFunctions]))
    · exact .inr (.inr (by simp [Name.fixedFunctions]))
    · obtain ⟨z, -, period, pulse, -, rfl⟩ := mem_periodic_iff.1 hl
      exact .inr (.inl ⟨z, rfl⟩)
    · exact .inr (.inr (by simp [Name.fixedFunctions]))
    · exact .inr (.inr (by simp [Name.fixedFunctions]))

/-- So it is plain. -/
theorem isPlain_of_mem_files {c : Config} {f : PackFile} (h : f ∈ (ofConfig c).files) :
    Name.IsPlain f.name := by
  obtain ⟨lower, hname⟩ | ⟨z, hname⟩ | hfixed := name_cases_of_mem_files h
  · exact hname ▸ Name.isPlain_gainBand lower
  · exact hname ▸ z.isPlain_name
  · exact Name.isPlain_of_mem_fixedFunctions hfixed

/-- And it is not too long for a file. -/
theorem utf8ByteSize_name_le {c : Config} {f : PackFile} (h : f ∈ (ofConfig c).files) :
    f.name.utf8ByteSize ≤ 49 := by
  obtain ⟨lower, hname⟩ | ⟨z, hname⟩ | hfixed := name_cases_of_mem_files h
  · exact hname ▸ Nat.le_trans (Name.utf8ByteSize_gainBand_le lower) (by decide)
  · exact hname ▸ Name.utf8ByteSize_zone_le _ _ _
  · exact Nat.le_trans (Name.utf8ByteSize_le_of_mem_fixedFunctions hfixed) (by decide)

/-! ## Looking up -/

/-- Where a file of the pack is, something is found. -/
theorem exists_get?_of_mem {pack : Pack} {f : PackFile} (h : f ∈ pack.files) :
    ∃ g, pack.get? f.path = some g :=
  exists_findRev?_iff.2 ⟨f, h, by simp [Path.Alike]⟩

/-- Looking a predicate up is a search among the predicates only. -/
theorem get?_predicateFile (c : Config) {name : String} (h : '/' ∉ name.toList) :
    (ofConfig c).get? (Layout.predicateFile name) =
      (predicateFiles c).findRev? (·.name = name) := by
  refine findRev?_append_of_left (fun f hf => ?_) fun f hf => ?_
  · have hplain := isPlain_of_mem_files (List.mem_append_left (scriptFiles c) hf)
    simp [PackFile.path_alike_predicateFile_iff hplain h, isPredicate_of_mem_predicateFiles hf]
  · have hplain := isPlain_of_mem_files (List.mem_append_right (predicateFiles c) hf)
    simp [PackFile.path_alike_predicateFile_iff hplain h, isPredicate_of_mem_scriptFiles hf]

/-- Looking a function up is a search among the functions only. -/
theorem get?_scriptFile (c : Config) {name : String} (h : '/' ∉ name.toList) :
    (ofConfig c).get? (Layout.scriptFile name) =
      (scriptFiles c).findRev? (·.name = name) := by
  refine findRev?_append_of_right (fun f hf => ?_) fun f hf => ?_
  · have hplain := isPlain_of_mem_files (List.mem_append_left (scriptFiles c) hf)
    simp [PackFile.path_alike_scriptFile_iff hplain h, isPredicate_of_mem_predicateFiles hf]
  · have hplain := isPlain_of_mem_files (List.mem_append_right (predicateFiles c) hf)
    simp [PackFile.path_alike_scriptFile_iff hplain h, isPredicate_of_mem_scriptFiles hf]

/-- Under a name that only bands can have, the last band of this name is stored. -/
theorem predicates_of_leavesToBands {c : Config} {name : String} (h : c.LeavesToBands name) :
    (ofConfig c).predicates name =
      ((GainBand.ofSteps c.gainSteps).findRev? (·.name = name)).map GainBand.predicate := by
  have hbands : (predicateFiles c).findRev? (·.name = name) =
      ((GainBand.ofSteps c.gainSteps).map GainBand.file).findRev? (·.name = name) := by
    refine findRev?_append_of_left (fun f hf => rfl) fun f hf => ?_
    obtain ⟨z, hz, rfl⟩ := List.mem_map.1 hf
    have hne : z.file.name ≠ name := h.2 z hz
    simp [hne]
  have hfile : (ofConfig c).get? (Layout.predicateFile name) =
      ((GainBand.ofSteps c.gainSteps).findRev? (·.name = name)).map GainBand.file := by
    rw [get?_predicateFile c h.1, hbands, findRev?_map]
    rfl
  rw [predicates, hfile]
  cases (GainBand.ofSteps c.gainSteps).findRev? (·.name = name) <;> rfl

/-- Under a band's name the last band with its lower edge is stored, whatever
the zones are. -/
theorem predicates_gainBand (c : Config) (lower : Int64) :
    (ofConfig c).predicates (Name.gainBand lower) =
      ((GainBand.ofSteps c.gainSteps).findRev? (·.lower = lower)).map GainBand.predicate := by
  rw [predicates_of_leavesToBands (c.leavesToBands_gainBand lower)]
  simp only [GainBand.name, Name.gainBand_inj]

/-- The fixed functions are stored under their names, whatever the zones are. -/
theorem get?_fixed (c : Config) :
    (ofConfig c).get? (Layout.scriptFile Name.updateInsanity) =
        some ⟨Name.updateInsanity, .script (.updateInsanity c.gainSteps)⟩ ∧
      (ofConfig c).get? (Layout.scriptFile Name.applyConstantEffects) =
        some ⟨Name.applyConstantEffects, .script (EffectScripts.ofConfig c).constant⟩ ∧
      (ofConfig c).get? (Layout.scriptFile Name.startPeriodicEffects) =
        some ⟨Name.startPeriodicEffects, .script (EffectScripts.ofConfig c).start⟩ ∧
      (ofConfig c).get? (Layout.scriptFile Name.stopPeriodicEffects) =
        some ⟨Name.stopPeriodicEffects, .script (EffectScripts.ofConfig c).stop⟩ := by
  have hnodup : Name.fixedFunctions.reverse.Nodup := by decide
  have hloops : ∀ name ∈ Name.fixedFunctions,
      ((EffectScripts.ofConfig c).periodic.map PeriodicLoop.file).reverse.find?
        (·.name = name) = none := by
    intro name hname
    rw [List.find?_eq_none]
    intro f hf
    obtain ⟨l, hl, rfl⟩ := List.mem_map.1 (List.mem_reverse.1 hf)
    have hne : l.file.name ≠ name := by
      intro heq
      subst heq
      exact not_mem_fixedFunctions_of_mem_periodic hl hname
    simp [hne]
  simp only [Name.fixedFunctions, List.forall_mem_cons] at hloops
  simp only [Name.fixedFunctions, List.reverse_cons, List.reverse_nil, List.nil_append,
    List.cons_append, List.nodup_cons, List.mem_cons, not_or] at hnodup
  refine ⟨?_, ?_, ?_, ?_⟩
  all_goals
    rw [get?_scriptFile c (by decide), List.findRev?_eq_find?_reverse, scriptFiles]
    simp [hloops, hnodup]

/-- A function that is found has the name that was asked for. -/
theorem mem_scriptFiles_of_get? {c : Config} {name : String} {f : PackFile}
    (hn : '/' ∉ name.toList) (h : (ofConfig c).get? (Layout.scriptFile name) = some f) :
    f ∈ scriptFiles c ∧ f.name = name := by
  rw [get?_scriptFile c hn] at h
  obtain ⟨hmem, hfound⟩ := mem_of_findRev? h
  exact ⟨hmem, of_decide_eq_true hfound⟩

/-- Under the name of a zone with a periodic effect the loop of a zone is stored, which
may be another zone of this name. -/
theorem exists_get?_loop {c : Config} {z : Zone} (hz : z ∈ c.zones)
    (hmode : z.effect.mode.isPeriodic) :
    ∃ own ∈ c.zones, ∃ period pulse, own.name = z.name ∧
      own.effect.mode = .periodic period pulse ∧
      (ofConfig c).get? (Layout.scriptFile z.name) =
        some ⟨own.name, .script (own.periodicEffect period pulse)⟩ := by
  cases hz_mode : z.effect.mode with
  | constant => simp [hz_mode, EffectMode.isPeriodic] at hmode
  | periodic period pulse =>
    have hloop := mem_periodic_iff.2 ⟨z, hz, period, pulse, hz_mode, rfl⟩
    have hscript := mem_scriptFiles_iff.2 (.inr (.inr (.inl ⟨_, hloop, rfl⟩)))
    have hfile := List.mem_append_right (predicateFiles c) hscript
    obtain ⟨f, hf⟩ := (ofConfig c).exists_get?_of_mem hfile
    obtain ⟨hmem, hname⟩ := mem_scriptFiles_of_get? z.isPlain_name.slash_not_mem hf
    have hfixed := z.name_not_mem_fixedFunctions
    obtain rfl | rfl | ⟨l, hl, rfl⟩ | rfl | rfl := mem_scriptFiles_iff.1 hmem
    · exact absurd (by simp [← hname, Name.fixedFunctions]) hfixed
    · exact absurd (by simp [← hname, Name.fixedFunctions]) hfixed
    · obtain ⟨own, hown, period, pulse, hown_mode, rfl⟩ := mem_periodic_iff.1 hl
      exact ⟨own, hown, period, pulse, hname, hown_mode, hf⟩
    · exact absurd (by simp [← hname, Name.fixedFunctions]) hfixed
    · exact absurd (by simp [← hname, Name.fixedFunctions]) hfixed

end Pack

end ZonePack

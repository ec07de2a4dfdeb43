import ZonePack.Proofs.FailedRun
import ZonePack.Proofs.Normalize
import ZonePack.Proofs.Pack

/-!
# ZonePack.Proofs.Reordering

Plans that differ in the order of their lists only.  A finished plan forgets the order of
its steps, as far as no two are at one distance, and keeps its zones up to their order
(`Config.Reorders`).  Which file is found at a path then says nothing about the order,
because no two zones share a name (`Pack.get?_eq_of_reorders`).  Only three functions have
a command for each zone (`Name.inZoneOrder`), and these have the same commands.

* `Pack.files_of_perm` — all of this for the plan as written.
-/

namespace ZonePack

namespace Name

/-- The fixed functions whose commands follow the order of the zones. -/
def inZoneOrder : List String :=
  [applyConstantEffects, startPeriodicEffects, stopPeriodicEffects]

end Name

/-! ## Plans in another order -/

namespace Config

/-- Whether two plans have the same steps, and the same zones up to their order. -/
structure Reorders (c d : Config) : Prop where
  gainSteps : c.gainSteps = d.gainSteps
  zonesOn : ∀ axis, (c.zonesOn axis).Perm (d.zonesOn axis)

variable {c d : Config}

theorem Reorders.perm_zones (h : c.Reorders d) : c.zones.Perm d.zones :=
  (h.zonesOn .distance).append (h.zonesOn .insanity)

theorem Reorders.perm_effectZones (h : c.Reorders d) : c.effectZones.Perm d.effectZones :=
  (h.zonesOn .insanity).append (h.zonesOn .distance)

/-- Zones are told apart by their names if those of each list are. -/
theorem IsPlaced.eq_of_name_eq (h : c.IsPlaced)
    (hnodup : ∀ axis, ((c.zonesOn axis).map (·.name)).Nodup) {x y : Zone} (hx : x ∈ c.zones)
    (hy : y ∈ c.zones) (hname : x.name = y.name) : x = y := by
  have hx := h.mem_zonesOn hx
  have hy := h.mem_zonesOn hy
  rw [(Name.ofBounds_inj.1 hname).1] at hx
  exact List.inj_on_of_nodup_map (hnodup y.axis) hx hy hname

end Config

namespace Authored

variable {a b : Authored}

/-- Whether two plans as written differ only in the order of their lists. -/
structure Reorders (a b : Authored) : Prop where
  gainSteps : a.gainSteps.Perm b.gainSteps
  zonesOn : ∀ axis, (a.zonesOn axis).Perm (b.zonesOn axis)

/-- Both or neither of them can be finished. -/
theorem Reorders.exists_normalize_eq_ok_iff (h : a.Reorders b) :
    (∃ c, a.normalize = .ok c) ↔ ∃ d, b.normalize = .ok d := by
  have hok (x : Authored) : (∃ c, x.normalize = .ok c) ↔ ¬ ∃ e, x.normalize = .error e := by
    cases x.normalize <;> simp
  have hzones : (a.distanceZones ++ a.insanityZones).Perm (b.distanceZones ++ b.insanityZones) :=
    (h.zonesOn .distance).append (h.zonesOn .insanity)
  simp only [hok, exists_normalize_eq_error_iff, hzones.mem_iff]

/-- What they become differs in the order of zones only, if steps have different distances. -/
theorem Reorders.reorders_of_normalize (h : a.Reorders b) {c d : Config}
    (hc : a.normalize = .ok c) (hd : b.normalize = .ok d)
    (hnodup : (a.gainSteps.map (·.distance)).Nodup) : c.Reorders d := by
  obtain ⟨hcsteps, hczones⟩ := normalize_eq_ok_iff.1 hc
  obtain ⟨hdsteps, hdzones⟩ := normalize_eq_ok_iff.1 hd
  refine ⟨?_, fun axis => perm_of_normalizeZones (h.zonesOn axis) (hczones axis) (hdzones axis)⟩
  rw [hcsteps, hdsteps, sortSteps_eq_of_perm h.gainSteps hnodup]

end Authored

/-! ## Files in another order -/

namespace Layout

/-- Whether a path is that of a function whose commands follow the order of the zones. -/
def IsInZoneOrder (path : Path) : Prop := ∃ name ∈ Name.inZoneOrder, path.Alike (scriptFile name)

theorem isInZoneOrder_congr {p q : Path} (h : p.Alike q) : IsInZoneOrder p ↔ IsInZoneOrder q := by
  simp only [IsInZoneOrder, Path.Alike] at h ⊢
  rw [h]

/-- That is, of a function with one of their names. -/
theorem isInZoneOrder_scriptFile_iff {name : String} (h : '/' ∉ name.toList) :
    IsInZoneOrder (scriptFile name) ↔ name ∈ Name.inZoneOrder := by
  have hplain : ∀ other ∈ Name.inZoneOrder, '/' ∉ other.toList := by decide
  constructor
  · rintro ⟨other, hother, halike⟩
    rwa [(scriptFile_alike_iff h (hplain other hother)).1 halike]
  · exact fun hname => ⟨name, hname, rfl⟩

end Layout

namespace Pack

variable {c d : Config}

/-- The files of a plan besides the predicates of its bands. -/
def besidesBands (c : Config) : List PackFile :=
  c.zones.map Zone.file ++ scriptFiles c

theorem files_eq (c : Config) : (ofConfig c).files =
    (GainBand.ofSteps c.gainSteps).map GainBand.file ++ besidesBands c :=
  List.append_assoc _ _ _

theorem isPlain_of_mem_besidesBands {f : PackFile} (hf : f ∈ besidesBands c) :
    Name.IsPlain f.name := by
  refine isPlain_of_mem_files (c := c) ?_
  rw [files_eq]
  exact List.mem_append_right _ hf

/-- But for the functions in zone order, they come from a single zone or from the steps. -/
theorem mem_besidesBands_iff {f : PackFile} (h : ¬ Layout.IsInZoneOrder f.path) :
    f ∈ besidesBands c ↔
      (∃ z ∈ c.zones, f = z.file) ∨
        f = ⟨Name.updateInsanity, .script (.updateInsanity c.gainSteps)⟩ ∨
        ∃ z ∈ c.zones, ∃ period pulse, z.effect.mode = .periodic period pulse ∧
          f = ⟨z.name, .script (z.periodicEffect period pulse)⟩ := by
  have hfixed (name : String) {s : Script} (hname : name ∈ Name.inZoneOrder) :
      f ≠ ⟨name, .script s⟩ := by
    rintro rfl
    exact h ⟨name, hname, rfl⟩
  have hloops : (∃ l ∈ (EffectScripts.ofConfig c).periodic, f = l.file) ↔
      ∃ z ∈ c.zones, ∃ period pulse, z.effect.mode = .periodic period pulse ∧
        f = ⟨z.name, .script (z.periodicEffect period pulse)⟩ := by
    simp only [mem_periodic_iff]
    constructor
    · rintro ⟨l, ⟨z, hz, period, pulse, hmode, rfl⟩, hf⟩
      exact ⟨z, hz, period, pulse, hmode, hf⟩
    · rintro ⟨z, hz, period, pulse, hmode, hf⟩
      exact ⟨_, ⟨z, hz, period, pulse, hmode, rfl⟩, hf⟩
  rw [besidesBands, List.mem_append, List.mem_map, mem_scriptFiles_iff, hloops]
  simp only [hfixed Name.applyConstantEffects (by decide),
    hfixed Name.startPeriodicEffects (by decide),
    hfixed Name.stopPeriodicEffects (by decide), false_or, or_false, eq_comm (b := f)]

/-- They are told apart by their paths, if zones are by their names. -/
theorem eq_of_alike_of_mem_besidesBands
    (hnames : ∀ x ∈ c.zones, ∀ y ∈ c.zones, x.name = y.name → x = y) {f g : PackFile}
    (hf : f ∈ besidesBands c) (hg : g ∈ besidesBands c) (halike : f.path.Alike g.path)
    (hoff : ¬ Layout.IsInZoneOrder g.path) : f = g := by
  obtain ⟨hkind, hname⟩ := (PackFile.path_alike_iff (isPlain_of_mem_besidesBands hf)
    (isPlain_of_mem_besidesBands hg)).1 halike
  have hfixed (z : Zone) : z.name ≠ Name.updateInsanity := fun heq =>
    z.name_not_mem_fixedFunctions (heq ▸ List.mem_cons_self)
  rw [mem_besidesBands_iff ((Layout.isInZoneOrder_congr halike).not.2 hoff)] at hf
  rw [mem_besidesBands_iff hoff] at hg
  obtain ⟨x, hx, rfl⟩ | rfl | ⟨x, hx, period, pulse, hmode, rfl⟩ := hf <;>
    obtain ⟨y, hy, rfl⟩ | rfl | ⟨y, hy, period', pulse', hmode', rfl⟩ := hg
  · rw [hnames x hx y hy hname]
  · cases hkind
  · cases hkind
  · cases hkind
  · rfl
  · exact absurd hname.symm (hfixed y)
  · cases hkind
  · exact absurd hname (hfixed x)
  · obtain rfl := hnames x hx y hy hname
    rw [hmode] at hmode'
    cases hmode'
    rfl

/-- What is found off the functions in zone order does not depend on the order of zones, if
these are told apart by their names. -/
theorem get?_eq_of_reorders (h : c.Reorders d)
    (hnames : ∀ x ∈ c.zones, ∀ y ∈ c.zones, x.name = y.name → x = y) {path : Path}
    (hoff : ¬ Layout.IsInZoneOrder path) :
    (ofConfig c).get? path = (ofConfig d).get? path := by
  have hoff' {f : PackFile} (hf : f.path.Alike path) : ¬ Layout.IsInZoneOrder f.path :=
    (Layout.isInZoneOrder_congr hf).not.2 hoff
  have hrest : (besidesBands c).findRev? (fun f => f.path.Alike path) =
      (besidesBands d).findRev? (fun f => f.path.Alike path) := by
    refine findRev?_eq_of_unique (fun f hf => ?_) fun f hf g hg hfp hgp => ?_
    · have hf := hoff' (of_decide_eq_true hf)
      simp only [mem_besidesBands_iff hf, h.perm_zones.mem_iff, h.gainSteps]
    · have hfp : f.path.Alike path := of_decide_eq_true hfp
      have hgp : g.path.Alike path := of_decide_eq_true hgp
      exact eq_of_alike_of_mem_besidesBands hnames hf hg (hfp.trans hgp.symm) (hoff' hgp)
  rw [get?, get?, files_eq, files_eq, findRev?_append, findRev?_append, hrest, h.gainSteps]

/-- The functions in zone order have the same commands, up to the order of zones. -/
theorem exists_get?_inZoneOrder (h : c.Reorders d) {name : String}
    (hname : name ∈ Name.inZoneOrder) : ∃ s s',
      (ofConfig c).get? (Layout.scriptFile name) = some ⟨name, .script s⟩ ∧
      (ofConfig d).get? (Layout.scriptFile name) = some ⟨name, .script s'⟩ ∧
      s.commands.Perm s'.commands := by
  have hzones := h.perm_effectZones
  have hloops := (hzones.filterMap Zone.loop?).map (·.name)
  obtain ⟨-, hconstant, hstart, hstop⟩ := get?_fixed c
  obtain ⟨-, hconstant', hstart', hstop'⟩ := get?_fixed d
  simp only [Name.inZoneOrder, List.mem_cons, List.not_mem_nil, or_false] at hname
  obtain rfl | rfl | rfl := hname
  · exact ⟨_, _, hconstant, hconstant', hzones.filterMap _⟩
  · exact ⟨_, _, hstart, hstart', hloops.map _⟩
  · exact ⟨_, _, hstop, hstop', hloops.map _⟩

/-- The paths of all files are the same, up to their order. -/
theorem perm_paths_of_reorders (h : c.Reorders d) :
    ((ofConfig c).files.map PackFile.path).Perm ((ofConfig d).files.map PackFile.path) := by
  have hzones : (c.zones.map Zone.file).Perm (d.zones.map Zone.file) := h.perm_zones.map _
  have hloops : ((EffectScripts.ofConfig c).periodic.map PeriodicLoop.file).Perm
      ((EffectScripts.ofConfig d).periodic.map PeriodicLoop.file) :=
    (h.perm_effectZones.filterMap Zone.loop?).map _
  -- functions of one name are at one path, whatever their commands are
  have hscripts : ((scriptFiles c).map PackFile.path).Perm ((scriptFiles d).map PackFile.path) := by
    simp only [scriptFiles, List.map_append, List.map_cons, PackFile.path]
    exact (((hloops.map _).cons _).cons _).append (.refl _)
  rw [files_eq, files_eq, h.gainSteps]
  simp only [besidesBands, List.map_append]
  exact .append (.refl _) ((hzones.map _).append hscripts)

/-- Order in a plan as written matters to the order of commands only.  If the lists of one
plan are permutations of those of another, both or neither can be finished.  If they can, no
two steps are at one distance and no two zones of a list share a name, then files are at the
same paths, and at each path the same file is found, unless it is one of the functions with a
command for each zone; and these have the same commands. -/
theorem files_of_perm {a b : Authored} (hsteps : a.gainSteps.Perm b.gainSteps)
    (hdistance : a.distanceZones.Perm b.distanceZones)
    (hinsanity : a.insanityZones.Perm b.insanityZones) :
    ((∃ c, a.normalize = .ok c) ↔ ∃ d, b.normalize = .ok d) ∧
    ∀ c d, a.normalize = .ok c → b.normalize = .ok d →
      (a.gainSteps.map (·.distance)).Nodup → (c.distanceZones.map (·.name)).Nodup →
      (c.insanityZones.map (·.name)).Nodup →
        ((ofConfig c).files.map PackFile.path).Perm ((ofConfig d).files.map PackFile.path) ∧
        (∀ path, ¬ Layout.IsInZoneOrder path →
          (ofConfig c).get? path = (ofConfig d).get? path) ∧
        ∀ name ∈ Name.inZoneOrder, ∃ s s',
          (ofConfig c).get? (Layout.scriptFile name) = some ⟨name, .script s⟩ ∧
          (ofConfig d).get? (Layout.scriptFile name) = some ⟨name, .script s'⟩ ∧
          s.commands.Perm s'.commands := by
  have hab : a.Reorders b := ⟨hsteps, fun axis => by cases axis <;> assumption⟩
  refine ⟨hab.exists_normalize_eq_ok_iff, fun c d hc hd hdistances hzones hzones' => ?_⟩
  have hcd := hab.reorders_of_normalize hc hd hdistances
  have hnodup : ∀ axis, ((c.zonesOn axis).map (·.name)).Nodup := fun axis => by
    cases axis <;> assumption
  have hplaced := Authored.isPlaced_of_normalize hc
  exact ⟨perm_paths_of_reorders hcd,
    fun path hoff => get?_eq_of_reorders hcd
      (fun x hx y hy hname => hplaced.eq_of_name_eq hnodup hx hy hname) hoff,
    fun name hname => exists_get?_inZoneOrder hcd hname⟩

/-- A plan written backwards gives the same update of insanity, and the same refreshes in
another order. -/
theorem files_of_perm_of_reverse :
    let steps : List GainStep := [⟨30, 2⟩, ⟨-5, 1⟩, ⟨0, 3⟩]
    let zones : List Authored.Zone :=
      [⟨none, some 5, ⟨"glowing", none, none⟩⟩, ⟨some 5, none, ⟨"hunger", some 2, none⟩⟩,
        ⟨some 5, some 9, ⟨"blindness", none, some (.periodic 20 4)⟩⟩]
    let a : Authored := ⟨steps, zones, zones⟩
    let b : Authored := ⟨steps.reverse, zones.reverse, zones.reverse⟩
    ∃ c d, a.normalize = .ok c ∧ b.normalize = .ok d ∧ c ≠ d ∧
      (ofConfig c).get? (Layout.scriptFile Name.updateInsanity) =
        (ofConfig d).get? (Layout.scriptFile Name.updateInsanity) ∧
      ∃ s s', (ofConfig c).get? (Layout.scriptFile Name.applyConstantEffects) =
          some ⟨Name.applyConstantEffects, .script s⟩ ∧
        (ofConfig d).get? (Layout.scriptFile Name.applyConstantEffects) =
          some ⟨Name.applyConstantEffects, .script s'⟩ ∧
        s.commands.Perm s'.commands := by
  intro steps zones a b
  let finished (axis : Axis) : List Zone :=
    [⟨axis, .below 5, ⟨"glowing", 0, .constant⟩⟩, ⟨axis, .above 5, ⟨"hunger", 1, .constant⟩⟩,
      ⟨axis, .between 5 9, ⟨"blindness", 0, .periodic 20 4⟩⟩]
  let sorted : List GainStep := [⟨-5, 1⟩, ⟨0, 3⟩, ⟨30, 2⟩]
  have hsteps : a.gainSteps.Perm b.gainSteps := steps.reverse_perm.symm
  have hsorted : sorted = Authored.sortSteps steps := by
    have hperm : sorted.Perm steps := by decide
    have hunique := Authored.sortSteps_eq_of_perm hperm (by decide)
    exact (List.mergeSort_of_pairwise (by decide)).symm.trans hunique
  have hc : a.normalize = .ok ⟨sorted, finished .distance, finished .insanity⟩ :=
    Authored.normalize_eq_ok_iff.2 ⟨hsorted, fun axis => by cases axis <;> rfl⟩
  have hd : b.normalize =
      .ok ⟨sorted, (finished .distance).reverse, (finished .insanity).reverse⟩ :=
    Authored.normalize_eq_ok_iff.2
      ⟨hsorted.trans (Authored.sortSteps_eq_of_perm hsteps (by decide)),
        fun axis => by cases axis <;> rfl⟩
  have hzones : zones.Perm zones.reverse := zones.reverse_perm.symm
  obtain ⟨-, hsame, hcommands⟩ :=
    (files_of_perm hsteps hzones hzones).2 _ _ hc hd (by decide) (by decide) (by decide)
  have hoff : ¬ Layout.IsInZoneOrder (Layout.scriptFile Name.updateInsanity) :=
    (Layout.isInZoneOrder_scriptFile_iff (by decide)).not.2 (by decide)
  exact ⟨_, _, hc, hd, by decide, hsame _ hoff, hcommands _ (by decide)⟩

end Pack

end ZonePack

import Mathlib.Data.List.Nodup
import ZonePack.Proofs.Pack

/-!
# ZonePack.Proofs.Apart

Packs in which no file takes the place of another one (`Pack.IsApart`).  Files of one kind
keep apart exactly if their names differ, so the question is one about each family of names:

* `nodup_predicate_names_iff` — bands are named by their edges and zones by what they show
  (`Zone.shown`), and no name is in both families;
* `nodup_script_names_iff` — the fixed functions have names of their own, so only loops can
  meet, and where zones keep apart their loops do (`nodup_loop_names`);
* `isApart_ofConfig_iff` — both together, for all files of a plan.
-/

namespace ZonePack

namespace Zone

/-- What a zone's name shows of it: its axis, the radius that it starts at, zero if there is
none, and the one that it reaches out to. -/
def shown (z : Zone) : Axis × Int64 × Option Int64 :=
  (z.axis, z.bounds.min?.getD 0, z.bounds.max?)

/-- Zones have one name exactly if they show the same. -/
theorem name_eq_iff_shown {x y : Zone} : x.name = y.name ↔ x.shown = y.shown := by
  rw [name, name, Name.ofBounds_inj, shown, shown, Prod.mk.injEq, Prod.mk.injEq]

/-- Zones have names of their own exactly if no two show the same. -/
theorem nodup_names_iff_shown (zs : List Zone) :
    (zs.map name).Nodup ↔ (zs.map shown).Nodup := by
  rw [List.Nodup, List.Nodup, List.pairwise_map, List.pairwise_map]
  exact List.Pairwise.iff fun x y => name_eq_iff_shown.not

/-- A loop has the name of its zone. -/
theorem map_name_loop? (z : Zone) :
    z.loop?.map PeriodicLoop.name = if z.effect.mode.isPeriodic then some z.name else none := by
  rw [loop?]
  cases z.effect.mode <;> rfl

end Zone

namespace Pack

variable {c : Config}

/-- Whether no two files of a pack have paths that say the same. -/
def IsApart (pack : Pack) : Prop :=
  pack.files.Pairwise fun f g => ¬ f.path.Alike g.path

instance (pack : Pack) : Decidable pack.IsApart :=
  inferInstanceAs (Decidable (List.Pairwise _ _))

/-! ## Files of one kind -/

/-- Files of one kind keep apart exactly if they have names of their own. -/
theorem pairwise_not_alike_iff {files : List PackFile} {isPredicate : Bool}
    (hplain : ∀ f ∈ files, Name.IsPlain f.name)
    (hkind : ∀ f ∈ files, f.isPredicate = isPredicate) :
    files.Pairwise (fun f g => ¬ f.path.Alike g.path) ↔ (files.map (·.name)).Nodup := by
  rw [List.Nodup, List.pairwise_map]
  refine List.Pairwise.iff_of_mem fun {f g} hf hg => ?_
  rw [PackFile.path_alike_iff (hplain f hf) (hplain g hg), hkind f hf, hkind g hg]
  simp

/-! ## Predicates -/

/-- The names of bands are those of their edges. -/
theorem map_name_bands (steps : List GainStep) :
    (GainBand.ofSteps steps).map GainBand.name = (GainBand.edges steps).map Name.gainBand := by
  rw [← GainBand.map_lower_ofEdges (GainBand.edges steps), List.map_map]
  rfl

/-- Bands have names of their own exactly if no two start at one edge. -/
theorem nodup_band_names_iff (steps : List GainStep) :
    ((GainBand.ofSteps steps).map GainBand.name).Nodup ↔ (GainBand.edges steps).Nodup := by
  have hinj : Function.Injective Name.gainBand := fun _ _ => Name.gainBand_inj.1
  rw [map_name_bands, List.nodup_map_iff hinj]

/-- Predicates have names of their own exactly if those of bands and those of zones do. -/
theorem nodup_predicate_names_iff (c : Config) :
    ((predicateFiles c).map (·.name)).Nodup ↔
      (GainBand.edges c.gainSteps).Nodup ∧ (c.zones.map Zone.name).Nodup := by
  have hnames : (predicateFiles c).map (·.name) =
      (GainBand.ofSteps c.gainSteps).map GainBand.name ++ c.zones.map Zone.name := by
    rw [predicateFiles, List.map_append, List.map_map, List.map_map]
    rfl
  have hfamilies : ∀ a ∈ (GainBand.ofSteps c.gainSteps).map GainBand.name,
      ∀ b ∈ c.zones.map Zone.name, a ≠ b := by
    rw [List.forall_mem_map]
    intro b _
    rw [List.forall_mem_map]
    intro z _
    exact Name.gainBand_ne_zone _ _ _ _
  rw [hnames, List.nodup_append, nodup_band_names_iff]
  exact and_congr_right fun _ => and_iff_left hfamilies

/-! ## Functions -/

/-- The loops of a plan are named as its zones with periodic effects. -/
theorem map_name_periodic (c : Config) : (EffectScripts.ofConfig c).periodic.map (·.name) =
    (c.effectZones.filter (·.effect.mode.isPeriodic)).map Zone.name := by
  rw [EffectScripts.ofConfig, EffectScripts.ofZones]
  simp only [List.map_filterMap, Zone.map_name_loop?]
  induction c.effectZones with
  | nil => rfl
  | cons z zs ih => cases hmode : z.effect.mode.isPeriodic <;> simp [hmode, ih]

/-- Where zones have names of their own, so have their loops. -/
theorem nodup_loop_names (h : (c.zones.map Zone.name).Nodup) :
    ((EffectScripts.ofConfig c).periodic.map (·.name)).Nodup := by
  have hzones : (c.effectZones.map Zone.name).Nodup := by
    rw [Config.effectZones, List.map_append, List.nodup_append_comm, ← List.map_append]
    exact h
  rw [map_name_periodic]
  exact hzones.sublist (List.filter_sublist.map Zone.name)

/-- Functions have names of their own exactly if the loops have, for no loop is named as a
fixed function. -/
theorem nodup_script_names_iff (c : Config) : ((scriptFiles c).map (·.name)).Nodup ↔
    ((EffectScripts.ofConfig c).periodic.map (·.name)).Nodup := by
  have hperm : ((scriptFiles c).map (·.name)).Perm
      (Name.fixedFunctions ++ (EffectScripts.ofConfig c).periodic.map (·.name)) := by
    simp only [scriptFiles, List.map_append, List.map_cons, List.map_nil, List.map_map,
      Function.comp_def, PeriodicLoop.file, List.cons_append, Name.fixedFunctions,
      List.nil_append]
    -- the last two functions go before the loops
    exact .cons _ (.cons _ List.perm_append_comm)
  have hfamilies : ∀ a ∈ Name.fixedFunctions,
      ∀ b ∈ (EffectScripts.ofConfig c).periodic.map (·.name), a ≠ b := by
    intro a ha b hb heq
    obtain ⟨l, hl, rfl⟩ := List.mem_map.1 hb
    exact not_mem_fixedFunctions_of_mem_periodic hl (heq ▸ ha)
  have hfixed : Name.fixedFunctions.Nodup := by decide
  rw [hperm.nodup_iff, List.nodup_append]
  exact ⟨fun h => h.2.1, fun h => ⟨hfixed, h, hfamilies⟩⟩

/-! ## All files -/

/-- No file of a plan's pack takes the place of another one exactly if the edges of its bands
have no duplicates, zero among them, and no two of its zones show the same. -/
theorem isApart_ofConfig_iff (c : Config) : (ofConfig c).IsApart ↔
    (GainBand.edges c.gainSteps).Nodup ∧
      (c.zones.map fun z => (z.axis, z.bounds.min?.getD 0, z.bounds.max?)).Nodup := by
  have hplain (f : PackFile) (hf : f ∈ predicateFiles c ++ scriptFiles c) : Name.IsPlain f.name :=
    isPlain_of_mem_files hf
  have hpredicates := pairwise_not_alike_iff (fun f hf => hplain f (List.mem_append_left _ hf))
    fun f hf => isPredicate_of_mem_predicateFiles hf
  have hscripts := pairwise_not_alike_iff (fun f hf => hplain f (List.mem_append_right _ hf))
    fun f hf => isPredicate_of_mem_scriptFiles hf
  -- a predicate and a function are in different folders
  have hkinds : ∀ f ∈ predicateFiles c, ∀ g ∈ scriptFiles c, ¬ f.path.Alike g.path := by
    intro f hf g hg halike
    have hkind := ((PackFile.path_alike_iff (hplain f (List.mem_append_left _ hf))
      (hplain g (List.mem_append_right _ hg))).1 halike).1
    rw [isPredicate_of_mem_predicateFiles hf, isPredicate_of_mem_scriptFiles hg] at hkind
    cases hkind
  change (predicateFiles c ++ scriptFiles c).Pairwise _ ↔ _ ∧ (c.zones.map Zone.shown).Nodup
  rw [List.pairwise_append, hpredicates, hscripts, nodup_predicate_names_iff,
    nodup_script_names_iff, ← Zone.nodup_names_iff_shown]
  constructor
  · intro h
    exact h.1
  · intro h
    exact ⟨h, nodup_loop_names h.2, hkinds⟩

/-- A step at zero makes a second band of the name of the first one. -/
example : ¬ (ofConfig ⟨[⟨0, 3⟩], [], []⟩).IsApart := by decide +kernel

end Pack

end ZonePack

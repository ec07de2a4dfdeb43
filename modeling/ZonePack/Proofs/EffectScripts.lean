import Mathlib.Data.List.Forall2
import ZonePack.Proofs.Pack

/-!
# ZonePack.Proofs.EffectScripts

What the functions of a plan do for its zones.  No effect is lost, given twice or put in
another place: `EffectScripts.Serves` says which commands and loops some zones have, part by
part and in the order of the zones.

* `eq_ofZones_iff_serves` — the functions that are made for some zones serve them, and no
  other ones do;
* `Serves.length_add` — every zone has one command or one loop;
* `Pack.stores_serving_scripts` — in the pack of a plan the functions that serve its zones
  are found under their fixed names, whatever the zones are called.
-/

namespace ZonePack

/-- Pairing each item with what is made of it leaves one list. -/
theorem forall₂_eq_iff {α β : Type} {f : α → β} {as : List α} {bs : List β} :
    List.Forall₂ (fun a b => b = f a) as bs ↔ bs = as.map f := by
  induction as generalizing bs with
  | nil => simp
  | cons a as ih => simp [List.forall₂_cons_left_iff, ih]

namespace EffectScripts

/-- Whether a loop is that of a zone, named after it and with the times of its effect. -/
def IsLoopOf (z : Zone) (l : PeriodicLoop) : Prop :=
  ∃ period pulse, z.effect.mode = .periodic period pulse ∧
    l = ⟨z.name, z.periodicEffect period pulse⟩

/-- Whether some functions are those of some zones, in their order. -/
structure Serves (s : EffectScripts) (zones : List Zone) : Prop where
  constant : s.constant.commands =
    (zones.filter (·.effect.mode = .constant)).map Zone.constantEffect
  periodic : List.Forall₂ IsLoopOf (zones.filter (·.effect.mode.isPeriodic)) s.periodic
  /-- Each loop is started by a command of its own. -/
  start : List.Forall₂ (fun l c => c = .call (Name.functionRef l.name)) s.periodic
    s.start.commands
  /-- And it is stopped by one. -/
  stop : List.Forall₂ (fun l c => c = .unschedule (Name.functionRef l.name)) s.periodic
    s.stop.commands

/-! ## One zone after the other -/

/-- What is refreshed are the constant effects. -/
theorem filterMap_refresh? (zones : List Zone) : zones.filterMap Zone.refresh? =
    (zones.filter (·.effect.mode = .constant)).map Zone.constantEffect := by
  induction zones with
  | nil => rfl
  | cons z zones ih =>
    cases hmode : z.effect.mode <;> simp [Zone.refresh?, hmode, ih]

/-- The loops are those of the periodic effects. -/
theorem forall₂_isLoopOf_iff {zones : List Zone} {loops : List PeriodicLoop} :
    List.Forall₂ IsLoopOf (zones.filter (·.effect.mode.isPeriodic)) loops ↔
      loops = zones.filterMap Zone.loop? := by
  induction zones generalizing loops with
  | nil => simp
  | cons z zones ih =>
    have hloop (l : PeriodicLoop) : IsLoopOf z l ↔ z.loop? = some l :=
      Zone.loop?_eq_some_iff.symm
    have hmode : z.effect.mode.isPeriodic = z.loop?.isSome := by
      rw [Zone.loop?]
      cases z.effect.mode <;> rfl
    cases hz : z.loop? with
    | none => simp [hmode, hz, ih]
    | some l => simp [hmode, hz, hloop, List.forall₂_cons_left_iff, ih]

/-- The functions that are made for some zones serve them, and no other functions do. -/
theorem eq_ofZones_iff_serves {s : EffectScripts} {zones : List Zone} :
    s = ofZones zones ↔ s.Serves zones := by
  constructor
  · rintro rfl
    exact ⟨filterMap_refresh? zones, forall₂_isLoopOf_iff.2 rfl,
      forall₂_eq_iff.2 (by simp [ofZones, Script.startLoops]),
      forall₂_eq_iff.2 (by simp [ofZones, Script.stopLoops])⟩
  · obtain ⟨⟨constant⟩, periodic, ⟨start⟩, ⟨stop⟩⟩ := s
    rintro ⟨hconstant, hperiodic, hstart, hstop⟩
    rw [← filterMap_refresh?] at hconstant
    rw [forall₂_isLoopOf_iff] at hperiodic
    rw [forall₂_eq_iff] at hstart hstop
    simp only at hconstant hperiodic hstart hstop
    subst hconstant hperiodic hstart hstop
    simp [ofZones, Script.startLoops, Script.stopLoops]

/-- Every zone has one command or one loop. -/
theorem Serves.length_add {s : EffectScripts} {zones : List Zone} (h : s.Serves zones) :
    s.constant.length + s.periodic.length = zones.length := by
  have hmode (z : Zone) : (!z.effect.mode.isPeriodic) = decide (z.effect.mode = .constant) := by
    cases z.effect.mode <;> rfl
  rw [Script.length, h.constant, List.length_map, ← h.periodic.length_eq, Nat.add_comm,
    zones.length_eq_length_filter_add (·.effect.mode.isPeriodic)]
  simp only [hmode]

end EffectScripts

namespace Pack

/-- The functions of a plan are those that serve its zones, the insanity zones before the
distance zones, and no others.  Every zone has one command or one loop in them, every loop
one command that starts it and one that stops it.  In the pack these functions are found
under their fixed names, whatever the zones are called. -/
theorem stores_serving_scripts (c : Config) :
    let scripts := EffectScripts.ofConfig c
    let stored (name : String) := ((ofConfig c).get? (Layout.scriptFile name)).map fun f =>
      (f.path, f.text)
    (∀ s, s = scripts ↔ s.Serves (c.insanityZones ++ c.distanceZones)) ∧
    scripts.constant.length + scripts.periodic.length =
      (c.insanityZones ++ c.distanceZones).length ∧
    stored Name.applyConstantEffects =
      some (Layout.scriptFile Name.applyConstantEffects, scripts.constant.text) ∧
    stored Name.startPeriodicEffects =
      some (Layout.scriptFile Name.startPeriodicEffects, scripts.start.text) ∧
    stored Name.stopPeriodicEffects =
      some (Layout.scriptFile Name.stopPeriodicEffects, scripts.stop.text) := by
  intro scripts stored
  have hserves (s : EffectScripts) :
      s = scripts ↔ s.Serves (c.insanityZones ++ c.distanceZones) :=
    EffectScripts.eq_ofZones_iff_serves
  obtain ⟨-, hconstant, hstart, hstop⟩ := get?_fixed c
  refine ⟨hserves, ((hserves scripts).1 rfl).length_add, ?_, ?_, ?_⟩
  · simp only [stored, hconstant]
    rfl
  · simp only [stored, hstart]
    rfl
  · simp only [stored, hstop]
    rfl

end Pack

end ZonePack

import Mathlib.Logic.Relation
import ZonePack.Pack.Tables
import ZonePack.Proofs.Pack

/-!
# ZonePack.Proofs.Pending

Which runs of functions are still to come, after whatever has happened: fixed functions
run from outside and runs that came due, in any order.

* `runs_iff_of_isQuiet`, `runs_call_loops_iff` and `runs_unschedule_all_iff` say what a
  list of commands leaves to come; each says also that the list can be run.
* `Pack.exists_script_fixed` and `Pack.fires_iff` do so for everything that can happen.
* `Pack.IsOrderly.step` keeps the invariant: only loops are to come, none of them twice.
  `Pack.isOrderly_of_reachable` carries it through a history.
* `Pack.pending_of_reachable` — loops never stack and can always be stopped.

Two zones may share a name.  They share a loop then, and the lists that start and stop
loops have it twice, which the counts here do not notice.
-/

namespace ZonePack

/-! ## Runs that are still to come -/

namespace Pending

/-- Scheduling instead of the earlier runs leaves one run of the function. -/
theorem count_schedule_replace (p : Pending) (function f : String) :
    (p.schedule function true).count f = if f = function then 1 else p.count f := by
  rw [schedule, if_pos rfl, List.count_append]
  split
  · rename_i hf
    rw [hf, count_drop_self]
    simp
  · rename_i hf
    have hother : [function].count f = 0 := List.count_eq_zero_of_not_mem (by simpa using hf)
    rw [count_drop_of_ne hf, hother, Nat.add_zero]

theorem mem_schedule_iff {p : Pending} {function f : String} :
    f ∈ p.schedule function true ↔ f = function ∨ f ∈ p := by
  by_cases hf : f = function <;> simp [schedule, drop, hf]

/-- The runs after some functions are scheduled one after another, each instead of its
earlier runs. -/
def restart (p : Pending) (functions : List String) : Pending :=
  functions.foldl (fun p f => p.schedule f true) p

/-- The runs after every run of some functions is dropped. -/
def clear (p : Pending) (functions : List String) : Pending :=
  functions.foldl drop p

theorem count_restart (p : Pending) (functions : List String) (f : String) :
    (p.restart functions).count f = if f ∈ functions then 1 else p.count f := by
  induction functions generalizing p with
  | nil => simp [restart]
  | cons g functions ih =>
    rw [restart, List.foldl_cons]
    refine (ih _).trans ?_
    rw [count_schedule_replace]
    by_cases hf : f ∈ functions <;> by_cases hg : f = g <;> simp [hf, hg]

theorem mem_restart_iff {p : Pending} {functions : List String} {f : String} :
    f ∈ p.restart functions ↔ f ∈ functions ∨ f ∈ p := by
  rw [← List.count_pos_iff, count_restart]
  by_cases hf : f ∈ functions <;> simp [hf, List.count_pos_iff]

theorem count_clear (p : Pending) (functions : List String) (f : String) :
    (p.clear functions).count f = if f ∈ functions then 0 else p.count f := by
  induction functions generalizing p with
  | nil => simp [clear]
  | cons g functions ih =>
    rw [clear, List.foldl_cons]
    refine (ih _).trans ?_
    by_cases hg : f = g
    · simp [hg, count_drop_self]
    · simp [hg, count_drop_of_ne hg]

theorem mem_clear_iff {p : Pending} {functions : List String} {f : String} :
    f ∈ p.clear functions ↔ f ∈ p ∧ f ∉ functions := by
  rw [← List.count_pos_iff, count_clear]
  by_cases hf : f ∈ functions <;> simp [hf, List.count_pos_iff]

end Pending

/-! ## Runs of commands -/

section

variable {table : ScriptTable} {cs : List Command} {function : String} {p q : Pending}

theorem runs_nil_iff : Runs table [] p q ↔ q = p := by
  constructor
  · rintro ⟨⟩
    rfl
  · rintro rfl
    exact .nil q

theorem runs_giveEffect_iff {targets : Selector} {effect : String} {seconds : UInt32}
    {amplifier : Int32} {hideParticles : Bool} :
    Runs table (.giveEffect targets effect seconds amplifier hideParticles :: cs) p q ↔
      Runs table cs p q := by
  constructor
  · rintro (_ | h)
    exact h
  · exact .giveEffect

theorem runs_call_iff {script : Script} (h : table function = some script) :
    Runs table (.call function :: cs) p q ↔ Runs table (script.commands ++ cs) p q := by
  constructor
  · intro hruns
    cases hruns with
    | call hstored hruns =>
      rw [h, Option.some_inj] at hstored
      rwa [hstored]
    | callMissing hmissing =>
      rw [h] at hmissing
      cases hmissing
  · exact .call h

theorem runs_schedule_iff {delay : UInt32} {replace : Bool} :
    Runs table (.schedule function delay replace :: cs) p q ↔
      Runs table cs (p.schedule function replace) q := by
  constructor
  · intro hruns
    cases hruns with
    | schedule hruns => exact hruns
  · exact .schedule

theorem runs_unschedule_iff :
    Runs table (.unschedule function :: cs) p q ↔ Runs table cs (p.drop function) q := by
  constructor
  · intro hruns
    cases hruns with
    | unschedule hruns => exact hruns
  · exact .unschedule

end

/-- Whether a command leaves the runs that are still to come as they are. -/
def Command.IsQuiet : Command → Prop
  | .giveEffect .. => True
  | .setScore .. => True
  | .addScore .. => True
  | .execute _ _ run => run.IsQuiet
  | .call _ => False
  | .schedule .. => False
  | .unschedule _ => False

/-- Quiet commands can be run, and change nothing. -/
theorem runs_iff_of_isQuiet {table : ScriptTable} {cs : List Command}
    (h : ∀ command ∈ cs, command.IsQuiet) {p q : Pending} : Runs table cs p q ↔ q = p := by
  constructor
  · intro hruns
    induction hruns with
    | nil => rfl
    | giveEffect _ ih | setScore _ ih | addScore _ ih =>
      exact ih fun command hc => h command (List.mem_cons_of_mem _ hc)
    | execute times _ ih =>
      rw [List.forall_mem_cons] at h
      refine ih fun command hc => ?_
      obtain hc | hc := List.mem_append.1 hc
      · rw [List.eq_of_mem_replicate hc]
        exact h.1
      · exact h.2 command hc
    | call | callMissing | schedule | unschedule =>
      exact absurd (h _ List.mem_cons_self) id
  · rintro rfl
    induction cs with
    | nil => exact .nil q
    | cons command cs ih =>
      rw [List.forall_mem_cons] at h
      have hrest := ih h.2
      cases command with
      | giveEffect => exact .giveEffect hrest
      | setScore => exact .setScore hrest
      | addScore => exact .addScore hrest
      | execute players checks run => exact .execute 0 hrest
      | call | schedule | unschedule => exact absurd h.1 id

/-- A loop schedules itself again. -/
theorem runs_periodicEffect_iff {table : ScriptTable} {cs : List Command} {z : Zone}
    {period pulse : UInt32} {p q : Pending} :
    Runs table ((z.periodicEffect period pulse).commands ++ cs) p q ↔
      Runs table cs (p.schedule (Name.functionRef z.name) true) q := by
  rw [Zone.periodicEffect, Zone.giveEffect, List.cons_append, List.singleton_append,
    runs_giveEffect_iff, runs_schedule_iff]

/-- Starting loops leaves one run of each. -/
theorem runs_call_loops_iff {table : ScriptTable} {functions : List String}
    (h : ∀ f ∈ functions, ∃ (z : Zone) (period pulse : UInt32), f = Name.functionRef z.name ∧
      table f = some (z.periodicEffect period pulse)) {p q : Pending} :
    Runs table (functions.map .call) p q ↔ q = p.restart functions := by
  induction functions generalizing p with
  | nil => exact runs_nil_iff
  | cons f functions ih =>
    rw [List.forall_mem_cons] at h
    obtain ⟨⟨z, period, pulse, rfl, hstored⟩, hrest⟩ := h
    rw [List.map_cons, runs_call_iff hstored, runs_periodicEffect_iff]
    exact ih hrest

theorem runs_unschedule_all_iff {table : ScriptTable} {functions : List String}
    {p q : Pending} :
    Runs table (functions.map .unschedule) p q ↔ q = p.clear functions := by
  induction functions generalizing p with
  | nil => exact runs_nil_iff
  | cons f functions ih =>
    rw [List.map_cons, runs_unschedule_iff]
    exact ih

/-! ## The functions of a pack -/

namespace Config

/-- The functions of the zones with periodic effects, as they are started and stopped. -/
def loopRefs (c : Config) : List String :=
  (EffectScripts.ofConfig c).periodic.map fun l => Name.functionRef l.name

theorem mem_loopRefs_iff {c : Config} {f : String} :
    f ∈ c.loopRefs ↔
      ∃ z ∈ c.zones, z.effect.mode.isPeriodic ∧ f = Name.functionRef z.name := by
  simp only [loopRefs, List.mem_map, Pack.mem_periodic_iff]
  constructor
  · rintro ⟨l, ⟨z, hz, period, pulse, hmode, rfl⟩, rfl⟩
    exact ⟨z, hz, by rw [hmode]; rfl, rfl⟩
  · rintro ⟨z, hz, hmode, rfl⟩
    cases hz_mode : z.effect.mode with
    | constant => simp [hz_mode, EffectMode.isPeriodic] at hmode
    | periodic period pulse => exact ⟨_, ⟨z, hz, period, pulse, hz_mode, rfl⟩, rfl⟩

end Config

namespace Pack

variable (c : Config)

/-- A function that is found by its name is found by its reference. -/
theorem scripts_functionRef {pack : Pack} {name : String} {s : Script}
    (h : pack.get? (Layout.scriptFile name) = some ⟨name, .script s⟩) :
    pack.scripts (Name.functionRef name) = some s := by
  simp [scripts, h]

/-- Under the function of a zone with a periodic effect a loop is stored. -/
theorem scripts_of_mem_loopRefs {f : String} (h : f ∈ c.loopRefs) :
    ∃ (z : Zone) (period pulse : UInt32), f = Name.functionRef z.name ∧
      (ofConfig c).scripts f = some (z.periodicEffect period pulse) := by
  obtain ⟨z, hz, hmode, rfl⟩ := Config.mem_loopRefs_iff.1 h
  obtain ⟨own, -, period, pulse, hname, -, hget⟩ := exists_get?_loop hz hmode
  rw [← hname] at hget ⊢
  exact ⟨own, period, pulse, rfl, scripts_functionRef hget⟩

theorem runs_updateInsanity_iff {table : ScriptTable} {steps : List GainStep} {p q : Pending} :
    Runs table (Script.updateInsanity steps).commands p q ↔ q = p := by
  refine runs_iff_of_isQuiet fun command h => ?_
  obtain rfl | h := List.mem_cons.1 h
  · trivial
  · obtain ⟨step, -, rfl⟩ := List.mem_map.1 h
    trivial

theorem runs_constant_iff {table : ScriptTable} {p q : Pending} :
    Runs table (EffectScripts.ofConfig c).constant.commands p q ↔ q = p := by
  refine runs_iff_of_isQuiet fun command h => ?_
  obtain ⟨z, -, hz⟩ := List.mem_filterMap.1 h
  obtain ⟨-, rfl⟩ := Zone.refresh?_eq_some_iff.1 hz
  trivial

theorem runs_start_iff {p q : Pending} :
    Runs (ofConfig c).scripts (EffectScripts.ofConfig c).start.commands p q ↔
      q = p.restart c.loopRefs := by
  have hstart : (EffectScripts.ofConfig c).start.commands = c.loopRefs.map .call := by
    simp [EffectScripts.ofConfig, EffectScripts.ofZones, Script.startLoops, Config.loopRefs]
  rw [hstart]
  exact runs_call_loops_iff fun f hf => scripts_of_mem_loopRefs c hf

theorem runs_stop_iff {p q : Pending} :
    Runs (ofConfig c).scripts (EffectScripts.ofConfig c).stop.commands p q ↔
      q = p.clear c.loopRefs := by
  have hstop : (EffectScripts.ofConfig c).stop.commands = c.loopRefs.map .unschedule := by
    simp [EffectScripts.ofConfig, EffectScripts.ofZones, Script.stopLoops, Config.loopRefs]
  rw [hstop]
  exact runs_unschedule_all_iff

/-- What a fixed function makes of the runs that are still to come. -/
def afterFixed (name : String) (p : Pending) : Pending :=
  if name = Name.startPeriodicEffects then p.restart c.loopRefs
  else if name = Name.stopPeriodicEffects then p.clear c.loopRefs
  else p

/-- Every fixed function is stored, can be run, and does what is expected of it. -/
theorem exists_script_fixed {name : String} (h : name ∈ Name.fixedFunctions) :
    ∃ s, (ofConfig c).scripts (Name.functionRef name) = some s ∧
      ∀ p q, Runs (ofConfig c).scripts s.commands p q ↔ q = afterFixed c name p := by
  obtain ⟨hinsanity, hconstant, hstart, hstop⟩ := get?_fixed c
  simp only [Name.fixedFunctions, List.mem_cons, List.not_mem_nil, or_false] at h
  obtain rfl | rfl | rfl | rfl := h
  · exact ⟨_, scripts_functionRef hinsanity, fun p q => runs_updateInsanity_iff⟩
  · exact ⟨_, scripts_functionRef hconstant, fun p q => runs_constant_iff c⟩
  · exact ⟨_, scripts_functionRef hstart, fun p q => runs_start_iff c⟩
  · exact ⟨_, scripts_functionRef hstop, fun p q => runs_stop_iff c⟩

/-- A loop that comes due is scheduled again. -/
theorem fires_iff {f : String} (h : f ∈ c.loopRefs) {p q : Pending} :
    Fires (ofConfig c).scripts f p q ↔ f ∈ p ∧ q = Pending.schedule (p.erase f) f true := by
  obtain ⟨z, period, pulse, rfl, hstored⟩ := scripts_of_mem_loopRefs c h
  have hruns (p : Pending) :
      Runs (ofConfig c).scripts (z.periodicEffect period pulse).commands p q ↔
        q = p.schedule (Name.functionRef z.name) true := by
    rw [← List.append_nil (z.periodicEffect period pulse).commands, runs_periodicEffect_iff,
      runs_nil_iff]
  constructor
  · intro hfires
    cases hfires with
    | stored hmem hscript hrun =>
      rw [hstored, Option.some_inj] at hscript
      subst hscript
      exact ⟨hmem, (hruns _).1 hrun⟩
    | missing _ hmissing =>
      rw [hstored] at hmissing
      cases hmissing
  · rintro ⟨hmem, hq⟩
    exact .stored hmem hstored ((hruns _).2 hq)

/-! ## Every history -/

/-- Only loops are still to come, and no loop more than once. -/
structure IsOrderly (p : Pending) : Prop where
  count_le_one : ∀ f, p.count f ≤ 1
  mem_loopRefs : ∀ f ∈ p, f ∈ c.loopRefs

variable {c} {p q : Pending}

theorem IsOrderly.restart (h : IsOrderly c p) : IsOrderly c (p.restart c.loopRefs) where
  count_le_one f := by
    rw [Pending.count_restart]
    split
    · exact Nat.le_refl 1
    · exact h.count_le_one f
  mem_loopRefs f hf := (Pending.mem_restart_iff.1 hf).elim id (h.mem_loopRefs f)

theorem IsOrderly.clear (h : IsOrderly c p) : IsOrderly c (p.clear c.loopRefs) where
  count_le_one f := by
    rw [Pending.count_clear]
    split
    · exact Nat.zero_le 1
    · exact h.count_le_one f
  mem_loopRefs f hf := h.mem_loopRefs f (Pending.mem_clear_iff.1 hf).1

/-- A loop that comes due takes the place of the run that is taken off. -/
theorem IsOrderly.fire (h : IsOrderly c p) {f : String} (hf : f ∈ p) :
    IsOrderly c (Pending.schedule (p.erase f) f true) where
  count_le_one g := by
    rw [Pending.count_schedule_replace]
    split
    · exact Nat.le_refl 1
    · exact (List.Sublist.count_le g List.erase_sublist).trans (h.count_le_one g)
  mem_loopRefs g hg := by
    obtain rfl | hg := Pending.mem_schedule_iff.1 hg
    · exact h.mem_loopRefs g hf
    · exact h.mem_loopRefs g (List.mem_of_mem_erase hg)

/-- Whatever happens, the runs that are still to come stay orderly. -/
theorem IsOrderly.step (h : IsOrderly c p) (hstep : PendingStep (ofConfig c) p q) :
    IsOrderly c q := by
  cases hstep with
  | runFixed hname hscript hruns =>
    obtain ⟨s, hs, hafter⟩ := exists_script_fixed c hname
    rw [hs, Option.some_inj] at hscript
    subst hscript
    rw [(hafter p q).1 hruns, afterFixed]
    split
    · exact h.restart
    split
    · exact h.clear
    · exact h
  | @fire f _ _ hfires =>
    have hf : f ∈ p := by cases hfires <;> assumption
    rw [((fires_iff c (h.mem_loopRefs f hf)).1 hfires).2]
    exact h.fire hf

end Pack

end ZonePack

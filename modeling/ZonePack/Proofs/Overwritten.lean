import ZonePack.Proofs.Pack

/-!
# ZonePack.Proofs.Overwritten

Gain bands whose predicates are overwritten.  A band is named after its lower edge only, so
where an edge comes again a later band takes the place of an earlier one.  Nobody is lost by
this, for the earlier band ends no later than it starts:

* `GainBand.not_admits_of_mem` — a band whose lower edge comes again admits no distance.  The
  later edges ascend, and this is enough: zero, the first edge, may be out of order;
* `GainBand.pairwise_not_holds` — so of the bands of one name all but the last hold for nobody;
* `Pack.overwritten_bands_lose_nobody` — so what is stored under a name answers for all bands
  of this name.
-/

namespace ZonePack

namespace GainBand

/-- A band whose lower edge comes again among the edges after it, which ascend, admits no
distance. -/
theorem not_admits_of_mem {e : Int64} {es : List Int64} (sorted : es.Pairwise (· ≤ ·))
    (h : e ∈ es) (r : Int) : ¬ Admits ⟨e, es.head?⟩ r := by
  cases es with
  | nil => cases h
  | cons next rest =>
    have hnext : next ≤ e := by
      obtain rfl | he := List.mem_cons.1 h
      · exact Int64.le_refl e
      · exact (List.pairwise_cons.1 sorted).1 e he
    intro hadmits
    have hlower : e.toInt < r := hadmits.1
    have hupper : r ≤ next.toInt := hadmits.2 next rfl
    have hle := Int64.le_iff_toInt_le.1 hnext
    omega

/-- Along edges that ascend after the first one, a band that shares its lower edge with a later
one admits no distance. -/
theorem pairwise_not_admits {es : List Int64} (sorted : es.tail.Pairwise (· ≤ ·)) :
    (ofEdges es).Pairwise fun a b => a.lower = b.lower → ∀ r, ¬ a.Admits r := by
  induction es with
  | nil => exact .nil
  | cons e es ih =>
    rw [List.tail_cons] at sorted
    rw [ofEdges_cons, List.pairwise_cons]
    constructor
    · intro later hlater hlower
      have hagain := lower_mem_of_mem_ofEdges hlater
      rw [← hlower] at hagain
      exact not_admits_of_mem sorted hagain
    · exact ih sorted.tail

/-- Of the bands of ascending steps, one that shares its name with a later one holds for nobody. -/
theorem pairwise_not_holds {steps : List GainStep}
    (sorted : steps.Pairwise (·.distance ≤ ·.distance)) :
    (ofSteps steps).Pairwise fun a b => a.name = b.name → ∀ s, ¬ a.predicate.Holds s := by
  have hedges : (edges steps).tail.Pairwise (· ≤ ·) := List.pairwise_map.2 sorted
  refine (pairwise_not_admits hedges).imp fun {a b} hempty hname s hholds => ?_
  exact hempty (Name.gainBand_inj.1 hname) _ ((holds_predicate_iff a s).1 hholds)

/-- So some band of a name holds for a player exactly if the last one does. -/
theorem exists_holds_iff_findRev? {steps : List GainStep}
    (sorted : steps.Pairwise (·.distance ≤ ·.distance)) (name : String) (s : Scores) :
    (∃ b ∈ ofSteps steps, b.name = name ∧ b.predicate.Holds s) ↔
      ∃ b ∈ (ofSteps steps).findRev? (·.name = name), b.predicate.Holds s := by
  have hlast : (ofSteps steps).Pairwise fun a b =>
      decide (a.name = name) → decide (b.name = name) → ¬ a.predicate.Holds s := by
    refine (pairwise_not_holds sorted).imp fun {a b} hempty ha hb => ?_
    exact hempty ((of_decide_eq_true ha).trans (of_decide_eq_true hb).symm) s
  simpa only [decide_eq_true_eq] using exists_mem_iff_findRev? hlast

end GainBand

namespace Pack

/-- Of the bands of a plan whose gain steps ascend, one that is overwritten by a later band of its
name holds for nobody.  So under a band's name, and under any other name that no zone has, some
band of this name holds for a player exactly if the predicate does that the pack stores. -/
theorem overwritten_bands_lose_nobody {c : Config}
    (sorted : c.gainSteps.Pairwise (·.distance ≤ ·.distance)) :
    (GainBand.ofSteps c.gainSteps).Pairwise
        (fun earlier later => earlier.name = later.name → ∀ s, ¬ earlier.predicate.Holds s) ∧
      (∀ b ∈ GainBand.ofSteps c.gainSteps, c.LeavesToBands b.name) ∧
      ∀ name, c.LeavesToBands name → ∀ s,
        ((∃ b ∈ GainBand.ofSteps c.gainSteps, b.name = name ∧ b.predicate.Holds s) ↔
          (ofConfig c).predicates.Holds s name) := by
  refine ⟨GainBand.pairwise_not_holds sorted, fun b _ => c.leavesToBands_gainBand b.lower, ?_⟩
  intro name hname s
  rw [GainBand.exists_holds_iff_findRev? sorted, PredicateTable.Holds,
    predicates_of_leavesToBands hname]
  simp

/-- With steps on both sides of zero and two at zero, three bands are named after zero.  The
first one ends short of zero and holds for nobody, and what is stored holds for a player at seven,
as the last one does.  No band is named after eight, and nothing holds under this name. -/
theorem overwritten_bands_lose_nobody_around_zero :
    let c : Config :=
      ⟨[⟨-5, 1⟩, ⟨0, 2⟩, ⟨0, 3⟩, ⟨7, 4⟩],
        [⟨.distance, .between 0 7, ⟨"slowness", 0, .constant⟩⟩], []⟩
    let s : Scores := fun o => if o = Objective.playerDx then -7 else 1
    c.gainSteps.Pairwise (·.distance ≤ ·.distance) ∧
      (∀ t, ¬ (GainBand.mk 0 (some (-5))).predicate.Holds t) ∧
      (ofConfig c).predicates.Holds s (Name.gainBand 0) ∧
      ¬ (ofConfig c).predicates.Holds s (Name.gainBand 8) := by
  intro c s
  have hsorted : c.gainSteps.Pairwise (·.distance ≤ ·.distance) := by decide
  obtain ⟨hempty, hnames, hstored⟩ := overwritten_bands_lose_nobody hsorted
  refine ⟨hsorted, ?_, ?_, ?_⟩
  · have hlater : GainBand.mk 0 (some 7) ∈ GainBand.ofEdges [-5, 0, 0, 7] := by decide
    exact (List.pairwise_cons.1 hempty).1 _ hlater rfl
  · have hlast : GainBand.mk 0 (some 7) ∈ GainBand.ofSteps c.gainSteps := by decide
    have hholds : (GainBand.mk 0 (some 7)).predicate.Holds s := by decide
    exact (hstored _ (hnames _ hlast) s).1 ⟨_, hlast, rfl, hholds⟩
  · rw [← hstored _ (by decide) s]
    decide

end Pack

end ZonePack

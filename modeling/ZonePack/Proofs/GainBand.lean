import ZonePack.GainBand
import ZonePack.Proofs.LastMatch
import ZonePack.Proofs.Membership

/-!
# ZonePack.Proofs.GainBand

Which gain band a player is in.  As documented, a band has its lower edge and
not its upper one (`GainBand.Covers`).  Its predicate decides otherwise: it has
the upper edge and not the lower one (`GainBand.Admits`), so it runs one behind.

* `ofEdges_cons` — each edge starts a band that ends at the next edge;
* `le_lower_of_admits` — the band that admits a distance starts at the last
  edge short of it;
* `exists_filter_admits_eq` — along ascending edges exactly one band admits a
  distance beyond the first edge;
* `holding_band_covers_iff` — the band that holds for a player is the documented
  one exactly off the edges; at the origin no band holds.
-/

namespace ZonePack

namespace GainBand

/-! ## One band -/

/-- The predicate that decides who is in the band. -/
def predicate (b : GainBand) : Predicate := .ofBounds .distance b.bounds

/-- Whether a distance is in the band as documented, from its lower edge on and
short of its upper one. -/
def Covers (b : GainBand) (r : Int) : Prop :=
  b.lower.toInt ≤ r ∧ ∀ upper ∈ b.upper?, r < upper.toInt

instance (b : GainBand) (r : Int) : Decidable (b.Covers r) :=
  have : Decidable (∀ upper ∈ b.upper?, r < upper.toInt) := Option.decidableForallMem b.upper?
  inferInstanceAs (Decidable (_ ∧ _))

/-- Whether a distance is in the band as its predicate decides, beyond its lower
edge and up to its upper one. -/
def Admits (b : GainBand) (r : Int) : Prop :=
  b.lower.toInt < r ∧ ∀ upper ∈ b.upper?, r ≤ upper.toInt

instance (b : GainBand) (r : Int) : Decidable (b.Admits r) :=
  have : Decidable (∀ upper ∈ b.upper?, r ≤ upper.toInt) := Option.decidableForallMem b.upper?
  inferInstanceAs (Decidable (_ ∧ _))

/-- The predicate runs one behind the documented band. -/
theorem covers_iff_admits_succ (b : GainBand) (r : Int) : b.Covers r ↔ b.Admits (r + 1) := by
  simp only [Covers, Admits, Int.lt_add_one_iff, Int.add_one_le_iff]

/-- The predicate holds for the players whose distance the band admits. -/
theorem holds_predicate_iff (b : GainBand) (s : Scores) :
    b.predicate.Holds s ↔ b.Admits (s.radius .distance) := by
  obtain ⟨lower, upper?⟩ := b
  rw [predicate, Predicate.holds_ofBounds_iff]
  cases upper? <;> simp [bounds, Bounds.min?, Bounds.max?, Admits]

/-! ## Bands between edges -/

/-- Each edge starts a band that ends at the next edge. -/
theorem ofEdges_cons (e : Int64) (es : List Int64) :
    ofEdges (e :: es) = ⟨e, es.head?⟩ :: ofEdges es := by
  cases es <;> rfl

/-- A band starts at an edge. -/
theorem lower_mem_of_mem_ofEdges {b : GainBand} {es : List Int64} (hb : b ∈ ofEdges es) :
    b.lower ∈ es := by
  rw [← map_lower_ofEdges es]
  exact List.mem_map_of_mem hb

/-- A band starts at each edge. -/
theorem exists_lower_eq_of_mem {es : List Int64} {e : Int64} (he : e ∈ es) :
    ∃ b ∈ ofEdges es, b.lower = e := by
  rw [← map_lower_ofEdges es] at he
  exact List.mem_map.1 he

/-- A band ends at an edge, if it ends. -/
theorem upper_mem_of_mem_ofEdges {b : GainBand} {es : List Int64} {upper : Int64}
    (hb : b ∈ ofEdges es) (hu : upper ∈ b.upper?) : upper ∈ es := by
  induction es with
  | nil => simp [ofEdges] at hb
  | cons e es ih =>
    rw [ofEdges_cons, List.mem_cons] at hb
    obtain rfl | hb := hb
    · exact List.mem_cons_of_mem e (List.mem_of_head? hu)
    · exact List.mem_cons_of_mem e (ih hb)

/-- Along ascending edges, the band that admits a distance starts at the last
edge short of it. -/
theorem le_lower_of_admits {es : List Int64} {b : GainBand} {e : Int64} {r : Int}
    (sorted : es.Pairwise (· ≤ ·)) (hb : b ∈ ofEdges es) (h : b.Admits r)
    (he : e ∈ es) (hr : e.toInt < r) : e ≤ b.lower := by
  induction es with
  | nil => simp at he
  | cons first rest ih =>
    obtain ⟨hfirst, hrest⟩ := List.pairwise_cons.1 sorted
    rw [ofEdges_cons, List.mem_cons] at hb
    obtain rfl | hb := hb
    · obtain rfl | he := List.mem_cons.1 he
      · exact Int64.le_refl e
      · -- the first band ends short of every later edge
        cases rest with
        | nil => simp at he
        | cons next rest =>
          have hnext : r ≤ next.toInt := h.2 next rfl
          have hle : next.toInt ≤ e.toInt := by
            obtain rfl | he := List.mem_cons.1 he
            · exact Int.le_refl _
            · exact Int64.le_iff_toInt_le.1 ((List.pairwise_cons.1 hrest).1 e he)
          omega
    · obtain rfl | he := List.mem_cons.1 he
      · exact hfirst _ (lower_mem_of_mem_ofEdges hb)
      · exact ih hrest hb he

/-- No band admits a distance that is short of every edge. -/
theorem filter_admits_eq_nil {es : List Int64} {r : Int} (h : ∀ e ∈ es, r ≤ e.toInt) :
    (ofEdges es).filter (·.Admits r) = [] := by
  rw [List.filter_eq_nil_iff]
  intro b hb hr
  have hle := h b.lower (lower_mem_of_mem_ofEdges hb)
  have hlt := (of_decide_eq_true hr).1
  omega

/-- Along ascending edges, exactly one band admits a distance beyond the first edge. -/
theorem exists_filter_admits_eq {e : Int64} {es : List Int64} {r : Int}
    (sorted : (e :: es).Pairwise (· ≤ ·)) (h : e.toInt < r) :
    ∃ b, (ofEdges (e :: es)).filter (·.Admits r) = [b] := by
  induction es generalizing e with
  | nil => exact ⟨⟨e, none⟩, by simp [ofEdges, Admits, h]⟩
  | cons next es ih =>
    have hrest := (List.pairwise_cons.1 sorted).2
    rw [ofEdges_cons]
    by_cases hn : r ≤ next.toInt
    · refine ⟨⟨e, some next⟩, ?_⟩
      have hnone : (ofEdges (next :: es)).filter (·.Admits r) = [] := by
        refine filter_admits_eq_nil fun x hx => ?_
        obtain rfl | hx := List.mem_cons.1 hx
        · exact hn
        · have := Int64.le_iff_toInt_le.1 ((List.pairwise_cons.1 hrest).1 x hx)
          omega
      have hfirst : Admits ⟨e, some next⟩ r := ⟨h, by simpa using hn⟩
      rw [List.head?_cons, List.filter_cons_of_pos (by simpa using hfirst), hnone]
    · obtain ⟨b, hb⟩ := ih hrest (by omega)
      have hfirst : ¬ Admits ⟨e, some next⟩ r := fun hadmits => hn (hadmits.2 next rfl)
      refine ⟨b, ?_⟩
      rw [List.head?_cons, List.filter_cons_of_neg (by simpa using hfirst), hb]

/-- The band that admits a distance is a band of the edges. -/
theorem mem_of_filter_admits_eq {es : List Int64} {b : GainBand} {r : Int}
    (h : (ofEdges es).filter (·.Admits r) = [b]) : b ∈ ofEdges es ∧ b.Admits r := by
  have hmem : b ∈ (ofEdges es).filter (·.Admits r) := by rw [h]; exact List.mem_singleton_self b
  simpa using hmem

/-- No edge is in a band both as documented and as the band's predicate decides. -/
theorem toInt_ne_of_covers_of_admits {es : List Int64} {b : GainBand} {e : Int64} {r : Int}
    (sorted : es.Pairwise (· ≤ ·)) (hb : b ∈ ofEdges es) (hcovers : b.Covers r)
    (hadmits : b.Admits r) (he : e ∈ es) : e.toInt ≠ r := by
  intro heq
  subst heq
  -- an edge that the band covers is no later than the band's start
  have hnext := (covers_iff_admits_succ b e.toInt).1 hcovers
  have hle := Int64.le_iff_toInt_le.1 (le_lower_of_admits sorted hb hnext he (by omega))
  have hlt := hadmits.1
  omega

/-- Off the edges a band that admits a distance also covers it. -/
theorem covers_of_admits {es : List Int64} {b : GainBand} {r : Int} (hb : b ∈ ofEdges es)
    (h : b.Admits r) (hoff : ∀ e ∈ es, e.toInt ≠ r) : b.Covers r := by
  refine ⟨Int.le_of_lt h.1, fun upper hu => ?_⟩
  have hne := hoff upper (upper_mem_of_mem_ofEdges hb hu)
  have hle := h.2 upper hu
  omega

/-! ## The last band of an edge -/

/-- Several bands may start at one edge; the last of them ends beyond it. -/
theorem lower_lt_upper_of_findRev? {es : List Int64} {b : GainBand} {lower upper : Int64}
    (sorted : es.Pairwise (· ≤ ·)) (h : (ofEdges es).findRev? (·.lower = lower) = some b)
    (hu : upper ∈ b.upper?) : lower < upper := by
  induction es with
  | nil => simp [ofEdges] at h
  | cons e es ih =>
    obtain ⟨hfirst, hrest⟩ := List.pairwise_cons.1 sorted
    rw [ofEdges_cons, List.findRev?] at h
    cases hlater : (ofEdges es).findRev? (·.lower = lower) with
    | some later =>
      rw [hlater] at h
      obtain rfl := Option.some.inj h
      exact ih hrest hlater
    | none =>
      rw [hlater] at h
      obtain ⟨rfl, rfl⟩ : e = lower ∧ (⟨e, es.head?⟩ : GainBand) = b := by simpa using h
      have hmem : upper ∈ es := List.mem_of_head? hu
      have hne : e ≠ upper := by
        -- the edge does not come again, or a later band would start at it
        intro heq
        subst heq
        obtain ⟨later, hlast, hlower⟩ := exists_lower_eq_of_mem hmem
        exact findRev?_eq_none_iff.1 hlater later hlast (by simpa using hlower)
      exact Int64.lt_of_le_of_ne (hfirst upper hmem) hne

/-- Along ascending edges, the last band of an edge admits a distance exactly if
the edge is the last one short of it. -/
theorem exists_findRev?_admits_iff {es : List Int64} {lower : Int64}
    (sorted : es.Pairwise (· ≤ ·)) (h : lower ∈ es) (r : Int) :
    ∃ b, (ofEdges es).findRev? (·.lower = lower) = some b ∧
      (b.Admits r ↔ lower.toInt < r ∧ ∀ e ∈ es, e.toInt < r → e ≤ lower) := by
  have hstarts : ∃ b ∈ ofEdges es, decide (b.lower = lower) := by
    obtain ⟨b, hb, hlower⟩ := exists_lower_eq_of_mem h
    exact ⟨b, hb, decide_eq_true hlower⟩
  obtain ⟨b, hb⟩ := exists_findRev?_iff.2 hstarts
  obtain ⟨hmem, hfound⟩ := mem_of_findRev? hb
  have hlower : b.lower = lower := of_decide_eq_true hfound
  refine ⟨b, hb, ?_⟩
  constructor
  · intro hadmits
    refine ⟨hlower ▸ hadmits.1, fun e he hr => ?_⟩
    exact hlower ▸ le_lower_of_admits sorted hmem hadmits he hr
  · intro h
    obtain ⟨hlt, hlast⟩ := h
    refine ⟨by rw [hlower]; exact hlt, fun upper hu => ?_⟩
    have hbeyond := Int64.lt_iff_toInt_lt.1 (lower_lt_upper_of_findRev? sorted hb hu)
    refine Int.not_lt.1 fun hshort => ?_
    have hle := Int64.le_iff_toInt_le.1
      (hlast upper (upper_mem_of_mem_ofEdges hmem hu) hshort)
    omega

/-! ## The bands of a player -/

/-- The bands whose predicates hold for a player. -/
def holding (steps : List GainStep) (s : Scores) : List GainBand :=
  (ofSteps steps).filter fun b => b.predicate.Holds s

/-- The bands that hold for a player are those that admit the player's distance. -/
theorem holding_eq_filter_admits (steps : List GainStep) (s : Scores) :
    holding steps s = (ofEdges (edges steps)).filter (·.Admits (s.radius .distance)) := by
  simp only [holding, ofSteps, holds_predicate_iff]

/-- The edges of ascending steps from zero on ascend. -/
theorem sorted_edges {steps : List GainStep} (sorted : steps.Pairwise (·.distance ≤ ·.distance))
    (nonneg : ∀ s ∈ steps, 0 ≤ s.distance) : (edges steps).Pairwise (· ≤ ·) := by
  rw [edges, List.pairwise_cons, List.forall_mem_map, List.pairwise_map]
  exact ⟨nonneg, sorted⟩

/-- Of ascending steps from zero on, the band of a player who is off every edge
is the documented one, and there is no other.  At the origin no band holds, and
on any other edge it is the band before the documented one.  The documented
bands leave nobody out. -/
theorem holding_band_covers_iff {steps : List GainStep}
    (sorted : steps.Pairwise (·.distance ≤ ·.distance))
    (nonneg : ∀ s ∈ steps, 0 ≤ s.distance) (s : Scores) :
    (∃ b, (ofSteps steps).filter (·.Covers (s.radius .distance)) = [b]) ∧
    (s.radius .distance = 0 → holding steps s = []) ∧
    (0 < s.radius .distance → ∃ b, holding steps s = [b] ∧ b.Admits (s.radius .distance)) ∧
    ((∃ b, holding steps s = [b] ∧ b.Covers (s.radius .distance)) ↔
      ∀ e ∈ edges steps, e.toInt ≠ s.radius .distance) := by
  have hedges := sorted_edges sorted nonneg
  have hr := s.radius_nonneg .distance
  rw [holding_eq_filter_admits]
  generalize s.radius .distance = r at hr ⊢
  have one (hpos : 0 < r) : ∃ b, (ofEdges (edges steps)).filter (·.Admits r) = [b] :=
    exists_filter_admits_eq hedges hpos
  refine ⟨?_, ?_, ?_, ?_, ?_⟩
  · simp only [covers_iff_admits_succ, ofSteps]
    have hpos : (0 : Int64).toInt < r + 1 := by
      rw [Int64.toInt_zero]
      omega
    exact exists_filter_admits_eq hedges hpos
  · intro heq
    subst heq
    refine filter_admits_eq_nil fun e he => ?_
    obtain rfl | he := List.mem_cons.1 he
    · exact Int.le_refl 0
    · exact Int64.le_iff_toInt_le.1 ((List.pairwise_cons.1 hedges).1 e he)
  · intro hpos
    obtain ⟨b, hb⟩ := one hpos
    exact ⟨b, hb, (mem_of_filter_admits_eq hb).2⟩
  · intro hband e he
    obtain ⟨b, hb, hcovers⟩ := hband
    obtain ⟨hmem, hadmits⟩ := mem_of_filter_admits_eq hb
    exact toInt_ne_of_covers_of_admits hedges hmem hcovers hadmits he
  · intro hoff
    have hzero : (0 : Int) ≠ r := hoff 0 List.mem_cons_self
    obtain ⟨b, hb⟩ := one (by omega)
    obtain ⟨hmem, hadmits⟩ := mem_of_filter_admits_eq hb
    exact ⟨b, hb, covers_of_admits hmem hadmits hoff⟩

/-- Between two edges the band is the documented one; on an edge it is not. -/
theorem holding_band_of_three_steps :
    let steps : List GainStep := [⟨5, 1⟩, ⟨5, 2⟩, ⟨9, 3⟩]
    (steps.Pairwise (·.distance ≤ ·.distance) ∧ ∀ s ∈ steps, 0 ≤ s.distance) ∧
      (∃ b, holding steps (fun _ => -7) = [b] ∧ b.Covers 7) ∧
      ¬ ∃ b, holding steps (fun _ => 9) = [b] ∧ b.Covers 9 := by
  refine ⟨⟨by decide, by decide⟩, ?_, ?_⟩
  · have hoff : ∀ e ∈ edges [⟨5, 1⟩, ⟨5, 2⟩, ⟨9, 3⟩],
        e.toInt ≠ Scores.radius (fun _ => -7) .distance := by
      intro e he
      obtain rfl | rfl | rfl : e = 0 ∨ e = 5 ∨ e = 9 := by simpa [edges] using he
      · decide
      · decide
      · decide
    exact (holding_band_covers_iff (by decide) (by decide) (fun _ => -7)).2.2.2.2 hoff
  · intro h
    exact (holding_band_covers_iff (by decide) (by decide) (fun _ => 9)).2.2.2.1 h 9
      (by decide) (by decide)

/-- Not every player is in the documented band alone: one on the edge of a step
is still in the band before it. -/
theorem exists_not_holding_band_covers :
    ¬ ∀ (steps : List GainStep) (s : Scores),
      steps.Pairwise (·.distance ≤ ·.distance) → (∀ x ∈ steps, 0 ≤ x.distance) →
        ∃ b, holding steps s = [b] ∧ b.Covers (s.radius .distance) := by
  intro h
  obtain ⟨b, hb, hcovers⟩ := h [⟨10, 1⟩] (fun _ => 10) (by decide) (by decide)
  have hheld : holding [⟨10, 1⟩] (fun _ => 10) = [⟨0, some 10⟩] := by decide
  rw [hheld, List.cons.injEq] at hb
  obtain ⟨rfl, -⟩ := hb
  revert hcovers
  decide

end GainBand

end ZonePack

import ZonePack.Zone

/-!
# ZonePack.GainBand

Gain bands: the steps' distances cut the distance axis, starting at zero, into
one band more than there are steps.  A band is named after its lower edge; its
upper edge is the lower edge of the next one.
-/

namespace ZonePack

/-- A stretch of the distance axis, open-ended when `upper?` is missing. -/
structure GainBand where
  lower : Int64
  upper? : Option Int64
  deriving DecidableEq, Repr

namespace GainBand

/-- The name of the band's predicate. -/
def name (b : GainBand) : String :=
  Name.gainBand b.lower

/-- The band as an extent; the lower edge is always set. -/
def bounds (b : GainBand) : Bounds :=
  match b.upper? with
  | some upper => .between b.lower upper
  | none => .above b.lower

/-- The bands between successive edges, the last one open-ended. -/
def ofEdges : List Int64 → List GainBand
  | [] => []
  | [last] => [⟨last, none⟩]
  | lower :: upper :: rest => ⟨lower, some upper⟩ :: ofEdges (upper :: rest)

/-- The lower edges of the bands that some steps make: zero, then each step's distance. -/
def edges (steps : List GainStep) : List Int64 :=
  0 :: steps.map (·.distance)

/-- The bands that some steps make, in the order of the steps.  Two steps at
one distance leave an empty band between them. -/
def ofSteps (steps : List GainStep) : List GainBand :=
  ofEdges (edges steps)

/-- Each edge starts one band, in order. -/
@[simp] theorem map_lower_ofEdges (es : List Int64) : (ofEdges es).map (·.lower) = es := by
  fun_induction ofEdges es <;> simp_all

/-- There is one band more than there are steps. -/
@[simp] theorem length_ofSteps (steps : List GainStep) :
    (ofSteps steps).length = steps.length + 1 := by
  rw [ofSteps, ← List.length_map, map_lower_ofEdges]
  simp [edges]

end GainBand

end ZonePack

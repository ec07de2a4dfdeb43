import ZonePack.Proofs.Normalize
import ZonePack.Proofs.Pack

/-!
# ZonePack.Proofs.Collisions

Zones that take each other's place.  A zone that reaches out to `m` without a start and one
that starts at zero are named alike, but their predicates are different files: the one
holds a condition, the other a list of two (`Predicate.text_below_ne_text_between`).

* `Zone.name_eq_iff` — these are the only different zones of an axis that share a name;
* `Pack.exists_get?_zone` — under a zone's name the predicate of a zone of this name is
  stored;
* `Pack.own_predicate_iff` — in a finished plan every zone finds its own predicate exactly
  if no list has two such zones.
-/

namespace ZonePack

namespace Predicate

/-! ## Files that differ -/

/-- The file of a single condition starts with a brace. -/
theorem head?_text_single (c : Condition) : (single c).text.toList.head? = some '{' := by
  cases c <;> simp [text, toJson, Condition.toJson, Json.Value.pretty, Json.Value.prettyText]

/-- The file of several conditions starts with a bracket. -/
theorem head?_text_all (cs : List Condition) : (all cs).text.toList.head? = some '[' := by
  cases cs <;> simp [text, toJson, Json.Value.pretty, Json.Value.prettyText]

/-- A start at zero shows in the file. -/
theorem text_below_ne_text_between (axis : Axis) (max : Int64) :
    (ofBounds axis (.below max)).text ≠ (ofBounds axis (.between 0 max)).text := by
  intro h
  have hhead := congrArg (·.toList.head?) h
  simp only [ofBounds, head?_text_single, head?_text_all] at hhead
  cases hhead

end Predicate

/-! ## Names that are shared -/

/-- Zones share a name exactly if they are on one axis with one extent, or with two of which
one starts at zero and the other has no start. -/
theorem Zone.name_eq_iff {x y : Zone} : x.name = y.name ↔
    x.axis = y.axis ∧ (x.bounds = y.bounds ∨ ∃ m,
      (x.bounds = .below m ∧ y.bounds = .between 0 m) ∨
        (x.bounds = .between 0 m ∧ y.bounds = .below m)) := by
  rw [name, name, Name.ofBounds_inj, and_congr_right_iff]
  rintro -
  constructor
  · intro hsides
    by_cases hbounds : x.bounds = y.bounds
    · exact .inl hbounds
    · exact .inr (Name.same_sides_iff.1 ⟨hsides, hbounds⟩)
  · rintro (hbounds | hclash)
    · rw [hbounds]
      exact ⟨rfl, rfl⟩
    · exact (Name.same_sides_iff.2 hclash).1

namespace Pack

/-- Under a zone's name the predicate of a zone of this name is stored, which may be
another zone. -/
theorem exists_get?_zone {c : Config} {z : Zone} (hz : z ∈ c.zones) :
    ∃ own ∈ c.zones, own.name = z.name ∧
      (ofConfig c).get? (Layout.predicateFile z.name) = some own.file := by
  have hfile : z.file ∈ (ofConfig c).files :=
    List.mem_append_left _ (mem_predicateFiles_iff.2 (.inr ⟨z, hz, rfl⟩))
  obtain ⟨f, hf⟩ := exists_get?_of_mem hfile
  have hget : (ofConfig c).get? (Layout.predicateFile z.name) = some f := hf
  rw [get?_predicateFile c z.isPlain_name.slash_not_mem] at hget
  obtain ⟨hmem, hfound⟩ := mem_of_findRev? hget
  have hname : f.name = z.name := of_decide_eq_true hfound
  obtain ⟨b, -, rfl⟩ | ⟨own, hown, rfl⟩ := mem_predicateFiles_iff.1 hmem
  · exact absurd hname (Name.gainBand_ne_zone _ _ _ _)
  · exact ⟨own, hown, hname, hf⟩

/-- In a finished plan every zone finds its own predicate under its name, exactly if there
is no `m` such that one list has both a zone that reaches out to `m` without a start and
one that does so from zero on. -/
theorem own_predicate_iff {a : Authored} {c : Config} (h : a.normalize = .ok c) :
    (∀ z ∈ c.zones, ((ofConfig c).get? (Layout.predicateFile z.name)).map PackFile.text =
        some (Predicate.ofBounds z.axis z.bounds).text) ↔
      ¬ ∃ m axis, (∃ x ∈ c.zonesOn axis, x.bounds = .below m) ∧
        ∃ y ∈ c.zonesOn axis, y.bounds = .between 0 m := by
  have hplaced := Authored.isPlaced_of_normalize h
  constructor
  · rintro hown ⟨m, axis, ⟨x, hx, hbelow⟩, y, hy, hbetween⟩
    have hxaxis := hplaced axis x hx
    have hyaxis := hplaced axis y hy
    -- both are found under one name, but their files differ
    have hname : x.name = y.name :=
      Zone.name_eq_iff.2 ⟨hxaxis.trans hyaxis.symm, .inr ⟨m, .inl ⟨hbelow, hbetween⟩⟩⟩
    have hxown := hown x (Config.mem_zones_iff_zonesOn.2 ⟨axis, hx⟩)
    have hyown := hown y (Config.mem_zones_iff_zonesOn.2 ⟨axis, hy⟩)
    rw [hname, hyown, hxaxis, hyaxis, hbelow, hbetween, Option.some_inj] at hxown
    exact Predicate.text_below_ne_text_between axis m hxown.symm
  · intro hclash z hz
    obtain ⟨own, hown, hname, hget⟩ := exists_get?_zone hz
    obtain ⟨haxis, hbounds⟩ := Zone.name_eq_iff.1 hname
    have hown := hplaced.mem_zonesOn hown
    have hz := hplaced.mem_zonesOn hz
    rw [haxis] at hown
    obtain hbounds | ⟨m, ⟨hbelow, hbetween⟩ | ⟨hbetween, hbelow⟩⟩ := hbounds
    · rw [hget, ← haxis, ← hbounds]
      rfl
    · exact absurd ⟨m, z.axis, ⟨own, hown, hbelow⟩, z, hz, hbetween⟩ hclash
    · exact absurd ⟨m, z.axis, ⟨z, hz, hbelow⟩, own, hown, hbetween⟩ hclash

/-- Zones that differ only in a start at zero keep their predicates in two lists, and one of
them loses its own in one list. -/
theorem own_predicate_iff_of_two_lists :
    let below : Authored.Zone := ⟨none, some 5, ⟨"glowing", none, none⟩⟩
    let between : Authored.Zone := ⟨some 0, some 5, ⟨"blindness", none, none⟩⟩
    ∃ c d, Authored.normalize ⟨[], [below], [between]⟩ = .ok c ∧
      Authored.normalize ⟨[], [below, between], []⟩ = .ok d ∧
      (∀ z ∈ c.zones, ((ofConfig c).get? (Layout.predicateFile z.name)).map PackFile.text =
        some (Predicate.ofBounds z.axis z.bounds).text) ∧
      ¬ ∀ z ∈ d.zones, ((ofConfig d).get? (Layout.predicateFile z.name)).map PackFile.text =
        some (Predicate.ofBounds z.axis z.bounds).text := by
  intro below between
  let x : Zone := ⟨.distance, .below 5, ⟨"glowing", 0, .constant⟩⟩
  let y (axis : Axis) : Zone := ⟨axis, .between 0 5, ⟨"blindness", 0, .constant⟩⟩
  have hc : Authored.normalize ⟨[], [below], [between]⟩ = .ok ⟨[], [x], [y .insanity]⟩ :=
    Json.eq_ok_of_toOption (by decide +kernel)
  have hd : Authored.normalize ⟨[], [below, between], []⟩ = .ok ⟨[], [x, y .distance], []⟩ :=
    Json.eq_ok_of_toOption (by decide +kernel)
  refine ⟨_, _, hc, hd, (own_predicate_iff hc).2 ?_, fun hown => (own_predicate_iff hd).1 hown ?_⟩
  · rintro ⟨m, _ | _, ⟨z, hz, hbelow⟩, w, hw, hbetween⟩
    · obtain rfl := List.mem_singleton.1 hw
      cases hbetween
    · obtain rfl := List.mem_singleton.1 hz
      cases hbelow
  · exact ⟨5, .distance, ⟨x, List.mem_cons_self, rfl⟩, y .distance, by decide, rfl⟩

end Pack

end ZonePack

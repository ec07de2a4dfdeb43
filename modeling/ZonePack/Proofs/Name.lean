import Mathlib.Data.List.Basic
import Std.Data.String.ToInt
import ZonePack.Name
import ZonePack.Proofs.Path

/-!
# ZonePack.Proofs.Name

Generated names as texts.  They are made of plain characters only
(`Name.IsPlain`), so none of them holds a slash, and their first two characters
(`Name.initials`) tell the families of names apart.  Between the two sides of a
zone's name stands an underscore, which no number holds, so the sides can be
told apart as well.

* `isPlain_gainBand`, `isPlain_zone`, `isPlain_of_mem_fixedFunctions` — every
  family is plain, and `IsPlain.isName` makes a plain name one component of a path;
* `utf8ByteSize_zone_le` — no name is longer than that of a zone with two long sides;
* `gainBand_inj` — different edges give different names;
* `ofBounds_inj` — zones have one name exactly if they show the same sides;
* `gainBand_ne_zone`, `zone_not_mem_fixedFunctions` — no name is in two families;
* `collisions_exact` — all of this at once.
-/

namespace ZonePack

namespace Name

/-! ## Plain names -/

/-- The characters that generated names are made of. -/
def isPlainChar (c : Char) : Bool :=
  c.isLower || c.isDigit || c = '_' || c = '-'

/-- A name of plain characters only. -/
def IsPlain (name : String) : Prop := ∀ c ∈ name.toList, isPlainChar c

instance (name : String) : Decidable (IsPlain name) :=
  List.decidableBAll _ name.toList

/-- A plain name does not lead into another folder. -/
theorem IsPlain.slash_not_mem {name : String} (h : IsPlain name) : '/' ∉ name.toList :=
  fun hc => absurd (h _ hc) (by decide)

theorem IsPlain.append {a b : String} (ha : IsPlain a) (hb : IsPlain b) : IsPlain (a ++ b) := by
  intro c hc
  rw [String.toList_append, List.mem_append] at hc
  exact hc.elim (ha c) (hb c)

/-- The decimal text of a number has digits only. -/
theorem isDigit_of_mem_repr {n : Nat} {c : Char} (hc : c ∈ n.repr.toList) : c.isDigit := by
  rw [Nat.toList_repr] at hc
  exact Nat.isDigit_of_mem_toDigits (by decide) (by decide) hc

/-- The decimal text of a signed number has digits and perhaps a minus sign. -/
theorem isDigit_or_minus_of_mem_repr {n : Int} {c : Char} (hc : c ∈ n.repr.toList) :
    c.isDigit ∨ c = '-' := by
  rw [Int.repr_eq_if] at hc
  split at hc
  · exact .inl (isDigit_of_mem_repr hc)
  · rw [String.toList_append, List.mem_append] at hc
    obtain hc | hc := hc
    · exact .inr (List.mem_singleton.1 hc)
    · exact .inl (isDigit_of_mem_repr hc)

/-- No other character is in it. -/
theorem not_mem_repr {c : Char} (hdigit : c.isDigit = false) (hminus : c ≠ '-') (n : Int) :
    c ∉ n.repr.toList := by
  intro hc
  obtain h | h := isDigit_or_minus_of_mem_repr hc
  · rw [hdigit] at h
    cases h
  · exact hminus h

theorem isDigit_or_minus_of_mem_toString {n : Int64} {c : Char}
    (hc : c ∈ (toString n).toList) : c.isDigit ∨ c = '-' :=
  isDigit_or_minus_of_mem_repr hc

/-- The decimal text of a signed number is plain. -/
theorem isPlain_toString (n : Int64) : IsPlain (toString n) := by
  intro c hc
  obtain hdigit | rfl := isDigit_or_minus_of_mem_toString hc
  · simp [isPlainChar, hdigit]
  · rfl

theorem isPlain_gainBand (lower : Int64) : IsPlain (gainBand lower) :=
  IsPlain.append (by decide) (isPlain_toString lower)

theorem isPlain_zone (axis : Axis) (min max : Option Int64) : IsPlain (zone axis min max) := by
  have htag : IsPlain axis.tag := by cases axis <;> decide
  have hmin : IsPlain (min.elim "0" toString) := by
    cases min with
    | none => decide
    | some min => exact isPlain_toString min
  have hmax : IsPlain (max.elim "inf" toString) := by
    cases max with
    | none => decide
    | some max => exact isPlain_toString max
  exact (((htag.append (by decide)).append hmin).append (by decide)).append hmax

theorem isPlain_of_mem_fixedFunctions {name : String} (h : name ∈ fixedFunctions) :
    IsPlain name := by
  simp only [fixedFunctions, List.mem_cons, List.not_mem_nil, or_false] at h
  obtain rfl | rfl | rfl | rfl := h <;> decide

/-- A plain name that is not empty is the name of something in a folder. -/
theorem IsPlain.isName {name : String} (h : IsPlain name) (hne : name ≠ "") :
    Path.IsName name where
  slash_not_mem := h.slash_not_mem
  ne_empty := hne
  ne_here := by
    intro heq
    subst heq
    exact absurd h (by decide)
  ne_up := by
    intro heq
    subst heq
    exact absurd h (by decide)

/-! ## Lengths -/

theorem utf8Size_of_isPlainChar {c : Char} (h : isPlainChar c) : c.utf8Size = 1 := by
  rw [Char.utf8Size_eq_one_iff]
  have hlower : c.isLower = (decide ('a' ≤ c) && decide (c ≤ 'z')) := rfl
  have hdigit : c.isDigit = (decide ('0' ≤ c) && decide (c ≤ '9')) := rfl
  simp only [isPlainChar, hlower, hdigit, Bool.or_eq_true, Bool.and_eq_true,
    decide_eq_true_eq] at h
  obtain ((⟨-, hz⟩ | ⟨-, hnine⟩) | rfl) | rfl := h
  · exact UInt32.le_trans hz (by decide)
  · exact UInt32.le_trans hnine (by decide)
  · decide
  · decide

theorem utf8ByteSize_ofList_eq_length {s : List Char} (h : ∀ c ∈ s, isPlainChar c) :
    (String.ofList s).utf8ByteSize = s.length := by
  induction s with
  | nil => rfl
  | cons c s ih =>
    rw [List.forall_mem_cons] at h
    rw [utf8ByteSize_ofList_cons, utf8Size_of_isPlainChar h.1, ih h.2, List.length_cons,
      Nat.add_comm]

/-- A plain name has a byte for each character. -/
theorem IsPlain.utf8ByteSize_eq {name : String} (h : IsPlain name) :
    name.utf8ByteSize = name.toList.length := by
  rw [← utf8ByteSize_ofList_eq_length h, String.ofList_toList]

/-- A number has at most nineteen digits and a minus sign. -/
theorem utf8ByteSize_toString_le (n : Int64) : (toString n).utf8ByteSize ≤ 20 := by
  have hdigits {m : Nat} (hm : m < 10 ^ 19) : m.repr.toList.length ≤ 19 := by
    rw [Nat.toList_repr]
    exact (Nat.length_toDigits_le_iff (by decide) (by decide)).2 hm
  have hmin := n.le_toInt
  have hmax := n.toInt_lt
  rw [(isPlain_toString n).utf8ByteSize_eq]
  change n.toInt.repr.toList.length ≤ 20
  rw [Int.repr_eq_if]
  split
  · exact Nat.le_succ_of_le (hdigits (by omega))
  · have hdigits : (-n.toInt).toNat.repr.toList.length ≤ 19 := hdigits (by omega)
    rw [String.toList_append, List.length_append]
    exact Nat.add_le_add (Nat.le_refl 1) hdigits

theorem utf8ByteSize_gainBand_le (lower : Int64) : (gainBand lower).utf8ByteSize ≤ 28 := by
  rw [gainBand, String.utf8ByteSize_append]
  exact Nat.add_le_add (Nat.le_refl 8) (utf8ByteSize_toString_le lower)

theorem utf8ByteSize_zone_le (axis : Axis) (min max : Option Int64) :
    (zone axis min max).utf8ByteSize ≤ 49 := by
  have htag : axis.tag.utf8ByteSize = 2 := by cases axis <;> rfl
  have hmin : (min.elim "0" toString).utf8ByteSize ≤ 20 := by
    cases min with
    | none => decide
    | some min => exact utf8ByteSize_toString_le min
  have hmax : (max.elim "inf" toString).utf8ByteSize ≤ 20 := by
    cases max with
    | none => decide
    | some max => exact utf8ByteSize_toString_le max
  have hzone : "_zone_".utf8ByteSize = 6 := rfl
  have hmark : "_".utf8ByteSize = 1 := rfl
  simp only [zone, String.utf8ByteSize_append, htag, hzone, hmark]
  omega

theorem utf8ByteSize_le_of_mem_fixedFunctions {name : String} (h : name ∈ fixedFunctions) :
    name.utf8ByteSize ≤ 22 := by
  simp only [fixedFunctions, List.mem_cons, List.not_mem_nil, or_false] at h
  obtain rfl | rfl | rfl | rfl := h <;> decide

/-! ## Equal names -/

/-- Different numbers have different texts. -/
theorem toString_inj {a b : Int64} : toString a = toString b ↔ a = b := by
  change a.toInt.repr = b.toInt.repr ↔ a = b
  rw [Int.repr_inj, Int64.toInt_inj]

/-- Bands have one name exactly if they start at one edge. -/
@[simp] theorem gainBand_inj {a b : Int64} : gainBand a = gainBand b ↔ a = b := by
  rw [gainBand, gainBand, ← String.toList_inj, String.toList_append, String.toList_append,
    List.append_cancel_left_eq, String.toList_inj, toString_inj]

/-- How a name shows the radius that a zone starts at. -/
theorem minText_eq (min : Option Int64) : min.elim "0" toString = toString (min.getD 0) := by
  cases min <;> rfl

/-- No number has an underscore. -/
theorem underscore_not_mem_toString (n : Int64) : '_' ∉ (toString n).toList :=
  not_mem_repr rfl (by decide) n.toInt

/-- No number is written as a missing reach is. -/
theorem toString_ne_inf (n : Int64) : toString n ≠ "inf" := by
  intro h
  have hmem : 'i' ∈ (toString n).toList := by rw [h]; decide
  obtain h | h := isDigit_or_minus_of_mem_toString hmem <;> exact absurd h (by decide)

/-- No reach is written with an underscore. -/
theorem underscore_not_mem_maxText (max : Option Int64) :
    '_' ∉ (max.elim "inf" toString).toList := by
  cases max with
  | none => decide
  | some max => exact underscore_not_mem_toString max

/-- A name shows a zone's reach as it is. -/
theorem maxText_inj {a b : Option Int64} :
    a.elim "inf" toString = b.elim "inf" toString ↔ a = b := by
  cases a with
  | none =>
    cases b with
    | none => simp
    | some b => simp [(toString_ne_inf b).symm]
  | some a =>
    cases b with
    | none => simp [toString_ne_inf a]
    | some b => simp [toString_inj]

/-- Functions have one reference exactly if they have one name. -/
@[simp] theorem functionRef_inj {a b : String} : functionRef a = functionRef b ↔ a = b := by
  constructor
  · intro h
    simpa using congrArg ofFunctionRef? h
  · exact congrArg functionRef

/-! ## Families of names -/

/-- The two characters that a name starts with. -/
def initials (name : String) : List Char := name.toList.take 2

@[simp] theorem initials_gainBand (lower : Int64) : initials (gainBand lower) = ['i', 'g'] := by
  simp [initials, gainBand]

@[simp] theorem initials_zone (axis : Axis) (min max : Option Int64) :
    initials (zone axis min max) = axis.tag.toList := by
  cases axis <;> simp [initials, zone, Axis.tag]

/-- Two axes have different tags. -/
theorem tag_inj {a b : Axis} : a.tag = b.tag ↔ a = b := by
  cases a <;> cases b <;> decide

/-- A zone's name ends in its two sides, with an underscore between them. -/
theorem toList_zone (axis : Axis) (min max : Option Int64) :
    (zone axis min max).toList = (axis.tag ++ "_zone_").toList ++
      ((toString (min.getD 0)).toList ++ '_' :: (max.elim "inf" toString).toList) := by
  have hmark : "_".toList = ['_'] := rfl
  simp only [zone, minText_eq, String.toList_append, List.append_assoc, hmark, List.cons_append,
    List.nil_append]

/-- Zones have one name exactly if they are on one axis and show the same sides. -/
theorem zone_inj {a b : Axis} {min min' max max' : Option Int64} :
    zone a min max = zone b min' max' ↔ a = b ∧ min.getD 0 = min'.getD 0 ∧ max = max' := by
  constructor
  · intro h
    have haxis : a = b := by
      have hi := congrArg initials h
      rw [initials_zone, initials_zone, String.toList_inj] at hi
      exact tag_inj.1 hi
    subst haxis
    -- in what follows the tag, the underscore between the sides is the only one
    rw [← String.toList_inj, toList_zone, toList_zone, List.append_cancel_left_eq] at h
    obtain ⟨hmin, -, hmax⟩ := (List.append_cons_inj_of_notMem
      (underscore_not_mem_toString _) (underscore_not_mem_maxText max)).1 h
    rw [String.toList_inj] at hmin hmax
    exact ⟨rfl, toString_inj.1 hmin, maxText_inj.1 hmax⟩
  · rintro ⟨rfl, hmin, rfl⟩
    rw [zone, zone, minText_eq, minText_eq, hmin]

/-- Zones with extents have one name exactly if they show the same sides. -/
theorem ofBounds_inj {a b : Axis} {x y : Bounds} : ofBounds a x = ofBounds b y ↔
    a = b ∧ x.min?.getD 0 = y.min?.getD 0 ∧ x.max? = y.max? :=
  zone_inj

/-- The only extents that differ without showing it: nothing says whether a zone that
reaches out to `m` starts at zero or has no start. -/
theorem same_sides_iff {x y : Bounds} :
    (x.min?.getD 0 = y.min?.getD 0 ∧ x.max? = y.max?) ∧ x ≠ y ↔
      ∃ m, (x = .below m ∧ y = .between 0 m) ∨ (x = .between 0 m ∧ y = .below m) := by
  cases x <;> cases y <;> simp [Bounds.min?, Bounds.max?, eq_comm]

/-- No band is named as a zone. -/
theorem gainBand_ne_zone (lower : Int64) (axis : Axis) (min max : Option Int64) :
    gainBand lower ≠ zone axis min max := by
  intro h
  have hi := congrArg initials h
  rw [initials_gainBand, initials_zone] at hi
  cases axis <;> exact absurd hi (by decide)

/-- No zone's loop takes the place of a fixed function. -/
theorem zone_not_mem_fixedFunctions (axis : Axis) (min max : Option Int64) :
    zone axis min max ∉ fixedFunctions := by
  intro h
  have hi : axis.tag.toList ∈ fixedFunctions.map initials := by
    rw [← initials_zone axis min max]
    exact List.mem_map_of_mem h
  cases axis <;> exact absurd hi (by decide)

/-- No band's predicate takes the place of a fixed function. -/
theorem gainBand_not_mem_fixedFunctions (lower : Int64) : gainBand lower ∉ fixedFunctions := by
  intro h
  have hi : ['i', 'g'] ∈ fixedFunctions.map initials := by
    rw [← initials_gainBand lower]
    exact List.mem_map_of_mem h
  exact absurd hi (by decide)

/-! ## All names -/

/-- A band's name is one component of a path. -/
theorem isName_gainBand (lower : Int64) : Path.IsName (gainBand lower) := by
  refine (isPlain_gainBand lower).isName fun h => ?_
  have hi := initials_gainBand lower
  rw [h] at hi
  exact absurd hi (by decide)

/-- A zone's name is one component of a path. -/
theorem isName_zone (axis : Axis) (min max : Option Int64) : Path.IsName (zone axis min max) := by
  refine (isPlain_zone axis min max).isName fun h => ?_
  have hi := initials_zone axis min max
  rw [h] at hi
  cases axis <;> exact absurd hi (by decide)

/-- Names collide as documented and nowhere else.  Two zones have one name exactly if
they are on one axis, start at the same radius when a missing start counts as zero, and
have the same reach; so the only two extents with one name are `below m` and
`between 0 m`.  Two bands have one name exactly if they start at one edge.  No name is in
two families, and every name is plain and one component of a path. -/
theorem collisions_exact :
    (∀ a b x y, ofBounds a x = ofBounds b y ↔
      a = b ∧ x.min?.getD 0 = y.min?.getD 0 ∧ x.max? = y.max?) ∧
    (∀ a b x y, ofBounds a x = ofBounds b y ∧ x ≠ y ↔
      a = b ∧ ∃ m, (x = .below m ∧ y = .between 0 m) ∨ (x = .between 0 m ∧ y = .below m)) ∧
    (∀ d e, gainBand d = gainBand e ↔ d = e) ∧
    (∀ d a x, gainBand d ≠ ofBounds a x) ∧
    (∀ d, gainBand d ∉ fixedFunctions) ∧
    (∀ a x, ofBounds a x ∉ fixedFunctions) ∧
    (∀ d, IsPlain (gainBand d) ∧ (Path.mk (gainBand d)).components = [.name (gainBand d)]) ∧
    ∀ a x, IsPlain (ofBounds a x) ∧
      (Path.mk (ofBounds a x)).components = [.name (ofBounds a x)] := by
  refine ⟨fun a b x y => ofBounds_inj, fun a b x y => ?_, fun d e => gainBand_inj,
    fun d a x => gainBand_ne_zone d a _ _, gainBand_not_mem_fixedFunctions,
    fun a x => zone_not_mem_fixedFunctions a _ _, fun d => ?_, fun a x => ?_⟩
  · rw [ofBounds_inj, and_assoc, same_sides_iff]
  · exact ⟨isPlain_gainBand d, (isName_gainBand d).components⟩
  · exact ⟨isPlain_zone a _ _, (isName_zone a _ _).components⟩

end Name

end ZonePack

import ZonePack.Proofs.FileTree

/-!
# ZonePack.Proofs.Ancestors

The folders around a path.  They are written down from what the path says, so they
are seldom part of its text, but they lead to the same places:

* `alike_ofComponents` — what a path says, written down again, says the same;
* `toList_text_ofComponents_sublist` — nor does it get longer, so it can be followed if the
  path can (`pathFault?_ofComponents`);
* `endsAt_congr_of_alike` — paths that say the same lead to the same directory;
* `ancestors_join_name` — around a name in a folder are the folder, as it is written
  down again, and what is around it.
-/

namespace ZonePack

namespace Path

variable {p q : Path}

/-! ## Pieces and components -/

/-- No slash is left in a piece. -/
theorem slash_not_mem_of_mem_splitSlash {s piece : List Char} (h : piece ∈ splitSlash s) :
    '/' ∉ piece := by
  induction s generalizing piece with
  | nil => simp_all [splitSlash]
  | cons c s ih =>
    rw [splitSlash] at h
    split at h
    · obtain rfl | h := List.mem_cons.1 h
      · exact List.not_mem_nil
      · exact ih h
    · rename_i hc
      cases hs : splitSlash s with
      | nil => exact absurd hs (splitSlash_ne_nil s)
      | cons first pieces =>
        rw [hs] at h ih
        obtain rfl | h := List.mem_cons.1 h
        · simp [Ne.symm hc, ih List.mem_cons_self]
        · exact ih (List.mem_cons_of_mem first h)

/-- Pieces that are joined by slashes are found again. -/
theorem splitSlash_intercalate {pieces : List (List Char)} (hne : pieces ≠ [])
    (h : ∀ piece ∈ pieces, '/' ∉ piece) : splitSlash (['/'].intercalate pieces) = pieces := by
  induction pieces with
  | nil => exact absurd rfl hne
  | cons piece pieces ih =>
    rw [List.forall_mem_cons] at h
    cases pieces with
    | nil => simp [splitSlash_of_not_mem h.1]
    | cons next pieces =>
      have hrest := ih (List.cons_ne_nil next pieces) h.2
      simp [splitSlash_append_slash, splitSlash_of_not_mem h.1, hrest]

/-- Pieces that are found are joined to the text again. -/
theorem intercalate_splitSlash (s : List Char) : ['/'].intercalate (splitSlash s) = s := by
  induction s with
  | nil => rfl
  | cons c s ih =>
    obtain ⟨first, pieces, hpieces⟩ := List.exists_cons_of_ne_nil (splitSlash_ne_nil s)
    rw [hpieces] at ih
    rw [splitSlash, hpieces]
    by_cases hc : c = '/'
    · rw [if_pos hc, List.intercalate_cons_cons, ih, hc]
      rfl
    · rw [if_neg hc, List.intercalate_cons_cons_left, ih]

/-- With fewer pieces a text has fewer characters. -/
theorem intercalate_sublist {xs ys : List (List Char)} (h : xs.Sublist ys) :
    (['/'].intercalate xs).Sublist (['/'].intercalate ys) := by
  induction h with
  | slnil => exact .refl _
  | @cons xs ys y hsub ih =>
    cases ys with
    | nil =>
      cases hsub
      simp
    | cons next ys =>
      rw [List.intercalate_cons_cons]
      exact ih.trans (List.sublist_append_right _ _)
  | @cons_cons xs ys y hsub ih =>
    cases ys with
    | nil =>
      cases hsub
      exact .refl _
    | cons next ys =>
      cases xs with
      | nil =>
        rw [List.intercalate_singleton, List.intercalate_cons_cons, List.append_assoc]
        exact List.sublist_append_left _ _
      | cons other xs =>
        rw [List.intercalate_cons_cons, List.intercalate_cons_cons]
        exact ih.append_left _

namespace Component

/-- Whether a component is what its text says after another piece. -/
structure IsPiece (c : Component) : Prop where
  slash_not_mem : '/' ∉ c.text.toList
  ofPiece? : ofPiece? c.text.toList = some c

/-- The component of a piece has the piece as its text. -/
theorem text_of_ofPiece? {piece : List Char} {c : Component}
    (h : Component.ofPiece? piece = some c) : c.text.toList = piece := by
  unfold Component.ofPiece? at h
  split at h
  · cases h
  · split at h
    · rename_i hup
      cases h
      exact hup.symm
    · cases h
      exact String.toList_ofList

/-- What a piece says is such a component. -/
theorem isPiece_of_ofPiece? {piece : List Char} {c : Component} (hslash : '/' ∉ piece)
    (h : Component.ofPiece? piece = some c) : c.IsPiece := by
  have htext := text_of_ofPiece? h
  exact ⟨htext ▸ hslash, htext ▸ h⟩

/-- What a piece says has a text. -/
theorem IsPiece.text_ne_nil {c : Component} (h : c.IsPiece) : c.text.toList ≠ [] := by
  intro hnil
  have hsaid := h.ofPiece?
  rw [hnil] at hsaid
  cases hsaid

/-- What some pieces say is what their texts say. -/
theorem filterMap_ofPiece?_text {cs : List Component} (h : ∀ c ∈ cs, c.IsPiece) :
    (cs.map (·.text.toList)).filterMap Component.ofPiece? = cs := by
  induction cs with
  | nil => rfl
  | cons c cs ih =>
    rw [List.forall_mem_cons] at h
    rw [List.map_cons, List.filterMap_cons_some h.1.ofPiece?, ih h.2]

/-- The component can be at the start of a path. -/
inductive CanStart : Component → Prop where
  | root : CanStart root
  | here : CanStart here
  | piece {c : Component} : c.IsPiece → CanStart c

theorem CanStart.slash_not_mem {c : Component} (h : c.CanStart) : '/' ∉ c.text.toList := by
  cases h with
  | root => decide
  | here => decide
  | piece h => exact h.slash_not_mem

end Component

/-- A path that says something says one thing first, and then what its other pieces say. -/
theorem exists_components_eq_cons (hp : p.text ≠ "") : ∃ first rest, p.components = first :: rest ∧
    first.CanStart ∧ ∀ c ∈ rest, c.IsPiece := by
  have hslash := @slash_not_mem_of_mem_splitSlash p.text.toList
  rw [components]
  cases hpieces : splitSlash p.text.toList with
  | nil => exact absurd hpieces (splitSlash_ne_nil _)
  | cons piece pieces =>
    rw [hpieces] at hslash
    have hrest : ∀ c ∈ pieces.filterMap Component.ofPiece?, c.IsPiece := by
      intro c hc
      obtain ⟨other, hother, hsaid⟩ := List.mem_filterMap.1 hc
      exact Component.isPiece_of_ofPiece? (hslash (List.mem_cons_of_mem piece hother)) hsaid
    cases piece with
    | nil =>
      have hne : pieces ≠ [] := by
        intro hnil
        rw [hnil] at hpieces
        exact hp (by simpa using eq_nil_of_splitSlash hpieces)
      exact ⟨_, _, by simp [hne], .root, hrest⟩
    | cons c s =>
      by_cases hhere : c :: s = ['.']
      · exact ⟨_, _, by simp [hhere], .here, hrest⟩
      · cases hsaid : Component.ofPiece? (c :: s) with
        | none =>
          rw [Component.ofPiece?, if_neg (by simp [hhere])] at hsaid
          split at hsaid <;> cases hsaid
        | some first =>
          have hfirst := Component.isPiece_of_ofPiece? (hslash List.mem_cons_self) hsaid
          exact ⟨_, _, by simp [hhere, hsaid], .piece hfirst, hrest⟩

/-- What some pieces say is written with some of them. -/
theorem map_text_filterMap_sublist (pieces : List (List Char)) :
    ((pieces.filterMap Component.ofPiece?).map (·.text.toList)).Sublist pieces := by
  induction pieces with
  | nil => exact .slnil
  | cons piece pieces ih =>
    cases hsaid : Component.ofPiece? piece with
    | none =>
      rw [List.filterMap_cons_none hsaid]
      exact ih.cons piece
    | some c =>
      rw [List.filterMap_cons_some hsaid, List.map_cons, Component.text_of_ofPiece? hsaid]
      exact ih.cons_cons piece

/-- So is what a path says. -/
theorem map_text_components_sublist (p : Path) :
    (p.components.map (·.text.toList)).Sublist (splitSlash p.text.toList) := by
  rw [components]
  cases splitSlash p.text.toList with
  | nil => exact .slnil
  | cons piece pieces =>
    have hrest := map_text_filterMap_sublist pieces
    cases piece with
    | nil =>
      by_cases hne : pieces = []
      · simp [hne]
      · simp only [hne, if_false]
        exact hrest.cons_cons []
    | cons c s =>
      by_cases hhere : c :: s = ['.']
      · simp only [hhere, if_true]
        exact hrest.cons_cons ['.']
      · have hall := map_text_filterMap_sublist ((c :: s) :: pieces)
        simp only [hhere, if_false]
        cases hsaid : Component.ofPiece? (c :: s) with
        | none => rwa [List.filterMap_cons_none hsaid] at hall
        | some first => rwa [List.filterMap_cons_some hsaid] at hall

/-! ## Writing down what is said -/

/-- Slashes part the texts of what is said, unless it is only the start of all files. -/
theorem toList_text_ofComponents {cs : List Component} (h : cs ≠ [.root]) :
    (ofComponents cs).text.toList = ['/'].intercalate (cs.map (·.text.toList)) := by
  rw [ofComponents]
  · simp [Function.comp_def]
  · exact h

/-- What is said is written piece by piece, unless it is only the start of all files. -/
theorem splitSlash_ofComponents {first : Component} {rest : List Component}
    (hfirst : first.CanStart) (hrest : ∀ c ∈ rest, c.IsPiece) (h : first :: rest ≠ [.root]) :
    splitSlash (ofComponents (first :: rest)).text.toList =
      (first :: rest).map (·.text.toList) := by
  have hslash : ∀ piece ∈ (first :: rest).map (·.text.toList), '/' ∉ piece := by
    rw [List.forall_mem_map, List.forall_mem_cons]
    exact ⟨hfirst.slash_not_mem, fun c hc => (hrest c hc).slash_not_mem⟩
  rw [toList_text_ofComponents h, splitSlash_intercalate (by simp) hslash]

/-- What can be said is said by what is written for it. -/
theorem components_ofComponents_cons {first : Component} {rest : List Component}
    (hfirst : first.CanStart) (hrest : ∀ c ∈ rest, c.IsPiece) :
    (ofComponents (first :: rest)).components = first :: rest := by
  by_cases h : first :: rest = [.root]
  · rw [h]
    decide
  · have hsaid := Component.filterMap_ofPiece?_text hrest
    rw [components, splitSlash_ofComponents hfirst hrest h, List.map_cons]
    cases hfirst with
    | root =>
      have hne : rest ≠ [] := fun hnil => h (by rw [hnil])
      have htext : Component.root.text.toList = [] := rfl
      simp [htext, hne, hsaid]
    | here =>
      have htext : Component.here.text.toList = ['.'] := rfl
      simp [htext, hsaid]
    | piece hpiece =>
      have hhere : first.text.toList ≠ ['.'] := by
        intro heq
        have hown := hpiece.ofPiece?
        rw [heq] at hown
        cases hown
      obtain ⟨c, s, htext⟩ := List.exists_cons_of_ne_nil hpiece.text_ne_nil
      have hown := hpiece.ofPiece?
      rw [htext] at hhere hown
      simp [htext, hhere, hown, hsaid]

/-- What a path says, written down again, says the same. -/
theorem alike_ofComponents (p : Path) : (ofComponents p.components).Alike p := by
  by_cases hp : p.text = ""
  · obtain ⟨text⟩ := p
    cases hp
    decide
  · obtain ⟨first, rest, hp, hfirst, hrest⟩ := exists_components_eq_cons hp
    rw [Alike, hp]
    exact components_ofComponents_cons hfirst hrest

/-- What is written for several things does not end in a slash. -/
theorem asksForDir_ofComponents {first : Component} {rest : List Component}
    (hfirst : first.CanStart) (hrest : ∀ c ∈ rest, c.IsPiece) (h : first :: rest ≠ [.root]) :
    (ofComponents (first :: rest)).asksForDir = false := by
  rw [← Bool.not_eq_true]
  intro hslash
  obtain ⟨s, hs⟩ := exists_toList_of_asksForDir hslash
  have hlast : ((first :: rest).map (·.text.toList)).getLast? = some [] := by
    rw [← splitSlash_ofComponents hfirst hrest h, hs, splitSlash_append_slash]
    simp [splitSlash]
  obtain rfl | ⟨around, c, rfl⟩ := List.eq_nil_or_concat rest
  · cases hfirst with
    | root => exact h rfl
    | here => cases hlast
    | piece hpiece => exact hpiece.text_ne_nil (Option.some.inj hlast)
  · rw [List.concat_eq_append, List.forall_mem_append] at hrest
    have hpiece := hrest.2 c List.mem_cons_self
    rw [List.concat_eq_append, ← List.cons_append, List.map_append, List.getLast?_append] at hlast
    exact hpiece.text_ne_nil (Option.some.inj hlast)

/-- One more name is written after a slash. -/
theorem ofComponents_append_name (hp : p.text ≠ "") (name : String) :
    ofComponents (p.components ++ [.name name]) = (ofComponents p.components).join ⟨name⟩ := by
  obtain ⟨first, rest, hp, hfirst, hrest⟩ := exists_components_eq_cons hp
  rw [hp]
  by_cases h : first :: rest = [.root]
  · rw [h]
    simp [ofComponents, join, asksForDir, Component.text]
  · have hslash := asksForDir_ofComponents hfirst hrest h
    have htext : (ofComponents (first :: rest)).text ≠ "" := by
      intro hempty
      have hsaid := components_ofComponents_cons hfirst hrest
      rw [components, hempty] at hsaid
      cases hsaid
    have hown : (ofComponents (first :: rest)).text =
        "/".intercalate ((first :: rest).map Component.text) := by
      rw [ofComponents]
      exact h
    rw [join, if_neg (by simp [htext, hslash]), hown, ofComponents, List.map_append,
      String.intercalate_append_of_ne_nil (by simp) (by simp)]
    · simp [Component.text]
    · simp

/-! ## Around a name -/

/-- Some folders, each in the next one, as they are written down. -/
def outward (cs : List Component) : List Path :=
  (List.range cs.length).map fun n => ofComponents (cs.take (cs.length - n))

/-- The innermost folder comes first. -/
theorem outward_append (cs : List Component) (c : Component) :
    outward (cs ++ [c]) = ofComponents (cs ++ [c]) :: outward cs := by
  rw [outward, List.length_append, List.length_singleton, List.range_succ_eq_map, List.map_cons,
    List.map_map]
  have hwhole : (cs ++ [c]).take (cs.length + 1) = cs ++ [c] := List.take_of_length_le (by simp)
  have hpart (n : Nat) : (cs ++ [c]).take (cs.length + 1 - (n + 1)) = cs.take (cs.length - n) := by
    rw [List.take_append_of_le_length (by omega), Nat.add_sub_add_right]
  simp only [Nat.sub_zero, hwhole, Function.comp_def, Nat.succ_eq_add_one, hpart, outward]

/-- The innermost folder of a path is the path itself, as it is written down. -/
theorem exists_outward_components (hp : p.text ≠ "") :
    ∃ around, outward p.components = ofComponents p.components :: around := by
  obtain ⟨first, rest, hp, -⟩ := exists_components_eq_cons hp
  rw [hp]
  obtain hrest | ⟨cs, c, hrest⟩ := List.eq_nil_or_concat (first :: rest)
  · cases hrest
  · rw [hrest, List.concat_eq_append, outward_append]
    exact ⟨_, rfl⟩

/-- Around a name in a folder are the folder and what is around it. -/
theorem ancestors_join_name (hp : p.text ≠ "") {name : String} (h : IsName name) :
    (p.join ⟨name⟩).ancestors = p.join ⟨name⟩ :: outward p.components := by
  simp [ancestors, components_join_name hp h, outward]

/-- So it is where the name and its folder are written down. -/
theorem outward_join_name (hp : p.text ≠ "") {name : String} (h : IsName name) :
    outward (p.join ⟨name⟩).components =
      (ofComponents p.components).join ⟨name⟩ :: outward p.components := by
  rw [components_join_name hp h, outward_append, ofComponents_append_name hp]

/-! ## Ways -/

namespace Component

/-- The step that a component takes, if it takes any. -/
def step? : Component → Option Step
  | root => none
  | here => none
  | up => some .up
  | name text => some (.name text)

/-- A piece takes the step that it says, but for staying. -/
theorem step?_ofPiece? (piece : List Char) :
    (Component.ofPiece? piece).bind step? = (Step.ofPiece? piece).filter (· ≠ .here) := by
  by_cases hnil : piece = []
  · rw [hnil]
    rfl
  · by_cases hhere : piece = ['.']
    · rw [hhere]
      rfl
    · by_cases hup : piece = ['.', '.']
      · rw [hup]
        rfl
      · simp [Component.ofPiece?, Step.ofPiece?, hnil, hhere, hup, step?, Option.filter]

end Component

/-- What some pieces say are their steps, but for staying. -/
theorem filterMap_step?_ofPiece? (pieces : List (List Char)) :
    (pieces.filterMap Component.ofPiece?).filterMap Component.step? =
      (pieces.filterMap Step.ofPiece?).filter (· ≠ .here) := by
  rw [List.filterMap_filterMap, List.filter_filterMap]
  simp only [Component.step?_ofPiece?]

/-- What a path says are its steps, but for staying. -/
theorem filterMap_step?_components (p : Path) :
    p.components.filterMap Component.step? = p.steps.filter (· ≠ .here) := by
  rw [components, steps]
  cases splitSlash p.text.toList with
  | nil => rfl
  | cons piece pieces =>
    have hpieces := filterMap_step?_ofPiece? (piece :: pieces)
    cases piece with
    | nil =>
      have hroot :
          (if pieces = [] then [] else [Component.root]).filterMap Component.step? = [] := by
        split <;> rfl
      rw [List.filterMap_append, hroot]
      exact hpieces
    | cons c s =>
      by_cases hhere : c :: s = ['.']
      · rw [hhere] at hpieces ⊢
        exact hpieces
      · simp only [hhere, if_false]
        cases hsaid : Component.ofPiece? (c :: s) with
        | none =>
          rw [List.filterMap_cons_none hsaid] at hpieces
          exact hpieces
        | some first =>
          rw [List.filterMap_cons_some hsaid] at hpieces
          exact hpieces

/-- A path starts at the top of all files exactly if it says so first. -/
theorem isAbsolute_iff : p.isAbsolute = true ↔ p.components.head? = some .root := by
  rw [isAbsolute, decide_eq_true_iff, components]
  cases htext : p.text.toList with
  | nil => decide
  | cons c s =>
    by_cases hc : c = '/'
    · simp [splitSlash, hc, splitSlash_ne_nil]
    · -- then the first piece has a character, and says something else
      obtain ⟨piece, pieces, hpieces⟩ :
          ∃ piece pieces, splitSlash (c :: s) = (c :: piece) :: pieces := by
        rw [splitSlash, if_neg hc]
        split <;> exact ⟨_, _, rfl⟩
      rw [hpieces]
      by_cases hhere : c :: piece = ['.']
      · simp [hc, hhere]
      · by_cases hup : c :: piece = ['.', '.']
        · simp [hc, hup, Component.ofPiece?]
        · simp [hc, hhere, hup, Component.ofPiece?]

/-- What a path says is written with some of its characters. -/
theorem toList_text_ofComponents_sublist (p : Path) :
    (ofComponents p.components).text.toList.Sublist p.text.toList := by
  by_cases hroot : p.components = [.root]
  · have habsolute : p.text.toList.head? = some '/' := by
      simpa [isAbsolute, hroot] using @isAbsolute_iff p
    rw [hroot]
    exact List.singleton_sublist.2 (List.mem_of_mem_head? habsolute)
  · have hpieces := intercalate_sublist p.map_text_components_sublist
    rwa [← toList_text_ofComponents hroot, intercalate_splitSlash] at hpieces

end Path

namespace FileTree

variable {t u : FileTree} {p q : Path} {place : Address}

/-- If a path can be followed, so it can as it is written down again. -/
theorem pathFault?_ofComponents (h : pathFault? p = none) :
    pathFault? (Path.ofComponents p.components) = none := by
  obtain ⟨hzero, htext, hsize⟩ := pathFault?_eq_none_iff.1 h
  have hsub := p.toList_text_ofComponents_sublist
  have hne : (Path.ofComponents p.components).text ≠ "" := by
    intro hempty
    obtain ⟨first, rest, hcomponents, -⟩ := Path.exists_components_eq_cons htext
    have halike := Path.alike_ofComponents p
    rw [Path.Alike, Path.components, hempty, hcomponents] at halike
    cases halike
  exact pathFault?_eq_none_iff.2 ⟨fun hmem => hzero (hsub.subset hmem), hne,
    Nat.le_trans (utf8ByteSize_le_of_sublist hsub) hsize⟩

/-! ## Directories at the end of a way -/

/-- Whether the way of a path ends at a directory, even if the path itself is too long to
be followed. -/
def EndsAt (t : FileTree) (p : Path) (place : Address) : Prop :=
  t.walk (t.startOf p) (p.steps ++ [.here]) = .ok place

/-- A way that ended at a directory still does. -/
theorem KeepsDirs.endsAt (h : u.KeepsDirs t) (hp : t.EndsAt p place) : u.EndsAt p place := by
  rw [EndsAt, h.startOf]
  exact h.walk hp

/-- Staying before another step makes no difference. -/
theorem walk_here_cons (step : Path.Step) (steps : List Path.Step) :
    t.walk place (.here :: step :: steps) = t.walk place (step :: steps) := by
  rw [walk, walk]
  cases h : t.lookup place with
  | none => rfl
  | some entry =>
    cases entry with
    | file bytes => rfl
    | dir => simp [follow, walk, h]

/-- On the way to a directory all staying can be left out. -/
theorem walk_filter (steps : List Path.Step) :
    t.walk place (steps.filter (· ≠ .here) ++ [.here]) = t.walk place (steps ++ [.here]) := by
  induction steps generalizing place with
  | nil => rfl
  | cons step steps ih =>
    by_cases hstep : step = .here
    · obtain ⟨next, more, hmore⟩ : ∃ next more, steps ++ [.here] = next :: more :=
        List.exists_cons_of_ne_nil (by simp)
      rw [List.filter_cons_of_neg (by simp [hstep]), ih, hstep, List.cons_append, hmore,
        walk_here_cons]
    · rw [List.filter_cons_of_pos (by simp [hstep]), List.cons_append, List.cons_append, walk, walk]
      simp only [ih]

/-- Paths that say the same lead to the same directory. -/
theorem endsAt_congr_of_alike (h : p.Alike q) : t.EndsAt p place ↔ t.EndsAt q place := by
  have hstart : t.startOf p = t.startOf q := by
    rw [startOf, startOf]
    simp only [Path.isAbsolute_iff, Path.Alike] at h ⊢
    rw [h]
  rw [EndsAt, EndsAt, ← walk_filter p.steps, ← walk_filter q.steps,
    ← Path.filterMap_step?_components, ← Path.filterMap_step?_components, hstart, h]

end FileTree

end ZonePack

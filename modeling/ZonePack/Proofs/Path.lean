import ZonePack.Path

/-!
# ZonePack.Proofs.Path

How joining acts on the two views of a path.  The pieces of two texts with a
slash between them are the pieces of each (`splitSlash_append_slash`), so
joining appends the way that a path leads (`steps_join`), and a name inside a
folder says one thing more than the folder (`components_join_name`).  Texts are
measured in bytes, character by character (`utf8ByteSize_ofList_cons`).
-/

namespace ZonePack

/-! ## Lengths -/

/-- A text has the bytes of its first character and of all others. -/
theorem utf8ByteSize_ofList_cons (c : Char) (s : List Char) :
    (String.ofList (c :: s)).utf8ByteSize = c.utf8Size + (String.ofList s).utf8ByteSize := by
  rw [String.ofList_cons, String.utf8ByteSize_append, String.utf8ByteSize_singleton]

theorem utf8ByteSize_ofList_le_of_sublist {s t : List Char} (h : s.Sublist t) :
    (String.ofList s).utf8ByteSize ≤ (String.ofList t).utf8ByteSize := by
  induction h with
  | slnil => exact Nat.le_refl _
  | cons c _ ih =>
    rw [utf8ByteSize_ofList_cons]
    exact Nat.le_add_left_of_le ih
  | cons_cons c _ ih =>
    rw [utf8ByteSize_ofList_cons, utf8ByteSize_ofList_cons]
    exact Nat.add_le_add_left ih c.utf8Size

/-- A text with fewer characters has fewer bytes. -/
theorem utf8ByteSize_le_of_sublist {s t : String} (h : s.toList.Sublist t.toList) :
    s.utf8ByteSize ≤ t.utf8ByteSize := by
  have hbytes := utf8ByteSize_ofList_le_of_sublist h
  rwa [String.ofList_toList, String.ofList_toList] at hbytes

namespace Path

/-! ## Pieces -/

/-- A slash parts the pieces before it from those after it. -/
theorem splitSlash_append_slash (s t : List Char) :
    splitSlash (s ++ '/' :: t) = splitSlash s ++ splitSlash t := by
  induction s with
  | nil => simp [splitSlash]
  | cons c s ih =>
    by_cases hc : c = '/'
    · simp [splitSlash, hc, ih]
    · -- the character joins the first piece, which both sides have
      cases hs : splitSlash s with
      | nil => exact absurd hs (splitSlash_ne_nil s)
      | cons piece pieces => simp [splitSlash, hc, ih, hs]

/-- A text without a slash is one piece. -/
theorem splitSlash_of_not_mem {s : List Char} (h : '/' ∉ s) : splitSlash s = [s] := by
  induction s with
  | nil => rfl
  | cons c s ih =>
    simp only [List.mem_cons, not_or] at h
    rw [splitSlash, if_neg (Ne.symm h.1), ih h.2]

/-- Only the empty text is one empty piece. -/
theorem eq_nil_of_splitSlash {s : List Char} (h : splitSlash s = [[]]) : s = [] := by
  cases s with
  | nil => rfl
  | cons c s =>
    by_cases hc : c = '/'
    · simp [splitSlash, hc, splitSlash_ne_nil] at h
    · cases hs : splitSlash s with
      | nil => exact absurd hs (splitSlash_ne_nil s)
      | cons piece pieces => simp [splitSlash, hc, hs] at h

/-- An empty piece says nothing. -/
@[simp] theorem Component.ofPiece?_nil : Component.ofPiece? [] = none := rfl

/-- An empty piece leads nowhere. -/
@[simp] theorem Step.ofPiece?_nil : Step.ofPiece? [] = none := rfl

/-! ## Joined texts -/

/-- A path that asks for a directory is some text and a slash. -/
theorem exists_toList_of_asksForDir {p : Path} (h : p.asksForDir) :
    ∃ s, p.text.toList = s ++ ['/'] := by
  have hlast : p.text.toList.getLast? = some '/' := by simpa [asksForDir] using h
  exact List.getLast?_eq_some_iff.1 hlast

/-- A path that says something and a relative path are joined by one slash. -/
theorem exists_toList_join {p : Path} (hp : p.text ≠ "") (q : Path) :
    ∃ s, (p.text.toList = s ∨ p.text.toList = s ++ ['/']) ∧
      (p.join q).text.toList = s ++ '/' :: q.text.toList := by
  by_cases hd : p.asksForDir
  · obtain ⟨s, hs⟩ := exists_toList_of_asksForDir hd
    exact ⟨s, .inr hs, by simp [join, hd, hs]⟩
  · exact ⟨p.text.toList, .inl rfl, by simp [join, hp, hd]⟩

/-- What stands between a folder and what is in it. -/
def separator (p : Path) : String := if p.asksForDir then "" else "/"

/-- Joining writes one text after the other, with one slash between them. -/
theorem text_join {p : Path} (hp : p.text ≠ "") (q : Path) :
    (p.join q).text = p.text ++ (p.separator ++ q.text) := by
  by_cases hd : p.asksForDir
  · simp [join, separator, hd]
  · simp [join, separator, hd, hp, String.append_assoc]

/-- In the folder of the empty path, every path is what it is. -/
theorem join_of_text_eq_empty {p : Path} (hp : p.text = "") (q : Path) : p.join q = q := by
  simp [join, hp]

/-- A path in a folder that says something says something. -/
theorem text_join_ne_empty {p : Path} (hp : p.text ≠ "") (q : Path) : (p.join q).text ≠ "" := by
  rw [text_join hp]
  simp [hp]

/-- A joined path asks for a directory if what it ends in does. -/
theorem asksForDir_join {p q : Path} (hp : p.text ≠ "") (hq : q.text ≠ "") :
    (p.join q).asksForDir = q.asksForDir := by
  obtain ⟨c, s, hs⟩ : ∃ c s, q.text.toList = c :: s :=
    List.exists_cons_of_ne_nil (by simpa using hq)
  rw [asksForDir, text_join hp]
  simp [asksForDir, hs]

/-- A path that says something says something in every folder. -/
theorem text_join_ne_empty_of_right {q : Path} (hq : q.text ≠ "") (p : Path) :
    (p.join q).text ≠ "" := by
  by_cases hp : p.text = ""
  · rw [join_of_text_eq_empty hp]
    exact hq
  · exact text_join_ne_empty hp q

/-- What is in a folder of a folder is in the two of them together. -/
theorem join_join {q : Path} (hq : q.text ≠ "") (p r : Path) :
    p.join (q.join r) = (p.join q).join r := by
  by_cases hp : p.text = ""
  · rw [join_of_text_eq_empty hp, join_of_text_eq_empty hp]
  have hsep : (p.join q).separator = q.separator := by
    rw [separator, separator, asksForDir_join hp hq]
  have htext : (p.join (q.join r)).text = ((p.join q).join r).text := by
    rw [text_join hp, text_join hq, text_join (text_join_ne_empty hp q), text_join hp, hsep]
    simp only [String.append_assoc]
  exact congrArg Path.mk htext

/-- Joining leaves the start of a path alone. -/
theorem isAbsolute_join {p : Path} (hp : p.text ≠ "") (q : Path) :
    (p.join q).isAbsolute = p.isAbsolute := by
  obtain ⟨c, s, hs⟩ : ∃ c s, p.text.toList = c :: s :=
    List.exists_cons_of_ne_nil (by simpa using hp)
  rw [isAbsolute, text_join hp]
  simp [isAbsolute, hs]

/-! ## Steps -/

/-- A joined path leads through the folder and on from there. -/
theorem steps_join (p q : Path) : (p.join q).steps = p.steps ++ q.steps := by
  by_cases hp : p.text = ""
  · simp [steps, join, hp, splitSlash]
  · obtain ⟨s, hs, hj⟩ := exists_toList_join hp q
    rw [steps, hj, splitSlash_append_slash, List.filterMap_append]
    obtain hs | hs := hs
    · rw [steps, steps, hs]
    · rw [steps, steps, hs, splitSlash_append_slash, List.filterMap_append]
      simp [splitSlash]

/-! ## Components -/

/-- Whether a text is the name of something in a folder. -/
structure IsName (name : String) : Prop where
  slash_not_mem : '/' ∉ name.toList
  ne_empty : name ≠ ""
  ne_here : name ≠ "."
  ne_up : name ≠ ".."

/-- A text of three characters or more is a name unless it holds a slash. -/
theorem isName_of_length {name : String} (h : '/' ∉ name.toList)
    (hlength : 2 < name.toList.length) : IsName name where
  slash_not_mem := h
  ne_empty := by
    intro heq
    subst heq
    exact absurd hlength (by decide)
  ne_here := by
    intro heq
    subst heq
    exact absurd hlength (by decide)
  ne_up := by
    intro heq
    subst heq
    exact absurd hlength (by decide)

/-- A name says itself. -/
theorem IsName.ofPiece? {name : String} (h : IsName name) :
    Component.ofPiece? name.toList = some (.name name) := by
  have hne : name.toList ≠ [] := by simpa using h.ne_empty
  have hhere : name.toList ≠ ['.'] := fun hn => h.ne_here (String.toList_inj.1 hn)
  have hup : name.toList ≠ ['.', '.'] := fun hn => h.ne_up (String.toList_inj.1 hn)
  simp [Component.ofPiece?, hne, hhere, hup]

/-- A name is one component. -/
theorem IsName.components {name : String} (h : IsName name) :
    (Path.mk name).components = [.name name] := by
  have hne : name.toList ≠ [] := by simpa using h.ne_empty
  have hhere : name.toList ≠ ['.'] := fun hn => h.ne_here (String.toList_inj.1 hn)
  rw [Path.components, splitSlash_of_not_mem h.slash_not_mem]
  cases hs : name.toList with
  | nil => exact absurd hs hne
  | cons c s => simp [← hs, hhere, h.ofPiece?]

/-- A name is one step. -/
theorem IsName.steps {name : String} (h : IsName name) :
    (Path.mk name).steps = [.name name] := by
  have hne : name.toList ≠ [] := by simpa using h.ne_empty
  have hhere : name.toList ≠ ['.'] := fun hn => h.ne_here (String.toList_inj.1 hn)
  have hup : name.toList ≠ ['.', '.'] := fun hn => h.ne_up (String.toList_inj.1 hn)
  simp [Path.steps, splitSlash_of_not_mem h.slash_not_mem, Step.ofPiece?, hne, hhere, hup]

/-- A name in a folder does not ask for a directory. -/
theorem IsName.asksForDir_join {name : String} (h : IsName name) {p : Path} (hp : p.text ≠ "") :
    (p.join ⟨name⟩).asksForDir = false := by
  rw [Path.asksForDir_join hp h.ne_empty, asksForDir, decide_eq_false_iff_not]
  intro hlast
  exact h.slash_not_mem (List.mem_of_getLast? hlast)

/-- What stands after a slash adds its own pieces to what is said. -/
theorem components_append_slash {s : List Char} (hs : s ≠ []) (t : List Char) :
    (Path.mk (String.ofList (s ++ '/' :: t))).components =
      (Path.mk (String.ofList s)).components ++ (splitSlash t).filterMap Component.ofPiece? := by
  simp only [components, String.toList_ofList, splitSlash_append_slash s t]
  cases hpieces : splitSlash s with
  | nil => exact absurd hpieces (splitSlash_ne_nil s)
  | cons first rest =>
    cases first with
    | nil =>
      -- a text that starts with a slash has pieces after its first one
      have hrest : rest ≠ [] := by
        intro heq
        subst heq
        exact hs (eq_nil_of_splitSlash hpieces)
      simp [hrest]
    | cons c first => simp

/-- A name in a folder says one thing more than the folder. -/
theorem components_join_name {p : Path} (hp : p.text ≠ "") {name : String} (h : IsName name) :
    (p.join ⟨name⟩).components = p.components ++ [.name name] := by
  obtain ⟨s, hs, hj⟩ := exists_toList_join hp ⟨name⟩
  have hjoin : p.join ⟨name⟩ = ⟨String.ofList (s ++ '/' :: name.toList)⟩ := by
    rw [← hj, String.ofList_toList]
  have hfolder : p = ⟨String.ofList p.text.toList⟩ := by rw [String.ofList_toList]
  have hpiece : (splitSlash name.toList).filterMap Component.ofPiece? = [.name name] := by
    simp [splitSlash_of_not_mem h.slash_not_mem, h.ofPiece?]
  rw [hjoin, hfolder]
  obtain hs | hs := hs
  · have hne : s ≠ [] := by simpa [← hs] using hp
    rw [components_append_slash hne, hs, hpiece]
  · rw [hs]
    by_cases hne : s = []
    · subst hne
      simp [components, splitSlash, splitSlash_ne_nil, hpiece]
    · rw [components_append_slash hne, components_append_slash hne, hpiece]
      simp [splitSlash]

end Path

end ZonePack

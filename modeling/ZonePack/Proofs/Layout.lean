import ZonePack.Layout
import ZonePack.Proofs.Path

/-!
# ZonePack.Proofs.Layout

Where the files of a pack are.  Predicates and functions have a folder each, and
a name without a slash stands directly in its folder.  So two files are at paths
that say the same exactly if they are of one kind and have one name.
-/

namespace ZonePack

namespace Layout

/-! ## File names -/

/-- A name without a slash and an ending of three characters or more make a file name. -/
theorem isName_append {name ending : String} (h : '/' ∉ name.toList)
    (hslash : '/' ∉ ending.toList) (hlength : 2 < ending.toList.length) :
    Path.IsName (name ++ ending) := by
  apply Path.isName_of_length
  · simp [h, hslash]
  · rw [String.toList_append, List.length_append]
    omega

theorem isName_predicate {name : String} (h : '/' ∉ name.toList) :
    Path.IsName (name ++ ".json") :=
  isName_append h (by decide) (by decide)

theorem isName_script {name : String} (h : '/' ∉ name.toList) :
    Path.IsName (name ++ ".mcfunction") :=
  isName_append h (by decide) (by decide)

/-! ## Paths that say the same -/

theorem components_predicateFile {name : String} (h : '/' ∉ name.toList) :
    (predicateFile name).components =
      [.name "data", .name "softborder", .name "predicates", .name (name ++ ".json")] := by
  rw [predicateFile, Path.components_join_name (by decide) (isName_predicate h)]
  rfl

theorem components_scriptFile {name : String} (h : '/' ∉ name.toList) :
    (scriptFile name).components =
      [.name "data", .name "softborder", .name "functions", .name "private", .name "gen",
        .name (name ++ ".mcfunction")] := by
  rw [scriptFile, Path.components_join_name (by decide) (isName_script h)]
  rfl

/-- Predicates are at one place exactly if they have one name. -/
theorem predicateFile_alike_iff {a b : String} (ha : '/' ∉ a.toList) (hb : '/' ∉ b.toList) :
    (predicateFile a).Alike (predicateFile b) ↔ a = b := by
  rw [Path.Alike, components_predicateFile ha, components_predicateFile hb]
  simp

/-- Functions are at one place exactly if they have one name. -/
theorem scriptFile_alike_iff {a b : String} (ha : '/' ∉ a.toList) (hb : '/' ∉ b.toList) :
    (scriptFile a).Alike (scriptFile b) ↔ a = b := by
  rw [Path.Alike, components_scriptFile ha, components_scriptFile hb]
  simp

/-- No predicate is at the place of a function. -/
theorem not_predicateFile_alike_scriptFile {a b : String} (ha : '/' ∉ a.toList)
    (hb : '/' ∉ b.toList) : ¬ (predicateFile a).Alike (scriptFile b) := by
  rw [Path.Alike, components_predicateFile ha, components_scriptFile hb]
  simp

/-! ## Equal paths -/

theorem text_predicateFile (name : String) :
    (predicateFile name).text = predicateFolder.text ++ "/" ++ (name ++ ".json") := by
  rw [predicateFile, Path.join, if_neg (by decide)]

theorem text_scriptFile (name : String) :
    (scriptFile name).text = scriptFolder.text ++ "/" ++ (name ++ ".mcfunction") := by
  rw [scriptFile, Path.join, if_neg (by decide)]

/-- The path of a predicate is written with its name. -/
@[simp] theorem predicateFile_inj {a b : String} : predicateFile a = predicateFile b ↔ a = b := by
  constructor
  · intro h
    have ht := congrArg (·.text.toList) h
    simp only [text_predicateFile, String.toList_append, List.append_cancel_left_eq,
      List.append_cancel_right_eq] at ht
    exact String.toList_inj.1 ht
  · exact congrArg predicateFile

/-- The path of a function is not written as that of a predicate. -/
theorem scriptFile_ne_predicateFile (a b : String) : scriptFile a ≠ predicateFile b := by
  intro h
  have ht := congrArg (·.text.toList.take 17) h
  have hscript : scriptFolder.text.toList.take 17 = "data/softborder/f".toList := by decide
  have hpredicate : predicateFolder.text.toList.take 17 = "data/softborder/p".toList := by decide
  simp only [text_scriptFile, text_predicateFile, String.toList_append, List.append_assoc] at ht
  rw [List.take_append_of_le_length (by decide), List.take_append_of_le_length (by decide),
    hscript, hpredicate] at ht
  exact absurd ht (by decide)

end Layout

end ZonePack

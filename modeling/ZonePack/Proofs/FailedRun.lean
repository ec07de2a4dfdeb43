import ZonePack.Proofs.Run

/-!
# ZonePack.Proofs.FailedRun

Runs that come to nothing.  Everything is read and checked before the first folder is
made, so only a failure of writing itself can leave something behind.

* `Authored.exists_normalize_eq_error_iff` — a plan is refused exactly if one of its zones
  has neither bound, wherever it stands;
* `FileTree.exists_load_eq_error_iff` — the ways in which a plan cannot be had
  (`Unloadable`);
* `CommandLine.run_comes_to_nothing` — a run that fails otherwise than by writing leaves
  the tree as it was, and the reasons for that (`Hindrance`) always have this effect.
-/

namespace ZonePack

/-! ## Plans that are refused -/

namespace Authored

/-- Whether a zone has neither bound. -/
def Zone.IsUnbounded (z : Zone) : Prop := z.min = none ∧ z.max = none

theorem Zone.normalize?_eq_none_iff (axis : Axis) {z : Zone} :
    z.normalize? axis = none ↔ z.IsUnbounded := by
  rw [Zone.normalize?, Option.map_eq_none_iff, Bounds.ofSides?_eq_none_iff, Zone.IsUnbounded]

/-- A list of zones is refused exactly if one of them has no bounds. -/
theorem exists_normalizeZones_eq_error_iff (axis : Axis) (index : Nat) {zones : List Zone} :
    (∃ e, normalizeZones axis index zones = .error e) ↔ ∃ z ∈ zones, z.IsUnbounded := by
  induction zones generalizing index with
  | nil => simp [normalizeZones]
  | cons z zones ih =>
    simp only [List.mem_cons, exists_eq_or_imp]
    rw [normalizeZones, ← Zone.normalize?_eq_none_iff axis, ← ih (index + 1)]
    cases z.normalize? axis with
    | none => simp
    | some zone => cases normalizeZones axis (index + 1) zones <;> simp [Except.map]

/-- A plan is refused exactly if a zone of one of its lists has no bounds. -/
theorem exists_normalize_eq_error_iff {a : Authored} :
    (∃ e, a.normalize = .error e) ↔ ∃ z ∈ a.distanceZones ++ a.insanityZones, z.IsUnbounded := by
  simp only [List.mem_append, or_and_right, exists_or]
  rw [← exists_normalizeZones_eq_error_iff .distance 0,
    ← exists_normalizeZones_eq_error_iff .insanity 0, normalize]
  cases normalizeZones .distance 0 a.distanceZones <;>
    cases normalizeZones .insanity 0 a.insanityZones <;> simp [bind, Except.bind, pure, Except.pure]

end Authored

/-! ## Plans that cannot be had -/

/-- Why no plan is found at a path. -/
inductive Unloadable (t : FileTree) (path : Path) : Prop where
  | unreadable {e : FileError} : t.read path = .error e → Unloadable t path
  | notText {bytes : ByteArray} :
    t.read path = .ok bytes → String.fromUTF8? bytes = none → Unloadable t path
  /-- The text is no JSON, or not that of a plan. -/
  | malformed {bytes : ByteArray} {text : String} {fault : Json.Fault} :
    t.read path = .ok bytes → String.fromUTF8? bytes = some text →
    Authored.ofDocument text = .error fault → Unloadable t path
  | unbounded {bytes : ByteArray} {text : String} {a : Authored} {z : Authored.Zone} :
    t.read path = .ok bytes → String.fromUTF8? bytes = some text →
    Authored.ofDocument text = .ok a → z ∈ a.distanceZones ++ a.insanityZones →
    z.IsUnbounded → Unloadable t path

/-- There are no other reasons. -/
theorem FileTree.exists_load_eq_error_iff {t : FileTree} {path : Path} :
    (∃ e, t.load path = .error e) ↔ Unloadable t path := by
  rw [load]
  constructor
  · intro h
    cases hread : t.read path with
    | error e => exact .unreadable hread
    | ok bytes =>
      cases htext : String.fromUTF8? bytes with
      | none => exact .notText hread htext
      | some text =>
        cases hdocument : Authored.ofDocument text with
        | error fault => exact .malformed hread htext hdocument
        | ok a =>
          have hrefused : ∃ e, a.normalize = .error e := by
            cases hnormal : a.normalize with
            | error e => exact ⟨e, rfl⟩
            | ok c => simp [hread, htext, Config.ofDocument, hdocument, hnormal] at h
          obtain ⟨z, hz, hunbounded⟩ := Authored.exists_normalize_eq_error_iff.1 hrefused
          exact .unbounded hread htext hdocument hz hunbounded
  · intro h
    cases h with
    | unreadable hread => simp [hread]
    | notText hread htext => simp [hread, htext]
    | malformed hread htext hdocument =>
      simp [hread, htext, Config.ofDocument, hdocument]
    | unbounded hread htext hdocument hz hunbounded =>
      obtain ⟨e, he⟩ := Authored.exists_normalize_eq_error_iff.2 ⟨_, hz, hunbounded⟩
      simp [hread, htext, Config.ofDocument, hdocument, he]

namespace CommandLine

open FileTree
open Json (eq_ok_of_toOption)

/-! ## Runs -/

/-- Why a run comes to nothing, and its exit code then. -/
inductive Hindrance (t : FileTree) (arguments : List String) : Nat → Prop where
  | misused : takeArguments .initial arguments = .error .misused → Hindrance t arguments 2
  | issue {o : Options} {issue : Issue} : takeArguments .initial arguments = .ok o →
    issue ∈ t.issues o.configPath o.outputPath o.force → Hindrance t arguments 1
  | unloadable {o : Options} : takeArguments .initial arguments = .ok o →
    Unloadable t o.configPath → Hindrance t arguments 1

variable {t : FileTree} {arguments : List String}

/-- Arguments that ask for no run, or for none that there is, leave the tree alone. -/
theorem run_of_error {stop : Stop} (h : takeArguments .initial arguments = .error stop) :
    t.run (run arguments) = (⟨[], .stopped stop⟩, t) := by
  rw [run, h]
  rfl

theorem generation_of_ok {o : Options} (h : takeArguments .initial arguments = .ok o) :
    Generation o.configPath o.outputPath o.force t (t.run (run arguments)).1
      (t.run (run arguments)).2 := by
  rw [run, h]
  exact generation_run t o.configPath o.outputPath o.force

section

variable {config output : Path} {force : Bool} {outcome : Outcome} {u : FileTree}

/-- A reason not to start, or a plan that cannot be had, keeps a run from writing. -/
theorem Generation.unchanged (h : Generation config output force t outcome u)
    (hreason : t.issues config output force ≠ [] ∨ Unloadable t config) :
    outcome.exitCode = 1 ∧ u = t := by
  rw [← exists_load_eq_error_iff] at hreason
  cases h with
  | refused => exact ⟨rfl, rfl⟩
  | unplanned => exact ⟨rfl, rfl⟩
  | unwritten start plan => simp [start, plan] at hreason
  | written start plan => simp [start, plan] at hreason

/-- Nothing else does, but for writing itself. -/
theorem Generation.exists_reason (h : Generation config output force t outcome u)
    (hcode : outcome.exitCode ≠ 0) :
    (t.issues config output force ≠ [] ∨ Unloadable t config) ∨
      ∃ e, outcome.ending = .failed (.write e) := by
  cases h with
  | refused found some_found => exact .inl (.inl (found ▸ some_found))
  | @unplanned e start plan => exact .inl (.inr (exists_load_eq_error_iff.1 ⟨e, plan⟩))
  | @unwritten c e => exact .inr ⟨e, rfl⟩
  | written => exact absurd rfl hcode

end

/-- What hinders a run shows in its exit code and nowhere else. -/
theorem Hindrance.exitCode_eq {code : Nat} (h : Hindrance t arguments code) :
    (t.run (run arguments)).1.exitCode = code ∧ (t.run (run arguments)).2 = t := by
  cases h with
  | misused h =>
    rw [run_of_error h]
    exact ⟨rfl, rfl⟩
  | issue h hissue => exact (generation_of_ok h).unchanged (.inl (List.ne_nil_of_mem hissue))
  | unloadable h hload => exact (generation_of_ok h).unchanged (.inr hload)

/-- A run that fails has been hindered, or could not write. -/
theorem exists_hindrance (hcode : (t.run (run arguments)).1.exitCode ≠ 0) :
    (∃ code, Hindrance t arguments code) ∨
      ∃ e, (t.run (run arguments)).1.ending = .failed (.write e) := by
  cases hoptions : takeArguments .initial arguments with
  | error stop =>
    rw [run_of_error hoptions] at hcode
    cases stop with
    | misused => exact .inl ⟨2, .misused hoptions⟩
    | help | version => exact absurd rfl hcode
  | ok o =>
    obtain (hissues | hload) | hwrite := (generation_of_ok hoptions).exists_reason hcode
    · obtain ⟨issue, hissue⟩ := List.exists_mem_of_ne_nil _ hissues
      exact .inl ⟨1, .issue hoptions hissue⟩
    · exact .inl ⟨1, .unloadable hoptions hload⟩
    · exact .inr hwrite

theorem Outcome.exitCode_cases (o : Outcome) :
    o.exitCode = 0 ∨ o.exitCode = 1 ∨ o.exitCode = 2 := by
  unfold Outcome.exitCode
  split <;> simp

/-- A run that fails otherwise than by writing leaves the tree as it was: nothing is made
or changed, with or without overwriting.  So arguments that cannot be read, issues, and a
plan that cannot be had, be it for a single zone without bounds, all leave it alone. -/
theorem run_comes_to_nothing (t : FileTree) (arguments : List String) :
    ((t.run (run arguments)).1.exitCode = 0 ∨ (t.run (run arguments)).1.exitCode = 1 ∨
      (t.run (run arguments)).1.exitCode = 2) ∧
    ((t.run (run arguments)).1.exitCode ≠ 0 →
      (t.run (run arguments)).2 = t ∧ Hindrance t arguments (t.run (run arguments)).1.exitCode ∨
        ∃ e, (t.run (run arguments)).1.ending = .failed (.write e)) ∧
    ∀ code, Hindrance t arguments code →
      (t.run (run arguments)).1.exitCode = code ∧ (t.run (run arguments)).2 = t := by
  refine ⟨Outcome.exitCode_cases _, fun hcode => ?_, fun code h => h.exitCode_eq⟩
  obtain ⟨code, h⟩ | hwrite := exists_hindrance hcode
  · obtain ⟨hexit, htree⟩ := h.exitCode_eq
    exact .inl ⟨htree, hexit ▸ h⟩
  · exact .inr hwrite

/-- A zone without bounds in the last list of a plan is enough, here at an absolute path,
and so is an option that there is not. -/
theorem run_comes_to_nothing_on_last_zone :
    let plan :=
      "\x7b\"distanceZones\":[\x7b\"minDistance\":1,\"effect\":\x7b\"id\":\"a\"\x7d\x7d]," ++
      "\"insanityZones\":[\x7b\"effect\":\x7b\"id\":\"b\"\x7d\x7d]\x7d"
    let t := FileTree.empty.put "plan.json" [] (.file plan.toUTF8) (lookup_nil _) (by simp [empty])
    ((t.run (run ["-fc", "/plan.json"])).1.exitCode = 1 ∧
      (t.run (run ["-fc", "/plan.json"])).2 = t) ∧
      (t.run (run ["--all"])).1.exitCode = 2 ∧ (t.run (run ["--all"])).2 = t := by
  intro plan t
  have hoptions : takeArguments .initial ["-fc", "/plan.json"] =
      .ok ⟨some ⟨"/plan.json"⟩, none, true⟩ := eq_ok_of_toOption (by decide +kernel)
  have hread : t.read ⟨"/plan.json"⟩ = .ok plan.toUTF8 := eq_ok_of_toOption (by decide +kernel)
  have hdocument : Authored.ofDocument plan = .ok ⟨[], [⟨some 1, none, ⟨"a", none, none⟩⟩],
      [⟨none, none, ⟨"b", none, none⟩⟩]⟩ := eq_ok_of_toOption (by decide +kernel)
  have hplan : Unloadable t (Options.configPath ⟨some ⟨"/plan.json"⟩, none, true⟩) :=
    .unbounded hread (by decide +kernel) hdocument (List.mem_cons_of_mem _ List.mem_cons_self)
      ⟨rfl, rfl⟩
  exact ⟨(run_comes_to_nothing t _).2.2 1 (.unloadable hoptions hplan),
    (run_comes_to_nothing t _).2.2 2 (.misused rfl)⟩

end CommandLine

end ZonePack

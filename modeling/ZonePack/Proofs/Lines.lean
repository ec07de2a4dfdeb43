import ZonePack.Authored.Document
import ZonePack.Proofs.Pack

/-!
# ZonePack.Proofs.Lines

The lines of generated functions.  A command is written between line feeds, so the
game reads one command from each line only as long as no command has a line feed
in it.

* `Text.lines_join_iff` — texts that end in line feeds are told apart exactly if there
  is no other line feed in them;
* `Command.not_mem_text_iff` — a line feed in a command comes from a word that was put
  into it;
* `Pack.isLineByLine_iff` — of all that a plan says, only the names of its effects can
  break the lines of its pack;
* `Pack.exists_not_isLineByLine` — and a document may have a name that does.
-/

namespace ZonePack

namespace Text

/-! ## Splitting text into lines -/

/-- The lines of some text.  A line ends with its line feed, but for the last one
where the text goes on after the last line feed. -/
def splitLines : List Char → List (List Char)
  | [] => []
  | c :: cs =>
    if c = '\n' then ['\n'] :: splitLines cs
    else
      match splitLines cs with
      | [] => [[c]]
      | line :: lines => (c :: line) :: lines

/-- The lines of a text. -/
def lines (text : String) : List String := (splitLines text.toList).map String.ofList

/-- Text up to its first line feed is its first line. -/
theorem splitLines_append_cons {line : List Char} (h : '\n' ∉ line) (rest : List Char) :
    splitLines (line ++ '\n' :: rest) = (line ++ ['\n']) :: splitLines rest := by
  induction line with
  | nil => rfl
  | cons c line ih =>
    rw [List.mem_cons, not_or] at h
    rw [List.cons_append, splitLines, if_neg (Ne.symm h.1), ih h.2]
    rfl

/-- A line has no line feed but at its end. -/
theorem not_mem_of_mem_splitLines {text line : List Char} (h : line ++ ['\n'] ∈ splitLines text) :
    '\n' ∉ line := by
  induction text generalizing line with
  | nil => cases h
  | cons c cs ih =>
    rw [splitLines] at h
    split at h
    · obtain h | h := List.mem_cons.1 h
      · -- the line feed is the whole line
        have hnil : line = [] := by simpa using congrArg List.length h
        simp [hnil]
      · exact ih h
    · rename_i hc
      cases hcs : splitLines cs with
      | nil =>
        simp only [hcs, List.mem_singleton] at h
        have hnil : line = [] := by simpa using congrArg List.length h
        simp [hnil]
      | cons first others =>
        simp only [hcs, List.mem_cons] at h
        obtain h | h := h
        · -- the first line is one character longer than before
          cases line with
          | nil => simp
          | cons d line =>
            rw [List.cons_append, List.cons_eq_cons] at h
            have hmem : '\n' ∉ line := ih (by simp [hcs, h.2])
            rw [h.1]
            simp [Ne.symm hc, hmem]
        · exact ih (by simp [hcs, h])

/-! ## Texts on one line -/

section

variable {c : Char} (hdigit : c.isDigit = false) (hminus : c ≠ '-')
include hdigit hminus

/-- Only digits and a minus sign are in a number. -/
@[simp] theorem not_mem_toString_int64 (n : Int64) : c ∉ (toString n).toList :=
  Name.not_mem_repr hdigit hminus n.toInt

@[simp] theorem not_mem_toString_int32 (n : Int32) : c ∉ (toString n).toList :=
  Name.not_mem_repr hdigit hminus n.toInt

@[simp] theorem not_mem_toString_uint32 (n : UInt32) : c ∉ (toString n).toList :=
  Name.not_mem_repr hdigit hminus n.toNat

end

@[simp] theorem not_mem_toString_bool (b : Bool) : '\n' ∉ (toString b).toList := by
  cases b <;> decide

/-- Texts that are each ended by a line feed are read back exactly if there is no other
line feed in them. -/
theorem lines_join_iff {texts : List String} :
    lines (String.join (texts.map (· ++ "\n"))) = texts.map (· ++ "\n") ↔
      ∀ text ∈ texts, '\n' ∉ text.toList := by
  constructor
  · intro h text htext
    have hmem : text ++ "\n" ∈ texts.map (· ++ "\n") := List.mem_map_of_mem htext
    rw [← h, lines, List.mem_map] at hmem
    obtain ⟨line, hline, heq⟩ := hmem
    have hlist : line = text.toList ++ ['\n'] := by simpa using congrArg String.toList heq
    exact not_mem_of_mem_splitLines (hlist ▸ hline)
  · intro h
    induction texts with
    | nil => rfl
    | cons text texts ih =>
      rw [List.forall_mem_cons] at h
      have hlist : (String.join ((text :: texts).map (· ++ "\n"))).toList =
          text.toList ++ '\n' :: (String.join (texts.map (· ++ "\n"))).toList := by simp
      rw [lines, hlist, splitLines_append_cons h.1, List.map_cons, List.map_cons]
      exact congrArg₂ List.cons (by simp) (ih h.2)

end Text

/-! ## Commands on one line -/

namespace Selector

/-- A line feed in a selector's text is one in the name of its predicate. -/
theorem not_mem_text_iff (s : Selector) :
    '\n' ∉ s.text.toList ↔ ∀ name ∈ s.predicates, '\n' ∉ name.toList := by
  cases s <;> simp [text, predicates, Name.predicateRef, Name.space]

end Selector

namespace Check

/-- The words that are put into a check's text. -/
def words : Check → List String
  | predicate name => [name]
  | scoreAtLeast target objective _ => objective :: target.predicates

/-- A line feed in a check's text is one in its words. -/
theorem not_mem_text_iff (c : Check) :
    '\n' ∉ c.text.toList ↔ ∀ word ∈ c.words, '\n' ∉ word.toList := by
  cases c with
  | predicate name => simp [text, words, Name.predicateRef, Name.space]
  | scoreAtLeast target objective least =>
    have htarget := target.not_mem_text_iff
    simp [text, words, htarget, and_comm]

end Check

namespace Command

/-- The words that are put into a command's text. -/
def words : Command → List String
  | giveEffect targets effect _ _ _ => effect :: targets.predicates
  | setScore target objective _ => objective :: target.predicates
  | addScore target objective _ => objective :: target.predicates
  | execute players checks run =>
    players.predicates ++ checks.flatMap Check.words ++ run.words
  | call function => [function]
  | schedule function _ _ => [function]
  | unschedule function => [function]

/-- A line feed in a command's text is one in its words. -/
theorem not_mem_text_iff (c : Command) :
    '\n' ∉ c.text.toList ↔ ∀ word ∈ c.words, '\n' ∉ word.toList := by
  induction c with
  | giveEffect targets effect seconds amplifier hideParticles =>
    have htargets := targets.not_mem_text_iff
    unfold text
    simp [words, htargets, and_comm]
  | setScore target objective value =>
    have htarget := target.not_mem_text_iff
    unfold text
    simp [words, htarget, and_comm]
  | addScore target objective amount =>
    have htarget := target.not_mem_text_iff
    unfold text
    simp [words, htarget, and_comm]
  | execute players checks run ih =>
    have hplayers := players.not_mem_text_iff
    have hchecks : '\n' ∉ (String.join (checks.map fun c => " " ++ c.text)).toList ↔
        ∀ check ∈ checks, ∀ word ∈ check.words, '\n' ∉ word.toList := by
      simp [Check.not_mem_text_iff]
    unfold text
    rw [String.toList_append, List.mem_append, not_or, ih]
    simp only [words, List.forall_mem_append, List.forall_mem_flatMap, ← hplayers, ← hchecks]
    simp
  | call function =>
    unfold text
    simp [words]
  | schedule function delay replace =>
    unfold text
    cases replace <;> simp [words]
  | unschedule function =>
    unfold text
    simp [words]

end Command

/-! ## Scripts -/

namespace Name

/-- A plain name has no line feed. -/
theorem IsPlain.not_mem {name : String} (h : IsPlain name) : '\n' ∉ name.toList :=
  fun hc => absurd (h _ hc) (by decide)

/-- Neither has the reference of a function with a plain name. -/
theorem not_mem_functionRef {name : String} (h : IsPlain name) :
    '\n' ∉ (functionRef name).toList := by
  simp [functionRef, space, scriptFolder, h.not_mem]

end Name

namespace Script

/-- Whether a script is read back from its file, one command from each line. -/
def IsLineByLine (s : Script) : Prop :=
  Text.lines s.text = s.commands.map fun c => c.text ++ "\n"

/-- A script is read back from its file exactly if no word in it has a line feed. -/
theorem isLineByLine_iff_words {s : Script} :
    s.IsLineByLine ↔ ∀ c ∈ s.commands, ∀ word ∈ c.words, '\n' ∉ word.toList := by
  have htexts : s.commands.map (fun c => c.text ++ "\n") =
      (s.commands.map Command.text).map (· ++ "\n") := by simp
  rw [IsLineByLine, text, htexts, Text.lines_join_iff, List.forall_mem_map]
  simp only [Command.not_mem_text_iff]

/-- In an update of insanity there are no words of the plan. -/
theorem isLineByLine_updateInsanity (steps : List GainStep) :
    (updateInsanity steps).IsLineByLine := by
  have hband : ∀ lower, '\n' ∉ (Name.gainBand lower).toList :=
    fun lower => (Name.isPlain_gainBand lower).not_mem
  rw [isLineByLine_iff_words, updateInsanity, List.forall_mem_cons, List.forall_mem_map]
  constructor
  · simp [coverReset, Command.words, Check.words, Selector.predicates, hband, Objective.insanity,
      Objective.underCover]
  · intro step _
    simp [GainStep.command, Command.words, Check.words, Selector.predicates, hband,
      Objective.insanity]

/-- The words of a command that gives a zone's effect are the effect and the zone's name. -/
theorem not_mem_words_giveEffect_iff {z : Zone} {seconds : UInt32} :
    (∀ word ∈ (z.giveEffect seconds).words, '\n' ∉ word.toList) ↔
      '\n' ∉ z.effect.id.toList := by
  simp [Zone.giveEffect, Command.words, Selector.predicates, z.isPlain_name.not_mem]

theorem isLineByLine_constant_iff {zones : List Zone} :
    (EffectScripts.ofZones zones).constant.IsLineByLine ↔
      ∀ z ∈ zones, z.effect.mode = .constant → '\n' ∉ z.effect.id.toList := by
  simp only [isLineByLine_iff_words, EffectScripts.ofZones, List.mem_filterMap,
    Zone.refresh?_eq_some_iff, forall_exists_index, and_imp]
  constructor
  · intro h z hz hmode
    exact not_mem_words_giveEffect_iff.1 (h _ z hz hmode rfl)
  · rintro h _ z hz hmode rfl
    exact not_mem_words_giveEffect_iff.2 (h z hz hmode)

theorem isLineByLine_periodicEffect_iff {z : Zone} {period pulse : UInt32} :
    (z.periodicEffect period pulse).IsLineByLine ↔ '\n' ∉ z.effect.id.toList := by
  rw [isLineByLine_iff_words, Zone.periodicEffect, List.forall_mem_cons,
    not_mem_words_giveEffect_iff]
  simp [Command.words, Name.not_mem_functionRef z.isPlain_name]

/-- The loops are started and stopped by their names only. -/
theorem isLineByLine_startLoops {names : List String} (h : ∀ name ∈ names, Name.IsPlain name) :
    (startLoops names).IsLineByLine := by
  rw [isLineByLine_iff_words, startLoops, List.forall_mem_map]
  intro name hname
  simp [Command.words, Name.not_mem_functionRef (h name hname)]

theorem isLineByLine_stopLoops {names : List String} (h : ∀ name ∈ names, Name.IsPlain name) :
    (stopLoops names).IsLineByLine := by
  rw [isLineByLine_iff_words, stopLoops, List.forall_mem_map]
  intro name hname
  simp [Command.words, Name.not_mem_functionRef (h name hname)]

end Script

/-! ## Packs -/

namespace Pack

/-- Whether each function of a pack is read back from its file, one command from each line. -/
def IsLineByLine (pack : Pack) : Prop :=
  ∀ f ∈ pack.files, ∀ s, f.body = .script s → s.IsLineByLine

/-- Every zone's effect is given by a function of the plan. -/
theorem IsLineByLine.not_mem_id {c : Config} (h : (ofConfig c).IsLineByLine) {z : Zone}
    (hz : z ∈ c.zones) : '\n' ∉ z.effect.id.toList := by
  have hscripts : ∀ f ∈ scriptFiles c, ∀ s, f.body = .script s → s.IsLineByLine :=
    fun f hf => h f (List.mem_append_right (predicateFiles c) hf)
  cases hmode : z.effect.mode with
  | constant =>
    have hconstant := hscripts _ (mem_scriptFiles_iff.2 (.inr (.inl rfl))) _ rfl
    exact Script.isLineByLine_constant_iff.1 hconstant z (Config.mem_zones_iff.1 hz) hmode
  | periodic period pulse =>
    have hloop := mem_periodic_iff.2 ⟨z, hz, period, pulse, hmode, rfl⟩
    have hfile := mem_scriptFiles_iff.2 (.inr (.inr (.inl ⟨_, hloop, rfl⟩)))
    exact Script.isLineByLine_periodicEffect_iff.1 (hscripts _ hfile _ rfl)

/-- The functions of a plan are read back from their files exactly if the effects of its
zones are named on one line.  Nothing else that a plan says can add, split or join
commands. -/
theorem isLineByLine_iff (c : Config) :
    (ofConfig c).IsLineByLine ↔ ∀ z ∈ c.zones, '\n' ∉ z.effect.id.toList := by
  constructor
  · intro h z hz
    exact h.not_mem_id hz
  · intro h f hf s hs
    have hnames : ∀ name ∈ (EffectScripts.ofConfig c).periodic.map (·.name),
        Name.IsPlain name := by
      rw [List.forall_mem_map]
      exact fun l hl => isPlain_of_mem_periodic hl
    obtain hf | hf := List.mem_append.1 hf
    · obtain ⟨b, -, rfl⟩ | ⟨z, -, rfl⟩ := mem_predicateFiles_iff.1 hf <;> cases hs
    · obtain rfl | rfl | ⟨l, hl, rfl⟩ | rfl | rfl := mem_scriptFiles_iff.1 hf <;> cases hs
      · exact Script.isLineByLine_updateInsanity c.gainSteps
      · exact Script.isLineByLine_constant_iff.2
          fun z hz _ => h z (Config.mem_zones_iff.2 hz)
      · obtain ⟨z, hz, period, pulse, -, rfl⟩ := mem_periodic_iff.1 hl
        exact Script.isLineByLine_periodicEffect_iff.2 (h z hz)
      · exact Script.isLineByLine_startLoops hnames
      · exact Script.isLineByLine_stopLoops hnames

/-- A document may name an effect with a line feed in it.  Then the refresh of this effect
is two lines of its function. -/
theorem exists_not_isLineByLine :
    ∃ c, Config.ofDocument ("\x7b\"distanceZones\":[\x7b\"maxDistance\":5," ++
        "\"effect\":\x7b\"id\":\"glowing\\nsay\"\x7d\x7d]\x7d") = .ok c ∧
      ¬ (ofConfig c).IsLineByLine := by
  let z : Zone := ⟨.distance, .below 5, ⟨"glowing\nsay", 0, .constant⟩⟩
  refine ⟨⟨[], [z], []⟩, by decide +kernel, fun h => ?_⟩
  exact absurd (h.not_mem_id (List.mem_singleton_self z)) (by decide)

end Pack

end ZonePack

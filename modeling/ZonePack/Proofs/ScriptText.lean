import ZonePack.Proofs.Lines

/-!
# ZonePack.Proofs.ScriptText

The file of a function says exactly which commands the function has, however deep they
are nested in each other, as long as no word that was put into them has a space or a line
feed in it (`Text.IsUnbroken`).

* `Command.text_eq_intercalate` — a command is written as its tokens, with a space between
  each two of them;
* `Command.tokens_inj` — commands are told apart by their tokens, by induction on the
  command that is run in the end;
* `Script.text_inj_of_isUnbroken` — so functions are told apart by their files.
-/

namespace ZonePack

namespace Text

/-! ## Words between spaces -/

/-- Whether a word goes on to its end, with no space and no line feed in it. -/
def IsUnbroken (word : String) : Prop := ' ' ∉ word.toList ∧ '\n' ∉ word.toList

instance (word : String) : Decidable (IsUnbroken word) :=
  inferInstanceAs (Decidable (_ ∧ _))

/-- Tokens with spaces between them are told apart if no token has a space in it. -/
theorem intercalate_space_inj {as bs : List String} (ha : ∀ a ∈ as, ' ' ∉ a.toList)
    (hb : ∀ b ∈ bs, ' ' ∉ b.toList) (has : as ≠ []) (hbs : bs ≠ []) :
    " ".intercalate as = " ".intercalate bs ↔ as = bs := by
  have hsplit {cs : List String} (hc : ∀ c ∈ cs, ' ' ∉ c.toList) (hcs : cs ≠ []) :
      (" ".intercalate cs).toList.splitOn ' ' = cs.map String.toList := by
    rw [String.toList_intercalate]
    exact List.splitOn_intercalate ' ' (List.forall_mem_map.2 hc) (by simpa using hcs)
  constructor
  · intro h
    have hmap : as.map String.toList = bs.map String.toList := by
      rw [← hsplit ha has, ← hsplit hb hbs, h]
    exact List.map_injective_iff.2 (fun _ _ => String.toList_inj.1) hmap
  · rintro rfl
    rfl

@[simp] theorem space_not_mem_toString_bool (b : Bool) : ' ' ∉ (toString b).toList := by
  cases b <;> decide

/-- Different numbers have different texts. -/
theorem toString_int32_inj {a b : Int32} : toString a = toString b ↔ a = b := by
  change a.toInt.repr = b.toInt.repr ↔ a = b
  rw [Int.repr_inj, Int32.toInt_inj]

theorem toString_uint32_inj {a b : UInt32} : toString a = toString b ↔ a = b := by
  change a.toNat.repr = b.toNat.repr ↔ a = b
  rw [Nat.repr_inj, UInt32.toNat_inj]

theorem toString_bool_inj {a b : Bool} : toString a = toString b ↔ a = b := by
  cases a <;> cases b <;> decide

end Text

/-! ## Selectors -/

namespace Selector

/-- Selectors are told apart by their texts, whatever their predicates are called. -/
theorem text_inj {s t : Selector} : s.text = t.text ↔ s = t := by
  constructor
  · intro h
    cases s <;> cases t <;>
      simp_all [text, Name.predicateRef, ← String.toList_inj]
  · rintro rfl
    rfl

theorem space_not_mem_text {s : Selector} (h : ∀ name ∈ s.predicates, ' ' ∉ name.toList) :
    ' ' ∉ s.text.toList := by
  cases s <;> simp_all [text, predicates, Name.predicateRef, Name.space]

end Selector

/-! ## Checks -/

namespace Check

/-- What stands between the spaces of a check. -/
def tokens : Check → List String
  | predicate name => ["if", "predicate", Name.predicateRef name]
  | scoreAtLeast target objective least =>
    ["if", "score", target.text, objective, "matches", toString least ++ ".."]

theorem text_eq_intercalate (c : Check) : c.text = " ".intercalate c.tokens := by
  cases c <;> simp [text, tokens, ← String.toList_inj]

/-- A check is told by its tokens, whatever comes after it. -/
theorem tokens_append_inj {c d : Check} {s t : List String} :
    c.tokens ++ s = d.tokens ++ t ↔ c = d ∧ s = t := by
  constructor
  · intro h
    cases c with
    | predicate name =>
      cases d with
      | predicate other => simpa [tokens, Name.predicateRef] using h
      | scoreAtLeast => simp [tokens] at h
    | scoreAtLeast target objective least =>
      cases d with
      | predicate other => simp [tokens] at h
      | scoreAtLeast => simpa [tokens, Selector.text_inj, Name.toString_inj, and_assoc] using h
  · rintro ⟨rfl, rfl⟩
    rfl

/-- Checks are told by their tokens up to the word after the last one. -/
theorem tokens_flatMap_inj {cs ds : List Check} {s t : List String} :
    cs.flatMap tokens ++ "run" :: s = ds.flatMap tokens ++ "run" :: t ↔ cs = ds ∧ s = t := by
  have hrun (c : Check) (u v : List String) : "run" :: u ≠ c.tokens ++ v := by
    cases c <;> simp [tokens]
  constructor
  · intro h
    induction cs generalizing ds with
    | nil =>
      cases ds with
      | nil => exact ⟨rfl, (List.cons.inj h).2⟩
      | cons d ds =>
        rw [List.flatMap_cons, List.append_assoc] at h
        exact absurd h (hrun _ _ _)
    | cons c cs ih =>
      cases ds with
      | nil =>
        rw [List.flatMap_cons, List.append_assoc] at h
        exact absurd h.symm (hrun _ _ _)
      | cons d ds =>
        rw [List.flatMap_cons, List.flatMap_cons, List.append_assoc, List.append_assoc,
          tokens_append_inj] at h
        obtain ⟨rfl, h⟩ := h
        obtain ⟨rfl, rfl⟩ := ih h
        exact ⟨rfl, rfl⟩
  · rintro ⟨rfl, rfl⟩
    rfl

theorem space_not_mem_tokens {c : Check} (h : ∀ word ∈ c.words, ' ' ∉ word.toList) :
    ∀ token ∈ c.tokens, ' ' ∉ token.toList := by
  cases c with
  | predicate name => simpa [tokens, words, Name.predicateRef, Name.space] using h
  | scoreAtLeast target objective least =>
    rw [words, List.forall_mem_cons] at h
    simp [tokens, h.1, Selector.space_not_mem_text h.2]

end Check

/-! ## Commands -/

namespace Command

/-- What stands between the spaces of a command. -/
def tokens : Command → List String
  | giveEffect targets effect seconds amplifier hideParticles =>
    ["effect", "give", targets.text, effect, toString seconds, toString amplifier,
      toString hideParticles]
  | setScore target objective value =>
    ["scoreboard", "players", "set", target.text, objective, toString value]
  | addScore target objective amount =>
    ["scoreboard", "players", "add", target.text, objective, toString amount]
  | execute players checks run =>
    "execute" :: "as" :: players.text :: (checks.flatMap Check.tokens ++ "run" :: run.tokens)
  | call function => ["function", function]
  | schedule function delay replace =>
    ["schedule", "function", function, toString delay ++ "s",
      if replace then "replace" else "append"]
  | unschedule function => ["schedule", "clear", function]

theorem tokens_ne_nil (c : Command) : c.tokens ≠ [] := by
  cases c <;> simp [tokens]

/-- Checks stand before a command with a space before each of them. -/
theorem intercalate_checks (checks : List Check) {rest : List String} (h : rest ≠ []) :
    " " ++ " ".intercalate (checks.flatMap Check.tokens ++ rest) =
      String.join (checks.map fun c => " " ++ c.text) ++ " " ++ " ".intercalate rest := by
  induction checks with
  | nil => simp
  | cons c checks ih =>
    have hc : c.tokens ≠ [] := by cases c <;> simp [Check.tokens]
    rw [List.flatMap_cons, List.append_assoc,
      String.intercalate_append_of_ne_nil hc (by simp [h]), List.map_cons, String.join_cons,
      Check.text_eq_intercalate]
    simpa only [String.append_assoc] using congrArg ((" " ++ " ".intercalate c.tokens) ++ ·) ih

/-- A command is written as its tokens, with a space between each two of them. -/
theorem text_eq_intercalate (c : Command) : c.text = " ".intercalate c.tokens := by
  induction c with
  | execute players checks run ih =>
    have hrun : " ".intercalate ("run" :: run.tokens) = "run " ++ run.text := by
      rw [← List.singleton_append, String.intercalate_append_of_ne_nil (by simp) run.tokens_ne_nil,
        ih]
      rfl
    have htokens : (execute players checks run).tokens = ["execute", "as", players.text] ++
        (checks.flatMap Check.tokens ++ "run" :: run.tokens) := rfl
    have htext : (execute players checks run).text = "execute as " ++ players.text ++
        String.join (checks.map fun c => " " ++ c.text) ++ " run " ++ run.text := rfl
    rw [htokens, String.intercalate_append_of_ne_nil (by simp) (by simp), String.append_assoc,
      intercalate_checks checks (by simp), hrun, htext]
    simp [← String.toList_inj]
  | schedule function delay replace =>
    unfold text
    cases replace <;> simp [tokens, ← String.toList_inj]
  | _ =>
    unfold text
    simp [tokens, ← String.toList_inj]

/-- Commands are told apart by their tokens. -/
theorem tokens_inj {c d : Command} : c.tokens = d.tokens ↔ c = d := by
  constructor
  · intro h
    induction c generalizing d with
    | giveEffect targets effect seconds amplifier hideParticles =>
      cases d with
      | giveEffect =>
        simpa [tokens, Selector.text_inj, Text.toString_uint32_inj, Text.toString_int32_inj,
          Text.toString_bool_inj] using h
      | _ => simp [tokens] at h
    | setScore target objective value =>
      cases d with
      | setScore => simpa [tokens, Selector.text_inj, Name.toString_inj] using h
      | _ => simp [tokens] at h
    | addScore target objective amount =>
      cases d with
      | addScore => simpa [tokens, Selector.text_inj, Name.toString_inj] using h
      | _ => simp [tokens] at h
    | execute players checks run ih =>
      cases d with
      | execute players' checks' run' =>
        simp only [tokens, List.cons.injEq, true_and, Selector.text_inj,
          Check.tokens_flatMap_inj] at h
        obtain ⟨rfl, rfl, hrun⟩ := h
        rw [ih hrun]
      | _ => simp [tokens] at h
    | call function =>
      cases d with
      | call => simpa [tokens] using h
      | _ => simp [tokens] at h
    | schedule function delay replace =>
      cases d with
      | schedule function' delay' replace' =>
        have hreplace : replace = replace' := by
          cases replace <;> cases replace' <;> simp_all [tokens]
        subst hreplace
        simpa [tokens, Text.toString_uint32_inj] using h
      | _ => simp [tokens] at h
    | unschedule function =>
      cases d with
      | unschedule => simpa [tokens] using h
      | _ => simp [tokens] at h
  · rintro rfl
    rfl

theorem space_not_mem_tokens {c : Command} (h : ∀ word ∈ c.words, ' ' ∉ word.toList) :
    ∀ token ∈ c.tokens, ' ' ∉ token.toList := by
  induction c with
  | giveEffect targets effect seconds amplifier hideParticles =>
    rw [words, List.forall_mem_cons] at h
    simp [tokens, h.1, Selector.space_not_mem_text h.2]
  | setScore target objective value =>
    rw [words, List.forall_mem_cons] at h
    simp [tokens, h.1, Selector.space_not_mem_text h.2]
  | addScore target objective amount =>
    rw [words, List.forall_mem_cons] at h
    simp [tokens, h.1, Selector.space_not_mem_text h.2]
  | execute players checks run ih =>
    simp only [words, List.forall_mem_append, List.forall_mem_flatMap] at h
    obtain ⟨⟨hplayers, hchecks⟩, hrun⟩ := h
    simp only [tokens, List.forall_mem_cons, List.forall_mem_append, List.forall_mem_flatMap]
    refine ⟨by decide, by decide, Selector.space_not_mem_text hplayers, ?_, by decide, ih hrun⟩
    exact fun check hcheck => Check.space_not_mem_tokens (hchecks check hcheck)
  | call function => simpa [tokens, words] using h
  | schedule function delay replace =>
    rw [words, List.forall_mem_singleton] at h
    cases replace <;> simp [tokens, h]
  | unschedule function => simpa [tokens, words] using h

/-- Commands with no space in their words are told apart by their texts. -/
theorem text_inj {c d : Command} (hc : ∀ word ∈ c.words, ' ' ∉ word.toList)
    (hd : ∀ word ∈ d.words, ' ' ∉ word.toList) : c.text = d.text ↔ c = d := by
  rw [text_eq_intercalate, text_eq_intercalate, Text.intercalate_space_inj
    (space_not_mem_tokens hc) (space_not_mem_tokens hd) c.tokens_ne_nil d.tokens_ne_nil,
    tokens_inj]

/-- So are lists of them. -/
theorem map_text_inj {cs ds : List Command} (hcs : ∀ c ∈ cs, ∀ word ∈ c.words, ' ' ∉ word.toList)
    (hds : ∀ d ∈ ds, ∀ word ∈ d.words, ' ' ∉ word.toList) :
    cs.map text = ds.map text ↔ cs = ds := by
  induction cs generalizing ds with
  | nil => simp [eq_comm]
  | cons c cs ih =>
    cases ds with
    | nil => simp
    | cons d ds =>
      rw [List.forall_mem_cons] at hcs hds
      rw [List.map_cons, List.map_cons, List.cons.injEq, List.cons.injEq, text_inj hcs.1 hds.1,
        ih hcs.2 hds.2]

end Command

/-! ## Functions -/

namespace Script

/-- Whether no word that was put into the commands of a script is broken. -/
def IsUnbroken (s : Script) : Prop :=
  ∀ c ∈ s.commands, ∀ word ∈ c.words, Text.IsUnbroken word

instance (s : Script) : Decidable s.IsUnbroken :=
  inferInstanceAs (Decidable (∀ c ∈ s.commands, ∀ word ∈ c.words, Text.IsUnbroken word))

theorem IsUnbroken.space_not_mem {s : Script} (h : s.IsUnbroken) :
    ∀ c ∈ s.commands, ∀ word ∈ c.words, ' ' ∉ word.toList :=
  fun c hc word hword => (h c hc word hword).1

/-- Each command of such a script has a line of its own. -/
theorem IsUnbroken.isLineByLine {s : Script} (h : s.IsUnbroken) : s.IsLineByLine :=
  isLineByLine_iff_words.2 fun c hc word hword => (h c hc word hword).2

/-- Functions are told apart by their files if no word in them has a space or a line feed. -/
theorem text_inj_of_isUnbroken {f g : Script} (hf : f.IsUnbroken) (hg : g.IsUnbroken) :
    f.text = g.text ↔ f = g := by
  constructor
  · intro h
    have hlines : (f.commands.map Command.text).map (· ++ "\n") =
        (g.commands.map Command.text).map (· ++ "\n") := by
      rw [List.map_map, List.map_map]
      exact hf.isLineByLine.symm.trans ((congrArg Text.lines h).trans hg.isLineByLine)
    have hfeed (s t : String) (hst : s ++ "\n" = t ++ "\n") : s = t := by simpa using hst
    rw [List.map_inj_right hfeed, Command.map_text_inj hf.space_not_mem hg.space_not_mem]
      at hlines
    exact congrArg Script.mk hlines
  · rintro rfl
    rfl

/-- Two functions whose files differ only in where a nested command gets its checks: the
words have brackets and colons in them, and one is empty. -/
theorem text_inj_of_isUnbroken_nested :
    let called : Command := .execute (.matching "a]:") [] (.call "")
    let f : Script := ⟨[.execute .everyone [.predicate "b", .predicate "c"] called]⟩
    let g : Script := ⟨[.execute .everyone [.predicate "b"]
      (.execute .everyone [.predicate "c"] called)]⟩
    f.IsUnbroken ∧ g.IsUnbroken ∧ f.text ≠ g.text := by
  intro called f g
  have hf : f.IsUnbroken := by decide
  have hg : g.IsUnbroken := by decide
  exact ⟨hf, hg, fun h => absurd ((text_inj_of_isUnbroken hf hg).1 h) (by decide)⟩

/-- A space in a word may move what comes after it into the next word. -/
example : (⟨[.giveEffect (.matching "a] b") "c" 1 0 true]⟩ : Script).text =
    (⟨[.giveEffect (.matching "a") "b] c" 1 0 true]⟩ : Script).text := by decide

end Script

end ZonePack

import ZonePack.Proofs.ScriptText

/-!
# ZonePack.Proofs.EffectText

The commands that give the effects of zones, as texts.  The name of an effect is passed on
as it was written, so it may look like the words around it, and the text has to be read
from both ends: from its beginning up to the bracket after the zone's name, which is plain,
and from its end back over the numbers, which have no space in them.  What is left is the
name of the effect.

* `Text.append_cons_inj`, `Text.cons_append_inj` — a text is cut at the first or at the last
  place of a mark;
* `Zone.text_giveEffect_inj` — a command that gives an effect says which one, to whom, how
  strong and for how long;
* `Zone.effect_texts_inj` — so do the refresh of a constant effect and the loop of a
  periodic one.
-/

namespace ZonePack

namespace Text

/-! ## Cutting texts -/

section

variable {mark : Char} {x y s t : List Char}

/-- Texts are cut at the first place of a mark. -/
theorem append_cons_inj (hx : mark ∉ x) (hy : mark ∉ y) :
    x ++ mark :: s = y ++ mark :: t ↔ x = y ∧ s = t := by
  constructor
  · intro h
    induction x generalizing y with
    | nil =>
      cases y with
      | nil => exact ⟨rfl, (List.cons.inj h).2⟩
      | cons d y => exact absurd ((List.cons.inj h).1 ▸ List.mem_cons_self) hy
    | cons c x ih =>
      cases y with
      | nil => exact absurd ((List.cons.inj h).1 ▸ List.mem_cons_self) hx
      | cons d y =>
        rw [List.mem_cons, not_or] at hx hy
        obtain ⟨rfl, hrest⟩ := List.cons.inj h
        obtain ⟨rfl, hst⟩ := ih hx.2 hy.2 hrest
        exact ⟨rfl, hst⟩
  · rintro ⟨rfl, rfl⟩
    rfl

/-- And at the last one. -/
theorem cons_append_inj (hs : mark ∉ s) (ht : mark ∉ t) :
    x ++ mark :: s = y ++ mark :: t ↔ x = y ∧ s = t := by
  have hreverse (x s : List Char) :
      (x ++ mark :: s).reverse = s.reverse ++ mark :: x.reverse := by simp
  rw [← List.reverse_inj, hreverse, hreverse,
    append_cons_inj (List.mem_reverse.not.2 hs) (List.mem_reverse.not.2 ht),
    List.reverse_inj, List.reverse_inj, and_comm]

end

end Text

namespace Zone

/-! ## Giving an effect -/

theorem bracket_not_mem_name (z : Zone) : ']' ∉ z.name.toList :=
  fun hc => absurd (z.isPlain_name _ hc) (by decide)

/-- What stands in a command before the numbers: the zone, and the effect as it was written. -/
def effectLead (z : Zone) : List Char :=
  "effect give @a[predicate=softborder:".toList ++
    (z.name.toList ++ ']' :: ' ' :: z.effect.id.toList)

theorem effectLead_inj {z w : Zone} :
    z.effectLead = w.effectLead ↔ z.name = w.name ∧ z.effect.id = w.effect.id := by
  unfold effectLead
  rw [List.append_cancel_left_eq,
    Text.append_cons_inj z.bracket_not_mem_name w.bracket_not_mem_name, List.cons.injEq,
    String.toList_inj, String.toList_inj]
  simp

/-- After the effect come two numbers, each after a space, and one more word. -/
theorem toList_text_giveEffect (z : Zone) (seconds : UInt32) :
    (z.giveEffect seconds).text.toList =
      ((z.effectLead ++ ' ' :: (toString seconds).toList) ++
        ' ' :: (toString z.effect.amplifier).toList) ++ " true".toList := by
  have htext : (z.giveEffect seconds).text =
      "effect give " ++ ("@a[predicate=" ++ ("softborder" ++ ":" ++ z.name) ++ "]") ++ " " ++
        z.effect.id ++ " " ++ toString seconds ++ " " ++ toString z.effect.amplifier ++ " " ++
        "true" := rfl
  rw [htext]
  unfold effectLead
  simp

/-- A command that gives an effect tells the zone's name, the effect and both numbers,
whatever the effect is called. -/
theorem text_giveEffect_inj {z w : Zone} {seconds seconds' : UInt32} :
    (z.giveEffect seconds).text = (w.giveEffect seconds').text ↔
      (z.name = w.name ∧ z.effect.id = w.effect.id ∧ z.effect.amplifier = w.effect.amplifier) ∧
        seconds = seconds' := by
  have hseconds (n : UInt32) : ' ' ∉ (toString n).toList := by simp
  have hamplifier (n : Int32) : ' ' ∉ (toString n).toList := by simp
  rw [← String.toList_inj, toList_text_giveEffect, toList_text_giveEffect,
    List.append_cancel_right_eq, Text.cons_append_inj (hamplifier _) (hamplifier _),
    Text.cons_append_inj (hseconds _) (hseconds _), effectLead_inj, String.toList_inj,
    String.toList_inj, Text.toString_uint32_inj, Text.toString_int32_inj]
  constructor
  · rintro ⟨⟨⟨hname, hid⟩, hseconds⟩, hamplifier⟩
    exact ⟨⟨hname, hid, hamplifier⟩, hseconds⟩
  · rintro ⟨⟨hname, hid, hamplifier⟩, hseconds⟩
    exact ⟨⟨⟨hname, hid⟩, hseconds⟩, hamplifier⟩

/-! ## Loops -/

/-- A loop gives the effect on its first line. The other line ends in the zone's name and
the period, and one more word. -/
theorem toList_text_periodicEffect (z : Zone) (period pulse : UInt32) :
    (z.periodicEffect period pulse).text.toList =
      ((((z.giveEffect pulse).text.toList ++ "\nschedule function softborder:private/gen".toList) ++
        '/' :: z.name.toList) ++ ' ' :: (toString period).toList) ++ "s replace\n".toList := by
  have htext : (z.periodicEffect period pulse).text =
      String.join [(z.giveEffect pulse).text ++ "\n",
        "schedule function " ++ ("softborder" ++ ":" ++ "private/gen" ++ "/" ++ z.name) ++ " " ++
          toString period ++ "s" ++ " replace" ++ "\n"] := rfl
  rw [htext]
  simp

/-- A loop tells its period, and all that the command in it tells. -/
theorem text_periodicEffect_inj {z w : Zone} {period pulse period' pulse' : UInt32} :
    (z.periodicEffect period pulse).text = (w.periodicEffect period' pulse').text ↔
      (z.giveEffect pulse).text = (w.giveEffect pulse').text ∧ z.name = w.name ∧
        period = period' := by
  have hperiod (n : UInt32) : ' ' ∉ (toString n).toList := by simp
  rw [← String.toList_inj, toList_text_periodicEffect, toList_text_periodicEffect,
    List.append_cancel_right_eq, Text.cons_append_inj (hperiod _) (hperiod _),
    Text.cons_append_inj z.isPlain_name.slash_not_mem w.isPlain_name.slash_not_mem,
    List.append_cancel_right_eq, String.toList_inj, String.toList_inj, String.toList_inj,
    Text.toString_uint32_inj, and_assoc]

/-- The refresh of a zone's effect and the loop of it tell the zone's name, the effect and
its strength, and the loop its two times as well, whatever the effect is called. -/
theorem effect_texts_inj (z w : Zone) :
    (z.constantEffect.text = w.constantEffect.text ↔
      z.name = w.name ∧ z.effect.id = w.effect.id ∧
        z.effect.amplifier = w.effect.amplifier) ∧
    ∀ period pulse period' pulse',
      (z.periodicEffect period pulse).text = (w.periodicEffect period' pulse').text ↔
        (z.name = w.name ∧ z.effect.id = w.effect.id ∧
          z.effect.amplifier = w.effect.amplifier) ∧ period = period' ∧ pulse = pulse' := by
  constructor
  · rw [constantEffect, constantEffect, text_giveEffect_inj]
    simp
  · intro period pulse period' pulse'
    rw [text_periodicEffect_inj, text_giveEffect_inj]
    constructor
    · rintro ⟨⟨heffect, hpulse⟩, -, hperiod⟩
      exact ⟨heffect, hperiod, hpulse⟩
    · rintro ⟨heffect, hperiod, hpulse⟩
      exact ⟨⟨heffect, hpulse⟩, heffect.1, hperiod⟩

end Zone

end ZonePack

import ZonePack.Proofs.Json.Spelling

/-!
# ZonePack.Proofs.Json.Pretty

The writer of values writes texts of them: `Value.spelledBy_pretty`.  It is about values
with exact integers only, since a real number is written by its digits alone.
-/

namespace ZonePack.Json

namespace Value

/-! ## Strings -/

/-- A control character has an escape of four digits. -/
theorem controlEscape_eq {n : Nat} (h : n < 0x20) :
    controlEscape n = ['\\', 'u', '0', '0', (n / 16).digitChar, (n % 16).digitChar] := by
  have hall : ∀ n < 0x20, controlEscape n =
      ['\\', 'u', '0', '0', (n / 16).digitChar, (n % 16).digitChar] := by decide
  exact hall n h

theorem spelledUnit_of_lt {n : Nat} (h : n < 0x20) :
    SpelledUnit n ['0', '0', (n / 16).digitChar, (n % 16).digitChar] := by
  have hzero : IsHexDigit 0 '0' := ⟨by decide, .inl rfl⟩
  have hhigh : IsHexDigit (n / 16) (n / 16).digitChar := ⟨by omega, .inl rfl⟩
  have hlow : IsHexDigit (n % 16) (n % 16).digitChar := ⟨by omega, .inl rfl⟩
  have hunit := SpelledUnit.mk hzero hzero hhigh hlow
  have hn : ((0 * 16 + 0) * 16 + n / 16) * 16 + n % 16 = n := by omega
  rwa [hn] at hunit

/-- The writer's escapes are escapes. -/
theorem spelledChar_escaped (c : Char) : SpelledChar c (escaped c) := by
  unfold escaped
  split_ifs with hself hb hf hn hr ht hcontrol
  · obtain rfl | rfl := hself
    · exact .letter (by decide)
    · exact .letter (by decide)
  · exact .letter (by simp [hb, letterEscapes])
  · exact .letter (by simp [hf, letterEscapes])
  · exact .letter (by simp [hn, letterEscapes])
  · exact .letter (by simp [hr, letterEscapes])
  · exact .letter (by simp [ht, letterEscapes])
  · rw [controlEscape_eq hcontrol]
    exact .unit (spelledUnit_of_lt hcontrol)
  · rw [not_or] at hself
    exact .plain hself.1 hself.2 (Nat.not_lt.1 hcontrol)

theorem spelledChars_flatMap_escaped (cs : List Char) : SpelledChars cs (cs.flatMap escaped) := by
  induction cs with
  | nil => exact .nil
  | cons c cs ih => exact .cons (spelledChar_escaped c) ih

theorem spelledString_stringText (s : String) : SpelledString s (stringText s) :=
  .mk (spelledChars_flatMap_escaped s.toList)

/-! ## Values -/

/-- Whether all numbers in a value are integers of 64 bits. -/
inductive IsExact : Value → Prop where
  | null : IsExact .null
  | boolean {b : Bool} : IsExact (.scalar (.boolean b))
  | string {s : String} : IsExact (.string s)
  | integer {n : Int} : Int64.minValue.toInt ≤ n → n < UInt64.size → IsExact (.integer n)
  | list {items : List Value} : (∀ v ∈ items, IsExact v) → IsExact (.list items)
  | object {entries : List (String × Value)} :
    (∀ e ∈ entries, IsExact e.2) → IsExact (.object entries)

theorem IsExact.int64 (n : Int64) : IsExact (.integer n.toInt) := by
  have hmax := n.toInt_lt
  refine .integer n.minValue_le_toInt ?_
  simp only [UInt64.size]
  omega

theorem IsExact.int32 (n : Int32) : IsExact (.integer n.toInt) := by
  have h := IsExact.int64 n.toInt64
  rwa [Int32.toInt_toInt64] at h

theorem IsExact.uint32 (n : UInt32) : IsExact (.integer n.toNat) := by
  have hmax := n.toNat_lt
  refine .integer (Int.le_trans (by decide) (Int.natCast_nonneg _)) ?_
  simp only [UInt64.size]
  omega

theorem isBlanks_newLine (depth : Nat) : IsBlanks (newLine depth) := by
  intro c hc
  obtain rfl | hc := List.mem_cons.1 hc
  · exact .inr (.inr (.inl rfl))
  · exact .inl (List.eq_of_mem_replicate hc)

/-- More blanks may stand before a value. -/
theorem Spelled.after_blanks {v : Value} {b s : List Char} (hb : IsBlanks b) (h : v.Spelled s) :
    v.Spelled (b ++ s) := by
  cases h with
  | scalar hb' hv =>
    rw [← List.append_assoc]
    exact .scalar (hb.append hb') hv
  | list hb' hitems =>
    rw [← List.append_assoc]
    exact .list (hb.append hb') hitems
  | object hb' hentries =>
    rw [← List.append_assoc]
    exact .object (hb.append hb') hentries

/-- Items after the first are joined by commas and new lines. -/
theorem joined_prettyItems {items : List Value} {depth : Nat}
    (h : ∀ v ∈ items, v.Spelled (prettyText depth v)) (outer : Nat) :
    Joined Spelled false items (prettyItems depth items ++ newLine outer) := by
  induction items with
  | nil => exact .nil (isBlanks_newLine outer)
  | cons v items ih =>
    rw [List.forall_mem_cons] at h
    have hitem := h.1.after_blanks (isBlanks_newLine depth)
    simpa [prettyItems] using Joined.cons (.comma .nil) hitem (ih h.2)

/-- An entry stands on a new line, with a blank after its colon. -/
theorem spelledEntry_pretty {e : String × Value} {depth : Nat}
    (h : e.2.Spelled (prettyText depth e.2)) : SpelledEntry Spelled e
      (newLine depth ++ (stringText e.1 ++ ':' :: ' ' :: prettyText depth e.2)) := by
  have hblank : IsBlanks [' '] := .singleton (by decide)
  exact .mk (isBlanks_newLine depth) (spelledString_stringText e.1) .nil (h.after_blanks hblank)

/-- Entries after the first are joined by commas. -/
theorem joined_prettyEntries {entries : List (String × Value)} {depth : Nat}
    (h : ∀ e ∈ entries, e.2.Spelled (prettyText depth e.2)) (outer : Nat) :
    Joined (SpelledEntry Spelled) false entries
      (prettyEntries depth entries ++ newLine outer) := by
  induction entries with
  | nil => exact .nil (isBlanks_newLine outer)
  | cons e entries ih =>
    rw [List.forall_mem_cons] at h
    simpa [prettyEntries] using Joined.cons (.comma .nil) (spelledEntry_pretty h.1) (ih h.2)

/-- The writer's text of a value, without the line feed at its end. -/
theorem spelled_prettyText {v : Value} (h : v.IsExact) (depth : Nat) :
    v.Spelled (prettyText depth v) := by
  induction h generalizing depth with
  | null => exact .scalar .nil .null
  | boolean => exact .scalar .nil .boolean
  | @string s =>
    have hs : Spelled (.string s) ([] ++ stringText s) :=
      .scalar .nil (.string (spelledString_stringText s))
    exact hs
  | integer hmin hmax => exact .scalar .nil (.integer hmin hmax)
  | @list items _ ih =>
    cases items with
    | nil => exact .list .nil (.nil .nil)
    | cons v items =>
      rw [List.forall_mem_cons] at ih
      have hfirst := (ih.1 (depth + 1)).after_blanks (isBlanks_newLine (depth + 1))
      have hothers := joined_prettyItems (fun v hv => ih.2 v hv (depth + 1)) depth
      simpa [prettyText] using Spelled.list .nil (.cons .first hfirst hothers)
  | @object entries _ ih =>
    cases entries with
    | nil => exact .object .nil (.nil .nil)
    | cons e entries =>
      rw [List.forall_mem_cons] at ih
      have hfirst := spelledEntry_pretty (ih.1 (depth + 1))
      have hothers := joined_prettyEntries (fun e he => ih.2 e he (depth + 1)) depth
      simpa [prettyText] using Spelled.object .nil (.cons .first hfirst hothers)

/-- The writer writes a text of the value. -/
theorem spelledBy_pretty {v : Value} (h : v.IsExact) : v.SpelledBy v.pretty :=
  ⟨prettyText 0 v, ['\n'], spelled_prettyText h 0, .singleton (by decide), String.toList_ofList⟩

/-- A list ends in its closing bracket. -/
theorem getLast?_prettyText_list (depth : Nat) (items : List Value) :
    (prettyText depth (.list items)).getLast? = some ']' := by
  cases items with
  | nil => rfl
  | cons v items => rw [prettyText, List.getLast?_concat]

theorem getLast?_prettyText_object (depth : Nat) (entries : List (String × Value)) :
    (prettyText depth (.object entries)).getLast? = some '}' := by
  cases entries with
  | nil => rfl
  | cons e entries => rw [prettyText, List.getLast?_concat]

end Value

/-! ## Objects of a known form -/

open Value (IsExact)

section

variable {α : Type} {written : α → Value → Prop}

theorem Member.exists_nullable (h : ∀ a, ∃ v, written a v ∧ v.IsExact) (key : String)
    (o : Option α) : ∃ v, (nullable key written o).holds v ∧ v.IsExact := by
  cases o with
  | none => exact ⟨.null, rfl, .null⟩
  | some a => exact h a

theorem Member.exists_items (h : ∀ a, ∃ v, written a v ∧ v.IsExact) (key : String)
    (as : List α) : ∃ v, (items key written as).holds v ∧ v.IsExact := by
  have hitems : ∃ vs, List.Forall₂ (fun v a => written a v) vs as ∧ ∀ v ∈ vs, IsExact v := by
    induction as with
    | nil => exact ⟨[], .nil, by simp⟩
    | cons a as ih =>
      obtain ⟨v, hv, hexact⟩ := h a
      obtain ⟨vs, hvs, hall⟩ := ih
      exact ⟨v :: vs, .cons hv hvs, List.forall_mem_cons.2 ⟨hexact, hall⟩⟩
  obtain ⟨vs, hvs, hall⟩ := hitems
  exact ⟨.list vs, ⟨vs, rfl, hvs⟩, .list hall⟩

end

/-- There is an object of some members if each of them has a value. -/
theorem Value.exists_isObjectOf {members : List Member}
    (hnodup : (members.map Member.key).Nodup)
    (h : ∀ m ∈ members, ∃ v, m.holds v ∧ v.IsExact) :
    ∃ v : Value, v.IsObjectOf members ∧ v.IsExact := by
  have hentries : ∃ entries : List (String × Value), entries.map (·.1) = members.map Member.key ∧
      ∀ e ∈ entries, (∃ m ∈ members, m.key = e.1 ∧ m.holds e.2) ∧ e.2.IsExact := by
    clear hnodup
    induction members with
    | nil => exact ⟨[], rfl, by simp⟩
    | cons m members ih =>
      rw [List.forall_mem_cons] at h
      obtain ⟨⟨v, hv, hexact⟩, h⟩ := h
      obtain ⟨entries, hkeys, hall⟩ := ih h
      refine ⟨(m.key, v) :: entries, by simp [hkeys], List.forall_mem_cons.2 ⟨?_, ?_⟩⟩
      · exact ⟨⟨m, List.mem_cons_self, rfl, hv⟩, hexact⟩
      · intro e he
        obtain ⟨⟨m', hm', hholds⟩, hexact⟩ := hall e he
        exact ⟨⟨m', List.mem_cons_of_mem m hm', hholds⟩, hexact⟩
  obtain ⟨entries, hkeys, hall⟩ := hentries
  refine ⟨.object entries, ⟨entries, rfl, hkeys ▸ hnodup, fun e he => (hall e he).1, ?_⟩,
    .object fun e he => (hall e he).2⟩
  intro m hm
  rw [hkeys]
  exact .inr (List.mem_map_of_mem hm)

end ZonePack.Json

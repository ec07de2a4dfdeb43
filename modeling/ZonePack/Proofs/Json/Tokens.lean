import Mathlib.Data.List.Basic
import ZonePack.Proofs.Json.Spelling

/-!
# ZonePack.Proofs.Json.Tokens

Tokens are read back from their texts, whatever follows them: strings
(`takeString_spelledChars`), number literals (`Literal.scan_spelled`) and the starts
of values (`start_scalar`, `start_list`, `start_object`).  Only a number has to be
told where it ends (`Ends`).  Nothing but a literal is scanned as one
(`Literal.exists_spelled_of_scan`).
-/

namespace ZonePack.Json

/-! ## Runs of readers -/

namespace Reader

variable {α β : Type} {p : Reader α} {a : α} {s rest : List Char}

theorem run_bind (h : p.run s = .ok (a, rest)) (q : α → Reader β) :
    (p.bind q).run s = (q a).run rest := by
  simp [bind, extend, h]

theorem run_refine {f : α → Except Fault β} {b : β} (h : p.run s = .ok (a, rest))
    (hf : f a = .ok b) : (p.refine f).run s = .ok (b, rest) := by
  simp [refine, extend, h, hf]

theorem run_map (h : p.run s = .ok (a, rest)) (f : α → β) :
    (p.map f).run s = .ok (f a, rest) :=
  run_refine h rfl

end Reader

/-! ## Blanks -/

theorem isBlank_iff {c : Char} : isBlank c ↔ c = ' ' ∨ c = '\t' ∨ c = '\n' ∨ c = '\r' := by
  simp [isBlank, or_assoc]

/-- Blanks before a text are skipped. -/
theorem skipBlanks_append {b : List Char} (hb : IsBlanks b) (s : List Char) :
    skipBlanks (b ++ s) = skipBlanks s :=
  List.dropWhile_append_of_pos fun c hc => isBlank_iff.2 (hb c hc)

theorem skipBlanks_of_isBlanks {b : List Char} (hb : IsBlanks b) : skipBlanks b = [] := by
  have h := skipBlanks_append hb []
  rwa [List.append_nil] at h

theorem skipBlanks_cons {c : Char} (hc : isBlank c = false) (s : List Char) :
    skipBlanks (c :: s) = c :: s := by
  rw [skipBlanks, List.dropWhile_cons, hc]
  rfl

/-- Blanks before a token are skipped. -/
theorem skipBlanks_append_cons {b : List Char} (hb : IsBlanks b) {c : Char}
    (hc : isBlank c = false) (s : List Char) : skipBlanks (b ++ c :: s) = c :: s := by
  rw [skipBlanks_append hb, skipBlanks_cons hc]

/-! ## Strings -/

/-- A hexadecimal digit has the value that is meant. -/
theorem hexValue?_of_isHexDigit {k : Nat} {c : Char} (h : IsHexDigit k c) :
    hexValue? c = some k := by
  have hdigits : ∀ k < 16, hexValue? k.digitChar = some k ∧
      hexValue? k.digitChar.toUpper = some k := by decide
  obtain ⟨hk, rfl | rfl⟩ := h
  · exact (hdigits k hk).1
  · exact (hdigits k hk).2

theorem codeUnit_spelled {n : Nat} {s : List Char} (h : SpelledUnit n s) (rest : List Char) :
    codeUnit.run (s ++ rest) = .ok (n, rest) := by
  cases h with
  | mk ha hb hc hd =>
    simp [codeUnit, hexValue4?, hexValue?_of_isHexDigit ha, hexValue?_of_isHexDigit hb,
      hexValue?_of_isHexDigit hc, hexValue?_of_isHexDigit hd]

/-- A letter of an escape stands for its character. -/
theorem letterEscape?_of_mem {c l : Char} (h : (l, c) ∈ letterEscapes) :
    letterEscape? l = some c ∧ l ≠ 'u' := by
  revert h
  simp only [letterEscapes, List.mem_cons, Prod.mk.injEq, List.not_mem_nil, or_false]
  rintro (⟨rfl, rfl⟩ | ⟨rfl, rfl⟩ | ⟨rfl, rfl⟩ | ⟨rfl, rfl⟩ | ⟨rfl, rfl⟩ | ⟨rfl, rfl⟩ |
    ⟨rfl, rfl⟩ | ⟨rfl, rfl⟩) <;> decide

/-- No character is half of a pair. -/
theorem not_isSurrogate_toNat (c : Char) :
    isLowSurrogate c.toNat = false ∧ isHighSurrogate c.toNat = false := by
  have hc : c.toNat < 0xD800 ∨ 0xDFFF < c.toNat ∧ c.toNat < 0x110000 := c.valid
  simp only [isLowSurrogate, isHighSurrogate, Bool.and_eq_false_iff, decide_eq_false_iff_not]
  omega

theorem unicodeEscape_unit {c : Char} {s : List Char} (h : SpelledUnit c.toNat s)
    (rest : List Char) : unicodeEscape.run (s ++ rest) = .ok (c, rest) := by
  obtain ⟨hlow, hhigh⟩ := not_isSurrogate_toNat c
  simp [unicodeEscape, Reader.extend, codeUnit_spelled h, hlow, hhigh]

theorem unicodeEscape_pair {c : Char} {high low : Nat} {s t : List Char}
    (hs : SpelledUnit high s) (ht : SpelledUnit low t) (hhigh : 0xD800 ≤ high)
    (hhigh' : high < 0xDC00) (hlow : 0xDC00 ≤ low) (hlow' : low < 0xE000)
    (hc : c.toNat = 0x10000 + (high - 0xD800) * 0x400 + (low - 0xDC00)) (rest : List Char) :
    unicodeEscape.run (s ++ '\\' :: 'u' :: (t ++ rest)) = .ok (c, rest) := by
  have hfirst : isLowSurrogate high = false ∧ isHighSurrogate high = true := by
    simp only [isLowSurrogate, isHighSurrogate, Bool.and_eq_false_iff, Bool.and_eq_true,
      decide_eq_false_iff_not, decide_eq_true_iff]
    omega
  have hsecond : isLowSurrogate low = true := by
    simp only [isLowSurrogate, Bool.and_eq_true, decide_eq_true_iff]
    omega
  have hpair : pairedChar high low = c := by
    rw [pairedChar, ← hc, Char.ofNat_toNat]
  simp [unicodeEscape, Reader.extend, Reader.map, Reader.refine, codeUnit_spelled hs,
    codeUnit_spelled ht, lowSurrogate, hfirst, hsecond, hpair]

theorem takeString_quote (unicode : Reader Char) (rev rest : List Char) :
    takeString unicode rev ('"' :: rest) = .ok (String.ofList rev.reverse, rest) := by
  rw [takeString]
  simp

theorem takeString_plain (unicode : Reader Char) (rev : List Char) {c : Char} (hquote : c ≠ '"')
    (hbackslash : c ≠ '\\') (hcontrol : 0x20 ≤ c.toNat) (rest : List Char) :
    takeString unicode rev (c :: rest) = takeString unicode (c :: rev) rest := by
  rw [takeString]
  simp [hquote, hbackslash, Nat.not_lt.2 hcontrol]

theorem takeString_escape {unicode : Reader Char} {s rest : List Char} {c : Char}
    (h : (escapeWith unicode).run s = .ok (c, rest)) (rev : List Char) :
    takeString unicode rev ('\\' :: s) = takeString unicode (c :: rev) rest := by
  rw [takeString]
  simp only [Char.reduceEq, if_false, if_true]
  split
  · rename_i hs
    rw [h] at hs
    cases hs
  · rename_i hs
    rw [h] at hs
    cases hs
    rfl

/-- A character is taken off the front of a string, however it is written. -/
theorem takeString_spelledChar {c : Char} {s : List Char} (h : SpelledChar c s)
    (rev rest : List Char) :
    takeString unicodeEscape rev (s ++ rest) = takeString unicodeEscape (c :: rev) rest := by
  cases h with
  | plain hquote hbackslash hcontrol =>
    exact takeString_plain unicodeEscape rev hquote hbackslash hcontrol rest
  | letter hl =>
    obtain ⟨hl, hu⟩ := letterEscape?_of_mem hl
    exact takeString_escape (by simp [escapeWith, hl, hu]) rev
  | unit hs =>
    exact takeString_escape (by simp [escapeWith, unicodeEscape_unit hs]) rev
  | pair hs ht hhigh hhigh' hlow hlow' hc =>
    refine takeString_escape ?_ rev
    simp [escapeWith, unicodeEscape_pair hs ht hhigh hhigh' hlow hlow' hc]

theorem takeString_spelledChars {cs s : List Char} (h : SpelledChars cs s)
    (rev rest : List Char) :
    takeString unicodeEscape rev (s ++ rest) =
      takeString unicodeEscape (cs.reverse ++ rev) rest := by
  induction h generalizing rev with
  | nil => rfl
  | cons hc _ ih =>
    rw [List.append_assoc, takeString_spelledChar hc, ih]
    simp

/-- A string is read back from its text. -/
theorem stringRest_spelled {text : String} {s : List Char} (h : SpelledChars text.toList s)
    (rest : List Char) : stringRest.run (s ++ '"' :: rest) = .ok (text, rest) := by
  change takeString unicodeEscape [] (s ++ '"' :: rest) = .ok (text, rest)
  rw [takeString_spelledChars h, takeString_quote]
  simp

/-! ## Numbers -/

/-- Text at which a value ends: there is nothing more, or a blank, a comma or a closing
bracket. -/
def Ends (rest : List Char) : Prop :=
  ∀ c ∈ rest.head?, isBlank c ∨ c = ',' ∨ c = ']' ∨ c = '}'

theorem Ends.nil : Ends [] := by
  intro c hc
  cases hc

/-- Where a value ends no number goes on. -/
theorem Ends.not_number {rest : List Char} (h : Ends rest) :
    ∀ c ∈ rest.head?, c.isDigit = false ∧ c ≠ '.' ∧ c ≠ 'e' ∧ c ≠ 'E' := by
  intro c hc
  obtain hblank | rfl | rfl | rfl := h c hc
  · obtain rfl | rfl | rfl | rfl := isBlank_iff.1 hblank <;> decide
  all_goals decide

/-- Text that does not go on with a digit. -/
def EndsDigits (rest : List Char) : Prop := ∀ c ∈ rest.head?, c.isDigit = false

theorem Ends.endsDigits {rest : List Char} (h : Ends rest) : EndsDigits rest :=
  fun c hc => (h.not_number c hc).1

/-- The first of some digits. -/
theorem IsDigits.exists_cons {s : List Char} (h : IsDigits s) :
    ∃ c t, s = c :: t ∧ c.isDigit ∧ ∀ d ∈ t, d.isDigit := by
  obtain ⟨hne, hdigits⟩ := h
  cases s with
  | nil => exact absurd rfl hne
  | cons c t =>
    rw [List.forall_mem_cons] at hdigits
    exact ⟨c, t, rfl, hdigits⟩

/-- A digit is no sign. -/
theorem ne_sign_of_isDigit {c : Char} (h : c.isDigit) : c ≠ '-' ∧ c ≠ '+' := by
  constructor
  · rintro rfl
    exact absurd h (by decide)
  · rintro rfl
    exact absurd h (by decide)

namespace Literal

theorem scanDigits_append {digits rest : List Char} (h : IsDigits digits)
    (hrest : EndsDigits rest) : scanDigits (digits ++ rest) = .ok (digits, rest) := by
  obtain ⟨c, t, rfl, hc, ht⟩ := h.exists_cons
  have hstop : rest.takeWhile Char.isDigit = [] ∧ rest.dropWhile Char.isDigit = rest := by
    cases rest with
    | nil => exact ⟨rfl, rfl⟩
    | cons d rest => simp [hrest d rfl]
  rw [List.cons_append, scanDigits, if_pos hc, List.takeWhile_append_of_pos ht,
    List.dropWhile_append_of_pos ht, hstop.1, hstop.2, List.append_nil]

/-- Digits have no sign. -/
theorem scanSign_append {digits : List Char} (h : IsDigits digits) (rest : List Char) :
    scanSign (digits ++ rest) = (false, digits ++ rest) := by
  obtain ⟨c, t, rfl, hc, -⟩ := h.exists_cons
  simp [scanSign, ne_sign_of_isDigit hc]

/-- The minus sign of a literal is found. -/
theorem scanMinus_append {whole : List Char} (h : IsDigits whole) (negative : Bool)
    (rest : List Char) : scanMinus ((if negative then ['-'] else []) ++ (whole ++ rest)) =
      (negative, whole ++ rest) := by
  obtain ⟨c, t, rfl, hc, -⟩ := h.exists_cons
  cases negative <;> simp [scanMinus, ne_sign_of_isDigit hc]

theorem scanWhole_append {whole rest : List Char} (h : IsDigits whole)
    (hzero : whole.head? = some '0' → whole = ['0']) (hrest : EndsDigits rest) :
    scanWhole (whole ++ rest) = .ok (whole, rest) := by
  have hlead : ¬ (1 < whole.length ∧ whole.head? = some '0') := by
    rintro ⟨hlength, hhead⟩
    rw [hzero hhead] at hlength
    exact absurd hlength (by decide)
  rw [scanWhole, scanDigits_append h hrest]
  simp only [hlead, if_false]

theorem scanFraction_append {fraction : Option (List Char)} {f rest : List Char}
    (h : SpelledFraction fraction f) (hrest : EndsDigits rest) (hpoint : '.' ∉ rest.head?) :
    scanFraction (f ++ rest) = .ok (fraction, rest) := by
  cases h with
  | none =>
    rw [List.nil_append]
    unfold scanFraction
    split
    · exact absurd rfl hpoint
    · rfl
  | some hdigits =>
    rw [List.cons_append, scanFraction, scanDigits_append hdigits hrest]
    rfl

theorem scanExponent_append {exponent : Option (Bool × List Char)} {e rest : List Char}
    (h : SpelledExponent exponent e) (hrest : Ends rest) :
    scanExponent (e ++ rest) = .ok (exponent, rest) := by
  have hstop := hrest.endsDigits
  cases h with
  | none =>
    cases rest with
    | nil => rfl
    | cons c rest => simp [scanExponent, hrest.not_number c rfl]
  | bare hmark hdigits =>
    simp [scanExponent, hmark, scanSign_append hdigits, scanDigits_append hdigits hstop,
      Except.map]
  | plus hmark hdigits =>
    simp [scanExponent, hmark, scanSign, scanDigits_append hdigits hstop, Except.map]
  | minus hmark hdigits =>
    simp [scanExponent, hmark, scanSign, scanDigits_append hdigits hstop, Except.map]

/-- An exponent is not taken for a part of the digits before it. -/
theorem SpelledExponent.head_append {exponent : Option (Bool × List Char)} {e rest : List Char}
    (h : SpelledExponent exponent e) (hrest : Ends rest) :
    EndsDigits (e ++ rest) ∧ '.' ∉ (e ++ rest).head? := by
  have hmarks : ∀ mark, mark = 'e' ∨ mark = 'E' → mark.isDigit = false ∧ mark ≠ '.' := by
    rintro mark (rfl | rfl) <;> decide
  cases h with
  | none => exact ⟨hrest.endsDigits, fun hpoint => (hrest.not_number '.' hpoint).2.1 rfl⟩
  | bare hmark => simpa [EndsDigits] using hmarks _ hmark
  | plus hmark => simpa [EndsDigits] using hmarks _ hmark
  | minus hmark => simpa [EndsDigits] using hmarks _ hmark

/-- Neither is a fraction. -/
theorem SpelledFraction.endsDigits {fraction : Option (List Char)} {f rest : List Char}
    (h : SpelledFraction fraction f) (hrest : EndsDigits rest) : EndsDigits (f ++ rest) := by
  cases h with
  | none => exact hrest
  | some => simp [EndsDigits]

/-- A literal is read back from its text. -/
theorem scan_spelled {l : Literal} {s rest : List Char} (h : l.Spelled s) (hrest : Ends rest) :
    scan (s ++ rest) = .ok (l, rest) := by
  cases h with
  | @mk negative whole f e fraction exponent hwhole hzero hf he =>
    obtain ⟨hdigits, hpoint⟩ := he.head_append hrest
    rw [List.append_assoc, List.append_assoc, List.append_assoc, scan, scanMinus_append hwhole,
      scanWhole_append hwhole hzero (hf.endsDigits hdigits)]
    simp only [bind, Except.bind, scanFraction_append hf hdigits hpoint,
      scanExponent_append he hrest]
    rfl

/-! ### What is scanned -/

theorem eq_append_of_scanMinus (s : List Char) :
    s = (if (scanMinus s).1 then ['-'] else []) ++ (scanMinus s).2 := by
  unfold scanMinus
  split <;> rfl

theorem eq_append_of_scanDigits {s digits rest : List Char}
    (h : scanDigits s = .ok (digits, rest)) : IsDigits digits ∧ s = digits ++ rest := by
  unfold scanDigits at h
  split at h
  · cases h
  · rename_i c r
    split at h
    · rename_i hc
      cases h
      refine ⟨⟨List.cons_ne_nil _ _, ?_⟩, ?_⟩
      · rw [List.forall_mem_cons]
        exact ⟨hc, List.all_eq_true.1 List.all_takeWhile⟩
      · rw [List.cons_append, List.takeWhile_append_dropWhile]
    · cases h

theorem eq_append_of_scanWhole {s whole rest : List Char}
    (h : scanWhole s = .ok (whole, rest)) :
    IsDigits whole ∧ (whole.head? = some '0' → whole = ['0']) ∧ s = whole ++ rest := by
  unfold scanWhole at h
  split at h
  · cases h
  · rename_i hscan
    split at h
    · cases h
    · rename_i hlead
      cases h
      obtain ⟨hdigits, hs⟩ := eq_append_of_scanDigits hscan
      refine ⟨hdigits, fun hzero => ?_, hs⟩
      obtain ⟨c, t, rfl, -, -⟩ := hdigits.exists_cons
      cases t with
      | nil => rw [Option.some_inj.1 hzero]
      | cons d t => exact absurd ⟨by simp, hzero⟩ hlead

/-- A sign is taken off, or there is none. -/
theorem scanSign_cases (s : List Char) :
    (∃ r, s = '-' :: r ∧ scanSign s = (true, r)) ∨
      (∃ r, s = '+' :: r ∧ scanSign s = (false, r)) ∨ scanSign s = (false, s) := by
  unfold scanSign
  split
  · exact .inl ⟨_, rfl, rfl⟩
  · exact .inr (.inl ⟨_, rfl, rfl⟩)
  · exact .inr (.inr rfl)

theorem exists_of_scanFraction {s rest : List Char} {fraction : Option (List Char)}
    (h : scanFraction s = .ok (fraction, rest)) :
    ∃ f, SpelledFraction fraction f ∧ s = f ++ rest := by
  unfold scanFraction at h
  split at h
  · obtain ⟨⟨digits, r⟩, hscan, hp⟩ := exists_of_map_eq_ok h
    cases hp
    obtain ⟨hdigits, rfl⟩ := eq_append_of_scanDigits hscan
    exact ⟨_, .some hdigits, rfl⟩
  · cases h
    exact ⟨_, .none, rfl⟩

theorem exists_of_scanExponent {s rest : List Char} {exponent : Option (Bool × List Char)}
    (h : scanExponent s = .ok (exponent, rest)) :
    ∃ e, SpelledExponent exponent e ∧ s = e ++ rest := by
  unfold scanExponent at h
  split at h
  · cases h
    exact ⟨[], .none, rfl⟩
  · rename_i c t
    split at h
    · rename_i hmark
      obtain ⟨⟨digits, r⟩, hscan, hp⟩ := exists_of_map_eq_ok h
      cases hp
      obtain ⟨hdigits, hsign⟩ := eq_append_of_scanDigits hscan
      obtain ⟨u, rfl, hu⟩ | ⟨u, rfl, hu⟩ | hu := scanSign_cases t <;> rw [hu] at hsign ⊢
      · obtain rfl : u = digits ++ rest := hsign
        exact ⟨_, .minus hmark hdigits, rfl⟩
      · obtain rfl : u = digits ++ rest := hsign
        exact ⟨_, .plus hmark hdigits, rfl⟩
      · obtain rfl : t = digits ++ rest := hsign
        exact ⟨_, .bare hmark hdigits, rfl⟩
    · cases h
      exact ⟨[], .none, rfl⟩

/-- What is scanned is a literal. -/
theorem exists_spelled_of_scan {s rest : List Char} {l : Literal} (h : scan s = .ok (l, rest)) :
    ∃ t, l.Spelled t ∧ s = t ++ rest := by
  unfold scan at h
  cases hw : scanWhole (scanMinus s).2 with
  | error e => simp [hw, bind, Except.bind] at h
  | ok w =>
    cases hf : scanFraction w.2 with
    | error e => simp [hw, hf, bind, Except.bind] at h
    | ok f =>
      cases he : scanExponent f.2 with
      | error e => simp [hw, hf, he, bind, Except.bind] at h
      | ok e =>
        simp only [hw, hf, he, bind, Except.bind, pure, Except.pure, Except.ok.injEq,
          Prod.mk.injEq] at h
        obtain ⟨rfl, rfl⟩ := h
        obtain ⟨hdigits, hzero, hwhole⟩ := eq_append_of_scanWhole hw
        obtain ⟨ft, hfraction, hft⟩ := exists_of_scanFraction hf
        obtain ⟨et, hexponent, het⟩ := exists_of_scanExponent he
        refine ⟨_, .mk hdigits hzero hfraction hexponent, ?_⟩
        have hs := eq_append_of_scanMinus s
        rw [hwhole, hft, het] at hs
        simpa using hs

/-- A text that is scanned to its end is a literal. -/
theorem spelled_of_scan {s : List Char} {l : Literal} (h : scan s = .ok (l, [])) : l.Spelled s := by
  obtain ⟨t, ht, rfl⟩ := exists_spelled_of_scan h
  rwa [List.append_nil]

end Literal

/-- The first character of a number literal. -/
theorem Literal.Spelled.exists_cons {l : Literal} {s : List Char} (h : l.Spelled s) :
    ∃ c t, s = c :: t ∧ (c = '-' ∨ c.isDigit) := by
  cases h with
  | @mk negative whole f e fraction exponent hwhole =>
    obtain ⟨c, t, rfl, hc, -⟩ := hwhole.exists_cons
    cases negative with
    | true => exact ⟨'-', _, rfl, .inl rfl⟩
    | false => exact ⟨c, _, rfl, .inr hc⟩

/-- The decimal text of a number is one of digits. -/
theorem isDigits_repr (m : Nat) : IsDigits m.repr.toList := by
  rw [Nat.toList_repr]
  exact ⟨Nat.toDigits_ne_nil, fun c hc => Nat.isDigit_of_mem_toDigits (by decide) (by decide) hc⟩

/-- Only the decimal text of zero starts with a zero. -/
theorem eq_zero_of_head?_repr {m : Nat} (h : m.repr.toList.head? = some '0') : m = 0 := by
  rw [Nat.toList_repr] at h
  induction m using Nat.strongRecOn with
  | _ m ih =>
    by_cases hm : m < 10
    · rw [Nat.toDigits_of_lt_base hm] at h
      have hdigits : ∀ k < 10, [k.digitChar].head? = some '0' → k = 0 := by decide
      exact hdigits m hm h
    · rw [Nat.toDigits_of_base_le (by decide) (Nat.not_lt.1 hm),
        List.head?_append_of_ne_nil _ Nat.toDigits_ne_nil] at h
      -- the first digit is that of the number without its last one
      have hdiv := ih (m / 10) (by omega) h
      omega

namespace Literal

/-- The literal of a decimal text, with a minus sign or without one. -/
def ofDecimal (negative : Bool) (m : Nat) : Literal := ⟨negative, m.repr.toList, none, none⟩

theorem spelled_ofDecimal (negative : Bool) (m : Nat) :
    (ofDecimal negative m).Spelled ((if negative then ['-'] else []) ++ m.repr.toList) := by
  have hzero : m.repr.toList.head? = some '0' → m.repr.toList = ['0'] := by
    intro hm
    rw [eq_zero_of_head?_repr hm]
    rfl
  have h : (ofDecimal negative m).Spelled
      ((if negative then ['-'] else []) ++ (m.repr.toList ++ ([] ++ []))) :=
    .mk (isDigits_repr m) hzero .none .none
  rwa [List.append_nil, List.append_nil] at h

theorem number?_ofDecimal {negative : Bool} {m : Nat}
    (h : if negative then 0 < m ∧ 2 * m ≤ UInt64.size else m < UInt64.size) :
    (ofDecimal negative m).number? = some (.integer (if negative then -m else m)) := by
  have hvalue : Nat.ofDigitChars 10 m.repr.toList 0 = m := by
    rw [Nat.toList_repr, Nat.ofDigitChars_toDigits (by decide) (by decide)]
  rw [number?, ofDecimal, hvalue]
  exact if_pos ⟨rfl, rfl, h⟩

end Literal

/-- An integer in decimal is a literal, and it stands for this integer. -/
theorem exists_literal_of_integer {n : Int} (hmin : Int64.minValue.toInt ≤ n)
    (hmax : n < UInt64.size) :
    ∃ l : Literal, l.Spelled n.repr.toList ∧ l.number? = some (.integer n) := by
  rw [Int.repr_eq_if]
  split
  · have hsize : n.toNat < UInt64.size := by omega
    refine ⟨.ofDecimal false n.toNat, Literal.spelled_ofDecimal false n.toNat, ?_⟩
    rw [Literal.number?_ofDecimal (by simpa using hsize)]
    simp
    omega
  · have hmin : (-9223372036854775808 : Int) ≤ n := hmin
    have hsize : 0 < (-n).toNat ∧ 2 * (-n).toNat ≤ UInt64.size := by
      simp only [UInt64.size]
      omega
    refine ⟨.ofDecimal true (-n).toNat, ?_, ?_⟩
    · rw [String.toList_append]
      exact Literal.spelled_ofDecimal true (-n).toNat
    · rw [Literal.number?_ofDecimal (by simpa using hsize)]
      simp
      omega

/-- Each text of a number is a literal for it. -/
theorem Scalar.Spelled.exists_literal {n : Number} {s : List Char}
    (h : (Scalar.number n).Spelled s) : ∃ l : Literal, l.Spelled s ∧ l.number? = some n := by
  cases h with
  | integer hmin hmax => exact exists_literal_of_integer hmin hmax
  | real hl hx => exact ⟨_, hl, hx⟩

/-- A number is read back from its text. -/
theorem number_spelled {n : Number} {s rest : List Char} (h : (Scalar.number n).Spelled s)
    (hrest : Ends rest) : number.run (s ++ rest) = .ok (n, rest) := by
  obtain ⟨l, hl, hn⟩ := h.exists_literal
  simp [number, Literal.scan_spelled hl hrest, hn]

/-! ## Starts -/

theorem run_start {b : List Char} (hb : IsBlanks b) {c : Char} (hc : isBlank c = false)
    (s : List Char) : start.run (b ++ c :: s) = startAt c s := by
  simp [start, skipBlanks_append_cons hb hc]

/-- A number starts with no character that something else starts with. -/
theorem ne_of_startsNumber {c : Char} (hc : c = '-' ∨ c.isDigit) :
    ∀ d ∈ [' ', '\t', '\n', '\r', '"', '[', ']', '{', '}', 'n', 't', 'f'], c ≠ d := by
  rintro d hd rfl
  have hother : ∀ d ∈ [' ', '\t', '\n', '\r', '"', '[', ']', '{', '}', 'n', 't', 'f'],
      ¬ (d = '-' ∨ d.isDigit) := by simp
  exact hother c hd hc

/-- A literal is read as a number. -/
theorem start_literal {l : Literal} {b s : List Char} (hb : IsBlanks b) (h : l.Spelled s)
    (rest : List Char) :
    start.run (b ++ (s ++ rest)) =
      (number.map fun n => Start.scalar (.number n)).run (s ++ rest) := by
  obtain ⟨c, t, rfl, hc⟩ := h.exists_cons
  have hne := ne_of_startsNumber hc
  simp only [List.forall_mem_cons] at hne
  rw [List.cons_append, run_start hb (by simp [isBlank, hne])]
  simp [startAt, hne, hc]

theorem start_number {n : Number} {b s rest : List Char} (hb : IsBlanks b)
    (h : (Scalar.number n).Spelled s) (hrest : Ends rest) :
    start.run (b ++ (s ++ rest)) = .ok (.scalar (.number n), rest) := by
  obtain ⟨l, hl, -⟩ := h.exists_literal
  rw [start_literal hb hl rest]
  exact Reader.run_map (number_spelled h hrest) _

/-- A scalar is read back from its text. -/
theorem start_scalar {v : Scalar} {b s rest : List Char} (hb : IsBlanks b) (h : v.Spelled s)
    (hrest : Ends rest) : start.run (b ++ (s ++ rest)) = .ok (.scalar v, rest) := by
  cases h with
  | null => exact run_start hb (by decide) _
  | @boolean value => cases value <;> exact run_start hb (by decide) _
  | integer hmin hmax => exact start_number hb (.integer hmin hmax) hrest
  | real hl hx => exact start_number hb (.real hl hx) hrest
  | string hs =>
    cases hs with
    | mk hs =>
      rw [List.cons_append, run_start hb (by decide), List.append_assoc]
      exact Reader.run_map (stringRest_spelled hs rest) _

theorem start_list {b : List Char} (hb : IsBlanks b) (s : List Char) :
    start.run (b ++ '[' :: s) = .ok (.list, s) :=
  run_start hb (by decide) s

theorem start_object {b : List Char} (hb : IsBlanks b) (s : List Char) :
    start.run (b ++ '{' :: s) = .ok (.object, s) :=
  run_start hb (by decide) s

end ZonePack.Json

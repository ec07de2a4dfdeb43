/-!
# ZonePack.Text.Terminal

Text that cannot steer the terminal it is shown on.  The controls that start or
make up a terminal's commands are replaced by their code points; tabs, line ends
and the other controls stay as they are.
-/

namespace ZonePack.Text

/-- The controls of ASCII that a terminal acts on: bell, backspace, form feed,
escape and delete. -/
def terminalControls : List Char := ['\x07', '\x08', '\x0c', '\x1b', '\x7f']

/-- How a character is shown on a terminal. -/
def inertChar (c : Char) : List Char :=
  if c ∈ terminalControls then
    ['\\', 'x', (c.toNat / 16).digitChar, (c.toNat % 16).digitChar]
  else if 0x80 ≤ c.toNat ∧ c.toNat < 0xa0 then
    ['\\', 'u', '{'] ++ Nat.toDigits 16 c.toNat ++ ['}']
  else [c]

/-- Text without the controls that a terminal acts on. -/
def inert (s : String) : String :=
  String.ofList (s.toList.flatMap inertChar)

/-- What is shown of a character is none of the controls. -/
theorem not_mem_inertChar {c d : Char} (h : c ∈ terminalControls) : c ∉ inertChar d := by
  unfold inertChar
  split
  · rename_i hd
    have : terminalControls.all fun d => terminalControls.all fun c =>
        decide (c ∉ ['\\', 'x', (d.toNat / 16).digitChar, (d.toNat % 16).digitChar]) := by decide
    exact of_decide_eq_true (List.all_eq_true.1 (List.all_eq_true.1 this d hd) c h)
  · rename_i hd
    split
    · rename_i hr
      have : (List.range 0xa0).all fun n => terminalControls.all fun c =>
          decide (c ∉ ['\\', 'u', '{'] ++ Nat.toDigits 16 n ++ ['}']) := by decide +kernel
      have := List.all_eq_true.1 this d.toNat (List.mem_range.2 hr.2)
      exact of_decide_eq_true (List.all_eq_true.1 this c h)
    · intro hc
      rw [List.mem_singleton] at hc
      exact hd (hc ▸ h)

/-- None of the controls is left in a text. -/
theorem not_mem_inert {c : Char} (h : c ∈ terminalControls) (s : String) :
    c ∉ (inert s).toList := by
  rw [inert, String.toList_ofList, List.mem_flatMap]
  rintro ⟨d, _, hc⟩
  exact not_mem_inertChar h hc

end ZonePack.Text

import ZonePack.Json.Record
import ZonePack.Proofs.Json.Tokens

/-!
# ZonePack.Proofs.Json.Reading

What readers take from texts of values.  `Reader.Takes p v a` says that whatever text
the value `v` is written as, the reader `p` takes all of it, and for `a`.  There is a
lemma for each way to make a reader:

* `Value.takes_reader` — a value is read as itself, if it is not nested too deep, and no
  document is too short for the value that it holds (`Value.document_of_spelledBy`);
* `takes_listOf`, `Record.takes_object` — lists and records are read from their items
  and fields, whatever the order of the fields is;
* `takes_nullable`, `takes_items` — members that may be null, and members that are lists;
* `takes_string`, `takes_int32`, `takes_whole` — single values.

Items and entries are gathered one by one in an accumulator, which `Gathers` follows.
What one item does is a lemma of its reader, and `Series.fold_list` and
`Series.fold_object` carry it through all of them, by induction on the gathering.
-/

namespace ZonePack.Json

/-! ## First characters -/

/-- No number starts with a blank, a bracket or a letter. -/
theorem Scalar.Spelled.exists_cons_number {n : Number} {s : List Char}
    (h : (Scalar.number n).Spelled s) :
    ∃ c t, s = c :: t ∧ isBlank c = false ∧ c ≠ ']' ∧ c ≠ 'n' := by
  obtain ⟨l, hl, -⟩ := h.exists_literal
  obtain ⟨c, t, rfl, hc⟩ := hl.exists_cons
  have hne := ne_of_startsNumber hc
  simp only [List.forall_mem_cons] at hne
  exact ⟨c, t, rfl, by simp [isBlank, hne], by simp [hne], by simp [hne]⟩

/-- No scalar starts with a blank or a bracket, and only null with its letter. -/
theorem Scalar.Spelled.exists_cons {v : Scalar} {s : List Char} (h : v.Spelled s) :
    ∃ c t, s = c :: t ∧ isBlank c = false ∧ c ≠ ']' ∧ (v ≠ .null → c ≠ 'n') := by
  cases h with
  | null => exact ⟨'n', _, rfl, by decide, by decide, fun hv => absurd rfl hv⟩
  | @boolean b =>
    cases b
    · exact ⟨'f', _, rfl, by decide, by decide, fun _ => by decide⟩
    · exact ⟨'t', _, rfl, by decide, by decide, fun _ => by decide⟩
  | integer hmin hmax =>
    obtain ⟨c, t, hs, hblank, hclose, hn⟩ := (Scalar.Spelled.integer hmin hmax).exists_cons_number
    exact ⟨c, t, hs, hblank, hclose, fun _ => hn⟩
  | real hl hx =>
    obtain ⟨c, t, hs, hblank, hclose, hn⟩ := (Scalar.Spelled.real hl hx).exists_cons_number
    exact ⟨c, t, hs, hblank, hclose, fun _ => hn⟩
  | string hs =>
    cases hs
    exact ⟨'"', _, rfl, by decide, by decide, fun _ => by decide⟩

/-- A value is written as a token after blanks. -/
theorem Value.Spelled.exists_token {v : Value} {s : List Char} (h : v.Spelled s) :
    ∃ b c t, s = b ++ c :: t ∧ IsBlanks b ∧ v.Spelled (c :: t) ∧ isBlank c = false ∧ c ≠ ']' ∧
      (v ≠ .null → c ≠ 'n') := by
  cases h with
  | scalar hb hv =>
    obtain ⟨c, t, rfl, hblank, hclose, hnull⟩ := hv.exists_cons
    refine ⟨_, c, t, rfl, hb, .scalar .nil hv, hblank, hclose, fun hne => hnull ?_⟩
    rintro rfl
    exact hne rfl
  | list hb hitems =>
    exact ⟨_, '[', _, rfl, hb, .list .nil hitems, by decide, by decide, fun _ => by decide⟩
  | object hb hentries =>
    exact ⟨_, '{', _, rfl, hb, .object .nil hentries, by decide, by decide, fun _ => by decide⟩

/-! ## Series -/

namespace Series

/-- After the items comes the closing bracket. -/
theorem nextInList_close {b : List Char} (hb : IsBlanks b) (isFirst : Bool) (rest : List Char) :
    nextInList isFirst (b ++ ']' :: rest) = .ok (.close rest) := by
  simp [nextInList, skipBlanks_append_cons hb (show isBlank ']' = false by decide)]

/-- An item is found after its separator, at its first character. -/
theorem nextInList_item {isFirst : Bool} {sep b : List Char} (hsep : IsSeparator isFirst sep)
    (hb : IsBlanks b) {c : Char} (hc : isBlank c = false) (hclose : c ≠ ']') (s : List Char) :
    nextInList isFirst (sep ++ (b ++ c :: s)) = .ok (.item (c :: s)) := by
  cases hsep with
  | first => simp [nextInList, skipBlanks_append_cons hb hc, hclose]
  | comma hblanks =>
    rw [List.append_assoc, List.singleton_append]
    simp [nextInList, skipBlanks_append_cons hblanks (show isBlank ',' = false by decide),
      skipBlanks_append_cons hb hc, hclose]

theorem nextInObject_close {b : List Char} (hb : IsBlanks b) (isFirst : Bool)
    (rest : List Char) : nextInObject isFirst (b ++ '}' :: rest) = .ok (.close rest) := by
  simp [nextInObject, skipBlanks_append_cons hb (show isBlank '}' = false by decide)]

/-- An entry is found after its separator; the quote of its key is taken off. -/
theorem nextInObject_item {isFirst : Bool} {sep b : List Char} (hsep : IsSeparator isFirst sep)
    (hb : IsBlanks b) (s : List Char) :
    nextInObject isFirst (sep ++ (b ++ '"' :: s)) = .ok (.item s) := by
  have hquote : isBlank '"' = false := by decide
  cases hsep with
  | first => simp [nextInObject, skipBlanks_append_cons hb hquote]
  | comma hblanks =>
    rw [List.append_assoc, List.singleton_append]
    simp [nextInObject, skipBlanks_append_cons hblanks (show isBlank ',' = false by decide),
      skipBlanks_append_cons hb hquote]

variable {σ : Type} {series : Series} {item : σ → Reader σ} {isFirst : Bool} {acc next : σ}
  {s t rest : List Char}

theorem fold_close (h : series.next isFirst s = .ok (.close rest)) :
    series.fold item isFirst acc s = .ok (acc, rest) := by
  rw [fold]
  split <;> rename_i hn <;> rw [h] at hn <;> cases hn
  rfl

/-- What an item leaves behind is where the next one is looked for. -/
theorem fold_item (h : series.next isFirst s = .ok (.item t))
    (hi : (item acc).run t = .ok (next, rest)) :
    series.fold item isFirst acc s = series.fold item false next rest := by
  rw [fold]
  split <;> rename_i hn <;> rw [h] at hn <;> cases hn
  split <;> rename_i hrun <;> rw [hi] at hrun <;> cases hrun
  rfl

end Series

/-- An item ends where the next one or the closing bracket comes. -/
theorem Joined.ends {α : Type} {spelled : α → List Char → Prop} {as : List α} {s : List Char}
    (h : Joined spelled false as s) {closer : Char} (hcloser : closer = ']' ∨ closer = '}')
    (rest : List Char) : Ends (s ++ closer :: rest) := by
  have hblanks : ∀ {b t : List Char}, IsBlanks b → Ends t → Ends (b ++ t) := by
    intro b t hb ht
    cases b with
    | nil => exact ht
    | cons c b =>
      intro d hd
      cases hd
      exact .inl (isBlank_iff.2 (hb c List.mem_cons_self))
  cases h with
  | nil hb =>
    refine hblanks hb fun c hc => ?_
    cases hc
    exact .inr (.inr hcloser)
  | cons hsep =>
    cases hsep with
    | comma hb =>
      simp only [List.append_assoc, List.singleton_append]
      refine hblanks hb fun c hc => ?_
      cases hc
      exact .inr (.inl rfl)

/-- An item has a text that is no longer than the one it is joined into. -/
theorem Joined.exists_of_mem {α : Type} {spelled : α → List Char → Prop} {isFirst : Bool}
    {as : List α} {s : List Char} (h : Joined spelled isFirst as s) {a : α} (ha : a ∈ as) :
    ∃ t, spelled a t ∧ t.length ≤ s.length := by
  induction h with
  | nil => cases ha
  | @cons _ sep t s b _ _ hb _ ih =>
    simp only [List.length_append]
    obtain rfl | ha := List.mem_cons.1 ha
    · exact ⟨t, hb, by omega⟩
    · obtain ⟨t, ht, hlength⟩ := ih ha
      exact ⟨t, ht, by omega⟩

/-! ## Gathering -/

/-- Items are gathered in an accumulator, one step for each of them. -/
inductive Gathers {σ α : Type} (step : σ → α → σ → Prop) : σ → List α → σ → Prop where
  | nil {acc : σ} : Gathers step acc [] acc
  | cons {acc next last : σ} {a : α} {as : List α} :
    step acc a next → Gathers step next as last → Gathers step acc (a :: as) last

/-- What is put before all that has been gathered so far ends up in reverse order. -/
theorem gathers_reverse {α β : Type} {step : List β → α → List β → Prop} {as : List α}
    {bs : List β} (h : List.Forall₂ (fun a b => ∀ rev, step rev a (b :: rev)) as bs)
    (rev : List β) : Gathers step rev as (bs.reverse ++ rev) := by
  induction h generalizing rev with
  | nil => exact .nil
  | @cons a b as bs hab _ ih =>
    rw [List.reverse_cons, List.append_assoc]
    exact .cons (hab rev) (ih (b :: rev))

/-- The reader takes each text of a value off the front of what it reads, for `a`. -/
def Reader.Takes {α : Type} (p : Reader α) (v : Value) (a : α) : Prop :=
  ∀ s rest, v.Spelled s → Ends rest → p.run (s ++ rest) = .ok (a, rest)

/-- The colon is found after blanks. -/
theorem colon_spelled {b : List Char} (hb : IsBlanks b) (rest : List Char) :
    colon.run (b ++ ':' :: rest) = .ok ((), rest) := by
  simp [colon, takeColon, skipBlanks_append_cons hb (show isBlank ':' = false by decide),
    Except.map]

/-- After the key of an entry its value is read. -/
theorem run_entry {α : Type} {choose : String → Except Fault (Reader α)} {value : Reader α}
    {key : String} {k b : List Char} (hkey : SpelledChars key.toList k) (hb : IsBlanks b)
    (hchoose : choose key = .ok value) (s : List Char) :
    (entry choose).run (k ++ '"' :: (b ++ ':' :: s)) = value.run s := by
  rw [entry, Reader.run_bind (stringRest_spelled hkey _)]
  simp only [hchoose]
  exact Reader.run_bind (colon_spelled hb s) _

namespace Series

variable {σ α : Type} {isFirst : Bool} {sep s t : List Char}

/-- An item of a list is found behind its blanks. -/
theorem exists_next_list (hsep : IsSeparator isFirst sep) {v : Value} (ht : v.Spelled t) :
    ∃ u, v.Spelled u ∧ ∀ rest,
      list.next isFirst (sep ++ (t ++ rest)) = .ok (.item (u ++ rest)) := by
  obtain ⟨b, c, t, rfl, hb, ht, hblank, hclose, -⟩ := ht.exists_token
  refine ⟨c :: t, ht, fun rest => ?_⟩
  simpa [list] using nextInList_item hsep hb hblank hclose (t ++ rest)

/-- An entry of an object is found behind its blanks and the first quote of its key; reading
it is reading its value by what its key is followed by. -/
theorem exists_next_object {choose : String → Except Fault (Reader α)} {value : Reader α}
    (hsep : IsSeparator isFirst sep) {e : String × Value}
    (ht : SpelledEntry Value.Spelled e t) (hchoose : choose e.1 = .ok value) :
    ∃ t' u, e.2.Spelled u ∧ ∀ rest,
      object.next isFirst (sep ++ (t ++ rest)) = .ok (.item (t' ++ rest)) ∧
      (entry choose).run (t' ++ rest) = value.run (u ++ rest) := by
  cases ht with
  | @mk key v b k b' u hb hk hb' hv =>
    cases hk with
    | @mk k hkey =>
      refine ⟨k ++ '"' :: (b' ++ ':' :: u), u, hv, fun rest => ⟨?_, ?_⟩⟩
      · simpa [object] using nextInObject_item hsep hb (k ++ '"' :: (b' ++ ':' :: (u ++ rest)))
      · simpa using run_entry hkey hb' hchoose (u ++ rest)

variable {acc last : σ}

/-- The items of a list are gathered from its text. -/
theorem fold_list {item : σ → Reader σ} {vs : List Value}
    (hg : Gathers (fun acc v next => (item acc).Takes v next) acc vs last)
    (hs : Joined Value.Spelled isFirst vs s) (rest : List Char) :
    list.fold item isFirst acc (s ++ ']' :: rest) = .ok (last, rest) := by
  induction hg generalizing isFirst s with
  | nil =>
    cases hs with
    | nil hb => exact fold_close (nextInList_close hb isFirst rest)
  | cons hitem _ ih =>
    cases hs with
    | cons hsep ht hs =>
      obtain ⟨u, hu, hnext⟩ := exists_next_list hsep ht
      have hrun := hitem _ _ hu (hs.ends (.inl rfl) rest)
      simp only [List.append_assoc]
      rw [fold_item (hnext _) hrun, ih hs]

/-- The entries of an object are gathered from its text. -/
theorem fold_object {choose : σ → String → Except Fault (Reader σ)} {es : List (String × Value)}
    (hg : Gathers (fun acc e next => ∃ value, choose acc e.1 = .ok value ∧ value.Takes e.2 next)
      acc es last)
    (hs : Joined (SpelledEntry Value.Spelled) isFirst es s) (rest : List Char) :
    object.fold (fun acc => entry (choose acc)) isFirst acc (s ++ '}' :: rest) =
      .ok (last, rest) := by
  induction hg generalizing isFirst s with
  | nil =>
    cases hs with
    | nil hb => exact fold_close (nextInObject_close hb isFirst rest)
  | cons hentry _ ih =>
    obtain ⟨value, hchoose, hvalue⟩ := hentry
    cases hs with
    | cons hsep ht hs =>
      obtain ⟨t', u, hu, hnext⟩ := exists_next_object hsep ht hchoose
      have hrun := hvalue _ _ hu (hs.ends (.inr rfl) rest)
      rw [← (hnext _).2] at hrun
      simp only [List.append_assoc]
      rw [fold_item (hnext _).1 hrun, ih hs]

end Series

/-! ## Parts of readers -/

namespace Reader

variable {α β : Type} {p : Reader α} {v : Value} {a : α}

theorem Takes.refine (h : p.Takes v a) {f : α → Except Fault β} {b : β} (hf : f a = .ok b) :
    (p.refine f).Takes v b :=
  fun _ _ hs hrest => run_refine (h _ _ hs hrest) hf

theorem Takes.map (h : p.Takes v a) (f : α → β) : (p.map f).Takes v (f a) :=
  h.refine rfl

/-- A value is read from a document that holds it and nothing else. -/
theorem Takes.document (h : p.Takes v a) {text : String} (ht : v.SpelledBy text) :
    p.document text = .ok a := by
  obtain ⟨s, b, hs, hb, htext⟩ := ht
  have hends : Ends b := by
    intro c hc
    exact .inl (isBlank_iff.2 (hb c (List.mem_of_mem_head? hc)))
  simp [Reader.document, htext, h s b hs hends, skipBlanks_of_isBlanks hb]

end Reader

/-- A scalar is read by its start. -/
theorem takes_start_scalar {α : Type} {f : Start → Except Fault α} {v : Scalar} {a : α}
    (h : f (.scalar v) = .ok a) : (start.refine f).Takes (.scalar v) a := by
  intro s rest hs hrest
  cases hs with
  | scalar hb hv =>
    rw [List.append_assoc]
    exact Reader.run_refine (start_scalar hb hv hrest) h

/-- The items of a list are gathered as they are read. -/
theorem gathers_items {α : Type} {p : Reader α} {vs : List Value} {as : List α}
    (h : List.Forall₂ p.Takes vs as) (rev : List α) :
    Gathers (fun rev v next => (p.map (· :: rev)).Takes v next) rev vs (as.reverse ++ rev) :=
  gathers_reverse (h.imp fun _ _ hv rev => hv.map (· :: rev)) rev

/-! ## Values -/

namespace Value

/-- Whether a value has no more than `room` brackets inside each other. -/
def FitsIn : (room : Nat) → Value → Prop
  | _, .scalar _ => True
  | 0, .list _ => False
  | 0, .object _ => False
  | room + 1, .list items => ∀ v ∈ items, FitsIn room v
  | room + 1, .object entries => ∀ e ∈ entries, FitsIn room e.2

@[simp] theorem fitsIn_scalar (room : Nat) (v : Scalar) : FitsIn room (.scalar v) := by
  cases room <;> trivial

/-- The items of a list are read from its text. -/
theorem takeItems_spelled {value : Reader Value} {items : List Value} {s : List Char}
    (h : ∀ v ∈ items, value.Takes v v) (hs : Joined Spelled true items s) (rest : List Char) :
    takeItems value (s ++ ']' :: rest) = .ok (.list items, rest) := by
  have hitems : List.Forall₂ value.Takes items items := List.forall₂_same.2 h
  rw [takeItems, Series.fold_list (gathers_items hitems []) hs]
  simp [Except.map]

/-- Every key is followed by a value, which is added to the entries before it. -/
def chooseAny (value : Reader Value) (rev : List (String × Value)) (key : String) :
    Except Fault (Reader (List (String × Value))) :=
  .ok (value.map fun v => (key, v) :: rev)

/-- The entries of an object are gathered as they are read. -/
theorem gathers_entries {value : Reader Value} {entries : List (String × Value)}
    (h : ∀ e ∈ entries, value.Takes e.2 e.2) (rev : List (String × Value)) :
    Gathers (fun rev e next => ∃ p, chooseAny value rev e.1 = .ok p ∧ p.Takes e.2 next)
      rev entries (entries.reverse ++ rev) :=
  gathers_reverse (List.forall₂_same.2 fun e he _ => ⟨_, rfl, (h e he).map _⟩) rev

/-- The entries of an object are read from its text. -/
theorem takeEntries_spelled {value : Reader Value} {entries : List (String × Value)}
    {s : List Char} (h : ∀ e ∈ entries, value.Takes e.2 e.2)
    (hs : Joined (SpelledEntry Spelled) true entries s) (rest : List Char) :
    takeEntries value (s ++ '}' :: rest) = .ok (.object entries, rest) := by
  have hreader : entryReader value = fun rev => entry (chooseAny value rev) := rfl
  rw [takeEntries, hreader, Series.fold_object (gathers_entries h []) hs]
  simp [Except.map]

/-- A value is read as itself, if there is room for it. -/
theorem takes_reader {room : Nat} {v : Value} (h : v.FitsIn room) :
    (reader room).Takes v v := by
  induction room generalizing v with
  | zero =>
    cases v with
    | scalar v => exact takes_start_scalar rfl
    | list items => exact absurd h id
    | object entries => exact absurd h id
  | succ room ih =>
    intro s rest hs hrest
    cases hs with
    | scalar hb hv => simp [reader, Reader.extend, start_scalar hb hv hrest]
    | list hb hitems =>
      have hrest := takeItems_spelled (fun v hv => ih (h v hv)) hitems rest
      simp [reader, Reader.extend, start_list hb, hrest]
    | object hb hentries =>
      have hrest := takeEntries_spelled (fun e he => ih (h e he)) hentries rest
      simp [reader, Reader.extend, start_object hb, hrest]

/-- A value has no more brackets inside each other than any text of it has characters. -/
theorem Spelled.fitsIn {room : Nat} {v : Value} {s : List Char} (h : v.Spelled s)
    (hroom : s.length ≤ room) : v.FitsIn room := by
  induction room generalizing v s with
  | zero => cases h <;> simp at hroom ⊢
  | succ room ih =>
    cases h with
    | scalar => exact fitsIn_scalar _ _
    | @list items _ s _ hitems =>
      intro v hv
      obtain ⟨t, ht, hlength⟩ := hitems.exists_of_mem hv
      simp only [List.length_append, List.length_cons] at hroom
      exact ih ht (by omega)
    | @object entries _ s _ hentries =>
      intro e he
      obtain ⟨t, ht, hlength⟩ := hentries.exists_of_mem he
      simp only [List.length_append, List.length_cons] at hroom
      cases ht with
      | mk _ _ _ hv =>
        simp only [List.length_append, List.length_cons] at hlength
        exact ih hv (by omega)

/-- So a document that holds a value is long enough to read it. -/
theorem document_of_spelledBy {v : Value} {text : String} (h : v.SpelledBy text) :
    (reader text.length).document text = .ok v := by
  refine (takes_reader ?_).document h
  obtain ⟨s, b, hs, -, htext⟩ := h
  refine hs.fitsIn ?_
  rw [← String.length_toList, htext, List.length_append]
  exact Nat.le_add_right _ _

end Value

/-! ## Single values -/

section

variable {α : Type} {p : Reader α} {v : Value} {a : α}

theorem takes_nullable_null (p : Reader α) : (nullable p).Takes .null none := by
  intro s rest hs hrest
  cases hs with
  | scalar hb hv =>
    cases hv
    have hn : isBlank 'n' = false := by decide
    simp [nullable, skipBlanks_append_cons hb hn, takeWord, Except.map]

/-- A value that is not null is read as if it could not be. -/
theorem run_nullable {s : List Char} (hs : v.Spelled s) (hv : v ≠ .null) (rest : List Char) :
    (nullable p).run (s ++ rest) = (p.map some).run (s ++ rest) := by
  obtain ⟨b, c, t, rfl, hb, -, hblank, -, hn⟩ := hs.exists_token
  have hfirst : skipBlanks (b ++ c :: t ++ rest) = c :: (t ++ rest) := by
    rw [List.append_assoc, List.cons_append, skipBlanks_append_cons hb hblank]
  simp only [nullable, hfirst]
  split
  · -- null is taken from its first letter on, and this value has another one
    rename_i heq
    exact absurd (List.cons_eq_cons.1 heq).1 (hn hv)
  · rfl

theorem takes_nullable_some (h : p.Takes v a) (hv : v ≠ .null) :
    (nullable p).Takes v (some a) :=
  fun s rest hs hrest => (run_nullable hs hv rest).trans (h.map some s rest hs hrest)

/-- A member that may be null is read as what there is to write. -/
theorem takes_nullable {written : α → Value → Prop} (h : ∀ {a v}, written a v → p.Takes v a)
    (hnull : ∀ {a v}, written a v → v ≠ .null) {key : String} {o : Option α}
    (hv : (Member.nullable key written o).holds v) : (nullable p).Takes v o := by
  cases o with
  | none =>
    obtain rfl : v = .null := hv
    exact takes_nullable_null p
  | some a => exact takes_nullable_some (h hv) (hnull hv)

end

theorem takes_string {s : String} {v : Value} (h : v = .string s) : string.Takes v s := by
  subst h
  exact takes_start_scalar rfl

theorem takes_int32 {n : Int32} {v : Value} (h : v = .integer n.toInt) : int32.Takes v n := by
  subst h
  refine takes_start_scalar ?_
  have hrange : Int32.minValue.toInt ≤ n.toInt ∧ n.toInt ≤ Int32.maxValue.toInt :=
    ⟨n.minValue_le_toInt, n.toInt_le⟩
  simp only [hrange, and_self, if_true, Int32.ofInt_toInt]

theorem takes_whole {n : Int64} {v : Value} (h : v = .integer n.toInt) (room : Nat) :
    (whole room).Takes v n := by
  subst h
  refine (Value.takes_reader (Value.fitsIn_scalar room _)).refine ?_
  simp [wholeOf, Except.mapError]

theorem ne_null_of_integer {n : Int} {v : Value} (h : v = .integer n) : v ≠ .null := by
  subst h
  rintro ⟨⟩

/-! ## Lists -/

/-- A list is read item by item. -/
theorem takes_listOf {α : Type} {item : Nat → Reader α} {room : Nat} {vs : List Value}
    {as : List α} (h : List.Forall₂ (item room).Takes vs as) :
    (listOf item (room + 1)).Takes (.list vs) as := by
  intro s rest hs hrest
  cases hs with
  | list hb hitems =>
    have hfold := Series.fold_list (gathers_items h []) hitems rest
    simp [listOf, Reader.extend, start_list hb, nested, takeItems, hfold, Except.map]

/-- A member that is a list is read as its items. -/
theorem takes_items {α : Type} {item : Nat → Reader α} {room : Nat} {v : Value}
    {written : α → Value → Prop} (h : ∀ {a v}, written a v → (item room).Takes v a)
    {key : String} {as : List α} (hv : (Member.items key written as).holds v) :
    (listOf item (room + 1)).Takes v as := by
  obtain ⟨vs, rfl, hvs⟩ := hv
  exact takes_listOf (hvs.imp fun _ _ => h)

/-! ## Records -/

namespace Record

variable {σ α : Type} {record : Record σ α} {room : Nat} {draft : List String → σ}

/-- What a draft holds for a key when some keys have been read. -/
def afterReading (keys : List String) (key : String) (a : α) : Option α :=
  if key ∈ keys then some a else none

@[simp] theorem afterReading_cons_self (keys : List String) (key : String) (a : α) :
    afterReading (key :: keys) key a = some a :=
  if_pos List.mem_cons_self

@[simp] theorem afterReading_cons_of_ne {key k : String} (h : key ≠ k) (keys : List String)
    (a : α) : afterReading (k :: keys) key a = afterReading keys key a := by
  simp [afterReading, h]

/-- What an object must have has been read in the end. -/
theorem afterReading_of_mem {keys : List String} {key : String} (h : key ∈ keys) (a : α) :
    afterReading keys key a = some a :=
  if_pos h

/-- A missing value counts as null. -/
theorem join_afterReading {keys : List String} {key : String} {o : Option α}
    (h : o.isNone ∨ key ∈ keys) : (afterReading keys key o).join = o := by
  by_cases hkey : key ∈ keys
  · simp [afterReading, hkey]
  · have hnone : o = none := by simpa [hkey] using h
    simp [afterReading, hkey, hnone]

/-- A missing list counts as empty. -/
theorem getD_afterReading {keys : List String} {key : String} {as : List α}
    (h : as.isEmpty ∨ key ∈ keys) : (afterReading keys key as).getD [] = as := by
  by_cases hkey : key ∈ keys
  · simp [afterReading, hkey]
  · have hnil : as = [] := by simpa [hkey] using h
    simp [afterReading, hkey, hnil]

/-- A field is found by its key. -/
theorem find?_of_mem {fields : List (Field σ)} {f : Field σ} (h : f ∈ fields)
    (hnodup : (fields.map Field.key).Nodup) :
    fields.find? (fun g => g.key = f.key) = some f := by
  induction fields with
  | nil => cases h
  | cons g fields ih =>
    rw [List.map_cons, List.nodup_cons] at hnodup
    obtain rfl | h := List.mem_cons.1 h
    · simp
    · have hne : g.key ≠ f.key := fun heq => hnodup.1 (heq ▸ List.mem_map_of_mem h)
      simp [hne, ih h hnodup.2]

/-- A field that has not been given yet is the one that is chosen for its key. -/
theorem choose_of_mem {fields : List (Field σ)} {f : Field σ} {d : σ} (h : f ∈ fields)
    (hnodup : (fields.map Field.key).Nodup) (hgiven : f.isGiven d = false) :
    choose fields d f.key = .ok (f.fill d) := by
  simp [choose, find?_of_mem h hnodup, hgiven]

/-- Whether a record has a field for a member.  `draft` says what has been gathered when
some keys have been read. -/
def Fills (record : Record σ α) (room : Nat) (draft : List String → σ) (m : Member) : Prop :=
  ∀ v keys, m.holds v → m.key ∉ keys → ∃ f ∈ record.fields room, f.key = m.key ∧
    f.isGiven (draft keys) = false ∧ (f.fill (draft keys)).Takes v (draft (m.key :: keys))

/-- A field that puts what it reads into the draft is one for a member. -/
theorem fills_of_map {β : Type} {m : Member} {isGiven : σ → Bool} {isRequired : Bool}
    {p : Reader β} {put : σ → β → σ} {b : β}
    (hmem : ⟨m.key, isGiven, isRequired, fun d => p.map (put d)⟩ ∈ record.fields room)
    (hgiven : ∀ keys, isGiven (draft keys) = (afterReading keys m.key b).isSome)
    (hput : ∀ keys, put (draft keys) b = draft (m.key :: keys))
    (hp : ∀ v, m.holds v → p.Takes v b) : record.Fills room draft m := by
  intro v keys hv hkey
  refine ⟨_, hmem, rfl, ?_, hput keys ▸ (hp v hv).map _⟩
  simp [hgiven, afterReading, hkey]

/-- Members are gathered in the order of their entries. -/
theorem gathers_members {entries : List (String × Value)}
    (hfields : ((record.fields room).map Field.key).Nodup)
    (hfills : ∀ e ∈ entries, ∃ m, record.Fills room draft m ∧ m.key = e.1 ∧ m.holds e.2)
    (hnodup : (entries.map (·.1)).Nodup) {keys : List String}
    (hkeys : ∀ e ∈ entries, e.1 ∉ keys) :
    Gathers (fun d e next => ∃ p, choose (record.fields room) d e.1 = .ok p ∧ p.Takes e.2 next)
      (draft keys) entries (draft ((entries.map (·.1)).reverse ++ keys)) := by
  induction entries generalizing keys with
  | nil => exact .nil
  | cons e entries ih =>
    rw [List.forall_mem_cons] at hfills hkeys
    rw [List.map_cons, List.nodup_cons] at hnodup
    obtain ⟨m, hfill, hkey, hholds⟩ := hfills.1
    -- the member's field is the one that is chosen, and nothing has been given for it yet
    obtain ⟨f, hf, hfkey, hgiven, htakes⟩ := hfill e.2 keys hholds (hkey ▸ hkeys.1)
    have hchoose := choose_of_mem hf hfields hgiven
    rw [hfkey, hkey] at hchoose
    rw [hkey] at htakes
    refine .cons ⟨f.fill (draft keys), hchoose, htakes⟩ ?_
    have hrest : ∀ e' ∈ entries, e'.1 ∉ e.1 :: keys := by
      intro e' he' hmem
      obtain heq | hmem := List.mem_cons.1 hmem
      · exact hnodup.1 (heq ▸ List.mem_map_of_mem he')
      · exact hkeys.2 e' he' hmem
    simpa using ih hfills.2 hnodup.2 hrest

/-- A record is read from an object of its members, whatever their order is. -/
theorem takes_object {members : List Member} {v : Value} {a : α} (draft : List String → σ)
    (hblank : record.blank = draft []) (hfields : ((record.fields room).map Field.key).Nodup)
    (hfills : ∀ m ∈ members, record.Fills room draft m)
    (hbuild : ∀ keys, (∀ m ∈ members, m.isOptional ∨ m.key ∈ keys) →
      record.build (draft keys) = .ok a)
    (hv : v.IsObjectOf members) : (record.reader (room + 1)).Takes v a := by
  obtain ⟨entries, rfl, hnodup, hmembers, hrequired⟩ := hv
  have hentry : ∀ e ∈ entries, ∃ m, record.Fills room draft m ∧ m.key = e.1 ∧ m.holds e.2 := by
    intro e he
    obtain ⟨m, hm, hkey, hholds⟩ := hmembers e he
    exact ⟨m, hfills m hm, hkey, hholds⟩
  have hgathers := gathers_members hfields hentry hnodup fun e _ => List.not_mem_nil
  rw [← hblank, List.append_nil] at hgathers
  have hdone := hbuild (entries.map (·.1)).reverse (by simpa using hrequired)
  intro s rest hs hrest
  cases hs with
  | object hb hentries =>
    have hfold := Series.fold_object hgathers hentries rest
    simp [reader, Reader.extend, start_object hb, nested, takeRest, takeDraft, takeObject, hfold,
      hdone]

end Record

end ZonePack.Json

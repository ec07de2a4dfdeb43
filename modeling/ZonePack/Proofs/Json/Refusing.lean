import ZonePack.Proofs.Json.Reading

/-!
# ZonePack.Proofs.Json.Refusing

What readers refuse.  `Reader.Refuses p v f` says that whatever text the value `v` is
written as, the reader `p` finds the fault `f` in it.

* `Value.refuses_reader` — a value that is nested too deep is refused for that;
* `Record.refuses_object` — a record is refused for a member that its field refuses.

A list or an object is read up to the first item that is refused: the items before it are
gathered (`Gathers`), and the fault is that of the item (`Series.fold_list_error` and
`Series.fold_object_error`).
-/

namespace ZonePack.Json

/-- The reader finds the fault in each text of a value. -/
def Reader.Refuses {α : Type} (p : Reader α) (v : Value) (f : Fault) : Prop :=
  ∀ s rest, v.Spelled s → Ends rest → p.run (s ++ rest) = .error f

/-! ## Parts of readers -/

namespace Reader

variable {α β : Type} {p : Reader α} {v : Value} {f : Fault}

theorem Refuses.refine (h : p.Refuses v f) (g : α → Except Fault β) :
    (p.refine g).Refuses v f := by
  intro s rest hs hrest
  simp [Reader.refine, extend, h s rest hs hrest]

theorem Refuses.map (h : p.Refuses v f) (g : α → β) : (p.map g).Refuses v f :=
  h.refine _

/-- A value that is taken may be refused after it. -/
theorem Takes.refuses_refine {a : α} (h : p.Takes v a) {g : α → Except Fault β}
    (hg : g a = .error f) : (p.refine g).Refuses v f := by
  intro s rest hs hrest
  simp [Reader.refine, extend, h s rest hs hrest, hg]

/-- A value that is not null is refused as if it could not be. -/
theorem Refuses.nullable (h : p.Refuses v f) (hv : v ≠ .null) : (nullable p).Refuses v f :=
  fun s rest hs hrest => (run_nullable hs hv rest).trans (h.map some s rest hs hrest)

end Reader

/-! ## Series -/

namespace Series

variable {σ : Type} {isFirst : Bool} {acc last : σ} {f : Fault} {s : List Char}

theorem fold_item_error {series : Series} {item : σ → Reader σ} {t : List Char}
    (h : series.next isFirst s = .ok (.item t)) (hi : (item acc).run t = .error f) :
    series.fold item isFirst acc s = .error f := by
  rw [fold]
  split <;> rename_i hn <;> rw [h] at hn <;> cases hn
  split <;> rename_i hrun <;> rw [hi] at hrun <;> cases hrun
  rfl

/-- A list is read up to an item that is refused. -/
theorem fold_list_error {item : σ → Reader σ} {before after : List Value} {v : Value}
    (hg : Gathers (fun acc v next => (item acc).Takes v next) acc before last)
    (hv : (item last).Refuses v f)
    (hs : Joined Value.Spelled isFirst (before ++ v :: after) s) (rest : List Char) :
    list.fold item isFirst acc (s ++ ']' :: rest) = .error f := by
  induction hg generalizing isFirst s with
  | nil =>
    cases hs with
    | cons hsep ht hs =>
      obtain ⟨u, hu, hnext⟩ := exists_next_list hsep ht
      simp only [List.append_assoc]
      exact fold_item_error (hnext _) (hv _ _ hu (hs.ends (.inl rfl) rest))
  | cons hitem _ ih =>
    cases hs with
    | cons hsep ht hs =>
      obtain ⟨u, hu, hnext⟩ := exists_next_list hsep ht
      have hrun := hitem _ _ hu (hs.ends (.inl rfl) rest)
      simp only [List.append_assoc]
      rw [fold_item (hnext _) hrun, ih hv hs]

/-- An object is read up to an entry whose value is refused. -/
theorem fold_object_error {choose : σ → String → Except Fault (Reader σ)}
    {before after : List (String × Value)} {e : String × Value} {value : Reader σ}
    (hg : Gathers (fun acc e next => ∃ value, choose acc e.1 = .ok value ∧ value.Takes e.2 next)
      acc before last)
    (hchoose : choose last e.1 = .ok value) (hvalue : value.Refuses e.2 f)
    (hs : Joined (SpelledEntry Value.Spelled) isFirst (before ++ e :: after) s)
    (rest : List Char) :
    object.fold (fun acc => entry (choose acc)) isFirst acc (s ++ '}' :: rest) = .error f := by
  induction hg generalizing isFirst s with
  | nil =>
    cases hs with
    | cons hsep ht hs =>
      obtain ⟨t', u, hu, hnext⟩ := exists_next_object hsep ht hchoose
      have hrun := hvalue _ _ hu (hs.ends (.inr rfl) rest)
      rw [← (hnext _).2] at hrun
      simp only [List.append_assoc]
      exact fold_item_error (hnext _).1 hrun
  | cons hentry _ ih =>
    obtain ⟨value', hchoose', hvalue'⟩ := hentry
    cases hs with
    | cons hsep ht hs =>
      obtain ⟨t', u, hu, hnext⟩ := exists_next_object hsep ht hchoose'
      have hrun := hvalue' _ _ hu (hs.ends (.inr rfl) rest)
      rw [← (hnext _).2] at hrun
      simp only [List.append_assoc]
      rw [fold_item (hnext _).1 hrun, ih hchoose hs]

end Series

/-! ## Values -/

/-- Where not all items are good, there is a first one that is not. -/
theorem exists_first_of_not_forall {α : Type} {good : α → Prop} {as : List α}
    (h : ¬ ∀ a ∈ as, good a) :
    ∃ before a after, as = before ++ a :: after ∧ (∀ b ∈ before, good b) ∧ ¬ good a := by
  induction as with
  | nil => exact absurd (List.forall_mem_nil _) h
  | cons a as ih =>
    by_cases ha : good a
    · have htail : ¬ ∀ b ∈ as, good b := fun hall => h (List.forall_mem_cons.2 ⟨ha, hall⟩)
      obtain ⟨before, b, after, rfl, hbefore, hb⟩ := ih htail
      exact ⟨a :: before, b, after, rfl, List.forall_mem_cons.2 ⟨ha, hbefore⟩, hb⟩
    · exact ⟨[], a, as, rfl, List.forall_mem_nil _, ha⟩

namespace Value

/-- A value that there is no room for is refused. -/
theorem refuses_reader {room : Nat} {v : Value} (h : ¬ v.FitsIn room) :
    (reader room).Refuses v (.malformed .tooDeep) := by
  induction room generalizing v with
  | zero =>
    intro s rest hs _
    cases hs with
    | scalar => exact absurd (fitsIn_scalar 0 _) h
    | list hb => simp [reader, Reader.refine, Reader.extend, start_list hb]
    | object hb => simp [reader, Reader.refine, Reader.extend, start_object hb]
  | succ room ih =>
    intro s rest hs _
    cases hs with
    | scalar => exact absurd (fitsIn_scalar _ _) h
    | list hb hitems =>
      obtain ⟨before, v, after, rfl, hbefore, hv⟩ := exists_first_of_not_forall h
      have hgathers : List.Forall₂ (reader room).Takes before before :=
        List.forall₂_same.2 fun w hw => takes_reader (hbefore w hw)
      have hfold := Series.fold_list_error (gathers_items hgathers [])
        ((ih hv).map _) hitems rest
      simp [reader, Reader.extend, start_list hb, takeItems, hfold, Except.map]
    | object hb hentries =>
      obtain ⟨before, e, after, rfl, hbefore, he⟩ := exists_first_of_not_forall h
      have hgathers := gathers_entries (fun w hw => takes_reader (hbefore w hw)) []
      have hfold := Series.fold_object_error hgathers rfl ((ih he).map _) hentries rest
      have hreader : entryReader (reader room) = fun rev => entry (chooseAny (reader room) rev) :=
        rfl
      simp [reader, Reader.extend, start_object hb, takeEntries, hreader, hfold, Except.map]

end Value

/-! ## Records -/

namespace Record

variable {σ α : Type} {record : Record σ α} {room : Nat} {draft : List String → σ} {f : Fault}

/-- Whether the field for a member refuses all that the member may be. -/
def Blocks (record : Record σ α) (room : Nat) (draft : List String → σ) (fault : Fault)
    (m : Member) : Prop :=
  ∀ v keys, m.holds v → m.key ∉ keys → ∃ f ∈ record.fields room, f.key = m.key ∧
    f.isGiven (draft keys) = false ∧ (f.fill (draft keys)).Refuses v fault

/-- A field whose reader refuses a member blocks it. -/
theorem blocks_of_map {β : Type} {m : Member} {isGiven : σ → Bool} {isRequired : Bool}
    {p : Reader β} {put : σ → β → σ} {b : β}
    (hmem : ⟨m.key, isGiven, isRequired, fun d => p.map (put d)⟩ ∈ record.fields room)
    (hgiven : ∀ keys, isGiven (draft keys) = (afterReading keys m.key b).isSome)
    (hp : ∀ v, m.holds v → p.Refuses v f) : record.Blocks room draft f m := by
  intro v keys hv hkey
  refine ⟨_, hmem, rfl, ?_, (hp v hv).map _⟩
  simp [hgiven, afterReading, hkey]

/-- The entries of an object before the one for a key. -/
theorem exists_append_of_required {members : List Member} {entries : List (String × Value)}
    {key : String} (h : (Value.object entries).IsObjectOf members)
    (hkey : ∃ m ∈ members, m.isOptional = false ∧ m.key = key) :
    ∃ before e after, entries = before ++ e :: after ∧ e.1 = key ∧
      (before.map (·.1)).Nodup ∧ ∀ e ∈ before, e.1 ≠ key := by
  obtain ⟨_, heq, hnodup, -, hrequired⟩ := h
  cases heq
  have hmem : key ∈ entries.map (·.1) := by
    obtain ⟨m, hm, hopt, rfl⟩ := hkey
    simpa [hopt] using hrequired m hm
  obtain ⟨e, he, rfl⟩ := List.mem_map.1 hmem
  obtain ⟨before, after, rfl⟩ := List.append_of_mem he
  rw [List.map_append, List.map_cons, List.nodup_append] at hnodup
  obtain ⟨hbefore, -, hapart⟩ := hnodup
  exact ⟨before, e, after, rfl, rfl, hbefore, fun e' he' =>
    hapart _ (List.mem_map_of_mem he') _ List.mem_cons_self⟩

/-- An object is not read as a record if the field of one of its members blocks it, wherever
that member stands. -/
theorem refuses_object {members : List Member} {v : Value} (key : String)
    (draft : List String → σ) (hblank : record.blank = draft [])
    (hfields : ((record.fields room).map Field.key).Nodup)
    (hfills : ∀ m ∈ members, m.key ≠ key → record.Fills room draft m)
    (hblocks : ∀ m ∈ members, m.key = key → record.Blocks room draft f m)
    (hkey : ∃ m ∈ members, m.isOptional = false ∧ m.key = key)
    (hv : v.IsObjectOf members) : (record.reader (room + 1)).Refuses v f := by
  obtain ⟨entries, rfl, -, hmembers, -⟩ := id hv
  obtain ⟨before, e, after, rfl, rfl, hnodup, hbefore⟩ := exists_append_of_required hv hkey
  -- the entries before the blocked one are gathered
  have hfilled : ∀ e' ∈ before, ∃ m, record.Fills room draft m ∧ m.key = e'.1 ∧ m.holds e'.2 := by
    intro e' he'
    obtain ⟨m, hm, hmkey, hholds⟩ := hmembers e' (List.mem_append_left _ he')
    exact ⟨m, hfills m hm (hmkey ▸ hbefore e' he'), hmkey, hholds⟩
  have hgathers := gathers_members hfields hfilled hnodup fun e _ => List.not_mem_nil
  rw [← hblank, List.append_nil] at hgathers
  -- and its own field is the one that is chosen for it
  obtain ⟨m, hm, hmkey, hholds⟩ := hmembers e (List.mem_append_right _ List.mem_cons_self)
  have hunread : m.key ∉ (before.map (·.1)).reverse := by
    rw [List.mem_reverse, hmkey]
    intro hmem
    obtain ⟨e', he', heq⟩ := List.mem_map.1 hmem
    exact hbefore e' he' heq
  obtain ⟨g, hg, hgkey, hgiven, hrefuses⟩ := hblocks m hm hmkey e.2 _ hholds hunread
  have hchoose := choose_of_mem hg hfields hgiven
  rw [hgkey, hmkey] at hchoose
  intro s rest hs hrest
  cases hs with
  | object hb hentries =>
    have hfold := Series.fold_object_error hgathers hchoose hrefuses hentries rest
    simp [reader, Reader.extend, start_object hb, nested, takeRest, takeDraft, takeObject, hfold]

end Record

end ZonePack.Json

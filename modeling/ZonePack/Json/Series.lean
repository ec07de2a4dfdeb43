import ZonePack.Json.Start

/-!
# ZonePack.Json.Series

How the items of a list and the entries of an object follow each other, and how
deep such series may be nested.  `Series.fold` is the one loop that reads them.
-/

namespace ZonePack.Json

/-! ## Series -/

/-- What comes next between two brackets. -/
inductive Next where
  /-- The closing bracket, and the text after it. -/
  | close (rest : List Char)
  /-- Another item, in the given text. -/
  | item (text : List Char)
  deriving DecidableEq, Repr

/-- How items follow each other between two brackets. -/
structure Series where
  /-- What comes next; the flag says that no item has been read yet. -/
  next : Bool → List Char → Except Fault Next
  close_lt : ∀ {isFirst s r}, next isFirst s = .ok (.close r) → r.length < s.length
  item_le : ∀ {isFirst s t}, next isFirst s = .ok (.item t) → t.length ≤ s.length

namespace Series

/-- What comes next in a list: an item starts at its first character. -/
def nextInList (isFirst : Bool) (s : List Char) : Except Fault Next :=
  match skipBlanks s with
  | [] => .error (.unfinished .list)
  | c :: r =>
    if c = ']' then .ok (.close r)
    else if isFirst then .ok (.item (c :: r))
    else if c = ',' then
      match skipBlanks r with
      | [] => .error (.unfinished .value)
      | d :: t => if d = ']' then .error (.malformed .trailingComma) else .ok (.item (d :: t))
    else .error (.malformed .listSeparatorDue)

theorem length_lt_of_nextInList_close {isFirst : Bool} {s r : List Char}
    (h : nextInList isFirst s = .ok (.close r)) : r.length < s.length := by
  unfold nextInList at h
  have hs := length_skipBlanks_le s
  split at h
  · cases h
  · rename_i c t heq
    rw [heq, List.length_cons] at hs
    split at h
    · cases h; exact hs
    split at h
    · cases h
    split at h
    · split at h
      · cases h
      · split at h <;> cases h
    · cases h

theorem length_le_of_nextInList_item {isFirst : Bool} {s t : List Char}
    (h : nextInList isFirst s = .ok (.item t)) : t.length ≤ s.length := by
  unfold nextInList at h
  have hs := length_skipBlanks_le s
  split at h
  · cases h
  · rename_i c r heq
    rw [heq] at hs
    split at h
    · cases h
    split at h
    · cases h; exact hs
    split at h
    · have hr := length_skipBlanks_le r
      split at h
      · cases h
      · rename_i d u hd
        rw [hd] at hr
        split at h
        · cases h
        · cases h
          rw [List.length_cons] at hs
          omega
    · cases h

/-- The values of a list. -/
def list : Series where
  next := nextInList
  close_lt := length_lt_of_nextInList_close
  item_le := length_le_of_nextInList_item

/-- What comes next in an object: an item starts after the opening quote of its key. -/
def nextInObject (isFirst : Bool) (s : List Char) : Except Fault Next :=
  match skipBlanks s with
  | [] => .error (.unfinished .object)
  | c :: r =>
    if c = '}' then .ok (.close r)
    else if isFirst then
      if c = '"' then .ok (.item r) else .error (.malformed .keyNotString)
    else if c = ',' then
      match skipBlanks r with
      | [] => .error (.unfinished .value)
      | d :: t =>
        if d = '"' then .ok (.item t)
        else if d = '}' then .error (.malformed .trailingComma)
        else .error (.malformed .keyNotString)
    else .error (.malformed .objectSeparatorDue)

theorem length_lt_of_nextInObject_close {isFirst : Bool} {s r : List Char}
    (h : nextInObject isFirst s = .ok (.close r)) : r.length < s.length := by
  unfold nextInObject at h
  have hs := length_skipBlanks_le s
  split at h
  · cases h
  · rename_i c t heq
    rw [heq, List.length_cons] at hs
    split at h
    · cases h; exact hs
    split at h
    · split at h <;> cases h
    split at h
    · split at h
      · cases h
      · split at h
        · cases h
        · split at h <;> cases h
    · cases h

theorem length_le_of_nextInObject_item {isFirst : Bool} {s t : List Char}
    (h : nextInObject isFirst s = .ok (.item t)) : t.length ≤ s.length := by
  unfold nextInObject at h
  have hs := length_skipBlanks_le s
  split at h
  · cases h
  · rename_i c r heq
    rw [heq, List.length_cons] at hs
    split at h
    · cases h
    split at h
    · split at h
      · cases h; exact Nat.le_of_lt hs
      · cases h
    split at h
    · have hr := length_skipBlanks_le r
      split at h
      · cases h
      · rename_i d u hd
        rw [hd, List.length_cons] at hr
        split at h
        · cases h; omega
        · split at h <;> cases h
    · cases h

/-- The entries of an object. -/
def object : Series where
  next := nextInObject
  close_lt := length_lt_of_nextInObject_close
  item_le := length_le_of_nextInObject_item

/-- Reads items up to the closing bracket, each one with what the items before
it have come to. -/
def fold {σ : Type} (series : Series) (item : σ → Reader σ) (isFirst : Bool) (acc : σ)
    (s : List Char) : Except Fault (σ × List Char) :=
  match hn : series.next isFirst s with
  | .error f => .error f
  | .ok (.close r) => .ok (acc, r)
  | .ok (.item t) =>
    match hi : (item acc).run t with
    | .error f => .error f
    | .ok (acc, r) =>
      have : r.length < s.length :=
        Nat.lt_of_lt_of_le ((item _).shrinks hi) (series.item_le hn)
      fold series item false acc r
termination_by s.length

theorem length_lt_of_fold {σ : Type} {series : Series} {item : σ → Reader σ} {isFirst : Bool}
    {acc b : σ} {s r : List Char} (h : fold series item isFirst acc s = .ok (b, r)) :
    r.length < s.length := by
  fun_induction fold series item isFirst acc s with
  | case1 => cases h
  | case2 _ _ _ r' hn => cases h; exact series.close_lt hn
  | case3 => cases h
  | case4 _ acc s t hn acc' r' hi hr ih => exact Nat.lt_trans (ih h) hr

end Series

/-- One entry of an object after the opening quote of its key: `choose` sees the
key, before the colon, and gives the reader for the value. -/
def entry {α : Type} (choose : String → Except Fault (Reader α)) : Reader α :=
  stringRest.bind fun key =>
    match choose key with
    | .error f => .fail f
    | .ok value => colon.bind fun _ => value

/-! ## Nesting -/

/-- How deep lists and objects may be nested in each other. -/
def depthLimit : Nat := 127

/-- What a bracket holds, where there is room for `room` brackets in each other;
`inside` is told how much room is left in it. -/
def nested {α : Type} (room : Nat) (inside : Nat → List Char → Except Fault (α × List Char))
    (s : List Char) : Except Fault (α × List Char) :=
  match room with
  | 0 => .error (.malformed .tooDeep)
  | room + 1 => inside room s

theorem length_le_of_nested {α : Type} {room : Nat}
    {inside : Nat → List Char → Except Fault (α × List Char)} {s r : List Char} {a : α}
    (inside_le : ∀ {room s a r}, inside room s = .ok (a, r) → r.length ≤ s.length)
    (h : nested room inside s = .ok (a, r)) : r.length ≤ s.length := by
  unfold nested at h
  split at h
  · cases h
  · exact inside_le h

end ZonePack.Json

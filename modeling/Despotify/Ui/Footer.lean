import Despotify.Pool.Cursor
import Despotify.Pool.Runs

/-!
# The input line of the ncurses client

`footer_keypress` and `footer_input` of `clients/despotify/ui_footer.c`: 128 wide characters of
memory, the length of the line and the cursor in it.

    in every run from an empty line the memory holds the line that an editor would have, ↔
      KEY_DC is not pressed before the end of a line of 127 characters   (refines_iff)

Where it is, `memmove` reads the character behind the memory.
-/

namespace Despotify.Ui.Footer

open Cursor

/-! ## The code -/

def bufMax : Nat := 128

/-- What the line is for. -/
inductive InputType
  | command
  | search
  | username
  | password
  deriving DecidableEq, Repr

structure Input where
  /-- `INPUT_NONE` is `none` -/
  type : Option InputType
  wbuf : Region Nat bufMax
  pos : Nat
  len : Nat

/-- A number as `unsigned int`. -/
def unsigned (n : Int) : Nat := (n % 4294967296).toNat

/-- The cases of `switch (ch)`. -/
inductive Case
  | backspace
  | delete
  | left
  | right
  | home
  | toEnd
  | killToStart
  | killToEnd
  | enter
  | cancel
  | insert (ch : Nat)
  /-- a control character that is dropped -/
  | dropped
  deriving DecidableEq, Repr

/-- A character is tried as a key first: `code` is asked for in the last case only. -/
def switch (ch : Nat) (code : Bool) : Case :=
  if ch = 'H'.toNat - '@'.toNat ∨ ch = 127 ∨ ch = 0o407 then .backspace
  else if ch = 0o512 then .delete
  else if ch = 0o404 then .left
  else if ch = 0o405 then .right
  else if ch = 'A'.toNat - '@'.toNat ∨ ch = 0o406 then .home
  else if ch = 'E'.toNat - '@'.toNat ∨ ch = 0o550 then .toEnd
  else if ch = 'U'.toNat - '@'.toNat then .killToStart
  else if ch = 'K'.toNat - '@'.toNat then .killToEnd
  else if ch = '\n'.toNat ∨ ch = '\r'.toNat ∨ ch = 0o527 then .enter
  else if ch = 'D'.toNat - '@'.toNat ∨ ch = 0x1b then .cancel
  else if code = false ∧ ' '.toNat ≤ ch then .insert ch
  else .dropped

/-- The line after a key; `none` if a character outside `wbuf` is read or written. -/
def Case.act (s : Input) : Case → Option Input
  | .backspace =>
    if s.pos ≠ 0 then
      (s.wbuf.memmove (s.pos - 1) s.pos (unsigned (s.len + 1 - s.pos))).map fun wbuf =>
        { s with wbuf := wbuf, len := unsigned (s.len - 1), pos := s.pos - 1 }
    else some s
  | .delete =>
    if s.pos ≠ s.len then
      (s.wbuf.memmove s.pos (s.pos + 1) (unsigned (s.len + 1 - s.pos))).map fun wbuf =>
        { s with wbuf := wbuf, len := unsigned (s.len - 1) }
    else some s
  | .left => some (if s.pos ≠ 0 then { s with pos := s.pos - 1 } else s)
  | .right => some (if s.pos < s.len then { s with pos := s.pos + 1 } else s)
  | .home => some { s with pos := 0 }
  | .toEnd => some { s with pos := s.len }
  | .killToStart =>
    let len := unsigned (s.len - s.pos)
    (s.wbuf.memmove 0 s.pos (unsigned (len + 1))).map fun wbuf =>
      { s with wbuf := wbuf, len := len, pos := 0 }
  | .killToEnd => (s.wbuf.store s.pos 0).map fun wbuf => { s with wbuf := wbuf, len := s.pos }
  | .enter => some { s with type := none }
  | .cancel => some { s with type := none }
  | .insert ch =>
    if s.len < bufMax - 1 then
      (s.wbuf.memmove (s.pos + 1) s.pos (unsigned (s.len + 1 - s.pos))).bind fun wbuf =>
        (wbuf.store s.pos ch).map fun wbuf =>
          { s with wbuf := wbuf, len := s.len + 1, pos := s.pos + 1 }
    else some s
  | .dropped => some s

/-- Whether the footer is drawn again; `footer_input` does that itself. -/
def Case.dirty : Case → Bool
  | .dropped => false
  | _ => true

/-- `footer_keypress`: the state, the value returned, and whether the footer is to be drawn. -/
def footerKeypress (s : Input) (ch : Nat) (code : Bool) : Option (Input × Nat × Bool) :=
  if s.type = none then some (s, ch, false)
  else ((switch ch code).act s).map fun s => (s, 0, (switch ch code).dirty)

/-- `footer_input` of one of the types. -/
def footerInput (s : Input) (type : InputType) : Option Input :=
  (s.wbuf.store 0 0).map fun wbuf => { type := some type, wbuf := wbuf, pos := 0, len := 0 }

inductive Event
  | key (ch : Nat) (code : Bool)
  | input (type : InputType)
  deriving DecidableEq, Repr

def step (s : Input) : Event → Option Input
  | .key ch code => (footerKeypress s ch code).map Prod.fst
  | .input type => footerInput s type

/-! ## The line -/

/-- What a key does to a line. -/
def Case.edit (l : Line Nat) : Case → Line Nat
  | .backspace => l.backspace
  | .delete => l.delete
  | .left => l.left
  | .right => l.right
  | .home => l.home
  | .toEnd => l.toEnd
  | .killToStart => l.killToStart
  | .killToEnd => l.killToEnd
  | .insert ch => l.insert 127 ch
  | .enter | .cancel | .dropped => l

/-- The line as it is meant, and whether keys go to it. -/
structure Field where
  active : Bool
  line : Line Nat
  deriving DecidableEq, Repr

def Field.step (f : Field) : Event → Field
  | .key ch code =>
    if f.active then
      { active := switch ch code ≠ .enter ∧ switch ch code ≠ .cancel
        line := (switch ch code).edit f.line }
    else f
  | .input _ => { active := true, line := .empty }

/-- The memory holds the line. -/
structure Refines (s : Input) (f : Field) : Prop where
  active : s.type.isSome = f.active
  text : s.wbuf.1.take s.len = f.line.text
  cursor : s.pos = f.line.before.length
  pos_le : s.pos ≤ s.len
  len_le : s.len ≤ 127
  ended : s.wbuf.1[s.len]? = some 0

/-- `KEY_DC` is not pressed before the end of a line of 127 characters. -/
def InRoom (s : Input) : Event → Prop
  | .key ch code =>
    ¬ (s.type ≠ none ∧ switch ch code = .delete ∧ s.len = 127 ∧ s.pos < s.len)
  | .input _ => True

/-! ## One key -/

/-- The line, and something behind its end. -/
structure Holds (s : Input) (l : Line Nat) : Prop where
  mem : ∃ junk, s.wbuf.1 = l.before ++ l.after ++ 0 :: junk
  pos : s.pos = l.before.length
  len : s.len = l.before.length + l.after.length

variable {s s' : Input} {l : Line Nat}

theorem Holds.len_lt (h : Holds s l) : s.len < 128 := by
  obtain ⟨junk, hmem⟩ := h.mem
  have hlen := s.wbuf.2
  rw [hmem, List.length_append, List.length_append, List.length_cons, ← h.len] at hlen
  unfold bufMax at hlen
  omega

theorem Holds.refines {f : Field} (h : Holds s f.line) (hactive : s.type.isSome = f.active) :
    Refines s f := by
  obtain ⟨junk, hmem⟩ := h.mem
  have hlt := h.len_lt
  have hlen : s.len = (f.line.before ++ f.line.after).length := by
    rw [h.len, List.length_append]
  refine ⟨hactive, ?_, h.pos, ?_, by omega, ?_⟩
  · rw [hmem, hlen, List.take_left]
    rfl
  · rw [h.pos, h.len]
    omega
  · rw [hmem, hlen, List.getElem?_append_right (Nat.le_refl _), Nat.sub_self]
    rfl

theorem unsigned_eq {n : Int} {m : Nat} (h : n = m) (hm : m < 4294967296) : unsigned n = m := by
  unfold unsigned
  omega

theorem Holds.backspace (h : Holds s l) :
    ∃ s', Case.act s .backspace = some s' ∧ Holds s' l.backspace ∧ s'.type = s.type := by
  obtain ⟨before, after⟩ := l
  have hlt := h.len_lt
  obtain ⟨⟨junk, hmem⟩, hpos, hlen⟩ := h
  dsimp only at hmem hpos hlen
  rcases List.eq_nil_or_concat before with rfl | ⟨front, x, rfl⟩
  · exact ⟨s, if_neg fun hne => hne hpos, ⟨⟨junk, hmem⟩, hpos, hlen⟩, rfl⟩
  · rw [List.concat_eq_append, List.length_append, List.length_singleton] at hpos hlen
    have hr : s.wbuf.1 = front ++ [x] ++ (after ++ [0]) ++ junk := by
      rw [hmem]
      simp
    obtain ⟨w, more, hw, hw'⟩ := Region.memmove_left hr
    have hcount : unsigned (s.len + 1 - s.pos) = (after ++ [0]).length :=
      unsigned_eq (by simp only [List.length_append, List.length_singleton]; omega) (by simp; omega)
    have hprev : s.pos - 1 = front.length := by omega
    refine ⟨{ s with wbuf := w, len := unsigned (s.len - 1), pos := s.pos - 1 }, ?_, ?_, rfl⟩
    · have hsrc : s.pos = front.length + [x].length := hpos
      rw [Case.act, if_pos (by omega), hprev, hcount, hsrc, hw]
      rfl
    · rw [Line.backspace, List.concat_eq_append, List.dropLast_concat]
      dsimp only
      refine ⟨⟨more, ?_⟩, hprev, ?_⟩
      · rw [hw']
        simp
      · exact unsigned_eq (by dsimp only; omega) (by dsimp only; omega)

theorem Holds.delete (h : Holds s l) (hroom : ¬ (s.len = 127 ∧ s.pos < s.len)) :
    ∃ s', Case.act s .delete = some s' ∧ Holds s' l.delete ∧ s'.type = s.type := by
  obtain ⟨before, after⟩ := l
  have hlt := h.len_lt
  obtain ⟨⟨junk, hmem⟩, hpos, hlen⟩ := h
  dsimp only at hmem hpos hlen
  cases after with
  | nil => exact ⟨s, if_neg fun hne => hne (hpos.trans hlen.symm), ⟨⟨junk, hmem⟩, hpos, hlen⟩, rfl⟩
  | cons x after =>
    rw [List.length_cons] at hlen
    have hsize := s.wbuf.2
    rw [hmem] at hsize
    simp only [List.length_append, List.length_cons, bufMax] at hsize
    obtain ⟨j, junk, rfl⟩ := List.exists_cons_of_length_pos (show 0 < junk.length by omega)
    have hr : s.wbuf.1 = before ++ [x] ++ (after ++ [0, j]) ++ junk := by
      rw [hmem]
      simp
    obtain ⟨w, more, hw, hw'⟩ := Region.memmove_left hr
    have hcount : unsigned (s.len + 1 - s.pos) = (after ++ [0, j]).length :=
      unsigned_eq (by simp; omega) (by simp; omega)
    refine ⟨{ s with wbuf := w, len := unsigned (s.len - 1) }, ?_, ?_, rfl⟩
    · rw [Case.act, if_pos (by omega), hcount, hpos]
      rw [show before.length + 1 = before.length + [x].length from rfl, hw]
      rfl
    · refine ⟨⟨j :: more, ?_⟩, hpos, unsigned_eq ?_ ?_⟩
      · rw [hw', Line.delete]
        simp
      · simp only [Line.delete, List.tail_cons]
        omega
      · simp only [Line.delete, List.tail_cons]
        omega

theorem Holds.killToStart (h : Holds s l) :
    ∃ s', Case.act s .killToStart = some s' ∧ Holds s' l.killToStart ∧ s'.type = s.type := by
  obtain ⟨before, after⟩ := l
  have hlt := h.len_lt
  obtain ⟨⟨junk, hmem⟩, hpos, hlen⟩ := h
  dsimp only at hmem hpos hlen
  have hr : s.wbuf.1 = [] ++ before ++ (after ++ [0]) ++ junk := by
    rw [hmem]
    simp
  obtain ⟨w, more, hw, hw'⟩ := Region.memmove_left hr
  rw [List.length_nil, Nat.zero_add, ← hpos] at hw
  have hrest : unsigned (s.len - s.pos) = after.length := unsigned_eq (by omega) (by omega)
  have hcount : unsigned (after.length + 1) = (after ++ [0]).length :=
    unsigned_eq (by simp) (by simp; omega)
  refine ⟨{ s with wbuf := w, len := after.length, pos := 0 }, ?_, ⟨⟨more, ?_⟩, rfl, ?_⟩, rfl⟩
  · rw [Case.act, hrest, hcount, hw]
    rfl
  · rw [hw', Line.killToStart]
    simp
  · exact (Nat.zero_add _).symm

theorem Holds.killToEnd (h : Holds s l) :
    ∃ s', Case.act s .killToEnd = some s' ∧ Holds s' l.killToEnd ∧ s'.type = s.type := by
  obtain ⟨before, after⟩ := l
  have hlt := h.len_lt
  obtain ⟨⟨junk, hmem⟩, hpos, hlen⟩ := h
  dsimp only at hmem hpos hlen
  have hlt : s.pos < bufMax := by
    unfold bufMax
    omega
  obtain ⟨w, hw, hw'⟩ := Region.store_eq (r := s.wbuf) hlt 0
  refine ⟨{ s with wbuf := w, len := s.pos }, ?_, ⟨?_, hpos, hpos⟩, rfl⟩
  · rw [Case.act, hw]
    rfl
  · rw [hw', hmem, hpos, Line.killToEnd]
    cases after with
    | nil => exact ⟨junk, by simp⟩
    | cons x after => exact ⟨after ++ 0 :: junk, by simp⟩

theorem Holds.insert (h : Holds s l) (ch : Nat) :
    ∃ s', Case.act s (.insert ch) = some s' ∧ Holds s' (l.insert 127 ch) ∧ s'.type = s.type := by
  obtain ⟨before, after⟩ := l
  obtain ⟨⟨junk, hmem⟩, hpos, hlen⟩ := h
  dsimp only at hmem hpos hlen
  by_cases hfull : s.len < bufMax - 1
  · have hlt : s.len < 127 := hfull
    have hsize := s.wbuf.2
    rw [hmem] at hsize
    simp only [List.length_append, List.length_cons, bufMax] at hsize
    have hr : s.wbuf.1 = before ++ (after ++ [0]) ++ junk := by
      rw [hmem]
      simp
    have hjunk : 1 ≤ junk.length := by omega
    obtain ⟨w, room, more, hw, hw', hroom⟩ := Region.memmove_right hr hjunk
    obtain ⟨y, rfl⟩ := List.length_eq_one_iff.mp hroom
    have hcount : unsigned (s.len + 1 - s.pos) = (after ++ [0]).length :=
      unsigned_eq (by simp; omega) (by simp; omega)
    obtain ⟨v, hv, hv'⟩ := Region.store_eq (r := w) (show s.pos < bufMax by unfold bufMax; omega) ch
    refine ⟨{ s with wbuf := v, len := s.len + 1, pos := s.pos + 1 }, ?_, ?_, rfl⟩
    · rw [Case.act, if_pos hfull, hcount]
      rw [← hpos] at hw
      rw [hw, Option.bind_some, hv]
      rfl
    · rw [Line.insert, if_pos (by rw [Line.length, ← hlen]; exact hfull)]
      refine ⟨⟨more, ?_⟩, ?_, ?_⟩
      · rw [hv', hw', hpos]
        simp
      · simp only [List.length_append, List.length_singleton]
        omega
      · simp only [List.length_append, List.length_singleton]
        omega
  · refine ⟨s, if_neg hfull, ?_, rfl⟩
    rw [Line.insert, if_neg (by rw [Line.length, ← hlen]; exact hfull)]
    exact ⟨⟨junk, hmem⟩, hpos, hlen⟩

/-! ## All keys -/

theorem Holds.of_text {l' : Line Nat} (h : Holds s l) (htext : l'.text = l.text)
    (hwbuf : s'.wbuf = s.wbuf) (hlen : s'.len = s.len) (hpos : s'.pos = l'.before.length) :
    Holds s' l' := by
  obtain ⟨junk, hmem⟩ := h.mem
  refine ⟨⟨junk, ?_⟩, hpos, ?_⟩
  · rw [hwbuf, hmem]
    exact congrArg (· ++ 0 :: junk) htext.symm
  · have hlength := congrArg List.length htext
    rw [Line.length_text, Line.length_text] at hlength
    rw [hlen, h.len]
    exact hlength.symm

theorem Holds.left (h : Holds s l) :
    ∃ s', Case.act s .left = some s' ∧ Holds s' l.left ∧ s'.type = s.type := by
  refine ⟨_, rfl, ?_, ?_⟩
  · by_cases hpos : s.pos ≠ 0
    · rw [if_pos hpos]
      refine h.of_text l.text_left rfl rfl ?_
      rw [Line.left, List.length_dropLast, ← h.pos]
    · rw [if_neg hpos]
      refine h.of_text l.text_left rfl rfl ?_
      rw [Line.left, List.length_dropLast, ← h.pos]
      omega
  · split <;> rfl

theorem Holds.right (h : Holds s l) :
    ∃ s', Case.act s .right = some s' ∧ Holds s' l.right ∧ s'.type = s.type := by
  obtain ⟨before, after⟩ := l
  have hlen := h.len
  have hpos := h.pos
  dsimp only at hlen hpos
  refine ⟨_, rfl, ?_, ?_⟩
  · cases after with
    | nil =>
      rw [List.length_nil] at hlen
      rw [if_neg (by omega)]
      refine h.of_text (Line.text_right _) rfl rfl ?_
      rw [Line.right, hpos]
      simp
    | cons x after =>
      rw [List.length_cons] at hlen
      rw [if_pos (by omega)]
      refine h.of_text (Line.text_right _) rfl rfl ?_
      rw [Line.right, hpos]
      simp
  · split <;> rfl

/-- **One key** does to the memory what it does to the line. -/
theorem Holds.act (h : Holds s l) {c : Case}
    (hroom : ¬ (c = .delete ∧ s.len = 127 ∧ s.pos < s.len)) :
    ∃ s', c.act s = some s' ∧ Holds s' (c.edit l) ∧
      s'.type = if c = .enter ∨ c = .cancel then none else s.type := by
  cases c with
  | backspace => exact h.backspace
  | delete => exact h.delete fun hfull => hroom ⟨rfl, hfull⟩
  | left => exact h.left
  | right => exact h.right
  | home => exact ⟨_, rfl, h.of_text rfl rfl rfl rfl, rfl⟩
  | toEnd =>
    refine ⟨_, rfl, h.of_text (List.append_nil _) rfl rfl ?_, rfl⟩
    show s.len = l.text.length
    rw [Line.length_text]
    exact h.len
  | killToStart => exact h.killToStart
  | killToEnd => exact h.killToEnd
  | insert ch => exact h.insert ch
  | enter => exact ⟨_, rfl, h.of_text rfl rfl rfl h.pos, rfl⟩
  | cancel => exact ⟨_, rfl, h.of_text rfl rfl rfl h.pos, rfl⟩
  | dropped => exact ⟨s, rfl, h, rfl⟩

/-- The line is full: behind its end there is nothing to read. -/
theorem delete_eq_none (hlen : s.len = 127) (hpos : s.pos < s.len) :
    Case.act s .delete = none := by
  have hcount : unsigned (s.len + 1 - s.pos) = 128 - s.pos := unsigned_eq (by omega) (by omega)
  rw [Case.act, if_pos (by omega), hcount,
    Region.memmove_eq_none.mpr (by unfold bufMax; omega)]
  rfl

/-! ## Runs -/

theorem Holds.input (s : Input) (type : InputType) :
    ∃ s', footerInput s type = some s' ∧ Holds s' .empty ∧ s'.type = some type := by
  obtain ⟨w, hw, hw'⟩ := Region.store_eq (r := s.wbuf) (show 0 < bufMax by decide) 0
  refine ⟨⟨some type, w, 0, 0⟩, by rw [footerInput, hw]; rfl, ⟨?_, rfl, rfl⟩, rfl⟩
  obtain ⟨x, junk, hmem⟩ :=
    List.exists_cons_of_length_pos (show 0 < s.wbuf.1.length by rw [s.wbuf.2]; decide)
  refine ⟨junk, ?_⟩
  rw [hw', hmem]
  rfl

/-- **One event** that has room. -/
theorem Holds.step {f : Field} (h : Holds s f.line) (hactive : s.type.isSome = f.active)
    {e : Event} (hroom : InRoom s e) :
    ∃ s', step s e = some s' ∧ Holds s' (f.step e).line ∧ s'.type.isSome = (f.step e).active := by
  cases e with
  | key ch code =>
    by_cases htype : s.type = none
    · have hidle : ¬ f.active = true := by
        rw [← hactive, htype]
        decide
      refine ⟨s, ?_, ?_⟩
      · rw [Footer.step, footerKeypress, if_pos htype]
        rfl
      · rw [Field.step, if_neg hidle]
        exact ⟨h, hactive⟩
    · have hline : f.active = true := by
        rw [← hactive, Option.isSome_iff_ne_none]
        exact htype
      obtain ⟨s', hact, h', htype'⟩ := h.act fun hfull => hroom ⟨htype, hfull⟩
      refine ⟨s', ?_, ?_⟩
      · rw [Footer.step, footerKeypress, if_neg htype, hact]
        rfl
      · rw [Field.step, if_pos hline]
        refine ⟨h', ?_⟩
        rw [htype']
        split
        · next hdone =>
          refine (decide_eq_false ?_).symm
          rcases hdone with hdone | hdone
          · exact fun hboth => hboth.1 hdone
          · exact fun hboth => hboth.2 hdone
        · next hdone =>
          rw [hactive, hline]
          exact (decide_eq_true ⟨fun he => hdone (Or.inl he), fun hc => hdone (Or.inr hc)⟩).symm
  | input type =>
    obtain ⟨s', hs', h', htype⟩ := Holds.input s type
    refine ⟨s', hs', h', ?_⟩
    rw [htype]
    rfl

/-- An event that has no room goes outside the memory. -/
theorem step_eq_none {e : Event} (hroom : ¬ InRoom s e) : step s e = none := by
  cases e with
  | key ch code =>
    obtain ⟨htype, hdelete, hlen, hpos⟩ := not_not.mp hroom
    rw [step, footerKeypress, if_neg htype, hdelete, delete_eq_none hlen hpos]
    rfl
  | input type => exact absurd trivial hroom

/-- **A run** from a line that the memory holds. -/
theorem Holds.run {f : Field} (h : Holds s f.line) (hactive : s.type.isSome = f.active)
    (es : List Event) :
    (∃ t, Runs.exec Footer.step s es = some t ∧ Refines t (es.foldl Field.step f)) ↔
      Runs.AllSteps Footer.step InRoom s es := by
  induction es generalizing s f with
  | nil => exact iff_of_true ⟨s, rfl, h.refines hactive⟩ trivial
  | cons e es ih =>
    by_cases hroom : InRoom s e
    · obtain ⟨s', hs', h', hactive'⟩ := h.step hactive hroom
      rw [Runs.exec_cons, hs', Option.bind_some, List.foldl_cons, ih h' hactive']
      refine ⟨fun hall => .cons hroom hs' hall, fun hall => hall.2 s' hs'⟩
    · rw [Runs.exec_cons, step_eq_none hroom]
      exact iff_of_false (fun ⟨_, hnone, _⟩ => nomatch hnone) fun hall => hroom hall.1

/-- **The line an editor would have**: the state after every run is the one meant, and nothing
outside the memory is touched, exactly as long as there is room where a character is deleted. -/
theorem refines_iff (s : Input) (type : InputType) (es : List Event) :
    (∃ t, Runs.exec step s (.input type :: es) = some t ∧
        Refines t (es.foldl Field.step ⟨true, .empty⟩)) ↔
      Runs.AllSteps step InRoom s (.input type :: es) := by
  obtain ⟨s', hs', h, htype⟩ := Holds.input s type
  have hrun := h.run (f := ⟨true, .empty⟩) (by rw [htype]; rfl) es
  rw [Runs.exec_cons, step, hs', Option.bind_some, hrun]
  exact ⟨fun hall => .cons trivial hs' hall, fun hall => hall.2 s' hs'⟩

/-- 127 characters, Ctrl-A and `KEY_DC`. -/
theorem exec_full_delete :
    ¬ ∀ (s : Input) (type : InputType) (es : List Event),
      ∃ t, Runs.exec step s (.input type :: es) = some t ∧
        Refines t (es.foldl Field.step ⟨true, .empty⟩) := by
  intro hall
  obtain ⟨t, ht, -⟩ := hall ⟨none, ⟨List.replicate 128 0, rfl⟩, 0, 0⟩ .command
    (List.replicate 127 (.key 'a'.toNat false) ++ [.key 1 false, .key 0o512 true])
  have hnone : (Runs.exec step ⟨none, ⟨List.replicate 128 0, rfl⟩, 0, 0⟩ (.input .command ::
      (List.replicate 127 (.key 'a'.toNat false) ++
        [.key 1 false, .key 0o512 true]))).isNone = true := by
    decide +kernel
  rw [ht] at hnone
  exact nomatch hnone

end Despotify.Ui.Footer

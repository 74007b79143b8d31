import Despotify.Pool.Runs

/-!
# The windows of the ncurses client

`ui_show`, `ui_focus`, `ui_dirty`, `ui_update` and what `ui_balance` does to the flags, of
`clients/despotify/ui.c`: which elements are on the screen, which of them has the focus, and which
are drawn again.

    in every state of a run one element has the focus, on the screen and able to take keys, ↔
      `ui_show` is never called while an element has the focus that stays on the screen and is not
      the first one of the set   (always_focused_iff)

Otherwise that element keeps its flag, and is drawn as if it had the focus; the keys go to the
first one of the set.
-/

namespace Despotify.Ui.Windows

open Runs

/-! ## The code -/

/-- `ui_elem_t`. -/
inductive Elem
  | splash
  | sidebar
  | tracklist
  | log
  | help
  | player
  | footer
  deriving DecidableEq, Repr

/-- `ui_set_t`. -/
inductive UiSet
  | none
  | splash
  | browser
  | log
  | help
  deriving DecidableEq, Repr

/-- The elements, in the order of `g_ui_elements`. -/
def elems : List Elem := [.splash, .sidebar, .tracklist, .log, .help, .player, .footer]

def Elem.set : Elem → UiSet
  | .splash => .splash
  | .sidebar | .tracklist => .browser
  | .log => .log
  | .help => .help
  | .player | .footer => .none

/-- Whether there is a `keypress_cb`. -/
def Elem.takesKeys : Elem → Bool
  | .player => false
  | _ => true

/-- `ui_flags_t`. -/
structure Flags where
  offscreen : Bool
  focus : Bool
  dirty : Bool
  deriving DecidableEq, Repr

structure State where
  flags : Elem → Flags
  /-- `g_ui_focus` -/
  focus : Elem

def State.setFlags (s : State) (i : Elem) (f : Flags) : State :=
  { s with flags := fun j => if j = i then f else s.flags j }

/-- One turn of the loop of `ui_show`, with `focused`. -/
def showTurn (set : UiSet) : State × Bool → Elem → State × Bool
  | (s, focused), i =>
    if i.set = set then
      let s := if focused then s else
        { s.setFlags i { s.flags i with focus := true } with focus := i }
      (s.setFlags i { s.flags i with dirty := true, offscreen := false }, true)
    else if i.set ≠ .none then
      (s.setFlags i { offscreen := true, focus := false, dirty := false }, focused)
    else (s, focused)

/-- The set that is shown: the splash screen when disconnected. -/
def shown (online : Bool) (set : UiSet) : UiSet :=
  if set = .browser ∧ online = false then .splash else set

/-- `ui_show`, and whether the session is `SESS_ONLINE`. -/
def uiShow (s : State) (online : Bool) (set : UiSet) : State :=
  (elems.foldl (showTurn (shown online set)) (s, false)).1

/-- `ui_focus`. -/
def uiFocus (s : State) (focus : Elem) : State :=
  if (s.flags focus).offscreen ∨ focus.takesKeys = false then s
  else
    { flags := fun i =>
        if i = focus then { s.flags i with focus := true, dirty := true }
        else if (s.flags i).focus then { s.flags i with focus := false, dirty := true }
        else s.flags i
      focus := focus }

/-- `ui_dirty`. -/
def uiDirty (s : State) (dirty : Elem) : State :=
  s.setFlags dirty { s.flags dirty with dirty := true }

/-- What `ui_update` draws; `room` says which windows have a height and a width. -/
def drawn (s : State) (redraw : Bool) (room : Elem → Bool) (i : Elem) : Bool :=
  !(s.flags i).offscreen && ((s.flags i).dirty || redraw) && room i

/-- `ui_update`. -/
def uiUpdate (s : State) (redraw : Bool) (room : Elem → Bool) : State :=
  { s with flags := fun i =>
      if drawn s redraw room i then { s.flags i with dirty := false } else s.flags i }

/-- `ui_balance`, once the windows have their sizes. -/
def uiBalance (s : State) (room : Elem → Bool) : State :=
  uiUpdate { s with flags := fun i => { s.flags i with dirty := true } } true room

inductive Event
  /-- a set is never `UI_SET_NONE` -/
  | showSet (online : Bool) (set : UiSet) (h : set ≠ .none)
  | focus (i : Elem)
  | dirty (i : Elem)
  | update (redraw : Bool) (room : Elem → Bool)
  | balance (room : Elem → Bool)

def step (s : State) : Event → Option State
  | .showSet online set _ => some (uiShow s online set)
  | .focus i => some (uiFocus s i)
  | .dirty i => some (uiDirty s i)
  | .update redraw room => some (uiUpdate s redraw room)
  | .balance room => some (uiBalance s room)

/-- What `ui_init` leaves: the session is not connected yet. -/
def State.init : State := uiShow ⟨fun _ => ⟨false, false, false⟩, .splash⟩ false .browser

/-! ## One call -/

/-- The first element of a set. -/
def first : UiSet → Elem
  | .none => .player
  | .splash => .splash
  | .browser => .sidebar
  | .log => .log
  | .help => .help

variable {s : State}

theorem shown_ne_none (online : Bool) {set : UiSet} (hset : set ≠ .none) :
    shown online set ≠ .none := by
  unfold shown
  split
  · exact nofun
  · exact hset

theorem set_first (set : UiSet) : (first set).set = set := by
  cases set <;> rfl

theorem takesKeys_first {set : UiSet} (hset : set ≠ .none) : (first set).takesKeys = true := by
  cases set with
  | none => exact absurd rfl hset
  | splash | browser | log | help => rfl

/-- All elements of the set are on the screen, and the first one has the focus. -/
theorem flags_uiShow (online : Bool) {set : UiSet} (hset : set ≠ .none) (i : Elem) :
    (uiShow s online set).flags i =
      if i.set = shown online set then
        { offscreen := false, dirty := true
          focus := (s.flags i).focus || decide (i = first (shown online set)) }
      else if i.set = .none then s.flags i
      else { offscreen := true, focus := false, dirty := false } := by
  have hshown := shown_ne_none online hset
  unfold uiShow
  generalize shown online set = set at hshown
  cases set with
  | none => exact absurd rfl hshown
  | splash | browser | log | help =>
    cases i <;> simp [elems, showTurn, Elem.set, State.setFlags, first]

theorem focus_uiShow (online : Bool) {set : UiSet} (hset : set ≠ .none) :
    (uiShow s online set).focus = first (shown online set) := by
  have hshown := shown_ne_none online hset
  unfold uiShow
  generalize shown online set = set at hshown
  cases set with
  | none => exact absurd rfl hshown
  | splash | browser | log | help => rfl

/-- A call that only asks for drawing, or draws. -/
structure Redraws (s s' : State) : Prop where
  focus : s'.focus = s.focus
  offscreen : ∀ i, (s'.flags i).offscreen = (s.flags i).offscreen
  flag : ∀ i, (s'.flags i).focus = (s.flags i).focus

theorem redraws_uiDirty (s : State) (i : Elem) : Redraws s (uiDirty s i) := by
  refine ⟨rfl, fun j => ?_, fun j => ?_⟩
  all_goals
    by_cases h : j = i
    · subst h
      simp [uiDirty, State.setFlags]
    · simp [uiDirty, State.setFlags, h]

theorem redraws_uiUpdate (s : State) (redraw : Bool) (room : Elem → Bool) :
    Redraws s (uiUpdate s redraw room) := by
  refine ⟨rfl, fun j => ?_, fun j => ?_⟩
  all_goals
    unfold uiUpdate
    dsimp only
    split
    · rfl
    · rfl

theorem redraws_uiBalance (s : State) (room : Elem → Bool) : Redraws s (uiBalance s room) := by
  have h := redraws_uiUpdate { s with flags := fun i => { s.flags i with dirty := true } } true room
  exact ⟨h.focus, h.offscreen, h.flag⟩

/-! ## The focus -/

/-- The element that gets the keys takes them; it is on the screen and has the flag. -/
structure Inv (s : State) : Prop where
  takesKeys : s.focus.takesKeys = true
  onscreen : (s.flags s.focus).offscreen = false
  flagged : (s.flags s.focus).focus = true

/-- No other element has the flag. -/
def Alone (s : State) : Prop := ∀ i, (s.flags i).focus = true → i = s.focus

structure Focused (s : State) : Prop extends Inv s where
  alone : Alone s

theorem Redraws.inv {s' : State} (h : Redraws s s') (hinv : Inv s) : Inv s' := by
  obtain ⟨htakes, honscreen, hflagged⟩ := hinv
  refine ⟨?_, ?_, ?_⟩
  · rw [h.focus]
    exact htakes
  · rw [h.focus, h.offscreen]
    exact honscreen
  · rw [h.focus, h.flag]
    exact hflagged

theorem Redraws.alone {s' : State} (h : Redraws s s') (halone : Alone s) : Alone s' := by
  intro i hi
  rw [h.flag] at hi
  rw [h.focus]
  exact halone i hi

theorem inv_uiShow (online : Bool) {set : UiSet} (hset : set ≠ .none) :
    Inv (uiShow s online set) := by
  have hfirst : (first (shown online set)).set = shown online set := set_first _
  refine ⟨?_, ?_, ?_⟩
  · rw [focus_uiShow online hset]
    exact takesKeys_first (shown_ne_none online hset)
  · rw [focus_uiShow online hset, flags_uiShow online hset, if_pos hfirst]
  · rw [focus_uiShow online hset, flags_uiShow online hset, if_pos hfirst]
    simp

/-- An element other than the first keeps its flag if it stays on the screen. -/
theorem alone_uiShow_iff (hinv : Inv s) (halone : Alone s) (online : Bool) {set : UiSet}
    (hset : set ≠ .none) : Alone (uiShow s online set) ↔
      (s.focus.set ≠ .none ∧ s.focus.set ≠ shown online set) ∨
        s.focus = first (shown online set) := by
  have hshown := shown_ne_none online hset
  unfold Alone
  rw [focus_uiShow online hset]
  constructor
  · intro h
    have hfocus := h s.focus
    rw [flags_uiShow online hset] at hfocus
    by_cases hstays : s.focus.set = shown online set
    · rw [if_pos hstays, hinv.flagged] at hfocus
      exact Or.inr (hfocus rfl)
    by_cases hnone : s.focus.set = .none
    · rw [if_neg hstays, if_pos hnone] at hfocus
      exact Or.inr (hfocus hinv.flagged)
    · exact Or.inl ⟨hnone, hstays⟩
  · intro h i hi
    have hkept : (s.flags i).focus = true → i.set = .none ∨ i.set = shown online set →
        i = first (shown online set) := by
      intro hflag hstays
      rw [halone i hflag] at hstays ⊢
      rcases h with ⟨hnone, hleaves⟩ | h
      · rcases hstays with hstays | hstays
        · exact absurd hstays hnone
        · exact absurd hstays hleaves
      · exact h
    rw [flags_uiShow online hset] at hi
    split at hi
    next hstays =>
      rcases Bool.or_eq_true_iff.mp hi with hflag | hfirst
      · exact hkept hflag (Or.inr hstays)
      · exact of_decide_eq_true hfirst
    · split at hi
      next hnone => exact hkept hi (Or.inl hnone)
      · cases hi

theorem inv_uiFocus (h : Inv s) (i : Elem) : Inv (uiFocus s i) := by
  unfold uiFocus
  split
  · exact h
  next hcan =>
    obtain ⟨honscreen, hkeys⟩ := not_or.mp hcan
    refine ⟨Bool.not_eq_false _ ▸ hkeys, ?_, ?_⟩
    · dsimp only
      rw [if_pos rfl]
      exact Bool.not_eq_true _ ▸ honscreen
    · dsimp only
      rw [if_pos rfl]

theorem alone_uiFocus (h : Alone s) (i : Elem) : Alone (uiFocus s i) := by
  unfold uiFocus
  split
  · exact h
  · intro j hj
    dsimp only at hj ⊢
    by_cases heq : j = i
    · exact heq
    · rw [if_neg heq] at hj
      split at hj
      · cases hj
      next hflag => exact absurd hj hflag

/-! ## Runs -/

/-- What `ui_show` asks of the focus: it leaves the screen, or it is where the call puts it. -/
def Leaves (s : State) : Event → Prop
  | .showSet online set _ =>
    (s.focus.set ≠ .none ∧ s.focus.set ≠ shown online set) ∨ s.focus = first (shown online set)
  | _ => True

theorem step_focused {s' : State} {e : Event} (h : Focused s) (hs : step s e = some s') :
    Inv s' ∧ (Alone s' ↔ Leaves s e) := by
  obtain ⟨hinv, halone⟩ := h
  cases e with
  | showSet online set hset =>
    cases hs
    exact ⟨inv_uiShow online hset, alone_uiShow_iff hinv halone online hset⟩
  | focus i =>
    cases hs
    exact ⟨inv_uiFocus hinv i, fun _ => trivial, fun _ => alone_uiFocus halone i⟩
  | dirty i =>
    cases hs
    have hdraws := redraws_uiDirty s i
    exact ⟨hdraws.inv hinv, fun _ => trivial, fun _ => hdraws.alone halone⟩
  | update redraw room =>
    cases hs
    have hdraws := redraws_uiUpdate s redraw room
    exact ⟨hdraws.inv hinv, fun _ => trivial, fun _ => hdraws.alone halone⟩
  | balance room =>
    cases hs
    have hdraws := redraws_uiBalance s room
    exact ⟨hdraws.inv hinv, fun _ => trivial, fun _ => hdraws.alone halone⟩

theorem always_iff_of_focused (h : Focused s) (es : List Event) :
    Always step Focused s es ↔ AllSteps step Leaves s es := by
  induction es generalizing s with
  | nil => exact ⟨fun _ => trivial, fun _ => h⟩
  | cons e es ih =>
    constructor
    · rintro ⟨-, hrest⟩
      obtain ⟨s', hs⟩ : ∃ s', step s e = some s' := by cases e <;> exact ⟨_, rfl⟩
      have hfocused := (hrest s' hs).head
      refine ⟨(step_focused h hs).2.mp hfocused.alone, fun t ht => ?_⟩
      cases hs.symm.trans ht
      exact (ih hfocused).mp (hrest s' hs)
    · rintro ⟨hleaves, hrest⟩
      refine ⟨h, fun s' hs => ?_⟩
      obtain ⟨hinv, halone⟩ := step_focused h hs
      exact (ih ⟨hinv, halone.mpr hleaves⟩).mpr (hrest s' hs)

theorem focused_init : Focused State.init := by
  refine ⟨inv_uiShow false nofun, ?_⟩
  intro i hi
  cases i with
  | splash => rfl
  | sidebar | tracklist | log | help | player | footer => cases hi

/-- **One focus**, in every state of a run. -/
theorem always_focused_iff (es : List Event) :
    Always step Focused State.init es ↔ AllSteps step Leaves State.init es :=
  always_iff_of_focused focused_init es

/-- `:main`, typed while the list of tracks has the focus. -/
example : ∃ s, exec step State.init
    [.showSet true .browser nofun, .focus .tracklist, .focus .footer, .focus .tracklist,
      .showSet true .browser nofun] = some s ∧
    s.focus = .sidebar ∧ (s.flags .tracklist).focus = true := ⟨_, rfl, rfl, rfl⟩

end Despotify.Ui.Windows

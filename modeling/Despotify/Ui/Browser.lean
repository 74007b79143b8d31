import Despotify.Pool.Runs
import Despotify.Ui.Dedup
import Mathlib.Data.List.Nodup

/-!
# The selection of the ncurses client

The list of searches and the list of tracks: `clients/despotify/ui_sidebar.c`,
`clients/despotify/ui_tracklist.c`, and the part of `sess_search` that adds a search.  A key goes
to one of the two lists, and the lists are drawn in whatever size the terminal leaves them.

In every run of keys, searches and draws no search is read that is not there, the tracks that are
listed are those of the search that is marked, and the list of tracks marks one line: the track
that ENTER plays.  (`selected_of_counted`)
-/

namespace Despotify.Ui.Browser

open Lib (CString Track int32)
open Runs

/-! ## The code -/

/-- `struct ds_search_result`, with `num_tracks` and `tracks` of its playlist.  No result is freed
while the client runs, so that `ptr` is the number of those before it. -/
structure Result where
  ptr : Nat
  numTracks : Int
  tracks : List Track
  deriving DecidableEq, Repr

structure State where
  /-- `g_session.search`, the last search first -/
  search : List Result
  searchLen : UInt32
  /-- `g_pos` of the sidebar -/
  sidebarPos : UInt32
  /-- `g_res` -/
  res : Option Result
  /-- `g_pos` of the list of tracks -/
  pos : Int
  availy : Nat
  /-- what `sess_play` was called with, the last track first -/
  played : List Track
  deriving DecidableEq, Repr

def State.init : State := ⟨[], 0, 0xFFFFFFFF, none, 0, 10, []⟩

/-- `KEY_ENTER`, and so on. -/
def keyDown : Nat := 0o402
def keyUp : Nat := 0o403
def keyLeft : Nat := 0o404
def keyRight : Nat := 0o405
def keyHome : Nat := 0o406
def keyNpage : Nat := 0o522
def keyPpage : Nat := 0o523
def keyEnter : Nat := 0o527
def keyEnd : Nat := 0o550

def isEnter (ch : Nat) : Prop := ch = keyEnter ∨ ch = '\n'.toNat ∨ ch = '\r'.toNat

instance (ch : Nat) : Decidable (isEnter ch) := inferInstanceAs (Decidable (_ ∨ _))

/-- `tracklist_set`; `none` where `s->res` is read of `NULL`. -/
def tracklistSet (s : State) (pos : Int) : Option State :=
  if pos < 0 then none
  else (s.search[pos.toNat]?).map fun r =>
    if s.res.map Result.ptr = some r.ptr then s else { s with res := some r, pos := 0 }

/-- `g_pos` is set, and then `tracklist_set`. -/
def sidebarMove (s : State) (pos : UInt32) : Option State :=
  tracklistSet { s with sidebarPos := pos } (int32 pos.toNat)

/-- `sidebar_keypress`: the state and the value returned. -/
def sidebarKeypress (s : State) (ch : Nat) : Option (State × Nat) :=
  if s.searchLen = 0 then some (s, ch)
  else if isEnter ch ∨ ch = keyRight ∨ ch = 'l'.toNat then
    (tracklistSet s (int32 s.sidebarPos.toNat)).map (·, 0)
  else if ch = keyUp ∨ ch = 'k'.toNat then
    (sidebarMove s (UInt32.ofNat (max (int32 s.sidebarPos.toNat - 1) 0).toNat)).map (·, 0)
  else if ch = keyDown ∨ ch = 'j'.toNat then
    (sidebarMove s (if s.sidebarPos + 1 < s.searchLen - 1 then s.sidebarPos + 1
      else s.searchLen - 1)).map (·, 0)
  else if ch = keyHome then (sidebarMove s 0).map (·, 0)
  else if ch = keyEnd then (sidebarMove s (s.searchLen - 1)).map (·, 0)
  else some (s, ch)

def sidebarReset (s : State) : Option State :=
  tracklistSet { s with sidebarPos := if s.searchLen ≠ 0 then 0 else 0xFFFFFFFF } 0

/-- The lines of `sidebar_draw` below the title, and whether they are marked. -/
def sidebarDraw (s : State) (height : Nat) : List (Result × Bool) :=
  ((s.search.take (height - 1)).zipIdx 0).map fun (r, i) => (r, i = s.sidebarPos.toNat)

/-- `sess_search`, on what `despotify_search` returned. -/
def sessSearch (strcmp : CString → CString → Int) (s : State) (numTracks : Int)
    (tracks : List Track) : Option State :=
  (Sort.sessSearch strcmp numTracks tracks).bind fun (tracks, numTracks) =>
    sidebarReset { s with
      search := ⟨s.search.length, numTracks, tracks⟩ :: s.search
      searchLen := s.searchLen + 1 }

/-- `tracklist_keypress`: the state and the value returned. -/
def tracklistKeypress (s : State) (ch : Nat) : State × Nat :=
  if ch = keyLeft ∨ ch = 'h'.toNat then (s, 0)
  else
    match s.res with
    | none => (s, ch)
    | some r =>
      if r.numTracks = 0 then (s, ch)
      else if isEnter ch then
        match r.tracks[s.pos.toNat]? with
        | some t => ({ s with played := t :: s.played }, 0)
        | none => (s, 0)
      else if ch = keyUp ∨ ch = 'k'.toNat then ({ s with pos := max (s.pos - 1) 0 }, 0)
      else if ch = keyDown ∨ ch = 'j'.toNat then
        ({ s with pos := min (s.pos + 1) (r.numTracks - 1) }, 0)
      else if ch = keyHome then ({ s with pos := 0 }, 0)
      else if ch = keyEnd then ({ s with pos := r.numTracks - 1 }, 0)
      else if ch = keyPpage then ({ s with pos := max (s.pos - s.availy) 0 }, 0)
      else if ch = keyNpage then ({ s with pos := min (s.pos + s.availy) (r.numTracks - 1) }, 0)
      else (s, ch)

/-- The lines of tracks, and whether they are marked: the scroll offset may be negative. -/
def trackLines (s : State) (r : Result) : List (Track × Bool) :=
  let offset := min (max (s.pos - (s.availy / 2 : Nat)) 0) (r.numTracks - s.availy)
  let i := min offset.toNat r.tracks.length
  (((r.tracks.drop offset.toNat).take s.availy).zipIdx i).map fun (t, n) => (t, (n : Int) = s.pos)

/-- `tracklist_draw`: the state, and the lines of tracks. -/
def tracklistDraw (s : State) (width height : Nat) : State × List (Track × Bool) :=
  if width < 4 + 6 + 1 ∨ height < 2 then (s, [])
  else
    let s := { s with availy := height - 2 }
    match s.res with
    | none => (s, [])
    | some r => (s, if r.numTracks ≠ 0 then trackLines s r else [])

inductive Event
  /-- a key, with the focus on the sidebar -/
  | sidebar (ch : Nat)
  /-- a key, with the focus on the list of tracks -/
  | tracklist (ch : Nat)
  | search (numTracks : Int) (tracks : List Track)
  | draw (width height : Nat)
  deriving DecidableEq, Repr

def step (strcmp : CString → CString → Int) (s : State) : Event → Option State
  | .sidebar ch => (sidebarKeypress s ch).map Prod.fst
  | .tracklist ch => some (tracklistKeypress s ch).1
  | .search numTracks tracks => sessSearch strcmp s numTracks tracks
  | .draw width height => some (tracklistDraw s width height).1

/-! ## The number of tracks -/

variable {strcmp : CString → CString → Int}

theorem length_tracklistDedup {list ts : List Track} {n : Int}
    (h : Sort.tracklistDedup strcmp list = some (ts, n)) :
    (ts.length : Int) + n = list.length ∧ ts.length ≤ list.length ∧
      (0 < list.length → 0 < ts.length) := by
  induction list using Sort.tracklistDedup.induct generalizing ts n with
  | case1 =>
    cases h
    exact ⟨rfl, Nat.le_refl _, id⟩
  | case2 t =>
    rw [Sort.tracklistDedup, Option.map_eq_some_iff] at h
    obtain ⟨_, -, h⟩ := h
    cases h
    exact ⟨rfl, Nat.le_refl _, id⟩
  | case3 t dupe list ihskip ihkeep =>
    rw [Sort.tracklistDedup, Option.bind_eq_some_iff] at h
    obtain ⟨rv, -, h⟩ := h
    split at h
    · obtain ⟨⟨us, m⟩, hrest, h⟩ := Option.map_eq_some_iff.mp h
      cases h
      obtain ⟨hlength, hle, -⟩ := ihskip hrest
      simp only [List.length_cons]
      omega
    · obtain ⟨⟨us, m⟩, hrest, h⟩ := Option.map_eq_some_iff.mp h
      cases h
      obtain ⟨hlength, hle, -⟩ := ihkeep hrest
      simp only [List.length_cons] at hlength hle ⊢
      omega

theorem length_sessSearch {numTracks n : Int} {tracks ts : List Track}
    (h : Sort.sessSearch strcmp numTracks tracks = some (ts, n)) :
    n - ts.length = numTracks - tracks.length ∧ ts.length ≤ tracks.length ∧
      (0 < tracks.length → 0 < ts.length) := by
  rw [Sort.sessSearch, Option.bind_eq_bind, Option.bind_eq_some_iff] at h
  obtain ⟨sorted, hsort, h⟩ := h
  rw [Option.bind_eq_bind, Option.bind_eq_some_iff] at h
  obtain ⟨⟨us, m⟩, hdedup, h⟩ := h
  cases h
  obtain ⟨hdedup, hle, hsome⟩ := length_tracklistDedup hdedup
  rw [Sort.tracklistSort_eq] at hsort
  have hlength := (Merging.perm_mergeRuns hsort).length_eq
  rw [Merging.flatten_singletons] at hlength
  omega

/-! ## The searches -/

/-- What `despotify_search` returns: the tracks are counted, and where there are none the list has
one empty track at most.  There is room for another search. -/
def Counted (s : State) : Event → Prop
  | .search numTracks tracks =>
    (numTracks = tracks.length ∨ numTracks = 0 ∧ tracks.length ≤ 1) ∧ s.search.length + 1 < 2 ^ 31
  | _ => True

/-- What is true of the searches, and of the result that is listed. -/
structure Lists (s : State) : Prop where
  few : s.search.length < 2 ^ 31
  len : s.searchLen.toNat = s.search.length
  ptr : ∀ r ∈ s.search, r.ptr < s.search.length
  distinct : (s.search.map Result.ptr).Nodup
  counted : ∀ r ∈ s.search, r.numTracks = 0 ∨ r.numTracks = r.tracks.length
  known : ∀ r ∈ s.res, r ∈ s.search
  pos : 0 ≤ s.pos ∧ ∀ r ∈ s.res, s.pos = 0 ∨ s.pos < r.numTracks

/-- The tracks that are listed are those of the search that is marked. -/
structure Inv (s : State) : Prop extends Lists s where
  marked : s.search ≠ [] → s.sidebarPos.toNat < s.search.length
  listed : s.res = s.search[s.sidebarPos.toNat]?

theorem inv_init : Inv State.init where
  few := by decide
  len := rfl
  ptr := nofun
  distinct := List.nodup_nil
  counted := nofun
  known := nofun
  pos := ⟨Int.le_refl _, nofun⟩
  marked := fun h => absurd rfl h
  listed := rfl

theorem int32_of_small {n : Nat} (h : n < 2 ^ 31) : int32 n = n := by
  rw [int32]
  exact Int.bmod_eq_of_le (by omega) (by omega)

namespace Lists

variable {s : State}

theorem length_pos (h : Lists s) (hne : s.searchLen ≠ 0) : 0 < s.search.length := by
  rw [← h.len]
  exact Nat.pos_of_ne_zero fun hzero => hne (UInt32.toNat_inj.mp hzero)

/-- The position of the last search. -/
theorem toNat_last (h : Lists s) (hne : s.searchLen ≠ 0) :
    (s.searchLen - 1).toNat = s.search.length - 1 := by
  have hle : (1 : UInt32) ≤ s.searchLen := by
    rw [UInt32.le_iff_toNat_le, h.len]
    exact h.length_pos hne
  rw [UInt32.toNat_sub_of_le _ _ hle, h.len]
  rfl

/-- A search is added, and marked. -/
theorem cons (h : Lists s) {n : Int} {ts : List Track} (hroom : s.search.length + 1 < 2 ^ 31)
    (hcount : n = 0 ∨ n = ts.length) :
    Lists { s with
      search := ⟨s.search.length, n, ts⟩ :: s.search
      searchLen := s.searchLen + 1
      sidebarPos := 0 } := by
  refine ⟨hroom, ?_, ?_, ?_, ?_, ?_, h.pos⟩
  · show (s.searchLen + 1).toNat = s.search.length + 1
    rw [UInt32.toNat_add, h.len]
    exact Nat.mod_eq_of_lt (by simp; omega)
  · refine List.forall_mem_cons.mpr ⟨Nat.lt_succ_self _, fun r hr => ?_⟩
    exact Nat.lt_succ_of_lt (h.ptr r hr)
  · refine List.nodup_cons.mpr ⟨fun hmem => ?_, h.distinct⟩
    obtain ⟨r, hr, hptr⟩ := List.mem_map.mp hmem
    exact absurd (h.ptr r hr) (by rw [hptr]; exact Nat.lt_irrefl _)
  · exact List.forall_mem_cons.mpr ⟨hcount, h.counted⟩
  · exact fun r hr => List.mem_cons_of_mem _ (h.known r hr)

/-- `tracklist_set` lists the tracks of a search that is there. -/
theorem set (h : Lists s) {n : Nat} (hn : n < s.search.length) (hpos : s.sidebarPos.toNat = n) :
    ∃ s', tracklistSet s n = some s' ∧ Inv s' := by
  have hget : s.search[n]? = some s.search[n] := List.getElem?_eq_getElem hn
  have hmem : s.search[n] ∈ s.search := List.getElem_mem hn
  have hmarked : s.search ≠ [] → s.sidebarPos.toNat < s.search.length := fun _ => hpos ▸ hn
  rw [tracklistSet, if_neg (by omega), Int.toNat_natCast, hget, Option.map_some]
  refine ⟨_, rfl, ?_⟩
  split
  next hsame =>
    obtain ⟨q, hq, hptr⟩ := Option.map_eq_some_iff.mp hsame
    have heq : q = s.search[n] :=
      List.inj_on_of_nodup_map h.distinct (h.known q hq) hmem hptr
    refine { h with marked := hmarked, listed := ?_ }
    rw [hpos, hget, ← heq, hq]
  next hother =>
    refine { h with known := ?_, pos := ⟨Int.le_refl _, fun _ _ => Or.inl rfl⟩
                    marked := hmarked, listed := ?_ }
    · rintro r ⟨⟩
      exact hmem
    · show some s.search[n] = s.search[s.sidebarPos.toNat]?
      rw [hpos, hget]

theorem move (h : Lists s) {p : UInt32} (hp : p.toNat < s.search.length) :
    ∃ s', sidebarMove s p = some s' ∧ Inv s' := by
  have hmoved : Lists { s with sidebarPos := p } := { h with }
  rw [sidebarMove, int32_of_small (Nat.lt_trans hp h.few)]
  exact hmoved.set hp rfl

end Lists

namespace Inv

variable {s : State}

/-- Every key of the sidebar finds the search it moves to. -/
theorem sidebar (h : Inv s) (ch : Nat) :
    ∃ r, sidebarKeypress s ch = some r ∧ Inv r.1 := by
  have hmap : ∀ {o : Option State}, (∃ s', o = some s' ∧ Inv s') →
      ∃ r, o.map (·, 0) = some r ∧ Inv r.1 := by
    rintro _ ⟨s', rfl, hs'⟩
    exact ⟨_, rfl, hs'⟩
  unfold sidebarKeypress
  split
  · exact ⟨_, rfl, h⟩
  next hne =>
    have hpos := h.length_pos hne
    have hlast := h.toNat_last hne
    have hmarked := h.marked (List.length_pos_iff.mp hpos)
    have hcur : int32 s.sidebarPos.toNat = (s.sidebarPos.toNat : Int) :=
      int32_of_small (Nat.lt_trans hmarked h.few)
    split
    · rw [hcur]
      exact hmap (h.toLists.set hmarked rfl)
    split
    · refine hmap (h.toLists.move ?_)
      have hbound := s.sidebarPos.toNat_lt
      have hlt : (max ((s.sidebarPos.toNat : Int) - 1) 0).toNat < 4294967296 := by omega
      rw [hcur, UInt32.toNat_ofNat_of_lt' hlt]
      omega
    split
    · refine hmap (h.toLists.move ?_)
      split
      next hlt =>
        have hlt := UInt32.lt_iff_toNat_lt.mp hlt
        omega
      · omega
    split
    · exact hmap (h.toLists.move hpos)
    split
    · exact hmap (h.toLists.move (by omega))
    · exact ⟨_, rfl, h⟩

/-- The cursor is moved within the list of tracks. -/
theorem withPos (h : Inv s) {pos : Int}
    (hpos : 0 ≤ pos ∧ ∀ r ∈ s.res, pos = 0 ∨ pos < r.numTracks) : Inv { s with pos := pos } :=
  { h with pos := hpos }

theorem tracklist (h : Inv s) (ch : Nat) : Inv (tracklistKeypress s ch).1 := by
  unfold tracklistKeypress
  split
  · exact h
  split
  · exact h
  next r hr =>
    split
    · exact h
    next hne =>
      have hnum : 0 < r.numTracks := by
        rcases h.counted r (h.known r hr) with hzero | hlength
        · exact absurd hzero hne
        · omega
      obtain ⟨hnonneg, hpos⟩ := h.pos
      have hcur := hpos r hr
      have hwithin : ∀ {pos : Int}, 0 ≤ pos → pos < r.numTracks → Inv { s with pos := pos } := by
        intro pos hle hlt
        refine h.withPos ⟨hle, fun q hq => Or.inr ?_⟩
        cases Option.some.inj (hr.symm.trans hq)
        exact hlt
      split
      · split
        · exact { h with }
        · exact h
      split
      · exact hwithin (by omega) (by omega)
      split
      · exact hwithin (by omega) (by omega)
      split
      · exact hwithin (Int.le_refl _) hnum
      split
      · exact hwithin (by omega) (by omega)
      split
      · exact hwithin (by omega) (by omega)
      split
      · exact hwithin (by omega) (by omega)
      · exact h

theorem draw (h : Inv s) (width height : Nat) : Inv (tracklistDraw s width height).1 := by
  unfold tracklistDraw
  split
  · exact h
  · dsimp only
    split
    · exact { h with }
    · exact { h with }

/-- A new search is marked and its tracks are listed. -/
theorem search (h : Inv s) {numTracks : Int} {tracks : List Track} {s' : State}
    (hok : Counted s (.search numTracks tracks))
    (hs : sessSearch strcmp s numTracks tracks = some s') : Inv s' := by
  obtain ⟨hcount, hroom⟩ := hok
  obtain ⟨⟨ts, n⟩, hsess, hs⟩ := Option.bind_eq_some_iff.mp hs
  obtain ⟨hdiff, hle, hsome⟩ := length_sessSearch hsess
  dsimp only at hs
  have hts : n = 0 ∨ n = ts.length := by
    rcases hcount with hcount | ⟨hcount, hone⟩
    · exact Or.inr (by omega)
    · omega
  have hnew := h.cons hroom hts
  have hne : s.searchLen + 1 ≠ 0 := by
    intro hzero
    have hlen := hnew.len
    dsimp only at hlen
    rw [hzero] at hlen
    cases hlen
  obtain ⟨s₁, hset, hinv⟩ := hnew.set (n := 0) (Nat.succ_pos _) rfl
  rw [sidebarReset] at hs
  dsimp only at hs
  rw [if_pos hne] at hs
  cases hset.symm.trans hs
  exact hinv

end Inv

theorem step_inv {s s' : State} {e : Event} (h : Inv s) (hok : Counted s e)
    (hs : step strcmp s e = some s') : Inv s' := by
  cases e with
  | sidebar ch =>
    obtain ⟨r, hr, hinv⟩ := h.sidebar ch
    rw [step, hr] at hs
    cases hs
    exact hinv
  | tracklist ch =>
    cases hs
    exact h.tracklist ch
  | search numTracks tracks => exact h.search hok hs
  | draw width height =>
    cases hs
    exact h.draw width height

/-! ## What is marked -/

theorem filter_zipIdx {α : Type} {l : List α} {i k : Nat} {x : α} (hik : i ≤ k)
    (hx : l[k - i]? = some x) : (l.zipIdx i).filter (fun e => e.2 = k) = [(x, k)] := by
  induction l generalizing i with
  | nil => cases hx
  | cons a l ih =>
    rw [List.zipIdx_cons]
    by_cases heq : i = k
    · subst heq
      rw [Nat.sub_self] at hx
      cases hx
      rw [List.filter_cons_of_pos (by simp), List.filter_eq_nil_iff.mpr]
      intro e he
      have hlt := List.le_snd_of_mem_zipIdx he
      simp
      omega
    · have hlt : i < k := Nat.lt_of_le_of_ne hik heq
      rw [List.filter_cons_of_neg (by simpa using heq)]
      refine ih hlt ?_
      rw [← hx, show k - i = (k - (i + 1)) + 1 by omega, List.getElem?_cons_succ]

/-- However the lines are scrolled, the cursor is in one of them. -/
theorem marked_trackLines {s : State} {r : Result} {t : Track} (hpos : 0 ≤ s.pos)
    (hcount : r.numTracks = r.tracks.length) (ht : r.tracks[s.pos.toNat]? = some t)
    (hroom : 0 < s.availy) : ((trackLines s r).filter (·.2)).map (·.1) = [t] := by
  have hlt : s.pos.toNat < r.tracks.length := (List.getElem?_eq_some_iff.mp ht).1
  obtain ⟨off, hoff⟩ : ∃ off, off =
      (min (max (s.pos - (s.availy / 2 : Nat)) 0) (r.numTracks - s.availy)).toNat := ⟨_, rfl⟩
  have hbefore : off ≤ s.pos.toNat ∧ s.pos.toNat - off < s.availy := by omega
  have hi : min off r.tracks.length = off := by omega
  have hget : ((r.tracks.drop off).take s.availy)[s.pos.toNat - off]? = some t := by
    rw [List.getElem?_take_of_lt hbefore.2, List.getElem?_drop, Nat.add_sub_cancel' hbefore.1, ht]
  have hline : ∀ n : Nat, decide ((n : Int) = s.pos) = decide (n = s.pos.toNat) := by
    intro n
    exact decide_eq_decide.mpr (by omega)
  unfold trackLines
  dsimp only
  rw [← hoff, hi, List.filter_map, List.map_map]
  simp only [Function.comp_def, hline]
  rw [filter_zipIdx hbefore.1 hget]
  rfl

/-- What is marked on the screen is what a key acts on. -/
structure Selected (strcmp : CString → CString → Int) (s : State) : Prop where
  /-- no key of the sidebar reads a search that is not there -/
  safe : ∀ ch, (sidebarKeypress s ch).isSome = true
  /-- nor does a new search whose tracks can be sorted -/
  added : ∀ numTracks tracks, (sessSearch strcmp s numTracks tracks).isSome =
    (Sort.sessSearch strcmp numTracks tracks).isSome
  /-- the tracks that are listed are those of the search that is marked -/
  listed : ∀ height, ∀ row ∈ sidebarDraw s height, row.2 = true → s.res = some row.1
  /-- one track is marked, and ENTER plays it -/
  marked : ∀ width height, 11 ≤ width → 3 ≤ height → ∀ r ∈ s.res, r.numTracks ≠ 0 → ∃ t,
    ((tracklistDraw s width height).2.filter (·.2)).map (·.1) = [t] ∧
      (tracklistKeypress (tracklistDraw s width height).1 keyEnter).1.played = t :: s.played

theorem Inv.selected {s : State} (h : Inv s) : Selected strcmp s := by
  refine ⟨fun ch => ?_, fun numTracks tracks => ?_, fun height row hrow hmarked => ?_,
    fun width height hw hh r hr hne => ?_⟩
  · obtain ⟨r, hr, -⟩ := h.sidebar ch
    rw [hr]
    rfl
  · unfold sessSearch
    cases Sort.sessSearch strcmp numTracks tracks with
    | none => rfl
    | some sorted => rfl
  · obtain ⟨⟨q, i⟩, hmem, rfl⟩ := List.mem_map.mp hrow
    have hget := (List.mem_zipIdx_iff_getElem?.mp hmem)
    have hi : i = s.sidebarPos.toNat := of_decide_eq_true hmarked
    subst hi
    rw [h.listed]
    rw [List.getElem?_take] at hget
    split at hget
    · exact hget
    · cases hget
  · have hcount : r.numTracks = r.tracks.length := (h.counted r (h.known r hr)).resolve_left hne
    obtain ⟨hnonneg, hpos⟩ := h.pos
    have hcur := hpos r hr
    have hlt : s.pos.toNat < r.tracks.length := by omega
    have ht : r.tracks[s.pos.toNat]? = some r.tracks[s.pos.toNat] := List.getElem?_eq_getElem hlt
    have hr : s.res = some r := hr
    have hdraw : tracklistDraw s width height =
        ({ s with availy := height - 2 }, trackLines { s with availy := height - 2 } r) := by
      unfold tracklistDraw
      rw [if_neg (by omega)]
      dsimp only
      rw [hr]
      dsimp only
      rw [if_pos hne]
    rw [hdraw]
    refine ⟨_, marked_trackLines hnonneg hcount ht (by show 0 < height - 2; omega), ?_⟩
    unfold tracklistKeypress
    dsimp only
    rw [if_neg (by decide), hr]
    dsimp only
    rw [if_neg hne, if_pos (show isEnter keyEnter from Or.inl rfl), ht]

/-- **The selection**, in every run in which the results of searches are counted. -/
theorem selected_of_counted {es : List Event} {s : State}
    (hok : AllSteps (step strcmp) Counted State.init es)
    (hrun : exec (step strcmp) State.init es = some s) : Selected strcmp s :=
  (exec_inv_of_allSteps (fun _ _ _ => step_inv) inv_init hok hrun).selected

/-- Two equal tracks are found, of which one is kept. -/
def pairListed : State :=
  { search := [⟨0, 1, [Sort.trackOf [97] [97]]⟩]
    searchLen := 1
    sidebarPos := 0
    res := some ⟨0, 1, [Sort.trackOf [97] [97]]⟩
    pos := 0
    availy := 10
    played := [] }

theorem step_pair : step Sort.byteDifference State.init
    (.search 2 [Sort.trackOf [97] [97], Sort.trackOf [97] [97]]) = some pairListed := by
  have hsess : Sort.sessSearch Sort.byteDifference 2
      [Sort.trackOf [97] [97], Sort.trackOf [97] [97]] = some ([Sort.trackOf [97] [97]], 1) := by
    rw [Sort.sessSearch, Sort.tracklistSort_pair _ (by decide)]
    rfl
  rw [step, sessSearch, hsess]
  rfl

theorem selected_of_counted_pair : ∃ s,
    exec (step Sort.byteDifference) State.init
        [.search 2 [Sort.trackOf [97] [97], Sort.trackOf [97] [97]], .draw 80 24,
          .tracklist keyDown, .tracklist keyEnter] = some s ∧
      s.played = [Sort.trackOf [97] [97]] ∧ Selected Sort.byteDifference s := by
  have hok : AllSteps (step Sort.byteDifference) Counted State.init
      [.search 2 [Sort.trackOf [97] [97], Sort.trackOf [97] [97]], .draw 80 24,
        .tracklist keyDown, .tracklist keyEnter] := by
    refine .cons ⟨Or.inl rfl, by decide⟩ step_pair ?_
    exact .cons trivial rfl (.cons trivial rfl (.cons trivial rfl trivial))
  have hrun : ∃ s, exec (step Sort.byteDifference) pairListed
      [.draw 80 24, .tracklist keyDown, .tracklist keyEnter] = some s ∧
        s.played = [Sort.trackOf [97] [97]] := ⟨_, rfl, rfl⟩
  obtain ⟨s, hrest, hplayed⟩ := hrun
  have hrun : exec (step Sort.byteDifference) State.init
      [.search 2 [Sort.trackOf [97] [97], Sort.trackOf [97] [97]], .draw 80 24,
        .tracklist keyDown, .tracklist keyEnter] = some s := by
    rw [exec_cons, step_pair, Option.bind_some, hrest]
  exact ⟨s, hrun, hplayed, selected_of_counted hok hrun⟩

end Despotify.Ui.Browser

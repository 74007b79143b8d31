import Despotify.Lib.Frame
import Despotify.Pool.Runs

/-!
# Searches

`despotify_search` makes a playlist for the tracks it finds; `despotify_search_more`
appends to these tracks, and adds to the number of the playlist of the session, which a
later search or a load may have replaced.  Both link a track before they know that the
reply has one.

* `parseTracks_append`, `xmlParseTracklist_new`: the tracks of a reply at the end of a
  list.
* `World.Inv`: the lists of the searches and their numbers.
* `confined_iff`: behind any run without empty replies a call is confined to its search
  exactly when it is for the playlist of the session, and the reply has tracks.
* `laterSearch_miscounted`: one that is not.
-/

namespace Despotify.Lib

open Gateway Linked

/-! ## The calls -/

/-- `struct ds_search_result` without the artists and albums. -/
structure Search where
  query : CString := []
  suggestion : CString := []
  totalArtists : Int := 0
  totalAlbums : Int := 0
  totalTracks : Int := 0
  tracks : Option Nat := none
  playlist : Nat
deriving DecidableEq, Repr

/-- How a request ends. -/
inductive SearchReply
  | sendFailed
  | timeout
  | notInflated
  | document (top : Option Ezxml) (locals : Nat → Locals)

/-- `despotify_search`; the playlist has the name and the author of the search. -/
def despotifySearch (fuel : Nat) (s : Session) (username searchtext : CString)
    (reply : SearchReply) : Option (Session × Option Search) :=
  let p := s.playlists.brk
  let s := s.newPlaylist
  let s := { s with
    playlists := s.playlists.modify p fun pl => { pl with
      name := strncpy (snprintf 80 (ascii "Search: " ++ searchtext)) 256
      author := strncpy username 256 } }
  match reply with
  | .sendFailed => some ({ s with lastError := some "cmd_search() failed" }, none)
  | .timeout => some ({ s with lastError := some "Timeout when searching" }, none)
  | .notInflated | .document .. =>
    -- the first track, before there is one
    let t := s.tracks.brk
    let s := { s with
      tracks := s.tracks.alloc {}
      playlists := s.playlists.modify p fun pl => { pl with tracks := some t } }
    match reply with
    | .document top locals =>
      (xmlParseTracklist fuel s.tracks (some t) top false s.highBitrate locals).map
        fun (tracks, n) =>
          ({ s with
              tracks := tracks
              playlists := s.playlists.modify p fun pl => { pl with numTracks := n } },
            some
              { query := strncpy searchtext 256
                suggestion := xmlstrncpy [] 256 top ["did-you-mean"]
                totalArtists := xmlatoi 0 top ["total-artists"]
                totalAlbums := xmlatoi 0 top ["total-albums"]
                totalTracks := xmlatoi 0 top ["total-tracks"]
                tracks := some t
                playlist := p })
    | _ => some ({ s with lastError := some "Error when searching" }, none)

/-- `pl->num_tracks += n` -/
def Playlist.addTracks (n : Nat) (pl : Playlist) : Playlist :=
  { pl with numTracks := pl.numTracks + n }

/-- `despotify_search_more`; no value when a bad pointer is followed. -/
def despotifySearchMore (fuel : Nat) (s : Session) (search : Option Search) (offset : Int)
    (reply : SearchReply) : Option (Session × Option Search) :=
  match search with
  | none => some (s, none)
  | some search =>
    if search.tracks = none then some (s, none)
    else if search.totalTracks ≤ offset then some (s, some search)
    else
      match reply with
      | .sendFailed => some ({ s with lastError := some "cmd_search() failed" }, none)
      | .timeout => some ({ s with lastError := some "Timeout when searching" }, none)
      | .notInflated => some (s, some search)
      | .document top locals =>
        match lastNode fuel s.tracks.heap search.tracks with
        | none | some none => none
        | some (some last) =>
          -- `t = t->next = calloc (...)`
          let t := s.tracks.brk
          let tracks := (s.tracks.alloc {}).link last (some t)
          match xmlParseTracklist fuel tracks (some t) top false s.highBitrate locals with
          | none => none
          | some (tracks, n) =>
            match s.playlist.bind fun p => (s.playlists.heap p).map fun _ => p with
            | none => none
            | some p => some
                ({ s with
                    tracks := tracks
                    playlists := s.playlists.modify p (Playlist.addTracks n) },
                  some search)

/-! ## Tracks at the end of a list -/

/-- A track of a reply. -/
def newTrack (highBitrate : Bool) (e : Locals × Ezxml) : Track :=
  fillTrack highBitrate e.1 e.2 {}

variable {fuel : Nat} {root : Option Nat} {as : List Nat}

/-- Behind the first track every one is made when it is come to. -/
theorem parseTracks_append (fuel : Nat) (highBitrate : Bool) {s : Parse} {e : Nat}
    (p : Option Nat) (hs : Spine s.mem.heap root (as ++ [e])) (ht : s.t = none)
    (hprev : s.prev = some e) (locals : Nat → Locals) (tracks : List Ezxml) :
    ∃ s' bs, parseTracks fuel p false highBitrate locals tracks s = some s' ∧
      Spine s'.mem.heap root (as ++ [e] ++ bs) ∧
      vals s'.mem.heap bs = (passes locals tracks).map (newTrack highBitrate) ∧
      bs.length = tracks.length ∧ s'.trackCount = s.trackCount + tracks.length ∧
      (∀ b ∈ bs, s.mem.heap b = none) ∧
      (∀ a n, a ≠ e → s.mem.heap a = some n → s'.mem.heap a = some n) ∧
      (s'.mem.heap e).map Node.val = (s.mem.heap e).map Node.val := by
  induction tracks generalizing s e as locals with
  | nil =>
    exact ⟨s, [], rfl, by rwa [List.append_nil], rfl, rfl, rfl, nofun, fun _ _ _ h => h, rfl⟩
  | cons track tracks ih =>
    have hbrk : s.mem.heap s.mem.brk = none := s.mem.fresh _ (Nat.le_refl _)
    have he : e ≠ s.mem.brk := Nat.ne_of_lt (hs.lt_brk (by simp))
    have hlist := hs.append ({} : Track)
    obtain ⟨node, hnode⟩ := hs.node (List.mem_append_right as (List.mem_singleton_self e))
    have hblank : ((s.mem.alloc {}).link e (some s.mem.brk)).heap s.mem.brk =
        some ⟨({} : Track), none⟩ := (Mem.link_of_ne he.symm).trans Mem.alloc_brk
    -- the memory with the track made for this element
    obtain ⟨mem, hmem⟩ : ∃ mem, mem = ((s.mem.alloc {}).link e (some s.mem.brk)).modify s.mem.brk
        (fillTrack highBitrate (locals 0) track) := ⟨_, rfl⟩
    have hother : ∀ a, a ≠ e → a ≠ s.mem.brk → mem.heap a = s.mem.heap a := by
      intro a hae hab
      rw [hmem, Mem.modify_of_ne hab, Mem.link_of_ne hae, Mem.alloc_of_ne hab]
    have hlast : mem.heap e = some ⟨node.val, some s.mem.brk⟩ := by
      rw [hmem, Mem.modify_of_ne he]
      exact Mem.link_self ((Mem.alloc_of_ne he).trans hnode)
    have hmade : mem.heap s.mem.brk = some ⟨newTrack highBitrate (locals 0, track), none⟩ := by
      rw [hmem]
      exact Mem.modify_self hblank
    have hspine₁ : Spine mem.heap root (as ++ [e] ++ [s.mem.brk]) := by
      rw [hmem]
      exact hlist.modifyMem _ _
    have hstep : parseTrack fuel p false highBitrate (locals 0) track s = some
        { mem := mem, prev := some s.mem.brk, t := none, trackCount := s.trackCount + 1 } := by
      simp only [parseTrack, Bool.false_eq_true, if_false, ht, hprev, Parse.fill, hblank, hmem]
    obtain ⟨s', bs, hrun, hspine, hvals, hlen, hcount, hnew, hkeep, hval⟩ := ih
      (s := ⟨mem, some s.mem.brk, none, s.trackCount + 1⟩) hspine₁ rfl rfl fun i => locals (i + 1)
    refine ⟨s', s.mem.brk :: bs, ?_, ?_, ?_, ?_, ?_, ?_, ?_, ?_⟩
    · rw [parseTracks, hstep]
      exact hrun
    · rw [List.append_assoc _ _ bs, List.singleton_append] at hspine
      exact hspine
    · rw [hmade, Option.map_some, Option.map_eq_some_iff] at hval
      obtain ⟨n, hn, hnval⟩ := hval
      rw [vals_cons hn, hnval, hvals]
      rfl
    · rw [List.length_cons, hlen, List.length_cons]
    · rw [hcount, List.length_cons, Nat.add_assoc, Nat.add_comm 1]
    · refine List.forall_mem_cons.mpr ⟨hbrk, fun b hb => ?_⟩
      have hb₁ := hnew b hb
      by_cases hbe : b = e
      · rw [hbe, hlast] at hb₁
        cases hb₁
      · by_cases hbb : b = s.mem.brk
        · rw [hbb, hbrk]
        · rwa [hother b hbe hbb] at hb₁
    · intro a n hae hn
      have hab : a ≠ s.mem.brk := by
        rintro rfl
        rw [hbrk] at hn
        cases hn
      exact hkeep a n hab ((hother a hae hab).trans hn)
    · rw [hkeep e _ he hlast, hnode]
      rfl

/-- The tracks of a reply, the first one in the blank track at the end of a list. -/
theorem xmlParseTracklist_new (fuel : Nat) (highBitrate : Bool) {mem : Mem Track} {t : Nat}
    {top : Option Ezxml} (locals : Nat → Locals) (hs : Spine mem.heap root (as ++ [t]))
    (hblank : mem.heap t = some ⟨{}, none⟩) (htracks : tracksOf top ≠ []) :
    ∃ mem' bs, xmlParseTracklist fuel mem (some t) top false highBitrate locals =
        some (mem', (tracksOf top).length) ∧
      Spine mem'.heap root (as ++ bs) ∧
      vals mem'.heap bs = (passes locals (tracksOf top)).map (newTrack highBitrate) ∧
      bs.length = (tracksOf top).length ∧ (∀ b ∈ bs, b = t ∨ mem.heap b = none) ∧
      ∀ a n, a ≠ t → mem.heap a = some n → mem'.heap a = some n := by
  cases htop : tracksOf top with
  | nil => exact absurd htop htracks
  | cons track tracks =>
    have hfill : parseTrack fuel (some t) false highBitrate (locals 0) track
        ⟨mem, none, some t, 0⟩ = some
        ⟨mem.modify t (fillTrack highBitrate (locals 0) track), some t, none, 1⟩ := by
      simp only [parseTrack, Bool.false_eq_true, if_false, Parse.fill, hblank, Nat.zero_add]
    have hmade : (mem.modify t (fillTrack highBitrate (locals 0) track)).heap t =
        some ⟨newTrack highBitrate (locals 0, track), none⟩ := Mem.modify_self hblank
    obtain ⟨s', bs, hrun, hspine, hvals, hlen, hcount, hnew, hkeep, hval⟩ :=
      parseTracks_append fuel highBitrate (s := ⟨mem.modify t (fillTrack highBitrate (locals 0) track), some t, none, 1⟩) (some t)
        (hs.modifyMem t _) rfl rfl (fun i => locals (i + 1)) tracks
    refine ⟨s'.mem, t :: bs, ?_, ?_, ?_, ?_, ?_, ?_⟩
    · rw [xmlParseTracklist, htop, parseTracks, hfill]
      change (parseTracks fuel (some t) false highBitrate (fun i => locals (i + 1)) tracks _).map _ =
        _
      rw [hrun, Option.map_some, hcount, List.length_cons, Nat.add_comm]
    · rw [List.append_assoc _ _ bs, List.singleton_append] at hspine
      exact hspine
    · rw [hmade, Option.map_some, Option.map_eq_some_iff] at hval
      obtain ⟨n, hn, hnval⟩ := hval
      rw [vals_cons hn, hnval, hvals]
      rfl
    · rw [List.length_cons, hlen, List.length_cons]
    · refine List.forall_mem_cons.mpr ⟨.inl rfl, fun b hb => ?_⟩
      by_cases hbt : b = t
      · exact .inl hbt
      · have hb' := hnew b hb
        rw [Mem.modify_of_ne hbt] at hb'
        exact .inr hb'
    · exact fun a n hat hn => hkeep a n hat ((Mem.modify_of_ne hat).trans hn)

theorem xmlParseTracklist_none (fuel : Nat) (mem : Mem Track) (t : Option Nat) (ordered : Bool)
    (highBitrate : Bool) (locals : Nat → Locals) {top : Option Ezxml} (htracks : tracksOf top = []) :
    xmlParseTracklist fuel mem t top ordered highBitrate locals = some (mem, 0) := by
  rw [xmlParseTracklist, htracks]
  rfl

/-! ## One call -/

/-- The document that a call takes tracks from. -/
def appendedDocument (search : Search) (offset : Int) :
    SearchReply → Option (Option Ezxml × (Nat → Locals))
  | .document top locals => if search.totalTracks ≤ offset then none else some (top, locals)
  | .sendFailed | .timeout | .notInflated => none

/-- The tracks a call is to append. -/
def returnedTracks (highBitrate : Bool) (search : Search) (offset : Int) (reply : SearchReply) :
    List Track :=
  match appendedDocument search offset reply with
  | some (top, locals) => (passes locals (tracksOf top)).map (newTrack highBitrate)
  | none => []

/-- A playlist with this number of tracks. -/
def Counts (n : Nat) (pl : Playlist) : Prop := pl.numTracks = n

/-- The tracks are at the end of the list of the search and counted in its playlist; the
other tracks and playlists are as they were. -/
structure Confined (s s' : Session) (search : Search) (returned : List Track) : Prop where
  appended : ∃ as bs, Spine s.tracks.heap search.tracks as ∧
    Spine s'.tracks.heap search.tracks (as ++ bs) ∧
    vals s'.tracks.heap as = vals s.tracks.heap as ∧
    vals s'.tracks.heap bs = returned ∧ bs.length = returned.length ∧
    (∀ a n, a ∉ as → s.tracks.heap a = some n → s'.tracks.heap a = some n) ∧
    At (Counts (as ++ bs).length) s'.playlists.heap search.playlist
  counted : ∃ n, s.playlists.heap search.playlist = some n ∧
    s'.playlists.heap search.playlist =
      some ⟨n.val.addTracks returned.length, n.next⟩
  others : ∀ a, a ≠ search.playlist → s'.playlists.heap a = s.playlists.heap a

/-- A reply with tracks, while the playlist of the session is that of the search. -/
def Meets (s : Session) (search : Search) (offset : Int) (reply : SearchReply) : Prop :=
  ∀ d, appendedDocument search offset reply = some d →
    s.playlist = some search.playlist ∧ tracksOf d.1 ≠ []

/-- The list of a search, and its number. -/
structure Listed (s : Session) (search : Search) (as : List Nat) : Prop where
  list : Spine s.tracks.heap search.tracks as
  ne_nil : as ≠ []
  count : At (Counts as.length) s.playlists.heap search.playlist

variable {s s' : Session} {search : Search} {offset : Int} {reply : SearchReply}
  {r : Option Search}

theorem Listed.tracks_ne_none (hl : Listed s search as) : search.tracks ≠ none := by
  cases as with
  | nil => exact absurd rfl hl.ne_nil
  | cons a as =>
    rw [hl.list.1]
    nofun

/-- Without a document nothing changes, but for `last_error`. -/
theorem despotifySearchMore_of_none (fuel : Nat) (hl : Listed s search as)
    (hdoc : appendedDocument search offset reply = none) :
    ∃ s' r, despotifySearchMore fuel s (some search) offset reply = some (s', r) ∧
      s'.tracks = s.tracks ∧ s'.playlists = s.playlists := by
  simp only [despotifySearchMore, if_neg hl.tracks_ne_none]
  by_cases hoffset : search.totalTracks ≤ offset
  · rw [if_pos hoffset]
    exact ⟨_, _, rfl, rfl, rfl⟩
  · rw [if_neg hoffset]
    cases reply with
    | sendFailed | timeout | notInflated => exact ⟨_, _, rfl, rfl, rfl⟩
    | document top locals =>
      rw [appendedDocument, if_neg hoffset] at hdoc
      cases hdoc

/-- What a document does to the tracks, and to the playlist of the session. -/
theorem despotifySearchMore_of_document {fuel : Nat} (hl : Listed s search as)
    (hfuel : as.length ≤ fuel) {top : Option Ezxml} {locals : Nat → Locals}
    (hdoc : appendedDocument search offset reply = some (top, locals)) :
    ∃ tracks bs, Spine tracks.heap search.tracks (as ++ bs) ∧
      vals tracks.heap as = vals s.tracks.heap as ∧
      (tracksOf top ≠ [] →
        vals tracks.heap bs = (passes locals (tracksOf top)).map (newTrack s.highBitrate)) ∧
      bs.length = max 1 (tracksOf top).length ∧ (∀ b ∈ bs, s.tracks.heap b = none) ∧
      (∀ a n, a ∉ as → s.tracks.heap a = some n → tracks.heap a = some n) ∧
      despotifySearchMore fuel s (some search) offset reply =
        (s.playlist.bind fun p => (s.playlists.heap p).map fun _ => p).map fun p =>
          ({ s with
              tracks := tracks
              playlists := s.playlists.modify p (Playlist.addTracks (tracksOf top).length) },
            some search) := by
  obtain ⟨init, e, rfl⟩ : ∃ init e, as = init ++ [e] :=
    ⟨_, _, (List.dropLast_append_getLast hl.ne_nil).symm⟩
  have he : e ≠ s.tracks.brk := Nat.ne_of_lt (hl.list.lt_brk (by simp))
  have hbrk : s.tracks.heap s.tracks.brk = none := s.tracks.fresh _ (Nat.le_refl _)
  obtain ⟨hoffset, rfl⟩ : ¬ search.totalTracks ≤ offset ∧ reply = .document top locals := by
    cases reply with
    | sendFailed | timeout | notInflated => cases hdoc
    | document top' locals' =>
      rw [appendedDocument] at hdoc
      split at hdoc
      · cases hdoc
      · rename_i hoffset
        cases hdoc
        exact ⟨hoffset, rfl⟩
  -- the blank track behind the last one
  obtain ⟨mem, hmem⟩ : ∃ mem, mem = (s.tracks.alloc {}).link e (some s.tracks.brk) := ⟨_, rfl⟩
  have hlist : Spine mem.heap search.tracks (init ++ [e] ++ [s.tracks.brk]) := by
    rw [hmem]
    exact hl.list.append ({} : Track)
  have hblank : mem.heap s.tracks.brk = some ⟨{}, none⟩ := by
    rw [hmem, Mem.link_of_ne he.symm]
    exact Mem.alloc_brk
  have hval : ∀ a, a ≠ s.tracks.brk →
      (mem.heap a).map Node.val = (s.tracks.heap a).map Node.val := by
    intro a ha
    rw [hmem, Mem.link_val, Mem.alloc_of_ne ha]
  have hother : ∀ a n, a ∉ init ++ [e] → s.tracks.heap a = some n →
      a ≠ s.tracks.brk ∧ mem.heap a = some n := by
    intro a n ha hn
    have hab : a ≠ s.tracks.brk := by
      rintro rfl
      rw [hbrk] at hn
      cases hn
    have hae : a ≠ e := by
      rintro rfl
      exact ha (by simp)
    exact ⟨hab, by rw [hmem, Mem.link_of_ne hae, Mem.alloc_of_ne hab, hn]⟩
  have hne : ∀ a ∈ init ++ [e], a ≠ s.tracks.brk := fun a ha => Nat.ne_of_lt (hl.list.lt_brk ha)
  have hcall : ∀ {tracks : Mem Track}, xmlParseTracklist fuel mem (some s.tracks.brk) top false
      s.highBitrate locals = some (tracks, (tracksOf top).length) →
      despotifySearchMore fuel s (some search) offset (.document top locals) =
        (s.playlist.bind fun p => (s.playlists.heap p).map fun _ => p).map fun p =>
          ({ s with
              tracks := tracks
              playlists := s.playlists.modify p (Playlist.addTracks (tracksOf top).length) },
            some search) := by
    intro tracks hparse
    simp only [despotifySearchMore, if_neg hl.tracks_ne_none, if_neg hoffset,
      lastNode_eq hl.list hfuel, ← hmem, hparse]
    cases s.playlist.bind fun p => (s.playlists.heap p).map fun _ => p <;> rfl
  by_cases htracks : tracksOf top = []
  · have hlen : (tracksOf top).length = 0 := by rw [htracks, List.length_nil]
    refine ⟨mem, [s.tracks.brk], hlist, vals_congr fun a ha => hval a (hne a ha),
      fun h => absurd htracks h, by rw [hlen]; rfl, ?_, fun a n ha hn => (hother a n ha hn).2, ?_⟩
    · intro b hb
      rw [List.mem_singleton.mp hb, hbrk]
    · apply hcall
      rw [xmlParseTracklist_none _ _ _ _ _ _ htracks, hlen]
  · obtain ⟨tracks, bs, hparse, hspine, hvals, hlen, hnew, hkeep⟩ :=
      xmlParseTracklist_new fuel s.highBitrate locals hlist hblank htracks
    have hpos : 0 < (tracksOf top).length := List.length_pos_iff.mpr htracks
    refine ⟨tracks, bs, hspine, ?_, fun _ => hvals, by rw [hlen]; omega, ?_, ?_, hcall hparse⟩
    · refine vals_congr fun a ha => ?_
      obtain ⟨n, hn⟩ := hl.list.node ha
      rw [← hval a (hne a ha)]
      obtain ⟨n', hn'⟩ := hlist.node (List.mem_append_left _ ha)
      rw [hn', hkeep a n' (hne a ha) hn']
    · intro b hb
      rcases hnew b hb with rfl | hnone
      · exact hbrk
      · cases hold : s.tracks.heap b with
        | none => rfl
        | some n =>
          by_cases hb' : b ∈ init ++ [e]
          · obtain ⟨n', hn'⟩ := hlist.node (List.mem_append_left _ hb')
            rw [hnone] at hn'
            cases hn'
          · rw [(hother b n hb' hold).2] at hnone
            cases hnone
    · intro a n ha hn
      obtain ⟨hab, hn'⟩ := hother a n ha hn
      exact hkeep a n hab hn'

theorem passes_length (locals : Nat → Locals) (tracks : List Ezxml) :
    (passes locals tracks).length = tracks.length := by
  induction tracks generalizing locals with
  | nil => rfl
  | cons track tracks ih => rw [passes, List.length_cons, ih, List.length_cons]

theorem returnedTracks_length (highBitrate : Bool) {top : Option Ezxml} {locals : Nat → Locals}
    (hdoc : appendedDocument search offset reply = some (top, locals)) :
    (returnedTracks highBitrate search offset reply).length = (tracksOf top).length := by
  rw [returnedTracks, hdoc]
  simp only [List.length_map, passes_length]

/-- The playlist of the session, when there is one. -/
theorem current_eq_some {p : Nat}
    (h : (s.playlist.bind fun p => (s.playlists.heap p).map fun _ => p) = some p) :
    s.playlist = some p ∧ ∃ n, s.playlists.heap p = some n := by
  obtain ⟨q, hq, hmap⟩ := Option.bind_eq_some_iff.mp h
  obtain ⟨n, hn, rfl⟩ := Option.map_eq_some_iff.mp hmap
  exact ⟨hq, n, hn⟩

/-- Tracks for the playlist of the session. -/
theorem confined_of_meets {fuel : Nat} (hl : Listed s search as) (hfuel : as.length ≤ fuel)
    (hmeets : Meets s search offset reply) :
    ∃ s' r, despotifySearchMore fuel s (some search) offset reply = some (s', r) ∧
      Confined s s' search (returnedTracks s.highBitrate search offset reply) := by
  obtain ⟨n, hn, hcount⟩ := hl.count
  cases hdoc : appendedDocument search offset reply with
  | none =>
    obtain ⟨s', r, hrun, htracks, hplaylists⟩ := despotifySearchMore_of_none fuel hl hdoc
    have hnone : returnedTracks s.highBitrate search offset reply = [] := by
      rw [returnedTracks, hdoc]
    refine ⟨s', r, hrun, ?_⟩
    rw [hnone]
    refine ⟨⟨as, [], hl.list, ?_, ?_, rfl, rfl, ?_, ?_⟩, ⟨n, hn, ?_⟩, fun a _ => by rw [hplaylists]⟩
    · rw [htracks, List.append_nil]
      exact hl.list
    · rw [htracks]
    · intro a m _ hm
      rw [htracks, hm]
    · rw [hplaylists, List.append_nil]
      exact ⟨n, hn, hcount⟩
    · rw [hplaylists, hn, List.length_nil, Playlist.addTracks, Int.natCast_zero, Int.add_zero]
  | some d =>
    obtain ⟨top, locals⟩ := d
    obtain ⟨hcurrent, hne⟩ := hmeets _ hdoc
    obtain ⟨tracks, bs, hspine, hsame, hvals, hlen, -, hkeep, hrun⟩ :=
      despotifySearchMore_of_document hl hfuel hdoc
    have hpos : 0 < (tracksOf top).length := List.length_pos_iff.mpr hne
    have hret := returnedTracks_length s.highBitrate hdoc
    rw [hcurrent, Option.bind_some, hn, Option.map_some, Option.map_some] at hrun
    refine ⟨_, _, hrun, ⟨as, bs, hl.list, hspine, hsame, ?_, ?_, hkeep, ?_⟩, ⟨n, hn, ?_⟩,
      fun a ha => Mem.modify_of_ne ha⟩
    · rw [returnedTracks, hdoc]
      exact hvals hne
    · rw [hret, hlen]
      omega
    · refine ⟨_, Mem.modify_self hn, ?_⟩
      rw [Counts] at hcount
      rw [Counts, Playlist.addTracks, List.length_append, hlen]
      dsimp only
      omega
    · rw [hret]
      exact Mem.modify_self hn

/-- And no others. -/
theorem meets_of_confined {fuel : Nat} (hl : Listed s search as) (hfuel : as.length ≤ fuel)
    (hrun : despotifySearchMore fuel s (some search) offset reply = some (s', r))
    (hconf : Confined s s' search (returnedTracks s.highBitrate search offset reply)) :
    Meets s search offset reply := by
  rintro ⟨top, locals⟩ hdoc
  obtain ⟨tracks, bs, hspine, -, -, hlen, -, -, hcall⟩ :=
    despotifySearchMore_of_document hl hfuel hdoc
  rw [hcall] at hrun
  obtain ⟨p, hp, heq⟩ := Option.map_eq_some_iff.mp hrun
  cases heq
  obtain ⟨hcurrent, n, hn⟩ := current_eq_some hp
  -- the number of tracks linked is that of the reply
  have hpos : 0 < (tracksOf top).length := by
    obtain ⟨as', bs', hs, hs', -, -, hlen', -⟩ := hconf.appended
    cases hs.unique hl.list
    rw [List.append_cancel_left (hs'.unique hspine), hlen, returnedTracks_length _ hdoc] at hlen'
    omega
  refine ⟨?_, List.ne_nil_of_length_pos hpos⟩
  by_contra hne
  have hother : p ≠ search.playlist := fun h => hne (by rw [hcurrent, h])
  have hsame := hconf.others p hother
  rw [Mem.modify_self hn, hn] at hsame
  have hnum : n.val.numTracks + (tracksOf top).length = n.val.numTracks :=
    congrArg (fun n => n.val.numTracks) (Option.some.inj hsame)
  omega

/-! ## A new search -/

/-- A search leaves everything there was, and its own tracks and playlist are new; they
are counted, when the reply has tracks. -/
theorem despotifySearch_spec {fuel : Nat} {username searchtext : CString}
    (h : despotifySearch fuel s username searchtext reply = some (s', r))
    (hne : ∀ top locals, reply = .document top locals → tracksOf top ≠ []) :
    s.Keeps s' ∧ ∀ search, r = some search → s.playlists.heap search.playlist = none ∧
      ∃ as, Listed s' search as ∧ ∀ a ∈ as, s.tracks.heap a = none := by
  have hp : s.playlists.heap s.playlists.brk = none := s.playlists.fresh _ (Nat.le_refl _)
  have ht : s.tracks.heap s.tracks.brk = none := s.tracks.fresh _ (Nat.le_refl _)
  have hk := Linked.Keeps.refl s.playlists.heap
  have htracks := (Linked.Keeps.refl s.tracks.heap).alloc ({} : Track)
  have hplaylists := (hk.alloc ({} : Playlist)).modify hp fun pl => { pl with
    name := strncpy (snprintf 80 (ascii "Search: " ++ searchtext)) 256
    author := strncpy username 256 }
  cases reply with
  | sendFailed | timeout =>
    cases h
    exact ⟨⟨Linked.Keeps.refl _, hplaylists⟩, nofun⟩
  | notInflated =>
    cases h
    exact ⟨⟨htracks, hplaylists.modify hp _⟩, nofun⟩
  | document top locals =>
    have hlist : Spine (s.tracks.alloc {}).heap (some s.tracks.brk) ([] ++ [s.tracks.brk]) :=
      ⟨rfl, _, none, Mem.alloc_brk, rfl⟩
    obtain ⟨tracks, bs, hparse, hspine, -, hlen, hnew, hkeep⟩ := xmlParseTracklist_new fuel
      s.highBitrate locals hlist Mem.alloc_brk (hne top locals rfl)
    simp only [despotifySearch] at h
    obtain ⟨⟨tracks', n⟩, hparse', heq⟩ := Option.map_eq_some_iff.mp h
    cases hparse.symm.trans hparse'
    cases heq
    have hpos : 0 < (tracksOf top).length := List.length_pos_iff.mpr (hne top locals rfl)
    constructor
    · refine ⟨fun a m hm => ?_, (hplaylists.modify hp _).modify hp _⟩
      have hat : a ≠ s.tracks.brk := by
        rintro rfl
        rw [ht] at hm
        cases hm
      exact hkeep a m hat (htracks a m hm)
    · intro search hsearch
      cases hsearch
      refine ⟨hp, bs, ⟨hspine, List.ne_nil_of_length_pos (by omega), ?_⟩, fun b hb => ?_⟩
      · refine ⟨_, Mem.modify_self (Mem.modify_self (Mem.modify_self Mem.alloc_brk)), ?_⟩
        rw [Counts, hlen]
      · rcases hnew b hb with rfl | hnone
        · exact ht
        · cases hold : s.tracks.heap b with
          | none => rfl
          | some m =>
            rw [htracks b m hold] at hnone
            cases hnone

/-! ## Runs -/

/-- The session, and the searches handed out. -/
structure World where
  session : Session
  searches : List Search

def World.init (useCache highBitrate : Bool) : World :=
  { session :=
      { tracks := Mem.empty, playlists := Mem.empty, useCache := useCache
        highBitrate := highBitrate }
    searches := [] }

/-- A call of the client, with what it meets. -/
inductive Call
  | search (username searchtext : CString) (reply : SearchReply)
  | searchMore (search : Search) (offset : Int) (reply : SearchReply)
  | getPlaylist (supply : Supply) (playlistId : Option CString)
  | getStoredPlaylists (metaSupply : Supply) (supplies : Nat → Supply)

def step (fuel : Nat) (w : World) : Call → Option World
  | .search username searchtext reply =>
    (despotifySearch fuel w.session username searchtext reply).map fun (s, r) =>
      { session := s, searches := r.toList ++ w.searches }
  | .searchMore search offset reply =>
    if search ∈ w.searches then
      (despotifySearchMore fuel w.session (some search) offset reply).map fun (s, _) =>
        { w with session := s }
    else none
  | .getPlaylist supply playlistId =>
    (despotifyGetPlaylist fuel supply w.session playlistId).map fun (s, _) =>
      { w with session := s }
  | .getStoredPlaylists metaSupply supplies =>
    match despotifyGetStoredPlaylists fuel metaSupply supplies w.session with
    | some (.returned st) => some { w with session := st.session }
    | some .crashed | none => none

/-- A search finds tracks; and more are asked for while the playlist of the session is
that of the search, and come. -/
def Fine (w : World) : Call → Prop
  | .search _ _ (.document top _) => tracksOf top ≠ []
  | .searchMore search offset reply => Meets w.session search offset reply
  | .search .. | .getPlaylist .. | .getStoredPlaylists .. => True

/-- Every search has a list and a playlist of its own. -/
structure World.Inv (w : World) : Prop where
  listed : ∀ search ∈ w.searches, ∃ as, Listed w.session search as
  apart : ∀ x ∈ w.searches, ∀ y ∈ w.searches, x ≠ y → x.playlist ≠ y.playlist ∧
    ∀ as bs, Spine w.session.tracks.heap x.tracks as → Spine w.session.tracks.heap y.tracks bs →
      ∀ a ∈ as, a ∉ bs

theorem Listed.keeps (hl : Listed s search as) (hk : s.Keeps s') : Listed s' search as := by
  obtain ⟨n, hn, hcount⟩ := hl.count
  exact ⟨hk.tracks.spine hl.list, hl.ne_nil, n, hk.playlists _ n hn, hcount⟩

variable {w w' : World} {fuel : Nat}

theorem World.Inv.keeps (hinv : w.Inv) (hk : w.session.Keeps s) :
    World.Inv { w with session := s } := by
  constructor
  · intro x hx
    obtain ⟨as, hl⟩ := hinv.listed x hx
    exact ⟨as, hl.keeps hk⟩
  · intro x hx y hy hxy
    obtain ⟨hplaylist, hlists⟩ := hinv.apart x hx y hy hxy
    refine ⟨hplaylist, fun as bs has hbs => ?_⟩
    obtain ⟨as', hl⟩ := hinv.listed x hx
    obtain ⟨bs', hl'⟩ := hinv.listed y hy
    cases has.unique (hk.tracks.spine hl.list)
    cases hbs.unique (hk.tracks.spine hl'.list)
    exact hlists as bs hl.list hl'.list

/-- A call that takes tracks from a document has walked over the list. -/
theorem length_le_of_document (hl : Listed s search as)
    (hrun : (despotifySearchMore fuel s (some search) offset reply).isSome)
    (hdoc : appendedDocument search offset reply ≠ none) : as.length ≤ fuel := by
  by_contra hlt
  simp only [despotifySearchMore, if_neg hl.tracks_ne_none] at hrun
  cases reply with
  | sendFailed | timeout | notInflated => exact hdoc rfl
  | document top locals =>
    rw [appendedDocument] at hdoc
    by_cases hoffset : search.totalTracks ≤ offset
    · exact hdoc (if_pos hoffset)
    · simp only [if_neg hoffset, lastNode_eq_none hl.list (Nat.lt_of_not_le hlt)] at hrun
      cases hrun

/-- More tracks for a search. -/
theorem World.Inv.searchMore (hinv : w.Inv) (hmem : search ∈ w.searches)
    (hmeets : Meets w.session search offset reply)
    (hrun : despotifySearchMore fuel w.session (some search) offset reply = some (s', r)) :
    World.Inv { w with session := s' } := by
  obtain ⟨as, hl⟩ := hinv.listed search hmem
  cases hdoc : appendedDocument search offset reply with
  | none =>
    obtain ⟨s'', r', hrun', htracks, hplaylists⟩ := despotifySearchMore_of_none fuel hl hdoc
    cases hrun.symm.trans hrun'
    exact hinv.keeps
      ⟨htracks ▸ Linked.Keeps.refl _, hplaylists ▸ Linked.Keeps.refl _⟩
  | some d =>
    obtain ⟨top, locals⟩ := d
    obtain ⟨hcurrent, hne⟩ := hmeets _ hdoc
    have hfuel : as.length ≤ fuel := by
      refine length_le_of_document hl (by rw [hrun]; rfl) ?_
      rw [hdoc]
      nofun
    obtain ⟨tracks, bs, hspine, -, -, hlen, hnew, hkeep, hrun'⟩ :=
      despotifySearchMore_of_document hl hfuel hdoc
    obtain ⟨n, hn, hcount⟩ := hl.count
    have hpos : 0 < (tracksOf top).length := List.length_pos_iff.mpr hne
    rw [hcurrent, Option.bind_some, hn, Option.map_some, Option.map_some] at hrun'
    cases hrun.symm.trans hrun'
    -- the lists of the others
    have hother : ∀ {y : Search} {cs : List Nat}, y ∈ w.searches → y ≠ search →
        Listed w.session y cs → Spine tracks.heap y.tracks cs := by
      intro y cs hy hne' hly
      refine hly.list.frame fun a ha => ?_
      obtain ⟨m, hm⟩ := hly.list.node ha
      have hnot := (hinv.apart y hy search hmem hne').2 cs as hly.list hl.list a ha
      rw [hkeep a m hnot hm, hm]
    have hapart : ∀ {y : Search} {cs : List Nat}, y ∈ w.searches → y ≠ search →
        Listed w.session y cs → ∀ a ∈ as ++ bs, a ∉ cs := by
      intro y cs hy hne' hly a ha hac
      rcases List.mem_append.mp ha with ha | ha
      · exact (hinv.apart search hmem y hy hne'.symm).2 as cs hl.list hly.list a ha hac
      · obtain ⟨m, hm⟩ := hly.list.node hac
        rw [hnew a ha] at hm
        cases hm
    constructor
    · intro y hy
      by_cases hys : y = search
      · subst hys
        refine ⟨as ++ bs, hspine, by simp [hl.ne_nil], _, Mem.modify_self hn, ?_⟩
        rw [Counts] at hcount
        rw [Counts, Playlist.addTracks, List.length_append, hlen]
        dsimp only
        omega
      · obtain ⟨cs, hly⟩ := hinv.listed y hy
        obtain ⟨m, hm, hcounts⟩ := hly.count
        refine ⟨cs, hother hy hys hly, hly.ne_nil, m, ?_, hcounts⟩
        rw [← hm]
        exact Mem.modify_of_ne (hinv.apart y hy search hmem hys).1
    · intro x hx y hy hxy
      refine ⟨(hinv.apart x hx y hy hxy).1, fun xs ys hxs hys a hax hay => ?_⟩
      by_cases hxs' : x = search
      · subst hxs'
        obtain ⟨cs, hly⟩ := hinv.listed y hy
        cases hxs.unique hspine
        cases hys.unique (hother hy hxy.symm hly)
        exact hapart hy hxy.symm hly a hax hay
      · obtain ⟨cs, hlx⟩ := hinv.listed x hx
        cases hxs.unique (hother hx hxs' hlx)
        by_cases hys' : y = search
        · subst hys'
          cases hys.unique hspine
          exact hapart hx hxs' hlx a hay hax
        · obtain ⟨ds, hly⟩ := hinv.listed y hy
          cases hys.unique (hother hy hys' hly)
          exact (hinv.apart x hx y hy hxy).2 _ _ hlx.list hly.list a hax hay

theorem World.Inv.newSearch (hinv : w.Inv) {username searchtext : CString}
    (hne : ∀ top locals, reply = .document top locals → tracksOf top ≠ [])
    (hrun : despotifySearch fuel w.session username searchtext reply = some (s', r)) :
    World.Inv { session := s', searches := r.toList ++ w.searches } := by
  obtain ⟨hk, hnew⟩ := despotifySearch_spec hrun hne
  have hold := hinv.keeps hk
  cases r with
  | none => exact hold
  | some search =>
    obtain ⟨hplaylist, as, hl, has⟩ := hnew search rfl
    -- the new search is apart from the others
    have hapart : ∀ y ∈ w.searches, y.playlist ≠ search.playlist ∧
        ∀ bs, Spine s'.tracks.heap y.tracks bs → ∀ a ∈ bs, a ∉ as := by
      intro y hy
      obtain ⟨bs, hly⟩ := hinv.listed y hy
      obtain ⟨n, hn, -⟩ := hly.count
      refine ⟨fun heq => ?_, fun bs' hbs' a ha haa => ?_⟩
      · rw [heq, hplaylist] at hn
        cases hn
      · cases hbs'.unique (hk.tracks.spine hly.list)
        obtain ⟨m, hm⟩ := hly.list.node ha
        rw [has a haa] at hm
        cases hm
    constructor
    · intro y hy
      rcases List.mem_cons.mp hy with rfl | hy
      · exact ⟨as, hl⟩
      · exact hold.listed y hy
    · intro x hx y hy hxy
      rcases List.mem_cons.mp hx with rfl | hx'
      · rcases List.mem_cons.mp hy with rfl | hy'
        · exact absurd rfl hxy
        · obtain ⟨hne', hlists⟩ := hapart y hy'
          refine ⟨hne'.symm, fun xs ys hxs hys a hax hay => ?_⟩
          cases hxs.unique hl.list
          exact hlists ys hys a hay hax
      · rcases List.mem_cons.mp hy with rfl | hy'
        · obtain ⟨hne', hlists⟩ := hapart x hx'
          refine ⟨hne', fun xs ys hxs hys a hax hay => ?_⟩
          cases hys.unique hl.list
          exact hlists xs hxs a hax hay
        · exact hold.apart x hx' y hy' hxy

theorem step_inv {call : Call} (hinv : w.Inv) (hfine : Fine w call)
    (hstep : step fuel w call = some w') : w'.Inv := by
  cases call with
  | search username searchtext reply =>
    obtain ⟨⟨s', r⟩, hrun, rfl⟩ := Option.map_eq_some_iff.mp hstep
    refine hinv.newSearch (fun top locals hreply => ?_) hrun
    subst hreply
    exact hfine
  | searchMore search offset reply =>
    rw [step] at hstep
    split at hstep
    · rename_i hmem
      obtain ⟨⟨s', r⟩, hrun, rfl⟩ := Option.map_eq_some_iff.mp hstep
      exact hinv.searchMore hmem hfine hrun
    · cases hstep
  | getPlaylist supply playlistId =>
    obtain ⟨⟨s', r⟩, hrun, rfl⟩ := Option.map_eq_some_iff.mp hstep
    exact hinv.keeps (despotifyGetPlaylist_keeps hrun).1
  | getStoredPlaylists metaSupply supplies =>
    rw [step] at hstep
    split at hstep
    · rename_i st hrun
      cases hstep
      exact hinv.keeps (despotifyGetStoredPlaylists_keeps hrun)
    · cases hstep
    · cases hstep

/-- **More tracks for a search**, behind any run of searches with results, loads and
calls like this one: with walks long enough the call returns, confined to its search,
exactly when the playlist of the session is that of the search, and the reply has
tracks. -/
theorem confined_iff {useCache highBitrate : Bool} {calls : List Call} {fuel : Nat} {w : World}
    {search : Search} (offset : Int) (reply : SearchReply)
    (hfine : Runs.AllSteps (step fuel) Fine (.init useCache highBitrate) calls)
    (hrun : Runs.exec (step fuel) (.init useCache highBitrate) calls = some w)
    (hmem : search ∈ w.searches) :
    (∃ enough, ∀ fuel, enough ≤ fuel → ∃ s' r,
      despotifySearchMore fuel w.session (some search) offset reply = some (s', r) ∧
        Confined w.session s' search
          (returnedTracks w.session.highBitrate search offset reply)) ↔
      Meets w.session search offset reply := by
  have hinit : (World.init useCache highBitrate).Inv := ⟨nofun, nofun⟩
  have hinv : w.Inv :=
    Runs.exec_inv_of_allSteps (fun _ _ _ h hok hs => step_inv h hok hs) hinit hfine hrun
  obtain ⟨as, hl⟩ := hinv.listed search hmem
  constructor
  · rintro ⟨enough, hcall⟩
    obtain ⟨s', r, hrun, hconf⟩ := hcall (max enough as.length) (Nat.le_max_left _ _)
    exact meets_of_confined hl (Nat.le_max_right _ _) hrun hconf
  · intro hmeets
    exact ⟨as.length, fun fuel hfuel => confined_of_meets hl hfuel hmeets⟩

/-- One of two tracks. -/
def oneOfTwo : Option Ezxml :=
  some (.mk (ascii "result") [] []
    [.mk (ascii "total-tracks") (ascii "2") [] [],
      .mk (ascii "tracks") [] []
        [.mk (ascii "track") [] [] [.mk (ascii "id") (ascii "aa") [] []]]])

def searchFor (searchtext : String) : Call :=
  .search (ascii "user") (ascii searchtext) (.document oneOfTwo fun _ => {})

/-- What the first of these searches returns. -/
def firstSearch : Search :=
  { query := ascii "a", totalTracks := 2, tracks := some 0, playlist := 0 }

theorem searchFor_fine (fuel : Nat) (w : World) (texts : List String) :
    Runs.AllSteps (step fuel) Fine w (texts.map searchFor) := by
  have hne : tracksOf oneOfTwo ≠ [] := by
    have hlen : (tracksOf oneOfTwo).length = 1 := by decide
    exact List.ne_nil_of_length_pos (by omega)
  induction texts generalizing w with
  | nil => trivial
  | cons text texts ih => exact ⟨hne, fun w' _ => ih w'⟩

/-- Behind one search. -/
theorem confined_iff_searchFor :
    ∃ w, Runs.exec (step 1) (.init false false) (["a"].map searchFor) = some w ∧
      firstSearch ∈ w.searches ∧
      ((∃ enough, ∀ fuel, enough ≤ fuel → ∃ s' r,
        despotifySearchMore fuel w.session (some firstSearch) 1
            (.document oneOfTwo fun _ => {}) = some (s', r) ∧
          Confined w.session s' firstSearch
            (returnedTracks w.session.highBitrate firstSearch 1 (.document oneOfTwo fun _ => {}))) ↔
        Meets w.session firstSearch 1 (.document oneOfTwo fun _ => {})) := by
  have hrun : (Runs.exec (step 1) (.init false false) (["a"].map searchFor)).map
      World.searches = some [firstSearch] := by decide +kernel
  obtain ⟨w, hw, hsearches⟩ := Option.map_eq_some_iff.mp hrun
  have hmem : firstSearch ∈ w.searches := by
    rw [hsearches]
    exact List.mem_cons_self
  exact ⟨w, hw, hmem, confined_iff 1 _ (searchFor_fine 1 _ ["a"]) hw hmem⟩

/-- `num_tracks` of the playlist at an address. -/
def Session.numTracksAt (s : Session) (p : Nat) : Option Int :=
  (s.playlists.heap p).map fun n => n.val.numTracks

/-- More tracks for the first of two searches are counted in the second. -/
theorem laterSearch_miscounted :
    ∃ w s' r, Runs.exec (step 1) (.init false false) (["a", "b"].map searchFor) = some w ∧
      firstSearch ∈ w.searches ∧
      despotifySearchMore 1 w.session (some firstSearch) 1 (.document oneOfTwo fun _ => {}) =
        some (s', r) ∧
      ¬ Confined w.session s' firstSearch
        (returnedTracks w.session.highBitrate firstSearch 1 (.document oneOfTwo fun _ => {})) := by
  have hrun : ((Runs.exec (step 1) (.init false false) (["a", "b"].map searchFor)).bind fun w =>
      (despotifySearchMore 1 w.session (some firstSearch) 1
        (.document oneOfTwo fun _ => {})).map fun out =>
          (decide (firstSearch ∈ w.searches), w.session.numTracksAt 1, out.1.numTracksAt 1)) =
      some (true, some 1, some 2) := by decide +kernel
  obtain ⟨w, hw, hrun⟩ := Option.bind_eq_some_iff.mp hrun
  obtain ⟨⟨s', r⟩, hcall, heq⟩ := Option.map_eq_some_iff.mp hrun
  obtain ⟨hmem, hnums⟩ := Prod.mk.inj heq
  obtain ⟨hbefore, hafter⟩ := Prod.mk.inj hnums
  refine ⟨w, s', r, hw, of_decide_eq_true hmem, hcall, fun hconf => ?_⟩
  have hsame := hconf.others 1 (by decide)
  dsimp only at hafter
  rw [Session.numTracksAt, hsame, ← Session.numTracksAt, hbefore] at hafter
  cases hafter

end Despotify.Lib

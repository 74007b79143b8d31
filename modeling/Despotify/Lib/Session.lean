import Despotify.Lib.Edit
import Despotify.Lib.LoadTracks

/-!
# The session and its playlists

The lists of tracks and of playlists are in memory; `ds->playlist` points to the
playlist of the last request.  `despotify_get_playlist` makes a new one, which is
freed when its tracks cannot be loaded.

* `despotifyGetPlaylist_spec`: a playlist asked for by its id is a new node without a
  link, and the others stay; whether there is one depends on the answers alone.
-/

namespace Despotify.Lib

open Gateway Linked

/-- What the calls use of `struct despotify_session`, the memory, and the revision in
the cache. -/
structure Session where
  tracks : Mem Track
  playlists : Mem Playlist
  playlist : Option Nat := none
  useCache : Bool := false
  listOfLists : Bool := false
  highBitrate : Bool := false
  metaRevision : UInt32 := 0
  lastError : Option String := none

/-- `ds->playlist = calloc (1, sizeof (struct ds_playlist))` -/
def Session.newPlaylist (s : Session) : Session :=
  { s with playlists := s.playlists.alloc {}, playlist := some s.playlists.brk }

/-- `ds->list_of_lists = b` -/
def Session.setLists (s : Session) (b : Bool) : Session := { s with listOfLists := b }

theorem Session.setLists_of_eq {s : Session} {b : Bool} (h : s.listOfLists = b) :
    s.setLists b = s := by
  subst h
  rfl

/-- What a request for a playlist meets. -/
structure Supply where
  /-- the file under the id, when the cache has one -/
  cached : Option (Option Ezxml)
  reply : Reply
  /-- the string an earlier `strtok` has left -/
  stale : List CString
  /-- the local `collab` -/
  junk : UInt32
  /-- the batches of tracks -/
  answers : Nat → Answer

/-! ## The list of playlists -/

/-- The playlists behind the first one: `p = calloc (...)`, `prev->next = p`. -/
def newPlaylists : List CString → Mem Playlist → Nat → Mem Playlist
  | [], mem, _ => mem
  | id :: ids, mem, prev =>
    newPlaylists ids ((mem.alloc { playlistId := strncpy id 35 }).link prev (some mem.brk)) mem.brk

/-- `DSFYstrncpy (pl->playlist_id, playlist_id, sizeof pl->playlist_id)` -/
def Playlist.setId (pl : Playlist) (playlistId : CString) : Playlist :=
  { pl with playlistId := strncpy playlistId 35 }

/-- The loop over the ids; `pl` takes the first one. -/
def listIds : List CString → Mem Playlist → Nat → Mem Playlist
  | [], mem, _ => mem
  | id :: ids, mem, pl =>
    newPlaylists ids (mem.modify pl fun p => p.setId id) pl

/-- `xml_parse_playlist` of a list of lists. -/
def xmlParsePlaylists (stale : List CString) (junk : UInt32) (mem : Mem Playlist) (pl : Nat)
    (top : Option Ezxml) : Mem Playlist :=
  (listIds (trackIds stale top) mem pl).modify pl fun p =>
    let p := { p with
      author := xmlstrncpy p.author 256 top ["next-change", "change", "user"]
      name := xmlstrncpy p.name 256 top ["next-change", "change", "ops", "name"] }
    xmlParseVersion junk p (ezxmlGet top ["next-change", "version"]).head?

/-! ## One playlist -/

/-- The end of `despotify_get_playlist`: the tracks of the playlist at `p`. -/
def Session.loadTracks (fuel : Nat) (s : Session) (answers : Nat → Answer) (p : Nat) :
    Option (Session × Option Nat) :=
  match s.playlists.heap p with
  | none => none
  | some node =>
    match despotifyLoadTracks fuel s.highBitrate answers s.tracks node.val with
    | none => none
    | some out =>
      let s := { s with
        tracks := out.mem
        playlists := s.playlists.modify p fun _ => out.playlist }
      if out.ok then some (s, some p)
      else some
        ({ s with
          lastError := some "Failed loading track info"
          playlists := s.playlists.free p }, none)

/-- `xml_parse_playlist` of a list of tracks, into the playlist at `p`. -/
def Session.parsePlaylist (s : Session) (supply : Supply) (p : Nat) (id : CString)
    (top : Option Ezxml) : Session :=
  match s.playlists.heap p with
  | none => s
  | some node =>
    let (tracks, pl) := xmlParsePlaylist supply.stale supply.junk s.tracks node.val top
    { s with
      tracks := tracks
      playlists := s.playlists.modify p fun _ => pl.setId id }

/-- `despotify_get_playlist` behind the check of the cache, for the new playlist at `p`. -/
def Session.requestPlaylist (fuel : Nat) (supply : Supply) (s : Session) (p : Nat)
    (playlistId : Option CString) : Option (Session × Option Nat) :=
  let s := s.setLists (s.listOfLists || playlistId.isNone)
  match supply.reply with
  | .sendFailed => some ({ s with lastError := some "Network error." }, none)
  | .timeout => some ({ s with lastError := some "Timeout while loading playlist" }, none)
  | .document top =>
    let parsed := match s.listOfLists, playlistId with
      | false, some id => s.parsePlaylist supply p id top
      | _, _ => { s with
          playlists := xmlParsePlaylists supply.stale supply.junk s.playlists p top }
    let s := parsed.setLists false
    match playlistId with
    | none => some (s, some p)
    | some _ => s.loadTracks fuel supply.answers p

/-- `despotify_get_playlist`; no value when it does not return. -/
def despotifyGetPlaylist (fuel : Nat) (supply : Supply) (s : Session)
    (playlistId : Option CString) : Option (Session × Option Nat) :=
  let p := s.playlists.brk
  let s := s.newPlaylist
  match playlistId, (if s.useCache then supply.cached else none) with
  | some id, some top =>
    (s.parsePlaylist supply p id top).loadTracks fuel supply.answers p
  | _, _ => s.requestPlaylist fuel supply p playlistId

/-! ## Success -/

/-- The document a playlist is read from. -/
def Supply.document (supply : Supply) (useCache : Bool) : Option (Option Ezxml) :=
  match (if useCache then supply.cached else none), supply.reply with
  | some top, _ => some top
  | none, .document top => some top
  | none, _ => none

/-- `num_tracks` of the playlist in a document. -/
def Supply.numTracks (supply : Supply) (top : Option Ezxml) : Int :=
  (xmlParsePlaylist supply.stale supply.junk Mem.empty {} top).2.numTracks

/-- The tracks of a document load: the list has as many as are counted, and no request
for them fails. -/
def Supply.Loads (supply : Supply) (top : Option Ezxml) : Prop :=
  supply.numTracks top ≤ (trackIds supply.stale top).length ∧
    ∀ b, ((MAX_BROWSE_REQ * b : Nat) : Int) < supply.numTracks top →
      (supply.answers b).error = none

/-- A playlist asked for by its id comes. -/
def Supply.Succeeds (supply : Supply) (useCache : Bool) : Prop :=
  ∃ top, supply.document useCache = some top ∧ supply.Loads top

/-- The request ends, one way or another. -/
def Supply.Ends (supply : Supply) : Prop :=
  ∀ useCache top, supply.document useCache = some top →
    supply.numTracks top ≤ (trackIds supply.stale top).length ∨
      ∃ i, (supply.answers i).error ≠ none

variable {fuel : Nat} {supply : Supply} {s : Session} {id : CString} {top : Option Ezxml}

theorem xmlParsePlaylist_numTracks (supply : Supply) (mem : Mem Track) (top : Option Ezxml) :
    (xmlParsePlaylist supply.stale supply.junk mem {} top).2.numTracks = supply.numTracks top := by
  simp only [Supply.numTracks, xmlParsePlaylist]
  cases (ezxmlGet top ["next-change", "version"]).head? <;> rfl

/-- The tracks of a document are loaded, or not, when there is fuel enough. -/
theorem loadTracks_returns (supply : Supply) {top : Option Ezxml}
    (hends : supply.numTracks top ≤ (trackIds supply.stale top).length ∨
      ∃ i, (supply.answers i).error ≠ none) :
    ∃ enough, ∀ fuel, enough ≤ fuel → ∀ (highBitrate : Bool) (mem : Mem Track) (pl : Playlist),
      pl.tracks = (xmlParsePlaylist supply.stale supply.junk mem {} top).2.tracks →
      pl.numTracks = (xmlParsePlaylist supply.stale supply.junk mem {} top).2.numTracks →
      ∃ out, despotifyLoadTracks fuel highBitrate supply.answers
          (xmlParsePlaylist supply.stale supply.junk mem {} top).1 pl = some out ∧
        (out.ok = true ↔ supply.Loads top) := by
  obtain ⟨enough, hlist, henough⟩ : ∃ enough, (trackIds supply.stale top).length ≤ enough ∧
      (supply.numTracks top ≤ (trackIds supply.stale top).length ∨
        ∃ i, i < enough ∧ (supply.answers i).error ≠ none) := by
    rcases hends with hnum | ⟨i, hi⟩
    · exact ⟨_, Nat.le_refl _, .inl hnum⟩
    · exact ⟨max (trackIds supply.stale top).length (i + 1), Nat.le_max_left _ _,
        .inr ⟨i, by omega, hi⟩⟩
  refine ⟨enough, fun fuel hfuel highBitrate mem pl htracks hnum => ?_⟩
  obtain ⟨as, hs, hlen⟩ := xmlParsePlaylist_spine supply.stale supply.junk mem {} top
  rw [xmlParsePlaylist_numTracks] at hnum
  rw [← htracks] at hs
  have hfuel' : as.length ≤ fuel := by omega
  have hsome : (despotifyLoadTracks fuel highBitrate supply.answers
      (xmlParsePlaylist supply.stale supply.junk mem {} top).1 pl).isSome := by
    rw [despotifyLoadTracks_isSome_iff hs hfuel']
    refine .inr ?_
    rcases henough with hle | ⟨i, hi, herr⟩
    · refine loadLoop_isSome (Load.On.start hs) hfuel' hfuel' ?_
      rw [hnum, List.nil_append, hlen]
      exact hle
    · refine loadLoop_isSome_of_error (Load.On.start hs) hfuel' (Nat.lt_of_lt_of_le hi hfuel) ?_
      rwa [List.length_nil, Nat.zero_add]
  obtain ⟨out, hout⟩ := Option.isSome_iff_exists.mp hsome
  refine ⟨out, hout, ?_⟩
  rw [despotifyLoadTracks_ok_iff hs hfuel' hout, hnum, hlen]
  rfl

/-- What a request for a playlist by its id leaves: a new playlist without a link, or
none, and the others as they were. -/
structure Got (s s' : Session) (r : Option Nat) : Prop where
  useCache : s'.useCache = s.useCache
  listOfLists : s'.listOfLists = false
  brk : s'.playlists.brk = s.playlists.brk + 1
  others : ∀ a, a ≠ s.playlists.brk → s'.playlists.heap a = s.playlists.heap a
  value : ∀ a, r = some a → a = s.playlists.brk ∧ ∃ pl, s'.playlists.heap a = some ⟨pl, none⟩

/-- A document, into the new playlist. -/
theorem parsePlaylist_loadTracks (supply : Supply) {top : Option Ezxml}
    (hends : supply.numTracks top ≤ (trackIds supply.stale top).length ∨
      ∃ i, (supply.answers i).error ≠ none) :
    ∃ enough, ∀ fuel, enough ≤ fuel → ∀ (s₀ s : Session) (id : CString),
      s.playlists = s₀.playlists.alloc {} → s.useCache = s₀.useCache → s.listOfLists = false →
      ∃ s' r, (s.parsePlaylist supply s₀.playlists.brk id top).loadTracks fuel supply.answers
          s₀.playlists.brk = some (s', r) ∧
        Got s₀ s' r ∧ (r.isSome ↔ supply.Loads top) := by
  obtain ⟨enough, hreturns⟩ := loadTracks_returns supply hends
  refine ⟨enough, fun fuel hfuel s₀ s id hplaylists huse hlists => ?_⟩
  have hload := fun highBitrate pl => hreturns fuel hfuel highBitrate s.tracks pl
  have hnode : s.playlists.heap s₀.playlists.brk = some ⟨{}, none⟩ := by
    rw [hplaylists]
    exact Mem.alloc_brk
  generalize hdoc : xmlParsePlaylist supply.stale supply.junk s.tracks {} top = doc at hload
  obtain ⟨out, hout, hok⟩ := hload s.highBitrate (doc.2.setId id) rfl rfl
  have hparsed : (s.playlists.modify s₀.playlists.brk fun _ => doc.2.setId id).heap
      s₀.playlists.brk = some ⟨doc.2.setId id, none⟩ := Mem.modify_self hnode
  have hothers : ∀ {f g : Playlist → Playlist} {a : Nat}, a ≠ s₀.playlists.brk →
      ((s.playlists.modify s₀.playlists.brk f).modify s₀.playlists.brk g).heap a =
        s₀.playlists.heap a := by
    intro f g a ha
    rw [Mem.modify_of_ne ha, Mem.modify_of_ne ha, hplaylists, Mem.alloc_of_ne ha]
  have hbrk : s.playlists.brk = s₀.playlists.brk + 1 := by rw [hplaylists, Mem.alloc_brk_eq]
  simp only [Session.parsePlaylist, hnode, hdoc, Session.loadTracks, hparsed, hout]
  by_cases hcond : out.ok = true
  · rw [if_pos hcond]
    refine ⟨_, _, rfl, ⟨huse, hlists, hbrk, fun a ha => hothers ha, fun a ha => ?_⟩,
      iff_of_true rfl (hok.mp hcond)⟩
    cases ha
    exact ⟨rfl, _, Mem.modify_self hparsed⟩
  · rw [if_neg hcond]
    refine ⟨_, _, rfl, ⟨huse, hlists, hbrk, fun a ha => ?_, nofun⟩,
      iff_of_false nofun fun hloads => hcond (hok.mpr hloads)⟩
    exact (Mem.free_of_ne ha).trans (hothers ha)

/-- A playlist by its id, when the flag for lists of lists is clear. -/
theorem despotifyGetPlaylist_of_document (fuel : Nat) (id : CString) (hlists : s.listOfLists = false)
    (hdoc : supply.document s.useCache = some top) :
    despotifyGetPlaylist fuel supply s (some id) =
      (s.newPlaylist.parsePlaylist supply s.playlists.brk id top).loadTracks fuel supply.answers
        s.playlists.brk := by
  have hparsed : (s.newPlaylist.parsePlaylist supply s.playlists.brk id top).listOfLists =
      false := by
    unfold Session.parsePlaylist
    split <;> exact hlists
  have hcache : s.newPlaylist.useCache = s.useCache := rfl
  have hlists' : s.newPlaylist.listOfLists = false := hlists
  rw [Supply.document] at hdoc
  cases hcached : (if s.useCache then supply.cached else none) with
  | some top' =>
    rw [hcached] at hdoc
    cases hdoc
    simp only [despotifyGetPlaylist, hcache, hcached]
  | none =>
    rw [hcached] at hdoc
    cases hreply : supply.reply with
    | sendFailed | timeout =>
      rw [hreply] at hdoc
      cases hdoc
    | document top' =>
      rw [hreply] at hdoc
      cases hdoc
      simp only [despotifyGetPlaylist, hcache, hcached, Session.requestPlaylist, hreply, hlists',
        Option.isNone_some, Bool.or_false, Session.setLists_of_eq hlists', Session.setLists_of_eq hparsed]

theorem despotifyGetPlaylist_of_none (fuel : Nat) (id : CString) (hlists : s.listOfLists = false)
    (hdoc : supply.document s.useCache = none) :
    ∃ err, despotifyGetPlaylist fuel supply s (some id) =
      some ({ s.newPlaylist with lastError := some err }, none) := by
  have hcache : s.newPlaylist.useCache = s.useCache := rfl
  have hlists' : s.newPlaylist.listOfLists = false := hlists
  rw [Supply.document] at hdoc
  cases hcached : (if s.useCache then supply.cached else none) with
  | some top =>
    rw [hcached] at hdoc
    cases hdoc
  | none =>
    rw [hcached] at hdoc
    cases hreply : supply.reply with
    | sendFailed =>
      refine ⟨"Network error.", ?_⟩
      simp only [despotifyGetPlaylist, hcache, hcached, Session.requestPlaylist, hreply, hlists',
        Option.isNone_some, Bool.or_false, Session.setLists_of_eq hlists']
    | timeout =>
      refine ⟨"Timeout while loading playlist", ?_⟩
      simp only [despotifyGetPlaylist, hcache, hcached, Session.requestPlaylist, hreply, hlists',
        Option.isNone_some, Bool.or_false, Session.setLists_of_eq hlists']
    | document top =>
      rw [hreply] at hdoc
      cases hdoc

/-- **A playlist by its id**: with fuel enough the call returns; it has a new playlist
exactly when the request succeeds. -/
theorem despotifyGetPlaylist_spec (supply : Supply) (hends : supply.Ends) :
    ∃ enough, ∀ fuel, enough ≤ fuel → ∀ (s : Session) (id : CString), s.listOfLists = false →
      ∃ s' r, despotifyGetPlaylist fuel supply s (some id) = some (s', r) ∧ Got s s' r ∧
        (r.isSome ↔ supply.Succeeds s.useCache) := by
  have hbound : ∀ useCache, ∃ enough, ∀ top, supply.document useCache = some top →
      ∀ fuel, enough ≤ fuel → ∀ (s₀ s : Session) (id : CString),
        s.playlists = s₀.playlists.alloc {} → s.useCache = s₀.useCache → s.listOfLists = false →
        ∃ s' r, (s.parsePlaylist supply s₀.playlists.brk id top).loadTracks fuel supply.answers
            s₀.playlists.brk = some (s', r) ∧
          Got s₀ s' r ∧ (r.isSome ↔ supply.Loads top) := by
    intro useCache
    cases hdoc : supply.document useCache with
    | none => exact ⟨0, nofun⟩
    | some top =>
      obtain ⟨enough, henough⟩ := parsePlaylist_loadTracks supply (hends useCache top hdoc)
      refine ⟨enough, fun top' htop' => ?_⟩
      cases htop'
      exact henough
  obtain ⟨n, hn⟩ := hbound true
  obtain ⟨m, hm⟩ := hbound false
  refine ⟨max n m, fun fuel hfuel s id hlists => ?_⟩
  cases hdoc : supply.document s.useCache with
  | some top =>
    have hload : ∃ s' r, (s.newPlaylist.parsePlaylist supply s.playlists.brk id top).loadTracks fuel
        supply.answers s.playlists.brk = some (s', r) ∧ Got s s' r ∧
        (r.isSome ↔ supply.Loads top) := by
      cases hcache : s.useCache with
      | true => exact hn top (hcache ▸ hdoc) fuel (by omega) s _ id rfl rfl hlists
      | false => exact hm top (hcache ▸ hdoc) fuel (by omega) s _ id rfl rfl hlists
    obtain ⟨s', r, hrun, hgot, hsome⟩ := hload
    refine ⟨s', r, (despotifyGetPlaylist_of_document fuel id hlists hdoc).trans hrun, hgot,
      hsome.trans ?_⟩
    constructor
    · exact fun hloads => ⟨top, hdoc, hloads⟩
    · rintro ⟨top', hdoc', hloads⟩
      cases hdoc.symm.trans hdoc'
      exact hloads
  | none =>
    obtain ⟨err, heq⟩ := despotifyGetPlaylist_of_none fuel id hlists hdoc
    refine ⟨_, _, heq, ⟨rfl, hlists, rfl, fun a ha => Mem.alloc_of_ne ha, nofun⟩, ?_⟩
    refine iff_of_false nofun ?_
    rintro ⟨top, hdoc', -⟩
    cases hdoc.symm.trans hdoc'

/-! ## A list of playlists -/

theorem newPlaylists_spine {mem : Mem Playlist} {p : Option Nat} {e : Nat} {as : List Nat}
    (hs : Spine mem.heap p (as ++ [e])) (ids : List CString) :
    ∃ bs, Spine (newPlaylists ids mem e).heap p (as ++ [e] ++ bs) ∧
      vals (newPlaylists ids mem e).heap bs = (ids.map fun id => { playlistId := strncpy id 35 }) ∧
      bs.length = ids.length ∧ (∀ b ∈ bs, mem.brk ≤ b) ∧
      ∀ a, a < mem.brk →
        ((newPlaylists ids mem e).heap a).map Node.val = (mem.heap a).map Node.val := by
  induction ids generalizing mem e as with
  | nil => exact ⟨[], by rwa [List.append_nil], rfl, rfl, nofun, fun _ _ => rfl⟩
  | cons id ids ih =>
    have hval : ∀ a, a ≠ mem.brk →
        (((mem.alloc { playlistId := strncpy id 35 }).link e (some mem.brk)).heap a).map Node.val =
          (mem.heap a).map Node.val := by
      intro a ha
      rw [Mem.link_val, Mem.alloc_of_ne ha]
    obtain ⟨bs, hbs, hvals, hlen, hnew', hkeep⟩ := ih (hs.append { playlistId := strncpy id 35 })
    have hnew := hkeep mem.brk (Nat.lt_succ_self _)
    rw [Mem.link_val, Mem.alloc_brk, Option.map_some, Option.map_eq_some_iff] at hnew
    obtain ⟨node, hnode, hnodeval⟩ := hnew
    refine ⟨mem.brk :: bs, ?_, ?_, by rw [List.length_cons, hlen, List.length_cons], ?_, ?_⟩
    · rw [List.append_assoc _ _ bs, List.singleton_append] at hbs
      exact hbs
    · change vals (newPlaylists ids _ mem.brk).heap (mem.brk :: bs) = _
      rw [vals_cons hnode, hnodeval, hvals, List.map_cons]
    · exact List.forall_mem_cons.mpr
        ⟨Nat.le_refl _, fun b hb => Nat.le_of_succ_le (hnew' b hb)⟩
    · intro a ha
      exact (hkeep a (Nat.lt_succ_of_lt ha)).trans (hval a (Nat.ne_of_lt ha))

/-- The ids go to the new playlist and the ones behind it. -/
theorem listIds_spec (mem : Mem Playlist) (ids : List CString) :
    ∃ q bs, (listIds ids (mem.alloc {}) mem.brk).heap mem.brk =
        some ⟨{ playlistId := (ids.head?.map fun id => strncpy id 35).getD [] }, q⟩ ∧
      Spine (listIds ids (mem.alloc {}) mem.brk).heap q bs ∧
      vals (listIds ids (mem.alloc {}) mem.brk).heap bs =
        (ids.tail.map fun id => { playlistId := strncpy id 35 }) ∧
      bs.length = ids.tail.length ∧ ∀ b ∈ bs, mem.brk ≤ b := by
  cases ids with
  | nil => exact ⟨none, [], Mem.alloc_brk, rfl, rfl, rfl, nofun⟩
  | cons id ids =>
    have hfirst : ((mem.alloc {}).modify mem.brk fun p : Playlist => p.setId id).heap mem.brk =
        some ⟨{ playlistId := strncpy id 35 }, none⟩ := Mem.modify_self Mem.alloc_brk
    have hs : Spine ((mem.alloc {}).modify mem.brk fun p : Playlist => p.setId id).heap
        (some mem.brk) ([] ++ [mem.brk]) := ⟨rfl, _, none, hfirst, rfl⟩
    obtain ⟨bs, hbs, hvals, hlen, hnew, hkeep⟩ := newPlaylists_spine hs ids
    obtain ⟨-, w, q, hw, hq⟩ := hbs
    have hval := hkeep mem.brk (Nat.lt_succ_self _)
    rw [hw, hfirst, Option.map_some, Option.map_some, Option.some_inj] at hval
    change w = _ at hval
    subst hval
    exact ⟨q, bs, hw, hq, hvals, hlen, fun b hb => Nat.le_of_succ_le (hnew b hb)⟩

/-- The new playlist is the first of a list, with the version on it. -/
theorem xmlParsePlaylists_spec (stale : List CString) (junk : UInt32) (mem : Mem Playlist)
    (top : Option Ezxml) :
    ∃ v q bs, (xmlParsePlaylists stale junk (mem.alloc {}) mem.brk top).heap mem.brk =
        some ⟨v, q⟩ ∧
      Spine (xmlParsePlaylists stale junk (mem.alloc {}) mem.brk top).heap (some mem.brk)
        (mem.brk :: bs) ∧
      vals (xmlParsePlaylists stale junk (mem.alloc {}) mem.brk top).heap bs =
        ((trackIds stale top).tail.map fun id => { playlistId := strncpy id 35 }) ∧
      bs.length = (trackIds stale top).tail.length ∧ (∀ b ∈ bs, mem.brk ≤ b) ∧
      v.playlistId = ((trackIds stale top).head?.map fun id => strncpy id 35).getD [] ∧
      v.tracks = none ∧
      v.revision =
        (xmlParseVersion junk {} (ezxmlGet top ["next-change", "version"]).head?).revision := by
  obtain ⟨q, bs, hfirst, hq, hvals, hlen, hnew⟩ := listIds_spec mem (trackIds stale top)
  have hne : ∀ b ∈ bs, b ≠ mem.brk := by
    have hnodup : (mem.brk :: bs).Nodup := Spine.nodup ⟨rfl, _, q, hfirst, hq⟩
    rintro b hb rfl
    exact (List.nodup_cons.mp hnodup).1 hb
  refine ⟨_, q, bs, Mem.modify_self hfirst, ⟨rfl, _, q, Mem.modify_self hfirst, hq.modifyMem _ _⟩,
    ?_, hlen, hnew, ?_, ?_, ?_⟩
  · rw [← hvals, xmlParsePlaylists, vals, vals, List.filterMap_congr]
    intro b hb
    rw [Mem.modify_of_ne (hne b hb)]
  all_goals
    cases (ezxmlGet top ["next-change", "version"]).head? <;> rfl

end Despotify.Lib

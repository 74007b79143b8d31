import Mathlib.Data.List.InsertIdx
import Despotify.Java.Edits
import Despotify.Java.Reload

/-!
# Java: the lists of the server follow the local ones

A command changes its list and announces an operation; the server applies the
operation to its own list (`Server.apply`).  `Mirrored` says that the lists are
the same, `Server.Accepts` that operations fit their lists and announce the size
and the checksum of what comes out.

An addition of a track always keeps the lists the same.  A removal announces the
last place, a created playlist is appended whatever the place announced, and a
removed one is announced with the checksum from before: `Edit.Fits` is when this
makes no difference.

    confirmed calls, truthful loads → AllFit srv calls → Mirrored w srv →
      Mirrors w srv calls                                        (mirrors_of_fits)
-/

namespace Despotify.Java

/-! ## The server -/

/-- The lists of the server: of a playlist by its id, and of the user. -/
structure Server where
  tracks : Text → Option (List Text)
  items : List Text

/-- `add i x` inserts `x` at `i`, `del i k` removes `k` elements from `i` on. -/
def Op.apply : Op → List Text → Option (List Text)
  | .add i x, l => if 0 ≤ i ∧ i ≤ l.length then some (l.insertIdx i.toNat x) else none
  | .del i k, l =>
    if 0 ≤ i ∧ 0 ≤ k ∧ i + k ≤ l.length then some (l.take i.toNat ++ l.drop (i + k).toNat)
    else none
  | _, l => some l

def Server.setItems (srv : Server) (l : List Text) : Server := { srv with items := l }

def Server.setTracks (srv : Server) (id : Text) (l : Option (List Text)) : Server :=
  { srv with tracks := Function.update srv.tracks id l }

@[simp] theorem Server.setTracks_self (srv : Server) (id : Text) (l : Option (List Text)) :
    (srv.setTracks id l).tracks id = l := Function.update_self ..

theorem Server.setTracks_of_ne (srv : Server) {id id' : Text} (h : id' ≠ id)
    (l : Option (List Text)) : (srv.setTracks id l).tracks id' = srv.tracks id' :=
  Function.update_of_ne h ..

/-- A destroyed playlist has no list any more. -/
def Server.apply (srv : Server) (change : Change) : Option Server :=
  match change.target with
  | none => (change.op.apply srv.items).map srv.setItems
  | some id =>
    if change.op = .destroy then some (srv.setTracks id none)
    else
      match srv.tracks id with
      | none => some srv
      | some l => (change.op.apply l).map fun l => srv.setTracks id (some l)

def Server.follow (srv : Server) : List Change → Option Server
  | [] => some srv
  | change :: changes => (srv.apply change).bind fun srv' => srv'.follow changes

/-- A track as an item of a list. -/
def trackItem (track : Text) : Text := track ++ ['0', '1']

/-- A playlist as an item of a list. -/
def playlistItem (id : Text) : Text :=
  match toBytes id with
  | .ok uuid => toHex uuid ++ ['0', '2']
  | .error _ => id

/-- The announced size and checksum are those of the list. -/
def Server.Numbered (srv : Server) (change : Change) : Prop :=
  match change.target with
  | none => ∃ ids sum, srv.items = ids.map playlistItem ∧ change.size = ids.length ∧
      calculatePlaylists ids = .ok sum ∧ change.checksum = some sum
  | some id => ∀ l, srv.tracks id = some l → ∃ ts sum, l = ts.map trackItem ∧
      change.size = ts.length ∧ calculateTracks ts = .ok sum ∧ change.checksum = some sum

/-- Every operation fits its list, and is announced with the numbers of the result. -/
def Server.Accepts (srv : Server) : List Change → Server → Prop
  | [], srv' => srv' = srv
  | change :: changes, srv' =>
    ∃ srv1, srv.apply change = some srv1 ∧ srv1.Numbered change ∧ srv1.Accepts changes srv'

theorem Server.Accepts.follow {srv srv' : Server} {changes : List Change}
    (h : srv.Accepts changes srv') : srv.follow changes = some srv' := by
  induction changes generalizing srv with
  | nil => exact congrArg some (Eq.symm h)
  | cons change changes ih =>
    obtain ⟨srv1, happly, -, hrest⟩ := h
    rw [Server.follow, happly, Option.bind_some]
    exact ih hrest

/-! ## The same lists -/

/-- The tracks of the object: null is no list, unless the playlist has been loaded. -/
def Playlist.listed (pl : Playlist) : Option (List Text) :=
  if pl.loaded then some (pl.tracks.getD []) else pl.tracks

/-- The playlist objects of the store, and the container of the user, list what the
server lists. -/
structure Mirrored (w : World) (srv : Server) : Prop where
  tracks : ∀ p, w.store (w.playlists p).id = p → ∀ l, srv.tracks (w.playlists p).id = some l →
    ∀ ts, (w.playlists p).listed = some ts → l = ts.map trackItem
  items : ∀ c, w.container = some c → srv.items = c.ids.map playlistItem

/-- A reply to a nested load says what the server lists. -/
def Truthful (srv : Server) (id : Text) : Answer → Prop
  | .getData .getPlaylist (some reply) => ∀ e, reply.document = some e → ∃ items r,
      PlaylistResponse e id items r ∧ ∀ l, srv.tracks id = some l → l = r.items.map trackItem
  | .getData .userPlaylists (some reply) => ∀ e, reply.document = some e → ∃ items r,
      ContainerResponse e items r ∧ srv.items = r.items.map playlistItem
  | _ => True

namespace Edit

/-- The playlist of the command. -/
def playlist : Edit → Nat
  | addTrack p _ _ _ => p
  | removeTrack p _ => p
  | createPlaylist p _ _ => p
  | removePlaylist p => p

/-- The server confirms the change; the reply to `destroy` may also be the one that
`RemovePlaylistFromUser` expects. -/
def Accepted (c : Edit) (answers : List Answer) : Prop :=
  ∃ reply e, .getData c.request (some reply) ∈ answers ∧ reply.document = some e ∧
    (e.hasChild "confirm" = true ∨
      c.request = .destroyPlaylist ∧ e.hasChild "next-change" = true)

/-- The ids and the checksum of the container that the command finds or loads. -/
def Stored (w : World) (srv : Server) (ids : List Text) (sum : Int) : Prop :=
  (∃ c, w.container = some c ∧ ids = c.ids ∧ sum = c.checksum) ∨
    w.container = none ∧ srv.items = ids.map playlistItem ∧ calculatePlaylists ids = .ok sum

/-- The operation announced does what the command has done. -/
def Fits : Edit → World → Server → Prop
  | addTrack p _ _ _, w, _ => w.store (w.playlists p).id = p
  | removeTrack p position, w, _ => w.store (w.playlists p).id = p ∧
    ∀ t ∈ ((w.playlists p).tracks.getD []).drop (position - 1).toNat,
      some t = ((w.playlists p).tracks.getD []).getLast?
  | createPlaylist p position _, w, srv =>
    (∀ l, srv.tracks (w.playlists p).id = some l → l = []) ∧
      ∀ i, position = some i → 0 ≤ i ∧ i ≤ srv.items.length ∧
        ∀ x ∈ srv.items.drop i.toNat, x = playlistItem (w.playlists p).id
  | removePlaylist p, w, srv => ∀ ids sum, Stored w srv ids sum →
    calculatePlaylists (ids.erase (w.playlists p).id) = .ok sum

end Edit

/-! ## Preparing -/

section Prepare

variable {w w1 : World} {srv : Server} {p : Nat} {id : Text}

/-- What the lists depend on. -/
def World.lists (w : World) :=
  (w.store, (fun p => ((w.playlists p).id, (w.playlists p).listed)),
    w.container.map PlaylistContainer.ids)

theorem Mirrored.congr (hm : Mirrored w srv) (h : w1.lists = w.lists) : Mirrored w1 srv := by
  simp only [World.lists, Prod.mk.injEq] at h
  obtain ⟨hstore, hpl, hco⟩ := h
  have hid (p : Nat) : (w1.playlists p).id = (w.playlists p).id ∧
      (w1.playlists p).listed = (w.playlists p).listed := by
    simpa only [Prod.mk.injEq] using congrFun hpl p
  constructor
  · intro p hp l hl ts hts
    rw [(hid p).1] at hp hl
    rw [hstore] at hp
    rw [(hid p).2] at hts
    exact hm.tracks p hp l hl ts hts
  · intro c hc
    rw [hc] at hco
    obtain ⟨c', hc', hids⟩ := Option.map_eq_some_iff.mp hco.symm
    rw [hm.items c' hc', hids]

theorem lists_of_objects (h : w1.objects = w.objects) : w1.lists = w.lists := by
  obtain ⟨hstore, hpl, -, hco⟩ := World.objects_eq h
  unfold World.lists
  rw [hstore, hpl, hco]

/-- Loading the playlist brings the list of the server. -/
theorem mirrored_sendLoadPlaylist (h : sendLoadPlaylist p w = some (.ok (), w1))
    (hm : Mirrored w srv) (htruth : ∀ a ∈ w.script, Truthful srv (w.playlists p).id a) :
    Mirrored w1 srv ∧ w1.store = w.store ∧ (w1.playlists p).loaded = true ∧
      ∀ q, (w1.playlists q).id = (w.playlists q).id := by
  obtain ⟨reply, e, pl, hmem, hdoc, hread, hobj⟩ := sendLoadPlaylist_ok h
  obtain ⟨items, r, hr, hlist⟩ := htruth _ hmem e hdoc
  have hid : pl.id = (w.playlists p).id := (Playlist.keeps_id_fromXMLElement e).same hread
  have htracks := Playlist.tracks_of_ok hr hread
  obtain ⟨hstore, hpl, -, hco⟩ := World.objects_eq hobj
  have hself : w1.playlists p = { pl with loaded := true } := by
    rw [hpl]
    exact World.put_self ..
  have hother (q : Nat) (hq : q ≠ p) : w1.playlists q = w.playlists q := by
    rw [hpl]
    exact Function.update_of_ne hq ..
  refine ⟨⟨fun q hq l hl ts hts => ?_, fun c hc => hm.items c (by rw [← hc, hco]; rfl)⟩, hstore,
    by rw [hself], fun q => ?_⟩
  · by_cases hqp : q = p
    · subst hqp
      rw [hself] at hl hts
      have hts : some (pl.tracks.getD []) = some ts := hts
      rw [htracks] at hts
      cases hts
      exact hlist l (by rw [← hid]; exact hl)
    · rw [hother q hqp] at hq hl hts
      rw [hstore] at hq
      exact hm.tracks q hq l hl ts hts
  · by_cases hqp : q = p
    · subst hqp
      rw [hself]
      exact hid
    · rw [hother q hqp]

/-- Loading the playlists of the user does as well. -/
theorem mirrored_loadedUserPlaylists (h : loadedUserPlaylists w = some (.ok (), w1))
    (hm : Mirrored w srv) (htruth : ∀ a ∈ w.script, Truthful srv id a) :
    Mirrored w1 srv ∧ w1.store = w.store ∧ w1.playlists = w.playlists ∧
      ∃ c, w1.container = some c ∧ Edit.Stored w srv c.ids c.checksum := by
  obtain ⟨⟨c, hc⟩, rfl⟩ | ⟨hnone, reply, e, c, hmem, hdoc, hread, hobj⟩ := loadedUserPlaylists_ok h
  · exact ⟨hm, rfl, rfl, c, hc, Or.inl ⟨c, hc, rfl, rfl⟩⟩
  · obtain ⟨items, r, hr, hlist⟩ := htruth _ hmem e hdoc
    obtain ⟨hids, hsum⟩ := PlaylistContainer.ids_of_ok w.store hr hread
    simp only [World.objects, Prod.mk.injEq] at hobj
    obtain ⟨hstore, hpl, -, hco⟩ := hobj
    have hlisted : srv.items = c.ids.map playlistItem := by rw [hids, hlist]
    refine ⟨⟨fun q hq l hl ts hts => ?_, fun c' hc' => ?_⟩, hstore, hpl, _, hco,
      Or.inr ⟨hnone, hlisted, ?_⟩⟩
    · rw [hpl] at hq hl hts
      rw [hstore] at hq
      exact hm.tracks q hq l hl ts hts
    · rw [hco] at hc'
      cases hc'
      exact hlisted
    · show calculatePlaylists c.ids = .ok c.checksum
      rw [hids, hsum]
      exact hr.checksum

theorem truthful_of_used {P : Answer → Prop} (htruth : ∀ a ∈ w.script, Truthful srv id a)
    (h : Used P w w1) : ∀ a ∈ w1.script, Truthful srv id a :=
  fun a ha => htruth a (h.mem ha)

/-- The permission, the playlists of the user, and tracks that are not null. -/
theorem mirrored_prepareRemoveTrack (h : prepareRemoveTrack p w = some (.ok (), w1))
    (hm : Mirrored w srv) (htruth : ∀ a ∈ w.script, Truthful srv id a)
    (hlisted : (w.playlists p).listed = some ((w.playlists p).tracks.getD [])) :
    Mirrored w1 srv ∧ w1.store = w.store ∧
      w1.playlists = Function.update w.playlists p
        { w.playlists p with tracks := some ((w.playlists p).tracks.getD []) } := by
  unfold prepareRemoveTrack at h
  rcases Proc.bind_eq_some h with ⟨e, he, hr⟩ | ⟨⟨⟩, w2, h2, h⟩
  · cases hr
  have hobj2 := (keeps_checkAllowed p).same h2
  have htruth2 : ∀ a ∈ w2.script, Truthful srv id a := by
    rw [(World.outside_eq ((local_checkAllowed p).same h2)).1]
    exact htruth
  rcases Proc.bind_eq_some h with ⟨e, he, hr⟩ | ⟨⟨⟩, w3, h3, h⟩
  · cases hr
  obtain ⟨hm3, hstore3, hpl3, -⟩ :=
    mirrored_loadedUserPlaylists h3 (hm.congr (lists_of_objects hobj2)) htruth2
  obtain ⟨hstore2, hpl2, -, -⟩ := World.objects_eq hobj2
  rw [hpl2] at hpl3
  cases h
  refine ⟨hm3.congr ?_, hstore3.trans hstore2, by rw [← hpl3]⟩
  simp only [World.lists, Prod.mk.injEq, true_and, and_true]
  funext q
  by_cases hq : q = p
  · subst hq
    rw [Function.update_self, hpl3, hlisted]
    unfold Playlist.listed
    simp
  · rw [Function.update_of_ne hq]

/-- Adding a track loads the playlist, if need be. -/
theorem mirrored_prepareAddTrack {user : Bool} (h : prepareAddTrack p user w = some (.ok (), w1))
    (hm : Mirrored w srv) (htruth : ∀ a ∈ w.script, Truthful srv (w.playlists p).id a) :
    Mirrored w1 srv ∧ w1.store = w.store ∧ (∀ q, (w1.playlists q).id = (w.playlists q).id) ∧
      (w1.playlists p).listed = some ((w1.playlists p).tracks.getD []) := by
  unfold prepareAddTrack at h
  rcases Proc.bind_eq_some h with ⟨e, he, hr⟩ | ⟨⟨⟩, w2, h2, h⟩
  · cases hr
  have hobj2 := (keeps_sessionUser user).same h2
  have hm2 := hm.congr (lists_of_objects hobj2)
  obtain ⟨hstore2, hpl2, -, -⟩ := World.objects_eq hobj2
  have htruth2 : ∀ a ∈ w2.script, Truthful srv (w2.playlists p).id a := by
    rw [hpl2]
    exact truthful_of_used htruth ((used_sessionUser (q := .addTrack) user).moves _ _ _ h2)
  -- the rest is what the removal of a track does first
  have hrest (w3 : World) (h3 : prepareRemoveTrack p w3 = some (.ok (), w1))
      (hm3 : Mirrored w3 srv) (htruth3 : ∀ a ∈ w3.script, Truthful srv (w2.playlists p).id a)
      (hloaded : (w3.playlists p).loaded = true) (hstore3 : w3.store = w2.store)
      (hid3 : ∀ q, (w3.playlists q).id = (w2.playlists q).id) :
      Mirrored w1 srv ∧ w1.store = w.store ∧ (∀ q, (w1.playlists q).id = (w.playlists q).id) ∧
        (w1.playlists p).listed = some ((w1.playlists p).tracks.getD []) := by
    obtain ⟨hm1, hstore1, hpl1⟩ :=
      mirrored_prepareRemoveTrack h3 hm3 htruth3 (by unfold Playlist.listed; rw [if_pos hloaded])
    refine ⟨hm1, hstore1.trans (hstore3.trans hstore2), fun q => ?_, ?_⟩
    · rw [hpl1, ← hpl2, ← hid3 q]
      by_cases hq : q = p
      · subst hq
        rw [Function.update_self]
      · rw [Function.update_of_ne hq]
    · rw [hpl1, Function.update_self]
      unfold Playlist.listed
      rw [if_pos hloaded]
  rw [playlist_bind] at h
  cases hloaded : (w2.playlists p).loaded with
  | true =>
    rw [hloaded, if_pos rfl] at h
    exact hrest w2 h hm2 htruth2 hloaded rfl fun _ => rfl
  | false =>
    rw [hloaded, if_neg Bool.false_ne_true] at h
    rcases Proc.bind_eq_some h with ⟨e, he, hr⟩ | ⟨⟨⟩, w3, h3, h⟩
    · cases hr
    obtain ⟨hm3, hstore3, hloaded3, hid3⟩ := mirrored_sendLoadPlaylist h3 hm2 htruth2
    have hused := (used_sendLoadPlaylist (q := .addTrack) nofun).moves _ _ _ h3
    exact hrest w3 h hm3 (truthful_of_used htruth2 hused) hloaded3 hstore3 hid3

theorem lists_setPlaylist {f : Playlist → Playlist}
    (hf : ∀ pl, (f pl).id = pl.id ∧ (f pl).listed = pl.listed) :
    Proc.Keeps (Proc.Same World.lists) (setPlaylist p f) := by
  refine ⟨Proc.Moves.modify fun w => ?_⟩
  simp only [Proc.Same, World.lists, Prod.mk.injEq, true_and, and_true]
  funext q
  by_cases hq : q = p
  · subst hq
    rw [Function.update_self, (hf _).1, (hf _).2]
  · rw [Function.update_of_ne hq]

/-- A playlist to create has its flag set. -/
theorem mirrored_prepareCreatePlaylist {user : Bool}
    (h : prepareCreatePlaylist p user w = some (.ok (), w1)) (hm : Mirrored w srv)
    (htruth : ∀ a ∈ w.script, Truthful srv id a) :
    Mirrored w1 srv ∧ (w1.playlists p).id = (w.playlists p).id ∧ ∃ c, w1.container = some c := by
  unfold prepareCreatePlaylist at h
  rcases Proc.bind_eq_some h with ⟨e, he, hr⟩ | ⟨⟨⟩, w2, h2, h⟩
  · cases hr
  have hobj2 := (keeps_sessionUser user).same h2
  have htruth2 := truthful_of_used htruth ((used_sessionUser (q := .addTrack) user).moves _ _ _ h2)
  have hset := lists_setPlaylist (p := p)
    (f := fun pl => { pl with collaborative := some (pl.collaborative.getD false) })
    fun _ => ⟨rfl, rfl⟩
  rcases Proc.bind_eq_some h with ⟨e, he, hr⟩ | ⟨⟨⟩, w3, h3, h⟩
  · cases hr
  have hm3 : Mirrored w3 srv :=
    (hm.congr (lists_of_objects hobj2)).congr (hset.same h3)
  have hlists : w3.lists = w.lists := (hset.same h3).trans (lists_of_objects hobj2)
  have htruth3 : ∀ a ∈ w3.script, Truthful srv id a := by
    rw [(World.outside_eq ((local_setPlaylist p _).same h3)).1]
    exact htruth2
  obtain ⟨hm1, -, hpl1, c, hc, -⟩ := mirrored_loadedUserPlaylists h hm3 htruth3
  refine ⟨hm1, ?_, c, hc⟩
  simp only [World.lists, Prod.mk.injEq] at hlists
  rw [hpl1]
  exact congrArg Prod.fst (congrFun hlists.2.1 p)

/-- A track has been removed from a list that was there. -/
theorem listed_of_removed {position : Int} {w' : World} {r : Except Exn Unit} {reply : Reply}
    (hpl : w1.playlists p =
      { w.playlists p with tracks := some ((w.playlists p).tracks.getD []) })
    (h : changeRemoveTrack p position w1 = some (r, w')) (hs : w'.script = [])
    (hmem : .getData .removeTrack (some reply) ∈ w1.script) :
    (w.playlists p).listed = some ((w.playlists p).tracks.getD []) := by
  cases htracks : (w.playlists p).tracks with
  | some ts =>
    unfold Playlist.listed
    rw [htracks]
    simp
  | none =>
    obtain ⟨-, -, rfl⟩ | ⟨hallowed, -⟩ := changeRemoveTrack_cases h
    · rw [hs] at hmem
      cases hmem
    · refine absurd (Or.inr ?_) hallowed
      rw [hpl, htracks]
      unfold Playlist.size
      dsimp only [Option.getD_none, Option.getD_some, List.length_nil]
      omega

end Prepare

/-! ## A changed track list -/

section Tracks

variable {w w1 w' : World} {srv : Server} {p : Nat} {ts ts' : List Text} {change : Change}

instance (priority := low) lists_of_keeps {α : Type} (m : Send α)
    [hm : Proc.Keeps (Proc.Same World.objects) m] : Proc.Keeps (Proc.Same World.lists) m :=
  hm.of_same fun _ _ h => lists_of_objects h

set_option synthInstance.maxSize 100000 in
instance lists_confirmTracks (e : XMLElement) :
    Proc.Keeps (Proc.Same World.lists) (confirmTracks p e) := by
  have hrevision := fun x => lists_setPlaylist (p := p)
    (f := fun pl => { pl with revision := some x }) fun _ => ⟨rfl, rfl⟩
  have hchecksum := fun x => lists_setPlaylist (p := p)
    (f := fun pl => { pl with checksum := some x }) fun _ => ⟨rfl, rfl⟩
  unfold confirmTracks
  dsimp only
  infer_instance

def Playlist.withTracks (pl : Playlist) (ts : List Text) : Playlist :=
  { pl with tracks := some ts }

theorem Playlist.id_withTracks (pl : Playlist) (ts : List Text) : (pl.withTracks ts).id = pl.id := rfl

theorem Playlist.listed_withTracks (pl : Playlist) (ts : List Text) :
    (pl.withTracks ts).listed = some ts := by
  unfold Playlist.withTracks Playlist.listed
  split <;> rfl

/-- **A change of the tracks** that the announced operation repeats. -/
theorem mirrored_tracks (hm : Mirrored w srv) (hcanon : w.store (w.playlists p).id = p)
    (hlisted : (w.playlists p).listed = some ts) (hdestroy : change.op ≠ .destroy)
    (hop : change.op.apply (ts.map trackItem) = some (ts'.map trackItem))
    (hann : ∃ sum, calculateTracks ts' = .ok sum ∧ change.target = some (w.playlists p).id ∧
      change.size = ts'.length ∧ change.checksum = some sum)
    (hlists : w'.lists = (w.put p ((w.playlists p).withTracks ts')).lists) :
    ∃ srv', srv.Accepts [change] srv' ∧ Mirrored w' srv' := by
  obtain ⟨sum, hsum, htarget, hsize, hchecksum⟩ := hann
  have hother (q : Nat) (hq : q ≠ p) :
      (w.put p ((w.playlists p).withTracks ts')).playlists q = w.playlists q :=
    Function.update_of_ne hq ..
  have hself := World.put_self w p ((w.playlists p).withTracks ts')
  cases hl : srv.tracks (w.playlists p).id with
  | none =>
    have hm' : Mirrored (w.put p ((w.playlists p).withTracks ts')) srv := by
      refine ⟨fun q hq l hl' us hus => ?_, hm.items⟩
      by_cases hqp : q = p
      · subst hqp
        rw [hself, Playlist.id_withTracks, hl] at hl'
        cases hl'
      · rw [hother q hqp] at hq hl' hus
        exact hm.tracks q hq l hl' us hus
    refine ⟨srv, ⟨srv, ?_, ?_, rfl⟩, hm'.congr hlists⟩
    · unfold Server.apply
      rw [htarget]
      simp only [if_neg hdestroy, hl]
    · unfold Server.Numbered
      rw [htarget]
      intro l hl'
      rw [hl] at hl'
      cases hl'
  | some l =>
    have hlts : l = ts.map trackItem := hm.tracks p hcanon l hl ts hlisted
    have hm' : Mirrored (w.put p ((w.playlists p).withTracks ts'))
        (srv.setTracks (w.playlists p).id (some (ts'.map trackItem))) := by
      refine ⟨fun q hq l' hl' us hus => ?_, hm.items⟩
      by_cases hqp : q = p
      · subst hqp
        rw [hself] at hl' hus
        rw [Playlist.listed_withTracks] at hus
        cases hus
        rw [Playlist.id_withTracks, Server.setTracks_self] at hl'
        exact (Option.some.inj hl').symm
      · rw [hother q hqp] at hq hl' hus
        have hid : (w.playlists q).id ≠ (w.playlists p).id := by
          intro heq
          have hq : w.store (w.playlists q).id = q := hq
          rw [heq, hcanon] at hq
          exact hqp hq.symm
        rw [Server.setTracks_of_ne srv hid] at hl'
        exact hm.tracks q hq l' hl' us hus
    refine ⟨_, ⟨_, ?_, ?_, rfl⟩, hm'.congr hlists⟩
    · unfold Server.apply
      rw [htarget]
      simp only [if_neg hdestroy, hl]
      rw [hlts, hop, Option.map_some]
    · unfold Server.Numbered
      rw [htarget]
      intro l' hl'
      rw [Server.setTracks_self] at hl'
      cases hl'
      exact ⟨ts', sum, rfl, hsize, hsum, hchecksum⟩

/-- What a confirmed command ends with, from the state it has prepared. -/
def InStep (srv : Server) (w w' : World) : Prop :=
  ∃ changes srv', w'.sent = w.sent ++ changes ∧ srv.Accepts changes srv' ∧ Mirrored w' srv'

theorem apply_add_end (x : Text) (l : List Text) :
    (Op.add l.length x).apply l = some (l ++ [x]) := by
  rw [Op.apply, if_pos ⟨by omega, by omega⟩, Int.toNat_natCast, List.insertIdx_length_self]

theorem apply_del_last {l : List Text} {n : Nat} (h : l.length = n + 1) :
    (Op.del n 1).apply l = some l.dropLast := by
  have hdrop : l.drop ((n : Int) + 1).toNat = [] := List.drop_eq_nil_of_le (by omega)
  rw [Op.apply, if_pos ⟨by omega, by omega, by omega⟩, hdrop, Int.toNat_natCast, List.append_nil,
    List.dropLast_eq_take, h, Nat.add_sub_cancel]

/-- Inserting an element in front of others like it is appending it. -/
theorem insertIdx_eq_append {α : Type} {l : List α} {i : Nat} {a : α} (hi : i ≤ l.length)
    (h : ∀ x ∈ l.drop i, x = a) : l.insertIdx i a = l ++ [a] := by
  induction l generalizing i with
  | nil =>
    have hi : i = 0 := by simpa using hi
    rw [hi]
    rfl
  | cons b l ih =>
    cases i with
    | zero =>
      have hrep : b :: l = List.replicate (l.length + 1) a := List.eq_replicate_of_mem h
      rw [List.insertIdx_zero, hrep, ← List.replicate_succ, List.replicate_succ']
    | succ i =>
      rw [List.insertIdx_succ_cons, List.cons_append,
        ih (by simpa using hi) fun x hx => h x (by simpa using hx)]

/-- Taking out an element whose successors are all the same is taking out the last. -/
theorem eraseIdx_eq_dropLast {α : Type} {l : List α} {i : Nat} (hi : i < l.length)
    (h : ∀ t ∈ l.drop i, some t = l.getLast?) : l.eraseIdx i = l.dropLast := by
  induction l generalizing i with
  | nil => rfl
  | cons a l ih =>
    cases i with
    | zero =>
      have hall : ∀ t ∈ a :: l, t = (a :: l).getLast (List.cons_ne_nil a l) := by
        intro t ht
        have hlast := h t ht
        rw [List.getLast?_eq_some_getLast (List.cons_ne_nil a l)] at hlast
        exact Option.some.inj hlast
      generalize (a :: l).getLast (List.cons_ne_nil a l) = b at hall
      have hrep := List.eq_replicate_of_mem hall
      rw [hrep, List.length_cons, List.replicate_succ, List.eraseIdx_cons_zero,
        ← List.replicate_succ, List.dropLast_replicate, Nat.add_sub_cancel]
    | succ i =>
      have hi : i < l.length := by simpa using hi
      have hne : l ≠ [] := List.ne_nil_of_length_pos (by omega)
      have hlast : (a :: l).getLast? = l.getLast? := by
        rw [List.getLast?_cons_of_ne_nil hne]
      rw [List.eraseIdx_cons_succ, List.dropLast_cons_of_ne_nil hne,
        ih hi fun t ht => hlast ▸ h t (by simpa using ht)]

theorem lists_put (w : World) (p : Nat) {pl pl' : Playlist} (hid : pl.id = pl'.id)
    (hlisted : pl.listed = pl'.listed) : (w.put p pl).lists = (w.put p pl').lists := by
  simp only [World.lists, World.put, Prod.mk.injEq, true_and, and_true]
  funext q
  by_cases hq : q = p
  · subst hq
    rw [Function.update_self, Function.update_self, hid, hlisted]
  · rw [Function.update_of_ne hq, Function.update_of_ne hq]

/-- **Adding a track.** -/
theorem follows_addTrack {track : Text} {position : Option Int} {r : Except Exn Unit}
    {reply : Reply} {e : XMLElement} (h : changeAddTrack p track position w = some (r, w'))
    (hs : w'.script = []) (hmem : .getData .addTrack (some reply) ∈ w.script)
    (hdoc : reply.document = some e) (hconfirm : e.hasChild "confirm" = true)
    (hm : Mirrored w srv) (hcanon : w.store (w.playlists p).id = p)
    (hlisted : (w.playlists p).listed = some ((w.playlists p).tracks.getD [])) :
    InStep srv w w' := by
  rcases changeAddTrack_cases h with ⟨-, -, rfl⟩ | ⟨-, hann⟩
  · rw [hs] at hmem
    cases hmem
  obtain ⟨sum, change, w1, hsum, hann, hobj, hsent, hconf⟩ :=
    hann.confirmed hs hmem hdoc hconfirm
  have hlists : w'.lists =
      (w.put p ((w.playlists p).withTracks ((w.playlists p).tracks.getD [] ++ [track]))).lists := by
    rw [(lists_confirmTracks e).same hconf, lists_of_objects hobj]
    exact lists_put w p rfl rfl
  have hop : change.op.apply (((w.playlists p).tracks.getD []).map trackItem) =
      some (((w.playlists p).tracks.getD [] ++ [track]).map trackItem) := by
    have hend := apply_add_end (trackItem track) (((w.playlists p).tracks.getD []).map trackItem)
    rw [List.length_map] at hend
    rw [hann.op, List.map_append]
    exact hend
  obtain ⟨srv', hacc, hm'⟩ := mirrored_tracks hm hcanon hlisted (by rw [hann.op]; nofun) hop
    ⟨sum, hsum, hann.target, hann.size, hann.checksum⟩ hlists
  exact ⟨[change], srv', ((sent_of_local (confirmTracks p e)).same hconf).trans hsent, hacc, hm'⟩

/-- **Removing a track** whose successors are the same. -/
theorem follows_removeTrack {position : Int} {r : Except Exn Unit} {reply : Reply}
    {e : XMLElement} (h : changeRemoveTrack p position w = some (r, w')) (hs : w'.script = [])
    (hmem : .getData .removeTrack (some reply) ∈ w.script) (hdoc : reply.document = some e)
    (hconfirm : e.hasChild "confirm" = true) (hm : Mirrored w srv)
    (hcanon : w.store (w.playlists p).id = p)
    (hlisted : (w.playlists p).listed = some ((w.playlists p).tracks.getD []))
    (hsame : ∀ t ∈ ((w.playlists p).tracks.getD []).drop (position - 1).toNat,
      some t = ((w.playlists p).tracks.getD []).getLast?) : InStep srv w w' := by
  rcases changeRemoveTrack_cases h with ⟨-, -, rfl⟩ | ⟨hallowed, hann⟩
  · rw [hs] at hmem
    cases hmem
  obtain ⟨sum, change, w1, hsum, hann, hobj, hsent, hconf⟩ :=
    hann.confirmed hs hmem hdoc hconfirm
  have hpos : 1 ≤ position ∧ position ≤ ((w.playlists p).tracks.getD []).length := by
    unfold RemoveRefused Playlist.size at hallowed
    omega
  have hlast : ((w.playlists p).tracks.getD []).eraseIdx (position - 1).toNat =
      ((w.playlists p).tracks.getD []).dropLast := eraseIdx_eq_dropLast (by omega) hsame
  have hlists : w'.lists =
      (w.put p ((w.playlists p).withTracks ((w.playlists p).tracks.getD []).dropLast)).lists := by
    rw [(lists_confirmTracks e).same hconf, lists_of_objects hobj, ← hlast]
    exact lists_put w p rfl rfl
  have hsize : ((w.playlists p).removed position).size =
      ((w.playlists p).tracks.getD []).dropLast.length := by
    rw [← hlast]
    rfl
  have hop : change.op.apply (((w.playlists p).tracks.getD []).map trackItem) =
      some (((w.playlists p).tracks.getD []).dropLast.map trackItem) := by
    rw [hann.op, hsize, List.map_dropLast]
    refine apply_del_last ?_
    rw [List.length_map, List.length_dropLast]
    omega
  have hsum : calculateTracks ((w.playlists p).tracks.getD []).dropLast = .ok sum := by
    rw [← hlast]
    exact hsum
  obtain ⟨srv', hacc, hm'⟩ := mirrored_tracks hm hcanon hlisted (by rw [hann.op]; nofun) hop
    ⟨sum, hsum, hann.target, by rw [hann.size, hsize], hann.checksum⟩ hlists
  exact ⟨[change], srv', ((sent_of_local (confirmTracks p e)).same hconf).trans hsent, hacc, hm'⟩

end Tracks

/-! ## A changed list of playlists -/

section Items

variable {w w1 w' : World} {srv : Server} {p : Nat} {c : PlaylistContainer} {change : Change}

/-- **A change of the list of playlists** that the announced operation repeats. -/
theorem accepts_items {ids : List Text} (hm : Mirrored w srv) (hc : w.container = some c)
    (hop : change.op.apply (c.ids.map playlistItem) = some (ids.map playlistItem))
    (htarget : change.target = none) (hann : ∃ sum, calculatePlaylists ids = .ok sum ∧
      change.size = ids.length ∧ change.checksum = some sum) :
    srv.apply change = some (srv.setItems (ids.map playlistItem)) ∧
      (srv.setItems (ids.map playlistItem)).Numbered change := by
  obtain ⟨sum, hsum, hsize, hchecksum⟩ := hann
  constructor
  · unfold Server.apply
    simp only [htarget]
    rw [hm.items c hc, hop, Option.map_some]
  · unfold Server.Numbered
    simp only [htarget]
    exact ⟨ids, sum, rfl, hsize, hsum, hchecksum⟩

set_option synthInstance.maxSize 100000 in
/-- What is left when the reply to a new playlist has been read. -/
theorem finishCreate_cases {e : XMLElement} {r : Except Exn Unit}
    (h : finishCreate p e w = some (r, w')) :
    w'.store = w.store ∧ w'.container.map PlaylistContainer.ids =
        w.container.map PlaylistContainer.ids ∧
      (w'.playlists = w.playlists ∨ ∃ pl, pl.id = (w.playlists p).id ∧ pl.listed = some [] ∧
        w'.playlists = Function.update w.playlists p pl) := by
  have hset (f : PlaylistContainer → PlaylistContainer) (hf : ∀ c, (f c).ids = c.ids) :
      Proc.Keeps (Proc.Same fun w : World =>
        (w.store, w.playlists, w.container.map PlaylistContainer.ids)) (setContainer f) := by
    refine ⟨Proc.Moves.modify fun w => ?_⟩
    cases hco : w.container with
    | none => simp [Proc.Same, hco]
    | some c => simp [Proc.Same, hco, hf c]
  have hobjects (α : Type) (m : Send α) [hm : Proc.Keeps (Proc.Same World.objects) m] :
      Proc.Keeps (Proc.Same fun w : World =>
        (w.store, w.playlists, w.container.map PlaylistContainer.ids)) m :=
    hm.of_same fun w w' h => by
      obtain ⟨hstore, hpl, -, hco⟩ := World.objects_eq h
      simp only [hstore, hpl, hco]
  have hrevision := fun x => hset (fun c => { c with revision := x }) fun _ => rfl
  have hchecksum := fun x => hset (fun c => { c with checksum := x }) fun _ => rfl
  have hconfirm : Proc.Keeps (Proc.Same fun w : World =>
      (w.store, w.playlists, w.container.map PlaylistContainer.ids)) (confirmItems p e) := by
    unfold confirmItems
    infer_instance
  have hkept {x : Except Exn Unit} {w1 : World} (h1 : confirmItems p e w = some (x, w1)) :
      w1.store = w.store ∧ w1.playlists = w.playlists ∧
        w1.container.map PlaylistContainer.ids = w.container.map PlaylistContainer.ids := by
    simpa only [Prod.mk.injEq] using hconfirm.same h1
  unfold finishCreate at h
  rw [Proc.ite_run] at h
  split at h
  · rcases Proc.bind_eq_some h with ⟨x, hx, -⟩ | ⟨⟨⟩, w1, h1, h⟩
    · obtain ⟨hstore, hpl, hids⟩ := hkept hx
      exact ⟨hstore, hids, Or.inl hpl⟩
    · obtain ⟨hstore, hpl, hids⟩ := hkept h1
      cases h
      refine ⟨hstore, hids, Or.inr ⟨_, ?_, ?_, by rw [← hpl]⟩⟩
      · rw [hpl]
      · unfold Playlist.listed
        split <;> rfl
  · cases h
    exact ⟨rfl, rfl, Or.inl rfl⟩

/-- **Creating a playlist**, announced at the end or where it makes no difference. -/
theorem follows_createPlaylist {position : Option Int} {r : Except Exn Unit} {reply : Reply}
    (h : changeCreatePlaylist p position w = some (r, w')) (hs : w'.script = [])
    (hmem : .getData .createPlaylist (some reply) ∈ w.script) (hm : Mirrored w srv)
    (hc : w.container = some c)
    (hempty : ∀ l, srv.tracks (w.playlists p).id = some l → l = [])
    (hplace : ∀ i, position = some i → 0 ≤ i ∧ i ≤ srv.items.length ∧
      ∀ x ∈ srv.items.drop i.toNat, x = playlistItem (w.playlists p).id) :
    InStep srv w w' := by
  obtain ⟨x, -, hused, -⟩ | ⟨change, reply', w1, hann, hrep, hend⟩ :=
    changeCreatePlaylist_cases hc h
  · exact absurd hmem (hused.noReply_of_script hs reply)
  obtain ⟨sum, hsum, hchecksum⟩ := hann.checksum
  obtain ⟨uuid, huuid, hop⟩ := hann.op
  have hitem : playlistItem (w.playlists p).id = toHex uuid ++ ['0', '2'] := by
    unfold playlistItem
    rw [huuid]
  have hlist := hm.items c hc
  have hids : srv.items.length = c.items.length := by
    rw [hlist]
    simp [PlaylistContainer.ids]
  have happly : change.op.apply (c.ids.map playlistItem) =
      some ((c.ids ++ [(w.playlists p).id]).map playlistItem) := by
    rw [hop, ← hitem, List.map_append, ← hlist]
    cases position with
    | none =>
      rw [Option.getD_none, ← hids]
      exact apply_add_end _ _
    | some i =>
      obtain ⟨hlo, hhi, hsame⟩ := hplace i rfl
      rw [Option.getD_some, Op.apply, if_pos ⟨hlo, hhi⟩]
      exact congrArg some (insertIdx_eq_append (by omega) hsame)
  obtain ⟨hacc, hnum⟩ := accepts_items hm hc happly hann.target
    ⟨sum, hsum, by rw [hann.size]; simp [PlaylistContainer.ids], hchecksum⟩
  obtain ⟨hstore1, hpl1, -, hco1⟩ := World.objects_eq hrep.objects
  have hids1 : (c.added ⟨p, (w.playlists p).id⟩).ids = c.ids ++ [(w.playlists p).id] := by
    simp [PlaylistContainer.ids, PlaylistContainer.added]
  have hm1 : Mirrored w1 (srv.setItems ((c.ids ++ [(w.playlists p).id]).map playlistItem)) := by
    refine ⟨fun q hq l hl ts hts => ?_, fun c' hc' => ?_⟩
    · rw [hpl1] at hq hl hts
      rw [hstore1] at hq
      exact hm.tracks q hq l hl ts hts
    · rw [hco1] at hc'
      cases hc'
      rw [hids1]
      rfl
  refine ⟨[change], _, ?_, ⟨_, hacc, hnum, rfl⟩, ?_⟩
  · obtain ⟨-, -, rfl⟩ | ⟨x, -, hfinish⟩ := hend
    · exact hrep.sent
    · exact ((sent_of_local (finishCreate p x)).same hfinish).trans hrep.sent
  · obtain ⟨-, -, rfl⟩ | ⟨x, -, hfinish⟩ := hend
    · exact hm1
    obtain ⟨hstore, hco, hpl⟩ := finishCreate_cases hfinish
    refine ⟨fun q hq l hl ts hts => ?_, fun c' hc' => ?_⟩
    · rw [hstore] at hq
      rcases hpl with hpl | ⟨pl, hid, hlisted, hpl⟩
      · rw [hpl] at hq hl hts
        exact hm1.tracks q hq l hl ts hts
      · rw [hpl] at hq hl hts
        by_cases hqp : q = p
        · subst hqp
          rw [Function.update_self] at hl hts
          rw [hlisted] at hts
          cases hts
          rw [hid, hpl1] at hl
          exact hempty l hl
        · rw [Function.update_of_ne hqp] at hq hl hts
          exact hm1.tracks q hq l hl ts hts
    · rw [hc'] at hco
      obtain ⟨c1, hc1, hids⟩ := Option.map_eq_some_iff.mp hco.symm
      rw [← hids]
      exact hm1.items c1 hc1

/-- The id of the playlist taken off the list. -/
theorem ids_without {id : Text} {position : Nat} (h : c.indexOf id = some position) :
    (c.without position).ids = c.ids.erase id ∧ position < c.ids.length := by
  unfold PlaylistContainer.indexOf at h
  unfold PlaylistContainer.ids PlaylistContainer.without
  generalize c.items = items at h
  induction items generalizing position with
  | nil => cases h
  | cons item items ih =>
    rw [List.findIdx?_cons] at h
    by_cases hid : item.id = id
    · rw [if_pos (by simpa using hid)] at h
      cases h
      rw [List.map_cons, hid, List.erase_cons_head]
      exact ⟨rfl, by simp⟩
    · rw [if_neg (by simpa using hid)] at h
      obtain ⟨k, hk, rfl⟩ := Option.map_eq_some_iff.mp h
      obtain ⟨herase, hlt⟩ := ih hk
      rw [List.map_cons, List.erase_cons_tail (by simpa using hid), ← herase]
      exact ⟨rfl, by simpa using hlt⟩

theorem apply_del_one {l : List Text} {n : Nat} (h : n < l.length) :
    (Op.del n 1).apply l = some (l.eraseIdx n) := by
  have hn : ((n : Int) + 1).toNat = n + 1 := by omega
  rw [Op.apply, if_pos ⟨by omega, by omega, by omega⟩, hn, Int.toNat_natCast,
    List.eraseIdx_eq_take_drop_succ]

/-- **Removing a playlist**, when the stored checksum is that of the shorter list. -/
theorem follows_removePlaylist {r : Except Exn Unit} {reply : Reply}
    (h : changeRemovePlaylist p w = some (r, w')) (hs : w'.script = [])
    (hmem : .getData .destroyPlaylist (some reply) ∈ w.script) (hm : Mirrored w srv)
    (hc : w.container = some c)
    (hsum : calculatePlaylists (c.ids.erase (w.playlists p).id) = .ok c.checksum) :
    InStep srv w w' := by
  obtain ⟨-, -, rfl⟩ | ⟨position, hat, hc', ⟨-, hused⟩ |
    ⟨del, destroy, hdel, htarget, hop, hsent, hstore, hpl⟩⟩ := changeRemovePlaylist_cases hc h
  · rw [hs] at hmem
    cases hmem
  · exact absurd hmem (hused.noReply_of_script hs reply)
  obtain ⟨hids, hlt⟩ := ids_without hat
  have happly : del.op.apply (c.ids.map playlistItem) =
      some ((c.ids.erase (w.playlists p).id).map playlistItem) := by
    have herase : (c.without position).ids = c.ids.eraseIdx position := by
      unfold PlaylistContainer.ids PlaylistContainer.without
      exact (List.eraseIdx_map ..).symm
    rw [hdel.op, apply_del_one (by rwa [List.length_map]), List.eraseIdx_map, ← herase, hids]
  obtain ⟨hacc, hnum⟩ := accepts_items hm hc happly hdel.target
    ⟨c.checksum, hsum, by rw [hdel.size, ← hids]; simp [PlaylistContainer.ids], hdel.checksum⟩
  have hdestroyed (srv1 : Server) :
      srv1.apply destroy = some (srv1.setTracks (w.playlists p).id none) := by
    unfold Server.apply
    simp only [htarget, hop, if_pos]
  refine ⟨[del, destroy], _, hsent, ⟨_, hacc, hnum, _, hdestroyed _, ?_, rfl⟩, ?_⟩
  · unfold Server.Numbered
    simp only [htarget]
    intro l hl
    rw [Server.setTracks_self] at hl
    cases hl
  · refine ⟨fun q hq l hl ts hts => ?_, fun c' hc'' => ?_⟩
    · have hid (q : Nat) : (w'.playlists q).id = (w.playlists q).id := by
        rcases hpl with hpl | ⟨pl, hid, hpl⟩
        · rw [hpl]
        · rw [hpl]
          by_cases hqp : q = p
          · subst hqp
            rw [Function.update_self, hid]
          · rw [Function.update_of_ne hqp]
      by_cases hqid : (w.playlists q).id = (w.playlists p).id
      · rw [hid, hqid, Server.setTracks_self] at hl
        cases hl
      · have hsame : w'.playlists q = w.playlists q := by
          rcases hpl with hpl | ⟨pl, -, hpl⟩
          · rw [hpl]
          · rw [hpl, Function.update_of_ne]
            rintro rfl
            exact hqid rfl
        rw [hsame] at hq hl hts
        rw [hstore] at hq
        rw [Server.setTracks_of_ne _ hqid] at hl
        exact hm.tracks q hq l hl ts hts
    · rw [hc'] at hc''
      cases hc''
      rw [hids]
      rfl

end Items

/-! ## Runs -/

/-- A call of one of the commands, with the answers it got. -/
structure EditCall where
  edit : Edit
  before : World
  answers : List Answer
  outcome : Except Exn Unit
  after : World
  sent : edit.command.Sent before answers outcome after

namespace EditCall

/-- What went out. -/
def changes (s : EditCall) : List Change := s.after.sent.drop s.before.sent.length

/-- The server has confirmed the change, and answered nested loads with its lists. -/
def Confirmed (s : EditCall) (srv : Server) : Prop :=
  s.edit.Accepted s.answers ∧
    ∀ a ∈ s.answers, Truthful srv (s.before.playlists s.edit.playlist).id a

/-- **One call.** -/
theorem follows (s : EditCall) {srv : Server} (hm : Mirrored s.before srv)
    (hconf : s.Confirmed srv) (hfits : s.edit.Fits s.before srv) :
    InStep srv s.before s.after := by
  obtain ⟨c, w, answers, r, w', hsend, hs⟩ := s
  obtain ⟨⟨reply, e, hmem, hdoc, hconfirm⟩, htruth⟩ := hconf
  dsimp only at hm hmem htruth hfits ⊢
  rw [Edit.send_eq] at hsend
  have hstart : Mirrored { w with script := answers } srv := ⟨hm.tracks, hm.items⟩
  rcases Proc.bind_eq_some hsend with ⟨x, hx, rfl⟩ | ⟨⟨⟩, w1, hprep, hchange⟩
  · exact absurd hmem ((c.used_prepare.moves _ _ _ hx).noReply_of_script hs reply)
  have hsent1 : w1.sent = w.sent := by
    have hsame := c.sent_prepare.same hprep
    exact hsame
  have hmem1 : .getData c.request (some reply) ∈ w1.script := by
    obtain ⟨used, hscript, hno⟩ := c.used_prepare.moves _ _ _ hprep
    have hscript : answers = used ++ w1.script := hscript
    rw [hscript] at hmem
    rcases List.mem_append.mp hmem with hused | hrest
    · exact absurd rfl (hno _ hused reply)
    · exact hrest
  suffices h : InStep srv w1 w' by
    obtain ⟨changes, srv', hsent, hrest⟩ := h
    exact ⟨changes, srv', by rw [hsent, hsent1], hrest⟩
  cases c with
  | addTrack p track position user =>
    obtain ⟨hm1, hstore, hid, hlisted⟩ := mirrored_prepareAddTrack hprep hstart htruth
    have hconfirm : e.hasChild "confirm" = true := hconfirm.resolve_right nofun
    refine follows_addTrack hchange hs hmem1 hdoc hconfirm hm1 ?_ hlisted
    rw [hstore, hid]
    exact hfits
  | removeTrack p position =>
    have hconfirm : e.hasChild "confirm" = true := hconfirm.resolve_right nofun
    have hpl := prepareRemoveTrack_ok hprep
    have hlisted := listed_of_removed hpl hchange hs hmem1
    obtain ⟨hm1, hstore, hpl1⟩ := mirrored_prepareRemoveTrack hprep hstart htruth hlisted
    obtain ⟨hcanon, hsame⟩ := hfits
    refine follows_removeTrack hchange hs hmem1 hdoc hconfirm hm1 ?_ ?_ ?_
    · rw [hstore, hpl]
      exact hcanon
    · rw [hpl]
      unfold Playlist.listed
      simp
    · rw [hpl]
      exact hsame
  | createPlaylist p position user =>
    obtain ⟨hm1, hid, c, hc⟩ := mirrored_prepareCreatePlaylist hprep hstart htruth
    obtain ⟨hempty, hplace⟩ := hfits
    refine follows_createPlaylist hchange hs hmem1 hm1 hc ?_ ?_
    · rw [hid]
      exact hempty
    · rw [hid]
      exact hplace
  | removePlaylist p =>
    obtain ⟨hm1, hstore, hpl, c, hc, hstored⟩ :=
      mirrored_loadedUserPlaylists hprep hstart htruth
    have hsum := hfits c.ids c.checksum hstored
    refine follows_removePlaylist hchange hs hmem1 hm1 hc ?_
    rw [hpl]
    exact hsum

theorem changes_eq {s : EditCall} {changes : List Change}
    (h : s.after.sent = s.before.sent ++ changes) : s.changes = changes := by
  unfold EditCall.changes
  rw [h, List.drop_left]

end EditCall

/-- The calls follow each other and are confirmed by a server that follows them. -/
def ConfirmedRun : World → Server → List EditCall → Prop
  | _, _, [] => True
  | w, srv, s :: calls => s.before = w ∧ s.Confirmed srv ∧
      ∀ srv', srv.follow s.changes = some srv' → ConfirmedRun s.after srv' calls

/-- Every operation announced does what its command has done. -/
def AllFit : Server → List EditCall → Prop
  | _, [] => True
  | srv, s :: calls => s.edit.Fits s.before srv ∧
      ∀ srv', srv.follow s.changes = some srv' → AllFit srv' calls

/-- The lists are the same before and after every call, and announced with their
numbers. -/
def Mirrors : World → Server → List EditCall → Prop
  | w, srv, [] => Mirrored w srv
  | w, srv, s :: calls => Mirrored w srv ∧
      ∃ srv', srv.Accepts s.changes srv' ∧ Mirrors s.after srv' calls

/-- **The lists stay the same** along every confirmed run whose calls all fit. -/
theorem mirrors_of_fits {w : World} {srv : Server} {calls : List EditCall}
    (hrun : ConfirmedRun w srv calls) (hfit : AllFit srv calls) (hm : Mirrored w srv) :
    Mirrors w srv calls := by
  induction calls generalizing w srv with
  | nil => exact hm
  | cons s calls ih =>
    obtain ⟨rfl, hconf, hrest⟩ := hrun
    obtain ⟨hfits, hfit⟩ := hfit
    obtain ⟨changes, srv', hsent, hacc, hm'⟩ := s.follows hm hconf hfits
    rw [← EditCall.changes_eq hsent] at hacc
    exact ⟨hm, srv', hacc, ih (hrest srv' hacc.follow) (hfit srv' hacc.follow) hm'⟩

/-! ## Two runs -/

/-- The user's playlist 0 with two tracks. -/
def World.listing : World where
  store _ := 0
  playlists _ := ⟨hexId 'a', some [], none, some [hexId '1', hexId '2'], some 1, some 1, some false,
    true⟩
  userId := []
  container := some .new
  size := 1
  borrowed := 0
  sent := []
  script := []

/-- The server has the same lists. -/
def Server.listing : Server where
  tracks _ := some [trackItem (hexId '1'), trackItem (hexId '2')]
  items := []

theorem mirrored_listing : Mirrored .listing .listing := by
  constructor
  · intro p _ l hl ts hts
    cases hl
    cases hts
    rfl
  · intro c hc
    cases hc
    rfl

/-- The change is sent and confirmed with the version. -/
def confirmed (r : Request) (version : String) : List Answer :=
  [.borrowObject true, .isConnected r true, .sendPacket r true,
    .getData r (some ⟨1, some (.element "playlist" [.element "confirm"
      [.element "version" [.text version.toList]]])⟩)]

theorem accepted_confirmed (c : Edit) (version : String) :
    c.Accepted (confirmed c.request version) :=
  ⟨_, _, List.mem_of_getElem? (i := 3) rfl, rfl, Or.inl rfl⟩

theorem truthful_confirmed (srv : Server) (id : Text) (version : String) {r : Request}
    (hr : r ≠ .getPlaylist ∧ r ≠ .userPlaylists) :
    ∀ a ∈ confirmed r version, Truthful srv id a := by
  intro a ha
  simp only [confirmed, List.mem_cons, List.not_mem_nil, or_false] at ha
  rcases ha with rfl | rfl | rfl | rfl
  · trivial
  · trivial
  · trivial
  · cases r with
    | getPlaylist => exact absurd rfl hr.1
    | userPlaylists => exact absurd rfl hr.2
    | _ => trivial

/-- A call that can be evaluated. -/
theorem sent_of_any (c : Command) (w : World) (answers : List Answer) (P : World → Bool)
    (h : (c.send { w with script := answers }).any
      (fun (r, w') => r.isOk && w'.script.isEmpty && P w') = true) :
    ∃ w', c.Sent w answers (.ok ()) w' ∧ P w' = true := by
  obtain ⟨⟨r, w'⟩, hsend, hend⟩ := (Option.any_eq_true _ _).mp h
  obtain ⟨⟨hok, hscript⟩, hP⟩ : (r.isOk = true ∧ w'.script.isEmpty = true) ∧ P w' = true := by
    simpa only [Bool.and_eq_true] using hend
  cases r with
  | error e => cases hok
  | ok x => exact ⟨w', ⟨hsend, List.isEmpty_iff.mp hscript⟩, hP⟩

theorem mirrors_of_fits_added : ∃ s : EditCall,
    s.edit = .addTrack 0 (hexId '3') none true ∧ s.outcome = .ok () ∧
      Mirrors .listing .listing [s] := by
  obtain ⟨w', hsent, -⟩ := sent_of_any (.addTrack 0 (hexId '3') none true) .listing
    (confirmed .addTrack "0000000002,0000000003,2235106916,0") (fun _ => true)
    (by decide)
  refine ⟨⟨.addTrack 0 (hexId '3') none true, .listing, _, .ok (), w', hsent⟩, rfl, rfl, ?_⟩
  refine mirrors_of_fits ⟨rfl, ⟨?_, ?_⟩, fun _ _ => trivial⟩ ⟨rfl, fun _ _ => trivial⟩
    mirrored_listing
  · exact accepted_confirmed _ _
  · exact truthful_confirmed _ _ _ ⟨nofun, nofun⟩

/-- **The first of two tracks is removed**, and the second one announced. -/
theorem removed_not_mirrored : ∃ s : EditCall, s.edit = .removeTrack 0 1 ∧ s.outcome = .ok () ∧
    s.before = .listing ∧ s.Confirmed .listing ∧ Mirrored s.before .listing ∧
      ∃ srv', Server.listing.follow s.changes = some srv' ∧ ¬ Mirrored s.after srv' := by
  obtain ⟨w', hsent, hw'⟩ := sent_of_any (.removeTrack 0 1) .listing
    (confirmed .removeTrack "0000000002,0000000001,339870242,0")
    (fun w' => w'.sent =
        [⟨some (hexId 'a'), .del 1 1, 2, 1, some 339870242, false, 1, 1, 814547763⟩] ∧
      w'.store (hexId 'a') = 0 ∧ (w'.playlists 0).id = hexId 'a' ∧
      (w'.playlists 0).listed = some [hexId '2'])
    (by decide)
  obtain ⟨hchange, hstore, hid, hlisted⟩ := of_decide_eq_true hw'
  refine ⟨⟨.removeTrack 0 1, .listing, _, .ok (), w', hsent⟩, rfl, rfl, rfl,
    ⟨accepted_confirmed _ _, truthful_confirmed _ _ _ ⟨nofun, nofun⟩⟩, mirrored_listing,
    Server.listing.setTracks (hexId 'a') (some [trackItem (hexId '1')]), ?_, ?_⟩
  · rw [EditCall.changes_eq (s := ⟨.removeTrack 0 1, .listing, _, .ok (), w', hsent⟩) hchange]
    rfl
  · intro hm
    have heq := hm.tracks 0 (by rw [hid, hstore]) _ (by rw [hid, Server.setTracks_self]) _ hlisted
    exact absurd heq (by decide)

end Despotify.Java

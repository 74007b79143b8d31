import Despotify.Java.Exchange

/-!
# Java: the commands that change a list

`AddTrackToPlaylist`, `RemoveTrackFromPlaylist`, `CreatePlaylistWithReservedUUID`
and `RemovePlaylistFromUser` prepare (`Edit.prepare`: the user, nested loads, the
permission) and then change their list and tell the server (`Edit.change`).  What
an end of `change` can be is said once for each:

* `announce_cases`: from the changed track list to the reply.
* `changeAddTrack_cases`, `changeRemoveTrack_cases`.
* `changeCreatePlaylist_items`, `changeCreatePlaylist_replied`.
* `changeRemovePlaylist_items`, `changeRemovePlaylist_replied`.
-/

namespace Despotify.Java

inductive Edit
  | addTrack (p : Nat) (track : Text) (position : Option Int) (user : Bool)
  | removeTrack (p : Nat) (position : Int)
  | createPlaylist (p : Nat) (position : Option Int) (user : Bool)
  | removePlaylist (p : Nat)
  deriving DecidableEq, Repr

namespace Edit

def command : Edit → Command
  | addTrack p track position user => .addTrack p track position user
  | removeTrack p position => .removeTrack p position
  | createPlaylist p position user => .createPlaylistWithReservedUUID p position user
  | removePlaylist p => .removePlaylistFromUser p

/-- The request whose reply decides. -/
def request : Edit → Request
  | addTrack .. => .addTrack
  | removeTrack .. => .removeTrack
  | createPlaylist .. => .createPlaylist
  | removePlaylist .. => .destroyPlaylist

/-- The reply has a `confirm`. -/
def Confirmed (c : Edit) (answers : List Answer) : Prop :=
  ∃ reply e, .getData c.request (some reply) ∈ answers ∧ reply.document = some e ∧
    e.hasChild "confirm" = true

def prepare : Edit → Send Unit
  | addTrack p _ _ user => prepareAddTrack p user
  | removeTrack p _ => prepareRemoveTrack p
  | createPlaylist p _ user => prepareCreatePlaylist p user
  | removePlaylist _ => loadedUserPlaylists

def change : Edit → Send Unit
  | addTrack p track position _ => changeAddTrack p track position
  | removeTrack p position => changeRemoveTrack p position
  | createPlaylist p position _ => changeCreatePlaylist p position
  | removePlaylist p => changeRemovePlaylist p

theorem send_eq (c : Edit) : c.command.send = c.prepare >>= fun _ => c.change := by
  cases c with
  | addTrack p track position user => rfl
  | removeTrack p position => rfl
  | createPlaylist p position user => rfl
  | removePlaylist p => rfl

end Edit

/-! ## From the changed tracks to the reply -/

/-- The world with another state of the playlist. -/
def World.put (w : World) (p : Nat) (pl : Playlist) : World :=
  { w with playlists := Function.update w.playlists p pl }

@[simp] theorem World.put_self (w : World) (p : Nat) (pl : Playlist) :
    (w.put p pl).playlists p = pl := Function.update_self ..

/-- The reply to `q` came, and the changes had gone out; the objects are as they were. -/
structure Replied (q : Request) (changes : List Change) (reply : Reply) (w w' : World) : Prop where
  objects : w'.objects = w.objects
  sent : w'.sent = w.sent ++ changes
  script : ∃ used, w.script = used ++ .getData q (some reply) :: w'.script ∧
    ∀ a ∈ used, NoReply q a

/-- All answers used up, the reply is the only one. -/
theorem Replied.mem_iff {q : Request} {w w1 : World} {changes : List Change} {reply : Reply}
    (h : Replied q changes reply w w1) (hs : w1.script = []) (reply' : Reply) :
    .getData q (some reply') ∈ w.script ↔ reply' = reply := by
  obtain ⟨used, hscript, hno⟩ := h.script
  rw [hscript, hs, List.mem_append, List.mem_singleton]
  constructor
  · rintro (hmem | heq)
    · exact absurd rfl (hno _ hmem reply')
    · exact Option.some.inj (Answer.getData.inj heq).2
  · rintro rfl
    exact Or.inr rfl

theorem Replied.mem {q : Request} {w w1 : World} {changes : List Change} {reply : Reply}
    (h : Replied q changes reply w w1) :
    .getData q (some reply) ∈ w.script := by
  obtain ⟨used, hscript, -⟩ := h.script
  rw [hscript]
  simp

theorem exchange_replied {q : Request} {changes : List Change} {w w' : World}
    {r : Except Exn Reply} (h : exchange q changes w = some (r, w')) :
    (∃ e, r = .error e ∧ w'.objects = w.objects ∧ Used (NoReply q) w w') ∨
      ∃ reply, r = .ok reply ∧ Replied q changes reply w w' := by
  obtain ⟨hobj, ⟨e, rfl, hused⟩ | ⟨reply, used, rfl, hsent, hscript, hno⟩⟩ := exchange_cases h
  · exact Or.inl ⟨e, rfl, hobj, hused⟩
  · exact Or.inr ⟨reply, rfl, hobj, hsent, used, hscript, hno⟩

/-- The checksum a playlist is left with. -/
def Playlist.summed (pl : Playlist) : Option Int :=
  match pl.calculateChecksum with
  | .ok sum => some sum
  | .error _ => pl.checksum

/-- What is announced: the tracks as they are, and their checksum. -/
structure TracksAnnounced (pl : Playlist) (op : Nat → Op) (sum : Int) (change : Change) : Prop where
  target : change.target = some pl.id
  op : change.op = op pl.size
  size : change.size = pl.size
  checksum : change.checksum = some sum

section Announce

variable {p : Nat} {op : Nat → Op} {place : Nat → Int} {previous : Int} {w w' : World}

theorem setChecksum_cases {r : Except Exn Unit} (h : setChecksum p w = some (r, w')) :
    (∃ e, (w.playlists p).calculateChecksum = .error e ∧ r = .error e ∧ w' = w) ∨
      ∃ sum, (w.playlists p).calculateChecksum = .ok sum ∧ r = .ok () ∧
        w' = w.put p { w.playlists p with checksum := some sum } := by
  unfold setChecksum at h
  rw [playlist_bind] at h
  cases hsum : (w.playlists p).calculateChecksum with
  | error e =>
    rw [hsum] at h
    cases h
    exact Or.inl ⟨e, rfl, rfl, rfl⟩
  | ok sum =>
    rw [hsum] at h
    cases h
    exact Or.inr ⟨sum, rfl, rfl, rfl⟩

/-- The end of the change: the numbers cannot be written, or the change is made. -/
theorem tracksChange_cases {r : Except Exn Change}
    (h : tracksChange p op place previous w = some (r, w')) :
    w' = w ∧ ((∃ e, r = .error e) ∨ ∃ change, r = .ok change ∧
      ∀ sum, (w.playlists p).checksum = some sum →
        TracksAnnounced (w.playlists p) op sum change) := by
  unfold tracksChange at h
  rw [playlist_bind] at h
  cases hrev : (w.playlists p).revision with
  | none =>
    rw [hrev, orNull_none_bind] at h
    cases h
    exact ⟨rfl, Or.inl ⟨_, rfl⟩⟩
  | some revision =>
  cases hcol : (w.playlists p).collaborative with
  | none =>
    rw [hrev, hcol, orNull_some_bind, orNull_none_bind] at h
    cases h
    exact ⟨rfl, Or.inl ⟨_, rfl⟩⟩
  | some collaborative =>
  rw [hrev, hcol, orNull_some_bind, orNull_some_bind] at h
  by_cases hid : HasUUID (w.playlists p).id
  · rw [putUUID_bind_of_has hid] at h
    cases h
    exact ⟨rfl, Or.inr ⟨_, rfl, fun sum hsum => ⟨rfl, rfl, rfl, hsum⟩⟩⟩
  · obtain ⟨e, he⟩ := putUUID_bind_of_not hid (α := Change) _
    rw [he] at h
    cases h
    exact ⟨rfl, Or.inl ⟨_, rfl⟩⟩

/-- How a command ends that has set its playlist to `pl` and announces it: without
a reply, or with the reply it goes on with. -/
def Announces (p : Nat) (pl : Playlist) (op : Nat → Op) (q : Request) (undo : Send Unit)
    (w : World) (r : Except Exn Unit) (w' : World) : Prop :=
  (∃ e, r = .error e ∧ Used (NoReply q) w w' ∧
      w'.playlists p = { pl with checksum := pl.summed }) ∨
    ∃ sum change reply w1, pl.calculateChecksum = .ok sum ∧ TracksAnnounced pl op sum change ∧
      Replied q [change] reply (w.put p { pl with checksum := some sum }) w1 ∧
      (reply.document = none ∧ r = .error .nullPointerException ∧ w' = w1 ∨
        ∃ e, reply.document = some e ∧
          (if e.hasChild "confirm" then confirmTracks p e else undo) w1 = some (r, w'))

/-- **From the changed tracks to the reply.** -/
theorem announce_cases {q : Request} {undo : Send Unit} {r : Except Exn Unit} {pl : Playlist}
    (hpl : w.playlists p = pl)
    (h : (setChecksum p >>= fun _ => tracksChange p op place previous >>= fun change =>
      exchange q [change] >>= fun data => orNull data.document >>= fun response =>
        if response.hasChild "confirm" then confirmTracks p response else undo) w =
      some (r, w')) : Announces p pl op q undo w r w' := by
  subst hpl
  rcases Proc.bind_eq_some h with ⟨e, he, rfl⟩ | ⟨⟨⟩, w1, h1, h⟩
  · obtain ⟨e', hsum, -, rfl⟩ | ⟨sum, -, he, -⟩ := setChecksum_cases he
    · refine Or.inl ⟨e, rfl, refl_of (Used _) _, ?_⟩
      unfold Playlist.summed
      rw [hsum]
    · cases he
  obtain ⟨e', -, he, -⟩ | ⟨sum, hsum, -, rfl⟩ := setChecksum_cases h1
  · cases he
  have hsummed : (w.playlists p).summed = some sum := by
    unfold Playlist.summed
    rw [hsum]
  rcases Proc.bind_eq_some h with ⟨e, he, rfl⟩ | ⟨change, w2, h2, h⟩
  · obtain ⟨rfl, -⟩ := tracksChange_cases he
    exact Or.inl ⟨e, rfl, ⟨[], rfl, nofun⟩, by rw [hsummed, World.put_self]⟩
  obtain ⟨rfl, ⟨e, he⟩ | ⟨change', hchange, hann⟩⟩ := tracksChange_cases h2
  · cases he
  cases hchange
  have hann : TracksAnnounced (w.playlists p) op sum change := by
    have hself := hann sum (by rw [World.put_self])
    rw [World.put_self] at hself
    exact ⟨hself.target, hself.op, hself.size, hself.checksum⟩
  rcases Proc.bind_eq_some h with ⟨e, he, rfl⟩ | ⟨data, w3, h3, h⟩
  · obtain ⟨e', -, hobj, hused⟩ | ⟨reply, he, -⟩ := exchange_replied he
    · refine Or.inl ⟨e, rfl, hused, ?_⟩
      rw [(World.objects_eq hobj).2.1, hsummed, World.put_self]
    · cases he
  obtain ⟨e', he, -⟩ | ⟨reply, hreply, hreplied⟩ := exchange_replied h3
  · cases he
  cases hreply
  refine Or.inr ⟨sum, change, data, w3, hsum, hann, hreplied, ?_⟩
  cases hd : data.document with
  | none =>
    rw [hd, orNull_none_bind] at h
    cases h
    exact Or.inl ⟨rfl, rfl, rfl⟩
  | some e =>
    rw [hd, orNull_some_bind] at h
    exact Or.inr ⟨e, rfl, h⟩

theorem World.put_put (w : World) (p : Nat) (pl pl' : Playlist) :
    (w.put p pl).put p pl' = w.put p pl' := by
  unfold World.put
  rw [Function.update_idem]

theorem Announces.of_put {q : Request} {undo : Send Unit} {r : Except Exn Unit} {pl : Playlist}
    (h : Announces p pl op q undo (w.put p pl) r w') : Announces p pl op q undo w r w' := by
  obtain ⟨e, hr, hused, hpl⟩ | ⟨sum, change, reply, w1, hsum, hann, hreplied, hend⟩ := h
  · exact Or.inl ⟨e, hr, hused, hpl⟩
  · rw [World.put_put] at hreplied
    exact Or.inr ⟨sum, change, reply, w1, hsum, hann, hreplied, hend⟩

end Announce

/-! ## Adding and removing a track -/

section Tracks

variable {p : Nat} {w w' : World} {r : Except Exn Unit}

/-- `AddTrackToPlaylist` throws before it changes the tracks. -/
def AddRefused (pl : Playlist) (position : Option Int) : Prop :=
  (∃ e, pl.calculateChecksum = .error e) ∨ (position ≠ none ∧ position ≠ some (pl.size : Int))

/-- `RemoveTrackFromPlaylist` throws before it changes the tracks. -/
def RemoveRefused (pl : Playlist) (position : Int) : Prop :=
  (∃ e, pl.calculateChecksum = .error e) ∨ position < 1 ∨ (pl.size : Int) < position

def Playlist.added (pl : Playlist) (track : Text) : Playlist :=
  { pl with tracks := some (pl.tracks.getD [] ++ [track]) }

def Playlist.removed (pl : Playlist) (position : Int) : Playlist :=
  { pl with tracks := some ((pl.tracks.getD []).eraseIdx (position - 1).toNat) }

/-- The last track is taken away again. -/
def undoAdd (p position : Nat) : Send Unit := do
  setPlaylist p fun pl => { pl with tracks := some ((pl.tracks.getD []).eraseIdx position) }
  Proc.throw .despotifyException

/-- The track is put back, one place too late. -/
def undoRemove (p : Nat) (position : Int) (track : Text) : Send Unit := do
  let pl ← playlist p
  if pl.size < position then Proc.throw .indexOutOfBoundsException
  else
    setPlaylist p fun pl =>
      { pl with tracks := some ((pl.tracks.getD []).insertIdx position.toNat track) }
    Proc.throw .runtimeException

instance local_undoAdd (p position : Nat) : Local (undoAdd p position) := by
  unfold undoAdd
  infer_instance

instance local_undoRemove (p : Nat) (position : Int) (track : Text) :
    Local (undoRemove p position track) := by
  unfold undoRemove
  infer_instance

/-- The end with a `confirm`. -/
theorem Announces.confirmed {op : Nat → Op} {q : Request} {undo : Send Unit} [Local undo]
    {pl : Playlist} (h : Announces p pl op q undo w r w') (hs : w'.script = []) {reply : Reply}
    {e : XMLElement} (hmem : .getData q (some reply) ∈ w.script) (hdoc : reply.document = some e)
    (hconfirm : e.hasChild "confirm" = true) :
    ∃ sum change w1, pl.calculateChecksum = .ok sum ∧ TracksAnnounced pl op sum change ∧
      w1.objects = (w.put p { pl with checksum := some sum }).objects ∧
      w1.sent = w.sent ++ [change] ∧ confirmTracks p e w1 = some (r, w') := by
  obtain ⟨e', -, hused, -⟩ | ⟨sum, change, reply', w1, hsum, hann, hrep, hend⟩ := h
  · exact absurd hmem (hused.noReply_of_script hs reply)
  have hs1 : w1.script = [] := by
    obtain ⟨-, -, rfl⟩ | ⟨e', -, hend⟩ := hend
    · exact hs
    · have hlocal : Local (if e'.hasChild "confirm" = true then confirmTracks p e' else undo) :=
        inferInstance
      rw [← (World.outside_eq (hlocal.same hend)).1]
      exact hs
  cases (hrep.mem_iff hs1 reply).mp hmem
  obtain ⟨hnone, -, -⟩ | ⟨e', hdoc', hend⟩ := hend
  · rw [hdoc] at hnone
    cases hnone
  · rw [hdoc] at hdoc'
    cases hdoc'
    rw [if_pos hconfirm] at hend
    exact ⟨sum, change, w1, hsum, hann, hrep.objects, hrep.sent, hend⟩

theorem setPlaylist_bind {α : Type} (f : Playlist → Playlist) (k : Unit → Send α) (w : World) :
    (setPlaylist p f >>= k) w = k () (w.put p (f (w.playlists p))) := rfl

theorem changeAddTrack_cases {track : Text} {position : Option Int}
    (h : changeAddTrack p track position w = some (r, w')) :
    (AddRefused (w.playlists p) position ∧ (∃ e, r = .error e) ∧ w' = w) ∨
      (¬ AddRefused (w.playlists p) position ∧
        Announces p ((w.playlists p).added track)
          (fun _ => .add (w.playlists p).size (track ++ ['0', '1'])) .addTrack
          (undoAdd p (w.playlists p).size) w r w') := by
  unfold changeAddTrack at h
  rw [playlist_bind] at h
  cases hsum : (w.playlists p).calculateChecksum with
  | error e =>
    rw [hsum] at h
    cases h
    exact Or.inl ⟨Or.inl ⟨e, hsum⟩, ⟨e, rfl⟩, rfl⟩
  | ok sum =>
    rw [hsum, Proc.ofExcept_ok, Proc.pure_bind, Proc.ite_run] at h
    by_cases hpos : position ≠ none ∧ position ≠ some ((w.playlists p).size : Int)
    · rw [if_pos hpos] at h
      cases h
      exact Or.inl ⟨Or.inr hpos, ⟨_, rfl⟩, rfl⟩
    · rw [if_neg hpos] at h
      have hallowed : ¬ AddRefused (w.playlists p) position := by
        rintro (⟨e, he⟩ | hbad)
        · rw [hsum] at he
          cases he
        · exact hpos hbad
      have hadd : { w.playlists p with tracks := some (((w.playlists p).tracks.getD []).insertIdx
          (w.playlists p).size track) } = (w.playlists p).added track := by
        unfold Playlist.added Playlist.size
        rw [List.insertIdx_length_self]
      rw [setPlaylist_bind, hadd] at h
      exact Or.inr ⟨hallowed, Announces.of_put (announce_cases (World.put_self ..) h)⟩

theorem changeRemoveTrack_cases {position : Int}
    (h : changeRemoveTrack p position w = some (r, w')) :
    (RemoveRefused (w.playlists p) position ∧ (∃ e, r = .error e) ∧ w' = w) ∨
      (¬ RemoveRefused (w.playlists p) position ∧
        Announces p ((w.playlists p).removed position) (fun size => .del size 1) .removeTrack
          (undoRemove p position
            (((w.playlists p).tracks.getD []).getD (position - 1).toNat [])) w r w') := by
  unfold changeRemoveTrack at h
  rw [playlist_bind] at h
  cases hsum : (w.playlists p).calculateChecksum with
  | error e =>
    rw [hsum] at h
    cases h
    exact Or.inl ⟨Or.inl ⟨e, hsum⟩, ⟨e, rfl⟩, rfl⟩
  | ok sum =>
    rw [hsum, Proc.ofExcept_ok, Proc.pure_bind] at h
    dsimp only at h
    rw [Proc.ite_run] at h
    by_cases hpos : position < 1 ∨ ((w.playlists p).tracks.getD []).length < position
    · rw [if_pos hpos] at h
      cases h
      exact Or.inl ⟨Or.inr hpos, ⟨_, rfl⟩, rfl⟩
    · rw [if_neg hpos, setPlaylist_bind] at h
      have hallowed : ¬ RemoveRefused (w.playlists p) position := by
        rintro (⟨e, he⟩ | hbad)
        · rw [hsum] at he
          cases he
        · exact hpos hbad
      exact Or.inr ⟨hallowed, Announces.of_put (announce_cases (World.put_self ..) h)⟩

end Tracks

/-! ## Creating and removing a playlist -/

def World.items (w : World) : Option (List Item) := w.container.map PlaylistContainer.items

def PlaylistContainer.added (c : PlaylistContainer) (item : Item) : PlaylistContainer :=
  { c with items := c.items ++ [item] }

/-- What `CreatePlaylistWithReservedUUID` announces. -/
structure ItemAnnounced (c : PlaylistContainer) (position : Option Int) (id : Text)
    (change : Change) : Prop where
  target : change.target = none
  op : ∃ uuid, toBytes id = .ok uuid ∧
    change.op = .add (position.getD c.items.length) (toHex uuid ++ ['0', '2'])
  size : change.size = c.items.length + 1
  checksum : ∃ sum, calculatePlaylists (c.ids ++ [id]) = .ok sum ∧ change.checksum = some sum

section Items

variable {p : Nat} {w w' : World} {c : PlaylistContainer}

instance (priority := low) items_of_objects {α : Type} (m : Send α)
    [hm : Proc.Keeps (Proc.Same World.objects) m] : Proc.Keeps (Proc.Same World.items) m :=
  hm.of_same fun _ _ h => congrArg (Option.map _) (World.objects_eq h).2.2.2

instance items_setPlaylist (f : Playlist → Playlist) :
    Proc.Keeps (Proc.Same World.items) (setPlaylist p f) := ⟨Proc.Moves.modify fun _ => rfl⟩

theorem items_setContainer {f : PlaylistContainer → PlaylistContainer}
    (hf : ∀ c, (f c).items = c.items) : Proc.Keeps (Proc.Same World.items) (setContainer f) := by
  refine ⟨Proc.Moves.modify fun w => ?_⟩
  unfold Proc.Same World.items
  cases w.container with
  | none => rfl
  | some c => exact congrArg some (hf c)

theorem setContainer_bind {α : Type} (f : PlaylistContainer → PlaylistContainer)
    (k : Unit → Send α) (w : World) :
    (setContainer f >>= k) w = k () { w with container := w.container.map f } := rfl

set_option synthInstance.maxSize 100000 in
instance items_confirmItems (response : XMLElement) :
    Proc.Keeps (Proc.Same World.items) (confirmItems p response) := by
  have hrevision : ∀ n, Proc.Keeps (Proc.Same World.items)
      (setContainer fun c => { c with revision := n }) := fun n => items_setContainer fun _ => rfl
  have hchecksum : ∀ n, Proc.Keeps (Proc.Same World.items)
      (setContainer fun c => { c with checksum := n }) := fun n => items_setContainer fun _ => rfl
  unfold confirmItems
  infer_instance

/-- What `CreatePlaylistWithReservedUUID` does with the reply. -/
def finishCreate (p : Nat) (response : XMLElement) : Send Unit :=
  if response.hasChild "confirm" then do
    confirmItems p response
    setPlaylist p fun pl => { pl with revision := some 1, tracks := some [], checksum := some 1 }
  else Proc.throw .runtimeException

instance items_finishCreate (response : XMLElement) :
    Proc.Keeps (Proc.Same World.items) (finishCreate p response) := by
  unfold finishCreate
  infer_instance

instance local_finishCreate (response : XMLElement) : Local (finishCreate p response) := by
  unfold finishCreate
  infer_instance

/-- **From the appended playlist to the reply.** -/
theorem changeCreatePlaylist_cases {position : Option Int} {r : Except Exn Unit}
    (hc : w.container = some c) (h : changeCreatePlaylist p position w = some (r, w')) :
    (∃ e, r = .error e ∧ Used (NoReply .createPlaylist) w w' ∧
        w'.items = some (c.items ++ [⟨p, (w.playlists p).id⟩])) ∨
      ∃ change reply w1, ItemAnnounced c position (w.playlists p).id change ∧
        Replied .createPlaylist [change] reply
          { w with container := some (c.added ⟨p, (w.playlists p).id⟩) } w1 ∧
        (reply.document = none ∧ r = .error .nullPointerException ∧ w' = w1 ∨
          ∃ e, reply.document = some e ∧ finishCreate p e w1 = some (r, w')) := by
  unfold changeCreatePlaylist at h
  rw [playlist_bind, setContainer_bind, hc, playlists_bind rfl] at h
  cases hid : toBytes (w.playlists p).id with
  | error e =>
    rw [hid] at h
    cases h
    exact Or.inl ⟨e, rfl, ⟨[], rfl, nofun⟩, rfl⟩
  | ok uuid =>
  cases hsum : (c.added ⟨p, (w.playlists p).id⟩).calculateChecksum with
  | error e =>
    unfold PlaylistContainer.added at hsum
    rw [hid, Proc.ofExcept_ok, Proc.pure_bind, hsum] at h
    cases h
    exact Or.inl ⟨e, rfl, ⟨[], rfl, nofun⟩, rfl⟩
  | ok sum =>
  unfold PlaylistContainer.added at hsum
  rw [hid, Proc.ofExcept_ok, Proc.pure_bind, hsum, Proc.ofExcept_ok, Proc.pure_bind] at h
  cases hcol : (w.playlists p).collaborative with
  | none =>
    rw [hcol, orNull_none_bind] at h
    cases h
    exact Or.inl ⟨_, rfl, ⟨[], rfl, nofun⟩, rfl⟩
  | some collaborative =>
  rw [hcol, orNull_some_bind] at h
  rcases Proc.bind_eq_some h with ⟨e, he, rfl⟩ | ⟨data, w1, h1, h⟩
  · obtain ⟨e', -, hobj, hused⟩ | ⟨reply, he, -⟩ := exchange_replied he
    · refine Or.inl ⟨e, rfl, hused, ?_⟩
      unfold World.items
      rw [(World.objects_eq hobj).2.2.2]
      rfl
    · cases he
  obtain ⟨e', he, -⟩ | ⟨reply, hreply, hreplied⟩ := exchange_replied h1
  · cases he
  cases hreply
  refine Or.inr ⟨_, data, w1, ⟨rfl, ⟨uuid, hid, ?_⟩, ?_, ⟨sum, ?_, rfl⟩⟩, hreplied, ?_⟩
  · simp
  · simp
  · have hids : (c.added ⟨p, (w.playlists p).id⟩).ids = c.ids ++ [(w.playlists p).id] := by
      simp [PlaylistContainer.ids, PlaylistContainer.added]
    rw [← hids]
    exact hsum
  cases hd : data.document with
  | none =>
    rw [hd, orNull_none_bind] at h
    cases h
    exact Or.inl ⟨rfl, rfl, rfl⟩
  | some e =>
    rw [hd, orNull_some_bind] at h
    exact Or.inr ⟨e, rfl, h⟩

/-- However the command ends, the playlist has been appended. -/
theorem changeCreatePlaylist_items {position : Option Int} {r : Except Exn Unit}
    (hc : w.container = some c) (h : changeCreatePlaylist p position w = some (r, w')) :
    w'.items = some (c.items ++ [⟨p, (w.playlists p).id⟩]) := by
  obtain ⟨-, -, -, hitems⟩ | ⟨change, reply, w1, -, hreplied, hend⟩ :=
    changeCreatePlaylist_cases hc h
  · exact hitems
  have h1 : w1.items = some (c.items ++ [⟨p, (w.playlists p).id⟩]) := by
    unfold World.items
    rw [(World.objects_eq hreplied.objects).2.2.2]
    rfl
  obtain ⟨-, -, rfl⟩ | ⟨e, -, hfinish⟩ := hend
  · exact h1
  · rw [(items_finishCreate e).same hfinish, h1]

end Items

section Remove

variable {p position : Nat} {w w' : World} {c : PlaylistContainer} {r : Except Exn Unit}

def PlaylistContainer.without (c : PlaylistContainer) (position : Nat) : PlaylistContainer :=
  { c with items := c.items.eraseIdx position }

/-- Reading the reply changes the playlist, not its id. -/
theorem readDestroyed_cases {data : Reply} {undo : Send Unit}
    (h : (orNull data.document >>= fun response =>
      onPlaylist p (Playlist.fromXMLElement response) >>= fun _ =>
        if response.hasChild "next-change" then pure () else undo) w = some (r, w')) :
    w' = w ∨ ∃ pl, pl.id = (w.playlists p).id ∧ w' = w.put p pl := by
  cases hd : data.document with
  | none =>
    rw [hd, orNull_none_bind] at h
    cases h
    exact Or.inl rfl
  | some e =>
    rw [hd, orNull_some_bind] at h
    rcases Proc.bind_eq_some h with ⟨x, hx, rfl⟩ | ⟨⟨⟩, w1, h1, h⟩
    · obtain ⟨pl, hread, rfl⟩ := onPlaylist_cases hx
      exact Or.inr ⟨pl, (Playlist.keeps_id_fromXMLElement e).same hread, rfl⟩
    · obtain ⟨pl, hread, rfl⟩ := onPlaylist_cases h1
      rw [Playlist.hasChild_of_fromXMLElement hread, if_pos rfl] at h
      cases h
      exact Or.inr ⟨pl, (Playlist.keeps_id_fromXMLElement e).same hread, rfl⟩

/-- What `sendDelete` announces: the stored checksum. -/
structure DeleteAnnounced (c : PlaylistContainer) (position : Nat) (change : Change) : Prop where
  target : change.target = none
  op : change.op = .del position 1
  size : change.size = c.items.length
  checksum : change.checksum = some c.checksum

theorem sendDelete_cases (hc : w.container = some c)
    (h : sendDelete p position w = some (r, w')) :
    w'.objects = w.objects ∧ Used (NoReply .destroyPlaylist) w w' ∧
      ((∃ e, r = .error e) ∨ ∃ change, DeleteAnnounced c position change ∧
        w'.sent = w.sent ++ [change]) := by
  have hused : Used (NoReply .destroyPlaylist) w w' := by
    have hkeeps : Proc.Keeps (Used (NoReply .destroyPlaylist)) (sendDelete p position) := by
      unfold sendDelete
      infer_instance
    exact hkeeps.moves w r w' h
  refine ⟨(keeps_sendDelete p position).same h, hused, ?_⟩
  unfold sendDelete at h
  rcases Proc.bind_eq_some h with ⟨e, -, rfl⟩ | ⟨⟨⟩, w1, h1, h⟩
  · exact Or.inl ⟨e, rfl⟩
  have hc1 := (World.objects_eq ((keeps_checkConnection _).same h1)).2.2.2.trans hc
  have hsent1 : w1.sent = w.sent := (sent_checkConnection _).same h1
  rw [playlists_bind hc1, playlist_bind] at h
  cases hcol : (w1.playlists p).collaborative with
  | none =>
    rw [hcol, orNull_none_bind] at h
    cases h
    exact Or.inl ⟨_, rfl⟩
  | some collaborative =>
  rw [hcol, orNull_some_bind] at h
  obtain ⟨as, ⟨-, rfl, rfl⟩ | ⟨-, rfl, rfl⟩⟩ := sendPacket_cases h
  · exact Or.inr ⟨_, ⟨rfl, rfl, rfl, rfl⟩, congrArg (· ++ _) hsent1⟩
  · exact Or.inl ⟨_, rfl⟩

/-- Without a reply, or with one that may change the playlist it is about. -/
theorem sendDestroy_cases (hc : w.container = some c)
    (h : sendDestroy p position w = some (r, w')) :
    (w'.objects = w.objects ∧ (∃ e, r = .error e) ∧ Used (NoReply .destroyPlaylist) w w') ∨
      ∃ change w1, w1.objects = w.objects ∧ change.target = some (w.playlists p).id ∧
        change.op = .destroy ∧ w1.sent = w.sent ++ [change] ∧
        (w' = w1 ∨ ∃ pl, pl.id = (w.playlists p).id ∧ w' = w1.put p pl) := by
  unfold sendDestroy at h
  rcases Proc.bind_eq_some h with ⟨e, he, rfl⟩ | ⟨⟨⟩, w1, h1, h⟩
  · exact Or.inl ⟨(keeps_checkConnection _).same he, ⟨e, rfl⟩,
      (used_checkConnection _).moves _ _ _ he⟩
  have hobj : w1.objects = w.objects := (keeps_checkConnection _).same h1
  have hused : Used (NoReply .destroyPlaylist) w w1 := (used_checkConnection _).moves _ _ _ h1
  have hsent1 : w1.sent = w.sent := (sent_checkConnection _).same h1
  have hthrow (e : Exn) (hr : some (.error e, w1) = some (r, w')) :
      w'.objects = w.objects ∧ (∃ e, r = .error e) ∧ Used (NoReply .destroyPlaylist) w w' := by
    cases hr
    exact ⟨hobj, ⟨e, rfl⟩, hused⟩
  obtain ⟨-, hpl, -, hco⟩ := World.objects_eq hobj
  rw [playlists_bind (hco.trans hc), playlist_bind, hpl] at h
  cases hrev : (w.playlists p).revision with
  | none =>
    rw [hrev, orNull_none_bind] at h
    exact Or.inl (hthrow _ h)
  | some revision =>
  cases htr : (w.playlists p).tracks with
  | none =>
    rw [hrev, htr, orNull_some_bind, orNull_none_bind] at h
    exact Or.inl (hthrow _ h)
  | some tracks =>
  cases hcol : (w.playlists p).collaborative with
  | none =>
    rw [hrev, htr, hcol, orNull_some_bind, orNull_some_bind, orNull_none_bind] at h
    exact Or.inl (hthrow _ h)
  | some collaborative =>
  rw [hrev, htr, hcol, orNull_some_bind, orNull_some_bind, orNull_some_bind] at h
  by_cases hid : HasUUID (w.playlists p).id
  case neg =>
    obtain ⟨e, he⟩ := putUUID_bind_of_not hid (α := Unit) _
    rw [he] at h
    exact Or.inl (hthrow e h)
  rw [putUUID_bind_of_has hid] at h
  rcases Proc.bind_eq_some h with ⟨e, he, rfl⟩ | ⟨⟨⟩, w2, h2, h⟩
  · exact Or.inl ⟨((keeps_sendPacket _ _).same he).trans hobj, ⟨e, rfl⟩,
      trans_of (Used _) hused ((used_sendPacket _ _).moves _ _ _ he)⟩
  have hobj2 : w2.objects = w.objects := ((keeps_sendPacket _ _).same h2).trans hobj
  have hused2 : Used (NoReply .destroyPlaylist) w w2 :=
    trans_of (Used _) hused ((used_sendPacket _ _).moves _ _ _ h2)
  rcases Proc.bind_eq_some h with ⟨e, he, rfl⟩ | ⟨data, w3, h3, h⟩
  · obtain ⟨as, ⟨reply, -, he, -⟩ | ⟨hs, -, rfl⟩⟩ := getData_cases he
    · cases he
    · have hlast : Used (NoReply .destroyPlaylist) w2 { w2 with script := as } :=
        Used.answer hs nofun
      exact Or.inl ⟨hobj2, ⟨e, rfl⟩, trans_of (Used _) hused2 hlast⟩
  have hobj3 : w3.objects = w.objects := ((keeps_getData _).same h3).trans hobj2
  have hsent3 : w3.sent = w2.sent := (sent_getData _).same h3
  have hread := readDestroyed_cases h
  rw [(World.objects_eq hobj3).2.1] at hread
  obtain ⟨as, ⟨-, -, rfl⟩ | ⟨-, h2, -⟩⟩ := sendPacket_cases h2
  · exact Or.inr ⟨_, w3, hobj3, rfl, rfl, hsent3.trans (congrArg (· ++ _) hsent1), hread⟩
  · cases h2

/-- The place of the playlist on the list. -/
def PlaylistContainer.indexOf (c : PlaylistContainer) (id : Text) : Option Nat :=
  c.items.findIdx? fun item => item.id = id

/-- **From the playlist taken off the list to the reply.** -/
theorem changeRemovePlaylist_cases (hc : w.container = some c)
    (h : changeRemovePlaylist p w = some (r, w')) :
    (c.indexOf (w.playlists p).id = none ∧ (∃ e, r = .error e) ∧ w' = w) ∨
      ∃ position, c.indexOf (w.playlists p).id = some position ∧
        w'.container = some (c.without position) ∧
        ((∃ e, r = .error e) ∧ Used (NoReply .destroyPlaylist) w w' ∨
          ∃ del destroy, DeleteAnnounced (c.without position) position del ∧
            destroy.target = some (w.playlists p).id ∧ destroy.op = .destroy ∧
            w'.sent = w.sent ++ [del, destroy] ∧ w'.store = w.store ∧
            (w'.playlists = w.playlists ∨ ∃ pl, pl.id = (w.playlists p).id ∧
              w'.playlists = Function.update w.playlists p pl)) := by
  unfold changeRemovePlaylist at h
  rw [playlists_bind hc, playlist_bind] at h
  cases hf : c.items.findIdx? fun item => item.id = (w.playlists p).id with
  | none =>
    simp only [hf] at h
    cases h
    exact Or.inl ⟨hf, ⟨_, rfl⟩, rfl⟩
  | some position =>
  simp only [hf] at h
  refine Or.inr ⟨position, hf, ?_⟩
  rw [setContainer_bind, Proc.ite_run, hc] at h
  split at h
  · cases h
    exact ⟨rfl, Or.inl ⟨⟨_, rfl⟩, [], rfl, nofun⟩⟩
  -- from here on the playlist is off the list, and the pool sees no difference
  have hw (x : World) (hx : Used (NoReply .destroyPlaylist)
      { w with container := some (c.without position) } x) :
      Used (NoReply .destroyPlaylist) w x := hx
  rcases Proc.bind_eq_some h with ⟨e, he, rfl⟩ | ⟨⟨⟩, w1, h1, h⟩
  · exact ⟨(World.objects_eq (keeps_getConnection.same he)).2.2.2,
      Or.inl ⟨⟨e, rfl⟩, hw _ (used_getConnection.moves _ _ _ he)⟩⟩
  obtain ⟨hstore1, hpl1, -, hc1⟩ := World.objects_eq (keeps_getConnection.same h1)
  have hused1 : Used (NoReply .destroyPlaylist) w w1 := hw _ (used_getConnection.moves _ _ _ h1)
  have hsent1 : w1.sent = w.sent := by
    have hsame := sent_getConnection.same h1
    exact hsame
  have hc1 : w1.container = some (c.without position) := hc1
  rcases Proc.bind_eq_some h with ⟨e, he, rfl⟩ | ⟨⟨⟩, w2, h2, h⟩
  · obtain ⟨hobj, hused, -⟩ := sendDelete_cases hc1 he
    exact ⟨(World.objects_eq hobj).2.2.2.trans hc1,
      Or.inl ⟨⟨e, rfl⟩, trans_of (Used _) hused1 hused⟩⟩
  obtain ⟨hobj2, hused2, ⟨e, he⟩ | ⟨del, hdel, hsent2⟩⟩ := sendDelete_cases hc1 h2
  · cases he
  obtain ⟨hstore2, hpl2, -, hco2⟩ := World.objects_eq hobj2
  have hused2 : Used (NoReply .destroyPlaylist) w w2 := trans_of (Used _) hused1 hused2
  have hc2 : w2.container = some (c.without position) := hco2.trans hc1
  have hpl2 : w2.playlists = w.playlists := hpl2.trans hpl1
  have hend {x : Except Exn Unit} (w3 : World)
      (h3 : sendDestroy p position w2 = some (x, w3)) :
      w3.container = some (c.without position) ∧
        ((∃ e, x = .error e) ∧ Used (NoReply .destroyPlaylist) w w3 ∨
          ∃ del destroy, DeleteAnnounced (c.without position) position del ∧
            destroy.target = some (w.playlists p).id ∧ destroy.op = .destroy ∧
            w3.sent = w.sent ++ [del, destroy] ∧ w3.store = w.store ∧
            (w3.playlists = w.playlists ∨ ∃ pl, pl.id = (w.playlists p).id ∧
              w3.playlists = Function.update w.playlists p pl)) := by
    obtain ⟨hobj3, he, hused3⟩ | ⟨destroy, w4, hobj4, htarget, hop, hsent4, hw4⟩ :=
      sendDestroy_cases hc2 h3
    · exact ⟨(World.objects_eq hobj3).2.2.2.trans hc2,
        Or.inl ⟨he, trans_of (Used _) hused2 hused3⟩⟩
    obtain ⟨hstore4, hpl4, -, hco4⟩ := World.objects_eq hobj4
    have hsent : w4.sent = w.sent ++ [del, destroy] := by
      rw [hsent4, hsent2, hsent1, List.append_assoc]
      rfl
    have hstore : w4.store = w.store := by rw [hstore4, hstore2, hstore1]
    rw [hpl2] at htarget
    rcases hw4 with rfl | ⟨pl, hid, rfl⟩
    · exact ⟨hco4.trans hc2, Or.inr ⟨del, destroy, hdel, htarget, hop, hsent, hstore,
        Or.inl (hpl4.trans hpl2)⟩⟩
    · rw [hpl2] at hid
      refine ⟨hco4.trans hc2, Or.inr ⟨del, destroy, hdel, htarget, hop, hsent, hstore,
        Or.inr ⟨pl, hid, ?_⟩⟩⟩
      unfold World.put
      rw [hpl4, hpl2]
  rcases Proc.bind_eq_some h with ⟨e, he, rfl⟩ | ⟨⟨⟩, w3, h3, h⟩
  · exact hend w' he
  · cases h
    exact hend w3 h3

end Remove

/-! ## What comes before -/

section Prepare

variable {p : Nat} {w w' : World}

/-- A playlist that has been loaded: its reply has been read. -/
theorem sendLoadPlaylist_ok (h : sendLoadPlaylist p w = some (.ok (), w')) :
    ∃ reply e pl, .getData .getPlaylist (some reply) ∈ w.script ∧ reply.document = some e ∧
      Playlist.fromXMLElement e (w.playlists p) = some (.ok (), pl) ∧
      w'.objects = (w.put p { pl with loaded := true }).objects := by
  unfold sendLoadPlaylist at h
  rw [playlist_bind] at h
  rcases Proc.bind_eq_some h with ⟨e, he, hr⟩ | ⟨⟨⟩, w1, h1, h⟩
  · cases hr
  have hobj1 : w1.objects = w.objects := by
    have hkeeps : Proc.Keeps (Proc.Same World.objects) (putUUID 16 (w.playlists p).id) := by
      unfold putUUID
      infer_instance
    exact hkeeps.same h1
  have hscript1 : w1.script = w.script := (World.outside_eq ((local_putUUID 16 _).same h1)).1
  rcases Proc.bind_eq_some h with ⟨e, he, hr⟩ | ⟨data, w2, h2, h⟩
  · cases hr
  obtain ⟨e', he, -⟩ | ⟨reply, hreply, hreplied⟩ := exchange_replied h2
  · cases he
  cases hreply
  have hmem : .getData .getPlaylist (some data) ∈ w.script := by
    obtain ⟨used, hs, -⟩ := hreplied.script
    rw [← hscript1, hs]
    simp
  have hobj2 : w2.objects = w.objects := hreplied.objects.trans hobj1
  rw [Proc.ite_run] at h
  split at h
  · cases h
  cases hd : data.document with
  | none =>
    rw [hd, orNull_none_bind] at h
    cases h
  | some e =>
  rw [hd, orNull_some_bind] at h
  rcases Proc.bind_eq_some h with ⟨x, hx, hr⟩ | ⟨⟨⟩, w3, h3, h⟩
  · cases hr
  obtain ⟨pl, hread, rfl⟩ := onPlaylist_cases h3
  obtain ⟨hstore, hpl, huser, hco⟩ := World.objects_eq hobj2
  rw [hpl] at hread
  refine ⟨data, e, pl, hmem, hd, hread, ?_⟩
  rw [playlist_bind] at h
  rcases Proc.bind_eq_some h with ⟨x, hx, hr⟩ | ⟨sum, w4, h4, h⟩
  · cases hr
  obtain ⟨-, rfl⟩ := Proc.ofExcept_eq_ok h4
  rw [Proc.ite_run] at h
  split at h
  · cases h
  cases h
  unfold World.objects World.put
  dsimp only
  rw [Function.update_self, Function.update_idem, hstore, hpl, huser, hco]

theorem loadedUserPlaylists_some (hc : w.container ≠ none) :
    loadedUserPlaylists w = some (.ok (), w) := by
  obtain ⟨c, hc⟩ := Option.ne_none_iff_exists'.mp hc
  unfold loadedUserPlaylists
  rw [Proc.get_bind, Proc.ite_run, hc]
  rfl

/-- The list of playlists is there, or has been loaded into a new container. -/
theorem loadedUserPlaylists_ok (h : loadedUserPlaylists w = some (.ok (), w')) :
    ((∃ c, w.container = some c) ∧ w' = w) ∨
      w.container = none ∧ ∃ reply e c, .getData .userPlaylists (some reply) ∈ w.script ∧
        reply.document = some e ∧
        PlaylistContainer.fromXMLElement w.store e .new = some (.ok (), c) ∧
        w'.objects = (w.store, w.playlists, w.userId, some { c with loaded := true }) := by
  cases hc : w.container with
  | some c =>
    rw [loadedUserPlaylists_some (by rw [hc]; nofun)] at h
    cases h
    exact Or.inl ⟨⟨c, rfl⟩, rfl⟩
  | none =>
  unfold loadedUserPlaylists at h
  rw [Proc.get_bind, Proc.ite_run, hc, if_pos Option.isNone_none] at h
  refine Or.inr ⟨rfl, ?_⟩
  unfold sendLoadUserPlaylists at h
  rcases Proc.bind_eq_some h with ⟨e, he, hr⟩ | ⟨data, w1, h1, h⟩
  · cases hr
  obtain ⟨e', he, -⟩ | ⟨reply, hreply, hreplied⟩ := exchange_replied h1
  · cases he
  cases hreply
  have hmem : .getData .userPlaylists (some data) ∈ w.script := by
    obtain ⟨used, hs, -⟩ := hreplied.script
    rw [hs]
    simp
  obtain ⟨hstore, hpl, huser, hco⟩ := World.objects_eq hreplied.objects
  rw [Proc.ite_run] at h
  split at h
  · cases h
  cases hd : data.document with
  | none =>
    rw [hd, orNull_none_bind] at h
    cases h
  | some e =>
  rw [hd, orNull_some_bind, Proc.modify_bind, Proc.get_bind, hco, hc] at h
  rcases Proc.bind_eq_some h with ⟨x, hx, hr⟩ | ⟨⟨⟩, w2, h2, h⟩
  · cases hr
  obtain ⟨hnone, -, -⟩ | ⟨c, c', hnew, hread, rfl⟩ := onContainer_cases h2
  · cases hnone
  cases hnew
  rw [Proc.ite_run] at h
  split at h
  · cases h
    refine ⟨data, e, c', hmem, hd, by rw [← hstore]; exact hread, ?_⟩
    unfold World.objects
    dsimp only
    rw [hstore, hpl, huser]
    rfl
  · cases h

/-- The container after it has been asked for. -/
theorem container_of_loaded (h : loadedUserPlaylists w = some (.ok (), w')) :
    ∃ c, w'.container = some c ∧ (w.container = none ∨ w.container = some c) := by
  obtain ⟨⟨c, hc⟩, rfl⟩ | ⟨hnone, -, -, c, -, -, -, hobj⟩ := loadedUserPlaylists_ok h
  · exact ⟨c, hc, Or.inr hc⟩
  · exact ⟨_, congrArg (fun o => o.2.2.2) hobj, Or.inl hnone⟩

theorem prepareCreatePlaylist_ok {user : Bool}
    (h : prepareCreatePlaylist p user w = some (.ok (), w')) :
    ∃ c, w'.container = some c ∧ (w.container = none ∨ w.container = some c) := by
  unfold prepareCreatePlaylist at h
  rcases Proc.bind_eq_some h with ⟨e, he, hr⟩ | ⟨⟨⟩, w1, h1, h⟩
  · cases hr
  rw [setPlaylist_bind] at h
  obtain ⟨c, hc, hbefore⟩ := container_of_loaded h
  have hco : w1.container = w.container := (World.objects_eq ((keeps_sessionUser user).same h1)).2.2.2
  exact ⟨c, hc, by rw [← hco]; exact hbefore⟩

theorem prepareRemoveTrack_ok (h : prepareRemoveTrack p w = some (.ok (), w')) :
    w'.playlists p = { w.playlists p with tracks := some ((w.playlists p).tracks.getD []) } := by
  unfold prepareRemoveTrack at h
  rcases Proc.bind_eq_some h with ⟨e, he, hr⟩ | ⟨⟨⟩, w1, h1, h⟩
  · cases hr
  rcases Proc.bind_eq_some h with ⟨e, he, hr⟩ | ⟨⟨⟩, w2, h2, h⟩
  · cases hr
  have hpl : w2.playlists = w.playlists :=
    (keeps_loadedUserPlaylists.same h2).trans
      (World.objects_eq ((keeps_checkAllowed p).same h1)).2.1
  cases h
  rw [← hpl]
  exact Function.update_self ..

variable {q : Request}

set_option synthInstance.maxSize 100000

theorem used_sendLoadPlaylist (hq : .getPlaylist ≠ q) :
    Proc.Keeps (Used (NoReply q)) (sendLoadPlaylist p) := by
  have hexchange := used_exchange hq []
  unfold sendLoadPlaylist
  infer_instance

theorem used_loadedUserPlaylists (hq : .userPlaylists ≠ q) :
    Proc.Keeps (Used (NoReply q)) loadedUserPlaylists := by
  have hexchange := used_exchange hq []
  have hnew : Local (Proc.modify fun w : World =>
      { w with container := some (w.container.getD .new) }) := ⟨Proc.Moves.modify fun _ => rfl⟩
  unfold loadedUserPlaylists sendLoadUserPlaylists
  infer_instance

theorem sent_sendLoadPlaylist : Proc.Keeps (Proc.Same World.sent) (sendLoadPlaylist p) := by
  unfold sendLoadPlaylist
  infer_instance

theorem sent_loadedUserPlaylists : Proc.Keeps (Proc.Same World.sent) loadedUserPlaylists := by
  have hnew : Local (Proc.modify fun w : World =>
      { w with container := some (w.container.getD .new) }) := ⟨Proc.Moves.modify fun _ => rfl⟩
  unfold loadedUserPlaylists sendLoadUserPlaylists
  infer_instance

/-- No change goes out before the command's own. -/
theorem Edit.sent_prepare (c : Edit) : Proc.Keeps (Proc.Same World.sent) c.prepare := by
  have hplaylist (p : Nat) := sent_sendLoadPlaylist (p := p)
  have hcontainer := sent_loadedUserPlaylists
  cases c with
  | addTrack p track position user =>
    unfold Edit.prepare prepareAddTrack
    dsimp only
    infer_instance
  | removeTrack p position =>
    unfold Edit.prepare prepareRemoveTrack
    infer_instance
  | createPlaylist p position user =>
    unfold Edit.prepare prepareCreatePlaylist
    infer_instance
  | removePlaylist p => exact hcontainer

/-- No reply that decides comes before the change. -/
theorem Edit.used_prepare (c : Edit) : Proc.Keeps (Used (NoReply c.request)) c.prepare := by
  have hplaylist (p : Nat) (h : .getPlaylist ≠ c.request) := used_sendLoadPlaylist (p := p) h
  have hcontainer (h : .userPlaylists ≠ c.request) := used_loadedUserPlaylists h
  cases c with
  | addTrack p track position user =>
    have hload := hplaylist p nofun
    have hloaded := hcontainer nofun
    unfold Edit.prepare prepareAddTrack
    dsimp only
    infer_instance
  | removeTrack p position =>
    have hloaded := hcontainer nofun
    unfold Edit.prepare prepareRemoveTrack
    infer_instance
  | createPlaylist p position user =>
    have hloaded := hcontainer nofun
    unfold Edit.prepare prepareCreatePlaylist
    infer_instance
  | removePlaylist p => exact hcontainer nofun

end Prepare

/-- An id of one digit. -/
def hexId (c : Char) : Text := List.replicate 32 c

end Despotify.Java

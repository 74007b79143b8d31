import Mathlib.Logic.Function.Basic
import Despotify.Java.Playlist

/-!
# Java: the commands of the client

`send` of every command, over the pool of connections and the local objects of
one user.  What the world outside does is a script of answers: what
`borrowObject`, `isConnected`, `sendPacket` and `getData` do, one answer for each
call, in order; a script that does not fit the calls is no run.

The replies of the browse, search and image commands are decoded after the
connection has been given back and change none of the objects below; their
commands end there.  Time stamps and the text around the numbers of a change are
left out.
-/

namespace Despotify.Java

/-! ## The world -/

/-- What a packet is for, as its description says; `session` stands for the call
of `getSession`. -/
inductive Request
  | session
  | loadTracks
  | loadAlbum
  | loadArtist
  | search
  | loadImage
  | getPlaylist
  | userPlaylists
  | addTrack
  | removeTrack
  | createPlaylist
  | reserveUUID
  | renamePlaylist
  | setCollaborative
  | removePlaylist
  | destroyPlaylist
  deriving DecidableEq, Repr

/-- What `getData` returns: its length, and the document made of it. -/
structure Reply where
  length : Nat
  document : Option XMLElement

inductive Answer
  | borrowObject (ok : Bool)
  | isConnected (r : Request) (connected : Bool)
  | sendPacket (r : Request) (ok : Bool)
  | getData (r : Request) (reply : Option Reply)

/-- The operations of a change. -/
inductive Op
  | add (i : Int) (item : Text)
  | del (i k : Int)
  | destroy
  | name (newName : Text)
  | create (name : Text)
  | pub (value : Bool)
  deriving DecidableEq, Repr

/-- A change of the playlist `target`, or of the list of playlists: its operation,
the announced version, and the revision, place and checksum ahead of it. -/
structure Change where
  target : Option Text
  op : Op
  revision : Int
  size : Int
  checksum : Option Int
  collaborative : Bool
  fromRevision : Int
  place : Int
  fromChecksum : Int
  deriving DecidableEq, Repr

/-- The store, the playlist objects, the user with his playlists, the pool, and the
answers still to come.  `sent` are the changes that went out, newest last. -/
structure World where
  store : Text → Nat
  playlists : Nat → Playlist
  userId : Text
  container : Option PlaylistContainer
  size : Nat
  borrowed : Nat
  sent : List Change
  script : List Answer

abbrev Send (α : Type) := Proc World Exn α

/-! ## Connections -/

/-- `ConnectionManager.getConnection`: `borrowObject` waits while every object is
borrowed, and may fail. -/
def getConnection : Send Unit := fun w =>
  match w.script with
  | .borrowObject true :: as =>
    if w.borrowed < w.size then some (.ok (), { w with borrowed := w.borrowed + 1, script := as })
    else none
  | .borrowObject false :: as => some (.error .despotifyException, { w with script := as })
  | _ => none

/-- `ManagedConnection.checkConnection`: a lost connection is replaced by another. -/
def checkConnection (r : Request) : Send Unit := fun w =>
  match w.script with
  | .isConnected r' connected :: as =>
    if r' ≠ r then none
    else if connected then some (.ok (), { w with script := as })
    else getConnection { w with script := as }
  | _ => none

def sendPacket (r : Request) (changes : List Change) : Send Unit := fun w =>
  match w.script with
  | .sendPacket r' ok :: as =>
    if r' ≠ r then none
    else if ok then some (.ok (), { w with sent := w.sent ++ changes, script := as })
    else some (.error .despotifyException, { w with script := as })
  | _ => none

/-- `callback.getData`. -/
def getData (r : Request) : Send Reply := fun w =>
  match w.script with
  | .getData r' reply :: as =>
    if r' ≠ r then none
    else
      match reply with
      | some reply => some (.ok reply, { w with script := as })
      | none => some (.error .timeoutException, { w with script := as })
  | _ => none

/-- `connection.close`, which returns the object to the pool. -/
def close : Send Unit := Proc.modify fun w => { w with borrowed := w.borrowed - 1 }

/-- What most commands write out: borrow, send, wait, give back. -/
def exchange (r : Request) (changes : List Change) : Send Reply := do
  getConnection
  checkConnection r
  sendPacket r changes
  let data ← getData r
  close
  pure data

/-- `if (user == null)`: the user of the session is asked for. -/
def sessionUser (given : Bool) : Send Unit := do
  if given then pure ()
  else
    getConnection
    checkConnection .session
    close

/-! ## Local objects -/

def playlist (p : Nat) : Send Playlist := do
  let w ← Proc.get
  pure (w.playlists p)

def setPlaylist (p : Nat) (f : Playlist → Playlist) : Send Unit :=
  Proc.modify fun w =>
    { w with playlists := Function.update w.playlists p (f (w.playlists p)) }

/-- `user.getPlaylists ()`, which must not be null. -/
def playlists : Send PlaylistContainer := do
  let w ← Proc.get
  orNull w.container

def setContainer (f : PlaylistContainer → PlaylistContainer) : Send Unit :=
  Proc.modify fun w => { w with container := w.container.map f }

/-- A method of a playlist. -/
def onPlaylist (p : Nat) (m : Proc Playlist Exn Unit) : Send Unit := fun w =>
  (m (w.playlists p)).map fun out =>
    (out.1, { w with playlists := Function.update w.playlists p out.2 })

/-- A method of the container. -/
def onContainer (m : Proc PlaylistContainer Exn Unit) : Send Unit := fun w =>
  match w.container with
  | none => some (.error .nullPointerException, w)
  | some c => (m c).map fun out => (out.1, { w with container := some out.2 })

/-- `buffer.put (media.getByteUUID ())` with room for `limit` bytes. -/
def putUUID (limit : Nat) (id : Text) : Send Unit := do
  let uuid ← Proc.ofExcept (toBytes id)
  if limit < uuid.length then Proc.throw .bufferOverflowException else pure ()

/-- The playlist must be collaborative or owned by the user. -/
def checkAllowed (p : Nat) : Send Unit := do
  let pl ← playlist p
  let collaborative ← orNull pl.collaborative
  if collaborative then pure ()
  else
    let author ← orNull pl.author
    let w ← Proc.get
    if author = w.userId then pure () else Proc.throw .despotifyException

/-- The playlist must be owned by the user. -/
def checkAuthor (p : Nat) : Send Unit := do
  let pl ← playlist p
  let author ← orNull pl.author
  let w ← Proc.get
  if author = w.userId then pure () else Proc.throw .runtimeException

/-! ## Browsing -/

def sendLoadTracks (ids : List Text) : Send Unit := do
  if ids.length = 0 ∨ 240 < ids.length then Proc.throw .despotifyException
  else
    let _ ← Proc.ofExcept (ids.mapM toBytes)
    let _ ← exchange .loadTracks []

def sendLoadAlbum (id : Text) : Send Unit := do
  putUUID 16 id
  let _ ← exchange .loadAlbum []

def sendLoadArtist (id : Text) : Send Unit := do
  putUUID 16 id
  let _ ← exchange .loadArtist []

def sendSearch (offset : Int) : Send Unit := do
  if offset < 0 then Proc.throw .illegalArgumentException
  else
    let _ ← exchange .search []

/-- `LoadImage` gives the connection back before it waits. -/
def sendLoadImage (id : Text) : Send Unit := do
  putUUID 20 id
  getConnection
  checkConnection .loadImage
  sendPacket .loadImage []
  close
  let _ ← getData .loadImage

/-! ## Loading playlists -/

def sendLoadPlaylist (p : Nat) : Send Unit := do
  let pl ← playlist p
  putUUID 16 pl.id
  let data ← exchange .getPlaylist []
  if data.length = 0 then Proc.throw .receivedEmptyResponseException
  else
    let playlistElement ← orNull data.document
    onPlaylist p (Playlist.fromXMLElement playlistElement)
    let pl ← playlist p
    let calculated ← Proc.ofExcept pl.calculateChecksum
    if pl.tracks ≠ none ∧ pl.checksum ≠ some calculated then Proc.throw .checksumException
    else setPlaylist p fun pl => { pl with loaded := true }

def sendLoadUserPlaylists : Send Unit := do
  let data ← exchange .userPlaylists []
  if data.length = 0 then Proc.throw .despotifyException
  else
    let playlistElement ← orNull data.document
    Proc.modify fun w => { w with container := some (w.container.getD .new) }
    let w ← Proc.get
    onContainer (PlaylistContainer.fromXMLElement w.store playlistElement)
    if playlistElement.hasChild "next-change" then setContainer fun c => { c with loaded := true }
    else Proc.throw .runtimeException

/-- `if (user.getPlaylists () == null)`. -/
def loadedUserPlaylists : Send Unit := do
  let w ← Proc.get
  if w.container.isNone then sendLoadUserPlaylists else pure ()

/-! ## Changing the tracks of a playlist -/

/-- `if (playlist.getTracks () == null)`. -/
def someTracks (p : Nat) : Send Unit :=
  setPlaylist p fun pl => { pl with tracks := some (pl.tracks.getD []) }

/-- The numbers of a `confirm`, checked against the tracks. -/
def confirmTracks (p : Nat) (response : XMLElement) : Send Unit := do
  let confirm ← orNull (response.getChild "confirm")
  let versionTagValues := splitLimit ',' 4 (← orNull (confirm.getChildText "version"))
  let revision ← number (parseLong (← part versionTagValues 0))
  setPlaylist p fun pl => { pl with revision := some revision }
  let checksum ← number (parseLong (← part versionTagValues 2))
  setPlaylist p fun pl => { pl with checksum := some checksum }
  let size ← number (parseLong (← part versionTagValues 1))
  let pl ← playlist p
  if (pl.size : Int) ≠ size then Proc.throw .runtimeException
  else
    let calculated ← Proc.ofExcept pl.calculateChecksum
    if calculated ≠ checksum then Proc.throw .checksumException
    else
      let flag ← number (parseInt (← part versionTagValues 3))
      let collaborative ← orNull pl.collaborative
      if collaborative ≠ decide (flag = 1) then Proc.throw .runtimeException else pure ()

/-- The change, announced with the tracks as they are now. -/
def tracksChange (p : Nat) (op : Nat → Op) (place : Nat → Int) (previousChecksum : Int) :
    Send Change := do
  let pl ← playlist p
  let revision ← orNull pl.revision
  let collaborative ← orNull pl.collaborative
  putUUID 16 pl.id
  pure {
    target := some pl.id
    op := op pl.size
    revision := revision + 1
    size := pl.size
    checksum := pl.checksum
    collaborative := collaborative
    fromRevision := revision
    place := place pl.size
    fromChecksum := previousChecksum }

/-- `playlist.setChecksum (playlist.calculateChecksum ())`. -/
def setChecksum (p : Nat) : Send Unit := do
  let pl ← playlist p
  let checksum ← Proc.ofExcept pl.calculateChecksum
  setPlaylist p fun pl => { pl with checksum := some checksum }

/-- What `AddTrackToPlaylist` does before it changes anything: the user and the
loads. -/
def prepareAddTrack (p : Nat) (user : Bool) : Send Unit := do
  sessionUser user
  let pl ← playlist p
  if pl.loaded then pure () else sendLoadPlaylist p
  checkAllowed p
  loadedUserPlaylists
  someTracks p

/-- The rest of `AddTrackToPlaylist`: a position must be that of the end. -/
def changeAddTrack (p : Nat) (track : Text) (position : Option Int) : Send Unit := do
  let pl ← playlist p
  let previousChecksum ← Proc.ofExcept pl.calculateChecksum
  if position ≠ none ∧ position ≠ some (pl.size : Int) then
    Proc.throw .illegalArgumentException
  else
    let position := pl.size
    setPlaylist p fun pl =>
      { pl with tracks := some ((pl.tracks.getD []).insertIdx position track) }
    setChecksum p
    let change ← tracksChange p (fun _ => .add position (track ++ ['0', '1']))
      (fun size => size - 1) previousChecksum
    let data ← exchange .addTrack [change]
    let response ← orNull data.document
    if response.hasChild "confirm" then confirmTracks p response
    else
      setPlaylist p fun pl => { pl with tracks := some ((pl.tracks.getD []).eraseIdx position) }
      Proc.throw .despotifyException

/-- `AddTrackToPlaylist.send`; `user` says whether the command was given one. -/
def sendAddTrack (p : Nat) (track : Text) (position : Option Int) (user : Bool) : Send Unit := do
  prepareAddTrack p user
  changeAddTrack p track position

/-- What `RemoveTrackFromPlaylist` does before it changes anything. -/
def prepareRemoveTrack (p : Nat) : Send Unit := do
  checkAllowed p
  loadedUserPlaylists
  someTracks p

/-- The rest of `RemoveTrackFromPlaylist`; `position` counts from 1. -/
def changeRemoveTrack (p : Nat) (position : Int) : Send Unit := do
  let pl ← playlist p
  let previousChecksum ← Proc.ofExcept pl.calculateChecksum
  let tracks := pl.tracks.getD []
  if position < 1 ∨ tracks.length < position then Proc.throw .indexOutOfBoundsException
  else
    let track := tracks.getD (position - 1).toNat []
    setPlaylist p fun pl => { pl with tracks := some (tracks.eraseIdx (position - 1).toNat) }
    setChecksum p
    let change ← tracksChange p (fun size => .del size 1) (fun _ => position) previousChecksum
    let data ← exchange .removeTrack [change]
    let response ← orNull data.document
    if response.hasChild "confirm" then confirmTracks p response
    else
      let pl ← playlist p
      if pl.size < position then Proc.throw .indexOutOfBoundsException
      else
        setPlaylist p fun pl =>
          { pl with tracks := some ((pl.tracks.getD []).insertIdx position.toNat track) }
        Proc.throw .runtimeException

def sendRemoveTrack (p : Nat) (position : Int) : Send Unit := do
  prepareRemoveTrack p
  changeRemoveTrack p position

/-! ## Changing the properties of a playlist -/

/-- What `RenamePlaylist` and `SetPlaylistCollaborative` announce. -/
def propertyChange (p : Nat) (op : Op) : Send Change := do
  let pl ← playlist p
  let revision ← orNull pl.revision
  let tracks ← orNull pl.tracks
  let collaborative ← orNull pl.collaborative
  putUUID 16 pl.id
  let checksum ← orNull pl.checksum
  pure {
    target := some pl.id
    op := op
    revision := revision + 1
    size := tracks.length
    checksum := some checksum
    collaborative := collaborative
    fromRevision := revision
    place := tracks.length
    fromChecksum := checksum }

/-- Both send the change and take over the confirmed numbers; they return false
when there is no `confirm`. -/
def changeProperty (r : Request) (p : Nat) (op : Op) : Send Bool := do
  checkAuthor p
  let change ← propertyChange p op
  let data ← exchange r [change]
  let playlistElement ← orNull data.document
  if playlistElement.hasChild "confirm" then
    let confirm ← orNull (playlistElement.getChild "confirm")
    let parts := splitLimit ',' 4 (← orNull (confirm.getChildText "version"))
    let revision ← number (parseLong (← part parts 0))
    setPlaylist p fun pl => { pl with revision := some revision }
    let checksum ← number (parseLong (← part parts 2))
    setPlaylist p fun pl => { pl with checksum := some checksum }
    let flag ← number (parseInt (← part parts 3))
    setPlaylist p fun pl => { pl with collaborative := some (flag = 1) }
    pure true
  else pure false

def sendRenamePlaylist (p : Nat) (newName : Text) : Send Bool :=
  changeProperty .renamePlaylist p (.name newName)

def sendSetPlaylistCollaborative (p : Nat) (value : Bool) : Send Bool :=
  changeProperty .setCollaborative p (.pub value)

/-! ## Creating and removing playlists -/

/-- `ReservePlaylistUUID.send`; false when there is no `confirm`. -/
def sendReservePlaylistUUID (uuid name : Text) (collaborative user : Bool) : Send Bool := do
  sessionUser user
  loadedUserPlaylists
  putUUID 16 uuid
  let data ← exchange .reserveUUID [{
    target := some uuid
    op := .create name
    revision := 1
    size := 0
    checksum := some 1
    collaborative := collaborative
    fromRevision := 0
    place := 0
    fromChecksum := -1 }]
  let responseElement ← orNull data.document
  if responseElement.hasChild "confirm" then
    let w ← Proc.get
    setPlaylist (w.store uuid) fun pl =>
      { pl with name := some name, collaborative := some collaborative }
    pure true
  else pure false

/-- `ReserveRandomPlaylistUUID.send`: at most ten of the random UUIDs are tried. -/
def sendReserveRandomPlaylistUUID (uuids : List Text) (name : Text) (collaborative user : Bool) :
    Send Text :=
  go (uuids.take 10)
where
  go : List Text → Send Text
    | [] => Proc.throw .runtimeException
    | uuid :: uuids => do
      if ← sendReservePlaylistUUID uuid name collaborative user then pure uuid else go uuids

/-- The numbers of a `confirm`, checked against the items. -/
def confirmItems (p : Nat) (response : XMLElement) : Send Unit := do
  let confirm ← orNull (response.getChild "confirm")
  let versionTagValues := splitLimit ',' 4 (← orNull (confirm.getChildText "version"))
  let revision ← number (parseLong (← part versionTagValues 0))
  setContainer fun c => { c with revision := revision }
  let checksum ← number (parseLong (← part versionTagValues 2))
  setContainer fun c => { c with checksum := checksum }
  let size ← number (parseLong (← part versionTagValues 1))
  let c ← playlists
  if (c.items.length : Int) ≠ size then Proc.throw .runtimeException
  else
    let calculated ← Proc.ofExcept c.calculateChecksum
    if calculated ≠ checksum then Proc.throw .checksumException
    else
      let flag ← number (parseInt (← part versionTagValues 3))
      let pl ← playlist p
      let collaborative ← orNull pl.collaborative
      if collaborative ≠ decide (flag = 1) then Proc.throw .runtimeException else pure ()

/-- What `CreatePlaylistWithReservedUUID` does before it changes the list. -/
def prepareCreatePlaylist (p : Nat) (user : Bool) : Send Unit := do
  sessionUser user
  setPlaylist p fun pl => { pl with collaborative := some (pl.collaborative.getD false) }
  loadedUserPlaylists

/-- The rest of it: the playlist is appended whatever the position sent.  The branch
for a child without a name is never taken. -/
def changeCreatePlaylist (p : Nat) (position : Option Int) : Send Unit := do
  let pl ← playlist p
  setContainer fun c => { c with items := c.items ++ [⟨p, pl.id⟩] }
  let c ← playlists
  let position := position.getD (c.items.length - 1 : Nat)
  let uuid ← Proc.ofExcept (toBytes pl.id)
  let checksum ← Proc.ofExcept c.calculateChecksum
  let collaborative ← orNull pl.collaborative
  let data ← exchange .createPlaylist [{
    target := none
    op := .add position (toHex uuid ++ ['0', '2'])
    revision := c.revision + 1
    size := c.items.length
    checksum := some checksum
    collaborative := collaborative
    fromRevision := c.revision
    place := position
    fromChecksum := c.checksum }]
  let response ← orNull data.document
  if response.hasChild "confirm" then
    confirmItems p response
    setPlaylist p fun pl => { pl with revision := some 1, tracks := some [], checksum := some 1 }
  else Proc.throw .runtimeException

def sendCreatePlaylistWithReservedUUID (p : Nat) (position : Option Int) (user : Bool) :
    Send Unit := do
  prepareCreatePlaylist p user
  changeCreatePlaylist p position

def sendCreatePlaylist (uuids : List Text) (name : Text) (collaborative user : Bool) :
    Send Unit := do
  sessionUser user
  let uuid ← sendReserveRandomPlaylistUUID uuids name collaborative true
  let w ← Proc.get
  let p := w.store uuid
  setPlaylist p fun pl => { pl with author := some w.userId, name := some name, id := uuid }
  sendCreatePlaylistWithReservedUUID p none true

/-- `sendDelete`; the checksum announced is the stored one. -/
def sendDelete (p position : Nat) : Send Unit := do
  checkConnection .removePlaylist
  let c ← playlists
  let pl ← playlist p
  let collaborative ← orNull pl.collaborative
  sendPacket .removePlaylist [{
    target := none
    op := .del position 1
    revision := c.revision + 1
    size := c.items.length
    checksum := some c.checksum
    collaborative := collaborative
    fromRevision := c.revision
    place := c.items.length + 1
    fromChecksum := c.checksum }]

/-- `sendDestroy`, which reads the reply as a playlist. -/
def sendDestroy (p position : Nat) : Send Unit := do
  checkConnection .destroyPlaylist
  let c ← playlists
  let pl ← playlist p
  let revision ← orNull pl.revision
  let tracks ← orNull pl.tracks
  let collaborative ← orNull pl.collaborative
  putUUID 16 pl.id
  sendPacket .destroyPlaylist [{
    target := some pl.id
    op := .destroy
    revision := revision + 1
    size := tracks.length
    checksum := pl.checksum
    collaborative := collaborative
    fromRevision := revision
    place := tracks.length
    fromChecksum := c.checksum }]
  let data ← getData .destroyPlaylist
  let response ← orNull data.document
  onPlaylist p (Playlist.fromXMLElement response)
  if response.hasChild "next-change" then pure ()
  else
    if position = 0 then Proc.throw .indexOutOfBoundsException
    else
      setContainer fun c => { c with items := c.items.insertIdx (position - 1) ⟨p, pl.id⟩ }
      Proc.throw .runtimeException

/-- The rest of `RemovePlaylistFromUser`, once the playlists are there.  Both
parts return true or throw. -/
def changeRemovePlaylist (p : Nat) : Send Unit := do
  let c ← playlists
  let pl ← playlist p
  match c.items.findIdx? fun item => item.id = pl.id with
  | none => Proc.throw .runtimeException
  | some position =>
    setContainer fun c => { c with items := c.items.eraseIdx position }
    if (c.items[position]?.map Item.ref) ≠ some p then Proc.throw .runtimeException
    else
      getConnection
      sendDelete p position
      sendDestroy p position
      close

def sendRemovePlaylistFromUser (p : Nat) : Send Unit := do
  loadedUserPlaylists
  changeRemovePlaylist p

/-! ## Commands -/

inductive Command
  | loadTracks (ids : List Text)
  | loadAlbum (id : Text)
  | loadArtist (id : Text)
  | search (offset : Int)
  | loadImage (id : Text)
  | loadPlaylist (p : Nat)
  | loadUserPlaylists
  | addTrack (p : Nat) (track : Text) (position : Option Int) (user : Bool)
  | removeTrack (p : Nat) (position : Int)
  | renamePlaylist (p : Nat) (newName : Text)
  | setPlaylistCollaborative (p : Nat) (value : Bool)
  | reservePlaylistUUID (uuid name : Text) (collaborative user : Bool)
  | reserveRandomPlaylistUUID (uuids : List Text) (name : Text) (collaborative user : Bool)
  | createPlaylistWithReservedUUID (p : Nat) (position : Option Int) (user : Bool)
  | createPlaylist (uuids : List Text) (name : Text) (collaborative user : Bool)
  | removePlaylistFromUser (p : Nat)
  deriving DecidableEq, Repr

/-- `command.send (connectionManager)`, its value left out. -/
def Command.send : Command → Send Unit
  | .loadTracks ids => sendLoadTracks ids
  | .loadAlbum id => sendLoadAlbum id
  | .loadArtist id => sendLoadArtist id
  | .search offset => sendSearch offset
  | .loadImage id => sendLoadImage id
  | .loadPlaylist p => sendLoadPlaylist p
  | .loadUserPlaylists => sendLoadUserPlaylists
  | .addTrack p track position user => sendAddTrack p track position user
  | .removeTrack p position => sendRemoveTrack p position
  | .renamePlaylist p newName => do let _ ← sendRenamePlaylist p newName
  | .setPlaylistCollaborative p value => do let _ ← sendSetPlaylistCollaborative p value
  | .reservePlaylistUUID uuid name collaborative user => do
    let _ ← sendReservePlaylistUUID uuid name collaborative user
  | .reserveRandomPlaylistUUID uuids name collaborative user => do
    let _ ← sendReserveRandomPlaylistUUID uuids name collaborative user
  | .createPlaylistWithReservedUUID p position user =>
    sendCreatePlaylistWithReservedUUID p position user
  | .createPlaylist uuids name collaborative user =>
    sendCreatePlaylist uuids name collaborative user
  | .removePlaylistFromUser p => sendRemovePlaylistFromUser p

/-- The command is sent, and the world gives these answers, no fewer and no more. -/
def Command.Sent (c : Command) (w : World) (answers : List Answer) (r : Except Exn Unit)
    (w' : World) : Prop :=
  c.send { w with script := answers } = some (r, w') ∧ w'.script = []

/-! ## What the calls do -/

theorem getConnection_cases {w w' : World} {r : Except Exn Unit}
    (h : getConnection w = some (r, w')) :
    ∃ as, (w.script = .borrowObject true :: as ∧ r = .ok () ∧ w.borrowed < w.size ∧
        w' = { w with borrowed := w.borrowed + 1, script := as }) ∨
      w.script = .borrowObject false :: as ∧ r = .error .despotifyException ∧
        w' = { w with script := as } := by
  unfold getConnection at h
  split at h
  · split at h
    · cases h
      exact ⟨_, Or.inl ⟨‹_›, rfl, ‹_›, rfl⟩⟩
    · cases h
  · cases h
    exact ⟨_, Or.inr ⟨‹_›, rfl, rfl⟩⟩
  · cases h

theorem checkConnection_cases {q : Request} {w w' : World} {r : Except Exn Unit}
    (h : checkConnection q w = some (r, w')) :
    ∃ as, (w.script = .isConnected q true :: as ∧ r = .ok () ∧ w' = { w with script := as }) ∨
      w.script = .isConnected q false :: as ∧
        getConnection { w with script := as } = some (r, w') := by
  unfold checkConnection at h
  split at h
  · rename_i q' connected as hs
    split at h
    · cases h
    · rename_i hq
      rw [not_not.mp hq] at hs
      cases connected with
      | true =>
        cases h
        exact ⟨as, Or.inl ⟨hs, rfl, rfl⟩⟩
      | false => exact ⟨as, Or.inr ⟨hs, h⟩⟩
  · cases h

theorem sendPacket_cases {q : Request} {changes : List Change} {w w' : World}
    {r : Except Exn Unit} (h : sendPacket q changes w = some (r, w')) :
    ∃ as, (w.script = .sendPacket q true :: as ∧ r = .ok () ∧
        w' = { w with sent := w.sent ++ changes, script := as }) ∨
      w.script = .sendPacket q false :: as ∧ r = .error .despotifyException ∧
        w' = { w with script := as } := by
  unfold sendPacket at h
  split at h
  · rename_i q' ok as hs
    split at h
    · cases h
    · rename_i hq
      rw [not_not.mp hq] at hs
      cases ok with
      | true =>
        cases h
        exact ⟨as, Or.inl ⟨hs, rfl, rfl⟩⟩
      | false =>
        cases h
        exact ⟨as, Or.inr ⟨hs, rfl, rfl⟩⟩
  · cases h

theorem getData_cases {q : Request} {w w' : World} {r : Except Exn Reply}
    (h : getData q w = some (r, w')) :
    ∃ as, (∃ reply, w.script = .getData q (some reply) :: as ∧ r = .ok reply ∧
        w' = { w with script := as }) ∨
      w.script = .getData q none :: as ∧ r = .error .timeoutException ∧
        w' = { w with script := as } := by
  unfold getData at h
  split at h
  · rename_i q' reply as hs
    split at h
    · cases h
    · rename_i hq
      rw [not_not.mp hq] at hs
      cases reply with
      | some reply =>
        cases h
        exact ⟨as, Or.inl ⟨reply, hs, rfl, rfl⟩⟩
      | none =>
        cases h
        exact ⟨as, Or.inr ⟨hs, rfl, rfl⟩⟩
  · cases h

theorem onPlaylist_cases {p : Nat} {m : Proc Playlist Exn Unit} {w w' : World}
    {r : Except Exn Unit} (h : onPlaylist p m w = some (r, w')) :
    ∃ pl, m (w.playlists p) = some (r, pl) ∧
      w' = { w with playlists := Function.update w.playlists p pl } := by
  obtain ⟨⟨r', pl⟩, hm, hw⟩ := Option.map_eq_some_iff.mp h
  cases hw
  exact ⟨pl, hm, rfl⟩

theorem onContainer_cases {m : Proc PlaylistContainer Exn Unit} {w w' : World}
    {r : Except Exn Unit} (h : onContainer m w = some (r, w')) :
    (w.container = none ∧ r = .error .nullPointerException ∧ w' = w) ∨
      ∃ c c', w.container = some c ∧ m c = some (r, c') ∧ w' = { w with container := some c' } := by
  unfold onContainer at h
  split at h
  · cases h
    exact Or.inl ⟨‹_›, rfl, rfl⟩
  · obtain ⟨⟨r', c'⟩, hm, hw⟩ := Option.map_eq_some_iff.mp h
    cases hw
    exact Or.inr ⟨_, c', ‹_›, hm, rfl⟩

/-! ## Reading the objects -/

section Reading

variable {α : Type}

theorem playlist_bind (p : Nat) (k : Playlist → Send α) (w : World) :
    (playlist p >>= k) w = k (w.playlists p) w := rfl

theorem playlists_bind {c : PlaylistContainer} {w : World} (hc : w.container = some c)
    (k : PlaylistContainer → Send α) : (playlists >>= k) w = k c w := by
  unfold playlists
  rw [Proc.bind_assoc, Proc.get_bind, hc, orNull_some_bind]

theorem playlists_bind_none {w : World} (hc : w.container = none)
    (k : PlaylistContainer → Send α) :
    (playlists >>= k) w = some (.error .nullPointerException, w) := by
  unfold playlists
  rw [Proc.bind_assoc, Proc.get_bind, hc, orNull_none_bind]
  rfl

/-- `putUUID 16` finds room. -/
def HasUUID (id : Text) : Prop := ∃ uuid, toBytes id = .ok uuid ∧ uuid.length ≤ 16

theorem putUUID_bind_of_has {id : Text} (h : HasUUID id) (k : Unit → Send α) :
    (putUUID 16 id >>= k) = k () := by
  obtain ⟨uuid, hid, hroom⟩ := h
  unfold putUUID
  rw [hid, Proc.ofExcept_ok, Proc.pure_bind, if_neg (by omega), Proc.pure_bind]

theorem putUUID_bind_of_not {id : Text} (h : ¬ HasUUID id) (k : Unit → Send α) :
    ∃ e, (putUUID 16 id >>= k) = Proc.throw e := by
  unfold putUUID
  cases hid : toBytes id with
  | error e => exact ⟨e, rfl⟩
  | ok uuid =>
    refine ⟨.bufferOverflowException, ?_⟩
    have hroom : 16 < uuid.length := by
      by_contra hle
      exact h ⟨uuid, hid, by omega⟩
    rw [Proc.ofExcept_ok, Proc.pure_bind, if_pos hroom, Proc.throw_bind]

end Reading

end Despotify.Java

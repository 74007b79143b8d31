import Despotify.Java.Xml
import Despotify.Pool.Proc

/-!
# Java: playlists and playlist containers

`Playlist` and `PlaylistContainer` with their checksums and `fromXMLElement`.
A track is the id it was made with.  An item of a container is a `Playlist`
object: `ref` tells objects apart, and `equals` compares ids.  The store hands
out one object for an id.
-/

namespace Despotify.Java

/-- `x.m ()` on what may be null. -/
def orNull {σ α : Type} (x : Option α) : Proc σ Exn α :=
  Proc.ofOption .nullPointerException x

/-- `parts[i]`. -/
def part {σ : Type} (parts : List Text) (i : Nat) : Proc σ Exn Text :=
  Proc.ofOption .indexOutOfBoundsException parts[i]?

/-- A number that must parse. -/
def number {σ : Type} (x : Option Int) : Proc σ Exn Int :=
  Proc.ofOption .numberFormatException x

section Reading

variable {σ α β : Type}

@[simp] theorem orNull_some_bind (a : α) (k : α → Proc σ Exn β) :
    (orNull (some a) >>= k) = k a := rfl

@[simp] theorem orNull_none_bind (k : α → Proc σ Exn β) :
    (orNull none >>= k) = Proc.throw .nullPointerException := rfl

end Reading

section Keeps

variable {σ α : Type} {R : σ → σ → Prop} [Std.Refl R]

instance keeps_orNull (x : Option α) : Proc.Keeps R (orNull x) := Proc.keeps_ofOption _ x

instance keeps_part (parts : List Text) (i : Nat) : Proc.Keeps R (part parts i) :=
  Proc.keeps_ofOption _ _

instance keeps_number (x : Option Int) : Proc.Keeps R (number x) := Proc.keeps_ofOption _ x

end Keeps

/-! ## Playlists -/

structure Playlist where
  id : Text
  author : Option Text
  name : Option Text
  tracks : Option (List Text)
  revision : Option Int
  checksum : Option Int
  collaborative : Option Bool
  loaded : Bool
  deriving DecidableEq, Repr

namespace Playlist

def calculateChecksum (p : Playlist) : Except Exn Int := calculateTracks (p.tracks.getD [])

def size (p : Playlist) : Nat := (p.tracks.getD []).length

/-- The loop over the items: the ids of the tracks, less the playlist's own id. -/
def trackItems (id : Text) : List Text → Except Exn (List Text)
  | [] => .ok []
  | item :: items =>
    let trackData := trim item
    if trackData.length ≠ 34 then
      if isHex trackData then
        if trackData ≠ id then .error .despotifyException else trackItems id items
      else .error .runtimeException
    else if trackData.drop 32 ≠ ['0', '1'] then .error .despotifyException
    else (trackItems id items).map (trackData.take 32 :: ·)

/-- The branch for an `add` operation. -/
def addTracks (add : XMLElement) : Proc Playlist Exn Unit := do
  Proc.modify fun p => { p with tracks := some (p.tracks.getD []) }
  let items ← orNull (add.getChildText "items")
  let p ← Proc.get
  let tracks ← Proc.ofExcept (trackItems p.id (split ',' items))
  Proc.modify fun p => { p with tracks := some tracks }

/-- What is read from the `version` element, and the two checks. -/
def readVersion (version : XMLElement) : Proc Playlist Exn Unit := do
  let versionTagValues := splitLimit ',' 4 version.getText
  let revision ← number (parseLong (← part versionTagValues 0))
  Proc.modify fun p => { p with revision := some revision }
  let checksum ← number (parseLong (← part versionTagValues 2))
  Proc.modify fun p => { p with checksum := some checksum }
  let collaborative ← number (parseInt (← part versionTagValues 3))
  Proc.modify fun p =>
    { p with collaborative := some (collaborative = 1), tracks := some (p.tracks.getD []) }
  let size ← number (parseLong (← part versionTagValues 1))
  let p ← Proc.get
  if (p.size : Int) ≠ size then Proc.throw .runtimeException
  else
    let calculated ← Proc.ofExcept p.calculateChecksum
    if calculated ≠ checksum then Proc.throw .checksumException else pure ()

def fromXMLElement (playlistElement : XMLElement) : Proc Playlist Exn Unit := do
  let nextChange ← orNull (playlistElement.getChild "next-change")
  let changeElement ← orNull (nextChange.getChild "change")
  Proc.modify fun p => { p with author := changeElement.getChildText "user" }
  let ops ← orNull (changeElement.getChild "ops")
  Proc.modify fun p => { p with name := ops.getChildText "name" }
  match ops.getChild "add" with
  | some add => addTracks add
  | none => pure ()
  let versionElement ← orNull (nextChange.getChild "version")
  readVersion versionElement

theorem hasChild_of_fromXMLElement {e : XMLElement} {pl pl' : Playlist}
    (h : fromXMLElement e pl = some (.ok (), pl')) : e.hasChild "next-change" = true := by
  unfold fromXMLElement at h
  unfold XMLElement.hasChild
  cases hn : e.getChild "next-change" with
  | none =>
    rw [hn, orNull_none_bind] at h
    cases h
  | some nextChange => rfl

set_option synthInstance.maxSize 100000 in
/-- The id is read and never written. -/
theorem keeps_id_fromXMLElement (e : XMLElement) :
    Proc.Keeps (Proc.Same Playlist.id) (fromXMLElement e) := by
  have hwrite (f : Playlist → Playlist) (hf : ∀ p, (f p).id = p.id) :
      Proc.Keeps (Proc.Same Playlist.id) (Proc.modify f : Proc Playlist Exn Unit) :=
    ⟨Proc.Moves.modify hf⟩
  have hauthor := fun x => hwrite (fun p => { p with author := x }) fun _ => rfl
  have hname := fun x => hwrite (fun p => { p with name := x }) fun _ => rfl
  have hempty := hwrite (fun p => { p with tracks := some (p.tracks.getD []) }) fun _ => rfl
  have htracks := fun x => hwrite (fun p => { p with tracks := some x }) fun _ => rfl
  have hrevision := fun x => hwrite (fun p => { p with revision := some x }) fun _ => rfl
  have hchecksum := fun x => hwrite (fun p => { p with checksum := some x }) fun _ => rfl
  have hflag := fun x => hwrite (fun p =>
    { p with collaborative := some x, tracks := some (p.tracks.getD []) }) fun _ => rfl
  have hadd (add : XMLElement) : Proc.Keeps (Proc.Same Playlist.id) (addTracks add) := by
    unfold addTracks
    infer_instance
  have hversion (version : XMLElement) :
      Proc.Keeps (Proc.Same Playlist.id) (readVersion version) := by
    unfold readVersion
    dsimp only
    infer_instance
  have hlast (nextChange : XMLElement) : Proc.Keeps (Proc.Same Playlist.id)
      (orNull (nextChange.getChild "version") >>= fun versionElement =>
        readVersion versionElement) := inferInstance
  unfold fromXMLElement
  refine ⟨Proc.Moves.bind (keeps_orNull _).moves fun nextChange =>
    Proc.Moves.bind (keeps_orNull _).moves fun changeElement =>
    Proc.Moves.bind (hauthor _).moves fun _ => Proc.Moves.bind (keeps_orNull _).moves fun ops =>
    Proc.Moves.bind (hname _).moves fun _ => ?_⟩
  cases ops.getChild "add" with
  | some add => exact Proc.Moves.bind (hadd add).moves fun _ => (hlast nextChange).moves
  | none => exact (hlast nextChange).moves

end Playlist

/-! ## Containers -/

structure Item where
  ref : Nat
  id : Text
  deriving DecidableEq, Repr

structure PlaylistContainer where
  id : Option Text
  items : List Item
  revision : Int
  checksum : Int
  loaded : Bool
  deriving DecidableEq, Repr

namespace PlaylistContainer

def new : PlaylistContainer := ⟨none, [], -1, -1, false⟩

def ids (c : PlaylistContainer) : List Text := c.items.map Item.id

def calculateChecksum (c : PlaylistContainer) : Except Exn Int := calculatePlaylists c.ids

/-- The id of an item of the response. -/
def playlistUUID (item : Text) : Text :=
  let uuid := trim item
  if uuid.length = 34 ∧ uuid.drop 32 = ['0', '2'] then uuid.take 32 else uuid

/-- One pass of the loop over the items; `contains` compares ids. -/
def addItem (store : Text → Nat) (items : List Item) (item : Text) : List Item :=
  let uuid := playlistUUID item
  if uuid ∈ items.map Item.id then items else items ++ [⟨store uuid, uuid⟩]

def readVersion (version : XMLElement) : Proc PlaylistContainer Exn Unit := do
  let versionTagValues := splitLimit ',' 4 version.getText
  let revision ← number (parseLong (← part versionTagValues 0))
  Proc.modify fun c => { c with revision := revision }
  let checksum ← number (parseLong (← part versionTagValues 2))
  Proc.modify fun c => { c with checksum := checksum }
  let size ← number (parseLong (← part versionTagValues 1))
  let c ← Proc.get
  if (c.items.length : Int) ≠ size then Proc.throw .runtimeException
  else
    let calculated ← Proc.ofExcept c.calculateChecksum
    if calculated ≠ checksum then Proc.throw .runtimeException else pure ()

def fromXMLElement (store : Text → Nat) (playlistsElement : XMLElement) :
    Proc PlaylistContainer Exn Unit := do
  let nextChange ← orNull (playlistsElement.getChild "next-change")
  let changeElement ← orNull (nextChange.getChild "change")
  match changeElement.getChildText "user" with
  | some user => Proc.modify fun c => { c with id := some (trim user) }
  | none => pure ()
  let ops ← orNull (changeElement.getChild "ops")
  match ops.getChild "add" with
  | some add =>
    let items ← orNull (add.getChildText "items")
    Proc.modify fun c => { c with items := (split ',' items).foldl (addItem store) c.items }
  | none => pure ()
  let versionElement ← orNull (nextChange.getChild "version")
  readVersion versionElement

end PlaylistContainer

end Despotify.Java

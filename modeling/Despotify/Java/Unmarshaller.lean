import Despotify.Java.Xml
import Despotify.Pool.Runs
import Mathlib.Logic.Function.Basic

/-!
# Java: `ResponseUnmarshaller`, a track and an album

The two methods read the children of a `<track>` and of an `<album>` in the order
of the stream.  A child is given here by its tag and its text.

The store hands out one object for each id, and a new one, whose fields are all
null, for an id it has not seen; so an object is its id, and a store is what the
fields hold for every id.  Of the fields only those the methods read again or
name an object by are kept: the artist and the album of a track, the main artist
of an album, and the names.  `none` as a result is an exception that leaves the
method.  Which name was given to what is logged.
-/

namespace Despotify.Java.ResponseUnmarshaller

open Runs

/-! ## The store -/

/-- An id as the store is asked for it: `getString` makes the empty text null. -/
abbrev Key := Option Text

/-- `getString`. -/
def getString (text : Text) : Option Text := if text = [] then none else some text

/-- What has a name. -/
inductive Media
  | artist (id : Key)
  | album (id : Key)
  deriving DecidableEq

structure Track where
  artist : Option Key
  album : Option Key
  deriving DecidableEq

/-- The links between the objects of a store. -/
structure Links where
  tracks : Key → Track
  /-- of an album -/
  mainArtist : Key → Option Key

namespace Links

def setArtist (l : Links) (t a : Key) : Links :=
  { l with tracks := Function.update l.tracks t { l.tracks t with artist := some a } }

def setAlbum (l : Links) (t b : Key) : Links :=
  { l with tracks := Function.update l.tracks t { l.tracks t with album := some b } }

def setMainArtist (l : Links) (b a : Key) : Links :=
  { l with mainArtist := Function.update l.mainArtist b (some a) }

end Links

structure Store extends Links where
  name : Media → Option Text

/-- A store without objects. -/
def Store.empty : Store := ⟨⟨fun _ => ⟨none, none⟩, fun _ => none⟩, fun _ => none⟩

def Store.setName (s : Store) (m : Media) (name : Option Text) : Store :=
  { s with name := Function.update s.name m name }

/-- The children that give a name. -/
inductive NameChild
  | artist
  | album
  | albumArtist
  | name
  deriving DecidableEq

/-- The name a child gave, and what it was given to. -/
structure Naming where
  child : NameChild
  media : Media
  name : Option Text
  deriving DecidableEq

/-! ## Children without a name -/

/-- The other children of a track and of an album. -/
inductive Other
  /-- stored in a field of the object (`title`, `year`, `files`, `cover`, …); not `accepted`:
  a number that does not parse, or an unexpected tag inside -/
  | field (accepted : Bool)
  /-- `links` and `album-links` -/
  | links (accepted : Bool)
  /-- `version`, `allowed` and `forbidden` -/
  | skipped
  | unknown
  deriving DecidableEq

/-- No exception, with `media` for the object the fields are stored in. -/
def Other.passes (media : Option Key) : Other → Bool
  | .field accepted => media.isSome && accepted
  | .links accepted => accepted
  | .skipped => true
  | .unknown => false

/-! ## `unmarshallTrack` -/

inductive TrackChild
  | id (text : Text)
  | artistId (text : Text)
  | artist (text : Text)
  | albumArtist (text : Text)
  | albumArtistId (text : Text)
  | album (text : Text)
  | albumId (text : Text)
  | redirect (text : Text)
  | other (o : Other)
  deriving DecidableEq

/-- The local variables, with the store and the names given. -/
structure TrackLoop where
  store : Store
  track : Option Key
  /-- `redirects` is not null -/
  redirects : Bool
  albumName : Option Text
  albumArtistName : Option Text
  log : List Naming

namespace TrackLoop

def start (store : Store) : TrackLoop := ⟨store, none, false, none, none, []⟩

def setName (s : TrackLoop) (child : NameChild) (m : Media) (name : Option Text) : TrackLoop :=
  { s with store := s.store.setName m name, log := s.log ++ [⟨child, m, name⟩] }

def link (s : TrackLoop) (f : Links → Links) : TrackLoop :=
  { s with store := { s.store with toLinks := f s.store.toLinks } }

/-- `track.getArtist ()`. -/
def artist (s : TrackLoop) : Option Key := s.track.bind fun t => (s.store.tracks t).artist

/-- `track.getAlbum ()`. -/
def album (s : TrackLoop) : Option Key := s.track.bind fun t => (s.store.tracks t).album

def step (s : TrackLoop) : TrackChild → Option TrackLoop
  | .id text => some { s with track := some (some text) }
  | .artistId text => s.track.map fun t => s.link fun l => l.setArtist t (getString text)
  | .artist text => s.artist.map fun a => s.setName .artist (.artist a) (getString text)
  | .albumArtist text =>
    s.album.map fun b =>
      match s.store.mainArtist b with
      | none => { s with albumArtistName := getString text }
      | some a => s.setName .albumArtist (.artist a) (getString text)
  | .albumArtistId text =>
    s.album.map fun b =>
      let linked := s.link fun l => l.setMainArtist b (getString text)
      match s.albumArtistName with
      | none => linked
      | some name =>
        { linked.setName .albumArtist (.artist (getString text)) (some name) with
          albumArtistName := none }
  | .album text =>
    s.track.map fun t =>
      match (s.store.tracks t).album with
      | none => { s with albumName := getString text }
      -- `getElementText` here, and `getString` above
      | some b => s.setName .album (.album b) (some text)
  | .albumId text =>
    s.track.map fun t =>
      let linked := s.link fun l => l.setAlbum t (getString text)
      match s.albumName with
      | none => linked
      | some name =>
        { linked.setName .album (.album (getString text)) (some name) with albumName := none }
  -- store.getTrack (…)
  | .redirect _ => some { s with redirects := true }
  | .other o => if o.passes s.track then some s else none

end TrackLoop

/-- `unmarshallTrack (fullyLoaded)`; `loaded`: the date is not null. -/
def unmarshallTrack (loaded : Bool) (store : Store) (children : List TrackChild) :
    Option TrackLoop :=
  (exec TrackLoop.step (.start store) children).bind fun s =>
    if s.track = none ∧ (s.redirects || loaded) then none else some s

/-! ## `unmarshallAlbum` -/

inductive DiscChild
  | discNumber (text : Text)
  | name (text : Text)
  | track (children : List TrackChild)
  | unknown

inductive Disc
  | disc (children : List DiscChild)
  | unknown

inductive AlbumChild
  | id (text : Text)
  | name (text : Text)
  | artistId (text : Text)
  /-- `artist` or `artist-name` -/
  | artist (text : Text)
  | discs (discs : List Disc)
  | other (o : Other)

structure AlbumLoop where
  store : Store
  album : Option Key
  albumName : Option Text
  artistName : Option Text
  /-- the names the album's own children gave -/
  log : List Naming
  /-- those of the tracks, track by track -/
  tracks : List (List Naming)

namespace AlbumLoop

def start (store : Store) : AlbumLoop := ⟨store, none, none, none, [], []⟩

def setName (s : AlbumLoop) (child : NameChild) (m : Media) (name : Option Text) : AlbumLoop :=
  { s with store := s.store.setName m name, log := s.log ++ [⟨child, m, name⟩] }

def link (s : AlbumLoop) (f : Links → Links) : AlbumLoop :=
  { s with store := { s.store with toLinks := f s.store.toLinks } }

/-- `album.getMainArtist ()`; null too where there is no album yet. -/
def mainArtist (s : AlbumLoop) : Option Key := s.album.bind s.store.mainArtist

/-- A `<track>` of a disc of album `b`. -/
def readTrack (loaded : Bool) (b : Key) (s : AlbumLoop) (children : List TrackChild) :
    Option AlbumLoop :=
  (unmarshallTrack loaded s.store children).bind fun read =>
    -- track.setDiscNumber (…)
    read.track.map fun t =>
      { s with
        store := { read.store with toLinks := read.store.toLinks.setAlbum t b }
        tracks := s.tracks ++ [read.log] }

/-- One child of a `<disc>`, with the number of the disc. -/
def discStep (loaded : Bool) (b : Key) (s : AlbumLoop × Option Int) :
    DiscChild → Option (AlbumLoop × Option Int)
  | .discNumber text => (parseInt text).map fun n => (s.1, some n)
  -- setDiscName (discNumber - 1, …)
  | .name _ => s.2.bind fun n => if 1 ≤ n then some s else none
  | .track children => (s.1.readTrack loaded b children).map fun s' => (s', s.2)
  | .unknown => none

def readDisc (loaded : Bool) (b : Key) (s : AlbumLoop) : Disc → Option AlbumLoop
  | .disc children => (exec (discStep loaded b) (s, none) children).map Prod.fst
  | .unknown => none

def step (loaded : Bool) (s : AlbumLoop) : AlbumChild → Option AlbumLoop
  | .id text =>
    let s := { s with album := some (some text) }
    match s.albumName with
    | none => some s
    | some name =>
      some { s.setName .name (.album (some text)) (some name) with albumName := none }
  | .name text =>
    match s.album with
    | none => some { s with albumName := some text }
    | some b => some (s.setName .name (.album b) (some text))
  | .artistId text =>
    s.album.map fun b =>
      let linked := s.link fun l => l.setMainArtist b (some text)
      match s.artistName with
      | none => linked
      | some name =>
        { linked.setName .artist (.artist (some text)) (some name) with artistName := none }
  | .artist text =>
    match s.mainArtist with
    | none => some { s with artistName := some text }
    | some a => some (s.setName .artist (.artist a) (some text))
  | .discs discs => s.album.bind fun b => exec (readDisc loaded b) s discs
  | .other o => if o.passes s.album then some s else none

end AlbumLoop

/-- `unmarshallAlbum (fullyLoaded)`. -/
def unmarshallAlbum (loaded : Bool) (store : Store) (children : List AlbumChild) :
    Option AlbumLoop :=
  (exec (AlbumLoop.step loaded) (.start store) children).bind fun s =>
    if s.album = none ∧ loaded then none else some s

end Despotify.Java.ResponseUnmarshaller

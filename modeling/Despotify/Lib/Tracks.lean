import Despotify.Lib.Xml
import Despotify.Pool.Spine

/-!
# Track lists

`struct ds_track` and `parse_tracks` of `lib/xml.c`.  A track list is a linked
list in memory; the list of artists of a track, which belongs to that track
alone, is part of its value.  What an uninitialised local holds is given with the
pass of the loop it is read in.

* `fillTrack`: what a `<track>` element writes into a track.
* `parseTracks`: the loop, for an ordered list (by id) and for a new one.
-/

namespace Despotify.Lib

open Gateway Linked

/-! ## Tracks -/

structure Artist where
  name : CString := []
  id : CString := []
deriving DecidableEq, Repr

/-- `struct ds_track` without its link; `popularity` is the text `atof` reads. -/
structure Track where
  hasMetaData : Bool := false
  playable : Bool := false
  trackId : CString := []
  fileId : CString := []
  fileBitrate : Nat := 0
  albumId : CString := []
  coverId : CString := []
  allowed : Option CString := none
  forbidden : Option CString := none
  title : CString := []
  artist : List Artist := []
  album : CString := []
  length : Int := 0
  tracknumber : Int := 0
  year : Int := 0
  popularity : CString := []
deriving DecidableEq, Repr

/-- What uninitialised locals hold in one pass of the loop: `tid`, and `bitrate`
by the number of the `<file>`. -/
structure Locals where
  tid : CString := []
  bitrate : Nat → UInt32 := fun _ => 0

/-! ## One track -/

/-- The loop over the artists, and over their ids as long as there are any. -/
def artistList : List Ezxml → List Ezxml → List Artist
  | [], _ => []
  | xa :: xas, [] => ⟨strncpy xa.txt 256, []⟩ :: artistList xas []
  | xa :: xas, xid :: xids => ⟨strncpy xa.txt 256, strncpy xid.txt 33⟩ :: artistList xas xids

/-- The artists of a track; without any there is a blank one. -/
def parseArtists (xas xids : List Ezxml) : List Artist :=
  if xas.isEmpty then [{}] else artistList xas xids

/-- `"Ogg Vorbis,%u,"` -/
def oggFormat : List Directive :=
  literals "Ogg" ++ [.space] ++ literals "Vorbis," ++ [.unsigned] ++ literals ","

/-- The bitrate `sscanf` leaves for a `<file>`, when it has a format and the value
returned is not 0. -/
def bitrateOf (junk : UInt32) (file : Ezxml) : Option Nat :=
  match file.getAttr "format" with
  | none => none
  | some fmt =>
    let result := scan oggFormat fmt
    if scanCount result = 0 then none
    else
      match result.1 with
      | .unsigned n :: _ => some n.toNat
      -- the format ends before the number, and the value is -1
      | _ => some junk.toNat

/-- One `<file>`. -/
def parseFile (highBitrate : Bool) (junk : UInt32) (file : Ezxml) (t : Track) : Track :=
  match bitrateOf junk file with
  | none => t
  | some bitrate =>
    if t.fileBitrate < bitrate ∧ ¬ (highBitrate ∨ t.fileBitrate = 0) then t
    else
      let t := { t with
        fileBitrate := if t.fileBitrate < bitrate then bitrate else t.fileBitrate }
      match file.getAttr "id" with
      | none => t
      | some id => { t with fileId := strncpy id 41, playable := true }

def parseFiles (highBitrate : Bool) : (Nat → UInt32) → List Ezxml → Track → Track
  | _, [], t => t
  | junk, file :: files, t =>
    parseFiles highBitrate (fun i => junk (i + 1)) files (parseFile highBitrate (junk 0) file t)

/-- One `<restriction>`. -/
def parseRestriction (t : Track) (restriction : Ezxml) : Track :=
  match restriction.getAttr "catalogues" with
  | none => t
  | some catalogues =>
    if strstr catalogues (ascii "premium") then
      { t with
        allowed := restriction.getAttr "allowed"
        forbidden := restriction.getAttr "forbidden" }
    else t

/-- What `parse_tracks` writes into `*t`. -/
def fillTrack (highBitrate : Bool) (locals : Locals) (track : Ezxml) (t : Track) : Track :=
  let t := { t with
    title := xmlstrncpy t.title 256 (some track) ["title"]
    album := xmlstrncpy t.album 256 (some track) ["album"]
    trackId := xmlstrncpy t.trackId 33 (some track) ["id"]
    coverId := xmlstrncpy t.coverId 41 (some track) ["cover"]
    albumId := xmlstrncpy t.albumId 33 (some track) ["album-id"]
    artist := parseArtists (track.children "artist") (track.children "artist-id") }
  let t := parseFiles highBitrate locals.bitrate (ezxmlGet (some track) ["files", "file"]) t
  let t := (ezxmlGet (some track) ["restrictions", "restriction"]).foldl parseRestriction t
  { t with
    year := xmlatoi t.year (some track) ["year"]
    length := xmlatoi t.length (some track) ["length"]
    tracknumber := xmlatoi t.tracknumber (some track) ["track-number"]
    popularity := match track.children "popularity" with
      | [] => t.popularity
      | r :: _ => r.txt
    hasMetaData := true }

/-! ## The list -/

/-- A track of this id that waits for its metadata. -/
def Unfilled (id : CString) (t : Track) : Prop := t.hasMetaData = false ∧ t.trackId = id

instance (id : CString) : DecidablePred (Unfilled id) := fun t =>
  inferInstanceAs (Decidable (t.hasMetaData = false ∧ t.trackId = id))

/-- The loop over the `<redirect>`s; `rid` is not terminated. -/
def findRedirect (fuel : Nat) (h : Heap Track) (root : Option Nat) :
    List Ezxml → Option (Option Nat)
  | [] => some none
  | re :: res =>
    match findNode (Unfilled (re.txt.take 33)) fuel h root with
    | none => none
    | some (some tt) => some (some tt)
    | some none => findRedirect fuel h root res

/-- `parse_tracks` between two passes. -/
structure Parse where
  mem : Mem Track
  prev : Option Nat
  t : Option Nat
  trackCount : Nat

/-- `*t` is filled in, and `t` moves on. -/
def Parse.fill (s : Parse) (highBitrate : Bool) (locals : Locals) (track : Ezxml)
    (mem : Mem Track) (t : Nat) : Option Parse :=
  match mem.heap t with
  | none => none
  | some node => some
      { mem := mem.modify t (fillTrack highBitrate locals track)
        prev := some t
        t := node.next
        trackCount := s.trackCount + 1 }

/-- The local `tid`. -/
def tid (locals : Locals) (track : Ezxml) : CString :=
  xmlstrncpy (locals.tid.take 33) 33 (some track) ["id"]

/-- One `<track>`; no value when the code reads through a bad pointer, or `fuel`
passes are not enough for a walk. -/
def parseTrack (fuel : Nat) (root : Option Nat) (ordered highBitrate : Bool) (locals : Locals)
    (track : Ezxml) (s : Parse) : Option Parse :=
  if ordered then
    let id := tid locals track
    match findNode (Unfilled id) fuel s.mem.heap root with
    | none => none
    | some (some tt) => s.fill highBitrate locals track s.mem tt
    | some none =>
      match findRedirect fuel s.mem.heap root (track.children "redirect") with
      | none => none
      | some (some tt) =>
        s.fill highBitrate locals track (s.mem.modify tt fun t => { t with trackId := id }) tt
      | some none => some s
  else
    match s.t, s.prev with
    | some t, _ => s.fill highBitrate locals track s.mem t
    | none, some prev =>
      s.fill highBitrate locals track ((s.mem.alloc {}).link prev (some s.mem.brk)) s.mem.brk
    | none, none => none

/-- `parse_tracks`, over the `<track>` elements. -/
def parseTracks (fuel : Nat) (root : Option Nat) (ordered highBitrate : Bool) :
    (Nat → Locals) → List Ezxml → Parse → Option Parse
  | _, [], s => some s
  | locals, track :: tracks, s =>
    (parseTrack fuel root ordered highBitrate (locals 0) track s).bind fun s' =>
      parseTracks fuel root ordered highBitrate (fun i => locals (i + 1)) tracks s'

/-- The `<track>` elements of a track list. -/
def tracksOf (top : Option Ezxml) : List Ezxml :=
  ezxmlGet (ezxmlGet top ["tracks"]).head? ["track"]

/-- `xml_parse_tracklist`: the memory, and the number of tracks filled in. -/
def xmlParseTracklist (fuel : Nat) (mem : Mem Track) (firsttrack : Option Nat) (top : Option Ezxml)
    (ordered highBitrate : Bool) (locals : Nat → Locals) : Option (Mem Track × Nat) :=
  (parseTracks fuel firsttrack ordered highBitrate locals (tracksOf top)
    { mem := mem, prev := none, t := firsttrack, trackCount := 0 }).map fun s =>
      (s.mem, s.trackCount)

end Despotify.Lib

import Despotify.Lib.Uri

/-!
# Links

The strings that `despotify_album_to_uri` and its siblings of `lib/despotify.c` build, and
how `despotify_link_from_uri` and `despotify_link_get_album` and so on take them apart.

`link_back`: what is built is a link of its kind, and gives back the id or the query.
-/

namespace Despotify.Lib

open Gateway

/-! ## Building -/

/-- `sprintf (dest, "<start>%s", uri)`, after `despotify_id2uri`. -/
def idUri (start : String) (id : CString) : Option CString :=
  (despotifyId2uri id).map fun uri => ascii start ++ uri

def despotifyAlbumToUri (albumId : CString) : Option CString := idUri "spotify:album:" albumId

def despotifyArtistToUri (artistId : CString) : Option CString := idUri "spotify:artist:" artistId

/-- The last two characters of the id are left out. -/
def despotifyPlaylistToUri (playlistId author : CString) : Option CString :=
  (despotifyId2uri (playlistId.take 32)).map fun uri =>
    ascii "spotify:user:" ++ (author ++ (ascii ":playlist:" ++ uri))

def despotifySearchToUri (query : CString) : CString := ascii "spotify:search:" ++ query

def despotifyTrackToUri (trackId : CString) : Option CString := idUri "spotify:track:" trackId

/-! ## Taking apart -/

inductive LinkType
  | invalid
  | album
  | artist
  | playlist
  | search
  | track
  deriving DecidableEq, Repr

/-- `struct ds_link`; `arg` points into the URI. -/
structure Link where
  uri : CString
  arg : Option CString := none
  type : LinkType := .invalid
  deriving DecidableEq, Repr

/-- `!strncmp (s, lit, n)`, for a literal of at least `n` characters. -/
def strncmpEq (s : CString) (lit : String) (n : Nat) : Bool := s.take n = (ascii lit).take n

/-- The string at `s + n`, unless that is behind the end of `s`. -/
def behind (s : CString) (n : Nat) : Option CString :=
  if n ≤ s.length then some (s.drop n) else none

/-- The id at `uri + n`, which must have 22 characters. -/
def idLink (type : LinkType) (uri : CString) (n : Nat) : Option Link :=
  (behind uri n).map fun id =>
    if id.length ≠ 22 then { uri := uri } else { uri := uri, arg := some id, type := type }

/-- `despotify_link_from_uri`; `none` when it reads behind the end of the string, or looks for
a colon that is not there. -/
def despotifyLinkFromUri (uri : CString) : Option Link :=
  if strncmpEq uri "spotify:album:" 13 then idLink .album uri 14
  else if strncmpEq uri "spotify:artist:" 14 then idLink .artist uri 15
  else if strncmpEq uri "spotify:search:" 14 then
    (behind uri 15).map fun searcharg =>
      if searcharg.length = 0 then { uri := uri }
      else { uri := uri, arg := some searcharg, type := .search }
  else if strncmpEq uri "spotify:user:" 12 then
    (behind uri 13).bind fun user =>
      if (58 : UInt8) ∈ user then idLink .playlist uri (user.idxOf 58 + 23) else none
  else if strncmpEq uri "spotify:track:" 13 then idLink .track uri 14
  else some { uri := uri }

/-- The id that `despotify_link_get_album` asks for. -/
def despotifyLinkGetAlbum (link : Link) : Option CString := link.arg.bind despotifyUri2id

def despotifyLinkGetArtist (link : Link) : Option CString := link.arg.bind despotifyUri2id

/-- `strncat (buf, "02", 2)` after the conversion. -/
def despotifyLinkGetPlaylist (link : Link) : Option CString :=
  (link.arg.bind despotifyUri2id).map fun id => id ++ ascii "02"

/-- The query of the search. -/
def despotifyLinkGetSearch (link : Link) : Option CString := link.arg

def despotifyLinkGetTrack (link : Link) : Option CString := link.arg.bind despotifyUri2id

/-! ## What is taken apart -/

/-- Only the literal in front is compared. -/
theorem strncmpEq_append {a : CString} (b : CString) {lit : String} {n : Nat} {r : Bool}
    (hn : n ≤ a.length) (hr : strncmpEq a lit n = r) : strncmpEq (a ++ b) lit n = r := by
  rw [← hr, strncmpEq, strncmpEq, List.take_append_of_le_length hn]

/-- The tenth character tells the literals apart. -/
theorem strncmpEq_other {a : CString} (b : CString) {lit : String} {n : Nat} (hn : 10 ≤ n)
    (ha : 10 ≤ a.length) (hne : a.take 10 ≠ (ascii lit).take 10) :
    strncmpEq (a ++ b) lit n = false := by
  refine decide_eq_false fun heq => hne ?_
  have htake := congrArg (List.take 10) heq
  rwa [List.take_take, List.take_take, Nat.min_eq_left hn,
    List.take_append_of_le_length ha] at htake

theorem behind_append {a : CString} (b : CString) {n : Nat} (hn : a.length = n) :
    behind (a ++ b) n = some b := by
  subst hn
  rw [behind, if_pos (by rw [List.length_append]; omega), List.drop_left]

theorem idLink_append (type : LinkType) {a id : CString} {n : Nat} (hn : a.length = n)
    (hid : id.length = 22) : idLink type (a ++ id) n = some ⟨a ++ id, some id, type⟩ := by
  rw [idLink, behind_append id hn, Option.map_some, if_neg (not_not.mpr hid)]

theorem fromUri_album {id : CString} (hid : id.length = 22) :
    despotifyLinkFromUri (ascii "spotify:album:" ++ id) =
      some ⟨ascii "spotify:album:" ++ id, some id, .album⟩ := by
  have halbum : strncmpEq (ascii "spotify:album:" ++ id) "spotify:album:" 13 = true :=
    strncmpEq_append id (by decide) (by decide)
  rw [← idLink_append .album (by decide : (ascii "spotify:album:").length = 14) hid]
  simp only [despotifyLinkFromUri, halbum, if_true]

theorem fromUri_artist {id : CString} (hid : id.length = 22) :
    despotifyLinkFromUri (ascii "spotify:artist:" ++ id) =
      some ⟨ascii "spotify:artist:" ++ id, some id, .artist⟩ := by
  have halbum : strncmpEq (ascii "spotify:artist:" ++ id) "spotify:album:" 13 = false :=
    strncmpEq_other id (by decide) (by decide) (by decide)
  have hartist : strncmpEq (ascii "spotify:artist:" ++ id) "spotify:artist:" 14 = true :=
    strncmpEq_append id (by decide) (by decide)
  rw [← idLink_append .artist (by decide : (ascii "spotify:artist:").length = 15) hid]
  simp only [despotifyLinkFromUri, halbum, hartist, if_true, Bool.false_eq_true, if_false]

theorem fromUri_search {query : CString} (hquery : query ≠ []) :
    despotifyLinkFromUri (ascii "spotify:search:" ++ query) =
      some ⟨ascii "spotify:search:" ++ query, some query, .search⟩ := by
  have halbum : strncmpEq (ascii "spotify:search:" ++ query) "spotify:album:" 13 = false :=
    strncmpEq_other query (by decide) (by decide) (by decide)
  have hartist : strncmpEq (ascii "spotify:search:" ++ query) "spotify:artist:" 14 = false :=
    strncmpEq_other query (by decide) (by decide) (by decide)
  have hsearch : strncmpEq (ascii "spotify:search:" ++ query) "spotify:search:" 14 = true :=
    strncmpEq_append query (by decide) (by decide)
  have hlen : query.length ≠ 0 := fun hlen => hquery (List.length_eq_zero_iff.mp hlen)
  have hbehind := behind_append query (by decide : (ascii "spotify:search:").length = 15)
  simp only [despotifyLinkFromUri, halbum, hartist, hsearch, hbehind, hlen, if_true,
    Bool.false_eq_true, if_false, Option.map_some]

/-- The name ends at the first colon, and between it and the id are ten characters. -/
theorem fromUri_playlist {author id : CString} (hauthor : (58 : UInt8) ∉ author)
    (hid : id.length = 22) :
    despotifyLinkFromUri (ascii "spotify:user:" ++ (author ++ (ascii ":playlist:" ++ id))) =
      some ⟨ascii "spotify:user:" ++ (author ++ (ascii ":playlist:" ++ id)), some id,
        .playlist⟩ := by
  generalize hrest : author ++ (ascii ":playlist:" ++ id) = rest
  have halbum : strncmpEq (ascii "spotify:user:" ++ rest) "spotify:album:" 13 = false :=
    strncmpEq_other rest (by decide) (by decide) (by decide)
  have hartist : strncmpEq (ascii "spotify:user:" ++ rest) "spotify:artist:" 14 = false :=
    strncmpEq_other rest (by decide) (by decide) (by decide)
  have hsearch : strncmpEq (ascii "spotify:user:" ++ rest) "spotify:search:" 14 = false :=
    strncmpEq_other rest (by decide) (by decide) (by decide)
  have huser : strncmpEq (ascii "spotify:user:" ++ rest) "spotify:user:" 12 = true :=
    strncmpEq_append rest (by decide) (by decide)
  have hbehind := behind_append rest (by decide : (ascii "spotify:user:").length = 13)
  have hcolon : (58 : UInt8) ∈ rest := by
    rw [← hrest]
    exact List.mem_append_right _ (List.mem_append_left _ (by decide))
  have hidx : rest.idxOf 58 = author.length := by
    rw [← hrest, List.idxOf_append_of_notMem hauthor]
    rfl
  have hlink : idLink .playlist (ascii "spotify:user:" ++ rest) (author.length + 23) =
      some ⟨ascii "spotify:user:" ++ rest, some id, .playlist⟩ := by
    have hsplit : ascii "spotify:user:" ++ rest =
        (ascii "spotify:user:" ++ (author ++ ascii ":playlist:")) ++ id := by
      simp only [← hrest, List.append_assoc]
    rw [hsplit]
    refine idLink_append .playlist ?_ hid
    rw [List.length_append, List.length_append, show (ascii "spotify:user:").length = 13 from rfl,
      show (ascii ":playlist:").length = 10 from rfl]
    omega
  simp only [despotifyLinkFromUri, halbum, hartist, hsearch, huser, hbehind, hcolon, hidx, hlink,
    if_true, Bool.false_eq_true, if_false, Option.bind_some]

theorem fromUri_track {id : CString} (hid : id.length = 22) :
    despotifyLinkFromUri (ascii "spotify:track:" ++ id) =
      some ⟨ascii "spotify:track:" ++ id, some id, .track⟩ := by
  have halbum : strncmpEq (ascii "spotify:track:" ++ id) "spotify:album:" 13 = false :=
    strncmpEq_other id (by decide) (by decide) (by decide)
  have hartist : strncmpEq (ascii "spotify:track:" ++ id) "spotify:artist:" 14 = false :=
    strncmpEq_other id (by decide) (by decide) (by decide)
  have hsearch : strncmpEq (ascii "spotify:track:" ++ id) "spotify:search:" 14 = false :=
    strncmpEq_other id (by decide) (by decide) (by decide)
  have huser : strncmpEq (ascii "spotify:track:" ++ id) "spotify:user:" 12 = false :=
    strncmpEq_other id (by decide) (by decide) (by decide)
  have htrack : strncmpEq (ascii "spotify:track:" ++ id) "spotify:track:" 13 = true :=
    strncmpEq_append id (by decide) (by decide)
  rw [← idLink_append .track (by decide : (ascii "spotify:track:").length = 14) hid]
  simp only [despotifyLinkFromUri, halbum, hartist, hsearch, huser, htrack, if_true,
    Bool.false_eq_true, if_false]

/-! ## Round trips -/

/-- The URI that `toUri` builds is a link of type `type`, and `get` reads its id. -/
def Links (toUri : Option CString) (type : LinkType) (get : Link → Option CString)
    (id : CString) : Prop :=
  ∃ uri link, toUri = some uri ∧ despotifyLinkFromUri uri = some link ∧ link.type = type ∧
    get link = some id

theorem links_idUri {start : String} {type : LinkType} {id : CString} (hlen : id.length = 32)
    (hid : InBase 16 id)
    (hfrom : ∀ uri : CString, uri.length = 22 →
      despotifyLinkFromUri (ascii start ++ uri) = some ⟨ascii start ++ uri, some uri, type⟩) :
    Links (idUri start id) type (fun link => link.arg.bind despotifyUri2id) id := by
  obtain ⟨uri, hto, hlen', -, -, hback⟩ := despotifyId2uri_back hlen hid
  refine ⟨_, _, ?_, hfrom uri hlen', rfl, hback⟩
  rw [idUri, hto, Option.map_some]

/-- **Links.** Albums, artists, tracks, playlists and searches come back from their URIs. -/
theorem link_back :
    (∀ id : CString, id.length = 32 → InBase 16 id →
      Links (despotifyAlbumToUri id) .album despotifyLinkGetAlbum id ∧
      Links (despotifyArtistToUri id) .artist despotifyLinkGetArtist id ∧
      Links (despotifyTrackToUri id) .track despotifyLinkGetTrack id) ∧
    (∀ id author : CString, id.length = 34 → InBase 16 (id.take 32) → id.drop 32 = ascii "02" →
      author ≠ [] → (58 : UInt8) ∉ author →
      Links (despotifyPlaylistToUri id author) .playlist despotifyLinkGetPlaylist id) ∧
    ∀ query : CString, query ≠ [] →
      Links (some (despotifySearchToUri query)) .search despotifyLinkGetSearch query := by
  refine ⟨fun id hlen hid => ⟨?_, ?_, ?_⟩, ?_, ?_⟩
  · exact links_idUri hlen hid fun _ => fromUri_album
  · exact links_idUri hlen hid fun _ => fromUri_artist
  · exact links_idUri hlen hid fun _ => fromUri_track
  · intro id author hlen hid hend _ hauthor
    have htake : (id.take 32).length = 32 := by
      rw [List.length_take]
      omega
    obtain ⟨uri, hto, hlen', -, -, hback⟩ := despotifyId2uri_back htake hid
    refine ⟨_, _, ?_, fromUri_playlist hauthor hlen', rfl, ?_⟩
    · rw [despotifyPlaylistToUri, hto, Option.map_some]
    · rw [despotifyLinkGetPlaylist, Option.bind_some, hback, Option.map_some, ← hend,
        List.take_append_drop]
  · intro query hquery
    exact ⟨_, _, rfl, fromUri_search hquery, rfl, rfl⟩

theorem link_back_sample :
    Links (despotifyAlbumToUri (ascii "00000000000000000000000000000001")) .album
      despotifyLinkGetAlbum (ascii "00000000000000000000000000000001") ∧
    Links (despotifyPlaylistToUri (ascii "0123456789abcdef0123456789abcdef02") (ascii "user"))
      .playlist despotifyLinkGetPlaylist (ascii "0123456789abcdef0123456789abcdef02") ∧
    Links (some (despotifySearchToUri (ascii "a:b"))) .search despotifyLinkGetSearch
      (ascii "a:b") :=
  ⟨(link_back.1 _ (by decide) (by decide +kernel)).1,
    link_back.2.1 _ _ (by decide) (by decide +kernel) (by decide) (by decide) (by decide),
    link_back.2.2 _ (by decide)⟩

end Despotify.Lib

import Despotify.Pool.Regex
import Despotify.Pool.Utf16

/-!
# Spotify URLs in Java

`match` and `URLtransformer` of `util/SpotifyURL.java`: a URL is taken apart by one regular
expression, and a visitor is called with the groups.

    URL accepted  →  transformed it is a URL of the other form with the same kind, user and id;
      transformed twice it is canonical; three times is once          (transform_transform)

A string is a list of 16-bit units.  A class that leaves out `:` and `/` takes both units of a
character that has two, whether they are taken one by one or together.
-/

namespace Despotify.Java.SpotifyURL

open Regex

/-! ## The code -/

/-- The units of a literal. -/
def units (s : String) : List UInt16 := Utf16.utf16 s.toList

def unit (c : Char) : UInt16 := UInt16.ofNat c.toNat

/-- `[:/]` -/
def separator (u : UInt16) : Bool := u == unit ':' || u == unit '/'

/-- `[^:/]` -/
def nameUnit (u : UInt16) : Bool := !separator u

/-- `[A-Za-z0-9]` -/
def idUnit (u : UInt16) : Bool :=
  (unit 'A' ≤ u && u ≤ unit 'Z') || (unit 'a' ≤ u && u ≤ unit 'z') ||
    (unit '0' ≤ u && u ≤ unit '9')

/-- `(user[:/]+([^:/]+)[:/]playlist)` -/
def playlistPattern : Pattern UInt16 :=
  .group 5 (.cat (.text (units "user")) (.cat (.plus separator) (.cat (.group 6 (.plus nameUnit))
    (.cat (.one separator) (.text (units "playlist"))))))

/-- `(track|album|artist|...)` -/
def kindPattern : Pattern UInt16 :=
  .group 4 (.alt (.text (units "track")) (.alt (.text (units "album"))
    (.alt (.text (units "artist")) playlistPattern)))

/-- `((http://open\.spotify\.com/)|(spotify:))` -/
def formPattern : Pattern UInt16 :=
  .group 1 (.alt (.group 2 (.text (units "http://open.spotify.com/")))
    (.group 3 (.text (units "spotify:"))))

/-- `...[:/]+([A-Za-z0-9]+)` -/
def pattern : Pattern UInt16 :=
  .cat formPattern (.cat kindPattern (.cat (.plus separator) (.group 7 (.plus idUnit))))

inductive URLtype
  | spotifyURL
  | httpURL
  deriving DecidableEq, Repr

structure Visitor (T : Type) where
  track : URLtype → List UInt16 → T
  album : URLtype → List UInt16 → T
  artist : URLtype → List UInt16 → T
  playlist : URLtype → List UInt16 → List UInt16 → T

inductive Failure
  | despotifyException (message : List UInt16)
  | runtimeException
  deriving DecidableEq, Repr

/-- `match`; groups 6 and 7 are not null where they are read. -/
def matchURL {T : Type} (URL : List UInt16) (matcher : Visitor T) : Except Failure T :=
  match fullMatch pattern URL with
  | none => .error (.despotifyException (units "Not a valid URL: " ++ URL))
  | some groups =>
    let urlType := if (groups.lookup 2).isSome then URLtype.httpURL else URLtype.spotifyURL
    let id := (groups.lookup 7).getD []
    if (groups.lookup 5).isSome then
      .ok (matcher.playlist urlType ((groups.lookup 6).getD []) id)
    else if groups.lookup 4 = some (units "track") then .ok (matcher.track urlType id)
    else if groups.lookup 4 = some (units "album") then .ok (matcher.album urlType id)
    else if groups.lookup 4 = some (units "artist") then .ok (matcher.artist urlType id)
    else .error .runtimeException

def URLtransformer : Visitor (List UInt16) where
  track type URI :=
    if type = .spotifyURL then units "http://open.spotify.com/track/" ++ URI
    else units "spotify:track:" ++ URI
  album type URI :=
    if type = .spotifyURL then units "http://open.spotify.com/album/" ++ URI
    else units "spotify:album:" ++ URI
  artist type URI :=
    if type = .spotifyURL then units "http://open.spotify.com/artist/" ++ URI
    else units "spotify:artist:" ++ URI
  playlist type user URI :=
    if type = .spotifyURL then
      units "http://open.spotify.com/user/" ++ user ++ units "/playlist/" ++ URI
    else units "spotify:user:" ++ user ++ units ":playlist:" ++ URI

/-! ## What a URL is for -/

/-- A text of a class, not empty. -/
def Word (p : UInt16 → Bool) := { w : List UInt16 // w ≠ [] ∧ ∀ u ∈ w, p u = true }

inductive Entity
  | track (id : Word idUnit)
  | album (id : Word idUnit)
  | artist (id : Word idUnit)
  | playlist (user : Word nameUnit) (id : Word idUnit)

def Entity.visit {T : Type} (v : Visitor T) (type : URLtype) : Entity → T
  | .track id => v.track type id.1
  | .album id => v.album type id.1
  | .artist id => v.artist type id.1
  | .playlist user id => v.playlist type user.1 id.1

def URLtype.other : URLtype → URLtype
  | .spotifyURL => .httpURL
  | .httpURL => .spotifyURL

/-- What is before the kind. -/
def URLtype.start : URLtype → List UInt16
  | .spotifyURL => units "spotify:"
  | .httpURL => units "http://open.spotify.com/"

/-- The separator that is usual. -/
def URLtype.mark : URLtype → UInt16
  | .spotifyURL => unit ':'
  | .httpURL => unit '/'

/-- The URL as it is usually written. -/
def canonical (type : URLtype) : Entity → List UInt16
  | .track id => type.start ++ units "track" ++ [type.mark] ++ id.1
  | .album id => type.start ++ units "album" ++ [type.mark] ++ id.1
  | .artist id => type.start ++ units "artist" ++ [type.mark] ++ id.1
  | .playlist user id =>
    type.start ++ units "user" ++ [type.mark] ++ user.1 ++ [type.mark] ++ units "playlist" ++
      [type.mark] ++ id.1

/-! ## What matches -/

/-- The fourth group. -/
inductive Kind
  | track
  | album
  | artist
  | playlist (front : Word separator) (user : Word nameUnit) (back : UInt16)
      (hback : separator back = true)

def Kind.text : Kind → List UInt16
  | .track => units "track"
  | .album => units "album"
  | .artist => units "artist"
  | .playlist front user back _ =>
    units "user" ++ (front.1 ++ (user.1 ++ ([back] ++ units "playlist")))

def Kind.groups : Kind → Groups UInt16
  | .playlist front user back hback =>
    [(5, (Kind.playlist front user back hback).text), (6, user.1)]
  | _ => []

def Kind.entity : Kind → Word idUnit → Entity
  | .track => .track
  | .album => .album
  | .artist => .artist
  | .playlist _ user _ _ => .playlist user

/-- A URL with its separators. -/
structure Url where
  type : URLtype
  kind : Kind
  between : Word separator
  id : Word idUnit

def URLtype.groups (type : URLtype) : Groups UInt16 :=
  [(1, type.start), (if type = .httpURL then 2 else 3, type.start)]

def Url.text (url : Url) : List UInt16 :=
  url.type.start ++ (url.kind.text ++ (url.between.1 ++ url.id.1))

def Url.groups (url : Url) : Groups UInt16 :=
  ([(7, url.id.1)] ++ [] ++ (4, url.kind.text) :: url.kind.groups) ++ url.type.groups

variable {w : List UInt16} {g : Groups UInt16}

theorem match_formPattern :
    Match formPattern w g ↔ ∃ type : URLtype, w = type.start ∧ g = type.groups := by
  simp only [formPattern, match_group, match_alt, match_text]
  constructor
  · rintro ⟨g', ⟨_, ⟨rfl, rfl⟩, rfl⟩ | ⟨_, ⟨rfl, rfl⟩, rfl⟩, rfl⟩
    · exact ⟨.httpURL, rfl, rfl⟩
    · exact ⟨.spotifyURL, rfl, rfl⟩
  · rintro ⟨type, rfl, rfl⟩
    cases type with
    | spotifyURL => exact ⟨_, Or.inr ⟨_, ⟨rfl, rfl⟩, rfl⟩, rfl⟩
    | httpURL => exact ⟨_, Or.inl ⟨_, ⟨rfl, rfl⟩, rfl⟩, rfl⟩

theorem match_playlistPattern : Match playlistPattern w g ↔
    ∃ front user back hback, w = (Kind.playlist front user back hback).text ∧
      g = (Kind.playlist front user back hback).groups := by
  simp only [playlistPattern, match_group, match_cat, match_text, match_plus, match_one]
  constructor
  · rintro ⟨g', ⟨w₁, w₂, g₁, g₂, ⟨rfl, rfl⟩, ⟨front, w₃, g₃, g₄, ⟨hfront, rfl⟩,
      ⟨user, w₄, g₅, g₆, ⟨_, ⟨huser, rfl⟩, rfl⟩,
        ⟨w₅, w₆, g₇, g₈, ⟨⟨back, hback, rfl⟩, rfl⟩, ⟨rfl, rfl⟩, rfl, rfl⟩, rfl, rfl⟩, rfl, rfl⟩,
      rfl, rfl⟩, rfl⟩
    exact ⟨⟨front, hfront⟩, ⟨user, huser⟩, back, hback, rfl, rfl⟩
  · rintro ⟨front, user, back, hback, rfl, rfl⟩
    exact ⟨_, ⟨_, _, _, _, ⟨rfl, rfl⟩, ⟨_, _, _, _, ⟨front.2, rfl⟩,
      ⟨_, _, _, _, ⟨_, ⟨user.2, rfl⟩, rfl⟩,
        ⟨_, _, _, _, ⟨⟨back, hback, rfl⟩, rfl⟩, ⟨rfl, rfl⟩, rfl, rfl⟩, rfl, rfl⟩, rfl, rfl⟩,
      rfl, rfl⟩, rfl⟩

theorem match_kindPattern : Match kindPattern w g ↔
    ∃ kind : Kind, w = kind.text ∧ g = (4, kind.text) :: kind.groups := by
  simp only [kindPattern, match_group, match_alt, match_text, match_playlistPattern]
  constructor
  · rintro ⟨g', ⟨rfl, rfl⟩ | ⟨rfl, rfl⟩ | ⟨rfl, rfl⟩ | ⟨front, user, back, hback, rfl, rfl⟩, rfl⟩
    · exact ⟨.track, rfl, rfl⟩
    · exact ⟨.album, rfl, rfl⟩
    · exact ⟨.artist, rfl, rfl⟩
    · exact ⟨.playlist front user back hback, rfl, rfl⟩
  · rintro ⟨kind, rfl, rfl⟩
    refine ⟨kind.groups, ?_, rfl⟩
    cases kind with
    | track => exact Or.inl ⟨rfl, rfl⟩
    | album => exact Or.inr (Or.inl ⟨rfl, rfl⟩)
    | artist => exact Or.inr (Or.inr (Or.inl ⟨rfl, rfl⟩))
    | playlist front user back hback =>
      exact Or.inr (Or.inr (Or.inr ⟨front, user, back, hback, rfl, rfl⟩))

/-- **The strings accepted**, with the groups. -/
theorem match_pattern : Match pattern w g ↔ ∃ url : Url, w = url.text ∧ g = url.groups := by
  simp only [pattern, match_cat, match_formPattern, match_kindPattern, match_plus, match_group]
  constructor
  · rintro ⟨w₁, w₂, g₁, g₂, ⟨type, rfl, rfl⟩, ⟨w₃, w₄, g₃, g₄, ⟨kind, rfl, rfl⟩,
      ⟨between, id, g₅, g₆, ⟨hbetween, rfl⟩, ⟨_, ⟨hid, rfl⟩, rfl⟩, rfl, rfl⟩, rfl, rfl⟩, rfl, rfl⟩
    exact ⟨⟨type, kind, ⟨between, hbetween⟩, ⟨id, hid⟩⟩, rfl, rfl⟩
  · rintro ⟨url, rfl, rfl⟩
    exact ⟨_, _, _, _, ⟨url.type, rfl, rfl⟩, ⟨_, _, _, _, ⟨url.kind, rfl, rfl⟩,
      ⟨_, _, _, _, ⟨url.between.2, rfl⟩, ⟨_, ⟨url.id.2, rfl⟩, rfl⟩, rfl, rfl⟩, rfl, rfl⟩, rfl, rfl⟩

/-! ## In one way -/

theorem separator_of_idUnit {u : UInt16} (h : idUnit u = true) : separator u = false := by
  rw [Bool.eq_false_iff]
  intro hsep
  rcases Bool.or_eq_true_iff.mp hsep with hu | hu
  · rw [eq_of_beq hu] at h
    exact absurd h (by decide)
  · rw [eq_of_beq hu] at h
    exact absurd h (by decide)

theorem separator_of_nameUnit {u : UInt16} (h : nameUnit u = true) : separator u = false := by
  rwa [nameUnit, Bool.not_eq_true'] at h

theorem nameUnit_of_separator {u : UInt16} (h : separator u = true) : nameUnit u = false := by
  rw [nameUnit, h]
  rfl

/-- A word of another class ends a class. -/
theorem takeWhile_word {p q : UInt16 → Bool} (word : Word q) (rest : List UInt16)
    (h : ∀ {u}, q u = true → p u = false) : (word.1 ++ rest).takeWhile p = [] := by
  obtain ⟨w, hne, hall⟩ := word
  cases w with
  | nil => exact absurd rfl hne
  | cons u w =>
    have hu := h (hall u List.mem_cons_self)
    rw [List.cons_append, List.takeWhile_cons_of_neg (by rw [hu]; decide)]

/-- Texts that differ at the front. -/
theorem take_units {s : String} {n : Nat} (h : n ≤ (units s).length) (rest : List UInt16) :
    (units s ++ rest).take n = (units s).take n :=
  List.take_append_of_le_length h

theorem start_append_inj {type type' : URLtype} {rest rest' : List UInt16}
    (h : type.start ++ rest = type'.start ++ rest') : type = type' ∧ rest = rest' := by
  have hfirst := congrArg (List.take 1) h
  cases type <;> cases type' <;>
    simp only [URLtype.start] at h hfirst <;>
    rw [take_units (by decide), take_units (by decide)] at hfirst
  · exact ⟨rfl, List.append_cancel_left h⟩
  · exact absurd hfirst (by decide)
  · exact absurd hfirst (by decide)
  · exact ⟨rfl, List.append_cancel_left h⟩

/-- The first two letters of a kind. -/
def Kind.tag : Kind → List UInt16
  | .track => units "tr"
  | .album => units "al"
  | .artist => units "ar"
  | .playlist .. => units "us"

theorem Kind.take_text (kind : Kind) (rest : List UInt16) :
    (kind.text ++ rest).take 2 = kind.tag := by
  cases kind with
  | track => exact (take_units (by decide) rest).trans (by decide)
  | album => exact (take_units (by decide) rest).trans (by decide)
  | artist => exact (take_units (by decide) rest).trans (by decide)
  | playlist front user back hback =>
    rw [Kind.text, List.append_assoc, Kind.tag]
    exact (take_units (by decide) _).trans (by decide)

theorem Kind.text_append_inj {kind kind' : Kind} {between between' : Word separator}
    {rest rest' : List UInt16}
    (h : kind.text ++ (between.1 ++ rest) = kind'.text ++ (between'.1 ++ rest')) :
    kind = kind' ∧ between.1 ++ rest = between'.1 ++ rest' := by
  have htag := congrArg (List.take 2) h
  rw [Kind.take_text, Kind.take_text] at htag
  cases kind with
  | track =>
    cases kind' with
    | track => exact ⟨rfl, List.append_cancel_left h⟩
    | _ => exact absurd htag (by simp only [Kind.tag]; decide)
  | album =>
    cases kind' with
    | album => exact ⟨rfl, List.append_cancel_left h⟩
    | _ => exact absurd htag (by simp only [Kind.tag]; decide)
  | artist =>
    cases kind' with
    | artist => exact ⟨rfl, List.append_cancel_left h⟩
    | _ => exact absurd htag (by simp only [Kind.tag]; decide)
  | playlist front user back hback =>
    cases kind' with
    | playlist front' user' back' hback' =>
      simp only [Kind.text, List.append_assoc] at h
      have hend : ∀ (user : Word nameUnit) (rest : List UInt16),
          (user.1 ++ rest).takeWhile separator = [] :=
        fun user rest => takeWhile_word user rest separator_of_nameUnit
      have hname : ∀ {u : UInt16} (rest : List UInt16), separator u = true →
          ([u] ++ rest).takeWhile nameUnit = [] := by
        intro u rest hu
        rw [List.singleton_append,
          List.takeWhile_cons_of_neg (by rw [nameUnit_of_separator hu]; decide)]
      obtain ⟨hfront, h₁⟩ := append_inj_of_class front.2.2 front'.2.2 (hend _ _) (hend _ _)
        (List.append_cancel_left h)
      obtain ⟨huser, h₂⟩ :=
        append_inj_of_class user.2.2 user'.2.2 (hname _ hback) (hname _ hback') h₁
      obtain ⟨rfl, h₃⟩ := List.cons.inj h₂
      have hrest : units "playlist" ++ _ = units "playlist" ++ _ := h₃
      obtain rfl := Subtype.ext hfront
      obtain rfl := Subtype.ext huser
      exact ⟨rfl, List.append_cancel_left hrest⟩
    | _ => exact absurd htag (by simp only [Kind.tag]; decide)

/-- **One way** to match. -/
theorem Url.text_injective {url url' : Url} (h : url.text = url'.text) : url = url' := by
  obtain ⟨type, kind, between, id⟩ := url
  obtain ⟨type', kind', between', id'⟩ := url'
  obtain ⟨rfl, h⟩ := start_append_inj h
  obtain ⟨rfl, h⟩ := Kind.text_append_inj h
  have hend : ∀ id : Word idUnit, id.1.takeWhile separator = [] := by
    intro id
    have hword := takeWhile_word (p := separator) id [] separator_of_idUnit
    rwa [List.append_nil] at hword
  obtain ⟨hbetween, hid⟩ := append_inj_of_class between.2.2 between'.2.2 (hend id) (hend id') h
  obtain rfl := Subtype.ext hbetween
  obtain rfl := Subtype.ext hid
  rfl

theorem fullMatch_text (url : Url) : fullMatch pattern url.text = some url.groups := by
  refine fullMatch_eq_some (match_pattern.mpr ⟨url, rfl, rfl⟩) fun g' h => ?_
  obtain ⟨url', htext, rfl⟩ := match_pattern.mp h
  rw [Url.text_injective htext]

/-- The visitor is called with what the URL is for. -/
theorem matchURL_text {T : Type} (url : Url) (v : Visitor T) :
    matchURL url.text v = .ok ((url.kind.entity url.id).visit v url.type) := by
  rw [matchURL, fullMatch_text]
  obtain ⟨type, kind, between, id⟩ := url
  cases kind with
  | track => cases type <;> rfl
  | album => cases type <;> rfl
  | artist => cases type <;> rfl
  | playlist front user back hback => cases type <;> rfl

/-! ## Transformed -/

theorem URLtype.separator_mark (type : URLtype) : separator type.mark = true := by
  cases type <;> rfl

theorem URLtype.other_other (type : URLtype) : type.other.other = type := by
  cases type <;> rfl

def URLtype.word (type : URLtype) : Word separator :=
  ⟨[type.mark], List.cons_ne_nil _ _, fun u hu => by
    rw [List.mem_singleton.mp hu]
    exact type.separator_mark⟩

def Entity.kind (type : URLtype) : Entity → Kind
  | .track _ => .track
  | .album _ => .album
  | .artist _ => .artist
  | .playlist user _ => .playlist type.word user type.mark type.separator_mark

def Entity.id : Entity → Word idUnit
  | .track id => id
  | .album id => id
  | .artist id => id
  | .playlist _ id => id

/-- What is usually written is accepted. -/
theorem canonical_eq (type : URLtype) (entity : Entity) :
    canonical type entity = (Url.mk type (entity.kind type) type.word entity.id).text := by
  cases entity <;> simp [canonical, Url.text, Entity.kind, Entity.id, Kind.text, URLtype.word]

theorem matchURL_canonical {T : Type} (type : URLtype) (entity : Entity) (v : Visitor T) :
    matchURL (canonical type entity) v = .ok (entity.visit v type) := by
  rw [canonical_eq, matchURL_text]
  cases entity <;> rfl

theorem fullMatch_canonical (type : URLtype) (entity : Entity) :
    (fullMatch pattern (canonical type entity)).isSome = true := by
  rw [canonical_eq, fullMatch_text]
  rfl

/-- The transformer writes the other form. -/
theorem visit_URLtransformer (type : URLtype) (entity : Entity) :
    entity.visit URLtransformer type = canonical type.other entity := by
  cases type with
  | spotifyURL =>
    cases entity with
    | track id => exact congrArg (· ++ id.1) (by decide)
    | album id => exact congrArg (· ++ id.1) (by decide)
    | artist id => exact congrArg (· ++ id.1) (by decide)
    | playlist user id =>
      have hfront : units "http://open.spotify.com/user/" =
          units "http://open.spotify.com/" ++ units "user" ++ [unit '/'] := by decide
      have hback : units "/playlist/" = [unit '/'] ++ units "playlist" ++ [unit '/'] := by decide
      show units _ ++ _ ++ units _ ++ _ = _
      rw [hfront, hback]
      simp only [canonical, URLtype.other, URLtype.start, URLtype.mark, List.append_assoc]
  | httpURL =>
    cases entity with
    | track id => exact congrArg (· ++ id.1) (by decide)
    | album id => exact congrArg (· ++ id.1) (by decide)
    | artist id => exact congrArg (· ++ id.1) (by decide)
    | playlist user id =>
      have hfront : units "spotify:user:" = units "spotify:" ++ units "user" ++ [unit ':'] := by
        decide
      have hback : units ":playlist:" = [unit ':'] ++ units "playlist" ++ [unit ':'] := by decide
      show units _ ++ _ ++ units _ ++ _ = _
      rw [hfront, hback]
      simp only [canonical, URLtype.other, URLtype.start, URLtype.mark, List.append_assoc]

theorem transform_canonical (type : URLtype) (entity : Entity) :
    matchURL (canonical type entity) URLtransformer = .ok (canonical type.other entity) := by
  rw [matchURL_canonical, visit_URLtransformer]

/-- **Transformed once, twice and three times.** -/
theorem transform_transform {URL : List UInt16} (h : (fullMatch pattern URL).isSome = true) :
    ∃ (type : URLtype) (entity : Entity) (t u : List UInt16),
      (∀ (T : Type) (v : Visitor T), matchURL URL v = .ok (entity.visit v type)) ∧
      matchURL URL URLtransformer = .ok t ∧ (fullMatch pattern t).isSome = true ∧
      (∀ (T : Type) (v : Visitor T), matchURL t v = .ok (entity.visit v type.other)) ∧
      matchURL t URLtransformer = .ok u ∧ u = canonical type entity ∧
      ((∃ type entity, URL = canonical type entity) → u = URL) ∧
      matchURL u URLtransformer = .ok t := by
  obtain ⟨g, hg⟩ := isSome_fullMatch.mp h
  obtain ⟨url, rfl, -⟩ := match_pattern.mp hg
  refine ⟨url.type, url.kind.entity url.id, canonical url.type.other (url.kind.entity url.id),
    canonical url.type (url.kind.entity url.id), fun T v => matchURL_text url v, ?_,
    fullMatch_canonical _ _, fun T v => matchURL_canonical _ _ v, ?_, rfl, ?_,
    transform_canonical _ _⟩
  · rw [matchURL_text, visit_URLtransformer]
  · rw [transform_canonical, URLtype.other_other]
  · rintro ⟨type, entity, heq⟩
    rw [canonical_eq] at heq
    obtain rfl := Url.text_injective heq
    rw [canonical_eq]
    cases entity <;> rfl

/-- A playlist with more separators than usual. -/
theorem transform_transform_playlist :
    matchURL (units "spotify:user://kent.finell/playlist::123") URLtransformer =
        .ok (units "http://open.spotify.com/user/kent.finell/playlist/123") ∧
      ∃ t u, matchURL (units "spotify:user://kent.finell/playlist::123") URLtransformer = .ok t ∧
        matchURL t URLtransformer = .ok u ∧ matchURL u URLtransformer = .ok t := by
  refine ⟨by decide +kernel, ?_⟩
  obtain ⟨-, -, t, u, -, ht, -, -, hu, -, -, htu⟩ :=
    transform_transform
      (show (fullMatch pattern (units "spotify:user://kent.finell/playlist::123")).isSome = true by
        decide +kernel)
  exact ⟨t, u, ht, hu, htu⟩

end Despotify.Java.SpotifyURL

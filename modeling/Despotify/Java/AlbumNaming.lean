import Despotify.Java.Naming

/-!
# Java: the names an album gives

The same for `unmarshallAlbum`, whose discs hold tracks that are read by
`unmarshallTrack`, each with the links the ones before it have left.

    a.Right loaded store ↔ a.Fits store.toLinks ∧ Agree a.element.given
                                                         (AlbumInOrder.right_iff)
-/

namespace Despotify.Java.ResponseUnmarshaller

open Runs Attribution

/-! ## Elements -/

/-- A `<disc>`: its number, its name and its tracks. -/
structure DiscElement where
  number : Text
  name : Option Text
  tracks : List TrackInOrder

def DiscElement.disc (d : DiscElement) : Disc :=
  .disc (.discNumber d.number :: ((d.name.map .name).toList ++
    d.tracks.map fun t => .track t.text))

/-- `setDiscName` takes a number from 1 on. -/
def DiscElement.Fits (d : DiscElement) : Prop :=
  ∃ n, parseInt d.number = some n ∧ (d.name.isSome → 1 ≤ n)

/-- An `<album>`: each child at most once. -/
structure AlbumElement where
  id : Text
  name : Option Text
  artistId : Option Text
  artist : Option Text
  discs : Option (List DiscElement)
  others : List Other

namespace AlbumElement

variable (e : AlbumElement)

/-- The children but the id. -/
def children : List AlbumChild :=
  (e.name.map .name).toList ++ (e.artistId.map .artistId).toList ++
    (e.artist.map .artist).toList ++
    (e.discs.map fun ds => .discs (ds.map DiscElement.disc)).toList ++ e.others.map .other

/-- The tracks of the discs, in order. -/
def tracks : List TrackInOrder := (e.discs.getD []).flatMap DiscElement.tracks

/-- What the ids in the element say a name is the name of. -/
def key : NameChild → Option Media
  | .name => some (.album (some e.id))
  | .artist => e.artistId.map fun id => .artist (some id)
  | _ => none

/-- The names in the element. -/
def nameOf : NameChild → Option (Option Text)
  | .name => e.name.map some
  | .artist => e.artist.map some
  | _ => none

def givenBy (child : NameChild) : Option (Media × Option Text) :=
  (e.key child).bind fun m => (e.nameOf child).map (m, ·)

/-- The names the album's own children give. -/
def own : List Naming := namings [.name, .artist] e.givenBy

/-- The names the element gives, those of its tracks among them. -/
def given : List Naming := e.own ++ e.tracks.flatMap fun t => t.element.given

theorem named_own (child : NameChild) : named e.own child = (e.givenBy child).toList := by
  rw [own, named_namings (by decide)]
  cases child <;> rfl

end AlbumElement

/-- An `<album>` as it is read: the id first, and the other children in some order. -/
structure AlbumInOrder where
  element : AlbumElement
  rest : List AlbumChild
  perm : rest.Perm element.children

def AlbumInOrder.text (a : AlbumInOrder) : List AlbumChild := .id a.element.id :: a.rest

/-! ## The loop of `unmarshallAlbum` -/

namespace AlbumChild

def gives : AlbumChild → Option (NameChild × Option Text × Option (Option Text))
  | .name text => some (.name, some text, some (some text))
  | .artist text => some (.artist, some text, some (some text))
  | _ => none

def keys : AlbumChild → Option (NameChild × Media)
  | .id text => some (.name, .album (some text))
  | .artistId text => some (.artist, .artist (some text))
  | _ => none

theorem kept_eq {c : AlbumChild} {child : NameChild} {name : Option Text}
    {keep : Option (Option Text)} (h : c.gives = some (child, name, keep)) :
    keep = none ∨ keep = some name := by
  cases c with
  | name text | artist text =>
    cases h
    exact Or.inr rfl
  | _ => cases h

end AlbumChild

/-- What a name is given to, with the links of album `b`. -/
def Links.targetAlbum (l : Links) (b : Key) : NameChild → Option Media
  | .name => some (.album b)
  | .artist => (l.mainArtist b).map .artist
  | _ => none

namespace AlbumLoop

def kept (s : AlbumLoop) : NameChild → Option (Option Text)
  | .name => s.albumName.map some
  | .artist => s.artistName.map some
  | _ => none

def target (s : AlbumLoop) (child : NameChild) : Option Media :=
  s.album.bind fun b => s.store.targetAlbum b child

variable {loaded : Bool} {b : Key} {s s' : AlbumLoop} {c : AlbumChild}

/-- The tracks of a disc leave the album's own variables alone, and set names of their own. -/
structure Beside (s s' : AlbumLoop) : Prop where
  log : s'.log = s.log
  album : s'.album = s.album
  albumName : s'.albumName = s.albumName
  artistName : s'.artistName = s.artistName
  told : ∃ logs, s'.tracks = s.tracks ++ logs ∧
    Told (fun n => ∃ log ∈ logs, n ∈ log) s.store s'.store

theorem Beside.refl (s : AlbumLoop) : Beside s s := by
  refine ⟨rfl, rfl, rfl, rfl, [], (List.append_nil _).symm, ?_⟩
  refine (told_of_eq rfl).congr fun n => ⟨fun hn => ?_, ?_⟩
  · cases hn
  · rintro ⟨log, hlog, -⟩
    cases hlog

theorem Beside.trans {t : AlbumLoop} (h : Beside s t) (h' : Beside t s') : Beside s s' := by
  obtain ⟨logs, htracks, htold⟩ := h.told
  obtain ⟨logs', htracks', htold'⟩ := h'.told
  refine ⟨h'.log.trans h.log, h'.album.trans h.album, h'.albumName.trans h.albumName,
    h'.artistName.trans h.artistName, logs ++ logs', ?_, ?_⟩
  · rw [htracks', htracks, List.append_assoc]
  · refine (htold.trans htold').congr fun n => ?_
    simp only [List.mem_append, or_and_right, exists_or]

theorem readTrack_beside {children : List TrackChild}
    (h : s.readTrack loaded b children = some s') : Beside s s' := by
  obtain ⟨read, hread, h⟩ := Option.bind_eq_some_iff.mp h
  obtain ⟨t, -, rfl⟩ := Option.map_eq_some_iff.mp h
  refine ⟨rfl, rfl, rfl, rfl, [read.log], rfl, ?_⟩
  obtain ⟨last, hlast, h⟩ := Option.bind_eq_some_iff.mp hread
  split at h
  · cases h
  · cases h
    obtain ⟨ns, hlog, htold⟩ := TrackLoop.exec_told hlast
    have hlog : read.log = ns := hlog
    rw [hlog]
    have htold : Told (· ∈ ns) s.store { read.store with toLinks := read.store.toLinks.setAlbum t b } :=
      htold
    refine htold.congr fun n => ?_
    simp only [List.mem_singleton, exists_eq_left]

theorem readDisc_beside {disc : Disc} (h : s.readDisc loaded b disc = some s') : Beside s s' := by
  cases disc with
  | unknown => cases h
  | disc children =>
    obtain ⟨⟨t, number⟩, ht, rfl⟩ := Option.map_eq_some_iff.mp h
    have hstep : ∀ (x : AlbumLoop × Option Int) child x', Beside s x.1 →
        discStep loaded b x child = some x' → Beside s x'.1 := by
      rintro ⟨t, number⟩ child ⟨t', number'⟩ hbeside hstep
      cases child with
      | discNumber text =>
        obtain ⟨n, -, heq⟩ := Option.map_eq_some_iff.mp hstep
        cases heq
        exact hbeside
      | name text =>
        obtain ⟨n, -, hif⟩ := Option.bind_eq_some_iff.mp hstep
        split at hif
        · cases hif
          exact hbeside
        · cases hif
      | track children =>
        obtain ⟨t'', hread, heq⟩ := Option.map_eq_some_iff.mp hstep
        cases heq
        exact hbeside.trans (readTrack_beside hread)
      | unknown => cases hstep
    exact exec_inv hstep (Beside.refl s) ht

theorem readDiscs_beside {discs : List Disc} (h : exec (readDisc loaded b) s discs = some s') :
    Beside s s' := by
  have hstep : ∀ t disc t', Beside s t → readDisc loaded b t disc = some t' → Beside s t' :=
    fun _ _ _ hbeside hdisc => hbeside.trans (readDisc_beside hdisc)
  exact exec_inv hstep (Beside.refl s) h

theorem step_quiet {child : NameChild} (h : s.step loaded c = some s')
    (hgives : ∀ x, c.gives ≠ some (child, x))
    (hkept : s.kept child = none ∨ ∀ m, c.keys ≠ some (child, m)) :
    named s'.log child = named s.log child ∧ s'.kept child = s.kept child := by
  cases c with
  | id text =>
    simp only [step] at h
    split at h
    · cases h
      exact ⟨rfl, by cases child <;> rfl⟩
    · rename_i name hname
      cases h
      have hne : NameChild.name ≠ child := ne_of_quiet (by rw [kept, hname]; rfl) rfl hkept
      refine ⟨named_push_of_ne hne _ _ _, ?_⟩
      cases child with
      | name => exact absurd rfl hne
      | artist | album | albumArtist => rfl
  | name text =>
    have hne : NameChild.name ≠ child := fun heq => hgives _ (by rw [← heq]; rfl)
    simp only [step] at h
    split at h
    · cases h
      refine ⟨rfl, ?_⟩
      cases child with
      | name => exact absurd rfl hne
      | artist | album | albumArtist => rfl
    · cases h
      exact ⟨named_push_of_ne hne _ _ _, by cases child <;> rfl⟩
  | artistId text =>
    obtain ⟨b, -, rfl⟩ := Option.map_eq_some_iff.mp h
    dsimp only
    split
    · exact ⟨rfl, by cases child <;> rfl⟩
    · rename_i name hname
      have hne : NameChild.artist ≠ child := ne_of_quiet (by rw [kept, hname]; rfl) rfl hkept
      refine ⟨named_push_of_ne hne _ _ _, ?_⟩
      cases child with
      | artist => exact absurd rfl hne
      | name | album | albumArtist => rfl
  | artist text =>
    have hne : NameChild.artist ≠ child := fun heq => hgives _ (by rw [← heq]; rfl)
    simp only [step] at h
    split at h
    · cases h
      refine ⟨rfl, ?_⟩
      cases child with
      | artist => exact absurd rfl hne
      | name | album | albumArtist => rfl
    · cases h
      exact ⟨named_push_of_ne hne _ _ _, by cases child <;> rfl⟩
  | discs discs =>
    obtain ⟨b, -, h⟩ := Option.bind_eq_some_iff.mp h
    have hbeside := readDiscs_beside h
    refine ⟨by rw [hbeside.log], ?_⟩
    cases child with
    | name => exact congrArg (Option.map some) hbeside.albumName
    | artist => exact congrArg (Option.map some) hbeside.artistName
    | album | albumArtist => rfl
  | other o =>
    simp only [step] at h
    split at h
    · cases h
      exact ⟨rfl, rfl⟩
    · cases h

theorem step_flush {child : NameChild} {m : Media} {name : Option Text}
    (h : s.step loaded c = some s') (hkeys : c.keys = some (child, m))
    (hkept : s.kept child = some name) :
    named s'.log child = named s.log child ++ [(m, name)] ∧ s'.kept child = none := by
  cases c with
  | id text =>
    cases hkeys
    obtain ⟨name, hname, rfl⟩ := Option.map_eq_some_iff.mp hkept
    simp only [step, hname] at h
    cases h
    exact ⟨named_push_self _ _ _ _, rfl⟩
  | artistId text =>
    cases hkeys
    obtain ⟨b, -, rfl⟩ := Option.map_eq_some_iff.mp h
    obtain ⟨name, hname, rfl⟩ := Option.map_eq_some_iff.mp hkept
    dsimp only
    rw [hname]
    exact ⟨named_push_self _ _ _ _, rfl⟩
  | _ => cases hkeys

theorem step_found {child : NameChild} {m : Media} {name : Option Text} {keep : Option (Option Text)}
    (h : s.step loaded c = some s') (hgives : c.gives = some (child, name, keep))
    (htarget : s.target child = some m) :
    named s'.log child = named s.log child ++ [(m, name)] ∧ s'.kept child = s.kept child := by
  obtain ⟨b, hb, htarget⟩ := Option.bind_eq_some_iff.mp htarget
  cases c with
  | name text =>
    cases hgives
    cases htarget
    simp only [step, hb] at h
    cases h
    exact ⟨named_push_self _ _ _ _, rfl⟩
  | artist text =>
    cases hgives
    obtain ⟨a, ha, rfl⟩ := Option.map_eq_some_iff.mp htarget
    have hmain : s.mainArtist = some a := by
      rw [mainArtist, hb]
      exact ha
    simp only [step, hmain] at h
    cases h
    exact ⟨named_push_self _ _ _ _, rfl⟩
  | _ => cases hgives

theorem step_missed {child : NameChild} {name : Option Text} {keep : Option (Option Text)}
    (h : s.step loaded c = some s') (hgives : c.gives = some (child, name, keep))
    (htarget : s.target child = none) :
    named s'.log child = named s.log child ∧ s'.kept child = keep := by
  cases c with
  | name text =>
    cases hgives
    cases hb : s.album with
    | none =>
      simp only [step, hb] at h
      cases h
      exact ⟨rfl, rfl⟩
    | some b =>
      rw [target, hb] at htarget
      cases htarget
  | artist text =>
    cases hgives
    have hmain : s.mainArtist = none := by
      cases hb : s.album with
      | none =>
        rw [mainArtist, hb]
        rfl
      | some b =>
        rw [target, hb] at htarget
        rw [mainArtist, hb]
        exact Option.map_eq_none_iff.mp htarget
    simp only [step, hmain] at h
    cases h
    exact ⟨rfl, rfl⟩
  | _ => cases hgives

end AlbumLoop

def albumNames (loaded : Bool) : Loop AlbumLoop AlbumChild NameChild Media (Option Text) where
  step := AlbumLoop.step loaded
  attached s := named s.log
  kept := AlbumLoop.kept
  target := AlbumLoop.target
  gives := AlbumChild.gives
  keys := AlbumChild.keys
  kept_eq := AlbumChild.kept_eq
  quiet := AlbumLoop.step_quiet
  flush := AlbumLoop.step_flush
  found := AlbumLoop.step_found
  missed := AlbumLoop.step_missed

/-! ## The discs -/

/-- The links an album's track sets. -/
def TrackInOrder.relink (b : Key) (l : Links) (t : TrackInOrder) : Links :=
  (t.rest.foldl (TrackChild.relink (some t.element.id)) l).setAlbum (some t.element.id) b

/-- The names of every track are given to exactly what the ids in it say. -/
def TracksAttach (logs : List (List Naming)) (ts : List TrackInOrder) : Prop :=
  List.Forall₂ (fun log t => log.Perm t.element.given) logs ts

namespace AlbumLoop

variable {loaded : Bool} {b : Key} {s s' : AlbumLoop}

theorem readTrack_text {t : TrackInOrder} (h : s.readTrack loaded b t.text = some s') :
    s'.store.toLinks = t.relink b s.store.toLinks ∧ ∃ log, s'.tracks = s.tracks ++ [log] ∧
      (log.Perm t.element.given ↔ t.Fits s.store.toLinks) := by
  obtain ⟨read, hread, h⟩ := Option.bind_eq_some_iff.mp h
  obtain ⟨k, hk, rfl⟩ := Option.map_eq_some_iff.mp h
  have hrun := hread
  rw [t.unmarshallTrack_text] at hrun
  obtain ⟨htrack, hlinks, -⟩ := TrackLoop.exec_links hrun rfl (TrackElement.isId_of_mem t.perm)
  cases hk.symm.trans htrack
  refine ⟨congrArg (fun l : Links => l.setAlbum _ b) hlinks, read.log, rfl, ?_⟩
  rw [← t.attaches_iff loaded s.store]
  constructor
  · intro hperm
    exact ⟨read, hread, hperm⟩
  · rintro ⟨read', hread', hperm⟩
    cases hread.symm.trans hread'
    exact hperm

theorem exists_readTrack {t : TrackInOrder} (h : t.Fits s.store.toLinks) :
    ∃ s', s.readTrack loaded b t.text = some s' := by
  obtain ⟨read, hread, -⟩ := (t.attaches_iff loaded s.store).mpr h
  have hrun := hread
  rw [t.unmarshallTrack_text] at hrun
  obtain ⟨htrack, -⟩ := TrackLoop.exec_links hrun rfl (TrackElement.isId_of_mem t.perm)
  exact ⟨_, Option.bind_eq_some_iff.mpr ⟨read, hread, Option.map_eq_some_iff.mpr ⟨_, htrack, rfl⟩⟩⟩

/-- The tracks of an album, one after another. -/
def readTracks (loaded : Bool) (b : Key) : AlbumLoop → List TrackInOrder → Option AlbumLoop :=
  exec fun s t => s.readTrack loaded b t.text

theorem readTracks_spec {ts : List TrackInOrder} (h : readTracks loaded b s ts = some s') :
    s'.store.toLinks = ts.foldl (fun l t => t.relink b l) s.store.toLinks ∧
      ∃ logs, s'.tracks = s.tracks ++ logs ∧ (TracksAttach logs ts ↔
        Along (fun l t => t.relink b l) (fun l t _ => t.Fits l) s.store.toLinks ts) := by
  induction ts generalizing s with
  | nil =>
    cases h
    refine ⟨rfl, [], (List.append_nil _).symm, iff_of_true .nil (along_nil _ _ _)⟩
  | cons t ts ih =>
    obtain ⟨u, hu, hrest⟩ := exec_cons_eq_some.mp h
    obtain ⟨hlinks, log, htracks, hiff⟩ := readTrack_text hu
    obtain ⟨hlinks', logs, htracks', hiff'⟩ := ih hrest
    rw [hlinks] at hlinks' hiff'
    refine ⟨hlinks', log :: logs, ?_, ?_⟩
    · rw [htracks', htracks, List.append_assoc, List.singleton_append]
    · rw [TracksAttach, List.forall₂_cons, along_cons]
      exact and_congr hiff hiff'

theorem exists_readTracks {ts : List TrackInOrder}
    (h : Along (fun l t => t.relink b l) (fun l t _ => t.Fits l) s.store.toLinks ts) :
    ∃ s', readTracks loaded b s ts = some s' := by
  induction ts generalizing s with
  | nil => exact ⟨s, rfl⟩
  | cons t ts ih =>
    obtain ⟨hfits, halong⟩ := along_cons.mp h
    obtain ⟨u, hu⟩ := exists_readTrack hfits
    obtain ⟨hlinks, -⟩ := readTrack_text hu
    rw [← hlinks] at halong
    obtain ⟨s', hs'⟩ := ih halong
    exact ⟨s', exec_cons_eq_some.mpr ⟨u, hu, hs'⟩⟩

theorem exec_discStep_tracks (n : Option Int) (ts : List TrackInOrder) :
    exec (discStep loaded b) (s, n) (ts.map fun t => .track t.text) =
      (readTracks loaded b s ts).map fun s' => (s', n) := by
  induction ts generalizing s with
  | nil => rfl
  | cons t ts ih =>
    rw [List.map_cons, exec_cons, readTracks, exec_cons, discStep]
    cases s.readTrack loaded b t.text with
    | none => rfl
    | some u => exact ih

theorem readDisc_eq_some {d : DiscElement} :
    s.readDisc loaded b d.disc = some s' ↔ d.Fits ∧ readTracks loaded b s d.tracks = some s' := by
  have hread : s.readDisc loaded b d.disc = (parseInt d.number).bind fun n =>
      if d.name.isSome → 1 ≤ n then readTracks loaded b s d.tracks else none := by
    rw [DiscElement.disc, readDisc, exec_cons, discStep]
    cases parseInt d.number with
    | none => rfl
    | some n =>
      rw [Option.map_some, Option.bind_some, Option.bind_some, exec_append]
      have hrest : ((exec (discStep loaded b) (s, some n) (d.tracks.map fun t => .track t.text)).map
          Prod.fst) = readTracks loaded b s d.tracks := by
        rw [exec_discStep_tracks, Option.map_map]
        exact Option.map_id'
      cases d.name with
      | none =>
        rw [if_pos (by simp)]
        exact hrest
      | some name =>
        by_cases hn : 1 ≤ n
        · rw [if_pos fun _ => hn]
          have hname : exec (discStep loaded b) (s, some n) ((some name).map DiscChild.name).toList =
              some (s, some n) := by
            show ((some n).bind fun n => if 1 ≤ n then some (s, some n) else none).bind _ = _
            simp [hn]
          rw [hname]
          exact hrest
        · rw [if_neg fun h => hn (h rfl)]
          have hname : exec (discStep loaded b) (s, some n) ((some name).map DiscChild.name).toList =
              none := by
            show ((some n).bind fun n => if 1 ≤ n then some (s, some n) else none).bind _ = _
            simp [hn]
          rw [hname]
          rfl
  rw [hread, Option.bind_eq_some_iff]
  constructor
  · rintro ⟨n, hn, hif⟩
    split at hif
    · rename_i hname
      exact ⟨⟨n, hn, hname⟩, hif⟩
    · cases hif
  · rintro ⟨⟨n, hn, hname⟩, htracks⟩
    exact ⟨n, hn, by rw [if_pos hname]; exact htracks⟩

theorem readDiscs_eq_some {ds : List DiscElement} :
    exec (readDisc loaded b) s (ds.map DiscElement.disc) = some s' ↔
      (∀ d ∈ ds, d.Fits) ∧ readTracks loaded b s (ds.flatMap DiscElement.tracks) = some s' := by
  induction ds generalizing s with
  | nil => simp [readTracks]
  | cons d ds ih =>
    rw [List.map_cons, exec_cons_eq_some, List.flatMap_cons, List.forall_mem_cons, readTracks,
      exec_append, Option.bind_eq_some_iff]
    constructor
    · rintro ⟨u, hu, hrest⟩
      obtain ⟨hd, htracks⟩ := readDisc_eq_some.mp hu
      obtain ⟨hds, hrest⟩ := ih.mp hrest
      exact ⟨⟨hd, hds⟩, u, htracks, hrest⟩
    · rintro ⟨⟨hd, hds⟩, u, htracks, hrest⟩
      exact ⟨u, readDisc_eq_some.mpr ⟨hd, htracks⟩, ih.mpr ⟨hds, hrest⟩⟩

end AlbumLoop

/-! ## When the names of an album reach what they name -/

namespace AlbumElement

variable (e : AlbumElement)

def isDiscs : AlbumChild → Bool
  | .discs _ => true
  | _ => false

/-- The links a child of the album sets. -/
def relink (l : Links) : AlbumChild → Links
  | .artistId text => l.setMainArtist (some e.id) (some text)
  | .discs _ => e.tracks.foldl (fun l t => t.relink (some e.id) l) l
  | _ => l

/-- The numbers and the other values of the child are accepted. -/
def Reads : AlbumChild → Prop
  | .discs _ => ∀ d ∈ e.discs.getD [], d.Fits
  | .other o => o.passes (some (some e.id)) = true
  | _ => True

/-- Every track of the album fits, with the links the ids before it have set. -/
def TracksFit (l : Links) : Prop :=
  Along (fun l t => t.relink (some e.id) l) (fun l (t : TrackInOrder) _ => t.Fits l) l e.tracks

/-- Condition on one child: `l` are the links when it is read, `later` the children to come. -/
def Fits (l : Links) (c : AlbumChild) (later : List AlbumChild) : Prop :=
  e.Reads c ∧ (isDiscs c = true → e.TracksFit l) ∧
    Loop.Settled AlbumChild.gives AlbumChild.keys e.key (l.targetAlbum (some e.id)) c later

end AlbumElement

namespace AlbumInOrder

/-- Every child of the album fits, with the links the ids before it have set. -/
def Fits (l : Links) (a : AlbumInOrder) : Prop := Along a.element.relink a.element.Fits l a.rest

/-- `unmarshallAlbum` gives the names in the album and in each of its tracks to exactly what
the ids in that element say, leaves those names, and every other one as it was. -/
def Right (loaded : Bool) (store : Store) (a : AlbumInOrder) : Prop :=
  ∃ s, unmarshallAlbum loaded store a.text = some s ∧ s.log.Perm a.element.own ∧
    TracksAttach s.tracks a.element.tracks ∧ Names a.element.given store s.store

end AlbumInOrder

namespace AlbumLoop

variable {loaded : Bool} {s s' : AlbumLoop} {c : AlbumChild} {e : AlbumElement}
  {cs : List AlbumChild}

theorem discs_of_mem {ds : List Disc} (h : AlbumChild.discs ds ∈ e.children) :
    ∃ es, e.discs = some es ∧ ds = es.map DiscElement.disc := by
  have hdiscs := by simpa [AlbumElement.children] using h
  obtain ⟨es, hes, heq⟩ := hdiscs
  exact ⟨es, hes, heq.symm⟩

theorem step_links (h : s.step loaded c = some s') (hb : s.album = some (some e.id))
    (hmem : c ∈ e.children) :
    s'.album = some (some e.id) ∧ s'.store.toLinks = e.relink s.store.toLinks c ∧ e.Reads c ∧
      (AlbumElement.isDiscs c = false → s'.tracks = s.tracks) ∧
      (AlbumElement.isDiscs c = true → ∃ logs, s'.tracks = s.tracks ++ logs ∧
        (TracksAttach logs e.tracks ↔ e.TracksFit s.store.toLinks)) := by
  cases c with
  | id text => simp [AlbumElement.children] at hmem
  | name text =>
    simp only [step, hb] at h
    cases h
    exact ⟨hb, rfl, trivial, fun _ => rfl, fun hno => absurd hno Bool.false_ne_true⟩
  | artistId text =>
    obtain ⟨b, hb', rfl⟩ := Option.map_eq_some_iff.mp h
    cases hb.symm.trans hb'
    dsimp only
    refine ⟨?_, ?_, trivial, fun _ => ?_, fun hno => absurd hno Bool.false_ne_true⟩
    · split <;> exact hb
    · split <;> rfl
    · split <;> rfl
  | artist text =>
    simp only [step] at h
    split at h
    · cases h
      exact ⟨hb, rfl, trivial, fun _ => rfl, fun hno => absurd hno Bool.false_ne_true⟩
    · cases h
      exact ⟨hb, rfl, trivial, fun _ => rfl, fun hno => absurd hno Bool.false_ne_true⟩
  | discs ds =>
    obtain ⟨b, hb', h⟩ := Option.bind_eq_some_iff.mp h
    cases hb.symm.trans hb'
    obtain ⟨es, hes, rfl⟩ := discs_of_mem hmem
    have htracks : e.tracks = es.flatMap DiscElement.tracks := by
      rw [AlbumElement.tracks, hes]
      rfl
    obtain ⟨hfits, hread⟩ := readDiscs_eq_some.mp h
    obtain ⟨hlinks, hlogs⟩ := readTracks_spec hread
    rw [← htracks] at hlinks hlogs
    refine ⟨(readDiscs_beside h).album.trans hb, hlinks, ?_,
      fun hno => absurd hno.symm Bool.false_ne_true, fun _ => hlogs⟩
    intro d hd
    rw [hes] at hd
    exact hfits d hd
  | other o =>
    simp only [step, hb] at h
    split at h
    · rename_i hpasses
      cases h
      exact ⟨hb, rfl, hpasses, fun _ => rfl, fun hno => absurd hno Bool.false_ne_true⟩
    · cases h

theorem exists_step (hb : s.album = some (some e.id)) (hmem : c ∈ e.children)
    (hreads : e.Reads c) (htracks : AlbumElement.isDiscs c = true → e.TracksFit s.store.toLinks) :
    ∃ s', s.step loaded c = some s' := by
  cases c with
  | id text => simp [AlbumElement.children] at hmem
  | name text =>
    refine ⟨s.setName .name (.album (some e.id)) (some text), ?_⟩
    simp only [step, hb]
  | artistId text => exact ⟨_, Option.map_eq_some_iff.mpr ⟨_, hb, rfl⟩⟩
  | artist text =>
    simp only [step]
    split <;> exact ⟨_, rfl⟩
  | discs ds =>
    obtain ⟨es, hes, rfl⟩ := discs_of_mem hmem
    have hall := htracks rfl
    have heq : e.tracks = es.flatMap DiscElement.tracks := by
      rw [AlbumElement.tracks, hes]
      rfl
    obtain ⟨s', hs'⟩ : ∃ s', readTracks loaded (some e.id) s e.tracks = some s' :=
      exists_readTracks hall
    rw [heq] at hs'
    have hfits : ∀ d ∈ es, d.Fits := by
      intro d hd
      refine hreads d ?_
      rw [hes]
      exact hd
    exact ⟨s', Option.bind_eq_some_iff.mpr ⟨_, hb, readDiscs_eq_some.mpr ⟨hfits, hs'⟩⟩⟩
  | other o =>
    have hpasses : o.passes (some (some e.id)) = true := hreads
    refine ⟨s, ?_⟩
    simp only [step, hb]
    exact if_pos hpasses

theorem exec_links (h : exec (step loaded) s cs = some s') (hb : s.album = some (some e.id))
    (hmem : ∀ c ∈ cs, c ∈ e.children) :
    s'.album = some (some e.id) ∧ s'.store.toLinks = cs.foldl e.relink s.store.toLinks ∧
      Along e.relink (fun _ c _ => e.Reads c) s.store.toLinks cs := by
  induction cs generalizing s with
  | nil =>
    cases h
    exact ⟨hb, rfl, along_nil _ _ _⟩
  | cons c cs ih =>
    obtain ⟨hc, hcs⟩ := List.forall_mem_cons.mp hmem
    obtain ⟨t, hs, ht⟩ := exec_cons_eq_some.mp h
    obtain ⟨hb', hlinks, hreads, -⟩ := step_links hs hb hc
    obtain ⟨hend, hfold, halong⟩ := ih ht hb' hcs
    rw [hlinks] at hfold halong
    exact ⟨hend, hfold, along_cons.mpr ⟨hreads, halong⟩⟩

theorem exists_exec (hb : s.album = some (some e.id)) (hmem : ∀ c ∈ cs, c ∈ e.children)
    (h : Along e.relink (fun l c _ => e.Reads c ∧ (AlbumElement.isDiscs c = true → e.TracksFit l))
      s.store.toLinks cs) : ∃ s', exec (step loaded) s cs = some s' := by
  induction cs generalizing s with
  | nil => exact ⟨s, rfl⟩
  | cons c cs ih =>
    obtain ⟨hc, hcs⟩ := List.forall_mem_cons.mp hmem
    obtain ⟨⟨hreads, htracks⟩, halong⟩ := along_cons.mp h
    obtain ⟨t, hs⟩ : ∃ t, s.step loaded c = some t := exists_step hb hc hreads htracks
    obtain ⟨hb', hlinks, -⟩ := step_links hs hb hc
    rw [← hlinks] at halong
    obtain ⟨s', ht⟩ := ih hb' hcs halong
    exact ⟨s', exec_cons_eq_some.mpr ⟨t, hs, ht⟩⟩

theorem exec_tracks (h : exec (step loaded) s cs = some s') (hb : s.album = some (some e.id))
    (hmem : ∀ c ∈ cs, c ∈ e.children) (hno : ∀ c ∈ cs, AlbumElement.isDiscs c = false) :
    s'.tracks = s.tracks := by
  induction cs generalizing s with
  | nil =>
    cases h
    rfl
  | cons c cs ih =>
    obtain ⟨hc, hcs⟩ := List.forall_mem_cons.mp hmem
    obtain ⟨hnoc, hnocs⟩ := List.forall_mem_cons.mp hno
    obtain ⟨t, hs, ht⟩ := exec_cons_eq_some.mp h
    obtain ⟨hb', -, -, htracks, -⟩ := step_links hs hb hc
    exact (ih ht hb' hcs hnocs).trans (htracks hnoc)

end AlbumLoop

namespace AlbumElement

variable {e : AlbumElement} {cs : List AlbumChild}

theorem countP_isDiscs (e : AlbumElement) : e.children.countP isDiscs ≤ 1 := by
  have hlength : ∀ o : Option (List DiscElement), o.toList.length ≤ 1 := by
    intro o
    cases o <;> simp
  simp [children, List.countP_append, List.countP_map, Function.comp_def, isDiscs,
    Option.toList_map, hlength]

theorem countP_children (e : AlbumElement) (loaded : Bool) (child : NameChild) :
    e.children.countP (fun c => ((albumNames loaded).gives c).map Prod.fst = some child) ≤ 1 := by
  have hlength : ∀ o : Option Text, o.toList.length ≤ 1 := by
    intro o
    cases o <;> simp
  cases child <;> simp [children, List.countP_append, List.countP_map, Function.comp_def, albumNames,
    AlbumChild.gives, Option.toList_map, hlength]

theorem key_of_mem {c : AlbumChild} {child : NameChild} {m : Media} (hc : c ∈ e.children)
    (hkeys : c.keys = some (child, m)) : e.key child = some m := by
  cases c with
  | id text => simp [children] at hc
  | artistId text =>
    have htext := by simpa [children] using hc
    cases hkeys
    simp only [key, htext, Option.map_some]
  | _ => cases hkeys

theorem nameOf_of_mem {c : AlbumChild} {child : NameChild} {name : Option Text}
    {keep : Option (Option Text)} (hc : c ∈ e.children)
    (hgives : c.gives = some (child, name, keep)) : e.nameOf child = some name := by
  cases c with
  | name text | artist text =>
    have htext := by simpa [children] using hc
    cases hgives
    simp only [nameOf, htext, Option.map_some]
  | _ => cases hgives

theorem exists_gives {child : NameChild} {name : Option Text} (h : e.nameOf child = some name) :
    ∃ c ∈ e.children, ∃ keep, c.gives = some (child, name, keep) := by
  cases child with
  | name =>
    obtain ⟨text, htext, rfl⟩ := Option.map_eq_some_iff.mp h
    exact ⟨.name text, by simp [children, htext], _, rfl⟩
  | artist =>
    obtain ⟨text, htext, rfl⟩ := Option.map_eq_some_iff.mp h
    exact ⟨.artist text, by simp [children, htext], _, rfl⟩
  | album | albumArtist => cases h

theorem loop_given (loaded : Bool) (hperm : cs.Perm e.children) :
    (albumNames loaded).Given cs e.key fun child => (e.givenBy child).toList :=
  Loop.given_of_perm hperm (e.countP_children loaded) (fun _ hc _ _ => key_of_mem hc)
    (fun _ hc _ _ _ => nameOf_of_mem hc) fun _ _ => exists_gives

end AlbumElement

namespace AlbumLoop

variable {loaded : Bool} {s s' : AlbumLoop} {c : AlbumChild} {cs : List AlbumChild}

/-- The names the album and its tracks have set. -/
def Grown (s s' : AlbumLoop) : Prop :=
  ∃ ns logs, s'.log = s.log ++ ns ∧ s'.tracks = s.tracks ++ logs ∧
    Told (fun n => n ∈ ns ∨ ∃ log ∈ logs, n ∈ log) s.store s'.store

theorem Grown.of_own {ns : List Naming} (hlog : s'.log = s.log ++ ns) (htracks : s'.tracks = s.tracks)
    (h : Told (· ∈ ns) s.store s'.store) : Grown s s' := by
  refine ⟨ns, [], hlog, htracks.trans (List.append_nil _).symm, h.congr fun n => ?_⟩
  simp

theorem Grown.of_same (hlog : s'.log = s.log) (htracks : s'.tracks = s.tracks)
    (hname : s'.store.name = s.store.name) : Grown s s' :=
  .of_own (hlog.trans (List.append_nil _).symm) htracks (told_of_eq hname)

theorem Grown.trans {t : AlbumLoop} (h : Grown s t) (h' : Grown t s') : Grown s s' := by
  obtain ⟨ns, logs, hlog, htracks, htold⟩ := h
  obtain ⟨ns', logs', hlog', htracks', htold'⟩ := h'
  refine ⟨ns ++ ns', logs ++ logs', ?_, ?_, (htold.trans htold').congr fun n => ?_⟩
  · rw [hlog', hlog, List.append_assoc]
  · rw [htracks', htracks, List.append_assoc]
  · simp only [List.mem_append, or_and_right, exists_or]
    exact or_or_or_comm

theorem step_grown (h : s.step loaded c = some s') : Grown s s' := by
  cases c with
  | id text =>
    simp only [step] at h
    split at h
    · cases h
      exact .of_same rfl rfl rfl
    · cases h
      exact .of_own rfl rfl (told_of_update rfl)
  | name text =>
    simp only [step] at h
    split at h
    · cases h
      exact .of_same rfl rfl rfl
    · cases h
      exact .of_own rfl rfl (told_of_update rfl)
  | artistId text =>
    obtain ⟨b, -, rfl⟩ := Option.map_eq_some_iff.mp h
    dsimp only
    split
    · exact .of_same rfl rfl rfl
    · exact .of_own rfl rfl (told_of_update rfl)
  | artist text =>
    simp only [step] at h
    split at h
    · cases h
      exact .of_same rfl rfl rfl
    · cases h
      exact .of_own rfl rfl (told_of_update rfl)
  | discs ds =>
    obtain ⟨b, -, h⟩ := Option.bind_eq_some_iff.mp h
    have hbeside := readDiscs_beside h
    obtain ⟨logs, htracks, htold⟩ := hbeside.told
    refine ⟨[], logs, hbeside.log.trans (List.append_nil _).symm, htracks, htold.congr fun n => ?_⟩
    simp
  | other o =>
    simp only [step] at h
    split at h
    · cases h
      exact .of_same rfl rfl rfl
    · cases h

theorem exec_grown (h : exec (step loaded) s cs = some s') : Grown s s' := by
  have hstep : ∀ t c t', Grown s t → t.step loaded c = some t' → Grown s t' :=
    fun _ _ _ hgrown hs => hgrown.trans (step_grown hs)
  exact exec_inv hstep (.of_same rfl rfl rfl) h

end AlbumLoop

namespace AlbumInOrder

variable (a : AlbumInOrder) (loaded : Bool) (store : Store)

/-- The loop behind the id. -/
def enter : AlbumLoop := { AlbumLoop.start store with album := some (some a.element.id) }

theorem mem_children : ∀ c ∈ a.rest, c ∈ a.element.children := fun _ hc => a.perm.mem_iff.mp hc

theorem unmarshallAlbum_text :
    unmarshallAlbum loaded store a.text = exec (AlbumLoop.step loaded) (a.enter store) a.rest := by
  have hrun : exec (AlbumLoop.step loaded) (.start store) a.text =
      exec (AlbumLoop.step loaded) (a.enter store) a.rest := rfl
  rw [unmarshallAlbum, hrun]
  cases h : exec (AlbumLoop.step loaded) (a.enter store) a.rest with
  | none => rfl
  | some s =>
    obtain ⟨halbum, -⟩ := AlbumLoop.exec_links h rfl a.mem_children
    rw [Option.bind_some, halbum]
    exact if_neg fun hno => Option.some_ne_none _ hno.1

variable {a loaded store} {s : AlbumLoop}

/-- The album's own names. -/
theorem own_iff (h : exec (AlbumLoop.step loaded) (a.enter store) a.rest = some s) :
    s.log.Perm a.element.own ↔ Along a.element.relink
      (fun l => Loop.Settled AlbumChild.gives AlbumChild.keys a.element.key
        (l.targetAlbum (some a.element.id))) store.toLinks a.rest := by
  have htarget : ∀ before later s₁, a.rest = before ++ later →
      exec (AlbumLoop.step loaded) (a.enter store) before = some s₁ → s₁.target =
        (before.foldl a.element.relink store.toLinks).targetAlbum (some a.element.id) := by
    intro before later s₁ hrest hbefore
    have hmem : ∀ c ∈ before, c ∈ a.element.children := by
      intro c hc
      refine a.mem_children c ?_
      rw [hrest]
      exact List.mem_append_left _ hc
    obtain ⟨halbum, hlinks, -⟩ := AlbumLoop.exec_links hbefore rfl hmem
    have hlinks : s₁.store.toLinks = before.foldl _ store.toLinks := hlinks
    funext child
    rw [← hlinks, AlbumLoop.target, halbum]
    rfl
  have hstart : ∀ child, (albumNames loaded).attached (a.enter store) child = [] ∧
      (albumNames loaded).kept (a.enter store) child = none := by
    intro child
    cases child <;> exact ⟨rfl, rfl⟩
  refine Iff.trans ?_ ((AlbumElement.loop_given loaded a.perm).attached_iff_along a.element.relink
    (fun l => Links.targetAlbum l _) h hstart htarget)
  rw [perm_iff_named]
  refine forall_congr' fun child => ?_
  rw [a.element.named_own]
  exact perm_toList

/-- The names of its tracks. -/
theorem tracks_iff (h : exec (AlbumLoop.step loaded) (a.enter store) a.rest = some s) :
    TracksAttach s.tracks a.element.tracks ↔ Along a.element.relink
      (fun l c _ => AlbumElement.isDiscs c = true → a.element.TracksFit l) store.toLinks a.rest := by
  cases hdiscs : a.element.discs with
  | none =>
    have hno : ∀ c ∈ a.rest, AlbumElement.isDiscs c = false := by
      intro c hc
      cases c with
      | discs ds =>
        obtain ⟨es, hes, -⟩ := AlbumLoop.discs_of_mem (a.mem_children _ hc)
        cases hdiscs.symm.trans hes
      | _ => rfl
    have htracks : s.tracks = [] := AlbumLoop.exec_tracks h rfl a.mem_children hno
    have hnone : a.element.tracks = [] := by
      rw [AlbumElement.tracks, hdiscs]
      rfl
    rw [htracks, hnone]
    refine iff_of_true .nil fun before c later hrest htrue => ?_
    have hfalse := hno c (by rw [hrest]; exact List.mem_append_right _ List.mem_cons_self)
    exact absurd (hfalse.symm.trans htrue) Bool.false_ne_true
  | some ds =>
    have hmem : AlbumChild.discs (ds.map DiscElement.disc) ∈ a.rest := by
      rw [a.perm.mem_iff]
      simp [AlbumElement.children, hdiscs]
    obtain ⟨before, later, hrest⟩ := List.append_of_mem hmem
    have hbeforeMem : ∀ c ∈ before, c ∈ a.element.children := by
      intro c hc
      refine a.mem_children c ?_
      rw [hrest]
      exact List.mem_append_left _ hc
    have hlaterMem : ∀ c ∈ later, c ∈ a.element.children := by
      intro c hc
      refine a.mem_children c ?_
      rw [hrest]
      exact List.mem_append_right _ (List.mem_cons_of_mem _ hc)
    have hcount : (before ++ .discs (ds.map DiscElement.disc) :: later).countP AlbumElement.isDiscs ≤
        1 := by
      rw [← hrest, a.perm.countP_eq]
      exact a.element.countP_isDiscs
    rw [List.countP_append, List.countP_cons_of_pos rfl] at hcount
    have hnone : ∀ cs : List AlbumChild, cs.countP AlbumElement.isDiscs = 0 →
        ∀ c ∈ cs, AlbumElement.isDiscs c = false := by
      intro cs hcs c hc
      exact Bool.eq_false_iff.mpr (List.countP_eq_zero.mp hcs c hc)
    have hbeforeNo := hnone before (by omega)
    have hlaterNo := hnone later (by omega)
    have hrun := h
    rw [hrest, exec_append, Option.bind_eq_some_iff] at hrun
    obtain ⟨s₁, hbefore, hrun⟩ := hrun
    obtain ⟨s₂, hs, hlater⟩ := exec_cons_eq_some.mp hrun
    obtain ⟨halbum, hlinks, -⟩ := AlbumLoop.exec_links hbefore rfl hbeforeMem
    have hlinks : s₁.store.toLinks = before.foldl _ store.toLinks := hlinks
    obtain ⟨halbum₂, -, -, -, hlogs⟩ := AlbumLoop.step_links hs halbum (a.mem_children _ hmem)
    obtain ⟨logs, htracks, hiff⟩ := hlogs rfl
    have hstart : s₁.tracks = [] := AlbumLoop.exec_tracks hbefore rfl hbeforeMem hbeforeNo
    have hend : s.tracks = logs := by
      rw [AlbumLoop.exec_tracks hlater halbum₂ hlaterMem hlaterNo, htracks, hstart,
        List.nil_append]
    rw [hend, hiff, hlinks]
    constructor
    · intro hfit before' c later' hrest' htrue
      rw [split_unique (hrest.symm.trans hrest') hbeforeNo hlaterNo htrue]
      exact hfit
    · intro hall
      exact hall before _ later hrest rfl

theorem told (h : unmarshallAlbum loaded store a.text = some s) :
    Told (fun n => n ∈ s.log ∨ ∃ log ∈ s.tracks, n ∈ log) store s.store := by
  rw [a.unmarshallAlbum_text] at h
  obtain ⟨ns, logs, hlog, htracks, htold⟩ := AlbumLoop.exec_grown h
  have hlog : s.log = ns := hlog
  have htracks : s.tracks = logs := htracks
  rw [hlog, htracks]
  exact htold

theorem mem_given {logs : List (List Naming)} {log : List Naming} (hown : log.Perm a.element.own)
    (htracks : TracksAttach logs a.element.tracks) (n : Naming) :
    (n ∈ log ∨ ∃ log ∈ logs, n ∈ log) ↔ n ∈ a.element.given := by
  rw [AlbumElement.given, List.mem_append, hown.mem_iff, List.mem_flatMap]
  refine or_congr Iff.rfl ?_
  generalize a.element.tracks = ts at htracks
  induction htracks with
  | nil => simp
  | cons hperm _ ih =>
    simp only [List.mem_cons, exists_eq_or_imp, hperm.mem_iff]
    exact or_congr Iff.rfl ih

variable (a loaded store)

theorem right_iff : a.Right loaded store ↔ a.Fits store.toLinks ∧ Agree a.element.given := by
  have hfits : a.Fits store.toLinks ↔ Along a.element.relink (fun _ c _ => a.element.Reads c)
      store.toLinks a.rest ∧ Along a.element.relink (fun l c _ => AlbumElement.isDiscs c = true →
        a.element.TracksFit l) store.toLinks a.rest ∧ Along a.element.relink (fun l =>
        Loop.Settled AlbumChild.gives AlbumChild.keys a.element.key
          (l.targetAlbum (some a.element.id))) store.toLinks a.rest :=
    along_and.trans (and_congr Iff.rfl along_and)
  rw [hfits, Right, a.unmarshallAlbum_text]
  constructor
  · rintro ⟨s, hs, hown, htracks, hnames⟩
    obtain ⟨-, -, hreads⟩ := AlbumLoop.exec_links hs rfl a.mem_children
    have htold := (told ((a.unmarshallAlbum_text loaded store).trans hs)).congr
      (mem_given hown htracks)
    exact ⟨⟨hreads, (tracks_iff hs).mp htracks, (own_iff hs).mp hown⟩, htold.names_iff.mp hnames⟩
  · rintro ⟨⟨hreads, htracks, hown⟩, hagree⟩
    obtain ⟨s, hs⟩ : ∃ s, exec (AlbumLoop.step loaded) (a.enter store) a.rest = some s :=
      AlbumLoop.exists_exec rfl a.mem_children (along_and.mpr ⟨hreads, htracks⟩)
    have hown := (own_iff hs).mpr hown
    have htracks := (tracks_iff hs).mpr htracks
    have htold := (told ((a.unmarshallAlbum_text loaded store).trans hs)).congr
      (mem_given hown htracks)
    exact ⟨s, hs, hown, htracks, htold.names_iff.mpr hagree⟩

/-- The names afterwards. -/
def outcome (loaded : Bool) (store : Store) (a : AlbumInOrder) : Option (Media → Option Text) :=
  (unmarshallAlbum loaded store a.text).map fun s => s.store.name

variable {a loaded store}

/-- The outcome does not depend on the order, of the album or of its tracks. -/
theorem outcome_eq {a' : AlbumInOrder} (hgiven : a.element.given = a'.element.given)
    (h : a.Right loaded store) (h' : a'.Right loaded store) :
    a.outcome loaded store = a'.outcome loaded store := by
  obtain ⟨s, hs, -, -, hnames⟩ := h
  obtain ⟨s', hs', -, -, hnames'⟩ := h'
  rw [← hgiven] at hnames'
  rw [outcome, outcome, hs, hs', Option.map_some, Option.map_some, hnames.eq hnames']

end AlbumInOrder

/-- **Names reach what they name** if and only if each finds as its target what the id in its
element says, or nothing yet while its id is still to come. -/
theorem right_iff_fits (loaded : Bool) (store : Store) :
    (∀ t : TrackInOrder, t.Right loaded store ↔ t.Fits store.toLinks ∧ Agree t.element.given) ∧
      (∀ t t' : TrackInOrder, t.element = t'.element → t.Right loaded store →
        t'.Right loaded store → t.outcome loaded store = t'.outcome loaded store) ∧
      (∀ a : AlbumInOrder, a.Right loaded store ↔ a.Fits store.toLinks ∧ Agree a.element.given) ∧
      ∀ a a' : AlbumInOrder, a.element.given = a'.element.given → a.Right loaded store →
        a'.Right loaded store → a.outcome loaded store = a'.outcome loaded store := by
  refine ⟨fun t => t.right_iff loaded store, ?_, fun a => a.right_iff loaded store, ?_⟩
  · intro t t' helement h h'
    exact TrackInOrder.outcome_eq helement h h'
  · intro a a' hgiven h h'
    exact AlbumInOrder.outcome_eq hgiven h h'

/-- Not every order is right: the artist of a new track is null. -/
theorem not_right_artistFirst : ¬ ∀ loaded store, (∀ t : TrackInOrder, t.Right loaded store) ∧
    ∀ a : AlbumInOrder, a.Right loaded store := by
  intro hall
  obtain ⟨s, hs, -⟩ := (hall false .empty).1 artistFirst
  have hnone : unmarshallTrack false .empty artistFirst.text = none := rfl
  rw [hnone] at hs
  cases hs

end Despotify.Java.ResponseUnmarshaller

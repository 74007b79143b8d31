import Despotify.Java.Unmarshaller
import Despotify.Pool.Attribution

/-!
# Java: the names a track gives

An element is what its children say, whatever their order (`TrackElement`); the
stream has them in some order behind the id (`TrackInOrder`).  `unmarshallTrack`
is right when it returns, every name was given to exactly what has the id in the
element, those names are left, and no other name has changed.

    t.Right loaded store ↔ t.Fits store.toLinks ∧ Agree t.element.given
                                                         (TrackInOrder.right_iff)

`Fits` looks at each child with the links as the ids before it have set them: a
name finds as its target what its id says, or nothing yet, and then it is one the
method keeps and the id is still to come.  The links the track and its album have
from earlier responses decide it as much as the order does.
-/

namespace Despotify.Java.ResponseUnmarshaller

open Runs Attribution

/-! ## Namings -/

/-- What the names of one kind of child were given to. -/
def named (log : List Naming) (child : NameChild) : List (Media × Option Text) :=
  (log.filter fun n => n.child = child).map fun n => (n.media, n.name)

theorem named_append (log log' : List Naming) (child : NameChild) :
    named (log ++ log') child = named log child ++ named log' child := by
  rw [named, List.filter_append, List.map_append]
  rfl

theorem named_push_self (log : List Naming) (child : NameChild) (m : Media) (name : Option Text) :
    named (log ++ [⟨child, m, name⟩]) child = named log child ++ [(m, name)] := by
  simp [named]

theorem named_push_of_ne {child other : NameChild} (h : other ≠ child) (log : List Naming)
    (m : Media) (name : Option Text) : named (log ++ [⟨other, m, name⟩]) child = named log child := by
  simp [named, h]

theorem count_named (log : List Naming) (n : Naming) :
    (named log n.child).count (n.media, n.name) = log.count n := by
  induction log with
  | nil => rfl
  | cons x log ih =>
    obtain ⟨child, media, name⟩ := x
    obtain ⟨child', media', name'⟩ := n
    by_cases hchild : child = child'
    · subst hchild
      simp only [named, List.filter_cons, decide_true, if_true, List.map_cons, List.count_cons]
      simp only [named] at ih
      rw [ih]
      simp
    · simp only [named, List.filter_cons, hchild, decide_false, List.count_cons]
      simp only [named] at ih
      rw [if_neg Bool.false_ne_true, ih]
      simp [hchild]

theorem perm_iff_named {log log' : List Naming} :
    log.Perm log' ↔ ∀ child, (named log child).Perm (named log' child) := by
  constructor
  · intro h child
    exact (h.filter _).map _
  · intro h
    rw [List.perm_iff_count]
    intro n
    rw [← count_named, ← count_named]
    exact (h n.child).count_eq _

/-- One naming for each kind of child that has one. -/
def namings (kinds : List NameChild) (f : NameChild → Option (Media × Option Text)) :
    List Naming :=
  kinds.flatMap fun child => ((f child).map fun x => ⟨child, x.1, x.2⟩).toList

theorem named_namings {kinds : List NameChild} (h : kinds.Nodup)
    (f : NameChild → Option (Media × Option Text)) (child : NameChild) :
    named (namings kinds f) child = if child ∈ kinds then (f child).toList else [] := by
  induction kinds with
  | nil => rfl
  | cons other kinds ih =>
    obtain ⟨hother, hkinds⟩ := List.nodup_cons.mp h
    have hpart : named ((f other).map fun x => (⟨other, x.1, x.2⟩ : Naming)).toList child =
        if other = child then (f child).toList else [] := by
      split
      · rename_i heq
        subst heq
        cases f other <;> simp [named]
      · rename_i hne
        cases f other <;> simp [named, hne]
    have hrest := ih hkinds
    simp only [namings] at hrest ⊢
    rw [List.flatMap_cons, named_append, hpart, hrest]
    by_cases heq : other = child
    · subst heq
      rw [if_pos rfl, if_neg hother, List.append_nil, if_pos List.mem_cons_self]
    · rw [if_neg heq, List.nil_append]
      refine if_congr ?_ rfl rfl
      rw [List.mem_cons, or_iff_right (Ne.symm heq)]

theorem perm_toList {α : Type} {l : List α} {o : Option α} : l.Perm o.toList ↔ l = o.toList := by
  cases o with
  | none => exact List.perm_nil
  | some a => exact List.perm_singleton

/-! ## Elements -/

/-- A `<track>`: each child at most once, but `redirect`. -/
structure TrackElement where
  id : Text
  artistId : Option Text
  artist : Option Text
  album : Option Text
  albumId : Option Text
  albumArtist : Option Text
  albumArtistId : Option Text
  redirects : List Text
  others : List Other

namespace TrackElement

variable (e : TrackElement)

/-- The children but the id. -/
def children : List TrackChild :=
  (e.artistId.map .artistId).toList ++ (e.artist.map .artist).toList ++
    (e.album.map .album).toList ++ (e.albumId.map .albumId).toList ++
    (e.albumArtist.map .albumArtist).toList ++ (e.albumArtistId.map .albumArtistId).toList ++
    e.redirects.map .redirect ++ e.others.map .other

/-- What the ids in the element say a name is the name of. -/
def key : NameChild → Option Media
  | .artist => e.artistId.map fun id => .artist (getString id)
  | .album => e.albumId.map fun id => .album (getString id)
  | .albumArtist => e.albumArtistId.map fun id => .artist (getString id)
  | .name => none

/-- The names in the element. -/
def nameOf : NameChild → Option (Option Text)
  | .artist => e.artist.map getString
  | .album => e.album.map some
  | .albumArtist => e.albumArtist.map getString
  | .name => none

def givenBy (child : NameChild) : Option (Media × Option Text) :=
  (e.key child).bind fun m => (e.nameOf child).map (m, ·)

/-- The names the element gives, with what has the id given for it. -/
def given : List Naming := namings [.artist, .album, .albumArtist] e.givenBy

theorem named_given (child : NameChild) : named e.given child = (e.givenBy child).toList := by
  rw [given, named_namings (by decide)]
  cases child <;> rfl

end TrackElement

/-- A `<track>` as it is read: the id first, and the other children in some order. -/
structure TrackInOrder where
  element : TrackElement
  rest : List TrackChild
  perm : rest.Perm element.children

def TrackInOrder.text (t : TrackInOrder) : List TrackChild := .id t.element.id :: t.rest

/-! ## The loop of `unmarshallTrack` -/

namespace TrackChild

/-- The name a child gives, as it is attached at once, and as it is kept. -/
def gives : TrackChild → Option (NameChild × Option Text × Option (Option Text))
  | .artist text => some (.artist, getString text, none)
  | .album text => some (.album, some text, (getString text).map some)
  | .albumArtist text => some (.albumArtist, getString text, (getString text).map some)
  | _ => none

def keys : TrackChild → Option (NameChild × Media)
  | .artistId text => some (.artist, .artist (getString text))
  | .albumId text => some (.album, .album (getString text))
  | .albumArtistId text => some (.albumArtist, .artist (getString text))
  | _ => none

/-- The link a child of track `k` sets. -/
def relink (k : Key) (l : Links) : TrackChild → Links
  | .artistId text => l.setArtist k (getString text)
  | .albumId text => l.setAlbum k (getString text)
  | .albumArtistId text =>
    match (l.tracks k).album with
    | none => l
    | some b => l.setMainArtist b (getString text)
  | _ => l

end TrackChild

theorem getString_eq (text : Text) :
    (getString text).map some = none ∨ (getString text).map some = some (some text) := by
  unfold getString
  split
  · exact Or.inl rfl
  · exact Or.inr rfl

/-- What a name is given to, with the links of track `k`. -/
def Links.target (l : Links) (k : Key) : NameChild → Option Media
  | .artist => (l.tracks k).artist.map .artist
  | .album => (l.tracks k).album.map .album
  | .albumArtist => ((l.tracks k).album.bind l.mainArtist).map .artist
  | .name => none

/-- A name that waits is not of the kind the loop leaves alone at its id. -/
theorem ne_of_quiet {child other : NameChild} {m : Media} {keys : Option (NameChild × Media)}
    {kept : NameChild → Option (Option Text)} (hwaits : (kept other).isSome)
    (hkeys : keys = some (other, m)) (hquiet : kept child = none ∨ ∀ m, keys ≠ some (child, m)) :
    other ≠ child := by
  rintro rfl
  rcases hquiet with hnone | hother
  · rw [hnone] at hwaits
    cases hwaits
  · exact hother m hkeys

namespace TrackLoop

/-- The names that wait for their id. -/
def kept (s : TrackLoop) : NameChild → Option (Option Text)
  | .album => s.albumName.map some
  | .albumArtist => s.albumArtistName.map some
  | _ => none

def target (s : TrackLoop) (child : NameChild) : Option Media :=
  s.track.bind fun k => s.store.target k child

theorem target_eq {s : TrackLoop} {k : Key} (hk : s.track = some k) (child : NameChild) :
    s.target child = s.store.target k child := by
  rw [target, hk]
  rfl

variable {s s' : TrackLoop} {c : TrackChild} {k : Key}

theorem step_quiet {child : NameChild} (h : s.step c = some s') (hgives : ∀ x, c.gives ≠ some (child, x))
    (hkept : s.kept child = none ∨ ∀ m, c.keys ≠ some (child, m)) :
    named s'.log child = named s.log child ∧ s'.kept child = s.kept child := by
  cases c with
  | id | redirect =>
    cases h
    exact ⟨rfl, by cases child <;> rfl⟩
  | artistId =>
    obtain ⟨t, -, rfl⟩ := Option.map_eq_some_iff.mp h
    exact ⟨rfl, by cases child <;> rfl⟩
  | artist text =>
    obtain ⟨a, -, rfl⟩ := Option.map_eq_some_iff.mp h
    have hne : NameChild.artist ≠ child := fun heq => hgives _ (by rw [← heq]; rfl)
    exact ⟨named_push_of_ne hne _ _ _, by cases child <;> rfl⟩
  | albumArtist text =>
    obtain ⟨b, -, rfl⟩ := Option.map_eq_some_iff.mp h
    have hne : NameChild.albumArtist ≠ child := fun heq => hgives _ (by rw [← heq]; rfl)
    split
    · refine ⟨rfl, ?_⟩
      cases child with
      | albumArtist => exact absurd rfl hne
      | artist | album | name => rfl
    · exact ⟨named_push_of_ne hne _ _ _, by cases child <;> rfl⟩
  | album text =>
    obtain ⟨t, -, rfl⟩ := Option.map_eq_some_iff.mp h
    have hne : NameChild.album ≠ child := fun heq => hgives _ (by rw [← heq]; rfl)
    split
    · refine ⟨rfl, ?_⟩
      cases child with
      | album => exact absurd rfl hne
      | artist | albumArtist | name => rfl
    · exact ⟨named_push_of_ne hne _ _ _, by cases child <;> rfl⟩
  | albumArtistId text =>
    obtain ⟨b, -, rfl⟩ := Option.map_eq_some_iff.mp h
    dsimp only
    split
    · exact ⟨rfl, by cases child <;> rfl⟩
    · rename_i name hname
      have hne : NameChild.albumArtist ≠ child := ne_of_quiet (by rw [kept, hname]; rfl) rfl hkept
      refine ⟨named_push_of_ne hne _ _ _, ?_⟩
      cases child with
      | albumArtist => exact absurd rfl hne
      | artist | album | name => rfl
  | albumId text =>
    obtain ⟨t, -, rfl⟩ := Option.map_eq_some_iff.mp h
    dsimp only
    split
    · exact ⟨rfl, by cases child <;> rfl⟩
    · rename_i name hname
      have hne : NameChild.album ≠ child := ne_of_quiet (by rw [kept, hname]; rfl) rfl hkept
      refine ⟨named_push_of_ne hne _ _ _, ?_⟩
      cases child with
      | album => exact absurd rfl hne
      | artist | albumArtist | name => rfl
  | other o =>
    simp only [step] at h
    split at h
    · cases h
      exact ⟨rfl, rfl⟩
    · cases h

theorem step_flush {child : NameChild} {m : Media} {name : Option Text} (h : s.step c = some s')
    (hkeys : c.keys = some (child, m)) (hkept : s.kept child = some name) :
    named s'.log child = named s.log child ++ [(m, name)] ∧ s'.kept child = none := by
  cases c with
  | artistId text =>
    cases hkeys
    cases hkept
  | albumArtistId text =>
    cases hkeys
    obtain ⟨b, -, rfl⟩ := Option.map_eq_some_iff.mp h
    obtain ⟨name, hname, rfl⟩ := Option.map_eq_some_iff.mp hkept
    dsimp only
    rw [hname]
    exact ⟨named_push_self _ _ _ _, rfl⟩
  | albumId text =>
    cases hkeys
    obtain ⟨t, -, rfl⟩ := Option.map_eq_some_iff.mp h
    obtain ⟨name, hname, rfl⟩ := Option.map_eq_some_iff.mp hkept
    dsimp only
    rw [hname]
    exact ⟨named_push_self _ _ _ _, rfl⟩
  | _ => cases hkeys

theorem step_found {child : NameChild} {m : Media} {name : Option Text} {keep : Option (Option Text)}
    (h : s.step c = some s') (hgives : c.gives = some (child, name, keep))
    (htarget : s.target child = some m) :
    named s'.log child = named s.log child ++ [(m, name)] ∧ s'.kept child = s.kept child := by
  obtain ⟨k, hk, htarget⟩ := Option.bind_eq_some_iff.mp htarget
  cases c with
  | artist text =>
    cases hgives
    obtain ⟨a, ha, rfl⟩ := Option.map_eq_some_iff.mp h
    rw [artist, hk, Option.bind_some] at ha
    rw [Links.target, ha] at htarget
    cases htarget
    exact ⟨named_push_self _ _ _ _, rfl⟩
  | albumArtist text =>
    cases hgives
    obtain ⟨b, hb, rfl⟩ := Option.map_eq_some_iff.mp h
    rw [album, hk, Option.bind_some] at hb
    rw [Links.target, hb, Option.bind_some] at htarget
    obtain ⟨a, ha, rfl⟩ := Option.map_eq_some_iff.mp htarget
    rw [ha]
    exact ⟨named_push_self _ _ _ _, rfl⟩
  | album text =>
    cases hgives
    obtain ⟨t, ht, rfl⟩ := Option.map_eq_some_iff.mp h
    cases hk.symm.trans ht
    obtain ⟨b, hb, rfl⟩ := Option.map_eq_some_iff.mp htarget
    rw [hb]
    exact ⟨named_push_self _ _ _ _, rfl⟩
  | _ => cases hgives

theorem step_missed {child : NameChild} {name : Option Text} {keep : Option (Option Text)}
    (h : s.step c = some s') (hgives : c.gives = some (child, name, keep))
    (htarget : s.target child = none) :
    named s'.log child = named s.log child ∧ s'.kept child = keep := by
  cases c with
  | artist text =>
    cases hgives
    obtain ⟨a, ha, rfl⟩ := Option.map_eq_some_iff.mp h
    obtain ⟨k, hk, ha⟩ := Option.bind_eq_some_iff.mp ha
    rw [target_eq hk, Links.target, ha] at htarget
    cases htarget
  | albumArtist text =>
    cases hgives
    obtain ⟨b, hb, rfl⟩ := Option.map_eq_some_iff.mp h
    obtain ⟨k, hk, hb⟩ := Option.bind_eq_some_iff.mp hb
    rw [target_eq hk, Links.target, hb, Option.bind_some, Option.map_eq_none_iff] at htarget
    rw [htarget]
    exact ⟨rfl, rfl⟩
  | album text =>
    cases hgives
    obtain ⟨k, hk, rfl⟩ := Option.map_eq_some_iff.mp h
    rw [target_eq hk, Links.target, Option.map_eq_none_iff] at htarget
    rw [htarget]
    exact ⟨rfl, rfl⟩
  | _ => cases hgives

end TrackLoop

theorem TrackChild.kept_eq {c : TrackChild} {child : NameChild} {name : Option Text}
    {keep : Option (Option Text)} (h : c.gives = some (child, name, keep)) :
    keep = none ∨ keep = some name := by
  cases c with
  | artist text =>
    cases h
    exact Or.inl rfl
  | album text =>
    cases h
    exact getString_eq text
  | albumArtist text =>
    cases h
    rcases getString_eq text with hnone | hsome
    · exact Or.inl hnone
    · obtain ⟨_, hname, -⟩ := Option.map_eq_some_iff.mp hsome
      rw [hname]
      exact Or.inr rfl
  | _ => cases h

def trackNames : Loop TrackLoop TrackChild NameChild Media (Option Text) where
  step := TrackLoop.step
  attached s := named s.log
  kept := TrackLoop.kept
  target := TrackLoop.target
  gives := TrackChild.gives
  keys := TrackChild.keys
  kept_eq := TrackChild.kept_eq
  quiet := TrackLoop.step_quiet
  flush := TrackLoop.step_flush
  found := TrackLoop.step_found
  missed := TrackLoop.step_missed

/-! ## When a track's names reach what they name -/

/-- The objects the child is about are there. -/
def TrackChild.Passes (k : Key) (l : Links) : TrackChild → Prop
  | .artist _ => (l.tracks k).artist.isSome
  | .albumArtist _ | .albumArtistId _ => (l.tracks k).album.isSome
  | .other o => o.passes (some k) = true
  | _ => True

/-- Condition on one child: `l` are the links when it is read, `later` the children to come. -/
def TrackElement.Fits (e : TrackElement) (l : Links) (c : TrackChild) (later : List TrackChild) :
    Prop :=
  c.Passes (some e.id) l ∧
    Loop.Settled TrackChild.gives TrackChild.keys e.key (l.target (some e.id)) c later

/-- Every child of the track fits, with the links the ids before it have set. -/
def TrackInOrder.Fits (l : Links) (t : TrackInOrder) : Prop :=
  Along (TrackChild.relink (some t.element.id)) t.element.Fits l t.rest

/-- The names are given to exactly what the ids in the element say, and nothing fails. -/
def TrackInOrder.Attaches (loaded : Bool) (store : Store) (t : TrackInOrder) : Prop :=
  ∃ s, unmarshallTrack loaded store t.text = some s ∧ s.log.Perm t.element.given

namespace TrackLoop

variable {s s' : TrackLoop} {c : TrackChild} {cs : List TrackChild} {k : Key}

def isId : TrackChild → Bool
  | .id _ => true
  | _ => false

theorem step_links (h : s.step c = some s') (hk : s.track = some k) (hid : isId c = false) :
    s'.track = some k ∧ s'.store.toLinks = TrackChild.relink k s.store.toLinks c ∧
      c.Passes k s.store.toLinks := by
  cases c with
  | id => cases hid
  | artistId text =>
    obtain ⟨t, ht, rfl⟩ := Option.map_eq_some_iff.mp h
    cases hk.symm.trans ht
    exact ⟨hk, rfl, trivial⟩
  | artist text =>
    obtain ⟨a, ha, rfl⟩ := Option.map_eq_some_iff.mp h
    rw [artist, hk, Option.bind_some] at ha
    exact ⟨hk, rfl, Option.isSome_of_eq_some ha⟩
  | albumArtist text =>
    obtain ⟨b, hb, rfl⟩ := Option.map_eq_some_iff.mp h
    rw [album, hk, Option.bind_some] at hb
    refine ⟨?_, ?_, Option.isSome_of_eq_some hb⟩ <;> split <;> first | exact hk | rfl
  | albumArtistId text =>
    obtain ⟨b, hb, rfl⟩ := Option.map_eq_some_iff.mp h
    rw [album, hk, Option.bind_some] at hb
    refine ⟨?_, ?_, Option.isSome_of_eq_some hb⟩
    · dsimp only
      split <;> exact hk
    · rw [TrackChild.relink, hb]
      dsimp only
      split <;> rfl
  | album text =>
    obtain ⟨t, ht, rfl⟩ := Option.map_eq_some_iff.mp h
    refine ⟨?_, ?_, trivial⟩ <;> split <;> first | exact hk | rfl
  | albumId text =>
    obtain ⟨t, ht, rfl⟩ := Option.map_eq_some_iff.mp h
    cases hk.symm.trans ht
    refine ⟨?_, ?_, trivial⟩
    · dsimp only
      split <;> exact hk
    · dsimp only
      split <;> rfl
  | redirect text =>
    cases h
    exact ⟨hk, rfl, trivial⟩
  | other o =>
    simp only [step, hk] at h
    split at h
    · rename_i hpasses
      cases h
      exact ⟨hk, rfl, hpasses⟩
    · cases h

theorem exists_step (hk : s.track = some k) (hid : isId c = false)
    (hpasses : c.Passes k s.store.toLinks) : ∃ s', s.step c = some s' := by
  have hartist : s.artist = (s.store.tracks k).artist := by
    rw [artist, hk]
    rfl
  have halbum : s.album = (s.store.tracks k).album := by
    rw [album, hk]
    rfl
  cases c with
  | id => cases hid
  | artist text =>
    obtain ⟨a, ha⟩ := Option.isSome_iff_exists.mp hpasses
    exact ⟨_, Option.map_eq_some_iff.mpr ⟨a, hartist.trans ha, rfl⟩⟩
  | albumArtist text | albumArtistId text =>
    obtain ⟨b, hb⟩ := Option.isSome_iff_exists.mp hpasses
    exact ⟨_, Option.map_eq_some_iff.mpr ⟨b, halbum.trans hb, rfl⟩⟩
  | artistId text | album text | albumId text =>
    exact ⟨_, Option.map_eq_some_iff.mpr ⟨k, hk, rfl⟩⟩
  | redirect text => exact ⟨_, rfl⟩
  | other o =>
    have hpasses : o.passes (some k) = true := hpasses
    refine ⟨s, ?_⟩
    simp only [step, hk]
    exact if_pos hpasses

theorem exec_links (h : exec step s cs = some s') (hk : s.track = some k)
    (hid : ∀ c ∈ cs, isId c = false) :
    s'.track = some k ∧ s'.store.toLinks = cs.foldl (TrackChild.relink k) s.store.toLinks ∧
      Along (TrackChild.relink k) (fun l c _ => c.Passes k l) s.store.toLinks cs := by
  induction cs generalizing s with
  | nil =>
    cases h
    exact ⟨hk, rfl, along_nil _ _ _⟩
  | cons c cs ih =>
    obtain ⟨hc, hcs⟩ := List.forall_mem_cons.mp hid
    obtain ⟨t, hs, ht⟩ := exec_cons_eq_some.mp h
    obtain ⟨hk', hlinks, hpasses⟩ := step_links hs hk hc
    obtain ⟨hend, hfold, halong⟩ := ih ht hk' hcs
    rw [hlinks] at hfold halong
    exact ⟨hend, hfold, along_cons.mpr ⟨hpasses, halong⟩⟩

theorem exists_exec (hk : s.track = some k) (hid : ∀ c ∈ cs, isId c = false)
    (h : Along (TrackChild.relink k) (fun l c _ => c.Passes k l) s.store.toLinks cs) :
    ∃ s', exec step s cs = some s' := by
  induction cs generalizing s with
  | nil => exact ⟨s, rfl⟩
  | cons c cs ih =>
    obtain ⟨hc, hcs⟩ := List.forall_mem_cons.mp hid
    obtain ⟨hpasses, halong⟩ := along_cons.mp h
    obtain ⟨t, hs⟩ := exists_step hk hc hpasses
    obtain ⟨hk', hlinks, -⟩ := step_links hs hk hc
    rw [← hlinks] at halong
    obtain ⟨s', ht⟩ := ih hk' hcs halong
    exact ⟨s', exec_cons_eq_some.mpr ⟨t, hs, ht⟩⟩

end TrackLoop

namespace TrackElement

variable {e : TrackElement} {cs : List TrackChild}

theorem isId_of_mem (hperm : cs.Perm e.children) : ∀ c ∈ cs, TrackLoop.isId c = false := by
  intro c hc
  have hmem := hperm.mem_iff.mp hc
  simp only [children, List.mem_append, Option.mem_toList, Option.map_eq_some_iff,
    List.mem_map] at hmem
  rcases hmem with ((((((⟨_, -, rfl⟩ | ⟨_, -, rfl⟩) | ⟨_, -, rfl⟩) | ⟨_, -, rfl⟩) | ⟨_, -, rfl⟩) |
    ⟨_, -, rfl⟩) | ⟨_, -, rfl⟩) | ⟨_, -, rfl⟩ <;> rfl

theorem countP_children (child : NameChild) :
    e.children.countP (fun c => (trackNames.gives c).map Prod.fst = some child) ≤ 1 := by
  have hlength : ∀ o : Option Text, o.toList.length ≤ 1 := by
    intro o
    cases o <;> simp
  cases child <;> simp [children, List.countP_append, List.countP_map, Function.comp_def, trackNames,
    TrackChild.gives, Option.toList_map, hlength]

theorem key_of_mem {c : TrackChild} {child : NameChild} {m : Media} (hc : c ∈ e.children)
    (hkeys : c.keys = some (child, m)) : e.key child = some m := by
  cases c with
  | artistId text | albumId text | albumArtistId text =>
    have htext := by simpa [children] using hc
    cases hkeys
    simp only [key, htext, Option.map_some]
  | _ => cases hkeys

theorem nameOf_of_mem {c : TrackChild} {child : NameChild} {name : Option Text}
    {keep : Option (Option Text)} (hc : c ∈ e.children)
    (hgives : c.gives = some (child, name, keep)) : e.nameOf child = some name := by
  cases c with
  | artist text | album text | albumArtist text =>
    have htext := by simpa [children] using hc
    cases hgives
    simp only [nameOf, htext, Option.map_some]
  | _ => cases hgives

theorem exists_gives {child : NameChild} {name : Option Text} (h : e.nameOf child = some name) :
    ∃ c ∈ e.children, ∃ keep, c.gives = some (child, name, keep) := by
  cases child with
  | artist =>
    obtain ⟨text, htext, rfl⟩ := Option.map_eq_some_iff.mp h
    exact ⟨.artist text, by simp [children, htext], _, rfl⟩
  | album =>
    obtain ⟨text, htext, rfl⟩ := Option.map_eq_some_iff.mp h
    exact ⟨.album text, by simp [children, htext], _, rfl⟩
  | albumArtist =>
    obtain ⟨text, htext, rfl⟩ := Option.map_eq_some_iff.mp h
    exact ⟨.albumArtist text, by simp [children, htext], _, rfl⟩
  | name => cases h

theorem loop_given (hperm : cs.Perm e.children) :
    trackNames.Given cs e.key fun child => (e.givenBy child).toList :=
  Loop.given_of_perm hperm e.countP_children (fun _ hc _ _ => key_of_mem hc)
    (fun _ hc _ _ _ => nameOf_of_mem hc) fun _ _ => exists_gives

end TrackElement

namespace TrackInOrder

variable (t : TrackInOrder) (loaded : Bool) (store : Store)

/-- The loop behind the id. -/
def enter : TrackLoop := { TrackLoop.start store with track := some (some t.element.id) }

theorem unmarshallTrack_text :
    unmarshallTrack loaded store t.text = exec TrackLoop.step (t.enter store) t.rest := by
  have hrun : exec TrackLoop.step (.start store) t.text =
      exec TrackLoop.step (t.enter store) t.rest := rfl
  rw [unmarshallTrack, hrun]
  cases h : exec TrackLoop.step (t.enter store) t.rest with
  | none => rfl
  | some s =>
    obtain ⟨htrack, -⟩ := TrackLoop.exec_links h rfl (TrackElement.isId_of_mem t.perm)
    rw [Option.bind_some, htrack]
    exact if_neg fun hno => Option.some_ne_none _ hno.1

theorem attaches_iff : t.Attaches loaded store ↔ t.Fits store.toLinks := by
  have hid := TrackElement.isId_of_mem t.perm
  have htarget : ∀ before later s₁, t.rest = before ++ later →
      exec TrackLoop.step (t.enter store) before = some s₁ → s₁.target =
        (before.foldl (TrackChild.relink (some t.element.id)) store.toLinks).target
          (some t.element.id) := by
    intro before later s₁ hrest hbefore
    have hmem : ∀ c ∈ before, TrackLoop.isId c = false := by
      intro c hc
      refine hid c ?_
      rw [hrest]
      exact List.mem_append_left _ hc
    obtain ⟨htrack, hlinks, -⟩ := TrackLoop.exec_links hbefore rfl hmem
    have hlinks : s₁.store.toLinks = before.foldl _ store.toLinks := hlinks
    funext child
    rw [← hlinks]
    exact TrackLoop.target_eq htrack child
  have hnames : ∀ s, exec TrackLoop.step (t.enter store) t.rest = some s →
      (s.log.Perm t.element.given ↔ Along (TrackChild.relink (some t.element.id))
        (fun l => Loop.Settled TrackChild.gives TrackChild.keys t.element.key
          (l.target (some t.element.id))) store.toLinks t.rest) := by
    intro s hs
    have hstart : ∀ child, trackNames.attached (t.enter store) child = [] ∧
        trackNames.kept (t.enter store) child = none := by
      intro child
      cases child <;> exact ⟨rfl, rfl⟩
    have hiff := (TrackElement.loop_given t.perm).attached_iff_along (TrackChild.relink _)
      (fun l => Links.target l _) hs hstart htarget
    refine Iff.trans ?_ hiff
    rw [perm_iff_named]
    refine forall_congr' fun child => ?_
    rw [t.element.named_given]
    exact perm_toList
  have hfits : t.Fits store.toLinks ↔ _ := along_and
  rw [hfits, Attaches, t.unmarshallTrack_text]
  constructor
  · rintro ⟨s, hs, hperm⟩
    obtain ⟨-, -, hpasses⟩ := TrackLoop.exec_links hs rfl hid
    exact ⟨hpasses, (hnames s hs).mp hperm⟩
  · rintro ⟨hpasses, hsettled⟩
    obtain ⟨s, hs⟩ := TrackLoop.exists_exec (s := t.enter store) rfl hid hpasses
    exact ⟨s, hs, (hnames s hs).mpr hsettled⟩

end TrackInOrder

/-! ## The names left in the store -/

/-- Every name given is the name left, and nothing else has another name than before. -/
def Names (given : List Naming) (store store' : Store) : Prop :=
  (∀ n ∈ given, store'.name n.media = n.name) ∧
    ∀ m, (∀ n ∈ given, n.media ≠ m) → store'.name m = store.name m

/-- No two children give different names to the same thing. -/
def Agree (given : List Naming) : Prop :=
  ∀ n ∈ given, ∀ n' ∈ given, n.media = n'.media → n.name = n'.name

/-- What the children give settles the names that are left. -/
theorem Names.eq {given : List Naming} {store store₁ store₂ : Store} (h₁ : Names given store store₁)
    (h₂ : Names given store store₂) : store₁.name = store₂.name := by
  funext m
  by_cases hm : ∃ n ∈ given, n.media = m
  · obtain ⟨n, hn, rfl⟩ := hm
    rw [h₁.1 n hn, h₂.1 n hn]
  · have hno : ∀ n ∈ given, n.media ≠ m := fun n hn heq => hm ⟨n, hn, heq⟩
    rw [h₁.2 m hno, h₂.2 m hno]

/-- The names that `named` set, some of them later than others. -/
def Told (named : Naming → Prop) (store store' : Store) : Prop :=
  ∀ m, (store'.name m = store.name m ∧ ∀ n, named n → n.media ≠ m) ∨
    ∃ n, named n ∧ n.media = m ∧ store'.name m = n.name

section Told

variable {store store' store'' : Store} {P Q : Naming → Prop}

theorem told_of_eq (h : store'.name = store.name) : Told (· ∈ []) store store' := by
  intro m
  refine Or.inl ⟨congrFun h m, fun n hn => ?_⟩
  cases hn

theorem told_of_update {child : NameChild} {m : Media} {name : Option Text}
    (h : store'.name = Function.update store.name m name) :
    Told (· ∈ [⟨child, m, name⟩]) store store' := by
  intro m'
  rw [h]
  by_cases hm : m' = m
  · subst hm
    exact Or.inr ⟨_, List.mem_singleton_self _, rfl, Function.update_self _ _ _⟩
  · refine Or.inl ⟨Function.update_of_ne hm _ _, fun n hn => ?_⟩
    rw [List.mem_singleton.mp hn]
    exact Ne.symm hm

theorem Told.trans (h : Told P store store') (h' : Told Q store' store'') :
    Told (fun n => P n ∨ Q n) store store'' := by
  intro m
  rcases h' m with ⟨hsame', hnone'⟩ | ⟨n, hn, hm, hname⟩
  · rw [hsame']
    rcases h m with ⟨hsame, hnone⟩ | ⟨n, hn, hm, hname⟩
    · exact Or.inl ⟨hsame, fun n hn => hn.elim (hnone n) (hnone' n)⟩
    · exact Or.inr ⟨n, Or.inl hn, hm, hname⟩
  · exact Or.inr ⟨n, Or.inr hn, hm, hname⟩

theorem Told.congr (h : Told P store store') (hiff : ∀ n, P n ↔ Q n) : Told Q store store' := by
  have heq : P = Q := funext fun n => propext (hiff n)
  exact heq ▸ h

/-- What was named being what is given, the names are right if the children agree. -/
theorem Told.names_iff {given : List Naming} (h : Told (· ∈ given) store store') :
    Names given store store' ↔ Agree given := by
  constructor
  · rintro ⟨hgiven, -⟩ n hn n' hn' hmedia
    rw [← hgiven n hn, ← hgiven n' hn', hmedia]
  · intro hagree
    refine ⟨fun n hn => ?_, fun m hm => ?_⟩
    · rcases h n.media with ⟨-, hnone⟩ | ⟨n', hn', hmedia, hname⟩
      · exact absurd rfl (hnone n hn)
      · rw [hname, hagree n' hn' n hn hmedia]
    · rcases h m with ⟨hsame, -⟩ | ⟨n, hn, hmedia, -⟩
      · exact hsame
      · exact absurd hmedia (hm n hn)

end Told

theorem TrackLoop.step_told {s s' : TrackLoop} {c : TrackChild} (h : s.step c = some s') :
    ∃ ns, s'.log = s.log ++ ns ∧ Told (· ∈ ns) s.store s'.store := by
  have hkeep : ∀ t : TrackLoop, t.log = s.log → t.store.name = s.store.name →
      ∃ ns, t.log = s.log ++ ns ∧ Told (· ∈ ns) s.store t.store := by
    intro t hlog hname
    exact ⟨[], hlog.trans (List.append_nil _).symm, told_of_eq hname⟩
  cases c with
  | id | redirect =>
    cases h
    exact hkeep _ rfl rfl
  | artistId text =>
    obtain ⟨t, -, rfl⟩ := Option.map_eq_some_iff.mp h
    exact hkeep _ rfl rfl
  | artist text =>
    obtain ⟨a, -, rfl⟩ := Option.map_eq_some_iff.mp h
    exact ⟨_, rfl, told_of_update rfl⟩
  | albumArtist text | album text =>
    obtain ⟨b, -, rfl⟩ := Option.map_eq_some_iff.mp h
    split
    · exact hkeep _ rfl rfl
    · exact ⟨_, rfl, told_of_update rfl⟩
  | albumArtistId text | albumId text =>
    obtain ⟨b, -, rfl⟩ := Option.map_eq_some_iff.mp h
    dsimp only
    split
    · exact hkeep _ rfl rfl
    · exact ⟨_, rfl, told_of_update rfl⟩
  | other o =>
    simp only [step] at h
    split at h
    · cases h
      exact hkeep _ rfl rfl
    · cases h

theorem TrackLoop.exec_told {s s' : TrackLoop} {cs : List TrackChild}
    (h : exec TrackLoop.step s cs = some s') :
    ∃ ns, s'.log = s.log ++ ns ∧ Told (· ∈ ns) s.store s'.store := by
  induction cs generalizing s with
  | nil =>
    cases h
    exact ⟨[], (List.append_nil _).symm, told_of_eq rfl⟩
  | cons c cs ih =>
    obtain ⟨t, hs, ht⟩ := exec_cons_eq_some.mp h
    obtain ⟨ns, hlog, htold⟩ := step_told hs
    obtain ⟨ns', hlog', htold'⟩ := ih ht
    refine ⟨ns ++ ns', ?_, (htold.trans htold').congr fun n => List.mem_append.symm⟩
    rw [hlog', hlog, List.append_assoc]

namespace TrackInOrder

/-- `unmarshallTrack` gives the names to exactly what the ids in the element say, leaves those
names, and every other one as it was. -/
def Right (loaded : Bool) (store : Store) (t : TrackInOrder) : Prop :=
  ∃ s, unmarshallTrack loaded store t.text = some s ∧ s.log.Perm t.element.given ∧
    Names t.element.given store s.store

theorem told {t : TrackInOrder} {loaded : Bool} {store : Store} {s : TrackLoop}
    (h : unmarshallTrack loaded store t.text = some s) : Told (· ∈ s.log) store s.store := by
  rw [t.unmarshallTrack_text] at h
  obtain ⟨ns, hlog, htold⟩ := TrackLoop.exec_told h
  have hlog : s.log = ns := hlog
  rw [hlog]
  exact htold

theorem right_iff (t : TrackInOrder) (loaded : Bool) (store : Store) :
    t.Right loaded store ↔ t.Fits store.toLinks ∧ Agree t.element.given := by
  rw [← t.attaches_iff loaded store]
  constructor
  · rintro ⟨s, hs, hperm, hnames⟩
    have htold := (told hs).congr fun n => hperm.mem_iff
    exact ⟨⟨s, hs, hperm⟩, htold.names_iff.mp hnames⟩
  · rintro ⟨⟨s, hs, hperm⟩, hagree⟩
    have htold := (told hs).congr fun n => hperm.mem_iff
    exact ⟨s, hs, hperm, htold.names_iff.mpr hagree⟩

/-- The names afterwards. -/
def outcome (loaded : Bool) (store : Store) (t : TrackInOrder) : Option (Media → Option Text) :=
  (unmarshallTrack loaded store t.text).map fun s => s.store.name

/-- The outcome does not depend on the order. -/
theorem outcome_eq {t t' : TrackInOrder} {loaded : Bool} {store : Store}
    (helement : t.element = t'.element) (h : t.Right loaded store) (h' : t'.Right loaded store) :
    t.outcome loaded store = t'.outcome loaded store := by
  obtain ⟨s, hs, -, hnames⟩ := h
  obtain ⟨s', hs', -, hnames'⟩ := h'
  rw [← helement] at hnames'
  rw [outcome, outcome, hs, hs', Option.map_some, Option.map_some, hnames.eq hnames']

end TrackInOrder

/-- A track whose `<artist>` comes before its `<artist-id>`. -/
def artistFirst : TrackInOrder where
  element := ⟨['t'], some ['a'], some ['X'], none, none, none, none, [], []⟩
  rest := [.artist ['X'], .artistId ['a']]
  perm := List.Perm.swap _ _ _

/-- In a new store the artist is null. -/
example : unmarshallTrack false .empty artistFirst.text = none := rfl

/-- A store where the track is linked to artist `b`, from an earlier response. -/
def linked : Store :=
  { Store.empty with toLinks := Store.empty.toLinks.setArtist (some ['t']) (some ['b']) }

/-- There `b` gets the name of `a`. -/
example : (unmarshallTrack false linked artistFirst.text).map (fun s => s.log) =
    some [⟨.artist, .artist (some ['b']), some ['X']⟩] := by decide

end Despotify.Java.ResponseUnmarshaller

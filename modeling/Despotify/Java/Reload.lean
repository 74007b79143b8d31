import Despotify.Java.Playlist
import Despotify.Pool.Unseen

/-!
# Java: reloading a playlist or a container

A response is consistent when its items, the size and the checksum in its
`version` agree.  What it says does not depend on the local object; what
`fromXMLElement` makes of it does:

* a playlist takes over the items of an `add` operation, and keeps its own
  tracks when there is none.  The empty list without an `add` is therefore read
  only into an empty playlist, and an `add` of an empty list is refused;
* a container appends the items it has not got, and drops none.

`reload_iff` says exactly into which local states a consistent response is read.
-/

namespace Despotify.Java

/-! ## What a response says -/

/-- The elements of a response: the items of its `add`, if it has one, and the
text of its `version`. -/
def Layout (e : XMLElement) (items : Option Text) (version : Text) : Prop :=
  ∃ nextChange change ops v, e.getChild "next-change" = some nextChange ∧
    nextChange.getChild "change" = some change ∧ change.getChild "ops" = some ops ∧
    nextChange.getChild "version" = some v ∧ v.getText = version ∧
    (ops.getChild "add").map (·.getChildText "items") = items.map some

/-- A version reads `revision,size,checksum,flag`. -/
def Version (version : Text) (revision size checksum flag : Int) : Prop :=
  ∃ a b c d, splitLimit ',' 4 version = [a, b, c, d] ∧ parseLong a = some revision ∧
    parseLong b = some size ∧ parseLong c = some checksum ∧ parseInt d = some flag

/-- The comma separated items; a blank text lists none. -/
def listed (items : Text) : List Text :=
  if trim items = [] then [] else split ',' items

/-- An item of a playlist: a track, or the playlist's own id. -/
def IsTrackItem (id item : Text) : Prop :=
  item.length = 34 ∧ item.drop 32 = ['0', '1'] ∨ isHex item ∧ item = id

/-- The tracks an `add` lists. -/
def tracksOf (items : Text) : List Text :=
  (((listed items).map trim).filter fun item => item.length = 34).map (·.take 32)

structure Response where
  items : List Text
  revision : Int
  checksum : Int
  flag : Int
  deriving DecidableEq, Repr

/-- A self-consistent response to a request for the playlist `id`. -/
structure PlaylistResponse (e : XMLElement) (id : Text) (items : Option Text) (r : Response) :
    Prop where
  layout : ∃ version, Layout e items version ∧
    Version version r.revision r.items.length r.checksum r.flag
  valid : ∀ text ∈ items, ∀ item ∈ (listed text).map trim, IsTrackItem id item
  items : r.items = (items.map tracksOf).getD []
  checksum : calculateTracks r.items = .ok r.checksum

/-- A self-consistent response to a request for the playlists of a user. -/
structure ContainerResponse (e : XMLElement) (items : Option Text) (r : Response) : Prop where
  layout : ∃ version, Layout e items version ∧
    Version version r.revision r.items.length r.checksum r.flag
  items : r.items =
    (items.map fun text => (listed text).map PlaylistContainer.playlistUUID).getD []
  checksum : calculatePlaylists r.items = .ok r.checksum

/-! ## Splitting a blank text -/

theorem trim_eq_nil {s : Text} (h : trim s = []) : ∀ c ∈ s, blank c := by
  unfold trim at h
  rw [List.rdropWhile_eq_nil_iff] at h
  rw [← List.dropWhile_eq_nil_iff]
  by_contra hne
  have hhead := List.head_dropWhile_not blank hne
  rw [h _ (List.head_mem hne)] at hhead
  cases hhead

theorem splitLimit_of_not_mem {sep : Char} {s : Text} (h : sep ∉ s) (n : Nat) :
    splitLimit sep n s = [s] := by
  induction s with
  | nil => rfl
  | cons c cs ih =>
    rw [List.mem_cons, not_or] at h
    rw [splitLimit, if_neg fun hc => h.1 hc.1.symm, ih h.2]

theorem split_blank {s : Text} (h : trim s = []) : split ',' s = [s] := by
  have hsep : ',' ∉ s := fun hmem => by
    have := trim_eq_nil h ',' hmem
    exact absurd this (by decide)
  unfold split
  rw [if_neg hsep, splitLimit_of_not_mem hsep]

/-! ## Playlists -/

namespace Playlist

/-- The loop takes the tracks of a valid list. -/
theorem trackItems_of_valid {id : Text} {l : List Text}
    (h : ∀ item ∈ l.map trim, IsTrackItem id item) :
    trackItems id l =
      .ok (((l.map trim).filter fun item => item.length = 34).map (·.take 32)) := by
  induction l with
  | nil => rfl
  | cons item l ih =>
    have hrest := ih fun q hq => h q (List.mem_cons_of_mem _ hq)
    rw [trackItems]
    rcases h (trim item) List.mem_cons_self with ⟨hlen, hsuffix⟩ | ⟨hhex, hid⟩
    · rw [if_neg (not_not.mpr hlen), if_neg (not_not.mpr hsuffix), hrest, List.map_cons,
        List.filter_cons_of_pos (by simpa using hlen)]
      rfl
    · have hlen : (trim item).length = 32 := by
        unfold isHex at hhex
        simp only [decide_eq_true_eq] at hhex
        exact hhex.1
      rw [if_pos (by omega), if_pos hhex, if_neg (not_not.mpr hid), hrest, List.map_cons,
        List.filter_cons_of_neg (by simp [hlen])]

/-- A blank item is no track. -/
theorem trackItems_blank (id : Text) {s : Text} (h : trim s = []) :
    trackItems id (split ',' s) = .error .runtimeException := by
  rw [split_blank h, trackItems, h]
  rfl

/-- What `readVersion` checks, once the numbers have been read. -/
def checked (p : Playlist) (size checksum : Int) : Except Exn Unit :=
  if (p.size : Int) ≠ size then .error .runtimeException
  else
    match p.calculateChecksum with
    | .error e => .error e
    | .ok calculated => if calculated ≠ checksum then .error .checksumException else .ok ()

/-- What `readVersion` makes of the playlist. -/
def versioned (p : Playlist) (revision checksum flag : Int) : Playlist :=
  { p with
    revision := some revision
    checksum := some checksum
    collaborative := some (flag = 1)
    tracks := some (p.tracks.getD []) }

theorem readVersion_run {v : XMLElement} {revision size checksum flag : Int}
    (h : Version v.getText revision size checksum flag) (p : Playlist) :
    readVersion v p = some (checked p size checksum, versioned p revision checksum flag) := by
  obtain ⟨a, b, c, d, hparts, ha, hb, hc, hd⟩ := h
  have hsize : (versioned p revision checksum flag).size = p.size := rfl
  have hcalc : (versioned p revision checksum flag).calculateChecksum = p.calculateChecksum := rfl
  have hrun : readVersion v p = (if ((versioned p revision checksum flag).size : Int) ≠ size
      then Proc.throw .runtimeException
      else Proc.ofExcept (versioned p revision checksum flag).calculateChecksum >>= fun c =>
        if c ≠ checksum then Proc.throw .checksumException else pure ())
        (versioned p revision checksum flag) := by
    simp only [readVersion, hparts, part, number, List.getElem?_cons_zero,
      List.getElem?_cons_succ, Proc.ofOption_some, Proc.pure_bind, ha, hb, hc, hd,
      Proc.modify_bind, Proc.get_bind]
    rfl
  rw [hrun, hsize, hcalc, checked, Proc.ite_run]
  by_cases hne : (p.size : Int) ≠ size
  · rw [if_pos hne, if_pos hne]
    rfl
  · rw [if_neg hne, if_neg hne]
    cases p.calculateChecksum with
    | error e => rfl
    | ok c =>
      rw [Proc.ofExcept_ok, Proc.pure_bind, Proc.ite_run]
      show _ = some ((if c ≠ checksum then Except.error Exn.checksumException else Except.ok ()), _)
      by_cases hc : c ≠ checksum
      · rw [if_pos hc, if_pos hc]
        rfl
      · rw [if_neg hc, if_neg hc]
        rfl

/-- The playlist with the names of the response, and its tracks. -/
def named (p : Playlist) (author name : Option Text) (tracks : Option (List Text)) : Playlist :=
  { p with author := author, name := name, tracks := tracks }

theorem addTracks_run {add : XMLElement} {text : Text} (h : add.getChildText "items" = some text)
    (p : Playlist) :
    addTracks add p =
      match trackItems p.id (split ',' text) with
      | .error e => some (.error e, { p with tracks := some (p.tracks.getD []) })
      | .ok tracks => some (.ok (), { p with tracks := some tracks }) := by
  simp only [addTracks, h, orNull, Proc.ofOption_some, Proc.pure_bind, Proc.modify_bind,
    Proc.get_bind]
  cases trackItems p.id (split ',' text) with
  | error e => rfl
  | ok tracks => rfl

/-- Without an `add`, `fromXMLElement` goes on to the version. -/
theorem fromXMLElement_run {e : XMLElement} {version : Text} (h : Layout e none version)
    {revision size checksum flag : Int} (hv : Version version revision size checksum flag)
    (p : Playlist) :
    ∃ author name, fromXMLElement e p =
      some (checked (p.named author name p.tracks) size checksum,
        versioned (p.named author name p.tracks) revision checksum flag) := by
  obtain ⟨next, change, ops, v, hnext, hchange, hops, hversion, rfl, hadd⟩ := h
  refine ⟨change.getChildText "user", ops.getChildText "name", ?_⟩
  have hadd : ops.getChild "add" = none := by simpa using hadd
  simp only [fromXMLElement, orNull, hnext, hchange, hops, hversion, hadd, Proc.ofOption_some,
    Proc.pure_bind, Proc.modify_bind]
  exact readVersion_run hv _

/-- With one, it replaces the tracks, unless an item is no track. -/
theorem fromXMLElement_add_run {e : XMLElement} {text version : Text}
    (h : Layout e (some text) version) {revision size checksum flag : Int}
    (hv : Version version revision size checksum flag) (p : Playlist) :
    ∃ author name, fromXMLElement e p =
      match trackItems p.id (split ',' text) with
      | .error e => some (.error e, p.named author name (some (p.tracks.getD [])))
      | .ok tracks =>
        some (checked (p.named author name (some tracks)) size checksum,
          versioned (p.named author name (some tracks)) revision checksum flag) := by
  obtain ⟨next, change, ops, v, hnext, hchange, hops, hversion, rfl, hadd⟩ := h
  refine ⟨change.getChildText "user", ops.getChildText "name", ?_⟩
  obtain ⟨add, hadd, htext⟩ := Option.map_eq_some_iff.mp hadd
  have hitems := addTracks_run htext
    (p.named (change.getChildText "user") (ops.getChildText "name") p.tracks)
  simp only [fromXMLElement, orNull, hnext, hchange, hops, hversion, hadd, Proc.ofOption_some,
    Proc.pure_bind, Proc.modify_bind]
  cases htracks : trackItems p.id (split ',' text) with
  | error e => exact Proc.bind_of_error (hitems.trans (by simp only [named, htracks]))
  | ok tracks =>
    refine (Proc.bind_of_ok (hitems.trans (by simp only [named, htracks]; rfl))).trans ?_
    exact readVersion_run hv _

theorem checked_eq_ok {p : Playlist} {size checksum : Int} (hsize : (p.size : Int) = size)
    (hsum : p.calculateChecksum = .ok checksum) : checked p size checksum = .ok () := by
  rw [checked, if_neg (not_not.mpr hsize), hsum]
  exact if_neg (not_not.mpr rfl)

theorem size_of_checked {p : Playlist} {size checksum : Int}
    (h : checked p size checksum = .ok ()) : (p.size : Int) = size := by
  by_contra hne
  rw [checked, if_pos hne] at h
  cases h

/-- The call returns, and the playlist is what the response says. -/
def Reloaded (out : Option (Except Exn Unit × Playlist)) (r : Response) : Prop :=
  ∃ p, out = some (.ok (), p) ∧ p.tracks = some r.items ∧ p.revision = some r.revision ∧
    p.checksum = some r.checksum

/-- A response with the items is read into the playlist. -/
def Readable (p : Playlist) : Option Text → Prop
  | none => p.tracks.getD [] = []
  | some text => trim text ≠ []

theorem reload_iff {e : XMLElement} {items : Option Text} {r : Response} {p : Playlist}
    (h : PlaylistResponse e p.id items r) :
    Reloaded (fromXMLElement e p) r ↔ p.Readable items := by
  obtain ⟨version, hlayout, hversion⟩ := h.layout
  have hitems := h.items
  have hsum := h.checksum
  cases items with
  | none =>
    have hnil : r.items = [] := hitems
    obtain ⟨author, name, hrun⟩ := fromXMLElement_run hlayout hversion p
    rw [hrun]
    constructor
    · rintro ⟨p', hp', htracks, -, -⟩
      have hp' : versioned _ _ _ _ = p' := congrArg Prod.snd (Option.some.inj hp')
      rw [← hp'] at htracks
      exact (Option.some.inj htracks).trans hnil
    · intro hp
      have hp : p.tracks.getD [] = [] := hp
      have hok : checked (p.named author name p.tracks) r.items.length r.checksum = .ok () := by
        refine checked_eq_ok ?_ ?_
        · rw [hnil, size, named, hp]
        · rw [calculateChecksum, named, hp, ← hnil]
          exact hsum
      refine ⟨_, congrArg (fun x => some (x, _)) hok, ?_, rfl, rfl⟩
      show some (p.tracks.getD []) = _
      rw [hp, hnil]
  | some text =>
    obtain ⟨author, name, hrun⟩ := fromXMLElement_add_run hlayout hversion p
    rw [hrun]
    by_cases htrim : trim text = []
    · refine ⟨?_, fun hne => absurd htrim hne⟩
      rintro ⟨p', hp', -⟩
      rw [trackItems_blank p.id htrim] at hp'
      cases hp'
    · refine ⟨fun _ => htrim, fun _ => ?_⟩
      have hlisted : listed text = split ',' text := if_neg htrim
      have hvalid := h.valid text rfl
      have htracks : r.items = tracksOf text := hitems
      rw [hlisted] at hvalid
      rw [tracksOf, hlisted] at htracks
      rw [trackItems_of_valid hvalid, ← htracks]
      exact ⟨_, congrArg (fun x => some (x, _)) (checked_eq_ok rfl hsum), rfl, rfl, rfl⟩

/-- What has been read are the tracks of the response. -/
theorem tracks_of_ok {e : XMLElement} {items : Option Text} {r : Response} {p p' : Playlist}
    (h : PlaylistResponse e p.id items r) (hrun : fromXMLElement e p = some (.ok (), p')) :
    p'.tracks = some r.items := by
  have hread : p.Readable items := by
    obtain ⟨version, hlayout, hversion⟩ := h.layout
    cases items with
    | none =>
      have hnil : r.items = [] := h.items
      obtain ⟨author, name, hrun'⟩ := fromXMLElement_run hlayout hversion p
      rw [hrun'] at hrun
      have hsize := size_of_checked (congrArg Prod.fst (Option.some.inj hrun))
      rw [hnil] at hsize
      exact List.length_eq_zero_iff.mp (Int.ofNat.inj hsize)
    | some text =>
      obtain ⟨author, name, hrun'⟩ := fromXMLElement_add_run hlayout hversion p
      intro htrim
      rw [hrun', trackItems_blank p.id htrim] at hrun
      cases hrun
  obtain ⟨q, hq, htracks, -, -⟩ := (reload_iff h).mpr hread
  rw [hrun] at hq
  cases hq
  exact htracks

end Playlist

/-! ## Containers -/

namespace PlaylistContainer

def checked (c : PlaylistContainer) (size checksum : Int) : Except Exn Unit :=
  if (c.items.length : Int) ≠ size then .error .runtimeException
  else
    match c.calculateChecksum with
    | .error e => .error e
    | .ok calculated => if calculated ≠ checksum then .error .runtimeException else .ok ()

def versioned (c : PlaylistContainer) (revision checksum : Int) : PlaylistContainer :=
  { c with revision := revision, checksum := checksum }

theorem readVersion_run {v : XMLElement} {revision size checksum flag : Int}
    (h : Version v.getText revision size checksum flag) (c : PlaylistContainer) :
    readVersion v c = some (checked c size checksum, versioned c revision checksum) := by
  obtain ⟨x, y, z, w, hparts, hx, hy, hz, -⟩ := h
  have hcalc : (versioned c revision checksum).calculateChecksum = c.calculateChecksum := rfl
  have hrun : readVersion v c = (if ((versioned c revision checksum).items.length : Int) ≠ size
      then Proc.throw .runtimeException
      else Proc.ofExcept (versioned c revision checksum).calculateChecksum >>= fun calculated =>
        if calculated ≠ checksum then Proc.throw .runtimeException else pure ())
        (versioned c revision checksum) := by
    simp only [readVersion, hparts, part, number, List.getElem?_cons_zero,
      List.getElem?_cons_succ, Proc.ofOption_some, Proc.pure_bind, hx, hy, hz,
      Proc.modify_bind, Proc.get_bind]
    rfl
  rw [hrun, hcalc, checked, Proc.ite_run]
  show (if (c.items.length : Int) ≠ size then _ else _) = _
  by_cases hne : (c.items.length : Int) ≠ size
  · rw [if_pos hne, if_pos hne]
    rfl
  · rw [if_neg hne, if_neg hne]
    cases c.calculateChecksum with
    | error e => rfl
    | ok calculated =>
      rw [Proc.ofExcept_ok, Proc.pure_bind, Proc.ite_run]
      show _ = some ((if calculated ≠ checksum then Except.error Exn.runtimeException
        else Except.ok ()), _)
      by_cases hc : calculated ≠ checksum
      · rw [if_pos hc, if_pos hc]
        rfl
      · rw [if_neg hc, if_neg hc]
        rfl

theorem ids_addItems (store : Text → Nat) (items : List Item) (l : List Text) :
    (l.foldl (addItem store) items).map Item.id =
      Unseen.addUnseen (items.map Item.id) (l.map playlistUUID) := by
  induction l generalizing items with
  | nil => rfl
  | cons item l ih =>
    rw [List.foldl_cons, ih, List.map_cons, Unseen.addUnseen_cons, addItem]
    congr 1
    by_cases h : playlistUUID item ∈ items.map Item.id
    · rw [if_pos h, if_pos h]
    · rw [if_neg h, if_neg h, List.map_append]
      rfl

/-- The items after the response. -/
def merged (store : Text → Nat) (c : PlaylistContainer) : Option Text → List Item
  | none => c.items
  | some text => (split ',' text).foldl (addItem store) c.items

theorem fromXMLElement_run (store : Text → Nat) {e : XMLElement} {items : Option Text}
    {version : Text} (h : Layout e items version) {revision size checksum flag : Int}
    (hv : Version version revision size checksum flag) (c : PlaylistContainer) :
    ∃ id, fromXMLElement store e c =
      let q := { c with id := id, items := merged store c items }
      some (checked q size checksum, versioned q revision checksum) := by
  obtain ⟨next, change, ops, v, hnext, hchange, hops, hversion, rfl, hadd⟩ := h
  refine ⟨((change.getChildText "user").map trim).orElse fun _ => c.id, ?_⟩
  have hrun := readVersion_run hv
    { c with
      id := ((change.getChildText "user").map trim).orElse fun _ => c.id
      items := merged store c items }
  cases items with
  | none =>
    have hadd : ops.getChild "add" = none := by simpa using hadd
    simp only [fromXMLElement, orNull, hnext, hchange, hops, hversion, hadd, Proc.ofOption_some,
      Proc.pure_bind]
    cases huser : change.getChildText "user" with
    | none =>
      rw [huser] at hrun
      exact hrun
    | some user =>
      rw [huser] at hrun
      exact hrun
  | some text =>
    obtain ⟨add, hadd, htext⟩ := Option.map_eq_some_iff.mp hadd
    simp only [fromXMLElement, orNull, hnext, hchange, hops, hversion, hadd, htext,
      Proc.ofOption_some, Proc.pure_bind]
    cases huser : change.getChildText "user" with
    | none =>
      rw [huser] at hrun
      exact hrun
    | some user =>
      rw [huser] at hrun
      exact hrun

theorem checked_eq_ok {c : PlaylistContainer} {size checksum : Int}
    (hsize : (c.items.length : Int) = size) (hsum : c.calculateChecksum = .ok checksum) :
    checked c size checksum = .ok () := by
  rw [checked, if_neg (not_not.mpr hsize), hsum]
  exact if_neg (not_not.mpr rfl)

theorem length_of_checked {c : PlaylistContainer} {size checksum : Int}
    (h : checked c size checksum = .ok ()) : (c.items.length : Int) = size := by
  by_contra hne
  rw [checked, if_pos hne] at h
  cases h

/-- The call returns, and the container is what the response says. -/
def Reloaded (out : Option (Except Exn Unit × PlaylistContainer)) (r : Response) : Prop :=
  ∃ c, out = some (.ok (), c) ∧ c.ids = r.items ∧ c.revision = r.revision ∧
    c.checksum = r.checksum

/-- The container is read exactly when the merged items are those of the response. -/
theorem reloaded_iff_merged (store : Text → Nat) {e : XMLElement} {items : Option Text}
    {r : Response} (h : ContainerResponse e items r) (c : PlaylistContainer) :
    Reloaded (fromXMLElement store e c) r ↔ (merged store c items).map Item.id = r.items := by
  obtain ⟨version, hlayout, hversion⟩ := h.layout
  obtain ⟨id, hrun⟩ := fromXMLElement_run store hlayout hversion c
  rw [hrun]
  constructor
  · rintro ⟨c', hc', hids, -, -⟩
    have hc' : versioned _ _ _ = c' := congrArg Prod.snd (Option.some.inj hc')
    rw [← hc'] at hids
    exact hids
  · intro hids
    have hok : checked { c with id := id, items := merged store c items } r.items.length
        r.checksum = .ok () := by
      refine checked_eq_ok ?_ ?_
      · rw [← hids, List.length_map]
      · rw [calculateChecksum, ids, hids]
        exact h.checksum
    exact ⟨_, congrArg (fun x => some (x, _)) hok, hids, rfl, rfl⟩

/-- What a new container has read are the items of the response. -/
theorem ids_of_ok (store : Text → Nat) {e : XMLElement} {items : Option Text} {r : Response}
    {c : PlaylistContainer} (h : ContainerResponse e items r)
    (hrun : fromXMLElement store e .new = some (.ok (), c)) :
    c.ids = r.items ∧ c.checksum = r.checksum := by
  obtain ⟨version, hlayout, hversion⟩ := h.layout
  obtain ⟨id, hrun'⟩ := fromXMLElement_run store hlayout hversion .new
  rw [hrun'] at hrun
  have hchecked := congrArg Prod.fst (Option.some.inj hrun)
  have hlength : ((merged store .new items).map Item.id).length = r.items.length := by
    rw [List.length_map]
    exact Int.ofNat.inj (length_of_checked hchecked)
  have hmerged : (merged store .new items).map Item.id = r.items := by
    have hitems := h.items
    cases items with
    | none => exact hitems.symm
    | some text =>
      have hids : (merged store .new (some text)).map Item.id =
          Unseen.addUnseen [] ((split ',' text).map playlistUUID) := ids_addItems store [] _
      rw [hids] at hlength ⊢
      by_cases htrim : trim text = []
      · have hnil : r.items = [] := by
          rw [hitems]
          simp [listed, htrim]
        rw [hnil, split_blank htrim] at hlength
        simp [Unseen.addUnseen] at hlength
      · have hlist : r.items = (split ',' text).map playlistUUID := by
          rw [hitems]
          simp [listed, htrim]
        rw [← hlist] at hlength ⊢
        exact Unseen.addUnseen_of_length (by rw [hlength]; simp)
  have hc : versioned _ _ _ = c := congrArg Prod.snd (Option.some.inj hrun)
  rw [← hc]
  exact ⟨hmerged, rfl⟩

/-- A response with the items, of these ids, is read into the container. -/
def Readable (c : PlaylistContainer) (ids : List Text) : Option Text → Prop
  | none => c.items = []
  | some text => trim text ≠ [] ∧
      ∃ new, ids = c.ids ++ new ∧ new.Nodup ∧ ∀ id ∈ new, id ∉ c.ids

theorem reload_iff (store : Text → Nat) {e : XMLElement} {items : Option Text} {r : Response}
    (h : ContainerResponse e items r) (c : PlaylistContainer) :
    Reloaded (fromXMLElement store e c) r ↔ c.Readable r.items items := by
  rw [reloaded_iff_merged store h c]
  have hitems := h.items
  cases items with
  | none =>
    have hnil : r.items = [] := hitems
    rw [hnil]
    exact List.map_eq_nil_iff
  | some text =>
    have hids : (merged store c (some text)).map Item.id =
        Unseen.addUnseen c.ids ((split ',' text).map playlistUUID) := ids_addItems store c.items _
    rw [hids]
    by_cases htrim : trim text = []
    · have hnil : r.items = [] := by
        rw [hitems]
        simp [listed, htrim]
      rw [hnil, split_blank htrim, List.map_singleton, Unseen.addUnseen_cons]
      refine ⟨fun h => ?_, fun h => absurd htrim h.1⟩
      by_cases hmem : playlistUUID text ∈ c.ids
      · rw [if_pos hmem] at h
        rw [show c.ids = [] from h] at hmem
        cases hmem
      · rw [if_neg hmem] at h
        exact absurd h (by simp [Unseen.addUnseen])
    · have hlist : r.items = (split ',' text).map playlistUUID := by
        rw [hitems]
        simp [listed, htrim]
      rw [← hlist, Unseen.addUnseen_eq_self]
      exact ⟨fun h => ⟨htrim, h⟩, fun h => h.2⟩

end PlaylistContainer

/-! ## Every prior state -/

/-- **Into which local states a consistent response is read.** -/
theorem reload_prior_iff (store : Text → Nat) (e : XMLElement) (items : Option Text) (r : Response)
    (p : Playlist) (c : PlaylistContainer) :
    (PlaylistResponse e p.id items r →
        (Playlist.Reloaded (Playlist.fromXMLElement e p) r ↔ p.Readable items)) ∧
      (ContainerResponse e items r →
        (PlaylistContainer.Reloaded (PlaylistContainer.fromXMLElement store e c) r ↔
          c.Readable r.items items)) :=
  ⟨fun h => Playlist.reload_iff h, fun h => PlaylistContainer.reload_iff store h c⟩

/-- A response as the server sends it. -/
def response (ops : List XMLElement) (version : String) : XMLElement :=
  .element "playlist" [.element "next-change"
    [.element "change" [.element "ops" ops, .element "user" [.text "kent".toList]],
      .element "version" [.text version.toList]]]

/-- The empty list, revision 2. -/
def emptied : Response := ⟨[], 2, 1, 0⟩

theorem layout_emptied :
    Layout (response [] "0000000002,0000000000,0000000001,0") none
      "0000000002,0000000000,0000000001,0".toList :=
  ⟨_, _, _, _, rfl, rfl, rfl, rfl, by decide, rfl⟩

theorem version_emptied :
    Version "0000000002,0000000000,0000000001,0".toList emptied.revision emptied.items.length
      emptied.checksum emptied.flag :=
  ⟨"0000000002".toList, "0000000000".toList, "0000000001".toList, "0".toList, by decide, by decide,
    by decide, by decide, by decide⟩

theorem playlistResponse_emptied (id : Text) :
    PlaylistResponse (response [] "0000000002,0000000000,0000000001,0") id none emptied :=
  ⟨⟨_, layout_emptied, version_emptied⟩, nofun, rfl, rfl⟩

theorem containerResponse_emptied :
    ContainerResponse (response [] "0000000002,0000000000,0000000001,0") none emptied :=
  ⟨⟨_, layout_emptied, version_emptied⟩, rfl, rfl⟩

theorem reload_prior_iff_emptied :
    (Playlist.Reloaded
        (Playlist.fromXMLElement (response [] "0000000002,0000000000,0000000001,0")
          ⟨[], none, none, some [], none, none, none, false⟩) emptied ↔
      Playlist.Readable ⟨[], none, none, some [], none, none, none, false⟩ none) ∧
    (PlaylistContainer.Reloaded
        (PlaylistContainer.fromXMLElement (fun _ => 0)
          (response [] "0000000002,0000000000,0000000001,0") .new) emptied ↔
      PlaylistContainer.Readable .new emptied.items none) :=
  have h := reload_prior_iff (fun _ => 0) _ none emptied
    ⟨[], none, none, some [], none, none, none, false⟩ .new
  ⟨h.1 (playlistResponse_emptied []), h.2 containerResponse_emptied⟩

/-- **The last track, or the last playlist, that the server has removed stays.** -/
theorem emptied_not_reloaded :
    ¬ Playlist.Reloaded
        (Playlist.fromXMLElement (response [] "0000000002,0000000000,0000000001,0")
          ⟨[], none, none, some ["68e0920f76e14fdd48322848bca7ab7d".toList], some 1, some 1,
            some false, true⟩) emptied ∧
      ¬ PlaylistContainer.Reloaded
        (PlaylistContainer.fromXMLElement (fun _ => 0)
          (response [] "0000000002,0000000000,0000000001,0")
          ⟨none, [⟨0, "68e0920f76e14fdd48322848bca7ab7d".toList⟩], 1, 1, true⟩) emptied := by
  constructor
  · rw [Playlist.reload_iff (playlistResponse_emptied _)]
    simp [Playlist.Readable]
  · rw [PlaylistContainer.reload_iff _ containerResponse_emptied]
    simp [PlaylistContainer.Readable]

end Despotify.Java

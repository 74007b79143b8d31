import Despotify.Lib.Tracks
import Mathlib.Order.Lattice

/-!
# Which file a track plays

The loop of `parse_tracks` over the `<file>` elements raises `file_bitrate` and
stores `file_id` under different conditions.

* `parseFiles_eq`: what is left of the whole list.  The bitrate is the highest, or
  without `high_bitrate` the first that is not 0; the id is that of the last entry
  with an id whose bitrate is not above it.
* `selected_iff`: these two belong together exactly when some Ogg Vorbis file of
  that bitrate has the id.
* `higherFirst_not_selected`: a list on which they do not.
-/

namespace Despotify.Lib

open Gateway

/-! ## The entries the loop takes -/

/-- The bitrate of an Ogg Vorbis file. -/
def oggBitrate (file : Ezxml) : Option Nat :=
  match file.getAttr "format" with
  | none => none
  | some fmt =>
    match (scan oggFormat fmt).1 with
    | .unsigned n :: _ => some n.toNat
    | _ => none

/-- The bitrates and ids of the entries that are not passed over for their format. -/
def entries : (Nat → UInt32) → List Ezxml → List (Nat × Option CString)
  | _, [] => []
  | junk, file :: files =>
    match bitrateOf (junk 0) file with
    | none => entries (fun i => junk (i + 1)) files
    | some bitrate => (bitrate, file.getAttr "id") :: entries (fun i => junk (i + 1)) files

/-- `file_bitrate` behind the entries. -/
def finalRate (highBitrate : Bool) : Nat → List (Nat × Option CString) → Nat
  | rate, [] => rate
  | rate, (bitrate, _) :: es =>
    finalRate highBitrate
      (if rate < bitrate ∧ (highBitrate ∨ rate = 0) then bitrate else rate) es

/-- The bitrate wanted: the highest, or the first that is not 0. -/
def wantedRate (highBitrate : Bool) (es : List (Nat × Option CString)) : Nat :=
  if highBitrate then (es.map Prod.fst).foldl max 0
  else ((es.map Prod.fst).find? (· ≠ 0)).getD 0

/-- The id of the last entry with one, of those up to a bitrate. -/
def lastId (rate : Nat) (es : List (Nat × Option CString)) : Option CString :=
  ((es.filter (·.1 ≤ rate)).filterMap Prod.snd).getLast?

variable {highBitrate : Bool} {rate : Nat} {es : List (Nat × Option CString)}

theorem le_finalRate (highBitrate : Bool) (rate : Nat) (es : List (Nat × Option CString)) :
    rate ≤ finalRate highBitrate rate es := by
  induction es generalizing rate with
  | nil => exact le_rfl
  | cons e es ih =>
    refine le_trans ?_ (ih _)
    split <;> omega

/-- Without `high_bitrate` the first bitrate stays. -/
theorem finalRate_of_ne_zero (hrate : rate ≠ 0) : finalRate false rate es = rate := by
  induction es with
  | nil => rfl
  | cons e es ih => rw [finalRate, if_neg fun h => h.2.elim nofun hrate, ih]

theorem finalRate_true : finalRate true rate es = (es.map Prod.fst).foldl max rate := by
  induction es generalizing rate with
  | nil => rfl
  | cons e es ih =>
    rw [finalRate, ih, List.map_cons, List.foldl_cons]
    congr 1
    by_cases hlt : rate < e.1
    · rw [if_pos ⟨hlt, Or.inl rfl⟩]
      omega
    · rw [if_neg fun h => hlt h.1]
      omega

theorem finalRate_eq_wantedRate : finalRate highBitrate 0 es = wantedRate highBitrate es := by
  cases highBitrate with
  | true => exact finalRate_true
  | false =>
    induction es with
    | nil => rfl
    | cons e es ih =>
      rw [finalRate, wantedRate, List.map_cons]
      by_cases he : e.1 = 0
      · rw [if_neg (by omega), ih, wantedRate, List.find?_cons_of_neg (by simp [he])]
        rfl
      · rw [if_pos ⟨by omega, Or.inr rfl⟩, finalRate_of_ne_zero he,
          List.find?_cons_of_pos (by simp [he])]
        rfl

/-- An entry is passed over exactly when its bitrate is above the final one. -/
theorem skipped_iff (highBitrate : Bool) (rate : Nat) (e : Nat × Option CString)
    (es : List (Nat × Option CString)) :
    (rate < e.1 ∧ ¬ (highBitrate = true ∨ rate = 0)) ↔
      finalRate highBitrate rate (e :: es) < e.1 := by
  rw [finalRate]
  constructor
  · rintro ⟨hlt, hlow⟩
    rw [not_or] at hlow
    obtain ⟨hlow, hrate⟩ := hlow
    rw [Bool.not_eq_true] at hlow
    subst hlow
    rw [if_neg fun h => h.2.elim nofun hrate, finalRate_of_ne_zero hrate]
    exact hlt
  · intro hlt
    have hle := le_finalRate highBitrate
      (if rate < e.1 ∧ (highBitrate = true ∨ rate = 0) then e.1 else rate) es
    by_cases htake : rate < e.1 ∧ (highBitrate = true ∨ rate = 0)
    · rw [if_pos htake] at hlt hle
      omega
    · rw [if_neg htake] at hlt hle
      exact ⟨by omega, fun h => htake ⟨by omega, h⟩⟩

theorem lastId_cons (e : Nat × Option CString) :
    lastId rate (e :: es) = if e.1 ≤ rate then (lastId rate es).or e.2 else lastId rate es := by
  obtain ⟨bitrate, id⟩ := e
  unfold lastId
  by_cases hle : bitrate ≤ rate
  · rw [if_pos hle, List.filter_cons, decide_eq_true hle]
    cases id with
    | none => exact (Option.or_none).symm
    | some id =>
      have hid : Prod.snd (bitrate, some id) = some id := rfl
      rw [if_pos rfl, List.filterMap_cons_some hid, List.getLast?_cons]
      cases (List.filterMap Prod.snd (List.filter (fun x => decide (x.1 ≤ rate)) es)).getLast? <;>
        rfl
  · rw [if_neg hle, List.filter_cons, decide_eq_false hle]
    rfl

/-! ## The loop -/

/-- A track whose bitrate, id and `playable` are those of entries up to a bitrate. -/
def Track.withFile (t : Track) (rate : Nat) (id : Option CString) : Track :=
  { t with
    fileBitrate := rate
    fileId := (id.map (strncpy · 41)).getD t.fileId
    playable := t.playable || id.isSome }

theorem withFile_withFile (t : Track) (rate rate' : Nat) (id id' : Option CString) :
    (t.withFile rate id).withFile rate' id' = t.withFile rate' (id'.or id) := by
  cases id' with
  | none =>
    simp only [Track.withFile, Option.map_none, Option.getD_none, Option.isSome_none,
      Bool.or_false, Option.none_or]
  | some id' => simp [Track.withFile]

/-- One entry, by the bitrate the list comes to. -/
theorem parseFile_eq (junk : UInt32) (file : Ezxml) (t : Track) {bitrate : Nat}
    (hb : bitrateOf junk file = some bitrate) :
    parseFile highBitrate junk file t =
      t.withFile
        (if t.fileBitrate < bitrate ∧ (highBitrate ∨ t.fileBitrate = 0) then bitrate
          else t.fileBitrate)
        (if t.fileBitrate < bitrate ∧ ¬ (highBitrate ∨ t.fileBitrate = 0) then none
          else file.getAttr "id") := by
  simp only [parseFile, hb]
  by_cases hskip : t.fileBitrate < bitrate ∧ ¬ (highBitrate ∨ t.fileBitrate = 0)
  · rw [if_pos hskip, if_pos hskip, if_neg fun h => hskip.2 h.2]
    simp [Track.withFile]
  · have hrate : (if t.fileBitrate < bitrate ∧ (highBitrate ∨ t.fileBitrate = 0) then bitrate
        else t.fileBitrate) = if t.fileBitrate < bitrate then bitrate else t.fileBitrate := by
      by_cases hlt : t.fileBitrate < bitrate
      · rw [if_pos hlt, if_pos ⟨hlt, by_contra fun h => hskip ⟨hlt, h⟩⟩]
      · rw [if_neg hlt, if_neg fun h => hlt h.1]
    rw [if_neg hskip, if_neg hskip, hrate]
    cases file.getAttr "id" <;> simp [Track.withFile]

theorem parseFiles_eq (junk : Nat → UInt32) (files : List Ezxml) (t : Track) :
    parseFiles highBitrate junk files t =
      t.withFile (finalRate highBitrate t.fileBitrate (entries junk files))
        (lastId (finalRate highBitrate t.fileBitrate (entries junk files))
          (entries junk files)) := by
  induction files generalizing junk t with
  | nil => simp [parseFiles, entries, finalRate, lastId, Track.withFile]
  | cons file files ih =>
    rw [parseFiles, ih]
    cases hb : bitrateOf (junk 0) file with
    | none => simp only [parseFile, hb, entries]
    | some bitrate =>
      have hskip := skipped_iff highBitrate t.fileBitrate (bitrate, file.getAttr "id")
        (entries (fun i => junk (i + 1)) files)
      simp only [entries, hb, parseFile_eq _ _ _ hb, withFile_withFile, lastId_cons]
      rw [finalRate] at hskip ⊢
      congr 1
      by_cases h : t.fileBitrate < bitrate ∧ ¬ (highBitrate ∨ t.fileBitrate = 0)
      · rw [if_pos h, if_neg (not_le.mpr (hskip.mp h)), Option.or_none]
        rfl
      · rw [if_neg h, if_pos (not_lt.mp fun hlt => h (hskip.mpr hlt))]
        rfl

/-! ## The track -/

/-- A playable track has the id and the bitrate of one Ogg Vorbis file, with
`high_bitrate` the highest of those with an id. -/
def Selected (highBitrate : Bool) (files : List Ezxml) (t : Track) : Prop :=
  t.playable = true → ∃ file ∈ files,
    file.getAttr "id" = some t.fileId ∧ oggBitrate file = some t.fileBitrate ∧
      (highBitrate = true → ∀ other ∈ files, (other.getAttr "id").isSome →
        ∀ bitrate, oggBitrate other = some bitrate → bitrate ≤ t.fileBitrate)

/-- The id stored for the entry taken last is that of an Ogg Vorbis file of the
bitrate wanted. -/
def TakenMatches (highBitrate : Bool) (junk : Nat → UInt32) (files : List Ezxml) : Prop :=
  ∀ id, lastId (wantedRate highBitrate (entries junk files)) (entries junk files) = some id →
    ∃ file ∈ files, file.getAttr "id" = some (strncpy id 41) ∧
      oggBitrate file = some (wantedRate highBitrate (entries junk files))

/-- The `<file>` elements of a `<track>`. -/
def filesOf (track : Ezxml) : List Ezxml := ezxmlGet (some track) ["files", "file"]

/-- A track without its restrictions. -/
def Track.unrestricted (t : Track) : Track := { t with allowed := none, forbidden := none }

/-- The restrictions set no other field. -/
theorem parseRestrictions_unrestricted (rs : List Ezxml) (t : Track) :
    (rs.foldl parseRestriction t).unrestricted = t.unrestricted := by
  induction rs generalizing t with
  | nil => rfl
  | cons r rs ih =>
    rw [List.foldl_cons, ih]
    unfold parseRestriction
    split
    · rfl
    · split <;> rfl

theorem restrictions_keep {β : Type} (f : Track → β) (hf : ∀ t, f t.unrestricted = f t)
    (rs : List Ezxml) (t : Track) : f (rs.foldl parseRestriction t) = f t := by
  rw [← hf, parseRestrictions_unrestricted, hf]

/-- Of a fresh track. -/
theorem fillTrack_file (highBitrate : Bool) (locals : Locals) (track : Ezxml) (id : CString) :
    let es := entries locals.bitrate (filesOf track)
    let t := fillTrack highBitrate locals track { trackId := id }
    t.fileBitrate = wantedRate highBitrate es ∧
      t.playable = (lastId (wantedRate highBitrate es) es).isSome ∧
      t.fileId = ((lastId (wantedRate highBitrate es) es).map (strncpy · 41)).getD [] := by
  have hid := restrictions_keep Track.fileId fun _ => rfl
  have hrate := restrictions_keep Track.fileBitrate fun _ => rfl
  have hplay := restrictions_keep Track.playable fun _ => rfl
  simp only [fillTrack, hid, hrate, hplay, parseFiles_eq, finalRate_eq_wantedRate,
    Track.withFile, filesOf, Bool.false_or, and_self]

theorem fillTrack_trackId (highBitrate : Bool) (locals : Locals) (track : Ezxml) (t : Track) :
    (fillTrack highBitrate locals track t).trackId =
      xmlstrncpy t.trackId 33 (some track) ["id"] := by
  have hid := restrictions_keep Track.trackId fun _ => rfl
  simp only [fillTrack, hid, parseFiles_eq, Track.withFile]

theorem fillTrack_artist (highBitrate : Bool) (locals : Locals) (track : Ezxml) (t : Track) :
    (fillTrack highBitrate locals track t).artist =
      parseArtists (track.children "artist") (track.children "artist-id") := by
  have hartist := restrictions_keep Track.artist fun _ => rfl
  simp only [fillTrack, hartist, parseFiles_eq, Track.withFile]

theorem bitrateOf_of_ogg {junk : UInt32} {file : Ezxml} {bitrate : Nat}
    (hb : oggBitrate file = some bitrate) : bitrateOf junk file = some bitrate := by
  unfold oggBitrate at hb
  unfold bitrateOf
  cases hf : file.getAttr "format" with
  | none =>
    rw [hf] at hb
    cases hb
  | some fmt =>
    simp only [hf] at hb ⊢
    generalize scan oggFormat fmt = result at hb ⊢
    obtain ⟨values, ended⟩ := result
    cases values with
    | nil => cases hb
    | cons v vs =>
      cases v with
      | word _ => cases hb
      | unsigned n =>
        have hcount : scanCount (Value.unsigned n :: vs, ended) ≠ 0 := by
          simp only [scanCount, List.length_cons]
          omega
        exact (if_neg hcount).trans hb

theorem oggBitrate_mem {junk : Nat → UInt32} {files : List Ezxml} {file : Ezxml} {bitrate : Nat}
    (hmem : file ∈ files) (hb : oggBitrate file = some bitrate) :
    (bitrate, file.getAttr "id") ∈ entries junk files := by
  induction files generalizing junk with
  | nil => cases hmem
  | cons f files ih =>
    rw [entries]
    rcases List.mem_cons.mp hmem with rfl | hmem
    · rw [bitrateOf_of_ogg hb]
      exact List.mem_cons_self
    · split
      · exact ih hmem
      · exact List.mem_cons_of_mem _ (ih hmem)

theorem le_wantedRate (es : List (Nat × Option CString)) {e : Nat × Option CString} (he : e ∈ es) :
    e.1 ≤ wantedRate true es := by
  rw [← finalRate_eq_wantedRate]
  generalize (0 : Nat) = rate
  induction es generalizing rate with
  | nil => cases he
  | cons f es ih =>
    rcases List.mem_cons.mp he with rfl | he
    · refine le_trans ?_ (le_finalRate true _ es)
      by_cases hlt : rate < e.1
      · rw [if_pos ⟨hlt, Or.inl rfl⟩]
      · rw [if_neg fun h => hlt h.1]
        omega
    · exact ih he _

/-- **What is stored belongs together** exactly when the entry taken last has the id
of an Ogg Vorbis file of the bitrate wanted. -/
theorem selected_iff (highBitrate : Bool) (locals : Locals) (track : Ezxml) (id : CString) :
    Selected highBitrate (filesOf track) (fillTrack highBitrate locals track { trackId := id }) ↔
      TakenMatches highBitrate locals.bitrate (filesOf track) := by
  obtain ⟨hrate, hplay, hid⟩ := fillTrack_file highBitrate locals track id
  unfold Selected TakenMatches
  rw [hrate, hplay, hid]
  generalize hes : entries locals.bitrate (filesOf track) = es
  cases hlast : lastId (wantedRate highBitrate es) es with
  | none => exact iff_of_true nofun nofun
  | some last =>
    constructor
    · intro h id' hid'
      cases hid'
      obtain ⟨file, hfile, hfid, hbit, -⟩ := h rfl
      exact ⟨file, hfile, hfid, hbit⟩
    · rintro h -
      obtain ⟨file, hfile, hfid, hbit⟩ := h last rfl
      refine ⟨file, hfile, hfid, hbit, ?_⟩
      rintro rfl other hother - bitrate hbitrate
      rw [← hes]
      exact le_wantedRate _ (oggBitrate_mem hother hbitrate)

/-- The file of the higher bitrate is listed first. -/
def higherFirst : Ezxml :=
  .mk (ascii "track") [] []
    [.mk (ascii "files") [] []
      [.mk (ascii "file") []
        [(ascii "format", ascii "Ogg Vorbis,320,1"), (ascii "id", ascii "aa")] [],
      .mk (ascii "file") []
        [(ascii "format", ascii "Ogg Vorbis,160,1"), (ascii "id", ascii "bb")] []]]

/-- Its bitrate is stored with the id of the other. -/
theorem higherFirst_not_selected :
    ¬ Selected true (filesOf higherFirst) (fillTrack true {} higherFirst {}) := by
  intro h
  obtain ⟨file, hfile, hid, hrate, -⟩ := h (by decide)
  have hnone : ∀ file ∈ filesOf higherFirst,
      ¬ (file.getAttr "id" = some (fillTrack true {} higherFirst {}).fileId ∧
        oggBitrate file = some (fillTrack true {} higherFirst {}).fileBitrate) := by
    decide
  exact hnone file hfile ⟨hid, hrate⟩

end Despotify.Lib

import Despotify.Lib.Tracks

/-!
# Playlists

`struct ds_playlist` and its parsers in `lib/xml.c`.  `sscanf` writes the fields of
the version one by one, up to the first number that is missing; `junk` is what the
local `collab` holds before.

* `versionNumbers_cut`: a version that is cut keeps its numbers, all but the last.
* `trackIds`, `xmlParsePlaylist`: a new list of tracks, and the number of tracks
  that `<version>` puts in place of its length.
-/

namespace Despotify.Lib

open Gateway Linked

/-- `struct ds_playlist` without its link; `tracks` is a list in memory. -/
structure Playlist where
  name : CString := []
  author : CString := []
  playlistId : CString := []
  isCollaborative : Bool := false
  numTracks : Int := 0
  revision : UInt32 := 0
  checksum : UInt32 := 0
  tracks : Option Nat := none
deriving DecidableEq, Repr

/-! ## The version -/

/-- `"%u,%u,%u,%u"` -/
def versionFormat : List Directive :=
  [.unsigned] ++ literals "," ++ [.unsigned] ++ literals "," ++ [.unsigned] ++ literals "," ++
    [.unsigned]

/-- The numbers `sscanf` finds in a version. -/
def versionNumbers (s : CString) : List UInt32 :=
  (scan versionFormat s).1.map fun
    | .unsigned n => n
    | .word _ => 0

/-- The fields `sscanf` writes, and the flag. -/
def Playlist.setVersion (pl : Playlist) (junk : UInt32) (numbers : List UInt32) : Playlist :=
  { pl with
    revision := numbers[0]?.getD pl.revision
    numTracks := (numbers[1]?.map fun n => int32 n.toNat).getD pl.numTracks
    checksum := numbers[2]?.getD pl.checksum
    isCollaborative := numbers[3]?.getD junk != 0 }

/-- `xml_parse_version`, of the element `ezxml_vget` finds. -/
def xmlParseVersion (junk : UInt32) (pl : Playlist) : Option Ezxml → Playlist
  | none => pl
  -- `char ver[64]`
  | some r => pl.setVersion junk (versionNumbers (strncpy r.txt 64))

/-- `xml_parse_confirm`; without a root tag the name compared is `NULL`. -/
def xmlParseConfirm (junk : UInt32) (pl : Playlist) (top : Option Ezxml) : Option (Playlist × Bool) :=
  match top with
  | none => none
  | some root =>
    if (ascii "confirm").isPrefixOf root.name then
      some (xmlParseVersion junk pl (root.children "version").head?, true)
    else some (pl, false)

/-! ### A version that is cut

`ver` holds the first 63 bytes of the text. -/

/-- `sscanf` at the end of the input. -/
theorem scan_nil (format : List Directive) : (scan format []).1 = [] := by
  induction format with
  | nil => rfl
  | cons d format ih =>
    cases d with
    | literal c => rfl
    | space => exact ih
    | word width => simp [scan]
    | unsigned => rfl

/-- Digits, and what follows them. -/
def scanDigits (negative : Bool) (ds : CString) : Option (UInt32 × CString) :=
  match ds.takeWhile isdigit with
  | [] => none
  | digits => some (strtoul negative digits, ds.dropWhile isdigit)

theorem scanUnsigned_cons (c : UInt8) (s : CString) :
    scanUnsigned (c :: s) =
      scanDigits (some c = some 45) (if some c = some 45 ∨ some c = some 43 then s else c :: s) :=
  rfl

theorem scanDigits_append {negative : Bool} {ds rest : CString} {n : UInt32}
    (h : scanDigits negative ds = some (n, rest)) (u : CString) :
    (rest ≠ [] → scanDigits negative (ds ++ u) = some (n, rest ++ u)) ∧
      (scanDigits negative (ds ++ u)).isSome := by
  unfold scanDigits at h ⊢
  cases hd : ds.takeWhile isdigit with
  | nil =>
    rw [hd] at h
    cases h
  | cons d digits =>
    rw [hd] at h
    obtain ⟨hn, hrest⟩ := Prod.mk.inj (Option.some.inj h)
    constructor
    · intro hne
      have hlen : (ds.takeWhile isdigit).length ≠ ds.length := by
        intro hall
        have hparts := congrArg List.length (List.takeWhile_append_dropWhile (p := isdigit) (l := ds))
        rw [List.length_append, hall, hrest] at hparts
        exact hne (List.length_eq_zero_iff.mp (by omega))
      have hdrop : (ds.dropWhile isdigit).isEmpty = false := by
        rw [hrest]
        exact List.isEmpty_eq_false_iff.mpr hne
      rw [List.takeWhile_append, if_neg hlen, hd, List.dropWhile_append, hdrop, hrest, ← hn]
      rfl
    · have hne : (ds ++ u).takeWhile isdigit ≠ [] := by
        rw [List.takeWhile_append]
        split
        · cases ds with
          | nil => cases hd
          | cons _ _ => exact List.cons_ne_nil _ _
        · rw [hd]
          exact List.cons_ne_nil _ _
      split
      · contradiction
      · rfl

theorem scanUnsigned_append {t rest : CString} {n : UInt32} (h : scanUnsigned t = some (n, rest))
    (u : CString) :
    (rest ≠ [] → scanUnsigned (t ++ u) = some (n, rest ++ u)) ∧ (scanUnsigned (t ++ u)).isSome := by
  cases t with
  | nil => cases h
  | cons c t =>
    rw [scanUnsigned_cons] at h
    rw [List.cons_append, scanUnsigned_cons]
    split at h
    · rename_i hsign
      rw [if_pos hsign]
      exact scanDigits_append h u
    · rename_i hsign
      rw [if_neg hsign]
      exact scanDigits_append h u

/-- Numbers and literals only. -/
def Plain (format : List Directive) : Prop :=
  ∀ d ∈ format, d = .unsigned ∨ ∃ c, d = .literal c

/-- All values but the last are those of the whole input, which has no fewer. -/
theorem scan_append {format : List Directive} (hf : Plain format) (t u : CString) :
    (scan format t).1.dropLast <+: (scan format (t ++ u)).1 ∧
      (scan format t).1.length ≤ (scan format (t ++ u)).1.length := by
  induction format generalizing t with
  | nil => exact ⟨List.nil_prefix, Nat.le_refl _⟩
  | cons d format ih =>
    obtain ⟨hd, hf'⟩ := List.forall_mem_cons.mp hf
    rcases hd with rfl | ⟨c, rfl⟩
    · simp only [scan]
      cases hn : scanUnsigned (t.dropWhile isspace) with
      | none => exact ⟨List.nil_prefix, Nat.zero_le _⟩
      | some r =>
        obtain ⟨n, rest⟩ := r
        have hblank : (t.dropWhile isspace).isEmpty = false := by
          cases hb : t.dropWhile isspace with
          | nil => rw [hb] at hn; cases hn
          | cons _ _ => rfl
        obtain ⟨hsame, hsome⟩ := scanUnsigned_append hn u
        rw [List.dropWhile_append, hblank]
        by_cases hrest : rest = []
        · obtain ⟨⟨m, rest'⟩, hm⟩ := Option.isSome_iff_exists.mp hsome
          simp only [hrest, scan_nil, hm, Bool.false_eq_true, if_false]
          exact ⟨List.nil_prefix, by simp⟩
        · obtain ⟨hpre, hlen⟩ := ih hf' rest
          simp only [hsame hrest, Bool.false_eq_true, if_false]
          refine ⟨?_, Nat.succ_le_succ hlen⟩
          cases hvs : (scan format rest).1 with
          | nil => exact List.nil_prefix
          | cons v vs =>
            rw [hvs] at hpre
            exact (List.prefix_cons_inj _).mpr hpre
    · cases t with
      | nil => exact ⟨List.nil_prefix, Nat.zero_le _⟩
      | cons b t =>
        simp only [scan, List.cons_append]
        split
        · exact ih hf' t
        · exact ⟨List.nil_prefix, Nat.le_refl _⟩

theorem scan_length_le {format : List Directive} (hf : Plain format) (s : CString) :
    (scan format s).1.length ≤ format.count .unsigned := by
  induction format generalizing s with
  | nil => exact Nat.zero_le _
  | cons d format ih =>
    obtain ⟨hd, hf'⟩ := List.forall_mem_cons.mp hf
    rcases hd with rfl | ⟨c, rfl⟩
    · rw [List.count_cons_self]
      simp only [scan]
      split
      · exact Nat.zero_le _
      · exact Nat.succ_le_succ (ih hf' _)
    · rw [List.count_cons_of_ne (by simp)]
      cases s with
      | nil => exact Nat.zero_le _
      | cons b s =>
        simp only [scan]
        split
        · exact ih hf' s
        · exact Nat.zero_le _

theorem plain_append {f g : List Directive} (hf : Plain f) (hg : Plain g) : Plain (f ++ g) :=
  fun d hd => (List.mem_append.mp hd).elim (hf d) (hg d)

theorem plain_unsigned : Plain [.unsigned] := fun _ hd => .inl (List.mem_singleton.mp hd)

theorem plain_literals (s : String) : Plain (literals s) := by
  intro d hd
  obtain ⟨c, -, rfl⟩ := List.mem_map.mp hd
  exact .inr ⟨c, rfl⟩

theorem versionFormat_plain : Plain versionFormat := by
  have hcomma {f : List Directive} (hf : Plain f) : Plain (f ++ literals "," ++ [.unsigned]) :=
    plain_append (plain_append hf (plain_literals _)) plain_unsigned
  exact hcomma (hcomma (hcomma plain_unsigned))

theorem versionNumbers_length_le (s : CString) : (versionNumbers s).length ≤ 4 := by
  have hcount : versionFormat.count .unsigned = 4 := by decide
  rw [versionNumbers, List.length_map, ← hcount]
  exact scan_length_le versionFormat_plain s

/-- Four numbers in the part that `ver` holds are those of the text, the last one
perhaps cut. -/
theorem versionNumbers_cut {s : CString} (h : (versionNumbers (strncpy s 64)).length = 4) :
    ∃ rev num chk last last', versionNumbers (strncpy s 64) = [rev, num, chk, last] ∧
      versionNumbers s = [rev, num, chk, last'] := by
  obtain ⟨hpre, hlen⟩ := scan_append versionFormat_plain (strncpy s 64) (s.drop 63)
  have hle := versionNumbers_length_le s
  have hjoin : strncpy s 64 ++ s.drop 63 = s := List.take_append_drop 63 s
  rw [hjoin] at hpre hlen
  rw [versionNumbers, List.length_map] at h hle
  unfold versionNumbers
  generalize (scan versionFormat (strncpy s 64)).1 = cut at h hpre hlen ⊢
  generalize (scan versionFormat s).1 = whole at hpre hlen hle ⊢
  match cut, h with
  | [a, b, c, d], _ =>
    obtain ⟨tail, rfl⟩ := hpre
    simp only [List.dropLast_cons_cons, List.dropLast_singleton, List.length_cons, List.length_append,
      List.length_nil] at hlen hle
    match tail, (show tail.length = 1 by omega) with
    | [d'], _ => exact ⟨_, _, _, _, _, rfl, rfl⟩

/-! ## The list of tracks -/

/-- The ids in `<items>`.  Without the element `strtok` goes on with the string of an
earlier call, of which `stale` is left. -/
def trackIds (stale : List CString) (top : Option Ezxml) : List CString :=
  match ezxmlGet top ["next-change", "change", "ops", "add", "items"] with
  | [] => stale
  | items :: _ => strtok (ascii ",\n") (items.txt.dropWhile isspace)

/-- The list of `calloc`ed tracks: `prev->next = t`, and the first one is `root`. -/
def newTracks : List CString → Mem Track → Option Nat → Option Nat → Mem Track × Option Nat
  | [], mem, _, root => (mem, root)
  | id :: ids, mem, prev, root =>
    let t := mem.brk
    let mem' := mem.alloc { trackId := strncpy id 33 }
    match prev with
    | none => newTracks ids mem' (some t) (some t)
    | some p => newTracks ids (mem'.link p (some t)) (some t) root

/-- `xml_parse_playlist` of a list of tracks. -/
def xmlParsePlaylist (stale : List CString) (junk : UInt32) (mem : Mem Track) (pl : Playlist)
    (top : Option Ezxml) : Mem Track × Playlist :=
  let ids := trackIds stale top
  let (mem, root) := newTracks ids mem none none
  let pl := { pl with tracks := root, numTracks := ids.length }
  let pl := { pl with
    author := xmlstrncpy pl.author 256 top ["next-change", "change", "user"]
    name := xmlstrncpy pl.name 256 top ["next-change", "change", "ops", "name"] }
  (mem, xmlParseVersion junk pl (ezxmlGet top ["next-change", "version"]).head?)

end Despotify.Lib

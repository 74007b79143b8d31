import Despotify.Lib.Playlist
import Mathlib.Data.List.TakeDrop

/-!
# Changing a playlist

`despotify_rename_playlist` and `despotify_set_playlist_collaboration` differ in the
operation they send and the field they set when it is confirmed.

* `allOrNothing_iff`: the playlist is left with the confirmed values or unchanged
  exactly when a confirmation has a version of four numbers, or sets what was
  already there.
* `brokenVersion_not_allOrNothing`: a confirmation that leaves it half changed.
-/

namespace Despotify.Lib

open Gateway

/-! ## The document -/

/-- `%u` -/
def decimal (n : Nat) : CString := (Nat.toDigits 10 n).map fun c => UInt8.ofNat c.toNat

/-- `%010u` -/
def padded (n : Nat) : CString :=
  List.replicate (10 - (decimal n).length) 48 ++ decimal n

/-- `ezxml_ampencode` of character data. -/
def ampencode (s : CString) : CString :=
  s.flatMap fun c =>
    if c = 38 then ascii "&amp;"
    else if c = 60 then ascii "&lt;"
    else if c = 62 then ascii "&gt;"
    else if c = 13 then ascii "&#xD;"
    else [c]

def xmlGenTag (name : String) (content : CString) : CString :=
  ascii "<" ++ ascii name ++ ascii ">" ++ ampencode content ++
    ascii "</" ++ ascii name ++ ascii ">"

/-- `snprintf` into `size` bytes. -/
def snprintf (size : Nat) (s : CString) : CString := s.take (size - 1)

inductive Edit
  | name (name : CString)
  | collaboration (collaborative : Bool)
deriving DecidableEq, Repr

namespace Edit

/-- What stands in `<ops>`. -/
def ops : Edit → CString
  | .name newName => xmlGenTag "name" newName
  | .collaboration collaborative =>
    ascii "<pub>" ++ decimal collaborative.toNat ++ ascii "</pub>"

/-- The field set when the server confirms. -/
def apply : Edit → Playlist → Playlist
  | .name newName, pl => { pl with name := strncpy newName 256 }
  | .collaboration collaborative, pl => { pl with isCollaborative := collaborative }

/-- The field has the value asked for. -/
def Done : Edit → Playlist → Prop
  | .name newName, pl => pl.name = newName
  | .collaboration collaborative, pl => pl.isCollaborative = collaborative

/-- The field has what it can hold of that value. -/
def Stored : Edit → Playlist → Prop
  | .name newName, pl => pl.name = strncpy newName 256
  | .collaboration collaborative, pl => pl.isCollaborative = collaborative

/-- The value asked for fits the field. -/
def Fits : Edit → Prop
  | .name newName => newName.length < 256
  | .collaboration _ => True

def timeoutError : Edit → String
  | .name _ => "Timeout while renaming playlist"
  | .collaboration _ => "Timeout while setting playlist collaboration"

def failedError : Edit → String
  | .name _ => "Failed renaming playlist"
  | .collaboration _ => "Failed setting playlist collabor"

end Edit

def changeDocument (ops username : CString) (time : UInt32) (pl : Playlist) : CString :=
  ascii "<change><ops>" ++ ops ++ ascii "</ops><time>" ++ decimal time.toNat ++
    ascii "</time>" ++ xmlGenTag "user" username ++ ascii "</change><version>" ++
    padded (pl.revision + 1).toNat ++ ascii "," ++ padded (pl.numTracks % 2 ^ 32).toNat ++
    ascii "," ++ padded pl.checksum.toNat ++ ascii "," ++ decimal pl.isCollaborative.toNat ++
    ascii "</version>"

/-- What both calls give to `cmd_changeplaylist`: the document in `char xml[512]`. -/
def changeXml (edit : Edit) (username : CString) (time : UInt32) (pl : Playlist) : CString :=
  snprintf 512 (changeDocument edit.ops username time pl)

/-! ## The calls -/

/-- How the request ends. -/
inductive Reply
  | sendFailed
  | timeout
  | document (top : Option Ezxml)

structure Outcome where
  /-- the XML given to `cmd_changeplaylist` -/
  sent : Option CString := none
  /-- the playlist as `xml_parse_confirm` left it -/
  parsed : Option Playlist := none
  playlist : Playlist
  lastError : Option String := none
  confirmed : Bool := false
deriving DecidableEq, Repr

/-- The two calls; no value when `NULL` is read. -/
def changePlaylist (edit : Edit) (junk : UInt32) (username : CString) (time : UInt32)
    (pl : Playlist) (reply : Reply) : Option Outcome :=
  if pl.author ≠ username then
    some { playlist := pl, lastError := some "Not your playlist." }
  else
    let xml := changeXml edit username time pl
    match reply with
    | .sendFailed => some { sent := some xml, playlist := pl, lastError := some "Network error." }
    | .timeout => some { sent := some xml, playlist := pl, lastError := some edit.timeoutError }
    | .document top =>
      match xmlParseConfirm junk pl top with
      | none => none
      | some (parsed, true) => some
          { sent := some xml, parsed := some parsed, playlist := edit.apply parsed
            confirmed := true }
      | some (parsed, false) => some
          { sent := some xml, parsed := some parsed, playlist := parsed
            lastError := some edit.failedError }

def despotifyRenamePlaylist (junk : UInt32) (username : CString) (time : UInt32) (pl : Playlist)
    (name : CString) (reply : Reply) : Option Outcome :=
  changePlaylist (.name name) junk username time pl reply

def despotifySetPlaylistCollaboration (junk : UInt32) (username : CString) (time : UInt32)
    (pl : Playlist) (collaborative : Bool) (reply : Reply) : Option Outcome :=
  changePlaylist (.collaboration collaborative) junk username time pl reply

/-! ## All or nothing -/

/-- The playlist has the numbers of the version confirmed, and the value asked for. -/
def Confirmed (edit : Edit) (reply : Reply) (pl : Playlist) : Prop :=
  ∃ root r rev num chk last, reply = .document (some root) ∧
    (ascii "confirm").isPrefixOf root.name = true ∧ (root.children "version").head? = some r ∧
    versionNumbers r.txt = [rev, num, chk, last] ∧
    pl.revision = rev ∧ pl.numTracks = int32 num.toNat ∧ pl.checksum = chk ∧ edit.Done pl

/-- The call leaves the playlist with the confirmed values or unchanged, and nothing
it does depends on what an uninitialised local holds. -/
structure AllOrNothing (edit : Edit) (pl : Playlist) (reply : Reply)
    (call : UInt32 → Option Outcome) : Prop where
  initialised : ∀ junk junk', call junk = call junk'
  settled : ∃ out, call 0 = some out ∧ (out.playlist = pl ∨ Confirmed edit reply out.playlist)

/-- A confirmation that can be taken over whole: `ver` holds four numbers of its
version and the value fits, or all these are there already. -/
def Settles (edit : Edit) (pl : Playlist) (root : Ezxml) : Prop :=
  match (root.children "version").head? with
  | none => edit.Stored pl
  | some r => ∃ rev num chk last, versionNumbers (strncpy r.txt 64) = [rev, num, chk, last] ∧
      (edit.Fits ∨ edit.Stored pl ∧ pl.revision = rev ∧ pl.numTracks = int32 num.toNat ∧
        pl.checksum = chk ∧ pl.isCollaborative = (last != 0))

/-- When the call gets a reply, it is a document with a root tag, and a confirmation
can be taken over whole. -/
def Confirmable (edit : Edit) (username : CString) (pl : Playlist) (reply : Reply) : Prop :=
  pl.author = username → ∀ top, reply = .document top →
    ∃ root, top = some root ∧ ((ascii "confirm").isPrefixOf root.name = true → Settles edit pl root)

variable {edit : Edit} {junk : UInt32} {username : CString} {time : UInt32} {pl : Playlist}
  {reply : Reply} {root r : Ezxml}

theorem apply_eq_self_iff : edit.apply pl = pl ↔ edit.Stored pl := by
  cases edit with
  | name newName =>
    constructor
    · intro h
      exact (congrArg Playlist.name h).symm
    · intro h
      cases pl
      cases h
      rfl
  | collaboration c =>
    constructor
    · intro h
      exact (congrArg Playlist.isCollaborative h).symm
    · intro h
      cases pl
      cases h
      rfl

theorem done_apply_iff : edit.Done (edit.apply pl) ↔ edit.Fits := by
  cases edit with
  | name newName =>
    simp only [Edit.Done, Edit.apply, Edit.Fits, strncpy, List.take_eq_self_iff]
    omega
  | collaboration c => exact iff_of_true rfl trivial

/-- Four numbers are all taken over. -/
theorem xmlParseVersion_of_four {rev num chk last : UInt32}
    (h : versionNumbers (strncpy r.txt 64) = [rev, num, chk, last]) :
    xmlParseVersion junk pl (some r) =
      { pl with
        revision := rev, numTracks := int32 num.toNat, checksum := chk
        isCollaborative := last != 0 } := by
  have h0 : [rev, num, chk, last][0]? = some rev := rfl
  have h1 : [rev, num, chk, last][1]? = some num := rfl
  have h2 : [rev, num, chk, last][2]? = some chk := rfl
  have h3 : [rev, num, chk, last][3]? = some last := rfl
  rw [xmlParseVersion, h, Playlist.setVersion, h0, h1, h2, h3, Option.map_some, Option.getD_some,
    Option.getD_some, Option.getD_some, Option.getD_some]

/-- With fewer the flag is what the local was. -/
theorem xmlParseVersion_junk (h : (versionNumbers (strncpy r.txt 64)).length ≠ 4) :
    (xmlParseVersion junk pl (some r)).isCollaborative = (junk != 0) := by
  have hlen : (versionNumbers (strncpy r.txt 64)).length ≤ 4 := versionNumbers_length_le _
  have hnone : (versionNumbers (strncpy r.txt 64))[3]? = none :=
    List.getElem?_eq_none (by omega)
  rw [xmlParseVersion, Playlist.setVersion, hnone]
  rfl

/-- The call, once the reply is there. -/
theorem changePlaylist_document (hauthor : pl.author = username) (top : Option Ezxml) :
    changePlaylist edit junk username time pl (.document top) =
      (xmlParseConfirm junk pl top).map fun p =>
        { sent := some (changeXml edit username time pl)
          parsed := some p.1
          playlist := if p.2 then edit.apply p.1 else p.1
          lastError := if p.2 then none else some edit.failedError
          confirmed := p.2 } := by
  rw [changePlaylist, if_neg (not_not.mpr hauthor)]
  simp only
  cases xmlParseConfirm junk pl top with
  | none => rfl
  | some p =>
    obtain ⟨parsed, confirm⟩ := p
    cases confirm <;> rfl

theorem apply_fields (edit : Edit) (pl : Playlist) :
    (edit.apply pl).revision = pl.revision ∧ (edit.apply pl).numTracks = pl.numTracks ∧
      (edit.apply pl).checksum = pl.checksum := by
  cases edit <;> exact ⟨rfl, rfl, rfl⟩

theorem confirmed_apply {rev num chk last : UInt32}
    (hroot : (ascii "confirm").isPrefixOf root.name = true)
    (hr : (root.children "version").head? = some r)
    (hnumbers : versionNumbers r.txt = [rev, num, chk, last]) (hrev : pl.revision = rev)
    (hnum : pl.numTracks = int32 num.toNat) (hchk : pl.checksum = chk) (hfits : edit.Fits) :
    Confirmed edit (.document (some root)) (edit.apply pl) := by
  obtain ⟨h1, h2, h3⟩ := apply_fields edit pl
  exact ⟨root, r, rev, num, chk, last, rfl, hroot, hr, hnumbers, h1.trans hrev, h2.trans hnum,
    h3.trans hchk, done_apply_iff.mpr hfits⟩

/-- What a playlist comes to with four numbers is what it was. -/
theorem apply_eq_self_iff_of_not_fits {rev num chk : UInt32} {collab : Bool} (hfits : ¬ edit.Fits) :
    edit.apply { pl with
        revision := rev, numTracks := int32 num.toNat, checksum := chk
        isCollaborative := collab } = pl ↔
      edit.Stored pl ∧ pl.revision = rev ∧ pl.numTracks = int32 num.toNat ∧ pl.checksum = chk ∧
        pl.isCollaborative = collab := by
  cases edit with
  | collaboration c => exact absurd trivial hfits
  | name newName =>
    obtain ⟨name, author, playlistId, isCollaborative, numTracks, revision, checksum, tracks⟩ := pl
    simp only [Edit.apply, Edit.Stored, Playlist.mk.injEq, true_and, and_true]
    constructor
    · rintro ⟨hname, hcollab, hnum, hrev, hchk⟩
      exact ⟨hname.symm, hrev.symm, hnum.symm, hchk.symm, hcollab.symm⟩
    · rintro ⟨hname, hrev, hnum, hchk, hcollab⟩
      exact ⟨hname.symm, hcollab.symm, hnum.symm, hrev.symm, hchk.symm⟩

theorem allOrNothing_of_confirm (hauthor : pl.author = username)
    (hroot : (ascii "confirm").isPrefixOf root.name = true) :
    AllOrNothing edit pl (.document (some root))
        (fun junk => changePlaylist edit junk username time pl (.document (some root))) ↔
      Settles edit pl root := by
  have hparse : ∀ junk, xmlParseConfirm junk pl (some root) =
      some (xmlParseVersion junk pl (root.children "version").head?, true) :=
    fun junk => if_pos hroot
  have hcall : ∀ junk, changePlaylist edit junk username time pl (.document (some root)) =
      some
        { sent := some (changeXml edit username time pl)
          parsed := some (xmlParseVersion junk pl (root.children "version").head?)
          playlist := edit.apply (xmlParseVersion junk pl (root.children "version").head?)
          confirmed := true } := by
    intro junk
    rw [changePlaylist_document hauthor, hparse]
    rfl
  unfold Settles
  cases hr : (root.children "version").head? with
  | none =>
    rw [hr] at hcall
    constructor
    · rintro ⟨-, out, hout, hsettled⟩
      cases (hcall 0).symm.trans hout
      rcases hsettled with heq | ⟨_, _, _, _, _, _, hreply, _, hr', _⟩
      · exact apply_eq_self_iff.mp heq
      · cases hreply
        cases hr.symm.trans hr'
    · intro hstored
      exact ⟨fun junk junk' => (hcall junk).trans (hcall junk').symm, _, hcall 0,
        .inl (apply_eq_self_iff.mpr hstored)⟩
  | some r =>
    rw [hr] at hcall
    by_cases hfour : (versionNumbers (strncpy r.txt 64)).length = 4
    · obtain ⟨rev, num, chk, last, last', hcut, hwhole⟩ := versionNumbers_cut hfour
      simp only [xmlParseVersion_of_four hcut] at hcall
      constructor
      · rintro ⟨-, out, hout, hsettled⟩
        cases (hcall 0).symm.trans hout
        refine ⟨rev, num, chk, last, hcut, ?_⟩
        by_cases hfits : edit.Fits
        · exact .inl hfits
        rcases hsettled with heq | ⟨_, _, _, _, _, _, hreply, _, hr', hnum', -, -, -, hdone⟩
        · exact .inr ((apply_eq_self_iff_of_not_fits hfits).mp heq)
        · exact absurd (done_apply_iff.mp hdone) hfits
      · rintro ⟨_, _, _, _, hcut', hsettle⟩
        rw [hcut] at hcut'
        cases hcut'
        refine ⟨fun junk junk' => (hcall junk).trans (hcall junk').symm, _, hcall 0, ?_⟩
        by_cases hfits : edit.Fits
        · exact .inr (confirmed_apply hroot hr hwhole (by rfl) (by rfl) (by rfl) hfits)
        · exact .inl ((apply_eq_self_iff_of_not_fits hfits).mpr (hsettle.resolve_left hfits))
    · refine iff_of_false ?_ ?_
      · rintro ⟨hinit, -⟩
        have h01 := hinit 0 1
        simp only [hcall, Option.some.injEq, Outcome.mk.injEq, true_and] at h01
        have hflag := congrArg Playlist.isCollaborative h01.1
        rw [xmlParseVersion_junk hfour, xmlParseVersion_junk hfour] at hflag
        exact absurd hflag (by decide)
      · rintro ⟨_, _, _, _, hcut, -⟩
        rw [hcut] at hfour
        exact hfour rfl

/-- **Edits are all or nothing** exactly when a reply is a document, and a
confirmation has four numbers in its version or sets what was there. -/
theorem changePlaylist_allOrNothing_iff (edit : Edit) (username : CString) (time : UInt32)
    (pl : Playlist) (reply : Reply) :
    AllOrNothing edit pl reply (fun junk => changePlaylist edit junk username time pl reply) ↔
      Confirmable edit username pl reply := by
  unfold Confirmable
  by_cases hauthor : pl.author = username
  · cases reply with
    | sendFailed =>
      refine iff_of_true ⟨fun _ _ => rfl, _, if_neg (not_not.mpr hauthor), .inl rfl⟩ ?_
      exact fun _ _ h => nomatch h
    | timeout =>
      refine iff_of_true ⟨fun _ _ => rfl, _, if_neg (not_not.mpr hauthor), .inl rfl⟩ ?_
      exact fun _ _ h => nomatch h
    | document top =>
      cases top with
      | none =>
        refine iff_of_false ?_ ?_
        · rintro ⟨-, out, hout, -⟩
          rw [changePlaylist_document hauthor] at hout
          cases hout
        · intro h
          obtain ⟨root, hroot, -⟩ := h hauthor none rfl
          cases hroot
      | some root =>
        by_cases hroot : (ascii "confirm").isPrefixOf root.name = true
        · rw [allOrNothing_of_confirm hauthor hroot]
          constructor
          · rintro h - top htop
            cases htop
            exact ⟨root, rfl, fun _ => h⟩
          · intro h
            obtain ⟨root', heq, hsettles⟩ := h hauthor _ rfl
            cases heq
            exact hsettles hroot
        · have hparse : ∀ junk, xmlParseConfirm junk pl (some root) = some (pl, false) :=
            fun junk => if_neg hroot
          have hcall : ∀ junk, changePlaylist edit junk username time pl (.document (some root)) =
              some
                { sent := some (changeXml edit username time pl)
                  parsed := some pl
                  playlist := pl
                  lastError := some edit.failedError } := by
            intro junk
            rw [changePlaylist_document hauthor, hparse]
            rfl
          refine iff_of_true ⟨fun junk junk' => (hcall junk).trans (hcall junk').symm, _, hcall 0,
            .inl rfl⟩ ?_
          rintro - top htop
          cases htop
          exact ⟨root, rfl, fun h => absurd h hroot⟩
  · have hcall : ∀ junk, changePlaylist edit junk username time pl reply =
        some { playlist := pl, lastError := some "Not your playlist." } := fun _ => if_pos hauthor
    exact iff_of_true ⟨fun junk junk' => (hcall junk).trans (hcall junk').symm, _, hcall 0, .inl rfl⟩
      (fun h => absurd h hauthor)

/-- **Both calls are all or nothing** exactly when a reply is a document with a root
tag, and a confirmation has four numbers in its version or sets what was there. -/
theorem allOrNothing_iff (username : CString) (time : UInt32) (pl : Playlist) (reply : Reply) :
    (∀ name, AllOrNothing (.name name) pl reply
        (fun junk => despotifyRenamePlaylist junk username time pl name reply) ↔
      Confirmable (.name name) username pl reply) ∧
    ∀ collaborative, AllOrNothing (.collaboration collaborative) pl reply
        (fun junk =>
          despotifySetPlaylistCollaboration junk username time pl collaborative reply) ↔
      Confirmable (.collaboration collaborative) username pl reply :=
  ⟨fun name => changePlaylist_allOrNothing_iff (.name name) username time pl reply,
    fun collaborative =>
      changePlaylist_allOrNothing_iff (.collaboration collaborative) username time pl reply⟩

/-- A confirmation whose version has one number. -/
def brokenVersion : Ezxml :=
  .mk (ascii "confirm") [] [] [.mk (ascii "version") (ascii "0000000005") [] []]

/-- It leaves the flag to what the stack holds, and the name is set all the same. -/
theorem brokenVersion_not_allOrNothing :
    ¬ AllOrNothing (.name (ascii "b")) { name := ascii "a" } (.document (some brokenVersion))
      (fun junk => despotifyRenamePlaylist junk [] 0 { name := ascii "a" } (ascii "b")
        (.document (some brokenVersion))) := by
  rintro ⟨hinit, -⟩
  exact absurd (hinit 0 1) (by decide)

end Despotify.Lib

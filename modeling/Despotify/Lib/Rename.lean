import Despotify.Lib.Edit

/-!
# The document of a rename

`despotify_rename_playlist` prints the document into 512 bytes.

* `unescape_ampencode`: what `ezxml_ampencode` writes reads back as it was.
* `sent_complete_iff`: the document sent is whole exactly when it fits, which the
  escaped lengths of the name and the user name decide.
* `longName_truncated`: a name for which it does not.
-/

namespace Despotify.Lib

open Gateway

/-! ## Character data -/

/-- Character data with its references resolved. -/
def unescape : CString → CString
  | 38 :: 97 :: 109 :: 112 :: 59 :: s => 38 :: unescape s
  | 38 :: 108 :: 116 :: 59 :: s => 60 :: unescape s
  | 38 :: 103 :: 116 :: 59 :: s => 62 :: unescape s
  | 38 :: 35 :: 120 :: 68 :: 59 :: s => 13 :: unescape s
  | c :: s => c :: unescape s
  | [] => []

theorem unescape_cons {c : UInt8} (hc : c ≠ 38) (s : CString) :
    unescape (c :: s) = c :: unescape s := by
  rw [unescape]
  all_goals
    intros
    contradiction

theorem ampencode_cons (c : UInt8) (s : CString) :
    ampencode (c :: s) = ampencode [c] ++ ampencode s := by
  simp [ampencode]

theorem unescape_ampencode (s : CString) : unescape (ampencode s) = s := by
  induction s with
  | nil => rfl
  | cons c s ih =>
    rw [ampencode_cons]
    by_cases hamp : c = 38
    · subst hamp
      exact congrArg _ ih
    by_cases hlt : c = 60
    · subst hlt
      exact congrArg _ ih
    by_cases hgt : c = 62
    · subst hgt
      exact congrArg _ ih
    by_cases hcr : c = 13
    · subst hcr
      exact congrArg _ ih
    have hplain : ampencode [c] = [c] := by simp [ampencode, hamp, hlt, hgt, hcr]
    rw [hplain, List.singleton_append, unescape_cons hamp, ih]

/-- What is escaped opens no tag. -/
theorem not_mem_ampencode (s : CString) : 60 ∉ ampencode s := by
  intro h
  obtain ⟨c, -, hc⟩ := List.mem_flatMap.mp h
  by_cases hamp : c = 38
  · rw [if_pos hamp] at hc
    exact absurd hc (by decide)
  by_cases hlt : c = 60
  · rw [if_neg hamp, if_pos hlt] at hc
    exact absurd hc (by decide)
  by_cases hgt : c = 62
  · rw [if_neg hamp, if_neg hlt, if_pos hgt] at hc
    exact absurd hc (by decide)
  by_cases hcr : c = 13
  · rw [if_neg hamp, if_neg hlt, if_neg hgt, if_pos hcr] at hc
    exact absurd hc (by decide)
  · rw [if_neg hamp, if_neg hlt, if_neg hgt, if_neg hcr, List.mem_singleton] at hc
    exact hlt hc.symm

/-! ## Numbers -/

theorem not_mem_decimal (n : Nat) : 60 ∉ decimal n := by
  intro h
  obtain ⟨c, hc, heq⟩ := List.mem_map.mp h
  have hdigit := Nat.isDigit_of_mem_toDigits (by decide) (by decide) hc
  simp only [Char.isDigit, Bool.and_eq_true, decide_eq_true_eq, ge_iff_le] at hdigit
  obtain ⟨-, hle⟩ := hdigit
  have hle' : c.toNat ≤ 57 := hle
  have hnat := congrArg UInt8.toNat heq
  rw [UInt8.toNat_ofNat'] at hnat
  have h60 : (60 : UInt8).toNat = 60 := rfl
  omega

theorem not_mem_padded (n : Nat) : 60 ∉ padded n := by
  rw [padded, List.mem_append, List.mem_replicate]
  rintro (⟨-, h⟩ | h)
  · exact absurd h (by decide)
  · exact not_mem_decimal n h

theorem length_padded {n : Nat} (hn : n < 2 ^ 32) : (padded n).length = 10 := by
  have hlen : (decimal n).length ≤ 10 := by
    rw [decimal, List.length_map, Nat.length_toDigits_le_iff (by decide) (by decide)]
    omega
  rw [padded, List.length_append, List.length_replicate]
  omega

theorem length_decimal_bool (b : Bool) : (decimal b.toNat).length = 1 := by
  cases b <;> decide

/-! ## Elements -/

/-- An element with the name, around what it holds. -/
def element (name : String) (content : CString) : CString :=
  ascii "<" ++ ascii name ++ ascii ">" ++ content ++ ascii "</" ++ ascii name ++ ascii ">"

/-- The two elements of a rename, up to the last end tag. -/
def renameBody (n t u v : CString) : CString :=
  element "change" (element "ops" (element "name" n) ++ element "time" t ++ element "user" u) ++
    ascii "<version>" ++ v

/-- Both elements are there whole, and the name reads back as the one given. -/
def Complete (name xml : CString) : Prop :=
  ∃ n t u v, xml = element "change"
      (element "ops" (element "name" n) ++ element "time" t ++ element "user" u) ++
        element "version" v ∧
    60 ∉ n ∧ 60 ∉ t ∧ 60 ∉ u ∧ 60 ∉ v ∧ unescape n = name

theorem count_element (name : String) (hname : 60 ∉ ascii name) (content : CString) :
    (element name content).count 60 = content.count 60 + 2 := by
  have h1 : (ascii "<").count 60 = 1 := by decide
  have h2 : (ascii ">").count 60 = 0 := by decide
  have h3 : (ascii "</").count 60 = 1 := by decide
  have h4 : (ascii name).count 60 = 0 := List.count_eq_zero.mpr hname
  simp only [element, List.count_append, h1, h2, h3, h4]
  omega

theorem count_renameBody {n t u v : CString} (hn : 60 ∉ n) (ht : 60 ∉ t) (hu : 60 ∉ u)
    (hv : 60 ∉ v) : (renameBody n t u v).count 60 = 11 := by
  have hversion : (ascii "<version>").count 60 = 1 := by decide
  simp only [renameBody, List.count_append, hversion,
    count_element "change" (by decide), count_element "ops" (by decide),
    count_element "name" (by decide), count_element "time" (by decide),
    count_element "user" (by decide), List.count_eq_zero.mpr hn,
    List.count_eq_zero.mpr ht, List.count_eq_zero.mpr hu, List.count_eq_zero.mpr hv]

/-- Two texts with as many of a letter before the same end, which starts with it: one
is not a proper prefix of the other. -/
theorem prefix_of_count {α : Type} [DecidableEq α] {x : α} {a b tail : List α}
    (hcount : a.count x = b.count x) (h : a ++ x :: tail <+: b ++ x :: tail) :
    a.length = b.length := by
  have hle := h.length_le
  simp only [List.length_append, List.length_cons] at hle
  by_contra hne
  have hlt : a.length + 1 ≤ b.length := by omega
  have hax : a ++ [x] <+: b ++ x :: tail :=
    List.IsPrefix.trans ⟨tail, by simp⟩ h
  have hab : a ++ [x] <+: b :=
    List.prefix_of_prefix_length_le hax (List.prefix_append b _) (by simpa using hlt)
  have hmore := hab.sublist.count_le x
  rw [List.count_append, List.count_singleton_self] at hmore
  omega

/-! ## What is sent -/

/-- The text of the version. -/
def versionText (pl : Playlist) : CString :=
  padded (pl.revision + 1).toNat ++ ascii "," ++ padded (pl.numTracks % 2 ^ 32).toNat ++
    ascii "," ++ padded pl.checksum.toNat ++ ascii "," ++ decimal pl.isCollaborative.toNat

theorem not_mem_versionText (pl : Playlist) : 60 ∉ versionText pl := by
  have hcomma : 60 ∉ ascii "," := by decide
  simp only [versionText, List.mem_append, not_mem_padded, not_mem_decimal, hcomma, or_self,
    not_false_eq_true]

theorem length_versionText (pl : Playlist) : (versionText pl).length = 34 := by
  have hcomma : (ascii ",").length = 1 := by decide
  have hrev : (padded (pl.revision + 1).toNat).length = 10 :=
    length_padded (pl.revision + 1).toNat_lt
  have hnum : (padded (pl.numTracks % 2 ^ 32).toNat).length = 10 := length_padded (by omega)
  have hchk : (padded pl.checksum.toNat).length = 10 := length_padded pl.checksum.toNat_lt
  simp only [versionText, List.length_append, hcomma, hrev, hnum, hchk, length_decimal_bool]

theorem element_version (v : CString) :
    element "version" v = ascii "<version>" ++ v ++ ascii "</version>" := by
  have h1 : ascii "<version>" = ascii "<" ++ ascii "version" ++ ascii ">" := by decide
  have h2 : ascii "</version>" = ascii "</" ++ ascii "version" ++ ascii ">" := by decide
  simp only [element, h1, h2, List.append_assoc]

theorem complete_iff {name xml : CString} :
    Complete name xml ↔ ∃ n t u v, xml = renameBody n t u v ++ ascii "</version>" ∧
      60 ∉ n ∧ 60 ∉ t ∧ 60 ∉ u ∧ 60 ∉ v ∧ unescape n = name := by
  simp only [Complete, renameBody, element_version, List.append_assoc]

theorem changeDocument_eq (name username : CString) (time : UInt32) (pl : Playlist) :
    changeDocument (Edit.name name).ops username time pl =
      renameBody (ampencode name) (decimal time.toNat) (ampencode username) (versionText pl) ++
        ascii "</version>" := by
  have h1 : ascii "<change><ops>" =
      ascii "<" ++ ascii "change" ++ ascii ">" ++ ascii "<" ++ ascii "ops" ++ ascii ">" := by
    decide
  have h2 : ascii "</ops><time>" =
      ascii "</" ++ ascii "ops" ++ ascii ">" ++ ascii "<" ++ ascii "time" ++ ascii ">" := by
    decide
  have h3 : ascii "</time>" = ascii "</" ++ ascii "time" ++ ascii ">" := by decide
  have h4 : ascii "</change><version>" =
      ascii "</" ++ ascii "change" ++ ascii ">" ++ ascii "<version>" := by decide
  simp only [changeDocument, Edit.ops, xmlGenTag, renameBody, element, versionText, h1, h2, h3, h4,
    List.append_assoc]

/-- The document without the name, the user and the time takes 120 bytes. -/
theorem length_changeDocument (name username : CString) (time : UInt32) (pl : Playlist) :
    (changeDocument (Edit.name name).ops username time pl).length =
      (ampencode name).length + (ampencode username).length + (decimal time.toNat).length + 120 := by
  have hlen (s : String) (n : Nat) (h : (ascii s).length = n) : (ascii s).length = n := h
  simp only [changeDocument_eq, renameBody, element, List.length_append, length_versionText,
    hlen "<" 1 (by decide), hlen ">" 1 (by decide), hlen "</" 2 (by decide),
    hlen "change" 6 (by decide), hlen "ops" 3 (by decide),
    hlen "name" 4 (by decide), hlen "time" 4 (by decide),
    hlen "user" 4 (by decide), hlen "<version>" 9 (by decide),
    hlen "</version>" 10 (by decide)]
  omega

/-- The document is whole exactly when it fits. -/
theorem changeXml_complete_iff (name username : CString) (time : UInt32) (pl : Playlist) :
    Complete name (changeXml (.name name) username time pl) ↔
      (ampencode name).length + (ampencode username).length + (decimal time.toNat).length ≤ 391 := by
  have hlen := length_changeDocument name username time pl
  have hdoc := changeDocument_eq name username time pl
  rw [complete_iff, changeXml, snprintf]
  constructor
  · rintro ⟨n, t, u, v, heq, hn, ht, hu, hv, -⟩
    have hend : ∃ tail, ascii "</version>" = 60 :: tail := ⟨_, rfl⟩
    obtain ⟨tail, htail⟩ := hend
    -- what is sent and the document have as many tags before the last one
    have hpre : renameBody n t u v ++ ascii "</version>" <+:
        changeDocument (Edit.name name).ops username time pl := heq ▸ List.take_prefix _ _
    have hsame : (renameBody n t u v).length =
        (renameBody (ampencode name) (decimal time.toNat) (ampencode username)
          (versionText pl)).length := by
      rw [hdoc, htail] at hpre
      refine prefix_of_count ?_ hpre
      rw [count_renameBody hn ht hu hv, count_renameBody (not_mem_ampencode _) (not_mem_decimal _)
        (not_mem_ampencode _) (not_mem_versionText _)]
    have hall := congrArg List.length heq
    rw [List.length_take, List.length_append, hsame, ← List.length_append, ← hdoc] at hall
    omega
  · intro hfits
    rw [List.take_of_length_le (by omega), hdoc]
    exact ⟨_, _, _, _, rfl, not_mem_ampencode _, not_mem_decimal _, not_mem_ampencode _,
      not_mem_versionText _, unescape_ampencode name⟩

theorem sent_eq {edit : Edit} {junk : UInt32} {username : CString} {time : UInt32}
    {pl : Playlist} {reply : Reply} {out : Outcome}
    (h : changePlaylist edit junk username time pl reply = some out) :
    out.sent = if pl.author = username then some (changeXml edit username time pl) else none := by
  unfold changePlaylist at h
  by_cases hauthor : pl.author = username
  · rw [if_neg (not_not.mpr hauthor)] at h
    rw [if_pos hauthor]
    cases reply with
    | sendFailed => cases h; rfl
    | timeout => cases h; rfl
    | document top =>
      simp only at h
      split at h
      · cases h
      · cases h; rfl
      · cases h; rfl
  · rw [if_pos hauthor] at h
    rw [if_neg hauthor]
    cases h
    rfl

/-- **A rename sends a whole document** exactly when the escaped name, the escaped user
name and the time have at most 391 bytes together. -/
theorem sent_complete_iff (username : CString) (time : UInt32) (pl : Playlist) (name : CString) :
    (∀ junk reply out, despotifyRenamePlaylist junk username time pl name reply = some out →
      out.sent =
        if pl.author = username then some (changeXml (.name name) username time pl) else none) ∧
    (Complete name (changeXml (.name name) username time pl) ↔
      (ampencode name).length + (ampencode username).length + (decimal time.toNat).length ≤ 391) :=
  ⟨fun _ _ _ h => sent_eq h, changeXml_complete_iff name username time pl⟩

/-- A short name. -/
theorem sent_complete_short :
    Complete (ascii "b") (changeXml (.name (ascii "b")) (ascii "u") 0 { author := ascii "u" }) :=
  (sent_complete_iff (ascii "u") 0 { author := ascii "u" } (ascii "b")).2.mpr (by decide)

/-- 400 letters do not fit. -/
theorem longName_truncated :
    ¬ Complete (List.replicate 400 97)
      (changeXml (.name (List.replicate 400 97)) (ascii "u") 0 { author := ascii "u" }) := by
  rw [changeXml_complete_iff]
  decide +kernel

end Despotify.Lib

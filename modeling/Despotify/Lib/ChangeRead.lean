import Despotify.Lib.EzxmlRoundTrip
import Despotify.Lib.Rename
import Despotify.Lib.Services

/-!
# A change to a playlist, read by another client

`despotify_rename_playlist` and `despotify_set_playlist_collaboration` write a document with
`xml_gen_tag` and `snprintf`; `despotify_get_playlist` puts a declaration and an open `<playlist>`
in front of a reply and a `NUL` behind it, and reads it with `ezxml_parse_str` and
`xml_parse_playlist`.

* `read_reply`: the element in a reply is read, although `<playlist>` is never closed.
* `xmlParsePlaylist_change`: a change that was sent whole and comes back in `<next-change>` gives
  the playlist the fields of the change.
-/

namespace Despotify.Ezxml

open Gateway (ascii isspace isdigit scanUnsigned strtoul scan)
open Lib (CString)

/-! ## The element `xml.c` looks at -/

mutual

/-- An element as `ezxml_get` and `ezxml_attr` show it. -/
def view : Node → Lib.Ezxml
  | .mk name attr txt _ child => .mk name txt (attr.map fun a => (a.1, a.2.getD [])) (views child)

def views : List Node → List Lib.Ezxml
  | [] => []
  | x :: xs => view x :: views xs

end

/-! ## A reply -/

/-- `load_lists`. -/
def loadLists : CString := ascii "<?xml version=\"1.0\" encoding=\"utf-8\" ?>\n<playlist>\n"

/-- The response that `despotify_get_playlist` reads. -/
def response (reply : CString) : CString := loadLists ++ reply ++ [0]

/-- `<playlist>`, with the line break behind it. -/
def playlist (child : List Node) : Node := .mk (ascii "playlist") [] [10] 0 child

/-- What stands in front of the reply. -/
theorem run_loadLists (s : CString) :
    run 0 .init (loadLists.drop 1 ++ 60 :: s) = run 0 ⟨[playlist []], none⟩ s := by
  have hpi : markup 0 .init (loadLists.drop 1 ++ 60 :: s) =
      .ok (.init, 62 :: 10 :: (ascii "<playlist>\n" ++ 60 :: s)) := rfl
  have hcontent : after 0 .init (62 :: 10 :: (ascii "<playlist>\n" ++ 60 :: s)) =
      run 0 .init (ascii "playlist>\n" ++ 60 :: s) := rfl
  have hopen : markup 0 .init (ascii "playlist>\n" ++ 60 :: s) =
      .ok (⟨[.mk (ascii "playlist") [] [] 0 []], none⟩, 62 :: 10 :: 60 :: s) := rfl
  rw [run_ok hpi, hcontent, run_ok hopen]
  rfl

/-- The reply's element is read, and then `<playlist>` is open. -/
theorem read_reply {x : Node} (h : WellFormed x) (hoff : x.off = 1) :
    parseStr (response (toxml x)) =
      (some (playlist [normal x]), some (.unclosedTag (ascii "playlist"))) := by
  obtain ⟨s, hs⟩ : ∃ s, toxml x = 60 :: s := by
    cases x
    rw [toxml]
    exact ⟨_, rfl⟩
  have hread : run 0 ⟨[playlist []], none⟩ s = after 0 ⟨[playlist [normal x]], none⟩ [62] :=
    reads_of_wellFormed h (playlist []) [] s [] hoff (by rw [List.append_nil, hs])
  have hplain : (loadLists ++ toxml x).takeWhile (· ≠ 0) = loadLists ++ toxml x := by
    have hfront : ∀ c ∈ loadLists, c ≠ 0 := by decide +kernel
    rw [List.takeWhile_eq_self_iff]
    intro c hc
    refine decide_eq_true ?_
    rintro rfl
    rcases List.mem_append.mp hc with hc | hc
    · exact hfront 0 hc rfl
    · exact zero_notMem_toxml h hc
  have hutf : str2utf8 (loadLists ++ toxml x ++ [0]) = loadLists ++ toxml x ++ [0] := rfl
  have hfirst : (loadLists ++ 60 :: s).dropWhile (· ≠ 60) = 60 :: (loadLists.drop 1 ++ 60 :: s) :=
    rfl
  rw [response, parseStr, hutf]
  dsimp only
  rw [List.getLast?_concat, List.dropLast_concat, hplain, hs, hfirst]
  show (Root.tree (run 0 .init _).1, (run 0 .init _).2) = _
  rw [run_loadLists, hread]
  rfl

/-! ## The change -/

theorem ampencode_eq (s : CString) : Lib.ampencode s = ampencode s false := by
  refine List.flatMap_congr fun c _ => ?_
  unfold escape
  by_cases hquot : c = 34
  · subst hquot
    rfl
  by_cases hnl : c = 10
  · subst hnl
    rfl
  by_cases htab : c = 9
  · subst htab
    rfl
  rw [if_neg hquot, if_neg hnl, if_neg htab]

/-- An element around others. -/
def tree (name : String) (off : Nat) (child : List Node) : Node := .mk (ascii name) [] [] off child

/-- An element with text. -/
def leaf (name : String) (txt : CString) : Node := .mk (ascii name) [] txt 0 []

theorem inner_nil (start : Nat) (child : List Node) : inner [] start child = child.flatMap toxml := by
  induction child generalizing start with
  | nil =>
    rw [inner, List.drop_nil]
    rfl
  | cons x child ih =>
    have hbefore : textBefore [] start x.off = [] := by
      unfold textBefore
      split
      · exact List.drop_nil
      · rw [List.drop_nil, List.take_nil]
    rw [inner, hbefore, ih, List.flatMap_cons]
    rfl

theorem toxml_tree (name : String) (off : Nat) (child : List Node) :
    toxml (tree name off child) = Lib.element name (child.flatMap toxml) := by
  rw [tree, toxml, inner_nil, Lib.element]
  simp only [shown, List.flatMap_nil, List.append_nil]

theorem toxml_leaf (name : String) (txt : CString) :
    toxml (leaf name txt) = Lib.element name (Lib.ampencode txt) := by
  rw [leaf, toxml, inner, Lib.element, ampencode_eq, List.drop_zero]
  simp only [shown, List.flatMap_nil, List.append_nil]

/-- The operation of a change. -/
def operation : Lib.Edit → Node
  | .name newName => leaf "name" newName
  | .collaboration collaborative => leaf "pub" (Lib.decimal collaborative.toNat)

/-- A change as it comes back. -/
def nextChange (edit : Lib.Edit) (username : CString) (time : UInt32) (pl : Lib.Playlist) : Node :=
  tree "next-change" 1 [
    tree "change" 0 [
      tree "ops" 0 [operation edit], leaf "time" (Lib.decimal time.toNat), leaf "user" username],
    leaf "version" (Lib.versionText pl)]

theorem ampencode_digits {s : CString} (h : ∀ c ∈ s, c = 44 ∨ isdigit c = true) :
    Lib.ampencode s = s := by
  have hall : ∀ n < 256, (UInt8.ofNat n = 44 ∨ isdigit (UInt8.ofNat n) = true) →
      Lib.ampencode [UInt8.ofNat n] = [UInt8.ofNat n] := by
    decide +kernel
  induction s with
  | nil => rfl
  | cons c s ih =>
    obtain ⟨hc, hs⟩ := List.forall_mem_cons.mp h
    have hone := hall c.toNat c.toNat_lt
    rw [UInt8.ofNat_toNat] at hone
    rw [Lib.ampencode_cons, hone hc, ih hs, List.singleton_append]

theorem isdigit_padded {n : Nat} {d : UInt8} (hd : d ∈ Lib.padded n) : isdigit d = true := by
  rcases List.mem_append.mp hd with hd | hd
  · rw [List.eq_of_mem_replicate hd]
    rfl
  · exact Services.isdigit_decimal hd

theorem mem_versionText {pl : Lib.Playlist} {c : UInt8} (h : c ∈ Lib.versionText pl) :
    c = 44 ∨ isdigit c = true := by
  have hcomma : ∀ c ∈ ascii ",", c = 44 := by decide +kernel
  simp only [Lib.versionText, List.mem_append] at h
  rcases h with (((((h | h) | h) | h) | h) | h) | h
  · exact Or.inr (isdigit_padded h)
  · exact Or.inl (hcomma c h)
  · exact Or.inr (isdigit_padded h)
  · exact Or.inl (hcomma c h)
  · exact Or.inr (isdigit_padded h)
  · exact Or.inl (hcomma c h)
  · exact Or.inr (Services.isdigit_decimal h)

/-! ### Written -/

/-- The document of a change is the text of its elements. -/
theorem changeDocument_elements (ops username : CString) (time : UInt32) (pl : Lib.Playlist) :
    Lib.changeDocument ops username time pl =
      Lib.element "change" (Lib.element "ops" ops ++
          Lib.element "time" (Lib.decimal time.toNat) ++
          Lib.element "user" (Lib.ampencode username)) ++
        Lib.element "version" (Lib.versionText pl) := by
  have h1 : ascii "<change><ops>" =
      ascii "<" ++ ascii "change" ++ ascii ">" ++ ascii "<" ++ ascii "ops" ++ ascii ">" := by
    decide
  have h2 : ascii "</ops><time>" =
      ascii "</" ++ ascii "ops" ++ ascii ">" ++ ascii "<" ++ ascii "time" ++ ascii ">" := by
    decide
  have h3 : ascii "</time>" = ascii "</" ++ ascii "time" ++ ascii ">" := by decide
  have h4 : ascii "</change><version>" =
      ascii "</" ++ ascii "change" ++ ascii ">" ++ ascii "<" ++ ascii "version" ++ ascii ">" := by
    decide
  have h5 : ascii "</version>" = ascii "</" ++ ascii "version" ++ ascii ">" := by decide
  simp only [Lib.changeDocument, Lib.xmlGenTag, Lib.element, Lib.versionText, h1, h2, h3, h4, h5,
    List.append_assoc]

theorem toxml_operation (edit : Lib.Edit) : toxml (operation edit) = edit.ops := by
  cases edit with
  | name newName =>
    rw [operation, toxml_leaf]
    rfl
  | collaboration collaborative =>
    have hpub : ascii "<pub>" = ascii "<" ++ ascii "pub" ++ ascii ">" := by decide
    have hend : ascii "</pub>" = ascii "</" ++ ascii "pub" ++ ascii ">" := by decide
    rw [operation, toxml_leaf, ampencode_digits fun c hc => Or.inr (Services.isdigit_decimal hc),
      Lib.Edit.ops, hpub, hend, Lib.element]
    simp only [List.append_assoc]

theorem toxml_nextChange (edit : Lib.Edit) (username : CString) (time : UInt32)
    (pl : Lib.Playlist) :
    toxml (nextChange edit username time pl) =
      Lib.element "next-change" (Lib.changeDocument edit.ops username time pl) := by
  have htime : Lib.ampencode (Lib.decimal time.toNat) = Lib.decimal time.toNat :=
    ampencode_digits fun c hc => Or.inr (Services.isdigit_decimal hc)
  have hversion : Lib.ampencode (Lib.versionText pl) = Lib.versionText pl :=
    ampencode_digits fun c hc => mem_versionText hc
  rw [nextChange, toxml_tree, changeDocument_elements]
  simp only [List.flatMap_cons, List.flatMap_nil, List.append_nil, toxml_tree, toxml_leaf,
    toxml_operation, htime, hversion, List.append_assoc]

/-! ### Well formed -/

theorem wellFormed_tree_of {name : String} {off : Nat} {child : List Node}
    (hname : TagName (ascii name)) (hoff : ∀ x ∈ child, x.off = 0)
    (hchild : ∀ x ∈ child, WellFormed x) : WellFormed (tree name off child) := by
  refine .mk hname (fun _ ha => absurd ha List.not_mem_nil) List.not_mem_nil
    (fun x hx => Nat.le_of_eq (hoff x hx)) ?_ hchild
  exact List.Pairwise.imp_of_mem
    (fun {x y} hx hy _ => by rw [hoff x hx, hoff y hy]) (List.pairwise_of_forall fun _ _ => trivial)

theorem wellFormed_leaf {name : String} {txt : CString} (hname : TagName (ascii name))
    (htxt : 0 ∉ txt) : WellFormed (leaf name txt) :=
  .mk hname (fun _ ha => absurd ha List.not_mem_nil) htxt
    (fun _ hx => absurd hx List.not_mem_nil) .nil (fun _ hx => absurd hx List.not_mem_nil)

/-- The text of the operation has no `NUL`. -/
def Sendable : Lib.Edit → Prop
  | .name newName => 0 ∉ newName
  | .collaboration _ => True

theorem notMem_of_digits {s : CString} (h : ∀ c ∈ s, c = 44 ∨ isdigit c = true) : 0 ∉ s := by
  intro hzero
  rcases h 0 hzero with h | h
  · cases h
  · cases h

theorem wellFormed_nextChange {edit : Lib.Edit} {username : CString} (hedit : Sendable edit)
    (huser : 0 ∉ username) (time : UInt32) (pl : Lib.Playlist) :
    WellFormed (nextChange edit username time pl) := by
  have hop : WellFormed (operation edit) ∧ (operation edit).off = 0 := by
    cases edit with
    | name newName => exact ⟨wellFormed_leaf ⟨rfl, by decide +kernel⟩ hedit, rfl⟩
    | collaboration collaborative =>
      refine ⟨wellFormed_leaf ⟨rfl, by decide +kernel⟩ ?_, rfl⟩
      exact notMem_of_digits fun c hc => Or.inr (Services.isdigit_decimal hc)
  have hops : WellFormed (tree "ops" 0 [operation edit]) :=
    wellFormed_tree_of ⟨rfl, by decide +kernel⟩ (List.forall_mem_singleton.mpr hop.2)
      (List.forall_mem_singleton.mpr hop.1)
  have htime : WellFormed (leaf "time" (Lib.decimal time.toNat)) :=
    wellFormed_leaf ⟨rfl, by decide +kernel⟩
      (notMem_of_digits fun c hc => Or.inr (Services.isdigit_decimal hc))
  have huser : WellFormed (leaf "user" username) := wellFormed_leaf ⟨rfl, by decide +kernel⟩ huser
  have hversion : WellFormed (leaf "version" (Lib.versionText pl)) :=
    wellFormed_leaf ⟨rfl, by decide +kernel⟩ (notMem_of_digits fun c hc => mem_versionText hc)
  have hchange : WellFormed (tree "change" 0 [
      tree "ops" 0 [operation edit], leaf "time" (Lib.decimal time.toNat),
      leaf "user" username]) := by
    refine wellFormed_tree_of ⟨rfl, by decide +kernel⟩ ?_ ?_
    · simp [tree, leaf, Node.off]
    · simp [hops, htime, huser]
  refine wellFormed_tree_of ⟨rfl, by decide +kernel⟩ ?_ ?_
  · simp [tree, leaf, Node.off]
  · simp [hchange, hversion]

theorem normal_nextChange (edit : Lib.Edit) (username : CString) (time : UInt32)
    (pl : Lib.Playlist) :
    normal (nextChange edit username time pl) = nextChange edit username time pl := by
  cases edit <;> rfl

/-! ### The version -/

theorem foldl_padded (n : Nat) :
    (Lib.padded n).foldl (fun n d => 10 * n + (d.toNat - 48)) 0 = n := by
  rw [Lib.padded, List.foldl_append, Services.foldl_zeros, Lib.decimal,
    Services.foldl_digits fun c hc => Nat.isDigit_of_mem_toDigits (by decide) (by decide) hc]
  exact Nat.ofDigitChars_toDigits (by decide) (by decide)

/-- A number of digits, up to what follows. -/
theorem scanUnsigned_digits {ds rest : CString} {n : Nat} (hds : ∀ d ∈ ds, isdigit d = true)
    (hne : ds ≠ []) (hrest : rest.head?.any isdigit = false) (hn : n < 2 ^ 32)
    (hvalue : ds.foldl (fun n d => 10 * n + (d.toNat - 48)) 0 = n) :
    scanUnsigned ((ds ++ rest).dropWhile isspace) = some (UInt32.ofNat n, rest) := by
  have hspan : (ds ++ rest).takeWhile isdigit = ds ∧ (ds ++ rest).dropWhile isdigit = rest := by
    cases rest with
    | nil =>
      rw [List.append_nil]
      exact ⟨List.takeWhile_eq_self_iff.mpr hds, List.dropWhile_eq_nil_iff.mpr hds⟩
    | cons c rest => exact span_append hds hrest
  have hnumber : strtoul false ds = UInt32.ofNat n := by
    unfold strtoul
    rw [hvalue, if_neg (by omega), if_neg Bool.false_ne_true]
  cases ds with
  | nil => exact absurd rfl hne
  | cons d ds =>
    have hd : isdigit d = true := hds d List.mem_cons_self
    have hspace : ¬ isspace d = true := by
      rw [Services.isspace_of_isdigit hd]
      exact Bool.false_ne_true
    have hminus : ¬ some d = some (45 : UInt8) := by
      rintro ⟨⟩
      exact absurd hd (by decide)
    have hplus : ¬ some d = some (43 : UInt8) := by
      rintro ⟨⟩
      exact absurd hd (by decide)
    rw [List.cons_append, List.dropWhile_cons_of_neg hspace, Lib.scanUnsigned_cons,
      if_neg (not_or.mpr ⟨hminus, hplus⟩), decide_eq_false hminus, ← List.cons_append,
      Lib.scanDigits, hspan.1, hspan.2, ← hnumber]

theorem scan_number {format : List Gateway.Directive} {input rest : CString} {n : UInt32}
    (h : scanUnsigned (input.dropWhile isspace) = some (n, rest)) :
    (scan (.unsigned :: format) input).1 = .unsigned n :: (scan format rest).1 := by
  rw [scan, h]

theorem scan_literal (format : List Gateway.Directive) (c : UInt8) (s : CString) :
    (scan (.literal c :: format) (c :: s)).1 = (scan format s).1 := by
  rw [scan, if_pos rfl]

theorem versionNumbers_versionText (pl : Lib.Playlist) :
    Lib.versionNumbers (Lib.strncpy (Lib.versionText pl) 64) =
      [pl.revision + 1, UInt32.ofNat (pl.numTracks % 2 ^ 32).toNat, pl.checksum,
        UInt32.ofNat pl.isCollaborative.toNat] := by
  have hpadded : ∀ (n : Nat) (rest : CString), n < 2 ^ 32 →
      rest.head?.any isdigit = false →
      scanUnsigned ((Lib.padded n ++ rest).dropWhile isspace) = some (UInt32.ofNat n, rest) := by
    intro n rest hn hrest
    refine scanUnsigned_digits (fun d hd => isdigit_padded hd) ?_ hrest hn (foldl_padded n)
    intro hnil
    have hlength := Lib.length_padded hn
    rw [hnil] at hlength
    cases hlength
  have hlast : scanUnsigned ((Lib.decimal pl.isCollaborative.toNat).dropWhile isspace) =
      some (UInt32.ofNat pl.isCollaborative.toNat, []) := by
    cases pl.isCollaborative <;> rfl
  have hcomma : ascii "," = [44] := by decide
  have hwhole : Lib.strncpy (Lib.versionText pl) 64 = Lib.versionText pl := by
    refine List.take_of_length_le ?_
    rw [Lib.length_versionText]
    decide
  have hformat : Lib.versionFormat =
      [.unsigned, .literal 44, .unsigned, .literal 44, .unsigned, .literal 44, .unsigned] := by
    decide
  rw [Lib.versionNumbers, hwhole, Lib.versionText, hcomma, hformat]
  simp only [List.append_assoc, List.cons_append, List.nil_append]
  rw [scan_number (hpadded _ _ (pl.revision + 1).toNat_lt rfl), scan_literal,
    scan_number (hpadded _ _ (by omega) rfl), scan_literal,
    scan_number (hpadded _ _ pl.checksum.toNat_lt rfl), scan_literal, scan_number hlast]
  simp only [scan, List.map_cons, List.map_nil, UInt32.ofNat_toNat]

/-- The name that is read. -/
def nameRead (edit : Lib.Edit) (name : CString) : CString :=
  match edit with
  | .name newName => Lib.strncpy newName 256
  | .collaboration _ => name

/-- A change that was sent whole is read as the elements it was made of. -/
theorem parseStr_change {edit : Lib.Edit} {username : CString} (hedit : Sendable edit)
    (huser : 0 ∉ username) {time : UInt32} {pl : Lib.Playlist}
    (hwhole : (Lib.changeDocument edit.ops username time pl).length < 512) :
    parseStr (response (Lib.element "next-change" (Lib.changeXml edit username time pl))) =
      (some (playlist [nextChange edit username time pl]),
        some (.unclosedTag (ascii "playlist"))) := by
  have hsent : Lib.changeXml edit username time pl =
      Lib.changeDocument edit.ops username time pl := List.take_of_length_le (by omega)
  rw [hsent, ← toxml_nextChange, read_reply (wellFormed_nextChange hedit huser time pl) rfl,
    normal_nextChange]

/-- What `xml_parse_playlist` takes out of these elements. -/
theorem xmlParsePlaylist_nextChange (edit : Lib.Edit) (username : CString) (time : UInt32)
    (pl : Lib.Playlist) (stale : List CString) (junk : UInt32) (mem : Linked.Mem Lib.Track)
    (q : Lib.Playlist) :
    (Lib.xmlParsePlaylist stale junk mem q
        (some (view (playlist [nextChange edit username time pl])))).2 =
      { q with
        tracks := (Lib.newTracks stale mem none none).2
        name := nameRead edit q.name
        author := Lib.strncpy username 256
        revision := pl.revision + 1
        numTracks := Lib.int32 pl.numTracks
        checksum := pl.checksum
        isCollaborative := pl.isCollaborative } := by
  have hids : Lib.trackIds stale (some (view (playlist [nextChange edit username time pl]))) =
      stale := by
    cases edit <;> rfl
  have huser : ∀ d, Lib.xmlstrncpy d 256 (some (view (playlist [nextChange edit username time pl])))
      ["next-change", "change", "user"] = Lib.strncpy username 256 := by
    intro d
    cases edit <;> rfl
  have hname : Lib.xmlstrncpy q.name 256
      (some (view (playlist [nextChange edit username time pl])))
      ["next-change", "change", "ops", "name"] = nameRead edit q.name := by
    cases edit <;> rfl
  have hversion : (Lib.ezxmlGet (some (view (playlist [nextChange edit username time pl])))
      ["next-change", "version"]).head? = some (view (leaf "version" (Lib.versionText pl))) := by
    cases edit <;> rfl
  have hcollab : (UInt32.ofNat pl.isCollaborative.toNat != 0) = pl.isCollaborative := by
    cases pl.isCollaborative <;> rfl
  have hnum : Lib.int32 (UInt32.ofNat (pl.numTracks % 2 ^ 32).toNat).toNat =
      Lib.int32 pl.numTracks := by
    have hlt : (pl.numTracks % 2 ^ 32).toNat < 4294967296 := by omega
    have hmod : (pl.numTracks % 2 ^ 32).bmod (2 ^ 32) = pl.numTracks.bmod (2 ^ 32) :=
      @Int.emod_bmod pl.numTracks (2 ^ 32)
    rw [UInt32.toNat_ofNat_of_lt' hlt, Int.toNat_of_nonneg (by omega), Lib.int32, Lib.int32, hmod]
  have hfour : Lib.versionNumbers
      (Lib.strncpy (view (leaf "version" (Lib.versionText pl))).txt 64) =
        [pl.revision + 1, UInt32.ofNat (pl.numTracks % 2 ^ 32).toNat, pl.checksum,
          UInt32.ofNat pl.isCollaborative.toNat] := versionNumbers_versionText pl
  unfold Lib.xmlParsePlaylist
  dsimp only
  rw [hids, huser, hname, hversion, Lib.xmlParseVersion_of_four hfour, hcollab, hnum]

end Despotify.Ezxml

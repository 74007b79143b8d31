import Despotify.Lib.Link

/-!
# Which strings are links

`despotify_link_from_uri` compares a keyword without the colon behind it, and looks for
the id at a fixed distance.  `IsUri` are the URIs it is for.

    Exact uri ↔ the string behind a keyword is as the code takes it to be   (uri_exact_iff)
    Converts link ↔ digits of the alphabet, a number below 16 ^ 32         (converts_iff)

Strings are shorter than 2 GiB, so that `userlen` is an `int`.
-/

namespace Despotify.Lib

open Gateway Radix

/-! ## The grammar -/

/-- What the code compares with. -/
def LinkType.keyword : LinkType → CString
  | .invalid => []
  | .album => ascii "spotify:album"
  | .artist => ascii "spotify:artist"
  | .playlist => ascii "spotify:user"
  | .search => ascii "spotify:search"
  | .track => ascii "spotify:track"

/-- The URIs, with the id or the query in them. -/
inductive IsUri : CString → LinkType → CString → Prop
  | album {id : CString} (hid : id.length = 22) : IsUri (ascii "spotify:album:" ++ id) .album id
  | artist {id : CString} (hid : id.length = 22) : IsUri (ascii "spotify:artist:" ++ id) .artist id
  | track {id : CString} (hid : id.length = 22) : IsUri (ascii "spotify:track:" ++ id) .track id
  | playlist {name id : CString} (hname : name ≠ []) (hcolon : (58 : UInt8) ∉ name)
      (hid : id.length = 22) :
      IsUri (ascii "spotify:user:" ++ (name ++ (ascii ":playlist:" ++ id))) .playlist id
  | search {query : CString} (hquery : query ≠ []) :
      IsUri (ascii "spotify:search:" ++ query) .search query

/-- The string is taken apart without reading behind it, and is a link if it is a URI. -/
def Exact (uri : CString) : Prop :=
  ∃ link, despotifyLinkFromUri uri = some link ∧
    (link.type ≠ .invalid ↔ ∃ type arg, IsUri uri type arg) ∧
    ∀ type arg, IsUri uri type arg → link.type = type ∧ link.arg = some arg

/-- What is behind the keyword of a URI. -/
def Tail : LinkType → CString → CString → Prop
  | .invalid, _, _ => False
  | .album, rest, arg | .artist, rest, arg | .track, rest, arg =>
    rest = 58 :: arg ∧ arg.length = 22
  | .playlist, rest, arg => ∃ name, name ≠ [] ∧ (58 : UInt8) ∉ name ∧
    rest = 58 :: (name ++ (ascii ":playlist:" ++ arg)) ∧ arg.length = 22
  | .search, rest, arg => rest = 58 :: arg ∧ arg ≠ []

/-- Where the code is right about what is behind a keyword. -/
def TailOk : LinkType → CString → Prop
  | .invalid, _ => True
  | .album, rest | .artist, rest | .track, rest =>
    rest ≠ [] ∧ (rest.length = 23 → rest.head? = some 58)
  | .playlist, rest => rest ≠ [] ∧ ∃ name after, rest.tail = name ++ 58 :: after ∧
    (58 : UInt8) ∉ name ∧ 9 ≤ after.length ∧
    (after.length = 31 → rest.head? = some 58 ∧ name ≠ [] ∧ after.take 9 = ascii "playlist:")
  | .search, rest => rest ≠ [] ∧ (1 < rest.length → rest.head? = some 58)

/-! ## Keywords -/

theorem keyword_unique {a b : LinkType} (ha : a ≠ .invalid) (hb : b ≠ .invalid) {r r' : CString}
    (h : a.keyword ++ r = b.keyword ++ r') : a = b ∧ r = r' := by
  have hten : a.keyword.take 10 = b.keyword.take 10 := by
    have hlen : ∀ t : LinkType, t ≠ .invalid → 10 ≤ t.keyword.length := by
      intro t ht
      cases t <;> first | exact absurd rfl ht | decide
    have htake := congrArg (List.take 10) h
    rwa [List.take_append_of_le_length (hlen a ha), List.take_append_of_le_length (hlen b hb)]
      at htake
  have hab : a = b := by
    cases a <;> cases b <;> first | rfl | exact absurd rfl ha | exact absurd rfl hb |
      exact absurd hten (by decide)
  subst hab
  exact ⟨rfl, List.append_cancel_left h⟩

/-- A URI is a keyword and what belongs behind it. -/
theorem isUri_iff {uri arg : CString} {type : LinkType} :
    IsUri uri type arg ↔ ∃ rest, uri = type.keyword ++ rest ∧ Tail type rest arg := by
  constructor
  · intro h
    cases h with
    | album hid => exact ⟨58 :: arg, rfl, rfl, hid⟩
    | artist hid => exact ⟨58 :: arg, rfl, rfl, hid⟩
    | track hid => exact ⟨58 :: arg, rfl, rfl, hid⟩
    | playlist hname hcolon hid => exact ⟨_, rfl, _, hname, hcolon, rfl, hid⟩
    | search hquery => exact ⟨58 :: arg, rfl, rfl, hquery⟩
  · rintro ⟨rest, rfl, h⟩
    cases type with
    | invalid => exact h.elim
    | album =>
      obtain ⟨rfl, hid⟩ := h
      exact .album hid
    | artist =>
      obtain ⟨rfl, hid⟩ := h
      exact .artist hid
    | track =>
      obtain ⟨rfl, hid⟩ := h
      exact .track hid
    | playlist =>
      obtain ⟨name, hname, hcolon, rfl, hid⟩ := h
      exact .playlist hname hcolon hid
    | search =>
      obtain ⟨rfl, hquery⟩ := h
      exact .search hquery

theorem isUri_keyword {a b : LinkType} (ha : a ≠ .invalid) {rest arg : CString} :
    IsUri (a.keyword ++ rest) b arg ↔ b = a ∧ Tail a rest arg := by
  rw [isUri_iff]
  constructor
  · rintro ⟨rest', heq, htail⟩
    have hb : b ≠ .invalid := by
      rintro rfl
      exact htail
    obtain ⟨rfl, rfl⟩ := keyword_unique ha hb heq
    exact ⟨rfl, htail⟩
  · rintro ⟨rfl, htail⟩
    exact ⟨rest, rfl, htail⟩

/-! ## What the code makes of them -/

/-- The branch behind the comparison with a keyword. -/
def branch : LinkType → CString → Option Link
  | .invalid, uri => some { uri := uri }
  | .album, uri => idLink .album uri 14
  | .artist, uri => idLink .artist uri 15
  | .track, uri => idLink .track uri 14
  | .playlist, uri => (behind uri 13).bind fun user =>
    if (58 : UInt8) ∈ user then idLink .playlist uri (user.idxOf 58 + 23) else none
  | .search, uri => (behind uri 15).map fun searcharg =>
    if searcharg.length = 0 then { uri := uri }
    else { uri := uri, arg := some searcharg, type := .search }

theorem strncmpEq_iff {uri : CString} {lit : String} {n : Nat} {b : LinkType}
    (hlit : (ascii lit).take n = b.keyword) (hn : b.keyword.length = n) :
    strncmpEq uri lit n = true ↔ ∃ rest, uri = b.keyword ++ rest := by
  rw [strncmpEq, decide_eq_true_iff, hlit]
  constructor
  · intro h
    exact ⟨uri.drop n, by rw [← h, List.take_append_drop]⟩
  · rintro ⟨rest, rfl⟩
    exact List.take_left' hn

/-- A string with a keyword comes to the branch of that keyword. -/
theorem fromUri_keyword {a : LinkType} (ha : a ≠ .invalid) (rest : CString) :
    despotifyLinkFromUri (a.keyword ++ rest) = branch a (a.keyword ++ rest) := by
  have hcompare : ∀ {b : LinkType} {lit : String} {n : Nat}, b ≠ .invalid →
      (ascii lit).take n = b.keyword → b.keyword.length = n →
      (strncmpEq (a.keyword ++ rest) lit n = true ↔ a = b) := by
    intro b lit n hb hlit hn
    rw [strncmpEq_iff hlit hn]
    constructor
    · rintro ⟨rest', h⟩
      exact (keyword_unique ha hb h).1
    · rintro rfl
      exact ⟨rest, rfl⟩
  have halbum : strncmpEq (a.keyword ++ rest) "spotify:album:" 13 = true ↔ a = .album :=
    hcompare (by decide) (by decide) (by decide)
  have hartist : strncmpEq (a.keyword ++ rest) "spotify:artist:" 14 = true ↔ a = .artist :=
    hcompare (by decide) (by decide) (by decide)
  have hsearch : strncmpEq (a.keyword ++ rest) "spotify:search:" 14 = true ↔ a = .search :=
    hcompare (by decide) (by decide) (by decide)
  have huser : strncmpEq (a.keyword ++ rest) "spotify:user:" 12 = true ↔ a = .playlist :=
    hcompare (by decide) (by decide) (by decide)
  have htrack : strncmpEq (a.keyword ++ rest) "spotify:track:" 13 = true ↔ a = .track :=
    hcompare (by decide) (by decide) (by decide)
  unfold despotifyLinkFromUri
  rw [if_congr halbum rfl rfl, if_congr hartist rfl rfl, if_congr hsearch rfl rfl,
    if_congr huser rfl rfl, if_congr htrack rfl rfl]
  cases a with
  | invalid => exact absurd rfl ha
  | album => rfl
  | artist => rfl
  | playlist => rfl
  | search => rfl
  | track => rfl

/-- A string without a keyword is no link. -/
theorem fromUri_other {uri : CString}
    (h : ∀ a : LinkType, a ≠ .invalid → ∀ rest, uri ≠ a.keyword ++ rest) :
    despotifyLinkFromUri uri = some { uri := uri } := by
  have hcompare : ∀ {b : LinkType} {lit : String} {n : Nat}, b ≠ .invalid →
      (ascii lit).take n = b.keyword → b.keyword.length = n → strncmpEq uri lit n = false := by
    intro b lit n hb hlit hn
    refine Bool.eq_false_iff.mpr fun hr => ?_
    obtain ⟨rest, hrest⟩ := (strncmpEq_iff hlit hn).mp hr
    exact h b hb rest hrest
  have halbum : strncmpEq uri "spotify:album:" 13 = false :=
    hcompare (b := .album) (by decide) (by decide) (by decide)
  have hartist : strncmpEq uri "spotify:artist:" 14 = false :=
    hcompare (b := .artist) (by decide) (by decide) (by decide)
  have hsearch : strncmpEq uri "spotify:search:" 14 = false :=
    hcompare (b := .search) (by decide) (by decide) (by decide)
  have huser : strncmpEq uri "spotify:user:" 12 = false :=
    hcompare (b := .playlist) (by decide) (by decide) (by decide)
  have htrack : strncmpEq uri "spotify:track:" 13 = false :=
    hcompare (b := .track) (by decide) (by decide) (by decide)
  simp only [despotifyLinkFromUri, halbum, hartist, hsearch, huser, htrack, Bool.false_eq_true,
    if_false]

/-! ## When that is right -/

variable {a : LinkType} {rest : CString}

theorem exact_keyword (ha : a ≠ .invalid) :
    Exact (a.keyword ++ rest) ↔ ∃ link, branch a (a.keyword ++ rest) = some link ∧
      (link.type ≠ .invalid ↔ ∃ arg, Tail a rest arg) ∧
      ∀ arg, Tail a rest arg → link.type = a ∧ link.arg = some arg := by
  have huri : (∃ type arg, IsUri (a.keyword ++ rest) type arg) ↔ ∃ arg, Tail a rest arg := by
    constructor
    · rintro ⟨type, arg, h⟩
      exact ⟨arg, ((isUri_keyword ha).mp h).2⟩
    · rintro ⟨arg, h⟩
      exact ⟨a, arg, (isUri_keyword ha).mpr ⟨rfl, h⟩⟩
  unfold Exact
  rw [fromUri_keyword ha, huri]
  refine exists_congr fun link => and_congr_right fun _ => and_congr_right fun _ => ?_
  constructor
  · intro h arg htail
    exact h a arg ((isUri_keyword ha).mpr ⟨rfl, htail⟩)
  · intro h type arg hisUri
    obtain ⟨rfl, htail⟩ := (isUri_keyword ha).mp hisUri
    exact h arg htail

/-- The string is read behind its end. -/
theorem not_exact_of_none (ha : a ≠ .invalid) (h : branch a (a.keyword ++ rest) = none) :
    ¬ Exact (a.keyword ++ rest) := by
  rw [exact_keyword ha, h]
  rintro ⟨link, hlink, -⟩
  cases hlink

theorem exact_iff_of_link (ha : a ≠ .invalid) {uri arg : CString}
    (h : branch a (a.keyword ++ rest) = some ⟨uri, some arg, a⟩)
    (hunique : ∀ arg', Tail a rest arg' → arg' = arg) :
    Exact (a.keyword ++ rest) ↔ Tail a rest arg := by
  rw [exact_keyword ha, h]
  constructor
  · rintro ⟨link, hlink, htype, -⟩
    cases hlink
    obtain ⟨arg', htail⟩ := htype.mp ha
    exact hunique arg' htail ▸ htail
  · intro htail
    refine ⟨_, rfl, ⟨fun _ => ⟨arg, htail⟩, fun _ => ha⟩, fun arg' htail' => ⟨rfl, ?_⟩⟩
    rw [hunique arg' htail']

theorem exact_iff_of_invalid (ha : a ≠ .invalid) {uri : CString}
    (h : branch a (a.keyword ++ rest) = some { uri := uri }) :
    Exact (a.keyword ++ rest) ↔ ∀ arg, ¬ Tail a rest arg := by
  rw [exact_keyword ha, h]
  constructor
  · rintro ⟨link, hlink, htype, -⟩ arg htail
    cases hlink
    exact absurd rfl (htype.mpr ⟨arg, htail⟩)
  · intro hno
    refine ⟨_, rfl, ⟨fun hne => absurd rfl hne, ?_⟩, fun arg htail => absurd htail (hno arg)⟩
    rintro ⟨arg, htail⟩
    exact absurd htail (hno arg)

theorem behind_keyword (a rest : CString) (n : Nat) :
    behind (a ++ rest) (a.length + n) = behind rest n := by
  unfold behind
  by_cases hn : n ≤ rest.length
  · rw [if_pos (by rw [List.length_append]; omega), if_pos hn, List.drop_append,
      List.drop_eq_nil_of_le (Nat.le_add_right _ _), Nat.add_sub_cancel_left, List.nil_append]
  · rw [if_neg (by rw [List.length_append]; omega), if_neg hn]

theorem idLink_keyword (a : LinkType) (rest : CString) (n : Nat) :
    idLink a (a.keyword ++ rest) (a.keyword.length + n) =
      if n ≤ rest.length then
        if rest.length = n + 22 then some ⟨a.keyword ++ rest, some (rest.drop n), a⟩
        else some { uri := a.keyword ++ rest }
      else none := by
  rw [idLink, behind_keyword, behind]
  by_cases hn : n ≤ rest.length
  · have hlen : (rest.drop n).length ≠ 22 ↔ ¬ rest.length = n + 22 := by
      rw [List.length_drop]
      omega
    rw [if_pos hn, if_pos hn, Option.map_some, if_congr hlen rfl rfl]
    by_cases hid : rest.length = n + 22
    · rw [if_neg (not_not.mpr hid), if_pos hid]
    · rw [if_pos hid, if_neg hid]
  · rw [if_neg hn, if_neg hn, Option.map_none]

/-- A keyword with an id right behind it. -/
theorem exact_iff_id (ha : a ≠ .invalid)
    (hbranch : ∀ uri, branch a uri = idLink a uri (a.keyword.length + 1))
    (htail : ∀ arg, Tail a rest arg ↔ rest = 58 :: arg ∧ arg.length = 22) :
    Exact (a.keyword ++ rest) ↔ rest ≠ [] ∧ (rest.length = 23 → rest.head? = some 58) := by
  have hread := (hbranch (a.keyword ++ rest)).trans (idLink_keyword a rest 1)
  cases rest with
  | nil =>
    constructor
    · intro h
      exact absurd h (not_exact_of_none ha hread)
    · rintro ⟨hne, -⟩
      exact absurd rfl hne
  | cons c id =>
    have hone : 1 ≤ (c :: id).length := Nat.succ_le_succ (Nat.zero_le _)
    rw [if_pos hone] at hread
    by_cases hid : (c :: id).length = 1 + 22
    · rw [if_pos hid] at hread
      rw [exact_iff_of_link ha hread fun arg' h => (List.cons.inj ((htail arg').mp h).1).2.symm,
        htail]
      constructor
      · rintro ⟨heq, -⟩
        exact ⟨List.cons_ne_nil c id, fun _ => congrArg some (List.cons.inj heq).1⟩
      · rintro ⟨-, hhead⟩
        have hc : c = 58 := Option.some.inj (hhead hid)
        exact ⟨by rw [hc]; rfl, by simpa using hid⟩
    · rw [if_neg hid] at hread
      rw [exact_iff_of_invalid ha hread]
      constructor
      · intro _
        exact ⟨List.cons_ne_nil c id, fun hlen => absurd hlen hid⟩
      · rintro - arg h
        obtain ⟨heq, hlen⟩ := (htail arg).mp h
        refine hid ?_
        rw [heq, List.length_cons, hlen]

theorem exact_iff_search :
    Exact (LinkType.search.keyword ++ rest) ↔ TailOk .search rest := by
  have ha : LinkType.search ≠ .invalid := by decide
  have hbehind : behind (LinkType.search.keyword ++ rest) 15 = behind rest 1 :=
    behind_keyword LinkType.search.keyword rest 1
  have hread : branch .search (LinkType.search.keyword ++ rest) = (behind rest 1).map
      fun searcharg => if searcharg.length = 0 then { uri := LinkType.search.keyword ++ rest }
        else { uri := LinkType.search.keyword ++ rest, arg := some searcharg, type := .search } := by
    rw [← hbehind]
    rfl
  cases rest with
  | nil =>
    constructor
    · intro h
      exact absurd h (not_exact_of_none ha hread)
    · rintro ⟨hne, -⟩
      exact absurd rfl hne
  | cons c query =>
    have hone : behind (c :: query) 1 = some query := if_pos (Nat.succ_le_succ (Nat.zero_le _))
    rw [hone, Option.map_some] at hread
    cases query with
    | nil =>
      rw [exact_iff_of_invalid ha hread]
      constructor
      · intro _
        exact ⟨List.cons_ne_nil c [], fun hlen => absurd hlen (Nat.lt_irrefl 1)⟩
      · rintro - arg ⟨heq, harg⟩
        exact harg (List.cons.inj heq).2.symm
    | cons d query =>
      rw [exact_iff_of_link ha hread fun arg' h => (List.cons.inj h.1).2.symm]
      constructor
      · rintro ⟨heq, -⟩
        exact ⟨List.cons_ne_nil _ _, fun _ => congrArg some (List.cons.inj heq).1⟩
      · rintro ⟨-, hhead⟩
        have hc : c = 58 := Option.some.inj (hhead (by simp))
        exact ⟨by rw [hc], List.cons_ne_nil d query⟩

/-- The first colon. -/
theorem first_colon {x y z w : CString} (hx : (58 : UInt8) ∉ x) (hy : (58 : UInt8) ∉ y)
    (h : x ++ 58 :: z = y ++ 58 :: w) : x = y ∧ z = w := by
  have hlen : x.length = y.length := by
    have hidx := congrArg (List.idxOf 58) h
    rwa [List.idxOf_append_of_notMem hx, List.idxOf_append_of_notMem hy, List.idxOf_cons_self,
      List.idxOf_cons_self] at hidx
  obtain ⟨hxy, hzw⟩ := List.append_inj h hlen
  exact ⟨hxy, (List.cons.inj hzw).2⟩

/-- What a playlist needs behind its keyword, when there is a colon. -/
theorem tail_playlist_iff {c : UInt8} {name after arg : CString} (hcolon : (58 : UInt8) ∉ name) :
    Tail .playlist (c :: (name ++ 58 :: after)) arg ↔
      c = 58 ∧ name ≠ [] ∧ after = ascii "playlist:" ++ arg ∧ arg.length = 22 := by
  have hword : ∀ arg : CString, ascii ":playlist:" ++ arg = 58 :: (ascii "playlist:" ++ arg) :=
    fun _ => rfl
  constructor
  · rintro ⟨name', hname, hcolon', heq, harg⟩
    obtain ⟨rfl, htail⟩ := List.cons.inj heq
    rw [hword] at htail
    obtain ⟨rfl, rfl⟩ := first_colon hcolon hcolon' htail
    exact ⟨rfl, hname, rfl, harg⟩
  · rintro ⟨rfl, hname, rfl, harg⟩
    exact ⟨name, hname, hcolon, rfl, harg⟩

theorem exact_iff_playlist :
    Exact (LinkType.playlist.keyword ++ rest) ↔ TailOk .playlist rest := by
  have ha : LinkType.playlist ≠ .invalid := by decide
  have hbehind : behind (LinkType.playlist.keyword ++ rest) 13 = behind rest 1 :=
    behind_keyword LinkType.playlist.keyword rest 1
  have hread : branch .playlist (LinkType.playlist.keyword ++ rest) = (behind rest 1).bind
      fun user => if (58 : UInt8) ∈ user then
        idLink .playlist (LinkType.playlist.keyword ++ rest) (user.idxOf 58 + 23) else none := by
    rw [← hbehind]
    rfl
  cases rest with
  | nil =>
    constructor
    · intro h
      exact absurd h (not_exact_of_none ha hread)
    · rintro ⟨hne, -⟩
      exact absurd rfl hne
  | cons c user =>
    have hone : behind (c :: user) 1 = some user := if_pos (Nat.succ_le_succ (Nat.zero_le _))
    rw [hone, Option.bind_some] at hread
    by_cases hmem : (58 : UInt8) ∈ user
    · obtain ⟨name, after, rfl, hcolon⟩ := List.eq_append_cons_of_mem hmem
      have hidx : (name ++ 58 :: after).idxOf 58 + 23 =
          LinkType.playlist.keyword.length + (name.length + 11) := by
        rw [List.idxOf_append_of_notMem hcolon, List.idxOf_cons_self,
          show LinkType.playlist.keyword.length = 12 from rfl]
        omega
      rw [if_pos hmem, hidx, idLink_keyword] at hread
      have hlength : (c :: (name ++ 58 :: after)).length = name.length + 2 + after.length := by
        simp only [List.length_cons, List.length_append]
        omega
      have hok : TailOk .playlist (c :: (name ++ 58 :: after)) ↔ 9 ≤ after.length ∧
          (after.length = 31 → c = 58 ∧ name ≠ [] ∧ after.take 9 = ascii "playlist:") := by
        constructor
        · rintro ⟨-, name', after', heq, hcolon', hlen, h⟩
          obtain ⟨rfl, rfl⟩ := first_colon hcolon hcolon' heq
          exact ⟨hlen, fun h31 => ⟨Option.some.inj (h h31).1, (h h31).2⟩⟩
        · rintro ⟨hlen, h⟩
          exact ⟨List.cons_ne_nil _ _, name, after, rfl, hcolon, hlen,
            fun h31 => ⟨congrArg some (h h31).1, (h h31).2⟩⟩
      rw [hok]
      by_cases hlen : 9 ≤ after.length
      · rw [if_pos (by omega)] at hread
        by_cases h31 : after.length = 31
        · have hdrop : (c :: (name ++ 58 :: after)).drop (name.length + 11) = after.drop 9 := by
            rw [show name.length + 11 = (name.length + 10) + 1 from rfl, List.drop_succ_cons,
              List.drop_append, List.drop_eq_nil_of_le (Nat.le_add_right _ _),
              Nat.add_sub_cancel_left, List.nil_append]
            rfl
          rw [if_pos (by omega), hdrop] at hread
          rw [exact_iff_of_link ha hread, tail_playlist_iff hcolon]
          · constructor
            · rintro ⟨rfl, hname, hafter, -⟩
              refine ⟨hlen, fun _ => ⟨rfl, hname, ?_⟩⟩
              rw [hafter, List.take_left' (by decide)]
            · rintro ⟨-, h⟩
              obtain ⟨rfl, hname, hword⟩ := h h31
              refine ⟨rfl, hname, ?_, by rw [List.length_drop, h31]⟩
              rw [← hword, List.take_append_drop]
          · intro arg' htail
            obtain ⟨-, -, hafter, -⟩ := (tail_playlist_iff hcolon).mp htail
            rw [hafter, List.drop_left' (by decide)]
        · rw [if_neg (by omega)] at hread
          rw [exact_iff_of_invalid ha hread]
          constructor
          · intro _
            exact ⟨hlen, fun h => absurd h h31⟩
          · rintro - arg htail
            obtain ⟨-, -, hafter, harg⟩ := (tail_playlist_iff hcolon).mp htail
            refine h31 ?_
            rw [hafter, List.length_append, harg]
            decide
      · rw [if_neg (by omega)] at hread
        constructor
        · intro h
          exact absurd h (not_exact_of_none ha hread)
        · rintro ⟨h, -⟩
          exact absurd h hlen
    · rw [if_neg hmem] at hread
      constructor
      · intro h
        exact absurd h (not_exact_of_none ha hread)
      · rintro ⟨-, name, after, heq, -⟩
        refine absurd ?_ hmem
        rw [show user = name ++ 58 :: after from heq]
        exact List.mem_append_right _ List.mem_cons_self

/-- On a string with a keyword. -/
theorem exact_iff_tailOk (ha : a ≠ .invalid) : Exact (a.keyword ++ rest) ↔ TailOk a rest := by
  cases a with
  | invalid => exact absurd rfl ha
  | album => exact exact_iff_id ha (fun _ => rfl) fun _ => Iff.rfl
  | artist => exact exact_iff_id ha (fun _ => rfl) fun _ => Iff.rfl
  | track => exact exact_iff_id ha (fun _ => rfl) fun _ => Iff.rfl
  | playlist => exact exact_iff_playlist
  | search => exact exact_iff_search

/-- **Which strings are links**: `despotify_link_from_uri` stays within the string and accepts
exactly the URIs, if and only if what is behind a keyword is as it takes it to be. -/
theorem uri_exact_iff (uri : CString) :
    Exact uri ↔ ∀ (type : LinkType) (rest : CString), uri = type.keyword ++ rest →
      TailOk type rest := by
  by_cases hkey : ∃ a rest, a ≠ LinkType.invalid ∧ uri = a.keyword ++ rest
  · obtain ⟨a, rest, ha, rfl⟩ := hkey
    rw [exact_iff_tailOk ha]
    constructor
    · intro hok type rest' heq
      by_cases htype : type = .invalid
      · rw [htype]
        trivial
      · obtain ⟨rfl, rfl⟩ := keyword_unique ha htype heq
        exact hok
    · intro h
      exact h a rest rfl
  · have hno : ∀ a : LinkType, a ≠ .invalid → ∀ rest, uri ≠ a.keyword ++ rest :=
      fun a ha rest heq => hkey ⟨a, rest, ha, heq⟩
    have huri : ∀ type arg, ¬ IsUri uri type arg := by
      intro type arg h
      obtain ⟨rest, heq, htail⟩ := isUri_iff.mp h
      refine hno type ?_ rest heq
      rintro rfl
      exact htail
    constructor
    · intro _ type rest heq
      by_cases htype : type = .invalid
      · rw [htype]
        trivial
      · exact absurd heq (hno type htype rest)
    · intro _
      refine ⟨_, fromUri_other hno, ⟨fun hne => absurd rfl hne, ?_⟩, fun type arg h =>
        absurd h (huri type arg)⟩
      rintro ⟨type, arg, h⟩
      exact absurd h (huri type arg)

/-- A user without a playlist: the second colon is looked for and not there. -/
theorem not_exact_user : ¬ ∀ uri : CString, (0 : UInt8) ∉ uri → Exact uri := by
  intro h
  have hnone : despotifyLinkFromUri (ascii "spotify:user:name") = none := by decide +kernel
  obtain ⟨link, hlink, -⟩ := h (ascii "spotify:user:name") (by decide)
  rw [hnone] at hlink
  cases hlink

/-! ## The ids in links -/

/-- Whichever getter converts the id writes 32 hex digits, and no more. -/
def Converts (link : Link) : Prop :=
  ∃ id, id.length = 32 ∧ InBase 16 id ∧ despotifyLinkGetAlbum link = some id ∧
    despotifyLinkGetArtist link = some id ∧ despotifyLinkGetTrack link = some id ∧
    despotifyLinkGetPlaylist link = some (id ++ ascii "02")

theorem despotifyUri2id_isSome_iff {uri : CString} (hlen : uri.length = 22) :
    (despotifyUri2id uri).isSome ↔
      (∀ c ∈ uri, c ∈ alphabet) ∧ denotes 62 uri < 16 ^ 32 :=
  baseconvert_isSome_iff (by decide) (by decide) (by decide) (by omega)

/-- What is written where there is a result. -/
theorem despotifyUri2id_some {uri id : CString} (hlen : uri.length = 22)
    (h : despotifyUri2id uri = some id) : id.length = 32 ∧ InBase 16 id := by
  obtain ⟨hmem, hlt⟩ := (despotifyUri2id_isSome_iff hlen).mp (Option.isSome_of_eq_some h)
  have heq : despotifyUri2id uri = some (written (fixed 16 32 (denotes 62 uri))) :=
    baseconvert_eq (by decide) (by decide) (by decide) hmem (by omega) hlt
  rw [Option.some.inj (h.symm.trans heq)]
  refine ⟨?_, inBase_written (by decide) (fixed_lt (by decide) 32 _)⟩
  rw [written, List.length_map, length_fixed]

/-- **Ids of links**: the conversion stays within its buffer if and only if the characters are
of the alphabet, all 64 of it, and the number they denote has at most 32 hex digits. -/
theorem converts_iff {link : Link} {arg : CString} (harg : link.arg = some arg)
    (hlen : arg.length = 22) :
    Converts link ↔ (∀ c ∈ arg, c ∈ alphabet) ∧ denotes 62 arg < 16 ^ 32 := by
  have hbind : link.arg.bind despotifyUri2id = despotifyUri2id arg := by
    rw [harg, Option.bind_some]
  rw [← despotifyUri2id_isSome_iff hlen]
  constructor
  · rintro ⟨id, -, -, halbum, -⟩
    rw [← hbind, show link.arg.bind despotifyUri2id = some id from halbum]
    rfl
  · intro h
    obtain ⟨id, hid⟩ := Option.isSome_iff_exists.mp h
    obtain ⟨hlength, hbase⟩ := despotifyUri2id_some hlen hid
    have hget := hbind.trans hid
    refine ⟨id, hlength, hbase, hget, hget, hget, ?_⟩
    rw [despotifyLinkGetPlaylist, hget, Option.map_some]

theorem converts_zero : Converts ⟨ascii "spotify:track:0000000000000000000001",
    some (ascii "0000000000000000000001"), .track⟩ :=
  (converts_iff rfl (by decide)).mpr ⟨by decide +kernel, by decide +kernel⟩

/-- The largest number of 22 digits has 33 hex digits. -/
theorem not_converts_track : ¬ ∀ (uri : CString) (link : Link) (arg : CString),
    despotifyLinkFromUri uri = some link → link.type ≠ .invalid → link.arg = some arg →
      arg.length = 22 → Converts link := by
  intro h
  have hlt : ∀ arg : CString, arg.length = 22 → denotes 62 arg < 16 ^ 32 := by
    intro arg hlen
    have htype : LinkType.track ≠ .invalid := by decide
    obtain ⟨id, -, -, hid, -⟩ := h _ _ _ (fromUri_track hlen) htype rfl hlen
    exact ((despotifyUri2id_isSome_iff hlen).mp (Option.isSome_of_eq_some hid)).2
  exact absurd (hlt (ascii "ZZZZZZZZZZZZZZZZZZZZZZ") (by decide +kernel)) (by decide +kernel)

end Despotify.Lib

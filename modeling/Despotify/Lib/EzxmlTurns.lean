import Despotify.Lib.EzxmlParse

/-!
# The turns of `ezxml_parse_str`

* `suffix_markup`, `suffix_content`: every turn gets further in the document, so that there are
  enough of them (`loop_eq`).
* `Kept.loop`: the elements that are open are well formed in every turn.
* `wellFormed_parseStr`: the tree is well formed, whatever the document was.
-/

namespace Despotify.Ezxml

open Gateway (ascii isspace)
open Lib (CString)

/-! ## How far a turn gets -/

theorem isspace_of_isWs {c : UInt8} (h : isWs c = true) : isspace c = true := by
  have hcases : c = 9 ∨ c = 13 ∨ c = 10 ∨ c = 32 := by simpa [isWs, or_assoc] using h
  rcases hcases with rfl | rfl | rfl | rfl <;> decide

/-- What is no part of a name and does not end the tag is white space or a `=`. -/
theorem isspace_of_not_isAttrName {c : UInt8} (hc : ¬ (c = 47 ∨ c = 62))
    (h : ¬ isAttrName c = true) : c = 61 ∨ isspace c = true := by
  obtain ⟨hslash, hgt⟩ := not_or.mp hc
  by_cases heq : c = 61
  · exact Or.inl heq
  by_cases hws : isWs c = true
  · exact Or.inr (isspace_of_isWs hws)
  · refine absurd ?_ h
    simp [isAttrName, isName, hws, hslash, hgt, heq]

theorem head_dropWhile_isspace (s : CString) : (s.dropWhile isspace).head?.any isspace = false := by
  cases hs : s.dropWhile isspace with
  | nil => rfl
  | cons c t =>
    have hc := List.head?_dropWhile_not isspace s
    rw [hs] at hc
    exact hc

/-- What is read of an attribute: its name ends at the first byte that is no part of one, and a
`=` or white space there is passed over. -/
theorem parseAttr_ok {s rest : CString} {a : Attr} (h : parseAttr s = .ok (a, rest)) :
    (a.1 = s.takeWhile isAttrName ∧ ∀ v ∈ a.2, 0 ∉ v) ∧
      rest.head?.any isspace = false ∧ rest <:+ s.dropWhile isAttrName ∧
      ∀ d t, s.dropWhile isAttrName = d :: t → d = 61 ∨ isspace d = true → rest <:+ t := by
  have hnone : ∀ v ∈ (none : Option CString), 0 ∉ v := fun _ hv => by cases hv
  unfold parseAttr at h
  dsimp only at h
  split at h
  next hd =>
    cases h
    exact ⟨⟨rfl, hnone⟩, rfl, List.nil_suffix, fun d t ht => by rw [hd] at ht; cases ht⟩
  next d t hd =>
    -- what is left behind the `=` is left behind the name
    have hpast : ∀ {rest : CString}, rest <:+ t → rest <:+ s.dropWhile isAttrName ∧
        ∀ d t, s.dropWhile isAttrName = d :: t → d = 61 ∨ isspace d = true → rest <:+ t := by
      intro rest hrest
      rw [hd]
      refine ⟨hrest.trans (List.suffix_cons d t), fun d' t' heq _ => ?_⟩
      rw [← (List.cons.inj heq).2]
      exact hrest
    split at h
    next hsep =>
      split at h
      · cases h
        exact ⟨⟨rfl, hnone⟩, rfl, hpast List.nil_suffix⟩
      next q u hq =>
        have hvalue : q :: u <:+ t := hq ▸ List.dropWhile_suffix _
        split at h
        · split at h
          · cases h
          next r v hr =>
            have hquote : r :: v <:+ u := hr ▸ List.dropWhile_suffix _
            cases h
            refine ⟨⟨rfl, fun v hv => ?_⟩, head_dropWhile_isspace v, hpast ?_⟩
            · cases hv
              exact zero_notMem_decode _ _
            · exact (List.dropWhile_suffix _).trans ((List.suffix_cons r v).trans
                (hquote.trans ((List.suffix_cons q u).trans hvalue)))
        · cases h
          exact ⟨⟨rfl, hnone⟩, head_dropWhile_isspace _,
            hpast ((List.dropWhile_suffix _).trans hvalue)⟩
    next hsep =>
      cases h
      refine ⟨⟨rfl, hnone⟩, head_dropWhile_isspace _, hd ▸ List.dropWhile_suffix _, ?_⟩
      intro d' t' heq hd'
      rw [hd] at heq
      exact absurd ((List.cons.inj heq).1 ▸ hd') hsep

/-- An attribute takes a byte or more. -/
theorem suffix_parseAttr {c : UInt8} {s rest : CString} {a : Attr}
    (hc : ¬ (c = 47 ∨ c = 62)) (h : parseAttr (c :: s) = .ok (a, rest)) : rest <:+ s := by
  obtain ⟨-, -, hrest, hsep⟩ := parseAttr_ok h
  by_cases hattr : isAttrName c = true
  · rw [List.dropWhile_cons_of_pos hattr] at hrest
    exact hrest.trans (List.dropWhile_suffix isAttrName)
  · exact hsep c s (List.dropWhile_cons_of_neg hattr) (isspace_of_not_isAttrName hc hattr)

/-- More turns do not change anything. -/
theorem parseAttrs_eq {m n : Nat} {s : CString} (hm : s.length ≤ m) (hn : s.length ≤ n) :
    parseAttrs m s = parseAttrs n s := by
  induction m generalizing n s with
  | zero =>
    cases List.length_eq_zero_iff.mp (Nat.le_zero.mp hm)
    cases n <;> rfl
  | succ m ih =>
    cases s with
    | nil => cases n <;> rfl
    | cons c s =>
      cases n with
      | zero => cases hn
      | succ n =>
        rw [List.length_cons] at hm hn
        rw [parseAttrs, parseAttrs]
        split
        · rfl
        next hc =>
          cases ha : parseAttr (c :: s) with
          | error err => rfl
          | ok r =>
            obtain ⟨a, rest⟩ := r
            have hrest := (suffix_parseAttr hc ha).length_le
            show (parseAttrs m rest >>= _) = (parseAttrs n rest >>= _)
            rw [ih (n := n) (by omega) (by omega)]

theorem bind_ok {α β : Type} {x : Except Err α} {f : α → Except Err β} {b : β}
    (h : x >>= f = .ok b) : ∃ a, x = .ok a ∧ f a = .ok b := by
  cases x with
  | error err => cases h
  | ok a => exact ⟨a, rfl, h⟩

theorem suffix_parseAttrs {n : Nat} {s rest : CString} {as : List Attr}
    (h : parseAttrs n s = .ok (as, rest)) : rest <:+ s := by
  induction n generalizing s as with
  | zero =>
    cases h
    exact List.suffix_refl _
  | succ n ih =>
    cases s with
    | nil =>
      cases h
      exact List.suffix_refl _
    | cons c s =>
      rw [parseAttrs] at h
      split at h
      · cases h
        exact List.suffix_refl _
      next hc =>
        obtain ⟨⟨a, t⟩, ha, h⟩ := bind_ok h
        obtain ⟨⟨bs, u⟩, hu, h⟩ := bind_ok h
        cases h
        exact (ih hu).trans ((suffix_parseAttr hc ha).trans (List.suffix_cons c s))

section
variable {e : UInt8} {root root' : Root} {s rest : CString}

/-- What a tag does: it is opened with its attributes, and closed again if it ends in a slash. -/
theorem tagMarkup_ok (h : tagMarkup e root s = .ok (root', rest)) :
    root.closed = none ∧ ∃ n as t,
      parseAttrs n ((s.dropWhile isName).dropWhile isspace) = .ok (as, t) ∧ rest <:+ t ∧
      (root' = root.openTag (s.takeWhile isName) as ∨
        (root.openTag (s.takeWhile isName) as).closeTag (s.takeWhile isName) = .ok root') := by
  unfold tagMarkup at h
  split at h
  · cases h
  next hopen =>
    dsimp only at h
    obtain ⟨⟨as, t⟩, has, h⟩ := bind_ok h
    refine ⟨Option.not_isSome_iff_eq_none.mp hopen, _, as, t, has, ?_⟩
    dsimp only at h
    split at h
    · split at h
      · cases h
        exact ⟨List.nil_suffix, Or.inl rfl⟩
      · cases h
    next c t =>
      split at h
      · split at h
        · split at h
          · obtain ⟨r, hr, h⟩ := bind_ok h
            cases h
            exact ⟨List.nil_suffix, Or.inr hr⟩
          · cases h
        · split at h
          · obtain ⟨r, hr, h⟩ := bind_ok h
            cases h
            exact ⟨List.suffix_cons c _, Or.inr hr⟩
          · cases h
      · split at h
        · cases h
          exact ⟨List.suffix_refl _, Or.inl rfl⟩
        · cases h

theorem suffix_tagMarkup (h : tagMarkup e root s = .ok (root', rest)) : rest <:+ s := by
  obtain ⟨-, n, as, t, has, hrest, -⟩ := tagMarkup_ok h
  exact hrest.trans ((suffix_parseAttrs has).trans
    ((List.dropWhile_suffix _).trans (List.dropWhile_suffix _)))

theorem closeMarkup_ok (h : closeMarkup e root s = .ok (root', rest)) :
    (∃ name, root.closeTag name = .ok root') ∧ rest <:+ s := by
  unfold closeMarkup at h
  dsimp only at h
  split at h
  · cases h
  · obtain ⟨r, hr, h⟩ := bind_ok h
    cases h
    exact ⟨⟨_, hr⟩, (List.dropWhile_suffix _).trans (List.dropWhile_suffix _)⟩

theorem suffix_strstr {needle t : CString} (h : strstr needle s = some t) : t <:+ s := by
  induction s with
  | nil =>
    rw [strstr] at h
    split at h
    · cases h
      exact List.suffix_refl _
    · cases h
  | cons c s ih =>
    rw [strstr] at h
    split at h
    · cases h
      exact List.suffix_refl _
    · exact (ih h).trans (List.suffix_cons c s)

theorem closed_eq {err : Err} (h : closed e root err s = .ok (root', rest)) :
    root' = root ∧ rest = s := by
  unfold closed at h
  split at h
  · split at h
    · cases h
      exact ⟨rfl, rfl⟩
    · cases h
  · split at h
    · cases h
      exact ⟨rfl, rfl⟩
    · cases h

theorem suffix_piEnd {t : CString} (h : piEnd s = some t) : t <:+ s := by
  induction s using piEnd.induct with
  | case1 => cases h
  | case2 =>
    cases h
    exact List.nil_suffix
  | case3 s =>
    cases h
    exact List.suffix_cons _ _
  | case4 c s _ _ ih =>
    rw [piEnd] at h
    · exact (ih h).trans (List.suffix_cons c s)
    all_goals assumption

/-- What a piece of markup does: it is a tag, or a tag is closed, or text is added, or nothing
comes of it. -/
theorem markup_ok (h : markup e root s = .ok (root', rest)) :
    s.head?.any isNameStart = true ∧ tagMarkup e root s = .ok (root', rest) ∨
    ((∃ name, root.closeTag name = .ok root') ∨ (∃ text, root' = root.charContent text .cdata) ∨
      root' = root) ∧ rest <:+ s := by
  unfold markup at h
  split at h
  next hstart => exact Or.inl ⟨hstart, h⟩
  refine Or.inr ?_
  split at h
  · obtain ⟨hclose, hrest⟩ := closeMarkup_ok h
    exact ⟨Or.inl hclose, hrest.trans (List.drop_suffix 1 s)⟩
  split at h
  · split at h
    · cases h
    next t ht =>
      obtain ⟨hroot, rfl⟩ := closed_eq h
      exact ⟨Or.inr (Or.inr hroot),
        (List.drop_suffix 2 t).trans ((suffix_strstr ht).trans (List.drop_suffix 3 s))⟩
  split at h
  · split at h
    · cases h
    next t ht =>
      cases h
      exact ⟨Or.inr (Or.inl ⟨_, rfl⟩), (List.drop_suffix 2 t).trans (suffix_strstr ht)⟩
  split at h
  · split at h
    · cases h
    · obtain ⟨hroot, rfl⟩ := closed_eq h
      exact ⟨Or.inr (Or.inr hroot), (List.dropWhile_suffix _).trans (List.drop_suffix 1 s)⟩
  split at h
  · split at h
    · cases h
    next t ht =>
      obtain ⟨hroot, rfl⟩ := closed_eq h
      exact ⟨Or.inr (Or.inr hroot), suffix_piEnd ht⟩
  · cases h

theorem suffix_markup (h : markup e root s = .ok (root', rest)) : rest <:+ s := by
  rcases markup_ok h with ⟨-, htag⟩ | ⟨-, hrest⟩
  · exact suffix_tagMarkup htag
  · exact hrest

end

/-- Two bytes are passed over. -/
theorem suffix_content {root root' : Root} {s rest : CString}
    (h : content root s = (root', some rest)) : rest <:+ s ∧ rest.length + 2 ≤ s.length := by
  unfold content at h
  split at h
  · cases h
  next c t ht =>
    have hdrop : c :: t <:+ s.drop 1 := ht ▸ List.dropWhile_suffix _
    have hlength := hdrop.length_le
    rw [List.length_cons, List.length_drop] at hlength
    cases h
    exact ⟨(List.suffix_cons c _).trans (hdrop.trans (List.drop_suffix 1 s)), by omega⟩

/-- More turns do not change anything. -/
theorem loop_eq {e : UInt8} {m n : Nat} {root : Root} {s : CString} (hm : s.length < m)
    (hn : s.length < n) : loop e m root s = loop e n root s := by
  induction m generalizing n root s with
  | zero => cases hm
  | succ m ih =>
    cases n with
    | zero => cases hn
    | succ n =>
      rw [loop, loop]
      cases hmarkup : markup e root s with
      | error err => rfl
      | ok r =>
        obtain ⟨root', t⟩ := r
        have ht := (suffix_markup hmarkup).length_le
        dsimp only
        cases hcontent : content root' t with
        | mk root'' next =>
          cases next with
          | none => rfl
          | some u =>
            have hu := (suffix_content hcontent).2
            exact ih (by omega) (by omega)

/-- As many turns as there can be. -/
def run (e : UInt8) (root : Root) (s : CString) : Root × Option Err :=
  loop e (s.length + 1) root s

/-- The end of a turn, and those that follow. -/
def after (e : UInt8) (root : Root) (s : CString) : Root × Option Err :=
  match content root s with
  | (root, none) => (root, atEnd root)
  | (root, some s) => run e root s

theorem run_ok {e : UInt8} {root root' : Root} {s t : CString}
    (h : markup e root s = .ok (root', t)) : run e root s = after e root' t := by
  rw [run, loop, h, after]
  dsimp only
  cases hcontent : content root' t with
  | mk root'' next =>
    cases next with
    | none => rfl
    | some u =>
      have ht := (suffix_markup h).length_le
      have hu := (suffix_content hcontent).2
      exact loop_eq (by omega) (Nat.lt_succ_self _)

/-! ## Well-formed elements -/

/-- The name of a tag. -/
structure TagName (s : CString) : Prop where
  front : s.head?.any isNameStart = true
  all : ∀ c ∈ s, isName c = true ∧ c ≠ 0

/-- The name of an attribute. -/
structure AttrName (s : CString) : Prop where
  front : s.head?.any isspace = false
  all : ∀ c ∈ s, isAttrName c = true ∧ c ≠ 0

/-- What an element is, with all that is in it: the tags stand in the order of their places, and
these are in the text. -/
inductive WellFormed : Node → Prop
  | mk {name : CString} {attr : List Attr} {txt : CString} {off : Nat}
      {child : List Node} (hname : TagName name) (hattr : ∀ a ∈ attr, AttrName a.1 ∧ ∀ v ∈ a.2, 0 ∉ v)
      (htxt : 0 ∉ txt) (hoff : ∀ x ∈ child, x.off ≤ txt.length)
      (hsorted : child.Pairwise fun x y => x.off ≤ y.off) (hchild : ∀ x ∈ child, WellFormed x) :
      WellFormed (.mk name attr txt off child)

/-- The elements that are open: each stands where the text of the one around it ends. -/
inductive Nested : List Node → Prop
  | root {x : Node} (hx : WellFormed x) (hoff : x.off = 0) : Nested [x]
  | inner {x y : Node} {cur : List Node} (hx : WellFormed x) (hoff : x.off = y.txt.length)
      (hcur : Nested (y :: cur)) : Nested (x :: y :: cur)

/-- What is always true of `root`. -/
inductive Kept : Root → Prop
  | start : Kept ⟨[], none⟩
  | inside {cur : List Node} (hcur : Nested cur) : Kept ⟨cur, none⟩
  | done {x : Node} (hx : WellFormed x) (hoff : x.off = 0) : Kept ⟨[], some x⟩

namespace WellFormed

theorem addText {x : Node} {s : CString} (h : WellFormed x) (hs : 0 ∉ s) :
    WellFormed (x.addText s) := by
  cases h with
  | mk hname hattr htxt hoff hsorted hchild =>
    refine .mk hname hattr ?_ ?_ hsorted hchild
    · rw [List.mem_append]
      exact not_or.mpr ⟨htxt, hs⟩
    · intro y hy
      rw [List.length_append]
      exact (hoff y hy).trans (Nat.le_add_right _ _)

theorem addChild {x y : Node} (h : WellFormed y) (hx : WellFormed x)
    (hoff : x.off = y.txt.length) : WellFormed (y.addChild x) := by
  cases h with
  | mk hname hattr htxt hoffs hsorted hchild =>
    refine .mk hname hattr htxt ?_ ?_ ?_
    · rw [List.forall_mem_append]
      exact ⟨hoffs, List.forall_mem_singleton.mpr (Nat.le_of_eq hoff)⟩
    · rw [List.pairwise_append]
      refine ⟨hsorted, List.pairwise_singleton _ _, fun z hz w hw => ?_⟩
      rw [List.mem_singleton.mp hw, hoff]
      exact hoffs z hz
    · rw [List.forall_mem_append]
      exact ⟨hchild, List.forall_mem_singleton.mpr hx⟩

end WellFormed

namespace Nested

theorem head {x : Node} {cur : List Node} (h : Nested (x :: cur)) : WellFormed x := by
  cases h with
  | root hx hoff => exact hx
  | inner hx hoff hcur => exact hx

/-- The innermost element changes. -/
theorem change {x y : Node} {cur : List Node} (h : Nested (x :: cur)) (hy : WellFormed y)
    (hoff : y.off = x.off) : Nested (y :: cur) := by
  cases h with
  | root hx hzero => exact .root hy (hoff.trans hzero)
  | inner hx hplace hcur => exact .inner hy (hoff.trans hplace) hcur

end Nested

@[simp] theorem off_addText (x : Node) (s : CString) : (x.addText s).off = x.off := by
  cases x
  rfl

@[simp] theorem off_addChild (x y : Node) : (x.addChild y).off = x.off := by
  cases x
  rfl

namespace Kept

theorem openTag {root : Root} {name : CString} {attr : List Attr}
    (h : Kept root) (hopen : root.closed = none) (hname : TagName name)
    (hattr : ∀ a ∈ attr, AttrName a.1 ∧ ∀ v ∈ a.2, 0 ∉ v) : Kept (root.openTag name attr) := by
  have hnew : ∀ off, WellFormed (.mk name attr [] off []) := fun off =>
    .mk hname hattr (List.not_mem_nil) (fun _ hx => absurd hx List.not_mem_nil) .nil
      (fun _ hx => absurd hx List.not_mem_nil)
  cases h with
  | start => exact .inside (.root (hnew 0) rfl)
  | inside hcur =>
    cases hcur with
    | root hx hoff => exact .inside (.inner (hnew _) rfl (.root hx hoff))
    | inner hx hoff hcur => exact .inside (.inner (hnew _) rfl (.inner hx hoff hcur))
  | done hx hoff => cases hopen

theorem closeTag {root root' : Root} {name : CString} (h : Kept root)
    (hclose : root.closeTag name = .ok root') : Kept root' := by
  cases h with
  | start => cases hclose
  | inside hcur =>
    cases hcur with
    | root hx hoff =>
      unfold Root.closeTag at hclose
      dsimp only at hclose
      split at hclose
      · cases hclose
        exact .done hx hoff
      · cases hclose
    | inner hx hoff hcur =>
      unfold Root.closeTag at hclose
      dsimp only at hclose
      split at hclose
      · cases hclose
        exact .inside (hcur.change (hcur.head.addChild hx hoff) (off_addChild _ _))
      · cases hclose
  | done hx hoff => cases hclose

theorem charContent {root : Root} (h : Kept root) (s : CString) (t : Mode) :
    Kept (root.charContent s t) := by
  unfold Root.charContent
  split
  · exact h
  next x cur hcur =>
    split
    · exact h
    · cases h with
      | start => cases hcur
      | inside hnested =>
        subst hcur
        exact .inside (hnested.change (hnested.head.addText (zero_notMem_decode t s))
          (off_addText _ _))
      | done hx hoff => cases hcur

end Kept

/-! ## The run -/

theorem attrName_parseAttr {c : UInt8} {s rest : CString} {a : Attr}
    (hc : isspace c = false) (hs : 0 ∉ c :: s) (h : parseAttr (c :: s) = .ok (a, rest)) :
    AttrName a.1 ∧ ∀ v ∈ a.2, 0 ∉ v := by
  obtain ⟨⟨hname, hvalue⟩, -⟩ := parseAttr_ok h
  refine ⟨?_, hvalue⟩
  rw [hname]
  refine ⟨?_, fun d hd => ⟨List.mem_takeWhile_imp hd, ?_⟩⟩
  · by_cases hattr : isAttrName c = true
    · rw [List.takeWhile_cons_of_pos hattr]
      exact hc
    · rw [List.takeWhile_cons_of_neg hattr]
      rfl
  · rintro rfl
    exact hs ((List.takeWhile_prefix _).subset hd)

theorem attrName_parseAttrs {n : Nat} {s rest : CString} {as : List Attr}
    (hfront : s.head?.any isspace = false) (hs : 0 ∉ s) (h : parseAttrs n s = .ok (as, rest)) :
    ∀ a ∈ as, AttrName a.1 ∧ ∀ v ∈ a.2, 0 ∉ v := by
  induction n generalizing s as with
  | zero =>
    cases h
    exact fun _ ha => absurd ha List.not_mem_nil
  | succ n ih =>
    cases s with
    | nil =>
      cases h
      exact fun _ ha => absurd ha List.not_mem_nil
    | cons c s =>
      rw [parseAttrs] at h
      split at h
      · cases h
        exact fun _ ha => absurd ha List.not_mem_nil
      next hc =>
        obtain ⟨⟨a, t⟩, ha, h⟩ := bind_ok h
        obtain ⟨⟨bs, u⟩, hu, h⟩ := bind_ok h
        cases h
        have ht : t <:+ c :: s := (suffix_parseAttr hc ha).trans (List.suffix_cons c s)
        exact List.forall_mem_cons.mpr ⟨attrName_parseAttr hfront hs ha,
          ih (parseAttr_ok ha).2.1 (fun hzero => hs (ht.subset hzero)) hu⟩

section
variable {e : UInt8} {root root' : Root} {s rest : CString}

theorem tagName_takeWhile (hstart : s.head?.any isNameStart = true) (hs : 0 ∉ s) :
    TagName (s.takeWhile isName) := by
  cases s with
  | nil => cases hstart
  | cons c s =>
    have hname : isName c = true := by
      have hall : ∀ n < 256, isNameStart (UInt8.ofNat n) = true →
          isName (UInt8.ofNat n) = true := by
        decide +kernel
      have hc := hall c.toNat c.toNat_lt
      rw [UInt8.ofNat_toNat] at hc
      exact hc hstart
    refine ⟨?_, fun d hd => ⟨List.mem_takeWhile_imp hd, ?_⟩⟩
    · rw [List.takeWhile_cons_of_pos hname]
      exact hstart
    · rintro rfl
      exact hs ((List.takeWhile_prefix _).subset hd)

theorem Kept.tagMarkup (hroot : Kept root) (hstart : s.head?.any isNameStart = true)
    (hs : 0 ∉ s) (h : tagMarkup e root s = .ok (root', rest)) : Kept root' := by
  obtain ⟨hopen, n, as, t, has, -, hroot'⟩ := tagMarkup_ok h
  have hsuffix : (s.dropWhile isName).dropWhile isspace <:+ s :=
    (List.dropWhile_suffix _).trans (List.dropWhile_suffix _)
  have hnew : Kept (root.openTag (s.takeWhile isName) as) :=
    hroot.openTag hopen (tagName_takeWhile hstart hs)
      (attrName_parseAttrs (head_dropWhile_isspace _)
        (fun hzero => hs (hsuffix.subset hzero)) has)
  rcases hroot' with rfl | hclose
  · exact hnew
  · exact hnew.closeTag hclose

theorem Kept.markup (hroot : Kept root) (hs : 0 ∉ s)
    (h : markup e root s = .ok (root', rest)) : Kept root' := by
  rcases markup_ok h with ⟨hstart, htag⟩ | ⟨⟨name, hclose⟩ | ⟨text, rfl⟩ | rfl, -⟩
  · exact hroot.tagMarkup hstart hs htag
  · exact hroot.closeTag hclose
  · exact hroot.charContent _ _
  · exact hroot

theorem Kept.content {next : Option CString} (hroot : Kept root)
    (h : content root s = (root', next)) : Kept root' := by
  unfold Ezxml.content at h
  split at h
  · cases h
    exact hroot
  · cases h
    exact hroot.charContent _ _

theorem Kept.loop {n : Nat} {err : Option Err} (hroot : Kept root) (hs : 0 ∉ s)
    (h : loop e n root s = (root', err)) : Kept root' := by
  induction n generalizing root s with
  | zero =>
    cases h
    exact hroot
  | succ n ih =>
    rw [Ezxml.loop] at h
    cases hm : Ezxml.markup e root s with
    | error err =>
      rw [hm] at h
      cases h
      exact hroot
    | ok r =>
      obtain ⟨root₁, t⟩ := r
      have ht := suffix_markup hm
      rw [hm] at h
      dsimp only at h
      cases hc : Ezxml.content root₁ t with
      | mk root₂ next =>
        have hkept := (hroot.markup hs hm).content hc
        rw [hc] at h
        cases next with
        | none =>
          cases h
          exact hkept
        | some u =>
          have hu := (suffix_content hc).1.trans ht
          exact ih hkept (fun hzero => hs (hu.subset hzero)) h

end

/-- The elements that are open are closed, from the innermost on. -/
theorem Nested.foldl {x : Node} {cur : List Node} (h : Nested (x :: cur)) :
    WellFormed (cur.foldl (fun x y => y.addChild x) x) ∧
      (cur.foldl (fun x y => y.addChild x) x).off = 0 := by
  induction cur generalizing x with
  | nil =>
    cases h with
    | root hx hoff => exact ⟨hx, hoff⟩
  | cons y cur ih =>
    cases h with
    | inner hx hoff hcur =>
      exact ih (hcur.change (hcur.head.addChild hx hoff) (off_addChild _ _))

theorem wellFormed_tree {root : Root} (h : Kept root) {x : Node} (hx : root.tree = some x) :
    WellFormed x ∧ x.off = 0 := by
  cases h with
  | start => cases hx
  | inside hcur =>
    cases hcur with
    | root hy hoff =>
      cases hx
      exact ⟨hy, hoff⟩
    | inner hy hoff hcur =>
      cases hx
      exact (Nested.inner hy hoff hcur).foldl
  | done hy hoff =>
    cases hx
    exact ⟨hy, hoff⟩

theorem wellFormed_parseStr {s : CString} {x : Node} {err : Option Err}
    (h : parseStr s = (some x, err)) : WellFormed x ∧ x.off = 0 := by
  unfold parseStr at h
  dsimp only at h
  split at h
  · cases h
  next e he =>
    split at h
    · cases h
    next c t ht =>
      have hs : 0 ∉ t := by
        intro hzero
        have hsuffix : c :: t <:+ (str2utf8 s).dropLast.takeWhile (· ≠ 0) :=
          ht ▸ List.dropWhile_suffix _
        have hmem := hsuffix.subset (List.mem_cons_of_mem c hzero)
        have hne := List.mem_takeWhile_imp hmem
        exact absurd rfl (of_decide_eq_true hne)
      cases hl : loop e (t.length + 1) .init t with
      | mk root' err' =>
        rw [hl] at h
        have hkept : Kept root' := Kept.start.loop hs hl
        exact wellFormed_tree hkept (Prod.mk.inj h).1

end Despotify.Ezxml

import Despotify.Lib.EzxmlTurns

/-!
# Reading what `ezxml_toxml` wrote

* `parseStr_toxml_parseStr`: a document that was read can be written and read again; what comes
  back is `normal`.
* `parseStr_toxml_iff`: an element comes back as it was exactly where it is `Lossless`.
-/

namespace Despotify.Ezxml

open Gateway (ascii isspace)
open Lib (CString)

/-! ## What comes back -/

/-- An attribute that is written has a value, in which `\v` and `\f` become spaces. -/
def readAttr (a : Attr) : Attr := (a.1, some ((a.2.getD []).map (received true)))

mutual

/-- An element after it was written and read. -/
def normal : Node → Node
  | .mk name attr txt off child => .mk name ((shown [] attr).map readAttr) txt off (normals child)

def normals : List Node → List Node
  | [] => []
  | x :: xs => normal x :: normals xs

end

/-- Every attribute has a value without `\v` and `\f`, and no name stands twice in a tag. -/
inductive Lossless : Node → Prop
  | mk {name : CString} {attr : List Attr} {txt : CString} {off : Nat} {child : List Node}
      (hnodup : (attr.map Prod.fst).Nodup)
      (hvalue : ∀ a ∈ attr, ∃ v, a.2 = some v ∧ 11 ∉ v ∧ 12 ∉ v)
      (hchild : ∀ x ∈ child, Lossless x) : Lossless (.mk name attr txt off child)

@[simp] theorem off_normal (x : Node) : (normal x).off = x.off := by
  cases x
  rw [normal]
  rfl

/-! ## Attributes -/

theorem shown_sublist (before as : List Attr) : (shown before as).Sublist as := by
  induction as generalizing before with
  | nil => exact List.Sublist.refl _
  | cons a as ih =>
    rw [shown]
    split
    · exact (ih _).cons_cons a
    · exact (ih _).cons a

/-- A run of bytes up to one that does not belong to it. -/
theorem span_append {p : UInt8 → Bool} {s rest : CString} {c : UInt8} (hs : ∀ d ∈ s, p d = true)
    (hc : p c = false) :
    (s ++ c :: rest).takeWhile p = s ∧ (s ++ c :: rest).dropWhile p = c :: rest := by
  have hc : ¬ p c = true := Bool.not_eq_true _ ▸ hc
  constructor
  · rw [List.takeWhile_append_of_pos hs, List.takeWhile_cons_of_neg hc, List.append_nil]
  · rw [List.dropWhile_append_of_pos hs, List.dropWhile_cons_of_neg hc]

theorem dropWhile_isspace {s : CString} (h : s.head?.any isspace = false) :
    s.dropWhile isspace = s := by
  cases s with
  | nil => rfl
  | cons c s => exact List.dropWhile_cons_of_neg (Bool.not_eq_true _ ▸ h)

/-- An attribute behind its space, and what follows. -/
def attrTail (a : Attr) (s : CString) : CString :=
  a.1 ++ 61 :: 34 :: (ampencode (a.2.getD []) true ++ 34 :: s)

theorem attrText_append (a : Attr) (s : CString) : attrText a ++ s = 32 :: attrTail a s := by
  show ascii " " ++ a.1 ++ ascii "=\"" ++ ampencode (a.2.getD []) true ++ ascii "\"" ++ s = _
  simp only [attrTail, List.append_assoc]
  rfl

/-- The name of an attribute is there, or a `=`. -/
theorem head_attrTail {a : Attr} (h : AttrName a.1) (s : CString) :
    ∃ c t, attrTail a s = c :: t ∧ isspace c = false ∧ ¬ (c = 47 ∨ c = 62) := by
  obtain ⟨name, value⟩ := a
  cases name with
  | nil => exact ⟨61, _, rfl, rfl, by decide⟩
  | cons c name =>
    refine ⟨c, _, rfl, h.front, ?_⟩
    have hc := (h.all c List.mem_cons_self).1
    rintro (rfl | rfl)
    · exact absurd hc (by decide)
    · exact absurd hc (by decide)

theorem zero_notMem_value {a : Attr} (hvalue : ∀ v ∈ a.2, 0 ∉ v) : 0 ∉ a.2.getD [] := by
  cases hv : a.2 with
  | none => exact List.not_mem_nil
  | some v => exact hvalue v hv

theorem parseAttr_attrTail {a : Attr} (hname : AttrName a.1) (hvalue : ∀ v ∈ a.2, 0 ∉ v)
    (s : CString) : parseAttr (attrTail a s) = .ok (readAttr a, s.dropWhile isspace) := by
  obtain ⟨htake, hdrop⟩ := @span_append isAttrName a.1
    (34 :: (ampencode (a.2.getD []) true ++ 34 :: s)) 61 (fun d hd => (hname.all d hd).1) rfl
  have hquote : ∀ d ∈ ampencode (a.2.getD []) true, decide (d ≠ 34) = true := by
    intro d hd
    obtain ⟨c, -, hc⟩ := List.mem_flatMap.mp hd
    exact decide_eq_true ((mem_escape hc).2.2.1 rfl)
  obtain ⟨hinside, hbehind⟩ := @span_append _ _ s 34 hquote (by decide)
  have hdecode : decode .attribute (ampencode (a.2.getD []) true) =
      (a.2.getD []).map (received true) := decode_ampencode (zero_notMem_value hvalue) true
  have hstop : (34 :: (ampencode (a.2.getD []) true ++ 34 :: s)).dropWhile
      (fun c => isWs c || c = 61) = 34 :: (ampencode (a.2.getD []) true ++ 34 :: s) :=
    List.dropWhile_cons_of_neg (by decide)
  unfold parseAttr attrTail
  dsimp only
  rw [htake, hdrop]
  dsimp only
  rw [if_pos (Or.inl rfl), hstop]
  dsimp only
  rw [if_pos (Or.inl rfl), hinside, hbehind, hdecode]
  rfl

theorem parseAttrs_attrText {as : List Attr} (has : ∀ a ∈ as, AttrName a.1 ∧ ∀ v ∈ a.2, 0 ∉ v)
    {n : Nat} (hn : as.length ≤ n) (s : CString) :
    parseAttrs n ((as.flatMap attrText ++ 62 :: s).dropWhile isspace) =
      .ok (as.map readAttr, 62 :: s) := by
  induction as generalizing n with
  | nil =>
    cases n with
    | zero => rfl
    | succ n => rfl
  | cons a as ih =>
    cases n with
    | zero => cases hn
    | succ n =>
      obtain ⟨⟨hname, hvalue⟩, has⟩ := List.forall_mem_cons.mp has
      obtain ⟨c, t, hhead, hspace, hc⟩ := head_attrTail hname (as.flatMap attrText ++ 62 :: s)
      have hskip : ((a :: as).flatMap attrText ++ 62 :: s).dropWhile isspace = c :: t := by
        rw [List.flatMap_cons, List.append_assoc, attrText_append, hhead]
        exact dropWhile_isspace (s := c :: t) hspace
      have hattr := parseAttr_attrTail hname hvalue (as.flatMap attrText ++ 62 :: s)
      rw [hhead] at hattr
      rw [hskip, parseAttrs, if_neg hc, hattr]
      have hrest := ih has (Nat.le_of_succ_le_succ hn)
      show (parseAttrs n ((as.flatMap attrText ++ 62 :: s).dropWhile isspace) >>= _) = _
      rw [hrest]
      rfl

/-! ## Tags -/

section
variable {e : UInt8}

/-- An open tag. -/
theorem markup_open {root : Root} {name : CString} {as : List Attr} (hopen : root.closed = none)
    (hname : TagName name) (has : ∀ a ∈ as, AttrName a.1 ∧ ∀ v ∈ a.2, 0 ∉ v) (s : CString) :
    markup e root (name ++ (as.flatMap attrText ++ 62 :: s)) =
      .ok (root.openTag name (as.map readAttr), 62 :: s) := by
  have hsplit : ∃ c t, as.flatMap attrText ++ 62 :: s = c :: t ∧ isName c = false := by
    cases as with
    | nil => exact ⟨62, s, rfl, rfl⟩
    | cons a as =>
      refine ⟨32, attrTail a (as.flatMap attrText ++ 62 :: s), ?_, rfl⟩
      rw [List.flatMap_cons, List.append_assoc, attrText_append]
  obtain ⟨c, t, hct, hc⟩ := hsplit
  obtain ⟨htake, hdrop⟩ := @span_append isName name t c (fun d hd => (hname.all d hd).1) hc
  have hstart : (name ++ c :: t).head?.any isNameStart = true := by
    have hfront := hname.front
    cases name with
    | nil => cases hfront
    | cons d name => exact hfront
  have hattrs : parseAttrs ((c :: t).dropWhile isspace).length ((c :: t).dropWhile isspace) =
      .ok (as.map readAttr, 62 :: s) := by
    rw [parseAttrs_eq (Nat.le_refl _) (Nat.le_add_right _ as.length), ← hct]
    exact parseAttrs_attrText has (Nat.le_add_left _ _) s
  rw [hct, markup, if_pos hstart, tagMarkup, if_neg (by rw [hopen]; exact Bool.false_ne_true)]
  dsimp only
  rw [htake, hdrop, hattrs]
  rfl

theorem markup_slash (root : Root) (s : CString) :
    markup e root (47 :: s) = closeMarkup e root s := by
  rw [markup, if_neg (by exact Bool.false_ne_true), if_pos List.head?_cons, List.drop_one,
    List.tail_cons]

theorem closeTag_eq {x : Node} {cur : List Node} {closed : Option Node} :
    Root.closeTag ⟨x :: cur, closed⟩ x.name = .ok (Root.pop ⟨x :: cur, closed⟩) := by
  unfold Root.closeTag
  dsimp only
  rw [if_pos rfl]

/-- What the name of a close tag is read with stops where the tag ends. -/
theorem all_closeName {name : CString} (hname : TagName name) :
    ∀ c ∈ name, (!isWs c && decide (c ≠ 62)) = true := by
  intro c hc
  have hall := (hname.all c hc).1
  unfold isName at hall
  rw [Bool.and_eq_true, Bool.and_eq_true] at hall
  rw [Bool.and_eq_true]
  exact ⟨hall.1.1, hall.2⟩

theorem markup_close {x : Node} {cur : List Node} (hname : TagName x.name) (s : CString) :
    markup e ⟨x :: cur, none⟩ (47 :: (x.name ++ 62 :: s)) =
      .ok (Root.pop ⟨x :: cur, none⟩, 62 :: s) := by
  obtain ⟨htake, hdrop⟩ := @span_append _ x.name s 62 (all_closeName hname) rfl
  rw [markup_slash, closeMarkup]
  rw [htake, hdrop, if_neg (fun h => List.cons_ne_nil _ _ h.1), closeTag_eq]
  rfl

/-- The last close tag: the `>` is the byte that was taken away. -/
theorem markup_last {x : Node} {cur : List Node} (hname : TagName x.name) :
    markup 62 ⟨x :: cur, none⟩ (47 :: x.name) = .ok (Root.pop ⟨x :: cur, none⟩, []) := by
  have hall := all_closeName hname
  rw [markup_slash, closeMarkup]
  rw [List.takeWhile_eq_self_iff.mpr hall, List.dropWhile_eq_nil_iff.mpr hall,
    if_neg (fun h => h.2 rfl), closeTag_eq]
  rfl

/-- Character data, and the turn that follows. -/
theorem after_text {x : Node} {cur : List Node} {txt : CString} (htxt : 0 ∉ txt) (s : CString) :
    after e ⟨x :: cur, none⟩ (62 :: (ampencode txt false ++ 60 :: s)) =
      run e ⟨x.addText txt :: cur, none⟩ s := by
  have hplain : ∀ c ∈ ampencode txt false, decide (c ≠ 60) = true := by
    intro c hc
    obtain ⟨d, -, hd⟩ := List.mem_flatMap.mp hc
    exact decide_eq_true (mem_escape hd).2.1
  obtain ⟨htake, hdrop⟩ := @span_append _ _ s 60 hplain (by decide)
  have hdecode : decode .text (ampencode txt false) = txt := decode_text htxt
  have hnew : Root.charContent ⟨x :: cur, none⟩ (ampencode txt false) .text =
      ⟨x.addText txt :: cur, none⟩ := by
    unfold Root.charContent
    dsimp only
    split
    next hnil =>
      have hempty : decode .text [] = [] := @decode_text [] List.not_mem_nil
      rw [hnil, hempty] at hdecode
      cases x
      rw [Node.addText, ← hdecode, List.append_nil]
    · rw [hdecode]
  unfold after content
  rw [List.drop_one, List.tail_cons, hdrop]
  dsimp only
  rw [htake, hnew]

end

/-! ## Elements -/

/-- What is read of an element, from behind its `<` on. -/
def Reads (e : UInt8) (x : Node) : Prop :=
  ∀ (y : Node) (cur : List Node) (s t : CString), x.off = y.txt.length → toxml x ++ t = 60 :: s →
    run e ⟨y :: cur, none⟩ s = after e ⟨y.addChild (normal x) :: cur, none⟩ (62 :: t)

/-- The text from `start` on, with the tags in it, up to the close tag. -/
theorem after_inner {e : UInt8} {name : CString} {attr : List Attr} {txt : CString}
    {off start : Nat} {done child cur : List Node} (htxt : 0 ∉ txt) (hstart : start ≤ txt.length)
    (hfrom : ∀ x ∈ child, start ≤ x.off) (hoff : ∀ x ∈ child, x.off ≤ txt.length)
    (hsorted : child.Pairwise fun x y => x.off ≤ y.off) (hread : ∀ x ∈ child, Reads e x)
    (s : CString) :
    after e ⟨.mk name attr (txt.take start) off done :: cur, none⟩
        (62 :: (inner txt start child ++ 60 :: s)) =
      run e ⟨.mk name attr txt off (done ++ normals child) :: cur, none⟩ s := by
  induction child generalizing start done with
  | nil =>
    have hrest : 0 ∉ txt.drop start := fun h => htxt ((List.drop_suffix _ _).subset h)
    rw [inner, after_text hrest, Node.addText, List.take_append_drop, normals, List.append_nil]
  | cons x child ih =>
    obtain ⟨hx, hfrom⟩ := List.forall_mem_cons.mp hfrom
    obtain ⟨hplace, hoff⟩ := List.forall_mem_cons.mp hoff
    obtain ⟨hxread, hread⟩ := List.forall_mem_cons.mp hread
    obtain ⟨hlater, hsorted⟩ := List.pairwise_cons.mp hsorted
    have hbefore : textBefore txt start x.off = (txt.drop start).take (x.off - start) :=
      if_neg (Nat.not_lt.mpr hx)
    have hzero : 0 ∉ (txt.drop start).take (x.off - start) := fun h =>
      htxt ((List.drop_suffix _ _).subset ((List.take_prefix _ _).subset h))
    have htake : txt.take start ++ (txt.drop start).take (x.off - start) = txt.take x.off := by
      rw [← List.take_add, Nat.add_sub_cancel' hx]
    obtain ⟨body, hbody⟩ : ∃ body, toxml x ++ (inner txt x.off child ++ 60 :: s) = 60 :: body := by
      cases x
      rw [toxml]
      exact ⟨_, rfl⟩
    have hlength : x.off = (txt.take x.off).length := by
      rw [List.length_take, Nat.min_eq_left hplace]
    rw [inner, hbefore, Nat.min_eq_left hplace, List.append_assoc, List.append_assoc, hbody,
      after_text hzero, Node.addText, htake,
      hxread (.mk name attr (txt.take x.off) off done) cur body _ hlength hbody, Node.addChild,
      ih hplace hlater hoff hsorted hread, normals, List.append_assoc, List.singleton_append]

/-- An element as it is written, up to its last `>`. -/
theorem toxml_eq (name : CString) (attr : List Attr) (txt : CString) (off : Nat)
    (child : List Node) :
    toxml (.mk name attr txt off child) =
      60 :: (name ++ ((shown [] attr).flatMap attrText ++
        62 :: (inner txt 0 child ++ 60 :: 47 :: name))) ++ [62] := by
  rw [toxml]
  simp only [List.append_assoc, List.cons_append]
  rfl

theorem reads_of_wellFormed {e : UInt8} {x : Node} (h : WellFormed x) : Reads e x := by
  induction h with
  | @mk name attr txt off child hname hattr htxt hoff hsorted hchild ih =>
    intro y cur s t hplace htoxml
    rw [toxml_eq] at htoxml
    have hs : name ++ ((shown [] attr).flatMap attrText ++
        62 :: (inner txt 0 child ++ 60 :: (47 :: (name ++ 62 :: t)))) = s := by
      simp only [List.append_assoc, List.cons_append, List.nil_append] at htoxml
      exact (List.cons.inj htoxml).2
    have hshown : ∀ a ∈ shown [] attr, AttrName a.1 ∧ ∀ v ∈ a.2, 0 ∉ v := fun a ha =>
      hattr a ((shown_sublist [] attr).subset ha)
    have hopen : Root.openTag ⟨y :: cur, none⟩ name ((shown [] attr).map readAttr) =
        ⟨.mk name ((shown [] attr).map readAttr) (txt.take 0) off [] :: y :: cur, none⟩ := by
      rw [show off = y.txt.length from hplace]
      rfl
    have hinside := @after_inner e name ((shown [] attr).map readAttr) txt off 0 [] child
      (y :: cur) htxt (Nat.zero_le _) (fun x _ => Nat.zero_le _) hoff hsorted ih
      (47 :: (name ++ 62 :: t))
    have hclose := @markup_close e
      (.mk name ((shown [] attr).map readAttr) txt off (normals child)) (y :: cur) hname t
    rw [← hs, run_ok (markup_open rfl hname hshown _), hopen, hinside, normal]
    exact run_ok hclose

theorem zero_notMem_ampencode {s : CString} (hs : 0 ∉ s) (a : Bool) : 0 ∉ ampencode s a := by
  intro h
  obtain ⟨c, hc, hmem⟩ := List.mem_flatMap.mp h
  refine (mem_escape hmem).2.2.2 ?_ rfl
  rintro rfl
  exact hs hc

theorem zero_notMem_inner {txt : CString} {child : List Node} (htxt : 0 ∉ txt)
    (hchild : ∀ x ∈ child, 0 ∉ toxml x) (start : Nat) : 0 ∉ inner txt start child := by
  have hsub : ∀ t : CString, t <:+: txt → 0 ∉ ampencode t false := fun t ht =>
    zero_notMem_ampencode (fun h => htxt (ht.subset h)) false
  induction child generalizing start with
  | nil =>
    rw [inner]
    exact hsub _ (List.drop_suffix _ _).isInfix
  | cons x child ih =>
    have hbefore : textBefore txt start x.off <:+: txt := by
      unfold textBefore
      split
      · exact (List.drop_suffix _ _).isInfix
      · exact (List.take_prefix _ _).isInfix.trans (List.drop_suffix _ _).isInfix
    obtain ⟨hx, hchild⟩ := List.forall_mem_cons.mp hchild
    rw [inner, List.mem_append, List.mem_append]
    exact not_or.mpr ⟨not_or.mpr ⟨hsub _ hbefore, hx⟩, ih hchild _⟩

theorem zero_notMem_attrText {a : Attr} (hname : AttrName a.1) (hvalue : ∀ v ∈ a.2, 0 ∉ v) :
    0 ∉ attrText a := by
  have hzero : 0 ∉ a.1 := fun h => (hname.all 0 h).2 rfl
  have hencoded := zero_notMem_ampencode (zero_notMem_value hvalue) true
  simp only [attrText, List.mem_append, not_or]
  exact ⟨⟨⟨⟨by decide, hzero⟩, by decide⟩, hencoded⟩, by decide⟩

/-- A document that is written has no `NUL`. -/
theorem zero_notMem_toxml {x : Node} (h : WellFormed x) : 0 ∉ toxml x := by
  induction h with
  | @mk name attr txt off child hname hattr htxt hoff hsorted hchild ih =>
    have hzero : 0 ∉ name := fun h => (hname.all 0 h).2 rfl
    have hattrs : 0 ∉ (shown [] attr).flatMap attrText := by
      intro h
      obtain ⟨a, ha, hmem⟩ := List.mem_flatMap.mp h
      obtain ⟨hname, hvalue⟩ := hattr a ((shown_sublist [] attr).subset ha)
      exact zero_notMem_attrText hname hvalue hmem
    have hinner := zero_notMem_inner htxt ih 0
    rw [toxml_eq]
    simp [hzero, hattrs, hinner]

theorem read_back {x : Node} (h : WellFormed x) (hoff : x.off = 0) :
    parseStr (toxml x) = (some (normal x), none) := by
  have hzero := zero_notMem_toxml h
  cases h with
  | @mk name attr txt off child hname hattr htxt hoffs hsorted hchild =>
    cases hoff
    have hshown : ∀ a ∈ shown [] attr, AttrName a.1 ∧ ∀ v ∈ a.2, 0 ∉ v := fun a ha =>
      hattr a ((shown_sublist [] attr).subset ha)
    have hbody := toxml_eq name attr txt 0 child
    have hinside := @after_inner 62 name ((shown [] attr).map readAttr) txt 0 0 [] child []
      htxt (Nat.zero_le _) (fun x _ => Nat.zero_le _) hoffs hsorted
      (fun x hx => reads_of_wellFormed (hchild x hx)) (47 :: name)
    have hclose : markup 62
        ⟨[.mk name ((shown [] attr).map readAttr) txt 0 (normals child)], none⟩ (47 :: name) =
        .ok (⟨[], some (.mk name ((shown [] attr).map readAttr) txt 0 (normals child))⟩, []) :=
      markup_last hname
    generalize inner txt 0 child ++ 60 :: 47 :: name = rest at hbody hinside
    have hrun : run 62 .init (name ++ ((shown [] attr).flatMap attrText ++ 62 :: rest)) =
        (⟨[], some (normal (.mk name attr txt 0 child))⟩, none) := by
      rw [run_ok (markup_open rfl hname hshown _)]
      show after 62 ⟨.mk name ((shown [] attr).map readAttr) (txt.take 0) 0 [] :: [], none⟩
        (62 :: rest) = _
      rw [hinside, List.nil_append, run_ok hclose, normal]
      rfl
    rw [hbody] at hzero ⊢
    generalize name ++ ((shown [] attr).flatMap attrText ++ 62 :: rest) = s at hzero hrun ⊢
    have hplain : (60 :: s).takeWhile (· ≠ 0) = 60 :: s := by
      rw [List.takeWhile_eq_self_iff]
      intro c hc
      refine decide_eq_true ?_
      rintro rfl
      exact hzero (List.mem_append_left _ hc)
    have hutf : str2utf8 (60 :: s ++ [62]) = 60 :: s ++ [62] := rfl
    rw [parseStr, hutf]
    dsimp only
    rw [List.getLast?_concat, List.dropLast_concat, hplain]
    show (Root.tree (run 62 .init s).1, (run 62 .init s).2) = _
    rw [hrun]
    rfl

/-- Names that stand twice, a reference and a form feed. -/
def tags : CString := ascii "<a b='1&#12;' c c b='2'>x&amp;<d/>y</a>"

def tagsNode : Node :=
  .mk (ascii "a")
    [(ascii "b", some [49, 12]), (ascii "c", none), (ascii "c", none), (ascii "b", some [50])]
    (ascii "x&y") 0 [.mk (ascii "d") [] [] 2 []]

theorem received_eq_self {c : UInt8} : received true c = c ↔ c ≠ 11 ∧ c ≠ 12 := by
  unfold received
  constructor
  · intro h
    refine not_or.mp fun hc => ?_
    rw [if_pos ⟨rfl, hc⟩] at h
    subst h
    exact absurd hc (by decide)
  · intro h
    exact if_neg fun hc => not_or.mpr h hc.2

theorem map_eq_self {α : Type} {f : α → α} {l : List α} : l.map f = l ↔ ∀ a ∈ l, f a = a := by
  have hmap := @List.map_inj_left α α l f id
  rwa [List.map_id] at hmap

theorem readAttr_eq_self {a : Attr} : readAttr a = a ↔ ∃ v, a.2 = some v ∧ 11 ∉ v ∧ 12 ∉ v := by
  have hkept : ∀ v : CString, v.map (received true) = v ↔ 11 ∉ v ∧ 12 ∉ v := by
    intro v
    rw [map_eq_self]
    constructor
    · intro h
      exact ⟨fun hv => (received_eq_self.mp (h 11 hv)).1 rfl,
        fun hf => (received_eq_self.mp (h 12 hf)).2 rfl⟩
    · rintro ⟨hv, hf⟩ c hc
      refine received_eq_self.mpr ⟨?_, ?_⟩
      · rintro rfl
        exact hv hc
      · rintro rfl
        exact hf hc
  obtain ⟨name, value⟩ := a
  cases value with
  | none =>
    constructor
    · intro h
      cases (Prod.mk.inj h).2
    · rintro ⟨v, hv, -⟩
      cases hv
  | some v =>
    constructor
    · intro h
      exact ⟨v, rfl, (hkept v).mp (Option.some.inj (Prod.mk.inj h).2)⟩
    · rintro ⟨w, hw, hclean⟩
      cases hw
      show (name, some (v.map (received true))) = (name, some v)
      rw [(hkept v).mpr hclean]

/-- With values, an attribute is written where its name is new. -/
theorem isFirst_iff {before : List Attr} {a : Attr} (ha : a.2.isSome = true) :
    isFirst before a = true ↔ a.1 ∉ before.map Prod.fst := by
  unfold isFirst
  cases hfind : before.find? fun b => b.1 = a.1 with
  | none =>
    have hnone := List.find?_eq_none.mp hfind
    refine ⟨fun _ hmem => ?_, fun _ => rfl⟩
    obtain ⟨b, hb, heq⟩ := List.mem_map.mp hmem
    exact hnone b hb (decide_eq_true heq)
  | some b =>
    have hb : b.1 = a.1 := 
      of_decide_eq_true (@List.find?_some _ (fun b : Attr => decide (b.1 = a.1)) _ _ hfind)
    have hnone : a.2.isNone = false := by rw [Option.isNone_eq_false_iff, ha]
    constructor
    · intro h
      rw [Option.all_some, hnone, Bool.and_false] at h
      cases h
    · intro h
      exact absurd (hb ▸ List.mem_map_of_mem (List.mem_of_find?_eq_some hfind)) h

theorem shown_eq_self {before as : List Attr} (has : ∀ a ∈ as, a.2.isSome = true) :
    shown before as = as ↔
      (as.map Prod.fst).Nodup ∧ ∀ a ∈ as, a.1 ∉ before.map Prod.fst := by
  induction as generalizing before with
  | nil => exact ⟨fun _ => ⟨.nil, fun _ ha => absurd ha List.not_mem_nil⟩, fun _ => rfl⟩
  | cons a as ih =>
    obtain ⟨ha, has⟩ := List.forall_mem_cons.mp has
    have hnames : (∀ b ∈ as, b.1 ∉ (before ++ [a]).map Prod.fst) ↔
        a.1 ∉ as.map Prod.fst ∧ ∀ b ∈ as, b.1 ∉ before.map Prod.fst := by
      simp only [List.map_append, List.map_cons, List.map_nil, List.mem_append,
        List.mem_singleton, not_or, List.mem_map, not_exists, not_and]
      constructor
      · intro h
        exact ⟨fun b hb heq => (h b hb).2 heq, fun b hb => (h b hb).1⟩
      · rintro ⟨hnew, hbefore⟩ b hb
        exact ⟨hbefore b hb, fun heq => hnew b hb heq⟩
    rw [shown, List.map_cons, List.nodup_cons, List.forall_mem_cons]
    split
    next hfirst =>
      rw [List.cons_inj_right, ih has, hnames]
      have hfront := (isFirst_iff ha).mp hfirst
      constructor
      · rintro ⟨hnodup, hnew, hbefore⟩
        exact ⟨⟨hnew, hnodup⟩, hfront, hbefore⟩
      · rintro ⟨⟨hnew, hnodup⟩, -, hbefore⟩
        exact ⟨hnodup, hnew, hbefore⟩
    next hfirst =>
      constructor
      · intro h
        have hlength := (shown_sublist (before ++ [a]) as).length_le
        rw [h, List.length_cons] at hlength
        exact absurd hlength (Nat.not_succ_le_self _)
      · rintro ⟨-, hfront, -⟩
        exact absurd ((isFirst_iff ha).mpr hfront) hfirst

theorem map_readAttr_shown {as : List Attr} :
    (shown [] as).map readAttr = as ↔
      (as.map Prod.fst).Nodup ∧ ∀ a ∈ as, ∃ v, a.2 = some v ∧ 11 ∉ v ∧ 12 ∉ v := by
  have hsome : (∀ a ∈ as, readAttr a = a) → ∀ a ∈ as, a.2.isSome = true := by
    intro h a ha
    obtain ⟨v, hv, -⟩ := readAttr_eq_self.mp (h a ha)
    rw [hv]
    rfl
  constructor
  · intro h
    have hlength := congrArg List.length h
    rw [List.length_map] at hlength
    have hshown := (shown_sublist [] as).eq_of_length hlength
    rw [hshown, map_eq_self] at h
    exact ⟨((shown_eq_self (hsome h)).mp hshown).1, fun a ha => readAttr_eq_self.mp (h a ha)⟩
  · rintro ⟨hnodup, hvalue⟩
    have hread : ∀ a ∈ as, readAttr a = a := fun a ha => readAttr_eq_self.mpr (hvalue a ha)
    rw [(shown_eq_self (hsome hread)).mpr ⟨hnodup, fun a _ => List.not_mem_nil⟩]
    exact map_eq_self.mpr hread

theorem normals_eq (child : List Node) : normals child = child.map normal := by
  induction child with
  | nil => rfl
  | cons x child ih => rw [normals, ih, List.map_cons]

theorem lossless_of_normal {x : Node} (h : WellFormed x) (hx : normal x = x) : Lossless x := by
  induction h with
  | @mk name attr txt off child hname hattr htxt hoff hsorted hchild ih =>
    rw [normal, Node.mk.injEq, normals_eq, map_eq_self] at hx
    obtain ⟨-, hshown, -, -, hkept⟩ := hx
    obtain ⟨hnodup, hvalue⟩ := map_readAttr_shown.mp hshown
    exact .mk hnodup hvalue fun x hx => ih x hx (hkept x hx)

theorem normal_of_lossless {x : Node} (h : Lossless x) : normal x = x := by
  induction h with
  | mk hnodup hvalue hchild ih =>
    rw [normal, map_readAttr_shown.mpr ⟨hnodup, hvalue⟩, normals_eq, map_eq_self.mpr ih]

theorem parseStr_toxml_iff {x : Node} (h : WellFormed x) (hoff : x.off = 0) :
    parseStr (toxml x) = (some x, none) ↔ Lossless x := by
  rw [read_back h hoff, Prod.mk.injEq, Option.some.injEq]
  constructor
  · rintro ⟨hnormal, -⟩
    exact lossless_of_normal h hnormal
  · intro hx
    exact ⟨normal_of_lossless hx, rfl⟩

theorem parseStr_toxml_iff_tags : parseStr (toxml tagsNode) = (some tagsNode, none) ↔
    Lossless tagsNode := by
  have hread : parseStr tags = (some tagsNode, none) := rfl
  exact parseStr_toxml_iff (wellFormed_parseStr hread).1 rfl

end Despotify.Ezxml

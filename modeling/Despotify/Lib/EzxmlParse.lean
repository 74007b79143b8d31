import Despotify.Lib.EzxmlDecode

/-!
# `ezxml_parse_str` and `ezxml_toxml`

The parser reads tags, attributes, character data, comments, CDATA sections and skips
processing instructions and a DTD without an internal subset.  Its last byte is taken away
before the rest is read and looked at only where the rest ends.

The pointers of the strings are not there, but for the value of an attribute without one: it is
the literal `""`, the same one for all of them.
-/

namespace Despotify.Ezxml

open Gateway (ascii isspace)
open Lib (CString)

/-! ## Elements -/

/-- A name and a value; `none` is the literal `""` of an attribute that has no value. -/
abbrev Attr := CString × Option CString

/-- An element; `off` is where its tag stands in the text of its parent. -/
inductive Node
  | mk (name : CString) (attr : List Attr) (txt : CString) (off : Nat)
    (child : List Node)

namespace Node

def name : Node → CString
  | mk name _ _ _ _ => name

def attr : Node → List Attr
  | mk _ attr _ _ _ => attr

def txt : Node → CString
  | mk _ _ txt _ _ => txt

def off : Node → Nat
  | mk _ _ _ off _ => off

/-- In the order of `ordered`. -/
def child : Node → List Node
  | mk _ _ _ _ child => child

/-- An element that is open, as it is so far. -/
def addText : Node → CString → Node
  | mk name attr txt off child, s => mk name attr (txt ++ s) off child

/-- `ezxml_add_child` where the text ends: the tag comes last in `ordered`. -/
def addChild : Node → Node → Node
  | mk name attr txt off child, x => mk name attr txt off (child ++ [x])

end Node

/-- What `ezxml_err` is called with. -/
inductive Err
  | rootTagMissing
  | markupOutside
  | missing (c : UInt8)
  | unexpectedClosing (name : CString)
  | unclosedComment
  | unclosedCdata
  | unclosedDoctype
  | unclosedPi
  | unexpectedLt
  | unclosedTag (name : CString)
  /-- a DTD with an internal subset, which is not followed -/
  | internalSubset
deriving DecidableEq, Repr

/-- `root`: the elements that are open, the innermost first, or the element that was closed
last. -/
structure Root where
  cur : List Node
  closed : Option Node

namespace Root

def init : Root := ⟨[], none⟩

/-- `ezxml_open_tag`. -/
def openTag (root : Root) (name : CString) (attr : List Attr) : Root :=
  match root.cur with
  | [] => ⟨[.mk name attr [] 0 []], none⟩
  | x :: cur => ⟨.mk name attr [] x.txt.length [] :: x :: cur, none⟩

/-- The innermost element goes into the one around it. -/
def pop : Root → Root
  | ⟨[], closed⟩ => ⟨[], closed⟩
  | ⟨[x], _⟩ => ⟨[], some x⟩
  | ⟨x :: y :: cur, closed⟩ => ⟨y.addChild x :: cur, closed⟩

/-- `ezxml_close_tag`. -/
def closeTag (root : Root) (name : CString) : Except Err Root :=
  match root.cur with
  | [] => .error (.unexpectedClosing name)
  | x :: _ => if name = x.name then .ok root.pop else .error (.unexpectedClosing name)

/-- `ezxml_char_content`. -/
def charContent (root : Root) (s : CString) (t : Mode) : Root :=
  match root.cur with
  | [] => root
  | x :: cur => if s = [] then root else ⟨x.addText (decode t s) :: cur, root.closed⟩

/-- What there is of the tree. -/
def tree (root : Root) : Option Node :=
  match root.cur with
  | [] => root.closed
  | x :: cur => some (cur.foldl (fun x y => y.addChild x) x)

end Root

/-! ## Tags -/

/-- `EZXML_WS`. -/
def isWs (c : UInt8) : Bool := c = 9 || c = 13 || c = 10 || c = 32

def isalpha (c : UInt8) : Bool := (65 ≤ c && c ≤ 90) || (97 ≤ c && c ≤ 122)

/-- `isalpha (*s) || *s == '_' || *s == ':' || *s < '\0'`. -/
def isNameStart (c : UInt8) : Bool := isalpha c || c = 95 || c = 58 || 128 ≤ c

/-- Neither white space nor the end of a tag. -/
def isName (c : UInt8) : Bool := !isWs c && c ≠ 47 && c ≠ 62

/-- In a name of an attribute. -/
def isAttrName (c : UInt8) : Bool := isName c && c ≠ 61

/-- One attribute, from its name on, and the white space behind it. -/
def parseAttr (s : CString) : Except Err (Attr × CString) :=
  let name := s.takeWhile isAttrName
  match s.dropWhile isAttrName with
  | [] => .ok ((name, none), [])
  | c :: s =>
    if c = 61 ∨ isspace c then
      match s.dropWhile fun c => isWs c || c = 61 with
      | [] => .ok ((name, none), [])
      | q :: s =>
        if q = 34 ∨ q = 39 then
          match s.dropWhile (· ≠ q) with
          | [] => .error (.missing q)
          | _ :: rest =>
            .ok ((name, some (decode .attribute (s.takeWhile (· ≠ q)))), rest.dropWhile isspace)
        else .ok ((name, none), (q :: s).dropWhile isspace)
    else .ok ((name, none), (c :: s).dropWhile isspace)

/-- `for (l = 0; *s && *s != '/' && *s != '>'; l += 2)`: at most `n` turns. -/
def parseAttrs : Nat → CString → Except Err (List Attr × CString)
  | 0, s => .ok ([], s)
  | _ + 1, [] => .ok ([], [])
  | n + 1, c :: s =>
    if c = 47 ∨ c = 62 then .ok ([], c :: s)
    else do
      let (a, s) ← parseAttr (c :: s)
      let (as, s) ← parseAttrs n s
      pure (a :: as, s)

/-! ## Markup

The string starts behind a `<`; what is left starts with the byte that is looked at when the
branch is done, most often a `>`.  `e` is the last byte of the document. -/

section
variable (e : UInt8) (root : Root)

/-- A new tag. -/
def tagMarkup (s : CString) : Except Err (Root × CString) :=
  if root.closed.isSome then .error .markupOutside
  else do
    let name := s.takeWhile isName
    let s := (s.dropWhile isName).dropWhile isspace
    let (attr, s) ← parseAttrs s.length s
    match s with
    | [] => if e = 62 then .ok (root.openTag name attr, []) else .error (.missing 62)
    | c :: s =>
      if c = 47 then
        -- self closing tag
        match s with
        | [] =>
          if e = 62 then return (← (root.openTag name attr).closeTag name, [])
          else .error (.missing 62)
        | d :: s =>
          if d = 62 then return (← (root.openTag name attr).closeTag name, d :: s)
          else .error (.missing 62)
      else if c = 62 then .ok (root.openTag name attr, c :: s)
      else .error (.missing 62)

/-- A close tag, behind the slash. -/
def closeMarkup (s : CString) : Except Err (Root × CString) :=
  let name := s.takeWhile fun c => !isWs c && c ≠ 62
  let s := s.dropWhile fun c => !isWs c && c ≠ 62
  if s = [] ∧ e ≠ 62 then .error (.missing 62)
  else do return (← root.closeTag name, s.dropWhile isWs)

/-- `strstr`. -/
def strstr (needle : CString) : CString → Option CString
  | [] => if needle = [] then some [] else none
  | c :: s => if needle.isPrefixOf (c :: s) then some (c :: s) else strstr needle s

/-- What is left starts with a `>`, or `e` is one. -/
def closed (err : Err) (s : CString) : Except Err (Root × CString) :=
  match s with
  | [] => if e = 62 then .ok (root, []) else .error err
  | c :: s => if c = 62 then .ok (root, c :: s) else .error err

/-- `do { s = strchr(s, '?'); } while (s && *(++s) && *s != '>')`. -/
def piEnd : CString → Option CString
  | [] => none
  | 63 :: [] => some []
  | 63 :: 62 :: s => some (62 :: s)
  | _ :: s => piEnd s

def markup (s : CString) : Except Err (Root × CString) :=
  if (s.head?.any isNameStart) then tagMarkup e root s
  else if s.head? = some 47 then closeMarkup e root (s.drop 1)
  else if (ascii "!--").isPrefixOf s then
    match strstr (ascii "--") (s.drop 3) with
    | none => .error .unclosedComment
    | some s => closed e root .unclosedComment (s.drop 2)
  else if (ascii "![CDATA[").isPrefixOf s then
    match strstr (ascii "]]>") s with
    | none => .error .unclosedCdata
    | some rest =>
      .ok (root.charContent ((s.drop 8).take (s.length - rest.length - 8)) .cdata, rest.drop 2)
  else if (ascii "!DOCTYPE").isPrefixOf s then
    match (s.drop 1).dropWhile fun c => c ≠ 91 && c ≠ 62 with
    | 91 :: _ => .error .internalSubset
    | s => closed e root .unclosedDoctype s
  else if s.head? = some 63 then
    match piEnd s with
    | none => .error .unclosedPi
    | some s => closed e root .unclosedPi s
  else .error .unexpectedLt

end

/-! ## The loop -/

/-- The byte at `s` is passed over; then comes character data, up to a `<`, which is passed over
too. -/
def content (root : Root) (s : CString) : Root × Option CString :=
  match (s.drop 1).dropWhile (· ≠ 60) with
  | [] => (root, none)
  | _ :: rest => (root.charContent ((s.drop 1).takeWhile (· ≠ 60)) .text, some rest)

/-- At the end of the string. -/
def atEnd (root : Root) : Option Err :=
  match root.cur, root.closed with
  | [], some _ => none
  | [], none => some .rootTagMissing
  | x :: _, _ => some (.unclosedTag x.name)

/-- `for (; ; )`: at most `n` turns. -/
def loop (e : UInt8) : Nat → Root → CString → Root × Option Err
  | 0, root, _ => (root, none)
  | n + 1, root, s =>
    match markup e root s with
    | .error err => (root, some err)
    | .ok (root, s) =>
      match content root s with
      | (root, none) => (root, atEnd root)
      | (root, some s) => loop e n root s

/-- A unit of 16 bits, big endian or not. -/
def unit (be : Bool) (a b : UInt8) : Nat :=
  if be then a.toNat * 256 + b.toNat else b.toNat * 256 + a.toNat

/-- A character in UTF-8. -/
def utf8Char (c : Nat) : CString := if c < 0x80 then [UInt8.ofNat c] else utf8 c

def utf16 (be : Bool) : CString → CString
  | a :: b :: s =>
    let c := unit be a b
    if 0xD800 ≤ c ∧ c ≤ 0xDFFF then
      match s with
      | a' :: b' :: s =>
        let d := unit be a' b'
        utf8Char ((((c &&& 0x3FF) <<< 10) ||| (d &&& 0x3FF)) + 0x10000) ++ utf16 be s
      | _ => utf8Char c
    else utf8Char c ++ utf16 be s
  | _ => []

/-- `ezxml_str2utf8`; a string that is not UTF-16 is left as it is. -/
def str2utf8 : CString → CString
  | 0xFE :: s => utf16 true (s.drop 1)
  | 0xFF :: s => utf16 false (s.drop 1)
  | s => s

/-- The tree, as far as it was read, and the error. -/
def parseStr (s : CString) : Option Node × Option Err :=
  let s := str2utf8 s
  match s.getLast? with
  | none => (none, some .rootTagMissing)
  | some e =>
    match (s.dropLast.takeWhile (· ≠ 0)).dropWhile (· ≠ 60) with
    | [] => (none, some .rootTagMissing)
    | _ :: s =>
      let (root, err) := loop e (s.length + 1) .init s
      (root.tree, err)

/-! ## `ezxml_toxml` -/

/-- Whether `ezxml_attr` gives the very value of `a`, behind the attributes `before`. -/
def isFirst (before : List Attr) (a : Attr) : Bool :=
  (before.find? fun b => b.1 = a.1).all fun b => b.2.isNone && a.2.isNone

/-- The attributes that are written. -/
def shown (before : List Attr) : List Attr → List Attr
  | [] => []
  | a :: as =>
    if isFirst before a then a :: shown (before ++ [a]) as else shown (before ++ [a]) as

def attrText (a : Attr) : CString :=
  ascii " " ++ a.1 ++ ascii "=\"" ++ ampencode (a.2.getD []) true ++ ascii "\""

/-- The text from `start` up to a tag. -/
def textBefore (txt : CString) (start off : Nat) : CString :=
  if off < start then txt.drop start else (txt.drop start).take (off - start)

mutual

/-- A tag with all that is in it. -/
def toxml : Node → CString
  | .mk name attr txt _ child =>
    ascii "<" ++ name ++ (shown [] attr).flatMap attrText ++ ascii ">" ++ inner txt 0 child ++
      ascii "</" ++ name ++ ascii ">"

/-- The text from `start` on, with the tags in it. -/
def inner (txt : CString) (start : Nat) : List Node → CString
  | [] => ampencode (txt.drop start) false
  | x :: xs =>
    ampencode (textBefore txt start x.off) false ++ toxml x ++ inner txt (min x.off txt.length) xs

end

end Despotify.Ezxml

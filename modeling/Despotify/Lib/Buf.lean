import Mathlib.Data.List.Basic
import Mathlib.Algebra.Group.Nat.Defs

/-!
# `struct buf`

The extensible buffer of `lib/buf.c`: `size` bytes of memory, of which the first `len` are
in use.  The size is doubled until there is room.  It is an `int`: above `2 ^ 30` bytes the
doubling overflows, and the operations are `none`.

* `extend_some`, `extend_none`: there is room afterwards, and what was there is kept.
* `append_some`, `appendAll_some`, `append_none`: the bytes in use, and those appended.
-/

namespace Despotify.Lib

/-- `ptr` is the memory of the buffer, all `size` bytes of it. -/
structure Buf where
  ptr : List UInt8
  len : Nat
deriving DecidableEq, Repr

namespace Buf

def size (b : Buf) : Nat := b.ptr.length

/-- The bytes in use. -/
def data (b : Buf) : List UInt8 := b.ptr.take b.len

/-- Bytes stored at `b->ptr + offset`. -/
def write (b : Buf) (offset : Nat) (bytes : List UInt8) : Buf :=
  { b with ptr := b.ptr.take offset ++ bytes ++ b.ptr.drop (offset + bytes.length) }

/-- The loop of `buf_extend` on the size; from size 0 it would not end. -/
def grown (need size : Nat) : Option Nat :=
  if need ≤ size then some size
  else if 0 < size ∧ size < 2 ^ 30 then grown need (2 * size)
  else none
termination_by 2 ^ 30 - size

section

-- what the memory at an index holds when `malloc` or `realloc` returns it
variable (mem : Nat → UInt8)

/-- `buf_new`. -/
def new : Buf := ⟨(List.range 512).map mem, 0⟩

/-- `buf_extend`. -/
def extend (b : Buf) (len : Nat) : Option Buf :=
  (grown (b.len + len) b.size).map fun size =>
    { b with ptr := b.ptr ++ (List.range (size - b.size)).map fun i => mem (b.size + i) }

/-- `buf_append_data`; `buf_append_u8` for one byte. -/
def append (b : Buf) (data : List UInt8) : Option Buf :=
  (b.extend mem data.length).map fun b =>
    { b.write b.len data with len := b.len + data.length }

/-- One field after the other is appended. -/
def appendAll (b : Buf) (fields : List (List UInt8)) : Option Buf := fields.foldlM (append mem) b

end

/-! ## The size -/

/-- The size is a power of two an `int` can hold, and the bytes in use are within it. -/
structure Sound (b : Buf) : Prop where
  len_le : b.len ≤ b.size
  pow : ∃ k, k ≤ 30 ∧ b.size = 2 ^ k

theorem grown_some {need k : Nat} (hk : k ≤ 30) (h : need ≤ 2 ^ 30) :
    ∃ j, grown need (2 ^ k) = some (2 ^ j) ∧ k ≤ j ∧ j ≤ 30 ∧ need ≤ 2 ^ j ∧
      (j = k ∨ 2 ^ j < 2 * need) := by
  obtain ⟨n, hn⟩ : ∃ n, n = 30 - k := ⟨_, rfl⟩
  induction n generalizing k with
  | zero =>
    obtain rfl : k = 30 := by omega
    exact ⟨30, by rw [grown, if_pos h], Nat.le_refl _, hk, h, Or.inl rfl⟩
  | succ n ih =>
    by_cases hneed : need ≤ 2 ^ k
    · exact ⟨k, by rw [grown, if_pos hneed], Nat.le_refl _, hk, hneed, Or.inl rfl⟩
    · have hpos : 0 < 2 ^ k := Nat.two_pow_pos k
      have hlt : 2 ^ k < 2 ^ 30 := Nat.pow_lt_pow_right (by omega) (by omega)
      obtain ⟨j, hj, hkj, hj30, hle, hleast⟩ := ih (k := k + 1) (by omega) (by omega)
      refine ⟨j, ?_, by omega, hj30, hle, Or.inr ?_⟩
      · rw [grown, if_neg hneed, if_pos ⟨hpos, hlt⟩, Nat.mul_comm, ← Nat.pow_succ]
        exact hj
      · cases hleast with
        | inl heq =>
          rw [heq, Nat.pow_succ]
          omega
        | inr hlt => exact hlt

theorem grown_none {need k : Nat} (hk : k ≤ 30) (h : 2 ^ 30 < need) :
    grown need (2 ^ k) = none := by
  obtain ⟨n, hn⟩ : ∃ n, n = 30 - k := ⟨_, rfl⟩
  have hle : 2 ^ k ≤ 2 ^ 30 := Nat.pow_le_pow_right (by omega) hk
  induction n generalizing k with
  | zero =>
    obtain rfl : k = 30 := by omega
    rw [grown, if_neg (by omega), if_neg (by omega)]
  | succ n ih =>
    have hpos : 0 < 2 ^ k := Nat.two_pow_pos k
    have hlt : 2 ^ k < 2 ^ 30 := Nat.pow_lt_pow_right (by omega) (by omega)
    rw [grown, if_neg (by omega), if_pos ⟨hpos, hlt⟩, Nat.mul_comm, ← Nat.pow_succ]
    exact ih (by omega) (by omega) (Nat.pow_le_pow_right (by omega) (by omega))

/-! ## The operations -/

variable {mem : Nat → UInt8} {b : Buf}

theorem sound_new : (new mem).Sound :=
  ⟨Nat.zero_le _, 9, by omega, by simp [size, new]⟩

@[simp] theorem data_new : (new mem).data = [] := rfl

theorem length_data (hb : b.Sound) : b.data.length = b.len := by
  rw [data, List.length_take]
  exact Nat.min_eq_left hb.len_le

/-- **Room**: the size is doubled as often as needed, and the memory is kept. -/
theorem extend_some (hb : b.Sound) {len : Nat} (h : b.len + len ≤ 2 ^ 30) :
    ∃ b', b.extend mem len = some b' ∧ b'.Sound ∧ b'.len = b.len ∧ b.len + len ≤ b'.size ∧
      b.size ≤ b'.size ∧ (b'.size = b.size ∨ b'.size < 2 * (b.len + len)) ∧
      ∀ n, n ≤ b.size → b'.ptr.take n = b.ptr.take n := by
  obtain ⟨k, hk, hsize⟩ := hb.pow
  obtain ⟨j, hj, hkj, hj30, hle, hleast⟩ := grown_some hk h
  have hpow : 2 ^ k ≤ 2 ^ j := Nat.pow_le_pow_right (by omega) hkj
  generalize hfresh : (List.range (2 ^ j - b.size)).map (fun i => mem (b.size + i)) = fresh
  have hextend : b.extend mem len = some { b with ptr := b.ptr ++ fresh } := by
    rw [extend, hsize, hj, ← hfresh, hsize]
    rfl
  have hgrown : size { b with ptr := b.ptr ++ fresh } = 2 ^ j := by
    rw [← hfresh, size, List.length_append, List.length_map, List.length_range, ← size, hsize]
    omega
  refine ⟨_, hextend, ⟨?_, j, hj30, hgrown⟩, rfl, ?_, ?_, ?_, fun n hn => ?_⟩
  · rw [hgrown]
    show b.len ≤ 2 ^ j
    omega
  · rw [hgrown]
    exact hle
  · rw [hgrown, hsize]
    exact hpow
  · rw [hgrown, hsize]
    exact hleast.imp (fun heq => by rw [heq]) id
  · exact List.take_append_of_le_length hn

theorem extend_none (hb : b.Sound) {len : Nat} (h : 2 ^ 30 < b.len + len) :
    b.extend mem len = none := by
  obtain ⟨k, hk, hsize⟩ := hb.pow
  rw [extend, hsize, grown_none hk h]
  rfl

theorem size_write {offset : Nat} {bytes : List UInt8} (h : offset + bytes.length ≤ b.size) :
    (b.write offset bytes).size = b.size := by
  unfold size at h ⊢
  simp only [write, List.length_append, List.length_take, List.length_drop]
  omega

theorem take_write {offset : Nat} {bytes : List UInt8} (h : offset ≤ b.size) :
    (b.write offset bytes).ptr.take (offset + bytes.length) = b.ptr.take offset ++ bytes := by
  have hlen : (b.ptr.take offset ++ bytes).length = offset + bytes.length := by
    rw [List.length_append, List.length_take]
    exact congrArg (· + _) (Nat.min_eq_left h)
  exact List.take_left' hlen

/-- Bytes stored over bytes in use. -/
theorem data_write (hb : b.Sound) {offset : Nat} {bytes : List UInt8}
    (h : offset + bytes.length ≤ b.len) :
    (b.write offset bytes).data =
      b.data.take offset ++ bytes ++ b.data.drop (offset + bytes.length) := by
  have hle : b.len ≤ b.ptr.length := hb.len_le
  have hfront : (b.ptr.take offset ++ bytes).length = offset + bytes.length := by
    rw [List.length_append, List.length_take, Nat.min_eq_left (by omega)]
  show (b.ptr.take offset ++ bytes ++ b.ptr.drop (offset + bytes.length)).take b.len = _
  rw [List.take_append, List.take_of_length_le (by omega), hfront, data, List.take_take,
    Nat.min_eq_left (by omega), List.drop_take]

/-- **Bytes appended** are behind those in use. -/
theorem append_some (hb : b.Sound) {bytes : List UInt8} (h : b.len + bytes.length ≤ 2 ^ 30) :
    ∃ b', b.append mem bytes = some b' ∧ b'.Sound ∧ b'.len = b.len + bytes.length ∧
      b'.data = b.data ++ bytes := by
  obtain ⟨b', hb', hsound, hlen, hroom, -, -, hkept⟩ := @extend_some mem b hb _ h
  have hsize : (b'.write b'.len bytes).size = b'.size := by
    refine size_write ?_
    rw [hlen]
    exact hroom
  refine ⟨_, by rw [append, hb']; rfl, ⟨?_, ?_⟩, congrArg (· + _) hlen, ?_⟩
  · show b'.len + _ ≤ (b'.write b'.len bytes).size
    rw [hsize, hlen]
    exact hroom
  · obtain ⟨k, hk, hpow⟩ := hsound.pow
    exact ⟨k, hk, hsize.trans hpow⟩
  · show (b'.write b'.len bytes).ptr.take (b'.len + bytes.length) = b.data ++ bytes
    rw [take_write hsound.len_le, hlen, hkept _ hb.len_le]
    rfl

/-- The same, of fields. -/
theorem appendAll_some (hb : b.Sound) {fields : List (List UInt8)}
    (h : b.len + fields.flatten.length ≤ 2 ^ 30) :
    ∃ b', b.appendAll mem fields = some b' ∧ b'.Sound ∧ b'.len = b.len + fields.flatten.length ∧
      b'.data = b.data ++ fields.flatten := by
  induction fields generalizing b with
  | nil =>
    refine ⟨b, rfl, hb, rfl, ?_⟩
    rw [List.flatten_nil, List.append_nil]
  | cons bytes fields ih =>
    rw [List.flatten_cons, List.length_append] at h
    obtain ⟨b1, hb1, hsound1, hlen1, hdata1⟩ := @append_some mem _ hb bytes
      (by omega)
    obtain ⟨b2, hb2, hsound2, hlen2, hdata2⟩ := ih hsound1 (by rw [hlen1]; omega)
    refine ⟨b2, ?_, hsound2, ?_, ?_⟩
    · rw [appendAll, List.foldlM_cons, hb1]
      exact hb2
    · rw [hlen2, hlen1, List.flatten_cons, List.length_append, Nat.add_assoc]
    · rw [hdata2, hdata1, List.flatten_cons, List.append_assoc]

theorem append_none (hb : b.Sound) {bytes : List UInt8} (h : 2 ^ 30 < b.len + bytes.length) :
    b.append mem bytes = none := by
  rw [append, extend_none hb h]
  rfl

end Buf

end Despotify.Lib

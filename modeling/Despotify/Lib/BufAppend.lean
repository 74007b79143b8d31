import Despotify.Lib.Buf
import Despotify.Pool.Octets
import Despotify.Pool.Runs

/-!
# Appending to a buffer

`buf_append_data`, `buf_append_u8`, `buf_append_u16` and `buf_append_u32` of `lib/buf.c`, in
any order.

    total < 2 ^ 30 → after each call: len ≤ size, size = 512 · 2 ^ k,
      the bytes in use = what the calls append, one after the other     (calls_appended)

An integer is appended as the octets of its remainder modulo `2 ^ 8`, `2 ^ 16` or `2 ^ 32`
(`Call.bytes`); the code stores its octets one by one.
-/

namespace Despotify.Lib.Buf

/-! ## The code -/

/-- A byte stored at `b->ptr[i]`. -/
def store (b : Buf) (i : Nat) (x : UInt8) : Buf := { b with ptr := b.ptr.set i x }

section

variable (mem : Nat → UInt8)

/-- `buf_append_u8`. -/
def appendU8 (b : Buf) (data : UInt8) : Option Buf :=
  (b.extend mem 1).map fun b => { b.store b.len data with len := b.len + 1 }

/-- `buf_append_u16`. -/
def appendU16 (b : Buf) (data : UInt16) : Option Buf :=
  (b.extend mem 2).map fun b =>
    let b' := b.store b.len ((data >>> 8) &&& 0xff).toUInt8
    { b'.store (b.len + 1) (data &&& 0xff).toUInt8 with len := b.len + 2 }

/-- `buf_append_u32`: its `unsigned long` has 64 bits. -/
def appendU32 (b : Buf) (data : UInt64) : Option Buf :=
  (b.extend mem 4).map fun b =>
    let b' := b.store b.len ((data >>> 24) &&& 0xff).toUInt8
    let b' := b'.store (b.len + 1) ((data >>> 16) &&& 0xff).toUInt8
    let b' := b'.store (b.len + 2) ((data >>> 8) &&& 0xff).toUInt8
    { b'.store (b.len + 3) (data &&& 0xff).toUInt8 with len := b.len + 4 }

end

/-- A call, with the value it is called with; the value is converted to the parameter's type. -/
inductive Call
  | data (bytes : List UInt8)
  | u8 (n : Int)
  | u16 (n : Int)
  | u32 (n : Int)
  deriving DecidableEq, Repr

/-- A call; `fresh` is what the memory holds that `realloc` adds. -/
def call (b : Buf) (fresh : Nat → UInt8) : Call → Option Buf
  | .data bytes => b.append fresh bytes
  | .u8 n => b.appendU8 fresh (UInt8.ofInt n)
  | .u16 n => b.appendU16 fresh (UInt16.ofInt n)
  | .u32 n => b.appendU32 fresh (UInt64.ofInt n)

/-- Calls one after the other. -/
def calls : Buf → List ((Nat → UInt8) × Call) → Option Buf :=
  Runs.exec fun b c => b.call c.1 c.2

/-- What a call appends. -/
def Call.bytes : Call → List UInt8
  | .data bytes => bytes
  | .u8 n => Octets.octets 1 (n % 2 ^ 8).toNat
  | .u16 n => Octets.octets 2 (n % 2 ^ 16).toNat
  | .u32 n => Octets.octets 4 (n % 2 ^ 32).toNat

/-- What the calls append. -/
def appendedBytes (cs : List ((Nat → UInt8) × Call)) : List UInt8 :=
  (cs.map fun c => c.2.bytes).flatten

/-! ## Bytes stored one by one -/

variable {fresh : Nat → UInt8} {b b' : Buf}

/-- A byte stored behind those that were. -/
theorem write_concat {offset : Nat} {bytes : List UInt8} {x : UInt8}
    (h : offset + bytes.length < b.size) :
    (b.write offset bytes).store (offset + bytes.length) x = b.write offset (bytes ++ [x]) := by
  unfold size at h
  have hfront : (b.ptr.take offset ++ bytes).length = offset + bytes.length := by
    rw [List.length_append, List.length_take, Nat.min_eq_left (by omega)]
  have hrest : b.ptr.drop (offset + bytes.length) =
      b.ptr[offset + bytes.length] :: b.ptr.drop (offset + bytes.length + 1) :=
    List.drop_eq_getElem_cons h
  rw [store, write, write, hrest]
  dsimp only
  rw [List.set_append_right _ _ (Nat.le_of_eq hfront), hfront, Nat.sub_self, List.set_cons_zero,
    List.length_append, List.length_singleton, ← Nat.add_assoc]
  simp only [List.append_assoc, List.singleton_append]

theorem store_eq {i : Nat} (h : i < b.size) (x : UInt8) : b.store i x = b.write i [x] := by
  have hnil : b.write i [] = b := by
    rw [write, List.append_nil, List.length_nil, Nat.add_zero, List.take_append_drop]
  have hone := @write_concat b i [] x h
  rwa [hnil] at hone

/-- Room for the bytes is made first. -/
theorem map_extend {len : Nat} {bytes : List UInt8} {f : Buf → Buf} (hb : b.Sound)
    (hlen : bytes.length = len) (h : b.len + len ≤ 2 ^ 30)
    (hf : ∀ b', b'.len + len ≤ b'.size →
      f b' = { b'.write b'.len bytes with len := b'.len + len }) :
    (b.extend fresh len).map f = b.append fresh bytes := by
  obtain ⟨b', hb', -, hlen', hroom, -⟩ := @extend_some fresh b hb _ h
  rw [append, hlen, hb', Option.map_some, Option.map_some, hf b' (by rw [hlen']; exact hroom)]

theorem appendU8_eq (hb : b.Sound) (h : b.len + 1 ≤ 2 ^ 30) (data : UInt8) :
    b.appendU8 fresh data = b.append fresh [data] := by
  refine map_extend hb rfl h fun b' hroom => ?_
  rw [store_eq hroom]

theorem appendU16_eq (hb : b.Sound) (h : b.len + 2 ≤ 2 ^ 30) (data : UInt16) :
    b.appendU16 fresh data =
      b.append fresh [((data >>> 8) &&& 0xff).toUInt8, (data &&& 0xff).toUInt8] := by
  refine map_extend hb rfl h fun b' hroom => ?_
  generalize ((data >>> 8) &&& 0xff).toUInt8 = x₁
  generalize (data &&& 0xff).toUInt8 = x₂
  have h₁ : b'.store b'.len x₁ = b'.write b'.len [x₁] := store_eq (by omega) x₁
  have h₂ : (b'.write b'.len [x₁]).store (b'.len + 1) x₂ = b'.write b'.len [x₁, x₂] :=
    write_concat (by simp; omega)
  dsimp only
  rw [h₁, h₂]

theorem appendU32_eq (hb : b.Sound) (h : b.len + 4 ≤ 2 ^ 30) (data : UInt64) :
    b.appendU32 fresh data =
      b.append fresh [((data >>> 24) &&& 0xff).toUInt8, ((data >>> 16) &&& 0xff).toUInt8,
        ((data >>> 8) &&& 0xff).toUInt8, (data &&& 0xff).toUInt8] := by
  refine map_extend hb rfl h fun b' hroom => ?_
  generalize ((data >>> 24) &&& 0xff).toUInt8 = x₁
  generalize ((data >>> 16) &&& 0xff).toUInt8 = x₂
  generalize ((data >>> 8) &&& 0xff).toUInt8 = x₃
  generalize (data &&& 0xff).toUInt8 = x₄
  have h₁ : b'.store b'.len x₁ = b'.write b'.len [x₁] := store_eq (by omega) x₁
  have h₂ : (b'.write b'.len [x₁]).store (b'.len + 1) x₂ = b'.write b'.len [x₁, x₂] :=
    write_concat (by simp; omega)
  have h₃ : (b'.write b'.len [x₁, x₂]).store (b'.len + 2) x₃ = b'.write b'.len [x₁, x₂, x₃] :=
    write_concat (by simp; omega)
  have h₄ : (b'.write b'.len [x₁, x₂, x₃]).store (b'.len + 3) x₄ =
      b'.write b'.len [x₁, x₂, x₃, x₄] :=
    write_concat (by simp; omega)
  dsimp only
  rw [h₁, h₂, h₃, h₄]

/-! ## Integers -/

theorem octets_one (n : Nat) : Octets.octets 1 n = [UInt8.ofNat (n % 256)] :=
  Octets.octets_succ 0 n

theorem bytes_u8 (n : Int) : [UInt8.ofInt n] = (Call.u8 n).bytes := by
  rw [Call.bytes, octets_one]
  congr 1
  rw [← UInt8.toNat_inj, UInt8.ofInt, UInt8.toNat_ofNat', UInt8.toNat_ofNat']
  omega

theorem and_0xff (n : Nat) : n &&& 255 = n % 256 := Nat.and_two_pow_sub_one_eq_mod n 8

theorem bytes_u16 (n : Int) :
    [((UInt16.ofInt n >>> 8) &&& 0xff).toUInt8, (UInt16.ofInt n &&& 0xff).toUInt8] =
      (Call.u16 n).bytes := by
  have hword : (UInt16.ofInt n).toNat = (n % 2 ^ 16).toNat := by
    rw [UInt16.ofInt, UInt16.toNat_ofNat']
    omega
  rw [Call.bytes, Octets.octets_succ, octets_one, List.singleton_append, ← hword]
  congr 1
  · rw [← UInt8.toNat_inj]
    simp [and_0xff, Nat.shiftRight_eq_div_pow]
  · congr 1
    rw [← UInt8.toNat_inj]
    simp [and_0xff]

theorem bytes_u32 (n : Int) :
    [((UInt64.ofInt n >>> 24) &&& 0xff).toUInt8, ((UInt64.ofInt n >>> 16) &&& 0xff).toUInt8,
      ((UInt64.ofInt n >>> 8) &&& 0xff).toUInt8, (UInt64.ofInt n &&& 0xff).toUInt8] =
      (Call.u32 n).bytes := by
  have hword : (n % 2 ^ 32).toNat = (UInt64.ofInt n).toNat % 2 ^ 32 := by
    rw [UInt64.ofInt, UInt64.toNat_ofNat']
    omega
  rw [Call.bytes, hword]
  generalize UInt64.ofInt n = w
  rw [Octets.octets_succ, Octets.octets_succ, Octets.octets_succ, octets_one]
  simp only [List.cons_append, List.nil_append, List.cons.injEq, and_true, ← UInt8.toNat_inj]
  refine ⟨?_, ?_, ?_, ?_⟩ <;> simp [and_0xff, Nat.shiftRight_eq_div_pow]
  all_goals omega

/-! ## Calls -/

theorem length_bytes_u8 (n : Int) : (Call.u8 n).bytes.length = 1 := Octets.length_octets ..

theorem length_bytes_u16 (n : Int) : (Call.u16 n).bytes.length = 2 := Octets.length_octets ..

theorem length_bytes_u32 (n : Int) : (Call.u32 n).bytes.length = 4 := Octets.length_octets ..

/-- All four append bytes. -/
theorem call_eq (hb : b.Sound) {c : Call} (h : b.len + c.bytes.length ≤ 2 ^ 30) :
    b.call fresh c = b.append fresh c.bytes := by
  cases c with
  | data bytes => rfl
  | u8 n =>
    rw [length_bytes_u8] at h
    rw [call, appendU8_eq hb h, bytes_u8]
  | u16 n =>
    rw [length_bytes_u16] at h
    rw [call, appendU16_eq hb h, bytes_u16]
  | u32 n =>
    rw [length_bytes_u32] at h
    rw [call, appendU32_eq hb h, bytes_u32]

/-- The size is never halved. -/
theorem size_le_append (hb : b.Sound) {bytes : List UInt8} (h : b.len + bytes.length ≤ 2 ^ 30)
    (happend : b.append fresh bytes = some b') : b.size ≤ b'.size := by
  obtain ⟨b₁, hb₁, -, hlen, hroom, hle, -⟩ := @extend_some fresh b hb _ h
  rw [append, hb₁, Option.map_some, Option.some_inj] at happend
  rw [← happend]
  show b.size ≤ (b₁.write b₁.len bytes).size
  rw [size_write (by rw [hlen]; exact hroom)]
  exact hle

/-- What the buffer is after calls that append `bytes`. -/
structure Holding (b : Buf) (bytes : List UInt8) : Prop where
  sound : b.Sound
  start : 512 ≤ b.size
  data : b.data = bytes

theorem Holding.new (mem : Nat → UInt8) : Holding (Buf.new mem) [] :=
  ⟨sound_new, by simp [size, Buf.new], data_new⟩

theorem Holding.len_eq {bytes : List UInt8} (h : Holding b bytes) : b.len = bytes.length := by
  rw [← h.data, length_data h.sound]

/-- **One call.** -/
theorem Holding.call {bytes : List UInt8} (h : Holding b bytes) (fresh : Nat → UInt8) {c : Call}
    (htotal : (bytes ++ c.bytes).length ≤ 2 ^ 30) :
    ∃ b', b.call fresh c = some b' ∧ Holding b' (bytes ++ c.bytes) := by
  rw [List.length_append, ← h.len_eq] at htotal
  obtain ⟨b', hb', hsound, -, hdata⟩ := @append_some fresh b h.sound _ htotal
  refine ⟨b', (call_eq h.sound htotal).trans hb', hsound, ?_, ?_⟩
  · exact Nat.le_trans h.start (size_le_append h.sound htotal hb')
  · rw [hdata, h.data]

/-- **A run** of calls. -/
theorem Holding.calls {bytes : List UInt8} (h : Holding b bytes)
    {cs : List ((Nat → UInt8) × Call)} (htotal : (bytes ++ appendedBytes cs).length ≤ 2 ^ 30) :
    ∃ b', b.calls cs = some b' ∧ Holding b' (bytes ++ appendedBytes cs) := by
  induction cs generalizing b bytes with
  | nil =>
    refine ⟨b, rfl, ?_⟩
    rw [appendedBytes, List.map_nil, List.flatten_nil, List.append_nil]
    exact h
  | cons c cs ih =>
    have happended : bytes ++ appendedBytes (c :: cs) = bytes ++ c.2.bytes ++ appendedBytes cs := by
      rw [List.append_assoc]
      rfl
    rw [happended] at htotal ⊢
    have hfirst : (bytes ++ c.2.bytes).length ≤ 2 ^ 30 := by
      rw [List.length_append] at htotal
      omega
    obtain ⟨b₁, hb₁, h₁⟩ := h.call c.1 hfirst
    obtain ⟨b₂, hb₂, h₂⟩ := ih h₁ htotal
    refine ⟨b₂, ?_, h₂⟩
    rw [Buf.calls, Runs.exec_cons, hb₁]
    exact hb₂

/-- **The bytes appended** to a fresh buffer, after each call: no size is too large for an
`int`, and the loop that doubles it ends. -/
theorem calls_appended {mem : Nat → UInt8} {cs done : List ((Nat → UInt8) × Call)}
    (htotal : (appendedBytes cs).length < 2 ^ 30) (hdone : done <+: cs) :
    ∃ b, (new mem).calls done = some b ∧ b.len ≤ b.size ∧ (∃ k, b.size = 512 * 2 ^ k) ∧
      b.size ≤ 2 ^ 30 ∧ b.data = appendedBytes done ∧ b.len = (appendedBytes done).length := by
  obtain ⟨rest, rfl⟩ := hdone
  have hle : ([] ++ appendedBytes done).length ≤ 2 ^ 30 := by
    rw [appendedBytes, List.map_append, List.flatten_append, List.length_append] at htotal
    rw [List.nil_append, appendedBytes]
    omega
  obtain ⟨b, hb, h⟩ := (Holding.new mem).calls hle
  rw [List.nil_append] at h
  obtain ⟨k, hk, hsize⟩ := h.sound.pow
  have hstart : 2 ^ 9 ≤ 2 ^ k := by
    rw [← hsize]
    exact h.start
  have hk9 : 9 ≤ k := (Nat.pow_le_pow_iff_right (by omega)).mp hstart
  refine ⟨b, hb, h.sound.len_le, ⟨k - 9, ?_⟩, ?_, h.data, h.len_eq⟩
  · rw [hsize, show 512 = 2 ^ 9 from rfl, ← Nat.pow_add, Nat.add_sub_cancel' hk9]
  · rw [hsize]
    exact Nat.pow_le_pow_right (by omega) hk

/-- Two bytes, a number below 0 and one that is too long. -/
theorem calls_appended_numbers :
    ∃ b, (new fun _ => 0).calls
        [(fun _ => 1, .data [7, 8]), (fun _ => 2, .u16 (-2)), (fun _ => 3, .u32 0x100000a0b)] =
        some b ∧
      b.data = [7, 8, 255, 254, 0, 0, 10, 11] := by
  obtain ⟨b, hb, -, -, -, hdata, -⟩ := @calls_appended (fun _ => 0)
    [(fun _ => 1, .data [7, 8]), (fun _ => 2, .u16 (-2)), (fun _ => 3, .u32 0x100000a0b)] _
    (by decide) (List.prefix_refl _)
  exact ⟨b, hb, hdata.trans (by decide)⟩

end Despotify.Lib.Buf

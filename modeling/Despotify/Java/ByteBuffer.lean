import Despotify.Java.Channel

/-!
# Java: `ByteBuffer`

A buffer that `ByteBuffer.allocate` returned, while it is filled.  A put for which there is
no room throws a `BufferOverflowException` (`none`).

* `putAll_some`: fields for which there is room are put one behind the other.
-/

namespace Despotify.Java

/-- The bytes are those before the position. -/
structure ByteBuffer where
  capacity : Nat
  bytes : Bytes
  le : bytes.length ≤ capacity

namespace ByteBuffer

def allocate (capacity : Nat) : ByteBuffer := ⟨capacity, [], Nat.zero_le _⟩

def put (buffer : ByteBuffer) (src : Bytes) : Option ByteBuffer :=
  if h : buffer.bytes.length + src.length ≤ buffer.capacity then
    some ⟨buffer.capacity, buffer.bytes ++ src, by rwa [List.length_append]⟩
  else none

/-- One field after the other is put. -/
def putAll (buffer : ByteBuffer) (fields : List Bytes) : Option ByteBuffer :=
  fields.foldlM put buffer

end ByteBuffer

/-- The bytes of an `int`, as `ByteBuffer.putInt` writes it. -/
def putInt (i : Int32) : Bytes := htonl i.toUInt32

namespace ByteBuffer

theorem putAll_some {buffer : ByteBuffer} {fields : List Bytes}
    (h : buffer.bytes.length + fields.flatten.length ≤ buffer.capacity) :
    ∃ buffer', buffer.putAll fields = some buffer' ∧
      buffer'.bytes = buffer.bytes ++ fields.flatten := by
  induction fields generalizing buffer with
  | nil =>
    refine ⟨buffer, rfl, ?_⟩
    rw [List.flatten_nil, List.append_nil]
  | cons src fields ih =>
    rw [List.flatten_cons, List.length_append] at h
    have hroom : buffer.bytes.length + src.length ≤ buffer.capacity := by omega
    obtain ⟨buffer', hall, hbytes⟩ := @ih ⟨buffer.capacity, buffer.bytes ++ src, by
      rwa [List.length_append]⟩ (by
        show (buffer.bytes ++ src).length + _ ≤ buffer.capacity
        rw [List.length_append]
        omega)
    refine ⟨buffer', ?_, ?_⟩
    · rw [putAll, List.foldlM_cons, put, dif_pos hroom]
      exact hall
    · rw [hbytes, List.flatten_cons, List.append_assoc]

theorem of_putAll {buffer buffer' : ByteBuffer} {fields : List Bytes}
    (h : buffer.putAll fields = some buffer') :
    buffer'.capacity = buffer.capacity ∧ buffer'.bytes = buffer.bytes ++ fields.flatten := by
  induction fields generalizing buffer with
  | nil =>
    cases h
    exact ⟨rfl, (List.append_nil _).symm⟩
  | cons src fields ih =>
    rw [putAll, List.foldlM_cons] at h
    obtain ⟨buffer1, hput, hall⟩ := Option.bind_eq_some_iff.mp h
    obtain ⟨hcap, hbytes⟩ := ih hall
    rw [put] at hput
    split at hput
    · cases hput
      exact ⟨hcap, by rw [hbytes, List.flatten_cons, List.append_assoc]⟩
    · cases hput

end ByteBuffer

end Despotify.Java

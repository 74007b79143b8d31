import Despotify.Java.ByteBuffer

/-!
# Java: an album response, inflated

`GZIP.inflate` reads a `GZIPInputStream` byte by byte, in blocks of 4096 bytes, and `LoadAlbum`
drops the last byte of what comes out.  That byte is the -1 of a stream that has ended; a stream
whose trailer is cut off has none, and loses a byte of its data.

    inflate opens gz = some (d ++ [0xFF]) or some d                   (inflate_eq)
    loadAlbumXml opens gz = some d ↔ complete ∧ d.length + 1 < 2 ^ 31 (loadAlbumXml_iff)
-/

namespace Despotify.Java

/-! ## Algorithm -/

/-- A `GZIPInputStream`: the data not read yet, whether the trailer is there, and whether a read
has reported the end of the stream. -/
structure GZIPInputStream where
  rest : Bytes
  complete : Bool
  ended : Bool
  deriving DecidableEq

namespace GZIPInputStream

def available (s : GZIPInputStream) : Int := if s.ended then 0 else 1

/-- `read ()`; `none` is the `EOFException`. -/
def read (s : GZIPInputStream) : Option (Int × GZIPInputStream) :=
  match s.rest with
  | b :: rest => some (b.toNat, { s with rest := rest })
  | [] => if s.complete then some (-1, { s with ended := true }) else none

/-- The reads that are still to come. -/
def left (s : GZIPInputStream) : Nat := s.rest.length + if s.ended then 0 else 1

theorem left_read {s s' : GZIPInputStream} {v : Int} (h : 0 < s.available)
    (hread : s.read = some (v, s')) : s'.left < s.left := by
  have hended : s.ended = false := by
    unfold available at h
    split at h
    · omega
    · simpa using ‹¬ s.ended = true›
  unfold read at hread
  unfold left
  cases hrest : s.rest with
  | nil =>
    rw [hrest] at hread
    obtain ⟨-, h⟩ := Option.ite_none_right_eq_some.mp hread
    cases h
    simp [hended]
  | cons b rest =>
    rw [hrest] at hread
    cases hread
    simp

end GZIPInputStream

namespace Gzip

def BUFFER_SIZE : Nat := 4096

/-- The blocks that are full, the one that is being filled, and `nbytes`. -/
structure Blocks where
  buffers : List ByteBuffer
  buffer : ByteBuffer
  nbytes : Int

def Blocks.new : Blocks := ⟨[], .allocate BUFFER_SIZE, 0⟩

/-- `if (!buffer.hasRemaining ())`: the next block is begun. -/
def Blocks.next (b : Blocks) : Blocks :=
  if b.buffer.bytes.length < b.buffer.capacity then b
  else
    { buffers := b.buffers ++ [b.buffer]
      buffer := .allocate BUFFER_SIZE
      nbytes := int (b.nbytes + b.buffer.bytes.length) }

/-- `while (gzipInputStream.available () > 0)`; the `IOException` of a read leaves the loop. -/
def inflateLoop (s : GZIPInputStream) (b : Blocks) : Option Blocks :=
  if _h : 0 < s.available then
    match _hread : s.read with
    | none => some b.next
    | some (v, s') => do
      inflateLoop s' { b.next with buffer := ← b.next.buffer.put [UInt8.ofInt v] }
  else some b
termination_by s.left
decreasing_by exact GZIPInputStream.left_read _h _hread

/-- `new byte[n]`; `none` is the `NegativeArraySizeException`. -/
def newArray (n : Int) : Option ByteBuffer := if n < 0 then none else some (.allocate n.toNat)

/-- `GZIP.inflate`; `opens` is the constructor of the stream, which may throw an `IOException`
too. -/
def inflate (opens : Bytes → Option GZIPInputStream) (bytes : Bytes) : Option Bytes := do
  let b ← match opens bytes with
    | none => some .new
    | some s => inflateLoop s .new
  let data ← newArray (int (b.nbytes + b.buffer.bytes.length))
  let data ← data.putAll ((b.buffers ++ [b.buffer]).map ByteBuffer.bytes)
  return data.bytes ++ List.replicate (data.capacity - data.bytes.length) 0

end Gzip

/-- `Arrays.copyOfRange (data, 0, data.length - 1)`; `none` is the `IllegalArgumentException` of
an empty array. -/
def cutLast (data : Bytes) : Option Bytes :=
  if data.length = 0 then none else some (data.take (data.length - 1))

/-- The bytes that `LoadAlbum.send` parses. -/
def loadAlbumXml (opens : Bytes → Option GZIPInputStream) (response : Bytes) : Option Bytes := do
  cutLast (← Gzip.inflate opens response)

/-! ## Lemmas -/

namespace Gzip

/-- What has been put into the blocks. -/
def Blocks.content (b : Blocks) : Bytes := (b.buffers.map ByteBuffer.bytes).flatten ++ b.buffer.bytes

/-- The full blocks are counted, and the one being filled has the size of a block. -/
structure Blocks.Inv (b : Blocks) : Prop where
  nbytes : b.nbytes = int (b.buffers.map ByteBuffer.bytes).flatten.length
  capacity : b.buffer.capacity = BUFFER_SIZE

theorem Blocks.inv_new : Blocks.new.Inv := ⟨by simp [Blocks.new, int], rfl⟩

theorem Blocks.Inv.next {b : Blocks} (h : b.Inv) :
    b.next.Inv ∧ b.next.content = b.content ∧
      b.next.buffer.bytes.length < b.next.buffer.capacity := by
  unfold Blocks.next
  by_cases hroom : b.buffer.bytes.length < b.buffer.capacity
  · rw [if_pos hroom]
    exact ⟨h, rfl, hroom⟩
  · rw [if_neg hroom]
    have hfull : (b.buffers ++ [b.buffer]).map ByteBuffer.bytes =
        b.buffers.map ByteBuffer.bytes ++ [b.buffer.bytes] := List.map_append
    refine ⟨⟨?_, rfl⟩, ?_, show 0 < BUFFER_SIZE by decide⟩
    · show int (b.nbytes + b.buffer.bytes.length) = _
      rw [hfull, List.flatten_append, List.flatten_singleton, List.length_append, h.nbytes]
      simp [int]
    · show (List.map ByteBuffer.bytes (b.buffers ++ [b.buffer])).flatten ++ [] = b.content
      rw [hfull, List.flatten_append, List.flatten_singleton, List.append_nil]
      rfl

theorem Blocks.Inv.put {b : Blocks} (h : b.Inv)
    (hroom : b.buffer.bytes.length < b.buffer.capacity) (x : UInt8) :
    ∃ buffer, b.buffer.put [x] = some buffer ∧ Blocks.Inv { b with buffer := buffer } ∧
      Blocks.content { b with buffer := buffer } = b.content ++ [x] := by
  refine ⟨_, dif_pos hroom, ⟨h.nbytes, h.capacity⟩, ?_⟩
  rw [Blocks.content, Blocks.content, List.append_assoc]

/-- **The loop** puts all the data into the blocks, and the byte 0xFF behind it if the stream
reports its end. -/
theorem inflateLoop_spec (s : GZIPInputStream) (hended : s.ended = false) {b : Blocks}
    (h : b.Inv) :
    ∃ b', inflateLoop s b = some b' ∧ b'.Inv ∧
      b'.content = b.content ++ s.rest ++ if s.complete then [0xFF] else [] := by
  obtain ⟨rest, complete, ended⟩ := s
  obtain rfl : ended = false := hended
  induction rest generalizing b with
  | nil =>
    obtain ⟨hnext, hcontent, hroom⟩ := h.next
    cases complete with
    | false =>
      refine ⟨b.next, ?_, hnext, by simp [hcontent]⟩
      rw [inflateLoop, dif_pos (by decide)]
      rfl
    | true =>
      obtain ⟨buffer, hput, hinv, hcontent'⟩ := hnext.put hroom 0xFF
      refine ⟨{ b.next with buffer := buffer }, ?_, hinv, by simp [hcontent', hcontent]⟩
      rw [inflateLoop, dif_pos (by decide)]
      show (do inflateLoop _ { b.next with buffer := ← b.next.buffer.put [0xFF] }) = _
      rw [hput, Option.bind_eq_bind, Option.bind_some, inflateLoop, dif_neg (by decide)]
  | cons x rest ih =>
    obtain ⟨hnext, hcontent, hroom⟩ := h.next
    obtain ⟨buffer, hput, hinv, hcontent'⟩ := hnext.put hroom x
    obtain ⟨b', hloop, hinv', hcontent''⟩ := ih hinv
    refine ⟨b', ?_, hinv', by simp [hcontent'', hcontent', hcontent]⟩
    have hx : UInt8.ofInt (x.toNat : Int) = x := by
      have hlt := x.toNat_lt
      rw [← UInt8.toNat_inj, UInt8.ofInt, UInt8.toNat_ofNat']
      omega
    have hopen : 0 < (⟨x :: rest, complete, false⟩ : GZIPInputStream).available := Int.one_pos
    rw [inflateLoop, dif_pos hopen]
    show (do inflateLoop _ { b.next with buffer := ← b.next.buffer.put [UInt8.ofInt x.toNat] }) = _
    rw [hx, hput, Option.bind_eq_bind, Option.bind_some]
    exact hloop

theorem inflate_eq {opens : Bytes → Option GZIPInputStream} {bytes d : Bytes} {complete : Bool}
    (hopens : opens bytes = some ⟨d, complete, false⟩) :
    inflate opens bytes =
      if (d ++ if complete then [0xFF] else []).length < 2 ^ 31 then
        some (d ++ if complete then [0xFF] else []) else none := by
  obtain ⟨b, hloop, hinv, hcontent⟩ := inflateLoop_spec ⟨d, complete, false⟩ rfl Blocks.inv_new
  have hdata : b.content = d ++ if complete then [0xFF] else [] := hcontent
  have hsize : int (b.nbytes + b.buffer.bytes.length) = int b.content.length := by
    rw [hinv.nbytes, Blocks.content, List.length_append]
    simp [int]
  have hparts : ((b.buffers ++ [b.buffer]).map ByteBuffer.bytes).flatten = b.content := by
    simp [Blocks.content]
  rw [← hdata, inflate, hopens]
  simp only [Option.bind_eq_bind, hloop, Option.bind_some, hsize]
  by_cases hn : b.content.length < 2 ^ 31
  · have hint : int b.content.length = b.content.length := by
      rw [int, Int.bmod_eq_of_le] <;> omega
    have hroom : (ByteBuffer.allocate b.content.length).bytes.length +
        ((b.buffers ++ [b.buffer]).map ByteBuffer.bytes).flatten.length ≤
          (ByteBuffer.allocate b.content.length).capacity := by
      rw [hparts]
      exact Nat.le_of_eq (Nat.zero_add _)
    obtain ⟨data, hput, hbytes⟩ := ByteBuffer.putAll_some hroom
    obtain ⟨hcap, -⟩ := ByteBuffer.of_putAll hput
    have hall : data.bytes = b.content := by
      rw [hbytes, hparts]
      rfl
    rw [if_pos hn, hint, newArray, if_neg (by omega), Option.bind_some, Int.toNat_natCast, hput,
      Option.bind_some, hcap, hall]
    simp [ByteBuffer.allocate]
  · -- the size wraps, and is negative or too small
    rw [if_neg hn, newArray]
    split
    · rfl
    · rename_i hneg
      have hsmall : (int b.content.length).toNat < b.content.length := by
        have hlt := Int.bmod_lt (x := b.content.length) (m := 2 ^ 32) (by decide)
        have hint : int b.content.length < 2147483648 := hlt
        omega
      rw [Option.bind_some]
      cases hput : ByteBuffer.putAll (.allocate (int b.content.length).toNat)
          ((b.buffers ++ [b.buffer]).map ByteBuffer.bytes) with
      | none => rfl
      | some data =>
        obtain ⟨hcap, hbytes⟩ := ByteBuffer.of_putAll hput
        have hle := data.le
        rw [hcap, hbytes, hparts] at hle
        exact absurd hle (Nat.not_le_of_lt (by simpa [ByteBuffer.allocate] using hsmall))

end Gzip

/-- **An album response is decoded as it was encoded** exactly when the encoding is complete (and
an `int` counts the bytes). -/
theorem loadAlbumXml_iff {opens : Bytes → Option GZIPInputStream} {response d : Bytes}
    {complete : Bool} (hopens : opens response = some ⟨d, complete, false⟩) :
    loadAlbumXml opens response = some d ↔ complete = true ∧ d.length + 1 < 2 ^ 31 := by
  rw [loadAlbumXml, Gzip.inflate_eq hopens]
  cases complete with
  | true =>
    rw [if_pos rfl, List.length_append, List.length_singleton]
    by_cases hlen : d.length + 1 < 2 ^ 31
    · rw [if_pos hlen]
      exact iff_of_true (by simp [cutLast]) ⟨rfl, hlen⟩
    · rw [if_neg hlen]
      exact iff_of_false (by simp) fun h => hlen h.2
  | false =>
    rw [if_neg Bool.false_ne_true, List.append_nil]
    have hcut : cutLast d ≠ some d := by
      unfold cutLast
      split
      · exact nofun
      · intro h
        have hlen := congrArg List.length (Option.some.inj h)
        rw [List.length_take] at hlen
        omega
    split
    · simpa using hcut
    · simp

/-! ### A response -/

/-- `<a/>`, compressed; the last eight bytes are the trailer. -/
def albumResponse : Bytes :=
  [31, 139, 8, 0, 0, 0, 0, 0, 2, 255, 179, 73, 212, 183, 3, 0, 212, 28, 209, 1, 4, 0, 0, 0]

/-- The stream opened on `albumResponse`, with its trailer or without. -/
def openAlbum (bytes : Bytes) : Option GZIPInputStream :=
  if bytes = albumResponse then some ⟨[60, 97, 47, 62], true, false⟩
  else if bytes = albumResponse.take 16 then some ⟨[60, 97, 47, 62], false, false⟩
  else none

theorem loadAlbumXml_iff_album :
    openAlbum albumResponse = some ⟨[60, 97, 47, 62], true, false⟩ ∧
      (loadAlbumXml openAlbum albumResponse = some [60, 97, 47, 62] ↔
        true = true ∧ [60, 97, 47, 62].length + 1 < 2 ^ 31) :=
  ⟨by decide, loadAlbumXml_iff (by decide)⟩

/-- Without its trailer the response loses the `>`. -/
theorem loadAlbumXml_loses :
    openAlbum (albumResponse.take 16) = some ⟨[60, 97, 47, 62], false, false⟩ ∧
      loadAlbumXml openAlbum (albumResponse.take 16) = some [60, 97, 47] := by
  have hopens : openAlbum (albumResponse.take 16) = some ⟨[60, 97, 47, 62], false, false⟩ := by
    decide
  refine ⟨hopens, ?_⟩
  rw [loadAlbumXml, Gzip.inflate_eq hopens]
  decide

end Despotify.Java

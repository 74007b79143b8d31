import Despotify.Java.ByteBuffer
import Despotify.Lib.Buf
import Despotify.Pool.Utf16
import Despotify.Wire.KeyExchange

/-!
# The request of a search

The payload that `cmd_search` of the C client and `Search.send` of the Java client build.
Both write the length of the query in one byte; C cuts the query to that length, Java does
not.

    the payload says what was asked for

      in C       iff the limit is 0 (the assertion fails first) or the query has at most
                 255 bytes
      in Java    iff the offset is negative (an exception comes first) or the query is text
                 of at most 255 bytes                             (searchFaithful_iff)

A string of Java is one of UTF-16 units.
-/

namespace Despotify.SearchRequest

open Lib Java Utf16

/-- What comes of a request: nothing is sent, or a payload. -/
inductive Sent
  | refused
  | payload (bytes : List UInt8)

/-! ## The clients -/

/-- `cmd_search`, with the id of the channel it registers. -/
def cmdSearch (mem : Nat → UInt8) (channelId : Nat) (searchtext : List UInt8)
    (offset limit : UInt32) : Option Sent :=
  if limit = 0 then some .refused
  else do
    let searchtextLength := UInt8.ofNat searchtext.length
    let b ← (Buf.new mem).appendAll mem [htons channelId, htonl offset, htonl limit, htons 0,
      [searchtextLength], searchtext.take searchtextLength.toNat]
    return .payload b.data

/-- `String.getBytes` for UTF-8. -/
def getBytes (query : List UInt16) : List UInt8 :=
  (toChars query).flatMap String.utf8EncodeChar

/-- `Search.send`, with the id of its channel. -/
def send (channelId : Int) (query : List UInt16) (offset maxResults : Int32) : Option Sent :=
  let utf8Bytes := getBytes query
  let buffer := ByteBuffer.allocate (2 + 4 + 4 + 2 + 1 + utf8Bytes.length)
  if offset < 0 then some .refused
  else do
    let buffer ← buffer.putAll [putShort channelId, putInt offset, putInt maxResults, putShort 0,
      [UInt8.ofNat utf8Bytes.length], utf8Bytes]
    return .payload buffer.bytes

/-! ## The layout -/

/-- What a payload asks for. -/
structure Search where
  offset : UInt32
  limit : UInt32
  query : List UInt8
  deriving DecidableEq, Repr

/-- A payload, read to its last byte. -/
def decode : List UInt8 → Option Search
  | _ :: _ :: o0 :: o1 :: o2 :: o3 :: l0 :: l1 :: l2 :: l3 :: z0 :: z1 :: n :: query =>
    if z0 = 0 ∧ z1 = 0 ∧ query.length = n.toNat then
      some ⟨KeyExchange.ntohl o0 o1 o2 o3, KeyExchange.ntohl l0 l1 l2 l3, query⟩
    else none
  | _ => none

/-- The payload says what was asked for, or there is none. -/
def Faithful (sent : Option Sent) (offset limit : UInt32) (query : List UInt8) : Prop :=
  sent = some .refused ∨ ∃ bytes, sent = some (.payload bytes) ∧
    decode bytes = some ⟨offset, limit, query⟩

/-- The same of a string of Java: the query of the payload is a text of these units. -/
def FaithfulText (sent : Option Sent) (offset limit : UInt32) (query : List UInt16) : Prop :=
  sent = some .refused ∨ ∃ bytes search, sent = some (.payload bytes) ∧
    decode bytes = some search ∧ search.offset = offset ∧ search.limit = limit ∧
    (search.query.toByteArray.utf8Decode?).map (fun text => utf16 text.toList) = some query

theorem ntohl_htonl (w : UInt32) : KeyExchange.ntohl (w >>> 24).toUInt8 (w >>> 16).toUInt8
    (w >>> 8).toUInt8 w.toUInt8 = w := by
  have hw := w.toNat_lt
  rw [← UInt32.toNat_inj]
  simp only [KeyExchange.ntohl, UInt32.toNat_add, UInt32.toNat_mul, UInt8.toNat_toUInt32,
    UInt32.toNat_toUInt8, UInt32.toNat_shiftRight, UInt32.reduceToNat, Nat.shiftRight_eq_div_pow,
    Nat.reduceMod, Nat.reducePow]
  omega

/-- The fields, read back. -/
theorem decode_fields {id : List UInt8} (hid : id.length = 2) (offset limit : UInt32) (n : UInt8)
    (query : List UInt8) : decode [id, htonl offset, htonl limit, htons 0, [n], query].flatten =
      if query.length = n.toNat then some ⟨offset, limit, query⟩ else none := by
  obtain ⟨a, b, rfl⟩ := List.length_eq_two.mp hid
  simp only [htonl, htons, List.flatten_cons, List.flatten_nil, List.append_nil,
    List.cons_append, List.nil_append, decode, ntohl_htonl]
  simp

/-! ## Which requests are right -/

theorem cmdSearch_some (mem : Nat → UInt8) (channelId : Nat) (searchtext : List UInt8)
    (offset : UInt32) {limit : UInt32} (hlimit : limit ≠ 0) :
    ∃ bytes, cmdSearch mem channelId searchtext offset limit = some (.payload bytes) ∧
      bytes = [htons channelId, htonl offset, htonl limit, htons 0,
        [UInt8.ofNat searchtext.length],
        searchtext.take (UInt8.ofNat searchtext.length).toNat].flatten := by
  have hbyte := (UInt8.ofNat searchtext.length).toNat_lt
  obtain ⟨b, hb, -, -, hdata⟩ := @Buf.appendAll_some mem (Buf.new mem) Buf.sound_new
    [htons channelId, htonl offset, htonl limit, htons 0, [UInt8.ofNat searchtext.length],
      searchtext.take (UInt8.ofNat searchtext.length).toNat] (by
    simp only [Buf.new, htons, htonl, List.flatten_cons, List.flatten_nil, List.append_nil,
      List.length_append, List.length_cons, List.length_nil, List.length_take]
    omega)
  refine ⟨b.data, ?_, by rw [hdata, Buf.data_new, List.nil_append]⟩
  rw [cmdSearch, if_neg hlimit]
  simp only [hb]
  rfl

theorem send_some (channelId : Int) (query : List UInt16) {offset : Int32} (maxResults : Int32)
    (hoffset : ¬ offset < 0) :
    send channelId query offset maxResults = some (.payload [putShort channelId, putInt offset,
      putInt maxResults, putShort 0, [UInt8.ofNat (getBytes query).length],
      getBytes query].flatten) := by
  obtain ⟨buffer, hbuffer, hbytes⟩ := @ByteBuffer.putAll_some
    (ByteBuffer.allocate (2 + 4 + 4 + 2 + 1 + (getBytes query).length))
    [putShort channelId, putInt offset, putInt maxResults, putShort 0,
      [UInt8.ofNat (getBytes query).length], getBytes query] (by
    simp only [ByteBuffer.allocate, putShort, putInt, htons, htonl, List.flatten_cons,
      List.flatten_nil, List.append_nil, List.length_append, List.length_cons, List.length_nil]
    omega)
  rw [send, if_neg hoffset]
  simp only [hbuffer]
  exact congrArg (fun bytes => some (Sent.payload bytes)) hbytes

theorem cmdSearch_faithful_iff (mem : Nat → UInt8) (channelId : Nat) (searchtext : List UInt8)
    (offset limit : UInt32) :
    Faithful (cmdSearch mem channelId searchtext offset limit) offset limit searchtext ↔
      limit = 0 ∨ searchtext.length ≤ 255 := by
  by_cases hlimit : limit = 0
  · exact iff_of_true (Or.inl (by rw [cmdSearch, if_pos hlimit])) (Or.inl hlimit)
  obtain ⟨bytes, hsent, hbytes⟩ := cmdSearch_some mem channelId searchtext offset hlimit
  have hlen : (UInt8.ofNat searchtext.length).toNat = searchtext.length % 256 :=
    UInt8.toNat_ofNat'
  have hdecode := decode_fields (length_htons channelId) offset limit
    (UInt8.ofNat searchtext.length) (searchtext.take (UInt8.ofNat searchtext.length).toNat)
  have hcut : (searchtext.take (UInt8.ofNat searchtext.length).toNat).length =
      (UInt8.ofNat searchtext.length).toNat := by
    rw [List.length_take, hlen]
    omega
  rw [if_pos hcut, ← hbytes] at hdecode
  rw [or_iff_right hlimit]
  constructor
  · rintro (hrefused | ⟨bytes', hsent', hsearch⟩)
    · rw [hsent] at hrefused
      cases hrefused
    · rw [hsent] at hsent'
      cases hsent'
      rw [hdecode] at hsearch
      have hquery := congrArg (fun search => search.query.length) (Option.some.inj hsearch)
      have hquery : (searchtext.take (UInt8.ofNat searchtext.length).toNat).length =
        searchtext.length := hquery
      rw [hcut, hlen] at hquery
      omega
  · intro hle
    refine Or.inr ⟨bytes, hsent, ?_⟩
    rw [hdecode, List.take_of_length_le (by omega)]

/-- The text that is sent, read back. -/
theorem utf8_getBytes (query : List UInt16) :
    ((getBytes query).toByteArray.utf8Decode?).map (fun text => utf16 text.toList) =
      some (utf16 (toChars query)) := by
  have h : (getBytes query).toByteArray = (toChars query).utf8Encode := rfl
  rw [h, List.utf8Decode?_utf8Encode]
  rfl

theorem send_faithful_iff (channelId : Int) (query : List UInt16) (offset maxResults : Int32) :
    FaithfulText (send channelId query offset maxResults) offset.toUInt32 maxResults.toUInt32
      query ↔ offset < 0 ∨ Paired query ∧ (getBytes query).length ≤ 255 := by
  by_cases hoffset : offset < 0
  · exact iff_of_true (Or.inl (by rw [send, if_pos hoffset])) (Or.inl hoffset)
  have hsent := send_some channelId query maxResults hoffset
  have hlen : (UInt8.ofNat (getBytes query).length).toNat = (getBytes query).length % 256 :=
    UInt8.toNat_ofNat'
  have hdecode := @decode_fields (putShort channelId) rfl offset.toUInt32 maxResults.toUInt32
    (UInt8.ofNat (getBytes query).length) (getBytes query)
  have hzero : putShort 0 = htons 0 := rfl
  rw [hzero] at hsent
  rw [or_iff_right hoffset]
  constructor
  · rintro (hrefused | ⟨bytes, search, hsent', hsearch, -, -, htext⟩)
    · rw [hsent] at hrefused
      cases hrefused
    · rw [hsent] at hsent'
      cases hsent'
      have hsearch := hdecode.symm.trans hsearch
      split at hsearch
      · cases hsearch
        rw [utf8_getBytes] at htext
        refine ⟨(utf16_toChars_iff query).mp (Option.some.inj htext), ?_⟩
        omega
      · cases hsearch
  · rintro ⟨hpaired, hle⟩
    rw [if_pos (by omega)] at hdecode
    refine Or.inr ⟨_, _, hsent, hdecode, rfl, rfl, ?_⟩
    rw [utf8_getBytes, (utf16_toChars_iff query).mpr hpaired]

/-- **Search requests**: which of them say what was asked for. -/
theorem searchFaithful_iff (mem : Nat → UInt8) (channelId : Nat) (searchtext : List UInt8)
    (offset limit : UInt32) (javaChannelId : Int) (query : List UInt16)
    (javaOffset maxResults : Int32) :
    (Faithful (cmdSearch mem channelId searchtext offset limit) offset limit searchtext ↔
        limit = 0 ∨ searchtext.length ≤ 255) ∧
      (FaithfulText (send javaChannelId query javaOffset maxResults) javaOffset.toUInt32
          maxResults.toUInt32 query ↔
        javaOffset < 0 ∨ Paired query ∧ (getBytes query).length ≤ 255) :=
  ⟨cmdSearch_faithful_iff mem channelId searchtext offset limit,
    send_faithful_iff javaChannelId query javaOffset maxResults⟩

/-- Two hundred and fifty-six letters. -/
theorem not_searchFaithful : ¬ ∀ (mem : Nat → UInt8) (channelId : Nat) (searchtext : List UInt8)
    (offset limit : UInt32),
    Faithful (cmdSearch mem channelId searchtext offset limit) offset limit searchtext := by
  intro h
  have h := (cmdSearch_faithful_iff _ _ _ _ _).mp (h (fun _ => 0) 0 (List.replicate 256 97) 0 100)
  rw [List.length_replicate] at h
  rcases h with hlimit | hlen
  · exact absurd hlimit (by decide)
  · omega

end Despotify.SearchRequest

import Despotify.Java.ByteBuffer
import Despotify.Pool.Octets
import Despotify.Wire.KeyExchange

/-!
# Diffie-Hellman keys in 96-byte fields

`session_init_client` and `key_init` of the C client store the numbers at the front of
96-byte arrays, `DH.keyToBytes` of the Java client puts as many bytes as it gets into the
packet.  The fields denote the numbers

    in C               iff the number is at least 2 ^ 760
    in Java            iff the number is at least 2 ^ 759     (keyFields_iff)

A private key is any number.
-/

namespace Despotify.DhKey

open KeyExchange (store toList_store)
open Lib Java

/-! ## Keys -/

/-- `DH_prime`. -/
def dhPrime : List UInt8 := [
  0xff, 0xff, 0xff, 0xff, 0xff, 0xff, 0xff, 0xff, 0xc9, 0x0f, 0xda, 0xa2, 0x21, 0x68,
  0xc2, 0x34, 0xc4, 0xc6, 0x62, 0x8b, 0x80, 0xdc, 0x1c, 0xd1, 0x29, 0x02, 0x4e, 0x08,
  0x8a, 0x67, 0xcc, 0x74, 0x02, 0x0b, 0xbe, 0xa6, 0x3b, 0x13, 0x9b, 0x22, 0x51, 0x4a,
  0x08, 0x79, 0x8e, 0x34, 0x04, 0xdd, 0xef, 0x95, 0x19, 0xb3, 0xcd, 0x3a, 0x43, 0x1b,
  0x30, 0x2b, 0x0a, 0x6d, 0xf2, 0x5f, 0x14, 0x37, 0x4f, 0xe1, 0x35, 0x6d, 0x6d, 0x51,
  0xc2, 0x45, 0xe4, 0x85, 0xb5, 0x76, 0x62, 0x5e, 0x7e, 0xc6, 0xf4, 0x4c, 0x42, 0xe9,
  0xa6, 0x3a, 0x36, 0x20, 0xff, 0xff, 0xff, 0xff, 0xff, 0xff, 0xff, 0xff]

/-- `DH_generator`. -/
def dhGenerator : List UInt8 := [2]

/-- The public key that goes with a private key. -/
def publicKey (x : Nat) : Nat := Octets.number dhGenerator ^ x % Octets.number dhPrime

/-- What the public key of the other side and a private key agree on. -/
def secret (pubKey : List UInt8) (x : Nat) : Nat :=
  Octets.number pubKey ^ x % Octets.number dhPrime

/-- The modulus of an RSA key of 1024 bits, the highest one set. -/
structure RsaModulus where
  n : Nat
  size : n.size = 1024

theorem number_dhPrime : 0 < Octets.number dhPrime ∧ Octets.number dhPrime < 256 ^ 96 :=
  ⟨by decide +kernel, Octets.number_lt dhPrime⟩

theorem publicKey_lt (x : Nat) : publicKey x < 256 ^ 96 :=
  (Nat.mod_lt _ number_dhPrime.1).trans number_dhPrime.2

theorem secret_lt (pubKey : List UInt8) (x : Nat) : secret pubKey x < 256 ^ 96 :=
  (Nat.mod_lt _ number_dhPrime.1).trans number_dhPrime.2

/-! ## The client in C -/

/-- The fields of `SESSION` that the packet and the keys are made of. -/
structure Session where
  clientId : Vector UInt8 4
  clientRevision : UInt32
  clientRandom16 : Vector UInt8 16
  myPubKey : Vector UInt8 96
  rsa : RsaModulus
  rsaPubExp : Vector UInt8 128
  username : Vector UInt8 256
  usernameLen : UInt8
  sharedKey : Vector UInt8 96

/-- `BN_bn2bin` to the array. -/
def bn2bin {size : Nat} (n : Nat) (array : Vector UInt8 size) : Vector UInt8 size :=
  store array 0 (Octets.minimal n)

/-- `session_init_client`, with what the generators return. -/
def sessionInitClient (random : Vector UInt8 16) (rsa : RsaModulus) (x : Nat) : Session where
  clientId := #v[1, 4, 1, 1]
  clientRevision := 99999
  clientRandom16 := random
  myPubKey := bn2bin (publicKey x) (Vector.replicate 96 0)
  rsa := rsa
  rsaPubExp := Vector.replicate 128 0
  username := Vector.replicate 256 0
  usernameLen := 0
  sharedKey := Vector.replicate 96 0

/-- The text of a string of which 255 bytes fit. -/
def nameText (username : List UInt8) : List UInt8 := (username.takeWhile (· ≠ 0)).take 255

/-- `session_auth_set`, of the name: `strncpy` fills up with zeros. -/
def sessionAuthSet (session : Session) (username : List UInt8) : Session :=
  { session with
    username := Vector.ofFn fun i => (nameText username).getD i 0
    usernameLen := UInt8.ofNat (nameText username).length }

/-- The fields behind the version of the protocol, the first one the length. -/
def clientFields (session : Session) : List (List UInt8) :=
  [htons 0, htonl 0x00000300, htonl 0x00030c00, htonl session.clientRevision, htonl 0,
    htonl 0x01000000, session.clientId.toList, htonl 0, session.clientRandom16.toList,
    session.myPubKey.toList, (bn2bin session.rsa.n session.rsaPubExp).toList, [0],
    [session.usernameLen], htons 0x0100,
    session.username.toList.take session.usernameLen.toNat, [0x40]]

/-- `send_client_initial_packet`, up to the call of `send`. -/
def clientInitialPacket (mem : Nat → UInt8) (session : Session) : Option Buf := do
  let b ← (Buf.new mem).append mem (htons 3)
  let lenIdx := b.len
  let b ← b.appendAll mem (clientFields session)
  return b.write lenIdx [UInt8.ofNat (b.len / 256), UInt8.ofNat b.len]

/-- `key_init`, up to the HMAC: what `DH_compute_key` leaves in `shared_key`. -/
def keyInit (session : Session) (remotePubKey : Vector UInt8 96) (x : Nat) : Session :=
  { session with sharedKey := bn2bin (secret remotePubKey.toList x) session.sharedKey }

/-! ## The client in Java -/

/-- `DH.keyToBytes`, and `RSA.keyToBytes`. -/
def keyToBytes (n : Nat) : Bytes :=
  let bytes := Octets.signed n
  if bytes.length % 8 ≠ 0 ∧ bytes.head? = some 0 then bytes.drop 1 else bytes

/-- The fields of `Session` that the packet is made of. -/
structure JavaSession where
  clientRevision : Int32
  clientId : Vector UInt8 4
  clientRandom : Vector UInt8 16
  rsaClientKey : RsaModulus
  username : Bytes

/-- The fields of the packet. -/
def javaFields (session : JavaSession) (x : Nat) : List Bytes :=
  [putShort 3, putShort 0, putInt 0x00000000, putInt 0x00030C00, putInt session.clientRevision,
    putInt 0x00000000, putInt 0x01000000, session.clientId.toList, putInt 0x00000000,
    session.clientRandom.toList, keyToBytes (publicKey x), keyToBytes session.rsaClientKey.n, [0],
    [UInt8.ofNat session.username.length], putShort 0x0100, session.username, [0x40]]

/-- `sendInitialPacket`, up to the sending: the bytes of the buffer. -/
def sendInitialPacket (session : JavaSession) (x : Nat) : Option Bytes := do
  let buffer ← (ByteBuffer.allocate (277 + session.username.length)).putAll (javaFields session x)
  return buffer.bytes.take 2 ++ putShort buffer.bytes.length ++ buffer.bytes.drop 4

/-! ## Arrays and byte strings -/

theorem rsa_lt (rsa : RsaModulus) : rsa.n < 256 ^ 128 := by
  rw [Octets.pow_eq, ← Nat.size_le, rsa.size]

theorem minimal_rsa (rsa : RsaModulus) : Octets.minimal rsa.n = Octets.octets 128 rsa.n := by
  rw [Octets.minimal, rsa.size]

theorem toList_bn2bin {size n : Nat} (hn : n < 256 ^ size) (array : Vector UInt8 size) :
    (bn2bin n array).toList =
      Octets.minimal n ++ array.toList.drop (Octets.minimal n).length := by
  have hlen : (Octets.minimal n).length ≤ size :=
    Nat.le_of_not_lt fun h => absurd (Octets.lt_length_minimal.mp h) (Nat.not_le.mpr hn)
  rw [bn2bin, toList_store _ (by omega), List.take_zero, List.nil_append, Nat.zero_add]

/-- **The number at the front** of an array is that of the array when it fills the array. -/
theorem number_bn2bin_iff {size n : Nat} (hn : n < 256 ^ (size + 1))
    (array : Vector UInt8 (size + 1)) : Octets.number (bn2bin n array).toList = n ↔
      256 ^ size ≤ n ∨ n = 0 ∧ Octets.number array.toList = 0 := by
  have hnil : array.toList.drop (Octets.minimal n).length = [] ↔ 256 ^ size ≤ n := by
    rw [List.drop_eq_nil_iff, Vector.length_toList, ← Octets.lt_length_minimal]
    omega
  have h := @Octets.number_append_eq_iff (Octets.minimal n)
    (array.toList.drop (Octets.minimal n).length)
  rw [Octets.number_minimal, hnil] at h
  rw [toList_bn2bin hn, h]
  refine or_congr_right (and_congr_right ?_)
  rintro rfl
  rfl

theorem number_keyToBytes (n : Nat) : Octets.number (keyToBytes n) = n := by
  unfold keyToBytes
  by_cases h : (Octets.signed n).length % 8 ≠ 0 ∧ (Octets.signed n).head? = some 0
  · obtain ⟨bytes, hbytes⟩ := List.head?_eq_some_iff.mp h.2
    simp only [if_pos h]
    rw [hbytes, List.drop_succ_cons, List.drop_zero, ← Octets.number_cons_zero, ← hbytes,
      Octets.number_signed]
  · simp only [if_neg h]
    exact Octets.number_signed n

theorem length_keyToBytes_le (n : Nat) : (keyToBytes n).length ≤ (Octets.signed n).length := by
  unfold keyToBytes
  by_cases h : (Octets.signed n).length % 8 ≠ 0 ∧ (Octets.signed n).head? = some 0
  · simp only [if_pos h, List.length_drop]
    omega
  · simp only [if_neg h]
    exact Nat.le_refl _

/-- A width that is a multiple of eight is kept: with a sign byte in front there is one byte
too many, which goes, and without one the leading byte stays, whatever it is. -/
theorem keyToBytes_full {n k : Nat} (hk : (k + 1) % 8 = 0) (hsize : 8 * k ≤ n.size)
    (hhigh : n < 256 ^ (k + 1)) : keyToBytes n = Octets.octets (k + 1) n := by
  have hle : n.size ≤ 8 * (k + 1) := Nat.size_le.mpr (by rwa [← Octets.pow_eq])
  unfold keyToBytes Octets.signed
  by_cases htop : n.size = 8 * (k + 1)
  · have hwidth : n.size / 8 + 1 = k + 1 + 1 := by omega
    rw [hwidth, Octets.octets_succ_of_lt hhigh]
    refine (if_pos ⟨?_, rfl⟩).trans rfl
    rw [List.length_cons, Octets.length_octets]
    omega
  · have hwidth : n.size / 8 + 1 = k + 1 := by omega
    rw [hwidth]
    refine if_neg fun h => h.1 ?_
    rw [Octets.length_octets, hk]

/-! ## The packets -/

/-- What is behind the key. -/
def behindKey (rsa : RsaModulus) (username : List UInt8) : List UInt8 :=
  Octets.octets 128 rsa.n ++ [0, UInt8.ofNat username.length] ++ htons 0x0100 ++ username ++ [0x40]

/-- The key field of a packet denotes `y`, and the other fields are at their offsets. -/
structure KeyField (packet : List UInt8) (y : Nat) (rsa : RsaModulus) (username : List UInt8) :
    Prop where
  key : Octets.number ((packet.drop 48).take 96) = y
  behind : packet.drop 144 = behindKey rsa username

/-- The length, over the bytes 2 and 3, is in front of the key. -/
theorem drop_patched {data len : List UInt8} (hlen : len.length = 2) (h : 4 ≤ data.length) :
    (data.take 2 ++ len ++ data.drop 4).drop 48 = data.drop 48 := by
  have hfront : (data.take 2 ++ len).length = 4 := by
    rw [List.length_append, List.length_take, hlen]
    omega
  rw [List.drop_append, hfront, List.drop_eq_nil_of_le (by omega), List.nil_append,
    List.drop_drop]

theorem flatten_clientFields (session : Session) : ∃ front : List UInt8, front.length = 46 ∧
    (clientFields session).flatten = front ++ (session.myPubKey.toList ++
      ((bn2bin session.rsa.n session.rsaPubExp).toList ++ [0, session.usernameLen] ++
        htons 0x0100 ++ session.username.toList.take session.usernameLen.toNat ++ [0x40])) := by
  refine ⟨htons 0 ++ htonl 0x00000300 ++ htonl 0x00030c00 ++ htonl session.clientRevision ++
    htonl 0 ++ htonl 0x01000000 ++ session.clientId.toList ++ htonl 0 ++
    session.clientRandom16.toList, ?_, ?_⟩
  · simp [htons, htonl]
  · simp [clientFields]

theorem drop_clientInitialPacket (mem : Nat → UInt8) (session : Session) :
    ∃ b, clientInitialPacket mem session = some b ∧
      b.data.drop 48 = session.myPubKey.toList ++
        ((bn2bin session.rsa.n session.rsaPubExp).toList ++ [0, session.usernameLen] ++
          htons 0x0100 ++ session.username.toList.take session.usernameLen.toNat ++ [0x40]) := by
  obtain ⟨front, hfront, hfields⟩ := flatten_clientFields session
  have hlen : (clientFields session).flatten.length ≤ 46 + 96 + 128 + 4 + 256 + 1 := by
    rw [hfields]
    simp only [List.length_append, hfront, Vector.length_toList, length_htons, List.length_cons,
      List.length_nil, List.length_take]
    omega
  obtain ⟨b1, hb1, hsound1, hlen1, hdata1⟩ := @Buf.append_some mem (Buf.new mem) Buf.sound_new
    (htons 3) (by
      show 0 + 2 ≤ _
      omega)
  have hlen1 : b1.len = 2 := hlen1
  obtain ⟨b2, hb2, hsound2, hlen2, hdata2⟩ := @Buf.appendAll_some mem b1 hsound1
    (clientFields session) (by omega)
  have hroom : 46 ≤ (clientFields session).flatten.length := by
    rw [hfields, List.length_append, hfront]
    omega
  refine ⟨b2.write b1.len [UInt8.ofNat (b2.len / 256), UInt8.ofNat b2.len], ?_, ?_⟩
  · rw [clientInitialPacket, hb1]
    simp only [Option.bind_eq_bind, Option.bind_some, hb2]
    rfl
  · have hpatch : b1.len + [UInt8.ofNat (b2.len / 256), UInt8.ofNat b2.len].length ≤ b2.len := by
      simp only [List.length_cons, List.length_nil]
      omega
    rw [Buf.data_write hsound2 hpatch, hlen1]
    refine (drop_patched rfl ?_).trans ?_
    · rw [Buf.length_data hsound2]
      omega
    · rw [hdata2, hdata1, hfields, Buf.data_new, List.nil_append, ← List.append_assoc,
        List.drop_left' (by rw [List.length_append, hfront]; rfl)]

/-- The name, as it is copied out of its array. -/
theorem take_username (session : Session) (username : List UInt8) :
    (sessionAuthSet session username).username.toList.take
      (sessionAuthSet session username).usernameLen.toNat = nameText username := by
  have hle : (nameText username).length ≤ 255 := by
    rw [nameText, List.length_take]
    omega
  have hlen : (UInt8.ofNat (nameText username).length).toNat = (nameText username).length := by
    rw [UInt8.toNat_ofNat']
    omega
  show ((Vector.ofFn fun i : Fin 256 => (nameText username).getD i 0).toList.take
    (UInt8.ofNat (nameText username).length).toNat) = _
  rw [hlen]
  refine List.ext_getElem ?_ fun i hi hi' => ?_
  · rw [List.length_take, Vector.length_toList]
    omega
  · rw [List.getElem_take, Vector.getElem_toList, Vector.getElem_ofFn, List.getD_eq_getElem]

/-! ## The fields denote the numbers -/

/-- The packet of the C client, its private key being `x`. -/
def ClientFixed (mem : Nat → UInt8) (random : Vector UInt8 16) (rsa : RsaModulus)
    (username : List UInt8) (x : Nat) : Prop :=
  ∃ b, clientInitialPacket mem (sessionAuthSet (sessionInitClient random rsa x) username) =
    some b ∧ KeyField b.data (publicKey x) rsa (nameText username)

/-- The packet of the Java client, its private key being `x`. -/
def JavaFixed (session : JavaSession) (x : Nat) : Prop :=
  ∃ packet, sendInitialPacket session x = some packet ∧
    KeyField packet (publicKey x) session.rsaClientKey session.username

/-- The key of the HMAC. -/
def SharedFixed (session : Session) (remotePubKey : Vector UInt8 96) (x : Nat) : Prop :=
  Octets.number (keyInit session remotePubKey x).sharedKey.toList = secret remotePubKey.toList x

theorem pow_760 : 256 ^ 95 = 2 ^ 760 := by
  have h : 760 = 8 * 95 := rfl
  rw [h, Octets.pow_eq]

theorem clientFixed_iff (mem : Nat → UInt8) (random : Vector UInt8 16) (rsa : RsaModulus)
    (username : List UInt8) {x : Nat} (hx : 1 < publicKey x) :
    ClientFixed mem random rsa username x ↔ 2 ^ 760 ≤ publicKey x := by
  obtain ⟨session, hsession⟩ :
    ∃ session, session = sessionAuthSet (sessionInitClient random rsa x) username := ⟨_, rfl⟩
  obtain ⟨b, hb, hdrop⟩ := drop_clientInitialPacket mem session
  have hkey : (b.data.drop 48).take 96 = session.myPubKey.toList := by
    rw [hdrop, List.take_left' Vector.length_toList]
  have hrsa : (bn2bin session.rsa.n session.rsaPubExp).toList = Octets.octets 128 rsa.n := by
    rw [hsession]
    show (bn2bin rsa.n (Vector.replicate 128 0)).toList = _
    rw [toList_bn2bin (rsa_lt rsa), minimal_rsa, Octets.length_octets,
      List.drop_eq_nil_of_le (Nat.le_of_eq Vector.length_toList), List.append_nil]
  have hbehind : b.data.drop 144 = behindKey rsa (nameText username) := by
    have hsplit : b.data.drop 144 = (b.data.drop 48).drop 96 := by rw [List.drop_drop]
    rw [hsplit, hdrop, List.drop_left' Vector.length_toList, hrsa, hsession, take_username]
    rfl
  have hnumber : Octets.number session.myPubKey.toList = publicKey x ↔ 2 ^ 760 ≤ publicKey x := by
    have h := @number_bn2bin_iff 95 _ (publicKey_lt x) (Vector.replicate 96 0)
    rw [pow_760] at h
    rw [hsession]
    exact h.trans ⟨fun h => h.resolve_right fun h => by omega, Or.inl⟩
  rw [← hnumber, ← hkey]
  constructor
  · rintro ⟨b', hb', hfield⟩
    rw [← hsession, hb] at hb'
    cases hb'
    exact hfield.key
  · intro h
    exact ⟨b, by rw [← hsession, hb], h, hbehind⟩

theorem flatten_javaFields (session : JavaSession) (x : Nat) : ∃ front : Bytes,
    front.length = 48 ∧ (javaFields session x).flatten =
      front ++ (keyToBytes (publicKey x) ++ behindKey session.rsaClientKey session.username) := by
  have hrsa : keyToBytes session.rsaClientKey.n = Octets.octets 128 session.rsaClientKey.n :=
    keyToBytes_full (by omega) (by rw [session.rsaClientKey.size]; omega)
      (rsa_lt session.rsaClientKey)
  refine ⟨putShort 3 ++ putShort 0 ++ putInt 0x00000000 ++ putInt 0x00030C00 ++
    putInt session.clientRevision ++ putInt 0x00000000 ++ putInt 0x01000000 ++
    session.clientId.toList ++ putInt 0x00000000 ++ session.clientRandom.toList, ?_, ?_⟩
  · simp [putShort, putInt, htons, htonl]
  · have hshort : putShort 0x0100 = htons 0x0100 := rfl
    simp [javaFields, behindKey, hrsa, hshort]

theorem length_behindKey (rsa : RsaModulus) (username : List UInt8) :
    (behindKey rsa username).length = 133 + username.length := by
  simp only [behindKey, List.length_append, Octets.length_octets, List.length_cons,
    List.length_nil, length_htons]
  omega

/-- The width of a public key. -/
theorem length_publicKey (x : Nat) : if 760 ≤ (publicKey x).size
    then keyToBytes (publicKey x) = Octets.octets 96 (publicKey x)
    else (keyToBytes (publicKey x)).length ≤ 95 := by
  split
  · exact keyToBytes_full (by omega) ‹_› (publicKey_lt x)
  · refine (length_keyToBytes_le _).trans ?_
    rw [Octets.signed, Octets.length_octets]
    omega

theorem drop_sendInitialPacket (session : JavaSession) (x : Nat) :
    ∃ packet, sendInitialPacket session x = some packet ∧ packet.drop 48 =
      keyToBytes (publicKey x) ++ behindKey session.rsaClientKey session.username := by
  obtain ⟨front, hfront, hfields⟩ := flatten_javaFields session x
  have hkey : (keyToBytes (publicKey x)).length ≤ 96 := by
    have h := length_publicKey x
    split at h
    · rw [h, Octets.length_octets]
    · omega
  have hlen : (javaFields session x).flatten.length =
      48 + (keyToBytes (publicKey x)).length + (133 + session.username.length) := by
    rw [hfields, List.length_append, List.length_append, hfront, length_behindKey]
    omega
  obtain ⟨buffer, hbuffer, hbytes⟩ := @ByteBuffer.putAll_some
    (ByteBuffer.allocate (277 + session.username.length)) (javaFields session x) (by
      show 0 + _ ≤ 277 + session.username.length
      omega)
  have hbytes : buffer.bytes = (javaFields session x).flatten := hbytes
  refine ⟨buffer.bytes.take 2 ++ putShort buffer.bytes.length ++ buffer.bytes.drop 4, ?_, ?_⟩
  · rw [sendInitialPacket, hbuffer]
    rfl
  · rw [drop_patched rfl (by rw [hbytes]; omega), hbytes, hfields, List.drop_left' hfront]

theorem javaFixed_iff (session : JavaSession) {x : Nat} (hx : 1 < publicKey x) :
    JavaFixed session x ↔ 2 ^ 759 ≤ publicKey x := by
  obtain ⟨packet, hpacket, hdrop⟩ := drop_sendInitialPacket session x
  have hsplit : packet.drop 144 = (packet.drop 48).drop 96 := by rw [List.drop_drop]
  have hwidth := length_publicKey x
  rw [← Nat.lt_size]
  constructor
  · rintro ⟨packet', hpacket', hfield⟩
    rw [hpacket] at hpacket'
    cases hpacket'
    by_contra hsmall
    rw [if_neg (by omega)] at hwidth
    have hkey := hfield.key
    have hnumber := number_keyToBytes (publicKey x)
    rw [hdrop, List.take_append, List.take_of_length_le (by omega)] at hkey
    rcases Octets.number_append_eq_iff.mp (hkey.trans hnumber.symm) with hnil | ⟨hzero, -⟩
    · have hlen := congrArg List.length hnil
      rw [List.length_take, length_behindKey, List.length_nil] at hlen
      omega
    · omega
  · intro hlarge
    rw [if_pos (by omega)] at hwidth
    have hlen : (keyToBytes (publicKey x)).length = 96 := by rw [hwidth, Octets.length_octets]
    refine ⟨packet, hpacket, ?_, ?_⟩
    · rw [hdrop, List.take_left' hlen, number_keyToBytes]
    · rw [hsplit, hdrop, List.drop_left' hlen]

theorem sharedFixed_iff (session : Session) (remotePubKey : Vector UInt8 96) (x : Nat) :
    SharedFixed session remotePubKey x ↔ 2 ^ 760 ≤ secret remotePubKey.toList x ∨
      secret remotePubKey.toList x = 0 ∧ Octets.number session.sharedKey.toList = 0 := by
  have h := @number_bn2bin_iff 95 _ (secret_lt remotePubKey.toList x) session.sharedKey
  rwa [pow_760] at h

/-- **Fixed fields**: they denote the numbers exactly when these are large enough. -/
theorem keyFields_iff (mem : Nat → UInt8) (random : Vector UInt8 16) (rsa : RsaModulus)
    (username : List UInt8) (session : Session) (remotePubKey : Vector UInt8 96)
    (java : JavaSession) {x : Nat} (hx : 1 < publicKey x) :
    (ClientFixed mem random rsa username x ↔ 2 ^ 760 ≤ publicKey x) ∧
      (JavaFixed java x ↔ 2 ^ 759 ≤ publicKey x) ∧
      (SharedFixed session remotePubKey x ↔ 2 ^ 760 ≤ secret remotePubKey.toList x ∨
        secret remotePubKey.toList x = 0 ∧ Octets.number session.sharedKey.toList = 0) :=
  ⟨clientFixed_iff mem random rsa username hx, javaFixed_iff java hx,
    sharedFixed_iff session remotePubKey x⟩

/-- The modulus of which only the highest bit is set. -/
def someRsa : RsaModulus := ⟨2 ^ 1023, Nat.size_pow⟩

/-- The private key 1: its public key is 2. -/
theorem publicKey_one : publicKey 1 = 2 := by
  unfold publicKey
  decide +kernel

theorem keyFields_one : 1 < publicKey 1 ∧
    (ClientFixed (fun _ => 0) (Vector.replicate 16 0) someRsa [] 1 ↔ 2 ^ 760 ≤ publicKey 1) :=
  ⟨by decide +kernel, (keyFields_iff (fun _ => 0) (Vector.replicate 16 0) someRsa []
    (sessionInitClient (Vector.replicate 16 0) someRsa 1) (Vector.replicate 96 1)
    ⟨0, Vector.replicate 4 0, Vector.replicate 16 0, someRsa, []⟩ (by decide +kernel)).1⟩

theorem not_keyFields : ¬ ∀ (mem : Nat → UInt8) (random : Vector UInt8 16) (rsa : RsaModulus)
    (username : List UInt8) (session : Session) (remotePubKey : Vector UInt8 96)
    (java : JavaSession) (x : Nat), 1 < publicKey x →
    ClientFixed mem random rsa username x ∧ JavaFixed java x ∧
      SharedFixed session remotePubKey x := by
  intro h
  have hone : 1 < publicKey 1 := by decide +kernel
  have hfixed := (h (fun _ => 0) (Vector.replicate 16 0) someRsa []
    (sessionInitClient (Vector.replicate 16 0) someRsa 1) (Vector.replicate 96 1)
    ⟨0, Vector.replicate 4 0, Vector.replicate 16 0, someRsa, []⟩ 1 hone).2.1
  have hlarge := (javaFixed_iff _ hone).mp hfixed
  rw [publicKey_one] at hlarge
  exact absurd hlarge (by decide +kernel)

end Despotify.DhKey

import Despotify.Wire.DhKey
import Despotify.Wire.Digest
import Despotify.Wire.ShannonInterop

/-!
# Authentication

What a client does between the initial packet of the server and its own second packet: the
hash of the password, the keys made of it and of the secret, the puzzle and the MAC.  In C
`auth_generate_auth_hash`, `key_init` behind the secret, and `do_auth` up to the answer; in
Java `Session.authenticate`.

* `solves_iff`: a solution of the puzzle makes a number divisible by a power of two.
* `login_eq`: both clients send the same packet, and key their ciphers with the same keys.
-/

namespace Despotify.Login

open Fips180 (sha1 hmac)
open Sha1 (Sha1Ctx sha1Init sha1Update sha1Final sha1Hmac)
open Shannon (ShnCtx shnKey)
open DhKey (nameText)
open KeyExchange (ntohl)
open Lib (Buf)
open Java (Bytes ByteBuffer putShort putInt)

/-! ## The client in C -/

/-- The fields of `SESSION` that are read and written. -/
structure Session where
  clientRandom16 : Vector UInt8 16
  serverRandom16 : Vector UInt8 16
  password : Vector UInt8 256
  salt : Vector UInt8 10
  initClientPacket : Buf
  initServerPacket : Buf
  authHash : List UInt8
  sharedKey : Vector UInt8 96
  keyHmac : List UInt8
  keyRecv : List UInt8
  keySend : List UInt8
  keyRecvIV : UInt32
  keySendIV : UInt32
  shnRecv : ShnCtx
  shnSend : ShnCtx
  puzzleDenominator : UInt8
  puzzleSolution : List UInt8
  puzzleMagic : Int32
  authHmac : List UInt8

/-- `session_auth_set`, of the password. -/
def sessionAuthSet (session : Session) (password : List UInt8) : Session :=
  { session with password := Vector.ofFn fun i => (nameText password).getD i 0 }

section
-- a context on the stack, as the function that is called finds it
variable (ctx : Sha1Ctx)

def authGenerateAuthHash (session : Session) : Session :=
  let ctx := sha1Update (sha1Init ctx) session.salt.toList
  let ctx := sha1Update ctx [' '.toUInt8]
  let ctx := sha1Update ctx (session.password.toList.takeWhile (· ≠ 0))
  { session with authHash := (sha1Final ctx).1 }

/-- One HMAC of `key_init`, over the message and what is in `hmac_output` so far. -/
def keyRound (sharedKey : List UInt8) (s : List UInt8 × List UInt8) (i : Nat) :
    List UInt8 × List UInt8 :=
  let message := s.1.set 52 (UInt8.ofNat i)
  let hmac := sha1Hmac ctx sharedKey message
  (hmac ++ message.drop 20, s.2 ++ hmac)

/-- `key_init`, behind `DH_compute_key`; the last byte of the message is not set at first. -/
def keyInit (last : UInt8) (session : Session) : Session :=
  let message := session.authHash ++ session.clientRandom16.toList ++
    session.serverRandom16.toList ++ [last]
  let hmacOutput := ([1, 2, 3, 4, 5].foldl (keyRound ctx session.sharedKey.toList) (message, [])).2
  let keySend := (hmacOutput.drop 20).take 32
  let keyRecv := (hmacOutput.drop 52).take 32
  { session with
    keySend := keySend
    keyRecv := keyRecv
    shnSend := shnKey session.shnSend keySend
    shnRecv := shnKey session.shnRecv keyRecv
    keySendIV := 0
    keyRecvIV := 0
    keyHmac := hmacOutput.take 20 }

/-- What `puzzle_solve` computes of a solution, its last four bytes in network order; the
solution is good when no bit of it is left. -/
def nominator (session : Session) (solution : List UInt8) : UInt32 :=
  let ctx := sha1Update (sha1Init ctx) session.serverRandom16.toList
  let digest := (sha1Final (sha1Update ctx solution)).1
  let denominator := (1 <<< session.puzzleDenominator.toUInt32) - 1
  (ntohl (digest.getD 16 0) (digest.getD 17 0) (digest.getD 18 0) (digest.getD 19 0) ^^^
    session.puzzleMagic.toUInt32) &&& denominator

/-- `puzzle_solve`; `draws` is what `random` returns, eight bytes at a time. -/
def puzzleSolve (session : Session) : List (List UInt8) → Option Session
  | [] => none
  | solution :: draws =>
    let session := { session with puzzleSolution := solution }
    if nominator ctx session solution ≠ 0 then puzzleSolve session draws else some session

variable (mem : Nat → UInt8)

def authGenerateAuthHmac (session : Session) : Option Session := do
  let buf ← (Buf.new mem).appendAll mem [session.initClientPacket.data,
    session.initServerPacket.data, [0], [0], htons 8, htonl 0, session.puzzleSolution]
  return { session with authHmac := sha1Hmac ctx session.keyHmac buf.data }

/-- `send_client_auth`, up to the call of `send`. -/
def sendClientAuth (session : Session) : Option Buf :=
  (Buf.new mem).appendAll mem [session.authHmac, [0], [0], htons 8, htonl 0,
    session.puzzleSolution]

/-- The calls as `despotify_authenticate` makes them, and the packet. -/
def login (last : UInt8) (draws : List (List UInt8)) (session : Session) :
    Option (Session × List UInt8) := do
  let session := keyInit ctx last (authGenerateAuthHash ctx session)
  let session ← puzzleSolve ctx session draws
  let session ← authGenerateAuthHmac ctx mem session
  let buf ← sendClientAuth mem session
  return (session, buf.data)

end

/-! ## The client in Java -/

/-- The fields of `Session` that are read and written. -/
structure JavaSession where
  clientRandom : Bytes
  serverRandom : Bytes
  password : Bytes
  salt : Bytes
  authHash : Bytes
  dhSharedKey : Bytes
  keyHmac : Bytes
  authHmac : Bytes
  keyRecv : Bytes
  keySend : Bytes
  shannonSend : Java.Shannon
  shannonRecv : Java.Shannon
  puzzleDenominator : Int32
  puzzleMagic : Int32
  puzzleSolution : Bytes
  initialClientPacket : Bytes
  initialServerPacket : Bytes

/-- The array of a buffer that is allocated for the fields and filled with them. -/
def filled (capacity : Nat) (fields : List Bytes) : Option Bytes :=
  ((ByteBuffer.allocate capacity).putAll fields).map fun buffer =>
    buffer.bytes ++ List.replicate (buffer.capacity - buffer.bytes.length) 0

/-- `generateAuthHash`; `Hash.sha1` is that of the platform. -/
def generateAuthHash (session : JavaSession) : Option JavaSession := do
  let array ← filled (session.salt.length + 1 + session.password.length)
    [session.salt, [' '.toUInt8], session.password]
  return { session with authHash := sha1 array }

/-- One HMAC of `authenticate`: the message, the array of the outputs and the offset in it. -/
def javaRound (dhSharedKey : Bytes) (s : Bytes × Bytes × Nat) (i : Nat) : Bytes × Bytes × Nat :=
  let (bytes, output, offset) := s
  let bytes := bytes.set (bytes.length - 1) (UInt8.ofNat i)
  let output := output.take offset ++ hmac sha1 64 dhSharedKey bytes ++ output.drop (offset + 20)
  ((output.drop offset).take 20 ++ bytes.drop 20, output, offset + 20)

/-- `authenticate`, from the message to the keys. -/
def setKeys (session : JavaSession) : Option JavaSession := do
  let buffer ← (ByteBuffer.allocate (session.authHash.length + session.clientRandom.length +
    session.serverRandom.length + 1)).putAll
      [session.authHash, session.clientRandom, session.serverRandom, [0]]
  let (_, hmac, _) := [1, 2, 3, 4, 5].foldl (javaRound session.dhSharedKey)
    (buffer.bytes, List.replicate (5 * 20) 0, 0)
  let keySend := (hmac.drop 20).take 32
  let keyRecv := (hmac.drop 52).take 32
  return { session with
    keySend := keySend
    keyRecv := keyRecv
    shannonSend := session.shannonSend.key (Interop.ofBytes keySend)
    shannonRecv := session.shannonRecv.key (Interop.ofBytes keyRecv)
    keyHmac := hmac.take 20 }

/-- What `solvePuzzle` computes of a solution, in a `long`. -/
def javaNominator (session : JavaSession) (array : Bytes) : Int64 :=
  let digest := sha1 array
  let byte := fun i => Int32.ofInt (digest.getD i 0).toNat
  let denominator := ((1 : Int32) <<< session.puzzleDenominator).toInt64 - 1
  let nominatorFromHash := ((byte 16 <<< 24) ||| (byte 17 <<< 16) ||| (byte 18 <<< 8) |||
    byte 19).toInt64
  (nominatorFromHash ^^^ session.puzzleMagic.toInt64) &&& denominator

/-- `solvePuzzle`; `draws` is what `RandomBytes.randomBytes` returns. -/
def solvePuzzle (session : JavaSession) : List Bytes → Option JavaSession
  | [] => none
  | solution :: draws => do
    let session := { session with puzzleSolution := solution }
    let array ← filled (session.serverRandom.length + solution.length)
      [session.serverRandom, solution]
    if javaNominator session array ≠ 0 then solvePuzzle session draws else some session

def generateAuthHmac (session : JavaSession) : Option JavaSession := do
  let array ← filled (session.initialClientPacket.length + session.initialServerPacket.length +
      1 + 1 + 2 + 4 + 0 + session.puzzleSolution.length)
    [session.initialClientPacket, session.initialServerPacket, [0], [0],
      putShort session.puzzleSolution.length, putInt 0, session.puzzleSolution]
  return { session with authHmac := hmac sha1 64 session.keyHmac array }

/-- `sendAuthenticationPacket`, up to the sending: the bytes before the position. -/
def sendAuthenticationPacket (session : JavaSession) : Option Bytes :=
  ((ByteBuffer.allocate (20 + 1 + 1 + 4 + 2 + 15 + 8)).putAll [session.authHmac, [0], [0],
    putShort session.puzzleSolution.length, putInt 0, session.puzzleSolution]).map
      ByteBuffer.bytes

/-- `authenticate`, with the secret there, and the packet. -/
def authenticate (draws : List Bytes) (session : JavaSession) :
    Option (JavaSession × Bytes) := do
  let session ← generateAuthHash session
  let session ← setKeys session
  let session ← solvePuzzle session draws
  let session ← generateAuthHmac session
  let packet ← sendAuthenticationPacket session
  return (session, packet)

/-! ## The puzzle -/

/-- A number and the bits below a power of two. -/
theorem and_denominator (x : UInt32) {d : UInt32} (hd : d.toNat < 32) :
    x &&& ((1 <<< d) - 1) = 0 ↔ 2 ^ d.toNat ∣ x.toNat := by
  have hpow : 2 ^ d.toNat < 2 ^ 32 := Nat.pow_lt_pow_right (by omega) hd
  have hpos : 0 < 2 ^ d.toNat := Nat.two_pow_pos _
  have hshift : ((1 : UInt32) <<< d).toNat = 2 ^ d.toNat := by
    rw [UInt32.toNat_shiftLeft, Nat.mod_eq_of_lt hd, Nat.shiftLeft_eq]
    show 1 * 2 ^ d.toNat % 2 ^ 32 = _
    rw [Nat.one_mul, Nat.mod_eq_of_lt hpow]
  have hmask : (((1 : UInt32) <<< d) - 1).toNat = 2 ^ d.toNat - 1 := by
    rw [UInt32.toNat_sub_of_le, hshift]
    · rfl
    · rw [UInt32.le_iff_toNat_le, hshift]
      exact hpos
  rw [← UInt32.toNat_inj, UInt32.toNat_and, hmask, Nat.and_two_pow_sub_one_eq_mod]
  exact Nat.dvd_iff_mod_eq_zero.symm

theorem toNat_toInt64 (x : Int32) : x.toInt64.toBitVec.toNat =
    x.toUInt32.toNat + (if x.toBitVec.msb then 2 ^ 64 - 2 ^ 32 else 0) := by
  rw [Int32.toBitVec_toInt64, BitVec.toNat_signExtend]
  have hlt : x.toBitVec.toNat < 2 ^ 64 := x.toBitVec.isLt.trans (by omega)
  rw [BitVec.toNat_setWidth, Nat.mod_eq_of_lt hlt]
  rfl

/-- The same in Java, where the high half of a `long` is the sign. -/
theorem javaAnd_denominator (x : Int32) {d : Nat} (hd : d < 31) :
    x.toInt64 &&& (((1 : Int32) <<< Int32.ofNat d).toInt64 - 1) = 0 ↔
      2 ^ d ∣ x.toUInt32.toNat := by
  have hmask : ∀ d : Fin 31,
      (((1 : Int32) <<< Int32.ofNat d.1).toInt64 - 1).toBitVec.toNat = 2 ^ d.1 - 1 := by
    decide
  have hsign : 2 ^ d ∣ if x.toBitVec.msb then 2 ^ 64 - 2 ^ 32 else 0 := by
    split
    · have hhalf : 2 ^ d ∣ 2 ^ 32 := Nat.pow_dvd_pow 2 (by omega)
      exact Nat.dvd_trans hhalf (by decide)
    · exact Nat.dvd_zero _
  rw [← Int64.toBitVec_inj, Int64.toBitVec_and, ← BitVec.toNat_inj, BitVec.toNat_and,
    hmask ⟨d, hd⟩, Nat.and_two_pow_sub_one_eq_mod, toNat_toInt64, Nat.add_mod,
    Nat.mod_eq_zero_of_dvd hsign, Nat.add_zero, Nat.mod_mod]
  exact Nat.dvd_iff_mod_eq_zero.symm

/-- Shifted to the sign, the one takes the high half with it. -/
theorem javaAnd_denominator_sign (x : Int32) :
    x.toInt64 &&& (((1 : Int32) <<< Int32.ofNat 31).toInt64 - 1) = 0 ↔ x = 0 := by
  have hmask : ∀ i : Fin 64,
      (((1 : Int32) <<< Int32.ofNat 31).toInt64 - 1).toBitVec.getLsbD i.1 = decide (i.1 ≠ 31) := by
    decide
  constructor
  · intro h
    have hbit : ∀ i, (hi : i < 64) → i ≠ 31 →
        (x.toBitVec.signExtend 64).getLsbD i = false := by
      intro i hi hne
      have hand := congrArg (fun y : Int64 => y.toBitVec.getLsbD i) h
      simp only [Int64.toBitVec_and, BitVec.getLsbD_and, hmask ⟨i, hi⟩, decide_eq_true hne,
        Int32.toBitVec_toInt64, Bool.and_true] at hand
      exact hand.trans BitVec.getLsbD_zero
    have hmsb : x.toBitVec.msb = false := by
      have h40 := hbit 40 (by omega) (by omega)
      rwa [BitVec.getLsbD_signExtend, if_neg (by omega)] at h40
    rw [← Int32.toBitVec_inj]
    refine BitVec.eq_of_getLsbD_eq fun i hi => ?_
    rw [show (0 : Int32).toBitVec = 0#32 from rfl, BitVec.getLsbD_zero]
    by_cases hne : i = 31
    · subst hne
      rw [← hmsb]
      exact (BitVec.msb_eq_getLsbD_last _).symm
    · have hi' := hbit i (by omega) hne
      rwa [BitVec.getLsbD_signExtend, if_pos hi, decide_eq_true (by omega), Bool.true_and] at hi'
  · rintro rfl
    decide

/-- The number that a solution is to make divisible. -/
def puzzleNumber (serverRandom : List UInt8) (magic : Int32) (solution : List UInt8) : Nat :=
  let digest := sha1 (serverRandom ++ solution)
  (ntohl (digest.getD 16 0) (digest.getD 17 0) (digest.getD 18 0) (digest.getD 19 0) ^^^
    magic.toUInt32).toNat

theorem nominator_iff {ctx : Sha1Ctx} (hsize : ctx.buffer.length = 64) (session : Session)
    (hd : session.puzzleDenominator < 32) {solution : List UInt8} (h8 : solution.length = 8) :
    nominator ctx session solution = 0 ↔
      2 ^ session.puzzleDenominator.toNat ∣
        puzzleNumber session.serverRandom16.toList session.puzzleMagic solution := by
  have hrandom : session.serverRandom16.toList.length < 2 ^ 29 := by
    rw [Vector.length_toList]
    omega
  have hdigest := (Sha1.final_two hsize hrandom (show solution.length < 2 ^ 29 by omega)).1
  have hwidth : session.puzzleDenominator.toUInt32.toNat = session.puzzleDenominator.toNat :=
    UInt8.toNat_toUInt32 _
  rw [nominator, hdigest, and_denominator _ (by rw [hwidth]; exact hd), hwidth]
  rfl

theorem ntohl_eq_word (b0 b1 b2 b3 : UInt8) : ntohl b0 b1 b2 b3 = Word32.word b0 b1 b2 b3 := by
  have h0 := b0.toNat_lt
  have h1 := b1.toNat_lt
  have h2 := b2.toNat_lt
  have h3 := b3.toNat_lt
  rw [← UInt32.toNat_inj, Word32.toNat_word]
  simp only [ntohl, UInt32.toNat_add, UInt32.toNat_mul, UInt8.toNat_toUInt32]
  show (((b0.toNat * 256 % 2 ^ 32 + b1.toNat) % 2 ^ 32 * 256 % 2 ^ 32 + b2.toNat) % 2 ^ 32 * 256 %
    2 ^ 32 + b3.toNat) % 2 ^ 32 = _
  omega

/-- The bytes of a digest put together in an `int`. -/
theorem int_bytes (b0 b1 b2 b3 : UInt8) :
    ((Int32.ofInt b0.toNat <<< 24) ||| (Int32.ofInt b1.toNat <<< 16) |||
      (Int32.ofInt b2.toNat <<< 8) ||| Int32.ofInt b3.toNat).toUInt32 = ntohl b0 b1 b2 b3 := by
  have hint : ∀ b : UInt8, (Int32.ofInt b.toNat).toUInt32 = b.toUInt32 := by
    intro b
    rw [← UInt32.toNat_inj, UInt8.toNat_toUInt32]
    have hb := b.toNat_lt
    show (BitVec.ofInt 32 b.toNat).toNat = b.toNat
    rw [BitVec.ofInt_natCast, BitVec.toNat_ofNat, Nat.mod_eq_of_lt (by omega)]
  have hshift : ∀ (b : UInt8) (k : Nat), k = 0 ∨ k = 8 ∨ k = 16 ∨ k = 24 →
      (Int32.ofInt b.toNat <<< Int32.ofNat k).toUInt32 = b.toUInt32 <<< UInt32.ofNat k := by
    intro b k hk
    rw [Interop.toUInt32_shiftLeft _ hk, hint]
  rw [ntohl_eq_word, Word32.word, ← hint b3]
  have h24 := hshift b0 24 (by omega)
  have h16 := hshift b1 16 (by omega)
  have h8 := hshift b2 8 (by omega)
  show (_ <<< Int32.ofNat 24).toUInt32 ||| (_ <<< Int32.ofNat 16).toUInt32 |||
    (_ <<< Int32.ofNat 8).toUInt32 ||| _ = _
  rw [h24, h16, h8]
  rfl

/-- What is left of the digest in Java, sign and all. -/
theorem javaNominator_eq (session : JavaSession) (array : Bytes) : ∃ x : Int32,
    javaNominator session array =
      x.toInt64 &&& (((1 : Int32) <<< session.puzzleDenominator).toInt64 - 1) ∧
    x.toUInt32 = ntohl ((sha1 array).getD 16 0) ((sha1 array).getD 17 0) ((sha1 array).getD 18 0)
      ((sha1 array).getD 19 0) ^^^ session.puzzleMagic.toUInt32 := by
  refine ⟨(((Int32.ofInt ((sha1 array).getD 16 0).toNat <<< 24) |||
    (Int32.ofInt ((sha1 array).getD 17 0).toNat <<< 16) |||
    (Int32.ofInt ((sha1 array).getD 18 0).toNat <<< 8) |||
    Int32.ofInt ((sha1 array).getD 19 0).toNat) ^^^ session.puzzleMagic), ?_, ?_⟩
  · rw [javaNominator, Int32.toInt64_xor]
  · rw [← int_bytes]
    rfl

theorem javaNominator_iff (session : JavaSession) {d : Nat} (hd : d < 32)
    (hdenominator : session.puzzleDenominator = Int32.ofNat d) (solution : Bytes) :
    javaNominator session (session.serverRandom ++ solution) = 0 ↔
      (if d = 31 then 2 ^ 32 else 2 ^ d) ∣
        puzzleNumber session.serverRandom session.puzzleMagic solution := by
  obtain ⟨x, hx, hnumber⟩ := javaNominator_eq session (session.serverRandom ++ solution)
  have hnumber : x.toUInt32.toNat =
      puzzleNumber session.serverRandom session.puzzleMagic solution :=
    congrArg UInt32.toNat hnumber
  rw [hx, hdenominator, ← hnumber]
  split
  · subst d
    rw [javaAnd_denominator_sign, Nat.dvd_iff_mod_eq_zero, Nat.mod_eq_of_lt x.toUInt32.toNat_lt,
      ← UInt32.toNat_zero, UInt32.toNat_inj, ← Int32.toBitVec_inj, ← UInt32.toBitVec_inj]
    rfl
  · exact javaAnd_denominator x (by omega)

/-- **The puzzle**: both clients look for a number that a power of two divides.  When it is the
one whose `int` is negative, the client in Java asks for more. -/
theorem solves_iff {ctx : Sha1Ctx} (hsize : ctx.buffer.length = 64) (c : Session)
    (java : JavaSession) (hd : c.puzzleDenominator < 32)
    (hrandom : java.serverRandom = c.serverRandom16.toList)
    (hdenominator : java.puzzleDenominator = Int32.ofNat c.puzzleDenominator.toNat)
    (hmagic : java.puzzleMagic = c.puzzleMagic) {solution : List UInt8}
    (h8 : solution.length = 8) :
    (nominator ctx c solution = 0 ↔ 2 ^ c.puzzleDenominator.toNat ∣
        puzzleNumber c.serverRandom16.toList c.puzzleMagic solution) ∧
      (javaNominator java (java.serverRandom ++ solution) = 0 ↔
        (if c.puzzleDenominator = 31 then 2 ^ 32 else 2 ^ c.puzzleDenominator.toNat) ∣
          puzzleNumber c.serverRandom16.toList c.puzzleMagic solution) := by
  refine ⟨nominator_iff hsize c hd h8, ?_⟩
  have hjava := javaNominator_iff (d := c.puzzleDenominator.toNat) java hd hdenominator solution
  have h31 : c.puzzleDenominator = 31 ↔ c.puzzleDenominator.toNat = 31 := UInt8.toNat_inj.symm
  rw [hmagic, hrandom] at hjava
  rw [hrandom, if_congr h31 rfl rfl]
  exact hjava

/-- A context, as it may be found on the stack. -/
def anyCtx : Sha1Ctx := ⟨Vector.replicate 5 0, 0, 0, List.replicate 64 0⟩

/-- A session in which nothing but the denominator is set. -/
def someSession : Session where
  clientRandom16 := Vector.replicate 16 0
  serverRandom16 := Vector.replicate 16 0
  password := Vector.replicate 256 0
  salt := Vector.replicate 10 0
  initClientPacket := ⟨[3], 1⟩
  initServerPacket := ⟨[4], 1⟩
  authHash := []
  sharedKey := Vector.replicate 96 0
  keyHmac := []
  keyRecv := []
  keySend := []
  keyRecvIV := 0
  keySendIV := 0
  shnRecv := Interop.toC default
  shnSend := Interop.toC default
  puzzleDenominator := 9
  puzzleSolution := []
  puzzleMagic := 0
  authHmac := []

def someJavaSession : JavaSession where
  clientRandom := List.replicate 16 0
  serverRandom := List.replicate 16 0
  password := []
  salt := List.replicate 10 0
  authHash := []
  dhSharedKey := List.replicate 96 0
  keyHmac := []
  authHmac := []
  keyRecv := []
  keySend := []
  shannonSend := default
  shannonRecv := default
  puzzleDenominator := 9
  puzzleMagic := 0
  puzzleSolution := []
  initialClientPacket := [3]
  initialServerPacket := [4]

theorem solves_iff_some : (List.replicate 8 (1 : UInt8)).length = 8 ∧
    (nominator anyCtx someSession (List.replicate 8 1) = 0 ↔
        2 ^ 9 ∣ puzzleNumber (List.replicate 16 0) 0 (List.replicate 8 1)) ∧
      (javaNominator someJavaSession (List.replicate 16 0 ++ List.replicate 8 1) = 0 ↔
        (if (9 : UInt8) = 31 then 2 ^ 32 else 2 ^ 9) ∣
          puzzleNumber (List.replicate 16 0) 0 (List.replicate 8 1)) :=
  ⟨rfl, @solves_iff anyCtx rfl someSession someJavaSession (by decide) rfl rfl rfl _ rfl⟩

/-! ## The keys -/

/-- A string in an array, with zeros behind it. -/
theorem toList_ofFn_getD {n : Nat} {text : List UInt8} (h : text.length ≤ n) :
    (Vector.ofFn fun i : Fin n => text.getD i 0).toList =
      text ++ List.replicate (n - text.length) 0 := by
  refine List.ext_getElem ?_ fun i hi hi' => ?_
  · rw [Vector.length_toList, List.length_append, List.length_replicate]
    omega
  · rw [Vector.getElem_toList, Vector.getElem_ofFn]
    show text.getD i 0 = _
    by_cases hlt : i < text.length
    · rw [List.getElem_append_left hlt, List.getD_eq_getElem _ _ hlt]
    · rw [List.getElem_append_right (by omega), List.getElem_replicate,
        List.getD_eq_default _ _ (by omega)]

/-- The password, up to the zero behind it. -/
theorem password_sessionAuthSet (session : Session) (password : List UInt8) :
    (sessionAuthSet session password).password.toList.takeWhile (· ≠ 0) = nameText password := by
  have hle : (nameText password).length ≤ 255 := by
    rw [nameText, List.length_take]
    omega
  have hne : ∀ b ∈ nameText password, decide (b ≠ 0) = true := fun b hb =>
    List.all_eq_true.mp (List.all_takeWhile (l := password)) b (List.mem_of_mem_take hb)
  have hzeros : (List.replicate (256 - (nameText password).length) (0 : UInt8)).takeWhile
      (fun b => decide (b ≠ 0)) = [] := by
    rw [show 256 - (nameText password).length = 255 - (nameText password).length + 1 by omega,
      List.replicate_succ]
    rfl
  have harray : (sessionAuthSet session password).password.toList =
      nameText password ++ List.replicate (256 - (nameText password).length) 0 :=
    toList_ofFn_getD (n := 256) (by omega)
  rw [harray, List.takeWhile_append_of_pos hne, hzeros, List.append_nil]

theorem authHash_eq {ctx : Sha1Ctx} (hsize : ctx.buffer.length = 64) (session : Session) :
    (authGenerateAuthHash ctx session).authHash =
      sha1 (session.salt.toList ++ [' '.toUInt8] ++
        session.password.toList.takeWhile (· ≠ 0)) := by
  have hpassword : (session.password.toList.takeWhile (· ≠ 0)).length ≤ 256 := by
    refine (List.takeWhile_prefix _).length_le.trans ?_
    rw [Vector.length_toList]
  have hsalt : session.salt.toList.length < 2 ^ 29 := by
    rw [Vector.length_toList]
    omega
  have hspace : [' '.toUInt8].length < 2 ^ 29 := by decide
  exact ((((Sha1.held_init hsize).update hsalt).update hspace).update (by omega)).final.1

theorem length_hmac (key message : List UInt8) : (hmac sha1 64 key message).length = 20 :=
  Fips180.length_sha1 _

section
variable {shared message bytes output array : List UInt8} {offset i : Nat}

/-- The message of the one client and of the other, and what the HMACs have given so far. -/
structure SameRound (s : List UInt8 × List UInt8) (t : Bytes × Bytes × Nat) : Prop where
  length : s.1.length = 53 ∧ t.1.length = 53
  message : ∀ b, s.1.set 52 b = t.1.set 52 b
  offset : t.2.2 = s.2.length
  output : t.2.1.take t.2.2 = s.2

/-- One HMAC. -/
theorem SameRound.round {ctx : Sha1Ctx} (hsize : ctx.buffer.length = 64)
    (hshared : shared.length < 2 ^ 29) {s : List UInt8 × List UInt8} {t : Bytes × Bytes × Nat}
    (h : SameRound s t) (hroom : t.2.2 + 20 ≤ t.2.1.length) (i : Nat) :
    SameRound (keyRound ctx shared s i) (javaRound shared t i) ∧
      (javaRound shared t i).2.1.length = t.2.1.length ∧
      (javaRound shared t i).2.2 = t.2.2 + 20 := by
  obtain ⟨message, output⟩ := s
  obtain ⟨bytes, array, offset⟩ := t
  obtain ⟨⟨hmessage, hbytes⟩, hset, hoffset, htake⟩ := h
  dsimp only at hmessage hbytes hset hoffset htake hroom
  have hlast : bytes.length - 1 = 52 := by omega
  have hsame : sha1Hmac ctx shared (message.set 52 (UInt8.ofNat i)) =
      hmac sha1 64 shared (bytes.set 52 (UInt8.ofNat i)) := by
    rw [Sha1.sha1Hmac_eq hsize hshared (by rw [List.length_set]; omega), hset]
  have hlen := length_hmac shared (bytes.set 52 (UInt8.ofNat i))
  rw [keyRound, javaRound]
  dsimp only
  rw [hlast, hsame, hset]
  generalize hmac sha1 64 shared (bytes.set 52 (UInt8.ofNat i)) = mac at hlen
  have hfront : (array.take offset).length = offset := List.length_take_of_le (by omega)
  have harray : ((array.take offset ++ mac ++ array.drop (offset + 20)).drop offset).take 20 =
      mac := by
    rw [List.append_assoc, List.drop_left' hfront, List.take_left' hlen]
  rw [harray]
  refine ⟨⟨⟨?_, ?_⟩, fun b => rfl, ?_, ?_⟩, ?_, rfl⟩
  · rw [List.length_append, hlen, List.length_drop, List.length_set, hbytes]
  · rw [List.length_append, hlen, List.length_drop, List.length_set, hbytes]
  · rw [List.length_append, hlen, hoffset]
  · rw [List.take_left' (by rw [List.length_append, hfront, hlen]), htake]
  · simp only [List.length_append, hfront, hlen, List.length_drop]
    omega

/-- All of them, by induction on the rounds. -/
theorem SameRound.rounds {ctx : Sha1Ctx} (hsize : ctx.buffer.length = 64)
    (hshared : shared.length < 2 ^ 29) {rounds : List Nat} {s : List UInt8 × List UInt8}
    {t : Bytes × Bytes × Nat} (h : SameRound s t)
    (hroom : t.2.1.length = t.2.2 + 20 * rounds.length) :
    (rounds.foldl (javaRound shared) t).2.1 = (rounds.foldl (keyRound ctx shared) s).2 := by
  induction rounds generalizing s t with
  | nil =>
    have hall := h.output
    rwa [List.take_of_length_le (by rw [hroom]; exact Nat.le_refl _)] at hall
  | cons i rounds ih =>
    rw [List.length_cons] at hroom
    obtain ⟨hround, hlength, hoffset⟩ := h.round hsize hshared (by omega) i
    exact ih hround (by omega)

end

/-! ## The packet -/

/-- What the clients have drawn and read, and the secret, is the same. -/
structure Same (c : Session) (java : JavaSession) : Prop where
  clientRandom : java.clientRandom = c.clientRandom16.toList
  serverRandom : java.serverRandom = c.serverRandom16.toList
  salt : java.salt = c.salt.toList
  sharedKey : java.dhSharedKey = c.sharedKey.toList
  clientPacket : java.initialClientPacket = c.initClientPacket.data
  serverPacket : java.initialServerPacket = c.initServerPacket.data
  shnSend : Interop.toC java.shannonSend = c.shnSend
  shnRecv : Interop.toC java.shannonRecv = c.shnRecv
  denominator : java.puzzleDenominator = Int32.ofNat c.puzzleDenominator.toNat
  magic : java.puzzleMagic = c.puzzleMagic

/-- What a login comes to. -/
structure Outcome where
  packet : List UInt8
  keyHmac : List UInt8
  keySend : List UInt8
  keyRecv : List UInt8
  shnSend : ShnCtx
  shnRecv : ShnCtx

def Session.outcome (session : Session) (packet : List UInt8) : Outcome :=
  ⟨packet, session.keyHmac, session.keySend, session.keyRecv, session.shnSend, session.shnRecv⟩

def JavaSession.outcome (session : JavaSession) (packet : Bytes) : Outcome :=
  ⟨packet, session.keyHmac, session.keySend, session.keyRecv, Interop.toC session.shannonSend,
    Interop.toC session.shannonRecv⟩

/-- The same, and the keys as well. -/
structure Keyed (c : Session) (java : JavaSession) : Prop extends Same c java where
  keyHmac : java.keyHmac = c.keyHmac
  keySend : java.keySend = c.keySend
  keyRecv : java.keyRecv = c.keyRecv
  length : c.keyHmac.length ≤ 20

theorem filled_some {capacity : Nat} {fields : List Bytes} (h : fields.flatten.length = capacity) :
    filled capacity fields = some fields.flatten := by
  obtain ⟨buffer, hbuffer, hbytes⟩ := @ByteBuffer.putAll_some (ByteBuffer.allocate capacity) fields
    (by
      show 0 + _ ≤ capacity
      omega)
  have hcapacity := (ByteBuffer.of_putAll hbuffer).1
  have hbytes : buffer.bytes = fields.flatten := hbytes
  have hcapacity : buffer.capacity = capacity := hcapacity
  rw [filled, hbuffer, Option.map_some, hbytes, hcapacity, h, Nat.sub_self, List.replicate_zero,
    List.append_nil]

section
variable {ctx : Sha1Ctx} {mem : Nat → UInt8} {c : Session} {java : JavaSession}

theorem Same.hashed (h : Same c java) (hsize : ctx.buffer.length = 64)
    (hpassword : java.password = c.password.toList.takeWhile (· ≠ 0)) :
    ∃ java', generateAuthHash java = some java' ∧ Same (authGenerateAuthHash ctx c) java' ∧
      java'.authHash = (authGenerateAuthHash ctx c).authHash := by
  have hcapacity : [java.salt, [' '.toUInt8], java.password].flatten.length =
      java.salt.length + 1 + java.password.length := by
    simp only [List.flatten_cons, List.flatten_nil, List.length_append, List.length_singleton,
      List.length_nil]
    omega
  have hfilled := filled_some hcapacity
  have hflat : [java.salt, [' '.toUInt8], java.password].flatten =
      c.salt.toList ++ [' '.toUInt8] ++ c.password.toList.takeWhile (· ≠ 0) := by
    rw [List.flatten_cons, List.flatten_cons, List.flatten_cons, List.flatten_nil, List.append_nil,
      h.salt, hpassword, List.append_assoc]
  refine ⟨{ java with authHash := sha1 [java.salt, [' '.toUInt8], java.password].flatten }, ?_,
    { h with }, ?_⟩
  · rw [generateAuthHash, hfilled]
    rfl
  · rw [authHash_eq hsize, ← hflat]

/-- The keys of the ciphers are the same. -/
theorem Same.keyed (h : Same c java) (hsize : ctx.buffer.length = 64)
    (hhash : java.authHash = c.authHash) (h20 : c.authHash.length = 20) (last : UInt8) :
    ∃ java', setKeys java = some java' ∧ Keyed (keyInit ctx last c) java' := by
  obtain ⟨buffer, hbuffer, hbytes⟩ := @ByteBuffer.putAll_some
    (ByteBuffer.allocate (java.authHash.length + java.clientRandom.length +
      java.serverRandom.length + 1)) [java.authHash, java.clientRandom, java.serverRandom, [0]] (by
      simp only [ByteBuffer.allocate, List.flatten_cons, List.flatten_nil, List.length_append,
        List.length_singleton, List.length_nil]
      omega)
  have hbytes : buffer.bytes =
      c.authHash ++ c.clientRandom16.toList ++ c.serverRandom16.toList ++ [0] := by
    rw [hbytes, ← hhash, ← h.clientRandom, ← h.serverRandom]
    simp [ByteBuffer.allocate]
  have hfront : (c.authHash ++ c.clientRandom16.toList ++ c.serverRandom16.toList).length = 52 := by
    rw [List.length_append, List.length_append, h20, Vector.length_toList, Vector.length_toList]
  have hset : ∀ (front : List UInt8) (b x : UInt8), front.length = 52 →
      (front ++ [b]).set 52 x = front ++ [x] := by
    intro front b x hfront
    rw [List.set_append_right _ _ (by omega), hfront]
    rfl
  have hround : SameRound
      (c.authHash ++ c.clientRandom16.toList ++ c.serverRandom16.toList ++ [last], [])
      (buffer.bytes, List.replicate (5 * 20) 0, 0) := by
    rw [hbytes]
    refine ⟨⟨?_, ?_⟩, ?_, rfl, rfl⟩
    · rw [List.length_append, hfront, List.length_singleton]
    · rw [List.length_append, hfront, List.length_singleton]
    · intro b
      dsimp only
      rw [hset _ _ _ hfront, hset _ _ _ hfront]
  have houtput : ([1, 2, 3, 4, 5].foldl (javaRound java.dhSharedKey)
      (buffer.bytes, List.replicate (5 * 20) 0, 0)).2.1 =
      ([1, 2, 3, 4, 5].foldl (keyRound ctx c.sharedKey.toList)
        (c.authHash ++ c.clientRandom16.toList ++ c.serverRandom16.toList ++ [last], [])).2 := by
    rw [h.sharedKey]
    exact hround.rounds hsize (by rw [Vector.length_toList]; omega) rfl
  have hkey : ∀ (shannon : Java.Shannon) (shn : ShnCtx) (key : List UInt8),
      Interop.toC shannon = shn →
        Interop.toC (shannon.key (Interop.ofBytes key)) = shnKey shn key := by
    intro shannon shn key hshn
    rw [Interop.toC_key, hshn, Interop.bytes_ofBytes]
  rw [setKeys, hbuffer, keyInit]
  dsimp only [Option.bind_eq_bind, Option.bind_some]
  generalize [1, 2, 3, 4, 5].foldl (javaRound java.dhSharedKey)
    (buffer.bytes, List.replicate (5 * 20) 0, 0) = t at houtput ⊢
  generalize ([1, 2, 3, 4, 5].foldl (keyRound ctx c.sharedKey.toList)
    (c.authHash ++ c.clientRandom16.toList ++ c.serverRandom16.toList ++ [last], [])).2 = s
    at houtput ⊢
  refine ⟨_, rfl, { h with
    shnSend := ?_
    shnRecv := ?_
    keyHmac := ?_
    keySend := ?_
    keyRecv := ?_
    length := List.length_take_le 20 _ }⟩
  · rw [houtput]
    exact hkey _ _ _ h.shnSend
  · rw [houtput]
    exact hkey _ _ _ h.shnRecv
  · rw [houtput]
  · rw [houtput]
  · rw [houtput]

theorem Keyed.solved (h : Keyed c java) (hsize : ctx.buffer.length = 64)
    (hd : c.puzzleDenominator < 31) {draws : List (List UInt8)}
    (hdraws : ∀ solution ∈ draws, solution.length = 8) :
    puzzleSolve ctx c draws = none ∧ solvePuzzle java draws = none ∨
      ∃ c' java', puzzleSolve ctx c draws = some c' ∧ solvePuzzle java draws = some java' ∧
        Keyed c' java' ∧ java'.puzzleSolution = c'.puzzleSolution ∧
        c'.puzzleSolution.length = 8 ∧ c'.initClientPacket = c.initClientPacket ∧
        c'.initServerPacket = c.initServerPacket := by
  induction draws generalizing c java with
  | nil => exact Or.inl ⟨rfl, rfl⟩
  | cons solution draws ih =>
    have h8 := hdraws solution List.mem_cons_self
    have hcapacity : [java.serverRandom, solution].flatten.length =
        java.serverRandom.length + solution.length := by
      simp only [List.flatten_cons, List.flatten_nil, List.length_append, List.length_nil]
      omega
    have hfilled := filled_some hcapacity
    have hflat : [java.serverRandom, solution].flatten = java.serverRandom ++ solution := by
      rw [List.flatten_cons, List.flatten_cons, List.flatten_nil, List.append_nil]
    rw [hflat] at hfilled
    have h31 : c.puzzleDenominator.toNat < 31 := UInt8.lt_iff_toNat_lt.mp hd
    have hnominator := nominator_iff hsize c (by grind) h8
    have hjava := javaNominator_iff java (by omega) h.denominator solution
    rw [if_neg (by omega), h.magic, h.serverRandom, ← hnominator, ← h.serverRandom] at hjava
    have hnext : ∀ session : Session, nominator ctx { session with puzzleSolution := solution }
        solution = nominator ctx session solution := fun _ => rfl
    have hjavaNext : ∀ array : Bytes, javaNominator { java with puzzleSolution := solution } array =
        javaNominator java array := fun _ => rfl
    rw [puzzleSolve, solvePuzzle]
    simp only [hfilled, Option.bind_eq_bind, Option.bind_some, hnext, hjavaNext]
    by_cases hgood : nominator ctx c solution = 0
    · rw [if_neg (not_not_intro hgood), if_neg (not_not_intro (hjava.mpr hgood))]
      exact Or.inr ⟨_, _, rfl, rfl, { h with }, rfl, h8, rfl, rfl⟩
    · rw [if_pos hgood, if_pos (mt hjava.mp hgood)]
      exact ih { h with } hd fun s hs => hdraws s (List.mem_cons_of_mem _ hs)

/-- The MAC and the packet, once the puzzle is solved. -/
theorem Keyed.sent (h : Keyed c java) (hsize : ctx.buffer.length = 64)
    (hsolution : java.puzzleSolution = c.puzzleSolution) (h8 : c.puzzleSolution.length = 8)
    (hlen : c.initClientPacket.data.length + c.initServerPacket.data.length ≤ 2 ^ 28) :
    ∃ c' java' buf, authGenerateAuthHmac ctx mem c = some c' ∧
      sendClientAuth mem c' = some buf ∧ generateAuthHmac java = some java' ∧
      sendAuthenticationPacket java' = some buf.data ∧
      c'.outcome buf.data = java'.outcome buf.data := by
  have hshort : putShort java.puzzleSolution.length = htons 8 := by rw [hsolution, h8]; rfl
  obtain ⟨buf1, hbuf1, -, -, hdata1⟩ := @Buf.appendAll_some mem (Buf.new mem) Buf.sound_new
    [c.initClientPacket.data, c.initServerPacket.data, [0], [0], htons 8, htonl 0,
      c.puzzleSolution] (by
        simp [Buf.new, htons, htonl, h8]
        omega)
  have hfields : [java.initialClientPacket, java.initialServerPacket, [0], [0],
      putShort java.puzzleSolution.length, putInt 0, java.puzzleSolution] =
      [c.initClientPacket.data, c.initServerPacket.data, [0], [0], htons 8, htonl 0,
        c.puzzleSolution] := by
    rw [hshort, h.clientPacket, h.serverPacket, hsolution]
    rfl
  have hcapacity : [java.initialClientPacket, java.initialServerPacket, [0], [0],
      putShort java.puzzleSolution.length, putInt 0, java.puzzleSolution].flatten.length =
      java.initialClientPacket.length + java.initialServerPacket.length + 1 + 1 + 2 + 4 + 0 +
        java.puzzleSolution.length := by
    rw [hfields, h.clientPacket, h.serverPacket, hsolution]
    simp [htons, htonl]
    omega
  have hfilled := filled_some hcapacity
  rw [hfields] at hfilled
  rw [Buf.data_new, List.nil_append] at hdata1
  have hhmac : sha1Hmac ctx c.keyHmac buf1.data = hmac sha1 64 java.keyHmac buf1.data := by
    have hkey := h.length
    rw [Sha1.sha1Hmac_eq hsize (by omega), h.keyHmac]
    rw [hdata1]
    simp [htons, htonl, h8]
    omega
  have hmac20 := length_hmac java.keyHmac buf1.data
  have hjava : generateAuthHmac java =
      some { java with authHmac := hmac sha1 64 java.keyHmac buf1.data } := by
    rw [generateAuthHmac, hfields, hfilled, hdata1]
    rfl
  generalize hmac sha1 64 java.keyHmac buf1.data = mac at hhmac hmac20 hjava
  obtain ⟨buf, hbuf, -, -, hdata⟩ := @Buf.appendAll_some mem (Buf.new mem) Buf.sound_new
    [mac, [0], [0], htons 8, htonl 0, c.puzzleSolution] (by
      simp [Buf.new, htons, htonl, h8, hmac20])
  obtain ⟨buffer, hbuffer, hbytes⟩ := @ByteBuffer.putAll_some
    (ByteBuffer.allocate (20 + 1 + 1 + 4 + 2 + 15 + 8))
    [mac, [0], [0], htons 8, htonl 0, c.puzzleSolution] (by
      simp [ByteBuffer.allocate, htons, htonl, h8, hmac20])
  have hbytes : buffer.bytes = buf.data := hbytes.trans hdata.symm
  refine ⟨{ c with authHmac := mac }, { java with authHmac := mac }, buf, ?_, hbuf, hjava, ?_, ?_⟩
  · rw [authGenerateAuthHmac, hbuf1, ← hhmac]
    rfl
  · rw [sendAuthenticationPacket]
    dsimp only
    rw [hshort, hsolution, ← hbytes]
    exact congrArg (Option.map ByteBuffer.bytes) hbuffer
  · rw [Session.outcome, JavaSession.outcome, h.keyHmac, h.keySend, h.keyRecv, h.shnSend,
      h.shnRecv]

end

/-- What is read of the server stays as it is. -/
theorem session_kept (ctx : Sha1Ctx) (last : UInt8) (session : Session) (password : List UInt8) :
    let keyed := keyInit ctx last (authGenerateAuthHash ctx (sessionAuthSet session password))
    keyed.puzzleDenominator = session.puzzleDenominator ∧
      keyed.initClientPacket = session.initClientPacket ∧
      keyed.initServerPacket = session.initServerPacket := by
  unfold keyInit authGenerateAuthHash sessionAuthSet
  exact ⟨rfl, rfl, rfl⟩

/-- **A login**: with the same transcript, secret, password and candidates for the puzzle, both
clients send the same packet and key their ciphers alike. -/
theorem login_eq {ctx : Sha1Ctx} (hsize : ctx.buffer.length = 64) (mem : Nat → UInt8)
    {c : Session} {java : JavaSession} (h : Same c java) (hd : c.puzzleDenominator < 31)
    (hlen : c.initClientPacket.data.length + c.initServerPacket.data.length ≤ 2 ^ 28)
    {password : List UInt8} (hfits : nameText password = password)
    {draws : List (List UInt8)} (hdraws : ∀ solution ∈ draws, solution.length = 8)
    (last : UInt8) :
    (login ctx mem last draws (sessionAuthSet c password)).map (fun r => r.1.outcome r.2) =
      (authenticate draws { java with password := password }).map fun r => r.1.outcome r.2 := by
  have hset : Same (sessionAuthSet c password) { java with password := password } := by
    unfold sessionAuthSet
    generalize (Vector.ofFn fun i : Fin 256 => (nameText password).getD i 0) = array
    exact { h with }
  have hpassword := password_sessionAuthSet c password
  rw [hfits] at hpassword
  obtain ⟨java1, hjava1, hsame, hhash⟩ := hset.hashed hsize hpassword.symm
  have h20 : (authGenerateAuthHash ctx (sessionAuthSet c password)).authHash.length = 20 := by
    rw [authHash_eq hsize, Fips180.length_sha1]
  obtain ⟨java2, hjava2, hkeyed⟩ := hsame.keyed hsize hhash h20 last
  obtain ⟨hdenominator, hfirst, hsecond⟩ := session_kept ctx last c password
  rw [← hdenominator] at hd
  rw [← hfirst, ← hsecond] at hlen
  rw [login, authenticate, hjava1]
  simp only [Option.bind_eq_bind, Option.bind_some, hjava2]
  rcases hkeyed.solved hsize hd hdraws with ⟨hnone, hjava⟩ |
    ⟨c', java', hc, hjava, hsolved, hsolution, h8, hclient, hserver⟩
  · rw [hnone, hjava]
    rfl
  · obtain ⟨c'', java'', buf, hhmac, hsend, hjavaHmac, hjavaSend, hsame⟩ :=
      @Keyed.sent ctx mem c' java' hsolved hsize hsolution h8 (by rw [hclient, hserver]; exact hlen)
    rw [hc, hjava]
    simp only [Option.bind_some, hhmac, hsend, hjavaHmac, hjavaSend, Option.pure_def,
      Option.map_some, hsame]

theorem same_some : Same someSession someJavaSession := by
  constructor <;> rfl

theorem login_eq_some : Same someSession someJavaSession ∧
    (login anyCtx (fun _ => 0) 0 [List.replicate 8 1]
      (sessionAuthSet someSession [112, 119])).map (fun r => r.1.outcome r.2) =
      (authenticate [List.replicate 8 1] { someJavaSession with password := [112, 119] }).map
        fun r => r.1.outcome r.2 :=
  ⟨same_some, @login_eq anyCtx rfl (fun _ => 0) _ _ same_some (by decide) (by decide) _ (by decide)
    _ (by decide) 0⟩

end Despotify.Login

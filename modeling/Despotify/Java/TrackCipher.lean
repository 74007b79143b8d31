import Despotify.Java.ChannelPlayer
import Despotify.Player.Pairing
import Despotify.Wire.RijndaelSchedule

/-!
# The cipher of a track

The library's player and the gateway encrypt the counters with `lib/aes.c`, the Java player has
the platform do it.

* `encrypt128_eq`: all three have the keystream of AES in counter mode.
* `content_back`: they make the bytes of a track again of what the server sends of it.
* `always_delivered`: what the library's player pushes in a run is the content of its track.
-/

namespace Despotify.Java

open Player (Env Ds Cell Buffer Sys handedOn ivAt fileByte plainAt plainRun lastStart decryptedCell)
open Rijndael (rijndaelKeySetupEnc rijndaelEncrypt)

/-! ## The server's side -/

/-- Byte `f` of the keystream: AES with a key of 128 bits, the counter one higher for every 16
bytes. -/
def keystream (key : Bytes) (f : Nat) : UInt8 := (Fips197.aes 4 key (ivAt (f / 16))).getD (f % 16) 0

/-- A track as it is sent: encrypted, every 1024 bytes in four runs of 256. -/
def served (key content : Bytes) : Bytes :=
  (List.range content.length).map fun p =>
    let f := 1024 * (p / 1024) + 4 * (p % 256) + p % 1024 / 256
    content.getD f 0 ^^^ keystream key f

/-! ## The players' side -/

/-- `rijndaelKeySetupEnc` once, then `rijndaelEncrypt` on a counter. -/
def encrypt128 (key block : Bytes) (j : Nat) : UInt8 :=
  (rijndaelEncrypt (rijndaelKeySetupEnc key 128).1 10 block).getD j 0

/-- The library's player, its keys and the server. -/
def trackEnv (key : Player.Track → Bytes) (content : Player.Track → Nat → UInt8) : Env (List UInt32) where
  key := key
  cipher t f := content t f ^^^ keystream (key t) f
  keySetup key := (rijndaelKeySetupEnc key 128).1
  encrypt rk block j := (rijndaelEncrypt rk 10 block).getD j 0

/-- The `Cipher` of the Java platform. -/
def platform : Aes := fun key block j => (Fips197.aes 4 key block).getD j 0

theorem encrypt128_eq (key block : Bytes) (j : Nat) :
    encrypt128 key block j = platform key block j := by
  have h : (rijndaelKeySetupEnc key 128).1 = _ :=
    congrArg Prod.fst (Rijndael.keySetupEnc_eq (Or.inl rfl) key)
  rw [encrypt128, h, platform]
  exact congrArg (·.getD j 0) (Rijndael.encrypt_front (Or.inl rfl) key block)

/-- What is served comes back in file order, each byte xored with that of the keystream. -/
theorem plainAt_served {E : Bytes → Nat → UInt8} (key : Bytes) {content : Bytes}
    (hE : ∀ f, E (ivAt (f / 16)) (f % 16) = keystream key f) (hwhole : content.length % 1024 = 0) :
    plainAt E 0 (served key content) = content := by
  have hlength : (served key content).length = content.length := by
    rw [served, List.length_map, List.length_range]
  refine List.ext_getElem (by rw [plainAt, List.length_map, List.length_range, hlength]) ?_
  intro f hf hf'
  have hp : 1024 * (f / 1024) + (256 * (f % 4) + f % 1024 / 4) < content.length := by omega
  have hblock : (1024 * (f / 1024) + (256 * (f % 4) + f % 1024 / 4)) / 1024 = f / 1024 := by omega
  have hrun : (1024 * (f / 1024) + (256 * (f % 4) + f % 1024 / 4)) % 256 = f % 1024 / 4 := by omega
  have hmod : (1024 * (f / 1024) + (256 * (f % 4) + f % 1024 / 4)) % 1024 =
      256 * (f % 4) + f % 1024 / 4 := by
    omega
  have hwhich : (256 * (f % 4) + f % 1024 / 4) / 256 = f % 4 := by omega
  have hback : 1024 * (f / 1024) + 4 * (f % 1024 / 4) + f % 4 = f := by omega
  have hbyte : fileByte (served key content) f = content[f] ^^^ keystream key f := by
    rw [fileByte, List.getD_eq_getElem _ _ (by omega)]
    simp only [served, List.getElem_map, List.getElem_range]
    rw [hblock, hrun, hmod, hwhich, hback, List.getD_eq_getElem _ _ hf']
  simp only [plainAt, List.getElem_map, List.getElem_range]
  rw [hbyte, Nat.zero_add, hE, UInt8.xor_assoc, UInt8.xor_self, UInt8.xor_zero]

/-- Every byte pushed is one of the content of the track started last. -/
def Delivered (content : Player.Track → Nat → UInt8) : List Buffer → Prop
  | [] => True
  | .data bytes _ :: rest =>
    (∃ t, lastStart rest = some t ∧ ∀ c ∈ bytes, ∃ f, c = ⟨some (t, f), content t f⟩) ∧
      Delivered content rest
  | .start _ _ :: rest | .ended :: rest => Delivered content rest

section
variable {key : Player.Track → Bytes} {content : Player.Track → Nat → UInt8}

/-- Decrypted with its own key, a byte is that of the track. -/
theorem decryptedCell_content (t : Player.Track) (f : Nat) :
    decryptedCell (trackEnv key content) ((trackEnv key content).keySetup (key t)) t f =
      ⟨some (t, f), content t f⟩ := by
  have hours : (trackEnv key content).encrypt ((trackEnv key content).keySetup (key t))
      (ivAt (f / 16)) (f % 16) = keystream (key t) f := encrypt128_eq (key t) _ _
  rw [decryptedCell, hours]
  show Cell.mk _ (content t f ^^^ keystream (key t) f ^^^ keystream (key t) f) = _
  rw [UInt8.xor_assoc, UInt8.xor_self, UInt8.xor_zero]

theorem Delivered.of_paired {bufs : List Buffer} (h : Player.Paired (trackEnv key content) bufs) :
    Delivered content bufs := by
  induction bufs with
  | nil => trivial
  | cons b rest ih =>
    cases b with
    | data bytes len =>
      obtain ⟨⟨t, ht, hcells⟩, hrest⟩ := h
      refine ⟨⟨t, ht, fun c hc => ?_⟩, ih hrest⟩
      obtain ⟨f, hf⟩ := hcells c hc
      exact ⟨f, hf.trans (decryptedCell_content t f)⟩
    | start t n => exact ih h
    | ended => exact ih h

end

end Despotify.Java

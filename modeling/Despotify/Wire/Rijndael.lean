import Despotify.Wire.RijndaelTables
import Mathlib.Tactic.FinCases

/-!
# The cipher of `lib/aes.c`

`rijndaelKeySetupEnc`, `rijndaelKeySetupDec`, `rijndaelEncrypt` and `rijndaelDecrypt`, the
tables doing the work of a round, with the loop that is not unrolled.

* `rijndaelEncrypt_eq`: a block is encrypted as FIPS 197 has it, for all three sizes of a key.
* `rijndaelDecrypt_rijndaelEncrypt`: and decrypted again.
-/

namespace Despotify.Rijndael

open Fips197 (Col State sbox invSbox encrypts decrypts schedule roundKey keyWords)
open Word32 (word)

/-! ## The source -/

def rcon : List UInt32 := [
  0x01000000, 0x02000000, 0x04000000, 0x08000000, 0x10000000, 0x20000000, 0x40000000, 0x80000000,
  0x1B000000, 0x36000000]

/-- `GETU32 (pt + i)`. -/
def getU32 (pt : List UInt8) (i : Nat) : UInt32 :=
  ((pt.getD i 0).toUInt32 <<< 24) ^^^ ((pt.getD (i + 1) 0).toUInt32 <<< 16) ^^^
    ((pt.getD (i + 2) 0).toUInt32 <<< 8) ^^^ (pt.getD (i + 3) 0).toUInt32

/-- `PUTU32 (ct, st)`. -/
def putU32 (st : UInt32) : List UInt8 :=
  [(st >>> 24).toUInt8, (st >>> 16).toUInt8, (st >>> 8).toUInt8, st.toUInt8]

/-- An entry of a table. -/
def entry (table : List UInt32) (i : UInt32) : UInt32 := table.getD i.toNat 0

/-- A byte of an entry. -/
def masked (table : List UInt32) (i mask : UInt32) : UInt32 := entry table i &&& mask

/-- The entries for the bytes of `temp` from the second one on, and a constant. -/
def rotated (temp rcon : UInt32) : UInt32 :=
  masked te4 ((temp >>> 16) &&& 0xff) 0xff000000 ^^^
    masked te4 ((temp >>> 8) &&& 0xff) 0x00ff0000 ^^^
    masked te4 (temp &&& 0xff) 0x0000ff00 ^^^
    masked te4 (temp >>> 24) 0x000000ff ^^^ rcon

/-- The entries for the bytes of `temp`. -/
def unrotated (temp : UInt32) : UInt32 :=
  masked te4 (temp >>> 24) 0xff000000 ^^^
    masked te4 ((temp >>> 16) &&& 0xff) 0x00ff0000 ^^^
    masked te4 ((temp >>> 8) &&& 0xff) 0x0000ff00 ^^^
    masked te4 (temp &&& 0xff) 0x000000ff

/-- The loop of `rijndaelKeySetupEnc` for 128 bits, in round `i`: `rk` has come to `4 * i`. -/
def expand128 (rk : List UInt32) (i : Nat) : List UInt32 :=
  let o := 4 * i
  let r4 := rk.getD o 0 ^^^ rotated (rk.getD (o + 3) 0) (rcon.getD i 0)
  let r5 := rk.getD (o + 1) 0 ^^^ r4
  let r6 := rk.getD (o + 2) 0 ^^^ r5
  let r7 := rk.getD (o + 3) 0 ^^^ r6
  rk ++ [r4, r5, r6, r7]

/-- For 192 bits; the last round ends early. -/
def expand192 (rk : List UInt32) (i : Nat) : List UInt32 :=
  let o := 6 * i
  let r6 := rk.getD o 0 ^^^ rotated (rk.getD (o + 5) 0) (rcon.getD i 0)
  let r7 := rk.getD (o + 1) 0 ^^^ r6
  let r8 := rk.getD (o + 2) 0 ^^^ r7
  let r9 := rk.getD (o + 3) 0 ^^^ r8
  let r10 := rk.getD (o + 4) 0 ^^^ r9
  let r11 := rk.getD (o + 5) 0 ^^^ r10
  if i + 1 = 8 then rk ++ [r6, r7, r8, r9] else rk ++ [r6, r7, r8, r9, r10, r11]

/-- For 256 bits. -/
def expand256 (rk : List UInt32) (i : Nat) : List UInt32 :=
  let o := 8 * i
  let r8 := rk.getD o 0 ^^^ rotated (rk.getD (o + 7) 0) (rcon.getD i 0)
  let r9 := rk.getD (o + 1) 0 ^^^ r8
  let r10 := rk.getD (o + 2) 0 ^^^ r9
  let r11 := rk.getD (o + 3) 0 ^^^ r10
  let r12 := rk.getD (o + 4) 0 ^^^ unrotated r11
  let r13 := rk.getD (o + 5) 0 ^^^ r12
  let r14 := rk.getD (o + 6) 0 ^^^ r13
  let r15 := rk.getD (o + 7) 0 ^^^ r14
  if i + 1 = 7 then rk ++ [r8, r9, r10, r11]
  else rk ++ [r8, r9, r10, r11, r12, r13, r14, r15]

/-- The words of the key that are read: four, six or eight. -/
def keyWordsRead (cipherKey : List UInt8) (n : Nat) : List UInt32 :=
  (List.range n).map fun i => getU32 cipherKey (4 * i)

/-- The schedule, and the number of rounds; 0 for another size of the key. -/
def rijndaelKeySetupEnc (cipherKey : List UInt8) (keyBits : Nat) : List UInt32 × Nat :=
  if keyBits = 128 then ((List.range 10).foldl expand128 (keyWordsRead cipherKey 4), 10)
  else if keyBits = 192 then ((List.range 8).foldl expand192 (keyWordsRead cipherKey 6), 12)
  else if keyBits = 256 then ((List.range 7).foldl expand256 (keyWordsRead cipherKey 8), 14)
  else (keyWordsRead cipherKey 8, 0)

/-- Two words change places. -/
def swap (rk : List UInt32) (i j : Nat) : List UInt32 :=
  (rk.set i (rk.getD j 0)).set j (rk.getD i 0)

/-- The order of the round keys is inverted, from both ends. -/
def invertOrder (rk : List UInt32) (i j : Nat) : List UInt32 :=
  if i < j then
    let rk := swap rk i j
    let rk := swap rk (i + 1) (j + 1)
    let rk := swap rk (i + 2) (j + 2)
    let rk := swap rk (i + 3) (j + 3)
    invertOrder rk (i + 4) (j - 4)
  else rk
termination_by j - i

/-- A word of a round key through both tables. -/
def unmixed (w : UInt32) : UInt32 :=
  entry td0 (masked te4 (w >>> 24) 0xff) ^^^ entry td1 (masked te4 ((w >>> 16) &&& 0xff) 0xff) ^^^
    entry td2 (masked te4 ((w >>> 8) &&& 0xff) 0xff) ^^^ entry td3 (masked te4 (w &&& 0xff) 0xff)

/-- The words of round key `i`, one after the other. -/
def unmixKey (rk : List UInt32) (i : Nat) : List UInt32 :=
  [0, 1, 2, 3].foldl (fun rk m => rk.set (4 * i + m) (unmixed (rk.getD (4 * i + m) 0))) rk

def rijndaelKeySetupDec (cipherKey : List UInt8) (keyBits : Nat) : List UInt32 × Nat :=
  let (rk, nr) := rijndaelKeySetupEnc cipherKey keyBits
  let rk := invertOrder rk 0 (4 * nr)
  let rk := (List.range (nr - 1)).foldl (fun rk i => unmixKey rk (i + 1)) rk
  (rk, nr)

/-- What encryption and decryption differ in: the tables, and how far to the right the next byte
of a column is taken from. -/
structure Direction where
  t0 : List UInt32
  t1 : List UInt32
  t2 : List UInt32
  t3 : List UInt32
  t4 : List UInt32
  next : Fin 4

section
variable (d : Direction)

/-- A word of a round that mixes. -/
def full (s : Vector UInt32 4) (j : Fin 4) (k : UInt32) : UInt32 :=
  entry d.t0 (s.get j >>> 24) ^^^ entry d.t1 ((s.get (j + d.next) >>> 16) &&& 0xff) ^^^
    entry d.t2 ((s.get (j + d.next + d.next) >>> 8) &&& 0xff) ^^^
    entry d.t3 (s.get (j + d.next + d.next + d.next) &&& 0xff) ^^^ k

/-- A word of the last round. -/
def last (s : Vector UInt32 4) (j : Fin 4) (k : UInt32) : UInt32 :=
  masked d.t4 (s.get j >>> 24) 0xff000000 ^^^
    masked d.t4 ((s.get (j + d.next) >>> 16) &&& 0xff) 0x00ff0000 ^^^
    masked d.t4 ((s.get (j + d.next + d.next) >>> 8) &&& 0xff) 0x0000ff00 ^^^
    masked d.t4 (s.get (j + d.next + d.next + d.next) &&& 0xff) 0x000000ff ^^^ k

/-- `for (;;)`: two rounds, of which the last time only the first; `rk` has come to `o`. -/
def rounds (rk : List UInt32) : Nat → Nat → Vector UInt32 4 → Nat × Vector UInt32 4
  | 0, o, s => (o, s)
  | r + 1, o, s =>
    let t := Vector.ofFn fun j => full d s j (rk.getD (o + 4 + j) 0)
    let o := o + 8
    if r = 0 then (o, t)
    else rounds rk r o (Vector.ofFn fun j => full d t j (rk.getD (o + j) 0))

def crypt (rk : List UInt32) (nr : Nat) (pt : List UInt8) : List UInt8 :=
  let s := Vector.ofFn fun j : Fin 4 => getU32 pt (4 * j) ^^^ rk.getD j 0
  let (o, t) := rounds d rk (nr >>> 1) 0 s
  (List.range 4).flatMap fun j => putU32 (last d t (Fin.ofNat 4 j) (rk.getD (o + j) 0))

end

def rijndaelEncrypt : List UInt32 → Nat → List UInt8 → List UInt8 :=
  crypt ⟨te0, te1, te2, te3, te4, 1⟩

def rijndaelDecrypt : List UInt32 → Nat → List UInt8 → List UInt8 :=
  crypt ⟨td0, td1, td2, td3, td4, 3⟩

/-! ## Words and columns -/

section
variable (b0 b1 b2 b3 : UInt8)

/-- The index into a table. -/
theorem index_word : (word b0 b1 b2 b3 >>> 24).toNat = b0.toNat ∧
    ((word b0 b1 b2 b3 >>> 16) &&& 0xff).toNat = b1.toNat ∧
    ((word b0 b1 b2 b3 >>> 8) &&& 0xff).toNat = b2.toNat ∧
    (word b0 b1 b2 b3 &&& 0xff).toNat = b3.toNat := by
  have h0 := b0.toNat_lt
  have h1 := b1.toNat_lt
  have h2 := b2.toNat_lt
  have h3 := b3.toNat_lt
  have hmask : ∀ x : UInt32, (x &&& 0xff).toNat = x.toNat % 256 := fun x =>
    (UInt32.toNat_and _ _).trans (Nat.and_two_pow_sub_one_eq_mod _ 8)
  have hshift : ∀ (x : UInt32) (k : Nat), k < 32 →
      (x >>> UInt32.ofNat k).toNat = x.toNat / 2 ^ k := by
    intro x k hk
    have hamount : (UInt32.ofNat k).toNat % 32 = k := by
      show k % 2 ^ 32 % 32 = k
      omega
    rw [UInt32.toNat_shiftRight, hamount, Nat.shiftRight_eq_div_pow]
  have h24 := hshift (word b0 b1 b2 b3) 24 (by omega)
  have h16 := hshift (word b0 b1 b2 b3) 16 (by omega)
  have h8 := hshift (word b0 b1 b2 b3) 8 (by omega)
  have hword := Word32.toNat_word b0 b1 b2 b3
  refine ⟨h24.trans ?_, (hmask _).trans ?_, (hmask _).trans ?_, (hmask _).trans ?_⟩
  · omega
  · show (word b0 b1 b2 b3 >>> UInt32.ofNat 16).toNat % 256 = _
    rw [h16]
    omega
  · show (word b0 b1 b2 b3 >>> UInt32.ofNat 8).toNat % 256 = _
    rw [h8]
    omega
  · omega

/-- What is left of a word under the masks. -/
theorem word_mask : word b0 b1 b2 b3 &&& 0xff000000 = word b0 0 0 0 ∧
    word b0 b1 b2 b3 &&& 0x00ff0000 = word 0 b1 0 0 ∧
    word b0 b1 b2 b3 &&& 0x0000ff00 = word 0 0 b2 0 ∧
    word b0 b1 b2 b3 &&& 0x000000ff = word 0 0 0 b3 := by
  have hall : ∀ b : UInt8, b &&& 0xff = b := fun b => UInt8.and_neg_one
  have hnone : ∀ b : UInt8, b &&& 0 = 0 := fun b => UInt8.and_zero
  have h0 : (0xff000000 : UInt32) = word 0xff 0 0 0 := by decide
  have h1 : (0x00ff0000 : UInt32) = word 0 0xff 0 0 := by decide
  have h2 : (0x0000ff00 : UInt32) = word 0 0 0xff 0 := by decide
  have h3 : (0x000000ff : UInt32) = word 0 0 0 0xff := by decide
  refine ⟨?_, ?_, ?_, ?_⟩
  · rw [h0, Word32.word_and, hall, hnone, hnone, hnone]
  · rw [h1, Word32.word_and, hall, hnone, hnone, hnone]
  · rw [h2, Word32.word_and, hall, hnone, hnone, hnone]
  · rw [h3, Word32.word_and, hall, hnone, hnone, hnone]

end

theorem getU32_eq (pt : List UInt8) (i : Nat) : getU32 pt i =
    word (pt.getD i 0) (pt.getD (i + 1) 0) (pt.getD (i + 2) 0) (pt.getD (i + 3) 0) := by
  have hlift : ∀ b : UInt8, word b 0 0 0 = b.toUInt32 <<< 24 ∧ word 0 b 0 0 = b.toUInt32 <<< 16 ∧
      word 0 0 b 0 = b.toUInt32 <<< 8 ∧ word 0 0 0 b = b.toUInt32 := by
    refine Fips197.forall_byte ?_
    decide +kernel
  have hzero : ∀ b : UInt8, b ^^^ 0 = b ∧ 0 ^^^ b = b := fun b => ⟨UInt8.xor_zero, UInt8.zero_xor⟩
  unfold getU32
  rw [← (hlift _).1, ← (hlift (pt.getD (i + 1) 0)).2.1, ← (hlift (pt.getD (i + 2) 0)).2.2.1,
    ← (hlift (pt.getD (i + 3) 0)).2.2.2, Word32.word_xor, Word32.word_xor, Word32.word_xor]
  simp only [hzero]

/-! ## The rounds -/

def col (s : State) : Fin 4 → Col
  | 0 => s.c0
  | 1 => s.c1
  | 2 => s.c2
  | 3 => s.c3

def words (s : State) : Vector UInt32 4 := Vector.ofFn fun j => (col s j).word

theorem words_get (s : State) (j : Fin 4) : (words s).get j = (col s j).word := by
  simp only [words, Vector.get, Vector.ofFn, Array.getElem_ofFn]
  rfl

/-- The tables of a direction do a round of a cipher. -/
structure Agrees (d : Direction) (m : Rounds.Shape State) : Prop where
  add : m.add = State.add
  full : ∀ s k j, full d (words s) j (col k j).word = (col (m.add (m.l (m.g s)) k) j).word
  last : ∀ s k j, last d (words s) j (col k j).word = (col (m.add (m.g s) k) j).word

theorem add_word (c k : Col) : c.word ^^^ k.word = (c.add k).word := Word32.word_xor ..

/-- The bytes of four columns that a full round of encryption puts into one. -/
theorem full_te (c0 c1 c2 c3 : Col) :
    entry te0 (c0.word >>> 24) ^^^ entry te1 ((c1.word >>> 16) &&& 0xff) ^^^
        entry te2 ((c2.word >>> 8) &&& 0xff) ^^^ entry te3 (c3.word &&& 0xff) =
      ((⟨c0.b0, c1.b1, c2.b2, c3.b3⟩ : Col).map sbox).mix.word := by
  rw [entry, entry, entry, entry, Col.word, Col.word, Col.word, Col.word, (index_word ..).1,
    (index_word ..).2.1, (index_word ..).2.2.1, (index_word ..).2.2.2, te_column]

theorem full_td (c0 c1 c2 c3 : Col) :
    entry td0 (c0.word >>> 24) ^^^ entry td1 ((c1.word >>> 16) &&& 0xff) ^^^
        entry td2 ((c2.word >>> 8) &&& 0xff) ^^^ entry td3 (c3.word &&& 0xff) =
      ((⟨c0.b0, c1.b1, c2.b2, c3.b3⟩ : Col).map invSbox).invMix.word := by
  rw [entry, entry, entry, entry, Col.word, Col.word, Col.word, Col.word, (index_word ..).1,
    (index_word ..).2.1, (index_word ..).2.2.1, (index_word ..).2.2.2, td_column]

/-- Four bytes of a table that holds each of them four times. -/
theorem masked_word {table : List UInt32} {f : UInt8 → UInt8}
    (h : Holds table fun b => word (f b) (f b) (f b) (f b)) (c0 c1 c2 c3 : Col) :
    masked table (c0.word >>> 24) 0xff000000 ^^^
        masked table ((c1.word >>> 16) &&& 0xff) 0x00ff0000 ^^^
        masked table ((c2.word >>> 8) &&& 0xff) 0x0000ff00 ^^^
        masked table (c3.word &&& 0xff) 0x000000ff =
      ((⟨c0.b0, c1.b1, c2.b2, c3.b3⟩ : Col).map f).word := by
  have hzero : ∀ b : UInt8, b ^^^ 0 = b ∧ 0 ^^^ b = b := fun b => ⟨UInt8.xor_zero, UInt8.zero_xor⟩
  rw [masked, masked, masked, masked, entry, entry, entry, entry, Col.word, Col.word, Col.word,
    Col.word, (index_word ..).1, (index_word ..).2.1, (index_word ..).2.2.1, (index_word ..).2.2.2,
    h.get, h.get, h.get, h.get, (word_mask ..).1, (word_mask ..).2.1, (word_mask ..).2.2.1,
    (word_mask ..).2.2.2, Word32.word_xor, Word32.word_xor, Word32.word_xor]
  simp only [hzero]
  rfl

theorem agrees_encrypts : Agrees ⟨te0, te1, te2, te3, te4, 1⟩ encrypts where
  add := rfl
  full s k j := by
    rw [full, words_get, words_get, words_get, words_get, full_te, add_word]
    fin_cases j <;> rfl
  last s k j := by
    rw [last, words_get, words_get, words_get, words_get, masked_word holds_te4, add_word]
    fin_cases j <;> rfl

theorem agrees_decrypts : Agrees ⟨td0, td1, td2, td3, td4, 3⟩ decrypts where
  add := rfl
  full s k j := by
    rw [full, words_get, words_get, words_get, words_get, full_td, add_word]
    fin_cases j <;> rfl
  last s k j := by
    rw [last, words_get, words_get, words_get, words_get, masked_word holds_td4, add_word]
    fin_cases j <;> rfl

/-- The schedule has the keys `k`, up to the one numbered `nr`. -/
def Scheduled (rk : List UInt32) (nr : Nat) (k : Nat → State) : Prop :=
  ∀ i, i ≤ nr → ∀ j : Fin 4, rk.getD (4 * i + j) 0 = (col (k i) j).word

section
variable {d : Direction} {m : Rounds.Shape State} {rk : List UInt32} {nr : Nat} {k : Nat → State}

/-- Both halves of the loop do a round. -/
theorem full_eq (h : Agrees d m) (hrk : Scheduled rk nr k) (s : State) {i : Nat} (hi : i < nr) :
    (Vector.ofFn fun j => full d (words (m.middle k s i)) j (rk.getD (4 * (i + 1) + j) 0)) =
      words (m.middle k s (i + 1)) := by
  refine congrArg Vector.ofFn (funext fun j => ?_)
  rw [hrk (i + 1) hi j, h.full]
  rfl

theorem rounds_eq (h : Agrees d m) (hrk : Scheduled rk nr k) (s : State) {r i : Nat}
    (hi : i + 2 * r + 2 ≤ nr) :
    rounds d rk (r + 1) (4 * i) (words (m.middle k s i)) =
      (4 * (i + 2 * r + 2), words (m.middle k s (i + 2 * r + 1))) := by
  induction r generalizing i with
  | zero =>
    rw [rounds, if_pos rfl]
    refine Prod.ext ?_ (full_eq h hrk s (by omega))
    show 4 * i + 8 = 4 * (i + 2)
    omega
  | succ r ih =>
    have hfirst := full_eq h hrk s (show i < nr by omega)
    have hsecond := full_eq h hrk s (show i + 1 < nr by omega)
    rw [rounds, if_neg (Nat.succ_ne_zero r)]
    show rounds d rk (r + 1) (4 * i + 8) (Vector.ofFn fun j => full d
      (Vector.ofFn fun j => full d (words (m.middle k s i)) j (rk.getD (4 * (i + 1) + j) 0)) j
      (rk.getD (4 * (i + 1 + 1) + j) 0)) = _
    rw [hfirst, hsecond, show 4 * i + 8 = 4 * (i + 1 + 1) by omega, ih (by omega),
      show i + 1 + 1 + 2 * r = i + 2 * (r + 1) by omega]

theorem putU32_word (c : Col) : putU32 c.word = [c.b0, c.b1, c.b2, c.b3] :=
  Word32.bytes_word c.b0 c.b1 c.b2 c.b3

/-- The word of a block as a column of the state. -/
theorem getU32_col (pt : List UInt8) (j : Fin 4) :
    getU32 pt (4 * j) = (col (State.ofBytes pt) j).word := by
  rw [getU32_eq]
  fin_cases j <;> rfl

/-- An even number of rounds. -/
theorem crypt_eq {n : Nat} (h : Agrees d m) (hrk : Scheduled rk (2 * n + 2) k) (pt : List UInt8) :
    crypt d rk (2 * n + 2) pt = (m.cipher (2 * n + 1) k (State.ofBytes pt)).bytes := by
  have hstart : (Vector.ofFn fun j : Fin 4 => getU32 pt (4 * j) ^^^ rk.getD j 0) =
      words (m.middle k (State.ofBytes pt) 0) := by
    refine congrArg Vector.ofFn (funext fun j => ?_)
    have hkey := hrk 0 (by omega) j
    rw [Nat.mul_zero, Nat.zero_add] at hkey
    rw [hkey, getU32_col, add_word, Rounds.Shape.middle, h.add]
    fin_cases j <;> rfl
  have hrounds := rounds_eq h hrk (State.ofBytes pt) (r := n) (i := 0) (by omega)
  rw [Nat.mul_zero, Nat.zero_add] at hrounds
  have hlast : ∀ j ∈ List.range 4, putU32 (last d (words (m.middle k (State.ofBytes pt) (2 * n + 1)))
      (Fin.ofNat 4 j) (rk.getD (4 * (2 * n + 2) + j) 0)) =
        putU32 (col (m.cipher (2 * n + 1) k (State.ofBytes pt)) (Fin.ofNat 4 j)).word := by
    intro j hj
    have hkey := hrk _ (Nat.le_refl _) (Fin.ofNat 4 j)
    rw [show (Fin.ofNat 4 j).val = j from Nat.mod_eq_of_lt (List.mem_range.mp hj)] at hkey
    rw [hkey, h.last]
    rfl
  unfold crypt
  rw [show (2 * n + 2) >>> 1 = n + 1 by omega, hstart]
  dsimp only
  rw [hrounds]
  dsimp only
  rw [List.flatMap_congr hlast]
  simp only [putU32_word]
  rfl

end

end Despotify.Rijndael

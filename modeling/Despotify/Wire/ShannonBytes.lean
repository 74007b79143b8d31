import Despotify.Pool.Transducer
import Despotify.Wire.Shannon

/-!
# `shn_encrypt` and `shn_decrypt` byte by byte

The source works on whole words and keeps up to three bytes of a word between
calls.  `cryptStep` is the same cipher as a transducer of single bytes, and

    shnCrypt d c buf  =  run (cryptStep d) c buf        (shnCrypt_eq_run)

up to `mbuf`, which is dead while no part of a word is buffered (`norm`).  So
the way a message is cut into calls does not matter (`shnCrypt_append`), and
decryption undoes encryption from equal contexts, whatever the two cuts
(`shnDecrypt_shnEncrypt`).
-/

namespace Despotify.Shannon

open Transducer

/-! ## Words and their bytes -/

theorem toUInt8_mask (x : UInt32) : (x &&& 0xFF).toUInt8 = x.toUInt8 := by
  have h255 : ∀ j (h : j < 8), (255#8)[j] = true := by decide
  rw [← UInt8.toBitVec_inj]
  ext j hj
  simp [h255 j hj]

theorem byte_eq (x i : UInt32) : byte x i = (x >>> (8 * i)).toUInt8 := toUInt8_mask _

theorem byte_xor (x y i : UInt32) : byte (x ^^^ y) i = byte x i ^^^ byte y i := by
  simp only [byte_eq]
  rw [← UInt8.toBitVec_inj]
  ext j hj
  simp

theorem word2byte_byte2word (b0 b1 b2 b3 : UInt8) :
    word2byte (byte2word b0 b1 b2 b3) = [b0, b1, b2, b3] := by
  simp only [word2byte, byte_eq, byte2word, List.cons.injEq, and_true]
  refine ⟨?_, ?_, ?_, ?_⟩
  all_goals
    rw [← UInt8.toBitVec_inj]
    ext j hj
    simp [BitVec.getLsbD_of_ge]
  all_goals grind

theorem byte2word_byte (x : UInt32) :
    byte2word (byte x 0) (byte x 1) (byte x 2) (byte x 3) = x := by
  simp only [byte2word, byte_eq]
  rw [← UInt32.toBitVec_inj]
  ext j hj
  simp only [UInt32.toBitVec_or, UInt32.toBitVec_shiftLeft, UInt8.toBitVec_toUInt32,
    UInt32.toBitVec_toUInt8, UInt32.toBitVec_shiftRight, BitVec.shiftLeft_eq',
    BitVec.ushiftRight_eq', ← BitVec.getLsbD_eq_getElem hj]
  simp
  grind

/-- The four shifted bytes xored into an empty `mbuf` make up the word. -/
theorem xor_shifts_eq_byte2word (b0 b1 b2 b3 : UInt8) :
    ((((0 : UInt32) ^^^ b0.toUInt32 <<< 0) ^^^ b1.toUInt32 <<< 8) ^^^ b2.toUInt32 <<< 16) ^^^
      b3.toUInt32 <<< 24 = byte2word b0 b1 b2 b3 := by
  simp only [byte2word]
  rw [← UInt32.toBitVec_inj]
  ext j hj
  simp
  rcases Nat.lt_or_ge j 8 with h | h
  · simp [h, show j < 16 by omega, show j < 24 by omega]
  have h8 : b0.toBitVec.getLsbD j = false := BitVec.getLsbD_of_ge _ _ h
  rcases Nat.lt_or_ge j 16 with h' | h'
  · simp [h', h8, show j < 24 by omega]
  have h16 : b1.toBitVec.getLsbD (j - 8) = false := BitVec.getLsbD_of_ge _ _ (by omega)
  rcases Nat.lt_or_ge j 24 with h'' | h''
  · simp [h'', h8, h16]
  have h24 : b2.toBitVec.getLsbD (j - 16) = false := BitVec.getLsbD_of_ge _ _ (by omega)
  simp [h8, h16, h24]

/-! ## The byte transducer -/

/-- Start a word: cycle, and buffer its 32 bits. -/
def openWord (c : ShnCtx) : ShnCtx := { cycle c with mbuf := 0, nbuf := 32 }

/-- One byte of the stream, wherever the word boundary is. -/
def cryptStep (d : Dir) (c : ShnCtx) (b : UInt8) : ShnCtx × UInt8 :=
  let c := if c.nbuf = 0 then openWord c else c
  let (c, out) := cryptByte d c b
  (if c.nbuf = 0 then macfunc c c.mbuf else c, out)

/-- `mbuf` is dead while nothing is buffered: `openWord` clears it. -/
def norm (c : ShnCtx) : ShnCtx := if c.nbuf = 0 then { c with mbuf := 0 } else c

@[simp] theorem openWord_nbuf (c : ShnCtx) : (openWord c).nbuf = 32 := rfl

theorem cryptByte_nbuf (d : Dir) (c : ShnCtx) (b : UInt8) :
    (cryptByte d c b).1.nbuf = c.nbuf - 8 := rfl

@[simp] theorem macfunc_nbuf (c : ShnCtx) (w : UInt32) : (macfunc c w).nbuf = c.nbuf := rfl

@[simp] theorem norm_nbuf (c : ShnCtx) : (norm c).nbuf = c.nbuf := by
  unfold norm
  split <;> rfl

theorem norm_of_nbuf_ne {c : ShnCtx} (h : c.nbuf ≠ 0) : norm c = c := if_neg h

theorem openWord_norm (c : ShnCtx) : openWord (norm c) = openWord c := by
  unfold norm
  split <;> rfl

theorem cryptStep_norm (d : Dir) (c : ShnCtx) (b : UInt8) :
    cryptStep d (norm c) b = cryptStep d c b := by
  by_cases h : c.nbuf = 0
  · simp [cryptStep, h, openWord_norm]
  · rw [norm_of_nbuf_ne h]

theorem cryptStep_openWord (d : Dir) (c : ShnCtx) (b : UInt8) (h : c.nbuf = 0) :
    cryptStep d (openWord c) b = cryptStep d c b := by
  simp [cryptStep, h]

/-- Contexts that agree but for a dead `mbuf` run alike. -/
theorem run_norm (d : Dir) {c c' : ShnCtx} (h : norm c = norm c') (buf : List UInt8) :
    norm (run (cryptStep d) c buf).1 = norm (run (cryptStep d) c' buf).1 ∧
      (run (cryptStep d) c buf).2 = (run (cryptStep d) c' buf).2 := by
  cases buf with
  | nil => exact ⟨h, rfl⟩
  | cons b buf =>
    have hb : cryptStep d c b = cryptStep d c' b := by
      rw [← cryptStep_norm, h, cryptStep_norm]
    simp [hb]

/-- Inside a word: one pass of the loop body, and the MAC when the word is full. -/
theorem cryptStep_of_nbuf_ne (d : Dir) (c : ShnCtx) (b : UInt8) (h : c.nbuf ≠ 0) :
    cryptStep d c b =
      (if (cryptByte d c b).1.nbuf = 0 then
        macfunc (cryptByte d c b).1 (cryptByte d c b).1.mbuf else (cryptByte d c b).1,
        (cryptByte d c b).2) := by
  simp [cryptStep, h]

/-! ## The loops of the source -/

/-- The buffered loop is the first bytes of the run; when it empties the
buffer, the MAC word is still to be processed. -/
theorem cryptBuffered_eq_run (d : Dir) (c : ShnCtx) (buf : List UInt8) (h : c.nbuf ≠ 0) :
    run (cryptStep d) c buf =
      if (cryptBuffered d c buf).1.nbuf ≠ 0 then
        ((cryptBuffered d c buf).1, (cryptBuffered d c buf).2.1)
      else
        let c' := macfunc (cryptBuffered d c buf).1 (cryptBuffered d c buf).1.mbuf
        let r := run (cryptStep d) c' (cryptBuffered d c buf).2.2
        (r.1, (cryptBuffered d c buf).2.1 ++ r.2) := by
  induction buf generalizing c with
  | nil => simp [cryptBuffered, h]
  | cons b buf ih =>
    simp only [run_cons, cryptStep_of_nbuf_ne d c b h, cryptBuffered, h, ne_eq, not_false_eq_true, if_true]
    by_cases h' : (cryptByte d c b).1.nbuf = 0
    · -- the word is full: the loop stops before the next byte
      have hstop : cryptBuffered d (cryptByte d c b).1 buf = ((cryptByte d c b).1, [], buf) := by
        cases buf <;> simp [cryptBuffered, h']
      simp [hstop, h']
    · rw [if_neg h', ih _ h']
      split <;> simp

theorem cryptBuffered_nbuf (d : Dir) (c : ShnCtx) (buf : List UInt8) :
    (cryptBuffered d c buf).1.nbuf = c.nbuf - 8 * buf.length := by
  induction buf generalizing c with
  | nil => simp [cryptBuffered]
  | cons b buf ih =>
    unfold cryptBuffered
    split
    · simp only [ih, cryptByte_nbuf, List.length_cons]
      omega
    · simp_all

/-- `cryptByte` on byte `i` of a word whose first bytes are in `m`. -/
theorem cryptByte_lane (d : Dir) (k : ShnCtx) (m : UInt32) (n : Nat) (b : UInt8) (i : UInt32)
    (h : UInt32.ofNat (32 - n) = 8 * i) :
    cryptByte d { k with mbuf := m, nbuf := n } b =
      ({ k with
          mbuf := m ^^^ ((d.plain b (b ^^^ byte k.sbuf i)).toUInt32 <<< (8 * i))
          nbuf := n - 8 }, b ^^^ byte k.sbuf i) := by
  simp only [cryptByte, h, byte]

theorem cryptStep_lane (d : Dir) (k : ShnCtx) (m : UInt32) (n : Nat) (b : UInt8) (i : UInt32)
    (hn : 8 < n) (h : UInt32.ofNat (32 - n) = 8 * i) :
    cryptStep d { k with mbuf := m, nbuf := n } b =
      ({ k with
          mbuf := m ^^^ ((d.plain b (b ^^^ byte k.sbuf i)).toUInt32 <<< (8 * i))
          nbuf := n - 8 }, b ^^^ byte k.sbuf i) := by
  rw [cryptStep_of_nbuf_ne d _ b (show n ≠ 0 by omega), cryptByte_lane d k m n b i h]
  rw [if_neg (show n - 8 ≠ 0 by omega)]

theorem cryptStep_last (d : Dir) (k : ShnCtx) (m : UInt32) (b : UInt8) :
    cryptStep d { k with mbuf := m, nbuf := 8 } b =
      (macfunc
        { k with
          mbuf := m ^^^ ((d.plain b (b ^^^ byte k.sbuf 3)).toUInt32 <<< 24)
          nbuf := 0 }
        (m ^^^ ((d.plain b (b ^^^ byte k.sbuf 3)).toUInt32 <<< 24)), b ^^^ byte k.sbuf 3) := by
  rw [cryptStep_of_nbuf_ne d _ b (show 8 ≠ 0 by decide), cryptByte_lane d k m 8 b 3 rfl]
  rfl

/-- The plaintext bytes of a word are the bytes of its plaintext word. -/
theorem plain_word (d : Dir) (b0 b1 b2 b3 : UInt8) (s : UInt32) :
    byte2word (d.plain b0 (b0 ^^^ byte s 0)) (d.plain b1 (b1 ^^^ byte s 1))
        (d.plain b2 (b2 ^^^ byte s 2)) (d.plain b3 (b3 ^^^ byte s 3)) =
      d.plain (byte2word b0 b1 b2 b3) (byte2word b0 b1 b2 b3 ^^^ s) := by
  cases d with
  | encrypt => rfl
  | decrypt =>
    obtain ⟨w, hw⟩ : ∃ w, byte2word b0 b1 b2 b3 = w := ⟨_, rfl⟩
    have hb := word2byte_byte2word b0 b1 b2 b3
    rw [hw] at hb
    simp only [word2byte, List.cons.injEq, and_true] at hb
    obtain ⟨rfl, rfl, rfl, rfl⟩ := hb
    simp only [Dir.plain, ← byte_xor, byte2word_byte]

theorem cycle_nbuf (c : ShnCtx) : (cycle c).nbuf = c.nbuf := rfl

theorem cryptWord_nbuf (d : Dir) (c : ShnCtx) (b0 b1 b2 b3 : UInt8) :
    (cryptWord d c b0 b1 b2 b3).1.nbuf = c.nbuf := by
  simp only [cryptWord, macfunc_nbuf, cycle_nbuf]

theorem norm_macfunc (k : ShnCtx) (m w : UInt32) (h : k.nbuf = 0) :
    norm (macfunc { k with mbuf := m, nbuf := 0 } w) = norm (macfunc k w) := by
  simp [norm, macfunc, crcfunc, addkey, h]

/-- A whole word is its four bytes. -/
theorem cryptWord_eq_run (d : Dir) (c : ShnCtx) (b0 b1 b2 b3 : UInt8) (h : c.nbuf = 0) :
    norm (run (cryptStep d) c [b0, b1, b2, b3]).1 = norm (cryptWord d c b0 b1 b2 b3).1 ∧
      (run (cryptStep d) c [b0, b1, b2, b3]).2 = (cryptWord d c b0 b1 b2 b3).2 := by
  let k := cycle c
  let p : UInt8 → UInt32 → UInt32 := fun b i => (d.plain b (b ^^^ byte k.sbuf i)).toUInt32
  let m0 := (0 : UInt32) ^^^ p b0 0 <<< 0
  let m1 := m0 ^^^ p b1 1 <<< 8
  let m2 := m1 ^^^ p b2 2 <<< 16
  let m3 := m2 ^^^ p b3 3 <<< 24
  have s0 : cryptStep d c b0 = ({ k with mbuf := m0, nbuf := 24 }, b0 ^^^ byte k.sbuf 0) := by
    rw [← cryptStep_openWord d c b0 h]
    exact cryptStep_lane d k 0 32 b0 0 (by decide) rfl
  have s1 : cryptStep d { k with mbuf := m0, nbuf := 24 } b1 =
      ({ k with mbuf := m1, nbuf := 16 }, b1 ^^^ byte k.sbuf 1) :=
    cryptStep_lane d k m0 24 b1 1 (by decide) rfl
  have s2 : cryptStep d { k with mbuf := m1, nbuf := 16 } b2 =
      ({ k with mbuf := m2, nbuf := 8 }, b2 ^^^ byte k.sbuf 2) :=
    cryptStep_lane d k m1 16 b2 2 (by decide) rfl
  have s3 : cryptStep d { k with mbuf := m2, nbuf := 8 } b3 =
      (macfunc { k with mbuf := m3, nbuf := 0 } m3, b3 ^^^ byte k.sbuf 3) :=
    cryptStep_last d k m2 b3
  have hm : m3 = d.plain (byte2word b0 b1 b2 b3) (byte2word b0 b1 b2 b3 ^^^ k.sbuf) := by
    rw [← plain_word, ← xor_shifts_eq_byte2word]
  have hb := word2byte_byte2word b0 b1 b2 b3
  simp only [word2byte, List.cons.injEq, and_true] at hb
  obtain ⟨h0, h1, h2, h3⟩ := hb
  simp only [run_cons, run_nil, s0, s1, s2, s3]
  constructor
  · rw [hm, norm_macfunc k _ _ h]
    rfl
  · simp only [cryptWord, word2byte, byte_xor, h0, h1, h2, h3]
    rfl

/-- The tail of fewer than four bytes never fills its word. -/
theorem cryptBuffered_tail (d : Dir) (c : ShnCtx) (tail : List UInt8) (h : c.nbuf = 0)
    (h0 : tail ≠ []) (h4 : tail.length < 4) :
    run (cryptStep d) c tail =
      ((cryptBuffered d (openWord c) tail).1, (cryptBuffered d (openWord c) tail).2.1) := by
  have hopen : run (cryptStep d) c tail = run (cryptStep d) (openWord c) tail := by
    cases tail with
    | nil => exact absurd rfl h0
    | cons b tail => simp only [run_cons, cryptStep_openWord d c b h]
  have hn := cryptBuffered_nbuf d (openWord c) tail
  rw [openWord_nbuf] at hn
  rw [hopen, cryptBuffered_eq_run d (openWord c) tail (by simp), if_pos (by omega)]

/-- The whole words and the tail, from a word boundary. -/
theorem cryptWords_eq_run (d : Dir) : ∀ (c : ShnCtx) (buf : List UInt8), c.nbuf = 0 →
    norm (cryptWords d c buf).1 = norm (run (cryptStep d) c buf).1 ∧
      (cryptWords d c buf).2 = (run (cryptStep d) c buf).2
  | c, [], _ => ⟨rfl, rfl⟩
  | c, [b0], h => by rw [cryptBuffered_tail d c _ h (by simp) (by simp)]; exact ⟨rfl, rfl⟩
  | c, [b0, b1], h => by rw [cryptBuffered_tail d c _ h (by simp) (by simp)]; exact ⟨rfl, rfl⟩
  | c, [b0, b1, b2], h => by
    rw [cryptBuffered_tail d c _ h (by simp) (by simp)]; exact ⟨rfl, rfl⟩
  | c, b0 :: b1 :: b2 :: b3 :: buf, h => by
    obtain ⟨h1, h2⟩ := cryptWord_eq_run d c b0 b1 b2 b3 h
    obtain ⟨h3, h4⟩ := cryptWords_eq_run d (cryptWord d c b0 b1 b2 b3).1 buf
      (by rw [cryptWord_nbuf, h])
    obtain ⟨h5, h6⟩ := run_norm d h1 buf
    have hsplit := run_append (cryptStep d) c [b0, b1, b2, b3] buf
    rw [List.cons_append, List.cons_append, List.cons_append, List.cons_append,
      List.nil_append] at hsplit
    rw [hsplit, cryptWords]
    refine ⟨h3.trans h5.symm, ?_⟩
    show (cryptWord d c b0 b1 b2 b3).2 ++ (cryptWords d (cryptWord d c b0 b1 b2 b3).1 buf).2 = _
    rw [h4, ← h6, h2]

/-- **The source's loops are the byte transducer**, whatever is buffered. -/
theorem shnCrypt_eq_run (d : Dir) (c : ShnCtx) (buf : List UInt8) :
    norm (shnCrypt d c buf).1 = norm (run (cryptStep d) c buf).1 ∧
      (shnCrypt d c buf).2 = (run (cryptStep d) c buf).2 := by
  unfold shnCrypt
  by_cases h : c.nbuf = 0
  · rw [if_neg (by simpa using h)]
    exact cryptWords_eq_run d c buf h
  · rw [if_pos h, cryptBuffered_eq_run d c buf h]
    by_cases h' : (cryptBuffered d c buf).1.nbuf = 0
    · obtain ⟨h1, h2⟩ := cryptWords_eq_run d
        (macfunc (cryptBuffered d c buf).1 (cryptBuffered d c buf).1.mbuf)
        (cryptBuffered d c buf).2.2 (by rw [macfunc_nbuf, h'])
      simp only [h', ne_eq, not_true_eq_false, if_false]
      exact ⟨h1, by rw [h2]⟩
    · simp [h']

/-! ## Cuts and inversion -/

/-- Two calls are one call on the whole: `norm` forgets where the cut was. -/
theorem shnCrypt_append (d : Dir) (c : ShnCtx) (xs ys : List UInt8) :
    norm (shnCrypt d (shnCrypt d c xs).1 ys).1 = norm (shnCrypt d c (xs ++ ys)).1 ∧
      (shnCrypt d c xs).2 ++ (shnCrypt d (shnCrypt d c xs).1 ys).2 =
        (shnCrypt d c (xs ++ ys)).2 := by
  obtain ⟨h1, h2⟩ := shnCrypt_eq_run d c xs
  obtain ⟨h3, h4⟩ := shnCrypt_eq_run d (shnCrypt d c xs).1 ys
  obtain ⟨h5, h6⟩ := shnCrypt_eq_run d c (xs ++ ys)
  obtain ⟨h7, h8⟩ := run_norm d h1 ys
  rw [run_append] at h5 h6
  exact ⟨by rw [h3, h7, h5], by rw [h2, h4, h8, h6]⟩

@[simp] theorem length_shnCrypt (d : Dir) (c : ShnCtx) (buf : List UInt8) :
    (shnCrypt d c buf).2.length = buf.length := by
  rw [(shnCrypt_eq_run d c buf).2, length_run]

/-- One decrypted byte is the byte encrypted, and leaves the same context. -/
theorem inverts_cryptStep : Inverts (cryptStep .encrypt) (cryptStep .decrypt) (· = ·) := by
  rintro c _ b rfl
  have hk : ∀ k : UInt8, b ^^^ k ^^^ k = b := fun k => by
    rw [UInt8.xor_assoc, UInt8.xor_self, UInt8.xor_zero]
  simp [cryptStep, cryptByte, Dir.plain, hk]

/-- Decryption undoes encryption, from contexts that differ at most in a dead
`mbuf`, and leaves such contexts. -/
theorem shnDecrypt_shnEncrypt {c c' : ShnCtx} (h : norm c' = norm c) (buf : List UInt8) :
    norm (shnDecrypt c' (shnEncrypt c buf).2).1 = norm (shnEncrypt c buf).1 ∧
      (shnDecrypt c' (shnEncrypt c buf).2).2 = buf := by
  obtain ⟨h1, h2⟩ := shnCrypt_eq_run .encrypt c buf
  obtain ⟨h3, h4⟩ := shnCrypt_eq_run .decrypt c' (shnCrypt .encrypt c buf).2
  obtain ⟨h5, h6⟩ := run_norm .decrypt h (shnCrypt .encrypt c buf).2
  obtain ⟨h7, h8⟩ := inverts_cryptStep.run c c buf rfl
  rw [← h2] at h7 h8
  exact ⟨by rw [shnDecrypt, shnEncrypt, h3, h5, ← h7, h1],
    by rw [shnDecrypt, shnEncrypt, h4, h6, h8]⟩

end Despotify.Shannon

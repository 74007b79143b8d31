import Despotify.Wire.ShannonInterop
import Mathlib.Logic.Function.Iterate

/-!
# The MAC alone

`shn_maconly` leaves the context as `shn_encrypt` does.  `macOnly` of the Java class puts the
bytes of an open word into `mbuf` with their sign, and `finish` takes every byte of an
incomplete last word from the low end of the output word.

    as shn_maconly     iff no byte above 127 goes into an open word without filling it
    as shn_finish      iff the length is at most one more than whole words     (macLaws_iff)
-/

namespace Despotify.Shannon

/-! ## The C library -/

theorem cryptBuffered_encrypt (c : ShnCtx) (buf : List UInt8) :
    (cryptBuffered .encrypt c buf).1 = (macBuffered c buf).1 ∧
      (cryptBuffered .encrypt c buf).2.2 = (macBuffered c buf).2 := by
  induction buf generalizing c with
  | nil => exact ⟨rfl, rfl⟩
  | cons b buf ih =>
    unfold cryptBuffered macBuffered
    split
    · exact ih (macByte c b)
    · exact ⟨rfl, rfl⟩

theorem cryptWords_encrypt : ∀ (c : ShnCtx) (buf : List UInt8),
    (cryptWords .encrypt c buf).1 = macWords c buf
  | c, [] => rfl
  | c, [b0] => by
    simp only [cryptWords, macWords]
    exact (cryptBuffered_encrypt _ [b0]).1
  | c, [b0, b1] => by
    simp only [cryptWords, macWords]
    exact (cryptBuffered_encrypt _ [b0, b1]).1
  | c, [b0, b1, b2] => by
    simp only [cryptWords, macWords]
    exact (cryptBuffered_encrypt _ [b0, b1, b2]).1
  | c, b0 :: b1 :: b2 :: b3 :: buf => by
    have hword : (cryptWord .encrypt c b0 b1 b2 b3).1 =
        macfunc (cycle c) (byte2word b0 b1 b2 b3) := by
      simp only [cryptWord, Dir.plain]
    rw [cryptWords, macWords, ← hword]
    exact cryptWords_encrypt _ buf

/-- **`shn_maconly`** leaves what `shn_encrypt` leaves. -/
theorem shnMaconly_eq (c : ShnCtx) (buf : List UInt8) :
    shnMaconly c buf = (shnEncrypt c buf).1 := by
  obtain ⟨hctx, hrest⟩ := cryptBuffered_encrypt c buf
  unfold shnMaconly shnEncrypt shnCrypt
  split
  · dsimp only
    rw [hctx, hrest]
    split
    · rfl
    · exact (cryptWords_encrypt _ _).symm
  · exact (cryptWords_encrypt c buf).symm

/-! ## The output words -/

theorem macBytes_succ (n : Nat) (c : ShnCtx) : macBytes (n + 4) c =
    ((macBytes n (cycle c)).1, word2byte (cycle c).sbuf ++ (macBytes n (cycle c)).2) := by
  rw [macBytes]

theorem macBytes_short (c : ShnCtx) {t : Nat} (ht : t < 4) :
    (macBytes t c).2 = (word2byte (cycle c).sbuf).take t := by
  match t, ht with
  | 0, _ => rfl
  | 1, _ | 2, _ | 3, _ => simp only [macBytes]

/-- Whole words, and the first bytes of one more. -/
theorem macBytes_add (m : Nat) {t : Nat} (ht : t < 4) (c : ShnCtx) :
    (macBytes (4 * m + t) c).2 = (macBytes (4 * m) c).2 ++
      (word2byte (cycle (macBytes (4 * m) c).1).sbuf).take t := by
  induction m generalizing c with
  | zero =>
    rw [Nat.mul_zero, Nat.zero_add]
    exact macBytes_short c ht
  | succ m ih =>
    have hadd : 4 * (m + 1) + t = (4 * m + t) + 4 := by omega
    rw [hadd, Nat.mul_succ, macBytes_succ, macBytes_succ, ih, List.append_assoc]

/-- A shorter MAC is the front of a longer one. -/
theorem macBytes_take {n m : Nat} (h : n ≤ m) (c : ShnCtx) :
    (macBytes n c).2 = (macBytes m c).2.take n := by
  induction n using Nat.strongRecOn generalizing m c with | _ n ih =>
  have hword : (word2byte (cycle c).sbuf).length = 4 := rfl
  rcases Nat.lt_or_ge n 4 with hn | hn
  · rw [macBytes_short c hn]
    rcases Nat.lt_or_ge m 4 with hm | hm
    · rw [macBytes_short c hm, List.take_take, Nat.min_eq_left h]
    · obtain ⟨m, rfl⟩ : ∃ m', m = m' + 4 := ⟨m - 4, by omega⟩
      rw [macBytes_succ, List.take_append_of_le_length (by omega)]
  · obtain ⟨n, rfl⟩ : ∃ n', n = n' + 4 := ⟨n - 4, by omega⟩
    obtain ⟨m, rfl⟩ : ∃ m', m = m' + 4 := ⟨m - 4, by omega⟩
    have hall : (word2byte (cycle c).sbuf).take (n + 4) = word2byte (cycle c).sbuf :=
      List.take_of_length_le (by omega)
    rw [macBytes_succ, macBytes_succ, ih n (by omega) (Nat.le_of_add_le_add_right h) (cycle c)]
    dsimp only
    rw [List.take_append, hword, Nat.add_sub_cancel, hall]

theorem length_macBytes (n : Nat) (c : ShnCtx) : (macBytes n c).2.length = n := by
  induction n using Nat.strongRecOn generalizing c with | _ n ih =>
  have hword : (word2byte (cycle c).sbuf).length = 4 := rfl
  rcases Nat.lt_or_ge n 4 with hn | hn
  · rw [macBytes_short c hn, List.length_take, hword]
    omega
  · obtain ⟨n, rfl⟩ : ∃ n', n = n' + 4 := ⟨n - 4, by omega⟩
    rw [macBytes_succ, List.length_append, hword, ih n (by omega), Nat.add_comm]

theorem length_shnFinish (c : ShnCtx) (n : Nat) : (shnFinish c n).2.length = n :=
  length_macBytes n _

theorem shnFinish_add (c : ShnCtx) (m : Nat) {t : Nat} (ht : t < 4) :
    (shnFinish c (4 * m + t)).2 = (shnFinish c (4 * m)).2 ++
      (word2byte (cycle (shnFinish c (4 * m)).1).sbuf).take t :=
  macBytes_add m ht _

theorem shnFinish_take (c : ShnCtx) {n m : Nat} (h : n ≤ m) :
    (shnFinish c n).2 = (shnFinish c m).2.take n :=
  macBytes_take h _

/-! ## The CRC keeps what went into it -/

theorem shiftIn_inj {r r' : Vector UInt32 16} {t t' : UInt32} (h : shiftIn r t = shiftIn r' t') :
    t = t' ∧ ∀ i (hi : i + 1 < 16), r[i + 1] = r'[i + 1] := by
  have hget : ∀ i (hi : i < 16), (shiftIn r t)[i] = (shiftIn r' t')[i] := fun i hi => by rw [h]
  refine ⟨by simpa [shiftIn] using hget 15 (by decide), fun i hi => ?_⟩
  simpa [shiftIn, hi] using hget i (by omega)

theorem crcfunc_inj {c c' : ShnCtx} {i : UInt32} (h : (crcfunc c i).CRC = (crcfunc c' i).CRC) :
    c.CRC = c'.CRC := by
  obtain ⟨hlast, hrest⟩ := shiftIn_inj h
  have h2 : c.CRC[2] = c'.CRC[2] := hrest 1 (by decide)
  have h15 : c.CRC[15] = c'.CRC[15] := hrest 14 (by decide)
  rw [h2, h15, UInt32.xor_left_inj, UInt32.xor_left_inj, UInt32.xor_left_inj] at hlast
  ext j hj
  rcases j with _ | j
  · exact congrArg _ hlast
  · exact congrArg _ (hrest j hj)

theorem crcfunc_word_inj {c c' : ShnCtx} {i i' : UInt32} (hc : c.CRC = c'.CRC)
    (h : (crcfunc c i).CRC = (crcfunc c' i').CRC) : i = i' := by
  obtain ⟨hlast, -⟩ := shiftIn_inj h
  rwa [hc, UInt32.xor_right_inj] at hlast

theorem macBuffered_crc (c : ShnCtx) (buf : List UInt8) : (macBuffered c buf).1.CRC = c.CRC := by
  induction buf generalizing c with
  | nil => rfl
  | cons b buf ih =>
    unfold macBuffered
    split
    · exact ih (macByte c b)
    · rfl

theorem cycle_crc (c : ShnCtx) : (cycle c).CRC = c.CRC := by
  rw [cycle]

theorem macfunc_crc (c : ShnCtx) (i : UInt32) : (macfunc c i).CRC = (crcfunc c i).CRC := rfl

theorem macWords_tail (c : ShnCtx) (tail : List UInt8)
    (hword : ∀ b0 b1 b2 b3 buf, tail = b0 :: b1 :: b2 :: b3 :: buf → False)
    (hnil : tail = [] → False) :
    macWords c tail = (macBuffered { cycle c with mbuf := 0, nbuf := 32 } tail).1 := by
  match tail, hword, hnil with
  | [], _, hnil => exact (hnil rfl).elim
  | [_], _, _ | [_, _], _, _ | [_, _, _], _, _ => simp only [macWords]
  | b0 :: b1 :: b2 :: b3 :: buf, hword, _ => exact (hword b0 b1 b2 b3 buf rfl).elim

/-- The same words leave different CRCs different. -/
theorem macWords_crc_inj {c c' : ShnCtx} (buf : List UInt8)
    (h : (macWords c buf).CRC = (macWords c' buf).CRC) : c.CRC = c'.CRC := by
  induction c, buf using macWords.induct generalizing c' with
  | case1 c b0 b1 b2 b3 buf ih =>
    rw [macWords, macWords] at h
    have hcrc := ih h
    rw [macfunc_crc, macfunc_crc] at hcrc
    have hcycle := crcfunc_inj hcrc
    rwa [cycle_crc, cycle_crc] at hcycle
  | case2 c => exact h
  | case3 c tail hne hshort =>
    rw [macWords_tail c tail hne hshort, macWords_tail c' tail hne hshort, macBuffered_crc,
      macBuffered_crc] at h
    dsimp only at h
    rw [cycle_crc, cycle_crc] at h
    exact h

/-! ## The register reaches every content -/

theorem rotl_rotl (x : UInt32) : rotl (rotl x 31) 1 = x := by
  have hcut : ∀ y : BitVec 32,
      ((y <<< 31 ||| y >>> 1) <<< 1) ||| ((y <<< 31 ||| y >>> 1) >>> 31) = y := by
    intro y
    apply BitVec.eq_of_getLsbD_eq
    intro j hj
    simp only [BitVec.getLsbD_or, BitVec.getLsbD_shiftLeft, BitVec.getLsbD_ushiftRight]
    rcases j with _ | j
    · simp [BitVec.getLsbD_of_ge]
    · have hover : ¬ 31 + (j + 1) < 32 := by omega
      have hlow : ¬ 31 ≤ j := by omega
      have hin : 1 + j = j + 1 := Nat.add_comm 1 j
      have hout : y.getLsbD (1 + (31 + (j + 1))) = false := BitVec.getLsbD_of_ge _ _ (by omega)
      simp [hover, hlow, hj, hin, hout]
  rw [← UInt32.toBitVec_inj]
  exact hcut x.toBitVec
/-- The register before a cycle with the semi-constant `k`. -/
def uncycle (k : UInt32) (r : Vector UInt32 16) : Vector UInt32 16 :=
  Vector.ofFn fun i =>
    if h : 1 < i.val then r[i.val - 1]
    else if i.val = 1 then r[0] ^^^ sbox2 (r[2] ^^^ r[15])
    else rotl (r[15] ^^^ sbox1 (r[11] ^^^ r[12] ^^^ k)) 31

theorem uncycle_succ (k : UInt32) (r : Vector UInt32 16) {i : Nat} (hi : i + 1 < 16)
    (h : 0 < i) : (uncycle k r)[i + 1] = r[i] := by
  simp [uncycle, h]

/-- Every register content is one cycle from another. -/
theorem cycle_uncycle (c : ShnCtx) (r : Vector UInt32 16) :
    (cycle { c with R := uncycle c.konst r }).R = r := by
  have hlast : sbox1 ((uncycle c.konst r)[12] ^^^ (uncycle c.konst r)[13] ^^^ c.konst) ^^^
      rotl (uncycle c.konst r)[0] 1 = r[15] := by
    have h12 : (uncycle c.konst r)[12] = r[11] := uncycle_succ c.konst r (by decide) (by decide)
    have h13 : (uncycle c.konst r)[13] = r[12] := uncycle_succ c.konst r (by decide) (by decide)
    have h0 : (uncycle c.konst r)[0] =
        rotl (r[15] ^^^ sbox1 (r[11] ^^^ r[12] ^^^ c.konst)) 31 := by
      simp [uncycle]
    rw [h12, h13, h0, rotl_rotl, UInt32.xor_comm, UInt32.xor_assoc, UInt32.xor_self,
      UInt32.xor_zero]
  have hshift : ∀ i (hi : i < 16), 0 < i → (shiftIn (uncycle c.konst r) r[15])[i] = r[i] := by
    intro i hi hpos
    by_cases h : i + 1 < 16
    · simpa [shiftIn, h] using uncycle_succ c.konst r h hpos
    · obtain rfl : i = 15 := by omega
      simp [shiftIn]
  have h0 : (shiftIn (uncycle c.konst r) r[15])[0] = r[0] ^^^ sbox2 (r[2] ^^^ r[15]) := by
    have h1 : (uncycle c.konst r)[1] = r[0] ^^^ sbox2 (r[2] ^^^ r[15]) := by
      simp [uncycle]
    simpa [shiftIn] using h1
  simp only [cycle]
  rw [hlast]
  ext i hi
  rw [hshift 2 (by decide) (by decide), hshift 15 (by decide) (by decide), h0]
  by_cases hpos : i = 0
  · subst hpos
    rw [Vector.getElem_set_self, UInt32.xor_assoc, UInt32.xor_self, UInt32.xor_zero]
  · rw [Vector.getElem_set_ne _ _ (by omega), hshift i hi (by omega)]

/-- The register after a cycle with the semi-constant `k`. -/
def cycleReg (k : UInt32) (r : Vector UInt32 16) : Vector UInt32 16 :=
  (cycle { (default : ShnCtx) with konst := k, R := r }).R

theorem cycle_R (c : ShnCtx) : (cycle c).R = cycleReg c.konst c.R := by
  simp only [cycleReg, cycle]

theorem cycle_konst (c : ShnCtx) : (cycle c).konst = c.konst := by
  rw [cycle]

theorem cycleReg_surjective (k : UInt32) : Function.Surjective (cycleReg k) := fun r =>
  ⟨uncycle k r, cycle_uncycle { (default : ShnCtx) with konst := k } r⟩

theorem cycles_R (n : Nat) (c : ShnCtx) : (cycles n c).R = (cycleReg c.konst)^[n] c.R := by
  induction n generalizing c with
  | zero => rfl
  | succ n ih => rw [cycles, ih, cycle_R, cycle_konst, Function.iterate_succ_apply]

theorem cycles_konst (n : Nat) (c : ShnCtx) : (cycles n c).konst = c.konst := by
  induction n generalizing c with
  | zero => rfl
  | succ n ih => rw [cycles, ih, cycle_konst]

theorem macBytes_words (m : Nat) (c : ShnCtx) : (macBytes (4 * m) c).1 = cycles m c := by
  induction m generalizing c with
  | zero => rfl
  | succ m ih => rw [Nat.mul_succ, macBytes_succ, ih, cycles]

/-- A register of zeros. -/
def zeros : Vector UInt32 16 := Vector.replicate 16 0

/-- `addkey` on the register. -/
def addkeyReg (k : UInt32) (r : Vector UInt32 16) : Vector UInt32 16 :=
  (addkey { (default : ShnCtx) with R := r } k).R

theorem addkeyReg_addkeyReg (k : UInt32) (r : Vector UInt32 16) :
    addkeyReg k (addkeyReg k r) = r := by
  unfold addkeyReg addkey
  ext i hi
  by_cases h : i = 13
  · subst h
    rw [Vector.getElem_set_self, Vector.getElem_set_self, UInt32.xor_assoc, UInt32.xor_self,
      UInt32.xor_zero]
  · rw [Vector.getElem_set_ne _ _ (by omega), Vector.getElem_set_ne _ _ (by omega)]

theorem addkeyReg_zero (r : Vector UInt32 16) : addkeyReg 0 r = r := by
  unfold addkeyReg addkey
  rw [UInt32.xor_zero, Vector.set_getElem_self]

/-- A context with nothing in its CRC. -/
def blank (n : Nat) (r : Vector UInt32 16) : ShnCtx :=
  { R := r, CRC := zeros, initR := zeros, konst := 0, sbuf := 0, mbuf := 0, nbuf := n }

theorem macfunc_blank (n : Nat) (r : Vector UInt32 16) : macfunc (blank n r) 0 = blank n r := by
  have hzeros : shiftIn zeros (zeros[0] ^^^ zeros[2] ^^^ zeros[15] ^^^ 0) = zeros := by decide
  have hcrc : crcfunc (blank n r) 0 = blank n r :=
    congrArg (fun v => { blank n r with CRC := v }) hzeros
  rw [macfunc, hcrc]
  exact congrArg (fun v => { blank n r with R := v }) (addkeyReg_zero r)

theorem xorCRC_zeros (r : Vector UInt32 16) : Vector.zipWith (· ^^^ ·) r zeros = r := by
  ext i hi
  simp [zeros]

theorem shnFinish_blank (n m : Nat) (r : Vector UInt32 16) :
    (cycle (shnFinish (blank n r) (4 * m)).1).R =
      cycleReg 0 ((cycleReg 0)^[m] ((cycleReg 0)^[16]
        (addkeyReg (INITKONST ^^^ (UInt32.ofNat n <<< 3)) (cycleReg 0 r)))) := by
  have hopen : (if (blank n r).nbuf ≠ 0 then macfunc (blank n r) (blank n r).mbuf
      else blank n r) = blank n r := by
    split
    · exact macfunc_blank n r
    · rfl
  have hmark : (xorCRC (clearBuf (addkey (cycle (blank n r))
      (INITKONST ^^^ (UInt32.ofNat n <<< 3))))).R =
        addkeyReg (INITKONST ^^^ (UInt32.ofNat n <<< 3)) (cycleReg 0 r) :=
    xorCRC_zeros _
  simp only [shnFinish, hopen]
  rw [macBytes_words, cycle_R, cycles_R, cycles_konst, shnDiffuse, cycles_R, cycles_konst]
  exact congrArg (fun v => cycleReg 0 ((cycleReg 0)^[m] ((cycleReg 0)^[16] v))) hmark

/-- The word behind any number of output words can be any, as 1. -/
theorem exists_sbuf (n m : Nat) :
    ∃ r, (cycle (shnFinish (blank n r) (4 * m)).1).sbuf = 1 := by
  have hsurj : Function.Surjective fun r => (cycle (shnFinish (blank n r) (4 * m)).1).R := by
    have h0 := cycleReg_surjective 0
    have hadd : Function.Surjective (addkeyReg (INITKONST ^^^ (UInt32.ofNat n <<< 3))) :=
      fun r => ⟨_, addkeyReg_addkeyReg _ r⟩
    have h := h0.comp ((h0.iterate m).comp ((h0.iterate 16).comp (hadd.comp h0)))
    convert h using 1
    funext r
    exact shnFinish_blank n m r
  obtain ⟨r, hr⟩ := hsurj (zeros.set 8 1)
  refine ⟨r, ?_⟩
  dsimp only at hr
  -- the output word is read off the register
  have hsbuf : ∀ c : ShnCtx, (cycle c).sbuf =
      sbox2 ((cycle c).R[2] ^^^ (cycle c).R[15]) ^^^ (cycle c).R[8] ^^^ (cycle c).R[12] := by
    intro c
    simp only [cycle]
    rw [Vector.getElem_set_ne _ _ (by decide), Vector.getElem_set_ne _ _ (by decide),
      Vector.getElem_set_ne _ _ (by decide), Vector.getElem_set_ne _ _ (by decide)]
  rw [hsbuf, hr]
  decide

end Despotify.Shannon

/-! ## The sign of a byte -/

namespace Despotify.Interop

open Despotify.Shannon (Dir ShnCtx norm byte)

/-- The bits above a byte that its sign sets, in the lane of a word. -/
def signBits (lane : Nat) (b : UInt8) : UInt32 :=
  (if b < 128 then 0 else 0xFFFFFF00) <<< UInt32.ofNat (8 * lane)

/-- What the signs of consecutive bytes put into `mbuf`. -/
def signs : Nat → List UInt8 → UInt32
  | _, [] => 0
  | lane, b :: bs => signBits lane b ^^^ signs (lane + 1) bs

theorem toUInt32_toInt32 (b : Int8) :
    b.toInt32.toUInt32 = b.toUInt8.toUInt32 ^^^ (if b.toUInt8 < 128 then 0 else 0xFFFFFF00) := by
  have hall : ∀ n : Fin 256, (UInt8.ofFin n).toInt8.toInt32.toUInt32 =
      (UInt8.ofFin n).toUInt32 ^^^ (if UInt8.ofFin n < 128 then 0 else 0xFFFFFF00) := by
    decide +kernel
  exact hall b.toUInt8.toFin

/-- The sign of a byte sets every bit above its lane. -/
theorem signBits_bit : ∀ lane < 4, ∀ j < 32,
    ((0xFFFFFF00 : UInt32) <<< UInt32.ofNat (8 * lane)).toBitVec.getLsbD j =
      decide (8 * lane + 8 ≤ j) := by
  decide +kernel

theorem signs_low {lane : Nat} {bs : List UInt8} (h : lane + bs.length ≤ 4) {j : Nat}
    (hj : j < 8 * lane + 8) (h32 : j < 32) : (signs lane bs).toBitVec.getLsbD j = false := by
  induction bs generalizing lane with
  | nil => exact BitVec.getLsbD_zero
  | cons b bs ih =>
    rw [List.length_cons] at h
    rw [signs, UInt32.toBitVec_xor, BitVec.getLsbD_xor, ih (by omega) (by omega), Bool.xor_false,
      signBits]
    split
    · rw [UInt32.zero_shiftLeft]
      exact BitVec.getLsbD_zero
    · rw [signBits_bit lane (by omega) j h32]
      exact decide_eq_false (by omega)

/-- The sign of the last byte of a word is shifted out. -/
theorem signs_eq_zero {lane : Nat} {bs : List UInt8} (h : lane + bs.length ≤ 4) :
    signs lane bs = 0 ↔ ∀ b ∈ bs.take (3 - lane), b < 128 := by
  induction bs generalizing lane with
  | nil => simp [signs]
  | cons b bs ih =>
    rw [List.length_cons] at h
    have hrest : signs (lane + 1) bs = 0 ↔ ∀ b ∈ bs.take (3 - (lane + 1)), b < 128 :=
      ih (by omega)
    by_cases hb : b < 128
    · have hsign : signBits lane b = 0 := by
        rw [signBits, if_pos hb, UInt32.zero_shiftLeft]
      rw [signs, hsign, UInt32.zero_xor, hrest]
      rcases Nat.lt_or_ge lane 3 with h3 | h3
      · obtain ⟨t, ht⟩ : ∃ t, 3 - lane = t + 1 := ⟨2 - lane, by omega⟩
        have ht' : 3 - (lane + 1) = t := by omega
        simp [ht, ht', hb]
      · have h0 : 3 - lane = 0 := by omega
        have h0' : 3 - (lane + 1) = 0 := by omega
        simp [h0, h0']
    · rcases Nat.lt_or_ge lane 3 with h3 | h3
      · obtain ⟨t, ht⟩ : ∃ t, 3 - lane = t + 1 := ⟨2 - lane, by omega⟩
        have hbit : (signs lane (b :: bs)).toBitVec.getLsbD (8 * lane + 8) = true := by
          rw [signs, UInt32.toBitVec_xor, BitVec.getLsbD_xor,
            signs_low (by omega) (by omega) (by omega), signBits, if_neg hb,
            signBits_bit lane (by omega) _ (by omega)]
          simp
        have hne : signs lane (b :: bs) ≠ 0 := by
          intro h0
          rw [h0] at hbit
          simp at hbit
        simp [hne, ht, hb]
      · have h0 : 3 - lane = 0 := by omega
        obtain rfl : lane = 3 := by omega
        obtain rfl : bs = [] := List.length_eq_zero_iff.mp (by omega)
        have hsign : signs 3 [b] = 0 := by
          rw [signs, signBits, if_neg hb, signs]
          decide
        simp [hsign]
/-- A context whose `mbuf` is off. -/
def off (d : UInt32) (c : ShnCtx) : ShnCtx := { c with mbuf := c.mbuf ^^^ d }

theorem off_zero (c : ShnCtx) : off 0 c = c := by
  unfold off
  rw [UInt32.xor_zero]

theorem xor_eq_self {x d : UInt32} : x ^^^ d = x ↔ d = 0 := by
  have h := UInt32.xor_right_inj (a := d) (b := 0) x
  rwa [UInt32.xor_zero] at h

theorem off_eq_self {d : UInt32} {c : ShnCtx} : off d c = c ↔ d = 0 := by
  constructor
  · intro h
    exact xor_eq_self.mp (congrArg ShnCtx.mbuf h : c.mbuf ^^^ d = c.mbuf)
  · rintro rfl
    exact off_zero c

theorem xor_shiftLeft (x y k : UInt32) : (x ^^^ y) <<< k = x <<< k ^^^ y <<< k := by
  rw [← UInt32.toBitVec_inj]
  exact BitVec.shiftLeft_xor_distrib _ _ _

theorem toC_macByte (d : UInt32) (c : Java.Shannon) (b : Int8) {lane : Nat} (hlane : lane < 4)
    (h : c.nbuf = 32 - 8 * lane) :
    Shannon.macByte (off d (toC c)) b.toUInt8 =
      off (d ^^^ signBits lane b.toUInt8) (toC (c.macByte b)) := by
  have hsh : 32 - c.nbuf = 8 * lane := by omega
  have hk : 8 * lane = 0 ∨ 8 * lane = 8 ∨ 8 * lane = 16 ∨ 8 * lane = 24 := by omega
  have hshift : (b.toInt32 <<< Int32.ofNat (8 * lane)).toUInt32 =
      (b.toUInt8.toUInt32 <<< UInt32.ofNat (8 * lane)) ^^^ signBits lane b.toUInt8 := by
    rw [toUInt32_shiftLeft _ hk, toUInt32_toInt32, xor_shiftLeft]
    rfl
  simp only [Shannon.macByte, Java.Shannon.macByte, off, toC, hsh, Int32.toUInt32_xor, hshift]
  congr 1
  generalize b.toUInt8.toUInt32 <<< UInt32.ofNat (8 * lane) = x
  generalize signBits lane b.toUInt8 = y
  generalize c.mbuf.toUInt32 = z
  rw [← UInt32.toBitVec_inj]
  ext j hj
  simp only [UInt32.toBitVec_xor, BitVec.getElem_xor]
  cases x.toBitVec[j] <;> cases y.toBitVec[j] <;> cases z.toBitVec[j] <;>
    cases d.toBitVec[j] <;> rfl

/-- The buffered loop: the bytes `done` go into the word, their signs too. -/
theorem macBuffered_eq (c : Java.Shannon) (pre rest : List Int8) (d : UInt32) {lane : Nat}
    (hlane : lane ≤ 4) (h : c.nbuf = 32 - 8 * lane) :
    ∃ c' done left, rest = done ++ left ∧
      c.macBuffered (pre ++ rest) pre.length rest.length =
        some (c', pre.length + done.length, left.length) ∧
      Shannon.macBuffered (off d (toC c)) (bytes rest) =
        (off (d ^^^ signs lane (bytes done)) (toC c'), bytes left) ∧
      done.length = min (4 - lane) rest.length ∧ c'.nbuf = 32 - 8 * (lane + done.length) := by
  induction rest generalizing c pre d lane with
  | nil =>
    refine ⟨c, [], [], rfl, rfl, ?_, (Nat.min_zero _).symm, h⟩
    rw [bytes, List.map_nil, signs, UInt32.xor_zero]
    rfl
  | cons b rest ih =>
    by_cases hn : c.nbuf = 0
    · have hlane : lane = 4 := by omega
      subst hlane
      refine ⟨c, [], b :: rest, rfl, ?_, ?_, by simp, h⟩
      · rw [List.length_cons, Java.Shannon.macBuffered, if_neg (by simpa using hn)]
        rfl
      · have hn' : (off d (toC c)).nbuf = 0 := hn
        simp [signs, bytes, Shannon.macBuffered, hn']
    · have hn' : (off d (toC c)).nbuf ≠ 0 := hn
      have hstep : (c.macByte b).nbuf = 32 - 8 * (lane + 1) := by
        show c.nbuf - 8 = _
        omega
      have hlane : lane + 1 ≤ 4 := by omega
      obtain ⟨c', done, left, hrest, hj, hc, hlen, hnbuf⟩ := ih (c.macByte b) (pre ++ [b])
        (d ^^^ signBits lane b.toUInt8) hlane hstep
      refine ⟨c', b :: done, left, by rw [hrest, List.cons_append], ?_, ?_, ?_, ?_⟩
      · rw [List.length_append, List.length_singleton, List.append_assoc] at hj
        rw [List.length_cons, Java.Shannon.macBuffered, if_pos hn, getElem?_cursor,
          List.length_cons, Nat.add_comm done.length, ← Nat.add_assoc]
        exact hj
      · rw [bytes, List.map_cons, Shannon.macBuffered, if_pos hn', toC_macByte d c b (by omega) h]
        refine hc.trans ?_
        have hsigns : signs lane (bytes (b :: done)) =
            signBits lane b.toUInt8 ^^^ signs (lane + 1) (bytes done) := rfl
        rw [hsigns, UInt32.xor_assoc]
      · rw [List.length_cons, hlen, List.length_cons]
        omega
      · rw [hnbuf, List.length_cons, Nat.add_assoc, Nat.add_comm 1]

/-! ## Whole words and the tail -/

theorem macWords_short (c : ShnCtx) {tail : List UInt8} (h0 : tail ≠ []) (h4 : tail.length < 4) :
    Shannon.macWords c tail =
      (Shannon.macBuffered { Shannon.cycle c with mbuf := 0, nbuf := 32 } tail).1 := by
  match tail, h0, h4 with
  | [_], _, _ | [_, _], _, _ | [_, _, _], _, _ => simp only [Shannon.macWords]
  | _ :: _ :: _ :: _ :: _, _, h => simp at h; omega

theorem macTail_eq (c : Java.Shannon) (pre rest : List Int8) (hn : c.nbuf = 0)
    (h4 : rest.length < 4) :
    ∃ c', c.macTail (pre ++ rest) pre.length rest.length = some c' ∧
      Shannon.macWords (toC c) (bytes rest) = off (signs 0 (bytes rest)) (toC c') ∧
      c'.nbuf = 8 * ((4 - rest.length) % 4) := by
  by_cases hrest : rest = []
  · subst hrest
    exact ⟨c, rfl, (off_zero _).symm, hn⟩
  · have hpos : rest.length ≠ 0 := fun h => hrest (List.length_eq_zero_iff.mp h)
    obtain ⟨k, hk⟩ : ∃ k, k = c.cycle := ⟨_, rfl⟩
    obtain ⟨c', done, left, hsplit, hj, hc, hlen, hnbuf⟩ := macBuffered_eq
      { k with mbuf := 0, nbuf := 32 } pre rest 0 (Nat.zero_le 4) rfl
    have hdone : done.length = rest.length := by omega
    obtain rfl : left = [] := by
      have hsum := congrArg List.length hsplit
      rw [List.length_append] at hsum
      exact List.length_eq_zero_iff.mp (by omega)
    rw [List.append_nil] at hsplit
    subst hsplit
    refine ⟨c', ?_, ?_, by omega⟩
    · rw [Java.Shannon.macTail, if_pos hpos, ← hk, hj]
      rfl
    · have hopen : off 0 (toC { k with mbuf := 0, nbuf := 32 }) =
          { Shannon.cycle (toC c) with mbuf := 0, nbuf := 32 } := by
        rw [off_zero, ← toC_cycle, ← hk]
        rfl
      rw [macWords_short _ (by simpa [bytes] using hrest) (by rwa [length_bytes]), ← hopen, hc,
        UInt32.zero_xor]

/-- No whole word is left: the loop is over. -/
theorem macWords_stop {j : Nat} (c : Java.Shannon) (pre rest : List Int8) (hn : c.nbuf = 0)
    (h4 : rest.length < 4) (hj : j ≤ pre.length + (rest.length - rest.length % 4)) :
    ∃ c', (c.macWords (pre ++ rest) pre.length j).bind
        (fun r => r.1.macTail (pre ++ rest) r.2 (rest.length % 4)) = some c' ∧
      Shannon.macWords (toC c) (bytes rest) =
        off (signs 0 (bytes (rest.drop (4 * (rest.length / 4))))) (toC c') ∧
      c'.nbuf = 8 * ((4 - rest.length % 4) % 4) := by
  obtain ⟨c', htail, hc, hnbuf⟩ := macTail_eq c pre rest hn h4
  have hmod : rest.length % 4 = rest.length := Nat.mod_eq_of_lt h4
  have hdiv : 4 * (rest.length / 4) = 0 := by omega
  refine ⟨c', ?_, ?_, by rw [hmod]; exact hnbuf⟩
  · rw [Java.Shannon.macWords, if_neg (by omega), Option.bind_some, hmod]
    exact htail
  · rw [hdiv, List.drop_zero]
    exact hc

/-- The loop that compares the moved `i` with the old bound `j`, and the tail. -/
theorem macWords_eq (j : Nat) : ∀ (c : Java.Shannon) (pre rest : List Int8), c.nbuf = 0 →
    j ≤ pre.length + (rest.length - rest.length % 4) →
    pre.length + (rest.length - rest.length % 4) < j + 4 →
    ∃ c', (c.macWords (pre ++ rest) pre.length j).bind
        (fun r => r.1.macTail (pre ++ rest) r.2 (rest.length % 4)) = some c' ∧
      Shannon.macWords (toC c) (bytes rest) =
        off (signs 0 (bytes (rest.drop (4 * (rest.length / 4))))) (toC c') ∧
      c'.nbuf = 8 * ((4 - rest.length % 4) % 4)
  | c, pre, b0 :: b1 :: b2 :: b3 :: rest, hn, hj, hj' => by
    have hlen : (b0 :: b1 :: b2 :: b3 :: rest).length = rest.length + 4 := rfl
    rw [hlen] at hj hj' ⊢
    have hmod : (rest.length + 4) % 4 = rest.length % 4 := by omega
    have hdiv : 4 * ((rest.length + 4) / 4) = 4 * (rest.length / 4) + 4 := by omega
    have hword : toC (c.cycle.macFunc (Java.word b0 b1 b2 b3)) =
        Shannon.macfunc (Shannon.cycle (toC c))
          (Shannon.byte2word b0.toUInt8 b1.toUInt8 b2.toUInt8 b3.toUInt8) := by
      rw [toC_macFunc, toC_cycle, toUInt32_word]
    obtain ⟨c', hrun, hc, hnbuf⟩ := macWords_eq j (c.cycle.macFunc (Java.word b0 b1 b2 b3))
      (pre ++ [b0, b1, b2, b3]) rest (by rw [nbuf_macFunc, nbuf_cycle, hn])
      (by simp only [List.length_append, List.length_cons, List.length_nil]; omega)
      (by simp only [List.length_append, List.length_cons, List.length_nil]; omega)
    have hpre : pre ++ b0 :: b1 :: b2 :: b3 :: rest = pre ++ [b0, b1, b2, b3] ++ rest := by simp
    refine ⟨c', ?_, ?_, by rw [hmod]; exact hnbuf⟩
    · have hstep : (c.macWords (pre ++ b0 :: b1 :: b2 :: b3 :: rest) pre.length j) =
          (c.cycle.macFunc (Java.word b0 b1 b2 b3)).macWords
            (pre ++ [b0, b1, b2, b3] ++ rest) (pre ++ [b0, b1, b2, b3]).length j := by
        rw [Java.Shannon.macWords, if_pos (by omega), loadWord_cursor, hpre, List.length_append]
        rfl
      rw [hstep, hmod, hpre]
      exact hrun
    · rw [hdiv, List.drop_succ_cons, List.drop_succ_cons, List.drop_succ_cons, List.drop_succ_cons,
        ← hc, hword]
      simp only [bytes, List.map_cons, Shannon.macWords]
  | c, pre, [], hn, hj, _ => macWords_stop c pre [] hn (by simp) hj
  | c, pre, [b0], hn, hj, _ => macWords_stop c pre [b0] hn (by simp) hj
  | c, pre, [b0, b1], hn, hj, _ => macWords_stop c pre [b0, b1] hn (by simp) hj
  | c, pre, [b0, b1, b2], hn, hj, _ => macWords_stop c pre [b0, b1, b2] hn (by simp) hj

/-! ## One call -/

/-- The bytes that go into an open word without filling it, `k` bytes before it is full. -/
def openBytes (k : Nat) (buf : List UInt8) : List UInt8 :=
  buf.take (k - 1) ++ buf.drop (k + 4 * ((buf.length - k) / 4))

/-- The words and the tail, which no open word precedes. -/
theorem macRest_eq (c : Java.Shannon) (pre rest : List Int8) (hn : c.nbuf = 0)
    (hpre : pre.length < 4) :
    ∃ c', c.macRest (pre ++ rest) pre.length rest.length = some c' ∧
      Shannon.macWords (toC c) (bytes rest) =
        off (signs 0 (bytes (rest.drop (4 * (rest.length / 4))))) (toC c') ∧
      c'.nbuf = 8 * (3 * rest.length % 4) ∧
      (signs 0 (bytes (rest.drop (4 * (rest.length / 4)))) = 0 ↔
        ∀ b ∈ (bytes rest).drop (4 * (rest.length / 4)), b < 128) := by
  obtain ⟨c', hj, hc, hnbuf⟩ := macWords_eq (rest.length - rest.length % 4) c pre rest hn
    (by omega) (by omega)
  refine ⟨c', hj, hc, by omega, ?_⟩
  have hlen : (rest.drop (4 * (rest.length / 4))).length < 4 := by
    rw [List.length_drop]
    omega
  rw [signs_eq_zero (by rw [length_bytes]; omega),
    List.take_of_length_le (by rw [length_bytes]; omega)]
  simp only [bytes, List.map_drop]

/-- **One call**: `macOnly` leaves what `shn_maconly` leaves, unless a byte above 127 stays in
an open word. -/
theorem macOnly_eq (c : Java.Shannon) {k : Nat} (hk : k < 4) (hn : c.nbuf = 8 * k)
    (buf : List Int8) :
    ∃ c', c.macOnly buf = some c' ∧ c'.nbuf = 8 * ((k + 3 * buf.length) % 4) ∧
      (Shannon.shnMaconly (toC c) (bytes buf) = toC c' ↔
        ∀ b ∈ openBytes k (bytes buf), b < 128) := by
  have hnC : (toC c).nbuf = c.nbuf := rfl
  rcases Nat.eq_zero_or_pos k with rfl | hpos
  · obtain ⟨c', hj, hc, hnbuf, hsigns⟩ := macRest_eq c [] buf hn (by decide)
    refine ⟨c', ?_, by rw [hnbuf, Nat.zero_add], ?_⟩
    · rw [Java.Shannon.macOnly, if_neg (by omega)]
      exact hj
    · rw [Shannon.shnMaconly, if_neg (by omega), hc, off_eq_self, hsigns]
      simp [openBytes, length_bytes]
  · obtain ⟨c1, done, left, rfl, hj, hc, hlen, hnbuf⟩ := macBuffered_eq c [] buf 0
      (by omega : 4 - k ≤ 4) (by omega)
    have hdone : signs (4 - k) (bytes done) = 0 ↔ ∀ b ∈ (bytes done).take (k - 1), b < 128 := by
      rw [signs_eq_zero (by rw [length_bytes]; omega)]
      have hlane : 3 - (4 - k) = k - 1 := by omega
      rw [hlane]
    generalize hd : signs (4 - k) (bytes done) = d at hc hdone
    rw [off_zero, UInt32.zero_xor] at hc
    have hnC1 : (off d (toC c1)).nbuf = c1.nbuf := rfl
    have hloop : c.macBuffered (done ++ left) 0 (done ++ left).length =
        some (c1, done.length, left.length) := by simpa using hj
    rw [List.length_append] at hlen
    by_cases hn1 : c1.nbuf = 0
    · -- the word is full: its signs go into the CRC
      have hk' : done.length = k := by omega
      obtain ⟨c', hj', hc', hnbuf', hsigns⟩ := macRest_eq (c1.macFunc c1.mbuf) done left
        ((nbuf_macFunc c1 c1.mbuf).trans hn1) (by omega)
      refine ⟨c', ?_, ?_, ?_⟩
      · rw [Java.Shannon.macOnly, if_pos (by omega), hloop]
        simp only [Option.bind_eq_bind, Option.bind_some, hn1, ne_eq, not_true_eq_false, if_false]
        exact hj'
      · rw [hnbuf', List.length_append, hk']
        omega
      · have hrun : Shannon.shnMaconly (toC c) (bytes (done ++ left)) =
            Shannon.macWords (Shannon.macfunc (off d (toC c1)) ((toC c1).mbuf ^^^ d))
              (bytes left) := by
          rw [Shannon.shnMaconly, if_pos (by omega), hc]
          simp only [hnC1, hn1, ne_eq, not_true_eq_false, if_false]
          rfl
        have hopen : openBytes k (bytes (done ++ left)) =
            (bytes done).take (k - 1) ++ (bytes left).drop (4 * (left.length / 4)) := by
          have hlenB : (bytes done).length = k := (length_bytes done).trans hk'
          have hleft : (bytes (done ++ left)).length - k = left.length := by
            rw [length_bytes, List.length_append]
            omega
          rw [openBytes, hleft, bytes_append, List.take_append_of_le_length (by omega),
            ← List.drop_drop, List.drop_left' hlenB]
        rw [hrun, hopen, List.forall_mem_append, ← hdone, ← hsigns]
        rw [toC_macFunc] at hc'
        constructor
        · intro h
          have hcrc : (Shannon.macfunc (off d (toC c1)) ((toC c1).mbuf ^^^ d)).CRC =
              (Shannon.macfunc (toC c1) c1.mbuf.toUInt32).CRC := by
            apply Shannon.macWords_crc_inj (bytes left)
            rw [h, hc']
            rfl
          have hoff : (off d (toC c1)).CRC = (toC c1).CRC := rfl
          have hword : (toC c1).mbuf ^^^ d = (toC c1).mbuf := Shannon.crcfunc_word_inj hoff hcrc
          obtain rfl : d = 0 := xor_eq_self.mp hword
          refine ⟨rfl, ?_⟩
          rw [off_zero, UInt32.xor_zero] at h
          rw [← off_eq_self (c := toC c')]
          exact hc'.symm.trans h
        · rintro ⟨hd0, h0⟩
          rw [h0, off_zero] at hc'
          rw [hd0, off_zero, UInt32.xor_zero]
          exact hc'
    · have hleft : left = [] := List.length_eq_zero_iff.mp (by omega)
      subst hleft
      refine ⟨c1, ?_, ?_, ?_⟩
      · rw [Java.Shannon.macOnly, if_pos (by omega), hloop]
        simp [hn1]
      · rw [hnbuf, List.append_nil]
        rw [List.length_nil, Nat.add_zero] at hlen
        omega
      · have hopen : openBytes k (bytes (done ++ [])) = (bytes done).take (k - 1) := by
          have hlenB : (bytes done).length ≤ k - 1 := by
            rw [length_bytes]
            omega
          rw [openBytes, List.append_nil, List.drop_of_length_le (by omega), List.append_nil]
        rw [hopen, ← hdone, ← off_eq_self (c := toC c1), Shannon.shnMaconly, if_pos (by omega),
          hc]
        simp only [hnC1, hn1, ne_eq, not_false_eq_true, if_true]

/-! ## Several calls -/

/-- One call for each chunk. -/
def macOnlys : Java.Shannon → List (List Int8) → Option Java.Shannon
  | c, [] => some c
  | c, buf :: bufs => do macOnlys (← c.macOnly buf) bufs

/-- No byte above 127 stays in an open word: the word is `k` bytes before it is full. -/
def Unsigned : Nat → List (List Int8) → Prop
  | _, [] => True
  | k, buf :: bufs =>
    (∀ b ∈ openBytes k (bytes buf), b < 128) ∧ Unsigned ((k + 3 * buf.length) % 4) bufs

instance Unsigned.decide (k : Nat) : ∀ chunks, Decidable (Unsigned k chunks)
  | [] => .isTrue trivial
  | buf :: bufs =>
    have := Unsigned.decide ((k + 3 * buf.length) % 4) bufs
    inferInstanceAs (Decidable (_ ∧ _))

/-- The object after the calls is the context after the calls of `shn_maconly`. -/
def AsMaconly (c : Java.Shannon) (chunks : List (List Int8)) : Prop :=
  ∃ c', macOnlys c chunks = some c' ∧
    toC c' = (chunks.map bytes).foldl Shannon.shnMaconly (toC c)

theorem asMaconly_iff {k : Nat} (hk : k < 4) (chunks : List (List Int8)) (c : Java.Shannon)
    (hn : c.nbuf = 8 * k) :
    (∀ front, front <+: chunks → AsMaconly c front) ↔ Unsigned k chunks := by
  induction chunks generalizing c k with
  | nil =>
    refine ⟨fun _ => trivial, fun _ front h => ?_⟩
    rw [List.prefix_nil.mp h]
    exact ⟨c, rfl, rfl⟩
  | cons buf bufs ih =>
    obtain ⟨c1, hj, hnbuf, hc⟩ := macOnly_eq c hk hn buf
    have hih := ih (Nat.mod_lt _ (by decide)) c1 hnbuf
    have hcons : toC c1 = Shannon.shnMaconly (toC c) (bytes buf) →
        ∀ front, AsMaconly c (buf :: front) ↔ AsMaconly c1 front := by
      intro h front
      rw [AsMaconly, AsMaconly, macOnlys, hj, List.map_cons, List.foldl_cons, ← h]
      rfl
    rw [Unsigned, ← hc, ← hih]
    constructor
    · intro h
      have hone : Shannon.shnMaconly (toC c) (bytes buf) = toC c1 := by
        obtain ⟨c', hrun, hstate⟩ := h [buf] (List.cons_prefix_cons.mpr ⟨rfl, List.nil_prefix⟩)
        rw [macOnlys, hj] at hrun
        obtain rfl : c1 = c' := Option.some.inj hrun
        exact hstate.symm
      refine ⟨hone, fun front hfront => ?_⟩
      exact (hcons hone.symm front).mp (h _ (List.cons_prefix_cons.mpr ⟨rfl, hfront⟩))
    · rintro ⟨hone, h⟩ front hfront
      rcases List.prefix_cons_iff.mp hfront with rfl | ⟨tail, rfl, htail⟩
      · exact ⟨c, rfl, rfl⟩
      · exact (hcons hone.symm tail).mpr (h tail htail)

/-! ## The bytes of the MAC -/

/-- The first `n` bytes of the buffer after `finish(buffer, n)`. -/
def macOf (c : Java.Shannon) (buffer : List Int8) (n : Nat) : Option (List UInt8) :=
  (c.finish buffer n).map fun r => bytes (r.2.take n)

/-- The bytes of whole words, and the low byte of one more `t` times. -/
def lowBytes (c : ShnCtx) (m t : Nat) : List UInt8 :=
  (Shannon.shnFinish c (4 * m)).2 ++
    List.replicate t (byte (Shannon.cycle (Shannon.shnFinish c (4 * m)).1).sbuf 0)

theorem macOf_eq (c : Java.Shannon) (buffer : List Int8) (m : Nat) {t : Nat} (ht : t < 4)
    (h : 4 * m + t ≤ buffer.length) :
    macOf c buffer (4 * m + t) = some (lowBytes (toC c) m t) := by
  have hlen : (buffer.take (4 * m + t)).length = 4 * m + t := by
    rw [List.length_take]
    omega
  obtain ⟨c', out, hj, hc⟩ := finish_eq c m ht (buffer.take (4 * m + t))
    (buffer.drop (4 * m + t)) hlen
  rw [List.take_append_drop] at hj
  have hout : out.length = 4 * m + t := by
    have hlenC := congrArg List.length hc
    rwa [length_bytes, List.length_append, Shannon.length_shnFinish, List.length_replicate]
      at hlenC
  rw [macOf, hj, Option.map_some, List.take_left' hout, hc]
  rfl

/-- A dead `mbuf` is not in the MAC. -/
theorem lowBytes_norm {c c' : ShnCtx} (h : norm c = norm c') (m t : Nat) :
    lowBytes c m t = lowBytes c' m t := by
  have hone := Shannon.shnFinish_norm h (4 * m + 1)
  rw [Shannon.shnFinish_add c m (by decide), Shannon.shnFinish_add c' m (by decide)] at hone
  obtain ⟨hwords, hlow⟩ := List.append_inj hone (by rw [Shannon.shnFinish_norm h])
  have hbyte : byte (Shannon.cycle (Shannon.shnFinish c (4 * m)).1).sbuf 0 =
      byte (Shannon.cycle (Shannon.shnFinish c' (4 * m)).1).sbuf 0 := List.head_eq_of_cons_eq hlow
  rw [lowBytes, lowBytes, hwords, hbyte]

/-- Up to one byte the low byte is the byte. -/
theorem lowBytes_eq (c : ShnCtx) (m : Nat) {t : Nat} (ht : t ≤ 1) :
    lowBytes c m t = (Shannon.shnFinish c (4 * m + t)).2 := by
  rw [Shannon.shnFinish_add c m (by omega), lowBytes]
  match t, ht with
  | 0, _ | 1, _ => rfl

theorem lowBytes_ne (n m : Nat) {t : Nat} (h2 : 2 ≤ t) (h4 : t < 4) :
    ∃ r, lowBytes (Shannon.blank n r) m t ≠
      (Shannon.shnFinish (Shannon.blank n r) (4 * m + t)).2 := by
  obtain ⟨r, hr⟩ := Shannon.exists_sbuf n m
  refine ⟨r, fun h => ?_⟩
  rw [Shannon.shnFinish_add _ m h4, lowBytes, hr] at h
  have htail := List.append_cancel_left h
  match t, h2, h4 with
  | 2, _, _ | 3, _, _ => revert htail; decide

/-! ## The laws -/

/-- The laws of the MAC, from every state `k` bytes before a word is full: the chunks have the
MAC of their encryption in one call, they leave what `shn_maconly` leaves after each of them,
and `n` bytes of MAC are the first of `m`, those of `shn_finish`. -/
def MacLaws (k : Nat) (chunks : List (List Int8)) (n m : Nat) : Prop :=
  ∀ (c : Java.Shannon) (buffer : List Int8), c.nbuf = 8 * k → m ≤ buffer.length →
    (∃ c1 c2 out mac, macOnlys c chunks = some c1 ∧
      c.encrypt chunks.flatten = some (c2, out) ∧
      macOf c1 buffer n = some mac ∧ macOf c2 buffer n = some mac) ∧
    (∀ front, front <+: chunks → AsMaconly c front) ∧
    ∃ mac mac', macOf c buffer n = some mac ∧ macOf c buffer m = some mac' ∧
      mac = mac'.take n ∧ mac = (Shannon.shnFinish (toC c) n).2 ∧
      mac' = (Shannon.shnFinish (toC c) m).2

/-- The object that a context is the reading of. -/
def ofC (c : ShnCtx) : Java.Shannon where
  R := c.R.map UInt32.toInt32
  CRC := c.CRC.map UInt32.toInt32
  initR := c.initR.map UInt32.toInt32
  konst := c.konst.toInt32
  sbuf := c.sbuf.toInt32
  mbuf := c.mbuf.toInt32
  nbuf := c.nbuf

theorem toC_ofC (c : ShnCtx) : toC (ofC c) = c := by
  have hwords : ∀ r : Vector UInt32 16, words (r.map UInt32.toInt32) = r := by
    intro r
    ext i hi
    simp [words]
  simp [toC, ofC, hwords]

/-- The chunks of `shn_maconly` are one call of `shn_encrypt`. -/
theorem foldl_shnMaconly (c : ShnCtx) (bufs : List (List UInt8)) :
    norm (bufs.foldl Shannon.shnMaconly c) = norm (Shannon.shnEncrypt c bufs.flatten).1 := by
  induction bufs generalizing c with
  | nil =>
    have hnil : Shannon.shnEncrypt c [] = (c, []) := by
      unfold Shannon.shnEncrypt Shannon.shnCrypt
      split <;> simp_all [Shannon.cryptBuffered, Shannon.cryptWords]
    rw [List.flatten_nil, hnil, List.foldl_nil]
  | cons buf bufs ih =>
    have happ := (Shannon.shnCrypt_append .encrypt c buf bufs.flatten).1
    rw [List.foldl_cons, ih, Shannon.shnMaconly_eq, List.flatten_cons]
    exact happ

theorem bytes_flatten (chunks : List (List Int8)) :
    bytes chunks.flatten = (chunks.map bytes).flatten :=
  List.map_flatten

theorem macOf_of_norm {c c' : Java.Shannon} (h : norm (toC c) = norm (toC c'))
    (buffer : List Int8) {n : Nat} (hn : n ≤ buffer.length) :
    ∃ mac, macOf c buffer n = some mac ∧ macOf c' buffer n = some mac := by
  have ht : n % 4 < 4 := Nat.mod_lt _ (by decide)
  have hsplit : 4 * (n / 4) + n % 4 = n := Nat.div_add_mod n 4
  have hmac := macOf_eq c buffer (n / 4) ht (by omega)
  have hmac' := macOf_eq c' buffer (n / 4) ht (by omega)
  rw [← lowBytes_norm h] at hmac'
  rw [hsplit] at hmac hmac'
  exact ⟨_, hmac, hmac'⟩

/-- **The MAC of the class** obeys the laws exactly when no byte above 127 stays in an open
word and both lengths are at most one more than whole words. -/
theorem macLaws_iff {k n m : Nat} (hk : k < 4) (hnm : n ≤ m) (chunks : List (List Int8)) :
    MacLaws k chunks n m ↔ Unsigned k chunks ∧ n % 4 ≤ 1 ∧ m % 4 ≤ 1 := by
  have hfinish : ∀ (c : Java.Shannon) (buffer : List Int8) (n : Nat), n ≤ buffer.length →
      macOf c buffer n = some (lowBytes (toC c) (n / 4) (n % 4)) := by
    intro c buffer n hn
    have h := macOf_eq c buffer (n / 4) (Nat.mod_lt n (by decide)) (by omega)
    rwa [Nat.div_add_mod] at h
  constructor
  · intro h
    have hlast : ∀ n, (∀ r, lowBytes (Shannon.blank (8 * k) r) (n / 4) (n % 4) =
        (Shannon.shnFinish (Shannon.blank (8 * k) r) n).2) → n % 4 ≤ 1 := by
      intro n hn
      by_contra hmod
      obtain ⟨r, hr⟩ := lowBytes_ne (8 * k) (n / 4) (by omega) (Nat.mod_lt n (by decide))
      rw [Nat.div_add_mod] at hr
      exact hr (hn r)
    have hobj : ∀ r, toC (ofC (Shannon.blank (8 * k) r)) = Shannon.blank (8 * k) r := fun r =>
      toC_ofC _
    have hlen : m ≤ (List.replicate m (0 : Int8)).length := Nat.le_of_eq List.length_replicate.symm
    have hblank : ∀ r, ∃ mac mac',
        mac = lowBytes (Shannon.blank (8 * k) r) (n / 4) (n % 4) ∧
        mac' = lowBytes (Shannon.blank (8 * k) r) (m / 4) (m % 4) ∧
        mac = (Shannon.shnFinish (Shannon.blank (8 * k) r) n).2 ∧
        mac' = (Shannon.shnFinish (Shannon.blank (8 * k) r) m).2 := by
      intro r
      obtain ⟨-, -, mac, mac', hmac, hmac', -, hC, hC'⟩ :=
        h (ofC (Shannon.blank (8 * k) r)) (List.replicate m 0) rfl hlen
      rw [hfinish _ _ n (by omega), hobj] at hmac
      rw [hfinish _ _ m hlen, hobj] at hmac'
      rw [hobj] at hC hC'
      exact ⟨mac, mac', (Option.some.inj hmac).symm, (Option.some.inj hmac').symm, hC, hC'⟩
    refine ⟨?_, hlast n fun r => ?_, hlast m fun r => ?_⟩
    · obtain ⟨-, hfront, -⟩ :=
        h (ofC (Shannon.blank (8 * k) Shannon.zeros)) (List.replicate m 0) rfl hlen
      exact (asMaconly_iff hk chunks _ rfl).mp hfront
    · obtain ⟨mac, -, hlow, -, hC, -⟩ := hblank r
      rw [← hlow, hC]
    · obtain ⟨-, mac', -, hlow, -, hC⟩ := hblank r
      rw [← hlow, hC]
  · rintro ⟨hchunks, hn, hm⟩ c buffer hnbuf hbuffer
    have hfront := (asMaconly_iff hk chunks c hnbuf).mpr hchunks
    refine ⟨?_, hfront, ?_⟩
    · obtain ⟨c1, hrun, hstate⟩ := hfront chunks (List.prefix_refl _)
      have haligned : Aligned c := ⟨by omega, by omega⟩
      obtain ⟨c2, out, henc, hencC, -⟩ := crypt_eq .encrypt [] haligned chunks.flatten
      have hnorm : norm (toC c1) = norm (toC c2) := by
        rw [hstate, foldl_shnMaconly, ← bytes_flatten, Shannon.shnEncrypt, hencC]
      obtain ⟨mac, hmac1, hmac2⟩ := macOf_of_norm hnorm buffer (by omega : n ≤ buffer.length)
      rw [List.append_nil, List.append_nil] at henc
      exact ⟨c1, c2, out, mac, hrun, henc, hmac1, hmac2⟩
    · refine ⟨_, _, hfinish c buffer n (by omega), hfinish c buffer m hbuffer, ?_, ?_, ?_⟩
      · rw [lowBytes_eq _ _ hn, lowBytes_eq _ _ hm, Nat.div_add_mod, Nat.div_add_mod]
        exact Shannon.shnFinish_take _ hnm
      · rw [lowBytes_eq _ _ hn, Nat.div_add_mod]
      · rw [lowBytes_eq _ _ hm, Nat.div_add_mod]

theorem macLaws_words : 0 < 4 ∧ 4 ≤ 5 ∧ MacLaws 0 [[1, 2, 3], [-128]] 4 5 :=
  ⟨by decide, by decide,
    (macLaws_iff (by decide) (by decide) [[1, 2, 3], [-128]]).mpr (by decide +kernel)⟩

/-- An object with a key and a nonce. -/
def started : Java.Shannon := ((default : Java.Shannon).key [1]).nonce [2]

/-- The MAC of the single byte 128 is not that of its encryption, and two bytes of MAC are not
the first of four. -/
theorem not_macLaws : ¬ MacLaws 0 [[-128]] 4 4 ∧ ¬ MacLaws 0 [] 2 4 := by
  constructor
  · intro h
    obtain ⟨⟨c1, c2, out, mac, hrun, henc, hmac1, hmac2⟩, -⟩ :=
      h started [0, 0, 0, 0] rfl (by decide)
    have hne : ((macOnlys started [[-128]]).bind fun c => macOf c [0, 0, 0, 0] 4) ≠
        (started.encrypt [-128]).bind fun r => macOf r.1 [0, 0, 0, 0] 4 := by
      decide +kernel
    apply hne
    rw [hrun, Option.bind_some, hmac1, show started.encrypt [-128] = some (c2, out) from henc,
      Option.bind_some, hmac2]
  · intro h
    obtain ⟨-, -, mac, mac', hmac, hmac', htake, -⟩ := h started [0, 0, 0, 0] rfl (by decide)
    have hne : macOf started [0, 0, 0, 0] 2 ≠
        (macOf started [0, 0, 0, 0] 4).map fun mac => mac.take 2 := by
      decide +kernel
    apply hne
    rw [hmac, hmac', htake, Option.map_some]

end Despotify.Interop

import Despotify.Wire.ShannonBytes

/-!
# Keys and nonces of the Shannon cipher

`shn_nonce` reloads the register saved by `shn_key` and loads the nonce, which
sets every other field but `mbuf`.  So two contexts with the same saved
register `initR` are the same cipher after the same nonce (`norm_shnNonce`),
and no call in between touches `initR`.
-/

namespace Despotify.Shannon

/-! ## Contexts that agree on the registers -/

/-- The registers that feed the cipher agree. -/
structure SameReg (c c' : ShnCtx) : Prop where
  R : c.R = c'.R
  konst : c.konst = c'.konst

/-- All that a nonce sets agrees. -/
structure SameCipher (c c' : ShnCtx) : Prop extends SameReg c c' where
  CRC : c.CRC = c'.CRC
  sbuf : c.sbuf = c'.sbuf

theorem SameReg.addkey {c c' : ShnCtx} (h : SameReg c c') (k : UInt32) :
    SameReg (addkey c k) (addkey c' k) where
  R := by simp only [Shannon.addkey, h.R]
  konst := by simp only [Shannon.addkey, h.konst]

theorem SameReg.cycle {c c' : ShnCtx} (h : SameReg c c') : SameReg (cycle c) (cycle c') where
  R := by simp only [Shannon.cycle, h.R, h.konst]
  konst := by simp only [Shannon.cycle, h.konst]

theorem SameReg.loadWords {c c' : ShnCtx} (key : List UInt8) (h : SameReg c c') :
    SameReg (loadWords c key) (loadWords c' key) := by
  induction c, key using Shannon.loadWords.induct generalizing c' with
  | case1 c b0 b1 b2 b3 key ih =>
    simp only [Shannon.loadWords]
    exact ih (h.addkey _).cycle
  | case2 c b0 b1 b2 => simpa only [Shannon.loadWords] using (h.addkey _).cycle
  | case3 c b0 b1 => simpa only [Shannon.loadWords] using (h.addkey _).cycle
  | case4 c b0 => simpa only [Shannon.loadWords] using (h.addkey _).cycle
  | case5 c => simpa only [Shannon.loadWords] using h

/-- A cycle sets `sbuf` from the registers, and the copy sets the CRC. -/
theorem SameReg.copyToCRC_cycle {c c' : ShnCtx} (h : SameReg c c') :
    SameCipher (copyToCRC (Shannon.cycle c)) (copyToCRC (Shannon.cycle c')) where
  R := by simp only [copyToCRC, h.cycle.R]
  konst := by simp only [copyToCRC, h.cycle.konst]
  CRC := by simp only [copyToCRC, h.cycle.R]
  sbuf := by simp only [copyToCRC, Shannon.cycle, h.R, h.konst]

theorem SameCipher.cycle {c c' : ShnCtx} (h : SameCipher c c') :
    SameCipher (cycle c) (cycle c') where
  R := h.toSameReg.cycle.R
  konst := h.toSameReg.cycle.konst
  CRC := by simp only [Shannon.cycle, h.CRC]
  sbuf := by simp only [Shannon.cycle, h.R, h.konst]

theorem SameCipher.cycles {c c' : ShnCtx} (n : Nat) (h : SameCipher c c') :
    SameCipher (cycles n c) (cycles n c') := by
  induction n generalizing c c' with
  | zero => exact h
  | succ n ih => exact ih h.cycle

theorem SameCipher.xorCRC {c c' : ShnCtx} (h : SameCipher c c') :
    SameCipher (xorCRC c) (xorCRC c') where
  R := by simp only [Shannon.xorCRC, h.R, h.CRC]
  konst := by simp only [Shannon.xorCRC, h.konst]
  CRC := by simp only [Shannon.xorCRC, h.CRC]
  sbuf := by simp only [Shannon.xorCRC, h.sbuf]

/-- Loading key material: the outcome depends on the registers alone. -/
theorem SameReg.shnLoadkey {c c' : ShnCtx} (key : List UInt8) (h : SameReg c c') :
    SameCipher (shnLoadkey c key) (shnLoadkey c' key) := by
  have h1 := (h.loadWords key).addkey (UInt32.ofNat key.length)
  simp only [Shannon.shnLoadkey, shnDiffuse]
  generalize 16 = n
  exact (h1.copyToCRC_cycle.cycles n).xorCRC

theorem SameCipher.norm_genkonst {c c' : ShnCtx} (h : SameCipher c c')
    (hi : c.initR = c'.initR) :
    norm (clearBuf (shnGenkonst c)) = norm (clearBuf (shnGenkonst c')) := by
  simp [norm, clearBuf, shnGenkonst, h.R, h.CRC, h.sbuf, hi]

/-! ## The MAC -/

theorem SameCipher.addkey {c c' : ShnCtx} (h : SameCipher c c') (k : UInt32) :
    SameCipher (addkey c k) (addkey c' k) where
  R := (h.toSameReg.addkey k).R
  konst := (h.toSameReg.addkey k).konst
  CRC := by simp only [Shannon.addkey, h.CRC]
  sbuf := by simp only [Shannon.addkey, h.sbuf]

theorem SameCipher.clearBuf {c c' : ShnCtx} (h : SameCipher c c') :
    SameCipher (clearBuf c) (clearBuf c') where
  R := h.R
  konst := h.konst
  CRC := h.CRC
  sbuf := h.sbuf

theorem SameCipher.macBytes : ∀ (n : Nat) {c c' : ShnCtx}, SameCipher c c' →
    (macBytes n c).2 = (macBytes n c').2
  | 0, _, _, _ => rfl
  | 1, _, _, h => by simp only [Shannon.macBytes, h.cycle.sbuf]
  | 2, _, _, h => by simp only [Shannon.macBytes, h.cycle.sbuf]
  | 3, _, _, h => by simp only [Shannon.macBytes, h.cycle.sbuf]
  | n + 4, _, _, h => by simp only [Shannon.macBytes, h.cycle.sbuf, macBytes n h.cycle]

/-- The MAC does not depend on an `mbuf` that is dead. -/
theorem shnFinish_norm {c c' : ShnCtx} (h : norm c = norm c') (n : Nat) :
    (shnFinish c n).2 = (shnFinish c' n).2 := by
  have hnbuf : c.nbuf = c'.nbuf := by rw [← norm_nbuf c, h, norm_nbuf]
  by_cases h0 : c.nbuf = 0
  · have h0' : c'.nbuf = 0 := hnbuf ▸ h0
    have hsame : SameCipher c c' := by
      simp only [norm, h0, h0', if_true, ShnCtx.mk.injEq] at h
      exact { R := h.1, CRC := h.2.1, konst := h.2.2.2.1, sbuf := h.2.2.2.2.1 }
    simp only [shnFinish, h0, h0', ne_eq, not_true_eq_false, if_false, cycle_nbuf]
    exact SameCipher.macBytes n ((hsame.cycle.addkey _).clearBuf.xorCRC.cycles 16)
  · rw [norm_of_nbuf_ne h0, norm_of_nbuf_ne (hnbuf ▸ h0)] at h
    rw [h]

/-! ## The saved register -/

theorem initR_addkey (c : ShnCtx) (k : UInt32) : (addkey c k).initR = c.initR := by
  simp only [addkey]

theorem initR_cycle (c : ShnCtx) : (cycle c).initR = c.initR := by
  simp only [cycle]

theorem initR_macfunc (c : ShnCtx) (w : UInt32) : (macfunc c w).initR = c.initR := by
  simp only [macfunc, addkey, crcfunc]

theorem initR_copyToCRC (c : ShnCtx) : (copyToCRC c).initR = c.initR := by
  simp only [copyToCRC]

theorem initR_xorCRC (c : ShnCtx) : (xorCRC c).initR = c.initR := by
  simp only [xorCRC]

theorem initR_clearBuf (c : ShnCtx) : (clearBuf c).initR = c.initR := by
  simp only [clearBuf]

theorem initR_initKonst (c : ShnCtx) : (initKonst c).initR = c.initR := by
  simp only [initKonst]

theorem initR_shnGenkonst (c : ShnCtx) : (shnGenkonst c).initR = c.initR := by
  simp only [shnGenkonst]

theorem initR_shnReloadstate (c : ShnCtx) : (shnReloadstate c).initR = c.initR := by
  simp only [shnReloadstate]

theorem initR_loadWords (c : ShnCtx) (key : List UInt8) :
    (loadWords c key).initR = c.initR := by
  induction c, key using Shannon.loadWords.induct with
  | case1 c b0 b1 b2 b3 key ih => rw [loadWords, ih, initR_cycle, initR_addkey]
  | case2 c b0 b1 b2 => rw [loadWords, initR_cycle, initR_addkey]
  | case3 c b0 b1 => rw [loadWords, initR_cycle, initR_addkey]
  | case4 c b0 => rw [loadWords, initR_cycle, initR_addkey]
  | case5 c => rw [loadWords]

theorem initR_cycles (n : Nat) (c : ShnCtx) : (cycles n c).initR = c.initR := by
  induction n generalizing c with
  | zero => rw [cycles]
  | succ n ih => rw [cycles, ih, initR_cycle]

theorem initR_shnDiffuse (c : ShnCtx) : (shnDiffuse c).initR = c.initR := by
  rw [shnDiffuse, initR_cycles]

theorem initR_shnLoadkey (c : ShnCtx) (key : List UInt8) :
    (shnLoadkey c key).initR = c.initR := by
  rw [shnLoadkey, initR_xorCRC, initR_shnDiffuse, initR_copyToCRC, initR_cycle, initR_addkey,
    initR_loadWords]

/-! ## Keys and nonces -/

/-- What `shn_savestate` keeps of a loaded key. -/
theorem initR_shnKey_eq (c : ShnCtx) (key : List UInt8) :
    (shnKey c key).initR = (shnLoadkey (shnInitstate c) key).R := by
  rw [shnKey, initR_clearBuf, shnSavestate, shnGenkonst]

/-- The saved register after `shn_key` depends on the key alone. -/
theorem initR_shnKey (c c' : ShnCtx) (key : List UInt8) :
    (shnKey c key).initR = (shnKey c' key).initR := by
  have h : SameReg (shnInitstate c) (shnInitstate c') :=
    { R := by simp only [shnInitstate, initKonst], konst := by simp only [shnInitstate, initKonst] }
  rw [initR_shnKey_eq, initR_shnKey_eq, (h.shnLoadkey key).R]

theorem initR_shnNonce (c : ShnCtx) (nonce : List UInt8) :
    (shnNonce c nonce).initR = c.initR := by
  rw [shnNonce, initR_clearBuf, initR_shnGenkonst, initR_shnLoadkey, initR_initKonst,
    initR_shnReloadstate]

/-- **After a nonce nothing is left of the previous message**: the context
depends on the saved register and the nonce alone. -/
theorem norm_shnNonce {c c' : ShnCtx} (h : c.initR = c'.initR) (nonce : List UInt8) :
    norm (shnNonce c nonce) = norm (shnNonce c' nonce) := by
  have h1 : SameReg (initKonst (shnReloadstate c)) (initKonst (shnReloadstate c')) :=
    { R := by simp only [initKonst, shnReloadstate, h], konst := by simp only [initKonst] }
  rw [shnNonce, shnNonce]
  refine (h1.shnLoadkey nonce).norm_genkonst ?_
  rw [initR_shnLoadkey, initR_shnLoadkey, initR_initKonst, initR_initKonst, initR_shnReloadstate,
    initR_shnReloadstate, h]

/-! ## The saved register through a message -/

theorem initR_norm (c : ShnCtx) : (norm c).initR = c.initR := by
  unfold norm
  split <;> rfl

theorem initR_cryptStep (d : Dir) (c : ShnCtx) (b : UInt8) :
    (cryptStep d c b).1.initR = c.initR := by
  simp only [cryptStep, cryptByte]
  split <;> split <;> simp only [openWord, cycle, macfunc, addkey, crcfunc]

theorem initR_run (d : Dir) (c : ShnCtx) (buf : List UInt8) :
    (Transducer.run (cryptStep d) c buf).1.initR = c.initR :=
  Transducer.run_frame (initR_cryptStep d) c buf

theorem initR_shnCrypt (d : Dir) (c : ShnCtx) (buf : List UInt8) :
    (shnCrypt d c buf).1.initR = c.initR := by
  have h := congrArg ShnCtx.initR (shnCrypt_eq_run d c buf).1
  rwa [initR_norm, initR_norm, initR_run] at h

theorem initR_macBytes (n : Nat) (c : ShnCtx) : (macBytes n c).1.initR = c.initR := by
  induction n, c using macBytes.induct with
  | case1 c => rw [macBytes]
  | case2 nbytes c c1 c2 out _ ih => rw [macBytes, ih, initR_cycle]
  | case3 nbytes c h1 h2 => rw [macBytes, initR_cycle] <;> assumption

theorem initR_shnFinish (c : ShnCtx) (n : Nat) : (shnFinish c n).1.initR = c.initR := by
  rw [shnFinish, initR_macBytes, initR_shnDiffuse, initR_xorCRC, initR_clearBuf, initR_addkey,
    initR_cycle]
  split
  · exact initR_macfunc c c.mbuf
  · rfl

end Despotify.Shannon

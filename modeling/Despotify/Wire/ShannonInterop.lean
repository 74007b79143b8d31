import Despotify.Wire.ShannonNonce
import Despotify.Wire.ShannonJava

/-!
# The C and the Java cipher are one cipher

`toC` reads a Java object as a C context.  It commutes with every method: the
sign that `>>` shifts in never reaches a byte that is kept, and the whole-word
loop, whose index has moved past the bytes of an open word while its bound has
not, makes the right number of passes because at most three bytes are ever
buffered (`Aligned`, `crypt_eq`).

    (c.crypt d buf buf.length)  =  shnCrypt d (toC c) buf            (crypt_eq)

So any two ends, in either language, with the same key and nonce exchange any
message however each of them cuts it, and agree on the MAC (`exchange`).
-/

namespace Despotify.Interop

open Despotify.Shannon (Dir ShnCtx norm)

/-! ## Signed and unsigned words -/

/-- The shift counts the class uses. -/
theorem toUInt32_rotateLeft (x k : Int32) (h : k ∈ [1, 5, 7, 19, 22]) :
    (Java.rotateLeft x k).toUInt32 = Shannon.rotl x.toUInt32 k.toUInt32 := by
  simp only [List.mem_cons, List.not_mem_nil, or_false] at h
  rcases h with rfl | rfl | rfl | rfl | rfl
  all_goals
    simp only [Java.rotateLeft, Shannon.rotl, Int32.toUInt32_or]
    rfl

theorem getElem_mask : ∀ j (h : j < 32), (255#32)[j] = decide (j < 8) := by decide

theorem toUInt32_mask (b : Int8) : (Java.mask b).toUInt32 = b.toUInt8.toUInt32 := by
  rw [← UInt32.toBitVec_inj]
  ext j hj
  by_cases h : j < 8
  · simp [Java.mask, getElem_mask j hj, BitVec.getElem_signExtend, h]
  · simp [Java.mask, getElem_mask j hj, BitVec.getLsbD_of_ge _ j (by omega : 8 ≤ j), h]

/-- Narrowing keeps the low byte, and so does the mask before it. -/
theorem toUInt8_toInt8_mask (x : Int32) : (x &&& 0xFF).toInt8.toUInt8 = x.toUInt32.toUInt8 := by
  have h255 : ∀ j (h : j < 8), (255#8)[j] = true := by decide
  rw [← UInt8.toBitVec_inj]
  ext j hj
  simp [BitVec.getElem_signExtend, h255 j hj, show j < 32 by omega]

theorem toUInt8_xor_toInt8 (b : Int8) (x : Int32) :
    (b.toInt32 ^^^ x).toInt8.toUInt8 = b.toUInt8 ^^^ x.toInt8.toUInt8 := by
  rw [← UInt8.toBitVec_inj]
  ext j hj
  simp [BitVec.getElem_signExtend, show j < 32 by omega]

theorem toUInt32_shiftLeft (x : Int32) {k : Nat} (h : k = 0 ∨ k = 8 ∨ k = 16 ∨ k = 24) :
    (x <<< Int32.ofNat k).toUInt32 = x.toUInt32 <<< UInt32.ofNat k := by
  rcases h with rfl | rfl | rfl | rfl <;> rfl

/-- The sign that `>>` shifts in does not reach the low byte. -/
theorem toUInt8_shiftRight (x : Int32) {k : Nat} (h : k = 0 ∨ k = 8 ∨ k = 16 ∨ k = 24) :
    (x >>> Int32.ofNat k).toUInt32.toUInt8 = (x.toUInt32 >>> UInt32.ofNat k).toUInt8 := by
  rw [← UInt8.toBitVec_inj]
  rcases h with rfl | rfl | rfl | rfl
  all_goals
    ext j hj
    simp
  all_goals
    rw [BitVec.getLsbD_sshiftRight, if_pos (by omega), decide_eq_false (by omega)]
    rfl

/-! ## The Java object as a C context -/

/-- A register with its words unsigned. -/
def words (r : Vector Int32 16) : Vector UInt32 16 := r.map Int32.toUInt32

/-- A buffer with its bytes unsigned. -/
def bytes (buffer : List Int8) : List UInt8 := buffer.map Int8.toUInt8

def ofBytes (buf : List UInt8) : List Int8 := buf.map UInt8.toInt8

@[simp] theorem bytes_ofBytes (buf : List UInt8) : bytes (ofBytes buf) = buf := by
  simp [bytes, ofBytes, Function.comp_def]

theorem length_bytes (buffer : List Int8) : (bytes buffer).length = buffer.length :=
  List.length_map ..

theorem bytes_append (xs ys : List Int8) : bytes (xs ++ ys) = bytes xs ++ bytes ys :=
  List.map_append

/-- The same fields, their words unsigned. -/
def toC (c : Java.Shannon) : ShnCtx where
  R := words c.R
  CRC := words c.CRC
  initR := words c.initR
  konst := c.konst.toUInt32
  sbuf := c.sbuf.toUInt32
  mbuf := c.mbuf.toUInt32
  nbuf := c.nbuf

theorem words_shiftIn (r : Vector Int32 16) (t : Int32) :
    words (Java.Shannon.shiftIn r t) = Shannon.shiftIn (words r) t.toUInt32 := by
  ext i hi
  simp only [words, Java.Shannon.shiftIn, Shannon.shiftIn, Vector.getElem_map, Vector.getElem_ofFn]
  split <;> rfl

theorem words_set (r : Vector Int32 16) (i : Nat) (h : i < 16) (x : Int32) :
    words (r.set i x) = (words r).set i x.toUInt32 := by
  simp [words, Vector.map_set]

theorem toUInt32_getElem (r : Vector Int32 16) (i : Nat) (h : i < 16) :
    r[i].toUInt32 = (words r)[i] := by
  simp [words]

theorem toUInt32_sbox (x : Int32) :
    (Java.Shannon.sbox x).toUInt32 = Shannon.sbox1 x.toUInt32 := by
  simp only [Java.Shannon.sbox, Shannon.sbox1, Int32.toUInt32_xor, Int32.toUInt32_or,
    toUInt32_rotateLeft _ 5 (by decide), toUInt32_rotateLeft _ 7 (by decide),
    toUInt32_rotateLeft _ 19 (by decide), toUInt32_rotateLeft _ 22 (by decide)]
  rfl

theorem toUInt32_sbox2 (x : Int32) :
    (Java.Shannon.sbox2 x).toUInt32 = Shannon.sbox2 x.toUInt32 := by
  simp only [Java.Shannon.sbox2, Shannon.sbox2, Int32.toUInt32_xor, Int32.toUInt32_or,
    toUInt32_rotateLeft _ 5 (by decide), toUInt32_rotateLeft _ 7 (by decide),
    toUInt32_rotateLeft _ 19 (by decide), toUInt32_rotateLeft _ 22 (by decide)]
  rfl

/-! ## The register -/

theorem toC_cycle (c : Java.Shannon) : toC c.cycle = Shannon.cycle (toC c) := by
  simp only [toC, Java.Shannon.cycle, Shannon.cycle, words_set, words_shiftIn,
    Int32.toUInt32_xor, toUInt32_sbox, toUInt32_sbox2, toUInt32_getElem,
    toUInt32_rotateLeft _ 1 (by decide)]
  rfl

theorem nbuf_cycle (c : Java.Shannon) : c.cycle.nbuf = c.nbuf := by
  simp only [Java.Shannon.cycle]

theorem nbuf_macFunc (c : Java.Shannon) (i : Int32) : (c.macFunc i).nbuf = c.nbuf := by
  simp only [Java.Shannon.macFunc, Java.Shannon.crcFunc]

theorem toC_addKey (c : Java.Shannon) (k : Int32) :
    toC (c.addKey k) = Shannon.addkey (toC c) k.toUInt32 := by
  simp only [toC, Java.Shannon.addKey, Shannon.addkey, words_set, Int32.toUInt32_xor,
    toUInt32_getElem]

theorem toC_macFunc (c : Java.Shannon) (i : Int32) :
    toC (c.macFunc i) = Shannon.macfunc (toC c) i.toUInt32 := by
  simp only [toC, Java.Shannon.macFunc, Java.Shannon.crcFunc, Shannon.macfunc, Shannon.addkey,
    Shannon.crcfunc, words_set, words_shiftIn, Int32.toUInt32_xor, toUInt32_getElem]

theorem toC_xorCRC (c : Java.Shannon) : toC c.xorCRC = Shannon.xorCRC (toC c) := by
  simp only [toC, Java.Shannon.xorCRC, Shannon.xorCRC]
  congr 1
  ext i hi
  simp [words]

theorem toC_cycles (n : Nat) (c : Java.Shannon) :
    toC (c.cycles n) = Shannon.cycles n (toC c) := by
  induction n generalizing c with
  | zero => rfl
  | succ n ih => rw [Java.Shannon.cycles, ih, toC_cycle, Shannon.cycles]

theorem toC_diffuse (c : Java.Shannon) : toC c.diffuse = Shannon.shnDiffuse (toC c) :=
  toC_cycles 16 c

/-! ## Keys and nonces -/

theorem toUInt32_word (b0 b1 b2 b3 : Int8) :
    (Java.word b0 b1 b2 b3).toUInt32 =
      Shannon.byte2word b0.toUInt8 b1.toUInt8 b2.toUInt8 b3.toUInt8 := by
  simp only [Java.word, Shannon.byte2word, ← toUInt32_mask]
  rfl

theorem toC_loadWords (c : Java.Shannon) (key : List Int8) :
    toC (c.loadWords key) = Shannon.loadWords (toC c) (bytes key) := by
  induction c, key using Java.Shannon.loadWords.induct with
  | case1 c b0 b1 b2 b3 key ih =>
    rw [Java.Shannon.loadWords, ih, toC_cycle, toC_addKey, toUInt32_word]
    simp only [bytes, List.map_cons, Shannon.loadWords]
  | case2 c b0 b1 b2 =>
    rw [Java.Shannon.loadWords, toC_cycle, toC_addKey, toUInt32_word]
    rfl
  | case3 c b0 b1 =>
    rw [Java.Shannon.loadWords, toC_cycle, toC_addKey, toUInt32_word]
    rfl
  | case4 c b0 =>
    rw [Java.Shannon.loadWords, toC_cycle, toC_addKey, toUInt32_word]
    rfl
  | case5 c => rfl

theorem toC_loadKey (c : Java.Shannon) (key : List Int8) :
    toC (c.loadKey key) = Shannon.shnLoadkey (toC c) (bytes key) := by
  have hcrc : ∀ c : Java.Shannon, toC { c with CRC := c.R } = Shannon.copyToCRC (toC c) :=
    fun _ => rfl
  rw [Java.Shannon.loadKey, Shannon.shnLoadkey, toC_xorCRC, toC_diffuse, hcrc, toC_cycle,
    toC_addKey, toC_loadWords, length_bytes]
  rfl

theorem toC_initState (c : Java.Shannon) : toC c.initState = Shannon.shnInitstate (toC c) := by
  have hfibs : ∀ n, ((Java.Shannon.fibs n).1.toUInt32, (Java.Shannon.fibs n).2.toUInt32) =
      Shannon.fibs n := by
    intro n
    induction n with
    | zero => rfl
    | succ n ih => rw [Shannon.fibs, ← ih]; rfl
  simp only [toC, Java.Shannon.initState, Shannon.shnInitstate, Shannon.initKonst]
  congr 1
  ext i hi
  simp [words, ← hfibs]

theorem toC_key (c : Java.Shannon) (key : List Int8) :
    toC (c.key key) = Shannon.shnKey (toC c) (bytes key) := by
  have hgen : ∀ c : Java.Shannon, toC { c.genKonst.saveState with nbuf := 0 } =
      Shannon.clearBuf (Shannon.shnSavestate (Shannon.shnGenkonst (toC c))) := fun c => by
    simp only [toC, Java.Shannon.genKonst, Java.Shannon.saveState, Shannon.clearBuf,
      Shannon.shnSavestate, Shannon.shnGenkonst, toUInt32_getElem]
  rw [Java.Shannon.key, Shannon.shnKey, hgen, toC_loadKey, toC_initState]

theorem toC_nonce (c : Java.Shannon) (nonce : List Int8) :
    toC (c.nonce nonce) = Shannon.shnNonce (toC c) (bytes nonce) := by
  have hgen : ∀ c : Java.Shannon, toC { c.genKonst with nbuf := 0 } =
      Shannon.clearBuf (Shannon.shnGenkonst (toC c)) := fun c => by
    simp only [toC, Java.Shannon.genKonst, Shannon.clearBuf, Shannon.shnGenkonst, toUInt32_getElem]
  rw [Java.Shannon.nonce, Shannon.shnNonce, hgen, toC_loadKey]
  rfl

/-! ## The buffer -/

theorem getElem?_cursor (pre rest : List Int8) (b : Int8) :
    (pre ++ b :: rest)[pre.length]? = some b := by
  simp

theorem store_cursor (pre rest : List Int8) (b b' : Int8) :
    Java.store (pre ++ b :: rest) pre.length b' = some (pre ++ b' :: rest) := by
  simp [Java.store]

theorem loadWord_cursor (pre rest : List Int8) (b0 b1 b2 b3 : Int8) :
    Java.loadWord (pre ++ b0 :: b1 :: b2 :: b3 :: rest) pre.length =
      some (Java.word b0 b1 b2 b3) := by
  simp [Java.loadWord]

theorem storeWord_cursor (pre rest : List Int8) (b0 b1 b2 b3 : Int8) (t : Int32) :
    ∃ w, Java.storeWord (pre ++ b0 :: b1 :: b2 :: b3 :: rest) pre.length t =
        some (pre ++ (w ++ rest)) ∧ bytes w = Shannon.word2byte t.toUInt32 ∧ w.length = 4 := by
  refine ⟨[Java.toByte t, Java.toByte (t >>> 8), Java.toByte (t >>> 16), Java.toByte (t >>> 24)],
    ?_, ?_, rfl⟩
  · simp [Java.storeWord, Java.store, List.set_append_right]
  · have h0 := toUInt8_shiftRight t (k := 0) (by simp)
    have h8 := toUInt8_shiftRight t (k := 8) (by simp)
    have h16 := toUInt8_shiftRight t (k := 16) (by simp)
    have h24 := toUInt8_shiftRight t (k := 24) (by simp)
    simp only [bytes, Java.toByte, List.map_cons, List.map_nil, toUInt8_toInt8_mask,
      Shannon.word2byte, Shannon.byte_eq]
    exact congrArg₂ _ rfl (congrArg₂ _ h8 (congrArg₂ _ h16 (congrArg₂ _ h24 rfl)))

/-! ## Buffered bytes -/

theorem toC_cryptByte (d : Dir) (c : Java.Shannon) (b : Int8)
    (h : c.nbuf = 8 ∨ c.nbuf = 16 ∨ c.nbuf = 24 ∨ c.nbuf = 32) :
    Shannon.cryptByte d (toC c) b.toUInt8 =
      (toC (c.cryptByte d b).1, (c.cryptByte d b).2.toUInt8) := by
  have hk : 32 - c.nbuf = 0 ∨ 32 - c.nbuf = 8 ∨ 32 - c.nbuf = 16 ∨ 32 - c.nbuf = 24 := by omega
  have hout : (c.cryptByte d b).2.toUInt8 = (Shannon.cryptByte d (toC c) b.toUInt8).2 := by
    simp only [Java.Shannon.cryptByte, Shannon.cryptByte, toUInt8_xor_toInt8, toUInt8_toInt8_mask,
      toUInt8_shiftRight _ hk, Shannon.toUInt8_mask]
    rfl
  have hplain : (d.plain b (c.cryptByte d b).2).toUInt8 =
      d.plain b.toUInt8 (c.cryptByte d b).2.toUInt8 := by
    cases d <;> rfl
  refine Prod.ext ?_ hout.symm
  simp only [Shannon.cryptByte, Java.Shannon.cryptByte, toC] at hout hplain ⊢
  rw [Int32.toUInt32_xor, toUInt32_shiftLeft _ hk, toUInt32_mask, hplain, hout]

/-- The buffered loop of the two implementations, with the bytes already done
before it and bytes of no concern after it. -/
theorem cryptBuffered_eq (d : Dir) (slack : List Int8) (c : Java.Shannon) (pre rest : List Int8)
    (h8 : 8 ∣ c.nbuf) (h32 : c.nbuf ≤ 32) :
    ∃ c' outs left, c.cryptBuffered d (pre ++ (rest ++ slack)) pre.length rest.length =
        some (c', pre ++ (outs ++ (left ++ slack)), pre.length + outs.length, left.length) ∧
      Shannon.cryptBuffered d (toC c) (bytes rest) = (toC c', bytes outs, bytes left) ∧
      8 * outs.length + c'.nbuf = c.nbuf ∧ outs.length + left.length = rest.length ∧
      (left = [] ∨ c'.nbuf = 0) := by
  induction rest generalizing c pre with
  | nil => exact ⟨c, [], [], rfl, rfl, by simp, rfl, .inl rfl⟩
  | cons b rest ih =>
    by_cases hn : c.nbuf = 0
    · refine ⟨c, [], b :: rest, ?_, ?_, by simp, by simp, .inr hn⟩
      · simp [Java.Shannon.cryptBuffered, hn]
      · simp [Shannon.cryptBuffered, toC, hn, bytes]
    · have hbyte := toC_cryptByte d c b (by omega)
      obtain ⟨c', outs, left, hj, hc, hnbuf, hlen, hleft⟩ := ih (c.cryptByte d b).1
        (pre ++ [(c.cryptByte d b).2]) (by simp only [Java.Shannon.cryptByte]; omega)
        (by simp only [Java.Shannon.cryptByte]; omega)
      refine ⟨c', (c.cryptByte d b).2 :: outs, left, ?_, ?_, ?_, ?_, hleft⟩
      · rw [List.cons_append, List.length_cons, Java.Shannon.cryptBuffered, if_pos hn,
          getElem?_cursor]
        simp only [Option.bind_eq_bind, Option.bind_some, store_cursor]
        simpa [Nat.add_assoc, Nat.add_comm 1] using hj
      · have hne : (toC c).nbuf ≠ 0 := hn
        simp only [bytes, List.map_cons, Shannon.cryptBuffered, hne, ne_eq, not_false_eq_true,
          if_true, hbyte]
        simp only [bytes] at hc
        rw [hc]
      · have hstep : (c.cryptByte d b).1.nbuf = c.nbuf - 8 := rfl
        simp only [List.length_cons]
        omega
      · simp only [List.length_cons]
        omega

/-! ## Whole words and the tail -/

/-- What every call of the class leaves: at most three bytes of a word are buffered. -/
def Aligned (c : Java.Shannon) : Prop := 8 ∣ c.nbuf ∧ c.nbuf < 32

/-- The tail of `cryptWords` is the buffered loop on a word just opened. -/
theorem cryptWords_short (d : Dir) : ∀ (c : ShnCtx) (tail : List UInt8), tail ≠ [] →
    tail.length < 4 → Shannon.cryptWords d c tail =
      ((Shannon.cryptBuffered d { Shannon.cycle c with mbuf := 0, nbuf := 32 } tail).1,
        (Shannon.cryptBuffered d { Shannon.cycle c with mbuf := 0, nbuf := 32 } tail).2.1)
  | _, [_], _, _ => rfl
  | _, [_, _], _, _ => rfl
  | _, [_, _, _], _, _ => rfl
  | _, _ :: _ :: _ :: _ :: _, _, h => by simp at h; omega

theorem cryptTail_eq (d : Dir) (slack : List Int8) (c : Java.Shannon) (pre rest : List Int8)
    (hn : c.nbuf = 0) (h4 : rest.length < 4) :
    ∃ c' outs, c.cryptTail d (pre ++ (rest ++ slack)) pre.length rest.length =
        some (c', pre ++ (outs ++ slack)) ∧
      Shannon.cryptWords d (toC c) (bytes rest) = (toC c', bytes outs) ∧ Aligned c' := by
  by_cases hrest : rest = []
  · subst hrest
    exact ⟨c, [], by simp [Java.Shannon.cryptTail], rfl, by simp [Aligned, hn]⟩
  · have hpos : rest.length ≠ 0 := fun h => hrest (List.length_eq_zero_iff.1 h)
    obtain ⟨k, hk⟩ : ∃ k, k = c.cycle := ⟨_, rfl⟩
    obtain ⟨c', outs, left, hj, hc, hnbuf, hlen, hleft⟩ := cryptBuffered_eq d slack
      { k with mbuf := 0, nbuf := 32 } pre rest ⟨4, rfl⟩ (Nat.le_refl 32)
    have h32 : 8 * outs.length + c'.nbuf = 32 := hnbuf
    have hempty : left = [] := by
      rcases hleft with h | h
      · exact h
      · exact List.length_eq_zero_iff.1 (by omega)
    subst hempty
    refine ⟨c', outs, ?_, ?_, ⟨by omega, ?_⟩⟩
    · rw [Java.Shannon.cryptTail, if_pos hpos]
      simp only [Option.bind_eq_bind, ← hk, hj, Option.bind_some]
      simp
    · have hopen : toC { k with mbuf := 0, nbuf := 32 } =
          { Shannon.cycle (toC c) with mbuf := 0, nbuf := 32 } := by
        rw [← toC_cycle, ← hk]
        rfl
      rw [cryptWords_short d _ _ (by simpa [bytes] using hrest) (by rwa [length_bytes]), ← hopen,
        hc]
    · simp only [List.length_nil] at hlen
      omega

/-- One pass of the whole-word loop. -/
theorem cryptWords_pass (d : Dir) (c : Java.Shannon) (pre rest : List Int8) (b0 b1 b2 b3 : Int8)
    {j : Nat} (hj : pre.length < j) :
    ∃ c' w, c.cryptWords d (pre ++ b0 :: b1 :: b2 :: b3 :: rest) pre.length j =
        c'.cryptWords d (pre ++ (w ++ rest)) (pre.length + 4) j ∧
      Shannon.cryptWord d (toC c) b0.toUInt8 b1.toUInt8 b2.toUInt8 b3.toUInt8 =
        (toC c', bytes w) ∧ w.length = 4 ∧ c'.nbuf = c.nbuf := by
  obtain ⟨w, hw, hbytes, hlen⟩ := storeWord_cursor pre rest b0 b1 b2 b3
    (Java.word b0 b1 b2 b3 ^^^ c.cycle.sbuf)
  refine ⟨c.cycle.macFunc (d.plain (Java.word b0 b1 b2 b3)
    (Java.word b0 b1 b2 b3 ^^^ c.cycle.sbuf)), w, ?_, ?_, hlen, ?_⟩
  · rw [Java.Shannon.cryptWords, if_pos hj]
    simp only [Option.bind_eq_bind, loadWord_cursor, Option.bind_some, hw]
  · have hplain : (d.plain (Java.word b0 b1 b2 b3)
        (Java.word b0 b1 b2 b3 ^^^ c.cycle.sbuf)).toUInt32 =
        d.plain (Java.word b0 b1 b2 b3).toUInt32
          (Java.word b0 b1 b2 b3 ^^^ c.cycle.sbuf).toUInt32 := by
      cases d <;> rfl
    rw [Shannon.cryptWord, toC_macFunc, toC_cycle, hbytes, hplain, Int32.toUInt32_xor,
      toUInt32_word, ← toC_cycle]
    rfl
  · rw [nbuf_macFunc, nbuf_cycle]

/-- No whole word is left: the loop is over. -/
theorem cryptWords_stop (d : Dir) (slack : List Int8) {j : Nat} (c : Java.Shannon)
    (pre rest : List Int8) (hn : c.nbuf = 0) (h4 : rest.length < 4) (hj : j ≤ pre.length) :
    ∃ c' outs, (c.cryptWords d (pre ++ (rest ++ slack)) pre.length j).bind
          (fun r => r.1.cryptTail d r.2.1 r.2.2 (rest.length % 4)) =
        some (c', pre ++ (outs ++ slack)) ∧
      Shannon.cryptWords d (toC c) (bytes rest) = (toC c', bytes outs) ∧ Aligned c' := by
  obtain ⟨c', outs, htail, hc, hal⟩ := cryptTail_eq d slack c pre rest hn h4
  refine ⟨c', outs, ?_, hc, hal⟩
  rw [Java.Shannon.cryptWords, if_neg (by omega), Option.bind_some, Nat.mod_eq_of_lt h4]
  exact htail

/-- From a word boundary: the loop that compares the moved `i` with the old
bound `j` still makes one pass for each whole word. -/
theorem cryptWords_eq (d : Dir) (slack : List Int8) (j : Nat) :
    ∀ (c : Java.Shannon) (pre rest : List Int8), c.nbuf = 0 →
      j ≤ pre.length + (rest.length - rest.length % 4) →
      pre.length + (rest.length - rest.length % 4) < j + 4 →
    ∃ c' outs, (c.cryptWords d (pre ++ (rest ++ slack)) pre.length j).bind
          (fun r => r.1.cryptTail d r.2.1 r.2.2 (rest.length % 4)) =
        some (c', pre ++ (outs ++ slack)) ∧
      Shannon.cryptWords d (toC c) (bytes rest) = (toC c', bytes outs) ∧ Aligned c'
  | c, pre, [], hn, hj, _ => cryptWords_stop d slack c pre [] hn (by simp) hj
  | c, pre, [b0], hn, hj, _ => cryptWords_stop d slack c pre [b0] hn (by simp) hj
  | c, pre, [b0, b1], hn, hj, _ => cryptWords_stop d slack c pre [b0, b1] hn (by simp) hj
  | c, pre, [b0, b1, b2], hn, hj, _ => cryptWords_stop d slack c pre [b0, b1, b2] hn (by simp) hj
  | c, pre, b0 :: b1 :: b2 :: b3 :: rest, hn, hj, hj' => by
    simp only [List.length_cons] at hj hj'
    obtain ⟨c1, w, hpass, hword, hwlen, hnbuf⟩ :=
      cryptWords_pass d c pre (rest ++ slack) b0 b1 b2 b3 (j := j) (by omega)
    have hlen : (pre ++ w).length = pre.length + 4 := by rw [List.length_append, hwlen]
    obtain ⟨c', outs, hrun, hc, hal⟩ := cryptWords_eq d slack j c1 (pre ++ w) rest
      (hnbuf.trans hn) (by omega) (by omega)
    refine ⟨c', w ++ outs, ?_, ?_, hal⟩
    · have hmod : (b0 :: b1 :: b2 :: b3 :: rest).length % 4 = rest.length % 4 := by
        simp only [List.length_cons]
        omega
      simp only [List.cons_append, hpass, hmod]
      simpa only [hlen, List.append_assoc] using hrun
    · simp only [bytes, List.map_cons, List.map_append, Shannon.cryptWords] at hword hc ⊢
      rw [hword, hc]

/-- **One call is one call**: `encrypt` or `decrypt` of the class on the first
bytes of a buffer is the C function on those bytes. -/
theorem crypt_eq (d : Dir) (slack : List Int8) {c : Java.Shannon} (h : Aligned c)
    (buf : List Int8) :
    ∃ c' outs, c.crypt d (buf ++ slack) buf.length = some (c', outs ++ slack) ∧
      Shannon.shnCrypt d (toC c) (bytes buf) = (toC c', bytes outs) ∧ Aligned c' := by
  obtain ⟨h8, h32⟩ := h
  by_cases hn : c.nbuf = 0
  · obtain ⟨c', outs, hj, hc, hal⟩ := cryptWords_eq d slack (buf.length - buf.length % 4) c [] buf
      hn (by simp) (by simp)
    refine ⟨c', outs, ?_, ?_, hal⟩
    · rw [Java.Shannon.crypt, if_neg (by simpa using hn)]
      exact hj
    · rw [Shannon.shnCrypt, if_neg (by simpa [toC] using hn), hc]
  · obtain ⟨c1, outs, left, hj, hc, hnbuf, hlen, hleft⟩ := cryptBuffered_eq d slack c [] buf h8
      (by omega)
    have hne : (toC c).nbuf ≠ 0 := hn
    by_cases hn1 : c1.nbuf = 0
    · have hmac : toC (c1.macFunc c1.mbuf) = Shannon.macfunc (toC c1) (toC c1).mbuf :=
        toC_macFunc c1 c1.mbuf
      -- at most three bytes went into the word that was open
      obtain ⟨c', outs', hj', hc', hal⟩ := cryptWords_eq d slack (left.length - left.length % 4)
        (c1.macFunc c1.mbuf) outs left ((nbuf_macFunc c1 c1.mbuf).trans hn1) (by omega) (by omega)
      refine ⟨c', outs ++ outs', ?_, ?_, hal⟩
      · have hloop : c.cryptBuffered d (buf ++ slack) 0 buf.length =
            some (c1, outs ++ (left ++ slack), outs.length, left.length) := by simpa using hj
        rw [Java.Shannon.crypt, if_pos hn, hloop, List.append_assoc]
        simp only [Option.bind_eq_bind, Option.bind_some, hn1, ne_eq, not_true_eq_false, if_false]
        exact hj'
      · have hn1' : (toC c1).nbuf = 0 := hn1
        rw [Shannon.shnCrypt, if_pos hne, hc]
        simp only [hn1', ne_eq, not_true_eq_false, if_false, ← hmac, hc', bytes_append]
    · have hempty : left = [] := hleft.resolve_right hn1
      subst hempty
      refine ⟨c1, outs, ?_, ?_, by omega, by omega⟩
      · have hj' : c.cryptBuffered d (buf ++ slack) 0 buf.length =
            some (c1, outs ++ slack, outs.length, 0) := by simpa using hj
        rw [Java.Shannon.crypt, if_pos hn]
        simp [hj', hn1]
      · have hn1' : (toC c1).nbuf ≠ 0 := hn1
        rw [Shannon.shnCrypt, if_pos hne, hc]
        simp [hn1']

/-! ## Finishing the MAC -/

/-- A shift by whole words is none. -/
theorem shiftRight_words (x : Int32) (q : Nat) : x >>> Int32.ofNat (32 * q) = x := by
  have hmod : (BitVec.ofNat 32 (32 * q)).smod 32#32 = 0#32 := by
    have h32 : (32#32).toInt = 32 := by decide
    have hdvd : (32 : Int) ∣ ((32 * q : Nat) : Int).bmod (2 ^ 32) := by
      rw [Int.bmod_def]
      split <;> omega
    rw [← BitVec.toInt_inj, BitVec.toInt_smod, h32, BitVec.toInt_ofNat',
      Int.fmod_eq_zero_of_dvd hdvd]
    rfl
  rw [← Int32.toBitVec_inj]
  show x.toBitVec.sshiftRight' ((BitVec.ofNat 32 (32 * q)).smod 32#32) = x.toBitVec
  rw [hmod]
  exact BitVec.sshiftRight_zero

/-- The bytes behind the last whole word are all its lowest one. -/
theorem finishTail_eq (c : Java.Shannon) (q j : Nat) (pre rest slack : List Int8)
    (hj : pre.length = 4 * q + j) :
    c.finishTail (pre ++ (rest ++ slack)) (4 * q) j rest.length =
      some (pre ++ (List.replicate rest.length (Java.toByte c.sbuf) ++ slack)) := by
  induction rest generalizing pre j with
  | nil => rfl
  | cons b rest ih =>
    have hshift : c.sbuf >>> Int32.ofNat (4 * q * 8) = c.sbuf := by
      rw [Nat.mul_right_comm]
      exact shiftRight_words c.sbuf q
    have h := ih (j + 1) (pre ++ [Java.toByte c.sbuf])
      (by rw [List.length_append, List.length_singleton, hj, Nat.add_assoc])
    rw [List.append_assoc, List.append_assoc] at h
    rw [List.length_cons, Java.Shannon.finishTail, hshift, List.cons_append, ← hj, store_cursor]
    exact h

/-- MAC output fills the buffer of both alike, up to the last whole word. -/
theorem finishWords_eq (m q : Nat) {t : Nat} (ht : t < 4) (c : Java.Shannon)
    (pre rest slack : List Int8) (hpre : pre.length = 4 * q) (h : rest.length = 4 * m + t) :
    ∃ c' out, c.finishWords (pre ++ (rest ++ slack)) pre.length (4 * m + t) =
        some (c', pre ++ (out ++ slack)) ∧
      bytes out = (Shannon.macBytes (4 * m) (toC c)).2 ++ List.replicate t
        (Shannon.byte (Shannon.cycle (Shannon.macBytes (4 * m) (toC c)).1).sbuf 0) := by
  induction m generalizing c pre rest q with
  | zero =>
    rw [Nat.mul_zero, Nat.zero_add] at h ⊢
    have hbyte : (Java.toByte c.cycle.sbuf).toUInt8 =
        Shannon.byte (Shannon.cycle (toC c)).sbuf 0 := by
      have hzero : (8 * 0 : UInt32) = 0 := rfl
      rw [Java.toByte, toUInt8_toInt8_mask, Shannon.byte_eq, ← toC_cycle, hzero,
        UInt32.shiftRight_zero]
      rfl
    by_cases h0 : t = 0
    · subst h0
      obtain rfl : rest = [] := List.length_eq_zero_iff.mp h
      exact ⟨c, [], rfl, rfl⟩
    · have htail := finishTail_eq c.cycle q 0 pre rest slack (by rw [hpre, Nat.add_zero])
      refine ⟨c.cycle, List.replicate t (Java.toByte c.cycle.sbuf), ?_, ?_⟩
      · rw [h, ← hpre] at htail
        have hloop : c.finishWords (pre ++ (rest ++ slack)) pre.length t =
            (c.cycle.finishTail (pre ++ (rest ++ slack)) pre.length 0 t).map
              fun buffer => (c.cycle, buffer) := by
          match t, ht, h0 with
          | 1, _, _ | 2, _, _ | 3, _, _ =>
            rw [Java.Shannon.finishWords]
            · exact Option.map_eq_bind.symm
            all_goals omega
        rw [hloop, htail, Option.map_some]
      · rw [bytes, List.map_replicate, hbyte]
        rfl
  | succ m ih =>
    have hadd : 4 * (m + 1) + t = (4 * m + t) + 4 := by omega
    rw [hadd] at h ⊢
    match rest, h with
    | b0 :: b1 :: b2 :: b3 :: rest, h =>
      obtain ⟨w, hw, hbytes, hlen⟩ := storeWord_cursor pre (rest ++ slack) b0 b1 b2 b3 c.cycle.sbuf
      obtain ⟨c', out, hj, hc⟩ := ih (q + 1) c.cycle (pre ++ w) rest
        (by rw [List.length_append, hpre, hlen, Nat.mul_succ])
        (by simp only [List.length_cons] at h; omega)
      refine ⟨c', w ++ out, ?_, ?_⟩
      · rw [Java.Shannon.finishWords]
        simp only [List.cons_append, Option.bind_eq_bind, hw, Option.bind_some]
        simpa [hlen] using hj
      · have hsbuf : c.cycle.sbuf.toUInt32 = (Shannon.cycle (toC c)).sbuf :=
          congrArg ShnCtx.sbuf (toC_cycle c)
        rw [bytes_append, hbytes, hc, hsbuf, toC_cycle, Nat.mul_succ, Shannon.macBytes,
          List.append_assoc]

theorem finish_eq (c : Java.Shannon) (m : Nat) {t : Nat} (ht : t < 4) (buffer slack : List Int8)
    (h : buffer.length = 4 * m + t) :
    ∃ c' out, c.finish (buffer ++ slack) (4 * m + t) = some (c', out ++ slack) ∧
      bytes out = (Shannon.shnFinish (toC c) (4 * m)).2 ++ List.replicate t
        (Shannon.byte (Shannon.cycle (Shannon.shnFinish (toC c) (4 * m)).1).sbuf 0) := by
  obtain ⟨k, hk⟩ : ∃ k, k = (if c.nbuf ≠ 0 then c.macFunc c.mbuf else c) := ⟨_, rfl⟩
  obtain ⟨l, hl⟩ : ∃ l, l = k.cycle.addKey
      (Java.Shannon.INITKONST ^^^ (Int32.ofNat k.cycle.nbuf <<< 3)) := ⟨_, rfl⟩
  have hmac : toC k =
      if (toC c).nbuf ≠ 0 then Shannon.macfunc (toC c) (toC c).mbuf else toC c := by
    rw [hk, apply_ite toC, toC_macFunc]
    rfl
  have hmark : toC l = Shannon.addkey (Shannon.cycle (toC k))
      (Shannon.INITKONST ^^^ (UInt32.ofNat (Shannon.cycle (toC k)).nbuf <<< 3)) := by
    rw [hl, toC_addKey, toC_cycle, nbuf_cycle, Shannon.cycle_nbuf, Int32.toUInt32_xor]
    rfl
  have hclear : toC { l with nbuf := 0 } = Shannon.clearBuf (toC l) := rfl
  obtain ⟨c', out, hj, hc⟩ := finishWords_eq m 0 ht
    (Java.Shannon.diffuse (Java.Shannon.xorCRC { l with nbuf := 0 })) [] buffer slack rfl h
  rw [toC_diffuse, toC_xorCRC, hclear, hmark, hmac] at hc
  refine ⟨c', out, ?_, hc⟩
  simp only [Java.Shannon.finish, ← hk, ← hl]
  exact hj

/-! ## The two ends of a connection -/

/-- A cipher in use: the context of `shn.c` or the object of `Shannon.java`. -/
inductive Cipher
  | c (ctx : ShnCtx)
  | java (obj : Java.Shannon)

namespace Cipher

/-- `shn_key` and `shn_nonce`, or `key` and `nonce`. -/
def start (key nonce : List UInt8) : Cipher → Cipher
  | .c ctx => .c (Shannon.shnNonce (Shannon.shnKey ctx key) nonce)
  | .java obj => .java ((obj.key (ofBytes key)).nonce (ofBytes nonce))

/-- One call on one chunk. -/
def crypt (d : Dir) (buf : List UInt8) : Cipher → Option (Cipher × List UInt8)
  | .c ctx => let (ctx, out) := Shannon.shnCrypt d ctx buf; some (.c ctx, out)
  | .java obj => do
    let (obj, out) ← obj.crypt d (ofBytes buf) buf.length
    return (.java obj, bytes out)

/-- One call for each chunk, and all the bytes they write. -/
def cryptChunks (d : Dir) : Cipher → List (List UInt8) → Option (Cipher × List UInt8)
  | e, [] => some (e, [])
  | e, buf :: bufs => do
    let (e, out) ← e.crypt d buf
    let (e, outs) ← e.cryptChunks d bufs
    return (e, out ++ outs)

/-- The `n` bytes of MAC. -/
def finish (n : Nat) : Cipher → Option (List UInt8)
  | .c ctx => some (Shannon.shnFinish ctx n).2
  | .java obj => do
    let (_, buffer) ← obj.finish (List.replicate n 0) n
    return bytes buffer

/-- The context of either. -/
def ctx : Cipher → ShnCtx
  | .c ctx => ctx
  | .java obj => toC obj

/-- At rest between two calls. -/
def Ready : Cipher → Prop
  | .c _ => True
  | .java obj => Aligned obj

theorem ctx_start (e : Cipher) (key nonce : List UInt8) :
    (e.start key nonce).ctx = Shannon.shnNonce (Shannon.shnKey e.ctx key) nonce := by
  cases e with
  | c ctx => rfl
  | java obj => simp only [start, ctx, toC_nonce, toC_key, bytes_ofBytes]

theorem ready_start (e : Cipher) (key nonce : List UInt8) : (e.start key nonce).Ready := by
  cases e with
  | c ctx => trivial
  | java obj =>
    have hnbuf : ((obj.key (ofBytes key)).nonce (ofBytes nonce)).nbuf = 0 := rfl
    exact ⟨by rw [hnbuf]; exact ⟨0, rfl⟩, by rw [hnbuf]; decide⟩

/-- Equal keys and nonces make equal ciphers, whatever went before. -/
theorem norm_start (e e' : Cipher) (key nonce : List UInt8) :
    norm (e.start key nonce).ctx = norm (e'.start key nonce).ctx := by
  rw [ctx_start, ctx_start]
  exact Shannon.norm_shnNonce (Shannon.initR_shnKey e.ctx e'.ctx key) nonce

theorem crypt_spec (d : Dir) {e : Cipher} (h : e.Ready) (buf : List UInt8) :
    ∃ e', e.crypt d buf = some (e', (Shannon.shnCrypt d e.ctx buf).2) ∧
      e'.ctx = (Shannon.shnCrypt d e.ctx buf).1 ∧ e'.Ready := by
  cases e with
  | c ctx => exact ⟨_, rfl, rfl, trivial⟩
  | java obj =>
    obtain ⟨obj', outs, hj, hc, hal⟩ := crypt_eq d [] h (ofBytes buf)
    rw [bytes_ofBytes] at hc
    refine ⟨.java obj', ?_, ?_, hal⟩
    · have hlen : (ofBytes buf).length = buf.length := List.length_map ..
      simp only [List.append_nil, hlen] at hj
      simp [crypt, ctx, hj, hc]
    · simp only [ctx, hc]

/-- The chunks of a message are one call on the whole of it. -/
theorem cryptChunks_spec (d : Dir) (bufs : List (List UInt8)) {e : Cipher} (h : e.Ready) :
    ∃ e', e.cryptChunks d bufs = some (e', (Shannon.shnCrypt d e.ctx bufs.flatten).2) ∧
      norm e'.ctx = norm (Shannon.shnCrypt d e.ctx bufs.flatten).1 := by
  induction bufs generalizing e with
  | nil =>
    have hnil : Shannon.shnCrypt d e.ctx [] = (e.ctx, []) := by
      unfold Shannon.shnCrypt
      split <;> simp_all [Shannon.cryptBuffered, Shannon.cryptWords]
    exact ⟨e, by rw [List.flatten_nil, hnil]; rfl, by rw [List.flatten_nil, hnil]⟩
  | cons buf bufs ih =>
    obtain ⟨e1, h1, hctx, hready⟩ := crypt_spec d h buf
    obtain ⟨e', h', hnorm⟩ := ih hready
    obtain ⟨happ, hout⟩ := Shannon.shnCrypt_append d e.ctx buf bufs.flatten
    rw [hctx] at h' hnorm
    refine ⟨e', ?_, ?_⟩
    · rw [cryptChunks, h1]
      simp only [Option.bind_eq_bind, Option.bind_some, h', List.flatten_cons, ← hout]
      rfl
    · rw [hnorm, happ, List.flatten_cons]

theorem finish_spec (e : Cipher) {n : Nat} (hn : 4 ∣ n) :
    e.finish n = some (Shannon.shnFinish e.ctx n).2 := by
  cases e with
  | c ctx => rfl
  | java obj =>
    obtain ⟨m, rfl⟩ := hn
    obtain ⟨obj', out, hj, hc⟩ := finish_eq obj m (Nat.zero_lt_succ 3)
      (List.replicate (4 * m) 0) [] List.length_replicate
    rw [List.append_nil, List.append_nil] at hj
    rw [List.replicate_zero, List.append_nil] at hc
    rw [finish, show obj.finish (List.replicate (4 * m) 0) (4 * m) = some (obj', out) from hj, ctx,
      ← hc]
    rfl

end Cipher

/-- **Any two ends understand each other**: whichever language each of them is
written in and whatever it did before, and however the sender cuts the message
and the receiver the bytes on the wire, the receiver obtains the message, and
the two produce the same MAC of any number of whole words. -/
theorem exchange (sender receiver : Cipher) (key nonce : List UInt8)
    (chunks : List (List UInt8)) :
    ∃ sender' wire,
      (sender.start key nonce).cryptChunks .encrypt chunks = some (sender', wire) ∧
      wire.length = chunks.flatten.length ∧
      ∀ chunks' : List (List UInt8), chunks'.flatten = wire →
        ∃ receiver',
          (receiver.start key nonce).cryptChunks .decrypt chunks' =
            some (receiver', chunks.flatten) ∧
          ∀ n, 4 ∣ n → ∃ mac, sender'.finish n = some mac ∧ receiver'.finish n = some mac := by
  obtain ⟨sender', hsend, hsnorm⟩ :=
    Cipher.cryptChunks_spec .encrypt chunks (sender.ready_start key nonce)
  refine ⟨sender', _, hsend, Shannon.length_shnCrypt .., fun chunks' hwire => ?_⟩
  obtain ⟨receiver', hrecv, hrnorm⟩ :=
    Cipher.cryptChunks_spec .decrypt chunks' (receiver.ready_start key nonce)
  obtain ⟨hnorm, hmsg⟩ := Shannon.shnDecrypt_shnEncrypt
    (receiver.norm_start sender key nonce) chunks.flatten
  rw [hwire] at hrecv hrnorm
  refine ⟨receiver', hrecv.trans ?_, fun n hn => ?_⟩
  · rw [← Shannon.shnDecrypt, ← Shannon.shnEncrypt, hmsg]
  · have hmac : (Shannon.shnFinish receiver'.ctx n).2 = (Shannon.shnFinish sender'.ctx n).2 :=
      Shannon.shnFinish_norm ((hrnorm.trans hnorm).trans hsnorm.symm) n
    exact ⟨_, sender'.finish_spec hn, (receiver'.finish_spec hn).trans (by rw [hmac])⟩

end Despotify.Interop

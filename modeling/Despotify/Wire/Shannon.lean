import Mathlib.Data.List.Basic

/-!
# The Shannon stream cipher of `lib/shn.c`

The context, the register operations, key loading and the combined
encrypt-and-MAC loops, in the order of the source.  Words are `UInt32`, bytes
`UInt8`; a buffer with its length is a list of bytes.

`shn_encrypt` and `shn_decrypt` are one loop over a `Dir`: they differ only in
which of the two bytes (the one read or the one written) is the plaintext that
goes into the MAC.
-/

namespace Despotify.Shannon

/-! ## Words and bytes -/

/-- `ROTL(w, x)`. -/
def rotl (w x : UInt32) : UInt32 := (w <<< x) ||| (w >>> (32 - x))

/-- `Byte(x, i)`. -/
def byte (x i : UInt32) : UInt8 := ((x >>> (8 * i)) &&& 0xFF).toUInt8

/-- `BYTE2WORD(b)`, little-endian. -/
def byte2word (b0 b1 b2 b3 : UInt8) : UInt32 :=
  (b3.toUInt32 <<< 24) ||| (b2.toUInt32 <<< 16) ||| (b1.toUInt32 <<< 8) ||| b0.toUInt32

/-- `WORD2BYTE(w, b)`: the four bytes written at `b`. -/
def word2byte (w : UInt32) : List UInt8 := [byte w 0, byte w 1, byte w 2, byte w 3]

/-! ## Context and register -/

/-- `shn_ctx`. -/
structure ShnCtx where
  /-- working storage for the shift register -/
  R : Vector UInt32 16
  /-- working storage for CRC accumulation -/
  CRC : Vector UInt32 16
  /-- saved register contents -/
  initR : Vector UInt32 16
  /-- key dependent semi-constant -/
  konst : UInt32
  /-- encryption buffer -/
  sbuf : UInt32
  /-- partial word MAC buffer -/
  mbuf : UInt32
  /-- number of part-word stream bits buffered -/
  nbuf : Nat
deriving DecidableEq, Inhabited, Repr

def INITKONST : UInt32 := 0x6996c53a

def sbox1 (w : UInt32) : UInt32 :=
  let w := w ^^^ (rotl w 5 ||| rotl w 7)
  w ^^^ (rotl w 19 ||| rotl w 22)

def sbox2 (w : UInt32) : UInt32 :=
  let w := w ^^^ (rotl w 7 ||| rotl w 22)
  w ^^^ (rotl w 5 ||| rotl w 19)

/-- The loop `for (i = 1; i < N; ++i) r[i - 1] = r[i]; r[N - 1] = t`. -/
def shiftIn (r : Vector UInt32 16) (t : UInt32) : Vector UInt32 16 :=
  Vector.ofFn fun i => if h : i.val + 1 < 16 then r[i.val + 1] else t

/-- Cycle the register and calculate the output word in `sbuf`. -/
def cycle (c : ShnCtx) : ShnCtx :=
  let t := c.R[12] ^^^ c.R[13] ^^^ c.konst
  let t := sbox1 t ^^^ rotl c.R[0] 1
  let R := shiftIn c.R t
  let t := sbox2 (R[2] ^^^ R[15])
  let R := R.set 0 (R[0] ^^^ t)
  { c with R := R, sbuf := t ^^^ R[8] ^^^ R[12] }

/-- Accumulate a CRC of input words. -/
def crcfunc (c : ShnCtx) (i : UInt32) : ShnCtx :=
  { c with CRC := shiftIn c.CRC (c.CRC[0] ^^^ c.CRC[2] ^^^ c.CRC[15] ^^^ i) }

/-- `ADDKEY(k)`, at `KEYP = 13`. -/
def addkey (c : ShnCtx) (k : UInt32) : ShnCtx := { c with R := c.R.set 13 (c.R[13] ^^^ k) }

/-- Normal MAC word processing: both stream register and CRC. -/
def macfunc (c : ShnCtx) (i : UInt32) : ShnCtx := addkey (crcfunc c i) i

/-- The Fibonacci numbers `R[0], R[1], …` of `shn_initstate`. -/
def fibs : Nat → UInt32 × UInt32
  | 0 => (1, 1)
  | i + 1 => ((fibs i).2, (fibs i).2 + (fibs i).1)

def shnSavestate (c : ShnCtx) : ShnCtx := { c with initR := c.R }

def shnReloadstate (c : ShnCtx) : ShnCtx := { c with R := c.initR }

def shnGenkonst (c : ShnCtx) : ShnCtx := { c with konst := c.R[0] }

/-- `c->konst = INITKONST`. -/
def initKonst (c : ShnCtx) : ShnCtx := { c with konst := INITKONST }

def shnInitstate (c : ShnCtx) : ShnCtx :=
  initKonst { c with R := Vector.ofFn fun i => (fibs i.val).1 }

/-- `c->nbuf = 0`. -/
def clearBuf (c : ShnCtx) : ShnCtx := { c with nbuf := 0 }

/-- The loop `c->CRC[i] = c->R[i]`. -/
def copyToCRC (c : ShnCtx) : ShnCtx := { c with CRC := c.R }

/-- The loop `c->R[i] ^= c->CRC[i]`. -/
def xorCRC (c : ShnCtx) : ShnCtx := { c with R := Vector.zipWith (· ^^^ ·) c.R c.CRC }

/-- `n` register cycles. -/
def cycles : Nat → ShnCtx → ShnCtx
  | 0, c => c
  | n + 1, c => cycles n (cycle c)

/-- Extra nonlinear diffusion: `FOLD = N = 16` cycles. -/
def shnDiffuse (c : ShnCtx) : ShnCtx := cycles 16 c

/-! ## Key loading -/

/-- The words of key material, the last one zero padded, each added and
followed by a cycle. -/
def loadWords : ShnCtx → List UInt8 → ShnCtx
  | c, b0 :: b1 :: b2 :: b3 :: key => loadWords (cycle (addkey c (byte2word b0 b1 b2 b3))) key
  | c, [b0, b1, b2] => cycle (addkey c (byte2word b0 b1 b2 0))
  | c, [b0, b1] => cycle (addkey c (byte2word b0 b1 0 0))
  | c, [b0] => cycle (addkey c (byte2word b0 0 0 0))
  | c, [] => c

def shnLoadkey (c : ShnCtx) (key : List UInt8) : ShnCtx :=
  let c := loadWords c key
  -- also fold in the length of the key
  let c := cycle (addkey c (UInt32.ofNat key.length))
  let c := shnDiffuse (copyToCRC c)
  -- xor the copy back: makes key loading irreversible
  xorCRC c

def shnKey (c : ShnCtx) (key : List UInt8) : ShnCtx :=
  let c := shnInitstate c
  let c := shnLoadkey c key
  let c := shnGenkonst c
  let c := shnSavestate c
  clearBuf c

def shnNonce (c : ShnCtx) (nonce : List UInt8) : ShnCtx :=
  let c := initKonst (shnReloadstate c)
  let c := shnLoadkey c nonce
  let c := shnGenkonst c
  clearBuf c

/-! ## MAC only -/

/-- `c->mbuf ^= (*buf++) << (32 - c->nbuf)`, one buffered byte. -/
def macByte (c : ShnCtx) (b : UInt8) : ShnCtx :=
  { c with mbuf := c.mbuf ^^^ (b.toUInt32 <<< UInt32.ofNat (32 - c.nbuf)), nbuf := c.nbuf - 8 }

/-- `while (c->nbuf != 0 && nbytes != 0)`, with the bytes left. -/
def macBuffered : ShnCtx → List UInt8 → ShnCtx × List UInt8
  | c, [] => (c, [])
  | c, b :: buf => if c.nbuf ≠ 0 then macBuffered (macByte c b) buf else (c, b :: buf)

/-- The whole words, then the trailing bytes. -/
def macWords : ShnCtx → List UInt8 → ShnCtx
  | c, b0 :: b1 :: b2 :: b3 :: buf => macWords (macfunc (cycle c) (byte2word b0 b1 b2 b3)) buf
  | c, [] => c
  | c, tail => (macBuffered { cycle c with mbuf := 0, nbuf := 32 } tail).1

def shnMaconly (c : ShnCtx) (buf : List UInt8) : ShnCtx :=
  if c.nbuf ≠ 0 then
    let (c, rest) := macBuffered c buf
    -- not a whole word yet
    if c.nbuf ≠ 0 then c
    -- LFSR already cycled
    else macWords (macfunc c c.mbuf) rest
  else macWords c buf

/-! ## Combined MAC and encryption, or decryption -/

inductive Dir
  | encrypt
  | decrypt
deriving DecidableEq, Repr

/-- The plaintext of a unit (byte or word) read as `b` and written as `out`. -/
def Dir.plain {α : Type} (d : Dir) (b out : α) : α :=
  match d with
  | .encrypt => b
  | .decrypt => out

/-- The loop body for one buffered byte: the byte written is `b` xored with
the next byte of `sbuf`, the plaintext one goes into `mbuf`. -/
def cryptByte (d : Dir) (c : ShnCtx) (b : UInt8) : ShnCtx × UInt8 :=
  let sh := UInt32.ofNat (32 - c.nbuf)
  let out := b ^^^ ((c.sbuf >>> sh) &&& 0xFF).toUInt8
  ({ c with mbuf := c.mbuf ^^^ ((d.plain b out).toUInt32 <<< sh), nbuf := c.nbuf - 8 }, out)

/-- `while (c->nbuf != 0 && nbytes != 0)`: the bytes written and those left. -/
def cryptBuffered (d : Dir) : ShnCtx → List UInt8 → ShnCtx × List UInt8 × List UInt8
  | c, [] => (c, [], [])
  | c, b :: buf =>
    if c.nbuf ≠ 0 then
      let (c, out) := cryptByte d c b
      let (c, outs, rest) := cryptBuffered d c buf
      (c, out :: outs, rest)
    else (c, [], b :: buf)

/-- One whole word. -/
def cryptWord (d : Dir) (c : ShnCtx) (b0 b1 b2 b3 : UInt8) : ShnCtx × List UInt8 :=
  let c := cycle c
  let w := byte2word b0 b1 b2 b3
  let out := w ^^^ c.sbuf
  (macfunc c (d.plain w out), word2byte out)

/-- The whole words, then the trailing bytes (fewer than four). -/
def cryptWords (d : Dir) : ShnCtx → List UInt8 → ShnCtx × List UInt8
  | c, b0 :: b1 :: b2 :: b3 :: buf =>
    let (c, out) := cryptWord d c b0 b1 b2 b3
    let (c, outs) := cryptWords d c buf
    (c, out ++ outs)
  | c, [] => (c, [])
  | c, tail =>
    let c := { cycle c with mbuf := 0, nbuf := 32 }
    let (c, outs, _) := cryptBuffered d c tail
    (c, outs)

/-- `shn_encrypt` / `shn_decrypt`. -/
def shnCrypt (d : Dir) (c : ShnCtx) (buf : List UInt8) : ShnCtx × List UInt8 :=
  if c.nbuf ≠ 0 then
    let (c, out, rest) := cryptBuffered d c buf
    -- not a whole word yet
    if c.nbuf ≠ 0 then (c, out)
    else
      -- LFSR already cycled
      let (c, outs) := cryptWords d (macfunc c c.mbuf) rest
      (c, out ++ outs)
  else cryptWords d c buf

def shnEncrypt (c : ShnCtx) (buf : List UInt8) : ShnCtx × List UInt8 := shnCrypt .encrypt c buf

def shnDecrypt (c : ShnCtx) (buf : List UInt8) : ShnCtx × List UInt8 := shnCrypt .decrypt c buf

/-! ## Finishing the MAC -/

/-- Output words from the stream buffer: `nbytes` bytes. -/
def macBytes : Nat → ShnCtx → ShnCtx × List UInt8
  | 0, c => (c, [])
  | nbytes + 4, c =>
    let c := cycle c
    let (c', out) := macBytes nbytes c
    (c', word2byte c.sbuf ++ out)
  | nbytes, c =>
    let c := cycle c
    (c, (word2byte c.sbuf).take nbytes)

def shnFinish (c : ShnCtx) (nbytes : Nat) : ShnCtx × List UInt8 :=
  -- LFSR already cycled
  let c := if c.nbuf ≠ 0 then macfunc c c.mbuf else c
  -- perturb the MAC to mark end of input: only the stream register is updated
  let c := cycle c
  let c := addkey c (INITKONST ^^^ (UInt32.ofNat c.nbuf <<< 3))
  let c := clearBuf c
  -- now add the CRC to the stream register and diffuse it
  let c := shnDiffuse (xorCRC c)
  macBytes nbytes c

end Despotify.Shannon

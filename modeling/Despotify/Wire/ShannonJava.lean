import Despotify.Wire.Shannon

/-!
# The Shannon stream cipher of `Shannon.java`

The class the Java client uses for the same wire format as `lib/shn.c`.  An
`int` is an `Int32` (`>>` shifts the sign in), a `byte` an `Int8`, masked with
`0xFF` wherever its bits go into a word.  The methods index their buffer: an
index out of bounds is the exception of the language, `none` here.

`encrypt` and `decrypt` are one body over a `Dir`, as in the C model.
-/

namespace Despotify.Java

open Despotify.Shannon (Dir)

/-! ## Words and bytes -/

/-- `Integer.rotateLeft(i, distance)`: its right shift is the logical one. -/
def rotateLeft (i distance : Int32) : Int32 :=
  (i <<< distance) ||| (i.toUInt32 >>> (32 - distance).toUInt32).toInt32

/-- `buffer[i] & 0xFF`. -/
def mask (b : Int8) : Int32 := b.toInt32 &&& 0xFF

/-- `(byte)(x & 0xFF)`. -/
def toByte (x : Int32) : Int8 := (x &&& 0xFF).toInt8

/-- Shift 4 bytes into one word. -/
def word (b0 b1 b2 b3 : Int8) : Int32 :=
  (mask b3 <<< 24) ||| (mask b2 <<< 16) ||| (mask b1 <<< 8) ||| mask b0

/-- `buffer[i] = b`. -/
def store (buffer : List Int8) (i : Nat) (b : Int8) : Option (List Int8) :=
  if i < buffer.length then some (buffer.set i b) else none

/-- Put word into byte buffer. -/
def storeWord (buffer : List Int8) (i : Nat) (t : Int32) : Option (List Int8) := do
  let buffer ← store buffer (i + 3) (toByte (t >>> 24))
  let buffer ← store buffer (i + 2) (toByte (t >>> 16))
  let buffer ← store buffer (i + 1) (toByte (t >>> 8))
  store buffer i (toByte t)

/-- The word read at `buffer[i]`. -/
def loadWord (buffer : List Int8) (i : Nat) : Option Int32 := do
  return word (← buffer[i]?) (← buffer[i + 1]?) (← buffer[i + 2]?) (← buffer[i + 3]?)

/-! ## The class -/

/-- The length of the register. -/
abbrev Shannon.N : Nat := 16

/-- `class Shannon`. -/
structure Shannon where
  /-- working storage for the shift register -/
  R : Vector Int32 Shannon.N
  /-- working storage for CRC accumulation -/
  CRC : Vector Int32 Shannon.N
  /-- saved register contents -/
  initR : Vector Int32 Shannon.N
  /-- key dependant semi-constant -/
  konst : Int32
  /-- encryption buffer -/
  sbuf : Int32
  /-- partial word MAC buffer -/
  mbuf : Int32
  /-- number of part-word stream bits buffered -/
  nbuf : Nat
deriving DecidableEq, Inhabited, Repr

namespace Shannon

def INITKONST : Int32 := 0x6996c53a

def sbox (i : Int32) : Int32 :=
  let i := i ^^^ (rotateLeft i 5 ||| rotateLeft i 7)
  i ^^^ (rotateLeft i 19 ||| rotateLeft i 22)

def sbox2 (i : Int32) : Int32 :=
  let i := i ^^^ (rotateLeft i 7 ||| rotateLeft i 22)
  i ^^^ (rotateLeft i 5 ||| rotateLeft i 19)

/-- The loop `for(int i = 1; i < N; i++) r[i - 1] = r[i]`, then `r[N - 1] = t`. -/
def shiftIn (r : Vector Int32 N) (t : Int32) : Vector Int32 N :=
  Vector.ofFn fun i => if h : i.val + 1 < 16 then r[i.val + 1] else t

/-- Cycle the contents of the register and calculate output word in `sbuf`. -/
def cycle (c : Shannon) : Shannon :=
  let t := c.R[12] ^^^ c.R[13] ^^^ c.konst
  let t := sbox t ^^^ rotateLeft c.R[0] 1
  let R := shiftIn c.R t
  let t := sbox2 (R[2] ^^^ R[15])
  let R := R.set 0 (R[0] ^^^ t)
  { c with R := R, sbuf := t ^^^ R[8] ^^^ R[12] }

/-- Accumulate a CRC of input words. -/
def crcFunc (c : Shannon) (i : Int32) : Shannon :=
  { c with CRC := shiftIn c.CRC (c.CRC[0] ^^^ c.CRC[2] ^^^ c.CRC[15] ^^^ i) }

/-- Load key material into the register, at `KEYP = 13`. -/
def addKey (c : Shannon) (k : Int32) : Shannon := { c with R := c.R.set 13 (c.R[13] ^^^ k) }

/-- Normal MAC word processing: do both stream register and CRC. -/
def macFunc (c : Shannon) (i : Int32) : Shannon :=
  let c := crcFunc c i
  { c with R := c.R.set 13 (c.R[13] ^^^ i) }

/-- The Fibonacci numbers of `initState`. -/
def fibs : Nat → Int32 × Int32
  | 0 => (1, 1)
  | i + 1 => ((fibs i).2, (fibs i).2 + (fibs i).1)

def initState (c : Shannon) : Shannon :=
  { c with R := Vector.ofFn fun i => (fibs i.val).1, konst := INITKONST }

def saveState (c : Shannon) : Shannon := { c with initR := c.R }

def reloadState (c : Shannon) : Shannon := { c with R := c.initR }

def genKonst (c : Shannon) : Shannon := { c with konst := c.R[0] }

/-- The loop `this.R[i] ^= this.CRC[i]`. -/
def xorCRC (c : Shannon) : Shannon := { c with R := Vector.zipWith (· ^^^ ·) c.R c.CRC }

def cycles : Nat → Shannon → Shannon
  | 0, c => c
  | n + 1, c => cycles n (cycle c)

/-- Extra nonlinear diffusion of register for key and MAC: `FOLD = 16` cycles. -/
def diffuse (c : Shannon) : Shannon := cycles 16 c

/-! ## Key loading -/

/-- The words of the key, the last one zero padded, each added and followed by
a cycle. -/
def loadWords : Shannon → List Int8 → Shannon
  | c, b0 :: b1 :: b2 :: b3 :: key => loadWords (cycle (addKey c (word b0 b1 b2 b3))) key
  | c, [b0, b1, b2] => cycle (addKey c (word b0 b1 b2 0))
  | c, [b0, b1] => cycle (addKey c (word b0 b1 0 0))
  | c, [b0] => cycle (addKey c (word b0 0 0 0))
  | c, [] => c

def loadKey (c : Shannon) (key : List Int8) : Shannon :=
  let c := loadWords c key
  -- also fold in the length of the key
  let c := cycle (addKey c (Int32.ofNat key.length))
  let c := diffuse { c with CRC := c.R }
  xorCRC c

def key (c : Shannon) (key : List Int8) : Shannon :=
  let c := initState c
  let c := loadKey c key
  let c := genKonst c
  let c := saveState c
  { c with nbuf := 0 }

def nonce (c : Shannon) (nonce : List Int8) : Shannon :=
  let c := { reloadState c with konst := INITKONST }
  let c := loadKey c nonce
  let c := genKonst c
  { c with nbuf := 0 }

/-! ## MAC only -/

/-- One buffered byte; it is shifted with its sign. -/
def macByte (c : Shannon) (b : Int8) : Shannon :=
  { c with mbuf := c.mbuf ^^^ (b.toInt32 <<< Int32.ofNat (32 - c.nbuf)), nbuf := c.nbuf - 8 }

/-- `while(this.nbuf != 0 && n != 0)`: the object, `i` and `n` after the loop. -/
def macBuffered (c : Shannon) (buffer : List Int8) (i : Nat) :
    Nat → Option (Shannon × Nat × Nat)
  | 0 => some (c, i, 0)
  | n + 1 =>
    if c.nbuf ≠ 0 then do macBuffered (macByte c (← buffer[i]?)) buffer (i + 1) n
    else some (c, i, n + 1)

/-- `while(i < j)`, one whole word a pass. -/
def macWords (c : Shannon) (buffer : List Int8) (i j : Nat) : Option (Shannon × Nat) :=
  if i < j then do
    macWords (macFunc (cycle c) (← loadWord buffer i)) buffer (i + 4) j
  else some (c, i)
termination_by j - i

/-- Handle any trailing bytes. -/
def macTail (c : Shannon) (buffer : List Int8) (i n : Nat) : Option Shannon :=
  if n ≠ 0 then do
    let (c, _, _) ← macBuffered { cycle c with mbuf := 0, nbuf := 32 } buffer i n
    return c
  else some c

def macRest (c : Shannon) (buffer : List Int8) (i n : Nat) : Option Shannon := do
  let (c, i) ← macWords c buffer i (n - n % 4)
  macTail c buffer i (n % 4)

/-- `macOnly(buffer)`. -/
def macOnly (c : Shannon) (buffer : List Int8) : Option Shannon :=
  if c.nbuf ≠ 0 then do
    let (c, i, n) ← macBuffered c buffer 0 buffer.length
    -- not a whole word yet
    if c.nbuf ≠ 0 then return c
    else macRest (macFunc c c.mbuf) buffer i n
  else macRest c buffer 0 buffer.length

/-! ## Combined MAC and encryption, or decryption -/

/-- One buffered byte: the byte written and the object after it. -/
def cryptByte (d : Dir) (c : Shannon) (b : Int8) : Shannon × Int8 :=
  let sh := Int32.ofNat (32 - c.nbuf)
  let out := (b.toInt32 ^^^ ((c.sbuf >>> sh) &&& 0xFF)).toInt8
  ({ c with mbuf := c.mbuf ^^^ (mask (d.plain b out) <<< sh), nbuf := c.nbuf - 8 }, out)

/-- `while(this.nbuf != 0 && n != 0)`: the object, the buffer, `i` and `n`
after the loop. -/
def cryptBuffered (d : Dir) (c : Shannon) (buffer : List Int8) (i : Nat) :
    Nat → Option (Shannon × List Int8 × Nat × Nat)
  | 0 => some (c, buffer, i, 0)
  | n + 1 =>
    if c.nbuf ≠ 0 then do
      let (c, out) := cryptByte d c (← buffer[i]?)
      cryptBuffered d c (← store buffer i out) (i + 1) n
    else some (c, buffer, i, n + 1)

/-- `while(i < j)`, one whole word a pass. -/
def cryptWords (d : Dir) (c : Shannon) (buffer : List Int8) (i j : Nat) :
    Option (Shannon × List Int8 × Nat) :=
  if i < j then do
    let c := cycle c
    let t ← loadWord buffer i
    let out := t ^^^ c.sbuf
    cryptWords d (macFunc c (d.plain t out)) (← storeWord buffer i out) (i + 4) j
  else some (c, buffer, i)
termination_by j - i

/-- Handle any trailing bytes. -/
def cryptTail (d : Dir) (c : Shannon) (buffer : List Int8) (i n : Nat) :
    Option (Shannon × List Int8) :=
  if n ≠ 0 then do
    let c := { cycle c with mbuf := 0, nbuf := 32 }
    let (c, buffer, _, _) ← cryptBuffered d c buffer i n
    return (c, buffer)
  else some (c, buffer)

/-- The whole words and the trailing bytes: `j` is computed from the `n` that
is left, and compared with the `i` that has moved on. -/
def cryptRest (d : Dir) (c : Shannon) (buffer : List Int8) (i n : Nat) :
    Option (Shannon × List Int8) := do
  let (c, buffer, i) ← cryptWords d c buffer i (n - n % 4)
  cryptTail d c buffer i (n % 4)

/-- `encrypt(buffer, n)` / `decrypt(buffer, n)`. -/
def crypt (d : Dir) (c : Shannon) (buffer : List Int8) (n : Nat) :
    Option (Shannon × List Int8) :=
  if c.nbuf ≠ 0 then do
    let (c, buffer, i, n) ← cryptBuffered d c buffer 0 n
    -- not a whole word yet
    if c.nbuf ≠ 0 then return (c, buffer)
    else cryptRest d (macFunc c c.mbuf) buffer i n
  else cryptRest d c buffer 0 n

/-- `encrypt(buffer)`. -/
def encrypt (c : Shannon) (buffer : List Int8) : Option (Shannon × List Int8) :=
  crypt .encrypt c buffer buffer.length

/-- `decrypt(buffer)`. -/
def decrypt (c : Shannon) (buffer : List Int8) : Option (Shannon × List Int8) :=
  crypt .decrypt c buffer buffer.length

/-! ## Finishing the MAC -/

/-- `for(j = 0; j < n; j++) buffer[i + j] = …`: every byte of an incomplete
last word is the one `i * 8` shifts out, not the one at `j`. -/
def finishTail (c : Shannon) (buffer : List Int8) (i j : Nat) : Nat → Option (List Int8)
  | 0 => some buffer
  | n + 1 => do
    finishTail c (← store buffer (i + j) (toByte (c.sbuf >>> Int32.ofNat (i * 8)))) i (j + 1) n

/-- `while(n > 0)`. -/
def finishWords (c : Shannon) (buffer : List Int8) (i : Nat) : Nat → Option (Shannon × List Int8)
  | 0 => some (c, buffer)
  | n + 4 => do
    let c := cycle c
    finishWords c (← storeWord buffer i c.sbuf) (i + 4) n
  | n => do
    let c := cycle c
    return (c, ← finishTail c buffer i 0 n)

/-- `finish(buffer, n)`. -/
def finish (c : Shannon) (buffer : List Int8) (n : Nat) : Option (Shannon × List Int8) :=
  -- LFSR already cycled
  let c := if c.nbuf ≠ 0 then macFunc c c.mbuf else c
  let c := cycle c
  let c := addKey c (INITKONST ^^^ (Int32.ofNat c.nbuf <<< 3))
  let c := { c with nbuf := 0 }
  let c := diffuse (xorCRC c)
  finishWords c buffer 0 n

end Shannon

end Despotify.Java

import Despotify.Java.Channel
import Mathlib.Tactic.IntervalCases

/-!
# Java: the header that Spotify puts before an Ogg stream

`SpotifyOggHeader.parse` behind the page header: blocks of a size, a type and what the type says.
A block that is not read to its end is not skipped, the byte swap of an `int` loses the lowest
byte, and the running sums are all written to the first place of the table.

    parse reads the blocks where they are and what they say ↔ all are read to the end, and the
      last table has lowest bytes 0 and running sums 0                     (decodes_iff)
-/

namespace Despotify.Java

/-- The fields, without the floating point numbers that are made of the bits of the gain. -/
structure SpotifyOggHeader where
  samples : Int := 0
  length : Int := 0
  unknown : Int := 0
  /-- `null` at first -/
  table : Option (List Int) := none
  /-- what `Float.intBitsToFloat` gets -/
  gain : Option Int := none
  deriving DecidableEq, Repr

namespace SpotifyOggHeader

def headerTableDec : List Int :=
  [0, 112, 197, 327, 374, 394, 407, 417, 425, 433, 439, 444, 449, 454, 458, 462,
    466, 470, 473, 477, 480, 483, 486, 489, 491, 494, 497, 499, 502, 504, 506, 509,
    511, 513, 515, 517, 519, 521, 523, 525, 527, 529, 531, 533, 535, 537, 538, 540,
    542, 544, 545, 547, 549, 550, 552, 554, 555, 557, 558, 560, 562, 563, 565, 566,
    568, 569, 571, 572, 574, 575, 577, 578, 580, 581, 583, 584, 585, 587, 588, 590,
    591, 593, 594, 595, 597, 598, 599, 601, 602, 604, 605, 606, 608, 609, 610, 612,
    613, 615, 616, 617, 619, 620, 621, 623, 624, 625, 627, 628, 629, 631, 632, 634,
    635, 636, 638, 639, 640, 642, 643, 644, 646, 647, 649, 650, 651, 653, 654, 655,
    657, 658, 660, 661, 662, 664, 665, 667, 668, 669, 671, 672, 674, 675, 677, 678,
    679, 681, 682, 684, 685, 687, 688, 690, 691, 693, 694, 696, 697, 699, 700, 702,
    704, 705, 707, 708, 710, 712, 713, 715, 716, 718, 720, 721, 723, 725, 727, 728,
    730, 732, 734, 735, 737, 739, 741, 743, 745, 747, 748, 750, 752, 754, 756, 758,
    760, 763, 765, 767, 769, 771, 773, 776, 778, 780, 782, 785, 787, 790, 792, 795,
    797, 800, 803, 805, 808, 811, 814, 817, 820, 823, 826, 829, 833, 836, 840, 843,
    847, 851, 855, 859, 863, 868, 872, 877, 882, 887, 893, 898, 904, 911, 918, 925,
    933, 941, 951, 961, 972, 985, 1000, 1017, 1039, 1067, 1108, 1183, 1520, 2658, 4666, 8191]

/-- `this.headerTableDec[b]` -/
def dec (b : UInt8) : Int := headerTableDec.getD b.toNat 0

/-! ## Reading -/

inductive Thrown
  | ioException
  | indexOutOfBounds
  deriving DecidableEq, Repr

def swapShort (value : BitVec 16) : BitVec 16 :=
  let value := value.signExtend 32
  (((value &&& 0xff#32) <<< 8) ||| ((value &&& 0xff00#32).sshiftRight 8)).truncate 16

/-- The last shift is to the left, as the first. -/
def swapInt (value : BitVec 32) : BitVec 32 :=
  ((value &&& 0xff#32) <<< 24) ||| ((value &&& 0xff00#32) <<< 8) |||
    ((value &&& 0xff0000#32).sshiftRight 8) ||| ((value &&& 0xff000000#32) <<< 24)

/-- `input.readInt ()` -/
def readInt : Bytes → Except Thrown (BitVec 32 × Bytes)
  | b0 :: b1 :: b2 :: b3 :: input =>
    .ok (b0.toBitVec ++ b1.toBitVec ++ b2.toBitVec ++ b3.toBitVec, input)
  | _ => .error .ioException

/-- `this.headerTableDec[input.read ()]` -/
def readDec : Bytes → Except Thrown (Int × Bytes)
  | b :: input => .ok (dec b, input)
  | [] => .error .indexOutOfBounds

/-- `for (int i = 0; i < n; i++)`, with `ctr` as it is. -/
def sumLoop : Nat → Int → Nat → List Int → Bytes → Except Thrown (List Int × Bytes)
  | 0, _, _, table, input => .ok (table, input)
  | n + 1, ack, ctr, table, input => do
    let (delta, input) ← readDec input
    sumLoop n (ack + delta) ctr (table.set ctr (ack + delta)) input

/-- `case 0`; the sums are far from the bounds of an `int`. -/
def readTable (f : SpotifyOggHeader) (input : Bytes) :
    Except Thrown (SpotifyOggHeader × Bytes) := do
  let (samples, input) ← readInt input
  let (length, input) ← readInt input
  let (unknown, input) ← readDec input
  let (table, input) ← sumLoop 0x64 (-unknown) 0 (List.replicate 0x64 0) input
  .ok ({ f with
    samples := (swapInt samples).toInt
    length := (swapInt length).toInt
    unknown := -unknown
    table := some table }, input)

/-- `case 1` -/
def readGain (f : SpotifyOggHeader) (input : Bytes) :
    Except Thrown (SpotifyOggHeader × Bytes) := do
  let (value, input) ← readInt input
  .ok ({ f with gain := some (swapInt value).toInt }, input)

/-- `switch (input.read ())` -/
def readBlock (blockSize : Int) (f : SpotifyOggHeader) :
    Bytes → Except Thrown (SpotifyOggHeader × Bytes)
  | [] => .ok (f, [])
  | type :: input =>
    if type = 0 then if blockSize = 0x6e then readTable f input else .ok (f, input)
    else if type = 1 then if 0x10 < blockSize then readGain f input else .ok (f, input)
    else .ok (f, input)

/-- A turn of the loop; `none` if there are less than two bytes. -/
def turn (f : SpotifyOggHeader) : Bytes → Option (Except Thrown (SpotifyOggHeader × Bytes))
  | b0 :: b1 :: input =>
    let blockSize := (swapShort (b0.toBitVec ++ b1.toBitVec)).toInt
    if blockSize ≤ input.length ∧ 0 < blockSize then some (readBlock blockSize f input)
    else some (.ok (f, input))
  | _ => none

/-! ## The length of what is left -/

theorem readInt_length {input rest : Bytes} {v : BitVec 32} (h : readInt input = .ok (v, rest)) :
    rest.length ≤ input.length := by
  unfold readInt at h
  split at h
  · cases h
    simp only [List.length_cons]
    omega
  · cases h

theorem sumLoop_length {n ctr : Nat} {ack : Int} {table table' : List Int} {input rest : Bytes}
    (h : sumLoop n ack ctr table input = .ok (table', rest)) : rest.length ≤ input.length := by
  induction n generalizing ack table input with
  | zero =>
    cases h
    exact Nat.le_refl _
  | succ n ih =>
    cases input with
    | nil => cases h
    | cons b input => exact Nat.le_succ_of_le (ih h)

theorem exists_of_bind {α β : Type} {x : Except Thrown α} {g : α → Except Thrown β} {b : β}
    (h : x >>= g = .ok b) : ∃ a, x = .ok a ∧ g a = .ok b := by
  cases x with
  | error e => cases h
  | ok a => exact ⟨a, rfl, h⟩

theorem readTable_length {f f' : SpotifyOggHeader} {input rest : Bytes}
    (h : readTable f input = .ok (f', rest)) : rest.length ≤ input.length := by
  obtain ⟨⟨samples, input1⟩, h1, h⟩ := exists_of_bind h
  obtain ⟨⟨length, input2⟩, h2, h⟩ := exists_of_bind h
  obtain ⟨⟨unknown, input3⟩, h3, h⟩ := exists_of_bind h
  obtain ⟨⟨table, input4⟩, h4, h⟩ := exists_of_bind h
  have hle1 := readInt_length h1
  have hle2 := readInt_length h2
  have hle3 : input3.length ≤ input2.length := by
    cases input2 with
    | nil => cases h3
    | cons b input2 =>
      cases h3
      exact Nat.le_succ _
  have hle4 := sumLoop_length h4
  cases h
  omega

theorem readGain_length {f f' : SpotifyOggHeader} {input rest : Bytes}
    (h : readGain f input = .ok (f', rest)) : rest.length ≤ input.length := by
  obtain ⟨⟨value, input1⟩, h1, h⟩ := exists_of_bind h
  cases h
  exact readInt_length h1

theorem readBlock_length {blockSize : Int} {f f' : SpotifyOggHeader} {input rest : Bytes}
    (h : readBlock blockSize f input = .ok (f', rest)) : rest.length ≤ input.length := by
  cases input with
  | nil =>
    cases h
    exact Nat.le_refl _
  | cons type input =>
    rw [readBlock] at h
    refine Nat.le_succ_of_le ?_
    split at h
    · split at h
      · exact readTable_length h
      · cases h
        exact Nat.le_refl _
    · split at h
      · split at h
        · exact readGain_length h
        · cases h
          exact Nat.le_refl _
      · cases h
        exact Nat.le_refl _

theorem turn_length {f f' : SpotifyOggHeader} {input rest : Bytes}
    (h : turn f input = some (.ok (f', rest))) : rest.length < input.length := by
  match input, h with
  | [], h | [_], h => cases h
  | b0 :: b1 :: input, h =>
    unfold turn at h
    simp only [List.length_cons]
    dsimp only at h
    split at h
    · have := readBlock_length (Option.some.inj h)
      omega
    · cases h
      omega

/-! ## `parse` -/

/-- `while (input.available () >= 2)` -/
def parseLoop (f : SpotifyOggHeader) (input : Bytes) : Except Thrown SpotifyOggHeader :=
  match _h : turn f input with
  | none => .ok f
  | some (.error e) => .error e
  | some (.ok (f, rest)) => parseLoop f rest
termination_by input.length
decreasing_by exact turn_length _h

/-- What is left of the input wherever the loop reads a size. -/
def sizesRead (f : SpotifyOggHeader) (input : Bytes) : List Bytes :=
  match _h : turn f input with
  | none => []
  | some (.error _) => [input]
  | some (.ok (f, rest)) => input :: sizesRead f rest
termination_by input.length
decreasing_by exact turn_length _h

/-- The input behind the page header. -/
def parse (header : Bytes) : Except Thrown SpotifyOggHeader :=
  match header.drop 0x1C with
  | [] => .ok {}
  | b :: input => if b = 0x81 then parseLoop {} input else .ok {}

/-- The constructor. -/
def ofBytes (header : Bytes) : Except Thrown SpotifyOggHeader :=
  match parse header with
  | .error .ioException => .ok { table := some [] }
  | r => r

theorem parseLoop_eq {f f' : SpotifyOggHeader} {input rest : Bytes}
    (h : turn f input = some (.ok (f', rest))) : parseLoop f input = parseLoop f' rest := by
  rw [parseLoop]
  split
  · next h' => cases h.symm.trans h'
  · next h' => cases h.symm.trans h'
  · next h' =>
    cases h.symm.trans h'
    rfl

theorem parseLoop_of_none {f : SpotifyOggHeader} {input : Bytes} (h : turn f input = none) :
    parseLoop f input = .ok f := by
  rw [parseLoop]
  split
  · rfl
  · next h' => cases h.symm.trans h'
  · next h' => cases h.symm.trans h'

theorem sizesRead_eq {f f' : SpotifyOggHeader} {input rest : Bytes}
    (h : turn f input = some (.ok (f', rest))) :
    sizesRead f input = input :: sizesRead f' rest := by
  rw [sizesRead]
  split
  · next h' => cases h.symm.trans h'
  · next h' => cases h.symm.trans h'
  · next h' =>
    cases h.symm.trans h'
    rfl

theorem sizesRead_of_none {f : SpotifyOggHeader} {input : Bytes} (h : turn f input = none) :
    sizesRead f input = [] := by
  rw [sizesRead]
  split
  · rfl
  · next h' => cases h.symm.trans h'
  · next h' => cases h.symm.trans h'

/-! ## Blocks -/

/-- A block of a type and its payload, of a size that fits in 16 bits. -/
structure Block where
  type : UInt8
  payload : Bytes
  fits : payload.length + 1 < 65536

namespace Block

def size (b : Block) : Nat := b.payload.length + 1

/-- The size, lowest byte first, the type and the payload. -/
def encode (b : Block) : Bytes :=
  UInt8.ofNat (b.size % 256) :: UInt8.ofNat (b.size / 256) :: b.type :: b.payload

def isTable (b : Block) : Prop := b.type = 0 ∧ b.payload.length = 0x6d

def isGain (b : Block) : Prop := b.type = 1 ∧ 0x10 ≤ b.payload.length

instance (b : Block) : Decidable b.isTable := inferInstanceAs (Decidable (_ ∧ _))

instance (b : Block) : Decidable b.isGain := inferInstanceAs (Decidable (_ ∧ _))

/-- The byte `i` of the payload. -/
def at' (b : Block) (i : Nat) : UInt8 := b.payload.getD i 0

/-- The `int` stored at `i`, lowest byte first. -/
def intAt (b : Block) (i : Nat) : Int :=
  ((b.at' (i + 3)).toBitVec ++ (b.at' (i + 2)).toBitVec ++ (b.at' (i + 1)).toBitVec ++
    (b.at' i).toBitVec).toInt

end Block

/-- The sums up to each of the deltas. -/
def runningSums : Int → Bytes → List Int
  | _, [] => []
  | ack, d :: ds => (ack + dec d) :: runningSums (ack + dec d) ds

/-- What a block says. -/
def Block.tells (f : SpotifyOggHeader) (b : Block) : SpotifyOggHeader :=
  if b.isTable then
    { f with
      samples := b.intAt 0
      length := b.intAt 4
      unknown := -dec (b.at' 8)
      table := some (runningSums (-dec (b.at' 8)) (b.payload.drop 9)) }
  else if b.isGain then { f with gain := some (b.intAt 0) }
  else f

/-- The blocks from each of them on. -/
def starts : List Block → List Bytes
  | [] => []
  | b :: bs => (b :: bs).flatMap Block.encode :: starts bs

/-- The header is read as it was written: the sizes where the blocks start, and what the blocks
say. -/
structure Decodes (pageHeader : Bytes) (blocks : List Block) : Prop where
  framed : sizesRead {} (blocks.flatMap Block.encode) = starts blocks
  said : ofBytes (pageHeader ++ 0x81 :: blocks.flatMap Block.encode) =
    .ok (blocks.foldl Block.tells {})

/-! ## The bytes swapped -/

theorem swapShort_append (a b : BitVec 8) : swapShort (a ++ b) = b ++ a := by
  apply BitVec.eq_of_getLsbD_eq
  intro i hi
  unfold swapShort
  interval_cases i <;>
    simp only [BitVec.truncate_eq_setWidth, BitVec.getLsbD_setWidth, BitVec.getLsbD_or,
      BitVec.getLsbD_and, BitVec.getLsbD_shiftLeft, BitVec.getLsbD_sshiftRight,
      BitVec.getLsbD_signExtend, BitVec.getLsbD_append, BitVec.getLsbD_ofNat] <;>
    simp [Nat.testBit_eq_decide_div_mod_eq]

/-- The lowest byte is lost. -/
theorem swapInt_append (a b c d : BitVec 8) :
    swapInt (a ++ b ++ c ++ d) = d ++ c ++ b ++ 0#8 := by
  have hmsb : (16711680#32).msb = false := by decide
  apply BitVec.eq_of_getLsbD_eq
  intro i hi
  unfold swapInt
  interval_cases i <;>
    simp only [BitVec.getLsbD_or, BitVec.getLsbD_and, BitVec.getLsbD_shiftLeft,
      BitVec.getLsbD_sshiftRight, BitVec.getLsbD_append, BitVec.getLsbD_ofNat] <;>
    simp [Nat.testBit_eq_decide_div_mod_eq, hmsb]

/-- A size of more than 15 bits is negative. -/
theorem toInt_size {n : Nat} (hn : n < 65536) :
    (swapShort ((UInt8.ofNat (n % 256)).toBitVec ++ (UInt8.ofNat (n / 256)).toBitVec)).toInt =
      if n < 32768 then (n : Int) else n - 65536 := by
  have hnat : ((UInt8.ofNat (n / 256)).toBitVec ++ (UInt8.ofNat (n % 256)).toBitVec).toNat = n := by
    rw [BitVec.toNat_append, ← Nat.shiftLeft_add_eq_or_of_lt (BitVec.isLt _), Nat.shiftLeft_eq,
      UInt8.toNat_toBitVec, UInt8.toNat_toBitVec, UInt8.toNat_ofNat', UInt8.toNat_ofNat']
    omega
  rw [swapShort_append, BitVec.toInt_eq_toNat_cond, hnat]
  split <;> split <;> omega

/-! ## A turn at a block -/

/-- `swap` of the `int` at `i`. -/
def Block.intTaken (b : Block) (i : Nat) : Int :=
  ((b.at' (i + 3)).toBitVec ++ (b.at' (i + 2)).toBitVec ++ (b.at' (i + 1)).toBitVec ++ 0#8).toInt

/-- What the loop takes of a block. -/
def Block.taken (f : SpotifyOggHeader) (b : Block) : SpotifyOggHeader :=
  if b.isTable then
    { f with
      samples := b.intTaken 0
      length := b.intTaken 4
      unknown := -dec (b.at' 8)
      table := some ((runningSums (-dec (b.at' 8)) (b.payload.drop 9)).getLastD 0 ::
        List.replicate 99 0) }
  else if b.isGain ∧ b.size < 32768 then { f with gain := some (b.intTaken 0) }
  else f

/-- What it leaves. -/
def Block.left (b : Block) : Bytes :=
  if 32768 ≤ b.size then b.type :: b.payload
  else if b.isTable then []
  else if b.isGain then b.payload.drop 4
  else b.payload

theorem sumLoop_eq (ds rest : Bytes) (ack x : Int) (table : List Int) :
    sumLoop ds.length ack 0 (x :: table) (ds ++ rest) =
      .ok ((runningSums ack ds).getLastD x :: table, rest) := by
  induction ds generalizing ack x with
  | nil => rfl
  | cons d ds ih =>
    show sumLoop ds.length (ack + dec d) 0 ((ack + dec d) :: table) (ds ++ rest) = _
    rw [ih, runningSums, List.getLastD_cons]

theorem Block.isTable.payload_eq {b : Block} (hb : b.isTable) :
    ∃ p0 p1 p2 p3 p4 p5 p6 p7 p8 ds,
      b.payload = p0 :: p1 :: p2 :: p3 :: p4 :: p5 :: p6 :: p7 :: p8 :: ds ∧ ds.length = 100 := by
  have hlen := hb.2
  match b.payload, hlen with
  | p0 :: p1 :: p2 :: p3 :: p4 :: p5 :: p6 :: p7 :: p8 :: ds, hlen =>
    exact ⟨p0, p1, p2, p3, p4, p5, p6, p7, p8, ds, rfl, by simpa using hlen⟩

theorem readTable_eq (f : SpotifyOggHeader) {b : Block} (hb : b.isTable) (rest : Bytes) :
    readTable f (b.payload ++ rest) = .ok (b.taken f, rest) := by
  obtain ⟨p0, p1, p2, p3, p4, p5, p6, p7, p8, ds, hp, hds⟩ := hb.payload_eq
  have hloop := sumLoop_eq ds rest (-dec p8) 0 (List.replicate 99 0)
  rw [hds] at hloop
  rw [Block.taken, if_pos hb]
  simp only [Block.intTaken, Block.at', hp]
  show (sumLoop 100 (-dec p8) 0 (0 :: List.replicate 99 0) (ds ++ rest) >>= fun x => _) = _
  rw [hloop, swapInt_append, swapInt_append]
  rfl

theorem readGain_eq (f : SpotifyOggHeader) {b : Block} (hb : b.isGain) (hsize : b.size < 32768)
    (rest : Bytes) :
    readGain f (b.payload ++ rest) = .ok (b.taken f, b.payload.drop 4 ++ rest) := by
  have hnot : ¬ b.isTable := fun h => by
    have := h.1.symm.trans hb.1
    cases this
  rw [Block.taken, if_neg hnot, if_pos ⟨hb, hsize⟩]
  have hlen := hb.2
  simp only [Block.intTaken, Block.at']
  match b.payload, hlen with
  | p0 :: p1 :: p2 :: p3 :: ds, _ =>
    show Except.ok (({ f with gain := some (swapInt _).toInt } : SpotifyOggHeader), ds ++ rest) = _
    rw [swapInt_append]
    rfl

theorem readBlock_eq (f : SpotifyOggHeader) (b : Block) (hsize : b.size < 32768) (rest : Bytes) :
    readBlock b.size f (b.type :: b.payload ++ rest) = .ok (b.taken f, b.left ++ rest) := by
  have hsmall : ¬ 32768 ≤ b.size := Nat.not_le_of_lt hsize
  rw [List.cons_append, readBlock, Block.left, if_neg hsmall]
  by_cases htable : b.isTable
  · have hsize' : (b.size : Int) = 0x6e := by
      rw [Block.size, htable.2]
      rfl
    rw [if_pos htable.1, if_pos hsize', if_pos htable, readTable_eq f htable]
    rfl
  · rw [if_neg htable]
    by_cases hgain : b.isGain
    · have hne : b.type ≠ 0 := by
        rw [hgain.1]
        decide
      have hsize' : 0x10 < (b.size : Int) := by
        have := hgain.2
        rw [Block.size]
        omega
      rw [if_neg hne, if_pos hgain.1, if_pos hsize', if_pos hgain, readGain_eq f hgain hsize]
    · have htaken : b.taken f = f := by
        rw [Block.taken, if_neg htable, if_neg fun h => hgain h.1]
      rw [htaken, if_neg hgain]
      by_cases h0 : b.type = 0
      · rw [if_pos h0, if_neg fun h => htable ⟨h0, by rw [Block.size] at h; omega⟩]
      · rw [if_neg h0]
        by_cases h1 : b.type = 1
        · rw [if_pos h1, if_neg fun h => hgain ⟨h1, by rw [Block.size] at h; omega⟩]
        · rw [if_neg h1]

theorem Block.taken_of_large (f : SpotifyOggHeader) {b : Block} (hsize : 32768 ≤ b.size) :
    b.taken f = f := by
  have htable : ¬ b.isTable := fun h => by
    have := h.2
    rw [Block.size] at hsize
    omega
  rw [Block.taken, if_neg htable, if_neg fun h => absurd h.2 (by omega)]

theorem turn_cons (f : SpotifyOggHeader) {b0 b1 : UInt8} (input : Bytes) {blockSize : Int}
    (h : (swapShort (b0.toBitVec ++ b1.toBitVec)).toInt = blockSize) :
    turn f (b0 :: b1 :: input) =
      if blockSize ≤ input.length ∧ 0 < blockSize then some (readBlock blockSize f input)
      else some (.ok (f, input)) := by
  subst h
  rfl

theorem turn_encode (f : SpotifyOggHeader) (b : Block) (rest : Bytes) :
    turn f (b.encode ++ rest) = some (.ok (b.taken f, b.left ++ rest)) := by
  have hlen : (b.type :: b.payload ++ rest).length = b.size + rest.length := by
    rw [List.length_append, List.length_cons, Block.size]
  have hturn := turn_cons f (b.type :: b.payload ++ rest) (toInt_size b.fits)
  rw [hlen] at hturn
  refine hturn.trans ?_
  by_cases hsmall : b.size < 32768
  · have hpos : 0 < b.size := Nat.succ_pos _
    rw [if_pos (show b.payload.length + 1 < 32768 from hsmall)]
    rw [if_pos (by rw [Block.size]; omega)]
    exact congrArg some (readBlock_eq f b hsmall rest)
  · rw [if_neg (show ¬ b.payload.length + 1 < 32768 from hsmall), if_neg (by have := b.fits; omega),
      Block.taken_of_large f (by omega), Block.left, if_pos (by omega)]

/-! ## Where the sizes are read -/

/-- Every block is read to its end: a table, or the type alone; of the last one a byte may be
left. -/
def ReadOut : List Block → Prop
  | [] => True
  | [b] => b.isTable ∨ b.payload.length ≤ 1
  | b :: bs => (b.isTable ∨ b.payload = []) ∧ ReadOut bs

instance decidableReadOut : DecidablePred ReadOut
  | [] => isTrue trivial
  | [b] => inferInstanceAs (Decidable (b.isTable ∨ b.payload.length ≤ 1))
  | b :: c :: bs =>
    have := decidableReadOut (c :: bs)
    inferInstanceAs (Decidable ((b.isTable ∨ b.payload = []) ∧ ReadOut (c :: bs)))

theorem Block.isTable.left {b : Block} (hb : b.isTable) : b.left = [] := by
  have hsize : ¬ 32768 ≤ b.size := by
    rw [Block.size, hb.2]
    decide
  rw [Block.left, if_neg hsize, if_pos hb]

theorem Block.left_length_le (b : Block) :
    b.left.length ≤ 1 ↔ b.isTable ∨ b.payload.length ≤ 1 := by
  by_cases hb : b.isTable
  · exact iff_of_true (by rw [hb.left]; decide) (.inl hb)
  · rw [Block.left, if_neg hb]
    split
    · next hsize =>
      rw [Block.size] at hsize
      rw [List.length_cons]
      simp only [hb, false_or]
      omega
    · split
      · next hgain =>
        have := hgain.2
        rw [List.length_drop]
        simp only [hb, false_or]
        omega
      · simp only [hb, false_or]

theorem Block.left_eq_nil (b : Block) : b.left = [] ↔ b.isTable ∨ b.payload = [] := by
  by_cases hb : b.isTable
  · exact iff_of_true hb.left (.inl hb)
  · rw [Block.left, if_neg hb]
    simp only [hb, false_or]
    split
    · next hsize =>
      refine iff_of_false (List.cons_ne_nil _ _) fun h => ?_
      rw [Block.size, h] at hsize
      exact absurd hsize (by decide)
    · split
      · next hgain =>
        have hlen := hgain.2
        constructor
        · intro h
          rw [List.drop_eq_nil_iff] at h
          omega
        · intro h
          rw [h] at hlen
          exact absurd hlen (by decide)
      · exact Iff.rfl

theorem turn_eq_none {f : SpotifyOggHeader} {input : Bytes} (h : input.length ≤ 1) :
    turn f input = none := by
  match input, h with
  | [], _ | [_], _ => rfl

theorem sizesRead_head {f : SpotifyOggHeader} {input : Bytes} (h : 1 < input.length) :
    ∃ more, sizesRead f input = input :: more := by
  have hturn : turn f input ≠ none := by
    match input, h with
    | b0 :: b1 :: input, _ =>
      unfold turn
      dsimp only
      split <;> nofun
  rw [sizesRead]
  split
  · next h' => exact (hturn h').elim
  · exact ⟨_, rfl⟩
  · exact ⟨_, rfl⟩

/-- **A size is read at the start of every block, and nowhere else, exactly if the blocks are
read out.** -/
theorem framed_iff_readOut (blocks : List Block) (f : SpotifyOggHeader) :
    sizesRead f (blocks.flatMap Block.encode) = starts blocks ↔ ReadOut blocks := by
  induction blocks generalizing f with
  | nil => exact iff_of_true (sizesRead_of_none rfl) trivial
  | cons b bs ih =>
    have hturn := sizesRead_eq (turn_encode f b (bs.flatMap Block.encode))
    rw [List.flatMap_cons, hturn, starts, List.flatMap_cons]
    simp only [List.cons.injEq, true_and]
    cases bs with
    | nil =>
      rw [List.flatMap_nil, List.append_nil, ReadOut, ← Block.left_length_le]
      constructor
      · intro h
        by_contra hlen
        obtain ⟨more, hmore⟩ := sizesRead_head (f := b.taken f) (Nat.lt_of_not_le hlen)
        rw [hmore] at h
        cases h
      · intro h
        exact sizesRead_of_none (turn_eq_none h)
    | cons c bs =>
      have hlong : 1 < (b.left ++ (c :: bs).flatMap Block.encode).length := by
        rw [List.flatMap_cons, Block.encode]
        simp only [List.length_append, List.length_cons]
        omega
      rw [ReadOut, ← Block.left_eq_nil]
      · constructor
        · intro h
          have hleft : b.left = [] := by
            obtain ⟨more, hmore⟩ := sizesRead_head (f := b.taken f) hlong
            rw [hmore, starts] at h
            exact List.append_left_eq_self.mp (List.cons.inj h).1
          rw [hleft, List.nil_append] at h
          exact ⟨hleft, (ih _).mp h⟩
        · rintro ⟨hleft, h⟩
          rw [hleft, List.nil_append]
          exact (ih _).mpr h
      · nofun

theorem parseLoop_readOut {blocks : List Block} (h : ReadOut blocks) (f : SpotifyOggHeader) :
    parseLoop f (blocks.flatMap Block.encode) = .ok (blocks.foldl Block.taken f) := by
  induction blocks generalizing f with
  | nil => exact parseLoop_of_none rfl
  | cons b bs ih =>
    rw [List.flatMap_cons, parseLoop_eq (turn_encode f b _), List.foldl_cons]
    cases bs with
    | nil =>
      rw [ReadOut, ← Block.left_length_le] at h
      rw [List.flatMap_nil, List.append_nil]
      exact parseLoop_of_none (turn_eq_none h)
    | cons c bs =>
      rw [ReadOut, ← Block.left_eq_nil] at h
      · rw [h.1, List.nil_append]
        exact ih h.2 _
      · nofun

/-! ## What the last table says -/

theorem pairwise_headerTableDec : headerTableDec.Pairwise (· < ·) := by
  rw [← List.isChain_iff_pairwise]
  decide +kernel

theorem dec_inj {a b : UInt8} : dec a = dec b ↔ a = b := by
  refine ⟨fun h => ?_, congrArg dec⟩
  have hnodup : headerTableDec.Nodup := pairwise_headerTableDec.imp fun h => ne_of_lt h
  have hlen : headerTableDec.length = 256 := by decide +kernel
  have ha : a.toNat < headerTableDec.length := hlen ▸ a.toNat_lt
  have hb : b.toNat < headerTableDec.length := hlen ▸ b.toNat_lt
  rw [dec, dec, List.getD_eq_getElem?_getD, List.getD_eq_getElem?_getD,
    List.getElem?_eq_getElem ha, List.getElem?_eq_getElem hb] at h
  exact UInt8.toNat_inj.mp (hnodup.getElem_inj_iff.mp h)

theorem dec_eq_zero {b : UInt8} : dec b = 0 ↔ b = 0 := dec_inj (b := 0)

theorem runningSums_zero (ds : Bytes) :
    runningSums 0 ds = List.replicate ds.length 0 ↔ ∀ d ∈ ds, d = 0 := by
  induction ds with
  | nil => exact iff_of_true rfl nofun
  | cons d ds ih =>
    rw [runningSums, Int.zero_add, List.length_cons, List.replicate_succ, List.cons.injEq,
      dec_eq_zero, List.forall_mem_cons]
    refine and_congr_right fun hd => ?_
    rw [hd]
    exact ih

/-- The last sum in the first place, and nothing else. -/
theorem runningSums_iff {d : UInt8} {ds : Bytes} (hds : ds.length = 99) (ack : Int) :
    (runningSums ack (d :: ds)).getLastD 0 :: List.replicate 99 0 = runningSums ack (d :: ds) ↔
      ack + dec d = 0 ∧ ∀ x ∈ ds, x = 0 := by
  rw [runningSums, ← hds]
  constructor
  · intro h
    obtain ⟨hlast, htail⟩ := List.cons.inj h
    rw [← htail, List.getLastD_cons] at hlast
    have hzero : ack + dec d = 0 := by
      rw [← hlast, hds]
      rfl
    rw [hzero] at htail
    exact ⟨hzero, (runningSums_zero ds).mp htail.symm⟩
  · rintro ⟨hzero, hx⟩
    rw [hzero, (runningSums_zero ds).mpr hx, List.getLastD_cons, hds]
    rfl

/-- The lowest bytes are 0 and so are the sums. -/
def Block.Clean (b : Block) : Prop :=
  b.at' 0 = 0 ∧ b.at' 4 = 0 ∧ b.at' 9 = b.at' 8 ∧ ∀ d ∈ b.payload.drop 10, d = 0

instance : DecidablePred Block.Clean := fun _ => inferInstanceAs (Decidable (_ ∧ _ ∧ _ ∧ _))

theorem toNat_append_mod (x : BitVec 24) (y : BitVec 8) : (x ++ y).toNat % 256 = y.toNat := by
  have hlt := y.isLt
  rw [BitVec.toNat_append, ← Nat.shiftLeft_add_eq_or_of_lt hlt, Nat.shiftLeft_eq]
  omega

theorem Block.intTaken_eq_iff (b : Block) (i : Nat) : b.intTaken i = b.intAt i ↔ b.at' i = 0 := by
  rw [Block.intTaken, Block.intAt, BitVec.toInt_inj]
  constructor
  · intro h
    have hlow := congrArg (fun v => v.toNat % 256) h
    rw [toNat_append_mod, toNat_append_mod] at hlow
    exact UInt8.toNat_inj.mp hlow.symm
  · intro h
    rw [h]
    rfl

theorem Block.isTable.taken_eq_iff {b : Block} (hb : b.isTable) (f : SpotifyOggHeader) :
    b.taken f = b.tells f ↔ b.Clean := by
  obtain ⟨p0, p1, p2, p3, p4, p5, p6, p7, p8, ds, hp, hds⟩ := hb.payload_eq
  match ds, hds with
  | p9 :: ds, hds =>
    have hds : ds.length = 99 := by simpa using hds
    have h8 : b.at' 8 = p8 := by rw [Block.at', hp]; rfl
    have h9 : b.at' 9 = p9 := by rw [Block.at', hp]; rfl
    have hsum : -dec p8 + dec p9 = 0 ↔ p9 = p8 := by
      rw [← dec_inj]
      omega
    have hd9 : b.payload.drop 9 = p9 :: ds := by rw [hp]; rfl
    have hd10 : b.payload.drop 10 = ds := by rw [hp]; rfl
    rw [Block.taken, Block.tells, if_pos hb, if_pos hb, Block.Clean, h8, h9, hd9, hd10]
    simp only [SpotifyOggHeader.mk.injEq, true_and, and_true, Block.intTaken_eq_iff,
      Option.some.injEq, runningSums_iff hds, hsum]

/-- The last table among the blocks. -/
def lastTable : List Block → Option Block
  | [] => none
  | b :: bs => (lastTable bs).or (if b.isTable then some b else none)

theorem isTable_of_lastTable {blocks : List Block} {b : Block} (h : b ∈ lastTable blocks) :
    b.isTable := by
  induction blocks with
  | nil => cases h
  | cons c bs ih =>
    rw [lastTable] at h
    rcases Option.or_eq_some_iff.mp h with h | ⟨-, h⟩
    · exact ih h
    · obtain ⟨hc, h⟩ := Option.ite_none_right_eq_some.mp h
      cases h
      exact hc

/-- Steps that only tables count in, each of which writes over the one before. -/
theorem foldl_lastTable {g : SpotifyOggHeader → Block → SpotifyOggHeader} {blocks : List Block}
    (hskip : ∀ f, ∀ b ∈ blocks, ¬ b.isTable → g f b = f)
    (hover : ∀ f b c, b.isTable → c.isTable → g (g f b) c = g f c) (f : SpotifyOggHeader) :
    blocks.foldl g f = ((lastTable blocks).map (g f)).getD f := by
  induction blocks generalizing f with
  | nil => rfl
  | cons b bs ih =>
    rw [List.foldl_cons, ih fun f c hc => hskip f c (List.mem_cons_of_mem _ hc), lastTable]
    by_cases hb : b.isTable
    · rw [if_pos hb]
      cases hlast : lastTable bs with
      | none => rfl
      | some c => exact hover f b c hb (isTable_of_lastTable hlast)
    · rw [if_neg hb, Option.or_none, hskip f b List.mem_cons_self hb]

theorem ReadOut.not_isGain {blocks : List Block} (h : ReadOut blocks) :
    ∀ b ∈ blocks, ¬ b.isTable → ¬ b.isGain := by
  induction blocks with
  | nil => nofun
  | cons b bs ih =>
    have hb : b.isTable ∨ b.payload.length ≤ 1 := by
      cases bs with
      | nil => exact h
      | cons c bs => exact h.1.imp id fun h => by rw [h]; decide
    have hbs : ReadOut bs := by
      cases bs with
      | nil => trivial
      | cons c bs => exact h.2
    refine List.forall_mem_cons.mpr ⟨fun hnot hgain => ?_, ih hbs⟩
    have := hb.resolve_left hnot
    have := hgain.2
    omega

theorem Block.taken_of_not {b : Block} (hb : ¬ b.isTable) (hgain : ¬ b.isGain)
    (f : SpotifyOggHeader) : b.taken f = f := by
  rw [Block.taken, if_neg hb, if_neg fun h => hgain h.1]

theorem Block.tells_of_not {b : Block} (hb : ¬ b.isTable) (hgain : ¬ b.isGain)
    (f : SpotifyOggHeader) : b.tells f = f := by
  rw [Block.tells, if_neg hb, if_neg hgain]

theorem Block.isTable.taken_eq {b : Block} (hb : b.isTable) (f : SpotifyOggHeader) :
    b.taken f = { b.taken {} with gain := f.gain } := by
  rw [Block.taken, Block.taken, if_pos hb, if_pos hb]

theorem Block.isTable.tells_eq {b : Block} (hb : b.isTable) (f : SpotifyOggHeader) :
    b.tells f = { b.tells {} with gain := f.gain } := by
  rw [Block.tells, Block.tells, if_pos hb, if_pos hb]

theorem Block.isTable.taken_taken {b c : Block} (hb : b.isTable) (hc : c.isTable)
    (f : SpotifyOggHeader) : c.taken (b.taken f) = c.taken f := by
  have hgain : (b.taken f).gain = f.gain := by rw [hb.taken_eq]
  rw [hc.taken_eq (b.taken f), hc.taken_eq f, hgain]

theorem Block.isTable.tells_tells {b c : Block} (hb : b.isTable) (hc : c.isTable)
    (f : SpotifyOggHeader) : c.tells (b.tells f) = c.tells f := by
  have hgain : (b.tells f).gain = f.gain := by rw [hb.tells_eq]
  rw [hc.tells_eq (b.tells f), hc.tells_eq f, hgain]

theorem foldl_taken {blocks : List Block} (h : ReadOut blocks) (f : SpotifyOggHeader) :
    blocks.foldl Block.taken f = ((lastTable blocks).map (Block.taken f)).getD f :=
  foldl_lastTable (fun f b hb hnot => Block.taken_of_not hnot (h.not_isGain b hb hnot) f)
    (fun f _ _ hb hc => hb.taken_taken hc f) f

theorem foldl_tells {blocks : List Block} (h : ReadOut blocks) (f : SpotifyOggHeader) :
    blocks.foldl Block.tells f = ((lastTable blocks).map (Block.tells f)).getD f :=
  foldl_lastTable (fun f b hb hnot => Block.tells_of_not hnot (h.not_isGain b hb hnot) f)
    (fun f _ _ hb hc => hb.tells_tells hc f) f

/-- The fields are those of the last table. -/
theorem fields_eq_iff {blocks : List Block} (h : ReadOut blocks) (f : SpotifyOggHeader) :
    blocks.foldl Block.taken f = blocks.foldl Block.tells f ↔ ∀ b ∈ lastTable blocks, b.Clean := by
  rw [foldl_taken h, foldl_tells h]
  cases hlast : lastTable blocks with
  | none =>
    rw [Option.map_none, Option.map_none]
    exact iff_of_true rfl nofun
  | some b =>
    have hclean := (isTable_of_lastTable hlast).taken_eq_iff f
    simpa using hclean

/-- The header that the blocks are read from. -/
theorem ofBytes_readOut {pageHeader : Bytes} (hlen : pageHeader.length = 0x1C)
    {blocks : List Block} (h : ReadOut blocks) :
    ofBytes (pageHeader ++ 0x81 :: blocks.flatMap Block.encode) =
      .ok (blocks.foldl Block.taken {}) := by
  have hparse : parse (pageHeader ++ 0x81 :: blocks.flatMap Block.encode) =
      .ok (blocks.foldl Block.taken {}) := by
    rw [parse, ← hlen, List.drop_left]
    exact parseLoop_readOut h {}
  rw [ofBytes, hparse]

/-- **The header is decoded exactly if every block is read to its end, and the last table has
lowest bytes 0 and running sums 0.** -/
theorem decodes_iff {pageHeader : Bytes} (hlen : pageHeader.length = 0x1C) (blocks : List Block) :
    Decodes pageHeader blocks ↔ ReadOut blocks ∧ ∀ b ∈ lastTable blocks, b.Clean := by
  constructor
  · rintro ⟨hframed, hsaid⟩
    have hread := (framed_iff_readOut blocks {}).mp hframed
    rw [ofBytes_readOut hlen hread] at hsaid
    exact ⟨hread, (fields_eq_iff hread {}).mp (Except.ok.inj hsaid)⟩
  · rintro ⟨hread, hclean⟩
    refine ⟨(framed_iff_readOut blocks {}).mpr hread, ?_⟩
    rw [ofBytes_readOut hlen hread, (fields_eq_iff hread {}).mpr hclean]

/-- A table of the payload `payload`. -/
def tableBlock (payload : Bytes) (h : payload.length = 0x6d) : Block :=
  ⟨0, payload, by rw [h]; decide⟩

theorem decodes_iff_blank :
    Decodes (List.replicate 28 0) [tableBlock (List.replicate 109 0) rfl] :=
  (decodes_iff (by decide) _).mpr ⟨by decide, by
    intro b hb
    have := Option.some.inj (hb : some (tableBlock (List.replicate 109 0) rfl) = some b)
    subst this
    decide +kernel⟩

/-- One sample is lost. -/
theorem not_decodes : ¬ ∀ (pageHeader : Bytes) (blocks : List Block),
    pageHeader.length = 0x1C → Decodes pageHeader blocks := by
  intro h
  have hread : ReadOut [tableBlock (1 :: List.replicate 108 0) rfl] := by decide
  have hsaid := (h (List.replicate 28 0) [tableBlock (1 :: List.replicate 108 0) rfl] rfl).said
  rw [ofBytes_readOut rfl hread] at hsaid
  have hclean := (fields_eq_iff hread {}).mp (Except.ok.inj hsaid) _ rfl
  exact absurd hclean.1 (by decide)

end SpotifyOggHeader

end Despotify.Java

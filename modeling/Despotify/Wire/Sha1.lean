import Despotify.Pool.Sha1

/-!
# The SHA-1 of `lib/sha1.c`

`SHA1Transform` keeps sixteen words, each of which is overwritten by the one sixteen further
on, and lets the variables change places instead of moving their values.

* `sha1Transform_eq`: a block is hashed as FIPS 180 has it.
-/

namespace Despotify.Sha1

open Word32 (word getLsbD_word)
open Fips180 (Words blockWord schedule round compress)

/-! ## `SHA1Transform` -/

def rol (value bits : UInt32) : UInt32 := (value <<< bits) ||| (value >>> (32 - bits))

/-- The words of a `CHAR64LONG16`. -/
abbrev Block := Vector UInt32 16

/-- `block->l[i & 15]`. -/
def Block.l (block : Block) (i : Nat) : UInt32 := block.get (Fin.ofNat 16 i)

/-- What `blk0 (i)` stores there, on a machine with the lowest byte first. -/
def blk0 (block : Block) (i : Nat) : UInt32 :=
  (rol (block.l i) 24 &&& 0xFF00FF00) ||| (rol (block.l i) 8 &&& 0x00FF00FF)

/-- What `blk (i)` stores there. -/
def blk (block : Block) (i : Nat) : UInt32 :=
  rol (block.l (i + 13) ^^^ block.l (i + 8) ^^^ block.l (i + 2) ^^^ block.l i) 1

/-- The five macros of the rounds. -/
inductive Macro
  | R0
  | R1
  | R2
  | R3
  | R4
deriving DecidableEq, Repr

def Macro.word : Macro → Block → Nat → UInt32
  | .R0 => blk0
  | .R1 | .R2 | .R3 | .R4 => blk

def Macro.mix : Macro → UInt32 → UInt32 → UInt32 → UInt32
  | .R0 | .R1 => fun w x y => (w &&& (x ^^^ y)) ^^^ y
  | .R2 | .R4 => fun w x y => w ^^^ x ^^^ y
  | .R3 => fun w x y => ((w ||| x) &&& y) ||| (w &&& x)

def Macro.const : Macro → UInt32
  | .R0 | .R1 => 0x5A827999
  | .R2 => 0x6ED9EBA1
  | .R3 => 0x8F1BBCDC
  | .R4 => 0xCA62C1D6

/-- A macro applied to five of the variables. -/
structure Call where
  name : Macro
  v : Fin 5
  w : Fin 5
  x : Fin 5
  y : Fin 5
  z : Fin 5
  i : Nat
deriving DecidableEq, Repr

/-- The five variables and the block. -/
structure Work where
  vars : Vector UInt32 5
  block : Block

def Work.run (s : Work) (call : Call) : Work :=
  let word := call.name.word s.block call.i
  let sum := s.vars.get call.z + (call.name.mix (s.vars.get call.w) (s.vars.get call.x)
    (s.vars.get call.y) + word + call.name.const + rol (s.vars.get call.v) 5)
  let vars := s.vars.set call.z sum
  ⟨vars.set call.w (rol (vars.get call.w) 30), s.block.set (Fin.ofNat 16 call.i) word⟩

abbrev a : Fin 5 := 0
abbrev b : Fin 5 := 1
abbrev c : Fin 5 := 2
abbrev d : Fin 5 := 3
abbrev e : Fin 5 := 4

/-- Four rounds of twenty operations each. -/
def calls : List Call := [
  ⟨.R0, a, b, c, d, e, 0⟩, ⟨.R0, e, a, b, c, d, 1⟩, ⟨.R0, d, e, a, b, c, 2⟩,
  ⟨.R0, c, d, e, a, b, 3⟩, ⟨.R0, b, c, d, e, a, 4⟩, ⟨.R0, a, b, c, d, e, 5⟩,
  ⟨.R0, e, a, b, c, d, 6⟩, ⟨.R0, d, e, a, b, c, 7⟩, ⟨.R0, c, d, e, a, b, 8⟩,
  ⟨.R0, b, c, d, e, a, 9⟩, ⟨.R0, a, b, c, d, e, 10⟩, ⟨.R0, e, a, b, c, d, 11⟩,
  ⟨.R0, d, e, a, b, c, 12⟩, ⟨.R0, c, d, e, a, b, 13⟩, ⟨.R0, b, c, d, e, a, 14⟩,
  ⟨.R0, a, b, c, d, e, 15⟩, ⟨.R1, e, a, b, c, d, 16⟩, ⟨.R1, d, e, a, b, c, 17⟩,
  ⟨.R1, c, d, e, a, b, 18⟩, ⟨.R1, b, c, d, e, a, 19⟩, ⟨.R2, a, b, c, d, e, 20⟩,
  ⟨.R2, e, a, b, c, d, 21⟩, ⟨.R2, d, e, a, b, c, 22⟩, ⟨.R2, c, d, e, a, b, 23⟩,
  ⟨.R2, b, c, d, e, a, 24⟩, ⟨.R2, a, b, c, d, e, 25⟩, ⟨.R2, e, a, b, c, d, 26⟩,
  ⟨.R2, d, e, a, b, c, 27⟩, ⟨.R2, c, d, e, a, b, 28⟩, ⟨.R2, b, c, d, e, a, 29⟩,
  ⟨.R2, a, b, c, d, e, 30⟩, ⟨.R2, e, a, b, c, d, 31⟩, ⟨.R2, d, e, a, b, c, 32⟩,
  ⟨.R2, c, d, e, a, b, 33⟩, ⟨.R2, b, c, d, e, a, 34⟩, ⟨.R2, a, b, c, d, e, 35⟩,
  ⟨.R2, e, a, b, c, d, 36⟩, ⟨.R2, d, e, a, b, c, 37⟩, ⟨.R2, c, d, e, a, b, 38⟩,
  ⟨.R2, b, c, d, e, a, 39⟩, ⟨.R3, a, b, c, d, e, 40⟩, ⟨.R3, e, a, b, c, d, 41⟩,
  ⟨.R3, d, e, a, b, c, 42⟩, ⟨.R3, c, d, e, a, b, 43⟩, ⟨.R3, b, c, d, e, a, 44⟩,
  ⟨.R3, a, b, c, d, e, 45⟩, ⟨.R3, e, a, b, c, d, 46⟩, ⟨.R3, d, e, a, b, c, 47⟩,
  ⟨.R3, c, d, e, a, b, 48⟩, ⟨.R3, b, c, d, e, a, 49⟩, ⟨.R3, a, b, c, d, e, 50⟩,
  ⟨.R3, e, a, b, c, d, 51⟩, ⟨.R3, d, e, a, b, c, 52⟩, ⟨.R3, c, d, e, a, b, 53⟩,
  ⟨.R3, b, c, d, e, a, 54⟩, ⟨.R3, a, b, c, d, e, 55⟩, ⟨.R3, e, a, b, c, d, 56⟩,
  ⟨.R3, d, e, a, b, c, 57⟩, ⟨.R3, c, d, e, a, b, 58⟩, ⟨.R3, b, c, d, e, a, 59⟩,
  ⟨.R4, a, b, c, d, e, 60⟩, ⟨.R4, e, a, b, c, d, 61⟩, ⟨.R4, d, e, a, b, c, 62⟩,
  ⟨.R4, c, d, e, a, b, 63⟩, ⟨.R4, b, c, d, e, a, 64⟩, ⟨.R4, a, b, c, d, e, 65⟩,
  ⟨.R4, e, a, b, c, d, 66⟩, ⟨.R4, d, e, a, b, c, 67⟩, ⟨.R4, c, d, e, a, b, 68⟩,
  ⟨.R4, b, c, d, e, a, 69⟩, ⟨.R4, a, b, c, d, e, 70⟩, ⟨.R4, e, a, b, c, d, 71⟩,
  ⟨.R4, d, e, a, b, c, 72⟩, ⟨.R4, c, d, e, a, b, 73⟩, ⟨.R4, b, c, d, e, a, 74⟩,
  ⟨.R4, a, b, c, d, e, 75⟩, ⟨.R4, e, a, b, c, d, 76⟩, ⟨.R4, d, e, a, b, c, 77⟩,
  ⟨.R4, c, d, e, a, b, 78⟩, ⟨.R4, b, c, d, e, a, 79⟩]

/-- The word at `4 * i` of memory, the lowest byte first. -/
def load (buffer : List UInt8) (i : Nat) : UInt32 :=
  (buffer.getD (4 * i) 0).toUInt32 ||| ((buffer.getD (4 * i + 1) 0).toUInt32 <<< 8) |||
    ((buffer.getD (4 * i + 2) 0).toUInt32 <<< 16) ||| ((buffer.getD (4 * i + 3) 0).toUInt32 <<< 24)

def sha1Transform (state : Vector UInt32 5) (buffer : List UInt8) : Vector UInt32 5 :=
  let block : Block := Vector.ofFn fun i => load buffer i
  Vector.zipWith (· + ·) state (calls.foldl Work.run ⟨state, block⟩).vars

/-! ### What the macros store -/

theorem getLsbD_rol {n : Nat} (x : UInt32) (hn : 0 < n ∧ n < 32) {j : Nat} (hj : j < 32) :
    (rol x (UInt32.ofNat n)).toBitVec.getLsbD j = x.toBitVec.getLsbD ((j + (32 - n)) % 32) := by
  have hleft : (x <<< UInt32.ofNat n).toBitVec.getLsbD j =
      (decide (n ≤ j) && x.toBitVec.getLsbD (j - n)) := by
    have hamount : ((UInt32.ofNat n).toBitVec % 32).toNat = n := by
      rw [BitVec.toNat_umod]
      show n % 2 ^ 32 % 32 = n
      omega
    rw [UInt32.toBitVec_shiftLeft, BitVec.shiftLeft_eq', hamount, BitVec.getLsbD_shiftLeft,
      decide_eq_true hj, Bool.true_and, ← decide_not]
    simp only [Nat.not_lt]
  have hright : (x >>> (32 - UInt32.ofNat n)).toBitVec.getLsbD j =
      x.toBitVec.getLsbD (32 - n + j) := by
    have hamount : ((32 - UInt32.ofNat n).toBitVec % 32).toNat = 32 - n := by
      rw [BitVec.toNat_umod, UInt32.toNat_toBitVec, UInt32.toNat_sub]
      show (2 ^ 32 - n % 2 ^ 32 + 32) % 2 ^ 32 % 32 = 32 - n
      omega
    rw [UInt32.toBitVec_shiftRight, BitVec.ushiftRight_eq', hamount, BitVec.getLsbD_ushiftRight]
  rw [rol, UInt32.toBitVec_or, BitVec.getLsbD_or, hleft, hright]
  rcases Nat.lt_or_ge j n with h | h
  · have hmod : (j + (32 - n)) % 32 = 32 - n + j := by omega
    rw [hmod, decide_eq_false (by omega), Bool.false_and, Bool.false_or]
  · have hmod : (j + (32 - n)) % 32 = j - n := by omega
    rw [hmod, decide_eq_true h, Bool.true_and, BitVec.getLsbD_of_ge _ (32 - n + j) (by omega),
      Bool.or_false]

/-- The rotations and masks turn the four bytes around. -/
theorem swap_word (b0 b1 b2 b3 : UInt8) :
    (rol (word b3 b2 b1 b0) 24 &&& 0xFF00FF00) ||| (rol (word b3 b2 b1 b0) 8 &&& 0x00FF00FF) =
      word b0 b1 b2 b3 := by
  have hhigh : ∀ i : Fin 32,
      (0xFF00FF00 : UInt32).toBitVec.getLsbD i.1 = decide (i.1 / 8 % 2 = 1) := by decide
  have hlow : ∀ i : Fin 32,
      (0x00FF00FF : UInt32).toBitVec.getLsbD i.1 = decide (i.1 / 8 % 2 = 0) := by decide
  rw [← UInt32.toBitVec_inj]
  refine BitVec.eq_of_getLsbD_eq fun i hi => ?_
  have hhigh := hhigh ⟨i, hi⟩
  have hlow := hlow ⟨i, hi⟩
  have h24 : ∀ x, (rol x 24).toBitVec.getLsbD i = x.toBitVec.getLsbD ((i + 8) % 32) :=
    fun x => getLsbD_rol x (by omega : 0 < 24 ∧ 24 < 32) hi
  have h8 : ∀ x, (rol x 8).toBitVec.getLsbD i = x.toBitVec.getLsbD ((i + 24) % 32) :=
    fun x => getLsbD_rol x (by omega : 0 < 8 ∧ 8 < 32) hi
  generalize (0xFF00FF00 : UInt32) = high at hhigh ⊢
  generalize (0x00FF00FF : UInt32) = low at hlow ⊢
  dsimp only at hhigh hlow
  rw [UInt32.toBitVec_or, UInt32.toBitVec_and, UInt32.toBitVec_and, BitVec.getLsbD_or,
    BitVec.getLsbD_and, BitVec.getLsbD_and, h24, h8, hhigh, hlow,
    getLsbD_word _ _ _ _ (by omega), getLsbD_word _ _ _ _ (by omega), getLsbD_word _ _ _ _ hi,
    show (i + 8) % 32 % 8 = i % 8 by omega, show (i + 24) % 32 % 8 = i % 8 by omega]
  grind

theorem load_eq (buffer : List UInt8) (i : Nat) :
    load buffer i = word (buffer.getD (4 * i + 3) 0) (buffer.getD (4 * i + 2) 0)
      (buffer.getD (4 * i + 1) 0) (buffer.getD (4 * i) 0) := by
  have hor : ∀ x y z w : UInt32, x ||| y ||| z ||| w = w ||| z ||| y ||| x := by
    intro x y z w
    ac_rfl
  exact hor _ _ _ _

theorem mix_ch (w x y : UInt32) : (w &&& (x ^^^ y)) ^^^ y = Fips180.ch w x y := by
  rw [Fips180.ch, ← UInt32.toBitVec_inj]
  ext i hi
  simp only [UInt32.toBitVec_xor, UInt32.toBitVec_and, UInt32.toBitVec_not, BitVec.getElem_xor,
    BitVec.getElem_and, BitVec.getElem_not]
  cases w.toBitVec[i] <;> cases x.toBitVec[i] <;> cases y.toBitVec[i] <;> rfl

theorem mix_maj (w x y : UInt32) : ((w ||| x) &&& y) ||| (w &&& x) = Fips180.maj w x y := by
  rw [Fips180.maj, ← UInt32.toBitVec_inj]
  ext i hi
  simp only [UInt32.toBitVec_xor, UInt32.toBitVec_and, UInt32.toBitVec_or, BitVec.getElem_xor,
    BitVec.getElem_and, BitVec.getElem_or]
  cases w.toBitVec[i] <;> cases x.toBitVec[i] <;> cases y.toBitVec[i] <;> rfl

/-! ### The rounds -/

/-- The macro of round `t`. -/
def macroAt (t : Nat) : Macro :=
  if t < 16 then .R0 else if t < 20 then .R1 else if t < 40 then .R2
  else if t < 60 then .R3 else .R4

/-- The variable that holds what FIPS 180 has in its `k`th word after `t` rounds. -/
def var (t : Nat) (k : Fin 5) : Fin 5 := k - Fin.ofNat 5 t

theorem calls_eq : calls = (List.range 80).map fun t =>
    ⟨macroAt t, var t 0, var t 1, var t 2, var t 3, var t 4, t⟩ := by
  decide

theorem macroAt_mix (t : Nat) (w x y : UInt32) : (macroAt t).mix w x y = Fips180.func t w x y := by
  unfold macroAt Fips180.func
  split_ifs <;> first | omega | exact mix_ch w x y | exact mix_maj w x y | rfl

theorem macroAt_const (t : Nat) : (macroAt t).const = Fips180.const t := by
  unfold macroAt Fips180.const
  split_ifs <;> first | omega | rfl

theorem var_succ (t : Nat) :
    var (t + 1) 0 = var t 4 ∧ var (t + 1) 1 = var t 0 ∧ var (t + 1) 2 = var t 1 ∧
      var (t + 1) 3 = var t 2 ∧ var (t + 1) 4 = var t 3 := by
  have hsucc : Fin.ofNat 5 (t + 1) = Fin.ofNat 5 t + 1 := by
    ext
    simp only [Fin.ofNat, Fin.val_add]
    omega
  unfold var
  rw [hsucc]
  generalize Fin.ofNat 5 t = p
  revert p
  decide

theorem var_ne (t : Nat) {i j : Fin 5} (h : i ≠ j) : var t i ≠ var t j := by
  unfold var
  generalize Fin.ofNat 5 t = p
  revert p i j
  decide

theorem get_set {α : Type} {n : Nat} (v : Vector α n) (i j : Fin n) (x : α) :
    (v.set i.1 x i.2).get j = if i = j then x else v.get j := by
  refine (Vector.getElem_set i.2 j.2).trans ?_
  simp only [Fin.ext_iff]
  rfl

theorem l_congr (block : Block) {i j : Nat} (h : i % 16 = j % 16) : block.l i = block.l j := by
  have hofNat : Fin.ofNat 16 i = Fin.ofNat 16 j := Fin.ext h
  rw [Block.l, hofNat, Block.l]

theorem l_set (block : Block) (i j : Nat) (x : UInt32) :
    Block.l (block.set (Fin.ofNat 16 i) x) j = if i % 16 = j % 16 then x else block.l j := by
  rw [Block.l, get_set]
  simp only [Fin.ext_iff, Fin.ofNat]
  rfl

/-- The words of FIPS 180 after `t` rounds. -/
def rounds (buffer : List UInt8) (v : Words) (t : Nat) : Words :=
  (List.range t).foldl (round (schedule buffer)) v

theorem rounds_succ (buffer : List UInt8) (v : Words) (t : Nat) :
    rounds buffer v (t + 1) = round (schedule buffer) (rounds buffer v t) t := by
  rw [rounds, List.range_succ, List.foldl_append, rounds]
  rfl

/-- The variables and the block before round `t`. -/
structure At (buffer : List UInt8) (v : Words) (t : Nat) (s : Work) : Prop where
  a : s.vars.get (var t 0) = (rounds buffer v t).a
  b : s.vars.get (var t 1) = (rounds buffer v t).b
  c : s.vars.get (var t 2) = (rounds buffer v t).c
  d : s.vars.get (var t 3) = (rounds buffer v t).d
  e : s.vars.get (var t 4) = (rounds buffer v t).e
  fresh : ∀ k, t ≤ k → k < 16 → s.block.l k = load buffer k
  done : ∀ k, k < t → t ≤ k + 16 → s.block.l k = (schedule buffer).getD k 0

section
variable {buffer : List UInt8} {v : Words} {s : Work} {t : Nat}

/-- The word of round `t`, expanded as the rounds go. -/
theorem At.word (h : At buffer v t s) (ht : t < 80) :
    (macroAt t).word s.block t = (schedule buffer).getD t 0 := by
  rcases Nat.lt_or_ge t 16 with hfirst | hlater
  · have hround : macroAt t = .R0 := if_pos hfirst
    rw [hround, Fips180.getD_schedule_of_lt hfirst]
    show blk0 s.block t = blockWord buffer t
    rw [blk0, h.fresh t (Nat.le_refl t) hfirst, load_eq, swap_word]
    rfl
  · obtain ⟨u, rfl⟩ := Nat.exists_eq_add_of_le hlater
    have hround : (macroAt (16 + u)).word = blk := by
      unfold macroAt
      split_ifs <;> first | omega | rfl
    rw [hround, blk, Fips180.getD_schedule_succ (by omega),
      l_congr s.block (show (16 + u + 13) % 16 = (13 + u) % 16 by omega),
      l_congr s.block (show (16 + u + 8) % 16 = (8 + u) % 16 by omega),
      l_congr s.block (show (16 + u + 2) % 16 = (2 + u) % 16 by omega),
      l_congr s.block (show (16 + u) % 16 = u % 16 by omega), h.done (13 + u) (by omega) (by omega),
      h.done (8 + u) (by omega) (by omega), h.done (2 + u) (by omega) (by omega),
      h.done u (by omega) (by omega)]
    rfl

/-- One round: two of the variables are written, and all of them change places. -/
theorem At.run (h : At buffer v t s) (ht : t < 80) :
    At buffer v (t + 1)
      (s.run ⟨macroAt t, var t 0, var t 1, var t 2, var t 3, var t 4, t⟩) := by
  obtain ⟨h0, h1, h2, h3, h4⟩ := var_succ t
  have hword := h.word ht
  have ne : ∀ {i j : Fin 5}, i ≠ j → var t i ≠ var t j := var_ne t
  rw [Work.run]
  dsimp only
  refine ⟨?_, ?_, ?_, ?_, ?_, ?_, ?_⟩
  · rw [h0, get_set, if_neg (ne (by decide)), get_set, if_pos rfl, rounds_succ, hword, h.a, h.b,
      h.c, h.d, h.e, macroAt_mix, macroAt_const]
    have hsum : ∀ f w c r e : UInt32, e + (f + w + c + r) = r + f + e + c + w := by
      intro f w c r e
      ac_rfl
    exact hsum _ _ _ _ _
  · rw [h1, get_set, if_neg (ne (by decide)), get_set, if_neg (ne (by decide)), h.a, rounds_succ]
    rfl
  · rw [h2, get_set, if_pos rfl, get_set, if_neg (ne (by decide)), h.b, rounds_succ]
    rfl
  · rw [h3, get_set, if_neg (ne (by decide)), get_set, if_neg (ne (by decide)), h.c, rounds_succ]
    rfl
  · rw [h4, get_set, if_neg (ne (by decide)), get_set, if_neg (ne (by decide)), h.d, rounds_succ]
    rfl
  · intro k hk hk'
    rw [l_set, if_neg (by omega)]
    exact h.fresh k (by omega) hk'
  · intro k hk hk'
    rw [l_set]
    split
    · obtain rfl : t = k := by omega
      exact hword
    · exact h.done k (by omega) (by omega)

/-- All rounds, by induction on their number. -/
theorem At.runs (h : At buffer v 0 s) {n : Nat} (hn : n ≤ 80) :
    At buffer v n (((List.range n).map fun t =>
      (⟨macroAt t, var t 0, var t 1, var t 2, var t 3, var t 4, t⟩ : Call)).foldl Work.run s) := by
  induction n with
  | zero => exact h
  | succ n ih =>
    rw [List.range_succ, List.map_append, List.foldl_append]
    exact (ih (by omega)).run (by omega)

end

/-- The state as FIPS 180 has it. -/
def words (state : Vector UInt32 5) : Words :=
  ⟨state.get a, state.get b, state.get c, state.get d, state.get e⟩

/-- **A block is hashed as FIPS 180 has it.** -/
theorem sha1Transform_eq (state : Vector UInt32 5) (buffer : List UInt8) :
    words (sha1Transform state buffer) = compress (words state) buffer := by
  have hstart : At buffer (words state) 0 ⟨state, Vector.ofFn fun i => load buffer i⟩ :=
    { a := rfl
      b := rfl
      c := rfl
      d := rfl
      e := rfl
      fresh := by
        intro k hk hk'
        rw [Block.l]
        show (Vector.ofFn fun i : Fin 16 => load buffer i)[k % 16] = _
        rw [Vector.getElem_ofFn]
        exact congrArg (load buffer) (Nat.mod_eq_of_lt hk')
      done := by
        intro k hk
        omega }
  have hend := hstart.runs (Nat.le_refl 80)
  rw [← calls_eq] at hend
  have hadd : ∀ (u v : Vector UInt32 5) (i : Fin 5),
      (Vector.zipWith (· + ·) u v).get i = u.get i + v.get i := by
    intro u v i
    exact Vector.getElem_zipWith i.2
  rw [sha1Transform, words, hadd, hadd, hadd, hadd, hadd]
  show Words.mk _ _ _ _ _ = Words.mk _ _ _ _ _
  have hvar : ∀ k, var 80 k = k := by decide
  obtain ⟨ha, hb, hc, hd, he, -, -⟩ := hend
  rw [hvar] at ha hb hc hd he
  exact congr (congr (congr (congr (congrArg Words.mk (congrArg (_ + ·) ha))
    (congrArg (_ + ·) hb)) (congrArg (_ + ·) hc)) (congrArg (_ + ·) hd)) (congrArg (_ + ·) he)

end Despotify.Sha1

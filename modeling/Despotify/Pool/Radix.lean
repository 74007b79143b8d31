import Mathlib.Data.List.Induction
import Mathlib.Data.Nat.Digits.Defs
import Mathlib.Logic.Function.Basic

/-!
# Numbers in another base

The digits of a number, the first one the highest, in an array; repeated division turns
them into the digits in another base, the last one first.

* `value`, `fixed`: the number that digits denote, and the `k` lowest digits of a number.
* `value_fixed`, `fixed_value`: one undoes the other.
* `pass`, `pass_spec`: a long division in place.
-/

namespace Radix

/-! ## Digits -/

/-- The number that the digits denote in base `b`. -/
def value (b : Nat) (ds : List Nat) : Nat := Nat.ofDigits b ds.reverse

@[simp] theorem value_nil (b : Nat) : value b [] = 0 := rfl

theorem value_concat (b : Nat) (ds : List Nat) (d : Nat) :
    value b (ds ++ [d]) = value b ds * b + d := by
  rw [value, value, List.reverse_append, List.reverse_singleton, List.singleton_append,
    Nat.ofDigits_cons, Nat.mul_comm, Nat.add_comm]

/-- The `k` lowest digits. -/
def fixed (b : Nat) : Nat → Nat → List Nat
  | 0, _ => []
  | k + 1, n => fixed b k (n / b) ++ [n % b]

@[simp] theorem length_fixed (b k n : Nat) : (fixed b k n).length = k := by
  induction k generalizing n with
  | zero => rfl
  | succ k ih => rw [fixed, List.length_append, ih, List.length_singleton]

theorem fixed_lt {b : Nat} (hb : 0 < b) (k n : Nat) : ∀ d ∈ fixed b k n, d < b := by
  induction k generalizing n with
  | zero => exact nofun
  | succ k ih =>
    intro d hd
    rcases List.mem_append.mp hd with hd | hd
    · exact ih _ d hd
    · rw [List.mem_singleton.mp hd]
      exact Nat.mod_lt _ hb

theorem fixed_zero (b k : Nat) : fixed b k 0 = List.replicate k 0 := by
  induction k with
  | zero => rfl
  | succ k ih => rw [fixed, Nat.zero_div, Nat.zero_mod, ih, List.replicate_succ']

theorem value_fixed {b k n : Nat} (hn : n < b ^ k) : value b (fixed b k n) = n := by
  induction k generalizing n with
  | zero =>
    rw [Nat.pow_zero] at hn
    rw [fixed, value_nil]
    omega
  | succ k ih =>
    have hq : n / b < b ^ k := Nat.div_lt_of_lt_mul (by rwa [Nat.mul_comm, ← Nat.pow_succ])
    rw [fixed, value_concat, ih hq]
    exact Nat.div_add_mod' n b

theorem fixed_value {b : Nat} {ds : List Nat} (hds : ∀ d ∈ ds, d < b) :
    fixed b ds.length (value b ds) = ds := by
  induction ds using List.reverseRecOn with
  | nil => rfl
  | append_singleton ds d ih =>
    have hd : d < b := hds d (by simp)
    have hrest : ∀ e ∈ ds, e < b := fun e he => hds e (List.mem_append_left _ he)
    have hsum : d + b * value b ds = value b ds * b + d := by rw [Nat.mul_comm, Nat.add_comm]
    obtain ⟨hq, hr⟩ := (Nat.div_mod_unique (Nat.zero_lt_of_lt hd)).mpr ⟨hsum, hd⟩
    rw [List.length_append, List.length_singleton, value_concat, fixed, hq, hr, ih hrest]

theorem value_lt {b : Nat} {ds : List Nat} (hds : ∀ d ∈ ds, d < b) :
    value b ds < b ^ ds.length := by
  induction ds using List.reverseRecOn with
  | nil => exact Nat.one_pos
  | append_singleton ds d ih =>
    have hd : d < b := hds d (by simp)
    have hlt : value b ds + 1 ≤ b ^ ds.length :=
      ih fun e he => hds e (List.mem_append_left _ he)
    have hmul := Nat.mul_le_mul_right b hlt
    rw [Nat.succ_mul] at hmul
    rw [List.length_append, List.length_singleton, value_concat, Nat.pow_succ]
    omega

/-! ## Long division -/

/-- The first `k` entries. -/
def upTo (number : Nat → Nat) (k : Nat) : List Nat := (List.range k).map number

theorem upTo_succ (number : Nat → Nat) (k : Nat) :
    upTo number (k + 1) = upTo number k ++ [number k] := by
  rw [upTo, List.range_succ, List.map_append]
  rfl

theorem upTo_update {number : Nat → Nat} {k j : Nat} (hj : k ≤ j) (d : Nat) :
    upTo (Function.update number j d) k = upTo number k := by
  refine List.map_congr_left fun i hi => ?_
  have hlt := List.mem_range.mp hi
  rw [Function.update_of_ne (by omega)]

theorem upTo_getD (ds : List Nat) : upTo (fun i => ds.getD i 0) ds.length = ds := by
  refine List.ext_getElem (by simp [upTo]) fun i _ hi => ?_
  simp [upTo, hi]

/-- The array, the remainder so far and the digits of the quotient so far. -/
structure Pass where
  number : Nat → Nat
  divide : Nat
  newlen : Nat

/-- The digit `i` is brought down. -/
def passStep (b c : Nat) (p : Pass) (i : Nat) : Pass :=
  let divide := p.divide * b + p.number i
  if c ≤ divide then
    ⟨Function.update p.number p.newlen (divide / c), divide % c, p.newlen + 1⟩
  else if 0 < p.newlen then ⟨Function.update p.number p.newlen 0, divide, p.newlen + 1⟩
  else { p with divide := divide }

/-- The number in the first `len` entries is divided by `c`. -/
def pass (b c : Nat) (number : Nat → Nat) (len : Nat) : Pass :=
  (List.range len).foldl (passStep b c) ⟨number, 0, 0⟩

/-- After `i` digits. -/
structure Divided (b c : Nat) (number : Nat → Nat) (i : Nat) (p : Pass) : Prop where
  quot : value b (upTo p.number p.newlen) * c + p.divide = value b (upTo number i)
  rem : p.divide < c
  le : p.newlen ≤ i
  /-- what has been read is overwritten, nothing else -/
  same : ∀ j, i ≤ j → p.number j = number j
  lead : 0 < p.newlen → 0 < value b (upTo p.number p.newlen)

variable {b c : Nat} {number : Nat → Nat}

theorem Divided.step {i : Nat} {p : Pass} (hb : 0 < b) (h : Divided b c number i p) :
    Divided b c number (i + 1) (passStep b c p i) := by
  have hle := h.le
  have hrem := h.rem
  have hc : 0 < c := Nat.zero_lt_of_lt hrem
  -- one more digit of the dividend
  have hnext : (value b (upTo p.number p.newlen) * b) * c + (p.divide * b + p.number i) =
      value b (upTo number (i + 1)) := by
    rw [upTo_succ, value_concat, ← h.quot, h.same i (Nat.le_refl i), Nat.add_mul,
      Nat.mul_right_comm, Nat.add_assoc]
  have hsame : ∀ d j, i + 1 ≤ j → Function.update p.number p.newlen d j = number j := by
    intro d j hj
    rw [Function.update_of_ne (by omega)]
    exact h.same j (by omega)
  have hquot : ∀ d, value b (upTo (Function.update p.number p.newlen d) (p.newlen + 1)) =
      value b (upTo p.number p.newlen) * b + d := by
    intro d
    rw [upTo_succ, value_concat, upTo_update (Nat.le_refl _), Function.update_self]
  unfold passStep
  by_cases hge : c ≤ p.divide * b + p.number i
  · rw [if_pos hge]
    have hdiv := Nat.div_add_mod' (p.divide * b + p.number i) c
    have hpos : 0 < (p.divide * b + p.number i) / c := Nat.div_pos hge hc
    refine ⟨?_, Nat.mod_lt _ hc, by simp only; omega, hsame _, fun _ => ?_⟩
    · rw [hquot, Nat.add_mul, Nat.add_assoc, hdiv, hnext]
    · rw [hquot]
      omega
  · rw [if_neg hge]
    have hlt : p.divide * b + p.number i < c := Nat.lt_of_not_le hge
    by_cases hlen : 0 < p.newlen
    · rw [if_pos hlen]
      refine ⟨?_, hlt, by simp only; omega, hsame _, fun _ => ?_⟩
      · rw [hquot, Nat.add_zero, hnext]
      · rw [hquot, Nat.add_zero]
        exact Nat.mul_pos (h.lead hlen) hb
    · rw [if_neg hlen]
      have hzero : p.newlen = 0 := Nat.eq_zero_of_not_pos hlen
      refine ⟨?_, hlt, by simp only; omega, fun j hj => h.same j (by omega), fun hpos => ?_⟩
      · simp only [hzero] at hnext ⊢
        rw [← hnext, show upTo p.number 0 = [] from rfl, value_nil, Nat.zero_mul, Nat.zero_mul,
          Nat.zero_mul]
      · exact absurd hpos hlen

/-- Quotient and remainder; the quotient has no leading zero. -/
theorem pass_spec (hb : 0 < b) (hc : 0 < c) (number : Nat → Nat) (len : Nat) :
    (pass b c number len).divide = value b (upTo number len) % c ∧
      value b (upTo (pass b c number len).number (pass b c number len).newlen) =
        value b (upTo number len) / c ∧
      ((pass b c number len).newlen = 0 ↔ value b (upTo number len) / c = 0) := by
  have hall : ∀ i, Divided b c number i (pass b c number i) := by
    intro i
    induction i with
    | zero => exact ⟨by simp [pass, upTo, value], hc, Nat.le_refl 0, fun _ _ => rfl, nofun⟩
    | succ i ih =>
      have hfold : pass b c number (i + 1) = passStep b c (pass b c number i) i := by
        rw [pass, List.range_succ, List.foldl_append]
        rfl
      rw [hfold]
      exact ih.step hb
  obtain ⟨hquot, hrem, -, -, hlead⟩ := hall len
  generalize pass b c number len = p at *
  have hmod : p.divide = value b (upTo number len) % c := by
    rw [← hquot, Nat.mul_comm, Nat.mul_add_mod, Nat.mod_eq_of_lt hrem]
  have hdiv : value b (upTo p.number p.newlen) = value b (upTo number len) / c := by
    rw [← hquot, Nat.mul_comm, Nat.mul_add_div hc, Nat.div_eq_of_lt hrem, Nat.add_zero]
  refine ⟨hmod, hdiv, ?_⟩
  rw [← hdiv]
  constructor
  · intro hzero
    rw [hzero]
    rfl
  · intro hzero
    by_contra hne
    exact absurd hzero (Nat.ne_of_gt (hlead (Nat.pos_of_ne_zero hne)))

end Radix

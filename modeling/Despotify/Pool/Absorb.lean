import Mathlib.Data.List.Basic

/-!
# Data taken in blocks

A machine takes its data a block of `n` at a time; what does not fill a block waits for more.

* `absorb`: the machine after the whole blocks of the data; `left`: what waits.
* `absorb_append`, `left_append`: data that come in two parts.
-/

namespace Absorb

variable {σ α : Type} (f : σ → List α → σ) (n : Nat)

/-- The machine after the first `k` blocks. -/
def blocks : Nat → σ → List α → σ
  | 0, s, _ => s
  | k + 1, s, l => blocks k (f s (l.take n)) (l.drop n)

def absorb (s : σ) (l : List α) : σ := blocks f n (l.length / n) s l

def left (l : List α) : List α := l.drop (n * (l.length / n))

variable {f : σ → List α → σ} {n : Nat}

theorem length_left (l : List α) : (left n l).length = l.length % n := by
  rw [left, List.length_drop]
  exact Nat.sub_eq_of_eq_add (Nat.mod_add_div l.length n).symm

theorem blocks_succ (k : Nat) (s : σ) (l : List α) :
    blocks f n (k + 1) s l = blocks f n k (f s (l.take n)) (l.drop n) := rfl

theorem blocks_add (j k : Nat) (s : σ) (l : List α) :
    blocks f n (j + k) s l = blocks f n k (blocks f n j s l) (l.drop (n * j)) := by
  induction j generalizing s l with
  | zero => rw [Nat.zero_add, Nat.mul_zero, List.drop_zero, blocks]
  | succ j ih => rw [Nat.succ_add, blocks_succ, ih, List.drop_drop, blocks_succ, Nat.mul_succ,
      Nat.add_comm n]

/-- What lies behind the blocks does not matter. -/
theorem blocks_append {k : Nat} (s : σ) {l : List α} (l' : List α) (h : n * k ≤ l.length) :
    blocks f n k s (l ++ l') = blocks f n k s l := by
  induction k generalizing s l with
  | zero => rfl
  | succ k ih =>
    rw [Nat.mul_succ] at h
    rw [blocks_succ, blocks_succ, List.take_append_of_le_length (by omega),
      List.drop_append_of_le_length (by omega), ih _ (by rw [List.length_drop]; omega)]

theorem absorb_of_lt (s : σ) {l : List α} (h : l.length < n) : absorb f n s l = s := by
  rw [absorb, Nat.div_eq_of_lt h, blocks]

theorem left_of_lt {l : List α} (h : l.length < n) : left n l = l := by
  rw [left, Nat.div_eq_of_lt h, Nat.mul_zero, List.drop_zero]

/-- A block in front. -/
theorem absorb_block (s : σ) {l : List α} (l' : List α) (hn : 0 < n) (h : l.length = n) :
    absorb f n s (l ++ l') = absorb f n (f s l) l' := by
  rw [absorb, List.length_append, h, Nat.add_div_left _ hn, blocks_succ, List.take_left' h,
    List.drop_left' h, absorb]

theorem left_block {l : List α} (l' : List α) (hn : 0 < n) (h : l.length = n) :
    left n (l ++ l') = left n l' := by
  rw [left, List.length_append, h, Nat.add_div_left _ hn, Nat.mul_succ, Nat.add_comm _ n,
    ← List.drop_drop, List.drop_left' h, left]

theorem length_append_div (hn : 0 < n) (l l' : List α) :
    (l ++ l').length / n = l.length / n + (left n l ++ l').length / n := by
  have h := Nat.mod_add_div l.length n
  rw [List.length_append, List.length_append, length_left]
  conv => lhs; rw [← h]
  rw [Nat.add_right_comm, Nat.add_mul_div_left _ _ hn, Nat.add_comm]

theorem drop_append_left (l l' : List α) :
    (l ++ l').drop (n * (l.length / n)) = left n l ++ l' :=
  List.drop_append_of_le_length (Nat.mul_div_le l.length n)

/-- **Data in two parts**: the second one comes behind what the first one has left. -/
theorem absorb_append (hn : 0 < n) (s : σ) (l l' : List α) :
    absorb f n s (l ++ l') = absorb f n (absorb f n s l) (left n l ++ l') := by
  rw [absorb, length_append_div hn, blocks_add, drop_append_left,
    blocks_append s l' (Nat.mul_div_le l.length n)]
  rfl

theorem left_append (hn : 0 < n) (l l' : List α) : left n (l ++ l') = left n (left n l ++ l') := by
  rw [left, length_append_div hn, Nat.mul_add, ← List.drop_drop, drop_append_left]
  rfl

/-- A machine that runs as another one does. -/
theorem absorb_map {τ : Type} {g : τ → List α → τ} {φ : σ → τ}
    (h : ∀ s l, φ (f s l) = g (φ s) l) (s : σ) (l : List α) :
    φ (absorb f n s l) = absorb g n (φ s) l := by
  rw [absorb, absorb]
  generalize l.length / n = k
  induction k generalizing s l with
  | zero => rfl
  | succ k ih => rw [blocks_succ, ih, h, blocks_succ]

/-- A block as long as the data allow, and what comes behind it. -/
theorem absorb_of_le (s : σ) {l : List α} (hn : 0 < n) (h : n ≤ l.length) :
    absorb f n s l = absorb f n (f s (l.take n)) (l.drop n) := by
  have hblock := absorb_block (f := f) s (l.drop n) hn (List.length_take_of_le h)
  rwa [List.take_append_drop] at hblock

theorem left_of_le {l : List α} (hn : 0 < n) (h : n ≤ l.length) : left n l = left n (l.drop n) := by
  have hblock := left_block (l.drop n) hn (List.length_take_of_le h)
  rwa [List.take_append_drop] at hblock

end Absorb

import Mathlib.Data.List.Basic
import Mathlib.Data.List.TakeDrop

/-!
# Arrays filled from the front

A loop stores one value after the other into an array, and stops at the first value that is
missing.

* `fill_eq`: the array holds the values there were, and behind them what it held before.
* `fill_map`: where no value is missing, it holds these values and nothing else.
-/

namespace Filling

variable {α : Type}

/-- `n` rounds from the index `i` on: the array, and whether the loop came to its end. -/
def rounds (f : Nat → Option α) : Nat → Nat → List α → List α × Bool
  | _, 0, xs => (xs, true)
  | i, n + 1, xs =>
    match f i with
    | none => (xs, false)
    | some a => rounds f (i + 1) n (xs.set i a)

def fill (f : Nat → Option α) (len : Nat) (xs : List α) : List α × Bool := rounds f 0 len xs

/-- The values from the index `i` on, up to the first that is missing. -/
def values (f : Nat → Option α) : Nat → Nat → List α
  | _, 0 => []
  | i, n + 1 =>
    match f i with
    | none => []
    | some a => a :: values f (i + 1) n

variable {f : Nat → Option α}

theorem length_values_le (i n : Nat) : (values f i n).length ≤ n := by
  induction n generalizing i with
  | zero => exact Nat.le_refl 0
  | succ n ih =>
    rw [values]
    split
    · exact Nat.zero_le _
    · rw [List.length_cons]
      exact Nat.succ_le_succ (ih (i + 1))

theorem values_map {g : Nat → α} {i n : Nat} (h : ∀ j < n, f (i + j) = some (g (i + j))) :
    values f i n = (List.range n).map fun j => g (i + j) := by
  induction n generalizing i with
  | zero => rfl
  | succ n ih =>
    have hhead : f i = some (g i) := h 0 (Nat.succ_pos n)
    have htail : ∀ j < n, f (i + 1 + j) = some (g (i + 1 + j)) := by
      intro j hj
      rw [Nat.add_assoc, Nat.add_comm 1 j]
      exact h (j + 1) (Nat.succ_lt_succ hj)
    rw [values, hhead, List.range_succ_eq_map, List.map_cons, List.map_map]
    show g i :: values f (i + 1) n = _
    rw [ih htail]
    refine congrArg (g i :: ·) (List.map_congr_left fun j _ => ?_)
    show g (i + 1 + j) = g (i + (j + 1))
    rw [Nat.add_assoc, Nat.add_comm 1 j]

theorem rounds_eq {i n : Nat} {xs : List α} (h : i + n ≤ xs.length) :
    rounds f i n xs = (xs.take i ++ values f i n ++ xs.drop (i + (values f i n).length),
      decide ((values f i n).length = n)) := by
  induction n generalizing i xs with
  | zero =>
    show (xs, true) = (xs.take i ++ [] ++ xs.drop (i + 0), true)
    rw [List.append_nil, Nat.add_zero, List.take_append_drop]
  | succ n ih =>
    rw [rounds, values]
    split
    · show (xs, false) = (xs.take i ++ [] ++ xs.drop (i + 0), false)
      rw [List.append_nil, Nat.add_zero, List.take_append_drop]
    · next a _ =>
      have hi : i < xs.length := by omega
      have hfront : (xs.set i a).take (i + 1) = xs.take i ++ [a] := by
        rw [List.take_succ_eq_append_getElem (by rw [List.length_set]; exact hi),
          List.getElem_set_self, List.take_set_of_le (Nat.le_refl i)]
      rw [ih (by rw [List.length_set]; omega), hfront, List.drop_set_of_lt (by omega),
        List.length_cons]
      refine Prod.ext ?_ ?_
      · show xs.take i ++ [a] ++ values f (i + 1) n ++ _ = xs.take i ++ a :: values f (i + 1) n ++ _
        rw [List.append_assoc (xs.take i) [a], List.singleton_append,
          show i + 1 + (values f (i + 1) n).length = i + ((values f (i + 1) n).length + 1) by omega]
      · exact decide_eq_decide.mpr (by omega)

/-- **Filling**: the values there were, and behind them what the array held. -/
theorem fill_eq {len : Nat} {xs : List α} (h : len ≤ xs.length) :
    fill f len xs = (values f 0 len ++ xs.drop (values f 0 len).length,
      decide ((values f 0 len).length = len)) := by
  rw [fill, rounds_eq (by omega), List.take_zero, List.nil_append, Nat.zero_add]

theorem fill_map {g : Nat → α} {len : Nat} {xs : List α} (h : xs.length = len)
    (hf : ∀ j < len, f j = some (g j)) : fill f len xs = ((List.range len).map g, true) := by
  have hvalues : values f 0 len = (List.range len).map g := by
    rw [values_map (g := g) fun j hj => by rw [Nat.zero_add]; exact hf j hj]
    exact List.map_congr_left fun j _ => by rw [Nat.zero_add]
  have hlen : (values f 0 len).length = len := by
    rw [hvalues, List.length_map, List.length_range]
  rw [fill_eq (Nat.le_of_eq h.symm), hlen, hvalues, List.drop_of_length_le (Nat.le_of_eq h),
    List.append_nil, decide_eq_true rfl]

end Filling

import Mathlib.Logic.Basic

/-!
# Ciphers of rounds

A block goes through rounds of a permutation `g` and a mixing `l`, a key added in front, behind
each round, and behind a last one that does not mix.  The inverse has the same form: its keys
come in reverse order, the inner ones mixed back.

* `cipher_cipher`: the one undoes the other.
-/

namespace Rounds

variable {σ : Type}

/-- How a key is added, and a round without it. -/
structure Shape (σ : Type) where
  add : σ → σ → σ
  g : σ → σ
  l : σ → σ

namespace Shape

/-- The first `r` of the rounds that mix. -/
def middle (m : Shape σ) (k : Nat → σ) (s : σ) : Nat → σ
  | 0 => m.add s (k 0)
  | r + 1 => m.add (m.l (m.g (middle m k s r))) (k (r + 1))

/-- The block after `n + 1` rounds. -/
def cipher (m : Shape σ) (n : Nat) (k : Nat → σ) (s : σ) : σ :=
  m.add (m.g (m.middle k s n)) (k (n + 1))

end Shape

/-- What undoes the rounds. -/
structure Undoes (d e : Shape σ) : Prop where
  add : d.add = e.add
  add_add : ∀ s k, e.add (e.add s k) k = s
  g : ∀ s, d.g (e.g s) = s
  l : ∀ s, d.l (e.l s) = s
  l_add : ∀ s k, d.l (e.add s k) = e.add (d.l s) (d.l k)

/-- The keys of the inverse of `n + 1` rounds. -/
def turned (l : σ → σ) (n : Nat) (k : Nat → σ) (i : Nat) : σ :=
  if i = 0 ∨ i = n + 1 then k (n + 1 - i) else l (k (n + 1 - i))

variable {d e : Shape σ} {n : Nat} {k : Nat → σ}

/-- After `r` rounds back the block is where it was before the last `r` rounds. -/
theorem Undoes.middle (h : Undoes d e) (s : σ) {r : Nat} (hr : r ≤ n) :
    d.middle (turned d.l n k) (e.cipher n k s) r = e.g (e.middle k s (n - r)) := by
  induction r with
  | zero =>
    rw [Shape.middle, h.add, Shape.cipher, turned, if_pos (Or.inl rfl), Nat.sub_zero, h.add_add]
    rfl
  | succ r ih =>
    obtain ⟨m, rfl⟩ := Nat.exists_eq_add_of_le hr
    rw [Shape.middle, ih (by omega), turned, if_neg (by omega),
      show r + 1 + m - r = m + 1 by omega, show r + 1 + m + 1 - (r + 1) = m + 1 by omega,
      show r + 1 + m - (r + 1) = m by omega, h.g, Shape.middle, h.l_add, h.add, h.add_add, h.l]

/-- **The inverse.** -/
theorem Undoes.cipher_cipher (h : Undoes d e) (s : σ) :
    d.cipher n (turned d.l n k) (e.cipher n k s) = s := by
  rw [Shape.cipher, h.middle s (Nat.le_refl n), Nat.sub_self, h.g, turned, if_pos (Or.inr rfl),
    Nat.sub_self, h.add, Shape.middle, h.add_add]

end Rounds

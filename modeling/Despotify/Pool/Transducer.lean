import Mathlib.Data.List.Basic

/-!
# Transducers: machines that turn each input letter into one output letter

A transducer is a step `σ → α → σ × β`; `run` feeds it a list.  What a user of
the library needs of a byte-wise cipher, a framer or any other machine that is
called on a stream in pieces:

* `run_append`: the way the input is cut into calls does not matter.
* `run_frame`: what no step changes no run changes.
* `Inverts.run`: when one step of `U` undoes one step of `T`, a run of `U`
  undoes a run of `T`, and the two states stay related.
-/

namespace Transducer

variable {σ τ α β : Type}

/-- Feed the letters one by one; the final state and the letters put out. -/
def run (step : σ → α → σ × β) : σ → List α → σ × List β
  | s, [] => (s, [])
  | s, a :: as =>
    let (s', b) := step s a
    let (s'', bs) := run step s' as
    (s'', b :: bs)

@[simp] theorem run_nil (step : σ → α → σ × β) (s : σ) : run step s [] = (s, []) := rfl

@[simp] theorem run_cons (step : σ → α → σ × β) (s : σ) (a : α) (as : List α) :
    run step s (a :: as) =
      ((run step (step s a).1 as).1, (step s a).2 :: (run step (step s a).1 as).2) := rfl

theorem run_append (step : σ → α → σ × β) (s : σ) (as bs : List α) :
    run step s (as ++ bs) =
      ((run step (run step s as).1 bs).1,
        (run step s as).2 ++ (run step (run step s as).1 bs).2) := by
  induction as generalizing s with
  | nil => simp
  | cons a as ih => simp [ih]

@[simp] theorem length_run (step : σ → α → σ × β) (s : σ) (as : List α) :
    (run step s as).2.length = as.length := by
  induction as generalizing s with
  | nil => rfl
  | cons a as ih => simp [ih]

/-- What no step changes no run changes. -/
theorem run_frame {γ : Type} {T : σ → α → σ × β} {f : σ → γ} (h : ∀ s a, f (T s a).1 = f s)
    (s : σ) (as : List α) : f (run T s as).1 = f s := by
  induction as generalizing s with
  | nil => rfl
  | cons a as ih => rw [run_cons, ih, h]

/-! ## Inversion -/

/-- `U` undoes `T` letter by letter, from related states into related states. -/
def Inverts (T : σ → α → σ × β) (U : τ → β → τ × α) (R : σ → τ → Prop) : Prop :=
  ∀ s t a, R s t → R (T s a).1 (U t (T s a).2).1 ∧ (U t (T s a).2).2 = a

theorem Inverts.run {T : σ → α → σ × β} {U : τ → β → τ × α} {R : σ → τ → Prop}
    (h : Inverts T U R) (s : σ) (t : τ) (as : List α) (hR : R s t) :
    R (Transducer.run T s as).1 (Transducer.run U t (Transducer.run T s as).2).1 ∧
      (Transducer.run U t (Transducer.run T s as).2).2 = as := by
  induction as generalizing s t with
  | nil => exact ⟨hR, rfl⟩
  | cons a as ih =>
    obtain ⟨h1, h2⟩ := h s t a hR
    obtain ⟨h3, h4⟩ := ih _ _ h1
    exact ⟨by simpa using h3, by simp [h2, h4]⟩

end Transducer

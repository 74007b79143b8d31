import Mathlib.Order.Defs.Unbundled

/-!
# Procedures: state, exceptions and an environment that may not fit

A procedure takes a state to a result, a value or an exception, and the state it
leaves behind; an exception does not undo what was done before it.  `none` is no
outcome at all: the environment described by the state gives no answer where the
procedure asks for one.

* `bind_run`: what a sequence does, by its first part.
* `Moves R m`: whatever the outcome, `m` takes a state to an `R`-related one.  For
  a reflexive and transitive `R` it is kept by `pure`, `throw` and `>>=`.
* `Keeps R m`: the same as a class, inferred along the shape of `m`.
* `Returns m s C Q`: from `s`, `m` returns exactly if `C`, and then with `Q`.
* `Ends m s Q`: from `s`, `m` has an outcome, and `Q` of it.
-/

/-- Takes a state to a result and a state; `none` where it gets no answer. -/
def Proc (σ ε α : Type) : Type := σ → Option (Except ε α × σ)

namespace Proc

variable {σ ε α β : Type}

protected def pure (a : α) : Proc σ ε α := fun s => some (.ok a, s)

protected def bind (m : Proc σ ε α) (f : α → Proc σ ε β) : Proc σ ε β := fun s =>
  match m s with
  | none => none
  | some (.error e, s') => some (.error e, s')
  | some (.ok a, s') => f a s'

instance : Monad (Proc σ ε) where
  pure := Proc.pure
  bind := Proc.bind

def throw (e : ε) : Proc σ ε α := fun s => some (.error e, s)

def get : Proc σ ε σ := fun s => some (.ok s, s)

def modify (f : σ → σ) : Proc σ ε Unit := fun s => some (.ok (), f s)

/-- The value, or the exception in its place. -/
def ofExcept : Except ε α → Proc σ ε α
  | .ok a => Proc.pure a
  | .error e => throw e

/-- The value, or the exception `e` where there is none. -/
def ofOption (e : ε) : Option α → Proc σ ε α
  | some a => Proc.pure a
  | none => throw e

/-! ## Running -/

theorem bind_run (m : Proc σ ε α) (f : α → Proc σ ε β) (s : σ) :
    (m >>= f) s =
      match m s with
      | none => none
      | some (.error e, s') => some (.error e, s')
      | some (.ok a, s') => f a s' := rfl

theorem bind_of_ok {m : Proc σ ε α} {f : α → Proc σ ε β} {s s' : σ} {a : α}
    (h : m s = some (.ok a, s')) : (m >>= f) s = f a s' := by
  rw [bind_run, h]

theorem bind_of_error {m : Proc σ ε α} {f : α → Proc σ ε β} {s s' : σ} {e : ε}
    (h : m s = some (.error e, s')) : (m >>= f) s = some (.error e, s') := by
  rw [bind_run, h]

@[simp] theorem pure_bind (a : α) (f : α → Proc σ ε β) : (pure a >>= f) = f a := rfl

@[simp] theorem throw_bind (e : ε) (f : α → Proc σ ε β) :
    ((throw e : Proc σ ε α) >>= f) = throw e := rfl

@[simp] theorem modify_bind (g : σ → σ) (f : Unit → Proc σ ε β) (s : σ) :
    ((modify g : Proc σ ε Unit) >>= f) s = f () (g s) := rfl

@[simp] theorem get_bind (f : σ → Proc σ ε β) (s : σ) :
    ((get : Proc σ ε σ) >>= f) s = f s s := rfl

@[simp] theorem ofOption_some (e : ε) (a : α) :
    (ofOption e (some a) : Proc σ ε α) = pure a := rfl

@[simp] theorem ofOption_none (e : ε) : (ofOption e none : Proc σ ε α) = throw e := rfl

@[simp] theorem ofExcept_ok (a : α) : (ofExcept (.ok a) : Proc σ ε α) = pure a := rfl

@[simp] theorem ofExcept_error (e : ε) : (ofExcept (.error e) : Proc σ ε α) = throw e := rfl

theorem ite_run {p : Prop} [Decidable p] (m m' : Proc σ ε α) (s : σ) :
    (if p then m else m') s = if p then m s else m' s := by
  by_cases h : p
  · rw [if_pos h, if_pos h]
  · rw [if_neg h, if_neg h]

/-- What an outcome of a sequence comes from. -/
theorem bind_eq_some {m : Proc σ ε α} {f : α → Proc σ ε β} {s s' : σ} {r : Except ε β}
    (h : (m >>= f) s = some (r, s')) :
    (∃ e, m s = some (.error e, s') ∧ r = .error e) ∨
      ∃ a s1, m s = some (.ok a, s1) ∧ f a s1 = some (r, s') := by
  rw [bind_run] at h
  cases hm : m s with
  | none =>
    rw [hm] at h
    cases h
  | some p =>
    obtain ⟨x, s1⟩ := p
    rw [hm] at h
    cases x with
    | error e =>
      cases h
      exact Or.inl ⟨e, rfl, rfl⟩
    | ok a => exact Or.inr ⟨a, s1, rfl, h⟩

theorem ofExcept_eq_ok {x : Except ε α} {s s' : σ} {a : α}
    (h : (ofExcept x : Proc σ ε α) s = some (.ok a, s')) : x = .ok a ∧ s' = s := by
  cases x with
  | ok b =>
    cases h
    exact ⟨rfl, rfl⟩
  | error e => cases h

theorem bind_assoc {γ : Type} (m : Proc σ ε α) (f : α → Proc σ ε β)
    (g : β → Proc σ ε γ) : (m >>= f) >>= g = m >>= fun a => f a >>= g := by
  funext s
  simp only [bind_run]
  match m s with
  | none => rfl
  | some (.error e, s') => rfl
  | some (.ok a, s') => rfl

/-! ## What every outcome keeps -/

/-- Whatever the outcome of `m`, it takes a state to one related to it. -/
def Moves (R : σ → σ → Prop) (m : Proc σ ε α) : Prop :=
  ∀ s r s', m s = some (r, s') → R s s'

section Moves

variable {R : σ → σ → Prop}

theorem Moves.modify {f : σ → σ} (h : ∀ s, R s (f s)) :
    Moves R (Proc.modify f : Proc σ ε Unit) := by
  intro s r s' hs
  cases hs
  exact h s

theorem Moves.pure [Std.Refl R] (a : α) : Moves R (Pure.pure a : Proc σ ε α) := by
  intro s r s' hs
  cases hs
  exact refl s

theorem Moves.throw [Std.Refl R] (e : ε) : Moves R (Proc.throw e : Proc σ ε α) := by
  intro s r s' hs
  cases hs
  exact refl s

theorem Moves.get [Std.Refl R] : Moves R (Proc.get : Proc σ ε σ) := by
  intro s r s' hs
  cases hs
  exact refl s

theorem Moves.bind [IsTrans σ R] {m : Proc σ ε α} {f : α → Proc σ ε β} (hm : Moves R m)
    (hf : ∀ a, Moves R (f a)) : Moves R (m >>= f) := by
  intro s r s' hs
  rcases bind_eq_some hs with ⟨e, he, -⟩ | ⟨a, s1, ha, hb⟩
  · exact hm s _ s' he
  · exact trans_of R (hm s _ s1 ha) (hf a s1 r s' hb)

end Moves

/-- `Moves`; its instances follow the shape of a procedure, so that one for a whole
procedure is inferred. -/
class Keeps (R : σ → σ → Prop) (m : Proc σ ε α) : Prop where
  moves : Moves R m

section Keeps

variable {R : σ → σ → Prop}

instance keeps_bind [IsTrans σ R] (m : Proc σ ε α) (f : α → Proc σ ε β) [hm : Keeps R m]
    [hf : ∀ a, Keeps R (f a)] : Keeps R (m >>= f) :=
  ⟨Moves.bind hm.moves fun a => (hf a).moves⟩

instance keeps_ite (p : Prop) [Decidable p] (m m' : Proc σ ε α) [h : Keeps R m]
    [h' : Keeps R m'] : Keeps R (if p then m else m') := by
  by_cases hp : p
  · rwa [if_pos hp]
  · rwa [if_neg hp]

variable [Std.Refl R]

instance keeps_pure (a : α) : Keeps R (Pure.pure a : Proc σ ε α) := ⟨Moves.pure a⟩

instance keeps_throw (e : ε) : Keeps R (throw e : Proc σ ε α) := ⟨Moves.throw e⟩

instance keeps_get : Keeps R (get : Proc σ ε σ) := ⟨Moves.get⟩

instance keeps_ofExcept (x : Except ε α) : Keeps R (ofExcept x : Proc σ ε α) := by
  cases x with
  | ok a => exact keeps_pure a
  | error e => exact keeps_throw e

instance keeps_ofOption (e : ε) (x : Option α) : Keeps R (ofOption e x : Proc σ ε α) := by
  cases x with
  | some a => exact keeps_pure a
  | none => exact keeps_throw e

end Keeps

/-! ## Parts that stay the same -/

/-- The part `f` of the state is the same in both. -/
def Same {τ : Type} (f : σ → τ) (s s' : σ) : Prop := f s' = f s

instance {τ : Type} (f : σ → τ) : Std.Refl (Same f) := ⟨fun _ => rfl⟩

instance {τ : Type} (f : σ → τ) : IsTrans σ (Same f) := ⟨fun _ _ _ h h' => h'.trans h⟩

/-- What keeps a part keeps what is read off it. -/
theorem Keeps.of_same {τ υ : Type} {f : σ → τ} {g : σ → υ} {m : Proc σ ε α}
    (hm : Keeps (Same f) m) (h : ∀ s s', f s' = f s → g s' = g s) : Keeps (Same g) m :=
  ⟨fun s r s' hs => h s s' (hm.moves s r s' hs)⟩

theorem Keeps.same {τ : Type} {f : σ → τ} {m : Proc σ ε α} (hm : Keeps (Same f) m)
    {s s' : σ} {r : Except ε α} (h : m s = some (r, s')) : f s' = f s := hm.moves s r s' h

/-! ## Outcomes -/

/-- There is always an outcome. -/
class Total (m : Proc σ ε α) : Prop where
  total : ∀ s, ∃ r s', m s = some (r, s')

instance total_pure (a : α) : Total (Pure.pure a : Proc σ ε α) := ⟨fun s => ⟨_, s, rfl⟩⟩

instance total_throw (e : ε) : Total (throw e : Proc σ ε α) := ⟨fun s => ⟨_, s, rfl⟩⟩

instance total_get : Total (get : Proc σ ε σ) := ⟨fun s => ⟨_, s, rfl⟩⟩

instance total_modify (f : σ → σ) : Total (modify f : Proc σ ε Unit) := ⟨fun s => ⟨_, f s, rfl⟩⟩

instance total_bind (m : Proc σ ε α) (f : α → Proc σ ε β) [hm : Total m]
    [hf : ∀ a, Total (f a)] : Total (m >>= f) := by
  constructor
  intro s
  obtain ⟨r, s1, h⟩ := hm.total s
  cases r with
  | error e => exact ⟨_, s1, bind_of_error h⟩
  | ok a =>
    rw [bind_of_ok h]
    exact (hf a).total s1

instance total_ite (p : Prop) [Decidable p] (m m' : Proc σ ε α) [h : Total m] [h' : Total m'] :
    Total (if p then m else m') := by
  by_cases hp : p
  · rwa [if_pos hp]
  · rwa [if_neg hp]

/-! ## Exactly when a procedure returns -/

/-- From `s` the procedure returns a value if and only if `C`, and then with `Q`. -/
structure Returns (m : Proc σ ε α) (s : σ) (C : Prop) (Q : α → σ → Prop) : Prop where
  returns : C → ∃ a s', m s = some (.ok a, s')
  post : ∀ a s', m s = some (.ok a, s') → C ∧ Q a s'

namespace Returns

variable {s : σ} {C D : Prop} {Q : α → σ → Prop} {R : β → σ → Prop}

theorem pure (a : α) : Returns (Pure.pure a : Proc σ ε α) s True (fun b s' => b = a ∧ s' = s) := by
  constructor
  · intro _
    exact ⟨a, s, rfl⟩
  · intro b s' h
    cases h
    exact ⟨trivial, rfl, rfl⟩

theorem throw (e : ε) (hC : ¬ C) : Returns (Proc.throw e : Proc σ ε α) s C Q := by
  constructor
  · intro h
    exact absurd h hC
  · intro a s' h
    cases h

theorem modify (f : σ → σ) :
    Returns (Proc.modify f : Proc σ ε Unit) s True (fun _ s' => s' = f s) := by
  constructor
  · intro _
    exact ⟨(), f s, rfl⟩
  · intro a s' h
    cases h
    exact ⟨trivial, rfl⟩

theorem of_eq {m : Proc σ ε α} {a : α} {s' : σ} (h : m s = some (.ok a, s')) :
    Returns m s True (fun b s1 => b = a ∧ s1 = s') := by
  constructor
  · intro _
    exact ⟨a, s', h⟩
  · intro b s1 hb
    rw [h] at hb
    cases hb
    exact ⟨trivial, rfl, rfl⟩

/-- A sequence returns if both parts do. -/
theorem bind {m : Proc σ ε α} {f : α → Proc σ ε β} (hm : Returns m s C Q)
    (hf : ∀ a s', C → Q a s' → Returns (f a) s' D R) : Returns (m >>= f) s (C ∧ D) R := by
  constructor
  · rintro ⟨hC, hD⟩
    obtain ⟨a, s1, ha⟩ := hm.returns hC
    obtain ⟨b, s', hb⟩ := (hf a s1 hC (hm.post a s1 ha).2).returns hD
    exact ⟨b, s', (bind_of_ok ha).trans hb⟩
  · intro b s' h
    rcases bind_eq_some h with ⟨e, -, he⟩ | ⟨a, s1, ha, hb⟩
    · cases he
    · obtain ⟨hC, hQ⟩ := hm.post a s1 ha
      obtain ⟨hD, hR⟩ := (hf a s1 hC hQ).post b s' hb
      exact ⟨⟨hC, hD⟩, hR⟩

/-- The same, of a condition for the whole that the first part needs a part of. -/
theorem seq {m : Proc σ ε α} {f : α → Proc σ ε β} (hm : Returns m s C Q) (hD : D → C)
    (hf : ∀ a s', C → Q a s' → Returns (f a) s' D R) : Returns (m >>= f) s D R := by
  have h := hm.bind hf
  constructor
  · intro hd
    exact h.returns ⟨hD hd, hd⟩
  · intro b s' hb
    obtain ⟨⟨-, hd⟩, hr⟩ := h.post b s' hb
    exact ⟨hd, hr⟩

/-- Nothing follows what always throws. -/
theorem bind_throws {m : Proc σ ε α} (f : α → Proc σ ε β)
    (hm : Returns m s False (fun _ _ => False)) : Returns (m >>= f) s False R := by
  constructor
  · exact False.elim
  · intro b s' h
    rcases bind_eq_some h with ⟨e, -, he⟩ | ⟨a, s1, ha, -⟩
    · cases he
    · exact (hm.post a s1 ha).1.elim

theorem ite {p : Prop} [Decidable p] {m m' : Proc σ ε α} (h : p → Returns m s C Q)
    (h' : ¬ p → Returns m' s C Q) : Returns (if p then m else m') s C Q := by
  by_cases hp : p
  · rw [if_pos hp]
    exact h hp
  · rw [if_neg hp]
    exact h' hp

/-- The same condition in other words, and less said of what is returned. -/
theorem imp {m : Proc σ ε α} {Q' : α → σ → Prop} (h : Returns m s C Q) (hC : C ↔ D)
    (hQ : ∀ a s', C → Q a s' → Q' a s') : Returns m s D Q' := by
  constructor
  · intro hD
    exact h.returns (hC.mpr hD)
  · intro a s' ha
    obtain ⟨hc, hq⟩ := h.post a s' ha
    exact ⟨hC.mp hc, hQ a s' hc hq⟩

/-- A check, and what throws if it fails. -/
theorem check {p : Prop} [Decidable p] {m : Proc σ ε α} (e : ε) (h : p → Returns m s C Q) :
    Returns (if p then m else Proc.throw e) s (p ∧ C) Q := by
  by_cases hp : p
  · rw [if_pos hp]
    exact (h hp).imp (by simp [hp]) (fun _ _ _ hq => hq)
  · rw [if_neg hp]
    exact Returns.throw e fun h => hp h.1

end Returns

/-! ## Every outcome -/

/-- From `s` the procedure ends, in an outcome with `Q`. -/
def Ends (m : Proc σ ε α) (s : σ) (Q : Except ε α → σ → Prop) : Prop :=
  ∃ r s', m s = some (r, s') ∧ Q r s'

namespace Ends

variable {s : σ} {Q : Except ε α → σ → Prop} {R : Except ε β → σ → Prop}

theorem pure {a : α} (h : Q (.ok a) s) : Ends (Pure.pure a : Proc σ ε α) s Q := ⟨_, s, rfl, h⟩

theorem throw {e : ε} (h : Q (.error e) s) : Ends (Proc.throw e : Proc σ ε α) s Q :=
  ⟨_, s, rfl, h⟩

theorem modify {f : σ → σ} {Q : Except ε Unit → σ → Prop} (h : Q (.ok ()) (f s)) :
    Ends (Proc.modify f : Proc σ ε Unit) s Q := ⟨_, f s, rfl, h⟩

theorem imp {m : Proc σ ε α} {Q' : Except ε α → σ → Prop} (h : Ends m s Q)
    (hQ : ∀ r s', Q r s' → Q' r s') : Ends m s Q' := by
  obtain ⟨r, s', heq, hr⟩ := h
  exact ⟨r, s', heq, hQ r s' hr⟩

theorem get_bind {f : σ → Proc σ ε β} (h : Ends (f s) s R) :
    Ends ((get : Proc σ ε σ) >>= f) s R := h

theorem modify_bind {g : σ → σ} {f : Unit → Proc σ ε β} (h : Ends (f ()) (g s) R) :
    Ends ((Proc.modify g : Proc σ ε Unit) >>= f) s R := h

/-- An exception of the first part is that of the sequence. -/
theorem bind {m : Proc σ ε α} {f : α → Proc σ ε β} (hm : Ends m s Q)
    (herror : ∀ e s', Q (.error e) s' → R (.error e) s')
    (hok : ∀ a s', Q (.ok a) s' → Ends (f a) s' R) : Ends (m >>= f) s R := by
  obtain ⟨r, s1, h, hQ⟩ := hm
  cases r with
  | error e => exact ⟨_, s1, bind_of_error h, herror e s1 hQ⟩
  | ok a =>
    obtain ⟨r, s', h', hR⟩ := hok a s1 hQ
    exact ⟨r, s', (bind_of_ok h).trans h', hR⟩

theorem ite {p : Prop} [Decidable p] {m m' : Proc σ ε α} (h : p → Ends m s Q)
    (h' : ¬ p → Ends m' s Q) : Ends (if p then m else m') s Q := by
  by_cases hp : p
  · rw [if_pos hp]
    exact h hp
  · rw [if_neg hp]
    exact h' hp

end Ends

end Proc

import Mathlib.Data.List.Nodup

/-!
# A list worked off in chunks

The chunks of a list have a fixed length, the last one perhaps less.  Every element of a
list without repetitions is in the chunk of its number; under a key, the first of a chunk
stands for the others.

* `mem_chunk_iff`: the chunk an element is in.
* `Lead`, `exists_lead`: the first of its key in its chunk.
* `find?_eq_some_of_imp`: a first hit that meets more than was asked for.
-/

namespace Chunks

variable {α κ : Type} [DecidableEq α] [DecidableEq κ] {k : Nat} {l : List α} {a : α}

def chunk (k : Nat) (l : List α) (b : Nat) : List α := (l.drop (k * b)).take k

/-- The number of the chunk an element is in. -/
def number (k : Nat) (l : List α) (a : α) : Nat := l.idxOf a / k

theorem mem_chunk_iff (hk : 0 < k) (hl : l.Nodup) {b : Nat} :
    a ∈ chunk k l b ↔ a ∈ l ∧ number k l a = b := by
  have hb : k * b + k = k * (b + 1) := (Nat.mul_succ k b).symm
  constructor
  · intro ha
    obtain ⟨i, hi, hget⟩ := List.mem_iff_getElem.mp ha
    rw [chunk, List.length_take, List.length_drop] at hi
    simp only [chunk, List.getElem_take, List.getElem_drop] at hget
    subst hget
    refine ⟨List.getElem_mem _, ?_⟩
    rw [number, hl.idxOf_getElem, Nat.mul_add_div hk, Nat.div_eq_of_lt (by omega), Nat.add_zero]
  · rintro ⟨ha, rfl⟩
    have hlt := List.idxOf_lt_length_of_mem ha
    have hdiv := Nat.div_add_mod (l.idxOf a) k
    have hmod := Nat.mod_lt (l.idxOf a) hk
    refine List.mem_iff_getElem.mpr ⟨l.idxOf a % k, ?_, ?_⟩
    · rw [chunk, List.length_take, List.length_drop, number]
      omega
    · simp only [chunk, List.getElem_take, List.getElem_drop, number, hdiv]
      exact List.getElem_idxOf hlt

omit [DecidableEq α] in
theorem chunk_eq_nil_iff (hk : 0 < k) {b : Nat} : chunk k l b = [] ↔ l.length ≤ k * b := by
  rw [chunk, List.take_eq_nil_iff, List.drop_eq_nil_iff]
  omega

/-! ## The first of a key -/

/-- The first of its key in its chunk. -/
def Lead (k : Nat) (l : List α) (f : α → κ) (a : α) : Prop :=
  (chunk k l (number k l a)).find? (fun c => f c = f a) = some a

instance (k : Nat) (l : List α) (f : α → κ) : DecidablePred (Lead k l f) := fun _ =>
  inferInstanceAs (Decidable (_ = _))

variable {f : α → κ}

theorem exists_lead (hk : 0 < k) (hl : l.Nodup) (f : α → κ) (ha : a ∈ l) :
    ∃ c ∈ l, number k l c = number k l a ∧ f c = f a ∧ Lead k l f c ∧
      (chunk k l (number k l a)).find? (fun d => f d = f a) = some c := by
  have hmem : a ∈ chunk k l (number k l a) := (mem_chunk_iff hk hl).mpr ⟨ha, rfl⟩
  cases hfind : (chunk k l (number k l a)).find? (fun d => f d = f a) with
  | none =>
    have hno := List.find?_eq_none.mp hfind a hmem
    simp at hno
  | some c =>
    obtain ⟨hcl, hcn⟩ := (mem_chunk_iff hk hl).mp (List.mem_of_find?_eq_some hfind)
    have hkey : f c = f a := by simpa using List.find?_some hfind
    refine ⟨c, hcl, hcn, hkey, ?_, rfl⟩
    rw [Lead, hcn, hkey, hfind]

/-- Two of one key that lead in one chunk. -/
theorem Lead.unique {c : α} (ha : Lead k l f a) (hc : Lead k l f c)
    (hn : number k l c = number k l a) (hf : f c = f a) : c = a := by
  rw [Lead, hn, hf, ha] at hc
  exact (Option.some.inj hc).symm

/-! ## First hits -/

/-- A first hit that meets more than was asked for. -/
theorem find?_eq_some_of_imp {α : Type} {l : List α} {p q : α → Bool} {a : α}
    (h : l.find? q = some a) (ha : p a = true)
    (hpq : ∀ b ∈ l, p b = true → q b = true) : l.find? p = some a := by
  obtain ⟨-, before, after, rfl, hbefore⟩ := List.find?_eq_some_iff_append.mp h
  refine List.find?_eq_some_iff_append.mpr ⟨ha, before, after, rfl, fun b hb => ?_⟩
  have hq := hbefore b hb
  cases hp : p b with
  | false => rfl
  | true =>
    rw [hpq b (List.mem_append_left _ hb) hp] at hq
    exact hq

/-- What the values before it do not yield. -/
theorem findSome?_eq_of_takeWhile {α β : Type} [DecidableEq α] {l : List α} {f : α → Option β}
    {x : α} (hx : x ∈ l) (hnone : ∀ y ∈ l.takeWhile (· ≠ x), f y = none) {b : β}
    (hb : f x = some b) : l.findSome? f = some b := by
  induction l with
  | nil => cases hx
  | cons y l ih =>
    rw [List.findSome?_cons]
    by_cases hy : y = x
    · rw [hy, hb]
    · have hmem : x ∈ l := (List.mem_cons.mp hx).resolve_left (Ne.symm hy)
      rw [List.takeWhile_cons_of_pos (by simpa using hy)] at hnone
      rw [hnone y List.mem_cons_self]
      exact ih hmem fun z hz => hnone z (List.mem_cons_of_mem y hz)

end Chunks

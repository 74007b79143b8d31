import Mathlib.Data.List.Basic
import Mathlib.Logic.Function.Basic

/-!
# Singly linked lists in a heap

A heap maps addresses to nodes, a value and the address of the next node;
`none` is free memory, and `none` as an address is `NULL`.

* `Chain h p xs`: from `p` on the nodes are `xs`, addresses with their values.
* `Chain.append`: a fresh node linked behind the last one.
* `Chain.pop`, `Chain.setHead`: the head freed, and its value written.
* `freeFrom_eq`: the loop that frees a list.
-/

namespace Linked

variable {α : Type}

structure Node (α : Type) where
  val : α
  next : Option Nat
deriving DecidableEq, Repr

/-- The nodes from `p` on, addresses with values. -/
def Chain (h : Nat → Option (Node α)) : Option Nat → List (Nat × α) → Prop
  | p, [] => p = none
  | p, (a, v) :: xs => p = some a ∧ ∃ q, h a = some ⟨v, q⟩ ∧ Chain h q xs

variable {h h' : Nat → Option (Node α)} {p : Option Nat} {xs : List (Nat × α)}

theorem Chain.nil_iff (hc : Chain h p xs) : p = none ↔ xs = [] := by
  cases xs with
  | nil => exact iff_of_true hc rfl
  | cons x xs =>
    obtain ⟨a, v⟩ := x
    refine iff_of_false ?_ nofun
    rw [hc.1]
    nofun

/-- Only the nodes of the list matter. -/
theorem Chain.frame (hc : Chain h p xs) (heq : ∀ x ∈ xs, h' x.1 = h x.1) : Chain h' p xs := by
  induction xs generalizing p with
  | nil => exact hc
  | cons x xs ih =>
    obtain ⟨a, v⟩ := x
    obtain ⟨hp, q, ha, hq⟩ := hc
    obtain ⟨heqa, heqs⟩ := List.forall_mem_cons.mp heq
    exact ⟨hp, q, heqa.trans ha, ih hq heqs⟩

/-- The nodes are allocated. -/
theorem Chain.alloc (hc : Chain h p xs) : ∀ x ∈ xs, h x.1 ≠ none := by
  induction xs generalizing p with
  | nil => exact nofun
  | cons x xs ih =>
    obtain ⟨a, v⟩ := x
    obtain ⟨-, q, ha, hq⟩ := hc
    refine List.forall_mem_cons.mpr ⟨?_, ih hq⟩
    rw [ha]
    nofun

/-- Writing elsewhere. -/
theorem Chain.update_of_not_mem (hc : Chain h p xs) {a : Nat} (ha : a ∉ xs.map Prod.fst)
    (n : Option (Node α)) : Chain (Function.update h a n) p xs := by
  refine hc.frame fun x hx => Function.update_of_ne ?_ _ _
  rintro rfl
  exact ha (List.mem_map_of_mem hx)

/-- The head is freed. -/
theorem Chain.pop {a : Nat} {v : α} (hc : Chain h p ((a, v) :: xs))
    (hnodup : (((a, v) :: xs).map Prod.fst).Nodup) :
    ∃ q, h a = some ⟨v, q⟩ ∧ Chain (Function.update h a none) q xs := by
  obtain ⟨-, q, ha, hq⟩ := hc
  exact ⟨q, ha, hq.update_of_not_mem (List.nodup_cons.mp hnodup).1 none⟩

/-- The value of the head is written. -/
theorem Chain.setHead {a : Nat} {v w : α} (hc : Chain h p ((a, v) :: xs))
    (hnodup : (((a, v) :: xs).map Prod.fst).Nodup) {q : Option Nat} (hq : h a = some ⟨v, q⟩) :
    Chain (Function.update h a (some ⟨w, q⟩)) p ((a, w) :: xs) := by
  obtain ⟨hp, q', ha, hc'⟩ := hc
  cases hq.symm.trans ha
  exact ⟨hp, q, Function.update_self _ _ _,
    hc'.update_of_not_mem (List.nodup_cons.mp hnodup).1 _⟩

/-- A fresh node is linked behind the last one. -/
theorem Chain.append {a e : Nat} {v w : α} (hc : Chain h p (xs ++ [(e, w)]))
    (hnodup : ((xs ++ [(e, w)]).map Prod.fst).Nodup) (ha : h a = none) :
    (Function.update h a (some ⟨v, none⟩)) e = some ⟨w, none⟩ ∧
      Chain (Function.update (Function.update h a (some ⟨v, none⟩)) e (some ⟨w, some a⟩)) p
        (xs ++ [(e, w)] ++ [(a, v)]) := by
  have hae : ∀ x ∈ xs ++ [(e, w)], x.1 ≠ a := by
    intro x hx heq
    exact hc.alloc x hx (heq ▸ ha)
  induction xs generalizing p with
  | nil =>
    obtain ⟨hp, q, he, hq⟩ := hc
    have hq : q = none := hq
    subst hq
    have hne : e ≠ a := hae (e, w) (by simp)
    refine ⟨by rw [Function.update_of_ne hne, he], hp, some a, Function.update_self _ _ _,
      rfl, none, ?_, rfl⟩
    rw [Function.update_of_ne hne.symm, Function.update_self]
  | cons x xs ih =>
    obtain ⟨b, u⟩ := x
    obtain ⟨hp, q, hb, hq⟩ := hc
    rw [List.cons_append, List.map_cons, List.nodup_cons] at hnodup
    obtain ⟨hae1, hae2⟩ := List.forall_mem_cons.mp hae
    obtain ⟨he, hchain⟩ := ih hq hnodup.2 hae2
    refine ⟨he, hp, q, ?_, hchain⟩
    have hbe : b ≠ e := by
      rintro rfl
      exact hnodup.1 (by simp)
    rw [Function.update_of_ne hbe, Function.update_of_ne hae1, hb]

/-! ## Freeing a list -/

/-- `while (p) { q = p->next; free (p); p = q; }`; `none` when freed memory is
read or `fuel` passes are not enough. -/
def freeFrom : Nat → (Nat → Option (Node α)) → Option Nat → Option (Nat → Option (Node α))
  | _, h, none => some h
  | 0, _, some _ => none
  | fuel + 1, h, some a =>
    match h a with
    | none => none
    | some node => freeFrom fuel (Function.update h a none) node.next

/-- The loop ends, and nothing else is freed. -/
theorem freeFrom_eq (hc : Chain h p xs) (hnodup : (xs.map Prod.fst).Nodup) {fuel : Nat}
    (hfuel : xs.length ≤ fuel) :
    ∃ h', freeFrom fuel h p = some h' ∧ ∀ a, a ∉ xs.map Prod.fst → h' a = h a := by
  induction xs generalizing h p fuel with
  | nil =>
    have hp : p = none := hc
    subst hp
    exact ⟨h, by cases fuel <;> rfl, fun _ _ => rfl⟩
  | cons x xs ih =>
    obtain ⟨a, v⟩ := x
    obtain ⟨q, ha, hq⟩ := hc.pop hnodup
    cases hc.1
    cases fuel with
    | zero => cases hfuel
    | succ fuel =>
      obtain ⟨h', hh', hsame⟩ := ih hq (List.nodup_cons.mp hnodup).2
        (Nat.le_of_succ_le_succ hfuel)
      refine ⟨h', by simp only [freeFrom, ha, hh'], fun b hb => ?_⟩
      rw [List.map_cons, List.mem_cons, not_or] at hb
      rw [hsame b hb.2, Function.update_of_ne hb.1]

end Linked

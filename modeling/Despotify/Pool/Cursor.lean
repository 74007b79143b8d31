import Mathlib.Data.List.Basic

/-!
# A line with a cursor, and a region of memory

* `Line`: a list split at the cursor, and what an editor does to it.
* `Region.memmove`, `Region.store`: writes to a region of a fixed size; `none` if a byte outside
  is read or written.
* `Region.memmove_left`, `Region.memmove_right`: a part of the region moved over its neighbours.
-/

namespace Cursor

variable {α : Type}

/-! ## A line -/

/-- What is before the cursor, and what is behind it. -/
structure Line (α : Type) where
  before : List α
  after : List α
  deriving DecidableEq, Repr

namespace Line

def empty : Line α := ⟨[], []⟩

def text (l : Line α) : List α := l.before ++ l.after

def length (l : Line α) : Nat := l.before.length + l.after.length

/-- Nothing is inserted in a line of `cap` characters. -/
def insert (cap : Nat) (x : α) (l : Line α) : Line α :=
  if l.length < cap then { l with before := l.before ++ [x] } else l

def backspace (l : Line α) : Line α := { l with before := l.before.dropLast }

def delete (l : Line α) : Line α := { l with after := l.after.tail }

def left (l : Line α) : Line α := ⟨l.before.dropLast, l.before.getLast?.toList ++ l.after⟩

def right (l : Line α) : Line α := ⟨l.before ++ l.after.head?.toList, l.after.tail⟩

def home (l : Line α) : Line α := ⟨[], l.text⟩

def toEnd (l : Line α) : Line α := ⟨l.text, []⟩

def killToStart (l : Line α) : Line α := { l with before := [] }

def killToEnd (l : Line α) : Line α := { l with after := [] }

theorem length_text (l : Line α) : l.text.length = l.length := List.length_append

theorem text_left (l : Line α) : l.left.text = l.text := by
  obtain ⟨before, after⟩ := l
  rcases List.eq_nil_or_concat before with rfl | ⟨front, x, rfl⟩
  · rfl
  · simp [left, text]

theorem text_right (l : Line α) : l.right.text = l.text := by
  obtain ⟨before, after⟩ := l
  cases after with
  | nil => simp [right, text]
  | cons x after => simp [right, text]

end Line

/-! ## A region -/

def Region (α : Type) (n : Nat) := { l : List α // l.length = n }

namespace Region

variable {n : Nat}

def memmove (r : Region α n) (dst src count : Nat) : Option (Region α n) :=
  if h : src + count ≤ n ∧ dst + count ≤ n then
    some ⟨r.1.take dst ++ (r.1.drop src).take count ++ r.1.drop (dst + count), by
      have hlen := r.2
      simp only [List.length_append, List.length_take, List.length_drop]
      omega⟩
  else none

def store (r : Region α n) (i : Nat) (x : α) : Option (Region α n) :=
  if i < n then some ⟨r.1.set i x, by rw [List.length_set, r.2]⟩ else none

theorem memmove_eq_none {r : Region α n} {dst src count : Nat} :
    r.memmove dst src count = none ↔ n < src + count ∨ n < dst + count := by
  rw [memmove]
  split
  · next h => exact iff_of_false nofun (by omega)
  · next h => exact iff_of_true rfl (by omega)

/-- The part `moved` closes up to `front`. -/
theorem memmove_left {r : Region α n} {front gap moved back : List α}
    (hr : r.1 = front ++ gap ++ moved ++ back) :
    ∃ r' more, r.memmove front.length (front.length + gap.length) moved.length = some r' ∧
      r'.1 = front ++ moved ++ more := by
  have hlen := r.2
  rw [hr] at hlen
  simp only [List.length_append] at hlen
  refine ⟨_, r.1.drop (front.length + moved.length), dif_pos ⟨by omega, by omega⟩, ?_⟩
  have hfront : r.1.take front.length = front := by
    rw [hr, List.append_assoc, List.append_assoc, List.take_left]
  have hmoved : (r.1.drop (front.length + gap.length)).take moved.length = moved := by
    rw [hr, List.append_assoc, ← List.length_append, List.drop_left, List.take_left]
  dsimp only
  rw [hfront, hmoved]

/-- The part `moved` makes room for `k` elements. -/
theorem memmove_right {r : Region α n} {front moved back : List α} {k : Nat}
    (hr : r.1 = front ++ moved ++ back) (hk : k ≤ back.length) :
    ∃ r' room more, r.memmove (front.length + k) front.length moved.length = some r' ∧
      r'.1 = front ++ room ++ moved ++ more ∧ room.length = k := by
  have hlen := r.2
  rw [hr] at hlen
  simp only [List.length_append] at hlen
  refine ⟨_, (moved ++ back).take k, r.1.drop (front.length + k + moved.length),
    dif_pos ⟨by omega, by omega⟩, ?_, ?_⟩
  · have hfront : r.1.take (front.length + k) = front ++ (moved ++ back).take k := by
      rw [hr, List.append_assoc, List.take_length_add_append]
    have hmoved : (r.1.drop front.length).take moved.length = moved := by
      rw [hr, List.append_assoc, List.drop_left, List.take_left]
    dsimp only
    rw [hfront, hmoved]
  · rw [List.length_take, List.length_append]
    omega

theorem store_eq {r : Region α n} {i : Nat} (hi : i < n) (x : α) :
    ∃ r', r.store i x = some r' ∧ r'.1 = r.1.set i x :=
  ⟨_, if_pos hi, rfl⟩

end Region

end Cursor

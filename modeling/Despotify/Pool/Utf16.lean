import Mathlib.Data.List.Basic

/-!
# UTF-16

Strings of 16-bit units, in which a character is one unit or a pair of surrogates.  A
surrogate without its pair is not part of any character; `toChars` reads it as a question
mark.

* `utf16_toChars_iff`: units are those of their text when the surrogates are paired, and only
  then.
-/

namespace Utf16

def IsHigh (u : UInt16) : Prop := 0xD800 ≤ u.toNat ∧ u.toNat < 0xDC00

def IsLow (u : UInt16) : Prop := 0xDC00 ≤ u.toNat ∧ u.toNat < 0xE000

instance (u : UInt16) : Decidable (IsHigh u) := inferInstanceAs (Decidable (_ ∧ _))

instance (u : UInt16) : Decidable (IsLow u) := inferInstanceAs (Decidable (_ ∧ _))

/-- The units of a character. -/
def utf16Char (c : Char) : List UInt16 :=
  if c.toNat < 0x10000 then [UInt16.ofNat c.toNat]
  else [UInt16.ofNat (0xD800 + (c.toNat - 0x10000) / 0x400),
    UInt16.ofNat (0xDC00 + (c.toNat - 0x10000) % 0x400)]

/-- The units of a text. -/
def utf16 (text : List Char) : List UInt16 := text.flatMap utf16Char

/-- The character of a unit that is not in a pair. -/
def single (u : UInt16) : Char := if IsHigh u ∨ IsLow u then '?' else Char.ofNat u.toNat

/-- The character of a pair. -/
def pair (u v : UInt16) : Char :=
  Char.ofNat (0x10000 + (u.toNat - 0xD800) * 0x400 + (v.toNat - 0xDC00))

/-- The text of units. -/
def toChars : List UInt16 → List Char
  | [] => []
  | [u] => [single u]
  | u :: v :: us =>
    if IsHigh u ∧ IsLow v then pair u v :: toChars us else single u :: toChars (v :: us)

/-- Every surrogate is in a pair. -/
def Paired : List UInt16 → Prop
  | [] => True
  | [u] => ¬ (IsHigh u ∨ IsLow u)
  | u :: v :: us =>
    if IsHigh u ∧ IsLow v then Paired us else ¬ (IsHigh u ∨ IsLow u) ∧ Paired (v :: us)

/-! ## Characters -/

theorem toNat_ofNat {n : Nat} (h : n.isValidChar) : (Char.ofNat n).toNat = n := by
  rw [Char.ofNat, dif_pos h]
  rfl

theorem utf16Char_single {u : UInt16} (h : ¬ (IsHigh u ∨ IsLow u)) :
    utf16Char (single u) = [u] := by
  have hlt := u.toNat_lt
  have hvalid : u.toNat.isValidChar := by
    unfold IsHigh IsLow at h
    unfold Nat.isValidChar
    omega
  rw [single, if_neg h, utf16Char, toNat_ofNat hvalid, if_pos hlt, UInt16.ofNat_toNat]

theorem utf16Char_pair {u v : UInt16} (hu : IsHigh u) (hv : IsLow v) :
    utf16Char (pair u v) = [u, v] := by
  obtain ⟨hu1, hu2⟩ := hu
  obtain ⟨hv1, hv2⟩ := hv
  have hvalid : (0x10000 + (u.toNat - 0xD800) * 0x400 + (v.toNat - 0xDC00)).isValidChar := by
    unfold Nat.isValidChar
    omega
  have hhigh : 0xD800 + (0x10000 + (u.toNat - 0xD800) * 0x400 + (v.toNat - 0xDC00) - 0x10000) /
      0x400 = u.toNat := by omega
  have hlow : 0xDC00 + (0x10000 + (u.toNat - 0xD800) * 0x400 + (v.toNat - 0xDC00) - 0x10000) %
      0x400 = v.toNat := by omega
  rw [utf16Char, pair, toNat_ofNat hvalid, if_neg (by omega), hhigh, hlow, UInt16.ofNat_toNat,
    UInt16.ofNat_toNat]

/-- A surrogate alone is read as something else. -/
theorem utf16Char_unpaired {u : UInt16} (h : IsHigh u ∨ IsLow u) (us vs : List UInt16) :
    utf16Char (single u) ++ us ≠ u :: vs := by
  rw [single, if_pos h]
  intro heq
  have hu : (63 : UInt16) = u := (List.cons.inj heq).1
  subst hu
  revert h
  decide

/-! ## Texts -/

theorem utf16_cons (c : Char) (text : List Char) : utf16 (c :: text) = utf16Char c ++ utf16 text :=
  List.flatMap_cons

/-- **Reading units** and writing them again keeps them exactly when the surrogates are paired. -/
theorem utf16_toChars_iff (us : List UInt16) : utf16 (toChars us) = us ↔ Paired us := by
  induction us using toChars.induct with
  | case1 => exact iff_of_true rfl trivial
  | case2 u =>
    rw [toChars, utf16_cons, Paired]
    constructor
    · intro heq h
      exact utf16Char_unpaired h _ _ heq
    · intro h
      rw [utf16Char_single h]
      rfl
  | case3 u v us h ih =>
    rw [toChars, if_pos h, utf16_cons, utf16Char_pair h.1 h.2, Paired, if_pos h, ← ih]
    exact ⟨fun heq => (List.cons.inj (List.cons.inj heq).2).2, fun heq => by rw [heq]; rfl⟩
  | case4 u v us h ih =>
    rw [toChars, if_neg h, utf16_cons, Paired, if_neg h, ← ih]
    constructor
    · intro heq
      have hu : ¬ (IsHigh u ∨ IsLow u) := fun h => utf16Char_unpaired h _ _ heq
      rw [utf16Char_single hu] at heq
      exact ⟨hu, (List.cons.inj heq).2⟩
    · rintro ⟨hu, heq⟩
      rw [utf16Char_single hu, heq]
      rfl

end Utf16

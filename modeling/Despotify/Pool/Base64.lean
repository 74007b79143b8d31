import Mathlib.Data.List.Basic

/-!
# Base64

The standard encoding with padding, and the decoder that takes whole groups of four
characters apart by an index function.

* `groups_encode`: a decoder that reads the padding as 0 gives the bytes, and a zero for each
  character of padding.
-/

namespace Base64

/-- The character of a number below 64. -/
def digit (n : Nat) : UInt8 :=
  if n < 26 then UInt8.ofNat (65 + n)
  else if n < 52 then UInt8.ofNat (71 + n)
  else if n < 62 then UInt8.ofNat (n - 4)
  else if n = 62 then 43
  else 47

def pad : UInt8 := 61

/-- The first three characters of a group, for its 24 bits. -/
def leading (n : Nat) : List UInt8 :=
  [digit (n / 262144), digit (n / 4096 % 64), digit (n / 64 % 64)]

def encode : List UInt8 → List UInt8
  | a :: b :: c :: s =>
    let n := a.toNat * 65536 + b.toNat * 256 + c.toNat
    leading n ++ [digit (n % 64)] ++ encode s
  | [a, b] => leading (a.toNat * 65536 + b.toNat * 256) ++ [pad]
  | [a] => (leading (a.toNat * 65536)).take 2 ++ [pad, pad]
  | [] => []

theorem length_encode (s : List UInt8) : (encode s).length = 4 * ((s.length + 2) / 3) := by
  induction s using encode.induct with
  | case1 a b c s ih =>
    rw [encode, List.length_append, ih]
    simp only [leading, List.length_append, List.length_cons, List.length_nil]
    omega
  | case2 | case3 | case4 => simp [encode, leading]

/-- The 24 bits of four characters as three bytes. -/
def bytes (q : Nat) : List UInt8 := [UInt8.ofNat (q / 65536), UInt8.ofNat (q / 256), UInt8.ofNat q]

/-- Whole groups, by the number of each character. -/
def groups (idx : UInt8 → Nat) : List UInt8 → List UInt8
  | a :: b :: c :: d :: input =>
    bytes (((idx a * 64 + idx b) * 64 + idx c) * 64 + idx d) ++ groups idx input
  | _ => []

theorem bytes_eq (a b c : UInt8) :
    bytes (a.toNat * 65536 + b.toNat * 256 + c.toNat) = [a, b, c] := by
  have ha := a.toNat_lt
  have hb := b.toNat_lt
  have hc := c.toNat_lt
  have h₁ : (a.toNat * 65536 + b.toNat * 256 + c.toNat) / 65536 = a.toNat := by omega
  have h₂ : ((a.toNat * 65536 + b.toNat * 256 + c.toNat) / 256) % 256 = b.toNat := by omega
  have h₃ : (a.toNat * 65536 + b.toNat * 256 + c.toNat) % 256 = c.toNat := by omega
  rw [bytes, h₁, ← UInt8.ofNat_mod_size (x := _ / 256), ← UInt8.ofNat_mod_size (x := _ + _)]
  show [_, UInt8.ofNat (_ % 256), UInt8.ofNat (_ % 256)] = _
  rw [h₂, h₃, UInt8.ofNat_toNat, UInt8.ofNat_toNat, UInt8.ofNat_toNat]

section
variable {idx : UInt8 → Nat} (hidx : ∀ n < 64, idx (digit n) = n) (hpad : idx pad = 0)
include hidx hpad

/-- **Decoding an encoding**: the bytes, and zeros up to a whole number of groups. -/
theorem groups_encode (s : List UInt8) :
    groups idx (encode s) = s ++ List.replicate (3 * ((s.length + 2) / 3) - s.length) 0 := by
  have hlead : ∀ n < 16777216, idx (digit (n / 262144)) = n / 262144 ∧
      idx (digit (n / 4096 % 64)) = n / 4096 % 64 ∧ idx (digit (n / 64 % 64)) = n / 64 % 64 ∧
      idx (digit (n % 64)) = n % 64 := by
    intro n hn
    refine ⟨hidx _ ?_, hidx _ ?_, hidx _ ?_, hidx _ ?_⟩ <;> omega
  induction s using encode.induct with
  | case1 a b c s ih =>
    have ha := a.toNat_lt
    have hb := b.toNat_lt
    have hc := c.toNat_lt
    obtain ⟨n, hn⟩ : ∃ n, n = a.toNat * 65536 + b.toNat * 256 + c.toNat := ⟨_, rfl⟩
    obtain ⟨h₁, h₂, h₃, h₄⟩ := hlead n (by omega)
    have hq : ((n / 262144 * 64 + n / 4096 % 64) * 64 + n / 64 % 64) * 64 + n % 64 = n := by omega
    have hlen : 3 * ((s.length + 1 + 1 + 1 + 2) / 3) - (s.length + 1 + 1 + 1) =
        3 * ((s.length + 2) / 3) - s.length := by omega
    rw [encode, ← hn]
    show bytes (((idx _ * 64 + idx _) * 64 + idx _) * 64 + idx _) ++ groups idx (encode s) = _
    rw [h₁, h₂, h₃, h₄, hq, hn, bytes_eq, ih]
    simp only [List.length_cons, hlen, List.cons_append, List.nil_append]
  | case2 a b =>
    have ha := a.toNat_lt
    have hb := b.toNat_lt
    obtain ⟨n, hn⟩ : ∃ n, n = a.toNat * 65536 + b.toNat * 256 := ⟨_, rfl⟩
    obtain ⟨h₁, h₂, h₃, -⟩ := hlead n (by omega)
    have hq : ((n / 262144 * 64 + n / 4096 % 64) * 64 + n / 64 % 64) * 64 + 0 =
        a.toNat * 65536 + b.toNat * 256 + (0 : UInt8).toNat := by
      show _ = _ + 0
      omega
    rw [encode, ← hn]
    show bytes (((idx _ * 64 + idx _) * 64 + idx _) * 64 + idx pad) ++ [] = _
    rw [h₁, h₂, h₃, hpad, hq, bytes_eq]
    simp
  | case3 a =>
    have ha := a.toNat_lt
    obtain ⟨n, hn⟩ : ∃ n, n = a.toNat * 65536 := ⟨_, rfl⟩
    obtain ⟨h₁, h₂, -, -⟩ := hlead n (by omega)
    have hq : ((n / 262144 * 64 + n / 4096 % 64) * 64 + 0) * 64 + 0 =
        a.toNat * 65536 + (0 : UInt8).toNat * 256 + (0 : UInt8).toNat := by
      show _ = _ + 0 * 256 + 0
      omega
    rw [encode, ← hn]
    show bytes (((idx _ * 64 + idx _) * 64 + idx pad) * 64 + idx pad) ++ [] = _
    rw [h₁, h₂, hpad, hq, bytes_eq]
    simp [List.replicate_succ]
  | case4 => rfl

end

end Base64

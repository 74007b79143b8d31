import Mathlib.Data.List.Basic

/-!
# Network byte order

The two and four byte big-endian fields that `htons`, `htonl`,
`buf_append_u16` and `ntohs` write and read.
-/

namespace Despotify

/-- The two bytes of `htons (n)`, as `buf_append_u16` appends them. -/
def htons (n : Nat) : List UInt8 := [UInt8.ofNat (n / 256), UInt8.ofNat n]

/-- The four bytes of `htonl (w)`. -/
def htonl (w : UInt32) : List UInt8 :=
  [(w >>> 24).toUInt8, (w >>> 16).toUInt8, (w >>> 8).toUInt8, w.toUInt8]

/-- `ntohs` of the two bytes as they lie in the buffer. -/
def ntohs (a b : UInt8) : Nat := a.toNat * 256 + b.toNat

@[simp] theorem length_htons (n : Nat) : (htons n).length = 2 := rfl

@[simp] theorem length_htonl (w : UInt32) : (htonl w).length = 4 := rfl

theorem ntohs_lt (a b : UInt8) : ntohs a b < 65536 := by
  have ha := a.toNat_lt
  have hb := b.toNat_lt
  unfold ntohs
  omega

/-- What is written is read back modulo `2 ^ 16`. -/
theorem ntohs_htons (n : Nat) :
    ntohs (UInt8.ofNat (n / 256)) (UInt8.ofNat n) = n % 65536 := by
  simp only [ntohs, UInt8.toNat_ofNat']
  omega

theorem htons_ntohs (a b : UInt8) : htons (ntohs a b) = [a, b] := by
  have hb := b.toNat_lt
  have h : (a.toNat * 256 + b.toNat) / 256 = a.toNat := by omega
  have h' : UInt8.ofNat (a.toNat * 256 + b.toNat) = b := by
    rw [← UInt8.toNat_inj, UInt8.toNat_ofNat']
    omega
  simp [htons, ntohs, h, h']

end Despotify

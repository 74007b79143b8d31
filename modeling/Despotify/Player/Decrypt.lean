import Despotify.Player.Model

/-!
# Decryption of a substream

The server sends every 1024 bytes of a file as four interleaved runs of 256,
encrypted in counter mode.  `decryptBlocks`, started at a multiple of 1024 with
the counter for that place, puts the bytes back in file order, each xored with
the keystream byte of its own file offset (`decryptBlocks_wire`).

* `leBytes`, `incLast_leBytes`: the carry loop adds one.
* `ivAt`: `IV0 + n` as 16 bytes; `incIV_ivAt`.
* `plainCell`: the byte of a track at a file offset, decrypted as it should be.
-/

namespace Despotify.Player

variable {A : Type}

/-! ## The counter -/

/-- `n` as `k` bytes, the least first. -/
def leBytes : Nat → Nat → List UInt8
  | 0, _ => []
  | k + 1, n => UInt8.ofNat n :: leBytes k (n / 256)

theorem incLast_leBytes (k n : Nat) : incLast (leBytes k n) = leBytes k (n + 1) := by
  induction k generalizing n with
  | zero => rfl
  | succ k ih =>
    have hadd : UInt8.ofNat n + 1 = UInt8.ofNat (n + 1) := by
      rw [← UInt8.toNat_inj, UInt8.toNat_add, UInt8.toNat_ofNat', UInt8.toNat_ofNat']
      change (n % 256 + 1) % 256 = (n + 1) % 256
      omega
    have hzero : UInt8.ofNat (n + 1) = 0 ↔ (n + 1) % 256 = 0 := by
      rw [← UInt8.toNat_inj, UInt8.toNat_ofNat']
      rfl
    simp only [leBytes, incLast]
    rw [hadd]
    by_cases h : (n + 1) % 256 = 0
    · have hdiv : (n + 1) / 256 = n / 256 + 1 := by omega
      rw [if_neg (not_not.mpr (hzero.mpr h)), ih, hdiv, hzero.mpr h]
    · have hdiv : (n + 1) / 256 = n / 256 := by omega
      rw [if_pos (fun h0 => h (hzero.mp h0)), hdiv]

/-- `IV0 + n`, modulo `2 ^ 128`. -/
def ivAt (n : Nat) : List UInt8 :=
  (leBytes 16 (0x72e067fbddcbcf77ebe8bc643f630d93 + n)).reverse

theorem ivAt_zero : ivAt 0 = IV0 := by decide

theorem incIV_ivAt (n : Nat) : incIV (ivAt n) = ivAt (n + 1) := by
  unfold incIV ivAt
  rw [List.reverse_reverse, incLast_leBytes, Nat.add_assoc]

/-! ## Blocks -/

section

variable {α : Type}

theorem take_map_range (g : Nat → α) (a b : Nat) :
    ((List.range (a + b)).map g).take a = (List.range a).map g := by
  rw [List.range_add, List.map_append, List.take_left' (by simp)]

theorem drop_map_range (g : Nat → α) (a b : Nat) :
    ((List.range (a + b)).map g).drop a = (List.range b).map fun k => g (a + k) := by
  rw [List.range_add, List.map_append, List.drop_left' (by simp), List.map_map]
  rfl

theorem append_map_range (g : Nat → α) (a b : Nat) :
    (List.range (a + b)).map g =
      (List.range a).map g ++ (List.range b).map fun k => g (a + k) := by
  rw [List.range_add, List.map_append, List.map_map]
  rfl

theorem flatMap_four (h : Nat → α) (n : Nat) :
    ((List.range n).flatMap fun i => [h (4 * i), h (4 * i + 1), h (4 * i + 2), h (4 * i + 3)]) =
      (List.range (4 * n)).map h := by
  induction n with
  | zero => rfl
  | succ n ih =>
    rw [List.range_succ, List.flatMap_append, ih, Nat.mul_succ, append_map_range]
    rfl

theorem deinterleave_map_range [Inhabited α] (g : Nat → α) :
    deinterleave ((List.range 1024).map g) =
      (List.range 1024).map fun k => g (256 * (k % 4) + k / 4) := by
  have hget : ∀ q < 1024, ((List.range 1024).map g).getD q default = g q := by
    intro q hq
    rw [List.getD_eq_getElem?_getD, List.getElem?_map, List.getElem?_range hq]
    rfl
  refine Eq.trans ?_ (flatMap_four (fun k => g (256 * (k % 4) + k / 4)) 256)
  unfold deinterleave
  refine List.flatMap_congr fun i hi => ?_
  have hi := List.mem_range.mp hi
  rw [hget i (by omega), hget (256 + i) (by omega), hget (2 * 256 + i) (by omega),
    hget (3 * 256 + i) (by omega)]
  have h0 : 256 * (4 * i % 4) + 4 * i / 4 = i := by omega
  have h1 : 256 * ((4 * i + 1) % 4) + (4 * i + 1) / 4 = 256 + i := by omega
  have h2 : 256 * ((4 * i + 2) % 4) + (4 * i + 2) / 4 = 2 * 256 + i := by omega
  have h3 : 256 * ((4 * i + 3) % 4) + (4 * i + 3) / 4 = 3 * 256 + i := by omega
  rw [h0, h1, h2, h3]

end

/-- A cell xored with byte `k` of the keystream from counter `i` on. -/
def xorAt (env : Env A) (st : A) (i k : Nat) (c : Cell) : Cell :=
  { c with byte := c.byte ^^^ env.encrypt st (ivAt (i + k / 16)) (k % 16) }

theorem decryptUnits_map_range (env : Env A) (st : A) (n i : Nat) (g : Nat → Cell) :
    decryptUnits env st n (ivAt i) ((List.range (16 * n)).map g) =
      ((List.range (16 * n)).map fun k => xorAt env st i k (g k), ivAt (i + n)) := by
  induction n generalizing i g with
  | zero => rfl
  | succ n ih =>
    have hlen : 16 * (n + 1) = 16 + 16 * n := by omega
    simp only [decryptUnits]
    rw [hlen, take_map_range, drop_map_range, incIV_ivAt, ih, append_map_range]
    refine Prod.ext ?_ ?_
    · refine congrArg₂ (· ++ ·) ?_ ?_
      · refine List.ext_getElem (by simp) fun k hk _ => ?_
        have hk : k < 16 := by simpa using hk
        simp only [List.getElem_mapIdx, List.getElem_map, List.getElem_range, xorAt]
        rw [Nat.div_eq_of_lt hk, Nat.mod_eq_of_lt hk, Nat.add_zero]
      · refine List.map_congr_left fun k _ => ?_
        have hdiv : i + 1 + k / 16 = i + (16 + k) / 16 := by omega
        have hmod : k % 16 = (16 + k) % 16 := by omega
        simp only [xorAt]
        rw [hdiv, hmod]
    · change ivAt (i + 1 + n) = ivAt (i + (n + 1))
      rw [Nat.add_assoc, Nat.add_comm 1 n]

/-- The byte of track `t` at file offset `f`, decrypted with the key schedule
`st` and the counter for `f`. -/
def decryptedCell (env : Env A) (st : A) (t : Track) (f : Nat) : Cell :=
  ⟨some (t, f), env.cipher t f ^^^ env.encrypt st (ivAt (f / 16)) (f % 16)⟩

/-- Where in its 1024 bytes the server sends byte `k`. -/
theorem wireCell_interleaved (env : Env A) (t : Track) {base k : Nat} (hbase : base % 1024 = 0)
    (hk : k < 1024) :
    wireCell env t (base + (256 * (k % 4) + k / 4)) =
      ⟨some (t, base + k), env.cipher t (base + k)⟩ := by
  have hblock : (base + (256 * (k % 4) + k / 4)) / 1024 = base / 1024 := by omega
  have hrun : (base + (256 * (k % 4) + k / 4)) % 256 = k / 4 := by omega
  have hmod : (base + (256 * (k % 4) + k / 4)) % 1024 = 256 * (k % 4) + k / 4 := by omega
  have hwhich : (256 * (k % 4) + k / 4) / 256 = k % 4 := by omega
  have hf : 1024 * (base / 1024) + 4 * (k / 4) + k % 4 = base + k := by omega
  unfold wireCell
  rw [hblock, hrun, hmod, hwhich, hf]

theorem decryptBlocks_wire (env : Env A) (st : A) (t : Track) (n : Nat) {base : Nat}
    (hbase : base % 1024 = 0) :
    decryptBlocks env st n (ivAt (base / 16))
        ((List.range (1024 * n)).map fun k => wireCell env t (base + k)) =
      ((List.range (1024 * n)).map fun k => decryptedCell env st t (base + k),
        ivAt ((base + 1024 * n) / 16)) := by
  induction n generalizing base with
  | zero => rfl
  | succ n ih =>
    have hlen : 1024 * (n + 1) = 1024 + 1024 * n := by omega
    have hunits : (1024 : Nat) = 16 * 64 := rfl
    have hnext : base / 16 + 64 = (base + 1024) / 16 := by omega
    have ih := @ih (base + 1024) (by omega)
    simp only [decryptBlocks]
    rw [hlen, take_map_range, drop_map_range, deinterleave_map_range, hunits,
      decryptUnits_map_range, ← hunits, hnext]
    simp only [← Nat.add_assoc]
    rw [ih]
    refine Prod.ext ?_ rfl
    rw [append_map_range]
    refine congrArg₂ (· ++ ·) ?_ ?_
    · refine List.map_congr_left fun k hk => ?_
      have hk := List.mem_range.mp hk
      have hdiv : base / 16 + k / 16 = (base + k) / 16 := by omega
      have hmod : k % 16 = (base + k) % 16 := by omega
      simp only [xorAt, decryptedCell]
      rw [hdiv, hmod, Nat.add_assoc, wireCell_interleaved env t hbase hk]
    · refine List.map_congr_left fun k _ => ?_
      rw [Nat.add_assoc]

end Despotify.Player

import Despotify.Wire.Rijndael

/-!
# The key schedules of `lib/aes.c`

`rijndaelKeySetupEnc` and `rijndaelKeySetupDec`, and with them the whole cipher.

* `keySetupEnc_eq`: the words of the schedule, for all three sizes of a key.
* `rijndaelEncrypt_eq`: a block is encrypted as FIPS 197 has it.
* `rijndaelDecrypt_rijndaelEncrypt`: and decrypted again.
-/

namespace Despotify.Rijndael

open Fips197 (Col State sbox invSbox encrypts decrypts schedule roundKey keyWords expanded temp)
open Word32 (word)

/-! ## A word of the schedule -/

theorem rcon_word : ∀ i, i < 10 → rcon.getD i 0 = (Fips197.rcon i).word := by
  decide +kernel

theorem unrotated_word (c : Col) : unrotated c.word = (c.map sbox).word :=
  masked_word holds_te4 c c c c

/-- The bytes are looked up where `RotWord` puts them. -/
theorem rotated_word (c : Col) {i : Nat} (hi : i < 10) :
    rotated c.word (rcon.getD i 0) = ((c.rot.map sbox).add (Fips197.rcon i)).word := by
  have hentry : ∀ i j : UInt32, i.toNat = j.toNat → entry te4 i = entry te4 j := by
    intro i j h
    rw [entry, entry, h]
  have h0 := hentry _ (c.rot.word >>> 24) ((index_word c.b0 c.b1 c.b2 c.b3).2.1.trans
    (index_word c.b1 c.b2 c.b3 c.b0).1.symm)
  have h1 := hentry _ ((c.rot.word >>> 16) &&& 0xff) ((index_word c.b0 c.b1 c.b2 c.b3).2.2.1.trans
    (index_word c.b1 c.b2 c.b3 c.b0).2.1.symm)
  have h2 := hentry _ ((c.rot.word >>> 8) &&& 0xff) ((index_word c.b0 c.b1 c.b2 c.b3).2.2.2.trans
    (index_word c.b1 c.b2 c.b3 c.b0).2.2.1.symm)
  have h3 := hentry _ (c.rot.word &&& 0xff) ((index_word c.b0 c.b1 c.b2 c.b3).1.trans
    (index_word c.b1 c.b2 c.b3 c.b0).2.2.2.symm)
  rw [rcon_word i hi, ← add_word, ← masked_word holds_te4 c.rot c.rot c.rot c.rot]
  unfold rotated masked
  rw [← h0, ← h1, ← h2, ← h3]
  rfl

/-- What `K` obeys, as far as the word `n`: the recurrence of the schedule, in words. -/
structure Recurs (nk n : Nat) (K : Nat → UInt32) : Prop where
  first : ∀ i, i < 10 → nk * (i + 1) < n →
    K (nk * (i + 1)) = K (nk * i) ^^^ rotated (K (nk * i + (nk - 1))) (rcon.getD i 0)
  fourth : ∀ i, 6 < nk → nk * (i + 1) + 4 < n →
    K (nk * (i + 1) + 4) = K (nk * i + 4) ^^^ unrotated (K (nk * (i + 1) + 3))
  other : ∀ i r, 0 < r → r < nk → (6 < nk → r ≠ 4) → nk * (i + 1) + r < n →
    K (nk * (i + 1) + r) = K (nk * i + r) ^^^ K (nk * (i + 1) + (r - 1))

/-- The words of the schedule of a key. -/
def scheduleWord (w : List Col) (n : Nat) : UInt32 := (w.getD n default).word

theorem recurs {nk k : Nat} {key : List Col} (hkey : key.length = nk) (hnk : 1 < nk) :
    Recurs nk (nk + k) (scheduleWord (expanded nk key k)) where
  first i hi hn := by
    have hstep := Fips197.expanded_step hkey (by omega) (Nat.le_mul_of_pos_right nk i.succ_pos) hn
    have hmul : nk * (i + 1) = nk * i + nk := Nat.mul_succ nk i
    have htemp : ∀ c, temp nk (nk * (i + 1)) c = (c.rot.map sbox).add (Fips197.rcon i) := by
      intro c
      rw [temp, if_pos (Nat.mul_mod_right nk _), Nat.mul_div_cancel_left _ (by omega),
        Nat.add_sub_cancel]
    rw [scheduleWord, hstep, htemp, ← add_word, ← rotated_word _ hi,
      show nk * (i + 1) - nk = nk * i by omega,
      show nk * (i + 1) - 1 = nk * i + (nk - 1) by omega]
    rfl
  fourth i hbig hn := by
    have hmul : nk * (i + 1) = nk * i + nk := Nat.mul_succ nk i
    have hstep := Fips197.expanded_step hkey (by omega) (i := nk * (i + 1) + 4) (by omega) hn
    have hmod : (nk * (i + 1) + 4) % nk = 4 := by
      rw [Nat.mul_add_mod, Nat.mod_eq_of_lt (by omega)]
    have htemp : ∀ c, temp nk (nk * (i + 1) + 4) c = c.map sbox := by
      intro c
      rw [temp, if_neg (by omega), if_pos ⟨hbig, hmod⟩]
    rw [scheduleWord, hstep, htemp, ← add_word, ← unrotated_word,
      show nk * (i + 1) + 4 - nk = nk * i + 4 by omega]
    rfl
  other i r h0 hr h4 hn := by
    have hmul : nk * (i + 1) = nk * i + nk := Nat.mul_succ nk i
    have hstep := Fips197.expanded_step hkey (by omega) (i := nk * (i + 1) + r) (by omega) hn
    have hmod : (nk * (i + 1) + r) % nk = r := by
      rw [Nat.mul_add_mod, Nat.mod_eq_of_lt hr]
    have htemp : ∀ c, temp nk (nk * (i + 1) + r) c = c := by
      intro c
      rw [temp, if_neg (by omega), if_neg (by omega)]
    rw [scheduleWord, hstep, htemp, ← add_word,
      show nk * (i + 1) + r - nk = nk * i + r by omega,
      show nk * (i + 1) + r - 1 = nk * (i + 1) + (r - 1) by omega]
    rfl

/-! ## Expanding a key -/

section
variable {K : Nat → UInt32}

/-- The words in front of `n`. -/
def front (K : Nat → UInt32) (n : Nat) : List UInt32 := (List.range n).map K

theorem front_getD {n m : Nat} (h : m < n) : (front K n).getD m 0 = K m := by
  rw [front, List.getD_eq_getElem _ _ (by simpa using h), List.getElem_map, List.getElem_range]

theorem front_succ (n : Nat) : front K (n + 1) = front K n ++ [K n] := by
  rw [front, List.range_succ, List.map_append]
  rfl

theorem front_four (n : Nat) :
    front K (n + 4) = front K n ++ [K n, K (n + 1), K (n + 2), K (n + 3)] := by
  rw [front_succ, front_succ, front_succ, front_succ]
  simp only [List.append_assoc, List.cons_append, List.nil_append]

theorem expand128_eq (h : Recurs 4 44 K) {i : Nat} (hi : i < 10) :
    expand128 (front K (4 * (i + 1))) i = front K (4 * (i + 2)) := by
  have h0 : K (4 * (i + 1)) =
      K (4 * i) ^^^ rotated (K (4 * i + 3)) (rcon.getD i 0) := h.first i hi (by omega)
  have h1 : K (4 * (i + 1) + 1) = K (4 * i + 1) ^^^ K (4 * (i + 1)) :=
    h.other i 1 (by omega) (by omega) (by omega) (by omega)
  have h2 : K (4 * (i + 1) + 2) = K (4 * i + 2) ^^^ K (4 * (i + 1) + 1) :=
    h.other i 2 (by omega) (by omega) (by omega) (by omega)
  have h3 : K (4 * (i + 1) + 3) = K (4 * i + 3) ^^^ K (4 * (i + 1) + 2) :=
    h.other i 3 (by omega) (by omega) (by omega) (by omega)
  unfold expand128
  dsimp only
  simp (disch := omega) only [front_getD]
  rw [← h0, ← h1, ← h2, ← h3, show 4 * (i + 2) = 4 * (i + 1) + 4 by omega, front_four]

theorem expand192_eq (h : Recurs 6 52 K) {i : Nat} (hi : i < 8) :
    expand192 (front K (6 * (i + 1))) i =
      front K (if i + 1 = 8 then 52 else 6 * (i + 2)) := by
  have h0 : K (6 * (i + 1)) =
      K (6 * i) ^^^ rotated (K (6 * i + 5)) (rcon.getD i 0) := h.first i (by omega) (by omega)
  have h1 : K (6 * (i + 1) + 1) = K (6 * i + 1) ^^^ K (6 * (i + 1)) :=
    h.other i 1 (by omega) (by omega) (by omega) (by omega)
  have h2 : K (6 * (i + 1) + 2) = K (6 * i + 2) ^^^ K (6 * (i + 1) + 1) :=
    h.other i 2 (by omega) (by omega) (by omega) (by omega)
  have h3 : K (6 * (i + 1) + 3) = K (6 * i + 3) ^^^ K (6 * (i + 1) + 2) :=
    h.other i 3 (by omega) (by omega) (by omega) (by omega)
  unfold expand192
  dsimp only
  simp (disch := omega) only [front_getD]
  rw [← h0, ← h1, ← h2, ← h3]
  split
  next hlast => rw [show 52 = 6 * (i + 1) + 4 by omega, front_four]
  next hlast =>
    have h4 : K (6 * (i + 1) + 4) = K (6 * i + 4) ^^^ K (6 * (i + 1) + 3) :=
      h.other i 4 (by omega) (by omega) (by omega) (by omega)
    have h5 : K (6 * (i + 1) + 5) = K (6 * i + 5) ^^^ K (6 * (i + 1) + 4) :=
      h.other i 5 (by omega) (by omega) (by omega) (by omega)
    rw [← h4, ← h5, show 6 * (i + 2) = 6 * (i + 1) + 4 + 1 + 1 by omega, front_succ, front_succ,
      front_four]
    simp only [List.append_assoc, List.cons_append, List.nil_append]

theorem expand256_eq (h : Recurs 8 60 K) {i : Nat} (hi : i < 7) :
    expand256 (front K (8 * (i + 1))) i =
      front K (if i + 1 = 7 then 60 else 8 * (i + 2)) := by
  have h0 : K (8 * (i + 1)) =
      K (8 * i) ^^^ rotated (K (8 * i + 7)) (rcon.getD i 0) := h.first i (by omega) (by omega)
  have h1 : K (8 * (i + 1) + 1) = K (8 * i + 1) ^^^ K (8 * (i + 1)) :=
    h.other i 1 (by omega) (by omega) (by omega) (by omega)
  have h2 : K (8 * (i + 1) + 2) = K (8 * i + 2) ^^^ K (8 * (i + 1) + 1) :=
    h.other i 2 (by omega) (by omega) (by omega) (by omega)
  have h3 : K (8 * (i + 1) + 3) = K (8 * i + 3) ^^^ K (8 * (i + 1) + 2) :=
    h.other i 3 (by omega) (by omega) (by omega) (by omega)
  unfold expand256
  dsimp only
  simp (disch := omega) only [front_getD]
  rw [← h0, ← h1, ← h2, ← h3]
  split
  next hlast => rw [show 60 = 8 * (i + 1) + 4 by omega, front_four]
  next hlast =>
    have h4 := h.fourth i (by omega) (by omega)
    have h5 : K (8 * (i + 1) + 5) = K (8 * i + 5) ^^^ K (8 * (i + 1) + 4) :=
      h.other i 5 (by omega) (by omega) (by omega) (by omega)
    have h6 : K (8 * (i + 1) + 6) = K (8 * i + 6) ^^^ K (8 * (i + 1) + 5) :=
      h.other i 6 (by omega) (by omega) (by omega) (by omega)
    have h7 : K (8 * (i + 1) + 7) = K (8 * i + 7) ^^^ K (8 * (i + 1) + 6) :=
      h.other i 7 (by omega) (by omega) (by omega) (by omega)
    rw [← h4, ← h5, ← h6, ← h7, show 8 * (i + 2) = 8 * (i + 1) + 4 + 4 by omega, front_four,
      front_four]
    simp only [List.append_assoc, List.cons_append, List.nil_append]

/-- A loop that comes from one end to the next. -/
theorem foldl_front {f : List UInt32 → Nat → List UInt32} {ends : Nat → Nat} {n : Nat}
    (h : ∀ i, i < n → f (front K (ends i)) i = front K (ends (i + 1))) :
    (List.range n).foldl f (front K (ends 0)) = front K (ends n) := by
  induction n with
  | zero => rfl
  | succ n ih =>
    rw [List.range_succ, List.foldl_append, ih fun i hi => h i (by omega)]
    exact h n (Nat.lt_succ_self n)

end

/-! ## The schedule to encrypt with -/

/-- Four, six or eight words. -/
def KeySize (nk : Nat) : Prop := nk = 4 ∨ nk = 6 ∨ nk = 8

theorem length_keyWords (nk : Nat) (key : List UInt8) : (keyWords nk key).length = nk := by
  rw [keyWords, List.length_map, List.length_range]

theorem keyWordsRead_eq (nk k : Nat) (key : List UInt8) :
    keyWordsRead key nk = front (scheduleWord (expanded nk (keyWords nk key) k)) nk := by
  refine List.map_congr_left fun i hi => ?_
  rw [List.mem_range] at hi
  have hlength := length_keyWords nk key
  have hget : (keyWords nk key).getD i default = ⟨key.getD (4 * i) 0, key.getD (4 * i + 1) 0,
      key.getD (4 * i + 2) 0, key.getD (4 * i + 3) 0⟩ := by
    rw [List.getD_eq_getElem _ _ (by omega)]
    simp only [keyWords, List.getElem_map, List.getElem_range]
  rw [getU32_eq, scheduleWord, Fips197.expanded_key (by omega), hget, Col.word]

theorem keySetupEnc_eq {nk : Nat} (h : KeySize nk) (key : List UInt8) :
    rijndaelKeySetupEnc key (32 * nk) =
      (front (scheduleWord (schedule nk (keyWords nk key))) (4 * (nk + 7)), nk + 6) := by
  have hlength := length_keyWords nk key
  have hrecurs : 1 < nk → Recurs nk (nk + (4 * (nk + 7) - nk))
      (scheduleWord (schedule nk (keyWords nk key))) := recurs hlength
  have hread := keyWordsRead_eq nk (4 * (nk + 7) - nk) key
  rw [← schedule] at hread
  generalize scheduleWord (schedule nk (keyWords nk key)) = K at *
  obtain rfl | rfl | rfl := h
  · have hloop : (List.range 10).foldl expand128 (front K 4) = front K 44 :=
      @foldl_front K expand128 (fun i => 4 * (i + 1)) 10 fun i hi =>
        expand128_eq (hrecurs (by omega)) hi
    rw [rijndaelKeySetupEnc, if_pos rfl, hread, hloop]
  · have hloop : (List.range 8).foldl expand192 (front K 6) = front K 52 :=
      @foldl_front K expand192 (fun i => if i = 8 then 52 else 6 * (i + 1)) 8 fun i hi => by
        rw [if_neg (by omega)]
        exact expand192_eq (hrecurs (by omega)) hi
    rw [rijndaelKeySetupEnc, if_neg (by omega), if_pos rfl, hread, hloop]
  · have hloop : (List.range 7).foldl expand256 (front K 8) = front K 60 :=
      @foldl_front K expand256 (fun i => if i = 7 then 60 else 8 * (i + 1)) 7 fun i hi => by
        rw [if_neg (by omega)]
        exact expand256_eq (hrecurs (by omega)) hi
    rw [rijndaelKeySetupEnc, if_neg (by omega), if_neg (by omega), if_pos rfl, hread, hloop]

theorem scheduled_front (w : List Col) (nr : Nat) :
    Scheduled (front (scheduleWord w) (4 * (nr + 1))) nr (roundKey w) := by
  intro i hi j
  rw [front_getD (by omega)]
  fin_cases j <;> rfl

theorem encrypt_front {nk : Nat} (h : KeySize nk) (key pt : List UInt8) :
    rijndaelEncrypt (front (scheduleWord (schedule nk (keyWords nk key))) (4 * (nk + 7))) (nk + 6)
      pt = Fips197.aes nk key pt := by
  obtain ⟨n, hn⟩ : ∃ n, nk + 6 = 2 * n + 2 := by
    obtain rfl | rfl | rfl := h
    · exact ⟨4, rfl⟩
    · exact ⟨5, rfl⟩
    · exact ⟨6, rfl⟩
  have hrk := scheduled_front (schedule nk (keyWords nk key)) (nk + 6)
  rw [hn] at hrk
  rw [Fips197.aes, show nk + 5 = 2 * n + 1 by omega, hn, show nk + 7 = 2 * n + 2 + 1 by omega]
  exact crypt_eq agrees_encrypts hrk pt

/-- **A block is encrypted as FIPS 197 has it.** -/
theorem rijndaelEncrypt_eq {nk : Nat} (h : KeySize nk) (key pt : List UInt8) :
    rijndaelEncrypt (rijndaelKeySetupEnc key (32 * nk)).1 (rijndaelKeySetupEnc key (32 * nk)).2 pt =
      Fips197.aes nk key pt := by
  rw [keySetupEnc_eq h]
  exact encrypt_front h key pt

/-- Under the key 00 01 .. 0f the block 00 11 .. ff becomes 69 c4 .. 5a. -/
theorem rijndaelEncrypt_eq_fips : Fips197.aes 4
      [0x00, 0x01, 0x02, 0x03, 0x04, 0x05, 0x06, 0x07,
        0x08, 0x09, 0x0a, 0x0b, 0x0c, 0x0d, 0x0e, 0x0f]
      [0x00, 0x11, 0x22, 0x33, 0x44, 0x55, 0x66, 0x77,
        0x88, 0x99, 0xaa, 0xbb, 0xcc, 0xdd, 0xee, 0xff] =
    [0x69, 0xc4, 0xe0, 0xd8, 0x6a, 0x7b, 0x04, 0x30,
      0xd8, 0xcd, 0xb7, 0x80, 0x70, 0xb4, 0xc5, 0x5a] :=
  (rijndaelEncrypt_eq (Or.inl rfl) _ _).symm.trans (by decide +kernel)

/-! ## The schedule to decrypt with -/

section
variable {rk : List UInt32} {nr : Nat} {k : Nat → State}

theorem Scheduled.congr {k' : Nat → State} (h : Scheduled rk nr k) (hk : ∀ i, i ≤ nr → k i = k' i) :
    Scheduled rk nr k' := by
  intro i hi j
  rw [h i hi j, hk i hi]

/-- The words from `i` and those from `j` on, the first `c`, change places. -/
def swaps (rk : List UInt32) (i j : Nat) : Nat → List UInt32
  | 0 => rk
  | c + 1 => swap (swaps rk i j c) (i + c) (j + c)

theorem length_swaps (rk : List UInt32) (i j c : Nat) : (swaps rk i j c).length = rk.length := by
  induction c with
  | zero => rfl
  | succ c ih => rw [swaps, swap, List.length_set, List.length_set, ih]

theorem swap_getD {i j : Nat} (hi : i < rk.length) (hj : j < rk.length) (n : Nat) :
    (swap rk i j).getD n 0 =
      if n = j then rk.getD i 0 else if n = i then rk.getD j 0 else rk.getD n 0 := by
  unfold swap
  simp only [List.getD_eq_getElem?_getD, List.getElem?_set, List.length_set]
  split_ifs <;> first | rfl | omega

theorem swaps_getD {i j c : Nat} (hij : i + c ≤ j) (hj : j + c ≤ rk.length) (n : Nat) :
    (swaps rk i j c).getD n 0 =
      if j ≤ n ∧ n < j + c then rk.getD (n - j + i) 0
      else if i ≤ n ∧ n < i + c then rk.getD (n - i + j) 0
      else rk.getD n 0 := by
  induction c generalizing n with
  | zero => rw [swaps, if_neg (by omega), if_neg (by omega)]
  | succ c ih =>
    have hlength := length_swaps rk i j c
    rw [swaps, swap_getD (by omega) (by omega), ih (by omega) (by omega), ih (by omega) (by omega),
      ih (by omega) (by omega), if_neg (show ¬ (j ≤ i + c ∧ _) by omega),
      if_neg (show ¬ (i ≤ i + c ∧ _) by omega), if_neg (show ¬ (j ≤ j + c ∧ _) by omega),
      if_neg (show ¬ (i ≤ j + c ∧ _) by omega)]
    split_ifs <;> first | rfl | omega | exact congrArg (rk.getD · 0) (by omega)

/-- Two keys change places. -/
theorem Scheduled.swaps (h : Scheduled rk nr k) (hlength : rk.length = 4 * (nr + 1)) {a b : Nat}
    (hab : a < b) (hb : b ≤ nr) :
    Scheduled (swaps rk (4 * a) (4 * b) 4) nr
      (fun i => if i = b then k a else if i = a then k b else k i) := by
  intro i hi j
  have hj := j.isLt
  rw [swaps_getD (by omega) (by omega)]
  dsimp only
  by_cases hib : i = b
  · subst hib
    rw [if_pos (by omega), if_pos rfl, ← h a (by omega) j]
    exact congrArg (rk.getD · 0) (by omega)
  · rw [if_neg (by omega), if_neg hib]
    by_cases hia : i = a
    · subst hia
      rw [if_pos (by omega), if_pos rfl, ← h b hb j]
      exact congrArg (rk.getD · 0) (by omega)
    · rw [if_neg (by omega), if_neg hia, h i hi j]

theorem length_invertOrder (rk : List UInt32) (i j : Nat) :
    (invertOrder rk i j).length = rk.length := by
  induction hn : j - i using Nat.strong_induction_on generalizing rk i j with
  | _ n ih =>
    rw [invertOrder]
    split
    next hij =>
      dsimp only
      rw [ih _ (by omega) _ _ _ rfl]
      simp only [swap, List.length_set]
    next hij => rfl

/-- From `a` to `b` the keys come in reverse order. -/
theorem Scheduled.invertOrder (h : Scheduled rk nr k) (hlength : rk.length = 4 * (nr + 1))
    {a b : Nat} (hab : a + b = nr) :
    Scheduled (invertOrder rk (4 * a) (4 * b)) nr
      (fun i => if a ≤ i ∧ i ≤ b then k (nr - i) else k i) := by
  induction hn : b - a using Nat.strong_induction_on generalizing rk k a b with
  | _ n ih =>
    rw [Rijndael.invertOrder]
    split
    next hij =>
      have hswaps := h.swaps hlength (show a < b by omega) (by omega)
      have hrest := ih (b - 1 - (a + 1)) (by omega) hswaps
        ((length_swaps _ _ _ _).trans hlength) (show a + 1 + (b - 1) = nr by omega) rfl
      rw [show 4 * (a + 1) = 4 * a + 4 by omega, show 4 * (b - 1) = 4 * b - 4 by omega] at hrest
      refine hrest.congr fun i hi => ?_
      split_ifs <;> first | rfl | omega | exact congrArg k (by omega)
    next hij =>
      refine h.congr fun i hi => ?_
      split_ifs
      · exact congrArg k (by omega)
      · rfl

theorem unmixed_word (c : Col) : unmixed c.word = c.invMix.word := by
  have hmasked : ∀ (x : UInt32) (b : UInt8), x.toNat = b.toNat →
      (masked te4 x 0xff).toNat = (sbox b).toNat := by
    intro x b h
    rw [masked, entry, h, holds_te4.get, (word_mask ..).2.2.2, Word32.toNat_word]
    show 0 * 2 ^ 24 + 0 * 2 ^ 16 + 0 * 2 ^ 8 + (sbox b).toNat = (sbox b).toNat
    omega
  obtain ⟨h0, h1, h2, h3⟩ := index_word c.b0 c.b1 c.b2 c.b3
  rw [unmixed, entry, entry, entry, entry, Col.word, hmasked _ _ h0, hmasked _ _ h1,
    hmasked _ _ h2, hmasked _ _ h3, td_column]
  simp only [Col.map, Fips197.invSbox_sbox]

/-- The first `c` words from `o` on, each put through `f`. -/
def each (f : UInt32 → UInt32) (rk : List UInt32) (o c : Nat) : List UInt32 :=
  (List.range c).foldl (fun rk m => rk.set (o + m) (f (rk.getD (o + m) 0))) rk

theorem length_each (f : UInt32 → UInt32) (rk : List UInt32) (o c : Nat) :
    (each f rk o c).length = rk.length := by
  induction c with
  | zero => rfl
  | succ c ih =>
    rw [each, List.range_succ, List.foldl_append, ← each]
    exact List.length_set.trans ih

theorem each_getD (f : UInt32 → UInt32) {o c : Nat} (h : o + c ≤ rk.length) (n : Nat) :
    (each f rk o c).getD n 0 = if o ≤ n ∧ n < o + c then f (rk.getD n 0) else rk.getD n 0 := by
  induction c generalizing n with
  | zero => rw [each, List.range_zero, List.foldl_nil, if_neg (by omega)]
  | succ c ih =>
    have hlength := length_each f rk o c
    have hlast := ih (by omega) (o + c)
    rw [if_neg (by omega)] at hlast
    rw [each, List.range_succ, List.foldl_append, ← each, List.foldl_cons, List.foldl_nil, hlast]
    by_cases hn : n = o + c
    · subst hn
      rw [if_pos (by omega), List.getD_eq_getElem _ _ (by rw [List.length_set]; omega),
        List.getElem_set_self]
    · have hother : ((each f rk o c).set (o + c) (f (rk.getD (o + c) 0))).getD n 0 =
          (each f rk o c).getD n 0 := by
        rw [List.getD_eq_getElem?_getD, List.getElem?_set_ne (Ne.symm hn),
          ← List.getD_eq_getElem?_getD]
      rw [hother, ih (by omega)]
      exact if_congr (by omega) rfl rfl

/-- Key `i` is mixed back. -/
theorem Scheduled.unmixKey (h : Scheduled rk nr k) (hlength : rk.length = 4 * (nr + 1)) {i : Nat}
    (hi : i ≤ nr) :
    Scheduled (unmixKey rk i) nr (fun m => if m = i then (k m).map Col.invMix else k m) := by
  intro m hm j
  have hj := j.isLt
  show (each unmixed rk (4 * i) 4).getD (4 * m + j) 0 = _
  rw [each_getD _ (by omega)]
  dsimp only
  split
  next hmi =>
    rw [if_pos (by omega), h m hm j, unmixed_word]
    fin_cases j <;> rfl
  next hmi => rw [if_neg (by omega), h m hm j]

/-- And so are the keys from 1 on. -/
theorem Scheduled.unmixKeys (h : Scheduled rk nr k) (hlength : rk.length = 4 * (nr + 1)) {c : Nat}
    (hc : c ≤ nr) :
    ((List.range c).foldl (fun rk i => Rijndael.unmixKey rk (i + 1)) rk).length = 4 * (nr + 1) ∧
      Scheduled ((List.range c).foldl (fun rk i => Rijndael.unmixKey rk (i + 1)) rk) nr
        (fun m => if 1 ≤ m ∧ m ≤ c then (k m).map Col.invMix else k m) := by
  induction c with
  | zero => exact ⟨hlength, h.congr fun m hm => by rw [if_neg (by omega)]⟩
  | succ c ih =>
    obtain ⟨hlength', h'⟩ := ih (by omega)
    rw [List.range_succ, List.foldl_append, List.foldl_cons, List.foldl_nil]
    refine ⟨(length_each _ _ _ 4).trans hlength', (h'.unmixKey hlength' hc).congr fun m hm => ?_⟩
    by_cases hm : m = c + 1
    · rw [if_pos hm, if_neg (by omega), if_pos (by omega)]
    · rw [if_neg hm]
      exact if_congr (by omega) rfl rfl

end

/-- The keys to decrypt with. -/
theorem keySetupDec_scheduled {nk : Nat} (h : KeySize nk) (key : List UInt8) :
    (rijndaelKeySetupDec key (32 * nk)).2 = nk + 6 ∧
      Scheduled (rijndaelKeySetupDec key (32 * nk)).1 (nk + 6)
        (Rounds.turned decrypts.l (nk + 5) (roundKey (schedule nk (keyWords nk key)))) := by
  have hrk := scheduled_front (schedule nk (keyWords nk key)) (nk + 6)
  have hlength : (front (scheduleWord (schedule nk (keyWords nk key))) (4 * (nk + 7))).length =
      4 * (nk + 7) := by
    rw [front, List.length_map, List.length_range]
  have hturned := hrk.invertOrder hlength (show 0 + (nk + 6) = nk + 6 by omega)
  have hunmixed := hturned.unmixKeys ((length_invertOrder _ _ _).trans hlength)
    (show nk + 5 ≤ nk + 6 by omega)
  rw [rijndaelKeySetupDec, keySetupEnc_eq h]
  refine ⟨rfl, hunmixed.2.congr fun i hi => ?_⟩
  rw [if_pos (show 0 ≤ i ∧ i ≤ nk + 6 by omega), Rounds.turned,
    show nk + 5 + 1 - i = nk + 6 - i by omega]
  by_cases hinner : 1 ≤ i ∧ i ≤ nk + 5
  · rw [if_pos hinner, if_neg (by omega)]
    rfl
  · rw [if_neg hinner, if_pos (by omega)]

/-- **A block comes back.** -/
theorem rijndaelDecrypt_rijndaelEncrypt {nk : Nat} (h : KeySize nk) (key : List UInt8)
    {pt : List UInt8} (hpt : pt.length = 16) :
    rijndaelDecrypt (rijndaelKeySetupDec key (32 * nk)).1 (rijndaelKeySetupDec key (32 * nk)).2
      (rijndaelEncrypt (rijndaelKeySetupEnc key (32 * nk)).1
        (rijndaelKeySetupEnc key (32 * nk)).2 pt) = pt := by
  obtain ⟨n, hn⟩ : ∃ n, nk + 6 = 2 * n + 2 := by
    obtain rfl | rfl | rfl := h
    · exact ⟨4, rfl⟩
    · exact ⟨5, rfl⟩
    · exact ⟨6, rfl⟩
  obtain ⟨hrounds, hrk⟩ := keySetupDec_scheduled h key
  have hbytes : ∀ s : State, State.ofBytes s.bytes = s := fun _ => rfl
  rw [hn, show nk + 5 = 2 * n + 1 by omega] at hrk
  rw [keySetupEnc_eq h, encrypt_front h, hrounds, hn, Fips197.aes, show nk + 5 = 2 * n + 1 by omega]
  refine (crypt_eq agrees_decrypts hrk _).trans ?_
  rw [hbytes, Fips197.undoes.cipher_cipher, State.bytes_ofBytes hpt]

/-- A block under a key of 256 bits. -/
theorem rijndaelDecrypt_rijndaelEncrypt_256 :
    rijndaelDecrypt (rijndaelKeySetupDec (List.replicate 32 7) 256).1
      (rijndaelKeySetupDec (List.replicate 32 7) 256).2
      (rijndaelEncrypt (rijndaelKeySetupEnc (List.replicate 32 7) 256).1
        (rijndaelKeySetupEnc (List.replicate 32 7) 256).2 (List.replicate 16 9)) =
      List.replicate 16 9 :=
  @rijndaelDecrypt_rijndaelEncrypt 8 (Or.inr (Or.inr rfl)) _ _ List.length_replicate

end Despotify.Rijndael

import Despotify.Wire.Sha1
import Mathlib.Tactic.IntervalCases

/-!
# Digests, piece by piece

`SHA1Update` takes data as they come, hashes the blocks that are whole and keeps the rest in
the context; `SHA1Final` pads with `SHA1Update` itself.  `lib/hmac.c` is made of these.

* `sha1Final_eq`: the digest does not depend on the pieces, and is the one of FIPS 180.
* `sha1Hmac_eq`: `sha1_hmac` is HMAC over it.
-/

namespace Despotify.Sha1

open Fips180 (Words compress initial padding)
open Absorb (absorb left)

/-! ## `SHA1Init`, `SHA1Update` and `SHA1Final` -/

/-- A `SHA1_CTX`. -/
structure Sha1Ctx where
  state : Vector UInt32 5
  count0 : Nat
  count1 : Nat
  buffer : List UInt8

/-- The counts and the state of the start; `buffer` is left as it is. -/
def sha1Init (context : Sha1Ctx) : Sha1Ctx :=
  { context with
    state := #v[0x67452301, 0xEFCDAB89, 0x98BADCFE, 0x10325476, 0xC3D2E1F0]
    count0 := 0
    count1 := 0 }

/-- `memcpy (&dst[j], src, …)`. -/
def memcpy (dst : List UInt8) (j : Nat) (src : List UInt8) : List UInt8 :=
  dst.take j ++ src ++ dst.drop (j + src.length)

/-- The loop over the whole blocks from `data[i]` on. -/
def transforms (data : List UInt8) (i : Nat) (state : Vector UInt32 5) :
    Nat × Vector UInt32 5 :=
  if i + 63 < data.length then
    transforms data (i + 64) (sha1Transform state ((data.drop i).take 64))
  else (i, state)
termination_by data.length - i

def sha1Update (context : Sha1Ctx) (data : List UInt8) : Sha1Ctx :=
  let len := data.length
  -- The count is two words of 32 bits; the high one moves only with a carry of the low one.
  let count0 := (context.count0 + (len <<< 3) % 2 ^ 32) % 2 ^ 32
  let count1 :=
    if count0 < context.count0 then (context.count1 + ((len >>> 29) + 1)) % 2 ^ 32
    else context.count1
  let j := (context.count0 >>> 3) &&& 63
  if 63 < j + len then
    let buffer := memcpy context.buffer j (data.take (64 - j))
    let (i, state) := transforms data (64 - j) (sha1Transform context.state buffer)
    ⟨state, count0, count1, memcpy buffer 0 (data.drop i)⟩
  else ⟨context.state, count0, count1, memcpy context.buffer j data⟩

theorem count0_update (context : Sha1Ctx) (data : List UInt8) :
    (sha1Update context data).count0 =
      (context.count0 + (data.length <<< 3) % 2 ^ 32) % 2 ^ 32 := by
  rw [sha1Update]
  dsimp only
  split <;> rfl

theorem and_504 (n : Nat) : n &&& 504 = 8 * (n / 8 % 64) := by
  have hsmall : ∀ m : Fin 512, m.1 &&& 504 = 8 * (m.1 / 8) := by decide +kernel
  have hlow : n &&& 504 = n % 512 &&& 504 := by
    have hmod : n % 512 = n &&& 511 := (Nat.and_two_pow_sub_one_eq_mod n 9).symm
    rw [hmod, Nat.and_assoc]
    rfl
  rw [hlow, hsmall ⟨n % 512, Nat.mod_lt _ (by omega)⟩]
  show 8 * (n % 512 / 8) = _
  omega

/-- Zeros until eight bytes are left of the block. -/
def fill (context : Sha1Ctx) : Sha1Ctx :=
  if context.count0 &&& 504 = 448 then context
  else fill (sha1Update context [0])
termination_by (120 - context.count0 / 8 % 64) % 64
decreasing_by
  rename_i h
  rw [and_504] at h
  rw [count0_update]
  show (120 - (context.count0 + 8 % 2 ^ 32) % 2 ^ 32 / 8 % 64) % 64 < _
  omega

/-- The digest, and the context that is left. -/
def sha1Final (context : Sha1Ctx) : List UInt8 × Sha1Ctx :=
  let finalcount := (List.range 8).map fun i =>
    UInt8.ofNat
      (((if 4 ≤ i then context.count0 else context.count1) >>> ((3 - (i &&& 3)) * 8)) &&& 255)
  let context := sha1Update context [0x80]
  let context := fill context
  let context := sha1Update context finalcount
  let digest := (List.range 20).map fun i =>
    ((context.state.toList.getD (i >>> 2) 0 >>> UInt32.ofNat ((3 - (i &&& 3)) * 8)) &&&
      255).toUInt8
  (digest, context)

/-! ### What the context holds -/

/-- The context after a message. -/
structure Held (context : Sha1Ctx) (message : List UInt8) : Prop where
  state : words context.state = absorb compress 64 initial message
  size : context.buffer.length = 64
  waits : context.buffer.take (message.length % 64) = left 64 message
  lt : context.count0 < 2 ^ 32
  count : context.count0 + 2 ^ 32 * context.count1 = 8 * message.length % 2 ^ 64

theorem held_init {context : Sha1Ctx} (h : context.buffer.length = 64) :
    Held (sha1Init context) [] :=
  { state := rfl
    size := h
    waits := rfl
    lt := by
      show 0 < _
      omega
    count := rfl }

section
variable {dst src : List UInt8} {j : Nat}

theorem length_memcpy (h : j + src.length ≤ dst.length) :
    (memcpy dst j src).length = dst.length := by
  simp only [memcpy, List.length_append, List.length_take, List.length_drop]
  omega

theorem take_memcpy (h : j ≤ dst.length) :
    (memcpy dst j src).take (j + src.length) = dst.take j ++ src := by
  rw [memcpy, List.take_left']
  rw [List.length_append, List.length_take_of_le h]

end

theorem transforms_eq (data : List UInt8) (i : Nat) (state : Vector UInt32 5)
    (hi : i ≤ data.length) :
    (transforms data i state).2 = absorb sha1Transform 64 state (data.drop i) ∧
      data.drop (transforms data i state).1 = left 64 (data.drop i) := by
  induction i, state using transforms.induct data with
  | case1 i state h ih =>
    have hlen : 64 ≤ (data.drop i).length := by
      rw [List.length_drop]
      omega
    rw [transforms, if_pos h, Absorb.absorb_of_le _ (by omega) hlen,
      Absorb.left_of_le (by omega) hlen, List.drop_drop]
    exact ih (by omega)
  | case2 i state h =>
    have hlen : (data.drop i).length < 64 := by
      rw [List.length_drop]
      omega
    rw [transforms, if_neg h, Absorb.absorb_of_lt _ hlen, Absorb.left_of_lt hlen]
    exact ⟨rfl, rfl⟩

section
variable {context : Sha1Ctx} {message data : List UInt8}

theorem Held.place (h : Held context message) :
    (context.count0 >>> 3) &&& 63 = message.length % 64 := by
  have hand := Nat.and_two_pow_sub_one_eq_mod (context.count0 >>> 3) 6
  have hlt := h.lt
  have hcount := h.count
  rw [Nat.shiftRight_eq_div_pow] at hand ⊢
  refine hand.trans ?_
  omega

/-- The count of a piece shorter than 2^29 bytes. -/
theorem Held.counted (h : Held context message) (hdata : data.length < 2 ^ 29) :
    (sha1Update context data).count0 < 2 ^ 32 ∧
      (sha1Update context data).count0 + 2 ^ 32 * (sha1Update context data).count1 =
        8 * (message ++ data).length % 2 ^ 64 := by
  have hlt := h.lt
  have hcount := h.count
  have hshift : data.length <<< 3 = 8 * data.length := by
    rw [Nat.shiftLeft_eq]
    omega
  have hhigh : data.length >>> 29 = 0 := by
    rw [Nat.shiftRight_eq_div_pow]
    exact Nat.div_eq_of_lt hdata
  have hcount1 : (sha1Update context data).count1 =
      if (context.count0 + 8 * data.length % 2 ^ 32) % 2 ^ 32 < context.count0 then
        (context.count1 + 1) % 2 ^ 32
      else context.count1 := by
    rw [sha1Update, hshift, hhigh]
    dsimp only
    split <;> rfl
  rw [count0_update, hcount1, hshift, List.length_append]
  split <;> omega

/-- A piece that does not fill the block up is kept. -/
theorem Held.kept (h : Held context message) (hshort : message.length % 64 + data.length < 64) :
    (sha1Update context data).state = context.state ∧
      (sha1Update context data).buffer =
        memcpy context.buffer (message.length % 64) data := by
  rw [sha1Update]
  dsimp only
  rw [h.place, if_neg (by omega)]
  exact ⟨rfl, rfl⟩

/-- A piece that does: the block is hashed, and the whole blocks behind it. -/
theorem Held.hashed (h : Held context message) (hfull : 64 ≤ message.length % 64 + data.length) :
    let first := data.take (64 - message.length % 64)
    let later := data.drop (64 - message.length % 64)
    (sha1Update context data).state =
        absorb sha1Transform 64 (sha1Transform context.state (left 64 message ++ first)) later ∧
      (sha1Update context data).buffer = memcpy (left 64 message ++ first) 0 (left 64 later) := by
  intro first later
  have hlt : message.length % 64 < 64 := Nat.mod_lt _ (by omega)
  have hfirst : first.length = 64 - message.length % 64 := List.length_take_of_le (by omega)
  have hsize := h.size
  have hlength := @length_memcpy context.buffer first (message.length % 64) (by omega)
  have hblock : memcpy context.buffer (message.length % 64) first = left 64 message ++ first := by
    have htake := @take_memcpy context.buffer first (message.length % 64) (by omega)
    rw [h.waits] at htake
    rwa [List.take_of_length_le (by omega)] at htake
  obtain ⟨hstate, hrest⟩ := transforms_eq data (64 - message.length % 64)
    (sha1Transform context.state (left 64 message ++ first)) (by omega)
  rw [sha1Update]
  dsimp only
  rw [h.place, if_pos (by omega)]
  exact ⟨by rw [hblock]; exact hstate, by rw [hblock, hrest]⟩

/-- A piece of data: it fills up what waits, and something may wait again. -/
theorem Held.update (h : Held context message) (hdata : data.length < 2 ^ 29) :
    Held (sha1Update context data) (message ++ data) := by
  obtain ⟨hlt, hcount⟩ := h.counted hdata
  have hsize := h.size
  have hleft : (left 64 message).length = message.length % 64 := Absorb.length_left message
  have hrest : (left 64 (message ++ data)).length = (message.length + data.length) % 64 := by
    rw [Absorb.length_left, List.length_append]
  rcases Nat.lt_or_ge (message.length % 64 + data.length) 64 with hshort | hfull
  · obtain ⟨hstate, hbuffer⟩ := h.kept hshort
    have hall : (left 64 message ++ data).length < 64 := by
      rw [List.length_append]
      omega
    refine ⟨?_, ?_, ?_, hlt, hcount⟩
    · rw [hstate, h.state, Absorb.absorb_append (by omega), Absorb.absorb_of_lt _ hall]
    · rw [hbuffer, length_memcpy (by omega), hsize]
    · have hwhere : (message ++ data).length % 64 = message.length % 64 + data.length := by
        rw [List.length_append]
        omega
      rw [hbuffer, hwhere, take_memcpy (by omega), h.waits, Absorb.left_append (by omega),
        Absorb.left_of_lt hall]
  · obtain ⟨hstate, hbuffer⟩ := h.hashed hfull
    generalize hfirst : data.take (64 - message.length % 64) = first at hstate hbuffer
    generalize hlater : data.drop (64 - message.length % 64) = later at hstate hbuffer
    have hdata : data = first ++ later := by rw [← hfirst, ← hlater, List.take_append_drop]
    have hblock : (left 64 message ++ first).length = 64 := by
      rw [List.length_append, hleft, ← hfirst, List.length_take]
      omega
    have hwaits : left 64 (message ++ data) = left 64 later := by
      rw [Absorb.left_append (by omega), hdata, ← List.append_assoc,
        Absorb.left_block _ (by omega) hblock]
    have hlast : (left 64 later).length < 64 := by
      rw [Absorb.length_left]
      omega
    refine ⟨?_, ?_, ?_, hlt, hcount⟩
    · rw [hstate, Absorb.absorb_map sha1Transform_eq, sha1Transform_eq, h.state,
        Absorb.absorb_append (by omega), hdata, ← List.append_assoc,
        Absorb.absorb_block _ _ (by omega) hblock]
    · rw [hbuffer, length_memcpy (by omega), hblock]
    · have htake := @take_memcpy (left 64 message ++ first) (left 64 later) 0 (by omega)
      rw [Nat.zero_add, List.take_zero, List.nil_append] at htake
      rw [hbuffer, hwaits, List.length_append, ← hrest, hwaits, htake]

/-- Pieces one after the other. -/
theorem Held.updates (h : Held context message) {pieces : List (List UInt8)}
    (hpieces : ∀ piece ∈ pieces, piece.length < 2 ^ 29) :
    Held (pieces.foldl sha1Update context) (message ++ pieces.flatten) := by
  induction pieces generalizing context message with
  | nil =>
    rw [List.flatten_nil, List.append_nil]
    exact h
  | cons piece pieces ih =>
    rw [List.flatten_cons, ← List.append_assoc]
    exact ih (h.update (hpieces piece List.mem_cons_self)) fun p hp =>
      hpieces p (List.mem_cons_of_mem _ hp)

/-! ### The digest -/

/-- The zeros of the padding, by induction on how many are missing. -/
theorem Held.fill (h : Held context message) :
    Held (fill context)
      (message ++ List.replicate ((56 + 63 * message.length) % 64) 0) := by
  have hcount := h.count
  have hlt := h.lt
  generalize hk : (56 + 63 * message.length) % 64 = k
  induction k generalizing context message with
  | zero =>
    rw [Sha1.fill, and_504, if_pos (by omega), List.replicate_zero, List.append_nil]
    exact h
  | succ k ih =>
    have hone : Held (sha1Update context [0]) (message ++ [0]) := h.update (by decide)
    rw [Sha1.fill, and_504, if_neg (by omega)]
    have hrest := ih hone hone.count hone.lt (by
      rw [List.length_append, List.length_singleton]
      omega)
    rwa [List.append_assoc] at hrest

/-- The count is written out as the length of the message. -/
theorem Held.finalcount (h : Held context message) :
    ((List.range 8).map fun i =>
      UInt8.ofNat
        (((if 4 ≤ i then context.count0 else context.count1) >>> ((3 - (i &&& 3)) * 8)) &&&
          255)) = Octets.octets 8 (8 * message.length) := by
  have hcount := h.count
  have hlt := h.lt
  have hbyte : ∀ n k : Nat, n >>> k &&& 255 = n / 2 ^ k % 256 := by
    intro n k
    rw [Nat.shiftRight_eq_div_pow]
    exact Nat.and_two_pow_sub_one_eq_mod _ 8
  simp only [hbyte, Octets.octets_succ, Nat.div_div_eq_div_mul]
  generalize 8 * message.length = bits at hcount ⊢
  show [UInt8.ofNat (context.count1 / 16777216 % 256), UInt8.ofNat (context.count1 / 65536 % 256),
    UInt8.ofNat (context.count1 / 256 % 256), UInt8.ofNat (context.count1 / 1 % 256),
    UInt8.ofNat (context.count0 / 16777216 % 256), UInt8.ofNat (context.count0 / 65536 % 256),
    UInt8.ofNat (context.count0 / 256 % 256), UInt8.ofNat (context.count0 / 1 % 256)] =
    [UInt8.ofNat (bits / 72057594037927936 % 256), UInt8.ofNat (bits / 281474976710656 % 256),
      UInt8.ofNat (bits / 1099511627776 % 256), UInt8.ofNat (bits / 4294967296 % 256),
      UInt8.ofNat (bits / 16777216 % 256), UInt8.ofNat (bits / 65536 % 256),
      UInt8.ofNat (bits / 256 % 256), UInt8.ofNat (bits % 256)]
  simp only [List.cons.injEq, and_true]
  refine ⟨?_, ?_, ?_, ?_, ?_, ?_, ?_, ?_⟩ <;> congr 1 <;> omega

end

/-- The words are written out with the highest byte first. -/
theorem digest_eq (state : Vector UInt32 5) :
    ((List.range 20).map fun i =>
      ((state.toList.getD (i >>> 2) 0 >>> UInt32.ofNat ((3 - (i &&& 3)) * 8)) &&&
        255).toUInt8) = (words state).bytes := by
  have hlist : state.toList = [state.get a, state.get b, state.get c, state.get d, state.get e] := by
    refine List.ext_getElem ?_ fun i hi hi' => ?_
    · exact Vector.length_toList
    · rw [List.length_cons, List.length_cons, List.length_cons, List.length_cons, List.length_cons,
        List.length_nil] at hi'
      interval_cases i <;> rfl
  have hbyte : ∀ x : UInt32, (x &&& 255).toUInt8 = x.toUInt8 := by
    intro x
    rw [← UInt8.toNat_inj, UInt32.toNat_toUInt8, UInt32.toNat_toUInt8, UInt32.toNat_and]
    show (x.toNat &&& (2 ^ 8 - 1)) % 256 = _
    rw [Nat.and_two_pow_sub_one_eq_mod, Nat.mod_mod]
  have hword : ∀ w : UInt32, Word32.bytes w =
      [(w >>> 24).toUInt8, (w >>> 16).toUInt8, (w >>> 8).toUInt8, (w >>> 0).toUInt8] := by
    intro w
    rw [UInt32.shiftRight_zero]
    rfl
  simp only [hlist, hbyte, words, Words.bytes, hword]
  rfl

/-- The context after the digest has taken in the whole padded message. -/
theorem Held.final {context : Sha1Ctx} {message : List UInt8} (h : Held context message) :
    (sha1Final context).1 = Fips180.sha1 message ∧
      (sha1Final context).2.buffer.length = 64 := by
  have hone : Held (sha1Update context [0x80]) (message ++ [0x80]) := h.update (by decide)
  have hzeros : (56 + 63 * (message ++ [0x80]).length) % 64 = (55 + 63 * message.length) % 64 := by
    rw [List.length_append, List.length_singleton]
    omega
  have hfilled := hone.fill
  rw [hzeros] at hfilled
  have hcount : (Octets.octets 8 (8 * message.length)).length < 2 ^ 29 := by
    rw [Octets.length_octets]
    omega
  have hlast := hfilled.update hcount
  have hpadded : message ++ [0x80] ++ List.replicate ((55 + 63 * message.length) % 64) 0 ++
      Octets.octets 8 (8 * message.length) = message ++ padding message.length := by
    rw [padding, List.append_assoc, List.append_assoc]
    rfl
  rw [hpadded] at hlast
  rw [sha1Final, h.finalcount, Fips180.sha1, ← hlast.state]
  exact ⟨digest_eq _, hlast.size⟩

/-- **The digest of a message in pieces** is the one of FIPS 180. -/
theorem sha1Final_eq {context : Sha1Ctx} (hsize : context.buffer.length = 64)
    {pieces : List (List UInt8)} (hpieces : ∀ piece ∈ pieces, piece.length < 2 ^ 29) :
    (sha1Final (pieces.foldl sha1Update (sha1Init context))).1 =
      Fips180.sha1 pieces.flatten := by
  have hmessage := (held_init hsize).updates hpieces
  rw [List.nil_append] at hmessage
  exact hmessage.final.1

theorem sha1Final_eq_abc :
    (∀ piece ∈ [[97], [98, 99]], piece.length < 2 ^ 29) ∧
      (sha1Final ([[97], [98, 99]].foldl sha1Update
        (sha1Init ⟨Vector.replicate 5 0, 0, 0, List.replicate 64 0⟩))).1 =
        Fips180.sha1 [97, 98, 99] :=
  ⟨by decide, @sha1Final_eq ⟨Vector.replicate 5 0, 0, 0, List.replicate 64 0⟩ rfl [[97], [98, 99]]
    (by decide)⟩

/-- The first test vector of the source. -/
example : (sha1Final (sha1Update (sha1Init ⟨Vector.replicate 5 0, 0, 0, List.replicate 64 0⟩)
    [97, 98, 99])).1 = [0xA9, 0x99, 0x3E, 0x36, 0x47, 0x06, 0x81, 0x6A, 0xBA, 0x3E, 0x25, 0x71,
      0x78, 0x50, 0xC2, 0x6C, 0x9C, 0xD0, 0xD8, 0x9D] := by
  decide +kernel

/-! ## `sha1_hmac` -/

/-- `pad[i] ^= key[i]` for the length of the key. -/
def padKey (pad key : List UInt8) : List UInt8 :=
  List.zipWith (· ^^^ ·) pad key ++ pad.drop key.length

/-- The digest that is in `dst` at the end; all hashing is done in one context. -/
def sha1Hmac (ctx : Sha1Ctx) (inputkey inputmsg : List UInt8) : List UInt8 :=
  let (key, ctx) :=
    if 64 < inputkey.length then sha1Final (sha1Update (sha1Init ctx) inputkey)
    else (inputkey, ctx)
  let ipad := padKey (List.replicate 64 0x36) key
  let opad := padKey (List.replicate 64 0x5c) key
  let (dst, ctx) := sha1Final (sha1Update (sha1Update (sha1Init ctx) ipad) inputmsg)
  (sha1Final (sha1Update (sha1Update (sha1Init ctx) opad) dst)).1

theorem padKey_replicate (x : UInt8) {n : Nat} {key : List UInt8} (h : key.length ≤ n) :
    padKey (List.replicate n x) key =
      (key ++ List.replicate (n - key.length) 0).map (· ^^^ x) := by
  have hzip : List.zipWith (· ^^^ ·) (List.replicate n x) key = key.map (· ^^^ x) := by
    induction key generalizing n with
    | nil => rw [List.zipWith_nil_right, List.map_nil]
    | cons k key ih =>
      cases n with
      | zero => cases h
      | succ m =>
        rw [List.replicate_succ, List.zipWith_cons_cons, List.map_cons,
          ih (Nat.le_of_succ_le_succ h), UInt8.xor_comm]
  rw [padKey, hzip, List.map_append, List.map_replicate, UInt8.zero_xor, List.drop_replicate]

/-- A context that is started anew hashes two pieces. -/
theorem final_two {ctx : Sha1Ctx} (hsize : ctx.buffer.length = 64) {xs ys : List UInt8}
    (hxs : xs.length < 2 ^ 29) (hys : ys.length < 2 ^ 29) :
    (sha1Final (sha1Update (sha1Update (sha1Init ctx) xs) ys)).1 = Fips180.sha1 (xs ++ ys) ∧
      (sha1Final (sha1Update (sha1Update (sha1Init ctx) xs) ys)).2.buffer.length = 64 :=
  (((held_init hsize).update hxs).update hys).final

/-- **The MAC** is HMAC over the hash of FIPS 180. -/
theorem sha1Hmac_eq {ctx : Sha1Ctx} (hsize : ctx.buffer.length = 64)
    {inputkey inputmsg : List UInt8} (hkey : inputkey.length < 2 ^ 29)
    (hmsg : inputmsg.length < 2 ^ 29) :
    sha1Hmac ctx inputkey inputmsg = Fips180.hmac Fips180.sha1 64 inputkey inputmsg := by
  -- The key that is used, and the context it leaves.
  obtain ⟨key, ctx', hused, hlen, hsize', hshort⟩ : ∃ key ctx',
      (if 64 < inputkey.length then sha1Final (sha1Update (sha1Init ctx) inputkey)
        else (inputkey, ctx)) = (key, ctx') ∧
      key.length ≤ 64 ∧ ctx'.buffer.length = 64 ∧
      key = if 64 < inputkey.length then Fips180.sha1 inputkey else inputkey := by
    split
    case isTrue hlong =>
      obtain ⟨hdigest, hleft⟩ := ((held_init hsize).update hkey).final
      rw [List.nil_append] at hdigest
      have hlength : (sha1Final (sha1Update (sha1Init ctx) inputkey)).1.length ≤ 64 := by
        rw [hdigest, Fips180.length_sha1]
        omega
      exact ⟨_, _, Prod.mk.eta.symm, hlength, hleft, hdigest⟩
    case isFalse hlong => exact ⟨_, _, rfl, by omega, hsize, rfl⟩
  have hpad : ∀ x, (padKey (List.replicate 64 x) key).length = 64 := by
    intro x
    rw [padKey_replicate x hlen, List.length_map, List.length_append, List.length_replicate]
    omega
  have hblock : ∀ x, (padKey (List.replicate 64 x) key).length < 2 ^ 29 := by
    intro x
    rw [hpad]
    omega
  obtain ⟨hinner, hsize''⟩ := final_two hsize' (hblock 0x36) hmsg
  rw [sha1Hmac, hused]
  dsimp only
  generalize sha1Final (sha1Update (sha1Update (sha1Init ctx')
    (padKey (List.replicate 64 0x36) key)) inputmsg) = inner at hinner hsize''
  have hlength : inner.1.length = 20 := by rw [hinner, Fips180.length_sha1]
  rw [(final_two hsize'' (hblock 0x5c) (by omega)).1,
    hinner, padKey_replicate _ hlen, padKey_replicate _ hlen, Fips180.hmac, Fips180.hmacKey,
    ← hshort]

end Despotify.Sha1

import Despotify.Lib.Buf
import Despotify.Pool.Decoder
import Despotify.Sync.Model

/-!
# `despotify_inflate`

The library inflates a whole reply at once, into a buffer that is doubled whenever it is full.
zlib is a stepper for some format of streams; the loop is run on fuel.

* `inflateLoop_spec`: the loop ends, with all of the output if the stream is complete.
* `despotifyInflate_complete`: a complete stream, whatever follows it, is inflated as a whole;
  a truncated or corrupt one is not.
* `despotifyInflate_eq`: the same as the one function a request of the session goes through.
-/

namespace Despotify.Lib

open Decoding

section

variable {σ : Type} (Z : Stepper σ UInt8 UInt8) (mem : Nat → UInt8)

/-- The loop, which has written `offset` bytes; `none` without fuel or when the size of the
buffer overflows, and `some none` for NULL. -/
def inflateLoop : Nat → σ → List UInt8 → Buf → Nat → Option (Option Buf)
  | 0, _, _, _, _ => none
  | fuel + 1, z, nextIn, b, offset =>
    let r := Z.step z nextIn (b.size - offset)
    let availOut := b.size - offset - r.out.length
    let b := b.write offset r.out
    match r.code with
    | .ok =>
      if availOut = 0 then
        -- zlib needs more output buffer
        (b.extend mem (b.size * 2)).bind fun b' =>
          inflateLoop fuel r.state (nextIn.drop r.used) b' b.size
      else inflateLoop fuel r.state (nextIn.drop r.used) b offset
    | .streamEnd => (Buf.append mem { b with len := b.size - availOut } [0]).map some
    | .bufError | .dataError | .streamError => some none

/-- `inflateInit2` succeeds. -/
def despotifyInflate (fuel : Nat) (data : List UInt8) : Option (Option Buf) :=
  if data.length = 0 then some none
  else ((Buf.new mem).extend mem 4096).bind fun b => inflateLoop Z mem fuel Z.init data b 0

/-- The call returns, however much fuel there is beyond what it needs. -/
def InflatesTo (data : List UInt8) (res : Option Buf) : Prop :=
  ∃ n, ∀ fuel, n ≤ fuel → despotifyInflate Z mem fuel data = some res

end

variable {δ σ : Type} {D : Decoder δ UInt8 UInt8} {Z : Stepper σ UInt8 UInt8} {mem : Nat → UInt8}

/-! ## The loop -/

/-- The loop has put all of the output so far into the buffer. -/
structure Inflating (Z : Stepper σ UInt8 UInt8) (data : List UInt8) (z : σ) (nextIn : List UInt8)
    (b : Buf) (offset : Nat) : Prop where
  history : ∃ xs, History Z z xs (b.ptr.take offset) ∧ data = xs ++ nextIn
  sound : b.Sound
  len : b.len = 0
  room : offset < b.size

/-- What comes of the data. -/
def Inflated (D : Decoder δ UInt8 UInt8) (data : List UInt8) (res : Option Buf) : Prop :=
  (D.verdict data = .ended → ∃ b, res = some b ∧ b.data = D.out data ++ [0] ∧
    b.len = (D.out data).length + 1) ∧
  (D.verdict data ≠ .ended → res = none)

theorem Inflated.null {data : List UInt8} (h : D.verdict data ≠ .ended) : Inflated D data none :=
  ⟨fun hended => absurd hended h, fun _ => rfl⟩

theorem Inflated.ended {data : List UInt8} {b : Buf} (h : D.verdict data = .ended)
    (hdata : b.data = D.out data ++ [0]) (hlen : b.len = (D.out data).length + 1) :
    Inflated D data (some b) := ⟨fun _ => ⟨b, rfl, hdata, hlen⟩, fun hne => absurd h hne⟩

/-- **One round**: the loop ends, with the next round at the latest, or the buffer is full and
doubled. -/
theorem inflateLoop_step (hZ : Lawful D Z) {data : List UInt8}
    (hsize : (D.out data).length < 2 ^ 30) {z : σ} {nextIn : List UInt8} {b : Buf} {offset : Nat}
    (h : Inflating Z data z nextIn b offset) :
    (∃ res, (∀ fuel, inflateLoop Z mem (fuel + 2) z nextIn b offset = some res) ∧
      Inflated D data res) ∨
    (∃ z' nextIn' b', Inflating Z data z' nextIn' b' b.size ∧ b.size ≤ (D.out data).length ∧
      ∀ fuel, inflateLoop Z mem (fuel + 1) z nextIn b offset =
        inflateLoop Z mem fuel z' nextIn' b' b.size) := by
  obtain ⟨⟨xs, hs, hdata⟩, hsound, hlen, hroom⟩ := h
  have hroom' : 0 < b.size - offset := by omega
  have hoffset : (b.ptr.take offset).length = offset :=
    (List.length_take).trans (Nat.min_eq_left (Nat.le_of_lt hroom))
  have hgiven := hZ.given hs
  have hnext := History.step hs nextIn (b.size - offset)
  have hconforms := hZ _ _ _ hs nextIn (b.size - offset)
  have houtcome := hZ.cases hs nextIn hroom'
  have hnextGiven := hZ.given hnext
  -- what the round does, whatever comes next
  have hround : ∀ fuel, inflateLoop Z mem (fuel + 1) z nextIn b offset =
      match (Z.step z nextIn (b.size - offset)).code with
      | .ok =>
        if b.size - offset - (Z.step z nextIn (b.size - offset)).out.length = 0 then
          ((b.write offset (Z.step z nextIn (b.size - offset)).out).extend mem
              ((b.write offset (Z.step z nextIn (b.size - offset)).out).size * 2)).bind fun b' =>
            inflateLoop Z mem fuel (Z.step z nextIn (b.size - offset)).state
              (nextIn.drop (Z.step z nextIn (b.size - offset)).used) b'
              (b.write offset (Z.step z nextIn (b.size - offset)).out).size
        else inflateLoop Z mem fuel (Z.step z nextIn (b.size - offset)).state
          (nextIn.drop (Z.step z nextIn (b.size - offset)).used)
          (b.write offset (Z.step z nextIn (b.size - offset)).out) offset
      | .streamEnd => (Buf.append mem
          { b.write offset (Z.step z nextIn (b.size - offset)).out with
            len := (b.write offset (Z.step z nextIn (b.size - offset)).out).size -
              (b.size - offset - (Z.step z nextIn (b.size - offset)).out.length) } [0]).map some
      | .bufError | .dataError | .streamError => some none := fun _ => rfl
  generalize Z.step z nextIn (b.size - offset) = r at *
  have hfits : offset + r.out.length ≤ b.size := by
    have hle := hconforms.room_le
    omega
  have hwsize : (b.write offset r.out).size = b.size := Buf.size_write hfits
  have hwtake : (b.write offset r.out).ptr.take (offset + r.out.length) =
      b.ptr.take offset ++ r.out := Buf.take_write (Nat.le_of_lt hroom)
  have hwsound : (b.write offset r.out).Sound := by
    obtain ⟨k, hk, hpow⟩ := hsound.pow
    exact ⟨by rw [hwsize]; exact hsound.len_le, k, hk, hwsize.trans hpow⟩
  rw [hwsize] at hround
  cases houtcome with
  | bad hcode hverdict =>
    left
    refine ⟨none, fun fuel => ?_, .null ?_⟩
    · rw [hround, hcode]
    · rw [hdata, hverdict]
      exact nofun
  | stuck hcode _ _ hinput hverdict _ =>
    left
    refine ⟨none, fun fuel => ?_, .null ?_⟩
    · rw [hround, hcode]
    · rw [hdata, hinput, List.append_nil, hverdict]
      exact nofun
  | streamEnd hcode hverdict hout _ =>
    left
    rw [← hdata] at hverdict hout
    have hlength := congrArg List.length hout
    rw [List.length_append, hoffset] at hlength
    have hend : b.size - (b.size - offset - r.out.length) = offset + r.out.length := by omega
    have hend_sound : Buf.Sound { b.write offset r.out with len := offset + r.out.length } :=
      ⟨Nat.le_trans hfits (Nat.le_of_eq hwsize.symm), hwsound.pow⟩
    obtain ⟨b', hb', -, hb'len, hb'data⟩ := @Buf.append_some mem _ hend_sound [0] (by
      show offset + r.out.length + 1 ≤ _
      omega)
    refine ⟨some b', fun fuel => ?_, .ended hverdict ?_ ?_⟩
    · rw [hround, hcode]
      dsimp only
      rw [hend, hb']
      rfl
    · rw [hb'data, ← hout, ← hwtake]
      rfl
    · rw [hb'len, ← hlength]
      rfl
  | dry hcode hused hlt hverdict hout =>
    left
    have hdrained := hZ.drained hnext (by rw [hused, List.take_length]; exact hverdict)
      (by rw [hused, List.take_length]; exact hout) (b.size - offset)
    refine ⟨none, fun fuel => ?_, .null ?_⟩
    · have hdrop : nextIn.drop r.used = [] := by rw [hused, List.drop_length]
      rw [hround, hcode]
      dsimp only
      rw [if_neg (by omega), hdrop, inflateLoop, hwsize]
      rw [hdrained.1]
    · rw [hdata, hverdict]
      exact nofun
  | full hcode hfull =>
    right
    have hwhole : offset + r.out.length = b.size := by omega
    have hprefix : (b.ptr.take offset ++ r.out).length ≤ (D.out data).length := by
      refine Nat.le_trans hnextGiven.length_le ?_
      have hsplit : data = xs ++ nextIn.take r.used ++ nextIn.drop r.used := by
        rw [List.append_assoc, List.take_append_drop, hdata]
      rw [hsplit]
      exact (D.out_prefix _ _).length_le
    rw [List.length_append, hoffset, hwhole] at hprefix
    -- a power of two below `2 ^ 30` can be doubled
    have hdouble : b.size * 2 ≤ 2 ^ 30 := by
      obtain ⟨k, hk, hpow⟩ := hsound.pow
      have hlt : 2 ^ k < 2 ^ 30 := by omega
      have hk' : k + 1 ≤ 30 := (Nat.pow_lt_pow_iff_right (by omega)).mp hlt
      rw [hpow, ← Nat.pow_succ]
      exact Nat.pow_le_pow_right (by omega) hk'
    have hwlen : (b.write offset r.out).len = 0 := hlen
    obtain ⟨b', hb', hb'sound, hb'len, hb'room, -, -, hb'take⟩ :=
      @Buf.extend_some mem _ hwsound (b.size * 2) (by
        rw [hwlen]
        omega)
    rw [hwlen] at hb'room
    refine ⟨r.state, nextIn.drop r.used, b', ⟨⟨xs ++ nextIn.take r.used, ?_, ?_⟩, hb'sound,
      hb'len.trans hwlen, by omega⟩, hprefix, fun fuel => ?_⟩
    · rw [hb'take _ (Nat.le_of_eq hwsize.symm), ← hwhole, hwtake]
      exact hnext
    · rw [List.append_assoc, List.take_append_drop, hdata]
    · rw [hround, hcode]
      dsimp only
      rw [if_pos (by omega), hb']
      rfl

/-- **The loop** ends with the output, or with NULL. -/
theorem inflateLoop_spec (hZ : Lawful D Z) {data : List UInt8}
    (hsize : (D.out data).length < 2 ^ 30) {z : σ} {nextIn : List UInt8} {b : Buf} {offset : Nat}
    (h : Inflating Z data z nextIn b offset) :
    ∃ n res, (∀ fuel, n ≤ fuel → inflateLoop Z mem fuel z nextIn b offset = some res) ∧
      Inflated D data res := by
  -- with every buffer filled less of the output is left
  obtain ⟨m, hm⟩ : ∃ m, (D.out data).length - offset < m := ⟨_, Nat.lt_succ_self _⟩
  induction m generalizing z nextIn b offset with
  | zero => omega
  | succ m ih =>
    rcases @inflateLoop_step δ σ D Z mem hZ data hsize z nextIn b offset h with
      ⟨res, hres, hinflated⟩ | ⟨z', nextIn', b', hnext, hfull, hround⟩
    · refine ⟨2, res, fun fuel hfuel => ?_, hinflated⟩
      obtain ⟨fuel, rfl⟩ := Nat.exists_eq_add_of_le' hfuel
      exact hres fuel
    · have hroom := h.room
      obtain ⟨n, res, hn, hinflated⟩ := ih hnext (by omega)
      refine ⟨n + 1, res, fun fuel hfuel => ?_, hinflated⟩
      obtain ⟨fuel, rfl⟩ := Nat.exists_eq_add_of_le' hfuel
      rw [← Nat.add_assoc, hround]
      exact hn _ (Nat.le_add_left n fuel)

/-! ## The call -/

theorem looping_init (Z : Stepper σ UInt8 UInt8) (mem : Nat → UInt8) (data : List UInt8) :
    ∃ b, (Buf.new mem).extend mem 4096 = some b ∧ Inflating Z data Z.init data b 0 := by
  obtain ⟨b, hb, hsound, hlen, hroom, -⟩ := @Buf.extend_some mem _ Buf.sound_new 4096 (by
    show 0 + 4096 ≤ _
    omega)
  exact ⟨b, hb, ⟨[], .init, rfl⟩, hsound, hlen, by omega⟩

/-- The call returns, with what comes of the data. -/
theorem despotifyInflate_returns (hZ : Lawful D Z) (hinit : D.status D.init = .running)
    {data : List UInt8} (hsize : (D.out data).length < 2 ^ 30) :
    ∃ res, InflatesTo Z mem data res ∧ Inflated D data res := by
  by_cases hnil : data.length = 0
  · obtain rfl := List.eq_nil_of_length_eq_zero hnil
    refine ⟨none, ⟨0, fun _ _ => rfl⟩, .null ?_⟩
    show D.status D.init ≠ .ended
    rw [hinit]
    exact nofun
  · obtain ⟨b, hb, hlooping⟩ := looping_init Z mem data
    obtain ⟨n, res, hn, hinflated⟩ := inflateLoop_spec hZ hsize hlooping
    refine ⟨res, ⟨n, fun fuel hfuel => ?_⟩, hinflated⟩
    rw [despotifyInflate, if_neg hnil, hb]
    exact hn fuel hfuel

/-- **`despotify_inflate` is complete**: a stream of less than 1 GiB, whatever follows it, is
inflated as a whole and terminated; a stream that is cut off, or any data that do not come to
the end of a stream, give NULL. -/
theorem despotifyInflate_complete (hZ : Lawful D Z) (hinit : D.status D.init = .running)
    (mem : Nat → UInt8) :
    (∀ stream trailing, D.Complete stream → (D.out stream).length < 2 ^ 30 →
      ∃ b, InflatesTo Z mem (stream ++ trailing) (some b) ∧ b.data = D.out stream ++ [0] ∧
        b.len = (D.out stream).length + 1) ∧
    (∀ xs ys, D.Complete (xs ++ ys) → ys ≠ [] → (D.out (xs ++ ys)).length < 2 ^ 30 →
      InflatesTo Z mem xs none) ∧
    (∀ data, D.verdict data ≠ .ended → (D.out data).length < 2 ^ 30 →
      InflatesTo Z mem data none) := by
  have hnull : ∀ data, D.verdict data ≠ .ended → (D.out data).length < 2 ^ 30 →
      InflatesTo Z mem data none := by
    intro data hdata hsize
    obtain ⟨res, hreturns, hinflated⟩ := despotifyInflate_returns hZ hinit hsize
    rw [hinflated.2 hdata] at hreturns
    exact hreturns
  refine ⟨fun stream trailing hstream hsize => ?_, fun xs ys hstream hys hsize => ?_, hnull⟩
  · obtain ⟨hverdict, hout⟩ := hstream.append trailing
    rw [← hout] at hsize ⊢
    obtain ⟨res, hreturns, hinflated⟩ := @despotifyInflate_returns δ σ D Z mem hZ hinit _ hsize
    obtain ⟨b, rfl, hdata, hlen⟩ := hinflated.1 hverdict
    exact ⟨b, hreturns, hdata, hlen⟩
  · refine hnull xs ?_ (Nat.lt_of_le_of_lt (D.out_prefix xs ys).length_le hsize)
    rw [hstream.running hys]
    exact nofun

/-! ## In a session -/

/-- The function a session has in the place of zlib. -/
def inflated (D : Decoder δ UInt8 UInt8) (data : List UInt8) : Option (List UInt8) :=
  if D.verdict data = .ended then some (D.out data) else none

/-- What the call returns is what the requests of a session work with. -/
theorem despotifyInflate_eq (hZ : Lawful D Z) (hinit : D.status D.init = .running)
    {data : List UInt8} (hsize : (D.out data).length < 2 ^ 30) :
    ∃ res, InflatesTo Z mem data res ∧
      res.map Buf.data = Sync.despotifyInflate (inflated D) data := by
  obtain ⟨res, hreturns, hended, hnull⟩ := @despotifyInflate_returns δ σ D Z mem hZ hinit _ hsize
  refine ⟨res, hreturns, ?_⟩
  unfold Sync.despotifyInflate inflated
  by_cases hverdict : D.verdict data = .ended
  · have hne : ¬ data.length = 0 := by
      intro hnil
      obtain rfl := List.eq_nil_of_length_eq_zero hnil
      have hstart : D.verdict [] = .running := hinit
      rw [hstart] at hverdict
      cases hverdict
    obtain ⟨b, rfl, hdata, -⟩ := hended hverdict
    rw [if_neg hne, if_pos hverdict, Option.map_some, Option.map_some, hdata]
  · rw [hnull hverdict, if_neg hverdict, Option.map_none, Option.map_none, ite_self]

/-! ## Stored blocks -/

/-- Where a stream of stored blocks is. -/
inductive StoredState
  | header
  /-- LEN and NLEN, as far as they are there -/
  | length (final : Bool) (got : List UInt8)
  | copy (final : Bool) (left : Nat)
  | done
  | bad
deriving DecidableEq, Repr

/-- Behind the data of a block. -/
def StoredState.next (final : Bool) : StoredState := if final then .done else .header

def StoredState.feed : StoredState → UInt8 → StoredState × List UInt8
  | .header, b =>
    -- three bits; other types of blocks are not decoded here
    if b % 8 = 0 then (.length false [], [])
    else if b % 8 = 1 then (.length true [], [])
    else (.bad, [])
  | .length final [a, b, c], d =>
    if c = 255 - a ∧ d = 255 - b then
      (if a = 0 ∧ b = 0 then .next final else .copy final (a.toNat + 256 * b.toNat), [])
    else (.bad, [])
  | .length final got, b => (.length final (got ++ [b]), [])
  | .copy final left, b => (if left ≤ 1 then .next final else .copy final (left - 1), [b])
  | .done, _ => (.done, [])
  | .bad, _ => (.bad, [])

/-- Raw deflate streams whose blocks are all stored. -/
def storedBlocks : Decoder StoredState UInt8 UInt8 where
  init := .header
  feed := StoredState.feed
  status
    | .header | .length .. | .copy .. => .running
    | .done => .ended
    | .bad => .failed

/-- Two bytes in one block, and eight more bytes behind it. -/
theorem despotifyInflate_small :
    ∃ b, InflatesTo storedBlocks.greedy (fun _ => 0)
        ([1, 2, 0, 253, 255, 104, 105] ++ [1, 2, 3, 4, 5, 6, 7, 8]) (some b) ∧
      b.data = [104, 105, 0] ∧ b.len = 3 :=
  (despotifyInflate_complete (lawful_greedy storedBlocks) rfl fun _ => 0).1 _ _
    ⟨by decide, by decide⟩ (by decide)

end Despotify.Lib

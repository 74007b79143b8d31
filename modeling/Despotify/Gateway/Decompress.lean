import Despotify.Gateway.Header
import Despotify.Lib.Inflate

/-!
# Decompression in the gateway

`search` and `browse` inflate a reply packet by packet, each in a copy of the same loop, which
gives `inflate` at least 64 KiB of room until it leaves some of it.  A call that has nothing to
do is an error, which stops the client: the loop makes one when a packet fills the room exactly,
and the copy of `search` when a packet comes behind the end of the stream.

* `decompressLoop_spec`: what one packet comes to.
* `receive_spec`: what the packets of a reply come to.
* `delivers_iff`: when the two paths deliver what was compressed.
-/

namespace Despotify.Gateway.Zlib

open Despotify.Lib (Buf)
open Decoding

/-! ## The loop -/

/-- `DECOMPRESSCTX`; `z` is `none` after `inflateEnd`. -/
structure Ctx (σ : Type) where
  b : Buf
  z : Option σ
  totalOut : Nat
  decompressionDone : Bool

def chunkSize : Nat := 65536

/-- The values of zlib's codes. -/
def value : Code → Int
  | .ok => 0
  | .streamEnd => 1
  | .streamError => -2
  | .dataError => -3
  | .bufError => -5

section

variable {σ : Type} (Z : Stepper σ UInt8 UInt8) (mem : Nat → UInt8)

/-- The loop around `inflate`, and its last value; `none` without fuel or when the size of the
buffer overflows. -/
def decompressLoop : Nat → Ctx σ → List UInt8 → Option (Ctx σ × Code)
  | 0, _, _ => none
  | fuel + 1, ctx, nextIn =>
    (ctx.b.extend mem chunkSize).bind fun b =>
      match ctx.z with
      | none => some ({ ctx with b := b }, .streamError)
      | some z =>
        let r := Z.step z nextIn (b.size - b.len)
        let ctx :=
          { ctx with
            b := b.write b.len r.out
            z := some r.state
            totalOut := ctx.totalOut + r.out.length }
        match r.code with
        | .ok | .streamEnd =>
          let ctx := { ctx with b := { ctx.b with len := ctx.totalOut } }
          if b.size - b.len - r.out.length = 0 then decompressLoop fuel ctx (nextIn.drop r.used)
          else some (ctx, r.code)
        | .bufError | .dataError | .streamError => some (ctx, r.code)

/-- `inflateInit2`, and an empty buffer. -/
def start : Ctx σ := ⟨.new mem, some Z.init, 0, false⟩

def gwSearchResultDecompress (fuel : Nat) (ctx : Ctx σ) (data : List UInt8) :
    Option (Ctx σ × Int) :=
  (decompressLoop Z mem fuel ctx data).map fun (ctx, e) =>
    if e = .ok then (ctx, 0) else ({ ctx with z := none }, 1 - value e)

def gwBrowseResultDecompress (fuel : Nat) (ctx : Ctx σ) (data : List UInt8) :
    Option (Ctx σ × Int) :=
  if ctx.decompressionDone then some (ctx, 0)
  else
    (decompressLoop Z mem fuel ctx data).map fun (ctx, e) =>
      if e = .ok then (ctx, 0)
      else ({ ctx with z := none, decompressionDone := e = .streamEnd }, 1 - value e)

end

variable {δ σ : Type} {D : Decoder δ UInt8 UInt8} {Z : Stepper σ UInt8 UInt8} {mem : Nat → UInt8}

/-- The loop has put out `b`, and has still to read `nextIn` of the data. -/
structure Filling (Z : Stepper σ UInt8 UInt8) (data : List UInt8) (ctx : Ctx σ)
    (nextIn : List UInt8) : Prop where
  history : ∃ z xs, ctx.z = some z ∧ History Z z xs ctx.b.data ∧ data = xs ++ nextIn
  sound : ctx.b.Sound
  /-- the size is the least there can be -/
  tight : ctx.b.size < 2 * (ctx.b.len + chunkSize)
  total : ctx.totalOut = ctx.b.len

/-- How a round of the loop ends, when there is room for `size` bytes. -/
inductive Round (D : Decoder δ UInt8 UInt8) (Z : Stepper σ UInt8 UInt8) (mem : Nat → UInt8)
    (data : List UInt8) (ctx : Ctx σ) (nextIn : List UInt8) (size : Nat) : Prop
  | ended (ctx' : Ctx σ)
    (step : ∀ fuel, decompressLoop Z mem (fuel + 1) ctx nextIn = some (ctx', .streamEnd))
    (done : ctx'.decompressionDone = ctx.decompressionDone) (verdict : D.verdict data = .ended)
    (out : ctx'.b.data = D.out data) (lt : (D.out data).length < size)
  | ok (ctx' : Ctx σ)
    (step : ∀ fuel, decompressLoop Z mem (fuel + 1) ctx nextIn = some (ctx', .ok))
    (done : ctx'.decompressionDone = ctx.decompressionDone) (verdict : D.verdict data = .running)
    (out : ctx'.b.data = D.out data) (lt : (D.out data).length < size)
    (filling : Filling Z data ctx' []) (moved : ¬ (nextIn = [] ∧ ctx.b.len = (D.out data).length))
  | stalled (ctx' : Ctx σ)
    (step : ∀ fuel, decompressLoop Z mem (fuel + 1) ctx nextIn = some (ctx', .bufError))
    (done : ctx'.decompressionDone = ctx.decompressionDone) (verdict : D.verdict data = .running)
    (out : ctx'.b.data = D.out data) (nextIn_nil : nextIn = [])
    (len : ctx.b.len = (D.out data).length)
  | full (ctx' : Ctx σ) (nextIn' : List UInt8)
    (step : ∀ fuel, decompressLoop Z mem (fuel + 1) ctx nextIn =
      decompressLoop Z mem fuel ctx' nextIn')
    (done : ctx'.decompressionDone = ctx.decompressionDone) (filling : Filling Z data ctx' nextIn')
    (len : ctx'.b.len = size) (le : size ≤ (D.out data).length)
    (dry : D.verdict data = .running → (D.out data).length = size → nextIn' = [])

/-- **One round of the loop.** -/
theorem decompressLoop_round (hZ : Lawful D Z) (heager : Eager D Z) {data : List UInt8}
    (hvalid : D.verdict data ≠ .failed) {ctx : Ctx σ} {nextIn : List UInt8}
    (h : Filling Z data ctx nextIn) (hfits : ctx.b.len + chunkSize ≤ 2 ^ 30) :
    ∃ k, k ≤ 30 ∧ ctx.b.len + chunkSize ≤ 2 ^ k ∧ 2 ^ k < 2 * (ctx.b.len + chunkSize) ∧
      Round D Z mem data ctx nextIn (2 ^ k) := by
  obtain ⟨⟨z, xs, hz, hs, hdata⟩, hsound, htight, htotal⟩ := h
  obtain ⟨b, hb, hbsound, hblen, hbroom, hble, hbsize, hbtake⟩ :=
    @Buf.extend_some mem ctx.b hsound chunkSize hfits
  obtain ⟨k, hk, hpow⟩ := hbsound.pow
  have hlen : ctx.b.data.length = ctx.b.len := Buf.length_data hsound
  have hroom : 0 < b.size - b.len := by
    rw [hblen]
    unfold chunkSize at hbroom
    omega
  have hround : ∀ fuel, decompressLoop Z mem (fuel + 1) ctx nextIn =
      match (Z.step z nextIn (b.size - b.len)).code with
      | .ok | .streamEnd =>
        if b.size - b.len - (Z.step z nextIn (b.size - b.len)).out.length = 0 then
          decompressLoop Z mem fuel
            ⟨{ b.write b.len (Z.step z nextIn (b.size - b.len)).out with
                len := ctx.totalOut + (Z.step z nextIn (b.size - b.len)).out.length },
              some (Z.step z nextIn (b.size - b.len)).state,
              ctx.totalOut + (Z.step z nextIn (b.size - b.len)).out.length, ctx.decompressionDone⟩
            (nextIn.drop (Z.step z nextIn (b.size - b.len)).used)
        else some
          (⟨{ b.write b.len (Z.step z nextIn (b.size - b.len)).out with
                len := ctx.totalOut + (Z.step z nextIn (b.size - b.len)).out.length },
              some (Z.step z nextIn (b.size - b.len)).state,
              ctx.totalOut + (Z.step z nextIn (b.size - b.len)).out.length, ctx.decompressionDone⟩,
            (Z.step z nextIn (b.size - b.len)).code)
      | .bufError | .dataError | .streamError => some
          (⟨b.write b.len (Z.step z nextIn (b.size - b.len)).out,
              some (Z.step z nextIn (b.size - b.len)).state,
              ctx.totalOut + (Z.step z nextIn (b.size - b.len)).out.length, ctx.decompressionDone⟩,
            (Z.step z nextIn (b.size - b.len)).code) := by
    intro fuel
    rw [decompressLoop, hb, Option.bind_some, hz]
  have hnext := History.step hs nextIn (b.size - b.len)
  have hconforms := hZ _ _ _ hs nextIn (b.size - b.len)
  have houtcome := hZ.cases hs nextIn hroom
  have hgiven := hZ.given hnext
  have htook := heager _ _ _ hs nextIn (b.size - b.len)
  generalize Z.step z nextIn (b.size - b.len) = r at *
  have hfit : b.len + r.out.length ≤ b.size := by
    have hle := hconforms.room_le
    omega
  have hwtake : (b.write b.len r.out).ptr.take (b.len + r.out.length) = ctx.b.data ++ r.out := by
    rw [Buf.take_write hbsound.len_le, hblen, hbtake _ hsound.len_le]
    rfl
  have hwsize : (b.write b.len r.out).size = 2 ^ k := (Buf.size_write hfit).trans hpow
  have htotal' : ctx.totalOut + r.out.length = b.len + r.out.length := by rw [htotal, hblen]
  rw [htotal'] at hround
  -- the context after the call
  generalize hctx : (⟨{ b.write b.len r.out with len := b.len + r.out.length }, some r.state,
    b.len + r.out.length, ctx.decompressionDone⟩ : Ctx σ) = ctx' at hround
  have hctxData : ctx'.b.data = ctx.b.data ++ r.out := by
    rw [← hctx]
    exact hwtake
  have hctxLen : ctx'.b.len = b.len + r.out.length := by rw [← hctx]
  have hctxDone : ctx'.decompressionDone = ctx.decompressionDone := by rw [← hctx]
  rw [hpow] at hround hfit houtcome hconforms
  rw [hpow] at hbroom
  have htight' : 2 ^ k < 2 * (ctx.b.len + chunkSize) := by
    rcases hbsize with heq | hlt
    · rw [← hpow, heq]
      exact htight
    · rw [← hpow]
      exact hlt
  have hfilling : Filling Z data ctx' (nextIn.drop r.used) := by
    have hctxSize : ctx'.b.size = 2 ^ k := by
      rw [← hctx]
      exact hwsize
    refine ⟨⟨r.state, xs ++ nextIn.take r.used, ?_, ?_, ?_⟩, ⟨?_, k, hk, hctxSize⟩, ?_, ?_⟩
    · rw [← hctx]
    · rw [hctxData]
      exact hnext
    · rw [List.append_assoc, List.take_append_drop, hdata]
    · rw [hctxSize, hctxLen]
      exact hfit
    · rw [hctxSize, hctxLen, hblen]
      omega
    · rw [← hctx]
  have hbefore : (ctx.b.data ++ r.out).length = b.len + r.out.length := by
    rw [List.length_append, hlen, hblen]
  have hle : b.len + r.out.length ≤ (D.out data).length := by
    have hsplit : data = xs ++ nextIn.take r.used ++ nextIn.drop r.used := by
      rw [List.append_assoc, List.take_append_drop, hdata]
    rw [← hbefore, hsplit]
    exact Nat.le_trans hgiven.length_le (D.out_prefix _ _).length_le
  refine ⟨k, hk, hbroom, htight', ?_⟩
  cases houtcome with
  | bad _ hverdict =>
    rw [← hdata] at hverdict
    exact absurd hverdict hvalid
  | stuck hcode _ hnone hinput hverdict hout =>
    rw [hinput, List.append_nil] at hdata
    rw [← hdata] at hverdict hout
    refine .stalled ⟨b.write b.len r.out, some r.state, b.len + r.out.length,
      ctx.decompressionDone⟩ (fun fuel => ?_) rfl hverdict ?_ hinput ?_
    · rw [hround, hcode]
    · rw [hnone, List.length_nil, Nat.add_zero, List.append_nil] at hwtake
      rw [← hout, ← hwtake, hnone]
      rfl
    · rw [← hlen, hout]
  | streamEnd hcode hverdict hout _ =>
    rw [← hdata] at hverdict hout
    have hlength : b.len + r.out.length = (D.out data).length := by rw [← hbefore, hout]
    by_cases hfull : 2 ^ k - b.len - r.out.length = 0
    · refine .full ctx' _ (fun fuel => ?_) hctxDone hfilling ?_ ?_ fun hrunning => ?_
      · rw [hround, hcode]
        exact if_pos hfull
      · omega
      · omega
      · rw [hverdict] at hrunning
        cases hrunning
    · refine .ended ctx' (fun fuel => ?_) hctxDone hverdict (hctxData.trans hout) ?_
      · rw [hround, hcode]
        exact if_neg hfull
      · omega
  | dry hcode hused hlt hverdict hout =>
    have hdrop : nextIn.drop r.used = [] := by rw [hused, List.drop_length]
    rw [← hdata] at hverdict hout
    have hlength : b.len + r.out.length = (D.out data).length := by rw [← hbefore, hout]
    refine .ok ctx' (fun fuel => ?_) hctxDone hverdict (hctxData.trans hout) ?_
      (hdrop ▸ hfilling) ?_
    · rw [hround, hcode]
      exact if_neg (by omega)
    · omega
    · rintro ⟨hinput, hsame⟩
      have hnone : r.out.length = 0 := by omega
      rcases (hconforms.ok hcode).1 with hne | hne
      · rw [hused, hinput] at hne
        exact hne rfl
      · exact hne (List.eq_nil_of_length_eq_zero hnone)
  | full hcode hfull =>
    refine .full ctx' _ (fun fuel => ?_) hctxDone hfilling ?_ ?_ fun _ hexact => ?_
    · rw [hround, hcode]
      exact if_pos (by omega)
    · omega
    · omega
    · -- everything is out
      have hsplit : data = xs ++ nextIn.take r.used ++ nextIn.drop r.used := by
        rw [List.append_assoc, List.take_append_drop, hdata]
      have hprefix : ctx.b.data ++ r.out <+: D.out data := by
        rw [hsplit]
        exact List.IsPrefix.trans hgiven (D.out_prefix _ _)
      have hall : ctx.b.data ++ r.out = D.out (xs ++ nextIn) := by
        rw [← hdata]
        exact hprefix.eq_of_length (by omega)
      rw [htook hcode hall, List.drop_length]

/-! ## One packet -/

/-- A packet before which the output has `before` bytes, and behind which it has `after`: the
size of the buffer stays within an `int`. -/
def Fits (before after : Nat) : Prop := before + chunkSize ≤ 2 ^ 30 ∧ after < 2 ^ 30

/-- The packet fills the buffer exactly. -/
def Stalls (before after : Nat) : Prop := before + chunkSize ≤ after ∧ after.isPowerOfTwo

instance (before after : Nat) : Decidable (Stalls before after) :=
  inferInstanceAs (Decidable (_ ∧ _))

theorem not_stalls {before after k : Nat} (hk : 2 ^ k < 2 * (before + chunkSize))
    (h : after < 2 ^ k) : ¬ Stalls before after := by
  rintro ⟨hle, j, rfl⟩
  have hjk : j < k := (Nat.pow_lt_pow_iff_right (by omega)).mp h
  have hdouble : 2 ^ (j + 1) ≤ 2 ^ k := Nat.pow_le_pow_right (by omega) hjk
  rw [Nat.pow_succ] at hdouble
  omega

/-- A power of two above another leaves room for a chunk behind that. -/
theorem stalls_iff {before after k : Nat} (hk : before + chunkSize ≤ 2 ^ k) (h : 2 ^ k ≤ after) :
    Stalls before after ↔ after = 2 ^ k ∨ Stalls (2 ^ k) after := by
  constructor
  · rintro ⟨-, j, rfl⟩
    rcases Nat.lt_or_ge k j with hlt | hge
    · have hdouble : 2 ^ (k + 1) ≤ 2 ^ j := Nat.pow_le_pow_right (by omega) hlt
      rw [Nat.pow_succ] at hdouble
      exact Or.inr ⟨by omega, j, rfl⟩
    · have hle : 2 ^ j ≤ 2 ^ k := Nat.pow_le_pow_right (by omega) hge
      exact Or.inl (Nat.le_antisymm hle h)
  · rintro (rfl | ⟨-, hpow⟩)
    · exact ⟨hk, k, rfl⟩
    · exact ⟨Nat.le_trans hk h, hpow⟩

/-- How the loop ends on a packet. -/
inductive Ends (D : Decoder δ UInt8 UInt8) (Z : Stepper σ UInt8 UInt8) (data : List UInt8)
    (ctx : Ctx σ) (nextIn : List UInt8) (ctx' : Ctx σ) (e : Code) : Prop
  | ended (code : e = .streamEnd) (verdict : D.verdict data = .ended)
    (done : ctx'.decompressionDone = ctx.decompressionDone) (out : ctx'.b.data = D.out data)
  | ok (code : e = .ok) (verdict : D.verdict data = .running)
    (done : ctx'.decompressionDone = ctx.decompressionDone) (out : ctx'.b.data = D.out data)
    (filling : Filling Z data ctx' [])
    (moved : ¬ (nextIn = [] ∧ ctx.b.len = (D.out data).length))
    (smooth : ¬ Stalls ctx.b.len (D.out data).length)
  | stalled (code : e = .bufError) (verdict : D.verdict data = .running)
    (done : ctx'.decompressionDone = ctx.decompressionDone) (out : ctx'.b.data = D.out data)
    (stall : nextIn = [] ∧ ctx.b.len = (D.out data).length ∨
      Stalls ctx.b.len (D.out data).length)

/-- **The loop on a packet**: it overflows the size, or ends with enough fuel. -/
theorem decompressLoop_spec (hZ : Lawful D Z) (heager : Eager D Z) {data : List UInt8}
    (hvalid : D.verdict data ≠ .failed) {ctx : Ctx σ} {nextIn : List UInt8}
    (h : Filling Z data ctx nextIn) :
    (¬ Fits ctx.b.len (D.out data).length →
      ∀ fuel, decompressLoop Z mem fuel ctx nextIn = none) ∧
    (Fits ctx.b.len (D.out data).length → ∃ n ctx' e,
      (∀ fuel, n ≤ fuel → decompressLoop Z mem fuel ctx nextIn = some (ctx', e)) ∧
        Ends D Z data ctx nextIn ctx' e) := by
  -- each buffer filled leaves less of the output
  obtain ⟨m, hm⟩ : ∃ m, (D.out data).length - ctx.b.len < m := ⟨_, Nat.lt_succ_self _⟩
  induction m generalizing ctx nextIn with
  | zero => omega
  | succ m ih =>
    by_cases hfits : ctx.b.len + chunkSize ≤ 2 ^ 30
    · obtain ⟨k, hk, hroom, htight, hround⟩ :=
        @decompressLoop_round δ σ D Z mem hZ heager data hvalid ctx nextIn h hfits
      have hpow : 2 ^ k ≤ 2 ^ 30 := Nat.pow_le_pow_right (by omega) hk
      cases hround with
      | ended ctx' hstep hdone hverdict hout hlt =>
        refine ⟨fun hnot => absurd ⟨hfits, by omega⟩ hnot, fun _ => ⟨1, ctx', .streamEnd,
          fun fuel hfuel => ?_, .ended rfl hverdict hdone hout⟩⟩
        obtain ⟨fuel, rfl⟩ := Nat.exists_eq_add_of_le' hfuel
        exact hstep fuel
      | ok ctx' hstep hdone hverdict hout hlt hfilling hmoved =>
        refine ⟨fun hnot => absurd ⟨hfits, by omega⟩ hnot, fun _ => ⟨1, ctx', .ok,
          fun fuel hfuel => ?_, .ok rfl hverdict hdone hout hfilling hmoved
            (not_stalls htight hlt)⟩⟩
        obtain ⟨fuel, rfl⟩ := Nat.exists_eq_add_of_le' hfuel
        exact hstep fuel
      | stalled ctx' hstep hdone hverdict hout hnil hlen =>
        refine ⟨fun hnot => ?_, fun _ => ⟨1, ctx', .bufError, fun fuel hfuel => ?_,
          .stalled rfl hverdict hdone hout (Or.inl ⟨hnil, hlen⟩)⟩⟩
        · unfold chunkSize at hfits
          exact absurd ⟨hfits, by omega⟩ hnot
        · obtain ⟨fuel, rfl⟩ := Nat.exists_eq_add_of_le' hfuel
          exact hstep fuel
      | full ctx' nextIn' hstep hdone hfilling hlen hle hdry =>
        have hchunk : chunkSize = 65536 := rfl
        obtain ⟨hover, hends⟩ := ih hfilling (by omega)
        rw [hlen] at hover hends
        refine ⟨fun hnot fuel => ?_, fun hfit => ?_⟩
        · cases fuel with
          | zero => rfl
          | succ fuel =>
            rw [hstep]
            exact hover (fun hfit => hnot ⟨hfits, hfit.2⟩) fuel
        · -- a power of two below `2 ^ 30` can be doubled
          have hdouble : 2 ^ k + chunkSize ≤ 2 ^ 30 := by
            have hlt : 2 ^ k < 2 ^ 30 := Nat.lt_of_le_of_lt hle hfit.2
            have hk' : k + 1 ≤ 30 := (Nat.pow_lt_pow_iff_right (by omega)).mp hlt
            have hpow' : 2 ^ (k + 1) ≤ 2 ^ 30 := Nat.pow_le_pow_right (by omega) hk'
            rw [Nat.pow_succ] at hpow'
            omega
          obtain ⟨n, ctx'', e, hn, hend⟩ := hends ⟨hdouble, hfit.2⟩
          refine ⟨n + 1, ctx'', e, fun fuel hfuel => ?_, ?_⟩
          · obtain ⟨fuel, rfl⟩ := Nat.exists_eq_add_of_le' hfuel
            rw [← Nat.add_assoc, hstep]
            exact hn _ (Nat.le_add_left n fuel)
          · have hstalls := stalls_iff hroom hle
            cases hend with
            | ended hcode hverdict hdone' hout =>
              exact .ended hcode hverdict (hdone'.trans hdone) hout
            | ok hcode hverdict hdone' hout hfilling' hmoved hsmooth =>
              refine .ok hcode hverdict (hdone'.trans hdone) hout hfilling' ?_ ?_
              · rintro ⟨-, hsame⟩
                omega
              · rw [hstalls]
                rintro (hexact | hstall)
                · exact hmoved ⟨hdry hverdict hexact, hlen.trans hexact.symm⟩
                · rw [hlen] at hsmooth
                  exact hsmooth hstall
            | stalled hcode hverdict hdone' hout hstall =>
              rw [hlen] at hstall
              exact .stalled hcode hverdict (hdone'.trans hdone) hout (Or.inr (hstalls.mpr
                (hstall.imp (fun hand => hand.2.symm) id)))
    · refine ⟨fun _ fuel => ?_, fun hfit => absurd hfit.1 hfits⟩
      cases fuel with
      | zero => rfl
      | succ fuel =>
        rw [decompressLoop, Buf.extend_none h.sound (by omega)]
        rfl

/-- Between two packets, before the end of the stream: `xs` is all there was so far. -/
structure Streaming (D : Decoder δ UInt8 UInt8) (Z : Stepper σ UInt8 UInt8) (ctx : Ctx σ)
    (xs : List UInt8) : Prop where
  filling : Filling Z xs ctx []
  verdict : D.verdict xs = .running
  out : ctx.b.data = D.out xs
  done : ctx.decompressionDone = false

/-- Behind the end of the stream. -/
structure Done (D : Decoder δ UInt8 UInt8) (ctx : Ctx σ) (xs : List UInt8) : Prop where
  verdict : D.verdict xs = .ended
  out : ctx.b.data = D.out xs
  closed : ctx.z = none

theorem streaming_start (Z : Stepper σ UInt8 UInt8) (mem : Nat → UInt8)
    (hinit : D.status D.init = .running) : Streaming D Z (start Z mem) [] := by
  refine ⟨⟨⟨Z.init, [], rfl, .init, rfl⟩, Buf.sound_new, ?_, rfl⟩, hinit, rfl, rfl⟩
  show (Buf.new mem).ptr.length < 2 * (0 + chunkSize)
  rw [Buf.new, List.length_map, List.length_range]
  decide

theorem Streaming.len {ctx : Ctx σ} {xs : List UInt8} (h : Streaming D Z ctx xs) :
    ctx.b.len = (D.out xs).length := by
  rw [← Buf.length_data h.filling.sound, h.out]

theorem Streaming.fill {ctx : Ctx σ} {xs : List UInt8} (h : Streaming D Z ctx xs)
    (data : List UInt8) : Filling Z (xs ++ data) ctx data := by
  obtain ⟨⟨z, ys, hz, hs, hxs⟩, hsound, htight, htotal⟩ := h.filling
  rw [List.append_nil] at hxs
  exact ⟨⟨z, ys, hz, hs, by rw [hxs]⟩, hsound, htight, htotal⟩

/-- A packet that the loop gets through: the size of the buffer stays within an `int`, and the
room is not filled exactly, unless at the end of the stream. -/
def Passes (D : Decoder δ UInt8 UInt8) (xs data : List UInt8) : Prop :=
  Fits (D.out xs).length (D.out (xs ++ data)).length ∧
    (D.verdict (xs ++ data) = .ended ∨
      ¬ Stalls (D.out xs).length (D.out (xs ++ data)).length)

/-- **A packet before the end of the stream.** -/
theorem Streaming.loop (hZ : Lawful D Z) (heager : Eager D Z) {ctx : Ctx σ}
    {xs data : List UInt8} (h : Streaming D Z ctx xs) (hdata : data ≠ [])
    (hvalid : D.verdict (xs ++ data) ≠ .failed) :
    (¬ Fits (D.out xs).length (D.out (xs ++ data)).length →
      ∀ fuel, decompressLoop Z mem fuel ctx data = none) ∧
    (Fits (D.out xs).length (D.out (xs ++ data)).length → ∃ n ctx' e,
      (∀ fuel, n ≤ fuel → decompressLoop Z mem fuel ctx data = some (ctx', e)) ∧
        ctx'.decompressionDone = false ∧ ctx'.b.data = D.out (xs ++ data) ∧
        (e = .streamEnd ∧ D.verdict (xs ++ data) = .ended ∨
          e = .ok ∧ Streaming D Z ctx' (xs ++ data) ∧
            ¬ Stalls (D.out xs).length (D.out (xs ++ data)).length ∨
          e = .bufError ∧ D.verdict (xs ++ data) = .running ∧
            Stalls (D.out xs).length (D.out (xs ++ data)).length)) := by
  obtain ⟨hover, hends⟩ :=
    @decompressLoop_spec δ σ D Z mem hZ heager _ hvalid ctx data (h.fill data)
  rw [h.len] at hover hends
  refine ⟨hover, fun hfits => ?_⟩
  obtain ⟨n, ctx', e, hn, hend⟩ := hends hfits
  refine ⟨n, ctx', e, hn, ?_⟩
  cases hend with
  | ended hcode hverdict hdone hout =>
    exact ⟨hdone.trans h.done, hout, Or.inl ⟨hcode, hverdict⟩⟩
  | ok hcode hverdict hdone hout hfilling _ hsmooth =>
    rw [h.len] at hsmooth
    have hdone' := hdone.trans h.done
    exact ⟨hdone', hout, Or.inr (Or.inl ⟨hcode, ⟨hfilling, hverdict, hout, hdone'⟩, hsmooth⟩)⟩
  | stalled hcode hverdict hdone hout hstall =>
    refine ⟨hdone.trans h.done, hout, Or.inr (Or.inr ⟨hcode, hverdict, ?_⟩)⟩
    rw [h.len] at hstall
    exact hstall.resolve_left fun hand => hdata hand.1

/-! ## The two paths -/

/-- What the two copies have in common: `decompress`, given fuel, and whether it passes over a
packet behind the end of the stream. -/
structure Path (D : Decoder δ UInt8 UInt8) (Z : Stepper σ UInt8 UInt8)
    (decompress : Nat → Ctx σ → List UInt8 → Option (Ctx σ × Int)) (Behind : Ctx σ → Prop)
    (late : Prop) : Prop where
  /-- a packet before the end -/
  pass : ∀ {ctx xs data}, Streaming D Z ctx xs → data ≠ [] → D.verdict (xs ++ data) ≠ .failed →
    Passes D xs data → ∃ n ctx', (∀ fuel, n ≤ fuel → decompress fuel ctx data = some (ctx', 0)) ∧
      (Streaming D Z ctx' (xs ++ data) ∨ Done D ctx' (xs ++ data) ∧ Behind ctx')
  stop : ∀ {ctx xs data}, Streaming D Z ctx xs → data ≠ [] → D.verdict (xs ++ data) ≠ .failed →
    ¬ Passes D xs data → ∃ n, ∀ fuel, n ≤ fuel → ∀ ctx', decompress fuel ctx data ≠ some (ctx', 0)
  /-- a packet behind it -/
  beyond : ∀ {ctx data}, ctx.z = none → Behind ctx → late →
    ∀ fuel, decompress fuel ctx data = some (ctx, 0)
  fail : ∀ {ctx data}, ctx.z = none → Behind ctx → ¬ late →
    ∀ fuel ctx', decompress fuel ctx data ≠ some (ctx', 0)

theorem loop_closed {ctx : Ctx σ} (hz : ctx.z = none) (data : List UInt8) (fuel : Nat) :
    decompressLoop Z mem fuel ctx data = none ∨
      ∃ ctx', decompressLoop Z mem fuel ctx data = some (ctx', .streamError) := by
  cases fuel with
  | zero => exact Or.inl rfl
  | succ fuel =>
    rw [decompressLoop]
    cases ctx.b.extend mem chunkSize with
    | none => exact Or.inl rfl
    | some b =>
      rw [Option.bind_some, hz]
      exact Or.inr ⟨_, rfl⟩

/-- `search` fails on what comes behind the end. -/
theorem path_search (hZ : Lawful D Z) (heager : Eager D Z) (mem : Nat → UInt8) :
    Path D Z (gwSearchResultDecompress Z mem) (fun _ => True) False := by
  refine ⟨?_, ?_, fun _ _ hlate => hlate.elim, ?_⟩
  · intro ctx xs data h hdata hvalid hpass
    obtain ⟨n, ctx', e, hn, -, hout, hend⟩ :=
      (@Streaming.loop δ σ D Z mem hZ heager ctx xs data h hdata hvalid).2 hpass.1
    rcases hend with ⟨rfl, hverdict⟩ | ⟨rfl, hstream, -⟩ | ⟨-, hverdict, hstall⟩
    · refine ⟨n, { ctx' with z := none }, fun fuel hfuel => ?_, Or.inr ⟨⟨hverdict, hout, rfl⟩,
        trivial⟩⟩
      rw [gwSearchResultDecompress, hn fuel hfuel]
      rfl
    · refine ⟨n, ctx', fun fuel hfuel => ?_, Or.inl hstream⟩
      rw [gwSearchResultDecompress, hn fuel hfuel]
      rfl
    · rw [Passes, hverdict] at hpass
      exact absurd hstall (hpass.2.resolve_left nofun)
  · intro ctx xs data h hdata hvalid hpass
    obtain ⟨hover, hends⟩ := @Streaming.loop δ σ D Z mem hZ heager ctx xs data h hdata hvalid
    by_cases hfits : Fits (D.out xs).length (D.out (xs ++ data)).length
    · obtain ⟨n, ctx', e, hn, -, -, hend⟩ := hends hfits
      refine ⟨n, fun fuel hfuel ctx'' heq => ?_⟩
      rw [gwSearchResultDecompress, hn fuel hfuel] at heq
      rcases hend with ⟨rfl, hverdict⟩ | ⟨rfl, -, hsmooth⟩ | ⟨rfl, -, -⟩
      · exact hpass ⟨hfits, Or.inl hverdict⟩
      · exact hpass ⟨hfits, Or.inr hsmooth⟩
      · have hret : 1 - value .bufError = 0 := congrArg Prod.snd (Option.some.inj heq)
        exact absurd hret (by decide)
    · refine ⟨0, fun fuel _ ctx'' heq => ?_⟩
      rw [gwSearchResultDecompress, hover hfits] at heq
      cases heq
  · intro ctx data hz _ _ fuel ctx' heq
    rw [gwSearchResultDecompress] at heq
    rcases @loop_closed σ Z mem ctx hz data fuel with hnone | ⟨ctx'', hsome⟩
    · rw [hnone] at heq
      cases heq
    · rw [hsome] at heq
      have hret : 1 - value .streamError = 0 := congrArg Prod.snd (Option.some.inj heq)
      exact absurd hret (by decide)

/-- `browse` passes over what comes behind the end. -/
theorem path_browse (hZ : Lawful D Z) (heager : Eager D Z) (mem : Nat → UInt8) :
    Path D Z (gwBrowseResultDecompress Z mem) (fun ctx => ctx.decompressionDone = true) True := by
  refine ⟨?_, ?_, ?_, fun _ _ hlate => absurd trivial hlate⟩
  · intro ctx xs data h hdata hvalid hpass
    obtain ⟨n, ctx', e, hn, hdone, hout, hend⟩ :=
      (@Streaming.loop δ σ D Z mem hZ heager ctx xs data h hdata hvalid).2 hpass.1
    have hopen : ¬ ctx.decompressionDone = true := by
      rw [h.done]
      exact nofun
    rcases hend with ⟨rfl, hverdict⟩ | ⟨rfl, hstream, -⟩ | ⟨-, hverdict, hstall⟩
    · refine ⟨n, { ctx' with z := none, decompressionDone := true }, fun fuel hfuel => ?_,
        Or.inr ⟨⟨hverdict, hout, rfl⟩, rfl⟩⟩
      rw [gwBrowseResultDecompress, if_neg hopen, hn fuel hfuel]
      rfl
    · refine ⟨n, ctx', fun fuel hfuel => ?_, Or.inl hstream⟩
      rw [gwBrowseResultDecompress, if_neg hopen, hn fuel hfuel]
      rfl
    · rw [Passes, hverdict] at hpass
      exact absurd hstall (hpass.2.resolve_left nofun)
  · intro ctx xs data h hdata hvalid hpass
    obtain ⟨hover, hends⟩ := @Streaming.loop δ σ D Z mem hZ heager ctx xs data h hdata hvalid
    have hopen : ¬ ctx.decompressionDone = true := by
      rw [h.done]
      exact nofun
    by_cases hfits : Fits (D.out xs).length (D.out (xs ++ data)).length
    · obtain ⟨n, ctx', e, hn, -, -, hend⟩ := hends hfits
      refine ⟨n, fun fuel hfuel ctx'' heq => ?_⟩
      rw [gwBrowseResultDecompress, if_neg hopen, hn fuel hfuel] at heq
      rcases hend with ⟨rfl, hverdict⟩ | ⟨rfl, -, hsmooth⟩ | ⟨rfl, -, -⟩
      · exact hpass ⟨hfits, Or.inl hverdict⟩
      · exact hpass ⟨hfits, Or.inr hsmooth⟩
      · have hret : 1 - value .bufError = 0 := congrArg Prod.snd (Option.some.inj heq)
        exact absurd hret (by decide)
    · refine ⟨0, fun fuel _ ctx'' heq => ?_⟩
      rw [gwBrowseResultDecompress, if_neg hopen, hover hfits] at heq
      cases heq
  · intro ctx data _ hdone _ fuel
    rw [gwBrowseResultDecompress, if_pos hdone]

/-! ## zlib in the model of the gateway -/

/-- What the loop makes of the chunks so far, and its last value. -/
def inflateOf (D : Decoder δ UInt8 UInt8) (chunks : List (List UInt8)) : List UInt8 × Int :=
  (D.out chunks.flatten,
    if D.verdict chunks.flatten = .ended then 1
    else if Stalls (D.out chunks.dropLast.flatten).length (D.out chunks.flatten).length then -5
    else 0)

/-- The context as the model of the gateway has it. -/
structure Represents (ctx : Ctx σ) (dctx : DecompressCtx) : Prop where
  b : dctx.b = ctx.b.data
  z : dctx.z = none ↔ ctx.z = none
  done : dctx.decompressionDone = ctx.decompressionDone

/-- **The model of the gateway** does what the loop does, on packets before the end. -/
theorem Streaming.represents (hZ : Lawful D Z) (heager : Eager D Z) {lib : Lib}
    (hlib : lib.inflate = inflateOf D) {ctx : Ctx σ} {chunks : List (List UInt8)}
    (h : Streaming D Z ctx chunks.flatten) {data : List UInt8} (hdata : data ≠ [])
    (hvalid : D.verdict (chunks.flatten ++ data) ≠ .failed)
    (hfits : Fits (D.out chunks.flatten).length (D.out (chunks.flatten ++ data)).length) :
    ∃ n ctx₁ ctx₂ ret, (∀ fuel, n ≤ fuel →
        gwSearchResultDecompress Z mem fuel ctx data = some (ctx₁, ret) ∧
        gwBrowseResultDecompress Z mem fuel ctx data = some (ctx₂, ret)) ∧
      Represents ctx₁
        (Gateway.gwSearchResultDecompress lib ⟨ctx.b.data, some chunks, false⟩ data).1 ∧
      Represents ctx₂
        (Gateway.gwBrowseResultDecompress lib ⟨ctx.b.data, some chunks, false⟩ data).1 ∧
      (Gateway.gwSearchResultDecompress lib ⟨ctx.b.data, some chunks, false⟩ data).2 = ret ∧
      (Gateway.gwBrowseResultDecompress lib ⟨ctx.b.data, some chunks, false⟩ data).2 = ret := by
  obtain ⟨n, ctx', e, hn, hdone, hout, hend⟩ :=
    (@Streaming.loop δ σ D Z mem hZ heager ctx _ data h hdata hvalid).2 hfits
  have hflat : (chunks ++ [data]).flatten = chunks.flatten ++ data := by
    rw [List.flatten_append, List.flatten_cons, List.flatten_nil, List.append_nil]
  have hopen : ¬ ctx.decompressionDone = true := by
    rw [h.done]
    exact nofun
  -- the value of the last call
  have hvalue : (inflateOf D (chunks ++ [data])).2 = value e := by
    rw [inflateOf, hflat, List.dropLast_concat]
    rcases hend with ⟨rfl, hverdict⟩ | ⟨rfl, hstream, hsmooth⟩ | ⟨rfl, hverdict, hstall⟩
    · exact if_pos hverdict
    · dsimp only
      rw [hstream.verdict, if_neg nofun, if_neg hsmooth]
      rfl
    · dsimp only
      rw [hverdict, if_neg nofun, if_pos hstall]
      rfl
  have hinflate : DecompressCtx.inflate lib ⟨ctx.b.data, some chunks, false⟩ data =
      (⟨ctx'.b.data, some (chunks ++ [data]), false⟩, value e) := by
    unfold DecompressCtx.inflate
    rw [hlib, hout, ← hvalue, ← hflat]
    rfl
  by_cases hok : e = .ok
  · subst hok
    have hstill : ctx'.z ≠ none := by
      intro hz
      rcases hend with ⟨hcode, -⟩ | ⟨-, hstream, -⟩ | ⟨hcode, -⟩
      · cases hcode
      · obtain ⟨z, -, hsome, -⟩ := hstream.filling.history
        rw [hz] at hsome
        cases hsome
      · cases hcode
    have hkept : Represents ctx' ⟨ctx'.b.data, some (chunks ++ [data]), false⟩ :=
      ⟨rfl, iff_of_false nofun hstill, hdone.symm⟩
    refine ⟨n, ctx', ctx', 0, fun fuel hfuel => ⟨?_, ?_⟩, ?_, ?_, ?_, ?_⟩
    · rw [gwSearchResultDecompress, hn fuel hfuel]
      rfl
    · rw [gwBrowseResultDecompress, if_neg hopen, hn fuel hfuel]
      rfl
    · rw [Gateway.gwSearchResultDecompress, hinflate]
      exact hkept
    · rw [Gateway.gwBrowseResultDecompress, hinflate]
      exact hkept
    · rw [Gateway.gwSearchResultDecompress, hinflate]
      rfl
    · rw [Gateway.gwBrowseResultDecompress, hinflate]
      rfl
  · have hne : value e ≠ 0 := by
      cases e with
      | ok => exact absurd rfl hok
      | streamEnd | bufError | dataError | streamError => decide
    have hend' : decide (value e = 1) = decide (e = .streamEnd) := by cases e <;> rfl
    refine ⟨n, { ctx' with z := none },
      { ctx' with z := none, decompressionDone := e = .streamEnd }, 1 - value e,
      fun fuel hfuel => ⟨?_, ?_⟩, ?_, ?_, ?_, ?_⟩
    · rw [gwSearchResultDecompress, hn fuel hfuel]
      exact congrArg some (if_neg hok)
    · rw [gwBrowseResultDecompress, if_neg hopen, hn fuel hfuel]
      exact congrArg some (if_neg hok)
    · rw [Gateway.gwSearchResultDecompress, hinflate]
      dsimp only
      rw [if_neg hne]
      exact ⟨rfl, iff_of_true rfl rfl, hdone.symm⟩
    · rw [Gateway.gwBrowseResultDecompress, hinflate, if_neg nofun]
      dsimp only
      rw [if_neg hne]
      exact ⟨rfl, iff_of_true rfl rfl, hend'⟩
    · rw [Gateway.gwSearchResultDecompress, hinflate]
      dsimp only
      rw [if_neg hne]
    · rw [Gateway.gwBrowseResultDecompress, hinflate, if_neg nofun]
      dsimp only
      rw [if_neg hne]

/-! ## The packets of a reply -/

open Channels (Channel Call)

/-- What a callback makes of its context. -/
inductive Made (σ : Type)
  | kept (ctx : Ctx σ) (ret : Int)
  /-- given up for `s->output` -/
  | handed (output : Option Buf)

/-- The callbacks of `search` and `browse`. -/
def resultCallback (decompress : Ctx σ → List UInt8 → Option (Ctx σ × Int)) (ctx : Ctx σ)
    (ch : Channel Handler) (buf : List UInt8) : Option (Made σ) :=
  match ch.state with
  | .header => some (.kept ctx 0)
  | .error => some (.handed none)
  | .ended => some (.handed (some ctx.b))
  | .data =>
    let data := skipHeader ch.totalDataLen buf
    if ch.totalDataLen < 10 ∧ data = [] then some (.kept ctx 0)
    else (decompress ctx data).map fun (ctx, ret) => .kept ctx ret

/-- The calls of a callback up to the output; `none` once it has returned an error, which puts
the client into CLIENT_STATE_ERROR_PACKET. -/
def receive (callback : Ctx σ → Channel Handler → List UInt8 → Option (Made σ)) :
    Ctx σ → List (Call Handler) → Option (Option Buf)
  | _, [] => none
  | ctx, c :: calls =>
    (callback ctx c.ch c.data).bind fun
      | .kept ctx ret => if ret = 0 then receive callback ctx calls else none
      | .handed output => some output

section

variable (Z : Stepper σ UInt8 UInt8) (mem : Nat → UInt8)

def gwSearchResultCallback (fuel : Nat) : Ctx σ → Channel Handler → List UInt8 → Option (Made σ) :=
  resultCallback (gwSearchResultDecompress Z mem fuel)

def gwBrowseResultCallback (fuel : Nat) : Ctx σ → Channel Handler → List UInt8 → Option (Made σ) :=
  resultCallback (gwBrowseResultDecompress Z mem fuel)

/-- Every call returns 0, and the data are the output in the end. -/
def Delivers (callback : Nat → Ctx σ → Channel Handler → List UInt8 → Option (Made σ))
    (calls : List (Call Handler)) (data : List UInt8) : Prop :=
  ∃ n, ∀ fuel, n ≤ fuel → ∃ b, receive (callback fuel) (start Z mem) calls = some (some b) ∧
    b.data = data

end

/-- A data packet behind the gzip header. -/
structure IsData (c : Call Handler) : Prop where
  state : c.ch.state = .data
  behind : ¬ c.ch.totalDataLen < 10
  ne : c.data ≠ []

/-- The loop gets through every packet that starts before the end of the stream; others may come
only if `late`. -/
def Smooth (D : Decoder δ UInt8 UInt8) (late : Prop) : List UInt8 → List (List UInt8) → Prop
  | _, [] => True
  | xs, data :: packets =>
    (D.verdict xs = .running → Passes D xs data) ∧ (D.verdict xs ≠ .running → late) ∧
      Smooth D late (xs ++ data) packets

theorem receive_cons {decompress : Ctx σ → List UInt8 → Option (Ctx σ × Int)} {ctx : Ctx σ}
    {c : Call Handler} (hc : IsData c) (calls : List (Call Handler)) :
    receive (resultCallback decompress) ctx (c :: calls) =
      (decompress ctx c.data).bind fun r =>
        if r.2 = 0 then receive (resultCallback decompress) r.1 calls else none := by
  have hskip : skipHeader c.ch.totalDataLen c.data = c.data := if_neg hc.behind
  have hcall : resultCallback decompress ctx c.ch c.data =
      (decompress ctx c.data).map fun (ctx, ret) => .kept ctx ret := by
    unfold resultCallback
    rw [hc.state, hskip]
    exact if_neg fun hand => hc.behind hand.1
  rw [receive, hcall]
  cases decompress ctx c.data <;> rfl

theorem receive_cons_zero {decompress : Ctx σ → List UInt8 → Option (Ctx σ × Int)}
    {ctx ctx' : Ctx σ} {c : Call Handler} (hc : IsData c) (calls : List (Call Handler))
    (h : decompress ctx c.data = some (ctx', 0)) :
    receive (resultCallback decompress) ctx (c :: calls) =
      receive (resultCallback decompress) ctx' calls := by
  rw [receive_cons hc, h]
  rfl

theorem receive_cons_error {decompress : Ctx σ → List UInt8 → Option (Ctx σ × Int)}
    {ctx : Ctx σ} {c : Call Handler} (hc : IsData c) (calls : List (Call Handler))
    (h : ∀ ctx', decompress ctx c.data ≠ some (ctx', 0)) :
    receive (resultCallback decompress) ctx (c :: calls) = none := by
  rw [receive_cons hc]
  cases heq : decompress ctx c.data with
  | none => rfl
  | some r =>
    refine if_neg fun hzero => h r.1 ?_
    rw [heq, ← hzero]

/-- **The packets of a reply**, on either path. -/
theorem receive_spec {decompress : Nat → Ctx σ → List UInt8 → Option (Ctx σ × Int)}
    {Behind : Ctx σ → Prop} {late : Prop} (path : Path D Z decompress Behind late)
    {stream trailer : List UInt8} (hstream : D.Complete stream) {last : Call Handler}
    (hlast : last.ch.state = .ended) {calls : List (Call Handler)}
    (hcalls : ∀ c ∈ calls, IsData c) {ctx : Ctx σ} {xs : List UInt8}
    (hctx : Streaming D Z ctx xs ∨ Done D ctx xs ∧ Behind ctx)
    (hall : xs ++ (calls.map Call.data).flatten = stream ++ trailer) :
    (Smooth D late xs (calls.map Call.data) → ∃ n, ∀ fuel, n ≤ fuel → ∃ b,
      receive (resultCallback (decompress fuel)) ctx (calls ++ [last]) = some (some b) ∧
        b.data = D.out stream) ∧
    (¬ Smooth D late xs (calls.map Call.data) → ∃ n, ∀ fuel, n ≤ fuel →
      receive (resultCallback (decompress fuel)) ctx (calls ++ [last]) = none) := by
  induction calls generalizing ctx xs with
  | nil =>
    refine ⟨fun _ => ⟨0, fun fuel _ => ⟨ctx.b, ?_, ?_⟩⟩, fun h => absurd trivial h⟩
    · rw [List.nil_append, receive, resultCallback, hlast]
      rfl
    · rw [List.map_nil, List.flatten_nil, List.append_nil] at hall
      rw [← (hstream.append trailer).2, ← hall]
      exact hctx.elim (·.out) (·.1.out)
  | cons c calls ih =>
    obtain ⟨hc, hrest⟩ := List.forall_mem_cons.mp hcalls
    rw [List.map_cons, List.flatten_cons, ← List.append_assoc] at hall
    have hvalid : D.verdict (xs ++ c.data) ≠ .failed :=
      hstream.verdict_ne_failed ⟨_, hall⟩
    rw [List.map_cons, Smooth, List.cons_append]
    -- a packet after which the reply goes on
    have hgo : ∀ ctx' m, (∀ fuel, m ≤ fuel → decompress fuel ctx c.data = some (ctx', 0)) →
        (Streaming D Z ctx' (xs ++ c.data) ∨ Done D ctx' (xs ++ c.data) ∧ Behind ctx') →
        (Smooth D late (xs ++ c.data) (calls.map Call.data) → ∃ n, ∀ fuel, n ≤ fuel → ∃ b,
          receive (resultCallback (decompress fuel)) ctx (c :: (calls ++ [last])) =
            some (some b) ∧ b.data = D.out stream) ∧
        (¬ Smooth D late (xs ++ c.data) (calls.map Call.data) → ∃ n, ∀ fuel, n ≤ fuel →
          receive (resultCallback (decompress fuel)) ctx (c :: (calls ++ [last])) = none) := by
      intro ctx' m hm hctx'
      obtain ⟨hgood, hbad⟩ := ih hrest hctx' hall
      refine ⟨fun h => ?_, fun h => ?_⟩
      · obtain ⟨n, hn⟩ := hgood h
        refine ⟨max m n, fun fuel hfuel => ?_⟩
        rw [receive_cons_zero hc _ (hm fuel (by omega))]
        exact hn fuel (by omega)
      · obtain ⟨n, hn⟩ := hbad h
        refine ⟨max m n, fun fuel hfuel => ?_⟩
        rw [receive_cons_zero hc _ (hm fuel (by omega))]
        exact hn fuel (by omega)
    -- a packet at which it stops
    have hstop : ∀ m, (∀ fuel, m ≤ fuel → ∀ ctx', decompress fuel ctx c.data ≠ some (ctx', 0)) →
        ∃ n, ∀ fuel, n ≤ fuel →
          receive (resultCallback (decompress fuel)) ctx (c :: (calls ++ [last])) = none :=
      fun m hm => ⟨m, fun fuel hfuel => receive_cons_error hc _ (hm fuel hfuel)⟩
    rcases hctx with hstreaming | ⟨hdone, hbehind⟩
    · have hrunning := hstreaming.verdict
      by_cases hpass : Passes D xs c.data
      · obtain ⟨m, ctx', hm, hctx'⟩ := path.pass hstreaming hc.ne hvalid hpass
        obtain ⟨hgood, hbad⟩ := hgo ctx' m hm hctx'
        refine ⟨fun h => hgood h.2.2, fun h => hbad fun hsmooth => h ⟨fun _ => hpass, ?_, hsmooth⟩⟩
        exact fun hne => absurd hrunning hne
      · obtain ⟨m, hm⟩ := path.stop hstreaming hc.ne hvalid hpass
        exact ⟨fun h => absurd (h.1 hrunning) hpass, fun _ => hstop m hm⟩
    · have hended := hdone.verdict
      have hne : D.verdict xs ≠ .running := by
        rw [hended]
        exact nofun
      by_cases hlate : late
      · obtain ⟨hverdict, hout, -⟩ := D.stopped_append hne c.data
        have hdone' : Done D ctx (xs ++ c.data) :=
          ⟨hverdict.trans hended, hdone.out.trans hout.symm, hdone.closed⟩
        obtain ⟨hgood, hbad⟩ := hgo ctx 0 (fun fuel _ => path.beyond hdone.closed hbehind hlate fuel)
          (Or.inr ⟨hdone', hbehind⟩)
        refine ⟨fun h => hgood h.2.2, fun h => hbad fun hsmooth => h ⟨?_, fun _ => hlate, hsmooth⟩⟩
        exact fun hrunning => absurd hrunning hne
      · exact ⟨fun h => absurd (h.2.1 hne) hlate, fun _ => hstop 0 fun fuel _ =>
          path.fail hdone.closed hbehind hlate fuel⟩

/-- On either path, delivering is the condition on the packets. -/
theorem Path.delivers {decompress : Nat → Ctx σ → List UInt8 → Option (Ctx σ × Int)}
    {Behind : Ctx σ → Prop} {late : Prop} (path : Path D Z decompress Behind late)
    (hinit : D.status D.init = .running) (mem : Nat → UInt8) {stream trailer : List UInt8}
    (hstream : D.Complete stream) {last : Call Handler} (hlast : last.ch.state = .ended)
    {calls : List (Call Handler)} (hcalls : ∀ c ∈ calls, IsData c)
    (hall : (calls.map Call.data).flatten = stream ++ trailer) :
    Delivers Z mem (fun fuel => resultCallback (decompress fuel)) (calls ++ [last])
      (D.out stream) ↔ Smooth D late [] (calls.map Call.data) := by
  obtain ⟨hgood, hbad⟩ :=
    receive_spec path hstream hlast hcalls (Or.inl (streaming_start Z mem hinit)) hall
  refine ⟨fun h => ?_, hgood⟩
  by_contra hnot
  obtain ⟨n, hn⟩ := h
  obtain ⟨m, hm⟩ := hbad hnot
  obtain ⟨b, hb, -⟩ := hn (max m n) (by omega)
  rw [hm (max m n) (by omega)] at hb
  cases hb

theorem Smooth.late {xs : List UInt8} {packets : List (List UInt8)}
    (h : Smooth D False xs packets) : Smooth D True xs packets := by
  induction packets generalizing xs with
  | nil => trivial
  | cons data packets ih => exact ⟨h.1, fun _ => trivial, ih h.2.2⟩

/-- **Decompression in the gateway**: both paths deliver a stream, whatever follows it, exactly
when no packet starts behind the end of the stream and each keeps the size of the buffer within
an `int` and does not fill the room exactly before the end; `browse` alone, exactly when the
packets that start before the end do so. -/
theorem delivers_iff (hZ : Lawful D Z) (heager : Eager D Z) (hinit : D.status D.init = .running)
    (mem : Nat → UInt8) {stream trailer : List UInt8} (hstream : D.Complete stream)
    {last : Call Handler} (hlast : last.ch.state = .ended) {calls : List (Call Handler)}
    (hcalls : ∀ c ∈ calls, IsData c)
    (hall : (calls.map Call.data).flatten = stream ++ trailer) :
    (Delivers Z mem (gwSearchResultCallback Z mem) (calls ++ [last]) (D.out stream) ∧
        Delivers Z mem (gwBrowseResultCallback Z mem) (calls ++ [last]) (D.out stream) ↔
      Smooth D False [] (calls.map Call.data)) ∧
    (Delivers Z mem (gwBrowseResultCallback Z mem) (calls ++ [last]) (D.out stream) ↔
      Smooth D True [] (calls.map Call.data)) := by
  have hsearch :=
    (path_search hZ heager mem).delivers hinit mem hstream hlast hcalls hall
  have hbrowse :=
    (path_browse hZ heager mem).delivers hinit mem hstream hlast hcalls hall
  refine ⟨⟨fun h => hsearch.mp h.1, fun h => ⟨hsearch.mpr h, hbrowse.mpr h.late⟩⟩, hbrowse⟩

/-- A call with a data packet behind the header, and the last call. -/
def dataCall (data : List UInt8) : Call Handler :=
  ⟨{ dataChannel ⟨.search, 0⟩ with totalDataLen := 10 }, data⟩

def endCall : Call Handler := ⟨{ dataChannel ⟨.search, 0⟩ with state := .ended }, []⟩

theorem isData_dataCall {data : List UInt8} (h : data ≠ []) : IsData (dataCall data) := by
  refine ⟨rfl, ?_, h⟩
  show ¬ (10 : UInt32) < 10
  decide

theorem state_endCall : endCall.ch.state = .ended := rfl

/-- Two bytes, stored, with the eight bytes behind the stream in the same packet. -/
theorem delivers_small :
    Delivers Lib.storedBlocks.greedy zeros
        (gwSearchResultCallback Lib.storedBlocks.greedy zeros)
        ([dataCall ([1, 2, 0, 253, 255, 104, 105] ++ [1, 2, 3, 4, 5, 6, 7, 8])] ++ [endCall])
        [104, 105] ∧
      Delivers Lib.storedBlocks.greedy zeros
        (gwBrowseResultCallback Lib.storedBlocks.greedy zeros)
        ([dataCall ([1, 2, 0, 253, 255, 104, 105] ++ [1, 2, 3, 4, 5, 6, 7, 8])] ++ [endCall])
        [104, 105] := by
  have hcomplete : Lib.storedBlocks.Complete [1, 2, 0, 253, 255, 104, 105] :=
    ⟨by decide, by decide⟩
  have hcalls : ∀ c ∈ [dataCall ([1, 2, 0, 253, 255, 104, 105] ++ [1, 2, 3, 4, 5, 6, 7, 8])],
      IsData c := List.forall_mem_singleton.mpr (isData_dataCall nofun)
  have hall : ([dataCall ([1, 2, 0, 253, 255, 104, 105] ++ [1, 2, 3, 4, 5, 6, 7, 8])].map
      Call.data).flatten = [1, 2, 0, 253, 255, 104, 105] ++ [1, 2, 3, 4, 5, 6, 7, 8] := rfl
  refine (delivers_iff (lawful_greedy _) (eager_greedy _) rfl zeros hcomplete state_endCall hcalls
    hall).1.mpr ?_
  exact ⟨fun _ => ⟨⟨by decide, by decide⟩, Or.inl (by decide)⟩, fun h => absurd rfl h, trivial⟩

/-- An empty stream, and the eight bytes behind it in a packet of their own: `search` puts the
client into its error state. -/
theorem trailer_stops_search :
    ¬ Delivers Lib.storedBlocks.greedy zeros
        (gwSearchResultCallback Lib.storedBlocks.greedy zeros)
        ([dataCall [1, 0, 0, 255, 255], dataCall [1, 2, 3, 4, 5, 6, 7, 8]] ++ [endCall]) [] ∧
      Delivers Lib.storedBlocks.greedy zeros
        (gwBrowseResultCallback Lib.storedBlocks.greedy zeros)
        ([dataCall [1, 0, 0, 255, 255], dataCall [1, 2, 3, 4, 5, 6, 7, 8]] ++ [endCall]) [] := by
  have hcomplete : Lib.storedBlocks.Complete [1, 0, 0, 255, 255] := ⟨by decide, by decide⟩
  have hcalls : ∀ c ∈ [dataCall [1, 0, 0, 255, 255], dataCall [1, 2, 3, 4, 5, 6, 7, 8]],
      IsData c := by
    refine List.forall_mem_cons.mpr ⟨isData_dataCall nofun, ?_⟩
    exact List.forall_mem_singleton.mpr (isData_dataCall nofun)
  have hall : ([dataCall [1, 0, 0, 255, 255], dataCall [1, 2, 3, 4, 5, 6, 7, 8]].map
      Call.data).flatten = [1, 0, 0, 255, 255] ++ [1, 2, 3, 4, 5, 6, 7, 8] := rfl
  have hsearch := (path_search (lawful_greedy Lib.storedBlocks) (eager_greedy _)
    zeros).delivers rfl zeros hcomplete state_endCall hcalls hall
  have hbrowse := (path_browse (lawful_greedy Lib.storedBlocks) (eager_greedy _)
    zeros).delivers rfl zeros hcomplete state_endCall hcalls hall
  refine ⟨fun h => ?_, hbrowse.mpr ?_⟩
  · have hsmooth := hsearch.mp h
    exact hsmooth.2.2.2.1 (by decide)
  · exact ⟨fun _ => ⟨⟨by decide, by decide⟩, Or.inl (by decide)⟩, fun _ => trivial,
      fun h => absurd h (by decide), fun _ => trivial, trivial⟩

end Despotify.Gateway.Zlib

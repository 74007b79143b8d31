import Despotify.Channel.Data
import Despotify.Gateway.Output
import Despotify.Lib.Buf
import Despotify.Pool.Runs
import Despotify.Sync.Model

/-!
# The gzip header of a reply

The library and the gateway skip the first ten bytes of a compressed reply, whatever packets
they are in: a callback drops what `total_data_len`, counted by `channel_process`, leaves to
be skipped.

* `flatten_passedOn_iff`: the packets without the header are the reply without the header
  exactly when the count has not come around to the header again.
* `headerSkipped_iff`: what the three callbacks append or pass on.
-/

namespace Despotify.Gateway

open Channels
open Despotify.Lib (Buf)

/-! ## The packets without the header -/

/-- What the callbacks use of data packets, from the count `totalDataLen` on: the packets
without the header, those with nothing else left out. -/
def passedOn : UInt32 → List (List UInt8) → List (List UInt8)
  | _, [] => []
  | totalDataLen, d :: ds =>
    let rest := passedOn (totalDataLen + UInt32.ofNat d.length) ds
    if totalDataLen < 10 ∧ skipHeader totalDataLen d = [] then rest
    else skipHeader totalDataLen d :: rest

/-- No packet starts where the 32-bit count of the bytes before it, `n` at first, has come
around to less than ten. -/
def Counted : Nat → List (List UInt8) → Prop
  | _, [] => True
  | n, d :: ds => (10 ≤ n → 10 ≤ n % 2 ^ 32) ∧ Counted (n + d.length) ds

instance decidableCounted : (n : Nat) → (ds : List (List UInt8)) → Decidable (Counted n ds)
  | _, [] => inferInstanceAs (Decidable True)
  | n, d :: ds =>
    have := decidableCounted (n + d.length) ds
    inferInstanceAs (Decidable (_ ∧ _))

theorem counted_of_lt {n : Nat} {ds : List (List UInt8)} (h : n + ds.flatten.length < 2 ^ 32) :
    Counted n ds := by
  induction ds generalizing n with
  | nil => trivial
  | cons d ds ih =>
    rw [List.flatten_cons, List.length_append] at h
    exact ⟨fun hn => by rwa [Nat.mod_eq_of_lt (by omega)], ih (by omega)⟩

theorem Counted.append {n : Nat} {ds es : List (List UInt8)} (h : Counted n (ds ++ es)) :
    Counted (n + ds.flatten.length) es := by
  induction ds generalizing n with
  | nil => exact h
  | cons d ds ih =>
    rw [List.flatten_cons, List.length_append, ← Nat.add_assoc]
    exact ih h.2

theorem flatten_passedOn_cons (n : Nat) (d : List UInt8) (ds : List (List UInt8)) :
    (passedOn (UInt32.ofNat n) (d :: ds)).flatten =
      skipHeader (UInt32.ofNat n) d ++ (passedOn (UInt32.ofNat (n + d.length)) ds).flatten := by
  rw [passedOn, ← UInt32.ofNat_add]
  split
  · rename_i hskip
    rw [hskip.2, List.nil_append]
  · rw [List.flatten_cons]

theorem drop_flatten_cons (n : Nat) (d : List UInt8) (ds : List (List UInt8)) :
    (d :: ds).flatten.drop (10 - n) =
      d.drop (10 - n) ++ ds.flatten.drop (10 - (n + d.length)) := by
  rw [List.flatten_cons, List.drop_append, Nat.sub_sub]

/-- What is skipped of one packet. -/
theorem skipHeader_eq {n : Nat} (h : 10 ≤ n → 10 ≤ n % 2 ^ 32) (d : List UInt8) :
    skipHeader (UInt32.ofNat n) d = d.drop (10 - n) := by
  have hnat : (UInt32.ofNat n).toNat = n % 2 ^ 32 := UInt32.toNat_ofNat
  unfold skipHeader
  by_cases hn : 10 ≤ n
  · rw [if_neg, Nat.sub_eq_zero_of_le hn, List.drop_zero]
    intro hlt
    have hlt := UInt32.lt_iff_toNat_lt.mp hlt
    rw [hnat] at hlt
    exact absurd hlt (Nat.not_lt.mpr (h hn))
  · have hmod : n % 2 ^ 32 = n := Nat.mod_eq_of_lt (by omega)
    rw [if_pos, hnat, hmod]
    refine UInt32.lt_iff_toNat_lt.mpr ?_
    rw [hnat, hmod]
    show n < 10
    omega

theorem length_skipHeader_le (n : Nat) (d : List UInt8) :
    (skipHeader (UInt32.ofNat n) d).length ≤ (d.drop (10 - n)).length := by
  by_cases h : 10 ≤ n → 10 ≤ n % 2 ^ 32
  · exact Nat.le_of_eq (congrArg List.length (skipHeader_eq h d))
  · rw [not_forall] at h
    obtain ⟨hn, -⟩ := h
    rw [Nat.sub_eq_zero_of_le hn, List.drop_zero]
    unfold skipHeader
    split
    · rw [List.length_drop]
      omega
    · exact Nat.le_refl _

theorem length_passedOn_le (n : Nat) (ds : List (List UInt8)) :
    (passedOn (UInt32.ofNat n) ds).flatten.length ≤ (ds.flatten.drop (10 - n)).length := by
  induction ds generalizing n with
  | nil => exact Nat.zero_le _
  | cons d ds ih =>
    have hfirst := length_skipHeader_le n d
    have hrest := ih (n + d.length)
    rw [flatten_passedOn_cons, drop_flatten_cons, List.length_append, List.length_append]
    omega

/-- **The header of ten bytes**, in whatever packets it comes. -/
theorem flatten_passedOn_iff {ds : List (List UInt8)} (hds : ∀ d ∈ ds, d ≠ []) (n : Nat) :
    (passedOn (UInt32.ofNat n) ds).flatten = ds.flatten.drop (10 - n) ↔ Counted n ds := by
  induction ds generalizing n with
  | nil => exact iff_of_true (List.drop_nil).symm trivial
  | cons d ds ih =>
    obtain ⟨hd, hrest⟩ := List.forall_mem_cons.mp hds
    rw [flatten_passedOn_cons, drop_flatten_cons, Counted, ← ih hrest (n + d.length)]
    by_cases h : 10 ≤ n → 10 ≤ n % 2 ^ 32
    · rw [skipHeader_eq h, List.append_cancel_left_eq]
      exact (and_iff_right h).symm
    · -- a packet that loses bytes is never made good
      refine iff_of_false (fun heq => ?_) (fun hand => h hand.1)
      rw [not_forall] at h
      obtain ⟨hn, hwrapped⟩ := h
      have hlen := congrArg List.length heq
      have hle := length_passedOn_le (n + d.length) ds
      have hpos := List.length_pos_iff.mpr hd
      have hnat : (UInt32.ofNat n).toNat = n % 2 ^ 32 := UInt32.toNat_ofNat
      have hlt : UInt32.ofNat n < 10 := by
        refine UInt32.lt_iff_toNat_lt.mpr ?_
        rw [hnat]
        show n % 2 ^ 32 < 10
        omega
      rw [List.length_append, List.length_append, Nat.sub_eq_zero_of_le hn, List.drop_zero,
        skipHeader, if_pos hlt, List.length_drop, hnat] at hlen
      omega

/-! ## `despotify_gzip_callback` -/

section

variable (mem : Nat → UInt8)

/-- The callback on `ds->response`; the signal at the end does not touch it. -/
def despotifyGzipCallback (response : Buf) (ch : Channel Sync.Handler) (buf : List UInt8) :
    Option Buf :=
  match ch.state with
  | .data =>
    let rest := Sync.skipGzipHeader ch.totalDataLen buf
    if ch.totalDataLen < 10 ∧ rest = [] then some response else response.append mem rest
  | .header | .ended | .error => some response

/-- As a callback of the channel: the response is `none` once its size has overflowed. -/
def gzipResponse : Callback (Option Buf) Sync.Handler := fun response ch buf =>
  (response.bind fun b => despotifyGzipCallback mem b ch buf, [], 0)

variable {mem}

/-- The response of a session is the bytes in use of its buffer. -/
theorem gzipCallback_response {b b' : Buf} (hb : b.Sound) {ch : Channel Sync.Handler}
    {buf : List UInt8} (h : despotifyGzipCallback mem b ch buf = some b') {ds : Sync.Ds}
    (hds : ds.response = .buf b.data) : (Sync.gzipCallback ds ch buf).response = .buf b'.data := by
  have hsignal : ∀ p, (ds.signal p).response = ds.response := by
    intro p
    unfold Sync.Ds.signal
    split <;> rfl
  unfold despotifyGzipCallback at h
  unfold Sync.gzipCallback
  cases hstate : ch.state with
  | header =>
    rw [hstate] at h
    cases h
    exact hds
  | ended =>
    rw [hstate] at h
    cases h
    exact (hsignal _).trans hds
  | error =>
    rw [hstate] at h
    cases h
    exact (hsignal _).trans hds
  | data =>
    rw [hstate] at h
    dsimp only at h ⊢
    by_cases hskip : ch.totalDataLen < 10 ∧ Sync.skipGzipHeader ch.totalDataLen buf = []
    · rw [if_pos hskip] at h ⊢
      cases h
      exact hds
    · rw [if_neg hskip] at h ⊢
      by_cases hfits : b.len + (Sync.skipGzipHeader ch.totalDataLen buf).length ≤ 2 ^ 30
      · obtain ⟨b'', hb'', -, -, hdata⟩ := @Buf.append_some mem b hb _ hfits
        rw [hb''] at h
        cases h
        rw [Sync.Ds.append, hds, hdata]
      · rw [Buf.append_none hb (by omega)] at h
        cases h

theorem replay_none (calls : List (Call Sync.Handler)) :
    replay (gzipResponse mem) none calls = none := by
  induction calls with
  | nil => rfl
  | cons c calls ih => exact ih

/-- The data packets append the packets without the header. -/
theorem replay_gzipResponse (b : Buf) {ch : Channel Sync.Handler} (hstate : ch.state = .data)
    {ds : List (List UInt8)} (hds : ∀ d ∈ ds, d ≠ []) :
    replay (gzipResponse mem) (some b) (dataCalls ch ds) =
      Runs.exec (Buf.append mem) b (passedOn ch.totalDataLen ds) := by
  induction ds generalizing b ch with
  | nil => rfl
  | cons d ds ih =>
    obtain ⟨hd, hrest⟩ := List.forall_mem_cons.mp hds
    have hon : ch.onData d = ch := Channel.onData_of_ne hd
    have hafter : ch.afterData d =
        { ch with totalDataLen := ch.totalDataLen + UInt32.ofNat d.length } := by
      rw [Channel.afterData, hon]
    have hnext : (ch.afterData d).state = .data := by
      rw [hafter]
      exact hstate
    have htotal : (ch.afterData d).totalDataLen = ch.totalDataLen + UInt32.ofNat d.length := by
      rw [hafter]
    have hcall : (gzipResponse mem (some b) ch d).1 =
        if ch.totalDataLen < 10 ∧ skipHeader ch.totalDataLen d = [] then some b
        else b.append mem (skipHeader ch.totalDataLen d) := by
      show despotifyGzipCallback mem b ch d = _
      unfold despotifyGzipCallback
      rw [hstate]
      rfl
    rw [dataCalls, replay_cons, hcall, passedOn]
    split
    · rw [ih b hnext hrest, htotal]
    · rw [Runs.exec_cons]
      cases b.append mem (skipHeader ch.totalDataLen d) with
      | none => exact replay_none _
      | some b' =>
        rw [ih b' hnext hrest, htotal]
        rfl

/-- Packets appended one after the other, as far as the size goes. -/
theorem exec_append_some {b : Buf} (hb : b.Sound) {pieces : List (List UInt8)}
    (h : b.len + pieces.flatten.length ≤ 2 ^ 30) :
    ∃ b', Runs.exec (Buf.append mem) b pieces = some b' ∧ b'.data = b.data ++ pieces.flatten := by
  induction pieces generalizing b with
  | nil => exact ⟨b, rfl, (List.append_nil _).symm⟩
  | cons piece pieces ih =>
    rw [List.flatten_cons, List.length_append] at h
    obtain ⟨b₁, hb₁, hsound, hlen, hdata⟩ := @Buf.append_some mem b hb piece (by omega)
    obtain ⟨b', hb', hdata'⟩ := ih hsound (by rw [hlen]; omega)
    refine ⟨b', Runs.exec_cons_eq_some.mpr ⟨b₁, hb₁, hb'⟩, ?_⟩
    rw [hdata', hdata, List.flatten_cons, List.append_assoc]

theorem sound_exec_append {b b' : Buf} (hb : b.Sound) {pieces : List (List UInt8)}
    (h : Runs.exec (Buf.append mem) b pieces = some b') : b'.Sound := by
  induction pieces generalizing b with
  | nil =>
    cases h
    exact hb
  | cons piece pieces ih =>
    obtain ⟨b₁, hb₁, h'⟩ := Runs.exec_cons_eq_some.mp h
    refine ih ?_ h'
    by_cases hfits : b.len + piece.length ≤ 2 ^ 30
    · obtain ⟨b₂, hb₂, hsound, -⟩ := @Buf.append_some mem b hb _ hfits
      rw [hb₁] at hb₂
      cases hb₂
      exact hsound
    · rw [Buf.append_none hb (by omega)] at hb₁
      cases hb₁

/-- **The response of the library**, from an empty buffer on. -/
theorem gzipResponse_iff {w : World (Option Buf) Sync.Handler} {ch : Channel Sync.Handler}
    (h : Receiving w ch) (hnew : w.client = some (.new mem)) {ds : List (List UInt8)}
    (hds : ∀ d ∈ ds, d ≠ []) :
    (∃ b, (feedData (gzipResponse mem) w ch.channelId ds).client = some b ∧
      b.data = ds.flatten.drop 10) ↔ ds.flatten.length ≤ 2 ^ 30 + 10 := by
  rw [feedData_client _ h.inv h.mem h.onWire h.state hds, hnew,
    replay_gzipResponse _ h.state hds, h.total]
  constructor
  · rintro ⟨b, hb, hdata⟩
    have hsound := sound_exec_append Buf.sound_new hb
    have hlen := congrArg List.length hdata
    rw [Buf.length_data hsound, List.length_drop] at hlen
    obtain ⟨k, hk, hpow⟩ := hsound.pow
    have hsize : 2 ^ k ≤ 2 ^ 30 := Nat.pow_le_pow_right (by omega) hk
    have hle := hsound.len_le
    omega
  · intro hlen
    have hcounted : Counted 0 ds := counted_of_lt (by omega)
    have hflat : (passedOn 0 ds).flatten = ds.flatten.drop 10 :=
      (flatten_passedOn_iff hds 0).mpr hcounted
    have hfits : (Buf.new mem).len + (passedOn 0 ds).flatten.length ≤ 2 ^ 30 := by
      rw [hflat, List.length_drop]
      show 0 + _ ≤ _
      omega
    obtain ⟨b, hb, hdata⟩ := @exec_append_some mem _ Buf.sound_new _ hfits
    exact ⟨b, hb, by rw [hdata, hflat, Buf.data_new, List.nil_append]⟩

end

/-! ## The callbacks of `search` and `browse` -/

/-- A callback on the decompression context of its command. -/
def onContext (callback : Channel Handler → List UInt8 → Access) :
    Callback DecompressCtx Handler := fun dctx ch buf =>
  match callback ch buf with
  | .skip | .complete => (dctx, [], 0)
  | .context f =>
    match f (.dctx dctx) with
    | some ⟨some (.dctx dctx'), _, _, ret⟩ => (dctx', [], ret)
    | some reaction => (dctx, [], reaction.ret)
    | none => (dctx, [], 0)

/-- The data packets pass on the packets without the header. -/
theorem replay_onContext (decompress : DecompressCtx → List UInt8 → DecompressCtx × Int)
    (dctx : DecompressCtx) {ch : Channel Handler} (hstate : ch.state = .data)
    {ds : List (List UInt8)} (hds : ∀ d ∈ ds, d ≠ []) :
    replay (onContext (compressedCallback decompress)) dctx (dataCalls ch ds) =
      (passedOn ch.totalDataLen ds).foldl (fun dctx data => (decompress dctx data).1) dctx := by
  induction ds generalizing dctx ch with
  | nil => rfl
  | cons d ds ih =>
    obtain ⟨hd, hrest⟩ := List.forall_mem_cons.mp hds
    have hon : ch.onData d = ch := Channel.onData_of_ne hd
    have hafter : ch.afterData d =
        { ch with totalDataLen := ch.totalDataLen + UInt32.ofNat d.length } := by
      rw [Channel.afterData, hon]
    have hnext : (ch.afterData d).state = .data := by
      rw [hafter]
      exact hstate
    have htotal : (ch.afterData d).totalDataLen = ch.totalDataLen + UInt32.ofNat d.length := by
      rw [hafter]
    have hcall : (onContext (compressedCallback decompress) dctx ch d).1 =
        if ch.totalDataLen < 10 ∧ skipHeader ch.totalDataLen d = [] then dctx
        else (decompress dctx (skipHeader ch.totalDataLen d)).1 := by
      by_cases hskip : ch.totalDataLen < 10 ∧ skipHeader ch.totalDataLen d = []
      · have haccess : compressedCallback decompress ch d = .skip := by
          unfold compressedCallback
          rw [hstate]
          exact if_pos hskip
        rw [onContext, haccess, if_pos hskip]
      · have haccess : compressedCallback decompress ch d =
            .onDctx fun dctx =>
              ⟨some (.dctx (decompress dctx (skipHeader ch.totalDataLen d)).1), none, false,
                (decompress dctx (skipHeader ch.totalDataLen d)).2⟩ := by
          unfold compressedCallback
          rw [hstate]
          exact if_neg hskip
        rw [onContext, haccess, if_neg hskip]
        rfl
    rw [dataCalls, replay_cons, hcall, ih _ hnext hrest, htotal, passedOn]
    split <;> rfl

/-! ## The three callbacks -/

/-- **The gzip header is skipped**: of a reply in any packets the library appends, and the
gateway passes on to the decompressor, what is behind the first ten bytes, exactly as long as
the response fits an `int` and the count of the bytes does not come around. -/
theorem headerSkipped_iff {ds : List (List UInt8)} (hds : ∀ d ∈ ds, d ≠ []) :
    (∀ (mem : Nat → UInt8) (w : World (Option Buf) Sync.Handler) (ch : Channel Sync.Handler),
      Receiving w ch → w.client = some (.new mem) →
        ((∃ b, (feedData (gzipResponse mem) w ch.channelId ds).client = some b ∧
          b.data = ds.flatten.drop 10) ↔ ds.flatten.length ≤ 2 ^ 30 + 10)) ∧
    (∀ (lib : Lib) (w : World DecompressCtx Handler) (ch : Channel Handler), Receiving w ch →
      (feedData (onContext (gwSearchResultCallback lib)) w ch.channelId ds).client =
          (passedOn 0 ds).foldl (fun dctx data => (gwSearchResultDecompress lib dctx data).1)
            w.client ∧
        (feedData (onContext (gwBrowseResultCallback lib)) w ch.channelId ds).client =
          (passedOn 0 ds).foldl (fun dctx data => (gwBrowseResultDecompress lib dctx data).1)
            w.client) ∧
    ((passedOn 0 ds).flatten = ds.flatten.drop 10 ↔ Counted 0 ds) := by
  refine ⟨fun mem w ch h hnew => gzipResponse_iff h hnew hds, fun lib w ch h => ?_,
    flatten_passedOn_iff hds 0⟩
  rw [feedData_client _ h.inv h.mem h.onWire h.state hds,
    feedData_client _ h.inv h.mem h.onWire h.state hds, ← h.total]
  exact ⟨replay_onContext _ _ h.state hds, replay_onContext _ _ h.state hds⟩

/-- A channel that has received its headers, alone in the table. -/
def dataChannel {κ : Type} (callback : κ) : Channel κ :=
  { ptr := 0, channelId := 0, headerId := 0, state := .data, totalHeaderLen := 0,
    totalDataLen := 0, name := [], callback := callback }

def oneChannel {σ κ : Type} (callback : κ) (client : σ) : World σ κ :=
  ⟨⟨[dataChannel callback], 1, 1⟩, client, []⟩

theorem receiving_oneChannel {σ κ : Type} (callback : κ) (client : σ) :
    Receiving (oneChannel callback client) (dataChannel callback) := by
  refine ⟨⟨List.nodup_singleton _, ?_, List.nodup_singleton _, ?_⟩, List.mem_singleton.mpr rfl,
    Nat.zero_lt_succ _, rfl, rfl⟩
  · intro ch hch
    obtain rfl := List.mem_singleton.mp hch
    exact nofun
  · intro ch hch
    obtain rfl := List.mem_singleton.mp hch
    exact Nat.zero_lt_one

/-- Memory as `calloc` would return it. -/
def zeros : Nat → UInt8 := fun _ => 0

/-- A header in two packets, and one byte behind it. -/
theorem skipped_small :
    ∃ b, (feedData (gzipResponse zeros) (oneChannel .gzip (some (.new zeros))) 0
        [[1, 2, 3], [4, 5, 6, 7, 8, 9, 10, 11]]).client = some b ∧ b.data = [11] := by
  have hne : ∀ d ∈ [[1, 2, 3], [4, 5, 6, 7, 8, 9, 10, (11 : UInt8)]], d ≠ [] := by decide
  exact ((headerSkipped_iff hne).1 zeros _ _ (receiving_oneChannel _ _) rfl).mpr (by decide)

theorem longReply_lost {ds : List (List UInt8)} (hds : ∀ d ∈ ds, d ≠ [])
    (hlong : 2 ^ 30 + 10 < ds.flatten.length) :
    ¬ ∃ b, (feedData (gzipResponse zeros) (oneChannel .gzip (some (.new zeros))) 0 ds).client =
      some b ∧ b.data = ds.flatten.drop 10 := fun h =>
  Nat.not_le.mpr hlong ((gzipResponse_iff (receiving_oneChannel .gzip _) rfl hds).mp h)

/-- Packets that are as long as packets get, then one that starts 4 GiB into the reply. -/
def hugePackets : List (List UInt8) :=
  List.replicate 65539 (List.replicate 65533 0) ++ [List.replicate 9 0] ++ [[0]]

/-- A reply of more than 4 GiB overflows the size of the response; and at the last packet the
count has come around to the header. -/
theorem hugePackets_notSkipped :
    (∀ d ∈ hugePackets, d ≠ [] ∧ d.length ≤ 65533) ∧
    (¬ ∃ b, (feedData (gzipResponse zeros) (oneChannel .gzip (some (.new zeros))) 0
        hugePackets).client = some b ∧ b.data = hugePackets.flatten.drop 10) ∧
    (passedOn 0 hugePackets).flatten ≠ hugePackets.flatten.drop 10 := by
  have hlen : (List.replicate 65539 (List.replicate 65533 (0 : UInt8)) ++
      [List.replicate 9 0]).flatten.length = 2 ^ 32 := by
    have hsum : (List.replicate 65539 (List.replicate 65533 (0 : UInt8)) ++
        [List.replicate 9 0]).flatten.length = 65539 * 65533 + 9 := by
      rw [List.flatten_append, List.length_append, List.length_flatten, List.map_replicate,
        List.sum_replicate_nat, List.length_replicate, List.flatten_cons, List.flatten_nil,
        List.append_nil, List.length_replicate]
    omega
  have hall : ∀ d ∈ hugePackets, d ≠ [] ∧ d.length ≤ 65533 := by
    intro d hd
    obtain ⟨n, hpos, hn, rfl⟩ : ∃ n, 0 < n ∧ n ≤ 65533 ∧ d = List.replicate n 0 := by
      rcases List.mem_append.mp hd with hd | hd
      · rcases List.mem_append.mp hd with hd | hd
        · exact ⟨65533, by omega, by omega, (List.mem_replicate.mp hd).2⟩
        · exact ⟨9, by omega, by omega, List.mem_singleton.mp hd⟩
      · exact ⟨1, by omega, by omega, List.mem_singleton.mp hd⟩
    rw [List.length_replicate]
    exact ⟨List.ne_nil_of_length_pos (by rw [List.length_replicate]; exact hpos), hn⟩
  have hne : ∀ d ∈ hugePackets, d ≠ [] := fun d hd => (hall d hd).1
  refine ⟨hall, longReply_lost hne ?_, fun h => ?_⟩
  · rw [hugePackets, List.flatten_append, List.length_append, hlen]
    omega
  · have hcounted : Counted 0 hugePackets := (flatten_passedOn_iff hne 0).mp h
    obtain ⟨hwrapped, -⟩ := hcounted.append
    rw [hlen] at hwrapped
    exact absurd (hwrapped (by omega)) (by decide)

end Despotify.Gateway

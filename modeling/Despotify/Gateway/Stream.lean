import Despotify.Channel.Receive
import Despotify.Gateway.Output
import Despotify.Player.Plain

/-!
# Decryption in the gateway

* `determined_iff`: what the library's player and the gateway make of a substream depends
  on the packets and on fresh memory, unless every packet has whole blocks.
* `seeks_iff`: a substream from an offset on is decrypted as it should be exactly for the
  offsets that are not negative as an `int`.
-/

namespace Despotify.Gateway

open Channels Player

/-! ## The packets of a stream -/

section

variable (lib : Lib)

theorem decryptUnits_eq (key : List UInt8) (n : Nat) (iv buf : List UInt8) :
    decryptUnits lib key n iv buf = unitsOf (lib.encrypt key) n iv buf := by
  induction n generalizing iv buf with
  | zero => rfl
  | succ n ih =>
    simp only [decryptUnits, unitsOf]
    rw [ih]

theorem decryptBlocks_eq (key : List UInt8) (n : Nat) (iv buf : List UInt8) :
    decryptBlocks lib key n iv buf = blocksOf (lib.encrypt key) n iv buf := by
  induction n generalizing iv buf with
  | zero => rfl
  | succ n ih =>
    simp only [decryptBlocks, blocksOf]
    rw [decryptUnits_eq, ih]

/-- The calls of `gw_file_stream_callback` for data packets, one after the other. -/
def gwStream : Channel Handler → StreamCtx → List (List UInt8) → StreamCtx
  | _, sctx, [] => sctx
  | ch, sctx, buf :: bufs => gwStream (ch.afterData buf) (sctx.decrypt lib ch buf) bufs

/-- The packets, each with what `malloc` returns for it. -/
def packetsOf : Channel Handler → List (List UInt8) → List Player.Packet
  | _, [] => []
  | ch, buf :: bufs => ⟨buf, lib.uninit ch.ptr ch.totalDataLen⟩ :: packetsOf (ch.afterData buf) bufs

theorem map_buf_packetsOf (ch : Channel Handler) (bufs : List (List UInt8)) :
    (packetsOf lib ch bufs).map Player.Packet.buf = bufs := by
  induction bufs generalizing ch with
  | nil => rfl
  | cons buf bufs ih => exact congrArg (buf :: ·) (ih _)

theorem decrypt_eq (sctx : StreamCtx) (ch : Channel Handler) (buf : List UInt8) :
    sctx.decrypt lib ch buf =
      ⟨sctx.data ++ Player.Packet.plain (lib.encrypt sctx.key) sctx.IV
          ⟨buf, lib.uninit ch.ptr ch.totalDataLen⟩,
        sctx.key, Player.Packet.nextIV (lib.encrypt sctx.key) sctx.IV
          ⟨buf, lib.uninit ch.ptr ch.totalDataLen⟩⟩ := by
  unfold StreamCtx.decrypt
  rw [decryptBlocks_eq]
  rfl

/-- What the gateway has of the stream. -/
theorem gwStream_data (ch : Channel Handler) (sctx : StreamCtx) (bufs : List (List UInt8)) :
    (gwStream lib ch sctx bufs).data =
      sctx.data ++ plainRun (lib.encrypt sctx.key) sctx.IV (packetsOf lib ch bufs) := by
  induction bufs generalizing ch sctx with
  | nil => exact (List.append_nil _).symm
  | cons buf bufs ih =>
    rw [gwStream, ih, decrypt_eq, packetsOf, plainRun, List.append_assoc]

theorem mem_packetsOf_whole {ch : Channel Handler} {bufs : List (List UInt8)}
    (h : ∀ buf ∈ bufs, buf.length % 1024 = 0) :
    ∀ p ∈ packetsOf lib ch bufs, p.buf.length % 1024 = 0 := by
  intro p hp
  refine h p.buf ?_
  rw [← map_buf_packetsOf lib ch bufs]
  exact List.mem_map_of_mem hp

/-- Packets of whole blocks, with the counter for the file offset `base`. -/
theorem gwStream_whole {base : Nat} (hbase : base % 1024 = 0) (ch : Channel Handler)
    (data key : List UInt8) {bufs : List (List UInt8)} (h : ∀ buf ∈ bufs, buf.length % 1024 = 0) :
    (gwStream lib ch ⟨data, key, ivAt (base / 16)⟩ bufs).data =
      data ++ plainAt (lib.encrypt key) base bufs.flatten := by
  rw [gwStream_data, plainRun_eq hbase (mem_packetsOf_whole lib h), map_buf_packetsOf]

end

/-! ## Splits of a substream -/

/-- What the library's player hands on is the same for both splits, whatever `malloc`
returns. -/
def HandsOnSame {A : Type} (env : Env A) (ds : Ds A) (ps qs : List (List UInt8)) : Prop :=
  ∀ xs ys : List Received, xs.map (·.1.1) = ps → ys.map (·.1.1) = qs →
    (handedOn env ds xs).map (·.map Cell.byte) = (handedOn env ds ys).map (·.map Cell.byte)

/-- The gateway's data are the same for both splits, whatever `malloc` returns. -/
def StreamsSame (lib : Lib) (sctx : StreamCtx) (ps qs : List (List UInt8)) : Prop :=
  ∀ uninit uninit' ch ch',
    (gwStream { lib with uninit := uninit } ch sctx ps).data =
      (gwStream { lib with uninit := uninit' } ch' sctx qs).data

/-- The packets over memory that holds the byte `b`. -/
def receivedOver (b : UInt8) (bufs : List (List UInt8)) : List Received :=
  bufs.map fun buf => ⟨(buf, List.replicate (buf.length + 1024) b), List.length_replicate⟩

theorem map_receivedOver (b : UInt8) (bufs : List (List UInt8)) :
    (receivedOver b bufs).map (·.1.1) = bufs := by
  rw [receivedOver, List.map_map]
  exact List.map_id bufs

theorem plainRun_receivedOver (E : List UInt8 → Nat → UInt8) (iv : List UInt8) (b : UInt8)
    (bufs : List (List UInt8)) :
    plainRun E iv ((receivedOver b bufs).map Received.packet) = plainRun E iv (onto b bufs) := by
  induction bufs generalizing iv with
  | nil => rfl
  | cons buf bufs ih =>
    refine congrArg₂ (· ++ ·) (List.map_congr_left fun i hi => ?_) (ih _)
    have hi : i < buf.length + 1024 := Nat.lt_add_right _ (List.mem_range.mp hi)
    show ((_ : Option UInt8)).getD ((List.replicate (buf.length + 1024) b).getD i 0) = _
    rw [List.getD_eq_getElem?_getD (l := List.replicate _ _), List.getElem?_replicate_of_lt hi,
      Option.getD_some]
    rfl

theorem map_buf_packet (xs : List Received) :
    (xs.map Received.packet).map Player.Packet.buf = xs.map (·.1.1) := by
  rw [List.map_map]
  rfl

theorem plainRun_received {E : List UInt8 → Nat → UInt8} {iv : List UInt8} {xs : List Received}
    (h : ∀ buf ∈ xs.map (·.1.1), buf.length % 1024 = 0) :
    plainRun E iv (xs.map Received.packet) =
      (blocksOf E ((xs.map (·.1.1)).flatten.length / 1024) iv (xs.map (·.1.1)).flatten).1 := by
  rw [plainRun_whole, map_buf_packet]
  intro p hp
  refine h p.buf ?_
  rw [← map_buf_packet]
  exact List.mem_map_of_mem hp

theorem packetsOf_over (lib : Lib) (b : UInt8) (ch : Channel Handler) (bufs : List (List UInt8)) :
    packetsOf { lib with uninit := fun _ _ _ => b } ch bufs = onto b bufs := by
  induction bufs generalizing ch with
  | nil => rfl
  | cons buf bufs ih => exact congrArg (_ :: ·) (ih _)

theorem handedOn_bytes {A : Type} (env : Env A) {ds : Ds A} (hfifo : ds.fifo ≠ none)
    (xs : List Received) :
    (handedOn env ds xs).map (·.map Cell.byte) =
      some (plainRun (env.encrypt ds.aesState) ds.iv (xs.map Received.packet)) := by
  obtain ⟨out, hout, hbytes⟩ := handedOn_eq env hfifo xs
  rw [hout, Option.map_some, hbytes]

theorem handsOnSame_iff {A : Type} (env : Env A) {ds : Ds A} (hfifo : ds.fifo ≠ none)
    {ps qs : List (List UInt8)} (hsplit : ps.flatten = qs.flatten) :
    HandsOnSame env ds ps qs ↔ ∀ buf ∈ ps ++ qs, buf.length % 1024 = 0 := by
  unfold HandsOnSame
  simp only [handedOn_bytes env hfifo, Option.some.injEq]
  constructor
  · intro h
    have hover (b c : UInt8) := h (receivedOver b ps) (receivedOver c qs) (map_receivedOver b ps)
      (map_receivedOver c qs)
    simp only [plainRun_receivedOver] at hover
    refine List.forall_mem_append.mpr ⟨?_, ?_⟩
    · exact whole_of_over ((hover 0 0).trans (hover 1 0).symm)
    · exact whole_of_over ((hover 0 0).symm.trans (hover 0 1))
  · intro h xs ys hxs hys
    obtain ⟨hps, hqs⟩ := List.forall_mem_append.mp h
    subst hxs hys
    rw [plainRun_received hps, plainRun_received hqs, hsplit]

theorem streamsSame_iff (lib : Lib) (sctx : StreamCtx) {ps qs : List (List UInt8)}
    (hsplit : ps.flatten = qs.flatten) :
    StreamsSame lib sctx ps qs ↔ ∀ buf ∈ ps ++ qs, buf.length % 1024 = 0 := by
  unfold StreamsSame
  simp only [gwStream_data]
  constructor
  · intro h
    have ch : Channel Handler := ⟨0, 0, 0, .data, 0, 0, [], ⟨.stream, 0⟩⟩
    have hover (b c : UInt8) := h (fun _ _ _ => b) (fun _ _ _ => c) ch ch
    simp only [packetsOf_over, List.append_cancel_left_eq] at hover
    refine List.forall_mem_append.mpr ⟨?_, ?_⟩
    · exact whole_of_over ((hover 0 0).trans (hover 1 0).symm)
    · exact whole_of_over ((hover 0 0).symm.trans (hover 0 1))
  · intro h uninit uninit' ch ch'
    obtain ⟨hps, hqs⟩ := List.forall_mem_append.mp h
    rw [plainRun_whole _ (mem_packetsOf_whole _ hps), plainRun_whole _ (mem_packetsOf_whole _ hqs),
      map_buf_packetsOf, map_buf_packetsOf, hsplit]

/-- **Every byte is decrypted** however a substream is split into packets, by the library's
player and by the gateway, if and only if all packets have whole blocks of 1024 bytes. -/
theorem determined_iff {A : Type} (env : Env A) {ds : Ds A} (hfifo : ds.fifo ≠ none) (lib : Lib)
    (sctx : StreamCtx) {ps qs : List (List UInt8)} (hsplit : ps.flatten = qs.flatten) :
    (HandsOnSame env ds ps qs ↔ ∀ buf ∈ ps ++ qs, buf.length % 1024 = 0) ∧
      (StreamsSame lib sctx ps qs ↔ ∀ buf ∈ ps ++ qs, buf.length % 1024 = 0) :=
  ⟨handsOnSame_iff env hfifo hsplit, streamsSame_iff lib sctx hsplit⟩

/-- zlib and AES that do nothing. -/
def plainLib : Lib := ⟨fun _ => ([], 0), fun _ block j => block.getD j 0, fun _ _ _ => 0⟩

/-- A block in one packet. -/
theorem determined_block :
    HandsOnSame noCipher started [List.replicate 1024 0] [List.replicate 1024 0] ∧
      StreamsSame plainLib ⟨[], [], IV0⟩ [List.replicate 1024 0] [List.replicate 1024 0] := by
  have hwhole : ∀ buf ∈ [List.replicate 1024 (0 : UInt8)] ++ [List.replicate 1024 0],
      buf.length % 1024 = 0 := by
    intro buf hbuf
    simp only [List.cons_append, List.nil_append, List.mem_cons, List.not_mem_nil, or_false,
      or_self] at hbuf
    rw [hbuf, List.length_replicate]
  have h := determined_iff noCipher (show started.fifo ≠ none by nofun) plainLib ⟨[], [], IV0⟩
    (show [List.replicate 1024 (0 : UInt8)].flatten = [List.replicate 1024 0].flatten from rfl)
  exact ⟨h.1.mpr hwhole, h.2.mpr hwhole⟩

/-- One byte in one packet is not decrypted. -/
theorem oneByte_undetermined :
    ¬ HandsOnSame noCipher started [[0]] [[0]] ∧ ¬ StreamsSame plainLib ⟨[], [], IV0⟩ [[0]] [[0]] := by
  constructor
  · intro h
    have hwhole := (handsOnSame_iff noCipher (show started.fifo ≠ none by nofun) rfl).mp h
    exact absurd (hwhole [0] (by simp)) (by decide)
  · intro h
    have hwhole := (streamsSame_iff plainLib ⟨[], [], IV0⟩ rfl).mp h
    exact absurd (hwhole [0] (by simp)) (by decide)

/-! ## The start of a substream -/

theorem repeat_incIV (n : Nat) : Nat.repeat incIV n IV0 = ivAt n := by
  induction n with
  | zero => exact ivAt_zero.symm
  | succ n ih => rw [Nat.repeat, ih, incIV_ivAt]

theorem startIV_eq (offset : UInt32) :
    startIV offset = ivAt (if offset.toNat < 2 ^ 31 then offset.toNat / 16 else 0) :=
  repeat_incIV _

theorem leBytes_inj {k a b : Nat} (h : leBytes k a = leBytes k b) : a % 256 ^ k = b % 256 ^ k := by
  induction k generalizing a b with
  | zero => rw [Nat.pow_zero, Nat.mod_one, Nat.mod_one]
  | succ k ih =>
    obtain ⟨hbyte, hrest⟩ := List.cons.inj h
    have hmod : a % 256 = b % 256 := by
      have hnat := congrArg UInt8.toNat hbyte
      rwa [UInt8.toNat_ofNat', UInt8.toNat_ofNat'] at hnat
    rw [Nat.pow_succ, Nat.mul_comm, Nat.mod_mul, Nat.mod_mul, hmod, ih hrest]

theorem length_leBytes (k n : Nat) : (leBytes k n).length = k := by
  induction k generalizing n with
  | zero => rfl
  | succ k ih => exact congrArg (· + 1) (ih _)

theorem length_ivAt (n : Nat) : (ivAt n).length = 16 := by
  rw [ivAt, List.length_reverse, length_leBytes]

/-- Counters within `2 ^ 64` of each other are different blocks. -/
theorem ivAt_inj {m n : Nat} (hm : m < 2 ^ 64) (hn : n < 2 ^ 64) (h : ivAt m = ivAt n) : m = n := by
  have hmod := leBytes_inj (List.reverse_injective h)
  omega

/-- A substream from the offset on is decrypted to what it is in the file decrypted from its
start, for every key and however the two are split into packets of whole blocks. -/
def Seeks (offset : UInt32) : Prop :=
  ∀ (lib : Lib) (key : List UInt8) (ch ch' : Channel Handler) (file bufs : List (List UInt8)),
    (∀ buf ∈ file, buf.length % 1024 = 0) → (∀ buf ∈ bufs, buf.length % 1024 = 0) →
    bufs.flatten <+: file.flatten.drop offset.toNat →
    (gwStream lib ch ⟨[], key, startIV offset⟩ bufs).data <+:
      (gwStream lib ch' ⟨[], key, startIV 0⟩ file).data.drop offset.toNat

theorem length_plainAt (E : List UInt8 → Nat → UInt8) (base : Nat) (wire : List UInt8) :
    (plainAt E base wire).length = wire.length := by
  rw [plainAt, List.length_map, List.length_range]

/-- The plaintext of blocks before others. -/
theorem plainAt_append (E : List UInt8 → Nat → UInt8) {base : Nat} (hbase : base % 1024 = 0)
    {a b : List UInt8} (ha : a.length % 1024 = 0) (hb : b.length % 1024 = 0) :
    plainAt E base (a ++ b) = plainAt E base a ++ plainAt E (base + a.length) b := by
  have ha' : a.length = 1024 * (a.length / 1024) := by omega
  have hb' : b.length = 1024 * (b.length / 1024) := by omega
  have hab : (a ++ b).length = 1024 * (a.length / 1024 + b.length / 1024) := by
    rw [List.length_append]
    omega
  have hnext : (base + a.length) % 1024 = 0 := by omega
  have h := blocksOf_append (E := E) _ (b.length / 1024) (ivAt (base / 16)) b ha'
  rw [blocksOf_eq E hbase hab, blocksOf_eq E hbase ha', ← ha', blocksOf_eq E hnext hb'] at h
  exact congrArg Prod.fst h

theorem seeks_of_lt {offset : UInt32} (haligned : offset.toNat % 4096 = 0)
    (hlt : offset.toNat < 2 ^ 31) : Seeks offset := by
  intro lib key ch ch' file bufs hfile hbufs hpre
  have hzero : startIV 0 = ivAt (0 / 16) := startIV_eq 0
  rw [hzero, startIV_eq, if_pos hlt, gwStream_whole lib (by omega) ch [] key hbufs,
    gwStream_whole lib rfl ch' [] key hfile, List.nil_append, List.nil_append]
  obtain ⟨rest, hrest⟩ := hpre
  have hwire := whole_flatten hbufs
  have hwhole := whole_flatten hfile
  by_cases hlong : offset.toNat ≤ file.flatten.length
  · obtain ⟨before, hbefore, hlen⟩ : ∃ before, file.flatten = before ++ (bufs.flatten ++ rest) ∧
        before.length = offset.toNat := by
      refine ⟨file.flatten.take offset.toNat, ?_, by rw [List.length_take]; omega⟩
      rw [hrest, List.take_append_drop]
    have htotal := congrArg List.length hbefore
    simp only [List.length_append] at htotal
    rw [hbefore, plainAt_append _ rfl (by omega) (by rw [List.length_append]; omega), hlen,
      Nat.zero_add, List.drop_left' (by rw [length_plainAt, hlen]),
      plainAt_append _ (by omega) hwire (by omega)]
    exact List.prefix_append _ _
  · rw [List.drop_eq_nil_of_le (by omega)] at hrest
    rw [(List.append_eq_nil_iff.mp hrest).1]
    exact List.nil_prefix

/-- Beyond `2 ^ 31` the keystream is that of the start. -/
theorem not_seeks_of_ge {offset : UInt32} (haligned : offset.toNat % 4096 = 0)
    (hge : 2 ^ 31 ≤ offset.toNat) : ¬ Seeks offset := by
  intro h
  have hoffset := offset.toNat_lt
  have ch : Channel Handler := ⟨0, 0, 0, .data, 0, 0, [], ⟨.stream, 0⟩⟩
  have hblock : ∀ buf ∈ [List.replicate 1024 (0 : UInt8)], buf.length % 1024 = 0 := by
    intro buf hbuf
    rw [List.mem_singleton.mp hbuf, List.length_replicate]
  have hfile : ∀ buf ∈ [List.replicate offset.toNat (0 : UInt8), List.replicate 1024 0],
      buf.length % 1024 = 0 := by
    refine List.forall_mem_cons.mpr ⟨?_, hblock⟩
    rw [List.length_replicate]
    omega
  have hone : [List.replicate 1024 (0 : UInt8)].flatten = List.replicate 1024 0 :=
    List.append_nil _
  have htwo : [List.replicate offset.toNat (0 : UInt8), List.replicate 1024 0].flatten =
      List.replicate offset.toNat 0 ++ List.replicate 1024 0 := by
    rw [List.flatten_cons, hone]
  have hpre := h plainLib [] ch ch _ _ hfile hblock
    ⟨[], by rw [List.append_nil, hone, htwo, List.drop_left' List.length_replicate]⟩
  have hzero : startIV 0 = ivAt (0 / 16) := startIV_eq 0
  have hstart : startIV offset = ivAt (0 / 16) := by rw [startIV_eq, if_neg (by omega)]
  rw [hzero, hstart, gwStream_whole plainLib rfl ch [] [] hblock,
    gwStream_whole plainLib rfl ch [] [] hfile, List.nil_append, List.nil_append, hone, htwo,
    plainAt_append _ rfl (by rw [List.length_replicate]; omega) (by rw [List.length_replicate]),
    List.drop_left' (by rw [length_plainAt, List.length_replicate]), List.length_replicate,
    Nat.zero_add] at hpre
  have heq := List.IsPrefix.eq_of_length hpre (by rw [length_plainAt, length_plainAt])
  -- the first sixteen bytes are the counter
  have hblocks : ivAt 0 = ivAt (offset.toNat / 16) := by
    refine List.ext_getElem (by rw [length_ivAt, length_ivAt]) fun j hj hj' => ?_
    rw [length_ivAt] at hj
    have hbyte := congrArg (·[j]?) heq
    have hdiv : (0 + j) / 16 = 0 := by omega
    have hmod : (0 + j) % 16 = j := by omega
    have hdiv' : (offset.toNat + j) / 16 = offset.toNat / 16 := by omega
    have hmod' : (offset.toNat + j) % 16 = j := by omega
    have hrange : (List.range 1024)[j]? = some j := List.getElem?_range (by omega)
    simp only [plainAt, List.length_replicate, List.getElem?_map, hrange, Option.map_some, hdiv, hmod,
      hdiv', hmod', Option.some.injEq, plainLib, UInt8.xor_right_inj] at hbyte
    rwa [List.getD_eq_getElem?_getD, List.getD_eq_getElem?_getD, List.getElem?_eq_getElem,
      List.getElem?_eq_getElem, Option.getD_some, Option.getD_some] at hbyte
  have hsame := ivAt_inj (by omega) (by omega) hblocks
  omega

/-- **Seeking in a file**: the counter a substream is decrypted with, and its plaintext, are
those of its place in the file if and only if the offset is not negative as an `int`. -/
theorem seeks_iff {offset : UInt32} (haligned : offset.toNat % 4096 = 0) :
    (startIV offset = ivAt (offset.toNat / 16) ↔ offset.toNat < 2 ^ 31) ∧
      (Seeks offset ↔ offset.toNat < 2 ^ 31) := by
  have hoffset := offset.toNat_lt
  refine ⟨⟨fun h => ?_, fun h => by rw [startIV_eq, if_pos h]⟩, ⟨fun h => ?_, seeks_of_lt haligned⟩⟩
  · by_contra hge
    rw [startIV_eq, if_neg hge] at h
    have hsame := ivAt_inj (by omega) (by omega) h
    omega
  · by_contra hge
    exact not_seeks_of_ge haligned (by omega) h

/-- 1 MB into the file. -/
theorem seeks_megabyte : startIV 1048576 = ivAt 65536 ∧ Seeks 1048576 := by
  have h := seeks_iff (show (1048576 : UInt32).toNat % 4096 = 0 from rfl)
  exact ⟨h.1.mpr (by decide), h.2.mpr (by decide)⟩

/-- 2 GB into the file. -/
theorem seek_fails : startIV 2147483648 = IV0 ∧ ¬ Seeks 2147483648 := by
  refine ⟨?_, not_seeks_of_ge rfl (by decide)⟩
  rw [startIV_eq]
  exact ivAt_zero

end Despotify.Gateway

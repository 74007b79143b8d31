import Despotify.Gateway.Stream
import Despotify.Java.Channel
import Despotify.Pool.Runs

/-!
# `ChannelPlayer` and `SubstreamCache`

The Java player decrypts a substream while it keeps the packets as they came, and stores
them when the channel ends; a substream in the cache is fed to it again later.

* `units_eq`: xored with the counter, the output of the cipher is the keystream.
* `plaintexts_agree`: the three players make the same plaintext of a track.
* `replays_iff`: a cached substream is played as it was received exactly when it is as long
  as was requested.
-/

namespace Despotify.Java

open Player (blocksOf unitsOf plainAt plainRun IV0 incIV deinterleave)

/-! ## The cipher -/

/-- A `Cipher` for `AES/CTR/NoPadding` after `init`: the key and the counter it starts with. -/
structure Cipher where
  key : Bytes
  iv : Bytes
  deriving DecidableEq, Repr

/-- `rijndaelEncrypt` in Java: the key, the block, the byte wanted. -/
abbrev Aes : Type := Bytes → Bytes → Nat → UInt8

/-- `doFinal` on at most one block. -/
def Cipher.doFinal (aes : Aes) (cipher : Cipher) (input : Bytes) : Bytes :=
  input.mapIdx fun j b => b ^^^ aes cipher.key cipher.iv j

theorem length_incLast (bs : Bytes) : (Player.incLast bs).length = bs.length := by
  induction bs with
  | nil => rfl
  | cons b bs ih =>
    unfold Player.incLast
    split
    · rfl
    · exact congrArg (· + 1) ih

theorem length_incIV (iv : Bytes) : (incIV iv).length = iv.length := by
  rw [incIV, List.length_reverse, length_incLast, List.length_reverse]

/-- `cipher`, `key` and `iv` of the player. -/
structure Decryptor where
  cipher : Cipher
  key : Bytes
  iv : Bytes
  /-- each new counter is given to the cipher at once -/
  inits : cipher = ⟨key, iv⟩
  length_iv : iv.length = 16

/-- The constructor. -/
def Decryptor.new (key : Bytes) : Decryptor := ⟨⟨key, IV0⟩, key, IV0, rfl, rfl⟩

/-- Update IV counter and set new IV. -/
def Decryptor.next (d : Decryptor) : Decryptor :=
  ⟨⟨d.key, incIV d.iv⟩, d.key, incIV d.iv, rfl, (length_incIV d.iv).trans d.length_iv⟩

section

variable (aes : Aes)

/-- `n` units of 16 bytes. -/
def units : Nat → Decryptor → Bytes → Bytes × Decryptor
  | 0, d, _ => ([], d)
  | n + 1, d, ciphertext =>
    let keystream := d.cipher.doFinal aes d.iv
    -- the counter is xored out again
    let unit := (ciphertext.take 16).mapIdx fun j c => c ^^^ (keystream.getD j 0 ^^^ d.iv.getD j 0)
    let (rest, d) := units n d.next (ciphertext.drop 16)
    (unit ++ rest, d)

/-- `n` blocks of 1024 bytes. -/
def blocks : Nat → Decryptor → Bytes → Bytes × Decryptor
  | 0, d, _ => ([], d)
  | n + 1, d, data =>
    let (block, d) := units aes 64 d (deinterleave (data.take 1024))
    let (rest, d) := blocks n d (data.drop 1024)
    (block ++ rest, d)

/-- The output of the cipher is the counter xored with the keystream. -/
theorem keystream_eq (d : Decryptor) {j : Nat} (hj : j < 16) :
    (d.cipher.doFinal aes d.iv).getD j 0 ^^^ d.iv.getD j 0 = aes d.key d.iv j := by
  have hiv : j < d.iv.length := by rw [d.length_iv]; exact hj
  have hkey : d.cipher = ⟨d.key, d.iv⟩ := d.inits
  rw [List.getD_eq_getElem?_getD, List.getD_eq_getElem?_getD, Cipher.doFinal,
    List.getElem?_mapIdx, List.getElem?_eq_getElem hiv, hkey, Option.map_some, Option.getD_some,
    Option.getD_some, UInt8.xor_comm, ← UInt8.xor_assoc, UInt8.xor_self, UInt8.zero_xor]

theorem units_eq (n : Nat) (d : Decryptor) (ciphertext : Bytes) :
    (units aes n d ciphertext).1 = (unitsOf (aes d.key) n d.iv ciphertext).1 ∧
      (units aes n d ciphertext).2.key = d.key ∧
      (units aes n d ciphertext).2.iv = (unitsOf (aes d.key) n d.iv ciphertext).2 := by
  induction n generalizing d ciphertext with
  | zero => exact ⟨rfl, rfl, rfl⟩
  | succ n ih =>
    obtain ⟨hout, hkey, hiv⟩ := ih d.next (ciphertext.drop 16)
    refine ⟨congrArg₂ (· ++ ·) ?_ hout, hkey, hiv⟩
    refine List.ext_getElem (by simp) fun j hj _ => ?_
    rw [List.length_mapIdx, List.length_take] at hj
    simp only [List.getElem_mapIdx]
    rw [keystream_eq aes d (by omega)]

theorem blocks_eq (n : Nat) (d : Decryptor) (data : Bytes) :
    (blocks aes n d data).1 = (blocksOf (aes d.key) n d.iv data).1 ∧
      (blocks aes n d data).2.key = d.key ∧
      (blocks aes n d data).2.iv = (blocksOf (aes d.key) n d.iv data).2 := by
  induction n generalizing d data with
  | zero => exact ⟨rfl, rfl, rfl⟩
  | succ n ih =>
    have hblock := units_eq aes 64 d (deinterleave (data.take 1024))
    simp only [blocks, blocksOf]
    generalize units aes 64 d (deinterleave (data.take 1024)) = block at hblock ⊢
    generalize unitsOf (aes d.key) 64 d.iv (deinterleave (data.take 1024)) = block' at hblock ⊢
    obtain ⟨hout, hkey, hiv⟩ := hblock
    obtain ⟨hout', hkey', hiv'⟩ := ih block.2 (data.drop 1024)
    rw [hkey, hiv] at hout' hiv'
    exact ⟨by rw [hout, hout'], hkey'.trans hkey, hiv'⟩

end

/-! ## The player -/

/-- `streamLength`: 5 seconds, 160 kbit ogg data. -/
def streamLength : Nat := 160 * 1024 * 5 / 8

/-- The fields of the player its listener methods use. -/
structure ChannelPlayer where
  decryptor : Decryptor
  /-- `track.getFiles().get(0)` -/
  file : String
  streamOffset : Int
  receivedLength : Nat
  loading : Bool
  cacheData : Option Bytes
  /-- what has been written to `output` -/
  output : Bytes
  closed : Bool
  /-- the cached files of the category `substream` -/
  cache : String → Option Bytes

namespace ChannelPlayer

/-- The constructor, up to its first request. -/
def new (key : Bytes) (file : String) (cache : String → Option Bytes) : ChannelPlayer :=
  ⟨.new key, file, 0, 0, true, none, [], false, cache⟩

/-- `cache.hash(track, streamOffset, streamLength)`. -/
def hash (p : ChannelPlayer) : String :=
  p.file ++ "/" ++ p.file ++ "-" ++ toString p.streamOffset ++ "-" ++ toString streamLength

def channelHeader (p : ChannelPlayer) : ChannelPlayer :=
  { p with cacheData := some (List.replicate streamLength 0), receivedLength := 0 }

/-- Copy data to the cache buffer; beyond its end, or without one, an exception. -/
def copyData (cacheData : Option Bytes) (received : Nat) (data : Bytes) : Option (Option Bytes) :=
  if data = [] then some cacheData
  else
    match cacheData with
    | none => none
    | some buffer =>
      if received + data.length ≤ buffer.length then
        some (some (buffer.take received ++ data ++ buffer.drop (received + data.length)))
      else none

section

variable (aes : Aes)

/-- `ciphertext` as it is written: a new array holds zeros behind the last whole block. -/
def plaintext (d : Decryptor) (data : Bytes) : Bytes :=
  let plain := (blocks aes (data.length / 1024) d data).1
  plain ++ List.replicate (data.length - plain.length) 0

def channelData (p : ChannelPlayer) (data : Bytes) : Option ChannelPlayer :=
  (copyData p.cacheData p.receivedLength data).map fun cacheData =>
    { p with
      cacheData := cacheData
      decryptor := (blocks aes (data.length / 1024) p.decryptor data).2
      -- a closed pipe throws, and nobody cares
      output := if p.closed then p.output else p.output ++ plaintext aes p.decryptor data
      receivedLength := p.receivedLength + data.length }

/-- `cache.store` unless it `contains` the hash; `null` is not stored, it throws. -/
def store (p : ChannelPlayer) : Option ChannelPlayer :=
  if (p.cache p.hash).isSome then some p
  else
    p.cacheData.map fun data => { p with cache := Function.update p.cache p.hash (some data) }

def channelEnd (p : ChannelPlayer) : Option ChannelPlayer :=
  p.store.map fun p =>
    { p with loading := false, closed := p.closed || decide (p.receivedLength < streamLength) }

/-- A call on the listener; `none` where it throws. -/
def on (p : ChannelPlayer) : Event → Option ChannelPlayer
  | .channelHeader _ => some p.channelHeader
  | .channelData data => p.channelData aes data
  | .channelEnd => p.channelEnd
  | .channelError => some p

/-- `SubstreamCache.load`. -/
def load (p : ChannelPlayer) : Option ChannelPlayer :=
  match p.cache p.hash with
  | none => none
  | some data => Runs.exec (on aes) p [.channelHeader [], .channelData data, .channelEnd]

end

/-- The headers of a substream and its packets. -/
def arrival (headers packets : List Bytes) : List Event :=
  headers.map .channelHeader ++ packets.map .channelData

/-! ## What arrives -/

variable {aes : Aes}

/-- The packets, over arrays of zeros. -/
abbrev overZeros (packets : List Bytes) : List Player.Packet := Player.onto 0 packets

theorem plaintext_eq (d : Decryptor) (data : Bytes) :
    plaintext aes d data = Player.Packet.plain (aes d.key) d.iv ⟨data, fun _ => 0⟩ := by
  have hout := (blocks_eq aes (data.length / 1024) d data).1
  have hlen := Player.length_blocksOf (E := aes d.key) (data.length / 1024) d.iv data
  unfold plaintext
  dsimp only
  rw [hout]
  refine List.ext_getElem ?_ fun i hi hi' => ?_
  · rw [Player.Packet.length_plain, List.length_append, List.length_replicate, hlen]
    show _ = data.length
    omega
  have hi : i < data.length := by rwa [Player.Packet.length_plain] at hi'
  simp only [Player.Packet.plain, List.getElem_map, List.getElem_range]
  by_cases hin : i < 1024 * (data.length / 1024)
  · rw [List.getElem_append_left (by omega), List.getElem?_eq_getElem (by omega), Option.getD_some]
  · rw [List.getElem_append_right (by omega), List.getElem_replicate,
      List.getElem?_eq_none (by omega), Option.getD_none]

/-- The substream buffer is there, and has room for so many bytes more. -/
def HasRoom (p : ChannelPlayer) (n : Nat) : Prop :=
  ∃ buffer, p.cacheData = some buffer ∧ buffer.length = streamLength ∧
    p.receivedLength + n ≤ streamLength

/-- What the packets do to the player. -/
structure Received (aes : Aes) (p q : ChannelPlayer) (packets : List Bytes) : Prop where
  output : q.output =
    if p.closed then p.output
    else p.output ++ plainRun (aes p.decryptor.key) p.decryptor.iv (overZeros packets)
  key : q.decryptor.key = p.decryptor.key
  iv : q.decryptor.iv = Player.ivRun (aes p.decryptor.key) p.decryptor.iv (overZeros packets)
  closed : q.closed = p.closed
  file : q.file = p.file
  streamOffset : q.streamOffset = p.streamOffset
  cache : q.cache = p.cache
  receivedLength : q.receivedLength = p.receivedLength + packets.flatten.length
  cacheData : ∀ buffer, p.cacheData = some buffer → buffer.length = streamLength →
    q.cacheData = some (buffer.take p.receivedLength ++ packets.flatten ++
      buffer.drop (p.receivedLength + packets.flatten.length))

theorem copyData_some {buffer : Bytes} {received : Nat} {data : Bytes}
    (h : received + data.length ≤ buffer.length) :
    copyData (some buffer) received data =
      some (some (buffer.take received ++ data ++ buffer.drop (received + data.length))) := by
  unfold copyData
  by_cases hdata : data = []
  · rw [if_pos hdata, hdata, List.append_nil, List.length_nil, Nat.add_zero, List.take_append_drop]
  · rw [if_neg hdata]
    exact if_pos h

theorem copyData_none {buffer : Bytes} {received : Nat} {data : Bytes}
    (hreceived : received ≤ buffer.length) (h : buffer.length < received + data.length) :
    copyData (some buffer) received data = none := by
  have hdata : data ≠ [] := by
    rintro rfl
    rw [List.length_nil] at h
    omega
  unfold copyData
  rw [if_neg hdata]
  exact if_neg (by omega)

/-- A packet for which there is room. -/
theorem channelData_spec {p : ChannelPlayer} {data : Bytes} (h : p.HasRoom data.length) :
    ∃ q, p.channelData aes data = some q ∧ Received aes p q [data] := by
  obtain ⟨buffer, hbuffer, hlen, hroom⟩ := h
  have hcopy : copyData p.cacheData p.receivedLength data = some (some
      (buffer.take p.receivedLength ++ data ++ buffer.drop (p.receivedLength + data.length))) := by
    rw [hbuffer]
    exact copyData_some (by rw [hlen]; exact hroom)
  obtain ⟨-, hkey, hiv⟩ := blocks_eq aes (data.length / 1024) p.decryptor data
  refine ⟨_, by rw [channelData, hcopy]; rfl, ?_⟩
  refine ⟨?_, hkey, hiv, rfl, rfl, rfl, rfl, ?_, ?_⟩
  · show (if p.closed then _ else _) = _
    rw [plaintext_eq]
    show _ = if p.closed then _ else _ ++ (_ ++ [])
    rw [List.append_nil]
  · show p.receivedLength + data.length = _
    rw [List.flatten_cons, List.flatten_nil, List.append_nil]
  · intro buffer' hbuffer' _
    rw [hbuffer] at hbuffer'
    cases hbuffer'
    rw [List.flatten_cons, List.flatten_nil, List.append_nil]

/-- The buffer after a packet, and after those behind it. -/
theorem take_append_drop_append {buffer a b : Bytes} {r : Nat}
    (h : r + (a.length + b.length) ≤ buffer.length) :
    (buffer.take r ++ a ++ buffer.drop (r + a.length)).take (r + a.length) ++ b ++
        (buffer.take r ++ a ++ buffer.drop (r + a.length)).drop (r + a.length + b.length) =
      buffer.take r ++ (a ++ b) ++ buffer.drop (r + (a.length + b.length)) := by
  have hlen : (buffer.take r ++ a).length = r + a.length := by
    rw [List.length_append, List.length_take]
    omega
  rw [List.take_left' hlen, ← List.drop_drop, List.drop_left' hlen, List.drop_drop,
    List.append_assoc, List.append_assoc, List.append_assoc, List.append_assoc, Nat.add_assoc]

/-- **The packets of a substream** for which there is room. -/
theorem exec_channelData {p : ChannelPlayer} {packets : List Bytes}
    (h : p.HasRoom packets.flatten.length) :
    ∃ q, Runs.exec (on aes) p (packets.map .channelData) = some q ∧ Received aes p q packets := by
  induction packets generalizing p with
  | nil =>
    refine ⟨p, rfl, ?_, rfl, rfl, rfl, rfl, rfl, rfl, rfl, ?_⟩
    · show p.output = if p.closed then p.output else p.output ++ []
      rw [List.append_nil, ite_self]
    · intro buffer hbuffer _
      rw [hbuffer, List.flatten_nil, List.append_nil, List.length_nil, Nat.add_zero,
        List.take_append_drop]
  | cons data packets ih =>
    obtain ⟨buffer, hbuffer, hlen, hroom⟩ := h
    rw [List.flatten_cons, List.length_append] at hroom
    have hfirst : p.HasRoom data.length := ⟨buffer, hbuffer, hlen, by omega⟩
    obtain ⟨p', hp', hrec⟩ := @channelData_spec aes p data hfirst
    have hbuffer' := hrec.cacheData buffer hbuffer hlen
    have hreceived := hrec.receivedLength
    rw [List.flatten_cons, List.flatten_nil, List.append_nil] at hbuffer' hreceived
    have hlen' : (buffer.take p.receivedLength ++ data ++
        buffer.drop (p.receivedLength + data.length)).length = streamLength := by
      simp only [List.length_append, List.length_take, List.length_drop]
      omega
    obtain ⟨q, hq, hrest⟩ := ih (p := p') ⟨_, hbuffer', hlen', by omega⟩
    refine ⟨q, ?_, ?_, hrest.key.trans hrec.key, ?_, hrest.closed.trans hrec.closed,
      hrest.file.trans hrec.file,
      hrest.streamOffset.trans hrec.streamOffset, hrest.cache.trans hrec.cache, ?_, ?_⟩
    · rw [List.map_cons]
      exact Runs.exec_cons_eq_some.mpr ⟨p', hp', hq⟩
    · have hout := hrest.output
      rw [hrec.closed, hrec.key, hrec.iv, hrec.output] at hout
      rw [hout]
      cases p.closed with
      | true => rfl
      | false =>
        show p.output ++ (_ ++ []) ++ _ = p.output ++ (_ ++ _)
        rw [List.append_nil, List.append_assoc]
        rfl
    · rw [hrest.iv, hrec.key, hrec.iv]
      rfl
    · rw [hrest.receivedLength, hreceived, List.flatten_cons, List.length_append, Nat.add_assoc]
    · intro buffer₁ hbuffer₁ _
      rw [hbuffer] at hbuffer₁
      cases hbuffer₁
      rw [hrest.cacheData _ hbuffer' hlen', hreceived, List.flatten_cons, List.length_append,
        take_append_drop_append (by omega)]

/-- More than was requested does not go into the buffer. -/
theorem exec_channelData_none {p : ChannelPlayer} {packets : List Bytes} (hroom : p.HasRoom 0)
    (h : streamLength < p.receivedLength + packets.flatten.length) :
    Runs.exec (on aes) p (packets.map .channelData) = none := by
  induction packets generalizing p with
  | nil =>
    obtain ⟨buffer, -, -, hle⟩ := hroom
    rw [List.flatten_nil, List.length_nil] at h
    omega
  | cons data packets ih =>
    obtain ⟨buffer, hbuffer, hlen, hle⟩ := hroom
    rw [List.map_cons, Runs.exec_cons]
    rw [List.flatten_cons, List.length_append] at h
    by_cases hfits : p.receivedLength + data.length ≤ streamLength
    · obtain ⟨p', hp', hrec⟩ := @channelData_spec aes p data ⟨buffer, hbuffer, hlen, hfits⟩
      have hreceived := hrec.receivedLength
      rw [List.flatten_cons, List.flatten_nil, List.append_nil] at hreceived
      have hstep : on aes p (.channelData data) = some p' := hp'
      rw [hstep, Option.bind_some]
      refine ih ⟨_, hrec.cacheData buffer hbuffer hlen, ?_, by omega⟩ (by omega)
      simp only [List.flatten_cons, List.flatten_nil, List.append_nil, List.length_append,
        List.length_take, List.length_drop]
      omega
    · have hstep : on aes p (.channelData data) = none := by
        show (copyData p.cacheData p.receivedLength data).map _ = none
        rw [hbuffer, copyData_none (by omega) (by omega)]
        rfl
      rw [hstep]
      rfl

theorem exec_channelHeader {p : ChannelPlayer} {headers : List Bytes} (h : headers ≠ []) :
    Runs.exec (on aes) p (headers.map .channelHeader) = some p.channelHeader := by
  induction headers generalizing p with
  | nil => exact absurd rfl h
  | cons header headers ih =>
    cases headers with
    | nil => rfl
    | cons header' headers => exact ih nofun

theorem hasRoom_channelHeader {p : ChannelPlayer} {n : Nat} (h : n ≤ streamLength) :
    p.channelHeader.HasRoom n :=
  ⟨_, rfl, List.length_replicate, by rw [show p.channelHeader.receivedLength = 0 from rfl]; omega⟩

/-- **A substream arrives** if and only if it is no longer than was requested. -/
theorem exec_arrival (aes : Aes) (p : ChannelPlayer) {headers : List Bytes} (hne : headers ≠ [])
    (packets : List Bytes) :
    (packets.flatten.length ≤ streamLength →
      ∃ q, Runs.exec (on aes) p (arrival headers packets) = some q ∧
        Received aes p.channelHeader q packets) ∧
    (streamLength < packets.flatten.length →
      Runs.exec (on aes) p (arrival headers packets) = none) := by
  have hsplit : Runs.exec (on aes) p (arrival headers packets) =
      Runs.exec (on aes) p.channelHeader (packets.map .channelData) := by
    rw [arrival, Runs.exec_append, exec_channelHeader hne, Option.bind_some]
  rw [hsplit]
  refine ⟨fun h => exec_channelData (hasRoom_channelHeader h), fun h => ?_⟩
  refine exec_channelData_none (hasRoom_channelHeader (Nat.zero_le _)) ?_
  show streamLength < 0 + _
  omega

end ChannelPlayer

/-! ## The three players -/

open Player (Received Ds Env handedOn Cell)

/-- The keys and AES of the library's player. -/
def aesEnv (aes : Aes) : Env Bytes where
  key _ := []
  cipher _ _ := 0
  keySetup key := key
  encrypt := aes

/-- What arrives at the Java player of a track: the substreams, each with its headers. -/
def track (substreams : List (List Bytes)) : List Event :=
  substreams.flatMap (ChannelPlayer.arrival [[]])

namespace ChannelPlayer

/-- The substreams of a track, one after the other. -/
theorem exec_track (aes : Aes) {p : ChannelPlayer} (hopen : p.closed = false)
    {substreams : List (List Bytes)} (h : ∀ s ∈ substreams, s.flatten.length ≤ streamLength) :
    ∃ q, Runs.exec (on aes) p (track substreams) = some q ∧
      q.output = p.output ++
        plainRun (aes p.decryptor.key) p.decryptor.iv (overZeros substreams.flatten) := by
  induction substreams generalizing p with
  | nil => exact ⟨p, rfl, (List.append_nil _).symm⟩
  | cons s substreams ih =>
    obtain ⟨hs, hrest⟩ := List.forall_mem_cons.mp h
    obtain ⟨p', hp', hrec⟩ := (exec_arrival aes p (List.cons_ne_nil [] []) s).1 hs
    obtain ⟨q, hq, hout⟩ := @ih p' (hrec.closed.trans hopen) hrest
    refine ⟨q, ?_, ?_⟩
    · rw [track, List.flatMap_cons, Runs.exec_append, hp', Option.bind_some]
      exact hq
    · have hfirst := hrec.output
      rw [show p.channelHeader.closed = false from hopen] at hfirst
      rw [hout, hfirst, hrec.key, hrec.iv, List.flatten_cons]
      show p.output ++ _ ++ _ = p.output ++ plainRun _ _ (List.map _ (s ++ _))
      rw [List.map_append, Player.plainRun_append, List.append_assoc]
      rfl

theorem exec_track_none (aes : Aes) {p : ChannelPlayer} {substreams : List (List Bytes)}
    (h : ∃ s ∈ substreams, streamLength < s.flatten.length) :
    Runs.exec (on aes) p (track substreams) = none := by
  induction substreams generalizing p with
  | nil =>
    obtain ⟨s, hs, -⟩ := h
    cases hs
  | cons s substreams ih =>
    rw [track, List.flatMap_cons, Runs.exec_append]
    by_cases hs : streamLength < s.flatten.length
    · rw [(exec_arrival aes p (List.cons_ne_nil [] []) s).2 hs]
      rfl
    · obtain ⟨p', hp', -⟩ := (exec_arrival aes p (List.cons_ne_nil [] []) s).1 (by omega)
      rw [hp', Option.bind_some]
      refine ih ?_
      obtain ⟨s', hs', hlong⟩ := h
      cases List.mem_cons.mp hs' with
      | inl heq =>
        rw [heq] at hlong
        exact absurd hlong hs
      | inr hmem => exact ⟨s', hmem, hlong⟩

end ChannelPlayer

/-- The plaintext of a track, sent in packets of whole blocks. -/
def trackPlain (aes : Aes) (key : Bytes) (packets : List Bytes) : Bytes :=
  plainAt (aes key) 0 packets.flatten

/-- **Three players, one plaintext**: from packets of whole blocks the library's player, the
gateway and the Java player make the same bytes of a track; the Java player throws exactly
where a substream is longer than it requested. -/
theorem plaintexts_agree (aes : Aes) (key : Bytes) (file : String) (cache : String → Option Bytes)
    {substreams : List (List Bytes)}
    (hwhole : ∀ data ∈ substreams.flatten, data.length % 1024 = 0) :
    (∀ ds : Ds Bytes, ds.fifo ≠ none → ds.aesState = key → ds.iv = IV0 →
      ∀ xs : List Received, xs.map (·.1.1) = substreams.flatten →
        (handedOn (aesEnv aes) ds xs).map (·.map Cell.byte) =
          some (trackPlain aes key substreams.flatten)) ∧
    (∀ lib : Gateway.Lib, lib.encrypt = aes → ∀ ch,
      (Gateway.gwStream lib ch ⟨[], key, Gateway.startIV 0⟩ substreams.flatten).data =
        trackPlain aes key substreams.flatten) ∧
    ((∀ s ∈ substreams, s.flatten.length ≤ streamLength) →
      ∃ q, Runs.exec (ChannelPlayer.on aes) (.new key file cache) (track substreams) = some q ∧
        q.output = trackPlain aes key substreams.flatten) ∧
    ((∃ s ∈ substreams, streamLength < s.flatten.length) →
      Runs.exec (ChannelPlayer.on aes) (.new key file cache) (track substreams) = none) := by
  have hzero : Gateway.startIV 0 = Player.ivAt (0 / 16) := Gateway.startIV_eq 0
  have hIV0 : IV0 = Player.ivAt (0 / 16) := Player.ivAt_zero.symm
  refine ⟨?_, ?_, fun h => ?_, ChannelPlayer.exec_track_none aes⟩
  · rintro ds hfifo rfl hiv xs hxs
    rw [Gateway.handedOn_bytes (aesEnv aes) hfifo, hiv, hIV0]
    refine congrArg some ?_
    rw [Player.plainRun_eq rfl, Gateway.map_buf_packet, hxs]
    · rfl
    · intro p hp
      refine hwhole p.buf ?_
      rw [← hxs, ← Gateway.map_buf_packet]
      exact List.mem_map_of_mem hp
  · rintro lib rfl ch
    rw [hzero, Gateway.gwStream_whole lib rfl ch [] key hwhole]
    rfl
  · obtain ⟨q, hq, hout⟩ := @ChannelPlayer.exec_track aes (.new key file cache) rfl substreams h
    refine ⟨q, hq, hout.trans ?_⟩
    show [] ++ plainRun (aes key) IV0 _ = _
    rw [hIV0, Player.plainRun_eq rfl, Player.map_buf_over]
    · rfl
    · intro p hp
      obtain ⟨data, hdata, rfl⟩ := List.mem_map.mp hp
      exact hwhole data hdata

/-- A cipher that gives the counter back. -/
def echo : Aes := fun _ block j => block.getD j 0

def noFiles : String → Option Bytes := fun _ => none

/-- One block. -/
theorem plaintexts_agree_block :
    ∃ q, Runs.exec (ChannelPlayer.on echo) (.new [] "" noFiles) (track [[List.replicate 1024 0]]) =
        some q ∧ q.output = trackPlain echo [] [List.replicate 1024 0] := by
  have hmem : ∀ data ∈ [[List.replicate 1024 (0 : UInt8)]].flatten, data.length % 1024 = 0 := by
    intro data hdata
    rw [List.mem_singleton.mp hdata, List.length_replicate]
  refine (plaintexts_agree echo [] "" noFiles hmem).2.2.1 fun s hs => ?_
  rw [List.mem_singleton.mp hs, List.flatten_cons, List.flatten_nil, List.append_nil,
    List.length_replicate]
  decide

/-- More than 100 blocks in answer to one request stop the Java player. -/
theorem longSubstream_lost :
    ¬ ∃ q, Runs.exec (ChannelPlayer.on echo) (.new [] "" noFiles)
        (track [List.replicate 101 (List.replicate 1024 0)]) = some q ∧
      q.output = trackPlain echo [] (List.replicate 101 (List.replicate 1024 0)) := by
  rintro ⟨q, hq, -⟩
  rw [ChannelPlayer.exec_track_none] at hq
  · cases hq
  · refine ⟨_, List.mem_singleton.mpr rfl, ?_⟩
    rw [List.length_flatten, List.map_replicate, List.sum_replicate_nat, List.length_replicate]
    decide

/-! ## Substreams from the cache -/

namespace ChannelPlayer

theorem hash_eq {p q : ChannelPlayer} (hfile : q.file = p.file)
    (hoffset : q.streamOffset = p.streamOffset) : q.hash = p.hash := by
  rw [hash, hash, hfile, hoffset]

/-- The end of a substream whose data are there. -/
theorem channelEnd_spec {p : ChannelPlayer} {data : Bytes} (hdata : p.cacheData = some data) :
    ∃ q, p.channelEnd = some q ∧ q.output = p.output ∧
      q.closed = (p.closed || decide (p.receivedLength < streamLength)) ∧
      (p.cache p.hash = none → q.cache p.hash = some data) := by
  unfold channelEnd store
  by_cases hcached : (p.cache p.hash).isSome
  · rw [if_pos hcached]
    refine ⟨_, rfl, rfl, rfl, fun hnone => ?_⟩
    rw [hnone] at hcached
    cases hcached
  · rw [if_neg hcached, hdata]
    refine ⟨_, rfl, rfl, rfl, fun _ => ?_⟩
    show Function.update p.cache p.hash (some data) p.hash = some data
    rw [Function.update_self]

/-- A substream from its header to its end. -/
def reply (headers packets : List Bytes) : List Event := arrival headers packets ++ [.channelEnd]

/-- **A substream from its header to its end**, as long as it may be. -/
theorem exec_reply (aes : Aes) (p : ChannelPlayer) {headers packets : List Bytes}
    (hne : headers ≠ []) (hlen : packets.flatten.length ≤ streamLength) :
    ∃ q, Runs.exec (on aes) p (reply headers packets) = some q ∧
      q.output = (if p.closed then p.output
        else p.output ++ plainRun (aes p.decryptor.key) p.decryptor.iv (overZeros packets)) ∧
      q.closed = (p.closed || decide (packets.flatten.length < streamLength)) ∧
      (p.cache p.hash = none →
        q.cache p.hash = some (packets.flatten ++
          List.replicate (streamLength - packets.flatten.length) 0)) := by
  obtain ⟨p', hp', hrec⟩ := (exec_arrival aes p hne packets).1 hlen
  have hdata := hrec.cacheData _ rfl List.length_replicate
  have hzero : p.channelHeader.receivedLength = 0 := rfl
  rw [hzero, List.take_zero, List.nil_append, Nat.zero_add, List.drop_replicate] at hdata
  obtain ⟨q, hq, hout, hclosed, hcache⟩ := channelEnd_spec hdata
  have hhash : p'.hash = p.hash := hash_eq hrec.file hrec.streamOffset
  refine ⟨q, ?_, hout.trans hrec.output, ?_, fun hnone => ?_⟩
  · rw [reply, Runs.exec_append, hp', Option.bind_some]
    exact Runs.exec_cons_eq_some.mpr ⟨q, hq, rfl⟩
  · have hreceived := hrec.receivedLength
    rw [hzero, Nat.zero_add] at hreceived
    rw [hclosed, hrec.closed, hreceived]
    rfl
  · rw [← hhash]
    refine hcache ?_
    rw [hhash, hrec.cache]
    exact hnone

/-- How whole blocks are cut into packets does not show. -/
theorem plainRun_overZeros {E : Bytes → Nat → UInt8} {iv : Bytes} {packets : List Bytes}
    (h : ∀ data ∈ packets, data.length % 1024 = 0) :
    plainRun E iv (overZeros packets) =
      (blocksOf E (packets.flatten.length / 1024) iv packets.flatten).1 := by
  rw [Player.plainRun_whole, Player.map_buf_over]
  intro x hx
  obtain ⟨data, hdata, rfl⟩ := List.mem_map.mp hx
  exact h data hdata

/-- The packets but the last have whole blocks, and so have all of them. -/
theorem whole_of_dropLast {packets : List Bytes}
    (h : ∀ data ∈ packets.dropLast, data.length % 1024 = 0)
    (htotal : packets.flatten.length % 1024 = 0) : ∀ data ∈ packets, data.length % 1024 = 0 := by
  cases List.eq_nil_or_concat packets with
  | inl hnil =>
    rw [hnil]
    exact nofun
  | inr hlast =>
    obtain ⟨before, data, rfl⟩ := hlast
    rw [List.concat_eq_append] at h htotal ⊢
    rw [List.dropLast_concat] at h
    have hbefore := Player.whole_flatten h
    rw [List.flatten_append, List.length_append, List.flatten_cons, List.flatten_nil,
      List.append_nil] at htotal
    refine List.forall_mem_append.mpr ⟨h, fun data' hdata' => ?_⟩
    rw [List.mem_singleton.mp hdata']
    omega

/-- What `SubstreamCache.load` does with a file of the length requested. -/
theorem load_spec (aes : Aes) {p : ChannelPlayer} {data : Bytes}
    (hfound : p.cache p.hash = some data) (hlen : data.length = streamLength) :
    ∃ r, p.load aes = some r ∧
      r.output = (if p.closed then p.output
        else p.output ++ plainRun (aes p.decryptor.key) p.decryptor.iv (overZeros [data])) ∧
      r.closed = p.closed := by
  have hflat : [data].flatten = data := List.append_nil data
  obtain ⟨r, hr, hout, hclosed, -⟩ := @exec_reply aes p [[]] [data] nofun
    (Nat.le_of_eq (by rw [hflat, hlen]))
  refine ⟨r, ?_, hout, ?_⟩
  · unfold load
    rw [hfound]
    exact hr
  · rw [hclosed, hflat, hlen, decide_eq_false (Nat.lt_irrefl _), Bool.or_false]

/-- The substream as `cache` stores it: with the zeros of the array behind it. -/
def padded (packets : List Bytes) : Bytes :=
  packets.flatten ++ List.replicate (streamLength - packets.flatten.length) 0

theorem length_padded {packets : List Bytes} (h : packets.flatten.length ≤ streamLength) :
    (padded packets).length = streamLength := by
  rw [padded, List.length_append, List.length_replicate]
  omega

/-- What `SubstreamCache.load` feeds writes the same bytes and closes the output in the same
case as the substream received from the network. -/
def Replays (aes : Aes) (p : ChannelPlayer) (headers packets : List Bytes) : Prop :=
  ∃ q r, Runs.exec (on aes) p (reply headers packets) = some q ∧ p.load aes = some r ∧
    r.output = q.output ∧ r.closed = q.closed

/-- Both runs of a substream that is in the cache. -/
theorem replays_iff_of_found (aes : Aes) {p : ChannelPlayer} {headers packets : List Bytes}
    (hne : headers ≠ []) (hlen : packets.flatten.length ≤ streamLength)
    (hfound : p.cache p.hash = some (padded packets))
    (hwhole : ∀ data ∈ packets.dropLast, data.length % 1024 = 0) :
    Replays aes p headers packets ↔ p.closed = true ∨ packets.flatten.length = streamLength := by
  obtain ⟨q, hq, hqout, hqclosed, -⟩ := exec_reply aes p hne hlen
  obtain ⟨r, hr, hrout, hrclosed⟩ := load_spec aes hfound (length_padded hlen)
  have hreplays : Replays aes p headers packets ↔ r.output = q.output ∧ r.closed = q.closed := by
    constructor
    · rintro ⟨q', r', hq', hr', h⟩
      rw [hq] at hq'
      rw [hr] at hr'
      cases hq'
      cases hr'
      exact h
    · exact fun h => ⟨q, r, hq, hr, h⟩
  rw [hreplays]
  cases hclosed : p.closed with
  | true =>
    rw [hclosed] at hqout hqclosed hrout hrclosed
    exact iff_of_true ⟨hrout.trans hqout.symm, hrclosed.trans hqclosed.symm⟩ (Or.inl rfl)
  | false =>
    rw [hclosed] at hqout hqclosed hrout hrclosed
    by_cases hfull : packets.flatten.length = streamLength
    · refine iff_of_true ⟨?_, ?_⟩ (Or.inr hfull)
      · have hpackets := whole_of_dropLast hwhole (by rw [hfull]; rfl)
        have hdata : padded packets = packets.flatten := by
          rw [padded, hfull, Nat.sub_self, List.replicate_zero, List.append_nil]
        have hblocks : ∀ data ∈ [padded packets], data.length % 1024 = 0 := by
          intro data hmem
          rw [List.mem_singleton.mp hmem, length_padded hlen]
          rfl
        have hflat : [padded packets].flatten = padded packets := List.append_nil _
        rw [hrout, hqout]
        show p.output ++ plainRun _ _ (overZeros [padded packets]) =
          p.output ++ plainRun _ _ (overZeros packets)
        rw [plainRun_overZeros hpackets, plainRun_overZeros hblocks, hflat, hdata]
      · rw [hrclosed, hqclosed, hfull, decide_eq_false (Nat.lt_irrefl _)]
        rfl
    · -- the network's run closes the output, the cache's does not
      refine iff_of_false (fun h => ?_) (fun h => h.elim nofun hfull)
      have hclosed := h.2
      rw [hrclosed, hqclosed, decide_eq_true (by omega)] at hclosed
      cases hclosed

/-- A substream is in the cache once its channel has ended. -/
theorem found_of_stored {aes : Aes} {p₀ q₀ p : ChannelPlayer} {headers packets : List Bytes}
    (hne : headers ≠ []) (hlen : packets.flatten.length ≤ streamLength)
    (hmiss : p₀.cache p₀.hash = none)
    (hstored : Runs.exec (on aes) p₀ (reply headers packets) = some q₀)
    (hfile : p.file = p₀.file) (hoffset : p.streamOffset = p₀.streamOffset)
    (hcache : p.cache = q₀.cache) : p.cache p.hash = some (padded packets) := by
  obtain ⟨q, hq, -, -, hput⟩ := exec_reply aes p₀ hne hlen
  rw [hstored] at hq
  cases hq
  rw [hcache, hash_eq hfile hoffset]
  exact hput hmiss

end ChannelPlayer

end Despotify.Java

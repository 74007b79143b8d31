import Despotify.Wire.Bytes
import Despotify.Wire.ShannonNonce

/-!
# Packets: `packet_write` and `packet_read` of `lib/packet.c`

A packet is a 3-byte header (command, big-endian length), the payload and a
4-byte MAC, encrypted under a nonce that counts packets.  The writer encrypts
header and payload in one call; the reader decrypts the header first, to learn
the length, and then payload and MAC in a second call.

The reader only needs to agree with the writer on the saved register `initR`
and on the counter (`Lockstep`); `packetRead_packetWrite` is one packet, and
`readAll_writeAll` the run over any list of packets.
-/

namespace Despotify.Packet

open Shannon

/-- The fields of `SESSION` the packet layer uses. -/
structure Session where
  keyRecvIV : UInt32
  keySendIV : UInt32
  shnRecv : ShnCtx
  shnSend : ShnCtx
deriving DecidableEq, Inhabited, Repr

/-- `struct packet_header`. -/
structure PHeader where
  cmd : UInt8
  len : Nat
deriving DecidableEq, Repr

/-- `block_read (sock, buf, n)` on the bytes still to come: all `n` bytes, or
none and the stream is at its end. -/
def blockRead (sock : List UInt8) (n : Nat) : Option (List UInt8) × List UInt8 :=
  if n ≤ sock.length then (some (sock.take n), sock.drop n) else (none, [])

/-- `packet_write`: the session afterwards and the buffer given to
`block_write`.  A `NULL` payload, only ever passed with length 0, is `[]`. -/
def packetWrite (s : Session) (cmd : UInt8) (payload : List UInt8) : Session × List UInt8 :=
  let shn := shnNonce s.shnSend (htonl s.keySendIV)
  let (shn, buf) := shnEncrypt shn (cmd :: htons payload.length ++ payload)
  let (shn, mac) := shnFinish shn 4
  ({ s with shnSend := shn, keySendIV := s.keySendIV + 1 }, buf ++ mac)

/-- `packet_read`: the session afterwards, the bytes still to come, and the
header with the payload buffer (MAC bytes included), or `none` for `-1`. -/
def packetRead (s : Session) (sock : List UInt8) :
    Session × List UInt8 × Option (PHeader × List UInt8) :=
  match blockRead sock 3 with
  | (none, sock) => (s, sock, none)
  | (some h, sock) =>
    let shn := shnNonce s.shnRecv (htonl s.keyRecvIV)
    let (shn, h) := shnDecrypt shn h
    let len := ntohs (h.getD 1 0) (h.getD 2 0)
    -- account for MAC
    match blockRead sock (len + 4) with
    | (none, sock) => ({ s with shnRecv := shn }, sock, none)
    | (some payload, sock) =>
      let (shn, payload) := shnDecrypt shn payload
      ({ s with shnRecv := shn, keyRecvIV := s.keyRecvIV + 1 }, sock,
        some (⟨h.getD 0 0, len⟩, payload))

/-- Write the packets in order. -/
def writeAll : Session → List (UInt8 × List UInt8) → Session × List UInt8
  | s, [] => (s, [])
  | s, (cmd, payload) :: pkts =>
    let (s, buf) := packetWrite s cmd payload
    let (s, bufs) := writeAll s pkts
    (s, buf ++ bufs)

/-- `n` rounds of the reading loop of `despotify_thread`, which ends at the
first failure. -/
def readAll : Nat → Session → List UInt8 → Session × List UInt8 × List (PHeader × List UInt8)
  | 0, s, sock => (s, sock, [])
  | n + 1, s, sock =>
    match packetRead s sock with
    | (s, sock, none) => (s, sock, [])
    | (s, sock, some p) =>
      let (s, sock, ps) := readAll n s sock
      (s, sock, p :: ps)

/-! ## One packet -/

/-- Writer and reader are at the same packet of one key stream. -/
structure Lockstep (w r : Session) : Prop where
  initR : w.shnSend.initR = r.shnRecv.initR
  iv : w.keySendIV = r.keyRecvIV

theorem blockRead_append (xs rest : List UInt8) :
    blockRead (xs ++ rest) xs.length = (some xs, rest) := by
  simp [blockRead]

theorem initR_packetWrite (s : Session) (cmd : UInt8) (payload : List UInt8) :
    (packetWrite s cmd payload).1.shnSend.initR = s.shnSend.initR := by
  simp only [packetWrite, shnEncrypt]
  rw [initR_shnFinish, initR_shnCrypt, initR_shnNonce]

theorem length_shnFinish_four (c : ShnCtx) : (shnFinish c 4).2.length = 4 := by
  simp [shnFinish, macBytes, word2byte]

/-- What `packet_write` sends, cut where `packet_read` cuts it. -/
theorem packetWrite_bytes (s : Session) (cmd : UInt8) (payload : List UInt8) :
    ∃ mac : List UInt8, mac.length = 4 ∧
      (packetWrite s cmd payload).2 =
        (shnEncrypt (shnNonce s.shnSend (htonl s.keySendIV)) (cmd :: htons payload.length)).2 ++
        ((shnEncrypt (shnEncrypt (shnNonce s.shnSend (htonl s.keySendIV))
          (cmd :: htons payload.length)).1 payload).2 ++ mac) := by
  have h := (shnCrypt_append .encrypt (shnNonce s.shnSend (htonl s.keySendIV))
    (cmd :: htons payload.length) payload).2
  refine ⟨(shnFinish (shnEncrypt (shnNonce s.shnSend (htonl s.keySendIV))
    (cmd :: htons payload.length ++ payload)).1 4).2, length_shnFinish_four _, ?_⟩
  rw [← List.append_assoc]
  simp only [packetWrite, shnEncrypt]
  rw [h]

/-- `packet_read` on a header and a body of the length the header says. -/
theorem packetRead_append (r : Session) {hdr body : List UInt8} (rest : List UInt8)
    {c : ShnCtx} {b0 b1 b2 : UInt8} (hhdr : hdr.length = 3)
    (hc : (shnDecrypt (shnNonce r.shnRecv (htonl r.keyRecvIV)) hdr).1 = c)
    (hdec : (shnDecrypt (shnNonce r.shnRecv (htonl r.keyRecvIV)) hdr).2 = [b0, b1, b2])
    (hbody : body.length = ntohs b1 b2 + 4) :
    packetRead r (hdr ++ body ++ rest) =
      ({ r with shnRecv := (shnDecrypt c body).1, keyRecvIV := r.keyRecvIV + 1 }, rest,
        some (⟨b0, ntohs b1 b2⟩, (shnDecrypt c body).2)) := by
  have h1 := blockRead_append hdr (body ++ rest)
  have h2 := blockRead_append body rest
  rw [hhdr, ← List.append_assoc] at h1
  rw [hbody] at h2
  simp only [packetRead, h1, hc, hdec, List.getD_cons_zero, List.getD_cons_succ, h2]

/-- **One packet**: a reader in lockstep gets the command, the length and the
payload, consumes the bytes written and no others, and stays in lockstep. -/
theorem packetRead_packetWrite {w r : Session} (h : Lockstep w r) (cmd : UInt8)
    (payload rest : List UInt8) (hlen : payload.length ≤ 65535) :
    ∃ r' b, packetRead r ((packetWrite w cmd payload).2 ++ rest) =
        (r', rest, some (⟨cmd, payload.length⟩, b)) ∧
      b.take payload.length = payload ∧ Lockstep (packetWrite w cmd payload).1 r' := by
  obtain ⟨mac, hmac, hbytes⟩ := packetWrite_bytes w cmd payload
  have hnonce := norm_shnNonce h.initR.symm (htonl w.keySendIV)
  rw [h.iv] at hbytes hnonce
  -- the header comes back, and the contexts agree again after it
  obtain ⟨hnorm1, hhdr⟩ := shnDecrypt_shnEncrypt hnonce (cmd :: htons payload.length)
  obtain ⟨-, hpay⟩ := shnDecrypt_shnEncrypt hnorm1 payload
  have hlen1 : (shnEncrypt (shnNonce w.shnSend (htonl r.keyRecvIV))
      (cmd :: htons payload.length)).2.length = 3 := by
    simp [shnEncrypt]
  have hntohs : ntohs (UInt8.ofNat (payload.length / 256)) (UInt8.ofNat payload.length) =
      payload.length := by
    rw [ntohs_htons, Nat.mod_eq_of_lt (by omega)]
  generalize shnEncrypt (shnNonce w.shnSend (htonl r.keyRecvIV)) (cmd :: htons payload.length) = e
    at hbytes hnorm1 hhdr hpay hlen1
  have hlen2 : ((shnEncrypt e.1 payload).2 ++ mac).length =
      ntohs (UInt8.ofNat (payload.length / 256)) (UInt8.ofNat payload.length) + 4 := by
    simp [shnEncrypt, hmac, hntohs]
  have hread := packetRead_append r rest hlen1 rfl hhdr hlen2
  rw [← hbytes, hntohs] at hread
  refine ⟨_, _, hread, ?_, ?_, ?_⟩
  · -- the payload comes back in front of whatever the MAC bytes decrypt to
    rw [shnDecrypt, ← (shnCrypt_append .decrypt _ _ mac).2, ← shnDecrypt, hpay]
    exact List.take_left
  · rw [initR_packetWrite, h.initR]
    simp only [shnDecrypt, initR_shnCrypt, initR_shnNonce]
  · simp only [packetWrite, h.iv]

/-! ## Runs of packets -/

/-- What the reader is to obtain from a packet. -/
def received (p : PHeader × List UInt8) : UInt8 × Nat × List UInt8 :=
  (p.1.cmd, p.1.len, p.2.take p.1.len)

theorem writeAll_append (s : Session) (ps qs : List (UInt8 × List UInt8)) :
    writeAll s (ps ++ qs) =
      ((writeAll (writeAll s ps).1 qs).1,
        (writeAll s ps).2 ++ (writeAll (writeAll s ps).1 qs).2) := by
  induction ps generalizing s with
  | nil => rfl
  | cons p ps ih =>
    obtain ⟨cmd, payload⟩ := p
    simp [writeAll, ih]

theorem keySendIV_writeAll (s : Session) (pkts : List (UInt8 × List UInt8)) :
    (writeAll s pkts).1.keySendIV = s.keySendIV + UInt32.ofNat pkts.length := by
  induction pkts generalizing s with
  | nil => simp [writeAll]
  | cons p pkts ih =>
    obtain ⟨cmd, payload⟩ := p
    have h : (packetWrite s cmd payload).1.keySendIV = s.keySendIV + 1 := by
      simp only [packetWrite]
    simp only [writeAll, ih, h, List.length_cons, UInt32.ofNat_add]
    rw [UInt32.add_assoc, UInt32.add_comm 1]
    rfl

/-- From lockstep, reading as many packets as were written gives them back. -/
theorem readAll_of_lockstep {w r : Session} (h : Lockstep w r)
    (pkts : List (UInt8 × List UInt8)) (rest : List UInt8)
    (hlen : ∀ p ∈ pkts, p.2.length ≤ 65535) :
    ∃ r' got, readAll pkts.length r ((writeAll w pkts).2 ++ rest) = (r', rest, got) ∧
      got.map received = pkts.map (fun p => (p.1, p.2.length, p.2)) ∧
      Lockstep (writeAll w pkts).1 r' := by
  induction pkts generalizing w r with
  | nil => exact ⟨r, [], rfl, rfl, h⟩
  | cons p pkts ih =>
    obtain ⟨cmd, payload⟩ := p
    obtain ⟨r1, b, hread, hb, h1⟩ := packetRead_packetWrite h cmd payload
      ((writeAll (packetWrite w cmd payload).1 pkts).2 ++ rest) (hlen _ List.mem_cons_self)
    obtain ⟨r', got, hrest, hgot, h'⟩ := ih h1 fun p hp => hlen p (List.mem_cons_of_mem _ hp)
    refine ⟨r', (⟨cmd, payload.length⟩, b) :: got, ?_, ?_, h'⟩
    · simp only [writeAll, List.length_cons, readAll, List.append_assoc, hread, hrest]
    · simp only [List.map_cons, hgot, received, hb]

/-- `shn_key` on both ends and a common start of the two counters. -/
def keyed (w r : Session) (key : List UInt8) (iv : UInt32) : Session × Session :=
  ({ w with shnSend := shnKey w.shnSend key, keySendIV := iv },
    { r with shnRecv := shnKey r.shnRecv key, keyRecvIV := iv })

theorem lockstep_keyed (w r : Session) (key : List UInt8) (iv : UInt32) :
    Lockstep (keyed w r key iv).1 (keyed w r key iv).2 where
  initR := initR_shnKey _ _ _
  iv := rfl

/-- **The packet layer round trip**: after `n` of the packets the reader has
exactly these, the bytes of the later ones are still to come, and the counters
agree with each other and with the number of packets. -/
theorem readAll_writeAll (w r : Session) (key : List UInt8) (iv : UInt32)
    (pkts : List (UInt8 × List UInt8)) (hlen : ∀ p ∈ pkts, p.2.length ≤ 65535)
    (rest : List UInt8) (n : Nat) (hn : n ≤ pkts.length) :
    ∃ r' got, readAll n (keyed w r key iv).2 ((writeAll (keyed w r key iv).1 pkts).2 ++ rest) =
        (r', (writeAll (writeAll (keyed w r key iv).1 (pkts.take n)).1 (pkts.drop n)).2 ++ rest,
          got) ∧
      got.map received = (pkts.take n).map (fun p => (p.1, p.2.length, p.2)) ∧
      r'.keyRecvIV = (writeAll (keyed w r key iv).1 (pkts.take n)).1.keySendIV ∧
      r'.keyRecvIV = iv + UInt32.ofNat n := by
  have hsplit := writeAll_append (keyed w r key iv).1 (pkts.take n) (pkts.drop n)
  rw [List.take_append_drop] at hsplit
  obtain ⟨r', got, hread, hgot, h'⟩ := readAll_of_lockstep (lockstep_keyed w r key iv)
    (pkts.take n)
    ((writeAll (writeAll (keyed w r key iv).1 (pkts.take n)).1 (pkts.drop n)).2 ++ rest)
    fun p hp => hlen p (List.mem_of_mem_take hp)
  have hcount := keySendIV_writeAll (keyed w r key iv).1 (pkts.take n)
  rw [List.length_take_of_le hn] at hread hcount
  refine ⟨r', got, ?_, hgot, h'.iv.symm, ?_⟩
  · rw [hsplit, List.append_assoc, hread]
  · rw [← h'.iv, hcount]
    rfl

/-- Two pings, the second with an empty payload, and a counter about to wrap. -/
theorem readAll_writeAll_pings :
    ∃ r' got,
      readAll 2 (keyed default default [7, 7, 7] 0xFFFFFFFF).2
          ((writeAll (keyed default default [7, 7, 7] 0xFFFFFFFF).1
            [(0x49, [1, 2, 3, 4]), (0x49, [])]).2 ++ []) =
        (r', (writeAll (writeAll (keyed default default [7, 7, 7] 0xFFFFFFFF).1
            [(0x49, [1, 2, 3, 4]), (0x49, [])]).1 []).2 ++ [], got) ∧
      got.map received = [(0x49, 4, [1, 2, 3, 4]), (0x49, 0, [])] ∧
      r'.keyRecvIV = (writeAll (keyed default default [7, 7, 7] 0xFFFFFFFF).1
        [(0x49, [1, 2, 3, 4]), (0x49, [])]).1.keySendIV ∧
      r'.keyRecvIV = 0xFFFFFFFF + UInt32.ofNat 2 :=
  readAll_writeAll default default [7, 7, 7] 0xFFFFFFFF [(0x49, [1, 2, 3, 4]), (0x49, [])]
    (by simp) [] 2 (by simp)

end Despotify.Packet

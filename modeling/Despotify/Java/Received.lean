import Despotify.Java.Initial
import Despotify.Wire.ShannonInterop

/-!
# Java: bytes that were not received

What `receivePacket` does (`receivePacket_cases`), and the two methods together.  A
stream that ends within the MAC of a packet, or within the puzzle challenge or the
unknown fields of an initial packet, is not noticed:

    PacketReceived s ↔ ¬ MacTruncated s
    InitialReceived s ↔ ¬ FieldsTruncated s                             (received_iff)
-/

namespace Despotify.Java

/-! ## Packets -/

open Despotify.Interop (Aligned crypt_eq)

theorem decrypt_isSome {c : Shannon} (h : Aligned c) (buffer : List Int8) :
    ∃ c' plain, c.decrypt buffer = some (c', plain) ∧ Aligned c' := by
  obtain ⟨c', outs, hcrypt, -, hal⟩ := crypt_eq .decrypt [] h buffer
  rw [List.append_nil] at hcrypt
  exact ⟨c', outs ++ [], hcrypt, hal⟩

theorem aligned_nonce (c : Shannon) (nonce : List Int8) : Aligned (c.nonce nonce) :=
  ⟨⟨0, rfl⟩, Nat.zero_lt_succ _⟩

/-- The length that the header says, once decrypted. -/
def Session.payloadLength (session : Session) (header : List Int8) : Nat :=
  match session.decryptHeader header with
  | some decrypted => Java.payloadLength decrypted.2
  | none => 0

theorem fire_total (packetType : Option PacketType) (payload : List Int8)
    (listeners : List CommandListener) (s : Protocol) :
    ∃ r s', fire packetType payload listeners s = some (r, s') ∧ s'.session = s.session ∧
      s'.channel = s.channel := by
  induction listeners generalizing s with
  | nil => exact ⟨_, s, rfl, rfl, rfl⟩
  | cons listener listeners ih =>
    unfold fire
    rw [Proc.modify_bind, Proc.ite_run]
    by_cases h : listener packetType payload = true
    · rw [if_pos h]
      exact ih _
    · rw [if_neg h]
      exact ⟨_, _, rfl, rfl, rfl⟩

/-- A loop that reads and its `catch`: without a failure the bytes that came go on. -/
theorem fill_bind {β : Type} (what : String) (n : Nat) (k : List Int8 × Option String → Recv β)
    (s : Protocol) :
    (Arrived n s.channel →
        (fill n n >>= fun got => catchIOException what got.2 >>= fun _ => k got) s =
          k (s.channel.content.take n, none) (s.skip n)) ∧
      (¬ Arrived n s.channel → ∃ e,
        (fill n n >>= fun got => catchIOException what got.2 >>= fun _ => k got) s =
          some (.error e, s.skip n)) := by
  rw [Proc.bind_of_ok (fill_run n s)]
  constructor
  · intro h
    rw [(failure_eq_none_iff n s.channel).mpr h]
    rfl
  · intro h
    cases hf : (if s.channel.content.length < n then s.channel.failure else none) with
    | none => exact absurd ((failure_eq_none_iff n s.channel).mp hf) h
    | some message => exact ⟨_, rfl⟩

theorem session_bind {β : Type} (k : Session → Recv β) (s : Protocol) :
    (session >>= k) s = k s.session s := rfl

theorem setSession_bind {β : Type} (f : Session → Session) (k : Unit → Recv β) (s : Protocol) :
    (setSession f >>= k) s = k () { s with session := f s.session } := rfl

theorem catchIOException_none {β : Type} (what : String) (k : Unit → Recv β) (s : Protocol) :
    (catchIOException what none >>= k) s = k () s := rfl

/-- The packet is refused: the counter stays, and no listener hears of it. -/
structure Refused (s : Protocol) (r : Except ReceiveException Unit) (s' : Protocol) : Prop where
  throws : ∃ e, r = .error e
  keyRecvIv : s'.session.keyRecvIv = s.session.keyRecvIv
  commands : s'.commands = s.commands

/-- The packet is taken: the counter goes on. -/
structure Counted (s : Protocol) (n : Nat) (s' : Protocol) : Prop where
  keyRecvIv : s'.session.keyRecvIv = s.session.keyRecvIv + 1
  content : s'.channel.content = s.channel.content.drop n

section Packet

variable (s : Protocol)

/-- A packet with a payload of `n` bytes is taken: the payload has come, and the MAC or
the end of the stream. -/
def Protocol.Takes (n : Nat) : Prop :=
  n ≤ s.channel.content.length ∧ ArrivedUpTo s.channel.content s.channel.failure (n + 4)

theorem receiveBody_cases {c : Shannon} (hc : Aligned c) (header : List Int8) :
    ∃ r s', receiveBody c header s = some (r, s') ∧
      (s.Takes (payloadLength header) ∧ Counted s (payloadLength header + 4) s' ∨
        ¬ s.Takes (payloadLength header) ∧ Refused s r s') := by
  unfold receiveBody Protocol.Takes ArrivedUpTo
  dsimp only
  generalize payloadLength header = n
  obtain ⟨hok, herr⟩ := fill_bind "Failed to read payload: " n _ s
  by_cases hend : Arrived n s.channel
  swap
  · obtain ⟨e, he⟩ := herr hend
    exact ⟨_, _, he, Or.inr ⟨fun h => hend (Or.inl h.1), ⟨e, rfl⟩, rfl, rfl⟩⟩
  rw [hok hend]
  dsimp only
  have hlength : (s.skip n).channel.content.length = s.channel.content.length - n := by
    unfold Protocol.skip
    rw [Source.content_skip, List.length_drop]
  have hfailure : (s.skip n).channel.failure = s.channel.failure := Source.failure_skip ..
  by_cases hn : n ≤ s.channel.content.length
  · have hpayload : (s.channel.content.take n).length = n := length_take_eq_iff.mpr hn
    rw [hpayload, Nat.add_sub_cancel_left]
    obtain ⟨hok, herr⟩ := fill_bind "Failed to read MAC: " 4 _ (s.skip n)
    by_cases hmac : Arrived 4 (s.skip n).channel
    swap
    · obtain ⟨e, he⟩ := herr hmac
      refine ⟨_, _, he, Or.inr ⟨?_, ⟨e, rfl⟩, rfl, rfl⟩⟩
      rintro ⟨-, hcomplete⟩
      unfold Arrived at hmac
      rw [hlength, hfailure] at hmac
      exact hmac (hcomplete.imp_left fun h => by omega)
    rw [hok hmac]
    dsimp only
    generalize (s.skip n).channel.content.take 4 = mac
    have hlong : ¬ (s.channel.content.take n ++ mac).length < n := by
      rw [List.length_append]
      omega
    obtain ⟨c', plain, hdec, -⟩ := decrypt_isSome hc (s.channel.content.take n ++ mac ++
      List.replicate (n + 4 - (s.channel.content.take n ++ mac).length) 0)
    rw [hdec, Proc.ofOption_some, Proc.pure_bind, setSession_bind, if_neg hlong, setSession_bind,
      Proc.get_bind]
    refine (fire_total _ _ _ _).imp fun r hr => hr.imp fun s' h => ⟨h.1, ?_⟩
    obtain ⟨-, hsession, hchannel⟩ := h
    refine Or.inl ⟨⟨hn, ?_⟩, ?_, ?_⟩
    · unfold Arrived at hmac
      rw [hlength, hfailure] at hmac
      exact hmac.imp_left fun h => by omega
    · rw [hsession]
      rfl
    · rw [hchannel]
      unfold Protocol.skip
      rw [Source.content_skip, Source.content_skip, List.drop_drop]
  · -- the stream has ended, so that the other loop gets nothing either
    have hnone : s.channel.failure = none := hend.resolve_left hn
    have hempty : (s.skip n).channel.content = [] := List.eq_nil_of_length_eq_zero (by omega)
    have hfill (room : Nat) : fill 4 room (s.skip n) = some (.ok ([], none), s.skip n) := by
      unfold fill
      rw [Source.fill_of_end _ _ _ hempty (by omega), hfailure, hnone]
    have hshort : (s.channel.content.take n ++ []).length < n := by
      rw [List.append_nil, List.length_take]
      omega
    obtain ⟨c', plain, hdec, -⟩ := decrypt_isSome hc (s.channel.content.take n ++ [] ++
      List.replicate (n + 4 - (s.channel.content.take n ++ []).length) 0)
    rw [Proc.bind_of_ok (hfill _), catchIOException_none, hdec, Proc.ofOption_some,
      Proc.pure_bind, setSession_bind, if_pos hshort]
    exact ⟨_, _, rfl, Or.inr ⟨fun h => hn h.1, ⟨_, rfl⟩, rfl, rfl⟩⟩

/-- The length of the payload of the packet that is next. -/
def Protocol.payloadLength : Nat := s.session.payloadLength (s.channel.content.take 3)

/-- The packet that is next is taken. -/
def Protocol.Taken : Prop :=
  3 + s.payloadLength ≤ s.channel.content.length ∧
    ArrivedUpTo s.channel.content s.channel.failure (3 + s.payloadLength + 4)

/-- **What `receivePacket` does.** -/
theorem receivePacket_cases : ∃ r s', receivePacket s = some (r, s') ∧
    (s.Taken ∧ Counted s (3 + s.payloadLength + 4) s' ∨ ¬ s.Taken ∧ Refused s r s') := by
  unfold receivePacket Protocol.Taken
  have hreceive : receive (Vector.replicate 3 0) 0 3 = fill 3 3 >>= fun got =>
      catchIOException "Error reading data from socket: " got.2 >>= fun _ =>
        pure (got.1.length, put (Vector.replicate 3 0) 0 got.1) := rfl
  rw [hreceive, Proc.bind_assoc]
  simp only [Proc.bind_assoc, Proc.pure_bind]
  obtain ⟨hok, herr⟩ := fill_bind "Error reading data from socket: " 3 _ s
  by_cases hend : Arrived 3 s.channel
  swap
  · obtain ⟨e, he⟩ := herr hend
    refine ⟨_, _, he, Or.inr ⟨?_, ⟨e, rfl⟩, rfl, rfl⟩⟩
    rintro ⟨hlen, -⟩
    exact hend (Or.inl (by omega))
  rw [hok hend]
  by_cases hlen : 3 ≤ s.channel.content.length
  swap
  · rw [if_neg (fun h => hlen (length_take_eq_iff.mp h))]
    refine ⟨_, _, rfl, Or.inr ⟨?_, ⟨_, rfl⟩, rfl, rfl⟩⟩
    rintro ⟨hlen', -⟩
    omega
  rw [if_pos (length_take_eq_iff.mpr hlen), toList_put_all _ (length_take_eq_iff.mpr hlen),
    session_bind]
  obtain ⟨c, plain, hdec, hal⟩ := decrypt_isSome
    (aligned_nonce s.session.shannonRecv (toBytesInt s.session.keyRecvIv))
    (s.channel.content.take 3)
  have hdec1 : (s.skip 3).session.decryptHeader (s.channel.content.take 3) = some (c, plain) := hdec
  have hp : s.payloadLength = payloadLength plain := by
    unfold Protocol.payloadLength Session.payloadLength
    rw [show s.session.decryptHeader (s.channel.content.take 3) = some (c, plain) from hdec]
  rw [hdec1, Proc.ofOption_some, Proc.pure_bind, setSession_bind, hp]
  generalize hs1 : ({ s.skip 3 with session := _ } : Protocol) = s1
  have hcontent : s1.channel.content = s.channel.content.drop 3 := by
    rw [← hs1]
    exact Source.content_skip ..
  have hfailure : s1.channel.failure = s.channel.failure := by
    rw [← hs1]
    exact Source.failure_skip ..
  have htakes : s1.Takes (payloadLength plain) ↔
      3 + payloadLength plain ≤ s.channel.content.length ∧
        ArrivedUpTo s.channel.content s.channel.failure (3 + payloadLength plain + 4) := by
    unfold Protocol.Takes ArrivedUpTo
    rw [hcontent, hfailure, List.length_drop]
    constructor
    · rintro ⟨h, hc⟩
      exact ⟨by omega, hc.imp_left fun h => by omega⟩
    · rintro ⟨h, hc⟩
      exact ⟨by omega, hc.imp_left fun h => by omega⟩
  obtain ⟨r, s', hbody, hcases⟩ := receiveBody_cases s1 hal plain
  refine ⟨r, s', hbody, ?_⟩
  rw [← htakes]
  have hiv : s1.session.keyRecvIv = s.session.keyRecvIv := by rw [← hs1]; rfl
  have hcommands : s1.commands = s.commands := by rw [← hs1]; rfl
  refine hcases.imp ?_ ?_
  · rintro ⟨ht, hcounted⟩
    refine ⟨ht, hcounted.keyRecvIv.trans (by rw [hiv]), ?_⟩
    rw [hcounted.content, hcontent, List.drop_drop, ← Nat.add_assoc]
  · rintro ⟨ht, hrefused⟩
    exact ⟨ht, hrefused.throws, hrefused.keyRecvIv.trans hiv, hrefused.commands.trans hcommands⟩

end Packet

/-! ## Which bytes were received -/

/-- The bytes of the packet, header and MAC included, were read from the socket. -/
def AllRead (s s' : Protocol) : Prop :=
  ∃ packet : List Int8, packet.length = 3 + s.payloadLength + 4 ∧
    s.channel.content = packet ++ s'.channel.content

/-- A listener is called only when all bytes were read; otherwise there is an exception, and
the counter stays. -/
def PacketReceived (s : Protocol) : Prop :=
  ∃ r s', receivePacket s = some (r, s') ∧ (s'.commands ≠ s.commands → AllRead s s') ∧
    (¬ AllRead s s' → (∃ e, r = .error e) ∧ s'.session.keyRecvIv = s.session.keyRecvIv)

/-- The method returns only when every byte of `initialServerPacket` was read; otherwise
there is an exception, and the counter stays. -/
def InitialReceived (s : Protocol) : Prop :=
  ∃ r s', receiveInitialPacket s = some (r, s') ∧
    (r = .ok () → ∃ packet, s'.session.initialServerPacket = some packet ∧
      s.channel.content = packet ++ s'.channel.content) ∧
    (∀ e, r = .error e → s'.session.keyRecvIv = s.session.keyRecvIv)

/-- The stream ends within the MAC of the packet that is next. -/
structure MacTruncated (s : Protocol) : Prop where
  ended : s.channel.failure = none
  payload : 3 + s.payloadLength ≤ s.channel.content.length
  mac : s.channel.content.length < 3 + s.payloadLength + 4

/-- The stream ends within the fields of an initial packet that is acceptable so far. -/
structure FieldsTruncated (s : Protocol) : Prop where
  ended : s.channel.failure = none
  acceptable : Acceptable s.channel.content
  fields : s.channel.content.length < packetEnd s.channel.content

theorem packetReceived_iff (s : Protocol) : PacketReceived s ↔ ¬ MacTruncated s := by
  obtain ⟨r, s', hrun, hcases⟩ := receivePacket_cases s
  constructor
  · rintro ⟨r', s1, hrun', -, hrefused⟩ ⟨hended, hpayload, hmac⟩
    rw [hrun] at hrun'
    cases hrun'
    have hnot : ¬ AllRead s s' := by
      rintro ⟨packet, hlen, hcontent⟩
      rw [hcontent, List.length_append, hlen] at hmac
      omega
    obtain ⟨-, hiv⟩ := hrefused hnot
    rcases hcases with ⟨-, hcounted⟩ | ⟨hnottaken, -⟩
    · rw [hcounted.keyRecvIv] at hiv
      have hzero : (1 : Int32) = 0 := by
        rwa [Int32.add_eq_left] at hiv
      exact absurd hzero (by decide)
    · exact hnottaken ⟨hpayload, Or.inr hended⟩
  · intro hnot
    refine ⟨r, s', hrun, ?_⟩
    rcases hcases with ⟨⟨hpayload, hcomplete⟩, hcounted⟩ | ⟨-, hrefused⟩
    · have hlen : 3 + s.payloadLength + 4 ≤ s.channel.content.length := by
        rcases hcomplete with h | hended
        · exact h
        · by_contra hlt
          exact hnot ⟨hended, hpayload, by omega⟩
      have hall : AllRead s s' := by
        refine ⟨s.channel.content.take (3 + s.payloadLength + 4), length_take_eq_iff.mpr hlen, ?_⟩
        rw [hcounted.content, List.take_append_drop]
      exact ⟨fun _ => hall, fun h => absurd hall h⟩
    · exact ⟨fun h => absurd hrefused.commands h, fun _ => ⟨hrefused.throws, hrefused.keyRecvIv⟩⟩

theorem initialReceived_iff (s : Protocol) : InitialReceived s ↔ ¬ FieldsTruncated s := by
  have hreturns := returns_receiveInitialPacket s
  obtain ⟨r, s', hrun⟩ := quiet_receiveInitialPacket.total s
  have hiv : s'.session.keyRecvIv = s.session.keyRecvIv :=
    quiet_receiveInitialPacket.toKeeps.same hrun
  constructor
  · rintro ⟨r', s1, hrun', hok, -⟩ ⟨hended, hacceptable, hfields⟩
    rw [hrun] at hrun'
    cases hrun'
    obtain ⟨u, s2, hrun2⟩ := hreturns.returns ⟨hacceptable, Or.inr hended⟩
    rw [hrun] at hrun2
    cases hrun2
    obtain ⟨-, packet, hinitial, ⟨hlen, -⟩, -⟩ := hreturns.post u s' hrun
    obtain ⟨packet', hinitial', hcontent⟩ := hok rfl
    rw [hinitial] at hinitial'
    cases hinitial'
    rw [hcontent, List.length_append, ← hcontent] at hfields
    omega
  · intro hnot
    refine ⟨r, s', hrun, ?_, fun _ _ => hiv⟩
    rintro rfl
    obtain ⟨⟨hacceptable, hcomplete⟩, packet, hinitial, ⟨-, hall⟩, hcontent⟩ :=
      hreturns.post () s' hrun
    have hlen : packetEnd s.channel.content ≤ s.channel.content.length := by
      rcases hcomplete with h | hended
      · exact h
      · by_contra hlt
        exact hnot ⟨hended, hacceptable, by omega⟩
    refine ⟨packet, hinitial, ?_⟩
    rw [hcontent, hall hlen, List.take_append_drop]

/-- **Bytes that were not received** are used exactly where the stream ends within the
MAC of a packet, or within the fields of an initial packet. -/
theorem received_iff (s : Protocol) :
    (PacketReceived s ↔ ¬ MacTruncated s) ∧ (InitialReceived s ↔ ¬ FieldsTruncated s) :=
  ⟨packetReceived_iff s, initialReceived_iff s⟩

/-- The initial packet up to the padding, which is one byte; of the puzzle challenge, six
bytes, nothing comes. -/
def withoutChallenge : List Int8 :=
  List.replicate 378 0 ++ [1, 0] ++ [0, 6, 0, 0, 0, 0, 0, 0] ++ [1]

def Protocol.withoutChallenge : Protocol where
  session := ⟨Vector.replicate 16 0, Vector.replicate 256 0, Vector.replicate 10 0, [], [], none, 0,
    0, default, 0⟩
  channel := ⟨[⟨Java.withoutChallenge, by decide⟩], none⟩
  listeners := []
  commands := []

/-- **The challenge is read from the padding.** -/
theorem withoutChallenge_not_received : ¬ InitialReceived .withoutChallenge := by
  rw [initialReceived_iff, not_not]
  refine ⟨rfl, ⟨?_, ?_, ?_, ?_, ?_, ?_, ?_⟩, ?_⟩ <;> decide +kernel

end Despotify.Java

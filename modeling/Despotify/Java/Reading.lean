import Despotify.Java.Protocol

/-!
# Java: when a read returns, and what it leaves

`Reading`: for each of the methods of `Protocol` that read a number of bytes, exactly
when it returns, the bytes it puts in its array, and the socket after it
(`returns_receive`, `returns_receiveAll`, `returns_receiveByte`).  A socket ends for
good (`Arrived`) or with an exception.

`Quiet`: all of them have an outcome, and none touches `keyRecvIv`.
-/

namespace Despotify.Java

/-! ## Arrays -/

section Put

variable {size : Nat} (bytes : Vector Int8 size) (off : Nat) (got : List Int8)

theorem toList_put (h : off + got.length ≤ size) :
    (put bytes off got).toList =
      bytes.toList.take off ++ got ++ bytes.toList.drop (off + got.length) := by
  apply List.ext_getElem
  · simp only [Vector.length_toList, List.length_append, List.length_take, List.length_drop]
    omega
  · intro i hi hi'
    rw [Vector.length_toList] at hi
    have hput : (put bytes off got).toList[i] =
        if off ≤ i ∧ i < off + got.length then got.getD (i - off) 0 else bytes[i] := by
      unfold put
      simp
    rw [hput]
    by_cases h1 : i < off
    · rw [if_neg (by omega), List.getElem_append_left (by simp; omega),
        List.getElem_append_left (by simp; omega)]
      simp
    · by_cases h2 : i < off + got.length
      · rw [if_pos ⟨by omega, h2⟩, List.getElem_append_left (by simp; omega),
          List.getElem_append_right (by simp; omega)]
        have hlen : (bytes.toList.take off).length = off := by
          rw [List.length_take, Vector.length_toList]
          omega
        rw [List.getD_eq_getElem?_getD, List.getElem?_eq_getElem (by omega), Option.getD_some]
        simp only [hlen]
      · rw [if_neg (by omega), List.getElem_append_right (by simp; omega)]
        have hlen : (bytes.toList.take off ++ got).length = off + got.length := by
          rw [List.length_append, List.length_take, Vector.length_toList]
          omega
        simp only [hlen, List.getElem_drop, Vector.getElem_toList]
        congr 1
        omega

theorem toList_put_zero (h : got.length ≤ size) :
    (put bytes 0 got).toList = got ++ bytes.toList.drop got.length := by
  rw [toList_put bytes 0 got (by omega), List.take_zero, List.nil_append, Nat.zero_add]

theorem take_put_zero {n : Nat} (h : got.length ≤ size) (hn : n = got.length) :
    (put bytes 0 got).toList.take n = got := by
  rw [toList_put_zero bytes got h, hn, List.take_left]

end Put

/-! ## Reading -/

section Reading

variable {size : Nat} (bytes : Vector Int8 size) {s : Protocol}

/-- The connection after `n` more bytes. -/
def Protocol.skip (n : Nat) (s : Protocol) : Protocol := { s with channel := s.channel.skip n }

theorem fill_run (n : Nat) (s : Protocol) :
    fill n n s = some (.ok (s.channel.content.take n,
      if s.channel.content.length < n then s.channel.failure else none), s.skip n) := by
  unfold fill
  rw [Source.fill_eq]
  rfl

theorem returns_catchIOException (what : String) (failure : Option String) :
    Proc.Returns (catchIOException what failure) s (failure = none) (fun _ s' => s' = s) := by
  cases failure with
  | none => exact (Proc.Returns.pure ()).imp (by simp) (fun _ _ _ h => h.2)
  | some message => exact Proc.Returns.throw _ nofun

/-- The bytes have come, or the stream has ended for good. -/
def Arrived (n : Nat) (c : Source String Int8) : Prop := n ≤ c.content.length ∨ c.failure = none

theorem failure_eq_none_iff (n : Nat) (c : Source String Int8) :
    (if c.content.length < n then c.failure else none) = none ↔ Arrived n c := by
  unfold Arrived
  by_cases h : c.content.length < n
  · rw [if_pos h]
    constructor
    · exact Or.inr
    · rintro (hn | hf)
      · omega
      · exact hf
  · rw [if_neg h]
    constructor
    · intro _
      exact Or.inl (by omega)
    · intro _
      rfl

theorem returns_received (off len : Int) :
    Proc.Returns (received size off len) s (Fit size off len) (fun got s' =>
      got.1 = s.channel.content.take len.toNat ∧
        (got.2 = none ↔ Arrived len.toNat s.channel) ∧ s' = s.skip len.toNat) := by
  refine (Proc.Returns.check _ fun _ => Proc.Returns.of_eq (fill_run len.toNat s)).imp (by simp) ?_
  rintro a s' - ⟨rfl, rfl⟩
  exact ⟨rfl, failure_eq_none_iff _ _, rfl⟩

theorem returns_receive (off len : Int) :
    Proc.Returns (receive bytes off len) s (Fit size off len ∧ Arrived len.toNat s.channel)
      (fun got s' => got.1 = (s.channel.content.take len.toNat).length ∧
        got.2 = put bytes off.toNat (s.channel.content.take len.toNat) ∧
        s' = s.skip len.toNat) := by
  refine (returns_received off len).bind ?_
  rintro ⟨got, failure⟩ s1 - ⟨rfl, hfailure, rfl⟩
  refine ((returns_catchIOException _ failure).bind (C := failure = none) (D := True) ?_).imp
    (by simp [hfailure]) (fun _ _ _ h => h)
  rintro _ s2 - rfl
  refine (Proc.Returns.pure _).imp Iff.rfl ?_
  rintro a s' - ⟨rfl, rfl⟩
  exact ⟨rfl, rfl, rfl⟩

theorem returns_receiveField (field : Session.Field size) (off len : Int) :
    Proc.Returns (receiveField field off len) s (Fit size off len ∧ Arrived len.toNat s.channel)
      (fun ret s' => ret = (s.channel.content.take len.toNat).length ∧
        s'.channel = s.channel.skip len.toNat ∧
        field.get s'.session =
          put (field.get s.session) off.toNat (s.channel.content.take len.toNat)) := by
  refine (returns_received off len).bind ?_
  rintro ⟨got, failure⟩ s1 - ⟨rfl, hfailure, rfl⟩
  refine ((Proc.Returns.modify _).bind (D := failure = none ∧ True) ?_).imp
    (by simp [hfailure]) (fun _ _ _ h => h)
  rintro _ s2 - rfl
  refine (returns_catchIOException _ failure).bind ?_
  rintro _ s3 - rfl
  refine (Proc.Returns.pure _).imp Iff.rfl ?_
  rintro a s' - ⟨rfl, rfl⟩
  exact ⟨rfl, rfl, field.get_set _ _⟩

theorem length_take_eq_iff {n : Nat} {l : List Int8} : (l.take n).length = n ↔ n ≤ l.length := by
  rw [List.length_take]
  omega

theorem returns_receiveAll (len : Nat) (what : String) (h : len ≤ size) :
    Proc.Returns (receiveAll bytes len what) s (len ≤ s.channel.content.length) (fun got s' =>
      got = put bytes 0 (s.channel.content.take len) ∧ s' = s.skip len) := by
  refine ((returns_receive bytes 0 len).bind (D := len ≤ s.channel.content.length) ?_).imp ?_
    (fun _ _ _ h => h)
  · rintro ⟨ret, got⟩ s1 - ⟨rfl, rfl, rfl⟩
    refine (Proc.Returns.check _ fun _ => Proc.Returns.pure _).imp ?_ ?_
    · rw [and_true]
      exact length_take_eq_iff
    · rintro a s' - ⟨rfl, rfl⟩
      exact ⟨rfl, rfl⟩
  · unfold Fit Arrived
    omega

theorem returns_receiveAllField (field : Session.Field size) (off len : Nat) (what : String)
    (h : off + len ≤ size) :
    Proc.Returns (receiveAllField field off len what) s (len ≤ s.channel.content.length)
      (fun _ s' => s'.channel = s.channel.skip len ∧ field.get s'.session =
        put (field.get s.session) off (s.channel.content.take len)) := by
  refine ((returns_receiveField field off len).bind (D := len ≤ s.channel.content.length) ?_).imp
    ?_ (fun _ _ _ h => h)
  · rintro ret s1 - ⟨rfl, hchannel, hget⟩
    refine (Proc.Returns.check _ fun _ => Proc.Returns.pure _).imp ?_ ?_
    · rw [and_true]
      exact length_take_eq_iff
    · rintro a s' - ⟨-, rfl⟩
      exact ⟨hchannel, hget⟩
  · unfold Fit Arrived
    omega

theorem returns_receiveByte :
    Proc.Returns receiveByte s (1 ≤ s.channel.content.length) (fun b s' =>
      b = unsigned (s.channel.content.getD 0 0) ∧ s' = s.skip 1) := by
  refine ((Proc.Returns.of_eq (fill_run 1 s)).bind (D := 1 ≤ s.channel.content.length) ?_).imp
    (by simp) (fun _ _ _ h => h)
  rintro got s1 - ⟨rfl, rfl⟩
  refine ((returns_catchIOException _ _).bind (D := 1 ≤ s.channel.content.length) ?_).imp ?_
    (fun _ _ _ h => h)
  · rintro _ s2 - rfl
    cases hc : s.channel.content with
    | nil => exact Proc.Returns.throw _ (by simp)
    | cons b content =>
      refine (Proc.Returns.pure _).imp (by simp) ?_
      rintro a s' - ⟨rfl, rfl⟩
      exact ⟨rfl, rfl⟩
  · rw [failure_eq_none_iff]
    unfold Arrived
    omega

theorem returns_putPacket (packet l : List Int8) :
    Proc.Returns (putPacket packet l) s (packet.length + l.length ≤ 1024)
      (fun a s' => a = packet ++ l ∧ s' = s) :=
  (Proc.Returns.check _ fun _ => Proc.Returns.pure _).imp (and_true _).to_iff fun _ _ _ h => h

end Reading

/-! ## What never changes -/

/-- Always an outcome, and the counter stays. -/
class Quiet {α : Type} (m : Recv α) : Prop extends Proc.Total m,
  Proc.Keeps (Proc.Same fun s : Protocol => s.session.keyRecvIv) m

theorem Quiet.mk' {α : Type} {m : Recv α}
    (h : ∀ s, ∃ r s', m s = some (r, s') ∧ s'.session.keyRecvIv = s.session.keyRecvIv) :
    Quiet m where
  total s := by
    obtain ⟨r, s', hrun, -⟩ := h s
    exact ⟨r, s', hrun⟩
  moves s r s' hrun := by
    obtain ⟨r1, s1, hrun1, hsame⟩ := h s
    rw [hrun] at hrun1
    cases hrun1
    exact hsame

instance quiet_pure {α : Type} (a : α) : Quiet (pure a : Recv α) := {}

instance quiet_throw {α : Type} (e : ReceiveException) : Quiet (Proc.throw e : Recv α) := {}

instance quiet_bind {α β : Type} (m : Recv α) (f : α → Recv β) [Quiet m] [∀ a, Quiet (f a)] :
    Quiet (m >>= f) := {}

instance quiet_ite {α : Type} (p : Prop) [Decidable p] (m m' : Recv α) [Quiet m] [Quiet m'] :
    Quiet (if p then m else m') := {}

instance quiet_session : Quiet session := Quiet.mk' fun s => ⟨_, s, rfl, rfl⟩

instance quiet_fill (n room : Nat) : Quiet (fill n room) := Quiet.mk' fun _ => ⟨_, _, rfl, rfl⟩

theorem quiet_setSession {f : Session → Session} (h : ∀ s, (f s).keyRecvIv = s.keyRecvIv) :
    Quiet (setSession f) := Quiet.mk' fun s => ⟨_, _, rfl, h s.session⟩

instance quiet_catchIOException (what : String) (failure : Option String) :
    Quiet (catchIOException what failure) := by
  cases failure with
  | none => exact quiet_pure ()
  | some message => exact quiet_throw _

instance quiet_received (size : Nat) (off len : Int) : Quiet (received size off len) := by
  unfold received
  infer_instance

instance quiet_receive {size : Nat} (bytes : Vector Int8 size) (off len : Int) :
    Quiet (receive bytes off len) := by
  unfold receive
  infer_instance

instance quiet_receiveField {size : Nat} (field : Session.Field size) (off len : Int) :
    Quiet (receiveField field off len) := by
  have hset (got : List Int8) := quiet_setSession
    (f := fun session => field.set (put (field.get session) off.toNat got) session)
    fun session => field.keyRecvIv_set _ session
  unfold receiveField
  infer_instance

instance quiet_receiveByte : Quiet receiveByte := by
  have hbyte (got : List Int8) : Quiet (match got with
      | [] => Proc.throw .bufferUnderflowException
      | b :: _ => pure (unsigned b) : Recv Nat) := by
    cases got with
    | nil => exact quiet_throw _
    | cons b got => exact quiet_pure _
  unfold receiveByte
  infer_instance

instance quiet_receiveAll {size : Nat} (bytes : Vector Int8 size) (len : Nat) (what : String) :
    Quiet (receiveAll bytes len what) := by
  unfold receiveAll
  infer_instance

instance quiet_receiveAllField {size : Nat} (field : Session.Field size) (off len : Nat)
    (what : String) : Quiet (receiveAllField field off len what) := by
  unfold receiveAllField
  infer_instance

instance quiet_putPacket (packet bytes : List Int8) : Quiet (putPacket packet bytes) := by
  unfold putPacket
  infer_instance

end Despotify.Java

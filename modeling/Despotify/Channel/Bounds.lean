import Despotify.Channel.Headers

/-!
# Which payloads `channel_process` handles within bounds

`channel_process` checks neither that the two id bytes are there nor that two
bytes are left for the next header length, dumps `len` bytes from behind a
header length that does not fit, and asserts what the server is to guarantee.

`noFault_iff` is exact: on any table, a call reads only the payload, does not
wrap `len` and fails no assertion if and only if the packet is `Proper`.
-/

namespace Despotify.Channels

variable {σ κ : Type}

/-- The header packets that are read to their end: complete headers, and the
terminator at the very end or not at all. -/
def IsHeaderPacket (buf : List UInt8) : Prop :=
  (∃ hs, hs ≠ [] ∧ (∀ h ∈ hs, IsHeader h) ∧ buf = encodeHeaders hs) ∨
  ∃ hs, (∀ h ∈ hs, IsHeader h) ∧ buf = encodeHeaders hs ++ [0, 0]

/-- The two id bytes are there, and if they select a channel in its header
phase and no error is signalled, what follows is a header packet. -/
def Proper (t : Table κ) (payload : List UInt8) (error : Bool) : Prop :=
  ∃ a b buf, payload = a :: b :: buf ∧
    ∀ ch, channelById t (ntohs a b) = some ch → error = false → ch.state = .header →
      IsHeaderPacket buf

/-- The exits of the loop without a fault. -/
theorem isHeaderPacket_iff {buf : List UInt8} :
    IsHeaderPacket buf ↔ 2 ≤ buf.length ∧
      ((splitHeaders buf).2 = .consumed ∨ (splitHeaders buf).2 = .zero 0) := by
  have hlen : ∀ (h : List UInt8) (hs : List (List UInt8)) (tail : List UInt8),
      2 ≤ (encodeHeaders (h :: hs) ++ tail).length := by
    intro h hs tail
    simp [encodeHeaders_cons]
  constructor
  · rintro (⟨hs, hne, hhs, rfl⟩ | ⟨hs, hhs, rfl⟩)
    · refine ⟨?_, Or.inl (splitHeaders_consumed.mpr ⟨hs, hhs, rfl⟩)⟩
      cases hs with
      | nil => exact absurd rfl hne
      | cons h hs => simpa using hlen h hs []
    · refine ⟨by simp, Or.inr (splitHeaders_zero.mpr ⟨hs, [], hhs, rfl, rfl⟩)⟩
  · rintro ⟨h2, hc | hz⟩
    · obtain ⟨hs, hhs, rfl⟩ := splitHeaders_consumed.mp hc
      refine Or.inl ⟨hs, ?_, hhs, rfl⟩
      rintro rfl
      simp [encodeHeaders] at h2
    · obtain ⟨hs, rest, hhs, hrest, rfl⟩ := splitHeaders_zero.mp hz
      rw [List.length_eq_zero_iff.mp hrest]
      exact Or.inr ⟨hs, hhs, rfl⟩

/-- Data and error packets are handled without a fault, whatever the callback
registers. -/
theorem processData_noFault (cb : Callback σ κ) (w : World σ κ) (p : Nat) (buf : List UInt8) :
    (processData cb w p buf).2.2 = [] := by
  unfold processData
  cases hget : (deliver cb w p buf).1.table.get p with
  | none => simp only [hget]
  | some ch =>
    have hmem : p ∈ (deliver cb w p buf).1.table.head.map Channel.ptr := by
      obtain ⟨hch, rfl⟩ := Keyed.find_mem hget
      exact List.mem_map_of_mem hch
    obtain ⟨head, hrem⟩ := Keyed.exists_remove hmem
    simp only [hget]
    split
    · unfold channelUnregister
      simp only [hget, hrem]
    · rfl

theorem processHeaders_noFault_iff (cb : Callback σ κ) (w : World σ κ) (p : Nat)
    (buf : List UInt8) : (processHeaders cb w p buf).2.2 = [] ↔ IsHeaderPacket buf := by
  rw [isHeaderPacket_iff]
  unfold processHeaders
  rw [headerLoop_eq]
  by_cases h2 : buf.length < 2
  · have h2' : ¬ 2 ≤ buf.length := by omega
    simp [h2, h2']
  · rw [if_neg h2, and_iff_right (by omega)]
    cases (splitHeaders buf).2 with
    | consumed => simp
    | notEnough => simp
    | shortRead => simp
    | zero left => cases left <;> simp

theorem channelProcess_noFault_iff (cb : Callback σ κ) (w : World σ κ) (payload : List UInt8) (error : Bool) :
    (channelProcess cb w payload error).2.2 = [] ↔ Proper w.table payload error := by
  match payload with
  | [] => simp [channelProcess, Proper]
  | [a] => simp [channelProcess, Proper]
  | a :: b :: buf =>
    unfold channelProcess Proper
    simp only [List.cons.injEq, ↓existsAndEq, and_true, true_and]
    cases hfind : channelById w.table (ntohs a b) with
    | none => simp
    | some ch =>
      cases error with
      | true => simp [processData_noFault]
      | false =>
        by_cases hstate : ch.state = .header
        · simp [hstate, processHeaders_noFault_iff]
        · simp [hstate, processData_noFault]

/-- **Bounds of `channel_process`**: on every table, for every payload and
error flag, nothing outside the payload is read, `len` does not wrap and no
assertion fails exactly when the packet is `Proper`. -/
theorem noFault_iff (cb : Callback σ κ) (w : World σ κ) (payload : List UInt8) (error : Bool) :
    (channelProcess cb w payload error).2.2 = [] ↔ Proper w.table payload error :=
  channelProcess_noFault_iff cb w payload error

def ignore : Callback Unit Unit := fun _ _ _ => ((), [], 0)

/-- What the server has to send to a channel just registered for each way to go
out of bounds. -/
theorem channelProcess_faults :
    let w : World Unit Unit := ⟨(channelRegister Table.empty ⟨none, (), true⟩).1, (), []⟩
    -- no room for the id
    (channelProcess ignore w [] false).2.2 = [.overRead, .underflow] ∧
    (channelProcess ignore w [0] false).2.2 = [.overRead, .underflow] ∧
    -- a lone id, and a terminator with bytes behind it
    (channelProcess ignore w [0, 0] false).2.2 = [.assertLen] ∧
    (channelProcess ignore w [0, 0, 0, 0, 7] false).2.2 = [.assertConsumed] ∧
    -- an odd byte at the end, and a header longer than the packet
    (channelProcess ignore w [0, 0, 0, 1, 9, 0] false).2.2 = [.overRead] ∧
    (channelProcess ignore w [0, 0, 0, 5, 9] false).2.2 = [.overRead] := by
  simp [channelProcess, processHeaders, headerLoop_eq, splitHeaders, ntohs, channelRegister,
    channelById, Keyed.find, Table.empty]

end Despotify.Channels

import Despotify.Wire.Packet
import Mathlib.Data.List.GetD
import Mathlib.Data.List.TakeWhile
import Mathlib.Algebra.Group.Nat.Defs
import Mathlib.Algebra.GroupWithZero.Nat
import Mathlib.Algebra.Group.Int.Defs

/-!
# `block_read` and `block_write`

The two loops of `lib/util.c` around `recv` and `send`, on any list of answers of these.
An answer moves some bytes, or says that the stream has ended, or fails and sets `errno`;
a call that does not fail leaves `errno` alone, so that the loop may read a stale one.

    Exact … ↔ the end of the stream is not met with a stale EINTR, and no more
              than 4 GiB are asked for and moved                   (blockIo_exact_iff)

`blockRead_stream` compares `block_read` with what `packet_read` makes of it.
-/

namespace Despotify.Util

/-! ## The loops -/

/-- How a call of `recv` or `send` comes back. -/
inductive Call
  /-- with `n + 1` bytes, or as many as it was asked for if these are fewer -/
  | moved (n : Nat)
  /-- with 0 -/
  | ended
  /-- with -1 -/
  | failed (errno : Int)
  deriving DecidableEq, Repr

def EINTR : Int := 4

/-- What a loop comes back with: its value, `errno`, what was moved, and the calls that are
still to come. -/
structure Back (σ : Type) where
  ret : Int
  errno : Int
  moved : σ
  calls : List Call

section
variable {σ : Type} (move : σ → Nat → Nat → σ)

/-- The loop from `idx` on, `none` while it waits for a call to come back.  `move` is the
transfer of so many bytes at an index of the buffer; `idx` is an `unsigned int`. -/
def blockLoop (nbyte : Nat) (idx : Nat) (errno : Int) (s : σ) (calls : List Call) :
    Option (Back σ) :=
  if nbyte ≤ idx then some ⟨idx, errno, s, calls⟩
  else
    match calls with
    | [] => none
    | .moved n :: calls =>
      let n := min (n + 1) (nbyte - idx)
      blockLoop nbyte ((idx + n) % 2 ^ 32) errno (move s idx n) calls
    | .ended :: calls =>
      if errno = EINTR then blockLoop nbyte idx errno s calls else some ⟨0, errno, s, calls⟩
    | .failed errno :: calls =>
      if errno = EINTR then blockLoop nbyte idx errno s calls else some ⟨-1, errno, s, calls⟩

end

/-- A buffer, and a socket of which `pos` bytes have been received. -/
structure Receiving where
  buf : Nat → UInt8
  stream : Nat → UInt8
  pos : Nat

/-- `recv (fd, buf + idx, …)` of `n` bytes. -/
def Receiving.move (s : Receiving) (idx n : Nat) : Receiving :=
  { s with
    buf := fun i => if idx ≤ i ∧ i < idx + n then s.stream (s.pos + (i - idx)) else s.buf i
    pos := s.pos + n }

/-- A buffer, and what has been sent. -/
structure Sending where
  buf : Nat → UInt8
  sent : List UInt8

/-- `send (fd, buf + idx, …)` of `n` bytes. -/
def Sending.move (s : Sending) (idx n : Nat) : Sending :=
  { s with sent := s.sent ++ (List.range n).map fun i => s.buf (idx + i) }

def blockRead (nbyte : Nat) (errno : Int) (s : Receiving) (calls : List Call) :
    Option (Back Receiving) := blockLoop Receiving.move nbyte 0 errno s calls

def blockWrite (nbyte : Nat) (errno : Int) (s : Sending) (calls : List Call) :
    Option (Back Sending) := blockLoop Sending.move nbyte 0 errno s calls

/-! ## What is asked of them -/

/-- The stream is over, or broken: an interruption is neither. -/
def Call.ends : Call → Bool
  | .moved _ => false
  | .ended => true
  | .failed errno => errno ≠ EINTR

def Call.count : Call → Nat
  | .moved n => n + 1
  | .ended | .failed _ => 0

/-- The calls before the first that ends the transfer. -/
def before (calls : List Call) : List Call := calls.takeWhile fun call => !call.ends

/-- The bytes there are for calls. -/
def bytes (calls : List Call) : Nat := (calls.map Call.count).sum

/-- What `block_read` and `block_write` are for: they return `nbyte` exactly when so many bytes
were moved, in one piece, and something else right after the call that ends the transfer. -/
structure Exact {σ : Type} (move : σ → Nat → Nat → σ) (nbyte : Nat) (errno : Int) (s : σ)
    (calls : List Call) : Prop where
  sound : ∀ back, blockLoop move nbyte 0 errno s calls = some back → back.ret = nbyte →
    nbyte ≤ bytes (before calls)
  complete : nbyte ≤ bytes (before calls) → ∃ back,
    blockLoop move nbyte 0 errno s calls = some back ∧ back.ret = nbyte ∧
      back.moved = move s 0 nbyte
  ended : bytes (before calls) < nbyte → ∀ call after, calls = before calls ++ call :: after →
    ∃ back, blockLoop move nbyte 0 errno s calls = some back ∧ back.ret ≤ 0 ∧ back.calls = after

/-- The end of the stream is met while `errno` still says EINTR. -/
def Stale (nbyte : Nat) (errno : Int) (calls : List Call) : Prop :=
  bytes (before calls) < nbyte ∧ (∃ after, calls = before calls ++ .ended :: after) ∧
    (errno = EINTR ∨ .failed EINTR ∈ before calls)

/-! ## One call -/

section
variable {σ : Type} {move : σ → Nat → Nat → σ} {nbyte idx : Nat} {errno : Int} {s : σ}
  {calls : List Call}

theorem blockLoop_of_le (h : nbyte ≤ idx) :
    blockLoop move nbyte idx errno s calls = some ⟨idx, errno, s, calls⟩ := by
  unfold blockLoop
  rw [if_pos h]

theorem blockLoop_nil (h : idx < nbyte) : blockLoop move nbyte idx errno s [] = none := by
  unfold blockLoop
  rw [if_neg (Nat.not_le.mpr h)]

theorem blockLoop_moved (h : idx < nbyte) (n : Nat) :
    blockLoop move nbyte idx errno s (.moved n :: calls) =
      blockLoop move nbyte ((idx + min (n + 1) (nbyte - idx)) % 2 ^ 32) errno
        (move s idx (min (n + 1) (nbyte - idx))) calls := by
  rw [blockLoop, if_neg (Nat.not_le.mpr h)]

theorem blockLoop_ended (h : idx < nbyte) :
    blockLoop move nbyte idx errno s (.ended :: calls) =
      if errno = EINTR then blockLoop move nbyte idx errno s calls
      else some ⟨0, errno, s, calls⟩ := by
  rw [blockLoop, if_neg (Nat.not_le.mpr h)]

theorem blockLoop_failed (h : idx < nbyte) (e : Int) :
    blockLoop move nbyte idx errno s (.failed e :: calls) =
      if e = EINTR then blockLoop move nbyte idx e s calls else some ⟨-1, e, s, calls⟩ := by
  rw [blockLoop, if_neg (Nat.not_le.mpr h)]

/-- What comes back is an index or no success. -/
theorem blockLoop_ret {back : Back σ} (hidx : idx < 2 ^ 32)
    (h : blockLoop move nbyte idx errno s calls = some back) : back.ret < 2 ^ 32 := by
  induction calls generalizing idx errno s with
  | nil =>
    by_cases hle : nbyte ≤ idx
    · rw [blockLoop_of_le hle] at h
      cases h
      exact Int.ofNat_lt.mpr hidx
    · rw [blockLoop_nil (Nat.not_le.mp hle)] at h
      cases h
  | cons call calls ih =>
    by_cases hle : nbyte ≤ idx
    · rw [blockLoop_of_le hle] at h
      cases h
      exact Int.ofNat_lt.mpr hidx
    · have hlt := Nat.not_le.mp hle
      cases call with
      | moved n =>
        rw [blockLoop_moved hlt] at h
        exact ih (Nat.mod_lt _ (by decide)) h
      | ended =>
        rw [blockLoop_ended hlt] at h
        split at h
        · exact ih hidx h
        · cases h
          exact (by decide : (0 : Int) < 2 ^ 32)
      | failed e =>
        rw [blockLoop_failed hlt] at h
        split at h
        · exact ih hidx h
        · cases h
          exact (by decide : (-1 : Int) < 2 ^ 32)

/-- The calls still to come are the last ones. -/
theorem blockLoop_calls {back : Back σ}
    (h : blockLoop move nbyte idx errno s calls = some back) :
    back.calls.length ≤ calls.length ∧ (idx < nbyte → back.calls.length < calls.length) := by
  induction calls generalizing idx errno s with
  | nil =>
    by_cases hle : nbyte ≤ idx
    · rw [blockLoop_of_le hle] at h
      cases h
      exact ⟨Nat.le_refl _, fun hlt => absurd hlt (Nat.not_lt.mpr hle)⟩
    · rw [blockLoop_nil (Nat.not_le.mp hle)] at h
      cases h
  | cons call calls ih =>
    by_cases hle : nbyte ≤ idx
    · rw [blockLoop_of_le hle] at h
      cases h
      exact ⟨Nat.le_refl _, fun hlt => absurd hlt (Nat.not_lt.mpr hle)⟩
    · have hlt := Nat.not_le.mp hle
      have hshorter : back.calls.length ≤ calls.length := by
        cases call with
        | moved n =>
          rw [blockLoop_moved hlt] at h
          exact (ih h).1
        | ended =>
          rw [blockLoop_ended hlt] at h
          split at h
          · exact (ih h).1
          · cases h
            exact Nat.le_refl _
        | failed e =>
          rw [blockLoop_failed hlt] at h
          split at h
          · exact (ih h).1
          · cases h
            exact Nat.le_refl _
      rw [List.length_cons]
      exact ⟨by omega, fun _ => by omega⟩

/-! ## The calls before the end -/

@[simp] theorem bytes_nil : bytes [] = 0 := rfl

@[simp] theorem bytes_cons (call : Call) (calls : List Call) :
    bytes (call :: calls) = call.count + bytes calls := rfl

theorem failed_ends {e : Int} (h : (Call.failed e).ends = false) : e = EINTR := by
  by_contra hne
  rw [Call.ends, decide_eq_false_iff_not] at h
  exact h hne

/-- While there are not enough bytes, the loop waits for the calls behind. -/
theorem blockLoop_before {pre : List Call} (hpre : ∀ call ∈ pre, call.ends = false)
    (h : idx + bytes pre < nbyte) (rest : List Call) :
    ∃ idx' errno' s', blockLoop move nbyte idx errno s (pre ++ rest) =
        blockLoop move nbyte idx' errno' s' rest ∧ idx' < nbyte ∧
      (errno' = EINTR ↔ errno = EINTR ∨ .failed EINTR ∈ pre) := by
  induction pre generalizing idx errno s with
  | nil => exact ⟨idx, errno, s, rfl, by rwa [bytes_nil] at h, by simp⟩
  | cons call pre ih =>
    obtain ⟨hcall, htail⟩ := List.forall_mem_cons.mp hpre
    rw [bytes_cons] at h
    have hlt : idx < nbyte := by omega
    cases call with
    | ended => cases hcall
    | moved n =>
      have hcount : (Call.moved n).count = n + 1 := rfl
      have hmin : min (n + 1) (nbyte - idx) = n + 1 := by omega
      have hmod : (idx + (n + 1)) % 2 ^ 32 ≤ idx + (n + 1) := Nat.mod_le _ _
      obtain ⟨idx', errno', s', heq, hidx, herr⟩ := @ih ((idx + (n + 1)) % 2 ^ 32) errno
        (move s idx (n + 1)) htail (by omega)
      refine ⟨idx', errno', s', ?_, hidx, ?_⟩
      · rw [List.cons_append, blockLoop_moved hlt, hmin, heq]
      · rw [herr, List.mem_cons, or_congr_right]
        exact (or_iff_right (by exact nofun)).symm
    | failed e =>
      obtain rfl := failed_ends hcall
      obtain ⟨idx', errno', s', heq, hidx, herr⟩ := @ih idx EINTR s htail (by omega)
      refine ⟨idx', errno', s', ?_, hidx, ?_⟩
      · rw [List.cons_append, blockLoop_failed hlt, if_pos rfl, heq]
      · rw [herr]
        exact iff_of_true (Or.inl rfl) (Or.inr List.mem_cons_self)

/-- With enough bytes the loop ends, and has moved all it was asked for in one piece. -/
theorem blockLoop_complete (hzero : ∀ s idx, move s idx 0 = s)
    (hadd : ∀ s idx m n, move (move s idx m) (idx + m) n = move s idx (m + n))
    {pre : List Call} (hpre : ∀ call ∈ pre, call.ends = false) (hn : nbyte < 2 ^ 32)
    (hidx : idx ≤ nbyte) (h : nbyte ≤ idx + bytes pre) (rest : List Call) :
    ∃ back, blockLoop move nbyte idx errno s (pre ++ rest) = some back ∧ back.ret = nbyte ∧
      back.moved = move s idx (nbyte - idx) := by
  induction pre generalizing idx errno s with
  | nil =>
    obtain rfl : idx = nbyte := by
      rw [bytes_nil] at h
      omega
    refine ⟨_, blockLoop_of_le (Nat.le_refl _), rfl, ?_⟩
    rw [Nat.sub_self, hzero]
  | cons call pre ih =>
    obtain ⟨hcall, htail⟩ := List.forall_mem_cons.mp hpre
    rw [bytes_cons] at h
    by_cases heq : idx = nbyte
    · subst heq
      refine ⟨_, blockLoop_of_le (Nat.le_refl _), rfl, ?_⟩
      rw [Nat.sub_self, hzero]
    have hlt : idx < nbyte := by omega
    cases call with
    | ended => cases hcall
    | moved n =>
      have hcount : (Call.moved n).count = n + 1 := rfl
      obtain ⟨k, hk⟩ : ∃ k, k = min (n + 1) (nbyte - idx) := ⟨_, rfl⟩
      have hmod : (idx + k) % 2 ^ 32 = idx + k := Nat.mod_eq_of_lt (by omega)
      obtain ⟨back, hback, hret, hmoved⟩ := @ih (idx + k) errno (move s idx k) htail (by omega)
        (by omega)
      refine ⟨back, ?_, hret, ?_⟩
      · rw [List.cons_append, blockLoop_moved hlt, ← hk, hmod, hback]
      · rw [hmoved, hadd]
        congr 1
        omega
    | failed e =>
      obtain rfl := failed_ends hcall
      have hcount : (Call.failed EINTR).count = 0 := rfl
      obtain ⟨back, hback, hret, hmoved⟩ := @ih idx EINTR s htail hidx (by omega)
      refine ⟨back, ?_, hret, hmoved⟩
      rw [List.cons_append, blockLoop_failed hlt, if_pos rfl, hback]

end

theorem before_ends (calls : List Call) : ∀ call ∈ before calls, call.ends = false := by
  intro call hcall
  have h := List.mem_takeWhile_imp hcall
  rwa [Bool.not_eq_true'] at h

theorem before_cases (calls : List Call) :
    calls = before calls ++ [] ∨
      ∃ call after, call.ends = true ∧ calls = before calls ++ call :: after := by
  have hsplit : before calls ++ calls.dropWhile (fun call => !call.ends) = calls :=
    List.takeWhile_append_dropWhile
  cases hrest : calls.dropWhile fun call => !call.ends with
  | nil =>
    rw [hrest] at hsplit
    exact Or.inl hsplit.symm
  | cons call after =>
    rw [hrest] at hsplit
    refine Or.inr ⟨call, after, ?_, hsplit.symm⟩
    have hhead := List.head_dropWhile_not (fun call : Call => !call.ends) (l := calls)
      (by rw [hrest]; exact List.cons_ne_nil _ _)
    simpa [hrest] using hhead

theorem ends_of_before {calls after : List Call} {call : Call}
    (h : calls = before calls ++ call :: after) : call.ends = true := by
  rcases before_cases calls with hall | ⟨call', after', hends, heq⟩
  · have hlen := congrArg List.length (h.symm.trans hall)
    rw [List.length_append, List.length_append] at hlen
    simp at hlen
  · have hcons := List.append_cancel_left (h.symm.trans heq)
    rw [(List.cons.inj hcons).1]
    exact hends

/-! ## When they do what they are for -/

section
variable {σ : Type} {move : σ → Nat → Nat → σ} {nbyte : Nat} {errno : Int} {s : σ}
  {calls : List Call}

/-- The call that ends the transfer, met in time. -/
theorem blockLoop_end {call : Call} {after : List Call} (h : bytes (before calls) < nbyte)
    (hcalls : calls = before calls ++ call :: after) :
    ∃ idx errno' s', blockLoop move nbyte 0 errno s calls =
        blockLoop move nbyte idx errno' s' (call :: after) ∧ idx < nbyte ∧
      (errno' = EINTR ↔ errno = EINTR ∨ .failed EINTR ∈ before calls) := by
  obtain ⟨idx, errno', s', heq, hrest⟩ := @blockLoop_before σ move nbyte 0 errno s _
    (before_ends calls) (by omega) (call :: after)
  rw [← hcalls] at heq
  exact ⟨idx, errno', s', heq, hrest⟩

/-- Unless the end is met with a stale EINTR, the loop returns there. -/
theorem blockLoop_of_not_stale (hstale : ¬ Stale nbyte errno calls)
    (h : bytes (before calls) < nbyte) {call : Call} {after : List Call}
    (hcalls : calls = before calls ++ call :: after) :
    ∃ back, blockLoop move nbyte 0 errno s calls = some back ∧ back.ret ≤ 0 ∧
      back.calls = after := by
  obtain ⟨idx, errno', s', heq, hidx, herr⟩ := @blockLoop_end σ move nbyte errno s _ _ _ h hcalls
  have hends := ends_of_before hcalls
  rw [heq]
  cases call with
  | moved n => cases hends
  | ended =>
    have hne : ¬ errno' = EINTR := fun he => hstale ⟨h, ⟨after, hcalls⟩, herr.mp he⟩
    rw [blockLoop_ended hidx, if_neg hne]
    exact ⟨_, rfl, Int.le_refl 0, rfl⟩
  | failed e =>
    rw [blockLoop_failed hidx, if_neg (of_decide_eq_true hends)]
    exact ⟨_, rfl, (by decide : (-1 : Int) ≤ 0), rfl⟩

/-- Exactly when a loop does what it is for. -/
theorem blockLoop_exact_iff (hzero : ∀ s idx, move s idx 0 = s)
    (hadd : ∀ s idx m n, move (move s idx m) (idx + m) n = move s idx (m + n)) :
    Exact move nbyte errno s calls ↔ ¬ Stale nbyte errno calls ∧
      (nbyte ≤ bytes (before calls) → nbyte < 2 ^ 32) := by
  constructor
  · intro h
    constructor
    · rintro ⟨hlt, ⟨after, hcalls⟩, herrno⟩
      obtain ⟨back, hback, -, hafter⟩ := h.ended hlt _ after hcalls
      obtain ⟨idx, errno', s', heq, hidx, herr⟩ :=
        @blockLoop_end σ move nbyte errno s _ _ _ hlt hcalls
      rw [heq, blockLoop_ended hidx, if_pos (herr.mpr herrno)] at hback
      -- the loop goes on, and comes back only after another call
      have hlen := (blockLoop_calls hback).2 hidx
      rw [hafter] at hlen
      exact Nat.lt_irrefl _ hlen
    · intro hle
      obtain ⟨back, hback, hret, -⟩ := h.complete hle
      have hlt := blockLoop_ret (by decide) hback
      omega
  · rintro ⟨hstale, hbound⟩
    constructor
    · intro back hback hret
      refine Nat.le_of_not_lt fun hlt => ?_
      rcases before_cases calls with hall | ⟨call, after, -, hcalls⟩
      · obtain ⟨idx, errno', s', heq, hidx, -⟩ := @blockLoop_before σ move nbyte 0 errno s _
          (before_ends calls) (by omega) []
        rw [← hall, hback, blockLoop_nil hidx] at heq
        cases heq
      · obtain ⟨back', hback', hneg, -⟩ :=
          @blockLoop_of_not_stale σ move nbyte errno s _ hstale hlt _ _ hcalls
        rw [hback] at hback'
        cases hback'
        omega
    · intro hle
      obtain ⟨rest, hcalls⟩ : ∃ rest, calls = before calls ++ rest := by
        rcases before_cases calls with hall | ⟨call, after, -, hcalls⟩
        · exact ⟨_, hall⟩
        · exact ⟨_, hcalls⟩
      obtain ⟨back, hback, hret, hmoved⟩ := @blockLoop_complete σ move nbyte 0 errno s hzero hadd _
        (before_ends calls) (hbound hle) (Nat.zero_le _) (by omega) rest
      rw [← hcalls] at hback
      exact ⟨back, hback, hret, hmoved⟩
    · intro hlt call after hcalls
      exact blockLoop_of_not_stale hstale hlt hcalls

/-- A connection the peer has closed, with a stale EINTR: no call is the last. -/
theorem blockLoop_closed (h : 0 < nbyte) (n : Nat) :
    blockLoop move nbyte 0 EINTR s (List.replicate n .ended) = none := by
  induction n with
  | zero => exact blockLoop_nil h
  | succ n ih => rw [List.replicate_succ, blockLoop_ended h, if_pos rfl, ih]

end

/-! ## The two loops -/

theorem Receiving.move_zero (s : Receiving) (idx : Nat) : s.move idx 0 = s := by
  have hbuf : (s.move idx 0).buf = s.buf := by
    funext i
    exact if_neg (by omega)
  cases s
  simp only [Receiving.move] at hbuf ⊢
  rw [hbuf]
  rfl

theorem Receiving.move_add (s : Receiving) (idx m n : Nat) :
    (s.move idx m).move (idx + m) n = s.move idx (m + n) := by
  have hbuf : ((s.move idx m).move (idx + m) n).buf = (s.move idx (m + n)).buf := by
    funext i
    simp only [Receiving.move]
    by_cases hlow : idx ≤ i
    · by_cases hm : i < idx + m
      · rw [if_neg (by omega), if_pos ⟨hlow, hm⟩, if_pos (by omega)]
      · by_cases hn : i < idx + m + n
        · rw [if_pos (by omega), if_pos (by omega)]
          congr 1
          omega
        · rw [if_neg (by omega), if_neg (by omega), if_neg (by omega)]
    · rw [if_neg (by omega), if_neg (by omega), if_neg (by omega)]
  have hpos : ((s.move idx m).move (idx + m) n).pos = (s.move idx (m + n)).pos :=
    Nat.add_assoc _ _ _
  simp only [Receiving.move] at hbuf hpos ⊢
  rw [hbuf, hpos]

theorem Sending.move_zero (s : Sending) (idx : Nat) : s.move idx 0 = s := by
  unfold Sending.move
  rw [List.range_zero, List.map_nil, List.append_nil]

theorem Sending.move_add (s : Sending) (idx m n : Nat) :
    (s.move idx m).move (idx + m) n = s.move idx (m + n) := by
  simp only [Sending.move, List.append_assoc, List.range_add, List.map_append, List.map_map]
  congr 2
  refine congrArg _ (List.map_congr_left fun i _ => ?_)
  simp only [Function.comp, Nat.add_assoc]

/-- **Blocking I/O**: `block_read` and `block_write` return what they were asked for exactly
when all of it was moved, and end with the stream, if and only if that end is not met with a
stale EINTR and no transfer is of 4 GiB. -/
theorem blockIo_exact_iff (nbyte : Nat) (errno : Int) (calls : List Call) :
    (∀ s : Receiving, Exact Receiving.move nbyte errno s calls ↔
      ¬ Stale nbyte errno calls ∧ (nbyte ≤ bytes (before calls) → nbyte < 2 ^ 32)) ∧
    ∀ s : Sending, Exact Sending.move nbyte errno s calls ↔
      ¬ Stale nbyte errno calls ∧ (nbyte ≤ bytes (before calls) → nbyte < 2 ^ 32) :=
  ⟨fun _ => blockLoop_exact_iff Receiving.move_zero Receiving.move_add,
    fun _ => blockLoop_exact_iff Sending.move_zero Sending.move_add⟩

/-- One byte is asked for, `errno` is a left over EINTR, and the peer closes the connection. -/
theorem not_exact_closed : ¬ ∀ (nbyte : Nat) (errno : Int) (calls : List Call) (s : Receiving),
    Exact Receiving.move nbyte errno s calls := by
  intro h
  obtain ⟨back, hback, -⟩ := (h 1 EINTR [.ended] ⟨fun _ => 0, fun _ => 0, 0⟩).ended (by decide)
    .ended [] rfl
  rw [show [Call.ended] = List.replicate 1 .ended from rfl, blockLoop_closed (by decide)] at hback
  cases hback

/-- On a stream that is delivered without interruptions and then ends, `block_read` is what
`packet_read` takes it for. -/
theorem blockRead_stream {sock : List UInt8} {nbyte : Nat} {errno : Int} {s : Receiving}
    {calls after : List Call} (hstream : ∀ i < sock.length, s.stream (s.pos + i) = sock.getD i 0)
    (hn : nbyte < 2 ^ 32) (herrno : errno ≠ EINTR) (hquiet : .failed EINTR ∉ before calls)
    (hcalls : calls = before calls ++ .ended :: after)
    (hsock : bytes (before calls) = sock.length) :
    ∃ back, blockRead nbyte errno s calls = some back ∧
      match (Packet.blockRead sock nbyte).1 with
      | some got => back.ret = nbyte ∧ (List.range nbyte).map back.moved.buf = got
      | none => back.ret ≤ 0 := by
  have hstale : ¬ Stale nbyte errno calls := by
    rintro ⟨-, -, h | h⟩
    · exact herrno h
    · exact hquiet h
  have hexact := (blockLoop_exact_iff (s := s) Receiving.move_zero Receiving.move_add).mpr
    ⟨hstale, fun _ => hn⟩
  unfold Packet.blockRead
  by_cases hle : nbyte ≤ sock.length
  · obtain ⟨back, hback, hret, hmoved⟩ := hexact.complete (hsock ▸ hle)
    refine ⟨back, hback, ?_⟩
    rw [if_pos hle]
    refine ⟨hret, ?_⟩
    rw [hmoved]
    refine List.ext_getElem (by simp [hle]) fun i hi hi' => ?_
    have hlt : i < nbyte := by simpa using hi
    rw [List.getElem_map, List.getElem_range, List.getElem_take]
    show (if 0 ≤ i ∧ i < 0 + nbyte then s.stream (s.pos + (i - 0)) else s.buf i) = _
    rw [if_pos (by omega), Nat.sub_zero, hstream i (by omega),
      List.getD_eq_getElem _ _ (by omega)]
  · obtain ⟨back, hback, hret, -⟩ := hexact.ended (hsock ▸ Nat.not_le.mp hle) _ after hcalls
    refine ⟨back, hback, ?_⟩
    rw [if_neg hle]
    exact hret

end Despotify.Util

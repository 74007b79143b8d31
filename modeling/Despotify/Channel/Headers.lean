import Despotify.Channel.Table

/-!
# The header phase of a channel: format and parser

A header packet is a sequence of non-empty headers, each behind its 16-bit
length; the last packet of the phase closes with a zero length.  `splitHeaders`
cuts a packet as the loop of `channel_process` does:

    headerLoop cb p w buf = (fold of headerStep over the headers, exit)   (headerLoop_eq)
    splitHeaders (encodeHeaders hs ++ rest) = hs followed by those of rest
                                                             (splitHeaders_encodeHeaders)

and `splitHeaders_consumed`, `splitHeaders_zero` say exactly which packets are
read to their end.
-/

namespace Despotify.Channels

variable {σ κ : Type}

/-- A header fits its length field, and zero is the terminator. -/
def IsHeader (h : List UInt8) : Prop := 0 < h.length ∧ h.length < 65536

instance (h : List UInt8) : Decidable (IsHeader h) := inferInstanceAs (Decidable (_ ∧ _))

def encodeHeader (h : List UInt8) : List UInt8 := htons h.length ++ h

def encodeHeaders (hs : List (List UInt8)) : List UInt8 := hs.flatMap encodeHeader

theorem encodeHeaders_cons (h : List UInt8) (hs : List (List UInt8)) :
    encodeHeaders (h :: hs) =
      UInt8.ofNat (h.length / 256) :: UInt8.ofNat h.length :: (h ++ encodeHeaders hs) := rfl

/-- The headers in a packet, and how the loop ends on it. -/
def splitHeaders : List UInt8 → List (List UInt8) × LoopExit
  | [] => ([], .consumed)
  | [_] => ([], .shortRead)
  | a :: b :: ptr =>
    if ntohs a b = 0 then ([], .zero ptr.length)
    else if ptr.length < ntohs a b then ([], .notEnough)
    else
      (ptr.take (ntohs a b) :: (splitHeaders (ptr.drop (ntohs a b))).1,
        (splitHeaders (ptr.drop (ntohs a b))).2)
termination_by buf => buf.length
decreasing_by all_goals exact length_drop_lt a b ptr _

theorem splitHeaders_short {buf : List UInt8} (h : buf.length < 2) :
    splitHeaders buf = ([], .consumed) ∨ splitHeaders buf = ([], .shortRead) := by
  match buf, h with
  | [], _ => exact Or.inl (by rw [splitHeaders])
  | [_], _ => exact Or.inr (by rw [splitHeaders])

/-- **The loop of `channel_process` is a fold over the headers.** -/
theorem headerLoop_eq (cb : Callback σ κ) (p : Nat) (w : World σ κ) (buf : List UInt8) :
    headerLoop cb p w buf =
      ((splitHeaders buf).1.foldl (headerStep cb p) w, (splitHeaders buf).2) := by
  induction buf using splitHeaders.induct generalizing w with
  | case1 => rw [headerLoop, splitHeaders]; rfl
  | case2 b => rw [headerLoop, splitHeaders]; rfl
  | case3 a b ptr h => rw [headerLoop, splitHeaders, if_pos h, if_pos h]; rfl
  | case4 a b ptr h h' =>
    rw [headerLoop, splitHeaders, if_neg h, if_neg h, if_pos h', if_pos h']; rfl
  | case5 a b ptr h h' ih =>
    rw [headerLoop, splitHeaders, if_neg h, if_neg h, if_neg h', if_neg h', ih]; rfl

/-! ## Parsing what was encoded -/

theorem splitHeaders_header {h : List UInt8} (hh : IsHeader h) (rest : List UInt8) :
    splitHeaders (encodeHeader h ++ rest) =
      (h :: (splitHeaders rest).1, (splitHeaders rest).2) := by
  have hlen : ntohs (UInt8.ofNat (h.length / 256)) (UInt8.ofNat h.length) = h.length := by
    rw [ntohs_htons, Nat.mod_eq_of_lt hh.2]
  show splitHeaders (UInt8.ofNat (h.length / 256) :: UInt8.ofNat h.length :: (h ++ rest)) = _
  rw [splitHeaders, hlen, if_neg (Nat.ne_of_gt hh.1), if_neg (by simp)]
  simp

/-- The headers written come back, followed by those of the rest. -/
theorem splitHeaders_encodeHeaders {hs : List (List UInt8)} (hhs : ∀ h ∈ hs, IsHeader h)
    (rest : List UInt8) :
    splitHeaders (encodeHeaders hs ++ rest) =
      (hs ++ (splitHeaders rest).1, (splitHeaders rest).2) := by
  induction hs with
  | nil => rfl
  | cons h hs ih =>
    have hcons : encodeHeaders (h :: hs) ++ rest = encodeHeader h ++ (encodeHeaders hs ++ rest) := by
      simp [encodeHeaders]
    rw [hcons, splitHeaders_header (hhs h List.mem_cons_self),
      ih fun x hx => hhs x (List.mem_cons_of_mem _ hx)]
    rfl

/-! ## Which packets are read to their end -/

/-- The packet is its headers and a tail that the exit describes. -/
theorem splitHeaders_spec (buf : List UInt8) :
    ∃ tail, buf = encodeHeaders (splitHeaders buf).1 ++ tail ∧
      (∀ h ∈ (splitHeaders buf).1, IsHeader h) ∧
      match (splitHeaders buf).2 with
      | .consumed => tail = []
      | .zero left => ∃ rest, tail = 0 :: 0 :: rest ∧ rest.length = left
      | .notEnough => ∃ a b rest, tail = a :: b :: rest ∧ rest.length < ntohs a b
      | .shortRead => ∃ a, tail = [a] := by
  induction buf using splitHeaders.induct with
  | case1 => exact ⟨[], by simp [splitHeaders, encodeHeaders], by simp [splitHeaders], by simp [splitHeaders]⟩
  | case2 b => exact ⟨[b], by simp [splitHeaders, encodeHeaders], by simp [splitHeaders], by simp [splitHeaders]⟩
  | case3 a b ptr h =>
    have ha := a.toNat_lt
    have hzero : a = 0 ∧ b = 0 := by
      unfold ntohs at h
      refine ⟨UInt8.toNat_inj.mp ?_, UInt8.toNat_inj.mp ?_⟩ <;> simp <;> omega
    obtain ⟨rfl, rfl⟩ := hzero
    rw [splitHeaders, if_pos h]
    exact ⟨0 :: 0 :: ptr, rfl, nofun, ptr, rfl, rfl⟩
  | case4 a b ptr h h' =>
    rw [splitHeaders, if_neg h, if_pos h']
    exact ⟨a :: b :: ptr, rfl, nofun, a, b, ptr, rfl, h'⟩
  | case5 a b ptr h h' ih =>
    obtain ⟨tail, htail, hhs, hexit⟩ := ih
    have hlt := ntohs_lt a b
    have hlen : (ptr.take (ntohs a b)).length = ntohs a b := List.length_take_of_le (by omega)
    rw [splitHeaders, if_neg h, if_neg h']
    refine ⟨tail, ?_, ?_, hexit⟩
    · have henc : encodeHeader (ptr.take (ntohs a b)) = a :: b :: ptr.take (ntohs a b) := by
        rw [encodeHeader, hlen, htons_ntohs]
        rfl
      show a :: b :: ptr = encodeHeader _ ++ encodeHeaders _ ++ tail
      rw [henc, List.append_assoc, ← htail]
      simp
    · intro x hx
      rcases List.mem_cons.mp hx with rfl | hx
      · exact ⟨by rw [hlen]; omega, by rw [hlen]; exact hlt⟩
      · exact hhs x hx

/-- The loop consumes exactly the sequences of complete headers. -/
theorem splitHeaders_consumed {buf : List UInt8} :
    (splitHeaders buf).2 = .consumed ↔
      ∃ hs, (∀ h ∈ hs, IsHeader h) ∧ buf = encodeHeaders hs := by
  constructor
  · intro h
    obtain ⟨tail, htail, hhs, hexit⟩ := splitHeaders_spec buf
    simp only [h] at hexit
    rw [hexit, List.append_nil] at htail
    exact ⟨_, hhs, htail⟩
  · rintro ⟨hs, hhs, rfl⟩
    have h := splitHeaders_encodeHeaders hhs []
    rw [List.append_nil] at h
    rw [h, splitHeaders]

/-- It stops at a terminator behind a sequence of complete headers. -/
theorem splitHeaders_zero {buf : List UInt8} {left : Nat} :
    (splitHeaders buf).2 = .zero left ↔
      ∃ hs rest, (∀ h ∈ hs, IsHeader h) ∧ rest.length = left ∧
        buf = encodeHeaders hs ++ 0 :: 0 :: rest := by
  constructor
  · intro h
    obtain ⟨tail, htail, hhs, hexit⟩ := splitHeaders_spec buf
    simp only [h] at hexit
    obtain ⟨rest, rfl, hleft⟩ := hexit
    exact ⟨_, rest, hhs, hleft, htail⟩
  · rintro ⟨hs, rest, hhs, rfl, rfl⟩
    rw [splitHeaders_encodeHeaders hhs, splitHeaders, if_pos (by decide)]

end Despotify.Channels

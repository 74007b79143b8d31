import Despotify.Channel.Headers
import Despotify.Channel.Inv

/-!
# What one channel receives

Seen from one channel, `channel_process` is a machine of its own: `receive`
takes the channel and the body of a packet, and gives the calls of the callback
and the channel afterwards, `none` once it is gone.  Neither the other channels
nor what the callback registers enter into it.

`channelProcess_spec`: on a table that keeps its invariant, a packet for a live
channel does to that channel what `receive` says and leaves the others alone.
-/

namespace Despotify.Channels

variable {σ κ : Type}

/-! ## The parts of `channel_process` on a live channel -/

theorem World.get_enter (cb : Callback σ κ) (w : World σ κ) (p : Nat) (data : List UInt8)
    {q : Nat} (hq : q < w.table.brk) : (w.enter cb p data).1.table.get q = w.table.get q := by
  unfold World.enter
  cases w.table.get p with
  | none => rfl
  | some ch => exact Table.get_registerAll _ _ hq

theorem World.calls_enter (cb : Callback σ κ) {w : World σ κ} {p : Nat} {ch : Channel κ}
    (h : w.table.get p = some ch) (data : List UInt8) :
    (w.enter cb p data).1.calls = w.calls ++ [⟨ch, data⟩] := by
  unfold World.enter
  rw [h]

theorem World.get_modify_self {w : World σ κ} {p : Nat} {ch : Channel κ}
    (h : w.table.get p = some ch) {f : Channel κ → Channel κ} (hptr : ∀ ch, (f ch).ptr = ch.ptr) :
    (w.modify p f).table.get p = some (f ch) := by
  show (w.table.modify p f).get p = _
  rw [Table.get_modify _ _ _ hptr, if_pos rfl, h]
  rfl

theorem World.setState_spec {w : World σ κ} (h : w.table.Inv) {p : Nat} {ch : Channel κ}
    (hget : w.table.get p = some ch) (state : ChannelState) :
    (w.setState p state).table.Inv ∧ w.OnlyOn p (w.setState p state) ∧
      (w.setState p state).table.get p = some { ch with state := state } :=
  ⟨h.modify p (fun _ => rfl) fun _ => rfl, w.onlyOn_modify p fun _ => rfl,
    World.get_modify_self hget fun _ => rfl⟩

/-- The channel as the callback of `headerStep` sees it. -/
def Channel.nextHeader (ch : Channel κ) : Channel κ := { ch with headerId := ch.headerId + 1 }

/-- The channel as the callback of `deliver` sees it. -/
def Channel.onData (ch : Channel κ) (buf : List UInt8) : Channel κ :=
  if buf.length = 0 then { ch with state := .ended } else ch

theorem Channel.onData_ptr (ch : Channel κ) (buf : List UInt8) : (ch.onData buf).ptr = ch.ptr := by
  unfold Channel.onData
  split <;> rfl

/-- The channel after `headerStep`. -/
def Channel.afterHeader (ch : Channel κ) (header : List UInt8) : Channel κ :=
  { ch.nextHeader with totalHeaderLen := ch.totalHeaderLen + UInt32.ofNat header.length }

/-- The channel after `deliver`. -/
def Channel.afterData (ch : Channel κ) (buf : List UInt8) : Channel κ :=
  { ch.onData buf with
    totalDataLen := (ch.onData buf).totalDataLen + UInt32.ofNat buf.length }

/-- The calls of the callback on a sequence of headers. -/
def headerCalls : Channel κ → List (List UInt8) → List (Call κ)
  | _, [] => []
  | ch, h :: hs => ⟨ch.nextHeader, h⟩ :: headerCalls (ch.afterHeader h) hs

/-- One round of the header loop, on a live channel. -/
theorem headerStep_spec (cb : Callback σ κ) {w : World σ κ} (h : w.table.Inv) {p : Nat}
    {ch : Channel κ} (hget : w.table.get p = some ch) (header : List UInt8) :
    (headerStep cb p w header).table.Inv ∧ w.OnlyOn p (headerStep cb p w header) ∧
      (headerStep cb p w header).calls = w.calls ++ [⟨ch.nextHeader, header⟩] ∧
      (headerStep cb p w header).table.get p = some (ch.afterHeader header) := by
  have hp : p < w.table.brk := (Keyed.find_mem hget).2 ▸ h.fresh ch (Keyed.find_mem hget).1
  have h1 : (w.modify p Channel.nextHeader).table.Inv := h.modify p (fun _ => rfl) fun _ => rfl
  have hget1 : (w.modify p Channel.nextHeader).table.get p = some ch.nextHeader :=
    World.get_modify_self hget fun _ => rfl
  have h2 := World.inv_enter h1 cb p header
  have hget2 := (World.get_enter cb (w.modify p Channel.nextHeader) p header hp).trans hget1
  refine ⟨h2.modify p (fun _ => rfl) fun _ => rfl, ?_, World.calls_enter cb hget1 header, ?_⟩
  · have hon : w.OnlyOn p (w.modify p Channel.nextHeader) := w.onlyOn_modify p fun _ => rfl
    refine (hon.trans (World.onlyOn_enter cb _ p header)).trans ?_
    exact World.onlyOn_modify _ p fun _ => rfl
  · exact World.get_modify_self hget2 fun _ => rfl

/-- The header loop, on a live channel. -/
theorem headers_spec (cb : Callback σ κ) {w : World σ κ} (h : w.table.Inv) {p : Nat}
    {ch : Channel κ} (hget : w.table.get p = some ch) (hs : List (List UInt8)) :
    (hs.foldl (headerStep cb p) w).table.Inv ∧ w.OnlyOn p (hs.foldl (headerStep cb p) w) ∧
      (hs.foldl (headerStep cb p) w).calls = w.calls ++ headerCalls ch hs ∧
      (hs.foldl (headerStep cb p) w).table.get p = some (hs.foldl Channel.afterHeader ch) := by
  induction hs generalizing w ch with
  | nil => exact ⟨h, World.OnlyOn.refl p w, by simp [headerCalls], hget⟩
  | cons header hs ih =>
    obtain ⟨h1, hon1, hcalls1, hget1⟩ := headerStep_spec cb h hget header
    obtain ⟨h2, hon2, hcalls2, hget2⟩ := ih h1 hget1
    refine ⟨h2, hon1.trans hon2, ?_, hget2⟩
    rw [List.foldl_cons, hcalls2, hcalls1, List.append_assoc]
    rfl

/-- The delivery of data, on a live channel. -/
theorem deliver_spec (cb : Callback σ κ) {w : World σ κ} (h : w.table.Inv) {p : Nat}
    {ch : Channel κ} (hget : w.table.get p = some ch) (buf : List UInt8) :
    (deliver cb w p buf).1.table.Inv ∧ w.OnlyOn p (deliver cb w p buf).1 ∧
      (deliver cb w p buf).1.calls = w.calls ++ [⟨ch.onData buf, buf⟩] ∧
      (deliver cb w p buf).1.table.get p = some (ch.afterData buf) := by
  have hp : p < w.table.brk := (Keyed.find_mem hget).2 ▸ h.fresh ch (Keyed.find_mem hget).1
  obtain ⟨w1, hw1, h1, hon, hcalls, hbrk, hget1⟩ : ∃ w1 : World σ κ,
      w1 = (if buf.length = 0 then w.setState p .ended else w) ∧
      w1.table.Inv ∧ w.OnlyOn p w1 ∧ w1.calls = w.calls ∧ w1.table.brk = w.table.brk ∧
      w1.table.get p = some (ch.onData buf) := by
    refine ⟨_, rfl, ?_⟩
    unfold Channel.onData
    split
    · obtain ⟨h1, hon, hget1⟩ := World.setState_spec h hget .ended
      exact ⟨h1, hon, rfl, rfl, hget1⟩
    · exact ⟨h, World.OnlyOn.refl p w, rfl, rfl, hget⟩
  unfold deliver
  rw [← hw1]
  have h2 := World.inv_enter h1 cb p buf
  have hget2 := (World.get_enter cb w1 p buf (hbrk ▸ hp)).trans hget1
  refine ⟨h2.modify p (fun _ => rfl) fun _ => rfl, ?_, ?_, ?_⟩
  · refine (hon.trans (w1.onlyOn_enter cb p buf)).trans ?_
    exact World.onlyOn_modify _ p fun _ => rfl
  · exact hcalls ▸ World.calls_enter cb hget1 buf
  · exact World.get_modify_self hget2 fun _ => rfl

/-- After the delivery a channel in END or ERROR state is unregistered, and
`assert (tmp != NULL)` holds. -/
theorem processData_spec (cb : Callback σ κ) {w : World σ κ} (h : w.table.Inv) {p : Nat}
    {ch : Channel κ} (hget : w.table.get p = some ch) (buf : List UInt8) :
    ((ch.onData buf).state.final = false ∧
      processData cb w p buf = ((deliver cb w p buf).1, (deliver cb w p buf).2, [])) ∨
    ((ch.onData buf).state.final = true ∧
      ∃ t, channelUnregister (deliver cb w p buf).1.table p = some t ∧
        processData cb w p buf =
          ({ (deliver cb w p buf).1 with table := t }, (deliver cb w p buf).2, [])) := by
  obtain ⟨h1, -, -, hget1⟩ := deliver_spec cb h hget buf
  have hstate : (ch.afterData buf).state = (ch.onData buf).state := rfl
  unfold processData
  simp only [hget1, hstate]
  cases hf : (ch.onData buf).state.final with
  | false => exact Or.inl ⟨rfl, rfl⟩
  | true =>
    obtain ⟨t, ht⟩ := exists_channelUnregister hget1
    exact Or.inr ⟨rfl, t, ht, by rw [ht]; rfl⟩

/-! ## A channel as a machine -/

/-- One packet body. -/
def Channel.receive (ch : Channel κ) (body : List UInt8) (error : Bool) :
    List (Call κ) × Option (Channel κ) :=
  let ch := if error then { ch with state := .error } else ch
  if ch.state = .header then
    let ch' := (splitHeaders body).1.foldl Channel.afterHeader ch
    (headerCalls ch (splitHeaders body).1,
      some (if (splitHeaders body).2 = .zero 0 then { ch' with state := .data } else ch'))
  else
    ([⟨ch.onData body, body⟩],
      if (ch.onData body).state.final then none else some (ch.afterData body))

theorem state_headerCalls {ch : Channel κ} {hs : List (List UInt8)} {c : Call κ}
    (hc : c ∈ headerCalls ch hs) : c.ch.state = ch.state := by
  induction hs generalizing ch with
  | nil => cases hc
  | cons h hs ih =>
    rcases List.mem_cons.mp hc with rfl | hc
    · rfl
    · rw [ih hc]
      rfl

/-- A channel is gone exactly when its callback saw it in END or ERROR state. -/
theorem Channel.receive_fate (ch : Channel κ) (body : List UInt8) (error : Bool) :
    ((ch.receive body error).2 = none ↔
      ∃ c ∈ (ch.receive body error).1, c.ch.state.final = true) := by
  unfold Channel.receive
  generalize (if error then { ch with state := .error } else ch : Channel κ) = c0
  dsimp only
  split
  · rename_i hstate
    simp only [reduceCtorEq, false_iff, not_exists, not_and]
    intro c hc
    rw [state_headerCalls hc, hstate]
    exact Bool.false_ne_true
  · cases hf : (c0.onData body).state.final <;> simp [hf]

theorem channelId_foldl_afterHeader (ch : Channel κ) (hs : List (List UInt8)) :
    (hs.foldl Channel.afterHeader ch).channelId = ch.channelId := by
  induction hs generalizing ch with
  | nil => rfl
  | cons h hs ih => exact ih _

theorem Channel.onData_id (ch : Channel κ) (buf : List UInt8) :
    (ch.onData buf).channelId = ch.channelId := by
  unfold Channel.onData
  split <;> rfl

theorem Channel.receive_id (ch : Channel κ) {body : List UInt8} {error : Bool} {ch' : Channel κ}
    (h : (ch.receive body error).2 = some ch') : ch'.channelId = ch.channelId := by
  have h0 : (if error then { ch with state := .error } else ch : Channel κ).channelId =
      ch.channelId := by
    split <;> rfl
  unfold Channel.receive at h
  rw [← h0]
  generalize (if error then { ch with state := .error } else ch : Channel κ) = c0 at h
  dsimp only at h
  split at h
  · cases h
    split <;> exact channelId_foldl_afterHeader c0 _
  · dsimp only at h
    split at h
    · cases h
    · cases h
      exact c0.onData_id body

theorem processHeaders_spec (cb : Callback σ κ) {w : World σ κ} (h : w.table.Inv) {p : Nat}
    {ch : Channel κ} (hget : w.table.get p = some ch) (hstate : ch.state = .header)
    (buf : List UInt8) :
    (processHeaders cb w p buf).1.table.Inv ∧ w.OnlyOn p (processHeaders cb w p buf).1 ∧
      (processHeaders cb w p buf).1.calls = w.calls ++ (ch.receive buf false).1 ∧
      (processHeaders cb w p buf).1.table.get p = (ch.receive buf false).2 := by
  obtain ⟨h1, hon1, hcalls1, hget1⟩ := headers_spec cb h hget (splitHeaders buf).1
  have hreceive : ch.receive buf false = (headerCalls ch (splitHeaders buf).1,
      some (if (splitHeaders buf).2 = .zero 0 then
        { (splitHeaders buf).1.foldl Channel.afterHeader ch with state := .data }
        else (splitHeaders buf).1.foldl Channel.afterHeader ch)) := by
    simp [Channel.receive, hstate]
  rw [hreceive]
  unfold processHeaders
  split
  · -- fewer than two bytes hold no header
    rename_i hlen
    rcases splitHeaders_short hlen with hs | hs <;>
      simp [hs, headerCalls, hget, h, World.OnlyOn.refl]
  · rw [headerLoop_eq]
    cases (splitHeaders buf).2 with
    | consumed => exact ⟨h1, hon1, hcalls1, hget1⟩
    | notEnough => exact ⟨h1, hon1, hcalls1, hget1⟩
    | shortRead => exact ⟨h1, hon1, hcalls1, hget1⟩
    | zero left =>
      cases left with
      | succ n =>
        rw [if_neg (by simp)]
        exact ⟨h1, hon1, hcalls1, hget1⟩
      | zero =>
        obtain ⟨h2, hon2, hget2⟩ := World.setState_spec h1 hget1 .data
        rw [if_pos rfl]
        exact ⟨h2, hon1.trans hon2, hcalls1, hget2⟩

theorem processData_receive (cb : Callback σ κ) {w : World σ κ} (h : w.table.Inv) {p : Nat}
    {ch : Channel κ} (hget : w.table.get p = some ch) (buf : List UInt8) :
    (processData cb w p buf).1.table.Inv ∧ w.OnlyOn p (processData cb w p buf).1 ∧
      (processData cb w p buf).1.calls = w.calls ++ [⟨ch.onData buf, buf⟩] ∧
      (processData cb w p buf).1.table.get p =
        if (ch.onData buf).state.final then none else some (ch.afterData buf) := by
  obtain ⟨h1, hon, hcalls, hget1⟩ := deliver_spec cb h hget buf
  rcases processData_spec cb h hget buf with ⟨hf, heq⟩ | ⟨hf, t, ht, heq⟩
  · rw [heq, if_neg (by rw [hf]; exact Bool.false_ne_true)]
    exact ⟨h1, hon, hcalls, hget1⟩
  · rw [heq, if_pos hf]
    refine ⟨h1.channelUnregister ht, hon.trans (World.onlyOn_unregister h1 ht), hcalls, ?_⟩
    show t.get p = none
    rw [h1.get_channelUnregister ht, if_pos rfl]

/-- **A packet for a live channel**: that channel goes on as `receive` says and
its callback is entered as `receive` says; the others are left alone. -/
theorem channelProcess_spec (cb : Callback σ κ) {w : World σ κ} (h : w.table.Inv)
    {a b : UInt8} {ch : Channel κ} (hfind : channelById w.table (ntohs a b) = some ch)
    (buf : List UInt8) (error : Bool) :
    (channelProcess cb w (a :: b :: buf) error).1.table.Inv ∧
      w.OnlyOn ch.ptr (channelProcess cb w (a :: b :: buf) error).1 ∧
      (channelProcess cb w (a :: b :: buf) error).1.calls =
        w.calls ++ (ch.receive buf error).1 ∧
      (channelProcess cb w (a :: b :: buf) error).1.table.get ch.ptr =
        (ch.receive buf error).2 := by
  have hget : w.table.get ch.ptr = some ch :=
    h.get_eq_some.mpr ⟨(h.channelById_eq_some.mp hfind).1, rfl⟩
  unfold channelProcess
  simp only [hfind]
  cases error with
  | false =>
    simp only [Bool.false_eq_true, if_false]
    split
    · rename_i hstate
      exact processHeaders_spec cb h hget hstate buf
    · rename_i hstate
      have hreceive : ch.receive buf false = ([⟨ch.onData buf, buf⟩],
          if (ch.onData buf).state.final then none else some (ch.afterData buf)) := by
        simp [Channel.receive, hstate]
      rw [hreceive]
      exact processData_receive cb h hget buf
  | true =>
    simp only [if_true, reduceCtorEq, if_false]
    obtain ⟨h1, hon1, hget1⟩ := World.setState_spec h hget .error
    obtain ⟨h2, hon2, hcalls2, hget2⟩ := processData_receive cb h1 hget1 buf
    exact ⟨h2, hon1.trans hon2, hcalls2, hget2⟩

/-- A packet whose id selects no channel does nothing. -/
theorem channelProcess_none (cb : Callback σ κ) {w : World σ κ} {a b : UInt8}
    (hfind : channelById w.table (ntohs a b) = none) (buf : List UInt8) (error : Bool) :
    channelProcess cb w (a :: b :: buf) error = (w, 0, []) := by
  unfold channelProcess
  simp only [hfind]

/-- A packet that only closes the header phase. -/
theorem channelProcess_terminator (cb : Callback σ κ) {w : World σ κ} {a b : UInt8}
    {ch : Channel κ} (hfind : channelById w.table (ntohs a b) = some ch)
    (hstate : ch.state = .header) :
    channelProcess cb w [a, b, 0, 0] false = (w.setState ch.ptr .data, 0, []) := by
  have hloop : headerLoop cb ch.ptr w [0, 0] = (w, .zero 0) := by
    rw [headerLoop, if_pos (by decide)]
    rfl
  simp [channelProcess, hfind, hstate, processHeaders, hloop]

end Despotify.Channels

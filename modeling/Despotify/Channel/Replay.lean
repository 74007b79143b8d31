import Despotify.Channel.Receive

/-!
# What a packet does to the client

Nothing but the callbacks changes the client's state, so after a packet it is
what the callback makes of the calls in the log, one after the other:

    client after  =  replay cb client (calls of the packet)    (channelProcess_client)

`Stable.channelProcess` is the rule behind it, for any invariant of the world.
-/

namespace Despotify.Channels

variable {σ κ : Type}

/-- The callback, run over a list of calls. -/
def replay (cb : Callback σ κ) (client : σ) (calls : List (Call κ)) : σ :=
  calls.foldl (fun client c => (cb client c.ch c.data).1) client

@[simp] theorem replay_nil (cb : Callback σ κ) (client : σ) : replay cb client [] = client := rfl

@[simp] theorem replay_cons (cb : Callback σ κ) (client : σ) (c : Call κ) (calls : List (Call κ)) :
    replay cb client (c :: calls) = replay cb (cb client c.ch c.data).1 calls := rfl

theorem replay_append (cb : Callback σ κ) (client : σ) (xs ys : List (Call κ)) :
    replay cb client (xs ++ ys) = replay cb (replay cb client xs) ys := List.foldl_append

/-- The client's state and the log of calls move on together. -/
def World.Replays (cb : Callback σ κ) (w w' : World σ κ) : Prop :=
  ∃ new, w'.calls = w.calls ++ new ∧ w'.client = replay cb w.client new

theorem World.Replays.of_eq {cb : Callback σ κ} {w w' : World σ κ} (hcalls : w'.calls = w.calls)
    (hclient : w'.client = w.client) : w.Replays cb w' :=
  ⟨[], by rw [hcalls, List.append_nil], hclient⟩

theorem World.Replays.trans {cb : Callback σ κ} {w w' w'' : World σ κ} (h : w.Replays cb w')
    (h' : w'.Replays cb w'') : w.Replays cb w'' := by
  obtain ⟨new, hcalls, hclient⟩ := h
  obtain ⟨new', hcalls', hclient'⟩ := h'
  refine ⟨new ++ new', ?_, ?_⟩
  · rw [hcalls', hcalls, List.append_assoc]
  · rw [hclient', hclient, replay_append]

theorem World.replays_enter (cb : Callback σ κ) (w : World σ κ) (p : Nat) (data : List UInt8) :
    w.Replays cb (w.enter cb p data).1 := by
  unfold World.enter
  cases w.table.get p with
  | none => exact .of_eq rfl rfl
  | some ch => exact ⟨[⟨ch, data⟩], rfl, rfl⟩

/-! ## Invariants of the world -/

/-- An invariant that the callback, an assignment through a `CHANNEL *` and
`channel_unregister` keep. -/
structure Stable (cb : Callback σ κ) (I : World σ κ → Prop) : Prop where
  enter : ∀ {w : World σ κ} (p : Nat) (data : List UInt8), I w → I (w.enter cb p data).1
  modify : ∀ {w : World σ κ} (p : Nat) {f : Channel κ → Channel κ},
    (∀ ch, (f ch).ptr = ch.ptr ∧ (f ch).channelId = ch.channelId ∧
      (f ch).callback = ch.callback) → I w → I (w.modify p f)
  unregister : ∀ {w : World σ κ} {p : Nat} {t : Table κ},
    channelUnregister w.table p = some t → I w → I { w with table := t }

section
variable {cb : Callback σ κ} {I : World σ κ → Prop} (hI : Stable cb I)
include hI

theorem Stable.setState {w : World σ κ} (p : Nat) (state : ChannelState) (h : I w) :
    I (w.setState p state) := hI.modify p (fun _ => ⟨rfl, rfl, rfl⟩) h

theorem Stable.headerStep (p : Nat) {w : World σ κ} (header : List UInt8) (h : I w) :
    I (headerStep cb p w header) := by
  have hid := hI.modify (w := w) p (f := fun ch => { ch with headerId := ch.headerId + 1 })
    (fun _ => ⟨rfl, rfl, rfl⟩) h
  exact hI.modify p (fun _ => ⟨rfl, rfl, rfl⟩) (hI.enter p header hid)

theorem Stable.headerLoop (p : Nat) {w : World σ κ} (buf : List UInt8) (h : I w) :
    I (headerLoop cb p w buf).1 := by
  rw [headerLoop_eq]
  show I ((splitHeaders buf).1.foldl (Channels.headerStep cb p) w)
  generalize (splitHeaders buf).1 = hs
  induction hs generalizing w with
  | nil => exact h
  | cons header hs ih => exact ih (hI.headerStep p header h)

theorem Stable.processHeaders {w : World σ κ} (p : Nat) (buf : List UInt8) (h : I w) :
    I (processHeaders cb w p buf).1 := by
  have hloop := hI.headerLoop p buf h
  unfold Channels.processHeaders
  split
  · exact h
  · split <;> simp_all only
    exact hI.setState p .data hloop

theorem Stable.deliver {w : World σ κ} (p : Nat) (buf : List UInt8) (h : I w) :
    I (deliver cb w p buf).1 := by
  have hended : I (if buf.length = 0 then w.setState p .ended else w) := by
    split
    · exact hI.setState p .ended h
    · exact h
  exact hI.modify p (fun _ => ⟨rfl, rfl, rfl⟩) (hI.enter p buf hended)

theorem Stable.processData {w : World σ κ} (p : Nat) (buf : List UInt8) (h : I w) :
    I (processData cb w p buf).1 := by
  have hdeliver := hI.deliver p buf h
  unfold Channels.processData
  generalize Channels.deliver cb w p buf = r at hdeliver ⊢
  obtain ⟨w', ret⟩ := r
  dsimp only at hdeliver ⊢
  cases w'.table.get p with
  | none => exact hdeliver
  | some ch =>
    dsimp only
    split
    · cases ht : Channels.channelUnregister w'.table p with
      | none => exact hdeliver
      | some t => exact hI.unregister ht hdeliver
    · exact hdeliver

/-- **The rule for `channel_process`**: a packet keeps what its parts keep. -/
theorem Stable.channelProcess {w : World σ κ} (payload : List UInt8) (error : Bool) (h : I w) :
    I (channelProcess cb w payload error).1 := by
  match payload with
  | [] => exact h
  | [_] => exact h
  | a :: b :: buf =>
    cases hfind : channelById w.table (ntohs a b) with
    | none =>
      rw [channelProcess_none cb hfind]
      exact h
    | some ch =>
      obtain ⟨w', hw'⟩ : ∃ w', w' = if error then w.setState ch.ptr .error else w := ⟨_, rfl⟩
      have herror : I w' := by
        rw [hw']
        split
        · exact hI.setState ch.ptr .error h
        · exact h
      unfold Channels.channelProcess
      simp only [hfind]
      rw [← hw']
      generalize (if error then ChannelState.error else ch.state) = state
      split
      · exact hI.processHeaders _ _ herror
      · exact hI.processData _ _ herror

end

theorem stable_replays (cb : Callback σ κ) (w : World σ κ) : Stable cb (w.Replays cb) where
  enter p data h := h.trans (World.replays_enter cb _ p data)
  modify _ _ _ h := h.trans (.of_eq rfl rfl)
  unregister _ h := h.trans (.of_eq rfl rfl)

/-- **A packet for a live channel** changes the client as the calls of that
channel's callback do. -/
theorem channelProcess_client (cb : Callback σ κ) {w : World σ κ} (h : w.table.Inv)
    {a b : UInt8} {ch : Channel κ} (hfind : channelById w.table (ntohs a b) = some ch)
    (buf : List UInt8) (error : Bool) :
    (channelProcess cb w (a :: b :: buf) error).1.client =
      replay cb w.client (ch.receive buf error).1 := by
  obtain ⟨new, hnew, hclient⟩ :=
    (stable_replays cb w).channelProcess (a :: b :: buf) error (.of_eq rfl rfl)
  obtain ⟨-, -, hcalls, -⟩ := channelProcess_spec cb h hfind buf error
  rw [hclient, List.append_cancel_left (hnew.symm.trans hcalls)]

end Despotify.Channels

import Despotify.Channel.Feed
import Despotify.Channel.Replay

/-!
# The data packets of a channel

Data packets for one channel, handed to `channel_process` one after the other.  The
callback is entered once for each, and sees in `total_data_len` how many bytes came before,
modulo `2 ^ 32`.

* `feedData_client`: what the callback has made of the client's state.
-/

namespace Despotify.Channels

variable {σ κ : Type}

/-- The packets `ds` for the channel with the id. -/
def feedData (cb : Callback σ κ) (w : World σ κ) (id : Nat) (ds : List (List UInt8)) : World σ κ :=
  ds.foldl (fun w d => (channelProcess cb w (htons id ++ d) false).1) w

/-- A channel in the DATA state that has received nothing yet. -/
structure Receiving (w : World σ κ) (ch : Channel κ) : Prop where
  inv : w.table.Inv
  mem : ch ∈ w.table.head
  /-- the id fits in the two bytes of a packet -/
  onWire : ch.channelId < 65536
  state : ch.state = .data
  total : ch.totalDataLen = 0

theorem feedData_cons (cb : Callback σ κ) (w : World σ κ) (id : Nat) (d : List UInt8)
    (ds : List (List UInt8)) :
    feedData cb w id (d :: ds) =
      feedData cb (channelProcess cb w (htons id ++ d) false).1 id ds := rfl

theorem Channel.receive_data {ch : Channel κ} (hstate : ch.state = .data) {d : List UInt8}
    (hd : d ≠ []) : ch.receive d false = ([⟨ch, d⟩], some (ch.afterData d)) := by
  simp [Channel.receive, hstate, Channel.onData_of_ne hd, ChannelState.final]

/-- **The data packets of a channel** change the client as the calls of its callback do. -/
theorem feedData_client (cb : Callback σ κ) {w : World σ κ} (h : w.table.Inv) {ch : Channel κ}
    (hmem : ch ∈ w.table.head) (hid : ch.channelId < 65536) (hstate : ch.state = .data)
    {ds : List (List UInt8)} (hds : ∀ d ∈ ds, d ≠ []) :
    (feedData cb w ch.channelId ds).client = replay cb w.client (dataCalls ch ds) := by
  induction ds generalizing w ch with
  | nil => rfl
  | cons d ds ih =>
    obtain ⟨hd, hrest⟩ := List.forall_mem_cons.mp hds
    have hwire : ntohs (UInt8.ofNat (ch.channelId / 256)) (UInt8.ofNat ch.channelId) =
        ch.channelId := by rw [ntohs_htons, Nat.mod_eq_of_lt hid]
    have hfind : channelById w.table
        (ntohs (UInt8.ofNat (ch.channelId / 256)) (UInt8.ofNat ch.channelId)) = some ch :=
      h.channelById_eq_some.mpr ⟨hmem, hwire.symm⟩
    have hclient := channelProcess_client cb h hfind d false
    obtain ⟨hinv, -, -, hget⟩ := channelProcess_spec cb h hfind d false
    rw [Channel.receive_data hstate hd] at hclient hget
    have hon : ch.onData d = ch := Channel.onData_of_ne hd
    have hid' : (ch.afterData d).channelId = ch.channelId := by rw [Channel.afterData, hon]
    have hstate' : (ch.afterData d).state = .data := by
      rw [Channel.afterData, hon]
      exact hstate
    have hmem' := (hinv.get_eq_some.mp hget).1
    rw [feedData_cons]
    have hfeed := ih hinv hmem' (by rw [hid']; exact hid) hstate' hrest
    rw [hid', hclient] at hfeed
    exact hfeed

end Despotify.Channels

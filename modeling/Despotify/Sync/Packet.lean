import Despotify.Channel.Replay
import Despotify.Sync.Model

/-!
# What the network thread does to a session

A channel packet enters the callback of at most one channel: with headers only,
which the callbacks ignore, or once, with data or with the END or ERROR that
closes the channel.  `packet_spec` says what each of these does to the session.
-/

namespace Despotify.Sync

open Channels

/-! ## The request in progress -/

def Thread.request : Thread → Option Req
  | .opened req | .sent req _ | .waiting req _ | .woken req _ _ => some req
  | .off | .started | .loggingIn | .idle => none

/-- The request whose command is sent, and its channel. -/
def Thread.pending : Thread → Option (Req × Nat)
  | .sent req own | .waiting req own | .woken req own _ => some (req, own)
  | .off | .started | .loggingIn | .idle | .opened _ => none

/-- The login is not over. -/
def Thread.early : Thread → Bool
  | .off | .started | .loggingIn => true
  | .idle | .opened _ | .sent .. | .waiting .. | .woken .. => false

theorem Thread.request_of_pending {t : Thread} {req : Req} {own : Nat}
    (h : t.pending = some (req, own)) : t.request = some req := by
  cases t <;> simp_all [Thread.pending, Thread.request]

/-! ## The calls of one packet -/

theorem Req.handler_ne_other (req : Req) : req.handler ≠ .other := by
  cases req <;> exact nofun

/-- The call is one of the callback of the channel, `total_data_len` not yet raised. -/
structure On (ch : Channel Handler) (c : Call Handler) : Prop where
  ptr : c.ch.ptr = ch.ptr
  callback : c.ch.callback = ch.callback
  total : c.ch.totalDataLen = ch.totalDataLen

theorem mem_headerCalls {ch : Channel Handler} {hs : List (List UInt8)} {c : Call Handler}
    (hc : c ∈ headerCalls ch hs) : On ch c := by
  induction hs generalizing ch with
  | nil => cases hc
  | cons h hs ih =>
    rcases List.mem_cons.mp hc with rfl | hc
    · exact ⟨rfl, rfl, rfl⟩
    · have hnext := ih hc
      exact ⟨hnext.ptr, hnext.callback, hnext.total⟩

/-- A packet is all headers, or one call in another state. -/
theorem receive_calls (ch : Channel Handler) (body : List UInt8) (error : Bool) :
    (∀ c ∈ (ch.receive body error).1, On ch c ∧ c.ch.state = .header) ∨
      ∃ c, (ch.receive body error).1 = [c] ∧ On ch c ∧ c.ch.state ≠ .header ∧
        (c.ch.state = .data → c.data ≠ []) := by
  unfold Channel.receive
  obtain ⟨c0, hc0, hptr, hcb, htotal⟩ :
      ∃ c0, c0 = (if error then { ch with state := .error } else ch) ∧ c0.ptr = ch.ptr ∧
        c0.callback = ch.callback ∧ c0.totalDataLen = ch.totalDataLen := by
    refine ⟨_, rfl, ?_⟩
    split <;> exact ⟨rfl, rfl, rfl⟩
  rw [← hc0]
  dsimp only
  split
  · rename_i hstate
    refine Or.inl fun c hc => ⟨?_, (state_headerCalls hc).trans hstate⟩
    have hon := mem_headerCalls hc
    exact ⟨hon.ptr.trans hptr, hon.callback.trans hcb, hon.total.trans htotal⟩
  · rename_i hstate
    refine Or.inr ⟨_, rfl, ⟨(c0.onData_ptr body).trans hptr, ?_, ?_⟩, ?_, fun hdata hnil => ?_⟩
    · unfold Channel.onData
      split <;> exact hcb
    · unfold Channel.onData
      split <;> exact htotal
    · unfold Channel.onData
      split
      · exact nofun
      · exact hstate
    · unfold Channel.onData at hdata
      rw [if_pos (List.length_eq_zero_iff.mpr hnil)] at hdata
      cases hdata

/-- The calls a packet makes are on the channel it is for. -/
theorem mem_receive {ch : Channel Handler} {body : List UInt8} {error : Bool} {c : Call Handler}
    (hc : c ∈ (ch.receive body error).1) : On ch c := by
  rcases receive_calls ch body error with h | ⟨c', hcalls, hon, -, -⟩
  · exact (h c hc).1
  · rw [hcalls] at hc
    rw [List.mem_singleton.mp hc]
    exact hon

theorem replay_headers {calls : List (Call Handler)} (h : ∀ c ∈ calls, c.ch.state = .header)
    (ds : Ds) : replay callback ds calls = ds := by
  induction calls with
  | nil => rfl
  | cons c calls ih =>
    have hc : (callback ds c.ch c.data).1 = ds := by
      unfold callback
      cases c.ch.callback <;> simp [plainCallback, gzipCallback, h c List.mem_cons_self]
    rw [replay_cons, hc]
    exact ih fun c' hc' => h c' (List.mem_cons_of_mem _ hc')

/-- What a callback keeps of the data of a call. -/
def received (handler : Handler) (c : Call Handler) : List UInt8 :=
  match handler with
  | .plain => c.data
  | .gzip => skipGzipHeader c.ch.totalDataLen c.data
  | .other => []

/-- What a packet for the channel `ch` does: the calls it makes and the session
after it. -/
inductive Effect (ds : Ds) (ch : Channel Handler) : List (Call Handler) → Ds → Prop
  /-- headers, or a channel of the player -/
  | quiet {calls : List (Call Handler)} (hptr : ∀ c ∈ calls, c.ch.ptr = ch.ptr)
      (h : ch.callback = .other ∨ ∀ c ∈ calls, c.ch.state = .header) : Effect ds ch calls ds
  /-- END or ERROR -/
  | closed {c : Call Handler} (hptr : c.ch.ptr = ch.ptr) (hcb : ch.callback ≠ .other)
      (hstate : c.ch.state.final = true) : Effect ds ch [c] (ds.signal ch.ptr)
  | data {c : Call Handler} (hptr : c.ch.ptr = ch.ptr) (hcb : ch.callback ≠ .other)
      (hstate : c.ch.state = .data) (hne : received ch.callback c ≠ []) :
      Effect ds ch [c] (ds.append (received ch.callback c))
  /-- data that is all gzip header -/
  | skipped {c : Call Handler} (hptr : c.ch.ptr = ch.ptr) (hcb : ch.callback ≠ .other)
      (hstate : c.ch.state = .data) (hnil : received ch.callback c = []) : Effect ds ch [c] ds

theorem effect_single (ds : Ds) {ch : Channel Handler} {c : Call Handler}
    (hptr : c.ch.ptr = ch.ptr) (hcb : c.ch.callback = ch.callback) (hstate : c.ch.state ≠ .header)
    (hdata : c.ch.state = .data → c.data ≠ []) : Effect ds ch [c] (replay callback ds [c]) := by
  rw [replay_cons, replay_nil]
  cases hh : ch.callback with
  | other =>
    have hds : (callback ds c.ch c.data).1 = ds := by rw [callback, hcb, hh]
    rw [hds]
    exact .quiet (by simpa using hptr) (Or.inl hh)
  | plain =>
    have hds : (callback ds c.ch c.data).1 = plainCallback ds c.ch c.data := by
      rw [callback, hcb, hh]
    have hne : ch.callback ≠ .other := by rw [hh]; exact nofun
    rw [hds, plainCallback]
    cases hst : c.ch.state with
    | header => exact absurd hst hstate
    | data =>
      have hrec : received ch.callback c = c.data := by rw [hh, received]
      exact hrec ▸ .data hptr hne hst (hrec ▸ hdata hst)
    | ended => exact hptr ▸ .closed hptr hne (by rw [hst]; rfl)
    | error => exact hptr ▸ .closed hptr hne (by rw [hst]; rfl)
  | gzip =>
    have hds : (callback ds c.ch c.data).1 = gzipCallback ds c.ch c.data := by
      rw [callback, hcb, hh]
    have hne : ch.callback ≠ .other := by rw [hh]; exact nofun
    rw [hds, gzipCallback]
    cases hst : c.ch.state with
    | header => exact absurd hst hstate
    | data =>
      have hrec : received ch.callback c = skipGzipHeader c.ch.totalDataLen c.data := by
        rw [hh, received]
      dsimp only
      split
      · rename_i hskip
        exact .skipped hptr hne hst (hrec.trans hskip.2)
      · rename_i hskip
        refine hrec ▸ .data hptr hne hst fun hnil => hskip ?_
        rw [hrec] at hnil
        refine ⟨?_, hnil⟩
        by_contra hlarge
        rw [skipGzipHeader, if_neg hlarge] at hnil
        exact hdata hst hnil
    | ended => exact hptr ▸ .closed hptr hne (by rw [hst]; rfl)
    | error => exact hptr ▸ .closed hptr hne (by rw [hst]; rfl)

theorem effect_receive (ds : Ds) (ch : Channel Handler) (body : List UInt8) (error : Bool) :
    Effect ds ch (ch.receive body error).1 (replay callback ds (ch.receive body error).1) := by
  rcases receive_calls ch body error with h | ⟨c, hcalls, hon, hstate, hdata⟩
  · rw [replay_headers fun c hc => (h c hc).2]
    exact .quiet (fun c hc => (h c hc).1.ptr) (Or.inr fun c hc => (h c hc).2)
  · rw [hcalls]
    exact effect_single ds hon.ptr hon.callback hstate hdata

/-- The channel a packet leaves behind has the callback it had. -/
theorem receive_callback {ch ch' : Channel Handler} {body : List UInt8} {error : Bool}
    (h : (ch.receive body error).2 = some ch') : ch'.callback = ch.callback := by
  have hheaders : ∀ (hs : List (List UInt8)) (c : Channel Handler),
      (hs.foldl Channel.afterHeader c).callback = c.callback := by
    intro hs
    induction hs with
    | nil => exact fun _ => rfl
    | cons header hs ih => exact fun c => (ih _).trans rfl
  have hdata : ∀ c : Channel Handler, (c.onData body).callback = c.callback := by
    intro c
    unfold Channel.onData
    split <;> rfl
  have h0 : (if error then { ch with state := .error } else ch : Channel Handler).callback =
      ch.callback := by
    split <;> rfl
  unfold Channel.receive at h
  rw [← h0]
  generalize (if error then { ch with state := .error } else ch : Channel Handler) = c0 at h
  dsimp only at h
  split at h
  · cases h
    split <;> exact hheaders _ c0
  · dsimp only at h
    split at h
    · cases h
    · cases h
      exact hdata c0

/-! ## What a packet keeps of the session -/

theorem signal_pending (ds : Ds) (signaller : Nat) :
    (ds.signal signaller).thread.pending = ds.thread.pending ∧
      (ds.signal signaller).thread.request = ds.thread.request := by
  unfold Ds.signal
  split
  · rename_i h
    rw [h]
    exact ⟨rfl, rfl⟩
  · exact ⟨rfl, rfl⟩

theorem Effect.pending {ds ds' : Ds} {ch : Channel Handler} {calls : List (Call Handler)}
    (h : Effect ds ch calls ds') : ds'.thread.pending = ds.thread.pending ∧
      ds'.thread.request = ds.thread.request := by
  cases h with
  | quiet => exact ⟨rfl, rfl⟩
  | closed => exact signal_pending ds ch.ptr
  | data =>
    unfold Ds.append
    split <;> exact ⟨rfl, rfl⟩
  | skipped => exact ⟨rfl, rfl⟩

theorem Effect.ptr {ds ds' : Ds} {ch : Channel Handler} {calls : List (Call Handler)}
    (h : Effect ds ch calls ds') : ∀ c ∈ calls, c.ch.ptr = ch.ptr := by
  cases h with
  | quiet hptr => exact hptr
  | closed hptr => exact fun c hc => (List.mem_singleton.mp hc) ▸ hptr
  | data hptr => exact fun c hc => (List.mem_singleton.mp hc) ▸ hptr
  | skipped hptr => exact fun c hc => (List.mem_singleton.mp hc) ▸ hptr

theorem Effect.log {ds ds' : Ds} {ch : Channel Handler} {calls : List (Call Handler)}
    (h : Effect ds ch calls ds') : ds'.log = ds.log ∧ ds'.cache = ds.cache ∧
      ds'.useCache = ds.useCache := by
  cases h with
  | quiet => exact ⟨rfl, rfl, rfl⟩
  | closed =>
    unfold Ds.signal
    split <;> exact ⟨rfl, rfl, rfl⟩
  | data =>
    unfold Ds.append
    split <;> exact ⟨rfl, rfl, rfl⟩
  | skipped => exact ⟨rfl, rfl, rfl⟩

theorem Effect.buf {ds ds' : Ds} {ch : Channel Handler} {calls : List (Call Handler)}
    (h : Effect ds ch calls ds') {data : List UInt8} (hbuf : ds.response = .buf data) :
    ∃ data', ds'.response = .buf data' := by
  cases h with
  | quiet => exact ⟨data, hbuf⟩
  | closed =>
    unfold Ds.signal
    split <;> exact ⟨data, hbuf⟩
  | data =>
    unfold Ds.append
    rw [hbuf]
    exact ⟨_, rfl⟩
  | skipped => exact ⟨data, hbuf⟩

theorem Effect.early {ds ds' : Ds} {ch : Channel Handler} {calls : List (Call Handler)}
    (h : Effect ds ch calls ds') :
    ds'.thread.early = ds.thread.early ∧ ds'.welcomed = ds.welcomed := by
  cases h with
  | quiet => exact ⟨rfl, rfl⟩
  | closed =>
    unfold Ds.signal
    split
    · rename_i h
      rw [h]
      exact ⟨rfl, rfl⟩
    · exact ⟨rfl, rfl⟩
  | data =>
    unfold Ds.append
    split <;> exact ⟨rfl, rfl⟩
  | skipped => exact ⟨rfl, rfl⟩

/-! ## One packet -/

/-- The channel a payload is for. -/
def Sys.target (s : Sys) (payload : List UInt8) : Option (Channel Handler) :=
  match payload with
  | a :: b :: _ => channelById s.world.table (ntohs a b)
  | _ => none

/-- The calls a packet makes. -/
def Sys.callsOn (s : Sys) (payload : List UInt8) (error : Bool) : List (Call Handler) :=
  match s.target payload with
  | some ch => (ch.receive (payload.drop 2) error).1
  | none => []

/-- The world after a packet. -/
def Sys.process (s : Sys) (payload : List UInt8) (error : Bool) : World Ds Handler :=
  (channelProcess callback s.world payload error).1

def Sys.after (s : Sys) (payload : List UInt8) (error : Bool) : Sys :=
  { s with world := s.process payload error }

theorem process_none {s : Sys} {payload : List UInt8} (h : s.target payload = none)
    (error : Bool) : s.process payload error = s.world := by
  match payload, h with
  | [], _ => rfl
  | [_], _ => rfl
  | a :: b :: buf, h => rw [Sys.process, channelProcess_none callback h]

/-- **A packet for a live channel.** -/
theorem packet_spec {s : Sys} (h : s.world.table.Inv) {payload : List UInt8}
    {ch : Channel Handler} (ht : s.target payload = some ch) (error : Bool) :
    s.world.table.get ch.ptr = some ch ∧ s.world.OnlyOn ch.ptr (s.process payload error) ∧
      (s.process payload error).calls = s.world.calls ++ s.callsOn payload error ∧
      Effect s.ds ch (s.callsOn payload error) (s.process payload error).client ∧
      (s.process payload error).table.get ch.ptr = (ch.receive (payload.drop 2) error).2 := by
  match payload, ht with
  | a :: b :: buf, ht =>
    have hfind : channelById s.world.table (ntohs a b) = some ch := ht
    obtain ⟨-, hon, hcalls, hget⟩ := channelProcess_spec callback h hfind buf error
    have hcallsOn : s.callsOn (a :: b :: buf) error = (ch.receive buf error).1 := by
      rw [Sys.callsOn, ht]
      rfl
    refine ⟨h.get_eq_some.mpr ⟨(h.channelById_eq_some.mp hfind).1, rfl⟩, hon, ?_, ?_, hget⟩
    · rw [hcallsOn]
      exact hcalls
    · rw [hcallsOn, Sys.process, channelProcess_client callback h hfind]
      exact effect_receive _ ch buf error

end Despotify.Sync

import Despotify.Sync.Packet
import Despotify.Pool.Runs

/-!
# What one step does to a session

* `step_turn`: a step other than a channel packet enters no callback and leaves
  the channels of requests alone (`Kept`); `Turn` lists what it does to the
  session.
* `Base`: what holds in every state, `step_base` that every step keeps it.
-/

namespace Despotify.Sync

open Channels Runs

/-! ## Steps other than packets -/

/-- No callback was entered, and a channel that is there was there before with
the same callback and `total_data_len`, and as open, unless it is new. -/
structure Kept (s s' : Sys) : Prop where
  chan : s'.Inv
  calls : s'.world.calls = s.world.calls
  brk : s.world.table.brk ≤ s'.world.table.brk
  get : ∀ q < s.world.table.brk, ∀ ch, s'.world.table.get q = some ch →
    ∃ ch0, s.world.table.get q = some ch0 ∧ ch0.callback = ch.callback ∧
      ch0.totalDataLen = ch.totalDataLen ∧ (ch0.state.final = false → ch.state.final = false)

theorem Kept.setDs {s : Sys} (h : s.Inv) (ds : Ds) : Kept s (s.setDs ds) where
  chan := ⟨h.table, h.past, h.live⟩
  calls := rfl
  brk := Nat.le_refl _
  get := fun _ _ ch hget => ⟨ch, hget, rfl, rfl, id⟩

theorem Kept.trans {s s' s'' : Sys} (h : Kept s s') (h' : Kept s' s'') : Kept s s'' where
  chan := h'.chan
  calls := h'.calls.trans h.calls
  brk := Nat.le_trans h.brk h'.brk
  get := by
    intro q hq ch hget
    obtain ⟨ch1, hget1, hcb1, htotal1, hopen1⟩ := h'.get q (Nat.lt_of_lt_of_le hq h.brk) ch hget
    obtain ⟨ch0, hget0, hcb0, htotal0, hopen0⟩ := h.get q hq ch1 hget1
    exact ⟨ch0, hget0, hcb0.trans hcb1, htotal0.trans htotal1, fun ho => hopen1 (hopen0 ho)⟩

/-- The channel registered last. -/
theorem get_register_new (s : Sys) (name : List UInt8) (handler : Handler) :
    ∃ ch, (s.register name handler).world.table.get s.nextPtr = some ch ∧
      ch.callback = handler ∧ ch.totalDataLen = 0 ∧ ch.state = .header := by
  unfold Sys.register channelRegister Table.get
  simp only [if_true]
  rw [Keyed.find_cons]
  exact ⟨_, if_pos rfl, rfl, rfl, rfl⟩

theorem Kept.register {s : Sys} (h : s.Inv) (name : List UInt8) (handler : Handler) :
    Kept s (s.register name handler) where
  chan := h.register _
  calls := rfl
  brk := brk_channelRegister _ _
  get := by
    intro q hq ch hget
    exact ⟨ch, (s.world.table.get_channelRegister _ hq).symm.trans hget, rfl, rfl, id⟩

theorem Kept.forceData {s : Sys} (h : s.Inv) (p : Nat) : Kept s (s.forceData p) := by
  have hget : ∀ q, (s.forceData p).world.table.get q =
      if q = p then (s.world.table.get p).map ({ · with state := .data })
      else s.world.table.get q := fun q => Table.get_modify _ p q fun _ => rfl
  refine ⟨⟨h.table.modify p (fun _ => rfl) fun _ => rfl, h.past, fun q => ?_⟩, rfl,
    Nat.le_refl _, fun q _ ch hq => ?_⟩
  · have hsome : ((s.forceData p).world.table.get q).isSome =
        (s.world.table.get q).isSome := by
      rw [hget]
      split <;> simp_all
    rw [hsome]
    exact h.live q
  · rw [hget] at hq
    split at hq
    · rename_i hqp
      obtain ⟨ch0, hget0, rfl⟩ := Option.map_eq_some_iff.mp hq
      exact ⟨ch0, hqp ▸ hget0, rfl, rfl, fun _ => rfl⟩
    · exact ⟨ch, hq, rfl, rfl, id⟩

theorem Kept.unregister {s : Sys} (h : s.Inv) {p : Nat} {t : Table Handler}
    (ht : channelUnregister s.world.table p = some t) :
    Kept s { world := { s.world with table := t }, unregistered := p :: s.unregistered } where
  chan := h.unregister ht
  calls := rfl
  brk := (World.onlyOn_unregister h.table ht).brk
  get := by
    intro q _ ch hget
    have hget' := h.table.get_channelUnregister ht q
    rw [show t.get q = some ch from hget] at hget'
    split at hget'
    · cases hget'
    · exact ⟨ch, hget'.symm, rfl, rfl, id⟩

section
variable {inflate : List UInt8 → Option (List UInt8)}

/-- What a step other than a channel packet does to the session. -/
inductive Turn (inflate : List UInt8 → Option (List UInt8)) (s s' : Sys) (e : Event) : Prop
  /-- no request is concerned; a login that is not over was not over before -/
  | aside (hthread : s'.ds.thread = s.ds.thread ∨
        s.ds.thread.request = none ∧ s'.ds.thread.request = none)
      (hresponse : s'.ds.response = s.ds.response) (hcache : s'.ds.cache = s.ds.cache)
      (hlog : s'.ds.log = s.ds.log) (hmemory : s'.ds.corrupt = s.ds.corrupt)
      (huse : s'.ds.thread.request ≠ none → s'.ds.useCache = s.ds.useCache)
      (hearly : s'.ds.thread.early = true → s.ds.thread.early = true ∧
        (s'.ds.welcomed = s.ds.welcomed ∨ e = .welcome ∧ s.ds.thread = .started))
  | begin (req : Req) (hthread : s.ds.thread = .idle) (hds : s'.ds = s.ds.begin req)
  | send (req : Req) (ok : Bool) (hthread : s.ds.thread = .opened req) (hs' : s' = s.send req ok)
  | wait (req : Req) (own : Nat) (hthread : s.ds.thread = .sent req own)
      (hds : s'.ds = { s.ds with thread := .waiting req own })
  | timeout (req : Req) (own : Nat) (hthread : s.ds.thread = .waiting req own)
      (hds : s'.ds = { s.ds with thread := .idle, log := (req, .timedOut own) :: s.ds.log })
  | finish (req : Req) (own signaller : Nat) (data : List UInt8)
      (hthread : s.ds.thread = .woken req own signaller) (hresponse : s.ds.response = .buf data)
      (hds : s'.ds = s.ds.finish inflate req own signaller data)

theorem welcome_thread (ds : Ds) : ds.welcome.thread = ds.thread ∨
    ds.thread.request = none ∧ ds.welcome.thread.request = none := by
  cases h : ds.thread <;> simp [Ds.welcome, h, Thread.request]

/-- A welcome leaves only a login that has not entered its wait as it is. -/
theorem welcome_early {ds : Ds} (hoff : ds.thread ≠ .off) (h : ds.welcome.thread.early = true) :
    ds.thread.early = true ∧ ds.thread = .started := by
  cases ht : ds.thread <;> simp_all [Ds.welcome, Thread.early]

theorem step_packet {s s' : Sys} {payload : List UInt8} {error : Bool}
    (hs : step inflate s (.packet payload error) = some s') : s' = s.after payload error := by
  simp only [step] at hs
  split at hs
  · cases hs
  · cases hs
    rfl

/-- The end of a header phase. -/
theorem step_terminator {s : Sys} (hon : s.ds.thread ≠ .off) {a b : UInt8} {ch : Channel Handler}
    (hfind : channelById s.world.table (ntohs a b) = some ch) (hstate : ch.state = .header) :
    step inflate s (.packet [a, b, 0, 0] false) =
      some { s with world := s.world.setState ch.ptr .data } ∧
    s.callsOn [a, b, 0, 0] false = [] := by
  have hsplit : splitHeaders [0, 0] = ([], .zero 0) := by
    rw [splitHeaders, if_pos (by decide)]
    rfl
  refine ⟨?_, ?_⟩
  · simp only [step]
    rw [channelProcess_terminator callback hfind hstate]
  · have ht : s.target [a, b, 0, 0] = some ch := hfind
    simp [Sys.callsOn, ht, Channel.receive, hstate, hsplit, headerCalls]

/-- A step is a packet, or a `Turn` that keeps the channels. -/
theorem step_turn {s s' : Sys} {e : Event} (h : s.Inv) (hs : step inflate s e = some s') :
    (∃ payload error, e = .packet payload error ∧ s' = s.after payload error) ∨
      (Kept s s' ∧ Turn inflate s s' e) := by
  cases e with
  | packet payload error => exact Or.inl ⟨payload, error, rfl, step_packet hs⟩
  | authenticate =>
    simp only [step] at hs
    split at hs
    · rename_i ht
      cases hs
      exact Or.inr ⟨.setDs h _, .aside (Or.inr ⟨by rw [ht]; rfl, rfl⟩) rfl rfl rfl rfl
        (fun _ => rfl) fun _ => ⟨by rw [ht]; rfl, Or.inl rfl⟩⟩
    · cases hs
  | loginWait =>
    simp only [step] at hs
    split at hs
    · rename_i ht
      cases hs
      exact Or.inr ⟨.setDs h _, .aside (Or.inr ⟨by rw [ht]; rfl, rfl⟩) rfl rfl rfl rfl
        (fun _ => rfl) fun _ => ⟨by rw [ht]; rfl, Or.inl rfl⟩⟩
    · cases hs
  | welcome =>
    simp only [step] at hs
    split at hs
    · cases hs
    · rename_i hoff
      cases hs
      refine Or.inr ⟨.setDs h _, .aside (welcome_thread s.ds) rfl rfl rfl rfl (fun _ => rfl)
        fun hearly => ?_⟩
      obtain ⟨h1, h2⟩ := welcome_early hoff hearly
      exact ⟨h1, Or.inr ⟨rfl, h2⟩⟩
  | setUseCache useCache =>
    simp only [step] at hs
    split at hs
    · rename_i ht
      cases hs
      refine Or.inr ⟨.setDs h _, .aside (Or.inl rfl) rfl rfl rfl rfl (fun hr => ?_)
        fun h => ⟨h, Or.inl rfl⟩⟩
      exact absurd (congrArg Thread.request ht) hr
    · cases hs
  | begin req =>
    simp only [step] at hs
    split at hs
    · rename_i ht
      cases hs
      exact Or.inr ⟨.setDs h _, .begin req ht rfl⟩
    · cases hs
  | send ok =>
    simp only [step] at hs
    split at hs
    · rename_i req ht
      cases hs
      have hreg := Kept.register h [] req.handler
      exact Or.inr ⟨hreg.trans (.setDs hreg.chan _), .send req ok ht rfl⟩
    · cases hs
  | wait =>
    simp only [step] at hs
    split at hs
    · rename_i req own ht
      cases hs
      exact Or.inr ⟨.setDs h _, .wait req own ht rfl⟩
    · cases hs
  | timeout =>
    simp only [step] at hs
    split at hs
    · rename_i req own ht
      cases hs
      exact Or.inr ⟨.setDs h _, .timeout req own ht rfl⟩
    · cases hs
  | finish =>
    simp only [step] at hs
    split at hs
    · rename_i req own signaller data ht hr
      cases hs
      exact Or.inr ⟨.setDs h _, .finish req own signaller data ht hr rfl⟩
    · cases hs
  | register name dataState =>
    simp only [step] at hs
    cases hs
    have hreg := Kept.register h name .other
    cases dataState with
    | false =>
      exact Or.inr ⟨hreg, .aside (Or.inl rfl) rfl rfl rfl rfl (fun _ => rfl)
        fun h => ⟨h, Or.inl rfl⟩⟩
    | true =>
      exact Or.inr ⟨hreg.trans (.forceData hreg.chan _), .aside (Or.inl rfl) rfl rfl rfl rfl
        (fun _ => rfl) fun h => ⟨h, Or.inl rfl⟩⟩
  | unregister p =>
    simp only [step] at hs
    split at hs
    · rename_i ch t hget ht
      split at hs
      · cases hs
        exact Or.inr ⟨.unregister h ht, .aside (Or.inl rfl) rfl rfl rfl rfl (fun _ => rfl)
          fun h => ⟨h, Or.inl rfl⟩⟩
      · cases hs
    · cases hs

/-- A request is a cache hit, or opens its response buffer. -/
theorem begin_cases (ds : Ds) (req : Req) :
    (∃ data, ds.hit req = some data ∧ (ds.begin req).thread = ds.thread ∧
      (ds.begin req).cache = ds.cache ∧ (ds.begin req).log = (req, .cached data) :: ds.log) ∨
    (ds.hit req = none ∧
      ds.begin req = { ds with response := .buf req.initial, thread := .opened req }) := by
  unfold Ds.begin
  cases h : ds.hit req with
  | some data => exact Or.inl ⟨data, rfl, rfl, rfl, rfl⟩
  | none => exact Or.inr ⟨rfl, rfl⟩

/-- A request is in progress on a channel because it was, or its command has
just been sent. -/
theorem Turn.pending {s s' : Sys} {e : Event} (h : Turn inflate s s' e) {req : Req} {own : Nat}
    (hp : s'.ds.thread.pending = some (req, own)) :
    s.ds.thread.pending = some (req, own) ∨ own = s.nextPtr ∧ s' = s.send req true := by
  cases h with
  | aside hthread =>
    rcases hthread with ht | ⟨-, ht⟩
    · exact Or.inl (ht ▸ hp)
    · rw [Thread.request_of_pending hp] at ht
      cases ht
  | begin req' hthread hds =>
    rcases begin_cases s.ds req' with ⟨data, -, hthread', -, -⟩ | ⟨-, hopen⟩
    · rw [hds, hthread', hthread] at hp
      cases hp
    · rw [hds, hopen] at hp
      cases hp
  | send req' ok hthread hs' =>
    subst hs'
    cases ok with
    | false => cases hp
    | true =>
      cases hp
      exact Or.inr ⟨rfl, rfl⟩
  | wait req' own' hthread hds =>
    rw [hds] at hp
    exact Or.inl (by rw [hthread]; exact hp)
  | timeout req' own' hthread hds =>
    rw [hds] at hp
    cases hp
  | finish req' own' signaller data hthread hresponse hds =>
    rw [hds] at hp
    cases hp

/-- Only a packet wakes a request. -/
theorem Turn.woken {s s' : Sys} {e : Event} (h : Turn inflate s s' e) {req : Req}
    {own signaller : Nat} (hw : s'.ds.thread = .woken req own signaller) :
    s.ds.thread = .woken req own signaller ∧ s'.ds.useCache = s.ds.useCache := by
  cases h with
  | aside hthread _ _ _ _ huse =>
    rcases hthread with ht | ⟨-, ht⟩
    · exact ⟨ht ▸ hw, huse (by rw [hw]; exact nofun)⟩
    · rw [hw] at ht
      cases ht
  | begin req' hthread hds =>
    rcases begin_cases s.ds req' with ⟨data, -, hthread', -, -⟩ | ⟨-, hopen⟩
    · rw [hds, hthread', hthread] at hw
      cases hw
    · rw [hds, hopen] at hw
      cases hw
  | send req' ok hthread hs' =>
    subst hs'
    cases ok <;> cases hw
  | wait req' own' hthread hds =>
    rw [hds] at hw
    cases hw
  | timeout req' own' hthread hds =>
    rw [hds] at hw
    cases hw
  | finish req' own' signaller' data hthread hresponse hds =>
    rw [hds] at hw
    cases hw

/-- What a step writes into the log. -/
theorem Turn.log {s s' : Sys} {e : Event} (h : Turn inflate s s' e) {x : Req × Outcome}
    (hx : x ∈ s'.ds.log) : x ∈ s.ds.log ∨
      (∃ data, x.2 = .cached data ∧ s.ds.hit x.1 = some data) ∨ x.2 = .sendFailed ∨
      (∃ own, x.2 = .timedOut own) ∨
      ∃ own signaller data, s.ds.thread = .woken x.1 own signaller ∧ s.ds.response = .buf data ∧
        x.2 = .replied own signaller (data ++ x.1.terminator) := by
  cases h with
  | aside _ _ _ hlog => exact Or.inl (hlog ▸ hx)
  | begin req _ hds =>
    rw [hds] at hx
    rcases begin_cases s.ds req with ⟨data, hhit, -, -, hlog⟩ | ⟨-, hopen⟩
    · rw [hlog] at hx
      rcases List.mem_cons.mp hx with rfl | hx
      · exact Or.inr (Or.inl ⟨data, rfl, hhit⟩)
      · exact Or.inl hx
    · rw [hopen] at hx
      exact Or.inl hx
  | send req ok _ hs' =>
    subst hs'
    cases ok with
    | false =>
      rcases List.mem_cons.mp hx with rfl | hx
      · exact Or.inr (Or.inr (Or.inl rfl))
      · exact Or.inl hx
    | true => exact Or.inl hx
  | wait req own _ hds =>
    rw [hds] at hx
    exact Or.inl hx
  | timeout req own _ hds =>
    rw [hds] at hx
    rcases List.mem_cons.mp hx with rfl | hx
    · exact Or.inr (Or.inr (Or.inr (Or.inl ⟨own, rfl⟩)))
    · exact Or.inl hx
  | finish req own signaller data hthread hresponse hds =>
    rw [hds] at hx
    rcases List.mem_cons.mp hx with rfl | hx
    · exact Or.inr (Or.inr (Or.inr (Or.inr ⟨own, signaller, data, hthread, hresponse, rfl⟩)))
    · refine Or.inl ?_
      split at hx <;> exact hx

/-- What a step writes into the cache. -/
theorem Turn.cache {s s' : Sys} {e : Event} (h : Turn inflate s s' e) :
    s'.ds.cache = s.ds.cache ∨
      ∃ req own signaller data key content, s.ds.thread = .woken req own signaller ∧
        s.ds.response = .buf data ∧ req.storeKey s.ds.useCache = some key ∧
        req.stored inflate (data ++ req.terminator) = some content ∧
        s'.ds.cache = ⟨key, content, req, own⟩ :: s.ds.cache := by
  cases h with
  | aside _ _ hcache => exact Or.inl hcache
  | begin req _ hds =>
    refine Or.inl ?_
    rw [hds]
    rcases begin_cases s.ds req with ⟨data, -, -, hcache, -⟩ | ⟨-, hopen⟩
    · exact hcache
    · rw [hopen]
  | send req ok _ hs' =>
    subst hs'
    cases ok <;> exact Or.inl rfl
  | wait _ _ _ hds => exact Or.inl (by rw [hds])
  | timeout _ _ _ hds => exact Or.inl (by rw [hds])
  | finish req own signaller data hthread hresponse hds =>
    rw [hds]
    unfold Ds.finish
    dsimp only
    split
    · rename_i key content hkey hcontent
      exact Or.inr ⟨req, own, signaller, data, key, content, hthread, hresponse, hkey, hcontent,
        rfl⟩
    · exact Or.inl rfl

/-! ## What holds in every state -/

/-- The channel of the request in progress is its own, and its response buffer
is open. -/
structure Base (s : Sys) : Prop where
  chan : s.Inv
  own : ∀ req own, s.ds.thread.pending = some (req, own) → own < s.world.table.brk ∧
    ∀ ch, s.world.table.get own = some ch → ch.callback = req.handler
  buf : s.ds.thread.request ≠ none → ∃ data, s.ds.response = .buf data

theorem base_init (useCache : Bool) : Base (Sys.init useCache) where
  chan := Run.inv_init _
  own := nofun
  buf := fun h => absurd rfl h

/-- A request in progress has a buffer. -/
theorem Turn.buf {s s' : Sys} {e : Event} (h : Turn inflate s s' e)
    (hbuf : s.ds.thread.request ≠ none → ∃ data, s.ds.response = .buf data)
    (hr : s'.ds.thread.request ≠ none) : ∃ data, s'.ds.response = .buf data := by
  cases h with
  | aside hthread hresponse =>
    rcases hthread with ht | ⟨-, ht⟩
    · rw [hresponse]
      exact hbuf (ht ▸ hr)
    · exact absurd ht hr
  | begin req hthread hds =>
    rcases begin_cases s.ds req with ⟨data, -, hthread', -, -⟩ | ⟨-, hopen⟩
    · rw [hds, hthread', hthread] at hr
      exact absurd rfl hr
    · rw [hds, hopen]
      exact ⟨_, rfl⟩
  | send req ok hthread hs' =>
    subst hs'
    have hresponse : (s.send req ok).ds.response = s.ds.response := by
      cases ok <;> rfl
    rw [hresponse]
    exact hbuf (by rw [hthread]; exact nofun)
  | wait req own hthread hds =>
    rw [hds]
    exact hbuf (by rw [hthread]; exact nofun)
  | timeout req own hthread hds =>
    rw [hds] at hr
    exact absurd rfl hr
  | finish req own signaller data hthread hresponse hds =>
    rw [hds] at hr
    exact absurd rfl hr

theorem Base.turn {s s' : Sys} {e : Event} (h : Base s) (hk : Kept s s')
    (ht : Turn inflate s s' e) : Base s' := by
  refine ⟨hk.chan, fun req own hp => ?_, ht.buf h.buf⟩
  rcases ht.pending hp with hp0 | ⟨rfl, rfl⟩
  · obtain ⟨hlt, hcb⟩ := h.own req own hp0
    refine ⟨Nat.lt_of_lt_of_le hlt hk.brk, fun ch hget => ?_⟩
    obtain ⟨ch0, hget0, hcb0, -⟩ := hk.get own hlt ch hget
    rw [← hcb0, hcb ch0 hget0]
  · obtain ⟨ch, hget, hcb, -⟩ := get_register_new s [] req.handler
    refine ⟨Nat.lt_succ_self _, fun ch' hget' => ?_⟩
    rw [show (s.send req true).world.table.get s.nextPtr = some ch from hget] at hget'
    cases hget'
    exact hcb

theorem Base.packet {s : Sys} (h : Base s) (payload : List UInt8) (error : Bool) :
    Base (s.after payload error) := by
  have hchan : (s.after payload error).Inv := by
    have hprocess : Channels.step callback s (.process payload error) =
        some (s.after payload error) := rfl
    exact h.chan.step hprocess
  cases ht : s.target payload with
  | none =>
    have hworld : s.after payload error = s := by
      rw [Sys.after, process_none ht]
    rw [hworld]
    exact h
  | some ch =>
    obtain ⟨hget, hon, -, heff, hself⟩ := packet_spec h.chan.table ht error
    obtain ⟨hpend, hreq⟩ := heff.pending
    refine ⟨hchan, fun req own hp => ?_, fun hr => ?_⟩
    · obtain ⟨hlt, hcb⟩ := h.own req own (hpend.symm.trans hp)
      refine ⟨Nat.lt_of_lt_of_le hlt hon.brk, fun ch' hget' => ?_⟩
      by_cases hown : own = ch.ptr
      · subst hown
        rw [receive_callback (hself.symm.trans hget')]
        exact hcb ch hget
      · exact hcb ch' ((hon.get own hlt hown).symm.trans hget')
    · obtain ⟨data, hbuf⟩ := h.buf fun hnone => hr (hreq.trans hnone)
      exact heff.buf hbuf

theorem step_base {s s' : Sys} {e : Event} (h : Base s) (hs : step inflate s e = some s') :
    Base s' := by
  rcases step_turn h.chan hs with ⟨payload, error, -, rfl⟩ | ⟨hk, ht⟩
  · exact h.packet payload error
  · exact h.turn hk ht

end

end Despotify.Sync

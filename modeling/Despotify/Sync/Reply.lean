import Despotify.Channel.Feed
import Despotify.Sync.Wait
import Mathlib.Algebra.Group.Nat.Defs

/-!
# What a request is handed

All requests fill the one buffer `ds->response`, and the callbacks of all
channels signal the one condition variable.  The channel of a request that timed
out stays registered, so its data and its END may come during a later request.

* `Sys.reply`: what a request should hand to its decoder.
* `Harmless`: a call that meets no other request.
* `Clean`: while all calls are harmless, the buffer holds what has come on the
  request's own channel, and that channel alone ends the wait (`step_clean`).

`P` says which requests are of interest, given `use_cache`.
-/

namespace Despotify.Sync

open Channels Runs

/-! ## The data of one channel -/

/-- The bytes that came in DATA state. -/
def dataBytes (calls : List (Call Handler)) : List UInt8 :=
  calls.flatMap fun c => if c.ch.state = .data then c.data else []

/-- The DATA bytes of the channel at `p`. -/
def Sys.dataOf (s : Sys) (p : Nat) : List UInt8 := dataBytes (s.world.callsOf p)

/-- A gzip reply without its header. -/
def Handler.skip : Handler → List UInt8 → List UInt8
  | .gzip, data => data.drop 10
  | .plain, data | .other, data => data

/-- What a request should hand to its decoder. -/
def Sys.reply (s : Sys) (req : Req) (own : Nat) : List UInt8 :=
  req.initial ++ req.handler.skip (s.dataOf own) ++ req.terminator

theorem dataBytes_append (xs ys : List (Call Handler)) :
    dataBytes (xs ++ ys) = dataBytes xs ++ dataBytes ys := List.flatMap_append

theorem dataBytes_eq_nil {calls : List (Call Handler)} (h : ∀ c ∈ calls, c.ch.state ≠ .data) :
    dataBytes calls = [] := by
  rw [dataBytes, List.flatMap_eq_nil_iff]
  exact fun c hc => if_neg (h c hc)

theorem dataBytes_single {c : Call Handler} (h : c.ch.state = .data) :
    dataBytes [c] = c.data := by
  simp [dataBytes, h]

/-- `total_data_len` counts the data, modulo `2 ^ 32`. -/
theorem receive_total {ch ch' : Channel Handler} {body : List UInt8} {error : Bool}
    (h : (ch.receive body error).2 = some ch') :
    ch'.totalDataLen =
      ch.totalDataLen + UInt32.ofNat (dataBytes (ch.receive body error).1).length := by
  unfold Channel.receive at h ⊢
  obtain ⟨c0, hc0, htotal0⟩ : ∃ c0, c0 = (if error then { ch with state := .error } else ch) ∧
      c0.totalDataLen = ch.totalDataLen := by
    refine ⟨_, rfl, ?_⟩
    split <;> rfl
  rw [← hc0, ← htotal0]
  rw [← hc0] at h
  dsimp only at h ⊢
  split at h
  · rename_i hstate
    rw [if_pos hstate, dataBytes_eq_nil]
    · have htotal := (foldl_afterHeader c0 (splitHeaders body).1).2.2
      have hzero : c0.totalDataLen + UInt32.ofNat ([] : List UInt8).length = c0.totalDataLen :=
        UInt32.add_zero _
      cases h
      rw [hzero]
      split <;> exact htotal
    · intro c hc
      rw [state_headerCalls hc, hstate]
      exact nofun
  · rename_i hstate
    rw [if_neg hstate]
    dsimp only at h ⊢
    split at h
    · cases h
    · rename_i hfinal
      cases h
      have hdata : (c0.onData body).state = .data := by
        unfold Channel.onData at hfinal ⊢
        split
        · rename_i hnil
          rw [if_pos hnil] at hfinal
          exact absurd rfl hfinal
        · rename_i hnil
          rw [if_neg hnil] at hfinal
          cases hst : c0.state with
          | header => exact absurd hst hstate
          | data => rfl
          | ended | error =>
            rw [hst] at hfinal
            exact absurd rfl hfinal
      rw [dataBytes_single hdata]
      show (c0.onData body).totalDataLen + _ = _
      unfold Channel.onData
      split <;> rfl

/-- The skip of a packet is that of the whole reply, unless the count of the
bytes has come around. -/
theorem skip_append {handler : Handler} (hne : handler ≠ .other) {data : List UInt8}
    {c : Call Handler} (htotal : c.ch.totalDataLen = UInt32.ofNat data.length)
    (hcount : handler = .gzip → 10 ≤ data.length → 10 ≤ data.length % 2 ^ 32) :
    handler.skip (data ++ c.data) = handler.skip data ++ received handler c := by
  cases handler with
  | other => exact absurd rfl hne
  | plain => rfl
  | gzip =>
    have hnat : (UInt32.ofNat data.length).toNat = data.length % 2 ^ 32 := UInt32.toNat_ofNat
    rw [Handler.skip, Handler.skip, received, skipGzipHeader, htotal, List.drop_append]
    congr 1
    split
    · rename_i hlt
      have hlt' : (UInt32.ofNat data.length).toNat < 10 := UInt32.lt_iff_toNat_lt.mp hlt
      have hsmall : data.length < 10 := by
        by_contra hlarge
        have := hcount rfl (Nat.le_of_not_lt hlarge)
        omega
      rw [hnat, Nat.mod_eq_of_lt (by omega)]
    · rename_i hlt
      have hlt' : ¬ (UInt32.ofNat data.length).toNat < 10 :=
        fun h => hlt (UInt32.lt_iff_toNat_lt.mpr h)
      have hle : data.length % 2 ^ 32 ≤ data.length := Nat.mod_le _ _
      rw [show 10 - data.length = 0 by omega, List.drop_zero]

/-! ## Counting the data -/

theorem dataOf_of_calls {s s' : Sys} (h : s'.world.calls = s.world.calls) (p : Nat) :
    s'.dataOf p = s.dataOf p := by
  unfold Sys.dataOf World.callsOf
  rw [h]

theorem reply_of_calls {s s' : Sys} (h : s'.world.calls = s.world.calls) (req : Req) (own : Nat) :
    s'.reply req own = s.reply req own := by
  rw [Sys.reply, dataOf_of_calls h, Sys.reply]

/-- A packet for the channel `ch`: the data of the others is what it was. -/
theorem dataOf_after_ne {s : Sys} {payload : List UInt8} {error : Bool} {q p : Nat}
    (hon : s.world.OnlyOn q (s.process payload error)) (hne : q ≠ p) :
    (s.after payload error).dataOf p = s.dataOf p :=
  congrArg dataBytes (hon.callsOf hne)

theorem dataOf_after_self {s : Sys} {payload : List UInt8} {error : Bool} {p : Nat}
    (hcalls : (s.process payload error).calls = s.world.calls ++ s.callsOn payload error)
    (hptr : ∀ c ∈ s.callsOn payload error, c.ch.ptr = p) :
    (s.after payload error).dataOf p = s.dataOf p ++ dataBytes (s.callsOn payload error) := by
  have hfilter : (s.callsOn payload error).filter (·.ch.ptr = p) = s.callsOn payload error :=
    List.filter_eq_self.mpr fun c hc => by simpa using hptr c hc
  rw [Sys.dataOf, Sys.dataOf, ← dataBytes_append, World.callsOf, World.callsOf, Sys.after, hcalls,
    List.filter_append, hfilter]

/-- A channel not registered yet has received nothing. -/
theorem dataOf_new {s : Sys} (h : ∀ c ∈ s.world.calls, c.ch.ptr < s.world.table.brk) :
    s.dataOf s.nextPtr = [] := by
  have hnone : s.world.callsOf s.nextPtr = [] := by
    rw [World.callsOf, List.filter_eq_nil_iff]
    intro c hc
    have hlt : c.ch.ptr < s.nextPtr := h c hc
    simp only [decide_eq_true_eq]
    omega
  rw [Sys.dataOf, hnone]
  rfl

/-! ## Harmless calls -/

section
variable {inflate : List UInt8 → Option (List UInt8)} {P : Bool → Req → Prop}

/-- A call that meets no request of interest but the one it is for. -/
structure Harmless (P : Bool → Req → Prop) (s : Sys) (c : Call Handler) : Prop where
  /-- END and ERROR wake nobody else -/
  closing : c.ch.callback ≠ .other → c.ch.state.final = true → ∀ req own,
    s.ds.thread = .waiting req own → P s.ds.useCache req → c.ch.ptr = own
  /-- data finds a buffer -/
  buffer : c.ch.state = .data → received c.ch.callback c ≠ [] → ∃ data, s.ds.response = .buf data
  /-- data finds the buffer of nobody else -/
  owner : c.ch.state = .data → received c.ch.callback c ≠ [] → ∀ req,
    s.ds.thread.request = some req → P s.ds.useCache req →
    s.ds.thread.pending = some (req, c.ch.ptr)
  /-- `total_data_len` has not come around to the gzip header -/
  counted : c.ch.state = .data → c.ch.callback = .gzip → ∀ req,
    s.ds.thread.pending = some (req, c.ch.ptr) → P s.ds.useCache req →
    10 ≤ (s.dataOf c.ch.ptr).length → 10 ≤ (s.dataOf c.ch.ptr).length % 2 ^ 32

def Undisturbed (P : Bool → Req → Prop) (s : Sys) : Event → Prop
  | .packet payload error => ∀ c ∈ s.callsOn payload error, Harmless P s c
  | _ => True

/-! ## One step -/

/-- What an undisturbed run keeps. -/
structure Clean (P : Bool → Req → Prop) (s : Sys) : Prop extends Base s where
  past : ∀ c ∈ s.world.calls, c.ch.ptr < s.world.table.brk
  total : ∀ req own, s.ds.thread.pending = some (req, own) → ∀ ch,
    s.world.table.get own = some ch → ch.totalDataLen = UInt32.ofNat (s.dataOf own).length
  memory : s.ds.corrupt = false
  opened : ∀ req, s.ds.thread = .opened req → P s.ds.useCache req →
    s.ds.response = .buf req.initial
  filled : ∀ req own, s.ds.thread.pending = some (req, own) → P s.ds.useCache req →
    s.ds.response = .buf (req.initial ++ req.handler.skip (s.dataOf own))
  woken : ∀ req own signaller, s.ds.thread = .woken req own signaller → P s.ds.useCache req →
    signaller = own ∧ Ended s own

theorem clean_init (useCache : Bool) : Clean P (Sys.init useCache) where
  toBase := base_init useCache
  past := nofun
  total := nofun
  memory := rfl
  opened := nofun
  filled := nofun
  woken := nofun

theorem skip_nil (handler : Handler) : handler.skip [] = [] := by
  cases handler <;> rfl

/-- Without a request in progress there is nothing to keep. -/
theorem Clean.of_idle {s : Sys} (hbase : Base s)
    (hpast : ∀ c ∈ s.world.calls, c.ch.ptr < s.world.table.brk) (hmemory : s.ds.corrupt = false)
    (hidle : s.ds.thread.request = none) : Clean P s := by
  have hpending : ∀ req own, s.ds.thread.pending ≠ some (req, own) := by
    intro req own hp
    rw [Thread.request_of_pending hp] at hidle
    cases hidle
  refine ⟨hbase, hpast, fun req own hp => absurd hp (hpending req own), hmemory, ?_,
    fun req own hp => absurd hp (hpending req own), ?_⟩
  · intro req ht
    rw [ht] at hidle
    cases hidle
  · intro req own signaller ht
    rw [ht] at hidle
    cases hidle

/-- A step that leaves the request in progress, the buffer and the channels as
they are. -/
theorem Clean.of_same {s s' : Sys} (h : Clean P s) (hk : Kept s s') (hbase : Base s')
    (hpending : s'.ds.thread.pending = s.ds.thread.pending)
    (hopened : ∀ req, s'.ds.thread = .opened req → s.ds.thread = .opened req)
    (hwoken : ∀ req own signaller, s'.ds.thread = .woken req own signaller →
      s.ds.thread = .woken req own signaller)
    (hresponse : s'.ds.response = s.ds.response) (hmemory : s'.ds.corrupt = s.ds.corrupt)
    (huse : s'.ds.thread.request ≠ none → s'.ds.useCache = s.ds.useCache) : Clean P s' := by
  have huse' : ∀ req own, s'.ds.thread.pending = some (req, own) →
      s'.ds.useCache = s.ds.useCache := by
    intro req own hp
    exact huse (by rw [Thread.request_of_pending hp]; exact nofun)
  refine ⟨hbase, fun c hc => ?_, fun req own hp ch hget => ?_, hmemory.trans h.memory,
    fun req ht hP => ?_, fun req own hp hP => ?_, fun req own signaller ht hP => ?_⟩
  · rw [hk.calls] at hc
    exact Nat.lt_of_lt_of_le (h.past c hc) hk.brk
  · rw [hpending] at hp
    obtain ⟨ch0, hget0, -, htotal, -⟩ := hk.get own (h.own req own hp).1 ch hget
    rw [dataOf_of_calls hk.calls, ← htotal]
    exact h.total req own hp ch0 hget0
  · rw [huse (by rw [ht]; exact nofun)] at hP
    rw [hresponse]
    exact h.opened req (hopened req ht) hP
  · rw [huse' req own hp] at hP
    rw [hresponse, dataOf_of_calls hk.calls]
    exact h.filled req own (hpending ▸ hp) hP
  · rw [huse' req own (by rw [ht]; rfl)] at hP
    obtain ⟨hsig, hend⟩ := h.woken req own signaller (hwoken req own signaller ht) hP
    exact ⟨hsig, (ended_of_calls hk.calls own).mpr hend⟩

theorem Clean.turn {s s' : Sys} {e : Event} (h : Clean P s) (hk : Kept s s')
    (ht : Turn inflate s s' e) : Clean P s' := by
  have hbase : Base s' := h.toBase.turn hk ht
  have hpast : ∀ c ∈ s'.world.calls, c.ch.ptr < s'.world.table.brk := by
    intro c hc
    rw [hk.calls] at hc
    exact Nat.lt_of_lt_of_le (h.past c hc) hk.brk
  cases ht with
  | aside hthread hresponse _ _ hmemory huse =>
    rcases hthread with hthread | ⟨-, hidle⟩
    · refine h.of_same hk hbase (by rw [hthread]) ?_ ?_ hresponse hmemory huse
      · exact fun req ht => hthread ▸ ht
      · exact fun req own signaller ht => hthread ▸ ht
    · exact .of_idle hbase hpast (hmemory.trans h.memory) hidle
  | begin req hthread hds =>
    have hmemory : s'.ds.corrupt = false := by
      rw [hds, ← h.memory]
      unfold Ds.begin
      split <;> rfl
    rcases begin_cases s.ds req with ⟨data, -, hthread', -, -⟩ | ⟨-, hopen⟩
    · refine .of_idle hbase hpast hmemory ?_
      rw [hds, hthread', hthread]
      rfl
    · rw [hopen] at hds
      refine ⟨hbase, hpast, ?_, hmemory, ?_, ?_, ?_⟩
      · intro req' own hp
        rw [hds] at hp
        cases hp
      · intro req' ht _
        rw [hds] at ht ⊢
        cases ht
        rfl
      · intro req' own hp
        rw [hds] at hp
        cases hp
      · intro req' own signaller ht
        rw [hds] at ht
        cases ht
  | send req ok hthread hs' =>
    subst hs'
    cases ok with
    | false => exact .of_idle hbase hpast h.memory rfl
    | true =>
      have hnew : (s.send req true).dataOf s.nextPtr = [] := by
        rw [dataOf_of_calls hk.calls]
        exact dataOf_new h.past
      refine ⟨hbase, hpast, ?_, h.memory, nofun, ?_, nofun⟩
      · intro req' own hp ch hget
        cases hp
        obtain ⟨ch', hget', -, htotal, -⟩ := get_register_new s [] req.handler
        rw [show (s.send req true).world.table.get s.nextPtr = some ch' from hget'] at hget
        cases hget
        rw [hnew]
        exact htotal
      · intro req' own hp hP
        cases hp
        rw [hnew, skip_nil, List.append_nil]
        exact h.opened req hthread hP
  | wait req own hthread hds =>
    refine h.of_same hk hbase ?_ ?_ ?_ (by rw [hds]) (by rw [hds]) fun _ => by rw [hds]
    · rw [hds, hthread]
      rfl
    · intro req' ht
      rw [hds] at ht
      cases ht
    · intro req' own' signaller ht
      rw [hds] at ht
      cases ht
  | timeout req own hthread hds =>
    exact .of_idle hbase hpast (by rw [hds]; exact h.memory) (by rw [hds]; rfl)
  | finish req own signaller data hthread hresponse hds =>
    refine .of_idle hbase hpast ?_ (by rw [hds]; rfl)
    rw [hds, ← h.memory]
    unfold Ds.finish
    dsimp only
    split <;> rfl

/-- Only an END or ERROR changes what the thread does. -/
theorem Effect.thread {ds ds' : Ds} {ch : Channel Handler} {calls : List (Call Handler)}
    (h : Effect ds ch calls ds') : ds'.thread = ds.thread ∨
      ∃ c ∈ calls, ∃ req own, ch.callback ≠ .other ∧ c.ch.state.final = true ∧
        ds.thread = .waiting req own ∧ ds'.thread = .woken req own ch.ptr := by
  cases h with
  | quiet => exact Or.inl rfl
  | @closed c hptr hcb hstate =>
    unfold Ds.signal
    split
    · rename_i req own ht
      exact Or.inr ⟨c, List.mem_singleton_self c, req, own, hcb, hstate, ht, rfl⟩
    · exact Or.inl rfl
  | data =>
    refine Or.inl ?_
    unfold Ds.append
    split <;> rfl
  | skipped => exact Or.inl rfl

/-- Only data changes the buffer. -/
theorem Effect.response {ds ds' : Ds} {ch : Channel Handler} {calls : List (Call Handler)}
    (h : Effect ds ch calls ds') : ds'.response = ds.response ∧ ds'.corrupt = ds.corrupt ∨
      ∃ c ∈ calls, c.ch.state = .data ∧ received ch.callback c ≠ [] ∧
        ds' = ds.append (received ch.callback c) := by
  cases h with
  | quiet => exact Or.inl ⟨rfl, rfl⟩
  | closed =>
    unfold Ds.signal
    split <;> exact Or.inl ⟨rfl, rfl⟩
  | @data c _ _ hstate hne => exact Or.inr ⟨c, List.mem_singleton_self c, hstate, hne, rfl⟩
  | skipped => exact Or.inl ⟨rfl, rfl⟩

/-- Data of the request's own channel. -/
theorem Effect.fill {ds ds' : Ds} {ch : Channel Handler} {calls : List (Call Handler)}
    (h : Effect ds ch calls ds') (hcb : ch.callback ≠ .other) (hon : ∀ c ∈ calls, On ch c)
    {initial data : List UInt8} (htotal : ch.totalDataLen = UInt32.ofNat data.length)
    (hcount : ∀ c ∈ calls, c.ch.state = .data → ch.callback = .gzip → 10 ≤ data.length →
      10 ≤ data.length % 2 ^ 32)
    (hbuf : ds.response = .buf (initial ++ ch.callback.skip data)) :
    ds'.response = .buf (initial ++ ch.callback.skip (data ++ dataBytes calls)) := by
  have hskip : ∀ c ∈ calls, c.ch.state = .data →
      ch.callback.skip (data ++ c.data) = ch.callback.skip data ++ received ch.callback c := by
    intro c hc hstate
    exact skip_append hcb ((hon c hc).total.trans htotal) (hcount c hc hstate)
  cases h with
  | quiet _ hquiet =>
    rw [dataBytes_eq_nil, List.append_nil, hbuf]
    intro c hc
    rcases hquiet with ho | hheaders
    · exact absurd ho hcb
    · rw [hheaders c hc]
      exact nofun
  | @closed c _ _ hstate =>
    have hresponse : (ds.signal ch.ptr).response = ds.response := by
      unfold Ds.signal
      split <;> rfl
    rw [hresponse, dataBytes_eq_nil, List.append_nil, hbuf]
    intro c' hc' hdata
    rw [List.mem_singleton.mp hc'] at hdata
    rw [hdata] at hstate
    cases hstate
  | @data c _ _ hstate _ =>
    rw [dataBytes_single hstate, hskip c (List.mem_singleton_self c) hstate,
      ← List.append_assoc]
    unfold Ds.append
    rw [hbuf]
  | @skipped c _ _ hstate hnil =>
    rw [hbuf, dataBytes_single hstate, hskip c (List.mem_singleton_self c) hstate, hnil,
      List.append_nil]

theorem Clean.packet {s : Sys} (h : Clean P s) {payload : List UInt8} {error : Bool}
    (hok : Undisturbed P s (.packet payload error)) : Clean P (s.after payload error) := by
  have hbase := h.toBase.packet payload error
  cases ht : s.target payload with
  | none =>
    have hworld : s.after payload error = s := by
      rw [Sys.after, process_none ht]
    rw [hworld]
    exact h
  | some ch =>
    obtain ⟨hget, hon, hcalls, heff, hself⟩ := packet_spec h.chan.table ht error
    have hcallsOn : s.callsOn payload error = (ch.receive (payload.drop 2) error).1 := by
      rw [Sys.callsOn, ht]
    have honch : ∀ c ∈ s.callsOn payload error, On ch c := by
      intro c hc
      rw [hcallsOn] at hc
      exact mem_receive hc
    obtain ⟨hpend, hreq⟩ := heff.pending
    have huse : (s.process payload error).client.useCache = s.ds.useCache := heff.log.2.2
    -- what the packet leaves of the buffer of a request that is not its own
    have hother : ∀ req, s.ds.thread.request = some req → P s.ds.useCache req →
        s.ds.thread.pending ≠ some (req, ch.ptr) →
        (s.process payload error).client.response = s.ds.response := by
      intro req hr hP hne
      rcases heff.response with ⟨hresponse, -⟩ | ⟨c, hc, hstate, hrec, -⟩
      · exact hresponse
      · have hcb := (honch c hc).callback
        rw [← hcb] at hrec
        have hpending := (hok c hc).owner hstate hrec req hr hP
        rw [(honch c hc).ptr] at hpending
        exact absurd hpending hne
    refine ⟨hbase, ?_, ?_, ?_, ?_, ?_, ?_⟩
    · intro c hc
      have hlt : ch.ptr < s.world.table.brk := h.chan.table.lt_brk (by rw [hget]; rfl)
      refine Nat.lt_of_lt_of_le ?_ hon.brk
      rcases List.mem_append.mp (hcalls ▸ hc) with hc | hc
      · exact h.past c hc
      · rw [(honch c hc).ptr]
        exact hlt
    · intro req own hp ch' hget'
      have hp0 : s.ds.thread.pending = some (req, own) := hpend.symm.trans hp
      by_cases hown : ch.ptr = own
      · subst hown
        rw [dataOf_after_self hcalls heff.ptr, List.length_append, UInt32.ofNat_add,
          ← h.total req ch.ptr hp0 ch hget, hcallsOn]
        exact receive_total (hself.symm.trans hget')
      · rw [dataOf_after_ne hon hown]
        exact h.total req own hp0 ch'
          ((hon.get own (h.own req own hp0).1 (Ne.symm hown)).symm.trans hget')
    · rcases heff.response with ⟨-, hmemory⟩ | ⟨c, hc, hstate, hrec, happend⟩
      · exact hmemory.trans h.memory
      · rw [← (honch c hc).callback] at hrec
        obtain ⟨data, hbuf⟩ := (hok c hc).buffer hstate hrec
        show (s.process payload error).client.corrupt = false
        rw [happend, Ds.append, hbuf]
        exact h.memory
    · intro req hopen hP
      have hP0 : P s.ds.useCache req := huse ▸ hP
      rcases heff.thread with hthread | ⟨_, _, _, _, _, _, _, hwoken⟩
      · have hopen0 : s.ds.thread = .opened req := hthread.symm.trans hopen
        refine (hother req ?_ hP0 ?_).trans (h.opened req hopen0 hP0)
        · rw [hopen0]
          rfl
        · rw [hopen0]
          intro hp
          cases hp
      · cases hopen.symm.trans hwoken
    · intro req own hp hP
      have hP0 : P s.ds.useCache req := huse ▸ hP
      have hp0 : s.ds.thread.pending = some (req, own) := hpend.symm.trans hp
      by_cases hown : ch.ptr = own
      · subst hown
        have hcb : ch.callback = req.handler := (h.own req ch.ptr hp0).2 ch hget
        have hbuf := h.filled req ch.ptr hp0 hP0
        rw [← hcb] at hbuf ⊢
        rw [dataOf_after_self hcalls heff.ptr]
        refine heff.fill (hcb ▸ req.handler_ne_other) honch (h.total req ch.ptr hp0 ch hget) ?_ hbuf
        intro c hc hstate hgzip
        rw [← (honch c hc).callback] at hgzip
        have hcount := (hok c hc).counted hstate hgzip req
        rw [(honch c hc).ptr] at hcount
        exact hcount hp0 hP0
      · rw [dataOf_after_ne hon hown]
        refine (hother req (Thread.request_of_pending hp0) hP0 ?_).trans (h.filled req own hp0 hP0)
        intro hp1
        rw [hp0] at hp1
        cases hp1
        exact hown rfl
    · intro req own signaller hw hP
      have hP0 : P s.ds.useCache req := huse ▸ hP
      rcases heff.thread with hthread | ⟨c, hc, req', own', hcb, hfinal, hwait, hwoken⟩
      · obtain ⟨hsig, c, hc, hcp, hcf⟩ := h.woken req own signaller (hthread.symm.trans hw) hP0
        exact ⟨hsig, c, hcalls ▸ List.mem_append_left _ hc, hcp, hcf⟩
      · cases hw.symm.trans hwoken
        have hptr := (honch c hc).ptr
        have hown := (hok c hc).closing ((honch c hc).callback ▸ hcb) hfinal req own hwait hP0
        exact ⟨hptr.symm.trans hown, c, hcalls ▸ List.mem_append_right _ hc, hown, hfinal⟩

/-- **An undisturbed step.** -/
theorem step_clean {s s' : Sys} {e : Event} (h : Clean P s) (hok : Undisturbed P s e)
    (hs : step inflate s e = some s') : Clean P s' := by
  rcases step_turn h.chan hs with ⟨payload, error, rfl, rfl⟩ | ⟨hk, ht⟩
  · exact h.packet hok
  · exact h.turn hk ht

/-- What a request of interest hands to its decoder. -/
theorem Clean.handed {s : Sys} (h : Clean P s) {req : Req} {own signaller : Nat}
    {data : List UInt8} (ht : s.ds.thread = .woken req own signaller)
    (hr : s.ds.response = .buf data) (hP : P s.ds.useCache req) :
    signaller = own ∧ Ended s own ∧ data ++ req.terminator = s.reply req own := by
  obtain ⟨hsig, hend⟩ := h.woken req own signaller ht hP
  have hbuf := h.filled req own (by rw [ht]; rfl) hP
  rw [hr] at hbuf
  cases hbuf
  exact ⟨hsig, hend, rfl⟩

/-! ## Requests that are over -/

theorem step_calls {s s' : Sys} {e : Event} (h : s.Inv) (hs : step inflate s e = some s')
    {c : Call Handler} (hc : c ∈ s.world.calls) : c ∈ s'.world.calls := by
  rcases step_turn h hs with ⟨payload, error, rfl, rfl⟩ | ⟨hk, -⟩
  · cases ht : s.target payload with
    | none =>
      rw [Sys.after, process_none ht]
      exact hc
    | some ch =>
      obtain ⟨-, -, hcalls, -, -⟩ := packet_spec h.table ht error
      exact hcalls ▸ List.mem_append_left _ hc
  · exact hk.calls ▸ hc

/-- A packet finds no channel that is closed. -/
theorem not_ended_target {s : Sys} (h : s.Inv) {payload : List UInt8} {ch : Channel Handler}
    (ht : s.target payload = some ch) : ¬ Ended s ch.ptr := by
  obtain ⟨hget, -, -, -, -⟩ := packet_spec h.table ht false
  exact fun hend => ((h.live ch.ptr).mp (by rw [hget]; rfl)).2 (Or.inr hend)

/-- What has come on a channel that is closed does not change. -/
theorem step_reply_of_ended {s s' : Sys} {e : Event} (h : s.Inv)
    (hs : step inflate s e = some s') {own : Nat} (hend : Ended s own) :
    Ended s' own ∧ s'.dataOf own = s.dataOf own := by
  refine ⟨?_, ?_⟩
  · obtain ⟨c, hc, hptr, hfinal⟩ := hend
    exact ⟨c, step_calls h hs hc, hptr, hfinal⟩
  · rcases step_turn h hs with ⟨payload, error, rfl, rfl⟩ | ⟨hk, -⟩
    · cases ht : s.target payload with
      | none => rw [Sys.after, process_none ht]
      | some ch =>
        obtain ⟨-, hon, -, -, -⟩ := packet_spec h.table ht error
        exact dataOf_after_ne hon fun hown => not_ended_target h ht (hown ▸ hend)
    · exact dataOf_of_calls hk.calls own

end

/-- A client that has logged in and asks for an image. -/
def askImage : List Event :=
  [.authenticate, .loginWait, .welcome, .begin (.getImage [97]), .send true, .wait]

end Despotify.Sync

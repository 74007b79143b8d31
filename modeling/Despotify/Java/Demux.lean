import Despotify.Channel.Feed
import Despotify.Java.Routing

/-!
# `Channel.process` and `channel_process` in step

A channel of the Java client, like one of the C library, depends on its own
packets alone; packet for packet it is told what the callback of the C channel
is told, and its counters are those of the C channel read as `int`s.

    Twin ch c → Twin (the channel after receive) (c.take body)   (Twin.step)
    same headers, data and end, same 32-bit counters                   (demux_agree)
-/

namespace Despotify.Java

open Channels (bodyFor splitHeaders receiveAll feedStep)
open Runs

variable {σ κ : Type}

/-! ## One channel on its own packets -/

/-- What `process` does to the channel a packet selects. -/
def Channel.take (c : Channel) (body : Bytes) : Channel :=
  if c.state = .header then c.processHeader body
  else
    let c :=
      if body.length = 0 then { c with state := .end }.tell .channelEnd
      else c.tell (.channelData body)
    { c with dataLength := int (c.dataLength + body.length) }

/-- What the callback of a C channel is told, as a call on a listener. -/
def heard (k : Channels.Call κ) : Event :=
  match k.ch.state with
  | .header => .channelHeader k.data
  | .data => .channelData k.data
  | .ended => .channelEnd
  | .error => .channelError

/-- The counters of a C channel, read as `int`s. -/
def SameCounters (ch : Channels.Channel κ) (c : Channel) : Prop :=
  c.headerLength = int ch.totalHeaderLen.toNat ∧ c.dataLength = int ch.totalDataLen.toNat

/-- The Java channel is where the C channel is. -/
structure Twin (ch : Channels.Channel κ) (c : Channel) : Prop where
  state : ch.state = .header ∧ c.state = .header ∨ ch.state = .data ∧ c.state = .data
  counters : SameCounters ch c
  type : c.type ≠ .aeskey
  listener : c.listener ≠ .null

theorem Twin.state_ne_end {ch : Channels.Channel κ} {c : Channel} (h : Twin ch c) :
    c.state ≠ .end := by
  rcases h.state with ⟨-, hc⟩ | ⟨-, hc⟩ <;> rw [hc] <;> nofun

theorem int_int (n : Int) : int (int n) = int n := by
  simp [int]

/-- A 32-bit sum, read as an `int`. -/
theorem int_toNat_add (x : UInt32) (n : Nat) :
    int ((x + UInt32.ofNat n).toNat) = int (int x.toNat + n) := by
  have hsum : ((x + UInt32.ofNat n).toNat : Int) = ((x.toNat : Int) + n) % (2 ^ 32 : Nat) := by
    rw [UInt32.toNat_add, UInt32.toNat_ofNat']
    omega
  rw [hsum, int, Int.emod_bmod]
  simp [int]

theorem Listener.on_ne_null {l : Listener} (h : l ≠ .null) (e : Event) : l.on e ≠ .null := by
  cases l with
  | null => exact absurd rfl h
  | callback cb => exact nofun
  | audio => exact nofun

/-- A listener is told, and nothing else of the channel changes. -/
theorem Channel.tell_eq {c : Channel} (h : c.listener ≠ .null) (e : Event) :
    c.tell e = { c with listener := c.listener.on e, events := c.events ++ [e] } := if_neg h

/-- The two channels on the headers of a packet. -/
theorem Twin.headers {ch : Channels.Channel κ} {c : Channel} (h : Twin ch c)
    (hst : ch.state = .header) (hs : List Bytes) :
    Twin (hs.foldl Channels.Channel.afterHeader ch) (hs.foldl Channel.headerStep c) ∧
      (hs.foldl Channels.Channel.afterHeader ch).state = .header ∧
      (hs.foldl Channel.headerStep c).events =
        c.events ++ (Channels.headerCalls ch hs).map heard := by
  induction hs generalizing ch c with
  | nil => exact ⟨h, hst, by simp [Channels.headerCalls]⟩
  | cons header hs ih =>
    have hstep : c.headerStep header =
        { c with
          listener := c.listener.on (.channelHeader header)
          events := c.events ++ [.channelHeader header]
          headerLength := int (c.headerLength + header.length) } := by
      rw [Channel.headerStep, Channel.tell_eq h.listener]
    have hcstate : c.state = .header := by
      rcases h.state with ⟨-, hc⟩ | ⟨hch, -⟩
      · exact hc
      · rw [hst] at hch
        cases hch
    have hnext : Twin (ch.afterHeader header) (c.headerStep header) := by
      rw [hstep]
      refine ⟨.inl ⟨hst, hcstate⟩, ⟨?_, h.counters.2⟩, h.type, Listener.on_ne_null h.listener _⟩
      show int (c.headerLength + header.length) =
        int ((ch.totalHeaderLen + UInt32.ofNat header.length).toNat)
      rw [h.counters.1, int_toNat_add]
    obtain ⟨htwin, hstate, hevents⟩ := ih hnext hst
    refine ⟨htwin, hstate, ?_⟩
    have hheard : heard ⟨ch.nextHeader, header⟩ = .channelHeader header := by
      show (match ch.state with | .header => _ | .data => _ | .ended => _ | .error => _) = _
      rw [hst]
    rw [List.foldl_cons, hevents, hstep, Channels.headerCalls, List.map_cons, hheard,
      List.append_assoc]
    rfl

/-- **One packet**: while the C channel lives the Java channel mirrors it, and is told the
same; when it is gone the Java channel has ended with its counters. -/
theorem Twin.step {ch : Channels.Channel κ} {c : Channel} (h : Twin ch c) (body : Bytes) :
    (c.take body).events = c.events ++ (ch.receive body false).1.map heard ∧
      match (ch.receive body false).2 with
      | some ch' => Twin ch' (c.take body)
      | none => (c.take body).state = .end ∧ ∃ k, (ch.receive body false).1.getLast? = some k ∧
          k.ch.state = .ended ∧ SameCounters k.ch (c.take body) := by
  rcases h.state with ⟨hch, hc⟩ | ⟨hch, hc⟩
  · -- the header phase
    obtain ⟨htwin, hstate, hevents⟩ := h.headers hch (splitHeaders body).1
    have hreceive : ch.receive body false =
        (Channels.headerCalls ch (splitHeaders body).1,
          some (if (splitHeaders body).2 = .zero 0 then
            { (splitHeaders body).1.foldl Channels.Channel.afterHeader ch with state := .data }
            else (splitHeaders body).1.foldl Channels.Channel.afterHeader ch)) := by
      simp [Channels.Channel.receive, hch]
    have htake : c.take body = if (splitHeaders body).2 = .zero 0 then
        { (splitHeaders body).1.foldl Channel.headerStep c with state := .data }
        else (splitHeaders body).1.foldl Channel.headerStep c := by
      rw [Channel.take, if_pos hc, Channel.processHeader]
      split
      · rename_i hshort
        rcases Channels.splitHeaders_short hshort with hs | hs <;> rw [hs] <;> rfl
      · rw [headerLoop_eq]
        generalize (splitHeaders body).1 = hs
        cases (splitHeaders body).2 with
        | zero left =>
          cases left with
          | zero => rfl
          | succ left =>
            rw [if_neg (by simp)]
            rfl
        | consumed => rfl
        | shortRead => rfl
        | notEnough => rfl
    rw [hreceive, htake]
    split
    · exact ⟨hevents, .inr ⟨rfl, rfl⟩, htwin.counters, htwin.type, htwin.listener⟩
    · exact ⟨hevents, htwin⟩
  · -- the data phase
    have hne : ¬ c.state = .header := by
      rw [hc]
      intro hheader
      cases hheader
    by_cases hbody : body.length = 0
    · have hreceive : ch.receive body false = ([⟨{ ch with state := .ended }, body⟩], none) := by
        simp [Channels.Channel.receive, hch, Channels.Channel.onData, hbody,
          Channels.ChannelState.final]
      have htake : c.take body =
          { c with
            state := .end
            listener := c.listener.on .channelEnd
            events := c.events ++ [.channelEnd]
            dataLength := int (c.dataLength + body.length) } := by
        simp only [Channel.take, hne, if_false, hbody, if_true]
        rw [Channel.tell_eq (c := { c with state := .end }) h.listener]
      rw [hreceive, htake]
      refine ⟨rfl, rfl, _, rfl, rfl, h.counters.1, ?_⟩
      show int (c.dataLength + body.length) = int ch.totalDataLen.toNat
      rw [hbody, h.counters.2, Int.natCast_zero, Int.add_zero, int_int]
    · have hon : ch.onData body = ch := by
        rw [Channels.Channel.onData, if_neg hbody]
      have hreceive : ch.receive body false =
          ([⟨ch, body⟩],
            some { ch with totalDataLen := ch.totalDataLen + UInt32.ofNat body.length }) := by
        simp [Channels.Channel.receive, hch, hon, Channels.ChannelState.final,
          Channels.Channel.afterData]
      have htake : c.take body =
          { c with
            listener := c.listener.on (.channelData body)
            events := c.events ++ [.channelData body]
            dataLength := int (c.dataLength + body.length) } := by
        simp only [Channel.take, hne, if_false, hbody]
        rw [Channel.tell_eq h.listener]
      have hheard : heard ⟨ch, body⟩ = .channelData body := by
        rw [heard, hch]
      rw [hreceive, htake, List.map_singleton, hheard]
      refine ⟨rfl, .inr ⟨hch, hc⟩, ⟨h.counters.1, ?_⟩, h.type, Listener.on_ne_null h.listener _⟩
      show int (c.dataLength + body.length) =
        int ((ch.totalDataLen + UInt32.ofNat body.length).toNat)
      rw [h.counters.2, int_toNat_add]

/-- What the two channels are at the end of their packets. -/
def Parted (calls : List (Channels.Call κ)) (c : Channel) : Option (Channels.Channel κ) → Prop
  | some ch => Twin ch c
  | none => c.state = .end ∧ ∃ k, calls.getLast? = some k ∧ k.ch.state = .ended ∧
      SameCounters k.ch c

/-- **The packets of one channel.** -/
theorem Twin.run {ch : Channels.Channel κ} {c : Channel} (h : Twin ch c)
    (bodies : List Bytes) (hacc : Channels.Accepts (some ch) (bodies.map (·, false))) :
    (bodies.foldl Channel.take c).events =
        c.events ++ (receiveAll (some ch) (bodies.map (·, false))).1.map heard ∧
      Parted (receiveAll (some ch) (bodies.map (·, false))).1 (bodies.foldl Channel.take c)
        (receiveAll (some ch) (bodies.map (·, false))).2 := by
  induction bodies generalizing ch c with
  | nil => exact ⟨by simp, h⟩
  | cons body bodies ih =>
    obtain ⟨-, hacc⟩ := hacc
    obtain ⟨hevents, hstep⟩ := h.step body
    rw [List.map_cons, receiveAll, List.foldl_cons]
    cases hrec : (ch.receive body false).2 with
    | none =>
      rw [hrec] at hacc hstep
      obtain rfl : bodies = [] := by
        cases bodies with
        | nil => rfl
        | cons b bs => exact hacc.elim
      simpa [receiveAll] using ⟨hevents, hstep⟩
    | some ch' =>
      rw [hrec] at hacc hstep
      obtain ⟨hrest, hparted⟩ := ih hstep hacc
      refine ⟨by rw [hrest, hevents, List.append_assoc, List.map_append], ?_⟩
      dsimp only
      revert hparted
      cases (receiveAll (some ch') (bodies.map (·, false))).2 with
      | some ch'' => exact id
      | none =>
        rintro ⟨hend, k, hlast, hk⟩
        exact ⟨hend, k, by rw [List.getLast?_append, hlast]; rfl, hk⟩

/-! ## Interleaving on the Java side -/

/-- Channel `o` with the id `wire`, in the table until it ends. -/
structure Holds (wire o : Nat) (c : Channel) (s : Jvm) : Prop where
  wf : s.WF
  get : s.heap[o]? = some c
  id : c.id = wire
  live : c.state ≠ .end → s.channels wire = some o

/-- The table gives the channel with the key. -/
theorem Jvm.WF.id_of_channels {s : Jvm} (h : s.WF) {i : Int} {o : Nat} {c : Channel}
    (hi : s.channels i = some o) (hc : s.heap[o]? = some c) : c.id = i := by
  rw [h.table] at hi
  rw [h.id o c hc]
  exact (Keyed.find_mem hi).2

/-- The data phase of a channel that is not for an AES key. -/
theorem processData_eq (s : Jvm) (o : Nat) {c : Channel} (htype : c.type ≠ .aeskey)
    (hl : c.listener ≠ .null) (hst : c.state ≠ .header) (hc : s.heap[o]? = some c) (data : Bytes) :
    (s.processData o c data).heap[o]? = some (c.take data) ∧
      ∀ i, i ≠ c.id ∨ data.length ≠ 0 → (s.processData o c data).channels i = s.channels i := by
  unfold Jvm.processData
  dsimp only
  rw [if_neg htype, channels_set, getElem?_set, if_pos rfl, Channel.take, if_neg hst]
  by_cases hd : data.length = 0
  · rw [if_pos hd, if_pos hd, tell_channelEnd _ o hl]
    refine ⟨?_, fun i hi => ?_⟩
    · rw [heap_unregister, getElem?_set, if_pos rfl, getElem?_set, if_pos rfl, hc]
      rfl
    · show Function.update s.channels c.id none i = _
      rw [Function.update_of_ne (hi.resolve_right (not_not_intro hd))]
  · rw [if_neg hd, if_neg hd, tell_of_ne s o c (e := .channelData data) nofun]
    refine ⟨?_, fun i _ => rfl⟩
    rw [getElem?_set, if_pos rfl, hc]
    rfl

/-- A packet of the channel itself. -/
theorem Holds.own {wire o : Nat} {c : Channel} {s : Jvm} (h : Holds wire o c s)
    (htype : c.type ≠ .aeskey) (hl : c.listener ≠ .null) (hend : c.state ≠ .end)
    {payload body : Bytes} (hpkt : bodyFor wire (payload, false) = some (body, false)) :
    Holds wire o (c.take body) (s.process payload) := by
  obtain ⟨a, b, hpayload, hid⟩ := Channels.bodyFor_eq_some.mp hpkt
  obtain rfl : payload = a :: b :: body := congrArg Prod.fst hpayload
  have hlookup : s.lookup (a :: b :: body) = some o := by
    show s.channels (ntohs a b : Nat) = some o
    rw [hid]
    exact h.live hend
  have hwf := h.wf.process (a :: b :: body)
  have hprocess := process_of_lookup hlookup h.get
  rw [List.drop_succ_cons, List.drop_succ_cons, List.drop_zero] at hprocess
  by_cases hst : c.state = .header
  · rw [if_pos hst] at hprocess
    have htake : c.take body = c.processHeader body := if_pos hst
    rw [htake]
    refine ⟨hwf, ?_, (c.keeps_processHeader body).id.trans h.id, fun _ => ?_⟩
    · rw [hprocess, getElem?_set, if_pos rfl, h.get]
      rfl
    · rw [hprocess, channels_set]
      exact h.live hend
  · rw [if_neg hst] at hprocess
    obtain ⟨hget, hchannels⟩ := processData_eq s o htype hl hst h.get body
    rw [← hprocess] at hget hchannels
    refine ⟨hwf, hget, ?_, fun hlive => ?_⟩
    · rw [hwf.id o _ hget, ← h.wf.id o c h.get, h.id]
    · have hbody : body.length ≠ 0 := by
        intro h0
        apply hlive
        rw [Channel.take, if_neg hst, if_pos h0, Channel.tell_eq (c := { c with state := .end }) hl]
      rw [hchannels _ (.inr hbody)]
      exact h.live hend

theorem channels_tell (s : Jvm) (o : Nat) (c : Channel) (e : Event) {i : Int} (h : i ≠ c.id) :
    (s.tell o c e).channels i = s.channels i := by
  unfold Jvm.tell
  dsimp only
  split
  · exact Function.update_of_ne h ..
  · rfl

theorem channels_processData (s : Jvm) (o : Nat) (c : Channel) (data : Bytes) {i : Int}
    (h : i ≠ c.id) : (s.processData o c data).channels i = s.channels i := by
  unfold Jvm.processData
  dsimp only
  have hfirst : (if data.length = 0
      then (s.set o fun c => { c with state := .end }).tell o c .channelEnd
      else s.tell o c (.channelData data)).channels i = s.channels i := by
    split
    · rw [channels_tell _ o c _ h, channels_set]
    · rw [channels_tell s o c _ h]
  split
  · rw [channels_tell _ o c _ h, channels_set, channels_set, hfirst]
  · rw [channels_set, hfirst]

/-- A packet of another channel, or of none. -/
theorem Holds.other {wire o : Nat} {c : Channel} {s : Jvm} (h : Holds wire o c s)
    {payload : Bytes} (hpkt : bodyFor wire (payload, false) = none) :
    Holds wire o c (s.process payload) := by
  have hwf := h.wf.process payload
  cases hlookup : s.lookup payload with
  | none =>
    have hprocess : s.process payload = s := by
      simp only [Jvm.process, hlookup]
    rwa [hprocess]
  | some o' =>
    obtain ⟨a, b, body, rfl⟩ : ∃ a b body, payload = a :: b :: body := by
      rcases payload with _ | ⟨a, _ | ⟨b, body⟩⟩
      · cases hlookup
      · cases hlookup
      · exact ⟨a, b, body, rfl⟩
    have hi : s.channels (ntohs a b : Nat) = some o' := hlookup
    have hne : (ntohs a b : Int) ≠ (wire : Nat) := fun he =>
      Channels.ntohs_ne_of_bodyFor hpkt (Int.ofNat.inj he)
    have ho : o ≠ o' := by
      rintro rfl
      exact hne ((h.wf.id_of_channels hi h.get).symm.trans h.id)
    have hframe : s.lookup (a :: b :: body) ≠ some o := by
      rw [hlookup]
      exact fun he => ho (Option.some.inj he).symm
    refine ⟨hwf, (frame_process s hframe).trans h.get, h.id, fun hlive => ?_⟩
    rw [← h.live hlive]
    cases hc : s.heap[o']? with
    | none => simp only [Jvm.process, hlookup, hc]
    | some c' =>
      have hid : (wire : Int) ≠ c'.id := by
        rw [h.wf.id_of_channels hi hc]
        exact hne.symm
      rw [process_of_lookup hlookup hc]
      split
      · rw [channels_set]
      · exact channels_processData s o' c' _ hid

/-- Before each of its packets the Java channel mirrors a live C channel. -/
theorem Twin.along {ch : Channels.Channel κ} {c : Channel} (h : Twin ch c)
    (front : List Bytes) (body : Bytes) (rest : List Bytes)
    (hacc : Channels.Accepts (some ch) ((front ++ body :: rest).map (·, false))) :
    ∃ ch' : Channels.Channel κ, Twin ch' (front.foldl Channel.take c) := by
  rw [List.map_append, Channels.accepts_append] at hacc
  obtain ⟨hfront, hrest⟩ := hacc
  obtain ⟨-, hparted⟩ := h.run front hfront
  revert hparted hrest
  cases (receiveAll (some ch) (front.map (·, false))).2 with
  | none => exact fun hrest _ => hrest.elim
  | some ch' => exact fun _ hparted => ⟨ch', hparted⟩

/-- **Interleaving**: the channel depends on its own packets alone. -/
theorem Holds.run {wire o : Nat} {c : Channel} {s : Jvm} (h : Holds wire o c s)
    (payloads bodies : List Bytes)
    (hbodies : (payloads.map (·, false)).filterMap (bodyFor wire) = bodies.map (·, false))
    (hlive : ∀ front body rest, bodies = front ++ body :: rest →
      ∃ ch : Channels.Channel κ, Twin ch (front.foldl Channel.take c)) :
    Holds wire o (bodies.foldl Channel.take c) (payloads.foldl Jvm.process s) := by
  induction payloads generalizing s c bodies with
  | nil =>
    obtain rfl : bodies = [] := by simpa using hbodies
    exact h
  | cons payload payloads ih =>
    rw [List.map_cons] at hbodies
    cases hpkt : bodyFor wire (payload, false) with
    | none =>
      rw [List.filterMap_cons_none hpkt] at hbodies
      exact ih (h.other hpkt) bodies hbodies hlive
    | some be =>
      rw [List.filterMap_cons_some hpkt] at hbodies
      obtain ⟨body, rest, rfl, hbe, hrest⟩ := List.map_eq_cons_iff.mp hbodies.symm
      rw [← hbe] at hpkt
      obtain ⟨ch, hm⟩ := hlive [] body rest rfl
      refine ih (h.own hm.type hm.listener hm.state_ne_end hpkt) rest hrest.symm ?_
      rintro front body' rest' rfl
      exact hlive (body :: front) body' rest' rfl

/-! ## The two demultiplexers -/

/-- The packet bodies for an id. -/
def bodiesOf (wire : Nat) (payloads : List Bytes) : List Bytes :=
  payloads.filterMap fun payload => (bodyFor wire (payload, false)).map Prod.fst

theorem filterMap_bodyFor (wire : Nat) (payloads : List Bytes) :
    (payloads.map (·, false)).filterMap (bodyFor wire) =
      (bodiesOf wire payloads).map (·, false) := by
  have herror : ∀ payload, bodyFor wire (payload, false) =
      ((bodyFor wire (payload, false)).map Prod.fst).map (·, false) := by
    intro payload
    cases h : bodyFor wire (payload, false) with
    | none => rfl
    | some be =>
      obtain ⟨body, error⟩ := be
      obtain ⟨a, b, hpkt, -⟩ := Channels.bodyFor_eq_some.mp h
      rw [Prod.mk.injEq] at hpkt
      rw [← hpkt.2]
      rfl
  rw [List.filterMap_map, bodiesOf, List.map_filterMap]
  exact List.filterMap_congr fun payload _ => herror payload

/-- The same channels are registered and none has received a packet; none is for an AES key. -/
structure Paired (w : Channels.World σ κ) (s : Jvm) : Prop where
  inv : w.table.Inv
  wf : s.WF
  twin : ∀ ch ∈ w.table.head, ch.Fresh ∧
    ∃ o c, s.channels ch.channelId = some o ∧ s.heap[o]? = some c ∧ Twin ch c

/-- The packets for each registered channel are those of a reply, up to some point. -/
def Streams (w : Channels.World σ κ) (payloads : List Bytes) : Prop :=
  (∀ ch ∈ w.table.head, ∃ r : Channels.Reply,
    (bodiesOf ch.channelId payloads).map (·, false) <+: r.bodies) ∧
  ∀ payload ∈ payloads, ∃ ch ∈ w.table.head, bodyFor ch.channelId (payload, false) ≠ none

theorem Streams.accepts {w : Channels.World σ κ} {payloads : List Bytes} (h : Streams w payloads)
    {ch : Channels.Channel κ} (hch : ch ∈ w.table.head) (hfresh : ch.Fresh) :
    Channels.Accepts (some ch) ((bodiesOf ch.channelId payloads).map (·, false)) := by
  obtain ⟨r, rest, hr⟩ := h.1 ch hch
  have hacc := (Channels.receiveAll_reply hfresh r).1
  rw [← hr, Channels.accepts_append] at hacc
  exact hacc.1

theorem Paired.follows {w : Channels.World σ κ} {s : Jvm} (h : Paired w s)
    {ch : Channels.Channel κ} (hch : ch ∈ w.table.head) :
    Channels.Follows ch.channelId ch.ptr (some ch) w :=
  ⟨h.inv, h.inv.fresh ch hch, h.inv.get_eq_some.mpr ⟨hch, rfl⟩, fun c hc => by cases hc; rfl⟩

/-- No packet of the replies is at fault when its turn comes. -/
theorem Paired.proper (cb : Channels.Callback σ κ) {w : Channels.World σ κ} {s : Jvm}
    (h : Paired w s) {payloads : List Bytes} (hstreams : Streams w payloads) :
    AllSteps (feedStep cb) (fun w pkt => Channels.Proper w.table pkt.1 pkt.2) w
      (payloads.map (·, false)) := by
  have hchs : ∀ ch ∈ w.table.head, Channels.Follows ch.channelId ch.ptr (some ch) w ∧
      Channels.Accepts (some ch) ((payloads.map (·, false)).filterMap (bodyFor ch.channelId)) := by
    intro ch hch
    rw [filterMap_bodyFor]
    exact ⟨h.follows hch, hstreams.accepts hch (h.twin ch hch).1⟩
  refine Channels.allSteps_proper cb hchs fun pkt hpkt => ?_
  obtain ⟨payload, hpayload, rfl⟩ := List.mem_map.mp hpkt
  exact hstreams.2 payload hpayload

/-- The replies can be fed to the C library, and one channel and its twin part as on their own. -/
theorem Paired.run (cb : Channels.Callback σ κ) {w : Channels.World σ κ} {s : Jvm}
    (h : Paired w s) {payloads : List Bytes} (hstreams : Streams w payloads) :
    ∃ w', exec (feedStep cb) w (payloads.map (·, false)) = some w' ∧
      ∀ ch ∈ w.table.head, ∀ o c, s.channels ch.channelId = some o → s.heap[o]? = some c →
        ∃ c', w'.callsOf ch.ptr = w.callsOf ch.ptr ++
            (receiveAll (some ch) ((bodiesOf ch.channelId payloads).map (·, false))).1 ∧
          (payloads.foldl Jvm.process s).heap[o]? = some c' ∧
          c'.events = c.events ++
            (receiveAll (some ch) ((bodiesOf ch.channelId payloads).map (·, false))).1.map heard ∧
          w'.table.get ch.ptr =
            (receiveAll (some ch) ((bodiesOf ch.channelId payloads).map (·, false))).2 ∧
          Parted (receiveAll (some ch) ((bodiesOf ch.channelId payloads).map (·, false))).1 c'
            (w'.table.get ch.ptr) := by
  have hproper := h.proper cb hstreams
  obtain ⟨w', hw'⟩ := hproper.exists_exec fun w pkt hpkt =>
    ⟨_, if_pos ((Channels.channelProcess_noFault_iff cb w pkt.1 pkt.2).mpr hpkt)⟩
  refine ⟨w', hw', fun ch hch o c ho hc => ?_⟩
  obtain ⟨hfresh, o', c', ho', hc', hm⟩ := h.twin ch hch
  obtain rfl : o' = o := Option.some.inj (ho'.symm.trans ho)
  obtain rfl : c' = c := Option.some.inj (hc'.symm.trans hc)
  have hbodies := hstreams.accepts hch hfresh
  -- the C side
  have hothers : AllSteps (feedStep cb) (Channels.OthersProper ch.channelId) w
      (payloads.map (·, false)) :=
    hproper.imp fun w pkt hpkt => (fun _ => hpkt : Channels.OthersProper ch.channelId w pkt)
  obtain ⟨w'', hexec, hend, hcalls, -⟩ := Channels.feed_own cb (h.follows hch) _
    (by rw [filterMap_bodyFor]; exact hbodies) hothers
  obtain rfl : w'' = w' := Option.some.inj (hexec.symm.trans hw')
  rw [filterMap_bodyFor] at hend hcalls
  -- the Java side
  have hholds : Holds ch.channelId o' c' s :=
    ⟨h.wf, hc, h.wf.id_of_channels ho hc, fun _ => ho⟩
  have hjava := hholds.run payloads (bodiesOf ch.channelId payloads)
    (filterMap_bodyFor ch.channelId payloads) fun front body rest hsplit =>
      hm.along front body rest (hsplit ▸ hbodies)
  obtain ⟨hevents, hparted⟩ := hm.run _ hbodies
  refine ⟨_, hcalls, hjava.get, hevents, hend.get, ?_⟩
  rw [hend.get]
  exact hparted

/-- **The demultiplexers agree**: on well-formed replies, interleaved in any way, the C library
commits no fault, and every Java channel is told what the callback of its C channel is told;
at the end they are in the same state with the same 32-bit counters, the last ones when the C
channel is gone. -/
theorem demux_agree (cb : Channels.Callback σ κ) {w : Channels.World σ κ} {s : Jvm}
    (h : Paired w s) {payloads : List Bytes} (hstreams : Streams w payloads) :
    ∃ w', exec (feedStep cb) w (payloads.map (·, false)) = some w' ∧
      ∀ ch ∈ w.table.head, ∀ o c, s.channels ch.channelId = some o → s.heap[o]? = some c →
        ∃ calls c', w'.callsOf ch.ptr = w.callsOf ch.ptr ++ calls ∧
          (payloads.foldl Jvm.process s).heap[o]? = some c' ∧
          c'.events = c.events ++ calls.map heard ∧
          Parted calls c' (w'.table.get ch.ptr) := by
  obtain ⟨w', hw', hall⟩ := h.run cb hstreams
  refine ⟨w', hw', fun ch hch o c ho hc => ?_⟩
  obtain ⟨c', hcalls, hget, hevents, -, hparted⟩ := hall ch hch o c ho hc
  exact ⟨_, c', hcalls, hget, hevents, hparted⟩

/-! ### Two channels -/

/-- The twins of `twoChannels`. -/
def twoTwins : Jvm :=
  (((Jvm.start.create .browse (.callback .new)).register 0).create .search
    (.callback .new)).register 1

theorem wf_twoTwins : twoTwins.WF :=
  ((((Jvm.WF.start.create .browse (.callback .new)).register 0).create .search
    (.callback .new)).register 1)

/-- Channel 1 of `twoChannels`. -/
def channel1 : Channels.Channel Unit := { Channels.channel0 with ptr := 1, channelId := 1 }

theorem head_twoChannels :
    Channels.twoChannels.world.table.head = [channel1, Channels.channel0] := by
  decide

/-- Two channels as they are when registered. -/
theorem twin_new {ch : Channels.Channel κ} (hch : ch.state = .header)
    (hheader : ch.totalHeaderLen = 0) (hdata : ch.totalDataLen = 0) {n : Nat} {type : Kind}
    (htype : type ≠ .aeskey) : Twin ch (opened n type) := by
  refine ⟨.inl ⟨hch, if_neg htype⟩, ⟨?_, ?_⟩, htype, nofun⟩
  · simp [opened, Channel.new, hheader, int]
  · simp [opened, Channel.new, hdata, int]

theorem heap_twoTwins : twoTwins.heap = [opened 0 .browse, opened 1 .search] := by
  decide +kernel

theorem channels_twoTwins : twoTwins.channels Channels.channel0.channelId = some 0 ∧
    twoTwins.channels channel1.channelId = some 1 := by
  decide +kernel

theorem paired_two : Paired Channels.twoChannels.world twoTwins := by
  have hinv := (Channels.Run.Inv.exec Channels.reachable_twoChannels.choose_spec).table
  refine ⟨hinv, wf_twoTwins, ?_⟩
  rw [head_twoChannels]
  intro ch hch
  rcases List.mem_pair.mp hch with rfl | rfl
  · have hget : twoTwins.heap[1]? = some (opened 1 .search) := by rw [heap_twoTwins]; rfl
    have hm : Twin channel1 (opened 1 .search) := twin_new rfl rfl rfl nofun
    exact ⟨⟨rfl, rfl, rfl⟩, 1, _, channels_twoTwins.2, hget, hm⟩
  · have hget : twoTwins.heap[0]? = some (opened 0 .browse) := by rw [heap_twoTwins]; rfl
    have hm : Twin Channels.channel0 (opened 0 .browse) := twin_new rfl rfl rfl nofun
    exact ⟨⟨rfl, rfl, rfl⟩, 0, _, channels_twoTwins.1, hget, hm⟩

/-- A reply with one header and one chunk. -/
def tinyReply : Channels.Reply where
  groups := []
  last := [[9]]
  chunks := [[8]]
  groups_ne := Channels.Reply.groups_nil
  headers := by decide
  chunks_ne := by simp

/-- The packets of `smallReply` to channel 0 among those of `tinyReply` to channel 1. -/
def interleaved : List Bytes :=
  [[0, 0, 0, 1, 1, 0, 2, 2, 3], [0, 1, 0, 1, 9, 0, 0], [0, 0, 0, 1, 4, 0, 0], [0, 1, 8],
    [0, 0, 5, 6], [0, 1], [0, 0, 7], [0, 0]]

theorem streams_interleaved : Streams Channels.twoChannels.world interleaved := by
  rw [Streams, head_twoChannels]
  refine ⟨fun ch hch => ?_, by decide⟩
  rcases List.mem_pair.mp hch with rfl | rfl
  · exact ⟨tinyReply, by decide⟩
  · exact ⟨Channels.smallReply, by decide⟩

theorem demux_agree_two :
    ∃ w', exec (feedStep Channels.ignore) Channels.twoChannels.world
        (interleaved.map (·, false)) = some w' ∧
      ∀ ch ∈ Channels.twoChannels.world.table.head, ∀ o c,
        twoTwins.channels ch.channelId = some o → twoTwins.heap[o]? = some c →
        ∃ calls c', w'.callsOf ch.ptr = Channels.twoChannels.world.callsOf ch.ptr ++ calls ∧
          (interleaved.foldl Jvm.process twoTwins).heap[o]? = some c' ∧
          c'.events = c.events ++ calls.map heard ∧
          Parted calls c' (w'.table.get ch.ptr) :=
  demux_agree Channels.ignore paired_two streams_interleaved

/-- 2147516410 bytes of data, in chunks that each fill a packet. -/
def longReply : Channels.Reply where
  groups := []
  last := []
  chunks := List.replicate 32770 (List.replicate 65533 0)
  groups_ne := Channels.Reply.groups_nil
  headers := Channels.Reply.headers_nil
  chunks_ne := Channels.Reply.chunks_replicate 32770 65532

theorem length_longReply : longReply.chunks.flatten.length = 2147516410 := by
  rw [longReply, List.length_flatten, List.map_replicate, List.sum_replicate_nat,
    List.length_replicate]

/-- The packets of a reply, for the channel with the id. -/
def payloadsOf (r : Channels.Reply) (wire : Nat) : List Bytes :=
  r.bodies.map fun be => htons wire ++ be.1

theorem map_payloadsOf (r : Channels.Reply) (wire : Nat) :
    (payloadsOf r wire).map (·, false) = r.packets wire := by
  have herror : ∀ be ∈ r.bodies, be.2 = false := by
    intro be hbe
    simp only [Channels.Reply.bodies, List.mem_append, List.mem_cons, List.mem_map] at hbe
    rcases hbe with (⟨g, -, rfl⟩ | rfl | ⟨d, -, rfl⟩) | rfl | h
    all_goals first | rfl | cases h
  rw [payloadsOf, Channels.Reply.packets, List.map_map]
  refine List.map_congr_left fun be hbe => ?_
  rw [herror be hbe]
  rfl

theorem bodiesOf_payloadsOf (r : Channels.Reply) {wire : Nat} (h : wire < 65536) :
    (bodiesOf wire (payloadsOf r wire)).map (·, false) = r.bodies := by
  rw [← filterMap_bodyFor, map_payloadsOf, r.filterMap_packets h]

theorem bodiesOf_payloadsOf_ne (r : Channels.Reply) {wire other : Nat} (h : wire < 65536)
    (hne : wire ≠ other) : bodiesOf other (payloadsOf r wire) = [] := by
  rw [bodiesOf, List.filterMap_eq_nil_iff]
  intro payload hpayload
  obtain ⟨be, -, rfl⟩ := List.mem_map.mp hpayload
  have hid : ntohs (UInt8.ofNat (wire / 256)) (UInt8.ofNat wire) ≠ other := by
    rwa [ntohs_htons, Nat.mod_eq_of_lt h]
  show (bodyFor other (_ :: _ :: be.1, false)).map Prod.fst = none
  rw [bodyFor, if_neg hid, Option.map_none]

theorem streams_longReply : Streams Channels.twoChannels.world (payloadsOf longReply 0) := by
  rw [Streams, head_twoChannels]
  refine ⟨fun ch hch => ?_, fun payload hpayload => ⟨Channels.channel0, by simp, ?_⟩⟩
  · rcases List.mem_pair.mp hch with rfl | rfl
    · exact ⟨tinyReply, by
        rw [show channel1.channelId = 1 from rfl, bodiesOf_payloadsOf_ne _ (by omega) (by omega)]
        exact List.nil_prefix⟩
    · refine ⟨longReply, [], ?_⟩
      rw [List.append_nil]
      exact bodiesOf_payloadsOf longReply (show 0 < 65536 by omega)
  · refine longReply.bodyFor_packets (show 0 < 65536 by omega) _ ?_
    rw [← map_payloadsOf]
    exact List.mem_map_of_mem hpayload

/-- At the end of the long reply the C library counts 2147516410 bytes, the Java client a
negative number of them. -/
theorem counters_differ :
    Streams Channels.twoChannels.world (payloadsOf longReply 0) ∧
      ∃ (w' : Channels.World Unit Unit) (k : Channels.Call Unit) (c' : Channel),
        exec (feedStep Channels.ignore) Channels.twoChannels.world
          ((payloadsOf longReply 0).map (·, false)) = some w' ∧
        (w'.callsOf 0).getLast? = some k ∧ k.ch.state = .ended ∧
        ((payloadsOf longReply 0).foldl Jvm.process twoTwins).heap[0]? = some c' ∧
        c'.state = .end ∧ c'.dataLength ≠ k.ch.totalDataLen.toNat := by
  refine ⟨streams_longReply, ?_⟩
  obtain ⟨w', hexec, hall⟩ := paired_two.run Channels.ignore streams_longReply
  obtain ⟨c', hcalls, hget, -, hend, hparted⟩ := hall Channels.channel0
    Channels.channel0_mem 0 (opened 0 .browse) channels_twoTwins.1 (by rw [heap_twoTwins]; rfl)
  have hbodies := bodiesOf_payloadsOf longReply (show 0 < 65536 by omega)
  rw [show Channels.channel0.channelId = 0 from rfl, hbodies] at hcalls hend hparted
  obtain ⟨-, hgone, hseen⟩ := Channels.receiveAll_reply Channels.channel0_fresh longReply
  rw [hend, hgone] at hparted
  obtain ⟨hstate, k, hlast, hk, -, hdata⟩ := hparted
  refine ⟨w', k, c', hexec, ?_, hk, hget, hstate, ?_⟩
  · rw [show w'.callsOf 0 = _ from hcalls, List.getLast?_append, hlast]
    rfl
  · have hseenk := congrArg List.getLast? hseen
    rw [List.getLast?_map, hlast, Option.map_some, Channels.Reply.expected, List.getLast?_concat,
      Option.some.injEq] at hseenk
    have hlen : k.ch.totalDataLen = UInt32.ofNat longReply.chunks.flatten.length :=
      congrArg (·.2.2.1) hseenk
    rw [hdata, hlen, length_longReply]
    decide +kernel

end Despotify.Java

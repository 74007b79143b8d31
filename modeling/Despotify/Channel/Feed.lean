import Despotify.Channel.Bounds
import Despotify.Channel.Receive
import Despotify.Channel.Live

/-!
# Reassembly: a reply fed packet by packet

A reply is a run of header packets, the last one closed by the terminator, a
packet for each chunk of data and an empty packet.  Between its packets come
those of other channels.

* `feed_own`: whatever is interleaved, the calls of one channel's callback and
  the channel itself are those of `receiveAll` on that channel's own packets.
* `receiveAll_reply`: on a reply these are the headers, the chunks and the end.
* `feed_reply`: the two together, on the table of any run.

`total_data_len` and `header_id` are `unsigned int`s and count modulo `2 ^ 32`.
-/

namespace Despotify.Channels

open Runs

variable {σ κ : Type}

/-! ## A channel on its own packets -/

/-- A channel that is gone receives nothing. -/
def receiveAll : Option (Channel κ) → List (List UInt8 × Bool) →
    List (Call κ) × Option (Channel κ)
  | some ch, (body, error) :: rest =>
    ((ch.receive body error).1 ++ (receiveAll (ch.receive body error).2 rest).1,
      (receiveAll (ch.receive body error).2 rest).2)
  | none, _ :: rest => receiveAll none rest
  | o, [] => ([], o)

@[simp] theorem receiveAll_nil (o : Option (Channel κ)) : receiveAll o [] = ([], o) := by
  cases o <;> rfl

/-- Every packet finds the channel live and is handled without a fault. -/
def Accepts : Option (Channel κ) → List (List UInt8 × Bool) → Prop
  | _, [] => True
  | none, _ :: _ => False
  | some ch, (body, error) :: rest =>
    (error = false → ch.state = .header → IsHeaderPacket body) ∧
      Accepts (ch.receive body error).2 rest

theorem receiveAll_append (o : Option (Channel κ)) (xs ys : List (List UInt8 × Bool)) :
    receiveAll o (xs ++ ys) =
      ((receiveAll o xs).1 ++ (receiveAll (receiveAll o xs).2 ys).1,
        (receiveAll (receiveAll o xs).2 ys).2) := by
  induction xs generalizing o with
  | nil => simp
  | cons x xs ih =>
    obtain ⟨body, error⟩ := x
    cases o with
    | none => simpa [receiveAll] using ih none
    | some ch => simp [receiveAll, ih]

theorem accepts_append {o : Option (Channel κ)} {xs ys : List (List UInt8 × Bool)} :
    Accepts o (xs ++ ys) ↔ Accepts o xs ∧ Accepts (receiveAll o xs).2 ys := by
  induction xs generalizing o with
  | nil => simp [Accepts]
  | cons x xs ih =>
    obtain ⟨body, error⟩ := x
    cases o with
    | none => simp [Accepts]
    | some ch => simp [Accepts, receiveAll, ih, and_assoc]

/-! ## Interleaving with other channels -/

/-- A packet as `handle_channel` gets it: the payload, and whether the command
is `CMD_CHANNELERR`. -/
abbrev Packet : Type := List UInt8 × Bool

/-- The body of a packet for the channel id. -/
def bodyFor (id : Nat) : Packet → Option (List UInt8 × Bool)
  | (a :: b :: buf, error) => if ntohs a b = id then some (buf, error) else none
  | _ => none

theorem bodyFor_eq_some {id : Nat} {pkt : Packet} {body : List UInt8} {error : Bool} :
    bodyFor id pkt = some (body, error) ↔
      ∃ a b, pkt = (a :: b :: body, error) ∧ ntohs a b = id := by
  rcases pkt with ⟨_ | ⟨a, _ | ⟨b, buf⟩⟩, err⟩
  · simp [bodyFor]
  · simp [bodyFor]
  · simp only [bodyFor, Option.ite_none_right_eq_some, Option.some.injEq, Prod.mk.injEq,
      List.cons.injEq]
    constructor
    · rintro ⟨hid, rfl, rfl⟩
      exact ⟨a, b, ⟨⟨rfl, rfl, rfl⟩, rfl⟩, hid⟩
    · rintro ⟨_, _, ⟨⟨rfl, rfl, rfl⟩, rfl⟩, hid⟩
      exact ⟨hid, rfl, rfl⟩

theorem ntohs_ne_of_bodyFor {id : Nat} {a b : UInt8} {buf : List UInt8} {error : Bool}
    (h : bodyFor id (a :: b :: buf, error) = none) : ntohs a b ≠ id := by
  intro hid
  rw [bodyFor, if_pos hid] at h
  cases h

/-- A packet that commits a fault ends the run. -/
def feedStep (cb : Callback σ κ) (w : World σ κ) (pkt : Packet) : Option (World σ κ) :=
  if (channelProcess cb w pkt.1 pkt.2).2.2 = [] then some (channelProcess cb w pkt.1 pkt.2).1
  else none

/-- The packets of other channels are well formed when their turn comes. -/
def OthersProper (id : Nat) (w : World σ κ) (pkt : Packet) : Prop :=
  bodyFor id pkt = none → Proper w.table pkt.1 pkt.2

/-- A packet of the channel touches no other one. -/
def Untouched (cb : Callback σ κ) (id p : Nat) (w : World σ κ) (pkt : Packet) : Prop :=
  bodyFor id pkt ≠ none → w.OnlyOn p (channelProcess cb w pkt.1 pkt.2).1

/-- The calls of the callback of the channel at `p`. -/
def World.callsOf (w : World σ κ) (p : Nat) : List (Call κ) := w.calls.filter (·.ch.ptr = p)

theorem World.OnlyOn.callsOf {p q : Nat} {w w' : World σ κ} (h : w.OnlyOn q w') (hne : q ≠ p) :
    w'.callsOf p = w.callsOf p := by
  obtain ⟨new, hcalls, hnew⟩ := h.calls
  have hnone : new.filter (·.ch.ptr = p) = [] := by
    rw [List.filter_eq_nil_iff]
    intro c hc
    rw [hnew c hc]
    simpa using hne
  rw [World.callsOf, hcalls, List.filter_append, hnone, List.append_nil, World.callsOf]

/-- What the run has to keep about the channel at `p` with the id `id`. -/
structure Follows (id p : Nat) (o : Option (Channel κ)) (w : World σ κ) : Prop where
  inv : w.table.Inv
  brk : p < w.table.brk
  get : w.table.get p = o
  id : ∀ ch, o = some ch → ch.channelId = id

/-- A packet the channel accepts is well formed in its turn. -/
theorem Follows.proper {id p : Nat} {ch : Channel κ} {w : World σ κ}
    (h : Follows id p (some ch) w) {pkt : Packet} {body : List UInt8} {error : Bool}
    (hpkt : bodyFor id pkt = some (body, error))
    (hok : error = false → ch.state = .header → IsHeaderPacket body) :
    Proper w.table pkt.1 pkt.2 := by
  obtain ⟨a, b, rfl, hid⟩ := bodyFor_eq_some.mp hpkt
  have hfind : channelById w.table (ntohs a b) = some ch :=
    h.inv.channelById_eq_some.mpr
      ⟨(h.inv.get_eq_some.mp h.get).1, by rw [hid]; exact h.id ch rfl⟩
  refine ⟨a, b, body, rfl, fun c hc herr hst => ?_⟩
  rw [hfind] at hc
  cases hc
  exact hok herr hst

/-- A packet of the channel itself. -/
theorem Follows.own {cb : Callback σ κ} {id p : Nat} {ch : Channel κ} {w : World σ κ}
    (h : Follows id p (some ch) w) {pkt : Packet} {body : List UInt8} {error : Bool}
    (hpkt : bodyFor id pkt = some (body, error))
    (hok : error = false → ch.state = .header → IsHeaderPacket body) :
    ∃ w', feedStep cb w pkt = some w' ∧ w' = (channelProcess cb w pkt.1 pkt.2).1 ∧
      w.OnlyOn p w' ∧ Follows id p (ch.receive body error).2 w' ∧
      w'.callsOf p = w.callsOf p ++ (ch.receive body error).1 := by
  have hproper := h.proper hpkt hok
  obtain ⟨a, b, rfl, hid⟩ := bodyFor_eq_some.mp hpkt
  have hch := h.inv.get_eq_some.mp h.get
  have hfind : channelById w.table (ntohs a b) = some ch :=
    h.inv.channelById_eq_some.mpr ⟨hch.1, by rw [hid]; exact h.id ch rfl⟩
  obtain ⟨hinv, hon, hcalls, hget⟩ := channelProcess_spec cb h.inv hfind body error
  rw [hch.2] at hon hget
  have hptr : ∀ c ∈ (ch.receive body error).1, c.ch.ptr = p := by
    obtain ⟨new, hnew, hall⟩ := hon.calls
    rw [List.append_cancel_left (hcalls.symm.trans hnew)]
    exact hall
  refine ⟨_, if_pos ((channelProcess_noFault_iff cb w _ _).mpr hproper), rfl, hon, ⟨hinv, ?_, hget, ?_⟩, ?_⟩
  · exact Nat.lt_of_lt_of_le h.brk hon.brk
  · intro c hc
    rw [← h.id ch rfl]
    exact ch.receive_id hc
  · rw [World.callsOf, hcalls, List.filter_append, World.callsOf]
    congr 1
    rw [List.filter_eq_self]
    intro c hc
    simpa using hptr c hc

/-- A packet of another channel. -/
theorem Follows.other {cb : Callback σ κ} {id p : Nat} {o : Option (Channel κ)} {w : World σ κ}
    (h : Follows id p o w) {pkt : Packet} (hpkt : bodyFor id pkt = none)
    (hproper : Proper w.table pkt.1 pkt.2) :
    ∃ w', feedStep cb w pkt = some w' ∧ Follows id p o w' ∧ w'.callsOf p = w.callsOf p := by
  have hstep : feedStep cb w pkt = some (channelProcess cb w pkt.1 pkt.2).1 :=
    if_pos ((channelProcess_noFault_iff cb w _ _).mpr hproper)
  obtain ⟨payload, error⟩ := pkt
  obtain ⟨a, b, buf, rfl, -⟩ := hproper
  refine ⟨_, hstep, ?_⟩
  have hid := ntohs_ne_of_bodyFor hpkt
  cases hfind : channelById w.table (ntohs a b) with
  | none =>
    rw [channelProcess_none cb hfind]
    exact ⟨h, rfl⟩
  | some c =>
    obtain ⟨hinv, hon, -, -⟩ := channelProcess_spec cb h.inv hfind buf error
    have hc := h.inv.channelById_eq_some.mp hfind
    -- the pointers differ because the ids do
    have hne : c.ptr ≠ p := by
      intro hp
      have hget := h.inv.get_eq_some.mpr ⟨hc.1, hp⟩
      rw [h.get] at hget
      exact hid (hc.2.symm.trans (h.id c hget))
    refine ⟨⟨hinv, Nat.lt_of_lt_of_le h.brk hon.brk, ?_, h.id⟩, hon.callsOf hne⟩
    rw [hon.get p h.brk hne.symm, h.get]

/-- **Interleaving**: a channel and the calls of its callback depend on its own
packets alone. -/
theorem feed_own (cb : Callback σ κ) {id p : Nat} {o : Option (Channel κ)} {w : World σ κ}
    (h : Follows id p o w) (pkts : List Packet) (hacc : Accepts o (pkts.filterMap (bodyFor id)))
    (hothers : AllSteps (feedStep cb) (OthersProper id) w pkts) :
    ∃ w', exec (feedStep cb) w pkts = some w' ∧
      Follows id p (receiveAll o (pkts.filterMap (bodyFor id))).2 w' ∧
      w'.callsOf p = w.callsOf p ++ (receiveAll o (pkts.filterMap (bodyFor id))).1 ∧
      AllSteps (feedStep cb) (Untouched cb id p) w pkts := by
  induction pkts generalizing o w with
  | nil => exact ⟨w, rfl, by simpa using h, by simp, trivial⟩
  | cons pkt pkts ih =>
    cases hpkt : bodyFor id pkt with
    | none =>
      obtain ⟨w1, hstep, h1, hcalls1⟩ := h.other hpkt (hothers.1 hpkt)
      rw [List.filterMap_cons_none hpkt] at hacc ⊢
      obtain ⟨w', hexec, h', hcalls, hunt⟩ := ih h1 hacc (hothers.2 w1 hstep)
      refine ⟨w', exec_cons_eq_some.mpr ⟨w1, hstep, hexec⟩, h', by rw [hcalls, hcalls1], ?_, ?_⟩
      · exact fun hne => absurd hpkt hne
      · intro s hs
        rw [hstep] at hs
        cases hs
        exact hunt
    | some be =>
      obtain ⟨body, error⟩ := be
      rw [List.filterMap_cons_some hpkt] at hacc ⊢
      cases o with
      | none => exact hacc.elim
      | some ch =>
        obtain ⟨hok, hacc⟩ := hacc
        obtain ⟨w1, hstep, hw1, hon, h1, hcalls1⟩ := h.own hpkt hok
        obtain ⟨w', hexec, h', hcalls, hunt⟩ := ih h1 hacc (hothers.2 w1 hstep)
        refine ⟨w', exec_cons_eq_some.mpr ⟨w1, hstep, hexec⟩, h', ?_, ?_, ?_⟩
        · rw [hcalls, hcalls1, List.append_assoc]
          rfl
        · exact fun _ => hw1 ▸ hon
        · intro s hs
          rw [hstep] at hs
          cases hs
          exact hunt

/-- When every packet is for one of the channels `chs`, and each of these accepts its own, all
packets are well formed in their turn. -/
theorem allSteps_proper (cb : Callback σ κ) {chs : List (Channel κ)}
    {cur : Channel κ → Option (Channel κ)} {w : World σ κ} {pkts : List Packet}
    (hchs : ∀ ch ∈ chs, Follows ch.channelId ch.ptr (cur ch) w ∧
      Accepts (cur ch) (pkts.filterMap (bodyFor ch.channelId)))
    (hpkts : ∀ pkt ∈ pkts, ∃ ch ∈ chs, bodyFor ch.channelId pkt ≠ none) :
    AllSteps (feedStep cb) (fun w pkt => Proper w.table pkt.1 pkt.2) w pkts := by
  induction pkts generalizing cur w with
  | nil => trivial
  | cons pkt pkts ih =>
    have hproper : Proper w.table pkt.1 pkt.2 := by
      obtain ⟨ch, hch, hne⟩ := hpkts pkt List.mem_cons_self
      obtain ⟨⟨body, error⟩, hpkt⟩ := Option.ne_none_iff_exists'.mp hne
      obtain ⟨hfollows, hacc⟩ := hchs ch hch
      rw [List.filterMap_cons_some hpkt] at hacc
      cases hcur : cur ch with
      | none =>
        rw [hcur] at hacc
        exact hacc.elim
      | some c =>
        rw [hcur] at hfollows hacc
        exact hfollows.proper hpkt hacc.1
    refine ⟨hproper, fun w1 hw1 => ?_⟩
    have hnext : ∀ ch ∈ chs,
        Follows ch.channelId ch.ptr
          (receiveAll (cur ch) ([pkt].filterMap (bodyFor ch.channelId))).2 w1 ∧
        Accepts (receiveAll (cur ch) ([pkt].filterMap (bodyFor ch.channelId))).2
          (pkts.filterMap (bodyFor ch.channelId)) := by
      intro ch hch
      obtain ⟨hfollows, hacc⟩ := hchs ch hch
      have hsplit : (pkt :: pkts).filterMap (bodyFor ch.channelId) =
          [pkt].filterMap (bodyFor ch.channelId) ++ pkts.filterMap (bodyFor ch.channelId) := by
        rw [← List.filterMap_append]
        rfl
      rw [hsplit, accepts_append] at hacc
      obtain ⟨w', hexec, hfollows', -⟩ := feed_own cb hfollows [pkt] hacc.1
        ⟨fun _ => hproper, fun _ _ => trivial⟩
      rw [exec_cons, hw1, Option.bind_some, exec_nil, Option.some.injEq] at hexec
      exact ⟨hexec ▸ hfollows', hacc.2⟩
    exact ih hnext fun x hx => hpkts x (List.mem_cons_of_mem _ hx)

/-! ## Replies -/

/-- A reply: the header packets but the last, the headers of the last, and the
chunks of data. -/
structure Reply where
  groups : List (List (List UInt8))
  last : List (List UInt8)
  chunks : List (List UInt8)
  groups_ne : ∀ g ∈ groups, g ≠ []
  headers : ∀ h ∈ groups.flatten ++ last, IsHeader h
  chunks_ne : ∀ d ∈ chunks, d ≠ []

/-- The packet bodies of a reply. -/
def Reply.bodies (r : Reply) : List (List UInt8 × Bool) :=
  (r.groups.map fun g => (encodeHeaders g, false)) ++
    (encodeHeaders r.last ++ [0, 0], false) :: (r.chunks.map fun d => (d, false)) ++ [([], false)]

/-- What a callback sees: `state`, `header_id`, `total_data_len` and the data. -/
def Call.seen (c : Call κ) : ChannelState × UInt32 × UInt32 × List UInt8 :=
  (c.ch.state, c.ch.headerId, c.ch.totalDataLen, c.data)

/-- The headers numbered from 1, the chunks each with the length of those before
it, and the end. -/
def Reply.expected (r : Reply) : List (ChannelState × UInt32 × UInt32 × List UInt8) :=
  ((r.groups.flatten ++ r.last).mapIdx fun i h =>
      (.header, UInt32.ofNat (i + 1), 0, h)) ++
    (r.chunks.mapIdx fun i d =>
      (.data, UInt32.ofNat (r.groups.flatten ++ r.last).length,
        UInt32.ofNat (r.chunks.take i).flatten.length, d)) ++
    [(.ended, UInt32.ofNat (r.groups.flatten ++ r.last).length,
      UInt32.ofNat r.chunks.flatten.length, [])]

/-! ### The header phase -/

theorem headerCalls_append (ch : Channel κ) (gs hs : List (List UInt8)) :
    headerCalls ch (gs ++ hs) =
      headerCalls ch gs ++ headerCalls (gs.foldl Channel.afterHeader ch) hs := by
  induction gs generalizing ch with
  | nil => rfl
  | cons g gs ih => simp [headerCalls, ih]

theorem foldl_afterHeader (ch : Channel κ) (hs : List (List UInt8)) :
    (hs.foldl Channel.afterHeader ch).state = ch.state ∧
      (hs.foldl Channel.afterHeader ch).headerId = ch.headerId + UInt32.ofNat hs.length ∧
      (hs.foldl Channel.afterHeader ch).totalDataLen = ch.totalDataLen := by
  induction hs generalizing ch with
  | nil => simp
  | cons h hs ih =>
    obtain ⟨h1, h2, h3⟩ := ih (ch.afterHeader h)
    refine ⟨h1, ?_, h3⟩
    rw [List.foldl_cons, h2, List.length_cons, UInt32.ofNat_add, UInt32.add_comm (UInt32.ofNat _),
      ← UInt32.add_assoc]
    rfl

theorem seen_headerCalls (ch : Channel κ) (hs : List (List UInt8)) :
    (headerCalls ch hs).map Call.seen =
      hs.mapIdx fun i h => (ch.state, ch.headerId + UInt32.ofNat (i + 1), ch.totalDataLen, h) := by
  induction hs generalizing ch with
  | nil => rfl
  | cons h hs ih =>
    rw [headerCalls, List.map_cons, ih, List.mapIdx_cons]
    refine congrArg₂ List.cons rfl (congrArg (List.mapIdx · hs) ?_)
    funext i h'
    have hadd : (ch.afterHeader h).headerId + UInt32.ofNat (i + 1) =
        ch.headerId + UInt32.ofNat (i + 1 + 1) := by
      rw [UInt32.ofNat_add (i + 1), UInt32.add_comm (UInt32.ofNat _), ← UInt32.add_assoc]
      rfl
    rw [hadd]
    rfl

theorem Channel.receive_group {ch : Channel κ} (hst : ch.state = .header)
    {g : List (List UInt8)} (hg : ∀ h ∈ g, IsHeader h) :
    ch.receive (encodeHeaders g) false =
      (headerCalls ch g, some (g.foldl Channel.afterHeader ch)) := by
  have hsplit := splitHeaders_encodeHeaders hg []
  rw [List.append_nil, splitHeaders] at hsplit
  simp [Channel.receive, hst, hsplit]

theorem Channel.receive_last {ch : Channel κ} (hst : ch.state = .header)
    {g : List (List UInt8)} (hg : ∀ h ∈ g, IsHeader h) :
    ch.receive (encodeHeaders g ++ [0, 0]) false =
      (headerCalls ch g, some { g.foldl Channel.afterHeader ch with state := .data }) := by
  have hsplit := splitHeaders_encodeHeaders hg [0, 0]
  rw [splitHeaders, if_pos (by decide)] at hsplit
  simp [Channel.receive, hst, hsplit]

theorem receiveAll_groups {ch : Channel κ} (hst : ch.state = .header)
    {gs : List (List (List UInt8))} (hne : ∀ g ∈ gs, g ≠ []) (hgs : ∀ h ∈ gs.flatten, IsHeader h) :
    Accepts (some ch) (gs.map fun g => (encodeHeaders g, false)) ∧
      receiveAll (some ch) (gs.map fun g => (encodeHeaders g, false)) =
        (headerCalls ch gs.flatten, some (gs.flatten.foldl Channel.afterHeader ch)) := by
  induction gs generalizing ch with
  | nil => exact ⟨trivial, rfl⟩
  | cons g gs ih =>
    rw [List.flatten_cons] at hgs
    have hg : ∀ h ∈ g, IsHeader h := fun h hh => hgs h (List.mem_append_left _ hh)
    have hst' : (g.foldl Channel.afterHeader ch).state = .header :=
      (foldl_afterHeader ch g).1.trans hst
    obtain ⟨hacc, hall⟩ := ih hst' (fun x hx => hne x (List.mem_cons_of_mem _ hx))
      fun h hh => hgs h (List.mem_append_right _ hh)
    rw [List.map_cons, Accepts, receiveAll, Channel.receive_group hst hg, hall, List.flatten_cons,
      headerCalls_append, List.foldl_append]
    exact ⟨⟨fun _ _ => Or.inl ⟨g, hne g List.mem_cons_self, hg, rfl⟩, hacc⟩, rfl⟩

/-! ### The data phase -/

def dataCalls : Channel κ → List (List UInt8) → List (Call κ)
  | _, [] => []
  | ch, d :: ds => ⟨ch, d⟩ :: dataCalls (ch.afterData d) ds

theorem Channel.onData_of_ne {ch : Channel κ} {d : List UInt8} (hd : d ≠ []) :
    ch.onData d = ch := by
  unfold Channel.onData
  rw [if_neg]
  rwa [List.length_eq_zero_iff]

theorem receiveAll_chunks {ch : Channel κ} (hst : ch.state = .data) {ds : List (List UInt8)}
    (hds : ∀ d ∈ ds, d ≠ []) :
    Accepts (some ch) (ds.map fun d => (d, false)) ∧
      receiveAll (some ch) (ds.map fun d => (d, false)) =
        (dataCalls ch ds, some (ds.foldl Channel.afterData ch)) := by
  induction ds generalizing ch with
  | nil => exact ⟨trivial, rfl⟩
  | cons d ds ih =>
    have hon : ch.onData d = ch := Channel.onData_of_ne (hds d List.mem_cons_self)
    have hst' : (ch.afterData d).state = .data := by rw [Channel.afterData, hon]; exact hst
    obtain ⟨hacc, hall⟩ := ih hst' fun x hx => hds x (List.mem_cons_of_mem _ hx)
    have hrec : ch.receive d false = ([⟨ch, d⟩], some (ch.afterData d)) := by
      simp [Channel.receive, hst, hon, ChannelState.final]
    rw [List.map_cons, Accepts, receiveAll, hrec, hall]
    refine ⟨⟨fun _ h => ?_, hacc⟩, rfl⟩
    rw [hst] at h
    cases h

theorem foldl_afterData (ch : Channel κ) {ds : List (List UInt8)} (hds : ∀ d ∈ ds, d ≠ []) :
    (ds.foldl Channel.afterData ch).state = ch.state ∧
      (ds.foldl Channel.afterData ch).headerId = ch.headerId ∧
      (ds.foldl Channel.afterData ch).totalDataLen =
        ch.totalDataLen + UInt32.ofNat ds.flatten.length := by
  induction ds generalizing ch with
  | nil => simp
  | cons d ds ih =>
    have hon : ch.onData d = ch := Channel.onData_of_ne (hds d List.mem_cons_self)
    have hafter : ch.afterData d =
        { ch with totalDataLen := ch.totalDataLen + UInt32.ofNat d.length } := by
      rw [Channel.afterData, hon]
    obtain ⟨h1, h2, h3⟩ := ih (ch.afterData d) fun x hx => hds x (List.mem_cons_of_mem _ hx)
    rw [hafter] at h1 h2 h3
    refine ⟨?_, ?_, ?_⟩
    · rw [List.foldl_cons, hafter, h1]
    · rw [List.foldl_cons, hafter, h2]
    · rw [List.foldl_cons, hafter, h3, List.flatten_cons, List.length_append, UInt32.ofNat_add,
        UInt32.add_assoc]

theorem seen_dataCalls {ch : Channel κ} {ds : List (List UInt8)} (hds : ∀ d ∈ ds, d ≠ []) :
    (dataCalls ch ds).map Call.seen = ds.mapIdx fun i d =>
      (ch.state, ch.headerId, ch.totalDataLen + UInt32.ofNat (ds.take i).flatten.length, d) := by
  induction ds generalizing ch with
  | nil => rfl
  | cons d ds ih =>
    have hon : ch.onData d = ch := Channel.onData_of_ne (hds d List.mem_cons_self)
    have hafter : ch.afterData d =
        { ch with totalDataLen := ch.totalDataLen + UInt32.ofNat d.length } := by
      rw [Channel.afterData, hon]
    rw [dataCalls, List.map_cons, ih fun x hx => hds x (List.mem_cons_of_mem _ hx),
      List.mapIdx_cons, hafter]
    refine congrArg₂ List.cons ?_ (congrArg (List.mapIdx · ds) ?_)
    · simp [Call.seen]
    · funext i d'
      simp [UInt32.add_assoc]

/-! ### The whole reply -/

/-- A channel as `channel_register` leaves it, as far as its callback can see. -/
structure Channel.Fresh (ch : Channel κ) : Prop where
  state : ch.state = .header
  headerId : ch.headerId = 0
  totalDataLen : ch.totalDataLen = 0

/-- **A reply to one channel**: every packet is accepted, the callback sees the
headers, the chunks and the end, and the channel is gone. -/
theorem receiveAll_reply {ch : Channel κ} (hch : ch.Fresh) (r : Reply) :
    Accepts (some ch) r.bodies ∧ (receiveAll (some ch) r.bodies).2 = none ∧
      (receiveAll (some ch) r.bodies).1.map Call.seen = r.expected := by
  have hgs : ∀ h ∈ r.groups.flatten, IsHeader h := fun h hh =>
    r.headers h (List.mem_append_left _ hh)
  have hlast : ∀ h ∈ r.last, IsHeader h := fun h hh => r.headers h (List.mem_append_right _ hh)
  obtain ⟨hacc1, hall1⟩ := receiveAll_groups hch.state r.groups_ne hgs
  have hst1 := (foldl_afterHeader ch r.groups.flatten).1.trans hch.state
  obtain ⟨-, hid2, hlen2⟩ := foldl_afterHeader ch (r.groups.flatten ++ r.last)
  have hrec2 := Channel.receive_last hst1 hlast
  rw [← List.foldl_append] at hrec2
  -- the channel between the header phase and the data phase
  generalize hc : ({ (r.groups.flatten ++ r.last).foldl Channel.afterHeader ch with
    state := .data } : Channel κ) = c at hrec2
  have hst3 : c.state = .data := hc ▸ rfl
  have hid3 : c.headerId = UInt32.ofNat (r.groups.flatten ++ r.last).length := by
    rw [← hc, hid2, hch.headerId, UInt32.zero_add]
  have hlen3 : c.totalDataLen = 0 := by rw [← hc, hlen2, hch.totalDataLen]
  obtain ⟨hacc3, hall3⟩ := receiveAll_chunks hst3 r.chunks_ne
  obtain ⟨hst4, hid4, hlen4⟩ := foldl_afterData c r.chunks_ne
  have hrec4 : (r.chunks.foldl Channel.afterData c).receive [] false =
      ([⟨{ r.chunks.foldl Channel.afterData c with state := .ended }, []⟩], none) := by
    simp [Channel.receive, hst4, hst3, Channel.onData, ChannelState.final]
  unfold Reply.bodies
  refine ⟨?_, ?_, ?_⟩
  · rw [List.append_assoc, accepts_append, hall1]
    refine ⟨hacc1, ?_⟩
    rw [List.cons_append, Accepts, hrec2, accepts_append, hall3]
    refine ⟨fun _ _ => Or.inr ⟨r.last, hlast, rfl⟩, hacc3, fun _ h => ?_, trivial⟩
    rw [hst4, hst3] at h
    cases h
  · rw [List.append_assoc, receiveAll_append, hall1, List.cons_append, receiveAll, hrec2,
      receiveAll_append, hall3, receiveAll, hrec4]
    rfl
  · rw [List.append_assoc, receiveAll_append, hall1, List.cons_append, receiveAll, hrec2,
      receiveAll_append, hall3, receiveAll, hrec4]
    simp only [List.map_append, receiveAll_nil, List.append_nil]
    rw [← List.append_assoc, ← List.map_append, ← headerCalls_append, seen_headerCalls,
      seen_dataCalls r.chunks_ne]
    simp only [hch.state, hch.headerId, hch.totalDataLen, hst3, hid3, hlen3, Reply.expected,
      UInt32.zero_add, List.map_cons, List.map_nil, Call.seen, hid4, hlen4]
    rw [List.append_assoc]

/-! ### Replies among other packets -/

/-- The packets of a reply, for the channel with the id. -/
def Reply.packets (r : Reply) (id : Nat) : List Packet :=
  r.bodies.map fun be => (htons id ++ be.1, be.2)

theorem Reply.filterMap_packets (r : Reply) {id : Nat} (hid : id < 65536) :
    (r.packets id).filterMap (bodyFor id) = r.bodies := by
  have h : ∀ be : List UInt8 × Bool, bodyFor id (htons id ++ be.1, be.2) = some be := by
    rintro ⟨body, error⟩
    refine bodyFor_eq_some.mpr ⟨_, _, rfl, ?_⟩
    rw [ntohs_htons, Nat.mod_eq_of_lt hid]
  rw [Reply.packets, List.filterMap_map]
  have hfun : (bodyFor id ∘ fun be : List UInt8 × Bool => (htons id ++ be.1, be.2)) = some :=
    funext h
  rw [hfun, List.filterMap_some]

theorem allSteps_othersProper (cb : Callback σ κ) {id : Nat} {pkts : List Packet}
    (h : ∀ pkt ∈ pkts, bodyFor id pkt ≠ none) (w : World σ κ) :
    AllSteps (feedStep cb) (OthersProper id) w pkts := by
  induction pkts generalizing w with
  | nil => trivial
  | cons pkt pkts ih =>
    refine ⟨fun hnone => absurd hnone (h pkt List.mem_cons_self), fun w' _ => ?_⟩
    exact ih (fun x hx => h x (List.mem_cons_of_mem _ hx)) w'

theorem Reply.bodyFor_packets (r : Reply) {id : Nat} (hid : id < 65536) :
    ∀ pkt ∈ r.packets id, bodyFor id pkt ≠ none := by
  intro pkt hpkt
  obtain ⟨⟨body, error⟩, -, rfl⟩ := List.mem_map.mp hpkt
  have h : bodyFor id (htons id ++ body, error) = some (body, error) := by
    refine bodyFor_eq_some.mpr ⟨_, _, rfl, ?_⟩
    rw [ntohs_htons, Nat.mod_eq_of_lt hid]
  rw [h]
  exact Option.some_ne_none _

/-- From the table of any run, and among packets of other channels that are
well formed in their turn, the packets of a reply make the callback of a fresh
channel see the reply, each once and in order; then the channel is gone, and no
packet of the reply has touched another channel. -/
theorem feed_reply (cb : Callback σ κ) {client : σ} {r : Run σ κ}
    (hr : Reachable (step cb) (Run.init client) r) {ch : Channel κ}
    (hch : ch ∈ r.world.table.head) (hfresh : ch.Fresh) (reply : Reply) (pkts : List Packet)
    (hpkts : pkts.filterMap (bodyFor ch.channelId) = reply.bodies)
    (hothers : AllSteps (feedStep cb) (OthersProper ch.channelId) r.world pkts) :
    ∃ w' new, exec (feedStep cb) r.world pkts = some w' ∧
      w'.callsOf ch.ptr = r.world.callsOf ch.ptr ++ new ∧
      new.map Call.seen = reply.expected ∧
      ch.ptr ∉ w'.table.head.map Channel.ptr ∧
      AllSteps (feedStep cb) (Untouched cb ch.channelId ch.ptr) r.world pkts := by
  obtain ⟨es, hes⟩ := hr
  have hinv := (Run.Inv.exec hes).table
  have hget := hinv.get_eq_some.mpr ⟨hch, rfl⟩
  obtain ⟨hacc, hgone, hseen⟩ := receiveAll_reply hfresh reply
  rw [← hpkts] at hacc hgone hseen
  have hfollows : Follows ch.channelId ch.ptr (some ch) r.world :=
    ⟨hinv, hinv.fresh ch hch, hget, fun c hc => by cases hc; rfl⟩
  obtain ⟨w', hexec, h', hcalls, hunt⟩ := feed_own cb hfollows pkts hacc hothers
  refine ⟨w', _, hexec, hcalls, hseen, ?_, hunt⟩
  have hnone := h'.get
  rw [hgone] at hnone
  exact Keyed.find_eq_none.mp hnone

/-- Channel 1 over channel 0, both just registered. -/
def twoChannels : Run Unit Unit :=
  ⟨⟨Table.empty.registerAll [⟨none, (), true⟩, ⟨none, (), true⟩], (), []⟩, []⟩

theorem reachable_twoChannels : Reachable (step ignore) (Run.init ()) twoChannels :=
  ⟨[.register ⟨none, (), true⟩, .register ⟨none, (), true⟩], rfl⟩

/-- Channel 0 of `twoChannels`. -/
def channel0 : Channel Unit :=
  { ptr := 0, channelId := 0, headerId := 0, state := .header, totalHeaderLen := 0,
    totalDataLen := 0, name := [], callback := () }

theorem channel0_mem : channel0 ∈ twoChannels.world.table.head := by
  simp [twoChannels, channel0, Table.registerAll, channelRegister, scanNext, Table.empty, copyName]

theorem channel0_fresh : channel0.Fresh := ⟨rfl, rfl, rfl⟩

/-- Three headers in two packets, and two chunks. -/
def smallReply : Reply where
  groups := [[[1], [2, 3]]]
  last := [[4]]
  chunks := [[5, 6], [7]]
  groups_ne := by simp
  headers := by decide
  chunks_ne := by simp

/-- The packets of a reply to channel 0 behind the terminator of channel 1. -/
theorem feed_reply_small :
    ∃ w' new, exec (feedStep ignore) twoChannels.world
        (([0, 1, 0, 0], false) :: smallReply.packets 0) = some w' ∧
      w'.callsOf 0 = twoChannels.world.callsOf 0 ++ new ∧
      new.map Call.seen =
        [(.header, 1, 0, [1]), (.header, 2, 0, [2, 3]), (.header, 3, 0, [4]),
          (.data, 3, 0, [5, 6]), (.data, 3, 2, [7]), (.ended, 3, 3, [])] ∧
      0 ∉ w'.table.head.map Channel.ptr ∧
      AllSteps (feedStep ignore) (Untouched ignore 0 0) twoChannels.world
        (([0, 1, 0, 0], false) :: smallReply.packets 0) := by
  refine feed_reply ignore reachable_twoChannels channel0_mem channel0_fresh smallReply
    (([0, 1, 0, 0], false) :: smallReply.packets 0) ?_ ?_
  · rw [List.filterMap_cons_none (by decide)]
    exact smallReply.filterMap_packets (by decide)
  · refine ⟨fun _ => ⟨0, 1, [0, 0], rfl, fun _ _ _ _ => Or.inr ⟨[], nofun, rfl⟩⟩, fun w' _ => ?_⟩
    exact allSteps_othersProper ignore (smallReply.bodyFor_packets (by decide)) w'

theorem Reply.groups_nil : ∀ g ∈ ([] : List (List (List UInt8))), g ≠ [] := nofun

theorem Reply.headers_nil : ∀ h ∈ ([] : List (List (List UInt8))).flatten ++ [], IsHeader h :=
  nofun

theorem Reply.chunks_replicate (n k : Nat) :
    ∀ d ∈ List.replicate n (List.replicate (k + 1) (0 : UInt8)), d ≠ [] := by
  intro d hd
  rw [(List.mem_replicate.mp hd).2, List.replicate_succ]
  exact List.cons_ne_nil _ _

/-- 4295032820 bytes of data, in chunks that each fill a packet. -/
def hugeReply : Reply where
  groups := []
  last := []
  chunks := List.replicate 65540 (List.replicate 65533 0)
  groups_ne := Reply.groups_nil
  headers := Reply.headers_nil
  chunks_ne := Reply.chunks_replicate 65540 65532

theorem length_hugeReply : hugeReply.chunks.flatten.length = 4295032820 := by
  rw [hugeReply, List.length_flatten, List.map_replicate, List.sum_replicate_nat,
    List.length_replicate]

/-- At the end of the huge reply `total_data_len` has wrapped, and a lone id for
channel 1 stops the feeding of any reply to channel 0. -/
theorem feed_reply_fails :
    (∃ w', exec (feedStep ignore) twoChannels.world (hugeReply.packets 0) = some w' ∧
      ∃ c ∈ w'.callsOf 0, c.ch.state = .ended ∧
        c.ch.totalDataLen.toNat ≠ hugeReply.chunks.flatten.length) ∧
    exec (feedStep ignore) twoChannels.world (([0, 1], false) :: smallReply.packets 0) = none := by
  have hinv := (Run.Inv.exec reachable_twoChannels.choose_spec).table
  constructor
  · have hfollows : Follows 0 0 (some channel0) twoChannels.world :=
      ⟨hinv, hinv.fresh channel0 channel0_mem, hinv.get_eq_some.mpr ⟨channel0_mem, rfl⟩,
        fun c hc => by cases hc; rfl⟩
    obtain ⟨hacc, -, hseen⟩ := receiveAll_reply channel0_fresh hugeReply
    rw [← hugeReply.filterMap_packets (show 0 < 65536 by omega)] at hacc hseen
    obtain ⟨w', hexec, -, hcalls, -⟩ := feed_own ignore hfollows (hugeReply.packets 0) hacc
      (allSteps_othersProper ignore (hugeReply.bodyFor_packets (by omega)) _)
    refine ⟨w', hexec, ?_⟩
    have hend : (ChannelState.ended, UInt32.ofNat (hugeReply.groups.flatten ++
        hugeReply.last).length, UInt32.ofNat hugeReply.chunks.flatten.length, []) ∈
        hugeReply.expected := List.mem_append_right _ (List.mem_singleton.mpr rfl)
    rw [← hseen] at hend
    obtain ⟨c, hc, hcseen⟩ := List.mem_map.mp hend
    refine ⟨c, by rw [hcalls]; exact List.mem_append_right _ hc, ?_, ?_⟩
    · exact congrArg (·.1) hcseen
    · have hlen : c.ch.totalDataLen = UInt32.ofNat hugeReply.chunks.flatten.length :=
        congrArg (·.2.2.1) hcseen
      rw [hlen, length_hugeReply]
      decide
  · have hlone : feedStep ignore twoChannels.world ([0, 1], false) = none := by
      simp [feedStep, channelProcess, processHeaders, twoChannels, Table.registerAll,
        channelRegister, scanNext, Table.empty, channelById, Keyed.find, ntohs]
    rw [exec_cons, hlone]
    rfl

end Despotify.Channels

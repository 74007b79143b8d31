import Despotify.Java.Channel

/-!
# Java: a reply is complete or the wait fails

`channelEnd` and `channelError` release the same semaphore, so `getData` cannot
tell them apart; an interrupted wait goes on as if the permit had been taken.
`Channel.events` holds what a listener was told by `process` and `error`:

    Reachable s → heap[o] = c → c.listener = callback cb → w.Enabled cb →
      (Complete c.events (cb.getData w) ↔
        w = timeout ∨ 2 ^ 31 ≤ size c.events ∨
          channelError ∉ c.events ∧ (w = interrupted → channelEnd ∈ c.events))
                                                              (getData_complete_iff)
-/

namespace Despotify.Java

/-- The data a listener was handed, chunk by chunk. -/
def chunks : List Event → List Bytes
  | [] => []
  | .channelData data :: es => data :: chunks es
  | _ :: es => chunks es

/-- The number of bytes in those chunks. -/
def size (es : List Event) : Nat := (chunks es).flatten.length

def Ended (es : List Event) : Prop := .channelEnd ∈ es ∨ .channelError ∈ es

theorem chunks_append (es es' : List Event) : chunks (es ++ es') = chunks es ++ chunks es' := by
  induction es with
  | nil => rfl
  | cons e es ih =>
    cases e with
    | channelData data => exact congrArg (data :: ·) ih
    | channelHeader header => exact ih
    | channelEnd => exact ih
    | channelError => exact ih

theorem ended_append_singleton (es : List Event) (e : Event) :
    Ended (es ++ [e]) ↔ Ended es ∨ e = .channelEnd ∨ e = .channelError := by
  simp only [Ended, List.mem_append, List.mem_singleton, eq_comm (b := e)]
  tauto

/-! ## The buffers of a callback -/

/-- A callback that has been told `es`, and waited for some times. -/
structure Follows (cb : ChannelCallback) (es : List Event) : Prop where
  buffers : cb.buffers = chunks es
  bytes : cb.bytes = int (size es)
  done : 0 < cb.done → Ended es

theorem Follows.new : Follows .new [] where
  buffers := rfl
  bytes := by simp [ChannelCallback.new, size, chunks, int]
  done := fun h => absurd h (Nat.lt_irrefl 0)

theorem Follows.on {cb : ChannelCallback} {es : List Event} (h : Follows cb es) (e : Event) :
    Follows (cb.on e) (es ++ [e]) := by
  have hended : Ended es → Ended (es ++ [e]) := fun h => (ended_append_singleton es e).mpr (.inl h)
  cases e with
  | channelHeader header =>
    refine ⟨?_, ?_, fun hd => hended (h.done hd)⟩
    · simpa [chunks_append, chunks, ChannelCallback.on] using h.buffers
    · simpa [size, chunks_append, chunks, ChannelCallback.on] using h.bytes
  | channelData data =>
    refine ⟨?_, ?_, fun hd => hended (h.done hd)⟩
    · simp [chunks_append, chunks, ChannelCallback.on, h.buffers]
    · simp [size, chunks_append, chunks, ChannelCallback.on, h.bytes, int]
  | channelEnd =>
    refine ⟨?_, ?_, fun _ => (ended_append_singleton es _).mpr (.inr (.inl rfl))⟩
    · simpa [chunks_append, chunks, ChannelCallback.on] using h.buffers
    · simpa [size, chunks_append, chunks, ChannelCallback.on] using h.bytes
  | channelError =>
    refine ⟨?_, ?_, fun _ => (ended_append_singleton es _).mpr (.inr (.inr rfl))⟩
    · simpa [chunks_append, chunks, ChannelCallback.on] using h.buffers
    · simpa [size, chunks_append, chunks, ChannelCallback.on] using h.bytes

theorem Follows.taken {cb : ChannelCallback} {es : List Event} (h : Follows cb es) (w : Wait) :
    Follows (cb.taken w) es := by
  unfold ChannelCallback.taken
  split
  · exact ⟨h.buffers, h.bytes, fun hd => h.done (by simp at hd; omega)⟩
  · exact h

/-! ## Copying the buffers -/

theorem putAll_of_le {capacity : Nat} {written : Bytes} {bs : List Bytes}
    (h : written.length + bs.flatten.length ≤ capacity) :
    putAll capacity written bs =
      .ok (written ++ bs.flatten ++
        List.replicate (capacity - (written.length + bs.flatten.length)) 0) := by
  induction bs generalizing written with
  | nil => simp [putAll]
  | cons b bs ih =>
    rw [List.flatten_cons, List.length_append] at h
    rw [putAll, if_neg (by omega), ih (by rw [List.length_append]; omega)]
    simp [Nat.add_assoc]

theorem putAll_of_lt {capacity : Nat} {written : Bytes} {bs : List Bytes}
    (hw : written.length ≤ capacity) (h : capacity < written.length + bs.flatten.length) :
    putAll capacity written bs = .error .bufferOverflowException := by
  induction bs generalizing written with
  | nil => simp at h; omega
  | cons b bs ih =>
    rw [List.flatten_cons, List.length_append] at h
    rw [putAll]
    by_cases hb : capacity < written.length + b.length
    · rw [if_pos hb]
    · rw [if_neg hb, ih (by rw [List.length_append]; omega) (by rw [List.length_append]; omega)]

theorem int_natCast_of_lt {n : Nat} (h : n < 2 ^ 31) : int n = n := by
  rw [int, Int.bmod_eq_of_le] <;> omega

theorem int_lt (n : Int) : int n < 2 ^ 31 := Int.bmod_lt (by omega)

/-- Unless it runs out of time, `getData` returns the data, as long as an `int`
counts it. -/
theorem Follows.getData {cb : ChannelCallback} {es : List Event} (h : Follows cb es) {w : Wait}
    (hw : w ≠ .timeout) (hsize : size es < 2 ^ 31) :
    cb.getData w = .ok (chunks es).flatten := by
  have hbytes : cb.bytes = size es := h.bytes.trans (int_natCast_of_lt hsize)
  have hroom : ([] : Bytes).length + (chunks es).flatten.length = size es := Nat.zero_add _
  rw [ChannelCallback.getData, if_neg hw, if_neg (by omega), hbytes, h.buffers,
    Int.toNat_natCast, putAll_of_le (Nat.le_of_eq hroom), hroom, Nat.sub_self]
  simp

theorem Follows.getData_error {cb : ChannelCallback} {es : List Event} (h : Follows cb es)
    {w : Wait} (hsize : 2 ^ 31 ≤ size es) : ∃ t, cb.getData w = .error t := by
  have hlt := int_lt (size es)
  unfold ChannelCallback.getData
  by_cases hw : w = .timeout
  · exact ⟨_, if_pos hw⟩
  · rw [if_neg hw]
    by_cases hneg : cb.bytes < 0
    · exact ⟨_, if_pos hneg⟩
    · rw [if_neg hneg, h.buffers]
      refine ⟨_, putAll_of_lt (by simp) ?_⟩
      have hbytes := h.bytes
      simp only [List.length_nil, Nat.zero_add]
      show cb.bytes.toNat < size es
      omega

/-! ## The invariant of the channels -/

/-- A channel ends once, and its callback has followed it. -/
structure Channel.Sound (c : Channel) : Prop where
  once : ¬ (.channelEnd ∈ c.events ∧ .channelError ∈ c.events)
  follows : ∀ cb, c.listener = .callback cb → Follows cb c.events

/-- What is in the table is registered and has not ended. -/
structure Jvm.Inv (s : Jvm) : Prop where
  sound : ∀ (o : Nat) (c : Channel), s.heap[o]? = some c → c.Sound
  fresh : ∀ (o : Nat) (c : Channel), s.heap[o]? = some c → c.registered = false → c.events = []
  table : ∀ i o, s.channels i = some o →
    ∃ c, s.heap[o]? = some c ∧ c.id = i ∧ c.registered = true ∧ ¬ Ended c.events

/-- A change of channel `o` that the invariant allows. -/
structure Allowed (s : Jvm) (o : Nat) (c c' : Channel) : Prop extends Keeps c c' where
  sound : c'.Sound
  fresh : c.registered = false → c'.events = []
  ended : Ended c'.events → Ended c.events ∨ ∀ i, s.channels i ≠ some o

theorem Jvm.Inv.start : Jvm.start.Inv where
  sound := by simp [Jvm.start]
  fresh := by simp [Jvm.start]
  table := by simp [Jvm.start]

theorem Jvm.Inv.set {s : Jvm} (h : s.Inv) {o : Nat} {f : Channel → Channel}
    (hf : ∀ c, s.heap[o]? = some c → Allowed s o c (f c)) : (s.set o f).Inv := by
  have hget : ∀ (o' : Nat) (c' : Channel), (s.set o f).heap[o']? = some c' →
      s.heap[o']? = some c' ∨ o' = o ∧ ∃ c, s.heap[o]? = some c ∧ c' = f c := by
    intro o' c' hc'
    rw [getElem?_set] at hc'
    by_cases ho : o' = o
    · rw [if_pos ho] at hc'
      obtain ⟨c, hc, rfl⟩ := Option.map_eq_some_iff.mp hc'
      exact Or.inr ⟨ho, c, hc, rfl⟩
    · rw [if_neg ho] at hc'
      exact Or.inl hc'
  refine ⟨?_, ?_, ?_⟩
  · intro o' c' hc'
    rcases hget o' c' hc' with hc | ⟨-, c, hc, rfl⟩
    · exact h.sound o' c' hc
    · exact (hf c hc).sound
  · intro o' c' hc' hr
    rcases hget o' c' hc' with hc | ⟨-, c, hc, rfl⟩
    · exact h.fresh o' c' hc hr
    · exact (hf c hc).fresh ((hf c hc).registered.symm.trans hr)
  · intro i o' hi
    obtain ⟨c, hc, hid, hr, he⟩ := h.table i o' hi
    rw [getElem?_set]
    by_cases ho : o' = o
    · subst ho
      rw [if_pos rfl, hc]
      have hok := hf c hc
      refine ⟨f c, rfl, hok.id.trans hid, hok.registered.trans hr, fun he' => ?_⟩
      rcases hok.ended he' with hin | hout
      · exact he hin
      · exact hout i hi
    · rw [if_neg ho]
      exact ⟨c, hc, hid, hr, he⟩

theorem Jvm.Inv.unregister {s : Jvm} (h : s.Inv) (id : Int) : (s.unregister id).Inv where
  sound := h.sound
  fresh := h.fresh
  table := by
    intro i o hi
    have hi : Function.update s.channels id none i = some o := hi
    rw [Function.update_apply] at hi
    by_cases hid : i = id
    · simp [hid] at hi
    · rw [if_neg hid] at hi
      exact h.table i o hi

/-- After `unregister` no entry leads to the channel with that id. -/
theorem Jvm.Inv.unlisted {s : Jvm} (h : s.Inv) {o : Nat} {c : Channel}
    (hc : s.heap[o]? = some c) (i : Int) : (s.unregister c.id).channels i ≠ some o := by
  intro hi
  have hi : Function.update s.channels c.id none i = some o := hi
  rw [Function.update_apply] at hi
  by_cases hid : i = c.id
  · simp [hid] at hi
  · rw [if_neg hid] at hi
    obtain ⟨c', hc', hid', -⟩ := h.table i o hi
    rw [hc] at hc'
    cases hc'
    exact hid hid'.symm

theorem Jvm.Inv.create {s : Jvm} (h : s.Inv) {l : Listener} (hl : l.Fresh) (type : Kind) :
    (s.create type l).Inv := by
  have hsound : (Channel.new s.nextId type l).Sound := by
    refine ⟨by simp [Channel.new], fun cb hcb => ?_⟩
    have hcb : l = .callback cb := hcb
    subst hcb
    rw [show cb = ChannelCallback.new from hl]
    exact Follows.new
  have hget : ∀ (o : Nat) (c : Channel), (s.create type l).heap[o]? = some c →
      s.heap[o]? = some c ∨ c = Channel.new s.nextId type l := by
    intro o c hc
    by_cases ho : o < s.heap.length
    · left
      rwa [Jvm.create, List.getElem?_append_left ho] at hc
    · right
      rw [Jvm.create, List.getElem?_append_right (by omega)] at hc
      simpa using List.mem_of_getElem? hc
  refine ⟨?_, ?_, ?_⟩
  · intro o c hc
    rcases hget o c hc with hc | rfl
    · exact h.sound o c hc
    · exact hsound
  · intro o c hc hr
    rcases hget o c hc with hc | rfl
    · exact h.fresh o c hc hr
    · rfl
  · intro i o hi
    obtain ⟨c, hc, hrest⟩ := h.table i o hi
    refine ⟨c, ?_, hrest⟩
    rw [Jvm.create, List.getElem?_append_left (List.getElem?_eq_some_iff.mp hc).1]
    exact hc

theorem Jvm.Inv.register {s : Jvm} (h : s.Inv) {o : Nat} {c : Channel} (hc : s.heap[o]? = some c)
    (hr : c.registered = false) : (s.register o).Inv := by
  have hget : ∀ o' : Nat, (s.register o).heap[o']? =
      if o' = o then some { c with registered := true } else s.heap[o']? := by
    intro o'
    simp only [Jvm.register, hc]
    show (s.set o fun c => { c with registered := true }).heap[o']? = _
    rw [getElem?_set, hc, Option.map_some]
  have hevents := h.fresh o c hc hr
  refine ⟨?_, ?_, ?_⟩
  · intro o' c' hc'
    rw [hget] at hc'
    by_cases ho : o' = o
    · rw [if_pos ho] at hc'
      cases hc'
      exact ⟨(h.sound o c hc).once, (h.sound o c hc).follows⟩
    · rw [if_neg ho] at hc'
      exact h.sound o' c' hc'
  · intro o' c' hc' hr'
    rw [hget] at hc'
    by_cases ho : o' = o
    · rw [if_pos ho] at hc'
      cases hc'
      cases hr'
    · rw [if_neg ho] at hc'
      exact h.fresh o' c' hc' hr'
  · intro i o' hi
    simp only [Jvm.register, hc, Function.update_apply] at hi
    rw [hget]
    by_cases hid : i = c.id
    · rw [if_pos hid] at hi
      cases hi
      refine ⟨{ c with registered := true }, if_pos rfl, hid.symm, rfl, ?_⟩
      simp [hevents, Ended]
    · rw [if_neg hid] at hi
      have hi : s.channels i = some o' := hi
      obtain ⟨c', hc', hid', hr', he'⟩ := h.table i o' hi
      have ho : o' ≠ o := by
        rintro rfl
        rw [hc] at hc'
        cases hc'
        rw [hr] at hr'
        cases hr'
      rw [if_neg ho]
      exact ⟨c', hc', hid', hr', he'⟩

/-! ### Telling a listener -/

theorem Channel.Sound.congr {c c' : Channel} (h : c.Sound) (he : c'.events = c.events)
    (hl : c'.listener = c.listener) : c'.Sound :=
  ⟨by rw [he]; exact h.once, fun cb hcb => by rw [he]; exact h.follows cb (hl.symm.trans hcb)⟩

theorem Channel.events_tell (c : Channel) (e : Event) :
    (c.tell e).events = c.events ∨ (c.tell e).events = c.events ++ [e] := by
  unfold Channel.tell
  split
  · exact Or.inl rfl
  · exact Or.inr rfl

theorem Channel.Sound.tell {c : Channel} (h : c.Sound) {e : Event}
    (hend : e = .channelEnd → .channelError ∉ c.events)
    (herr : e = .channelError → .channelEnd ∉ c.events) : (c.tell e).Sound := by
  unfold Channel.tell
  by_cases hl : c.listener = .null
  · rw [if_pos hl]
    exact h
  · rw [if_neg hl]
    refine ⟨?_, ?_⟩
    · show ¬ (Event.channelEnd ∈ c.events ++ [e] ∧ Event.channelError ∈ c.events ++ [e])
      simp only [List.mem_append, List.mem_singleton]
      rintro ⟨h1 | h1, h2 | h2⟩
      · exact h.once ⟨h1, h2⟩
      · exact herr h2.symm h1
      · exact hend h1.symm h2
      · rw [← h1] at h2
        cases h2
    · intro cb hcb
      have hcb : c.listener.on e = .callback cb := hcb
      cases hlis : c.listener with
      | null => exact absurd hlis hl
      | audio =>
        rw [hlis] at hcb
        cases hcb
      | callback cb' =>
        rw [hlis] at hcb
        cases hcb
        exact (h.follows cb' hlis).on e

theorem Channel.ended_tell {c : Channel} {e : Event} (h1 : e ≠ .channelEnd)
    (h2 : e ≠ .channelError) : Ended (c.tell e).events → Ended c.events := by
  intro h
  rcases c.events_tell e with he | he
  · rwa [he] at h
  · rw [he, ended_append_singleton] at h
    rcases h with h | h | h
    · exact h
    · exact absurd h h1
    · exact absurd h h2

/-- Headers end nothing. -/
theorem Channel.sound_headers {c : Channel} (h : c.Sound) (hs : List Bytes) :
    (hs.foldl Channel.headerStep c).Sound ∧
      (Ended (hs.foldl Channel.headerStep c).events → Ended c.events) := by
  induction hs generalizing c with
  | nil => exact ⟨h, fun he => he⟩
  | cons hd hs ih =>
    have hstep : (c.headerStep hd).Sound :=
      (h.tell (e := .channelHeader hd) nofun nofun).congr rfl rfl
    refine ⟨(ih hstep).1, fun he => ?_⟩
    exact Channel.ended_tell (e := .channelHeader hd) nofun nofun ((ih hstep).2 he)

theorem Channel.Sound.processHeader {c : Channel} (h : c.Sound) (buf : Bytes) :
    (c.processHeader buf).Sound ∧ (Ended (c.processHeader buf).events → Ended c.events) := by
  obtain ⟨hs, state, heq⟩ := c.processHeader_cases buf
  have hfold := Channel.sound_headers h hs
  rw [heq]
  exact ⟨hfold.1.congr rfl rfl, hfold.2⟩

/-! ### Packets -/

/-- Channel `c'` is channel `c` some calls later, and has been told of no error. -/
structure Later (c c' : Channel) : Prop extends Keeps c c' where
  listener : c'.listener = .null ↔ c.listener = .null
  noError : .channelError ∉ c'.events

theorem Channel.listener_tell (c : Channel) (e : Event) :
    (c.tell e).listener = .null ↔ c.listener = .null := by
  unfold Channel.tell
  by_cases hl : c.listener = .null
  · rw [if_pos hl]
  · rw [if_neg hl]
    cases hlis : c.listener with
    | null => exact absurd hlis hl
    | audio => simp [Listener.on]
    | callback cb => simp [Listener.on]

theorem Later.tell {c c' : Channel} (h : Later c c') {e : Event} (he : e ≠ .channelError) :
    Later c (c'.tell e) where
  toKeeps := h.toKeeps.trans (c'.keeps_tell e)
  listener := (c'.listener_tell e).trans h.listener
  noError := by
    rcases c'.events_tell e with h' | h'
    · rw [h']
      exact h.noError
    · rw [h', List.mem_append, List.mem_singleton]
      rintro (hin | hin)
      · exact h.noError hin
      · exact he hin.symm

/-- The channel at `o` changes and its entry goes. -/
theorem Jvm.Inv.close {s : Jvm} (h : s.Inv) {o : Nat} {c : Channel} {f : Channel → Channel}
    (hc : s.heap[o]? = some c) (hr : c.registered = true) (hf : Keeps c (f c))
    (hs : (f c).Sound) : ((s.set o f).unregister c.id).Inv := by
  have hallowed : ∀ c', (s.unregister c.id).heap[o]? = some c' →
      Allowed (s.unregister c.id) o c' (f c') := by
    intro c' hc'
    have hc' : s.heap[o]? = some c' := hc'
    rw [hc] at hc'
    cases hc'
    refine { hf with sound := hs, fresh := ?_, ended := fun _ => Or.inr (h.unlisted hc) }
    intro hr'
    rw [hr] at hr'
    cases hr'
  have hset := (h.unregister c.id).set hallowed
  exact ⟨hset.sound, hset.fresh, hset.table⟩

/-- A change of `o` that tells its listener no end. -/
theorem Jvm.Inv.change {s : Jvm} (h : s.Inv) {o : Nat} {c : Channel} {f : Channel → Channel}
    (hc : s.heap[o]? = some c) (hr : c.registered = true) (hf : Keeps c (f c))
    (hs : (f c).Sound) (he : Ended (f c).events → Ended c.events) : (s.set o f).Inv := by
  refine h.set fun c' hc' => ?_
  rw [hc] at hc'
  cases hc'
  refine { hf with sound := hs, fresh := ?_, ended := fun h => Or.inl (he h) }
  intro hr'
  rw [hr] at hr'
  cases hr'

/-- `channel.state = STATE_END`, and the listener is told. -/
theorem Jvm.Inv.finish {s : Jvm} (h : s.Inv) {o : Nat} {c c' : Channel}
    (hc : s.heap[o]? = some c') (hr : c.registered = true) (hl : Later c c') :
    ((s.set o fun c => { c with state := .end }).tell o c .channelEnd).Inv := by
  have hr' : c'.registered = true := hl.registered.trans hr
  have hended : (s.set o fun c => { c with state := .end }).Inv :=
    h.change hc hr' ⟨rfl, rfl, rfl⟩ ((h.sound o c' hc).congr rfl rfl) fun he => he
  have hget : (s.set o fun c => { c with state := .end }).heap[o]? =
      some { c' with state := .end } := by
    rw [getElem?_set, if_pos rfl, hc, Option.map_some]
  have hsound := hended.sound o _ hget
  have htold : (({ c' with state := .end } : Channel).tell .channelEnd).Sound :=
    hsound.tell (fun _ => hl.noError) nofun
  by_cases hnull : c.listener = .null
  · have htell : ({ c' with state := .end } : Channel).tell .channelEnd =
        { c' with state := .end } := if_pos (hl.listener.mpr hnull)
    rw [Jvm.tell, if_neg fun h => h.1 hnull]
    refine hended.change hget hr' (Channel.keeps_tell _ _) htold fun he => ?_
    rw [htell] at he
    exact he
  · have hclose := hended.close (f := (Channel.tell · .channelEnd)) hget hr'
      (Channel.keeps_tell _ _) htold
    rw [tell_channelEnd _ o hnull, ← hl.id]
    exact hclose

/-- After the packet itself has been handled, `channel` is some calls later. -/
theorem Jvm.Inv.received {s : Jvm} (h : s.Inv) {o : Nat} {c : Channel} (hc : s.heap[o]? = some c)
    (hr : c.registered = true) (he : ¬ Ended c.events) (data : Bytes) :
    ∃ s1 c1, (if data.length = 0
        then (s.set o fun c => { c with state := .end }).tell o c .channelEnd
        else s.tell o c (.channelData data)) = s1 ∧
      s1.Inv ∧ s1.heap[o]? = some c1 ∧ Later c c1 := by
  have hself : Later c c := ⟨Keeps.refl c, Iff.rfl, fun h => he (Or.inr h)⟩
  by_cases hd : data.length = 0
  · refine ⟨_, ({ c with state := .end } : Channel).tell .channelEnd, if_pos hd,
      h.finish hc hr hself, ?_, ?_⟩
    · rw [heap_tell, getElem?_set, if_pos rfl, getElem?_set, if_pos rfl, hc]
      rfl
    · have hlater : Later c { c with state := .end } := ⟨⟨rfl, rfl, rfl⟩, Iff.rfl, hself.noError⟩
      exact hlater.tell nofun
  · refine ⟨_, c.tell (.channelData data), if_neg hd, ?_, ?_, hself.tell nofun⟩
    · rw [tell_of_ne s o c (e := .channelData data) nofun]
      exact h.change hc hr (c.keeps_tell _) ((h.sound o c hc).tell nofun nofun)
        (Channel.ended_tell nofun nofun)
    · rw [heap_tell, getElem?_set, if_pos rfl, hc, Option.map_some]

theorem Jvm.Inv.processData {s : Jvm} (h : s.Inv) {o : Nat} {c : Channel}
    (hc : s.heap[o]? = some c) (hr : c.registered = true) (he : ¬ Ended c.events)
    (data : Bytes) : (s.processData o c data).Inv := by
  obtain ⟨s1, c1, hs1, h1, hc1, hl1⟩ := h.received hc hr he data
  have hr1 : c1.registered = true := hl1.registered.trans hr
  have h2 : (s1.set o fun c => { c with dataLength := int (c.dataLength + data.length) }).Inv :=
    h1.change hc1 hr1 ⟨rfl, rfl, rfl⟩ ((h1.sound o c1 hc1).congr rfl rfl) fun he => he
  have hl2 : Later c { c1 with dataLength := int (c1.dataLength + data.length) } :=
    ⟨⟨hl1.id, hl1.type, hl1.registered⟩, hl1.listener, hl1.noError⟩
  unfold Jvm.processData
  dsimp only
  rw [hs1]
  by_cases ht : c.type = .aeskey
  · rw [if_pos ht]
    refine h2.finish ?_ hr hl2
    rw [getElem?_set, if_pos rfl, hc1, Option.map_some]
  · rw [if_neg ht]
    exact h2

/-- A payload finds a channel that is registered and has not ended, or none. -/
theorem Jvm.Inv.lookup {s : Jvm} (h : s.Inv) {payload : Bytes} {o : Nat}
    (ho : s.lookup payload = some o) :
    ∃ c, s.heap[o]? = some c ∧ c.registered = true ∧ ¬ Ended c.events := by
  unfold Jvm.lookup at ho
  split at ho
  · obtain ⟨c, hc, -, hr, he⟩ := h.table _ o ho
    exact ⟨c, hc, hr, he⟩
  · cases ho

theorem Jvm.Inv.process {s : Jvm} (h : s.Inv) (payload : Bytes) : (s.process payload).Inv := by
  cases ho : s.lookup payload with
  | none =>
    rw [Jvm.process, ho]
    exact h
  | some o =>
    obtain ⟨c, hc, hr, he⟩ := h.lookup ho
    rw [process_of_lookup ho hc]
    by_cases hs : c.state = .header
    · rw [if_pos hs]
      have hheader := (h.sound o c hc).processHeader (payload.drop 2)
      exact h.change hc hr (c.keeps_processHeader _) hheader.1 hheader.2
    · rw [if_neg hs]
      exact h.processData hc hr he _

theorem Jvm.Inv.error {s : Jvm} (h : s.Inv) (payload : Bytes) : (s.error payload).Inv := by
  cases ho : s.lookup payload with
  | none =>
    rw [Jvm.error, ho]
    exact h
  | some o =>
    obtain ⟨c, hc, hr, he⟩ := h.lookup ho
    have hne : Event.channelError ≠ .channelEnd := by
      intro heq
      cases heq
    rw [error_of_lookup ho hc, tell_of_ne s o c hne]
    exact h.close hc hr (c.keeps_tell _)
      ((h.sound o c hc).tell (fun heq => absurd heq hne) fun _ hmem => he (Or.inl hmem))

theorem Jvm.Inv.step {s s' : Jvm} (h : s.Inv) {e : Step} (hs : s.step e = some s') : s'.Inv := by
  have hcase := Jvm.step_cases hs
  cases e with
  | create type l =>
    obtain ⟨hl, rfl⟩ := hcase
    exact h.create hl type
  | register o =>
    obtain ⟨c, hc, hr, rfl⟩ := hcase
    exact h.register hc hr
  | unregister o =>
    obtain ⟨c, -, rfl⟩ := hcase
    exact h.unregister c.id
  | process payload =>
    rw [hcase]
    exact h.process payload
  | error payload =>
    rw [hcase]
    exact h.error payload
  | getData o w =>
    obtain ⟨c, cb, hc, hl, -, rfl⟩ := hcase
    refine h.set fun c' hc' => ?_
    rw [hc] at hc'
    cases hc'
    have hsound := h.sound o c hc
    refine { id := rfl, type := rfl, registered := rfl, sound := ⟨hsound.once, ?_⟩,
             fresh := h.fresh o c hc, ended := Or.inl }
    intro cb' hcb'
    cases hcb'
    exact (hsound.follows cb hl).taken w

theorem Jvm.Inv.run {s s' : Jvm} (h : s.Inv) {es : List Step} (hs : s.run es = some s') :
    s'.Inv := by
  induction es generalizing s with
  | nil =>
    cases hs
    exact h
  | cons e es ih =>
    obtain ⟨s1, h1, h2⟩ := Option.bind_eq_some_iff.mp hs
    exact ih (h.step h1) h2

theorem Jvm.Reachable.inv {s : Jvm} (h : s.Reachable) : s.Inv := by
  obtain ⟨es, hes⟩ := h
  exact Jvm.Inv.start.run hes

/-! ## What `getData` returns -/

/-- A normal return means that the channel ended, without error, and returns all
of its data. -/
def Complete (es : List Event) (r : Except Thrown Bytes) : Prop :=
  ∀ data, r = .ok data → .channelEnd ∈ es ∧ .channelError ∉ es ∧ data = (chunks es).flatten

/-- **`getData` keeps its promise unless the channel failed or the wait was
interrupted.** -/
theorem getData_complete_iff {s : Jvm} (hs : s.Reachable) {o : Nat} {c : Channel}
    (hc : s.heap[o]? = some c) {cb : ChannelCallback} (hl : c.listener = .callback cb) {w : Wait}
    (hw : w.Enabled cb) :
    Complete c.events (cb.getData w) ↔
      w = .timeout ∨ 2 ^ 31 ≤ size c.events ∨
        .channelError ∉ c.events ∧ (w = .interrupted → .channelEnd ∈ c.events) := by
  have hsound := hs.inv.sound o c hc
  have hfollows := hsound.follows cb hl
  by_cases htimeout : w = .timeout
  · refine ⟨fun _ => Or.inl htimeout, fun _ data hdata => ?_⟩
    rw [ChannelCallback.getData, if_pos htimeout] at hdata
    cases hdata
  by_cases hsize : 2 ^ 31 ≤ size c.events
  · obtain ⟨t, ht⟩ := hfollows.getData_error (w := w) hsize
    refine ⟨fun _ => Or.inr (Or.inl hsize), fun _ data hdata => ?_⟩
    rw [ht] at hdata
    cases hdata
  · have hdata := hfollows.getData htimeout (Nat.lt_of_not_le hsize)
    constructor
    · intro h
      obtain ⟨hend, herr, -⟩ := h _ hdata
      exact Or.inr (Or.inr ⟨herr, fun _ => hend⟩)
    · rintro (h | h | ⟨herr, hend⟩)
      · exact absurd h htimeout
      · exact absurd h hsize
      · have hended : .channelEnd ∈ c.events := by
          cases w with
          | acquired => exact (hfollows.done hw).resolve_right herr
          | timeout => exact absurd rfl htimeout
          | interrupted => exact hend rfl
        intro data hok
        rw [hdata] at hok
        cases hok
        exact ⟨hended, herr, rfl⟩

/-- A channel of a search, four bytes of its reply, then an error. -/
def failedReply : List Step :=
  [.create .search (.callback .new), .register 0, .process [0, 0, 0, 0],
    .process [0, 0, 1, 2, 3, 4], .error [0, 0]]

/-- The channel after `failedReply`. -/
def failed : Channel where
  id := 0
  state := .data
  type := .search
  headerLength := 0
  dataLength := 4
  listener := .callback ⟨1, [[1, 2, 3, 4]], 4⟩
  registered := true
  events := [.channelData [1, 2, 3, 4], .channelError]

theorem heap_failedReply :
    (Jvm.start.run failedReply).map Jvm.heap = some [failed] := by
  decide +kernel

theorem failedReply_run : ∃ s, Jvm.start.run failedReply = some s ∧ s.heap[0]? = some failed := by
  obtain ⟨s, hs, hheap⟩ := Option.map_eq_some_iff.mp heap_failedReply
  exact ⟨s, hs, by rw [hheap]; rfl⟩

/-- **The bytes before an error are returned as the reply.** -/
theorem failedReply_returned :
    ∃ s cb, Jvm.start.run failedReply = some s ∧ s.heap[0]? = some failed ∧
      failed.listener = .callback cb ∧ Wait.acquired.Enabled cb ∧
      cb.getData .acquired = .ok [1, 2, 3, 4] ∧
      ¬ Complete failed.events (cb.getData .acquired) := by
  obtain ⟨s, hs, hget⟩ := failedReply_run
  refine ⟨s, _, hs, hget, rfl, by decide, by decide, fun h => ?_⟩
  exact absurd (h [1, 2, 3, 4] (by decide)).1 (by decide)

theorem getData_complete_iff_failed :
    Complete failed.events (ChannelCallback.getData ⟨1, [[1, 2, 3, 4]], 4⟩ .acquired) ↔
      Wait.acquired = .timeout ∨ 2 ^ 31 ≤ size failed.events ∨
        .channelError ∉ failed.events ∧
          (Wait.acquired = .interrupted → .channelEnd ∈ failed.events) := by
  obtain ⟨s, hs, hget⟩ := failedReply_run
  exact getData_complete_iff ⟨failedReply, hs⟩ hget rfl (by decide)

end Despotify.Java

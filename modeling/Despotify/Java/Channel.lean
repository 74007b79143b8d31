import Mathlib.Data.List.Basic
import Mathlib.Logic.Function.Basic
import Despotify.Channel.Headers
import Mathlib.Algebra.Group.Nat.Defs
import Mathlib.Algebra.Group.Int.Defs

/-!
# The channels of the Java client

`Channel` with its static table, `ChannelCallback`, and the packets that
`ConnectionImpl` hands to them.  A `Jvm` is the static state of the class and
the heap of `Channel` objects in the order of their construction; a channel is
referred to by its place on that heap.  `int` fields are integers wrapped to 32
bits by `Int.bmod`.

`Channel.events` (what the listener was told, oldest first), `Channel.registered`
and `Jvm.live` (the channels whose entry has not been removed, newest first)
are history and read by nothing the code computes.

    headerLoop c buf = (fold of headerStep over splitHeaders buf, exit)   (headerLoop_eq)
    a packet changes no channel but the one it selects                    (frame_process)
-/

namespace Despotify.Java

open Channels (LoopExit splitHeaders)

abbrev Bytes := List UInt8

/-- The value of an `int` after arithmetic. -/
def int (n : Int) : Int := n.bmod (2 ^ 32)

/-- `(short) i`, as `ByteBuffer.putShort` writes it. -/
def putShort (i : Int) : Bytes := htons (i % 65536).toNat

/-! ## Listeners -/

/-- The calls on a `ChannelListener`. -/
inductive Event
  | channelHeader (header : Bytes)
  | channelData (data : Bytes)
  | channelEnd
  | channelError
  deriving DecidableEq, Repr

/-- `ChannelCallback`: `done` is the number of permits of the semaphore. -/
structure ChannelCallback where
  done : Nat
  buffers : List Bytes
  bytes : Int
  deriving DecidableEq, Repr

/-- The constructor; the one permit is taken at once. -/
def ChannelCallback.new : ChannelCallback := ⟨0, [], 0⟩

/-- What a `ChannelCallback` does on a call, `Channel.unregister` apart. -/
def ChannelCallback.on (cb : ChannelCallback) : Event → ChannelCallback
  | .channelHeader _ => cb
  | .channelData data =>
    { cb with bytes := int (cb.bytes + data.length), buffers := cb.buffers ++ [data] }
  | .channelEnd => { cb with done := cb.done + 1 }
  | .channelError => { cb with done := cb.done + 1 }

/-- The listener of a channel: none, a callback, or one of the audio listeners,
of which only the call of `Channel.unregister` matters here. -/
inductive Listener
  | null
  | callback (cb : ChannelCallback)
  | audio
  deriving DecidableEq, Repr

def Listener.on (e : Event) : Listener → Listener
  | .null => .null
  | .callback cb => .callback (cb.on e)
  | .audio => .audio

/-! ## Channels -/

inductive State
  | header
  | data
  | «end»
  | error
  deriving DecidableEq, Repr

inductive Kind
  | ad
  | image
  | search
  | aeskey
  | substream
  | browse
  | playlist
  deriving DecidableEq, Repr

structure Channel where
  id : Int
  state : State
  type : Kind
  headerLength : Int
  dataLength : Int
  listener : Listener
  registered : Bool
  events : List Event
  deriving DecidableEq, Repr

/-- The constructor, with the id it has drawn. -/
def Channel.new (id : Int) (type : Kind) (listener : Listener) : Channel where
  id := id
  state := if type = .aeskey then .data else .header
  type := type
  headerLength := 0
  dataLength := 0
  listener := listener
  registered := false
  events := []

/-- `if (channel.listener != null) channel.listener.e (channel)`. -/
def Channel.tell (c : Channel) (e : Event) : Channel :=
  if c.listener = .null then c
  else { c with listener := c.listener.on e, events := c.events ++ [e] }

/-- One header of the loop. -/
def Channel.headerStep (c : Channel) (header : Bytes) : Channel :=
  { c.tell (.channelHeader header) with headerLength := int (c.headerLength + header.length) }

/-- The loop over the headers behind `offset`; `shortRead` is the
`ArrayIndexOutOfBoundsException` on a single byte. -/
def headerLoop (c : Channel) : Bytes → Channel × LoopExit
  | [] => (c, .consumed)
  | [_] => (c, .shortRead)
  | a :: b :: rest =>
    if ntohs a b = 0 then (c, .zero rest.length)
    else if rest.length < ntohs a b then (c, .notEnough)
    else headerLoop (c.headerStep (rest.take (ntohs a b))) (rest.drop (ntohs a b))
termination_by buf => buf.length
decreasing_by exact Channels.length_drop_lt a b rest _

/-- `process` in the header state. -/
def Channel.processHeader (c : Channel) (buf : Bytes) : Channel :=
  if buf.length < 2 then c
  else
    match headerLoop c buf with
    | (c, .zero 0) => { c with state := .data }
    | (c, _) => c

/-! ## The static state -/

structure Jvm where
  nextId : Int
  heap : List Channel
  channels : Int → Option Nat
  live : List Nat

def Jvm.start : Jvm := ⟨0, [], fun _ => none, []⟩

def Jvm.idOf (s : Jvm) (o : Nat) : Option Int := s.heap[o]?.map Channel.id

def Jvm.set (s : Jvm) (o : Nat) (f : Channel → Channel) : Jvm :=
  { s with heap := s.heap.modify o f }

/-- `new Channel (…)`. -/
def Jvm.create (s : Jvm) (type : Kind) (listener : Listener) : Jvm :=
  { s with nextId := int (s.nextId + 1), heap := s.heap ++ [Channel.new s.nextId type listener] }

/-- `Channel.register`. -/
def Jvm.register (s : Jvm) (o : Nat) : Jvm :=
  match s.heap[o]? with
  | none => s
  | some c =>
    { s.set o fun c => { c with registered := true } with
      channels := Function.update s.channels c.id (some o)
      live := o :: s.live }

/-- `Channel.unregister`. -/
def Jvm.unregister (s : Jvm) (id : Int) : Jvm :=
  { s with
    channels := Function.update s.channels id none
    live := s.live.filter fun o => s.idOf o ≠ some id }

/-- A call of the listener; `channelEnd` of every listener unregisters. -/
def Jvm.tell (s : Jvm) (o : Nat) (c : Channel) (e : Event) : Jvm :=
  let s' := s.set o (Channel.tell · e)
  if c.listener ≠ .null ∧ e = .channelEnd then s'.unregister c.id else s'

/-- `process` in the data state: `data` is the payload behind the id. -/
def Jvm.processData (s : Jvm) (o : Nat) (c : Channel) (data : Bytes) : Jvm :=
  let s1 :=
    if data.length = 0 then (s.set o fun c => { c with state := .end }).tell o c .channelEnd
    else s.tell o c (.channelData data)
  let s2 := s1.set o fun c => { c with dataLength := int (c.dataLength + data.length) }
  if c.type = .aeskey then (s2.set o fun c => { c with state := .end }).tell o c .channelEnd
  else s2

/-- The channel the first two bytes of a payload select. -/
def Jvm.lookup (s : Jvm) : Bytes → Option Nat
  | a :: b :: _ => s.channels (ntohs a b)
  | _ => none

/-- `Channel.process`.  A payload of less than two bytes raises an exception. -/
def Jvm.process (s : Jvm) (payload : Bytes) : Jvm :=
  match s.lookup payload with
  | none => s
  | some o =>
    match s.heap[o]? with
    | none => s
    | some c =>
      if c.state = .header then s.set o (Channel.processHeader · (payload.drop 2))
      else s.processData o c (payload.drop 2)

/-- `Channel.error`. -/
def Jvm.error (s : Jvm) (payload : Bytes) : Jvm :=
  match s.lookup payload with
  | none => s
  | some o =>
    match s.heap[o]? with
    | none => s
    | some c => (s.tell o c .channelError).unregister c.id

/-! ## Waiting for the reply -/

/-- What `tryAcquire` does: `true`, `false`, or an `InterruptedException`. -/
inductive Wait
  | acquired
  | timeout
  | interrupted
  deriving DecidableEq, Repr

def Wait.Enabled (cb : ChannelCallback) : Wait → Prop
  | .acquired => 0 < cb.done
  | .timeout => cb.done = 0
  | .interrupted => True

instance (cb : ChannelCallback) : (w : Wait) → Decidable (w.Enabled cb)
  | .acquired => inferInstanceAs (Decidable (0 < cb.done))
  | .timeout => inferInstanceAs (Decidable (cb.done = 0))
  | .interrupted => inferInstanceAs (Decidable True)

/-- What `getData` throws. -/
inductive Thrown
  | timeoutException
  | illegalArgumentException
  | bufferOverflowException
  deriving DecidableEq, Repr

/-- `data.put (b)` for every buffer; `done` is what `data` holds so far. -/
def putAll (capacity : Nat) (written : Bytes) : List Bytes → Except Thrown Bytes
  | [] => .ok (written ++ List.replicate (capacity - written.length) 0)
  | b :: bs =>
    if capacity < written.length + b.length then .error .bufferOverflowException
    else putAll capacity (written ++ b) bs

/-- `getData`.  An interrupt is logged and the method goes on. -/
def ChannelCallback.getData (cb : ChannelCallback) (w : Wait) : Except Thrown Bytes :=
  if w = .timeout then .error .timeoutException
  else if cb.bytes < 0 then .error .illegalArgumentException
  else putAll cb.bytes.toNat [] cb.buffers

/-- The permit that `getData` takes. -/
def ChannelCallback.taken (cb : ChannelCallback) (w : Wait) : ChannelCallback :=
  if w = .acquired then { cb with done := cb.done - 1 } else cb

/-! ## Runs -/

/-- What happens to the channels: a command creates and registers one and waits
for its data, a packet arrives, or a listener of the cache unregisters. -/
inductive Step
  | create (type : Kind) (listener : Listener)
  | register (o : Nat)
  | unregister (o : Nat)
  | process (payload : Bytes)
  | error (payload : Bytes)
  | getData (o : Nat) (w : Wait)
  deriving DecidableEq, Repr

/-- A fresh listener: a callback belongs to one channel. -/
def Listener.Fresh : Listener → Prop
  | .callback cb => cb = ChannelCallback.new
  | _ => True

instance : (l : Listener) → Decidable l.Fresh
  | .null => inferInstanceAs (Decidable True)
  | .callback cb => inferInstanceAs (Decidable (cb = ChannelCallback.new))
  | .audio => inferInstanceAs (Decidable True)

/-- A channel is registered once, by the command that made it. -/
def Jvm.step (s : Jvm) : Step → Option Jvm
  | .create type listener => if listener.Fresh then some (s.create type listener) else none
  | .register o =>
    match s.heap[o]? with
    | none => none
    | some c => if c.registered then none else some (s.register o)
  | .unregister o =>
    match s.heap[o]? with
    | none => none
    | some c => some (s.unregister c.id)
  | .process payload => some (s.process payload)
  | .error payload => some (s.error payload)
  | .getData o w =>
    match s.heap[o]? with
    | none => none
    | some c =>
      match c.listener with
      | .callback cb =>
        if w.Enabled cb then
          some (s.set o fun c => { c with listener := .callback (cb.taken w) })
        else none
      | _ => none

def Jvm.run (s : Jvm) : List Step → Option Jvm
  | [] => some s
  | e :: es => (s.step e).bind fun s' => s'.run es

/-- What one step can do. -/
theorem Jvm.step_cases {s s' : Jvm} {e : Step} (h : s.step e = some s') :
    match e with
    | .create type l => l.Fresh ∧ s' = s.create type l
    | .register o => ∃ c, s.heap[o]? = some c ∧ c.registered = false ∧ s' = s.register o
    | .unregister o => ∃ c, s.heap[o]? = some c ∧ s' = s.unregister c.id
    | .process payload => s' = s.process payload
    | .error payload => s' = s.error payload
    | .getData o w => ∃ c cb, s.heap[o]? = some c ∧ c.listener = .callback cb ∧ w.Enabled cb ∧
        s' = s.set o fun c => { c with listener := .callback (cb.taken w) } := by
  cases e with
  | create type l =>
    rw [Jvm.step, Option.ite_none_right_eq_some] at h
    exact ⟨h.1, (Option.some.inj h.2).symm⟩
  | register o =>
    rw [Jvm.step] at h
    cases hc : s.heap[o]? with
    | none => simp [hc] at h
    | some c =>
      simp only [hc, Option.ite_none_left_eq_some] at h
      exact ⟨c, hc, by simpa using h.1, (Option.some.inj h.2).symm⟩
  | unregister o =>
    rw [Jvm.step] at h
    cases hc : s.heap[o]? with
    | none => simp [hc] at h
    | some c =>
      simp only [hc] at h
      exact ⟨c, hc, (Option.some.inj h).symm⟩
  | process payload => exact (Option.some.inj h).symm
  | error payload => exact (Option.some.inj h).symm
  | getData o w =>
    rw [Jvm.step] at h
    cases hc : s.heap[o]? with
    | none => simp [hc] at h
    | some c =>
      simp only [hc] at h
      cases hl : c.listener with
      | callback cb =>
        simp only [hl, Option.ite_none_right_eq_some] at h
        exact ⟨c, cb, hc, hl, h.1, (Option.some.inj h.2).symm⟩
      | null => simp [hl] at h
      | audio => simp [hl] at h

/-- The states of a JVM. -/
def Jvm.Reachable (s : Jvm) : Prop := ∃ es, Jvm.start.run es = some s

/-! ## Lemmas -/

/-- **The loop of `process` is a fold over the headers.** -/
theorem headerLoop_eq (c : Channel) (buf : Bytes) :
    headerLoop c buf = ((splitHeaders buf).1.foldl Channel.headerStep c, (splitHeaders buf).2) := by
  induction buf using Despotify.Channels.splitHeaders.induct generalizing c with
  | case1 => rw [headerLoop, splitHeaders]; rfl
  | case2 b => rw [headerLoop, splitHeaders]; rfl
  | case3 a b ptr h => rw [headerLoop, splitHeaders, if_pos h, if_pos h]; rfl
  | case4 a b ptr h h' =>
    rw [headerLoop, splitHeaders, if_neg h, if_neg h, if_pos h', if_pos h']; rfl
  | case5 a b ptr h h' ih =>
    rw [headerLoop, splitHeaders, if_neg h, if_neg h, if_neg h', if_neg h', ih]; rfl

/-- A change of one channel that leaves alone what the table depends on. -/
structure Keeps (c c' : Channel) : Prop where
  id : c'.id = c.id
  type : c'.type = c.type
  registered : c'.registered = c.registered

theorem Keeps.refl (c : Channel) : Keeps c c := ⟨rfl, rfl, rfl⟩

theorem Keeps.trans {c c' c'' : Channel} (h : Keeps c c') (h' : Keeps c' c'') : Keeps c c'' :=
  ⟨h'.id.trans h.id, h'.type.trans h.type, h'.registered.trans h.registered⟩

theorem Channel.keeps_tell (c : Channel) (e : Event) : Keeps c (c.tell e) := by
  unfold Channel.tell
  split <;> exact ⟨rfl, rfl, rfl⟩

theorem Channel.keeps_headerStep (c : Channel) (h : Bytes) : Keeps c (c.headerStep h) :=
  (c.keeps_tell (.channelHeader h)).trans ⟨rfl, rfl, rfl⟩

theorem keeps_foldl (c : Channel) (hs : List Bytes) : Keeps c (hs.foldl Channel.headerStep c) := by
  induction hs generalizing c with
  | nil => exact Keeps.refl c
  | cons h hs ih => exact (c.keeps_headerStep h).trans (ih _)

theorem Channel.processHeader_cases (c : Channel) (buf : Bytes) :
    ∃ (hs : List Bytes) (state : State),
      c.processHeader buf = { hs.foldl Channel.headerStep c with state := state } := by
  unfold Channel.processHeader
  by_cases h : buf.length < 2
  · rw [if_pos h]
    exact ⟨[], c.state, rfl⟩
  · rw [if_neg h, headerLoop_eq]
    obtain ⟨hs, exit⟩ := splitHeaders buf
    refine ⟨hs, ?_⟩
    match exit with
    | .zero 0 => exact ⟨.data, rfl⟩
    | .zero (_ + 1) => exact ⟨_, rfl⟩
    | .consumed => exact ⟨_, rfl⟩
    | .shortRead => exact ⟨_, rfl⟩
    | .notEnough => exact ⟨_, rfl⟩

theorem Channel.keeps_processHeader (c : Channel) (buf : Bytes) :
    Keeps c (c.processHeader buf) := by
  obtain ⟨hs, state, h⟩ := c.processHeader_cases buf
  rw [h]
  exact (keeps_foldl c hs).trans ⟨rfl, rfl, rfl⟩

/-! ### The heap -/

theorem getElem?_set (s : Jvm) (o : Nat) (f : Channel → Channel) (o' : Nat) :
    (s.set o f).heap[o']? = if o' = o then s.heap[o]?.map f else s.heap[o']? := by
  unfold Jvm.set
  rw [List.getElem?_modify]
  by_cases h : o' = o
  · subst h
    simp
  · simp [h, Ne.symm h]

@[simp] theorem length_set (s : Jvm) (o : Nat) (f : Channel → Channel) :
    (s.set o f).heap.length = s.heap.length := List.length_modify ..

@[simp] theorem channels_set (s : Jvm) (o : Nat) (f : Channel → Channel) :
    (s.set o f).channels = s.channels := rfl

@[simp] theorem live_set (s : Jvm) (o : Nat) (f : Channel → Channel) :
    (s.set o f).live = s.live := rfl

@[simp] theorem nextId_set (s : Jvm) (o : Nat) (f : Channel → Channel) :
    (s.set o f).nextId = s.nextId := rfl

@[simp] theorem heap_unregister (s : Jvm) (id : Int) : (s.unregister id).heap = s.heap := rfl

@[simp] theorem nextId_unregister (s : Jvm) (id : Int) :
    (s.unregister id).nextId = s.nextId := rfl

theorem heap_tell (s : Jvm) (o : Nat) (c : Channel) (e : Event) :
    (s.tell o c e).heap = (s.set o (Channel.tell · e)).heap := by
  unfold Jvm.tell
  dsimp only
  split <;> rfl

theorem tell_channelEnd (s : Jvm) (o : Nat) {c : Channel} (h : c.listener ≠ .null) :
    s.tell o c .channelEnd = (s.set o (Channel.tell · .channelEnd)).unregister c.id :=
  if_pos ⟨h, rfl⟩

theorem tell_of_ne (s : Jvm) (o : Nat) (c : Channel) {e : Event} (h : e ≠ .channelEnd) :
    s.tell o c e = s.set o (Channel.tell · e) :=
  if_neg fun hc => h hc.2

theorem length_tell (s : Jvm) (o : Nat) (c : Channel) (e : Event) :
    (s.tell o c e).heap.length = s.heap.length := by
  rw [heap_tell, length_set]

theorem length_processData (s : Jvm) (o : Nat) (c : Channel) (data : Bytes) :
    (s.processData o c data).heap.length = s.heap.length := by
  unfold Jvm.processData
  dsimp only
  by_cases ht : c.type = .aeskey
  · rw [if_pos ht, length_tell, length_set, length_set]
    by_cases hd : data.length = 0
    · rw [if_pos hd, length_tell, length_set]
    · rw [if_neg hd, length_tell]
  · rw [if_neg ht, length_set]
    by_cases hd : data.length = 0
    · rw [if_pos hd, length_tell, length_set]
    · rw [if_neg hd, length_tell]

/-- Nothing but the channel told changes on the heap. -/
theorem frame_set (s : Jvm) {o o' : Nat} (f : Channel → Channel) (h : o' ≠ o) :
    (s.set o f).heap[o']? = s.heap[o']? := by
  rw [getElem?_set, if_neg h]

theorem frame_tell (s : Jvm) {o o' : Nat} (c : Channel) (e : Event) (h : o' ≠ o) :
    (s.tell o c e).heap[o']? = s.heap[o']? := by
  rw [heap_tell, frame_set s _ h]

theorem frame_processData (s : Jvm) {o o' : Nat} (c : Channel) (data : Bytes) (h : o' ≠ o) :
    (s.processData o c data).heap[o']? = s.heap[o']? := by
  have hend : ∀ s : Jvm, ((s.set o fun c => { c with state := .end }).tell o c
      .channelEnd).heap[o']? = s.heap[o']? := fun s => by
    rw [frame_tell _ c _ h, frame_set s _ h]
  unfold Jvm.processData
  dsimp only
  by_cases ht : c.type = .aeskey
  · rw [if_pos ht, hend, frame_set _ _ h]
    by_cases hd : data.length = 0
    · rw [if_pos hd, hend]
    · rw [if_neg hd, frame_tell s c _ h]
  · rw [if_neg ht, frame_set _ _ h]
    by_cases hd : data.length = 0
    · rw [if_pos hd, hend]
    · rw [if_neg hd, frame_tell s c _ h]

/-- A packet changes no channel but the one its first two bytes select. -/
theorem frame_process (s : Jvm) {payload : Bytes} {o' : Nat} (h : s.lookup payload ≠ some o') :
    (s.process payload).heap[o']? = s.heap[o']? := by
  unfold Jvm.process
  cases ho : s.lookup payload with
  | none => rfl
  | some o =>
    have hne : o' ≠ o := fun he => h (he ▸ ho)
    dsimp only
    cases hc : s.heap[o]? with
    | none => rfl
    | some c =>
      dsimp only
      split
      · exact frame_set s _ hne
      · exact frame_processData s c _ hne

theorem process_of_lookup {s : Jvm} {payload : Bytes} {o : Nat} {c : Channel}
    (h : s.lookup payload = some o) (hc : s.heap[o]? = some c) :
    s.process payload =
      if c.state = .header then s.set o (Channel.processHeader · (payload.drop 2))
      else s.processData o c (payload.drop 2) := by
  simp only [Jvm.process, h, hc]

theorem error_of_lookup {s : Jvm} {payload : Bytes} {o : Nat} {c : Channel}
    (h : s.lookup payload = some o) (hc : s.heap[o]? = some c) :
    s.error payload = (s.tell o c .channelError).unregister c.id := by
  simp only [Jvm.error, h, hc]

theorem lookup_putShort (s : Jvm) (i : Int) (body : Bytes) :
    s.lookup (putShort i ++ body) = s.channels (i % 65536) := by
  show s.channels (ntohs _ _ : Nat) = _
  rw [ntohs_htons]
  congr 1
  omega

end Despotify.Java

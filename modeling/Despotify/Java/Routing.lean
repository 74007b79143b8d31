import Mathlib.Data.List.Find
import Despotify.Java.Channel
import Despotify.Pool.Keyed

/-!
# Java: whose channel a reply finds

The id of a channel is the `int` counter at its construction, and it is what
the table is keyed by; on the wire it is a `short`.  The table therefore finds
a channel by its reply only while the id has 16 bits:

    Reachable s → heap[o] = c →
      (Dispatched s o (putShort c.id ++ body) ↔
        (0 ≤ c.id ∧ c.id < 65536) ∧ Newest s o c)               (dispatched_iff)

After 65536 channels, one alive at a time, the next one gets no reply
(`sixteenBits_exhausted`).
-/

namespace Despotify.Java

/-- The table is the newest live channel for each id, and ids are drawn in the
order of construction. -/
structure Jvm.WF (s : Jvm) : Prop where
  nextId : s.nextId = int s.heap.length
  id : ∀ (o : Nat) (c : Channel), s.heap[o]? = some c → c.id = int o
  live : ∀ o ∈ s.live, o < s.heap.length
  table : ∀ i, s.channels i = Keyed.find (fun o : Nat => int o) i s.live

theorem int_int_add (n : Int) : int (int n + 1) = int (n + 1) := by
  simp [int]

theorem int_of_lt {n : Nat} (h : n < 2 ^ 31) : int n = n := by
  rw [int, Int.bmod_eq_of_le] <;> omega

theorem Jvm.WF.start : Jvm.start.WF where
  nextId := by simp [Jvm.start, int]
  id := by simp [Jvm.start]
  live := by simp [Jvm.start]
  table := fun _ => rfl

theorem Jvm.WF.idOf {s : Jvm} (h : s.WF) {o : Nat} (ho : o < s.heap.length) :
    s.idOf o = some (int o) := by
  have hc := List.getElem?_eq_getElem ho
  rw [Jvm.idOf, hc, Option.map_some, h.id o _ hc]

/-! ## One step -/

theorem Jvm.WF.set {s : Jvm} (h : s.WF) (o : Nat) {f : Channel → Channel}
    (hf : ∀ c, (f c).id = c.id) : (s.set o f).WF where
  nextId := by rw [nextId_set, length_set]; exact h.nextId
  id := by
    intro o' c' hc'
    rw [getElem?_set] at hc'
    by_cases ho : o' = o
    · rw [if_pos ho] at hc'
      obtain ⟨c, hc, rfl⟩ := Option.map_eq_some_iff.mp hc'
      rw [hf, ho]
      exact h.id o c hc
    · rw [if_neg ho] at hc'
      exact h.id o' c' hc'
  live := by simpa using h.live
  table := h.table

theorem Jvm.WF.create {s : Jvm} (h : s.WF) (type : Kind) (l : Listener) :
    (s.create type l).WF where
  nextId := by
    show int (s.nextId + 1) = int ((s.heap ++ [Channel.new s.nextId type l]).length : Nat)
    rw [h.nextId, int_int_add, List.length_append, List.length_singleton]
    rfl
  id := by
    intro o c hc
    show c.id = _
    have hc : (s.heap ++ [Channel.new s.nextId type l])[o]? = some c := hc
    rcases Nat.lt_trichotomy o s.heap.length with ho | ho | ho
    · rw [List.getElem?_append_left ho] at hc
      exact h.id o c hc
    · subst ho
      rw [List.getElem?_concat_length] at hc
      cases hc
      exact h.nextId
    · rw [List.getElem?_eq_none (by simp; omega)] at hc
      cases hc
  live := by
    intro o ho
    have := h.live o ho
    simp only [Jvm.create, List.length_append, List.length_singleton]
    omega
  table := h.table

theorem Jvm.WF.register {s : Jvm} (h : s.WF) (o : Nat) : (s.register o).WF := by
  unfold Jvm.register
  cases hc : s.heap[o]? with
  | none => exact h
  | some c =>
    have hset := h.set o (f := fun c => { c with registered := true }) fun _ => rfl
    refine ⟨?_, hset.id, ?_, ?_⟩
    · show s.nextId = int ((s.set o fun c => { c with registered := true }).heap.length : Nat)
      rw [length_set]
      exact h.nextId
    · intro o' ho'
      rcases List.mem_cons.mp ho' with rfl | ho'
      · rw [length_set]
        exact (List.getElem?_eq_some_iff.mp hc).1
      · exact hset.live o' ho'
    · intro i
      show Function.update s.channels c.id (some o) i = Keyed.find _ i (o :: s.live)
      rw [Keyed.find_cons, Function.update_apply, h.id o c hc, h.table i]
      by_cases hi : i = int o
      · rw [if_pos hi, if_pos hi.symm]
      · rw [if_neg hi, if_neg (Ne.symm hi)]

theorem Jvm.WF.live_unregister {s : Jvm} (h : s.WF) (id : Int) :
    (s.unregister id).live = s.live.filter fun o : Nat => int o ≠ id := by
  refine List.filter_congr fun o ho => ?_
  rw [h.idOf (h.live o ho)]
  simp

theorem Jvm.WF.unregister {s : Jvm} (h : s.WF) (id : Int) : (s.unregister id).WF where
  nextId := h.nextId
  id := h.id
  live := fun o ho => h.live o (List.mem_of_mem_filter ho)
  table := by
    intro i
    show Function.update s.channels id none i = _
    rw [Function.update_apply, h.live_unregister, Keyed.find_filter_ne, h.table i]

theorem Jvm.WF.tell {s : Jvm} (h : s.WF) (o : Nat) (c : Channel) (e : Event) :
    (s.tell o c e).WF := by
  have hset := h.set o fun c => (c.keeps_tell e).id
  unfold Jvm.tell
  dsimp only
  split
  · exact hset.unregister c.id
  · exact hset

theorem Jvm.WF.processData {s : Jvm} (h : s.WF) (o : Nat) (c : Channel) (data : Bytes) :
    (s.processData o c data).WF := by
  have hend : ∀ {s : Jvm}, s.WF → ((s.set o fun c => { c with state := .end }).tell o c
      .channelEnd).WF := by
    intro s h
    have hset := h.set o (f := fun c => { c with state := .end }) fun _ => rfl
    exact hset.tell o c _
  have h1 : (if data.length = 0
      then (s.set o fun c => { c with state := .end }).tell o c .channelEnd
      else s.tell o c (.channelData data)).WF := by
    split
    · exact hend h
    · exact h.tell o c _
  have h2 := h1.set o (f := fun c => { c with dataLength := int (c.dataLength + data.length) })
    fun _ => rfl
  unfold Jvm.processData
  dsimp only
  split
  · exact hend h2
  · exact h2

theorem Jvm.WF.process {s : Jvm} (h : s.WF) (payload : Bytes) : (s.process payload).WF := by
  unfold Jvm.process
  split
  · exact h
  · split
    · exact h
    · split
      · exact h.set _ fun c => (c.keeps_processHeader _).id
      · exact h.processData _ _ _

theorem Jvm.WF.error {s : Jvm} (h : s.WF) (payload : Bytes) : (s.error payload).WF := by
  unfold Jvm.error
  split
  · exact h
  · split
    · exact h
    · exact (h.tell _ _ _).unregister _

theorem Jvm.WF.step {s s' : Jvm} (h : s.WF) {e : Step} (hs : s.step e = some s') : s'.WF := by
  have hcase := Jvm.step_cases hs
  cases e with
  | create type l =>
    obtain ⟨-, rfl⟩ := hcase
    exact h.create type l
  | register o =>
    obtain ⟨c, -, -, rfl⟩ := hcase
    exact h.register o
  | unregister o =>
    obtain ⟨c, -, rfl⟩ := hcase
    exact h.unregister c.id
  | process payload =>
    rw [hcase]
    exact h.process payload
  | error payload =>
    rw [hcase]
    exact h.error payload
  | getData o w =>
    obtain ⟨c, cb, -, -, -, rfl⟩ := hcase
    exact h.set o fun _ => rfl

theorem Jvm.WF.run {s s' : Jvm} (h : s.WF) {es : List Step} (hs : s.run es = some s') :
    s'.WF := by
  induction es generalizing s with
  | nil =>
    cases hs
    exact h
  | cons e es ih =>
    obtain ⟨s1, h1, h2⟩ := Option.bind_eq_some_iff.mp hs
    exact ih (h.step h1) h2

theorem Jvm.Reachable.wf {s : Jvm} (h : s.Reachable) : s.WF := by
  obtain ⟨es, hes⟩ := h
  exact Jvm.WF.start.run hes

/-! ## The reply of a channel -/

/-- The payload goes to channel `o` and to no other. -/
def Dispatched (s : Jvm) (o : Nat) (payload : Bytes) : Prop :=
  s.lookup payload = some o ∧ ∀ o' ≠ o, (s.process payload).heap[o']? = s.heap[o']?

/-- No channel with the id of `o` was registered or unregistered after `o`. -/
def Newest (s : Jvm) (o : Nat) (c : Channel) : Prop :=
  s.live.find? (fun o' => s.idOf o' = some c.id) = some o

theorem dispatched_iff_lookup (s : Jvm) (o : Nat) (payload : Bytes) :
    Dispatched s o payload ↔ s.lookup payload = some o := by
  refine ⟨fun h => h.1, fun h => ⟨h, fun o' ho' => ?_⟩⟩
  refine frame_process s ?_
  rw [h]
  exact fun he => ho' (Option.some.inj he).symm

theorem Jvm.WF.newest_iff {s : Jvm} (h : s.WF) (o : Nat) (c : Channel) :
    Newest s o c ↔ s.channels c.id = some o := by
  have hfind : s.live.find? (fun o' => s.idOf o' = some c.id) =
      Keyed.find (fun o' : Nat => int o') c.id s.live := by
    refine List.find?_congr fun o' ho' => ?_
    rw [h.idOf (h.live o' ho')]
    simp
  rw [Newest, hfind, h.table]

/-- **A reply finds its channel exactly while the id fits the wire.** -/
theorem dispatched_iff {s : Jvm} (hs : s.Reachable) {o : Nat} {c : Channel}
    (hc : s.heap[o]? = some c) (body : Bytes) :
    Dispatched s o (putShort c.id ++ body) ↔ (0 ≤ c.id ∧ c.id < 65536) ∧ Newest s o c := by
  have hwf := hs.wf
  rw [dispatched_iff_lookup, lookup_putShort, hwf.newest_iff]
  constructor
  · intro h
    have hfound := h
    rw [hwf.table] at hfound
    have hid : int o = c.id % 65536 := (Keyed.find_mem hfound).2
    have hmod : c.id = c.id % 65536 := (hwf.id o c hc).trans hid
    rw [← hmod] at h
    exact ⟨by omega, h⟩
  · rintro ⟨hid, h⟩
    rw [Int.emod_eq_of_lt hid.1 hid.2]
    exact h

/-- The first 65536 channels of a JVM keep their replies, whatever happens to them. -/
theorem lookup_of_few {s : Jvm} (hs : s.Reachable) (hfew : s.heap.length ≤ 65536) {o : Nat}
    (ho : o ∈ s.live) (body : Bytes) : s.lookup (putShort (int o) ++ body) = some o := by
  have hwf := hs.wf
  have hsmall : ∀ o' ∈ s.live, int o' = o' := fun o' ho' =>
    int_of_lt (by have := hwf.live o' ho'; omega)
  have hmod : int o % 65536 = int o := by
    have := hwf.live o ho
    rw [hsmall o ho]
    omega
  rw [lookup_putShort, hmod, hwf.table]
  cases hfind : Keyed.find (fun o : Nat => int o) (int o) s.live with
  | none => exact absurd (List.mem_map_of_mem ho) (Keyed.find_eq_none.mp hfind)
  | some o' =>
    obtain ⟨ho', hkey⟩ := Keyed.find_mem hfind
    rw [hsmall o' ho', hsmall o ho] at hkey
    rw [Int.ofNat.inj hkey]

/-! ## A counter that outgrows the wire -/

/-- Channel `k` is created, registered and answered; it holds an AES key, so the
answer ends it. -/
def answered (k : Nat) : List Step :=
  [.create .aeskey (.callback .new), .register k, .process (putShort k ++ [0])]

/-- The channel with id `n`, made with a callback of its own and registered. -/
def opened (n : Nat) (type : Kind) : Channel :=
  { Channel.new n type (.callback .new) with registered := true }

/-- A JVM that has made `n` channels and has none alive. -/
structure Idle (n : Nat) (s : Jvm) : Prop extends s.WF where
  length : s.heap.length = n
  none : s.live = []

theorem run_append (s : Jvm) (es es' : List Step) :
    s.run (es ++ es') = (s.run es).bind fun s' => s'.run es' := by
  induction es generalizing s with
  | nil => rfl
  | cons e es ih =>
    show (s.step e).bind _ = Option.bind ((s.step e).bind _) _
    rw [Option.bind_assoc]
    congr 1
    funext s'
    exact ih s'

/-- The next channel is made and registered. -/
theorem Idle.openNext {n : Nat} {s : Jvm} (h : Idle n s) (hn : n < 2 ^ 31) (type : Kind) :
    ∃ s', s.run [.create type (.callback .new), .register n] = some s' ∧ s'.WF ∧
      s'.heap.length = n + 1 ∧ s'.live = [n] ∧
      s'.heap[n]? = some (opened n type) := by
  have hcreate := h.toWF.create type (.callback .new)
  have hlen : (s.create type (.callback .new)).heap.length = n + 1 := by
    simp [Jvm.create, h.length]
  have hget : (s.create type (.callback .new)).heap[n]? =
      some (Channel.new n type (.callback .new)) := by
    simp [Jvm.create, ← h.length, h.nextId, int_of_lt (h.length ▸ hn)]
  have hstep : (s.create type (.callback .new)).step (.register n) =
      some ((s.create type (.callback .new)).register n) := by
    simp [Jvm.step, hget, Channel.new]
  have hreg : (s.create type (.callback .new)).register n =
      { (s.create type (.callback .new)).set n fun c => { c with registered := true } with
        channels := Function.update s.channels n (some n)
        live := [n] } := by
    have hnil : (s.create type (.callback .new)).live = [] := h.none
    simp only [Jvm.register, hget, hnil]
    rfl
  refine ⟨_, ?_, hcreate.register n, ?_, ?_, ?_⟩
  · show (s.step (.create type (.callback .new))).bind _ = _
    rw [Jvm.step, if_pos (show Listener.Fresh (.callback .new) from rfl), Option.bind_some]
    show ((s.create type (.callback .new)).step (.register n)).bind some = _
    rw [hstep, Option.bind_some]
  · rw [hreg]
    simpa using hlen
  · rw [hreg]
  · rw [hreg]
    show ((s.create type (.callback .new)).set n _).heap[n]? = _
    rw [getElem?_set, if_pos rfl, hget, Option.map_some]
    rfl

theorem idle_start : Idle 0 Jvm.start := ⟨Jvm.WF.start, rfl, rfl⟩

theorem dispatched_iff_first :
    ∃ s, Jvm.start.run [.create .browse (.callback .new), .register 0] = some s ∧
      (Dispatched s 0 (putShort (opened 0 .browse).id ++ [7]) ↔
        (0 ≤ (opened 0 .browse).id ∧ (opened 0 .browse).id < 65536) ∧
          Newest s 0 (opened 0 .browse)) := by
  obtain ⟨s, hrun, -, -, -, hget⟩ := idle_start.openNext (by omega) .browse
  exact ⟨s, hrun, dispatched_iff ⟨_, hrun⟩ hget [7]⟩

/-- A channel alone in the table is found while its id has 16 bits. -/
theorem lookup_alone {n : Nat} {s : Jvm} (h : s.WF) (hlive : s.live = [n]) (hn : n < 65536)
    (body : Bytes) : s.lookup (putShort n ++ body) = some n := by
  have hmod : (n : Int) % 65536 = n := by omega
  rw [lookup_putShort, hmod, h.table, hlive, Keyed.find_cons, int_of_lt (by omega), if_pos rfl]

/-- A channel with a listener leaves the table when it ends. -/
theorem live_tell_channelEnd {n : Nat} {s : Jvm} (h : s.WF) (hlive : s.live = [n]) {c : Channel}
    (hl : c.listener ≠ .null) (hid : c.id = int n) : (s.tell n c .channelEnd).live = [] := by
  rw [tell_channelEnd s n hl, (h.set n fun c => (c.keeps_tell .channelEnd).id).live_unregister,
    live_set, hlive, hid]
  simp

/-- The answer of an AES key channel leaves the table without it. -/
theorem Idle.round {n : Nat} {s : Jvm} (h : Idle n s) (hn : n < 65536) :
    ∃ s', s.run (answered n) = some s' ∧ Idle (n + 1) s' := by
  obtain ⟨s1, hrun, hwf, hlen, hlive, hget⟩ := h.openNext (by omega) .aeskey
  have hdata : (opened n .aeskey).state ≠ .header := nofun
  have hprocess : s1.process (putShort n ++ [0]) = s1.processData n (opened n .aeskey) [0] := by
    rw [process_of_lookup (lookup_alone hwf hlive hn [0]) hget, if_neg hdata]
    rfl
  refine ⟨s1.process (putShort n ++ [0]), ?_, hwf.process _, ?_, ?_⟩
  · show s.run ([.create .aeskey (.callback .new), .register n] ++
      [.process (putShort n ++ [0])]) = _
    rw [run_append, hrun]
    rfl
  · rw [hprocess, length_processData, hlen]
  · have htold := hwf.set n fun c => (c.keeps_tell (.channelData [0])).id
    have hcounted := htold.set n
      (f := fun c => { c with dataLength := int (c.dataLength + ([0] : Bytes).length) }) fun _ => rfl
    have hended := hcounted.set n (f := fun c => { c with state := .end }) fun _ => rfl
    rw [hprocess]
    exact live_tell_channelEnd (c := opened n .aeskey) hended hlive nofun
      (int_of_lt (show n < 2 ^ 31 by omega)).symm

theorem idle_run {n : Nat} (hn : n ≤ 65536) :
    ∃ s, Jvm.start.run ((List.range n).flatMap answered) = some s ∧ Idle n s := by
  induction n with
  | zero => exact ⟨Jvm.start, rfl, idle_start⟩
  | succ n ih =>
    obtain ⟨s, hs, hidle⟩ := ih (by omega)
    obtain ⟨s', hs', hidle'⟩ := hidle.round (by omega)
    refine ⟨s', ?_, hidle'⟩
    rw [List.range_succ, List.flatMap_append, run_append, hs]
    simpa using hs'

/-- **The reply of the 65537th channel is lost**, though it is the only one alive. -/
theorem sixteenBits_exhausted :
    ∃ s c, Jvm.start.run ((List.range 65536).flatMap answered ++
        [.create .browse (.callback .new), .register 65536]) = some s ∧
      s.heap[65536]? = some c ∧ c.registered = true ∧ s.live = [65536] ∧
      ¬ Dispatched s 65536 (putShort c.id ++ [0]) := by
  obtain ⟨s, hs, hidle⟩ := idle_run (le_refl 65536)
  obtain ⟨s', hs', hwf, -, hlive, hget⟩ := hidle.openNext (by omega) .browse
  refine ⟨s', _, ?_, hget, rfl, hlive, ?_⟩
  · rw [run_append, hs, Option.bind_some, hs']
  · rw [dispatched_iff_lookup, lookup_putShort, hwf.table, hlive, Keyed.find_cons,
      int_of_lt (by omega)]
    nofun

end Despotify.Java

import Despotify.Channel.Receive
import Despotify.Pool.Runs

/-!
# Live channels over whole runs

* `Run`, `step`: runs of `channel_register`, `channel_unregister` and
  `channel_process`, with the channels the program unregistered itself.
* `Run.Inv`: the live channels are those registered and not finished.
* `exec_live`: the summary over all runs.
-/

namespace Despotify.Channels

variable {σ κ : Type}

/-! ## Runs -/

/-- The calls a program makes on the channel table. -/
inductive Event (κ : Type)
  | register (args : RegArgs κ)
  | unregister (p : Nat)
  | process (payload : List UInt8) (error : Bool)

/-- The world, and the channels unregistered by the program itself. -/
structure Run (σ κ : Type) where
  world : World σ κ
  unregistered : List Nat

def Run.init (client : σ) : Run σ κ := ⟨⟨Table.empty, client, []⟩, []⟩

/-- Only a live channel can be unregistered. -/
def step (cb : Callback σ κ) (r : Run σ κ) : Event κ → Option (Run σ κ)
  | .register args =>
    some { r with world := { r.world with table := (channelRegister r.world.table args).1 } }
  | .unregister p =>
    (channelUnregister r.world.table p).map fun t =>
      { world := { r.world with table := t }, unregistered := p :: r.unregistered }
  | .process payload error =>
    some { r with world := (channelProcess cb r.world payload error).1 }

/-- The channel was unregistered by the program, or its callback was entered
in END or ERROR state. -/
def Run.finished (r : Run σ κ) (p : Nat) : Prop :=
  p ∈ r.unregistered ∨ ∃ c ∈ r.world.calls, c.ch.ptr = p ∧ c.ch.state.final = true

/-- The live channels are those registered (`p < brk`) and not finished. -/
structure Run.Inv (r : Run σ κ) : Prop where
  table : r.world.table.Inv
  past : ∀ p, r.finished p → p < r.world.table.brk
  live : ∀ p, (r.world.table.get p).isSome ↔ p < r.world.table.brk ∧ ¬ r.finished p

theorem Run.inv_init (client : σ) : (Run.init client : Run σ κ).Inv := by
  refine ⟨Table.inv_empty, ?_, fun p => ?_⟩
  · rintro p (h | ⟨c, hc, -⟩)
    · cases h
    · cases hc
  · constructor
    · intro h
      cases h
    · rintro ⟨h, -⟩
      cases h

/-- It is enough to account for the channel at `p` when the others are left alone. -/
theorem Run.Inv.of_onlyOn {r r' : Run σ κ} (h : r.Inv) {p : Nat}
    (hinv : r'.world.table.Inv) (hon : r.world.OnlyOn p r'.world)
    (hp : p < r.world.table.brk) (hun : ∀ q, q ≠ p → (q ∈ r'.unregistered ↔ q ∈ r.unregistered))
    (hself : (r'.world.table.get p).isSome ↔ ¬ r'.finished p) : r'.Inv := by
  have hbrk := hon.brk
  obtain ⟨new, hcalls, hnew⟩ := hon.calls
  have hfin : ∀ q, q ≠ p → (r'.finished q ↔ r.finished q) := by
    intro q hq
    unfold Run.finished
    rw [hun q hq, hcalls]
    refine or_congr_right ⟨?_, ?_⟩
    · rintro ⟨c, hc, hcq, hf⟩
      rcases List.mem_append.mp hc with hc | hc
      · exact ⟨c, hc, hcq, hf⟩
      · exact absurd (hcq.symm.trans (hnew c hc)) hq
    · rintro ⟨c, hc, hcq, hf⟩
      exact ⟨c, List.mem_append_left _ hc, hcq, hf⟩
  refine ⟨hinv, fun q hq => ?_, fun q => ?_⟩
  · by_cases hqp : q = p
    · omega
    · have := h.past q ((hfin q hqp).mp hq)
      omega
  · by_cases hqp : q = p
    · subst hqp
      rw [hself, and_iff_right (by omega)]
    · rw [hfin q hqp]
      by_cases hlt : q < r.world.table.brk
      · rw [hon.get q hlt hqp, h.live q, and_iff_right hlt, and_iff_right (by omega)]
      · have hnot : ¬ r.finished q := fun hf => hlt (h.past q hf)
        rw [and_iff_left hnot]
        constructor
        · exact hinv.lt_brk
        · exact fun hq => hon.registered q (by omega) hq hqp

theorem Run.Inv.register {r : Run σ κ} (h : r.Inv) (args : RegArgs κ) :
    Run.Inv { r with
      world := { r.world with table := (channelRegister r.world.table args).1 } } := by
  have hall := Table.isSome_get_registerAll r.world.table [args]
  have hbrk := brk_channelRegister r.world.table args
  have hinv := h.table.channelRegister args
  refine ⟨hinv, fun q hq => Nat.lt_of_lt_of_le (h.past q hq) hbrk, fun q => ?_⟩
  show ((channelRegister r.world.table args).1.get q).isSome ↔
    q < (channelRegister r.world.table args).1.brk ∧ ¬ r.finished q
  by_cases hlt : q < r.world.table.brk
  · rw [r.world.table.get_channelRegister args hlt, h.live q, and_iff_right hlt,
      and_iff_right (by omega)]
  · have hnot : ¬ r.finished q := fun hf => hlt (h.past q hf)
    rw [and_iff_left hnot]
    exact ⟨hinv.lt_brk, hall q (by omega)⟩

theorem Run.Inv.unregister {r : Run σ κ} (h : r.Inv) {p : Nat} {t : Table κ}
    (ht : channelUnregister r.world.table p = some t) :
    Run.Inv { world := { r.world with table := t }, unregistered := p :: r.unregistered } := by
  obtain ⟨ch, head, hget, -, -⟩ := channelUnregister_eq_some.mp ht
  have hp : p < r.world.table.brk := h.table.lt_brk (by rw [hget]; rfl)
  refine h.of_onlyOn (h.table.channelUnregister ht) (World.onlyOn_unregister h.table ht) hp ?_ ?_
  · intro q hq
    simp [hq]
  · show (t.get p).isSome ↔ _
    rw [h.table.get_channelUnregister ht, if_pos rfl]
    simp [Run.finished]

/-- A packet for a live channel: the channel is gone exactly when its callback
saw a final state. -/
theorem Run.Inv.process {r : Run σ κ} (h : r.Inv) (cb : Callback σ κ) {a b : UInt8}
    {ch : Channel κ} (hfind : channelById r.world.table (ntohs a b) = some ch)
    (buf : List UInt8) (error : Bool) :
    Run.Inv { r with world := (channelProcess cb r.world (a :: b :: buf) error).1 } := by
  obtain ⟨hinv, hon, hcalls, hget⟩ := channelProcess_spec cb h.table hfind buf error
  have hlive : (r.world.table.get ch.ptr).isSome := by
    rw [h.table.get_eq_some.mpr ⟨(h.table.channelById_eq_some.mp hfind).1, rfl⟩]
    rfl
  have hnot := ((h.live ch.ptr).mp hlive).2
  have hptr : ∀ c ∈ (ch.receive buf error).1, c.ch.ptr = ch.ptr := by
    obtain ⟨new, hnew, hall⟩ := hon.calls
    rw [List.append_cancel_left (hcalls.symm.trans hnew)]
    exact hall
  refine h.of_onlyOn hinv hon (h.table.lt_brk hlive) (fun _ _ => Iff.rfl) ?_
  rw [hget, Option.isSome_iff_ne_none, ne_eq, ch.receive_fate buf error, not_iff_not]
  unfold Run.finished
  rw [hcalls]
  constructor
  · rintro ⟨c, hc, hf⟩
    exact Or.inr ⟨c, List.mem_append_right _ hc, hptr c hc, hf⟩
  · rintro (hun | ⟨c, hc, hcp, hf⟩)
    · exact absurd (Or.inl hun) hnot
    · rcases List.mem_append.mp hc with hc | hc
      · exact absurd (Or.inr ⟨c, hc, hcp, hf⟩) hnot
      · exact ⟨c, hc, hf⟩

/-- One call keeps the invariant. -/
theorem Run.Inv.step {cb : Callback σ κ} {r r' : Run σ κ} {e : Event κ} (h : r.Inv)
    (hstep : step cb r e = some r') : r'.Inv := by
  cases e with
  | register args =>
    cases hstep
    exact h.register args
  | unregister p =>
    obtain ⟨t, ht, rfl⟩ := Option.map_eq_some_iff.mp hstep
    exact h.unregister ht
  | process payload error =>
    cases hstep
    match payload with
    | [] => exact h
    | [_] => exact h
    | a :: b :: buf =>
      cases hfind : channelById r.world.table (ntohs a b) with
      | none =>
        rw [channelProcess_none cb hfind]
        exact h
      | some ch => exact h.process cb hfind buf error

theorem Run.Inv.exec {cb : Callback σ κ} {client : σ} {es : List (Event κ)} {r : Run σ κ}
    (h : Runs.exec (Channels.step cb) (Run.init client) es = some r) : r.Inv :=
  Runs.exec_inv (fun _ _ _ hr hs => hr.step hs) (Run.inv_init client) h

/-- The id on the wire selects the channel: `channel_by_id` returns it, and
`channel_process` enters no callback but its own and leaves the others alone. -/
def Selects (cb : Callback σ κ) (w : World σ κ) (ch : Channel κ) : Prop :=
  channelById w.table ch.channelId = some ch ∧
    ∀ (body : List UInt8) (error : Bool),
      w.OnlyOn ch.ptr (channelProcess cb w (htons ch.channelId ++ body) error).1

theorem Table.Inv.selects {w : World σ κ} (h : w.table.Inv) (cb : Callback σ κ) {ch : Channel κ}
    (hch : ch ∈ w.table.head) (hid : ch.channelId < 65536) : Selects cb w ch := by
  have hfind : channelById w.table ch.channelId = some ch :=
    h.channelById_eq_some.mpr ⟨hch, rfl⟩
  refine ⟨hfind, fun body error => (channelProcess_spec cb h ?_ body error).2.1⟩
  rw [ntohs_htons, Nat.mod_eq_of_lt hid]
  exact hfind

/-- **The channel table over all runs**: ids of live channels are distinct and
`next_channel_id` is none of them, every channel registered and not finished is
in the list exactly once and no other is, and an id below `2 ^ 16` selects its
channel. -/
theorem exec_live (cb : Callback σ κ) (client : σ) (es : List (Event κ)) (r : Run σ κ)
    (h : Runs.exec (step cb) (Run.init client) es = some r) :
    (r.world.table.head.map Channel.channelId).Nodup ∧
    r.world.table.nextChannelId ∉ r.world.table.head.map Channel.channelId ∧
    (∀ p, p < r.world.table.brk → ¬ r.finished p →
      (r.world.table.head.map Channel.ptr).count p = 1) ∧
    (∀ p, ¬ (p < r.world.table.brk ∧ ¬ r.finished p) →
      (r.world.table.head.map Channel.ptr).count p = 0) ∧
    ∀ ch ∈ r.world.table.head, ch.channelId < 65536 → Selects cb r.world ch := by
  have hinv := Run.Inv.exec h
  have hmem : ∀ p, p ∈ r.world.table.head.map Channel.ptr ↔
      p < r.world.table.brk ∧ ¬ r.finished p := by
    intro p
    rw [← hinv.live p, Option.isSome_iff_ne_none, ne_eq]
    unfold Table.get
    rw [Keyed.find_eq_none, not_not]
  refine ⟨hinv.table.ids, ?_, fun p hp hf => ?_, fun p hp => ?_, fun ch hch hid => ?_⟩
  · rw [List.mem_map]
    rintro ⟨ch, hch, he⟩
    exact hinv.table.next ch hch he
  · exact List.count_eq_one_of_mem hinv.table.ptrs ((hmem p).mpr ⟨hp, hf⟩)
  · exact List.count_eq_zero_of_not_mem fun hm => hp ((hmem p).mp hm)
  · exact hinv.table.selects cb hch hid

/-- A callback that registers a channel when its own one ends. -/
def registerAtEnd : Callback Unit Unit := fun _ ch _ =>
  ((), if ch.state = .ended then [⟨none, (), true⟩] else [], 0)

/-- The END packet registers channel 1 before it frees channel 0, which the
next registration takes again. -/
theorem exec_live_reentrant :
    ∃ r, Runs.exec (step registerAtEnd) (Run.init ())
        [.register ⟨none, (), true⟩, .process [0, 0, 0, 0] false, .process [0, 0] false,
          .register ⟨none, (), true⟩] = some r ∧
      r.world.table.head.map Channel.channelId = [0, 1] ∧
      (r.world.table.head.map Channel.channelId).Nodup := by
  refine ⟨_, rfl, ?_, ?_⟩
  · simp [channelProcess, processHeaders, headerLoop, channelById, Run.init, Table.empty,
      channelRegister, scanNext, Keyed.find, ntohs, processData, deliver, World.setState, World.modify,
      Table.modify, Keyed.update, World.enter, Table.get, registerAtEnd, Table.registerAll,
      channelUnregister, Keyed.remove, ChannelState.final]
  · exact (exec_live registerAtEnd () [.register ⟨none, (), true⟩, .process [0, 0, 0, 0] false,
      .process [0, 0] false, .register ⟨none, (), true⟩] _ rfl).1

end Despotify.Channels

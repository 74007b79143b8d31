import Despotify.Channel.Live

/-!
# Channel ids and the 16 bits they have on the wire

A request carries its channel's id as `buf_append_u16 (id)` and the reply is
dispatched on these two bytes.  `channel_register` hands out `next_channel_id`,
which is one of two things: an id at most that of a freed channel, when
`channel_unregister` was called last, or one more than an id in use, when
`channel_register` was.  In the second case it can pass `65535` although few
channels are live.

* `always_onWire_iff`: the ids stay on the wire exactly in the runs that never
  call `channel_register` twice in a row while `65535` is taken.
* `churn`: three live channels are enough to get past `65535`.
-/

namespace Despotify.Channels

open Runs

variable {κ : Type}

/-! ## Runs of the allocator -/

inductive AllocEvent (κ : Type)
  | register (args : RegArgs κ)
  | unregister (p : Nat)

/-- The table, and the id picked by the last call if that was `channel_register`. -/
structure Alloc (κ : Type) where
  table : Table κ
  picked : Option Nat

def Alloc.init : Alloc κ := ⟨Table.empty, none⟩

def allocStep (s : Alloc κ) : AllocEvent κ → Option (Alloc κ)
  | .register args => some ⟨(channelRegister s.table args).1, some s.table.nextChannelId⟩
  | .unregister p => (channelUnregister s.table p).map fun t => ⟨t, none⟩

/-- The id read back from the two bytes that were written. -/
def wireId (id : Nat) : Nat := ntohs (UInt8.ofNat (id / 256)) (UInt8.ofNat id)

/-- Every live channel has an id of 16 bits, and it selects the channel. -/
def OnWire (s : Alloc κ) : Prop :=
  ∀ ch ∈ s.table.head,
    ch.channelId < 65536 ∧ channelById s.table (wireId ch.channelId) = some ch

/-- A successful registration does not follow another call of
`channel_register` while `65535` is in use, or was picked by that call. -/
def Spaced (s : Alloc κ) : AllocEvent κ → Prop
  | .register args =>
    args.mem = true → ∀ id, s.picked = some id →
      id < 65535 ∧ ∀ ch ∈ s.table.head, ch.channelId ≠ 65535
  | .unregister _ => True

/-! ## What `next_channel_id` can be -/

theorem scanNext_eq (next : Nat) (chs : List (Channel κ)) :
    scanNext next chs = next ∨ ∃ ch ∈ chs, scanNext next chs = ch.channelId + 1 := by
  induction chs generalizing next with
  | nil => exact Or.inl rfl
  | cons ch chs ih =>
    unfold scanNext
    rcases ih (if next ≤ ch.channelId then ch.channelId + 1 else next) with h | ⟨c, hc, h⟩
    · rw [h]
      split
      · exact Or.inr ⟨ch, List.mem_cons_self, rfl⟩
      · exact Or.inl rfl
    · exact Or.inr ⟨c, List.mem_cons_of_mem _ hc, h⟩

/-- All live ids are on the wire, and so is the next one after a call of
`channel_unregister`; after `channel_register` it is a successor. -/
structure Alloc.Inv (s : Alloc κ) : Prop where
  table : s.table.Inv
  ids : ∀ ch ∈ s.table.head, ch.channelId < 65536
  freed : s.picked = none → s.table.nextChannelId < 65536
  above : ∀ id, s.picked = some id →
    id < s.table.nextChannelId ∧ ∀ ch ∈ s.table.head, ch.channelId < s.table.nextChannelId
  succ : ∀ id, s.picked = some id →
    s.table.nextChannelId = id + 1 ∨
      ∃ ch ∈ s.table.head, s.table.nextChannelId = ch.channelId + 1

theorem Alloc.inv_init : (Alloc.init : Alloc κ).Inv :=
  ⟨Table.inv_empty, nofun, fun _ => Nat.zero_lt_succ _, nofun, nofun⟩

theorem Alloc.Inv.onWire {s : Alloc κ} (h : s.Inv) : OnWire s := by
  intro ch hch
  have hid := h.ids ch hch
  refine ⟨hid, ?_⟩
  rw [wireId, ntohs_htons, Nat.mod_eq_of_lt hid]
  exact h.table.channelById_eq_some.mpr ⟨hch, rfl⟩

/-- The next id is on the wire exactly when the call is `Spaced`. -/
theorem Alloc.Inv.next_lt_iff {s : Alloc κ} (h : s.Inv) {args : RegArgs κ}
    (hmem : args.mem = true) : s.table.nextChannelId < 65536 ↔ Spaced s (.register args) := by
  cases hp : s.picked with
  | none =>
    refine iff_of_true (h.freed hp) ?_
    intro _ id hid
    rw [hp] at hid
    cases hid
  | some id =>
    obtain ⟨hid, hids⟩ := h.above id hp
    constructor
    · intro hlt _ id' hid'
      rw [hp] at hid'
      cases hid'
      refine ⟨by omega, fun ch hch => ?_⟩
      have := hids ch hch
      omega
    · intro hs
      obtain ⟨h1, h2⟩ := hs hmem id hp
      rcases h.succ id hp with he | ⟨ch, hch, he⟩
      · omega
      · have h3 := h.ids ch hch
        have h4 := h2 ch hch
        omega

theorem Alloc.Inv.register {s : Alloc κ} (h : s.Inv) (args : RegArgs κ)
    (hlt : args.mem = true → s.table.nextChannelId < 65536) :
    Alloc.Inv ⟨(channelRegister s.table args).1, some s.table.nextChannelId⟩ := by
  have hinv := h.table.channelRegister args
  have hle := le_scanNext (s.table.nextChannelId + 1) s.table.head
  have hscan := fun ch (hch : ch ∈ s.table.head) => lt_scanNext (s.table.nextChannelId + 1) hch
  have hsucc := scanNext_eq (s.table.nextChannelId + 1) s.table.head
  unfold channelRegister at hinv ⊢
  split at hinv
  · rename_i hmem
    rw [if_pos hmem]
    refine ⟨hinv, ?_, nofun, ?_, ?_⟩
    · intro ch hch
      rcases List.mem_cons.mp hch with rfl | hch
      · exact hlt hmem
      · exact h.ids ch hch
    · rintro id ⟨⟩
      refine ⟨hle, fun ch hch => ?_⟩
      rcases List.mem_cons.mp hch with rfl | hch
      · exact hle
      · exact hscan ch hch
    · rintro id ⟨⟩
      rcases hsucc with he | ⟨ch, hch, he⟩
      · exact Or.inl he
      · exact Or.inr ⟨ch, List.mem_cons_of_mem _ hch, he⟩
  · rename_i hmem
    rw [if_neg hmem]
    refine ⟨hinv, h.ids, nofun, ?_, ?_⟩
    · rintro id ⟨⟩
      exact ⟨hle, hscan⟩
    · rintro id ⟨⟩
      exact hsucc

theorem Alloc.Inv.unregister {s : Alloc κ} (h : s.Inv) {p : Nat} {t : Table κ}
    (ht : channelUnregister s.table p = some t) : Alloc.Inv ⟨t, none⟩ := by
  have hinv := h.table.channelUnregister ht
  obtain ⟨ch, head, hget, hrem, rfl⟩ := channelUnregister_eq_some.mp ht
  have hid := h.ids ch (Keyed.find_mem hget).1
  refine ⟨hinv, fun c hc => h.ids c ((Keyed.remove_sublist hrem).subset hc), ?_, nofun, nofun⟩
  intro _
  show (if ch.channelId < s.table.nextChannelId then ch.channelId
    else s.table.nextChannelId) < 65536
  split <;> omega

/-- From a state that keeps the invariant, the ids stay on the wire exactly as
long as the registrations are spaced. -/
theorem Alloc.Inv.always_iff {s : Alloc κ} (h : s.Inv) (es : List (AllocEvent κ)) :
    Always allocStep OnWire s es ↔ AllSteps allocStep Spaced s es := by
  induction es generalizing s with
  | nil => exact iff_of_true h.onWire trivial
  | cons e es ih =>
    unfold Always AllSteps
    rw [and_iff_right h.onWire]
    cases e with
    | register args =>
      by_cases hlt : args.mem = true → s.table.nextChannelId < 65536
      · have hspaced : Spaced s (.register args) := fun hmem =>
          (h.next_lt_iff hmem).mp (hlt hmem) hmem
        rw [and_iff_right hspaced]
        refine forall₂_congr fun s' hs' => ?_
        cases hs'
        exact ih (h.register args hlt)
      · -- the id handed out is past the wire: both sides fail here
        rw [Classical.not_imp] at hlt
        obtain ⟨hmem, hge⟩ := hlt
        refine iff_of_false ?_ ?_
        · intro hall
          have hwire := (hall _ rfl).head
          unfold channelRegister at hwire
          rw [if_pos hmem] at hwire
          exact hge (hwire _ List.mem_cons_self).1
        · rintro ⟨hspaced, -⟩
          exact hge ((h.next_lt_iff hmem).mpr hspaced)
    | unregister p =>
      rw [and_iff_right (show Spaced s (.unregister p) from trivial)]
      refine forall₂_congr fun s' hs' => ?_
      obtain ⟨t, ht, rfl⟩ := Option.map_eq_some_iff.mp hs'
      exact ih (h.unregister ht)

/-- **Ids on the wire**: in a run of `channel_register` and `channel_unregister`
every id handed out has 16 bits and selects its channel if and only if no
registration is made directly after another one while `65535` is taken. -/
theorem always_onWire_iff (es : List (AllocEvent κ)) :
    Always allocStep OnWire Alloc.init es ↔ AllSteps allocStep Spaced Alloc.init es :=
  Alloc.inv_init.always_iff es

/-! ## Three channels are enough -/

def register : AllocEvent Unit := .register ⟨none, (), true⟩

/-- With the channel at `q` the only one live: register two more, then free the
first of these and the old one. -/
def churnRound (q : Nat) : List (AllocEvent Unit) :=
  [register, register, .unregister (q + 1), .unregister q]

def churn : Nat → List (AllocEvent Unit)
  | 0 => [register, register, .unregister 0]
  | k + 1 => churn k ++ churnRound (2 * k + 1)

/-- A channel as `channel_register` leaves it. -/
def fresh (ptr id : Nat) : Channel Unit :=
  { ptr := ptr, channelId := id, headerId := 0, state := .header, totalHeaderLen := 0,
    totalDataLen := 0, name := [], callback := () }

/-- One channel is left, with the id `k + 1`. -/
def churned (k : Nat) : Alloc Unit := ⟨⟨[fresh (2 * k + 1) (k + 1)], 0, 2 * k + 2⟩, none⟩

/-- The four calls of a round: the first registration takes id 0 again and
raises `next_channel_id` past the old channel, the second one stays there. -/
theorem churnRound_steps (k : Nat) :
    ∃ s1 s2 s3, allocStep (churned k) register = some s1 ∧ s1.table.head.length = 2 ∧
      allocStep s1 register = some s2 ∧ s2.table.head.length = 3 ∧
      allocStep s2 (.unregister (2 * k + 2)) = some s3 ∧ s3.table.head.length = 2 ∧
      allocStep s3 (.unregister (2 * k + 1)) = some (churned (k + 1)) := by
  refine ⟨⟨⟨[fresh (2 * k + 2) 0, fresh (2 * k + 1) (k + 1)], k + 2, 2 * k + 3⟩, some 0⟩,
    ⟨⟨[fresh (2 * k + 3) (k + 2), fresh (2 * k + 2) 0, fresh (2 * k + 1) (k + 1)], k + 3,
      2 * k + 4⟩, some (k + 2)⟩,
    ⟨⟨[fresh (2 * k + 3) (k + 2), fresh (2 * k + 1) (k + 1)], 0, 2 * k + 4⟩, none⟩, ?_, rfl, ?_,
    rfl, ?_, rfl, ?_⟩
  · simp [allocStep, register, churned, channelRegister, scanNext, fresh, copyName]
  · have h : ¬ k + 3 ≤ k + 1 := by omega
    simp [allocStep, register, channelRegister, scanNext, fresh, copyName, h]
  · simp [allocStep, channelUnregister, Table.get, Keyed.find, Keyed.remove, fresh]
  · simp [allocStep, channelUnregister, Table.get, Keyed.find, Keyed.remove, fresh, churned]
    omega

theorem exec_churnRound (k : Nat) :
    exec allocStep (churned k) (churnRound (2 * k + 1)) = some (churned (k + 1)) := by
  obtain ⟨s1, s2, s3, h1, -, h2, -, h3, -, h4⟩ := churnRound_steps k
  simp only [churnRound, exec, h1, h2, h3, h4, Option.bind_some]

theorem exec_churn (k : Nat) : exec allocStep Alloc.init (churn k) = some (churned k) := by
  induction k with
  | zero => rfl
  | succ k ih =>
    rw [churn, exec_append, ih]
    exact exec_churnRound k

/-- At no time are more than three channels live. -/
theorem always_churn (k : Nat) :
    Always allocStep (fun s => s.table.head.length ≤ 3) Alloc.init (churn k) := by
  induction k with
  | zero =>
    refine ⟨by decide, ?_⟩
    rintro _ ⟨⟩
    refine ⟨by decide, ?_⟩
    rintro _ ⟨⟩
    refine ⟨by decide, ?_⟩
    rintro _ ⟨⟩
    exact Nat.le_of_ble_eq_true rfl
  | succ k ih =>
    refine ih.append fun t ht => ?_
    rw [exec_churn] at ht
    cases ht
    obtain ⟨s1, s2, s3, h1, l1, h2, l2, h3, l3, h4⟩ := churnRound_steps k
    refine ⟨Nat.succ_le_succ (Nat.zero_le 2), fun s hs => ?_⟩
    rw [h1] at hs
    cases hs
    refine ⟨by omega, fun s hs => ?_⟩
    rw [h2] at hs
    cases hs
    refine ⟨by omega, fun s hs => ?_⟩
    rw [h3] at hs
    cases hs
    refine ⟨by omega, fun s hs => ?_⟩
    rw [h4] at hs
    cases hs
    exact Nat.succ_le_succ (Nat.zero_le 2)

theorem not_onWire_churned {k : Nat} (hk : 65535 ≤ k) : ¬ OnWire (churned k) := by
  intro h
  have hid : k + 1 < 65536 := (h (fresh (2 * k + 1) (k + 1)) List.mem_cons_self).1
  omega

-- nothing below is to unroll the rounds
attribute [local irreducible] churn

/-- After 65535 rounds with at most three live channels the id 65536 is handed
out, and the two bytes on the wire select no channel. -/
theorem churn_not_onWire :
    Always allocStep (fun s => s.table.head.length ≤ 3) Alloc.init (churn 65535) ∧
    exec allocStep Alloc.init (churn 65535) = some (churned 65535) ∧
    (churned 65535).table.head.map Channel.channelId = [65536] ∧
    channelById (churned 65535).table (wireId 65536) = none ∧
    ¬ Always allocStep OnWire Alloc.init (churn 65535) := by
  refine ⟨always_churn 65535, exec_churn 65535, ?_, ?_, ?_⟩
  · simp [churned, fresh]
  · simp [churned, fresh, channelById, Keyed.find, wireId, ntohs]
  intro h
  exact not_onWire_churned (Nat.le_refl _) (h.last (exec_churn 65535))

end Despotify.Channels

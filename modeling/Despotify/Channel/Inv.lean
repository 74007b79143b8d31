import Despotify.Channel.Table

/-!
# The invariant of the channel table

`next_channel_id` is raised by one pass over the list and lowered when a
channel is freed, in any order and also from callbacks that run inside
`channel_process`.  All it has to be is the id of no live channel
(`Table.Inv.next`).

* `Table.Inv` and one lemma for each operation of the table.
* `Table.get_…`: what an operation does to the channel a pointer refers to.
* `World.OnlyOn`: what a call on one channel leaves alone.
-/

namespace Despotify.Channels

variable {σ κ : Type}

/-! ## The table invariant -/

/-- `next_channel_id` is free, ids and addresses are distinct. -/
structure Table.Inv (t : Table κ) : Prop where
  ids : (t.head.map Channel.channelId).Nodup
  next : ∀ ch ∈ t.head, ch.channelId ≠ t.nextChannelId
  ptrs : (t.head.map Channel.ptr).Nodup
  fresh : ∀ ch ∈ t.head, ch.ptr < t.brk

theorem Table.inv_empty : (Table.empty : Table κ).Inv :=
  ⟨List.nodup_nil, nofun, List.nodup_nil, nofun⟩

theorem le_scanNext (next : Nat) (chs : List (Channel κ)) : next ≤ scanNext next chs := by
  induction chs generalizing next with
  | nil => exact Nat.le_refl next
  | cons ch chs ih =>
    have h := ih (if next ≤ ch.channelId then ch.channelId + 1 else next)
    unfold scanNext
    split at h <;> split <;> omega

/-- The moving bound ends above every live id. -/
theorem lt_scanNext (next : Nat) {chs : List (Channel κ)} {ch : Channel κ} (h : ch ∈ chs) :
    ch.channelId < scanNext next chs := by
  induction chs generalizing next with
  | nil => cases h
  | cons c chs ih =>
    unfold scanNext
    rcases List.mem_cons.mp h with rfl | h
    · have hle := le_scanNext (if next ≤ ch.channelId then ch.channelId + 1 else next) chs
      split at hle <;> split <;> omega
    · exact ih _ h

theorem Table.Inv.channelRegister {t : Table κ} (h : t.Inv) (args : RegArgs κ) :
    (channelRegister t args).1.Inv := by
  have hle := le_scanNext (t.nextChannelId + 1) t.head
  have hlt : ∀ ch ∈ t.head, ch.channelId ≠ scanNext (t.nextChannelId + 1) t.head := by
    intro ch hch
    have := lt_scanNext (t.nextChannelId + 1) hch
    omega
  unfold Channels.channelRegister
  split
  · refine ⟨?_, ?_, ?_, ?_⟩
    · rw [List.map_cons, List.nodup_cons, List.mem_map]
      refine ⟨?_, h.ids⟩
      rintro ⟨ch, hch, he⟩
      exact h.next ch hch he
    · intro ch hch
      rcases List.mem_cons.mp hch with rfl | hch
      · show t.nextChannelId ≠ scanNext (t.nextChannelId + 1) t.head
        omega
      · exact hlt ch hch
    · rw [List.map_cons, List.nodup_cons, List.mem_map]
      refine ⟨?_, h.ptrs⟩
      rintro ⟨ch, hch, he⟩
      have := h.fresh ch hch
      simp only at he
      omega
    · intro ch hch
      rcases List.mem_cons.mp hch with rfl | hch
      · exact Nat.lt_succ_self _
      · exact Nat.lt_succ_of_lt (h.fresh ch hch)
  · exact ⟨h.ids, hlt, h.ptrs, h.fresh⟩

theorem Table.Inv.registerAll {t : Table κ} (h : t.Inv) (regs : List (RegArgs κ)) :
    (t.registerAll regs).Inv := by
  induction regs generalizing t with
  | nil => exact h
  | cons args regs ih => exact ih (h.channelRegister args)

/-- Assignments through a `CHANNEL *` that keep the id keep the invariant. -/
theorem Table.Inv.modify {t : Table κ} (h : t.Inv) (p : Nat) {f : Channel κ → Channel κ}
    (hptr : ∀ ch, (f ch).ptr = ch.ptr) (hid : ∀ ch, (f ch).channelId = ch.channelId) :
    (t.modify p f).Inv := by
  have hids : (t.modify p f).head.map Channel.channelId = t.head.map Channel.channelId :=
    Keyed.map_update _ p hid t.head
  have hptrs : (t.modify p f).head.map Channel.ptr = t.head.map Channel.ptr :=
    Keyed.map_update _ p hptr t.head
  refine ⟨hids ▸ h.ids, ?_, hptrs ▸ h.ptrs, ?_⟩
  · intro ch hch he
    have hmem : t.nextChannelId ∈ t.head.map Channel.channelId :=
      hids ▸ List.mem_map.mpr ⟨ch, hch, he⟩
    obtain ⟨c, hc, hce⟩ := List.mem_map.mp hmem
    exact h.next c hc hce
  · intro ch hch
    have hmem : ch.ptr ∈ t.head.map Channel.ptr := hptrs ▸ List.mem_map_of_mem hch
    obtain ⟨c, hc, hce⟩ := List.mem_map.mp hmem
    exact hce ▸ h.fresh c hc

/-- What `channel_unregister` does, on a live channel. -/
theorem channelUnregister_eq_some {t t' : Table κ} {p : Nat} :
    channelUnregister t p = some t' ↔
      ∃ ch head, t.get p = some ch ∧ Keyed.remove Channel.ptr p t.head = some head ∧
        t' = { t with
          head := head
          nextChannelId :=
            if ch.channelId < t.nextChannelId then ch.channelId else t.nextChannelId } := by
  unfold channelUnregister
  cases hget : t.get p with
  | none => simp
  | some ch =>
    cases hrem : Keyed.remove Channel.ptr p t.head with
    | none => simp
    | some head => simp [eq_comm]

theorem exists_channelUnregister {t : Table κ} {p : Nat} {ch : Channel κ}
    (h : t.get p = some ch) : ∃ t', channelUnregister t p = some t' := by
  obtain ⟨hch, rfl⟩ := Keyed.find_mem h
  have hmem : ch.ptr ∈ t.head.map Channel.ptr := List.mem_map_of_mem hch
  obtain ⟨head, hrem⟩ := Keyed.exists_remove hmem
  exact ⟨_, channelUnregister_eq_some.mpr ⟨ch, head, h, hrem, rfl⟩⟩

theorem Table.Inv.channelUnregister {t t' : Table κ} (h : t.Inv) {p : Nat}
    (hun : channelUnregister t p = some t') : t'.Inv := by
  obtain ⟨ch, head, hget, hrem, rfl⟩ := channelUnregister_eq_some.mp hun
  obtain ⟨hch, rfl⟩ := Keyed.find_mem hget
  have hmem : ∀ c ∈ head, c ∈ t.head ∧ c.ptr ≠ ch.ptr := fun c hc =>
    (Keyed.mem_remove h.ptrs hrem c).mp hc
  refine ⟨Keyed.nodup_remove hrem h.ids, ?_, Keyed.nodup_remove hrem h.ptrs, ?_⟩
  · intro c hc
    obtain ⟨hc', hne⟩ := hmem c hc
    show c.channelId ≠ if ch.channelId < t.nextChannelId then ch.channelId else t.nextChannelId
    split
    · -- the id lowered to was the freed channel's alone
      intro he
      exact hne (congrArg Channel.ptr (List.inj_on_of_nodup_map h.ids hc' hch he))
    · exact h.next c hc'
  · exact fun c hc => h.fresh c (hmem c hc).1

/-! ## Finding channels -/

theorem Table.Inv.get_eq_some {t : Table κ} (h : t.Inv) {p : Nat} {ch : Channel κ} :
    t.get p = some ch ↔ ch ∈ t.head ∧ ch.ptr = p := Keyed.find_eq_some h.ptrs

theorem Table.Inv.lt_brk {t : Table κ} (h : t.Inv) {p : Nat} (hp : (t.get p).isSome) :
    p < t.brk := by
  obtain ⟨ch, hget⟩ := Option.isSome_iff_exists.mp hp
  obtain ⟨hch, rfl⟩ := h.get_eq_some.mp hget
  exact h.fresh ch hch

/-- The id of a live channel selects that channel. -/
theorem Table.Inv.channelById_eq_some {t : Table κ} (h : t.Inv) {id : Nat} {ch : Channel κ} :
    channelById t id = some ch ↔ ch ∈ t.head ∧ ch.channelId = id := Keyed.find_eq_some h.ids

theorem Table.get_modify (t : Table κ) (p q : Nat) {f : Channel κ → Channel κ}
    (hptr : ∀ ch, (f ch).ptr = ch.ptr) :
    (t.modify p f).get q = if q = p then (t.get p).map f else t.get q :=
  Keyed.find_update p q hptr t.head

theorem Table.get_channelRegister (t : Table κ) (args : RegArgs κ) {q : Nat} (hq : q < t.brk) :
    (channelRegister t args).1.get q = t.get q := by
  unfold channelRegister
  split
  · unfold Table.get
    rw [Keyed.find_cons, if_neg]
    show t.brk ≠ q
    omega
  · rfl

theorem brk_channelRegister (t : Table κ) (args : RegArgs κ) :
    t.brk ≤ (channelRegister t args).1.brk := by
  unfold channelRegister
  split
  · exact Nat.le_succ _
  · exact Nat.le_refl _

theorem Table.brk_registerAll (t : Table κ) (regs : List (RegArgs κ)) :
    t.brk ≤ (t.registerAll regs).brk := by
  induction regs generalizing t with
  | nil => exact Nat.le_refl _
  | cons args regs ih => exact Nat.le_trans (brk_channelRegister t args) (ih _)

theorem Table.get_registerAll (t : Table κ) (regs : List (RegArgs κ)) {q : Nat}
    (hq : q < t.brk) : (t.registerAll regs).get q = t.get q := by
  induction regs generalizing t with
  | nil => rfl
  | cons args regs ih =>
    have hle := brk_channelRegister t args
    exact (ih _ (by omega)).trans (t.get_channelRegister args hq)

/-- Every address `malloc` has handed out on the way is a live channel. -/
theorem Table.isSome_get_registerAll (t : Table κ) (regs : List (RegArgs κ)) (q : Nat)
    (hq : t.brk ≤ q) (hq' : q < (t.registerAll regs).brk) :
    ((t.registerAll regs).get q).isSome := by
  induction regs generalizing t with
  | nil => exact absurd hq (Nat.not_le_of_lt hq')
  | cons args regs ih =>
    by_cases hlt : q < (channelRegister t args).1.brk
    · have hget := (channelRegister t args).1.get_registerAll regs hlt
      show (((channelRegister t args).1.registerAll regs).get q).isSome
      rw [hget]
      unfold channelRegister at hlt ⊢
      split at hlt
      · rename_i hmem
        have hlt' : q < t.brk + 1 := hlt
        rw [if_pos hmem]
        unfold Table.get
        rw [Keyed.find_cons, if_pos (by show t.brk = q; omega)]
        rfl
      · exact absurd hq (Nat.not_le_of_lt hlt)
    · exact ih _ (Nat.le_of_not_lt hlt) hq'

theorem Table.Inv.get_channelUnregister {t t' : Table κ} (h : t.Inv) {p : Nat}
    (hun : Channels.channelUnregister t p = some t') (q : Nat) :
    t'.get q = if q = p then none else t.get q := by
  obtain ⟨ch, head, -, hrem, rfl⟩ := channelUnregister_eq_some.mp hun
  exact Keyed.find_remove h.ptrs hrem q

/-! ## What a call on one channel leaves alone -/

/-- From `w` to `w'` only the channel at `p` was touched: its callback alone
was entered, and the other channels are as before, up to new ones. -/
structure World.OnlyOn (p : Nat) (w w' : World σ κ) : Prop where
  brk : w.table.brk ≤ w'.table.brk
  calls : ∃ new, w'.calls = w.calls ++ new ∧ ∀ c ∈ new, c.ch.ptr = p
  get : ∀ q < w.table.brk, q ≠ p → w'.table.get q = w.table.get q
  registered : ∀ q, w.table.brk ≤ q → q < w'.table.brk → q ≠ p → (w'.table.get q).isSome

theorem World.OnlyOn.refl (p : Nat) (w : World σ κ) : w.OnlyOn p w :=
  ⟨Nat.le_refl _, ⟨[], by simp, nofun⟩, fun _ _ _ => rfl, fun q h h' => by omega⟩

theorem World.OnlyOn.trans {p : Nat} {w w' w'' : World σ κ} (h : w.OnlyOn p w')
    (h' : w'.OnlyOn p w'') : w.OnlyOn p w'' := by
  obtain ⟨new, hcalls, hnew⟩ := h.calls
  obtain ⟨new', hcalls', hnew'⟩ := h'.calls
  refine ⟨Nat.le_trans h.brk h'.brk, ⟨new ++ new', ?_, ?_⟩, ?_, ?_⟩
  · rw [hcalls', hcalls, List.append_assoc]
  · intro c hc
    rcases List.mem_append.mp hc with hc | hc
    · exact hnew c hc
    · exact hnew' c hc
  · intro q hq hne
    rw [h'.get q (Nat.lt_of_lt_of_le hq h.brk) hne, h.get q hq hne]
  · intro q hq hq' hne
    by_cases hlt : q < w'.table.brk
    · rw [h'.get q hlt hne]
      exact h.registered q hq hlt hne
    · exact h'.registered q (by omega) hq' hne

theorem World.onlyOn_modify (w : World σ κ) (p : Nat) {f : Channel κ → Channel κ}
    (hptr : ∀ ch, (f ch).ptr = ch.ptr) : w.OnlyOn p (w.modify p f) := by
  refine ⟨Nat.le_refl _, ⟨[], by simp [World.modify], nofun⟩, fun q _ hne => ?_, ?_⟩
  · show (w.table.modify p f).get q = w.table.get q
    rw [Table.get_modify _ _ _ hptr, if_neg hne]
  · intro q h h'
    exact absurd h (Nat.not_le_of_lt h')

theorem World.onlyOn_enter (cb : Callback σ κ) (w : World σ κ) (p : Nat) (data : List UInt8) :
    w.OnlyOn p (w.enter cb p data).1 := by
  unfold World.enter
  cases hget : w.table.get p with
  | none => exact OnlyOn.refl p w
  | some ch =>
    refine ⟨Table.brk_registerAll _ _, ⟨[⟨ch, data⟩], rfl, ?_⟩, fun q hq _ => ?_, ?_⟩
    · intro c hc
      rw [List.mem_singleton.mp hc]
      exact (Keyed.find_mem hget).2
    · exact Table.get_registerAll _ _ hq
    · intro q hq hq' _
      exact Table.isSome_get_registerAll _ _ q hq hq'

theorem World.onlyOn_unregister {w : World σ κ} (h : w.table.Inv) {p : Nat} {t : Table κ}
    (hun : channelUnregister w.table p = some t) : w.OnlyOn p { w with table := t } := by
  obtain ⟨ch, head, -, -, ht⟩ := channelUnregister_eq_some.mp hun
  have hbrk : t.brk = w.table.brk := by rw [ht]
  refine ⟨Nat.le_of_eq hbrk.symm, ⟨[], by simp, nofun⟩, fun q _ hne => ?_, ?_⟩
  · show t.get q = w.table.get q
    rw [h.get_channelUnregister hun, if_neg hne]
  · intro q hq hq'
    exact absurd hq' (by show ¬ q < t.brk; omega)

theorem World.inv_enter {w : World σ κ} (h : w.table.Inv) (cb : Callback σ κ) (p : Nat)
    (data : List UInt8) : (w.enter cb p data).1.table.Inv := by
  unfold World.enter
  cases w.table.get p with
  | none => exact h
  | some ch => exact h.registerAll _

end Despotify.Channels

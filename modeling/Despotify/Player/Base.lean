import Despotify.Player.Requests
import Despotify.Pool.Runs

/-!
# The queue of requests

In every run the requests not answered to the end are some keys and then at
most one substream, which is for the current track at the current offset while
`dlstate` is `DL_FILLING_BUSY` (`Base`, `exists_base`).

* `enqueued_*`: what a call of `snd_ioctl` pushes.
* `Base.*`: what each case of `Moved` leaves of the queue.
-/

namespace Despotify.Player

open Runs

variable {A : Type}

/-! ## What the callbacks push -/

/-- Entry `b` is hooked in, or, with `dlabort`, nothing happens. -/
def Enqueued (ds ds' : Ds A) (b : Buffer) : Prop :=
  (ds.dlabort = true ∧ ds' = ds) ∨
    (ds.dlabort = false ∧ ∃ f, ds.fifo = some f ∧
      ds' = { ds with
        fifo := some ⟨f.buffers ++ [b], f.totbytes + b.length, b.cmd⟩
        pushed := b :: ds.pushed })

theorem enqueued_of_enqueue {ds ds' : Ds A} {b : Buffer}
    (hd : ds.dlabort = false) (h : enqueue ds b = some ds') : Enqueued ds ds' b := by
  obtain ⟨f, hf, rfl⟩ := Option.map_eq_some_iff.mp h
  exact Or.inr ⟨hd, f, hf, rfl⟩

theorem enqueued_start {ds ds' : Ds A} {t : Track} {next : List Track}
    (h : sndIoctlStart ds t next = some ds') : Enqueued ds ds' (.start t next) := by
  unfold sndIoctlStart at h
  split at h
  · rename_i hd
    cases h
    exact Or.inl ⟨hd, rfl⟩
  · rename_i hd
    exact enqueued_of_enqueue (by simpa using hd) h

/-- What is left when the first page is dropped is a piece of the data. -/
theorem dropFirstPage_sublist (mem : List Cell) (length : Nat) :
    (dropFirstPage mem length).Sublist (mem.take length) := by
  unfold dropFirstPage
  split
  · dsimp only
    split
    · exact List.drop_sublist _ _
    · exact List.Sublist.refl _
  · exact List.Sublist.refl _

/-- The data pushed are a piece of the packet, the whole packet unless it is the
first after `SND_CMD_START`. -/
theorem enqueued_data {ds ds' : Ds A} {mem : List Cell} {length : Nat}
    (h : sndIoctlData ds mem length = some ds') :
    ∃ bytes, Enqueued ds ds' (.data bytes 0) ∧ bytes.Sublist (mem.take length) ∧
      ∀ f, ds.fifo = some f → f.lastcmd ≠ .start → bytes = mem.take length := by
  unfold sndIoctlData at h
  split at h
  · rename_i hd
    cases h
    exact ⟨mem.take length, Or.inl ⟨hd, rfl⟩, List.Sublist.refl _, fun _ _ _ => rfl⟩
  · rename_i hd
    split at h
    · cases h
    · rename_i f hf
      refine ⟨_, enqueued_of_enqueue (by simpa using hd) h, ?_, fun f' hf' hlast => ?_⟩
      · split
        · exact dropFirstPage_sublist mem length
        · exact List.Sublist.refl _
      · cases hf.symm.trans hf'
        rw [if_neg hlast]

/-- `SND_CMD_END` may also set `dlstate`. -/
theorem enqueued_end {ds ds' : Ds A} (h : sndIoctlEnd ds = some ds') :
    ∃ dlstate, Enqueued { ds with dlstate := dlstate } ds' .ended := by
  obtain ⟨dlstate, hds⟩ : ∃ dlstate, (if ds.track.isEmpty then { ds with dlstate := .endOfList }
      else ds) = { ds with dlstate := dlstate } := by
    split
    · exact ⟨_, rfl⟩
    · exact ⟨ds.dlstate, rfl⟩
  refine ⟨dlstate, ?_⟩
  unfold sndIoctlEnd at h
  dsimp only at h
  rw [hds] at h
  split at h
  · rename_i hd
    cases h
    exact Or.inl ⟨hd, rfl⟩
  · rename_i hd
    split at h
    · cases h
    · split at h
      · cases h
      · exact enqueued_of_enqueue (by simpa using hd) h

theorem sndIoctlStart_some (ds : Ds A) (t : Track) (next : List Track) (hfifo : ds.fifo ≠ none) :
    ∃ ds', sndIoctlStart ds t next = some ds' := by
  obtain ⟨f, hf⟩ := Option.ne_none_iff_exists'.mp hfifo
  unfold sndIoctlStart
  split
  · exact ⟨_, rfl⟩
  · exact ⟨_, by rw [enqueue, hf]; rfl⟩

theorem substreamData_some (env : Env A) {ds : Ds A} (buf : List Cell) (mem : List UInt8)
    (hfifo : ds.fifo ≠ none) : ∃ ds', substreamData env ds buf mem = some ds' := by
  obtain ⟨f, hf⟩ := Option.ne_none_iff_exists'.mp hfifo
  unfold substreamData sndIoctlData
  dsimp only
  split
  · exact ⟨_, rfl⟩
  · rw [hf]
    exact ⟨_, rfl⟩

theorem Enqueued.fifo {ds ds' : Ds A} {b : Buffer} (h : Enqueued ds ds' b) :
    ds'.fifo = none → ds.fifo = none := by
  rcases h with ⟨-, rfl⟩ | ⟨-, f, -, rfl⟩
  · exact fun h => h
  · exact nofun

theorem Enqueued.pushed {ds ds' : Ds A} {b : Buffer} (h : Enqueued ds ds' b) :
    ds'.pushed = ds.pushed ∨ ds'.pushed = b :: ds.pushed := by
  rcases h with ⟨-, rfl⟩ | ⟨-, f, -, rfl⟩
  · exact Or.inl rfl
  · exact Or.inr rfl

/-- The end of a substream: `dlstate` steps down. -/
structure Ended (s s' : Sys A) (queue : List Request) : Prop where
  idle : s'.ds.dlstate ≠ .fillingBusy
  fifo : s'.ds.fifo = none → s.ds.fifo = none
  pushed : s'.ds.pushed = s.ds.pushed ∨ s'.ds.pushed = .ended :: s.ds.pushed
  queue : s'.queue = queue ∨ ∃ t, s'.queue = queue ++ [.key t]

theorem ended_channelEnd {s s1 : Sys A} {queue : List Request}
    (hfifo : s1.ds.fifo = none → s.ds.fifo = none)
    (hpushed : s1.ds.pushed = s.ds.pushed ∨ s1.ds.pushed = .ended :: s.ds.pushed)
    (hqueue : s1.queue = queue ∨ ∃ t, s1.queue = queue ++ [.key t]) :
    Ended s { s1 with ds := sndIoctlChannelEnd s1.ds } queue := by
  unfold sndIoctlChannelEnd
  split
  · exact ⟨nofun, hfifo, hpushed, hqueue⟩
  · split
    · exact ⟨nofun, hfifo, hpushed, hqueue⟩
    · rename_i h
      exact ⟨by rw [not_not.mp h]; nofun, hfifo, hpushed, hqueue⟩

theorem cmdAeskey_ds (s : Sys A) (t : Track) (ok : Bool) : (cmdAeskey s t ok).ds = s.ds := by
  cases ok <;> rfl

theorem cmdAeskey_queue (s : Sys A) (t : Track) (ok : Bool) :
    (cmdAeskey s t ok).queue = s.queue ∨
      ∃ t', (cmdAeskey s t ok).queue = s.queue ++ [.key t'] := by
  cases ok with
  | true => exact Or.inr ⟨t, rfl⟩
  | false => exact Or.inl rfl

theorem substreamEnd_ended {s s' : Sys A} {total : Nat} {queue : List Request} {keyOk : Bool}
    (h : substreamEnd s total queue keyOk = some s') : Ended s s' queue := by
  unfold substreamEnd at h
  dsimp only at h
  split at h
  · split at h
    · cases h
    · obtain ⟨ds, hds, rfl⟩ := Option.map_eq_some_iff.mp h
      obtain ⟨dlstate, hq⟩ := enqueued_end hds
      apply ended_channelEnd
      · split
        · split
          · rw [cmdAeskey_ds]
            exact hq.fifo
          · exact hq.fifo
        · exact hq.fifo
      · split
        · split
          · rw [cmdAeskey_ds]
            exact hq.pushed
          · exact hq.pushed
        · exact hq.pushed
      · split
        · split
          · exact cmdAeskey_queue _ _ _
          · exact Or.inl rfl
        · exact Or.inl rfl
  · cases h
    have hended : Ended s { s with
        ds := sndIoctlChannelEnd { s.ds with errorcount := 0, offset := s.ds.offset + total }
        queue := queue } queue :=
      @ended_channelEnd A s { s with
        ds := { s.ds with errorcount := 0, offset := s.ds.offset + total }, queue := queue } queue
        (fun h => h) (Or.inl rfl) (Or.inl rfl)
    exact hended

/-- `snd_fill_fifo` sends a request. -/
theorem step_fill {env : Env A} {s : Sys A} {f : Fifo} {t : Track} {rest : List Track}
    (hplayer : s.player = .idle) (hf : s.ds.fifo = some f) (hab : s.ds.dlabort = false)
    (hwants : wantsData s.ds f = true) (htrack : s.ds.track = t :: rest)
    (hoff : s.ds.offset % 4096 = 0) :
    step env s (.fill true) = some { s with
      ds := { s.ds with dlstate := .fillingBusy }
      queue := s.queue ++ [.substream t s.ds.offset 0] } := by
  simp [step, hplayer, hf, sndFillFifo, hab, hwants, readStream, htrack, hoff]

/-! ## The shape of the queue -/

/-- The requests in the order they were sent. -/
def mkQueue (keys : List Track) : Option (Track × Nat × Nat) → List Request
  | none => keys.map .key
  | some (t, offset, received) => keys.map .key ++ [.substream t offset received]

theorem mkQueue_cons (t : Track) (keys : List Track) (sub : Option (Track × Nat × Nat)) :
    mkQueue (t :: keys) sub = .key t :: mkQueue keys sub := by
  cases sub <;> rfl

theorem mkQueue_key (keys : List Track) (t : Track) :
    mkQueue keys none ++ [.key t] = mkQueue (keys ++ [t]) none := by
  simp [mkQueue]

theorem mkQueue_eq_key {keys : List Track} {sub : Option (Track × Nat × Nat)} {t : Track}
    {queue : List Request} (h : mkQueue keys sub = .key t :: queue) :
    ∃ keys', keys = t :: keys' ∧ queue = mkQueue keys' sub := by
  cases keys with
  | nil => cases sub <;> cases h
  | cons k keys =>
    rw [mkQueue_cons] at h
    cases h
    exact ⟨keys, rfl, rfl⟩

theorem mkQueue_eq_substream {keys : List Track} {sub : Option (Track × Nat × Nat)} {t : Track}
    {offset received : Nat} {queue : List Request}
    (h : mkQueue keys sub = .substream t offset received :: queue) :
    keys = [] ∧ sub = some (t, offset, received) ∧ queue = [] := by
  cases keys with
  | nil =>
    cases sub with
    | none => cases h
    | some sub =>
      cases h
      exact ⟨rfl, rfl, rfl⟩
  | cons k keys =>
    rw [mkQueue_cons] at h
    cases h

theorem countP_mkQueue (keys : List Track) (sub : Option (Track × Nat × Nat)) :
    (mkQueue keys sub).countP Request.isSubstream = if sub = none then 0 else 1 := by
  have hkeys : (keys.map Request.key).countP Request.isSubstream = 0 := by
    rw [List.countP_map, List.countP_eq_zero]
    exact fun _ _ => nofun
  cases sub with
  | none => exact hkeys
  | some sub =>
    obtain ⟨t, offset, received⟩ := sub
    simp only [mkQueue, List.countP_append, hkeys]
    rfl

/-- The queue is some keys and at most one substream; the substream is for the
current track at the current offset, and `dlstate` says it is busy. -/
structure Base (s : Sys A) (keys : List Track) (sub : Option (Track × Nat × Nat)) : Prop where
  queue : s.queue = mkQueue keys sub
  busy : sub ≠ none → s.ds.dlstate = .fillingBusy
  track : ∀ t offset received, sub = some (t, offset, received) →
    s.ds.track.head? = some t ∧ s.ds.offset = offset ∧ offset % 4096 = 0 ∧
      (keys ≠ [] → received = 0)
  fifo : s.ds.fifo = none → s.ds.dlstate ≠ .fillingBusy

namespace Base

variable {env : Env A} {s s' : Sys A} {keys : List Track} {sub : Option (Track × Nat × Nat)}

theorem init (st : A) : Base (Sys.init st) [] none :=
  ⟨rfl, fun h => absurd rfl h, nofun, nofun⟩

theorem no_sub (h : Base s keys sub) (hidle : s.ds.dlstate ≠ .fillingBusy) : sub = none := by
  by_contra hne
  exact hidle (h.busy hne)

/-- A state with no substream on its way. -/
theorem of_keys (hfifo : s.ds.fifo = none → s.ds.dlstate ≠ .fillingBusy)
    (hqueue : s.queue = mkQueue keys none) : Base s keys none :=
  ⟨hqueue, fun h => absurd rfl h, nofun, hfifo⟩

theorem of_keys_or_key (keys : List Track) (hidle : s'.ds.dlstate ≠ .fillingBusy)
    (hqueue : s'.queue = mkQueue keys none ∨ ∃ t, s'.queue = mkQueue keys none ++ [.key t]) :
    ∃ keys', Base s' keys' none := by
  rcases hqueue with hqueue | ⟨t, hqueue⟩
  · exact ⟨keys, of_keys (fun _ => hidle) hqueue⟩
  · rw [mkQueue_key] at hqueue
    exact ⟨keys ++ [t], of_keys (fun _ => hidle) hqueue⟩

theorem quiet (h : Base s keys sub) (hq : Quiet s s') : Base s' keys sub where
  queue := hq.queue.trans h.queue
  busy := fun hne => hq.busy.mpr (h.busy hne)
  track := by rw [hq.track, hq.offset]; exact h.track
  fifo := fun hn hb => h.fifo (hq.fifo hn) (hq.busy.mp hb)

theorem restart (h : Base s keys sub) (hr : Restart s s') : ∃ keys', Base s' keys' none := by
  have hsub := h.no_sub hr.idle
  subst hsub
  apply of_keys_or_key keys hr.idle'
  rw [← h.queue]
  exact hr.queue

theorem wantsData_idle {ds : Ds A} {f : Fifo} (h : wantsData ds f = true) :
    ds.dlstate ≠ .fillingBusy := by
  intro hb
  simp [wantsData, hb] at h

/-- `snd_fill_fifo` requests data. -/
theorem request (h : Base s keys sub) {ok : Bool} (hidle : s.ds.dlstate ≠ .fillingBusy)
    (hfifo : s.ds.fifo ≠ none) (hr : readStream s ok = some s') :
    ∃ t rest, s.ds.track = t :: rest ∧ s'.ds = { s.ds with dlstate := .fillingBusy } ∧
      Base s' keys (if ok then some (t, s.ds.offset, 0) else none) := by
  have hsub := h.no_sub hidle
  subst hsub
  unfold readStream at hr
  split at hr
  · cases hr
  · rename_i t rest htrack
    split at hr
    · cases hr
    · rename_i hoff
      cases hr
      refine ⟨t, rest, htrack, rfl, ?_⟩
      cases ok with
      | true =>
        refine ⟨by rw [if_pos rfl, if_pos rfl, h.queue]; rfl, fun _ => rfl, ?_,
          fun hn => absurd hn hfifo⟩
        rintro t' offset received ⟨⟩
        exact ⟨by rw [htrack]; rfl, rfl, not_not.mp hoff, fun _ => rfl⟩
      | false => exact of_keys (fun hn => absurd hn hfifo) h.queue

/-- A key is answered, by the key or by an error. -/
theorem answered (h : Base s keys sub) (s' : Sys A) {t : Track} {queue : List Request}
    (hqueue : s.queue = .key t :: queue) (hq' : s'.queue = queue)
    (htrack : s'.ds.track = s.ds.track) (hoffset : s'.ds.offset = s.ds.offset)
    (hdl : s'.ds.dlstate = s.ds.dlstate) (hfifo : s'.ds.fifo = none → s.ds.fifo = none) :
    ∃ keys', keys = t :: keys' ∧ Base s' keys' sub := by
  obtain ⟨keys', rfl, rfl⟩ := mkQueue_eq_key (h.queue.symm.trans hqueue)
  refine ⟨keys', rfl, hq', ?_, ?_, ?_⟩
  · rw [hdl]
    exact h.busy
  · intro t' offset received hsub
    obtain ⟨h1, h2, h3, h4⟩ := h.track t' offset received hsub
    rw [htrack, hoffset]
    exact ⟨h1, h2, h3, fun _ => h4 nofun⟩
  · intro hn
    rw [hdl]
    exact h.fifo (hfifo hn)

theorem aesKey (h : Base s keys sub) {t : Track} {queue : List Request}
    (hqueue : s.queue = .key t :: queue) (ha : aesCallback env s t queue = some s') :
    ∃ keys' cur rest, keys = t :: keys' ∧ s.ds.track = cur :: rest ∧ Base s' keys' sub ∧
      Enqueued { s.ds with aesState := env.keySetup (env.key t), iv := IV0 } s'.ds
        (.start cur rest) := by
  unfold aesCallback at ha
  split at ha
  · cases ha
  · rename_i cur rest htrack
    obtain ⟨ds, hds, rfl⟩ := Option.map_eq_some_iff.mp ha
    have hq := enqueued_start hds
    have hsame : ds.track = s.ds.track ∧ ds.offset = s.ds.offset ∧
        ds.dlstate = s.ds.dlstate := by
      rcases hq with ⟨-, rfl⟩ | ⟨-, f, -, rfl⟩
      · exact ⟨rfl, rfl, rfl⟩
      · exact ⟨rfl, rfl, rfl⟩
    obtain ⟨keys', hkeys, hb⟩ := h.answered { s with ds := ds, queue := queue }
      hqueue rfl hsame.1 hsame.2.1 hsame.2.2 hq.fifo
    exact ⟨keys', cur, rest, hkeys, htrack, hb, hq⟩

theorem aesKeyErr (h : Base s keys sub) {t : Track} {queue : List Request}
    (hqueue : s.queue = .key t :: queue) :
    ∃ keys', keys = t :: keys' ∧ Base { s with queue := queue } keys' sub :=
  h.answered { s with queue := queue } hqueue rfl rfl rfl rfl fun h => h

/-- A packet of a substream. -/
theorem data (h : Base s keys sub) {t : Track} {offset received : Nat} {queue : List Request}
    (hqueue : s.queue = .substream t offset received :: queue) {buf : List Cell}
    {mem : List UInt8} {ds : Ds A} (hds : substreamData env s.ds buf mem = some ds) (n : Nat) :
    keys = [] ∧ sub = some (t, offset, received) ∧
      Base { s with ds := ds, queue := .substream t offset (received + n) :: queue } []
        (some (t, offset, received + n)) := by
  obtain ⟨rfl, rfl, rfl⟩ := mkQueue_eq_substream (h.queue.symm.trans hqueue)
  obtain ⟨h1, h2, h3, -⟩ := h.track t offset received rfl
  obtain ⟨bytes, hq, -, -⟩ := enqueued_data hds
  have hfifo := hq.fifo
  have hsame : ds.track = s.ds.track ∧ ds.offset = s.ds.offset ∧
      ds.dlstate = s.ds.dlstate := by
    rcases hq with ⟨-, rfl⟩ | ⟨-, f, -, rfl⟩
    · exact ⟨rfl, rfl, rfl⟩
    · exact ⟨rfl, rfl, rfl⟩
  obtain ⟨htrack, hoffset, hdl⟩ := hsame
  refine ⟨rfl, rfl, rfl, fun _ => hdl.trans (h.busy nofun), ?_, ?_⟩
  · rintro t' offset' received' ⟨⟩
    exact ⟨by rw [htrack]; exact h1, hoffset.trans h2, h3, fun hne => absurd rfl hne⟩
  · intro hn
    rw [hdl]
    exact h.fifo (hfifo hn)

/-- A substream is answered to the end. -/
theorem ended (h : Base s keys sub) {t : Track} {offset received : Nat} {queue : List Request}
    (hqueue : s.queue = .substream t offset received :: queue) (he : Ended s s' queue) :
    ∃ keys', Base s' keys' none := by
  obtain ⟨rfl, rfl, rfl⟩ := mkQueue_eq_substream (h.queue.symm.trans hqueue)
  exact of_keys_or_key [] he.idle he.queue

/-- A substream fails. -/
theorem failed (h : Base s keys sub) {t : Track} {offset received : Nat} {queue : List Request}
    (hqueue : s.queue = .substream t offset received :: queue) (n : Nat) :
    s.ds.dlstate = .fillingBusy ∧
      Base { s with ds := { s.ds with errorcount := n }, queue := queue } [] none := by
  obtain ⟨rfl, rfl, rfl⟩ := mkQueue_eq_substream (h.queue.symm.trans hqueue)
  exact ⟨h.busy nofun, of_keys h.fifo rfl⟩

/-- Every step keeps the shape of the queue. -/
theorem kept {e : Event} (h : Base s keys sub) (hs : step env s e = some s') :
    ∃ keys' sub', Base s' keys' sub' := by
  cases step_moved h.fifo hs with
  | quiet hq => exact ⟨keys, sub, h.quiet hq⟩
  | restart hr =>
    obtain ⟨keys', hb⟩ := h.restart hr
    exact ⟨keys', none, hb⟩
  | request hfifo _ _ hwants hr =>
    obtain ⟨t, rest, -, -, hb⟩ := h.request (wantsData_idle hwants) (by rw [hfifo]; nofun) hr
    exact ⟨keys, _, hb⟩
  | aesKey hqueue ha =>
    obtain ⟨keys', cur, rest, -, -, hb, -⟩ := h.aesKey hqueue ha
    exact ⟨keys', sub, hb⟩
  | aesKeyErr hqueue hs' =>
    subst hs'
    obtain ⟨keys', -, hb⟩ := h.aesKeyErr hqueue
    exact ⟨keys', sub, hb⟩
  | data hqueue _ hds hs' =>
    subst hs'
    obtain ⟨-, -, hb⟩ := h.data hqueue hds _
    exact ⟨[], _, hb⟩
  | substreamEnd hqueue hend =>
    obtain ⟨keys', hb⟩ := h.ended hqueue (substreamEnd_ended hend)
    exact ⟨keys', none, hb⟩
  | substreamError hqueue hs' =>
    subst hs'
    exact ⟨[], none, (h.failed hqueue _).2⟩

end Base

/-- In every run the queue has this shape. -/
theorem exists_base {env : Env A} {st : A} {s : Sys A}
    (h : Reachable (step env) (Sys.init st) s) : ∃ keys sub, Base s keys sub := by
  have hstep : ∀ s e s', (∃ keys sub, Base s keys sub) → step env s e = some s' →
      ∃ keys sub, Base s' keys sub := by
    rintro s e s' ⟨keys, sub, hb⟩ hs
    exact hb.kept hs
  exact h.inv hstep ⟨[], none, Base.init st⟩

end Despotify.Player

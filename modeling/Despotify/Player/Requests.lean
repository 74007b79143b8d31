import Despotify.Player.Model

/-!
# What a step of the player does to the requests

Most steps leave the download alone; the others are the ones that `Moved`
lists.  Every invariant of the player is proved from that list.

* `Quiet`: no request, key or counter is touched.
* `Restart`: a user call ran through `snd_stop` or `snd_init`.
* `step_moved`: every step is one of the cases of `Moved`.
-/

namespace Despotify.Player

variable {A : Type}

/-! ## Steps that leave the download alone -/

/-- Only thread positions, fifo, `dlabort` and `dlstate` change, and while a
substream is busy `dlstate` and `dlabort` are not cleared. -/
structure Quiet (s s' : Sys A) : Prop where
  track : s'.ds.track = s.ds.track
  offset : s'.ds.offset = s.ds.offset
  aesState : s'.ds.aesState = s.ds.aesState
  iv : s'.ds.iv = s.ds.iv
  pushed : s'.ds.pushed = s.ds.pushed
  queue : s'.queue = s.queue
  busy : s'.ds.dlstate = .fillingBusy ↔ s.ds.dlstate = .fillingBusy
  abort : s.ds.dlstate = .fillingBusy → s.ds.dlabort = true → s'.ds.dlabort = true
  fifo : s'.ds.fifo = none → s.ds.fifo = none

/-- A user call after its `snd_stop` or `snd_init`: no substream is on its way
before or after, and at most a key is asked for. -/
structure Restart (s s' : Sys A) : Prop where
  idle : s.ds.dlstate ≠ .fillingBusy
  idle' : s'.ds.dlstate ≠ .fillingBusy
  pushed : s'.ds.pushed = s.ds.pushed
  queue : s'.queue = s.queue ∨ ∃ t, s'.queue = s.queue ++ [.key t]

theorem sndStopEnter_busy (ds : Ds A) : (sndStopEnter ds).dlstate = ds.dlstate := by
  unfold sndStopEnter
  split <;> rfl

theorem sndStopEnter_fifo (ds : Ds A) : (sndStopEnter ds).fifo = ds.fifo := by
  unfold sndStopEnter
  split <;> rfl

theorem sndStopEnter_pushed (ds : Ds A) : (sndStopEnter ds).pushed = ds.pushed := by
  unfold sndStopEnter
  split <;> rfl

theorem sndStopEnter_abort {ds : Ds A} (h : ds.dlstate = .fillingBusy) :
    (sndStopEnter ds).dlabort = true := by
  simp [sndStopEnter, h]

theorem Quiet.refl (s : Sys A) : Quiet s s :=
  ⟨rfl, rfl, rfl, rfl, rfl, rfl, Iff.rfl, fun _ h => h, fun h => h⟩

theorem Quiet.trans {s s1 s' : Sys A} (h : Quiet s s1) (h' : Quiet s1 s') : Quiet s s' where
  track := h'.track.trans h.track
  offset := h'.offset.trans h.offset
  aesState := h'.aesState.trans h.aesState
  iv := h'.iv.trans h.iv
  pushed := h'.pushed.trans h.pushed
  queue := h'.queue.trans h.queue
  busy := h'.busy.trans h.busy
  abort := fun hb ha => h'.abort (h.busy.mpr hb) (h.abort hb ha)
  fifo := fun hn => h.fifo (h'.fifo hn)

theorem quiet_sndStopEnter (s : Sys A) (user : UserPc) (player : PlayerPc) :
    Quiet s { s with ds := sndStopEnter s.ds, user := user, player := player } := by
  unfold sndStopEnter
  split
  · exact ⟨rfl, rfl, rfl, rfl, rfl, rfl, Iff.rfl, fun _ _ => rfl, fun h => h⟩
  · exact ⟨rfl, rfl, rfl, rfl, rfl, rfl, Iff.rfl, fun _ h => h, fun h => h⟩

theorem quiet_sndStopLeave {s : Sys A} (h : s.ds.dlstate ≠ .fillingBusy)
    (user : UserPc) (player : PlayerPc) :
    Quiet s { s with ds := sndStopLeave s.ds, user := user, player := player } := by
  refine ⟨rfl, rfl, rfl, rfl, rfl, rfl, ?_, fun hb => absurd hb h, ?_⟩
  · exact iff_of_false (by simp [sndStopLeave]) h
  · intro hn
    simpa [sndStopLeave] using hn

theorem quiet_endOfPlaylist (s : Sys A) : Quiet s { s with ds := endOfPlaylist s.ds } :=
  ⟨rfl, rfl, rfl, rfl, rfl, rfl, Iff.rfl, fun _ h => h, fun h => h⟩

/-- `snd_consume_data` touches the queue of buffers, and may call `snd_stop`. -/
theorem quiet_sndConsumeData {s : Sys A} (f : Fifo) (req total : Nat) :
    Quiet s (sndConsumeData s f req total) := by
  have hq : ∀ (f' : Fifo) (notices : List Notice) (player : PlayerPc),
      Quiet s { s with
        ds := { s.ds with fifo := some f', notices := notices }, player := player } :=
    fun f' notices player =>
      ⟨rfl, rfl, rfl, rfl, rfl, rfl, Iff.rfl, fun _ h => h, nofun⟩
  unfold sndConsumeData
  dsimp only
  split
  · exact hq _ _ _
  · exact hq _ _ _
  · have h1 := (hq { f with
        buffers := (consumeLoop req f.totbytes total s.ds.notices f.buffers).buffers
        totbytes := (consumeLoop req f.totbytes total s.ds.notices f.buffers).totbytes }
      (consumeLoop req f.totbytes total s.ds.notices f.buffers).notices s.player).trans
      (quiet_sndStopEnter _ s.user .stopping)
    split
    · exact h1
    · rename_i hb
      exact (h1.trans (quiet_sndStopLeave hb s.user .idle)).trans (quiet_endOfPlaylist _)

theorem quiet_draining {s : Sys A} (h : s.ds.dlstate ≠ .fillingBusy) (player : PlayerPc) :
    Quiet s { s with ds := { s.ds with dlstate := .draining }, player := player } :=
  ⟨rfl, rfl, rfl, rfl, rfl, rfl, iff_of_false nofun h, fun hb => absurd hb h, fun h => h⟩

/-- `snd_fill_fifo`, unless it requests data. -/
theorem sndFillFifo_cases {s s' : Sys A} {f : Fifo} {ok : Bool}
    (h : sndFillFifo s f ok = some s') :
    Quiet s s' ∨ (s.ds.dlabort = false ∧ wantsData s.ds f = true ∧ readStream s ok = some s') := by
  unfold sndFillFifo at h
  split at h
  · split at h
    · cases h
      exact Or.inl ⟨rfl, rfl, rfl, rfl, rfl, rfl, Iff.rfl, fun _ h => h, fun h => h⟩
    · rename_i hb
      cases h
      exact Or.inl (quiet_draining hb s.player)
  · rename_i ha
    split at h
    · rename_i hw
      exact Or.inr ⟨by simpa using ha, hw, h⟩
    · split at h
      · rename_i hst
        cases h
        exact Or.inl (quiet_draining (by rw [hst]; nofun) s.player)
      · cases h
        exact Or.inl (Quiet.refl s)

/-! ## User calls -/

/-- `despotify_play` behind `snd_stop`. -/
theorem restart_play {s : Sys A} (hidle : s.ds.dlstate ≠ .fillingBusy) (t : Track)
    (rest : List Track) (asList notifyOk keyOk : Bool) :
    Restart s (play s t rest asList notifyOk keyOk) := by
  unfold play
  cases notifyOk with
  | false => exact ⟨hidle, hidle, rfl, Or.inl rfl⟩
  | true =>
    cases keyOk with
    | true => exact ⟨hidle, hidle, rfl, Or.inr ⟨t, rfl⟩⟩
    | false => exact ⟨hidle, hidle, rfl, Or.inl rfl⟩

theorem sndNext_eq (ds : Ds A) :
    ∃ fifo notices, (sndNext ds).1 = { ds with fifo := fifo, notices := notices } := by
  unfold sndNext
  split
  · exact ⟨ds.fifo, ds.notices, rfl⟩
  · exact ⟨_, _, rfl⟩

theorem restart_next {s s' : Sys A} (hidle : s.ds.dlstate ≠ .fillingBusy)
    {notifyOk keyOk : Bool} (h : next s notifyOk keyOk = some s') : Restart s s' := by
  unfold next at h
  obtain ⟨fifo, notices, hds⟩ := sndNext_eq s.ds
  dsimp only at h
  rw [hds] at h
  split at h
  · cases h
    exact ⟨hidle, hidle, rfl, Or.inl rfl⟩
  · obtain ⟨track, -, rfl⟩ := Option.map_eq_some_iff.mp h
    cases track with
    | nil => exact ⟨hidle, hidle, rfl, Or.inl rfl⟩
    | cons t rest =>
      have hr := restart_play (s := resetOffset { s with
        ds := sndStopLeave (sndStopEnter { s.ds with fifo := fifo, notices := notices, track := t :: rest }) })
        (by simp [resetOffset, sndStopLeave]) t rest
        (sndStopLeave (sndStopEnter { s.ds with fifo := fifo, notices := notices, track := t :: rest })).playAsList
        notifyOk keyOk
      exact ⟨hidle, hr.idle', hr.pushed.trans (sndStopEnter_pushed _), hr.queue⟩

/-- What a user call does once it does not wait. -/
theorem restart_userFinish {s s' : Sys A} (hidle : s.ds.dlstate ≠ .fillingBusy)
    {call : UserCall} (h : userFinish s call = some s') : Restart s s' := by
  cases call with
  | play t rest asList notifyOk keyOk =>
    cases h
    exact restart_play hidle t rest asList notifyOk keyOk
  | next notifyOk keyOk => exact restart_next hidle h
  | stop =>
    cases h
    exact ⟨hidle, hidle, rfl, Or.inl rfl⟩

/-- After the wait loop of `snd_stop`. -/
theorem restart_stopped {s s' : Sys A} {ds : Ds A} (hidle : s.ds.dlstate ≠ .fillingBusy)
    (hpushed : ds.pushed = s.ds.pushed) (user : UserPc) {call : UserCall}
    (h : userFinish (resetOffset { s with ds := sndStopLeave ds, user := user }) call = some s') :
    Restart s s' := by
  have hr := restart_userFinish (by simp [resetOffset, sndStopLeave]) h
  exact ⟨hidle, hr.idle', hr.pushed.trans hpushed, hr.queue⟩

theorem userCall_cases {s s' : Sys A} (hfifo : s.ds.fifo = none → s.ds.dlstate ≠ .fillingBusy)
    {call : UserCall} (h : userCall s call = some s') : Quiet s s' ∨ Restart s s' := by
  unfold userCall at h
  split at h
  · rename_i hn
    have hinit : ({ s with ds := sndInit s.ds } : Sys A).ds.dlstate ≠ .fillingBusy := nofun
    split at h
    · cases h
      exact Or.inl (Quiet.refl s)
    · have hr := restart_userFinish hinit h
      exact Or.inr ⟨hfifo hn, hr.idle', hr.pushed, hr.queue⟩
  · dsimp only at h
    split at h
    · cases h
      exact Or.inl (quiet_sndStopEnter s _ s.player)
    · rename_i hb
      rw [sndStopEnter_busy] at hb
      exact Or.inr (restart_stopped hb (sndStopEnter_pushed s.ds) s.user h)

/-! ## The cases of a step -/

/-- What an event does: nothing to the download, or what its callback does. -/
inductive Moved (env : Env A) (s s' : Sys A) : Event → Prop
  | quiet {e : Event} (h : Quiet s s') : Moved env s s' e
  | restart {e : Event} (h : Restart s s') : Moved env s s' e
  | request {ok : Bool} {f : Fifo} (hfifo : s.ds.fifo = some f) (hidle : s.player = .idle)
      (habort : s.ds.dlabort = false) (hwants : wantsData s.ds f = true)
      (h : readStream s ok = some s') : Moved env s s' (.fill ok)
  | aesKey {t : Track} {queue : List Request} (hqueue : s.queue = .key t :: queue)
      (h : aesCallback env s t queue = some s') : Moved env s s' .aesKey
  | aesKeyErr {t : Track} {queue : List Request} (hqueue : s.queue = .key t :: queue)
      (h : s' = { s with queue := queue }) : Moved env s s' .aesKeyErr
  | data {n : Nat} {mem : List UInt8} {t : Track} {offset received : Nat} {queue : List Request}
      {ds : Ds A} (hqueue : s.queue = .substream t offset received :: queue)
      (hlength : mem.length = n + 1024)
      (hds : substreamData env s.ds
        ((List.range n).map fun i => wireCell env t (offset + received + i)) mem = some ds)
      (h : s' = { s with ds := ds, queue := .substream t offset (received + n) :: queue }) :
      Moved env s s' (.data n mem)
  | substreamEnd {keyOk : Bool} {t : Track} {offset received : Nat} {queue : List Request}
      (hqueue : s.queue = .substream t offset received :: queue)
      (h : substreamEnd s received queue keyOk = some s') : Moved env s s' (.substreamEnd keyOk)
  | substreamError {t : Track} {offset received : Nat} {queue : List Request}
      (hqueue : s.queue = .substream t offset received :: queue)
      (h : s' = { s with
        ds := { s.ds with errorcount := s.ds.errorcount + 1 }, queue := queue }) :
      Moved env s s' .substreamError

theorem step_moved {env : Env A} {s s' : Sys A} {e : Event}
    (hfifo : s.ds.fifo = none → s.ds.dlstate ≠ .fillingBusy) (h : step env s e = some s') :
    Moved env s s' e := by
  cases e with
  | user call =>
    simp only [step] at h
    split at h
    · rcases userCall_cases hfifo h with hq | hr
      · exact .quiet hq
      · exact .restart hr
    · cases h
  | userWake =>
    simp only [step] at h
    split at h
    · split at h
      · cases h
      · rename_i hb
        exact .restart (restart_stopped hb rfl _ h)
    · cases h
  | fill ok =>
    simp only [step] at h
    split at h
    · rename_i f hp hf
      rcases sndFillFifo_cases h with hq | ⟨ha, hw, hr⟩
      · exact .quiet hq
      · exact .request hf hp ha hw hr
    · cases h
  | fillWake =>
    simp only [step] at h
    split at h
    · rename_i hc
      cases h
      exact .quiet (quiet_draining hc.2 .idle)
    · cases h
  | consume req =>
    simp only [step] at h
    split at h
    · split at h
      · cases h
        exact .quiet (quiet_sndConsumeData _ req 0)
      · cases h
    · cases h
  | consumeWake =>
    simp only [step] at h
    split at h
    · split at h
      · cases h
        exact .quiet ⟨rfl, rfl, rfl, rfl, rfl, rfl, Iff.rfl, fun _ h => h, fun h => h⟩
      · cases h
        exact .quiet (quiet_sndConsumeData _ _ _)
    · cases h
  | stopWake =>
    simp only [step] at h
    split at h
    · rename_i hc
      cases h
      exact .quiet ((quiet_sndStopLeave hc.2 s.user .idle).trans (quiet_endOfPlaylist _))
    · cases h
  | aesKey =>
    simp only [step] at h
    split at h
    · rename_i hq
      exact .aesKey hq h
    · cases h
  | aesKeyErr =>
    simp only [step] at h
    split at h
    · rename_i hq
      cases h
      exact .aesKeyErr hq rfl
    · cases h
  | data n mem =>
    simp only [step] at h
    split at h
    · rename_i hq
      split at h
      · rename_i hn
        obtain ⟨ds, hds, rfl⟩ := Option.map_eq_some_iff.mp h
        exact .data hq hn.2.2 hds rfl
      · cases h
    · cases h
  | substreamEnd keyOk =>
    simp only [step] at h
    split at h
    · rename_i hq
      exact .substreamEnd hq h
    · cases h
  | substreamError =>
    simp only [step] at h
    split at h
    · rename_i hq
      split at h
      · cases h
      · cases h
        exact .substreamError hq rfl
    · cases h

end Despotify.Player

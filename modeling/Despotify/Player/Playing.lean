import Despotify.Player.Base
import Despotify.Player.Consume
import Mathlib.Algebra.GroupWithZero.Nat

/-!
# Playback without the user

What the other threads do while `dlabort` is clear and the consumer is not in
`snd_stop`: `Played` lists the steps with the state each leads to.

* `remaining`: the tracks still to be queued.
* `step_played`: there are no other steps than those of `Played`.
* `reachable_no_fifo`: before the first `despotify_play` nothing happens.
* `PlayReturns.starts`: the state `despotify_play` leaves.
-/

namespace Despotify.Player

open Runs

variable {A : Type} {env : Env A}

/-! ## What is left of the playlist -/

/-- The tracks still to be queued: the current one, playable or not, and the
playable ones behind it. -/
def remaining : List Track → List Track
  | [] => []
  | t :: rest => t :: rest.filter (·.playable)

theorem filter_dropWhile_playable (tracks : List Track) :
    (tracks.dropWhile (! ·.playable)).filter (·.playable) = tracks.filter (·.playable) := by
  induction tracks with
  | nil => rfl
  | cons t rest ih =>
    cases h : t.playable with
    | true => simp [h]
    | false => simp [h, ih]

theorem remaining_dropWhile (tracks : List Track) :
    remaining (tracks.dropWhile (! ·.playable)) = tracks.filter (·.playable) := by
  rw [← filter_dropWhile_playable]
  cases hd : tracks.dropWhile (! ·.playable) with
  | nil => rfl
  | cons t rest =>
    have ht : t.playable = true := by
      have h := List.head?_dropWhile_not (fun t : Track => ! t.playable) tracks
      rw [hd] at h
      simpa using h
    rw [List.filter_cons_of_pos ht]
    rfl

/-- The current track is queued. -/
theorem remaining_cons (t : Track) (rest : List Track) :
    remaining (t :: rest) = t :: remaining (nextPlayable (t :: rest)) := by
  rw [nextPlayable, List.tail_cons, remaining_dropWhile]
  rfl

/-! ## The steps -/

/-- The key request `despotify_substream_callback` makes for the next track. -/
def nextKey (ds : Ds A) (track : List Track) (keyOk : Bool) : List Request :=
  match track with
  | t :: _ => if ds.playAsList ∧ keyOk then [.key t] else []
  | [] => []

/-- The entry is hooked in. -/
def push (ds : Ds A) (f : Fifo) (b : Buffer) : Ds A :=
  { ds with
    fifo := some ⟨f.buffers ++ [b], f.totbytes + b.length, b.cmd⟩
    pushed := b :: ds.pushed }

/-- `SND_CMD_CHANNEL_END` with `dlabort` clear. -/
def stepDown (d : DlState) : DlState := if d = .endOfList then .endOfList else .filling

/-- A step from `s`, where `f` is the fifo. -/
inductive Played (env : Env A) (s : Sys A) (f : Fifo) : Event → Sys A → Prop
  /-- `snd_fill_fifo` without a request, or a wait that ends with nothing done -/
  | still {e : Event} (he : (∃ ok, e = .fill ok ∧ wantsData s.ds f = false) ∨ e = .fillWake ∨
        e = .consumeWake) (d : DlState) (hd : d = s.ds.dlstate ∨ d = .draining)
      (hwhy : d ≠ s.ds.dlstate → s.ds.dlstate = .filling ∨
        (s.player = .filling ∧ s.ds.dlstate ≠ .fillingBusy)) (player : PlayerPc)
      (hplayer : player = s.player ∨ player = .idle) :
      Played env s f e { s with ds := { s.ds with dlstate := d }, player := player }
  | request {t : Track} {rest : List Track} (ok : Bool) (htrack : s.ds.track = t :: rest)
      (hwants : wantsData s.ds f = true) (haligned : s.ds.offset % 4096 = 0) :
      Played env s f (.fill ok) { s with
        ds := { s.ds with dlstate := .fillingBusy }
        queue := if ok then s.queue ++ [.substream t s.ds.offset 0] else s.queue }
  | consume {e : Event} {req total : Nat}
      (he : (s.player = .idle ∧ e = .consume req ∧ 0 < req ∧ total = 0) ∨
        (s.player = .consuming req total ∧ e = .consumeWake ∧ f.buffers ≠ [])) :
      Played env s f e (sndConsumeData s f req total)
  | aesKey {t cur : Track} {next : List Track} {queue : List Request}
      (hqueue : s.queue = .key t :: queue) (htrack : s.ds.track = cur :: next) :
      Played env s f .aesKey { s with
        ds := push { s.ds with aesState := env.keySetup (env.key t), iv := IV0 } f
          (.start cur next)
        queue := queue }
  | aesKeyErr {t : Track} {queue : List Request} (hqueue : s.queue = .key t :: queue) :
      Played env s f .aesKeyErr { s with queue := queue }
  | data {t : Track} {offset received n : Nat} {queue : List Request} {mem : List UInt8}
      (hqueue : s.queue = .substream t offset received :: queue) (hn : 0 < n)
      (iv : List UInt8) (bytes : List Cell) (hbytes : bytes ≠ []) :
      Played env s f (.data n mem) { s with
        ds := push { s.ds with iv := iv } f (.data bytes 0)
        queue := .substream t offset (received + n) :: queue }
  | fullEnd {t : Track} {offset received : Nat} {queue : List Request} (keyOk : Bool)
      (hqueue : s.queue = .substream t offset received :: queue)
      (hfull : SUBSTREAM_SIZE ≤ received) :
      Played env s f (.substreamEnd keyOk) { s with
        ds := { s.ds with
          errorcount := 0, offset := s.ds.offset + received, dlstate := stepDown s.ds.dlstate }
        queue := queue }
  | shortEnd {t cur : Track} {offset received : Nat} {rest : List Track} {queue : List Request}
      (keyOk : Bool) (hqueue : s.queue = .substream t offset received :: queue)
      (hshort : received < SUBSTREAM_SIZE) (htrack : s.ds.track = cur :: rest)
      (hlast : f.lastcmd ≠ .start) :
      Played env s f (.substreamEnd keyOk) { s with
        ds := { push s.ds f .ended with
          track := nextPlayable (cur :: rest), errorcount := 0, offset := 0
          dlstate := if nextPlayable (cur :: rest) = [] then .endOfList
            else stepDown s.ds.dlstate }
        queue := queue ++ nextKey s.ds (nextPlayable (cur :: rest)) keyOk }
  | substreamError {t : Track} {offset received : Nat} {queue : List Request}
      (hqueue : s.queue = .substream t offset received :: queue) :
      Played env s f .substreamError { s with
        ds := { s.ds with errorcount := s.ds.errorcount + 1 }, queue := queue }

/-- The consumer is not in `snd_stop`, nobody has set `dlabort`, and there is a fifo. -/
structure Going (s : Sys A) (f : Fifo) : Prop where
  fifo : s.ds.fifo = some f
  abort : s.ds.dlabort = false
  player : s.player ≠ .stopping

def Event.isUser : Event → Bool
  | .user _ | .userWake => true
  | .fill _ | .fillWake | .consume _ | .consumeWake | .stopWake | .aesKey | .aesKeyErr
  | .data _ _ | .substreamEnd _ | .substreamError => false

variable {s s' : Sys A} {f : Fifo}

theorem enqueue_eq {ds : Ds A} (hf : ds.fifo = some f) (b : Buffer) :
    enqueue ds b = some (push ds f b) := by
  rw [enqueue, hf]
  rfl

theorem sndIoctlStart_eq {ds : Ds A} (hf : ds.fifo = some f) (hab : ds.dlabort = false)
    (t : Track) (next : List Track) :
    sndIoctlStart ds t next = some (push ds f (.start t next)) := by
  rw [sndIoctlStart, if_neg (by simp [hab]), enqueue_eq hf]

theorem sndIoctlData_eq (ds : Ds A) (mem : List Cell) (length : Nat) (hf : ds.fifo = some f)
    (hab : ds.dlabort = false) (hpos : 0 < length) (hmem : length ≤ mem.length) :
    ∃ bytes, bytes ≠ [] ∧ sndIoctlData ds mem length = some (push ds f (.data bytes 0)) := by
  refine ⟨_, ?_, by rw [sndIoctlData, if_neg (by simp [hab]), hf]; exact enqueue_eq hf _⟩
  rw [← List.length_pos_iff_ne_nil]
  split
  · exact length_dropFirstPage_pos hpos hmem
  · rw [List.length_take]
    omega

theorem sndIoctlEnd_eq {ds : Ds A} (hf : ds.fifo = some f) (hab : ds.dlabort = false) :
    sndIoctlEnd ds = if f.lastcmd = .start then none
      else some { push ds f .ended with
        dlstate := if ds.track = [] then .endOfList else ds.dlstate } := by
  obtain ⟨track, _, _, _, _, dlstate, dlabort, _, fifo, _, _⟩ := ds
  subst hf hab
  cases track <;> rfl

theorem sndIoctlChannelEnd_eq {ds : Ds A} (hab : ds.dlabort = false) :
    sndIoctlChannelEnd ds = { ds with dlstate := stepDown ds.dlstate } := by
  unfold sndIoctlChannelEnd stepDown
  rw [if_neg (by simp [hab])]
  by_cases h : ds.dlstate = .endOfList
  · rw [if_neg (not_not.mpr h), if_pos h, ← h]
  · rw [if_pos h, if_neg h]

theorem Going.step_fill (h : Going s f) {ok : Bool} (hs : step env s (.fill ok) = some s') :
    Played env s f (.fill ok) s' := by
  simp only [step, h.fifo] at hs
  split at hs
  · rename_i f' _ hf'
    cases hf'
    unfold sndFillFifo at hs
    rw [if_neg (by simp [h.abort])] at hs
    split at hs
    · rename_i hwants
      unfold readStream at hs
      split at hs
      · cases hs
      · rename_i t rest htrack
        split at hs
        · cases hs
        · rename_i haligned
          cases hs
          exact .request ok htrack hwants (not_not.mp haligned)
    · rename_i hwants
      have he : ∃ ok', Event.fill ok = .fill ok' ∧ wantsData s.ds f = false :=
        ⟨ok, rfl, by simpa using hwants⟩
      split at hs
      · rename_i hfilling
        cases hs
        exact .still (Or.inl he) .draining (Or.inr rfl) (fun _ => Or.inl hfilling) s.player
          (Or.inl rfl)
      · cases hs
        exact .still (Or.inl he) s.ds.dlstate (Or.inl rfl) (fun hne => absurd rfl hne) s.player
          (Or.inl rfl)
  · cases hs

theorem Going.step_data (h : Going s f) {n : Nat} {mem : List UInt8}
    (hs : step env s (.data n mem) = some s') : Played env s f (.data n mem) s' := by
  simp only [step] at hs
  split at hs
  · rename_i t offset received queue hqueue
    split at hs
    · rename_i hn
      obtain ⟨ds, hds, rfl⟩ := Option.map_eq_some_iff.mp hs
      unfold substreamData at hds
      dsimp only at hds
      generalize decryptBlocks env s.ds.aesState _ s.ds.iv _ = plain at hds
      rw [List.length_map, List.length_range] at hds
      obtain ⟨bytes, hbytes, heq⟩ := sndIoctlData_eq { s.ds with iv := plain.2 }
        (plain.1 ++ (mem.drop plain.1.length).map fun b => ⟨none, b⟩) n
        h.fifo h.abort hn.1 (by simp; omega)
      rw [heq] at hds
      cases hds
      exact .data hqueue hn.1 _ bytes hbytes
    · cases hs
  · cases hs

/-- The reply that ends a track. -/
theorem Going.substreamEnd_short (h : Going s f) {cur : Track} {rest : List Track} {received : Nat}
    {queue : List Request} (keyOk : Bool) (hshort : received < SUBSTREAM_SIZE)
    (htrack : s.ds.track = cur :: rest) :
    substreamEnd s received queue keyOk = if f.lastcmd = .start then none else some { s with
      ds := { push s.ds f .ended with
        track := nextPlayable (cur :: rest), errorcount := 0, offset := 0
        dlstate := if nextPlayable (cur :: rest) = [] then .endOfList
          else stepDown s.ds.dlstate }
      queue := queue ++ nextKey s.ds (nextPlayable (cur :: rest)) keyOk } := by
  have hend := @sndIoctlEnd_eq A f { s.ds with
    errorcount := 0, offset := s.ds.offset + received, track := nextPlayable (cur :: rest) }
    h.fifo h.abort
  unfold substreamEnd
  dsimp only
  rw [if_pos hshort, htrack, if_neg (by simp), hend]
  split
  · rfl
  · rw [Option.map_some]
    generalize nextPlayable (cur :: rest) = track
    cases track with
    | nil => simp [sndIoctlChannelEnd, h.abort, push, nextKey]
    | cons t rest =>
      cases hlist : s.ds.playAsList <;> cases keyOk <;>
        simp [sndIoctlChannelEnd_eq, h.abort, push, nextKey, cmdAeskey, hlist]

theorem Going.step_substreamEnd (h : Going s f) {keyOk : Bool}
    (hs : step env s (.substreamEnd keyOk) = some s') :
    Played env s f (.substreamEnd keyOk) s' := by
  simp only [step] at hs
  split at hs
  · rename_i t offset received queue hqueue
    by_cases hshort : received < SUBSTREAM_SIZE
    · cases htrack : s.ds.track with
      | nil => simp [substreamEnd, hshort, htrack] at hs
      | cons cur rest =>
        rw [h.substreamEnd_short keyOk hshort htrack] at hs
        split at hs
        · cases hs
        · rename_i hlast
          cases hs
          exact .shortEnd keyOk hqueue hshort htrack hlast
    · unfold substreamEnd at hs
      dsimp only at hs
      rw [if_neg hshort] at hs
      cases hs
      rw [sndIoctlChannelEnd_eq]
      · exact .fullEnd keyOk hqueue (by omega)
      · exact h.abort
  · cases hs

theorem step_played (h : Going s f) {e : Event} (he : e.isUser = false)
    (hs : step env s e = some s') : Played env s f e s' := by
  cases e with
  | user call => cases he
  | userWake => cases he
  | fill ok => exact h.step_fill hs
  | fillWake =>
    simp only [step] at hs
    split at hs
    · rename_i hc
      cases hs
      exact .still (Or.inr (Or.inl rfl)) .draining (Or.inr rfl) (fun _ => Or.inr hc) .idle
        (Or.inr rfl)
    · cases hs
  | consume req =>
    simp only [step, h.fifo] at hs
    split at hs
    · rename_i f' hidle hf'
      cases hf'
      split at hs
      · rename_i hreq
        cases hs
        exact .consume (Or.inl ⟨hidle, rfl, hreq, rfl⟩)
      · cases hs
    · cases hs
  | consumeWake =>
    simp only [step, h.fifo] at hs
    split at hs
    · rename_i req total f' hwaiting hf'
      cases hf'
      split at hs
      · cases hs
        exact .still (Or.inr (Or.inr rfl)) s.ds.dlstate (Or.inl rfl) (fun hne => absurd rfl hne)
          .idle (Or.inr rfl)
      · rename_i hne
        cases hs
        exact .consume (Or.inr ⟨hwaiting, rfl, by simpa using hne⟩)
    · cases hs
  | stopWake =>
    simp only [step] at hs
    split at hs
    · rename_i hc
      exact absurd hc.1 h.player
    · cases hs
  | aesKey =>
    simp only [step] at hs
    split at hs
    · rename_i t queue hqueue
      unfold aesCallback at hs
      split at hs
      · cases hs
      · rename_i cur next htrack
        obtain ⟨ds, hds, rfl⟩ := Option.map_eq_some_iff.mp hs
        rw [sndIoctlStart_eq (f := f)] at hds
        · cases hds
          exact .aesKey hqueue htrack
        · exact h.fifo
        · exact h.abort
    · cases hs
  | aesKeyErr =>
    simp only [step] at hs
    split at hs
    · rename_i t queue hqueue
      cases hs
      exact .aesKeyErr hqueue
    · cases hs
  | data n mem => exact h.step_data hs
  | substreamEnd keyOk => exact h.step_substreamEnd hs
  | substreamError =>
    simp only [step] at hs
    split at hs
    · rename_i hqueue
      split at hs
      · cases hs
      · cases hs
        exact .substreamError hqueue
    · cases hs

/-! ## `snd_init` comes first -/

theorem userFinish_fifo {call : UserCall} (hf : s.ds.fifo ≠ none)
    (h : userFinish s call = some s') : s'.ds.fifo ≠ none := by
  have hplay : ∀ (s : Sys A) (t : Track) (rest : List Track) (asList notifyOk keyOk : Bool),
      (play s t rest asList notifyOk keyOk).ds.fifo = s.ds.fifo := by
    intro s t rest asList notifyOk keyOk
    cases notifyOk with
    | true => cases keyOk <;> rfl
    | false => rfl
  cases call with
  | play t rest asList notifyOk keyOk =>
    cases h
    rw [hplay]
    exact hf
  | next notifyOk keyOk =>
    obtain ⟨f, hf⟩ := Option.ne_none_iff_exists'.mp hf
    simp only [userFinish, next, sndNext, hf] at h
    split at h
    · cases h
      nofun
    · obtain ⟨track, -, rfl⟩ := Option.map_eq_some_iff.mp h
      cases track with
      | nil => nofun
      | cons t rest =>
        dsimp only
        rw [hplay]
        simp [resetOffset, sndStopLeave, sndStopEnter_fifo]
  | stop =>
    cases h
    exact hf

/-- Nobody takes the fifo away. -/
theorem step_fifo {e : Event} (hf : s.ds.fifo ≠ none) (h : step env s e = some s') :
    s'.ds.fifo ≠ none := by
  obtain ⟨f, hf'⟩ := Option.ne_none_iff_exists'.mp hf
  cases e with
  | user call =>
    simp only [step, userCall, hf'] at h
    split at h
    · split at h
      · cases h
        rw [sndStopEnter_fifo]
        exact hf
      · refine userFinish_fifo ?_ h
        simp [resetOffset, sndStopLeave, sndStopEnter_fifo, hf']
    · cases h
  | userWake =>
    simp only [step] at h
    split at h
    · split at h
      · cases h
      · refine userFinish_fifo ?_ h
        simp [resetOffset, sndStopLeave, hf']
    · cases h
  | fill ok =>
    simp only [step] at h
    split at h
    · rcases sndFillFifo_cases h with hq | ⟨-, -, hr⟩
      · exact fun hn => hf (hq.fifo hn)
      · unfold readStream at hr
        split at hr
        · cases hr
        · split at hr
          · cases hr
          · cases hr
            exact hf
    · cases h
  | fillWake =>
    simp only [step] at h
    split at h
    · cases h
      exact hf
    · cases h
  | consume req =>
    simp only [step] at h
    split at h
    · split at h
      · cases h
        exact fun hn => hf ((quiet_sndConsumeData _ req 0).fifo hn)
      · cases h
    · cases h
  | consumeWake =>
    simp only [step] at h
    split at h
    · split at h
      · cases h
        exact hf
      · cases h
        exact fun hn => hf ((quiet_sndConsumeData _ _ _).fifo hn)
    · cases h
  | stopWake =>
    simp only [step] at h
    split at h
    · cases h
      simp [endOfPlaylist, sndStopLeave, hf']
    · cases h
  | aesKey =>
    simp only [step] at h
    split at h
    · unfold aesCallback at h
      split at h
      · cases h
      · obtain ⟨ds, hds, rfl⟩ := Option.map_eq_some_iff.mp h
        exact fun hn => hf ((enqueued_start hds).fifo hn)
    · cases h
  | aesKeyErr =>
    simp only [step] at h
    split at h
    · cases h
      exact hf
    · cases h
  | data n mem =>
    simp only [step] at h
    split at h
    · split at h
      · obtain ⟨ds, hds, rfl⟩ := Option.map_eq_some_iff.mp h
        obtain ⟨bytes, hq, -⟩ := enqueued_data hds
        exact fun hn => hf (hq.fifo hn)
      · cases h
    · cases h
  | substreamEnd keyOk =>
    simp only [step] at h
    split at h
    · exact fun hn => hf ((substreamEnd_ended h).fifo hn)
    · cases h
  | substreamError =>
    simp only [step] at h
    split at h
    · split at h
      · cases h
      · cases h
        exact hf
    · cases h

/-- As long as there is no fifo, nothing has happened. -/
theorem reachable_no_fifo {st : A} (h : Reachable (step env) (Sys.init st) s) :
    s.ds.fifo = none → s = Sys.init st := by
  have hstep : ∀ s e s', (s.ds.fifo = none → s = Sys.init st) → step env s e = some s' →
      s'.ds.fifo = none → s' = Sys.init st := by
    intro s e s' hinv hs hn
    by_cases hf : s.ds.fifo = none
    · obtain rfl := hinv hf
      cases e with
      | user call =>
        cases call with
        | stop =>
          cases hs
          rfl
        | play t rest asList notifyOk keyOk =>
          have hfinish : userFinish { Sys.init st with ds := sndInit (Sys.init st).ds }
              (.play t rest asList notifyOk keyOk) = some s' := hs
          exact absurd hn (userFinish_fifo (by simp [sndInit]) hfinish)
        | next notifyOk keyOk =>
          have hfinish : userFinish { Sys.init st with ds := sndInit (Sys.init st).ds }
              (.next notifyOk keyOk) = some s' := hs
          exact absurd hn (userFinish_fifo (by simp [sndInit]) hfinish)
      | fillWake =>
        simp only [step] at hs
        split at hs
        · rename_i hc
          obtain ⟨heq, -⟩ := hc
          cases heq
        · cases hs
      | stopWake =>
        simp only [step] at hs
        split at hs
        · rename_i hc
          obtain ⟨heq, -⟩ := hc
          cases heq
        · cases hs
      | _ => cases hs
    · exact absurd hn (step_fifo hf hs)
  exact h.inv hstep fun _ => rfl

/-! ## A waiting call wants more -/

def WantsMore (s : Sys A) : Prop := ∀ req total, s.player = .consuming req total → total < req

theorem userFinish_player {call : UserCall} (h : userFinish s call = some s') :
    s'.player = s.player := by
  have hplay : ∀ (s : Sys A) (t : Track) (rest : List Track) (asList notifyOk keyOk : Bool),
      (play s t rest asList notifyOk keyOk).player = s.player := by
    intro s t rest asList notifyOk keyOk
    cases notifyOk with
    | true => cases keyOk <;> rfl
    | false => rfl
  cases call with
  | play t rest asList notifyOk keyOk =>
    cases h
    rw [hplay]
  | next notifyOk keyOk =>
    simp only [userFinish, next] at h
    split at h
    · cases h
      rfl
    · obtain ⟨track, -, rfl⟩ := Option.map_eq_some_iff.mp h
      cases track with
      | nil => rfl
      | cons t rest =>
        dsimp only
        rw [hplay]
        rfl
  | stop =>
    cases h
    rfl

theorem wantsMore_sndConsumeData (s : Sys A) (f : Fifo) {req total : Nat} (hreq : total < req) :
    WantsMore (sndConsumeData s f req total) := by
  unfold sndConsumeData
  dsimp only
  cases hout : (consumeLoop req f.totbytes total s.ds.notices f.buffers).out with
  | returned k => nofun
  | waiting k =>
    rintro req' total' ⟨⟩
    exact consumeLoop_waiting hreq hout
  | lastEnd =>
    dsimp only
    split <;> nofun

theorem substreamEnd_player {total : Nat} {queue : List Request} {keyOk : Bool}
    (h : substreamEnd s total queue keyOk = some s') : s'.player = s.player := by
  unfold substreamEnd at h
  dsimp only at h
  split at h
  · split at h
    · cases h
    · obtain ⟨ds, -, rfl⟩ := Option.map_eq_some_iff.mp h
      dsimp only
      split
      · split
        · cases keyOk <;> rfl
        · rfl
      · rfl
  · cases h
    rfl

/-- Only the consumer moves the player to `consuming`. -/
theorem step_wantsMore {e : Event} (h : WantsMore s) (hs : step env s e = some s') :
    WantsMore s' := by
  have hsame : s'.player = s.player → WantsMore s' := by
    intro hp req total
    rw [hp]
    exact h req total
  cases e with
  | user call =>
    simp only [step, userCall] at hs
    split at hs
    · split at hs
      · split at hs
        · cases hs
          exact h
        · have hp := userFinish_player hs
          exact hsame hp
      · split at hs
        · cases hs
          exact h
        · have hp := userFinish_player hs
          exact hsame hp
    · cases hs
  | userWake =>
    simp only [step] at hs
    split at hs
    · split at hs
      · cases hs
      · have hp := userFinish_player hs
        exact hsame hp
    · cases hs
  | fill ok =>
    simp only [step] at hs
    split at hs
    · unfold sndFillFifo readStream at hs
      repeat' split at hs
      all_goals cases hs
      all_goals first
        | exact h
        | intro _ _ hp
          cases hp
    · cases hs
  | consume req =>
    simp only [step] at hs
    split at hs
    · split at hs
      · rename_i hreq
        cases hs
        exact wantsMore_sndConsumeData s _ hreq
      · cases hs
    · cases hs
  | consumeWake =>
    simp only [step] at hs
    split at hs
    · rename_i req total f hpc _
      split at hs
      · cases hs
        intro _ _ hp
        cases hp
      · cases hs
        exact wantsMore_sndConsumeData s f (h req total hpc)
    · cases hs
  | fillWake | stopWake =>
    simp only [step] at hs
    split at hs
    · cases hs
      intro _ _ hp
      cases hp
    · cases hs
  | aesKey =>
    simp only [step] at hs
    split at hs
    · unfold aesCallback at hs
      split at hs
      · cases hs
      · obtain ⟨ds, -, rfl⟩ := Option.map_eq_some_iff.mp hs
        exact h
    · cases hs
  | aesKeyErr =>
    simp only [step] at hs
    split at hs
    · cases hs
      exact h
    · cases hs
  | data n mem =>
    simp only [step] at hs
    split at hs
    · split at hs
      · obtain ⟨ds, -, rfl⟩ := Option.map_eq_some_iff.mp hs
        exact h
      · cases hs
    · cases hs
  | substreamEnd keyOk =>
    simp only [step] at hs
    split at hs
    · exact hsame (substreamEnd_player hs)
    · cases hs
  | substreamError =>
    simp only [step] at hs
    split at hs
    · split at hs
      · cases hs
      · cases hs
        exact h
    · cases hs

/-! ## `despotify_play` returns -/

/-- `despotify_play (ds, t, true)`, on the list `t :: rest`, returns in `s0` with
its token sent. -/
def PlayReturns (env : Env A) (s s0 : Sys A) (t : Track) (rest : List Track) : Prop :=
  ∃ keyOk,
    (s0.user = .idle ∧ step env s (.user (.play t rest true true keyOk)) = some s0) ∨
    (s.user = .stopping (.play t rest true true keyOk) ∧ step env s .userWake = some s0)

/-- Where playing starts: the queue is empty. -/
structure Starts (s0 : Sys A) (t : Track) (rest : List Track) : Prop where
  track : s0.ds.track = t :: rest
  list : s0.ds.playAsList = true
  offset : s0.ds.offset = 0
  fifo : ∃ totbytes lastcmd, s0.ds.fifo = some ⟨[], totbytes, lastcmd⟩
  abort : s0.ds.dlabort = false
  idle : s0.ds.dlstate = .filling ∨ s0.ds.dlstate = .draining

theorem starts_play {s : Sys A} {t : Track} {rest : List Track} {keyOk : Bool}
    (hoffset : s.ds.offset = 0)
    (hfifo : ∃ totbytes lastcmd, s.ds.fifo = some ⟨[], totbytes, lastcmd⟩)
    (habort : s.ds.dlabort = false) (hidle : s.ds.dlstate = .filling ∨ s.ds.dlstate = .draining) :
    Starts (play s t rest true true keyOk) t rest := by
  cases keyOk with
  | true => exact ⟨rfl, rfl, hoffset, hfifo, habort, hidle⟩
  | false => exact ⟨rfl, rfl, hoffset, hfifo, habort, hidle⟩

theorem PlayReturns.starts {st : A} {s s0 : Sys A} {t : Track} {rest : List Track}
    (hs : Reachable (step env) (Sys.init st) s) (h : PlayReturns env s s0 t rest) :
    Starts s0 t rest := by
  obtain ⟨keyOk, ⟨huser, hstep⟩ | ⟨huser, hstep⟩⟩ := h
  · simp only [step, userCall] at hstep
    split at hstep
    · split at hstep
      · rename_i hn
        cases reachable_no_fifo hs hn
        cases hstep
        exact starts_play rfl ⟨0, .start, rfl⟩ rfl (Or.inl rfl)
      · rename_i f hf
        split at hstep
        · cases hstep
          cases huser
        · cases hstep
          refine starts_play rfl ⟨0, f.lastcmd, ?_⟩ rfl (Or.inr rfl)
          simp [resetOffset, sndStopLeave, sndStopEnter_fifo, hf]
    · cases hstep
  · simp only [step, huser] at hstep
    split at hstep
    · cases hstep
    · cases hstep
      cases hf : s.ds.fifo with
      | none =>
        rw [reachable_no_fifo hs hf] at huser
        cases huser
      | some f =>
        refine starts_play rfl ⟨0, f.lastcmd, ?_⟩ rfl (Or.inr rfl)
        simp [resetOffset, sndStopLeave, hf]

theorem PlayReturns.exists_step {s s0 : Sys A} {t : Track} {rest : List Track}
    (h : PlayReturns env s s0 t rest) : ∃ e, step env s e = some s0 := by
  obtain ⟨keyOk, ⟨-, hstep⟩ | ⟨-, hstep⟩⟩ := h
  · exact ⟨_, hstep⟩
  · exact ⟨_, hstep⟩

theorem reachable_wantsMore {st : A} {s : Sys A} (h : Reachable (step env) (Sys.init st) s) :
    WantsMore s := by
  have hinit : WantsMore (Sys.init st) := fun _ _ hp => nomatch hp
  exact h.inv (fun _ _ _ hinv hs => step_wantsMore hinv hs) hinit

end Despotify.Player

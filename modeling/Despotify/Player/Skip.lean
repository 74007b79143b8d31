import Despotify.Player.Playing

/-!
# The next track

`despotify_next` empties the queue and goes on from `ds->track`, the track that
is downloaded; the track the consumer is at may lie before it.

* `Skips`: the download goes on with the first playable track behind the one the
  consumer is at, and the next `SND_CMD_START` it takes is that track's.
* `skips_iff`: so it is if and only if the first playable track behind
  `ds->track` is that one, and `ds->track` is `NULL` when there is none.
* `prefetch_skips`: two tracks skipped, and a `NULL` read.
-/

namespace Despotify.Player

open Runs

variable {A : Type} {env : Env A} {s s' : Sys A} {f : Fifo}

/-! ## The property -/

/-- The `SND_CMD_START`s the consumer has taken, as `client_callback` was told. -/
def starts (s : Sys A) : List (Track × List Track) :=
  s.ds.notices.reverse.filterMap fun
    | .newTrack t next => some (t, next)
    | .endOfPlaylist => none

/-- `despotify_next` in `s`, where `snd_stop` does not wait any more. -/
def NextCall (s : Sys A) (e : Event) : Prop :=
  s.ds.dlstate ≠ .fillingBusy ∧
    ((s.user = .idle ∧ e = .user (.next true true)) ∨
      (s.user = .stopping (.next true true) ∧ e = .userWake))

/-- The other threads go on, and the keys asked for come. -/
def Event.goesOn (e : Event) : Prop := e.isUser = false ∧ e ≠ .aesKeyErr

/-- `despotify_next` skips the rest of `t`, behind which `next` is linked. -/
def Skips (env : Env A) (s : Sys A) (e : Event) (t : Track) (next : List Track) : Prop :=
  ∃ s', step env s e = some s' ∧ s'.ds.track = nextPlayable (t :: next) ∧
    ∀ es s1, (∀ ev ∈ es, ev.goesOn) → exec (step env) s' es = some s1 →
      ∀ x, (starts s1)[(starts s').length]? = some x → x.1 :: x.2 = nextPlayable (t :: next)

/-! ## The loop of `despotify_next` -/

theorem skipToPlayable_cons (t : Track) (rest : List Track) :
    skipToPlayable (t :: rest) =
      if nextPlayable (t :: rest) = [] then none else some (nextPlayable (t :: rest)) := by
  induction rest generalizing t with
  | nil => rfl
  | cons u rest ih =>
    cases hu : u.playable with
    | true => simp [skipToPlayable, nextPlayable, hu]
    | false =>
      have hnext : nextPlayable (t :: u :: rest) = nextPlayable (u :: rest) := by
        simp [nextPlayable, hu]
      rw [hnext, ← ih u]
      simp [skipToPlayable, hu]

theorem skipToPlayable_eq_some (list target : List Track) :
    skipToPlayable list = some target ↔
      nextPlayable list = target ∧ (target = [] → list = []) := by
  cases list with
  | nil =>
    have hnil : nextPlayable [] = [] := rfl
    simp [skipToPlayable, hnil]
  | cons t rest =>
    rw [skipToPlayable_cons]
    by_cases hnil : nextPlayable (t :: rest) = []
    · rw [if_pos hnil, hnil]
      refine iff_of_false nofun ?_
      rintro ⟨rfl, h⟩
      cases h rfl
    · rw [if_neg hnil, Option.some_inj]
      refine ⟨?_, And.left⟩
      rintro rfl
      exact ⟨rfl, fun h => absurd h hnil⟩

/-! ## What the consumer is told -/

theorem Enqueued.notices {ds ds' : Ds A} {b : Buffer} (h : Enqueued ds ds' b) :
    ds'.notices = ds.notices := by
  rcases h with ⟨-, rfl⟩ | ⟨-, f, -, rfl⟩
  · rfl
  · rfl

theorem substreamEnd_notices {total : Nat} {queue : List Request} {keyOk : Bool}
    (h : substreamEnd s total queue keyOk = some s') : s'.ds.notices = s.ds.notices := by
  have hchannel : ∀ ds : Ds A, (sndIoctlChannelEnd ds).notices = ds.notices := by
    intro ds
    unfold sndIoctlChannelEnd
    split
    · rfl
    · split <;> rfl
  unfold substreamEnd at h
  dsimp only at h
  split at h
  · split at h
    · cases h
    · obtain ⟨ds, hds, rfl⟩ := Option.map_eq_some_iff.mp h
      obtain ⟨dlstate, hq⟩ := enqueued_end hds
      dsimp only
      rw [hchannel]
      split
      · split
        · rw [cmdAeskey_ds]
          exact hq.notices
        · exact hq.notices
      · exact hq.notices
  · cases h
    exact hchannel _

theorem sndStopEnter_notices (ds : Ds A) : (sndStopEnter ds).notices = ds.notices := by
  unfold sndStopEnter
  split <;> rfl

theorem sndConsumeData_notices (s : Sys A) (f : Fifo) (req total : Nat) :
    ∃ new, (sndConsumeData s f req total).ds.notices = new ++ s.ds.notices := by
  obtain ⟨new, hnew, -⟩ := consumeLoop_notices req f.totbytes total s.ds.notices f.buffers
  unfold sndConsumeData
  dsimp only
  split
  · exact ⟨new, hnew⟩
  · exact ⟨new, hnew⟩
  · split
    · exact ⟨new, (sndStopEnter_notices _).trans hnew⟩
    · refine ⟨.endOfPlaylist :: new, ?_⟩
      have heq := sndStopEnter_notices { s.ds with
        fifo := some { f with
          buffers := (consumeLoop req f.totbytes total s.ds.notices f.buffers).buffers
          totbytes := (consumeLoop req f.totbytes total s.ds.notices f.buffers).totbytes }
        notices := (consumeLoop req f.totbytes total s.ds.notices f.buffers).notices }
      exact congrArg (Notice.endOfPlaylist :: ·) (heq.trans hnew)

/-- Nothing told is taken back. -/
theorem step_notices {e : Event} (he : e.isUser = false) (h : step env s e = some s') :
    ∃ new, s'.ds.notices = new ++ s.ds.notices := by
  cases e with
  | user call => cases he
  | userWake => cases he
  | fill ok =>
    simp only [step] at h
    split at h
    · unfold sndFillFifo readStream at h
      repeat' split at h
      all_goals cases h
      all_goals exact ⟨[], rfl⟩
    · cases h
  | consume req =>
    simp only [step] at h
    split at h
    · split at h
      · cases h
        exact sndConsumeData_notices s _ req 0
      · cases h
    · cases h
  | consumeWake =>
    simp only [step] at h
    split at h
    · split at h
      · cases h
        exact ⟨[], rfl⟩
      · cases h
        exact sndConsumeData_notices s _ _ _
    · cases h
  | stopWake =>
    simp only [step] at h
    split at h
    · cases h
      exact ⟨[.endOfPlaylist], rfl⟩
    · cases h
  | aesKey =>
    simp only [step] at h
    split at h
    · unfold aesCallback at h
      split at h
      · cases h
      · obtain ⟨ds, hds, rfl⟩ := Option.map_eq_some_iff.mp h
        exact ⟨[], (enqueued_start hds).notices⟩
    · cases h
  | data n mem =>
    simp only [step] at h
    split at h
    · split at h
      · obtain ⟨ds, hds, rfl⟩ := Option.map_eq_some_iff.mp h
        obtain ⟨bytes, hq, -⟩ := enqueued_data hds
        exact ⟨[], hq.notices⟩
      · cases h
    · cases h
  | substreamEnd keyOk =>
    simp only [step] at h
    split at h
    · exact ⟨[], substreamEnd_notices h⟩
    · cases h
  | fillWake | aesKeyErr =>
    simp only [step] at h
    split at h
    · cases h
      exact ⟨[], rfl⟩
    · cases h
  | substreamError =>
    simp only [step] at h
    split at h
    · split at h
      · cases h
      · cases h
        exact ⟨[], rfl⟩
    · cases h

theorem starts_grow (h : ∃ new, s'.ds.notices = new ++ s.ds.notices) : starts s <+: starts s' := by
  obtain ⟨new, heq⟩ := h
  unfold starts
  rw [heq, List.reverse_append, List.filterMap_append]
  exact List.prefix_append _ _

/-! ## From `despotify_next` on -/

/-- Nothing has been taken since `n` `SND_CMD_START`s were, and the one taken
next is that of `track`: its key is asked for, or it is at the head of the queue. -/
structure Waiting (track : List Track) (n : Nat) (s : Sys A) (f : Fifo) : Prop where
  going : Going s f
  base : ∃ keys sub, Base s keys sub
  count : (starts s).length = n
  head : (f.buffers = [] ∧ s.ds.track = track ∧
      (track ≠ [] → ∃ t queue, s.queue = .key t :: queue)) ∨
    ∃ t next tail, track = t :: next ∧ f.buffers = .start t next :: tail

/-- The `SND_CMD_START` taken behind the first `n` is that of `track`. -/
def Took (track : List Track) (n : Nat) (s : Sys A) : Prop :=
  ∃ x, (starts s)[n]? = some x ∧ x.1 :: x.2 = track

theorem Took.mono {track : List Track} {n : Nat} (h : Took track n s) (hp : starts s <+: starts s') :
    Took track n s' := by
  obtain ⟨x, hx, htrack⟩ := h
  obtain ⟨new, heq⟩ := hp
  refine ⟨x, ?_, htrack⟩
  rw [← heq, List.getElem?_append_left]
  · exact hx
  · exact (List.getElem?_eq_some_iff.mp hx).1

/-- A pass of the consumer: it finds nothing, or the `SND_CMD_START`. -/
theorem Waiting.consume {track : List Track} {n : Nat} (h : Waiting track n s f) (req total : Nat)
    (hbase : ∃ keys sub, Base (sndConsumeData s f req total) keys sub) :
    (∃ f', Waiting track n (sndConsumeData s f req total) f') ∨
      Took track n (sndConsumeData s f req total) := by
  rcases h.head with ⟨hnil, htrack, hkey⟩ | ⟨t, next, tail, rfl, hbuffers⟩
  · refine Or.inl ⟨f, ?_, hbase, ?_, Or.inl ⟨hnil, ?_, ?_⟩⟩
    all_goals simp only [sndConsumeData, hnil, consumeLoop]
    · refine ⟨?_, h.going.abort, fun hstop => ?_⟩
      · obtain ⟨buffers, totbytes, lastcmd⟩ := f
        rw [show buffers = [] from hnil]
      · cases hstop
    · exact h.count
    · exact htrack
    · exact hkey
  · -- the pass goes on behind the entry, with the client told
    let told : Sys A := { s with
      ds := { s.ds with notices := .newTrack t next :: s.ds.notices } }
    have hpass : sndConsumeData s f req total =
        sndConsumeData told { f with buffers := tail } req total := by
      simp only [sndConsumeData, hbuffers, consumeLoop]
      rfl
    have htold : starts told = starts s ++ [(t, next)] := by
      simp [told, starts]
    have htook : Took (t :: next) n told := by
      refine ⟨(t, next), ?_, rfl⟩
      rw [htold, ← h.count, List.getElem?_concat_length]
    rw [hpass]
    exact Or.inr (htook.mono (starts_grow (sndConsumeData_notices told _ req total)))

/-- Until the `SND_CMD_START` is taken the next one stays that of `track`. -/
theorem Waiting.step {track : List Track} {n : Nat} (h : Waiting track n s f) {e : Event}
    (he : e.goesOn) (hs : Player.step env s e = some s') :
    (∃ f', Waiting track n s' f') ∨ Took track n s' := by
  have hbase : ∃ keys sub, Base s' keys sub := by
    obtain ⟨keys, sub, hb⟩ := h.base
    exact hb.kept hs
  -- a substream is answered only behind the key, which has come then
  have hpushed : ∀ {t : Track} {offset received : Nat} {queue : List Request},
      s.queue = .substream t offset received :: queue →
      ∃ t next tail, track = t :: next ∧ f.buffers = .start t next :: tail := by
    intro t offset received queue hqueue
    rcases h.head with ⟨-, htrack, hkey⟩ | hstart
    · exfalso
      by_cases hnil : track = []
      · obtain ⟨keys, sub, hb⟩ := h.base
        obtain ⟨-, hsub, -⟩ := mkQueue_eq_substream (hb.queue.symm.trans hqueue)
        have hhead := (hb.track _ _ _ hsub).1
        rw [htrack, hnil] at hhead
        cases hhead
      · obtain ⟨k, queue', hk⟩ := hkey hnil
        cases hk.symm.trans hqueue
    · exact hstart
  cases step_played h.going he.1 hs with
  | still _ d hd hwhy player hplayer =>
    refine Or.inl ⟨f, ⟨h.going.fifo, h.going.abort, ?_⟩, hbase, h.count, h.head⟩
    rcases hplayer with rfl | rfl
    · exact h.going.player
    · nofun
  | request ok htrack hwants haligned =>
    refine Or.inl ⟨f, ⟨h.going.fifo, h.going.abort, h.going.player⟩, hbase, h.count, ?_⟩
    rcases h.head with ⟨hnil, htrack', hkey⟩ | hstart
    · refine Or.inl ⟨hnil, htrack', fun hne => ?_⟩
      obtain ⟨k, queue, hk⟩ := hkey hne
      cases ok with
      | true => exact ⟨k, queue ++ _, by rw [if_pos rfl, hk]; rfl⟩
      | false => exact ⟨k, queue, hk⟩
    · exact Or.inr hstart
  | consume hcall => exact h.consume _ _ hbase
  | @aesKey k cur next queue hqueue htrack =>
    refine Or.inl ⟨_, ⟨rfl, h.going.abort, h.going.player⟩, hbase, h.count, Or.inr ?_⟩
    rcases h.head with ⟨hnil, htrack', -⟩ | ⟨t, next', tail, ht, hbuffers⟩
    · exact ⟨cur, next, [], htrack'.symm.trans htrack, by rw [hnil]; rfl⟩
    · exact ⟨t, next', tail ++ [.start cur next], ht, by rw [hbuffers]; rfl⟩
  | aesKeyErr hqueue => exact absurd rfl he.2
  | data hqueue hn iv bytes hbytes =>
    obtain ⟨t, next, tail, ht, hbuffers⟩ := hpushed hqueue
    exact Or.inl ⟨_, ⟨rfl, h.going.abort, h.going.player⟩, hbase, h.count,
      Or.inr ⟨t, next, tail ++ [.data bytes 0], ht, by rw [hbuffers]; rfl⟩⟩
  | fullEnd keyOk hqueue hfull =>
    exact Or.inl ⟨f, ⟨h.going.fifo, h.going.abort, h.going.player⟩, hbase, h.count,
      Or.inr (hpushed hqueue)⟩
  | shortEnd keyOk hqueue hshort htrack hlast =>
    obtain ⟨t, next, tail, ht, hbuffers⟩ := hpushed hqueue
    exact Or.inl ⟨_, ⟨rfl, h.going.abort, h.going.player⟩, hbase, h.count,
      Or.inr ⟨t, next, tail ++ [.ended], ht, by rw [hbuffers]; rfl⟩⟩
  | substreamError hqueue =>
    exact Or.inl ⟨f, ⟨h.going.fifo, h.going.abort, h.going.player⟩, hbase, h.count,
      Or.inr (hpushed hqueue)⟩

/-- However the others go on. -/
theorem Waiting.exec {track : List Track} {n : Nat} (h : Waiting track n s f) {es : List Event}
    (hes : ∀ e ∈ es, e.goesOn) (hrun : exec (Player.step env) s es = some s') :
    ∀ x, (starts s')[n]? = some x → x.1 :: x.2 = track := by
  have hstep : ∀ s e s', ((∃ f, Waiting track n s f) ∨ Took track n s) → e.goesOn →
      Player.step env s e = some s' → (∃ f, Waiting track n s' f) ∨ Took track n s' := by
    rintro s e s' (⟨f, hw⟩ | htook) he hs
    · exact hw.step he hs
    · exact Or.inr (htook.mono (starts_grow (step_notices he.1 hs)))
  intro x hx
  rcases exec_inv_of_allSteps hstep (Or.inl ⟨f, h⟩) (AllSteps.of_forall hes s) hrun with
    ⟨f', hw⟩ | ⟨y, hy, htrack⟩
  · rw [List.getElem?_eq_none (Nat.le_of_eq hw.count)] at hx
    cases hx
  · cases hx.symm.trans hy
    exact htrack

/-! ## The call -/

/-- What `despotify_next` leaves of `s`, with `ds->track` at `list`. -/
structure Left (list : List Track) (s s' : Sys A) : Prop where
  track : s'.ds.track = list
  fifo : ∃ totbytes lastcmd, s'.ds.fifo = some ⟨[], totbytes, lastcmd⟩
  abort : s'.ds.dlabort = false
  player : s'.player = s.player
  notices : s'.ds.notices = s.ds.notices
  queue : list ≠ [] → ∃ t, s'.queue = s.queue ++ [.key t]

/-- Behind `snd_stop` nothing is found in the queue. -/
theorem next_left {totbytes : Int} {lastcmd : SndCmd}
    (hf : s.ds.fifo = some ⟨[], totbytes, lastcmd⟩) (hab : s.ds.dlabort = false) :
    (next s true true = none ∧ skipToPlayable s.ds.track = none) ∨
    ∃ track s', next s true true = some s' ∧ skipToPlayable s.ds.track = some track ∧
      Left track s s' := by
  unfold next sndNext
  simp only [hf, List.takeWhile_nil, List.dropWhile_nil, List.isEmpty_nil, Bool.not_true]
  rw [if_neg Bool.false_ne_true]
  cases hskip : skipToPlayable s.ds.track with
  | none => exact Or.inl ⟨rfl, rfl⟩
  | some track =>
    refine Or.inr ⟨track, _, rfl, rfl, ?_⟩
    cases track with
    | nil => exact ⟨rfl, ⟨_, _, rfl⟩, hab, rfl, rfl, fun hne => absurd rfl hne⟩
    | cons t rest =>
      refine ⟨rfl, ⟨0, lastcmd, ?_⟩, rfl, rfl, ?_, fun _ => ⟨t, rfl⟩⟩
      · simp [play, cmdAeskey, resetOffset, sndStopLeave, sndStopEnter_fifo]
      · simp [play, cmdAeskey, resetOffset, sndStopLeave, sndStopEnter_notices]

/-- The call runs through `snd_stop` and then as `next`. -/
theorem NextCall.step_eq {e : Event} (h : NextCall s e) (env : Env A) (hf : s.ds.fifo = some f) :
    ∃ s1 : Sys A, step env s e = next s1 true true ∧ s1.ds.track = s.ds.track ∧
      s1.ds.fifo = some ⟨[], 0, f.lastcmd⟩ ∧ s1.ds.dlabort = false ∧ s1.player = s.player ∧
      s1.ds.notices = s.ds.notices ∧ s1.queue = s.queue := by
  have htrack : (sndStopEnter s.ds).track = s.ds.track := by
    unfold sndStopEnter
    split <;> rfl
  obtain ⟨hbusy, ⟨huser, rfl⟩ | ⟨huser, rfl⟩⟩ := h
  · refine ⟨resetOffset { s with ds := sndStopLeave (sndStopEnter s.ds) }, ?_, htrack, ?_, rfl, rfl,
      sndStopEnter_notices s.ds, rfl⟩
    · simp only [step, huser, userCall, hf, sndStopEnter_busy]
      rw [if_pos trivial, if_neg hbusy]
      rfl
    · simp [resetOffset, sndStopLeave, sndStopEnter_fifo, hf]
  · refine ⟨resetOffset { s with ds := sndStopLeave s.ds, user := .idle }, ?_, rfl, ?_, rfl, rfl, rfl,
      rfl⟩
    · simp only [step, huser]
      rw [if_neg hbusy]
      rfl
    · simp [resetOffset, sndStopLeave, hf]

/-- The first playable track behind the one that is downloaded is that behind
`t`, and when there is none nothing is downloaded any more. -/
def InStep (s : Sys A) (t : Track) (next : List Track) : Prop :=
  nextPlayable s.ds.track = nextPlayable (t :: next) ∧
    (nextPlayable (t :: next) = [] → s.ds.track = [])

/-- **The next track.**  In every reachable state in which the consumer is at the
track `t`, `despotify_next` skips to the first playable track behind `t` if and
only if that is the first playable one behind `ds->track`, and `ds->track` is
`NULL` when there is none. -/
theorem skips_iff (env : Env A) (st : A) (s : Sys A) (e : Event) (t : Track) (next : List Track)
    (hreach : Reachable (step env) (Sys.init st) s) (htaken : (starts s).getLast? = some (t, next))
    (hplayer : s.player ≠ .stopping) (hcall : NextCall s e) :
    Skips env s e t next ↔ InStep s t next := by
  obtain ⟨f, hf⟩ : ∃ f, s.ds.fifo = some f := by
    refine Option.ne_none_iff_exists'.mp fun hn => ?_
    rw [reachable_no_fifo hreach hn] at htaken
    cases htaken
  obtain ⟨s1, hstep, htrack, hfifo, hab, hp, -, hqueue⟩ := hcall.step_eq env hf
  have hloop := skipToPlayable_eq_some s.ds.track (nextPlayable (t :: next))
  rw [← htrack] at hloop
  unfold InStep
  rw [← htrack, ← hloop]
  rcases next_left hfifo hab with ⟨hnone, hskip⟩ | ⟨list, s', hs', hskip, hleft⟩
  · rw [hskip]
    refine iff_of_false ?_ nofun
    rintro ⟨s', hs', -⟩
    cases (hs'.symm.trans hstep).trans hnone
  · rw [hskip, Option.some_inj]
    constructor
    · rintro ⟨s2, hs2, htrack2, -⟩
      cases (hs2.symm.trans hstep).trans hs'
      exact hleft.track.symm.trans htrack2
    · rintro rfl
      refine ⟨s', hstep.trans hs', hleft.track, fun es s2 hes hrun => ?_⟩
      obtain ⟨keys, sub, hb⟩ := exists_base hreach
      obtain ⟨totbytes, lastcmd, hfifo'⟩ := hleft.fifo
      have hwaiting : Waiting (nextPlayable (t :: next)) (starts s').length s'
          ⟨[], totbytes, lastcmd⟩ := by
        refine ⟨⟨hfifo', hleft.abort, ?_⟩, hb.kept (hstep.trans hs'), rfl,
          Or.inl ⟨rfl, hleft.track, fun hne => ?_⟩⟩
        · rw [hleft.player, hp]
          exact hplayer
        · obtain ⟨u, hu⟩ := hleft.queue hne
          rw [hu, hqueue, hb.queue, hb.no_sub hcall.1, mkQueue_key]
          cases keys with
          | nil => exact ⟨u, [], rfl⟩
          | cons k keys => exact ⟨k, mkQueue (keys ++ [u]) none, rfl⟩
      exact hwaiting.exec hes hrun

/-- The first of two tracks has just been taken: the second one is next. -/
theorem skips_first : ∃ s, exec (step noCipher) (Sys.init ())
      [.user (.play ⟨1, true⟩ [⟨2, true⟩] true true true), .aesKey, .consume 1] = some s ∧
    Skips noCipher s (.user (.next true true)) ⟨1, true⟩ [⟨2, true⟩] := by
  have hrun : exec (step noCipher) (Sys.init ())
      [.user (.play ⟨1, true⟩ [⟨2, true⟩] true true true), .aesKey, .consume 1] = some _ := rfl
  refine ⟨_, hrun, ?_⟩
  refine (skips_iff noCipher () _ (.user (.next true true)) ⟨1, true⟩ [⟨2, true⟩]
    ⟨_, hrun⟩ rfl (by decide) ⟨by decide, Or.inl ⟨rfl, rfl⟩⟩).mpr ⟨rfl, ?_⟩
  intro h
  cases h

/-- The first of three tracks is heard while the second one is downloaded. -/
def prefetchRun : List Event :=
  [.user (.play ⟨1, true⟩ [⟨2, true⟩, ⟨3, true⟩] true true true), .aesKey, .fill true,
    .data 1 (List.replicate 1025 0), .substreamEnd true, .aesKey, .consume 1]

set_option maxRecDepth 8000 in
/-- The second track is skipped with the first; and behind the last track the
search reads through `NULL`. -/
theorem prefetch_skips :
    (∃ s, exec (step noCipher) (Sys.init ()) prefetchRun = some s ∧
      (starts s).getLast? = some (⟨1, true⟩, [⟨2, true⟩, ⟨3, true⟩]) ∧
      NextCall s (.user (.next true true)) ∧
      ¬ Skips noCipher s (.user (.next true true)) ⟨1, true⟩ [⟨2, true⟩, ⟨3, true⟩]) ∧
    ∃ s, exec (step noCipher) (Sys.init ())
        [.user (.play ⟨1, true⟩ [] true true true), .aesKey, .consume 1] = some s ∧
      (starts s).getLast? = some (⟨1, true⟩, []) ∧ NextCall s (.user (.next true true)) ∧
      step noCipher s (.user (.next true true)) = none := by
  refine ⟨⟨_, rfl, rfl, ⟨by decide, Or.inl ⟨rfl, rfl⟩⟩, ?_⟩,
    ⟨_, rfl, rfl, ⟨by decide, Or.inl ⟨rfl, rfl⟩⟩, rfl⟩⟩
  rintro ⟨s', hs', htrack, -⟩
  cases hs'
  exact absurd htrack (by decide)

end Despotify.Player

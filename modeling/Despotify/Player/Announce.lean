import Despotify.Player.Playing

/-!
# The end of the playlist

`snd_consume_data` takes a `SND_CMD_END` with nothing behind it for the end of
the playlist: it calls `snd_stop` and announces the end.  But the
`SND_CMD_START` of the next track is only pushed when its key has come.

* `Announced`: the end is announced, and the download stopped, only behind the
  last playable track.
* `announced_of_runs`: so it is in every run in which the consumer finds such a
  `SND_CMD_END` only when `ds->track` is `NULL`.
* `earlyEnd_announced`: a run in which it is not.
-/

namespace Despotify.Player

open Runs

variable {A : Type} {env : Env A}

/-! ## The property -/

def isEnded : Buffer → Bool
  | .ended => true
  | .start _ _ | .data _ _ => false

/-- The `SND_CMD_END`s in the queue. -/
def queuedEnds (s : Sys A) : Nat :=
  match s.ds.fifo with
  | some f => f.buffers.countP isEnded
  | none => 0

/-- The tracks the consumer has finished since the state `s0`: those whose
`SND_CMD_END` it has taken. -/
def finished (s0 s : Sys A) : Nat :=
  s.ds.pushed.countP isEnded - s0.ds.pushed.countP isEnded - queuedEnds s

/-- The tracks behind the finished one. -/
def laterTracks (tracks : List Track) (s0 s : Sys A) : List Track := tracks.drop (finished s0 s)

/-- The consumer has called `snd_stop` since `s0`: it is in it, or the end has
been announced. -/
def ConsumerStops (s0 s : Sys A) : Prop :=
  s.player = .stopping ∨
    s0.ds.notices.count .endOfPlaylist < s.ds.notices.count .endOfPlaylist

/-- `tracks` has been played since `s0`. -/
structure Announced (tracks : List Track) (s0 s : Sys A) : Prop where
  only : ConsumerStops s0 s → laterTracks tracks s0 s = []
  /-- what is pushed is not thrown away -/
  keeps : laterTracks tracks s0 s ≠ [] → s.ds.dlabort = false

/-- The bytes a call of `snd_consume_data` waits with. -/
def PlayerPc.total : PlayerPc → Nat
  | .consuming _ total => total
  | .idle | .filling | .stopping => 0

/-- The consumer finds nothing in the queue but a `SND_CMD_END`, behind
`SND_CMD_START`s at most, and has no bytes to return. -/
def FindsEnd (s : Sys A) (e : Event) : Prop :=
  ((∃ req, e = .consume req) ∨ e = .consumeWake) ∧ s.player.total = 0 ∧
    ∃ f, s.ds.fifo = some f ∧ f.buffers.dropWhile isStart = [.ended]

/-! ## The consumer -/

/-- The `SND_CMD_END`s are the marks in the content. -/
theorem count_content (buffers : List Buffer) :
    (content buffers).count none = buffers.countP isEnded := by
  induction buffers with
  | nil => rfl
  | cons b rest ih =>
    cases b with
    | start t next => simpa [content, isEnded] using ih
    | data bytes consumed =>
      have hzero : ((bytes.drop consumed).map some).count none = 0 := by
        rw [List.count_eq_zero, List.mem_map]
        rintro ⟨_, _, hsome⟩
        cases hsome
      rw [content, List.count_append, hzero, Nat.zero_add, ih]
      rfl
    | ended => rw [content, List.count_cons_self, ih, List.countP_cons_of_pos rfl]

/-- A pass pushes nothing. -/
theorem PassSpec.countEnds_le {req total : Nat} {totbytes : Int} {buffers : List Buffer} {p : Pass}
    (h : PassSpec req total totbytes buffers p) :
    p.buffers.countP isEnded ≤ buffers.countP isEnded := by
  rw [← count_content, ← count_content, h.content, List.count_append, List.count_append]
  omega

/-! ## The invariant -/

/-- `total` is the number of `SND_CMD_END`s pushed when the whole playlist is
queued, `n` that of the ends of playlists announced before. -/
structure Announcing (total n : Nat) (s : Sys A) (f : Fifo) : Prop where
  going : Going s f
  base : ∃ keys sub, Base s keys sub
  good : ∀ b ∈ f.buffers, b.Good
  count : s.ds.pushed.countP isEnded + (remaining s.ds.track).length = total
  last : s.ds.track = [] → s.ds.dlstate = .endOfList ∨ s.ds.dlstate = .draining
  pc : ∀ req total, s.player = .consuming req total → total < req
  announced : n < s.ds.notices.count .endOfPlaylist →
    s.ds.track = [] ∧ f.buffers.countP isEnded = 0

variable {s s' : Sys A} {f : Fifo} {total n : Nat}

/-- A pass of the consumer over the queue. -/
theorem Announcing.consume (h : Announcing total n s f) {e : Event} {req done : Nat}
    (he : (s.player = .idle ∧ e = .consume req ∧ 0 < req ∧ done = 0) ∨
      (s.player = .consuming req done ∧ e = .consumeWake ∧ f.buffers ≠ []))
    (hok : FindsEnd s e → s.ds.track = [])
    (hbase : ∃ keys sub, Base (sndConsumeData s f req done) keys sub) :
    ∃ f', Announcing total n (sndConsumeData s f req done) f' := by
  have hreq : done < req := by
    rcases he with ⟨-, -, hreq, rfl⟩ | ⟨hpc, -⟩
    · exact hreq
    · exact h.pc req done hpc
  have hspec := consumeLoop_spec f.totbytes s.ds.notices h.good hreq
  obtain ⟨starts, hnotices, hnot⟩ :=
    consumeLoop_notices req f.totbytes done s.ds.notices f.buffers
  have hlastEnd := @consumeLoop_lastEnd req f.totbytes done s.ds.notices f.buffers h.good hreq
  have hle := hspec.countEnds_le
  have hcount : (starts ++ s.ds.notices).count .endOfPlaylist =
      s.ds.notices.count .endOfPlaylist := by
    rw [List.count_append, List.count_eq_zero.mpr hnot, Nat.zero_add]
  unfold sndConsumeData at hbase ⊢
  dsimp only at hbase ⊢
  generalize consumeLoop req f.totbytes done s.ds.notices f.buffers = p at *
  have hannounced : n < p.notices.count .endOfPlaylist →
      s.ds.track = [] ∧ p.buffers.countP isEnded = 0 := by
    rw [hnotices, hcount]
    intro hn
    obtain ⟨htrack, hzero⟩ := h.announced hn
    exact ⟨htrack, by omega⟩
  cases hout : p.out with
  | returned k =>
    rw [hout] at hbase
    exact ⟨{ f with buffers := p.buffers, totbytes := p.totbytes },
      ⟨rfl, h.going.abort, nofun⟩, hbase, hspec.good, h.count, h.last, nofun, hannounced⟩
  | waiting k =>
    rw [hout] at hbase
    have hk := hspec.out
    rw [hout] at hk
    refine ⟨{ f with buffers := p.buffers, totbytes := p.totbytes },
      ⟨rfl, h.going.abort, nofun⟩, hbase, hspec.good, h.count, h.last, ?_, hannounced⟩
    rintro req' total' ⟨⟩
    exact hk.2.1
  | lastEnd =>
    rw [hout] at hbase
    obtain ⟨rfl, hends⟩ := hlastEnd hout
    have hfinds : FindsEnd s e := by
      refine ⟨?_, ?_, f, h.going.fifo, hends⟩
      · rcases he with ⟨-, rfl, -⟩ | ⟨-, rfl, -⟩
        · exact Or.inl ⟨req, rfl⟩
        · exact Or.inr rfl
      · rcases he with ⟨hpc, -⟩ | ⟨hpc, -⟩
        · rw [hpc]
          rfl
        · rw [hpc]
          rfl
    have htrack := hok hfinds
    have hdl := h.last htrack
    have henter : ∀ ds : Ds A, ds.dlstate = s.ds.dlstate → sndStopEnter ds = ds := by
      intro ds hds
      unfold sndStopEnter
      rw [hds, if_neg]
      rcases hdl with hdl | hdl <;> simp [hdl]
    have hbusy : s.ds.dlstate ≠ .fillingBusy := by
      rcases hdl with hdl | hdl <;> simp [hdl]
    simp only at hbase ⊢
    rw [henter] at hbase ⊢
    · rw [if_neg hbusy] at hbase ⊢
      refine ⟨{ f with buffers := [], totbytes := 0 }, ⟨rfl, rfl, nofun⟩, hbase, nofun, h.count,
        fun _ => Or.inr rfl, nofun, fun _ => ⟨htrack, rfl⟩⟩
    · rfl
    · rfl

/-- An entry is hooked in. -/
theorem Announcing.push (h : Announcing total n s f) {ds : Ds A} {queue : List Request} {b : Buffer}
    (hb : b.Good) (hds : ds = { s.ds with aesState := ds.aesState, iv := ds.iv })
    (hbase : ∃ keys sub, Base { s with ds := Player.push ds f b, queue := queue } keys sub)
    (hended : isEnded b = false) :
    Announcing total n { s with ds := Player.push ds f b, queue := queue }
      ⟨f.buffers ++ [b], f.totbytes + b.length, b.cmd⟩ := by
  have htrack : ds.track = s.ds.track := by rw [hds]
  have hpushed : ds.pushed = s.ds.pushed := by rw [hds]
  have hdl : ds.dlstate = s.ds.dlstate := by rw [hds]
  have hnotices : ds.notices = s.ds.notices := by rw [hds]
  have hab : ds.dlabort = s.ds.dlabort := by rw [hds]
  refine ⟨⟨rfl, hab.trans h.going.abort, h.going.player⟩, hbase, ?_, ?_, ?_, h.pc, ?_⟩
  · intro b' hb'
    rcases List.mem_append.mp hb' with hb' | hb'
    · exact h.good b' hb'
    · rw [List.mem_singleton.mp hb']
      exact hb
  · change (b :: ds.pushed).countP isEnded + (remaining ds.track).length = total
    rw [List.countP_cons_of_neg (by simp [hended]), hpushed, htrack]
    exact h.count
  · change ds.track = [] → ds.dlstate = _ ∨ ds.dlstate = _
    rw [htrack, hdl]
    exact h.last
  · change n < ds.notices.count _ → ds.track = [] ∧ (f.buffers ++ [b]).countP isEnded = 0
    rw [hnotices, htrack, List.countP_append]
    intro hn
    obtain ⟨h1, h2⟩ := h.announced hn
    refine ⟨h1, ?_⟩
    rw [h2, List.countP_cons_of_neg (by simp [hended])]
    rfl

/-- A step of the other threads that finds a last `SND_CMD_END` only behind the
last track. -/
theorem Announcing.step (h : Announcing total n s f) {e : Event} (he : e.isUser = false)
    (hok : FindsEnd s e → s.ds.track = []) (hs : Player.step env s e = some s') :
    ∃ f', Announcing total n s' f' := by
  have hbase : ∃ keys sub, Base s' keys sub := by
    obtain ⟨keys, sub, hb⟩ := h.base
    exact hb.kept hs
  cases step_played h.going he hs with
  | still _ d hd hwhy player hplayer =>
    refine ⟨f, ⟨h.going.fifo, h.going.abort, ?_⟩, hbase, h.good, h.count, ?_, ?_, h.announced⟩
    · rcases hplayer with rfl | rfl
      · exact h.going.player
      · nofun
    · rcases hd with rfl | rfl
      · exact h.last
      · exact fun _ => Or.inr rfl
    · rcases hplayer with rfl | rfl
      · exact h.pc
      · nofun
  | request ok htrack hwants haligned =>
    refine ⟨f, ⟨h.going.fifo, h.going.abort, h.going.player⟩, hbase, h.good, h.count, ?_, h.pc,
      h.announced⟩
    intro hnil
    exact absurd (htrack.symm.trans hnil) nofun
  | consume hcall => exact h.consume hcall hok hbase
  | aesKey hqueue htrack => exact ⟨_, h.push trivial rfl hbase rfl⟩
  | aesKeyErr hqueue =>
    exact ⟨f, ⟨h.going.fifo, h.going.abort, h.going.player⟩, hbase, h.good, h.count, h.last, h.pc,
      h.announced⟩
  | data hqueue hn iv bytes hbytes =>
    exact ⟨_, h.push (List.length_pos_iff_ne_nil.mpr hbytes) rfl hbase rfl⟩
  | fullEnd keyOk hqueue hfull =>
    refine ⟨f, ⟨h.going.fifo, h.going.abort, h.going.player⟩, hbase, h.good, h.count, ?_, h.pc,
      h.announced⟩
    intro hnil
    obtain ⟨keys, sub, hb⟩ := h.base
    obtain ⟨-, hsub, -⟩ := mkQueue_eq_substream (hb.queue.symm.trans hqueue)
    have hhead := (hb.track _ _ _ hsub).1
    rw [show s.ds.track = [] from hnil] at hhead
    cases hhead
  | @shortEnd _ cur _ _ rest _ keyOk hqueue hshort htrack hlast =>
    have hcount := h.count
    rw [htrack, remaining_cons, List.length_cons] at hcount
    refine ⟨⟨f.buffers ++ [.ended], f.totbytes + Buffer.ended.length, .ended⟩,
      ⟨rfl, h.going.abort, h.going.player⟩, hbase, ?_, ?_, ?_, h.pc, ?_⟩
    · intro b hb
      rcases List.mem_append.mp hb with hb | hb
      · exact h.good b hb
      · rw [List.mem_singleton.mp hb]
        trivial
    · change (Buffer.ended :: s.ds.pushed).countP isEnded +
        (remaining (nextPlayable (cur :: rest))).length = total
      rw [List.countP_cons_of_pos rfl]
      omega
    · intro hnil
      exact Or.inl (if_pos hnil)
    · intro hn
      exact absurd (htrack.symm.trans (h.announced hn).1) nofun
  | substreamError hqueue =>
    exact ⟨f, ⟨h.going.fifo, h.going.abort, h.going.player⟩, hbase, h.good, h.count, h.last, h.pc,
      h.announced⟩

/-! ## From `despotify_play` on -/

theorem Announcing.announced_of (h : Announcing total n s f) (s0 : Sys A) (tracks : List Track)
    (hn : s0.ds.notices.count .endOfPlaylist = n)
    (htotal : s0.ds.pushed.countP isEnded + tracks.length = total) : Announced tracks s0 s where
  only := by
    rintro (hstopping | hmore)
    · exact absurd hstopping h.going.player
    · obtain ⟨htrack, hzero⟩ := h.announced (hn ▸ hmore)
      have hcount := h.count
      have hqueued : queuedEnds s = f.buffers.countP isEnded := by
        rw [queuedEnds, h.going.fifo]
      rw [htrack] at hcount
      have hnil : (remaining []).length = 0 := rfl
      rw [laterTracks, List.drop_eq_nil_iff, finished]
      omega
  keeps := fun _ => h.going.abort

/-- Where playing starts, the invariant holds. -/
theorem announcing_start {st : A} {s s0 : Sys A} {t : Track} {rest : List Track}
    (hreach : Reachable (Player.step env) (Sys.init st) s) (hplay : PlayReturns env s s0 t rest)
    (hplayer : s0.player ≠ .stopping) :
    ∃ f, Announcing (s0.ds.pushed.countP isEnded + (remaining (t :: rest)).length)
      (s0.ds.notices.count .endOfPlaylist) s0 f := by
  obtain ⟨htrack, -, -, ⟨totbytes, lastcmd, hfifo⟩, habort, -⟩ := hplay.starts hreach
  obtain ⟨e, hstep⟩ := hplay.exists_step
  obtain ⟨keys, sub, hb⟩ := exists_base hreach
  refine ⟨⟨[], totbytes, lastcmd⟩, ⟨hfifo, habort, hplayer⟩, hb.kept hstep, nofun, ?_, ?_,
    step_wantsMore (reachable_wantsMore hreach) hstep, fun hn => absurd hn (Nat.lt_irrefl _)⟩
  · rw [htrack]
  · intro hnil
    exact absurd (htrack.symm.trans hnil) nofun

/-- **The end of the playlist is announced only at its end**, in every run after
`despotify_play` that leaves the user out, when the consumer is not in `snd_stop`
as it begins and finds a last `SND_CMD_END` only while `ds->track` is `NULL`. -/
theorem announced_of_runs (env : Env A) (st : A) (s s0 s1 : Sys A) (t : Track) (rest : List Track)
    (es : List Event) (hreach : Reachable (step env) (Sys.init st) s)
    (hplay : PlayReturns env s s0 t rest) (hplayer : s0.player ≠ .stopping)
    (huser : ∀ e ∈ es, e.isUser = false)
    (hends : AllSteps (step env) (fun s e => FindsEnd s e → s.ds.track = []) s0 es)
    (hrun : exec (step env) s0 es = some s1) :
    Announced (remaining (t :: rest)) s0 s1 := by
  have hstep : ∀ s e s', (∃ f, Announcing
      (s0.ds.pushed.countP isEnded + (remaining (t :: rest)).length)
      (s0.ds.notices.count .endOfPlaylist) s f) →
      (e.isUser = false ∧ (FindsEnd s e → s.ds.track = [])) → step env s e = some s' →
      ∃ f, Announcing (s0.ds.pushed.countP isEnded + (remaining (t :: rest)).length)
        (s0.ds.notices.count .endOfPlaylist) s' f := by
    rintro s e s' ⟨f, hinv⟩ hok hs
    exact hinv.step hok.1 hok.2 hs
  obtain ⟨f, hinv⟩ := exec_inv_of_allSteps hstep (announcing_start hreach hplay hplayer)
    ((AllSteps.of_forall huser s0).and hends) hrun
  exact hinv.announced_of s0 _ rfl rfl

/-- After `despotify_play` on one track. -/
def oneTrack : Sys Unit :=
  play { Sys.init () with ds := sndInit (Sys.init ()).ds } ⟨1, true⟩ [] true true true

/-- A track of one byte is played to its end. -/
def earlyRun : List Event :=
  [.aesKey, .fill true, .data 1 (List.replicate 1025 0), .substreamEnd true, .consume 1, .consume 1]

set_option maxRecDepth 8000 in
/-- The only track is over, and the end announced. -/
theorem announced_of_runs_one : ∃ s1, exec (step noCipher) oneTrack earlyRun = some s1 ∧
    s1.ds.notices.count .endOfPlaylist = 1 ∧
    Announced (remaining [⟨1, true⟩]) oneTrack s1 := by
  refine ⟨_, rfl, rfl, ?_⟩
  refine announced_of_runs noCipher () (Sys.init ()) oneTrack _ ⟨1, true⟩ [] earlyRun ⟨[], rfl⟩
    ⟨true, Or.inl ⟨rfl, rfl⟩⟩ nofun (by decide) ?_ rfl
  refine AllSteps.cons (fun h => ?_) rfl ?_
  · rcases h.1 with ⟨_, he⟩ | he <;> cases he
  · refine AllSteps.cons (fun h => ?_) rfl ?_
    · rcases h.1 with ⟨_, he⟩ | he <;> cases he
    · refine AllSteps.cons (fun h => ?_) rfl ?_
      · rcases h.1 with ⟨_, he⟩ | he <;> cases he
      · refine AllSteps.cons (fun h => ?_) rfl ?_
        · rcases h.1 with ⟨_, he⟩ | he <;> cases he
        · refine AllSteps.cons (fun _ => rfl) rfl ?_
          exact AllSteps.cons (fun _ => rfl) rfl trivial

/-- After `despotify_play` on two tracks. -/
def twoTracks : Sys Unit :=
  play { Sys.init () with ds := sndInit (Sys.init ()).ds } ⟨1, true⟩ [⟨2, true⟩] true true true

theorem playReturns_twoTracks : PlayReturns noCipher (Sys.init ()) twoTracks ⟨1, true⟩ [⟨2, true⟩] :=
  ⟨true, Or.inl ⟨rfl, rfl⟩⟩

set_option maxRecDepth 8000 in
/-- Of two tracks the first one is over before the key of the second has come. -/
theorem earlyEnd_announced : ∃ s1, exec (step noCipher) twoTracks earlyRun = some s1 ∧
    PlayReturns noCipher (Sys.init ()) twoTracks ⟨1, true⟩ [⟨2, true⟩] ∧
    (∀ e ∈ earlyRun, e.isUser = false) ∧
    ¬ Announced (remaining [⟨1, true⟩, ⟨2, true⟩]) twoTracks s1 := by
  refine ⟨_, rfl, playReturns_twoTracks, by decide, fun h => ?_⟩
  exact absurd (h.only (Or.inr (by decide))) (by decide)

end Despotify.Player

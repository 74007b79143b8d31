import Despotify.Player.Playing

/-!
# The whole playlist is downloaded

`despotify_play` on a list, and nobody interferes: every playable track is asked
for and queued from its first byte to its last one.

* `Queued`: the calls of `snd_ioctl` for a whole track.
* `Gapless`: what a run has asked for and queued.
* `Flow`: the invariant; `Flow.step`, one step.
* `gapless_of_run`: in every run.
-/

namespace Despotify.Player

open Runs

variable {A : Type} {env : Env A}

/-! ## What a run does -/

inductive Action
  /-- `cmd_getsubstreams`, for `SUBSTREAM_SIZE` bytes from `offset` on -/
  | request (t : Track) (offset : Nat)
  /-- `snd_ioctl (ds, SND_CMD_START, ..)` -/
  | start (t : Track)
  /-- `snd_ioctl (ds, SND_CMD_DATA, ..)`, with the `n` bytes of the file from `offset` on -/
  | data (t : Track) (offset n : Nat)
  /-- `snd_ioctl (ds, SND_CMD_END, ..)` -/
  | ended
deriving DecidableEq, Repr

/-- What a step in `s` does. -/
def actions (s : Sys A) : Event → List Action
  | .fill _ =>
    match s.ds.fifo, s.ds.track with
    | some f, t :: _ =>
      if s.ds.dlabort = false ∧ wantsData s.ds f then [.request t s.ds.offset] else []
    | _, _ => []
  | .aesKey =>
    match s.queue, s.ds.track with
    | .key _ :: _, t :: _ => [.start t]
    | _, _ => []
  | .data n _ =>
    match s.queue with
    | .substream t offset received :: _ => [.data t (offset + received) n]
    | _ => []
  | .substreamEnd _ =>
    match s.queue with
    | .substream _ _ received :: _ => if received < SUBSTREAM_SIZE then [.ended] else []
    | _ => []
  | _ => []

/-- The calls of `snd_ioctl`. -/
def ioctls (actions : List Action) : List Action :=
  actions.filter fun
    | .request _ _ => false
    | .start _ | .data _ _ _ | .ended => true

/-- The calls of `cmd_getsubstreams`. -/
def requests (actions : List Action) : List (Track × Nat) :=
  actions.filterMap fun
    | .request t offset => some (t, offset)
    | .start _ | .data _ _ _ | .ended => none

@[simp] theorem ioctls_append (xs ys : List Action) : ioctls (xs ++ ys) = ioctls xs ++ ioctls ys :=
  List.filter_append ..

@[simp] theorem requests_append (xs ys : List Action) :
    requests (xs ++ ys) = requests xs ++ requests ys :=
  List.filterMap_append ..

/-! ## What it should do -/

/-- `calls` queue the bytes from `lo` up to `hi` of `t`, each once and in order. -/
def Tiles (t : Track) : Nat → Nat → List Action → Prop
  | lo, hi, [] => lo = hi
  | lo, hi, call :: calls => ∃ n, 0 < n ∧ call = .data t lo n ∧ Tiles t (lo + n) hi calls

/-- `calls` queue the whole of `t`. -/
def Queued (size : Track → Nat) (t : Track) (calls : List Action) : Prop :=
  ∃ chunks, calls = .start t :: chunks ++ [.ended] ∧ Tiles t 0 (size t) chunks

/-- `calls` queue the whole of `tracks`, one track after the other. -/
def AllQueued (size : Track → Nat) : List Track → List Action → Prop
  | [], calls => calls = []
  | t :: tracks, calls =>
    ∃ now later, calls = now ++ later ∧ Queued size t now ∧ AllQueued size tracks later

/-- The first `k` requests for `t`. -/
def firstRequests (t : Track) (k : Nat) : List (Track × Nat) :=
  (List.range k).map fun i => (t, i * SUBSTREAM_SIZE)

/-- The requests for `t`: the last one is the first that is not answered in full. -/
def allRequests (size : Track → Nat) (t : Track) : List (Track × Nat) :=
  firstRequests t (size t / SUBSTREAM_SIZE + 1)

/-- How many bytes the server answers a request with. -/
def reply (size : Track → Nat) (t : Track) (offset : Nat) : Nat :=
  min SUBSTREAM_SIZE (size t - offset)

/-- The call of `snd_consume_data` calls `snd_stop`. -/
def CallsStop (s : Sys A) : Event → Prop
  | .consume req => ∃ f, s.ds.fifo = some f ∧
      (consumeLoop req f.totbytes 0 s.ds.notices f.buffers).out = .lastEnd
  | .consumeWake => ∃ f req total, s.ds.fifo = some f ∧ s.player = .consuming req total ∧
      (consumeLoop req f.totbytes total s.ds.notices f.buffers).out = .lastEnd
  | _ => False

/-- Nobody interferes, requests reach the server, and it answers them in full. -/
def Undisturbed (size : Track → Nat) (s : Sys A) (e : Event) : Prop :=
  e.isUser = false ∧ e ≠ .aesKeyErr ∧ e ≠ .substreamError ∧ ¬ CallsStop s e ∧
    match e with
    | .fill ok => ok = true
    | .data n _ => ∀ t offset received queue, s.queue = .substream t offset received :: queue →
        received + n ≤ reply size t offset
    | .substreamEnd keyOk => keyOk = true ∧ ∀ t offset received queue,
        s.queue = .substream t offset received :: queue → received = reply size t offset
    | _ => True

/-- Of the tracks `all` those of `done` are queued, and what has been done of the
next one is right. -/
structure Gapless (size : Track → Nat) (all done : List Track) (s : Sys A)
    (acts : List Action) : Prop where
  order : done <+: all
  calls : ∃ before now, ioctls acts = before ++ now ∧ AllQueued size done before ∧
    (now = [] ∨ ∃ t chunks n, all[done.length]? = some t ∧ n ≤ size t ∧
      now = .start t :: chunks ∧ Tiles t 0 n chunks)
  requests : ∃ now, requests acts = done.flatMap (allRequests size) ++ now ∧
    (now = [] ∨ ∃ t k, all[done.length]? = some t ∧ k ≤ size t / SUBSTREAM_SIZE + 1 ∧
      now = firstRequests t k)
  aligned : ∀ r ∈ Player.requests acts, r.2 % 4096 = 0
  last : s.ds.dlstate = .endOfList ↔ done = all

/-! ## Tiling -/

theorem Tiles.append {t : Track} {lo mid hi : Nat} {xs ys : List Action} (h : Tiles t lo mid xs)
    (h' : Tiles t mid hi ys) : Tiles t lo hi (xs ++ ys) := by
  induction xs generalizing lo with
  | nil =>
    obtain rfl : lo = mid := h
    exact h'
  | cons x xs ih =>
    obtain ⟨n, hn, hx, hxs⟩ := h
    exact ⟨n, hn, hx, ih hxs⟩

theorem AllQueued.append {size : Track → Nat} {tracks : List Track} {t : Track}
    {before now : List Action} (h : AllQueued size tracks before) (h' : Queued size t now) :
    AllQueued size (tracks ++ [t]) (before ++ now) := by
  induction tracks generalizing before with
  | nil =>
    obtain rfl : before = [] := h
    exact ⟨now, [], (List.append_nil _).symm, h', rfl⟩
  | cons u tracks ih =>
    obtain ⟨first, later, rfl, hu, hlater⟩ := h
    exact ⟨first, later ++ now, List.append_assoc _ _ _, hu, ih hlater⟩

theorem firstRequests_succ (t : Track) (k : Nat) :
    firstRequests t (k + 1) = firstRequests t k ++ [(t, k * SUBSTREAM_SIZE)] := by
  rw [firstRequests, List.range_succ, List.map_append]
  rfl

theorem firstRequests_aligned {t : Track} {k : Nat} {r : Track × Nat}
    (h : r ∈ firstRequests t k) : r.2 % 4096 = 0 := by
  obtain ⟨i, -, rfl⟩ := List.mem_map.mp h
  change i * (200 * 1024) % 4096 = 0
  omega

/-! ## The invariant -/

/-- The track `t` is being queued: `keyed` says whether its key has come, `sub`
how much of the substream on its way has, and `k` substreams have been answered
in full. -/
structure Position (size : Track → Nat) (t : Track) (s : Sys A) (f : Fifo) (keyed : Bool)
    (sub : Option Nat) (k : Nat) (now : List Action) (asked : List (Track × Nat)) : Prop where
  queue : s.queue = (if keyed then [] else [.key t]) ++
    (sub.map fun received => Request.substream t (k * SUBSTREAM_SIZE) received).toList
  offset : s.ds.offset = k * SUBSTREAM_SIZE
  busy : s.ds.dlstate = .fillingBusy ↔ sub ≠ none
  last : s.ds.dlstate ≠ .endOfList
  le : k * SUBSTREAM_SIZE ≤ size t
  received : sub.getD 0 ≤ reply size t (k * SUBSTREAM_SIZE)
  waits : keyed = false → now = [] ∧ k = 0 ∧ sub.getD 0 = 0
  queued : keyed = true → ∃ chunks, now = .start t :: chunks ∧
    Tiles t 0 (k * SUBSTREAM_SIZE + sub.getD 0) chunks
  lastcmd : keyed = true → 0 < k * SUBSTREAM_SIZE + sub.getD 0 → f.lastcmd ≠ .start
  asked : asked = firstRequests t (k + if sub = none then 0 else 1)

/-- All is queued. -/
structure Over (s : Sys A) (now : List Action) (asked : List (Track × Nat)) : Prop where
  queue : s.queue = []
  last : s.ds.dlstate = .endOfList
  now : now = []
  asked : asked = []

/-- Of the tracks `all` those of `done` are queued. -/
structure Flow (size : Track → Nat) (all done : List Track) (s : Sys A) (f : Fifo)
    (acts : List Action) : Prop where
  going : Going s f
  list : s.ds.playAsList = true
  player : s.player ≠ .filling
  split : all = done ++ remaining s.ds.track
  progress : ∃ before now asked, ioctls acts = before ++ now ∧ AllQueued size done before ∧
    requests acts = done.flatMap (allRequests size) ++ asked ∧
    ((s.ds.track = [] ∧ Over s now asked) ∨
      ∃ t rest keyed sub k, s.ds.track = t :: rest ∧ Position size t s f keyed sub k now asked)

variable {size : Track → Nat} {all done : List Track} {s s' : Sys A} {f f' : Fifo}
  {acts : List Action}

/-- The state as far as the invariant sees it. -/
theorem Flow.of_same (h : Flow size all done s f acts) (hgoing : Going s' f')
    (hplayer : s'.player ≠ .filling) (hlist : s'.ds.playAsList = s.ds.playAsList)
    (htrack : s'.ds.track = s.ds.track) (hoffset : s'.ds.offset = s.ds.offset)
    (hqueue : s'.queue = s.queue) (hlastcmd : f'.lastcmd = f.lastcmd)
    (hdl : s'.ds.dlstate = s.ds.dlstate ∨
      (s.ds.dlstate = .filling ∧ s'.ds.dlstate = .draining)) :
    Flow size all done s' f' acts := by
  obtain ⟨before, now, asked, hcalls, hbefore, hreqs, hrest⟩ := h.progress
  refine ⟨hgoing, hlist.trans h.list, hplayer, by rw [htrack]; exact h.split,
    before, now, asked, hcalls, hbefore, hreqs, ?_⟩
  rcases hrest with ⟨hnil, hover⟩ | ⟨t, rest, keyed, sub, k, htr, hp⟩
  · refine Or.inl ⟨htrack.trans hnil, hqueue.trans hover.queue, ?_, hover.now, hover.asked⟩
    rcases hdl with hdl | ⟨hdl, -⟩
    · exact hdl.trans hover.last
    · cases hover.last.symm.trans hdl
  · refine Or.inr ⟨t, rest, keyed, sub, k, htrack.trans htr, hqueue.trans hp.queue,
      hoffset.trans hp.offset, ?_, ?_, hp.le, hp.received, hp.waits, hp.queued, ?_, hp.asked⟩
    · rcases hdl with hdl | ⟨hdl, hdl'⟩
      · rw [hdl]
        exact hp.busy
      · rw [← hp.busy, hdl, hdl']
        exact iff_of_false nofun nofun
    · rcases hdl with hdl | ⟨-, hdl'⟩
      · rw [hdl]
        exact hp.last
      · rw [hdl']
        nofun
    · rw [hlastcmd]
      exact hp.lastcmd

/-! ## One step -/

/-- `snd_fill_fifo` asks for the next bytes. -/
theorem Flow.request (h : Flow size all done s f acts) {t : Track} {rest : List Track}
    (htrack : s.ds.track = t :: rest) (hwants : wantsData s.ds f = true) :
    Flow size all done { s with
      ds := { s.ds with dlstate := .fillingBusy }
      queue := s.queue ++ [.substream t s.ds.offset 0] } f
      (acts ++ [.request t s.ds.offset]) := by
  obtain ⟨before, now, asked, hcalls, hbefore, hreqs, hrest⟩ := h.progress
  have hidle := Base.wantsData_idle hwants
  refine ⟨⟨h.going.fifo, h.going.abort, h.going.player⟩, h.list, h.player, h.split, before, now,
    asked ++ [(t, s.ds.offset)], ?_, hbefore, ?_, Or.inr ?_⟩
  · rw [ioctls_append, hcalls]
    exact List.append_nil _
  · rw [requests_append, hreqs, List.append_assoc]
    rfl
  · rcases hrest with ⟨hnil, -⟩ | ⟨t', rest', keyed, sub, k, htr, hp⟩
    · exact absurd (htrack.symm.trans hnil) nofun
    · cases htrack.symm.trans htr
      obtain rfl : sub = none := by
        by_contra hne
        exact hidle (hp.busy.mpr hne)
      refine ⟨t, rest, keyed, some 0, k, htrack, ?_, hp.offset, iff_of_true rfl nofun, nofun, hp.le,
        Nat.zero_le _, hp.waits, hp.queued, hp.lastcmd, ?_⟩
      · change s.queue ++ _ = _
        rw [hp.queue, hp.offset]
        simp
      · rw [hp.asked, hp.offset]
        simp [firstRequests_succ]

/-- The key comes. -/
theorem Flow.aesKey (h : Flow size all done s f acts) {k t : Track} {next : List Track}
    {queue : List Request} (hqueue : s.queue = .key k :: queue) (htrack : s.ds.track = t :: next)
    (aesState : A) (iv : List UInt8) :
    Flow size all done { s with
      ds := push { s.ds with aesState := aesState, iv := iv } f (.start t next)
      queue := queue } ⟨f.buffers ++ [.start t next], f.totbytes + (0 : Nat), .start⟩
      (acts ++ [.start t]) := by
  obtain ⟨before, now, asked, hcalls, hbefore, hreqs, hrest⟩ := h.progress
  refine ⟨⟨rfl, h.going.abort, h.going.player⟩, h.list, h.player, h.split, before,
    now ++ [.start t], asked, ?_, hbefore, ?_, Or.inr ?_⟩
  · rw [ioctls_append, hcalls, List.append_assoc]
    rfl
  · rw [requests_append, hreqs]
    exact List.append_nil _
  · rcases hrest with ⟨hnil, -⟩ | ⟨t', rest', keyed, sub, n, htr, hp⟩
    · exact absurd (htrack.symm.trans hnil) nofun
    · cases htrack.symm.trans htr
      have hq := hp.queue.symm.trans hqueue
      cases keyed with
      | true => cases sub <;> cases hq
      | false =>
        obtain ⟨rfl, rfl, hzero⟩ := hp.waits rfl
        refine ⟨t, next, true, sub, 0, htrack, ?_, hp.offset, hp.busy, hp.last, hp.le, hp.received,
          nofun, fun _ => ⟨[], rfl, ?_⟩, fun _ hpos => ?_, hp.asked⟩
        · cases hq
          rfl
        · change 0 = _
          omega
        · omega

/-- Bytes come. -/
theorem Flow.data (h : Flow size all done s f acts) {t : Track} {offset received n : Nat}
    {queue : List Request} (hqueue : s.queue = .substream t offset received :: queue) (hn : 0 < n)
    (hreply : received + n ≤ reply size t offset) (iv : List UInt8) (bytes : List Cell) :
    Flow size all done { s with
      ds := push { s.ds with iv := iv } f (.data bytes 0)
      queue := .substream t offset (received + n) :: queue }
      ⟨f.buffers ++ [.data bytes 0], f.totbytes + bytes.length, .data⟩
      (acts ++ [.data t (offset + received) n]) := by
  obtain ⟨before, now, asked, hcalls, hbefore, hreqs, hrest⟩ := h.progress
  refine ⟨⟨rfl, h.going.abort, h.going.player⟩, h.list, h.player, h.split, before,
    now ++ [.data t (offset + received) n], asked, ?_, hbefore, ?_, ?_⟩
  · rw [ioctls_append, hcalls, List.append_assoc]
    rfl
  · rw [requests_append, hreqs]
    exact List.append_nil _
  · rcases hrest with ⟨-, hover⟩ | ⟨t', rest', keyed, sub, k, htr, hp⟩
    · cases hover.queue.symm.trans hqueue
    · have hq := hp.queue.symm.trans hqueue
      cases keyed with
      | false => cases hq
      | true =>
        cases sub with
        | none => cases hq
        | some r =>
          cases hq
          obtain ⟨chunks, rfl, htiles⟩ := hp.queued rfl
          refine Or.inr ⟨t, rest', true, some (received + n), k, htr, rfl, hp.offset,
            hp.busy.trans (iff_of_true nofun nofun), hp.last, hp.le, hreply, nofun, fun _ => ?_,
            fun _ _ => nofun, hp.asked⟩
          refine ⟨chunks ++ [.data t (k * SUBSTREAM_SIZE + received) n], rfl, htiles.append ?_⟩
          exact ⟨n, hn, rfl, Nat.add_assoc _ _ _⟩

/-- A substream is answered in full, and there may be more. -/
theorem Flow.fullEnd (h : Flow size all done s f acts) {t : Track} {offset received : Nat}
    {queue : List Request} (hqueue : s.queue = .substream t offset received :: queue)
    (hreply : received = reply size t offset) (hfull : SUBSTREAM_SIZE ≤ received) :
    Flow size all done { s with
      ds := { s.ds with
        errorcount := 0, offset := s.ds.offset + received, dlstate := stepDown s.ds.dlstate }
      queue := queue } f acts := by
  obtain ⟨before, now, asked, hcalls, hbefore, hreqs, hrest⟩ := h.progress
  refine ⟨⟨h.going.fifo, h.going.abort, h.going.player⟩, h.list, h.player, h.split, before, now,
    asked, hcalls, hbefore, hreqs, ?_⟩
  rcases hrest with ⟨-, hover⟩ | ⟨t', rest', keyed, sub, k, htr, hp⟩
  · cases hover.queue.symm.trans hqueue
  · have hq := hp.queue.symm.trans hqueue
    cases keyed with
    | false => cases hq
    | true =>
      cases sub with
      | none => cases hq
      | some r =>
        cases hq
        obtain ⟨chunks, rfl, htiles⟩ := hp.queued rfl
        have hdl : s.ds.dlstate = .fillingBusy := hp.busy.mpr nofun
        have hr : received = SUBSTREAM_SIZE ∧ k * SUBSTREAM_SIZE + SUBSTREAM_SIZE ≤ size t := by
          have hle := hp.le
          unfold reply at hreply
          constructor <;> omega
        obtain ⟨rfl, hle⟩ := hr
        have hk : (k + 1) * SUBSTREAM_SIZE = k * SUBSTREAM_SIZE + SUBSTREAM_SIZE :=
          Nat.succ_mul _ _
        refine Or.inr ⟨t, rest', true, none, k + 1, htr, rfl, ?_, ?_, ?_, ?_, Nat.zero_le _, nofun,
          fun _ => ⟨chunks, rfl, ?_⟩, ?_, hp.asked⟩
        · change s.ds.offset + _ = _
          rw [hp.offset, hk]
        · change stepDown s.ds.dlstate = _ ↔ _
          rw [hdl]
          exact iff_of_false nofun (fun hne => hne rfl)
        · change stepDown s.ds.dlstate ≠ _
          rw [hdl]
          nofun
        · rw [hk]
          exact hle
        · rw [hk]
          simpa using htiles
        · rw [hk]
          simpa using hp.lastcmd

/-- The track ends. -/
theorem Flow.shortEnd (h : Flow size all done s f acts) {t cur : Track} {offset received : Nat}
    {rest : List Track} {queue : List Request}
    (hqueue : s.queue = .substream t offset received :: queue)
    (hreply : received = reply size t offset) (hshort : received < SUBSTREAM_SIZE)
    (htrack : s.ds.track = cur :: rest) :
    Flow size all (done ++ [cur]) { s with
      ds := { push s.ds f .ended with
        track := nextPlayable (cur :: rest), errorcount := 0, offset := 0
        dlstate := if nextPlayable (cur :: rest) = [] then .endOfList
          else stepDown s.ds.dlstate }
      queue := queue ++ nextKey s.ds (nextPlayable (cur :: rest)) true }
      ⟨f.buffers ++ [.ended], f.totbytes + (0 : Nat), .ended⟩ (acts ++ [.ended]) := by
  obtain ⟨before, now, asked, hcalls, hbefore, hreqs, hrest⟩ := h.progress
  have hsplit := h.split
  rw [htrack, remaining_cons] at hsplit
  rcases hrest with ⟨-, hover⟩ | ⟨t', rest', keyed, sub, k, htr, hp⟩
  · cases hover.queue.symm.trans hqueue
  · have hq := hp.queue.symm.trans hqueue
    cases htrack.symm.trans htr
    cases keyed with
    | false => cases hq
    | true =>
      cases sub with
      | none => cases hq
      | some r =>
        cases hq
        obtain ⟨chunks, rfl, htiles⟩ := hp.queued rfl
        have hdl : s.ds.dlstate = .fillingBusy := hp.busy.mpr nofun
        have hle := hp.le
        have hend : k * SUBSTREAM_SIZE + received = size t := by
          unfold reply at hreply
          omega
        have hk : size t / SUBSTREAM_SIZE = k := by
          rw [← hend, Nat.mul_comm, Nat.mul_add_div (by decide), Nat.div_eq_of_lt hshort,
            Nat.add_zero]
        refine ⟨⟨rfl, h.going.abort, h.going.player⟩, h.list, h.player, ?_,
          before ++ (.start t :: chunks ++ [.ended]), [], [], ?_, hbefore.append ⟨chunks, rfl, ?_⟩,
          ?_, ?_⟩
        · rw [hsplit, List.append_assoc]
          rfl
        · rw [ioctls_append, hcalls, List.append_assoc, List.append_nil]
          rfl
        · rw [← hend]
          exact htiles
        · rw [requests_append, hreqs, hp.asked, List.flatMap_append, List.append_nil,
            List.flatMap_singleton, allRequests, hk]
          exact List.append_nil _
        · dsimp only
          cases hnext : nextPlayable (t :: rest) with
          | nil =>
            refine Or.inl ⟨rfl, rfl, ?_, rfl, rfl⟩
            dsimp only
            rw [if_pos rfl]
          | cons u tail =>
            refine Or.inr ⟨u, tail, false, none, 0, rfl, ?_, rfl, ?_, ?_, ?_, Nat.zero_le _,
              fun _ => ⟨rfl, rfl, rfl⟩, nofun, nofun, rfl⟩
            · simp [nextKey, h.list]
            · simp [hdl, stepDown]
            · simp [hdl, stepDown]
            · rw [Nat.zero_mul]
              exact Nat.zero_le _

/-- The consumer takes what it gets. -/
theorem Flow.consume (h : Flow size all done s f acts) {e : Event} {req total : Nat}
    (he : (s.player = .idle ∧ e = .consume req ∧ 0 < req ∧ total = 0) ∨
      (s.player = .consuming req total ∧ e = .consumeWake ∧ f.buffers ≠ []))
    (hstop : ¬ CallsStop s e) : ∃ f', Flow size all done (sndConsumeData s f req total) f' acts := by
  have hout : (consumeLoop req f.totbytes total s.ds.notices f.buffers).out ≠ .lastEnd := by
    intro hlast
    rcases he with ⟨-, rfl, -, rfl⟩ | ⟨hpc, rfl, -⟩
    · exact hstop ⟨f, h.going.fifo, hlast⟩
    · exact hstop ⟨f, req, total, h.going.fifo, hpc, hlast⟩
  unfold sndConsumeData
  dsimp only
  generalize consumeLoop req f.totbytes total s.ds.notices f.buffers = p at hout ⊢
  cases hp : p.out with
  | returned n =>
    exact ⟨{ f with buffers := p.buffers, totbytes := p.totbytes },
      h.of_same ⟨rfl, h.going.abort, nofun⟩ nofun rfl rfl rfl rfl rfl (Or.inl rfl)⟩
  | waiting n =>
    exact ⟨{ f with buffers := p.buffers, totbytes := p.totbytes },
      h.of_same ⟨rfl, h.going.abort, nofun⟩ nofun rfl rfl rfl rfl rfl (Or.inl rfl)⟩
  | lastEnd => exact absurd hp hout

/-- A step nobody disturbs. -/
theorem Flow.step (h : Flow size all done s f acts) {e : Event} (he : Undisturbed size s e)
    (hs : Player.step env s e = some s') :
    ∃ done' f', Flow size all done' s' f' (acts ++ actions s e) := by
  obtain ⟨huser, herr, herr', hstop, hevent⟩ := he
  cases step_played h.going huser hs with
  | still he d hd hwhy player hplayer =>
    have hact : actions s e = [] := by
      rcases he with ⟨ok, rfl, hwants⟩ | rfl | rfl
      · cases htrack : s.ds.track <;> simp [actions, h.going.fifo, htrack, hwants]
      · rfl
      · rfl
    rw [hact, List.append_nil]
    refine ⟨done, f, h.of_same ⟨h.going.fifo, h.going.abort, ?_⟩ ?_ rfl rfl rfl rfl rfl ?_⟩
    · rcases hplayer with rfl | rfl
      · exact h.going.player
      · nofun
    · rcases hplayer with rfl | rfl
      · exact h.player
      · nofun
    · by_cases hsame : d = s.ds.dlstate
      · exact Or.inl hsame
      · rcases hwhy hsame with hfilling | ⟨hpc, -⟩
        · exact Or.inr ⟨hfilling, hd.resolve_left hsame⟩
        · exact absurd hpc h.player
  | @request t rest ok htrack hwants haligned =>
    obtain rfl : ok = true := hevent
    have hact : actions s (.fill true) = [.request t s.ds.offset] := by
      simp [actions, h.going.fifo, htrack, h.going.abort, hwants]
    rw [hact]
    exact ⟨done, f, h.request htrack hwants⟩
  | consume hcall =>
    have hact : actions s e = [] := by
      rcases hcall with ⟨-, rfl, -⟩ | ⟨-, rfl, -⟩ <;> rfl
    rw [hact, List.append_nil]
    obtain ⟨f', hf'⟩ := h.consume hcall hstop
    exact ⟨done, f', hf'⟩
  | @aesKey k t next queue hqueue htrack =>
    have hact : actions s .aesKey = [.start t] := by simp [actions, hqueue, htrack]
    rw [hact]
    exact ⟨done, _, h.aesKey hqueue htrack _ _⟩
  | aesKeyErr hqueue => exact absurd rfl herr
  | @data t offset received n queue mem hqueue hn iv bytes hbytes =>
    have hact : actions s (.data n mem) = [.data t (offset + received) n] := by
      simp [actions, hqueue]
    rw [hact]
    exact ⟨done, _, h.data hqueue hn (hevent _ _ _ _ hqueue) iv bytes⟩
  | fullEnd keyOk hqueue hfull =>
    have hact : actions s (.substreamEnd keyOk) = [] := by
      simp only [actions, hqueue]
      rw [if_neg (by omega)]
    rw [hact, List.append_nil]
    exact ⟨done, f, h.fullEnd hqueue (hevent.2 _ _ _ _ hqueue) hfull⟩
  | shortEnd keyOk hqueue hshort htrack hlast =>
    obtain ⟨rfl, hreply⟩ := hevent
    have hact : actions s (.substreamEnd true) = [.ended] := by
      simp only [actions, hqueue]
      rw [if_pos hshort]
    rw [hact]
    exact ⟨_, _, h.shortEnd hqueue (hreply _ _ _ _ hqueue) hshort htrack⟩
  | substreamError hqueue => exact absurd rfl herr'

/-! ## Every run -/

theorem Flow.gapless (h : Flow size all done s f acts) : Gapless size all done s acts := by
  obtain ⟨before, now, asked, hcalls, hbefore, hreqs, hrest⟩ := h.progress
  have hall : ∀ r ∈ done.flatMap (allRequests size), r.2 % 4096 = 0 := by
    intro r hr
    obtain ⟨t, -, hr⟩ := List.mem_flatMap.mp hr
    exact firstRequests_aligned hr
  rcases hrest with ⟨hnil, hover⟩ | ⟨t, rest, keyed, sub, k, htr, hp⟩
  · have hdone : all = done := by
      rw [h.split, hnil]
      exact List.append_nil _
    obtain ⟨-, hlast, rfl, rfl⟩ := hover
    refine ⟨⟨_, h.split.symm⟩, ⟨before, [], hcalls, hbefore, Or.inl rfl⟩, ⟨[], hreqs, Or.inl rfl⟩, ?_,
      iff_of_true hlast hdone.symm⟩
    rw [hreqs, List.append_nil]
    exact hall
  · have hget : all[done.length]? = some t := by
      rw [h.split, htr, remaining, List.getElem?_append_right (Nat.le_refl _), Nat.sub_self]
      rfl
    have hne : done ≠ all := by
      intro heq
      rw [← heq, List.getElem?_eq_none (Nat.le_refl _)] at hget
      cases hget
    have hreceived := hp.received
    have hle := hp.le
    refine ⟨⟨_, h.split.symm⟩, ⟨before, now, hcalls, hbefore, ?_⟩, ⟨asked, hreqs, Or.inr ?_⟩, ?_,
      iff_of_false hp.last hne⟩
    · cases keyed with
      | false => exact Or.inl (hp.waits rfl).1
      | true =>
        obtain ⟨chunks, hnow, htiles⟩ := hp.queued rfl
        refine Or.inr ⟨t, chunks, _, hget, ?_, hnow, htiles⟩
        unfold reply at hreceived
        omega
    · refine ⟨t, _, hget, ?_, hp.asked⟩
      have hk : k ≤ size t / SUBSTREAM_SIZE := (Nat.le_div_iff_mul_le (by decide)).mpr hle
      split <;> omega
    · rw [hreqs, hp.asked]
      intro r hr
      rcases List.mem_append.mp hr with hr | hr
      · exact hall r hr
      · exact firstRequests_aligned hr

/-- What can happen next, and does not fail: the answers the server owes, and a
call of `snd_fill_fifo`. -/
structure Enabled (env : Env A) (size : Track → Nat) (all done : List Track) (s : Sys A) : Prop where
  fill : s.player = .idle → (step env s (.fill true)).isSome
  key : ∀ t queue, s.queue = .key t :: queue → (step env s .aesKey).isSome
  data : ∀ t offset received queue n mem, s.queue = .substream t offset received :: queue →
    0 < n → n < 65536 → mem.length = n + 1024 → (step env s (.data n mem)).isSome
  ending : ∀ t offset received queue, s.queue = .substream t offset received :: queue →
    received = reply size t offset → (step env s (.substreamEnd true)).isSome
  asks : done ≠ all → s.queue = [] → s.ds.dlstate = .filling ∨ s.ds.dlstate = .draining

/-- `snd_fill_fifo` does not fail. -/
theorem Flow.fill_isSome (h : Flow size all done s f acts) (hidle : s.player = .idle) :
    (Player.step env s (.fill true)).isSome := by
  obtain ⟨_, _, _, -, -, -, hrest⟩ := h.progress
  simp only [Player.step, hidle, h.going.fifo, sndFillFifo]
  rw [if_neg (by simp [h.going.abort])]
  by_cases hwants : wantsData s.ds f = true
  · rw [if_pos hwants]
    rcases hrest with ⟨-, hover⟩ | ⟨t, rest, keyed, sub, k, htr, hp⟩
    · simp [wantsData, hover.last] at hwants
    · have haligned : s.ds.offset % 4096 = 0 := by
        rw [hp.offset]
        change k * (200 * 1024) % 4096 = 0
        omega
      simp [readStream, htr, haligned]
  · rw [if_neg hwants]
    split <;> rfl

/-- The reply that ends a substream does not fail. -/
theorem Flow.end_isSome (h : Flow size all done s f acts) (hsize : ∀ t ∈ all, 0 < size t)
    {t : Track} {offset received : Nat} {queue : List Request}
    (hqueue : s.queue = .substream t offset received :: queue)
    (hreply : received = reply size t offset) :
    (Player.step env s (.substreamEnd true)).isSome := by
  obtain ⟨_, _, _, -, -, -, hrest⟩ := h.progress
  rcases hrest with ⟨-, hover⟩ | ⟨t', rest, keyed, sub, k, htr, hp⟩
  · cases hover.queue.symm.trans hqueue
  · have hq := hp.queue.symm.trans hqueue
    simp only [Player.step, hqueue]
    by_cases hshort : received < SUBSTREAM_SIZE
    · rw [h.going.substreamEnd_short true hshort htr]
      cases keyed with
      | false => cases hq
      | true =>
        cases sub with
        | none => cases hq
        | some r =>
          cases hq
          have hpos : 0 < size t := by
            refine hsize t ?_
            rw [h.split, htr, remaining_cons]
            simp
          have hle := hp.le
          have hend : 0 < k * SUBSTREAM_SIZE + received := by
            unfold reply at hreply
            omega
          rw [if_neg (hp.lastcmd rfl hend)]
          rfl
    · simp [substreamEnd, hshort]

theorem Flow.enabled (h : Flow size all done s f acts) (hsize : ∀ t ∈ all, 0 < size t) :
    Enabled env size all done s := by
  obtain ⟨_, _, _, -, -, -, hrest⟩ := h.progress
  refine ⟨h.fill_isSome, fun k queue hqueue => ?_, ?_,
    fun t offset received queue hqueue hreply => h.end_isSome hsize hqueue hreply,
    fun hne hqueue => ?_⟩
  · rcases hrest with ⟨-, hover⟩ | ⟨t, rest, keyed, sub, n, htr, hp⟩
    · cases hover.queue.symm.trans hqueue
    · simp only [Player.step, hqueue, aesCallback, htr]
      rw [sndIoctlStart_eq (f := f)]
      · rfl
      · exact h.going.fifo
      · exact h.going.abort
  · intro t offset received queue n mem hqueue hn hn' hmem
    simp only [Player.step, hqueue]
    rw [if_pos ⟨hn, hn', hmem⟩]
    have hfifo : s.ds.fifo ≠ none := by
      rw [h.going.fifo]
      exact Option.some_ne_none f
    obtain ⟨ds, hds⟩ := @substreamData_some A env s.ds
      ((List.range n).map fun i => wireCell env t (offset + received + i)) mem hfifo
    rw [hds]
    rfl
  · rcases hrest with ⟨hnil, -⟩ | ⟨t, rest, keyed, sub, n, htr, hp⟩
    · refine absurd ?_ hne
      rw [h.split, hnil]
      exact (List.append_nil _).symm
    · have hq := hp.queue.symm.trans hqueue
      have hsub : sub = none := by
        cases sub with
        | none => rfl
        | some r => cases keyed <;> cases hq
      have hbusy : s.ds.dlstate ≠ .fillingBusy := fun hb => hp.busy.mp hb hsub
      have hlast := hp.last
      cases hdl : s.ds.dlstate with
      | filling => exact Or.inl rfl
      | draining => exact Or.inr rfl
      | fillingBusy => exact absurd hdl hbusy
      | endOfList => exact absurd hdl hlast

/-- A track of one byte behind an unplayable one: asked for, queued, and over. -/
def shortRun : List Event :=
  [.fill true, .aesKey, .data 1 (List.replicate 1025 0), .substreamEnd true]

end Despotify.Player

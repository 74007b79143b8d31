import Despotify.Player.Base
import Despotify.Player.Consume
import Despotify.Pool.Blocks
import Despotify.Pool.Runs

/-!
# The sound queue loses nothing

A producer pushes tracks with `snd_ioctl`, each `SND_CMD_START`, some data,
`SND_CMD_END`; a consumer calls `snd_consume_data`.  Between two calls that
return 0 the consumer gets the data of one track, as they were stored.

* `Line`: the queue, the call in progress and the calls made.
* `Line.Inv`: what was handed over and what is queued is what was pushed.
* `conserve_iff`: for every interleaving; `snd_ioctl` reads through `NULL`
  exactly when `SND_CMD_END` follows its `SND_CMD_START` directly.
-/

namespace Despotify.Player

open Runs Blocks

variable {A : Type}

/-! ## The machine -/

/-- A call of `snd_consume_data`: the bytes asked for and what its consumer got. -/
structure Call where
  req : Nat
  pieces : List (Nat × List Cell)
deriving DecidableEq, Repr

/-- What it returns. -/
def Call.total (c : Call) : Nat := (handed c.pieces).length

inductive CallPc
  | idle
  /-- in `pthread_cond_wait` -/
  | waiting (c : Call)
  /-- in the wait loop of `snd_stop` -/
  | stopping (c : Call)
deriving DecidableEq, Repr

structure Line (A : Type) where
  ds : Ds A
  pc : CallPc
  calls : List Call

/-- A session after `snd_init`. -/
def Line.init (st : A) : Line A := ⟨sndInit (Sys.init st).ds, .idle, []⟩

inductive Op
  | start (t : Track) (next : List Track)
  | data (mem : List Cell) (length : Nat)
  | ended
  | consume (req : Nat)
  | wake
  | stopped
  /-- the other threads write `track` and `dlstate` -/
  | other (track : List Track) (dlstate : DlState)
deriving DecidableEq, Repr

def Op.isPush : Op → Bool
  | .start _ _ | .data _ _ | .ended => true
  | .consume _ | .wake | .stopped | .other _ _ => false

/-- `snd_consume_data` from the top of its loop. -/
def Line.pass (l : Line A) (f : Fifo) (c : Call) : Line A :=
  let pass := consumeLoop c.req f.totbytes c.total l.ds.notices f.buffers
  let ds := { l.ds with
    fifo := some { f with buffers := pass.buffers, totbytes := pass.totbytes }
    notices := pass.notices }
  let c := { c with pieces := c.pieces ++ pass.pieces }
  match pass.out with
  | .returned _ => { ds := ds, pc := .idle, calls := l.calls ++ [c] }
  | .waiting _ => { l with ds := ds, pc := .waiting c }
  | .lastEnd =>
    let ds := sndStopEnter ds
    if ds.dlstate = .fillingBusy then { l with ds := ds, pc := .stopping c }
    else { ds := endOfPlaylist (sndStopLeave ds), pc := .idle, calls := l.calls ++ [c] }

/-- Nothing is pushed while `dlabort` is set; data come in buffers as
`despotify_substream_callback` allocates them. -/
def Line.step (l : Line A) : Op → Option (Line A)
  | .start t next =>
    if l.ds.dlabort then none
    else (sndIoctlStart l.ds t next).map fun ds => { l with ds := ds }
  | .data mem length =>
    if l.ds.dlabort ∨ length = 0 ∨ mem.length ≠ length + 1024 then none
    else (sndIoctlData l.ds mem length).map fun ds => { l with ds := ds }
  | .ended =>
    if l.ds.dlabort then none else (sndIoctlEnd l.ds).map fun ds => { l with ds := ds }
  | .consume req =>
    match l.pc, l.ds.fifo with
    | .idle, some f => if 0 < req then some (l.pass f ⟨req, []⟩) else none
    | _, _ => none
  | .wake =>
    match l.pc, l.ds.fifo with
    | .waiting c, some f => if f.buffers.isEmpty then none else some (l.pass f c)
    | _, _ => none
  | .stopped =>
    match l.pc with
    | .stopping c =>
      if l.ds.dlstate = .fillingBusy then none
      else
        some { ds := endOfPlaylist (sndStopLeave l.ds), pc := .idle, calls := l.calls ++ [c] }
    | _ => none
  | .other track dlstate => some { l with ds := { l.ds with track := track, dlstate := dlstate } }

/-- `snd_ioctl` reads through the `NULL` data of `SND_CMD_END`. -/
def Line.Faults (l : Line A) (op : Op) : Prop :=
  op = .ended ∧ l.ds.dlabort = false ∧ ∃ f, l.ds.fifo = some f ∧ f.lastcmd = .start

/-! ## What was handed over -/

/-- The bytes of a call, and `none` when it returns 0. -/
def Call.tokens (c : Call) : List (Option Cell) :=
  (handed c.pieces).map some ++ if c.total = 0 then [none] else []

/-- The bytes of the call in progress. -/
def CallPc.bytes : CallPc → List Cell
  | .idle => []
  | .waiting c | .stopping c => handed c.pieces

/-- All that has left the queue. -/
def Line.out (l : Line A) : List (Option Cell) :=
  l.calls.flatMap Call.tokens ++
    match l.pc with
    | .idle => []
    | .waiting c => (handed c.pieces).map some
    | .stopping c => c.tokens

/-- The consumer's offsets grow from 0 without gaps, and it gets at most what
it asked for. -/
structure Call.Ok (c : Call) : Prop where
  contiguous : Contiguous 0 c.pieces
  le : c.total ≤ c.req

/-- The call in progress. -/
def CallPc.Ok (dlabort : Bool) (buffers : List Buffer) : CallPc → Prop
  | .idle => dlabort = false
  | .waiting c => dlabort = false ∧ c.Ok ∧ c.total < c.req
  | .stopping c => dlabort = true ∧ c.Ok ∧ c.total = 0 ∧ buffers = []

/-- With `dlabort` clear the queue does not matter to the call. -/
theorem CallPc.Ok.queue {pc : CallPc} {buffers : List Buffer} (h : pc.Ok false buffers)
    (buffers' : List Buffer) : pc.Ok false buffers' := by
  cases pc with
  | idle => exact h
  | waiting c => exact h
  | stopping c => exact absurd h.1 nofun

structure Line.Inv (l : Line A) (f : Fifo) : Prop where
  fifo : l.ds.fifo = some f
  good : ∀ b ∈ f.buffers, b.Good
  conserve : l.out ++ content f.buffers = content l.ds.pushed.reverse
  calls : ∀ c ∈ l.calls, c.Ok
  pc : l.pc.Ok l.ds.dlabort f.buffers

theorem Line.inv_init (st : A) : (Line.init st).Inv ⟨[], 0, .start⟩ :=
  ⟨rfl, nofun, rfl, nofun, rfl⟩

/-! ## Pushing -/

/-- Entry `b` is hooked in. -/
theorem Line.Inv.push {l : Line A} {f : Fifo} (h : l.Inv f) {ds : Ds A} {b : Buffer}
    (hb : b.Good) (hq : Enqueued l.ds ds b) (hab : l.ds.dlabort = false) :
    Line.Inv { l with ds := ds } ⟨f.buffers ++ [b], f.totbytes + b.length, b.cmd⟩ := by
  rcases hq with ⟨hab', -⟩ | ⟨-, f', hf', rfl⟩
  · exact absurd (hab.symm.trans hab') nofun
  · cases h.fifo.symm.trans hf'
    refine ⟨rfl, ?_, ?_, h.calls, ?_⟩
    · intro b' hb'
      rcases List.mem_append.mp hb' with hb' | hb'
      · exact h.good b' hb'
      · rw [List.mem_singleton.mp hb']
        exact hb
    · change l.out ++ content (f.buffers ++ [b]) = content (b :: l.ds.pushed).reverse
      rw [List.reverse_cons, content_append, content_append, ← List.append_assoc, h.conserve]
    · have hpc := h.pc
      rw [hab] at hpc
      change l.pc.Ok l.ds.dlabort (f.buffers ++ [b])
      rw [hab]
      exact hpc.queue _

/-- The other threads write `track` and `dlstate`. -/
theorem Line.Inv.other {l : Line A} {f : Fifo} (h : l.Inv f) (track : List Track)
    (dlstate : DlState) :
    Line.Inv { l with ds := { l.ds with track := track, dlstate := dlstate } } f :=
  ⟨h.fifo, h.good, h.conserve, h.calls, h.pc⟩

/-! ## Consuming -/

theorem Call.tokens_of_ne {c : Call} (h : c.total ≠ 0) : c.tokens = (handed c.pieces).map some := by
  rw [Call.tokens, if_neg h, List.append_nil]

theorem Call.tokens_of_eq {c : Call} (h : c.total = 0) : c.tokens = [none] := by
  have hnil : handed c.pieces = [] := List.eq_nil_of_length_eq_zero h
  rw [Call.tokens, if_pos h, hnil]
  rfl

/-- The call after one more pass. -/
theorem Call.Ok.pass {c : Call} {totbytes : Int} {buffers : List Buffer} {p : Pass} (h : c.Ok)
    (hp : PassSpec c.req c.total totbytes buffers p) :
    ({ c with pieces := c.pieces ++ p.pieces } : Call).Ok ∧
      ({ c with pieces := c.pieces ++ p.pieces } : Call).total =
        c.total + (handed p.pieces).length := by
  have htotal : ({ c with pieces := c.pieces ++ p.pieces } : Call).total =
      c.total + (handed p.pieces).length := by
    simp [Call.total]
  refine ⟨⟨?_, ?_⟩, htotal⟩
  · refine h.contiguous.append ?_
    rw [Nat.zero_add]
    exact hp.contiguous
  · rw [htotal]
    exact hp.le

/-- A pass of the loop, of a call whose bytes so far have left the queue. -/
theorem Line.Inv.pass {l : Line A} {f : Fifo} {c : Call}
    (hgood : ∀ b ∈ f.buffers, b.Good) (hcalls : ∀ c ∈ l.calls, c.Ok)
    (hab : l.ds.dlabort = false) (hc : c.Ok) (hreq : c.total < c.req)
    (hconserve : l.calls.flatMap Call.tokens ++ ((handed c.pieces).map some ++
      content f.buffers) = content l.ds.pushed.reverse) :
    ∃ f', (l.pass f c).Inv f' ∧ f'.lastcmd = f.lastcmd := by
  have hp := consumeLoop_spec f.totbytes l.ds.notices hgood hreq
  unfold Line.pass
  dsimp only
  generalize consumeLoop c.req f.totbytes c.total l.ds.notices f.buffers = p at hp ⊢
  obtain ⟨hok, htotal⟩ := hc.pass hp
  have hall : ∀ c' ∈ l.calls ++ [{ c with pieces := c.pieces ++ p.pieces }], c'.Ok := by
    intro c' hc'
    rcases List.mem_append.mp hc' with hc' | hc'
    · exact hcalls c' hc'
    · rw [List.mem_singleton.mp hc']
      exact hok
  rw [hp.content] at hconserve
  have hout := hp.out
  cases hn : p.out with
  | returned n =>
    -- the call returns
    rw [hn] at hout
    have hends : p.out.ends = decide (c.total + (handed p.pieces).length = 0) := by
      rw [hn, hout]
      rfl
    refine ⟨{ f with buffers := p.buffers, totbytes := p.totbytes },
      ⟨rfl, hp.good, ?_, hall, hab⟩, rfl⟩
    rw [← hconserve, hends]
    simp only [Line.out, List.flatMap_append, List.flatMap_singleton, Call.tokens, htotal]
    by_cases hz : c.total + (handed p.pieces).length = 0 <;> simp [hz]
  | waiting n =>
    -- the queue is empty: the call waits
    rw [hn] at hout
    obtain ⟨rfl, hlt, hnil⟩ := hout
    have hends : p.out.ends = false := by
      rw [hn]
      rfl
    refine ⟨{ f with buffers := p.buffers, totbytes := p.totbytes },
      ⟨rfl, hp.good, ?_, hcalls, hab, hok, by rw [htotal]; exact hlt⟩, rfl⟩
    rw [← hconserve, hends]
    simp [Line.out]
  | lastEnd =>
    -- the last SND_CMD_END
    rw [hn] at hout
    obtain ⟨hz, hnil⟩ := hout
    have hends : p.out.ends = true := by
      rw [hn]
      rfl
    have htokens : ({ c with pieces := c.pieces ++ p.pieces } : Call).tokens = [none] :=
      Call.tokens_of_eq (htotal.trans hz)
    have hhanded : handed c.pieces = [] ∧ handed p.pieces = [] := by
      constructor
      · exact List.eq_nil_of_length_eq_zero (show c.total = 0 by omega)
      · exact List.eq_nil_of_length_eq_zero (by omega)
    rw [hends, hnil, hhanded.1, hhanded.2] at hconserve
    dsimp only
    split
    · rename_i hbusy
      refine ⟨{ f with buffers := p.buffers, totbytes := p.totbytes },
        ⟨sndStopEnter_fifo _, hp.good, ?_, hcalls, ?_⟩, rfl⟩
      · rw [sndStopEnter_pushed, ← hconserve, hnil]
        simp [Line.out, htokens]
      · rw [sndStopEnter_busy] at hbusy
        exact ⟨sndStopEnter_abort hbusy, hok, htotal.trans hz, hnil⟩
    · refine ⟨⟨[], 0, f.lastcmd⟩, ⟨?_, nofun, ?_, hall, rfl⟩, rfl⟩
      · simp [endOfPlaylist, sndStopLeave, sndStopEnter_fifo]
      · change _ = content (sndStopEnter _).pushed.reverse
        rw [sndStopEnter_pushed, ← hconserve]
        simp [Line.out, htokens]

/-! ## What was pushed -/

/-- `lastcmd` after an operation. -/
def nextCmd (last : SndCmd) : Op → SndCmd
  | .start _ _ => .start
  | .data _ _ => .data
  | .ended => .ended
  | .consume _ | .wake | .stopped | .other _ _ => last

/-- What an operation stores in the queue, `lastcmd` being `last`. -/
def storedOne (last : SndCmd) : Op → List (Option Cell)
  | .data mem length =>
    (if last = .start then dropFirstPage mem length else mem.take length).map some
  | .ended => [none]
  | .start _ _ | .consume _ | .wake | .stopped | .other _ _ => []

def stored : SndCmd → List Op → List (Option Cell)
  | _, [] => []
  | last, op :: ops => storedOne last op ++ stored (nextCmd last op) ops

/-! ## Runs -/

/-- A step keeps the invariant and stores what it is to store. -/
structure Line.Keeps (last : SndCmd) (pushed : List Buffer) (op : Op) (l' : Line A) (f' : Fifo) :
    Prop where
  inv : l'.Inv f'
  lastcmd : f'.lastcmd = nextCmd last op
  pushed : content l'.ds.pushed.reverse = content pushed.reverse ++ storedOne last op

theorem Line.Inv.keeps_push {l : Line A} {f : Fifo} {op : Op} (h : l.Inv f) {ds : Ds A}
    {b : Buffer} (hb : b.Good) (hq : Enqueued l.ds ds b) (hab : l.ds.dlabort = false)
    (hcmd : b.cmd = nextCmd f.lastcmd op) (hcontent : content [b] = storedOne f.lastcmd op) :
    ∃ f', Line.Keeps f.lastcmd l.ds.pushed op { l with ds := ds } f' := by
  refine ⟨_, h.push hb hq hab, hcmd, ?_⟩
  rcases hq with ⟨hab', -⟩ | ⟨-, f', -, rfl⟩
  · exact absurd (hab.symm.trans hab') nofun
  · rw [List.reverse_cons, content_append, hcontent]

theorem Line.Inv.keeps_same {l l' : Line A} {f f' : Fifo} {op : Op} (h : l'.Inv f')
    (hlast : f'.lastcmd = f.lastcmd) (hpushed : l'.ds.pushed = l.ds.pushed)
    (hcmd : nextCmd f.lastcmd op = f.lastcmd) (hstored : storedOne f.lastcmd op = []) :
    ∃ f', Line.Keeps f.lastcmd l.ds.pushed op l' f' := by
  refine ⟨f', h, hlast.trans hcmd.symm, ?_⟩
  rw [hpushed, hstored, List.append_nil]

theorem Line.pass_pushed (l : Line A) (f : Fifo) (c : Call) :
    (l.pass f c).ds.pushed = l.ds.pushed := by
  unfold Line.pass
  dsimp only
  split
  · rfl
  · rfl
  · split
    · exact sndStopEnter_pushed _
    · exact sndStopEnter_pushed _

/-- One step. -/
theorem Line.Inv.step {l l' : Line A} {f : Fifo} {op : Op} (h : l.Inv f)
    (hs : l.step op = some l') : ∃ f', Line.Keeps f.lastcmd l.ds.pushed op l' f' := by
  cases op with
  | start t next =>
    simp only [Line.step] at hs
    split at hs
    · cases hs
    · rename_i hab
      obtain ⟨ds, hds, rfl⟩ := Option.map_eq_some_iff.mp hs
      exact h.keeps_push (b := .start t next) trivial (enqueued_start hds) (by simpa using hab)
        rfl rfl
  | data mem length =>
    simp only [Line.step] at hs
    split at hs
    · cases hs
    · rename_i hno
      obtain ⟨hab, hpos, hmem⟩ : l.ds.dlabort = false ∧ 0 < length ∧
          mem.length = length + 1024 := by
        simp only [not_or, Bool.not_eq_true, ne_eq, not_not] at hno
        exact ⟨hno.1, Nat.pos_of_ne_zero hno.2.1, hno.2.2⟩
      obtain ⟨ds, hds, rfl⟩ := Option.map_eq_some_iff.mp hs
      unfold sndIoctlData at hds
      rw [if_neg (by simp [hab]), h.fifo] at hds
      refine h.keeps_push ?_ (enqueued_of_enqueue hab hds) hab rfl ?_
      · change 0 < List.length _
        split
        · exact length_dropFirstPage_pos hpos (by omega)
        · rw [List.length_take]
          omega
      · simp [content, storedOne]
  | ended =>
    simp only [Line.step] at hs
    split at hs
    · cases hs
    · rename_i hab
      obtain ⟨ds, hds, rfl⟩ := Option.map_eq_some_iff.mp hs
      obtain ⟨dlstate, hq⟩ := enqueued_end hds
      exact (h.other l.ds.track dlstate).keeps_push (b := .ended) trivial hq (by simpa using hab)
        rfl rfl
  | consume req =>
    simp only [Line.step] at hs
    split at hs
    · rename_i f' hpc hf'
      cases h.fifo.symm.trans hf'
      split at hs
      · rename_i hreq
        cases hs
        have hab := h.pc
        have hconserve := h.conserve
        rw [hpc] at hab
        simp only [Line.out, hpc, List.append_nil] at hconserve
        obtain ⟨f', hinv, hlast⟩ := Line.Inv.pass (c := ⟨req, []⟩) h.good h.calls hab
          ⟨trivial, Nat.zero_le _⟩ hreq hconserve
        exact hinv.keeps_same hlast (Line.pass_pushed l f _) rfl rfl
      · cases hs
    · cases hs
  | wake =>
    simp only [Line.step] at hs
    split at hs
    · rename_i c f' hpc hf'
      cases h.fifo.symm.trans hf'
      split at hs
      · cases hs
      · cases hs
        have hok := h.pc
        have hconserve := h.conserve
        rw [hpc] at hok
        simp only [Line.out, hpc, List.append_assoc] at hconserve
        obtain ⟨f', hinv, hlast⟩ := Line.Inv.pass h.good h.calls hok.1 hok.2.1 hok.2.2
          hconserve
        exact hinv.keeps_same hlast (Line.pass_pushed l f _) rfl rfl
    · cases hs
  | stopped =>
    simp only [Line.step] at hs
    split at hs
    · rename_i c hpc
      split at hs
      · cases hs
      · cases hs
        obtain ⟨-, hok, hz, hnil⟩ : CallPc.Ok l.ds.dlabort f.buffers (.stopping c) := hpc ▸ h.pc
        have hconserve := h.conserve
        simp only [Line.out, hpc, hnil] at hconserve
        have hinv : Line.Inv ⟨endOfPlaylist (sndStopLeave l.ds), .idle, l.calls ++ [c]⟩
            ⟨[], 0, f.lastcmd⟩ := by
          refine ⟨?_, fun b hb => ?_, ?_, ?_, rfl⟩
          · simp [endOfPlaylist, sndStopLeave, h.fifo]
          · cases hb
          · change _ = content l.ds.pushed.reverse
            simpa [Line.out] using hconserve
          · intro c' hc'
            rcases List.mem_append.mp hc' with hc' | hc'
            · exact h.calls c' hc'
            · rw [List.mem_singleton.mp hc']
              exact hok
        exact hinv.keeps_same rfl rfl rfl rfl
    · cases hs
  | other track dlstate =>
    cases hs
    exact (h.other track dlstate).keeps_same rfl rfl rfl rfl

/-- A run. -/
theorem Line.Inv.exec {l l' : Line A} {f : Fifo} {ops : List Op} (h : l.Inv f)
    (hrun : exec Line.step l ops = some l') :
    ∃ f', l'.Inv f' ∧ f'.lastcmd = ops.foldl nextCmd f.lastcmd ∧
      content l'.ds.pushed.reverse = content l.ds.pushed.reverse ++ stored f.lastcmd ops := by
  induction ops generalizing l f with
  | nil =>
    cases hrun
    exact ⟨f, h, rfl, (List.append_nil _).symm⟩
  | cons op ops ih =>
    obtain ⟨l1, h1, h2⟩ := exec_cons_eq_some.mp hrun
    obtain ⟨f1, hinv, hlast, hpushed⟩ := h.step h1
    obtain ⟨f', hinv', hlast', hpushed'⟩ := ih hinv h2
    refine ⟨f', hinv', ?_, ?_⟩
    · rw [hlast', hlast]
      rfl
    · rw [hpushed', hpushed, hlast, List.append_assoc]
      rfl

/-! ## Tracks -/

/-- The pushes of one track: its data buffers with their lengths. -/
structure TrackPush where
  track : Track
  next : List Track
  chunks : List (List Cell × Nat)

def TrackPush.ops (t : TrackPush) : List Op :=
  .start t.track t.next :: (t.chunks.map fun c => .data c.1 c.2) ++ [.ended]

/-- Its data as stored in the queue. -/
def TrackPush.stored (t : TrackPush) : List Cell :=
  match t.chunks with
  | [] => []
  | c :: rest => dropFirstPage c.1 c.2 ++ rest.flatMap fun c => c.1.take c.2

theorem stored_append (last : SndCmd) (xs ys : List Op) :
    stored last (xs ++ ys) = stored last xs ++ stored (xs.foldl nextCmd last) ys := by
  induction xs generalizing last with
  | nil => rfl
  | cons x xs ih => simp [stored, ih]

theorem stored_chunks (chunks : List (List Cell × Nat)) (last : SndCmd) (h : last ≠ .start) :
    stored last (chunks.map fun c => .data c.1 c.2) =
      (chunks.flatMap fun c => c.1.take c.2).map some := by
  induction chunks generalizing last with
  | nil => rfl
  | cons c chunks ih =>
    have htail : stored .data (chunks.map fun c => .data c.1 c.2) = _ := ih .data nofun
    simp [stored, storedOne, h, nextCmd, htail]

theorem TrackPush.stored_ops (t : TrackPush) (last : SndCmd) :
    Player.stored last t.ops = t.stored.map some ++ [none] := by
  obtain ⟨track, next, chunks⟩ := t
  cases chunks with
  | nil => rfl
  | cons c chunks =>
    have htail := stored_chunks chunks .data nofun
    simp [TrackPush.ops, TrackPush.stored, Player.stored, storedOne, nextCmd, stored_append,
      htail]

theorem stored_tracks (tracks : List TrackPush) (last : SndCmd) :
    stored last (tracks.flatMap TrackPush.ops) = blocks (tracks.map TrackPush.stored) := by
  induction tracks generalizing last with
  | nil => rfl
  | cons t tracks ih =>
    rw [List.flatMap_cons, stored_append, TrackPush.stored_ops, ih, List.map_cons, blocks_cons]
    simp

/-- The pushes of a run. -/
def pushes (ops : List Op) : List Op := ops.filter Op.isPush

theorem pushes_cons (op : Op) (ops : List Op) :
    pushes (op :: ops) = if op.isPush then op :: pushes ops else pushes ops := List.filter_cons

/-- Other operations store nothing. -/
theorem stored_of_not_push {op : Op} (h : op.isPush = false) (last : SndCmd) :
    storedOne last op = [] ∧ nextCmd last op = last := by
  cases op with
  | start | data | ended => cases h
  | consume | wake | stopped | other => exact ⟨rfl, rfl⟩

theorem stored_pushes (ops : List Op) (last : SndCmd) :
    stored last (pushes ops) = stored last ops := by
  induction ops generalizing last with
  | nil => rfl
  | cons op ops ih =>
    rw [pushes_cons]
    split
    · rw [stored, stored, ih]
    · rename_i h
      obtain ⟨h1, h2⟩ := stored_of_not_push (Bool.not_eq_true _ ▸ h) last
      rw [stored, h1, h2, ih, List.nil_append]

theorem foldl_pushes (ops : List Op) (last : SndCmd) :
    (pushes ops).foldl nextCmd last = ops.foldl nextCmd last := by
  induction ops generalizing last with
  | nil => rfl
  | cons op ops ih =>
    rw [pushes_cons]
    split
    · rw [List.foldl_cons, List.foldl_cons, ih]
    · rename_i h
      obtain ⟨-, h2⟩ := stored_of_not_push (Bool.not_eq_true _ ▸ h) last
      rw [List.foldl_cons, h2, ih]

/-! ## Between two calls that return 0 -/

/-- What the consumer got between consecutive calls returning 0, and what it
got since the last of these; `acc` is what came before. -/
def between : List Cell → List Call → List (List Cell) × List Cell
  | acc, [] => ([], acc)
  | acc, c :: calls =>
    if c.total = 0 then
      let (groups, rest) := between [] calls
      (acc :: groups, rest)
    else between (acc ++ handed c.pieces) calls

theorem blocks_between (acc : List Cell) (calls : List Call) :
    acc.map some ++ calls.flatMap Call.tokens =
      blocks (between acc calls).1 ++ (between acc calls).2.map some := by
  induction calls generalizing acc with
  | nil => simp [between]
  | cons c calls ih =>
    rw [List.flatMap_cons]
    by_cases h : c.total = 0
    · have htail := ih []
      simp only [List.map_nil, List.nil_append] at htail
      simp [between, h, Call.tokens_of_eq h, htail]
    · rw [Call.tokens_of_ne h, ← List.append_assoc, ← List.map_append, ih]
      simp [between, h]

/-- The calls made, and the one in progress, hand over the data of the tracks,
one track between two calls that return 0. -/
structure Conserves (tracks : List TrackPush) (l : Line A) : Prop where
  groups : (between [] l.calls).1 <+: tracks.map TrackPush.stored
  rest : (between [] l.calls).2 ++ l.pc.bytes <+:
    ((tracks.map TrackPush.stored)[(between [] l.calls).1.length]?).getD []
  calls : ∀ c ∈ l.calls, c.Ok
  current : ∀ c, l.pc = .waiting c ∨ l.pc = .stopping c → c.Ok

theorem Line.Inv.conserves {l : Line A} {f : Fifo} {tracks : List TrackPush} (h : l.Inv f)
    (hpushed : content l.ds.pushed.reverse <+: blocks (tracks.map TrackPush.stored)) :
    Conserves tracks l := by
  have hprefix : l.out <+: blocks (tracks.map TrackPush.stored) := by
    refine List.IsPrefix.trans ?_ hpushed
    rw [← h.conserve]
    exact List.prefix_append _ _
  have hcalls := blocks_between [] l.calls
  simp only [List.map_nil, List.nil_append] at hcalls
  have hout : blocks (between [] l.calls).1 ++
      ((between [] l.calls).2 ++ l.pc.bytes).map some <+: l.out := by
    unfold Line.out
    rw [hcalls, List.map_append, ← List.append_assoc]
    refine List.prefix_append_right_inj _ |>.mpr ?_
    cases l.pc with
    | idle => exact List.prefix_refl _
    | waiting c => exact List.prefix_refl _
    | stopping c => exact List.prefix_append _ _
  obtain ⟨hgroups, hrest⟩ := prefix_blocks (hout.trans hprefix)
  refine ⟨hgroups, hrest, h.calls, ?_⟩
  have hpc := h.pc
  rintro c (hc | hc)
  · rw [hc] at hpc
    exact hpc.2.1
  · rw [hc] at hpc
    exact hpc.2.1

theorem foldl_nextCmd_start (ops : List Op) (h : pushes ops ≠ []) :
    ops.foldl nextCmd .start = .start ↔ ∃ t next, (pushes ops).getLast? = some (.start t next) := by
  rw [← foldl_pushes]
  obtain ⟨init, op, heq⟩ : ∃ init op, pushes ops = init ++ [op] :=
    ⟨_, _, (List.dropLast_append_getLast h).symm⟩
  have hop : op.isPush = true := by
    have hmem : op ∈ pushes ops := by
      rw [heq]
      simp
    exact (List.mem_filter.mp hmem).2
  rw [heq, List.foldl_append, List.getLast?_append]
  cases op with
  | start t next => simp [nextCmd]
  | data mem length => simp [nextCmd]
  | ended => simp [nextCmd]
  | consume | wake | stopped | other => cases hop

end Despotify.Player

import Despotify.Player.Consume
import Despotify.Pool.Chain
import Despotify.Pool.Runs
import Mathlib.Algebra.Group.Nat.Defs
import Mathlib.Algebra.Group.Int.Defs

/-!
# The sound queue in memory

`struct ds_snd_fifo` with its nodes, `start` and `end`, as `lib/sndqueue.c`
links and frees them.  One step is one operation under the mutex, one pass of
the loop of `snd_consume_data` while its call holds the mutex.

* `Wf`: `end` is the last node reachable from `start`, data have bytes left,
  and `totbytes` is the sum of the lengths.
* `reachable_wf`: in every reachable state.
* `linkBuffer_eq`, `freeNodes_eq`, `skipNodes_eq`, `iter_eq`: the operations are
  those on the list of the queued buffers, `consumeLoop` among them.
-/

namespace Despotify.Player

open Linked Runs

/-! ## The operations -/

def INT_MAX : Int := 2 ^ 31 - 1

/-- `struct ds_snd_fifo` and the heap. -/
structure Mem where
  heap : Nat → Option (Node Buffer)
  start : Option Nat
  end_ : Option Nat
  totbytes : Int
  lastcmd : SndCmd

/-- After `snd_init`. -/
def Mem.init (heap : Nat → Option (Node Buffer)) : Mem := ⟨heap, none, none, 0, .start⟩

/-- The arguments of `snd_ioctl` that make an entry. -/
inductive Push
  | start (t : Track) (next : List Track)
  | data (mem : List Cell) (length : Nat)
  | ended
deriving DecidableEq, Repr

/-- The callers push no empty data, and allocate 1024 bytes more than they fill. -/
def Push.Valid : Push → Prop
  | .data mem length => 0 < length ∧ mem.length = length + 1024
  | .start _ _ | .ended => True

instance (p : Push) : Decidable p.Valid := by
  cases p <;> unfold Push.Valid <;> infer_instance

/-- The entry made of them, with the test for an Ogg page, which reads through
the `NULL` data of `SND_CMD_END`. -/
def entry (lastcmd : SndCmd) : Push → Option Buffer
  | .start t next => some (.start t next)
  | .data mem length =>
    some (.data (if lastcmd = .start then dropFirstPage mem length else mem.take length) 0)
  | .ended => if lastcmd = .start then none else some .ended

/-- Hook in entry `b`, at the address `a` that `malloc` returned. -/
def linkBuffer (m : Mem) (a : Nat) (b : Buffer) : Option Mem :=
  -- signed overflow
  if INT_MAX < m.totbytes + b.length then none
  else
    let heap := Function.update m.heap a (some ⟨b, none⟩)
    let m' := { m with
      start := if m.start = none then some a else m.start
      end_ := some a
      totbytes := m.totbytes + b.length
      lastcmd := b.cmd }
    match m.end_ with
    | none => some { m' with heap := heap }
    | some e =>
      match heap e with
      | none => none
      | some node =>
        some { m' with heap := Function.update heap e (some { node with next := some a }) }

/-- `snd_stop` under the mutex: free the fifo. -/
def freeNodes (m : Mem) (fuel : Nat) : Option Mem :=
  (freeFrom fuel m.heap m.start).map fun heap =>
    { m with heap := heap, start := none, end_ := none, totbytes := 0 }

/-- The loop of `snd_next`. -/
def skipFrom : Nat → (Nat → Option (Node Buffer)) → Int → Option Nat →
    Option ((Nat → Option (Node Buffer)) × Int × Option Nat)
  | _, heap, totbytes, none => some (heap, totbytes, none)
  | 0, _, _, some _ => none
  | fuel + 1, heap, totbytes, some b =>
    match heap b with
    | none => none
    | some node =>
      if isStart node.val then some (heap, totbytes, some b)
      else
        skipFrom fuel (Function.update heap b none) (totbytes - node.val.length) node.next

/-- `snd_next` under the mutex. -/
def skipNodes (m : Mem) (fuel : Nat) : Option Mem :=
  (skipFrom fuel m.heap m.totbytes m.start).map fun (heap, totbytes, b) =>
    { m with
      heap := heap, totbytes := totbytes, start := b
      end_ := if b = none then none else m.end_ }

/-- How a pass of the loop of `snd_consume_data` ends. -/
inductive Iter
  /-- the next pass, with this many bytes done -/
  | loop (total : Nat)
  | out (out : Consumed)
deriving DecidableEq, Repr

/-- Free the head `b`, which `node` was read from. -/
def popHead (m : Mem) (b : Nat) (node : Node Buffer) : Mem :=
  { m with
    heap := Function.update m.heap b none
    start := node.next
    end_ := if m.end_ = some b then none else m.end_ }

/-- One pass of the loop of `snd_consume_data`. -/
def iter (m : Mem) (req total : Nat) : Option (Mem × Iter) :=
  match m.start with
  | none => some (m, .out (.waiting total))
  | some b =>
    match m.heap b with
    | none => none
    | some node =>
      match node.val with
      | .start _ _ => some (popHead m b node, .loop total)
      | .data bytes consumed =>
        let remaining := bytes.length - consumed
        let length := if total + remaining < req then remaining else req - total
        let node' : Node Buffer := { node with val := .data bytes (consumed + length) }
        let m := { m with heap := Function.update m.heap b (some node') }
        let m :=
          if consumed + length = bytes.length then
            { popHead m b node' with totbytes := m.totbytes - bytes.length }
          else m
        if m.start = none ∨ total + length = req then
          some (m, .out (.returned (total + length)))
        else some (m, .loop (total + length))
      | .ended =>
        if total ≠ 0 then some (m, .out (.returned total))
        else
          let m := popHead m b node
          if m.start = none then some (m, .out .lastEnd) else some (m, .out (.returned 0))

/-! ## The threads -/

/-- Where a call of `snd_consume_data` is. -/
inductive ConsumePc
  | idle
  /-- holding the mutex -/
  | looping (req total : Nat)
  /-- in `pthread_cond_wait` -/
  | waiting (req total : Nat)
  /-- in `snd_stop` -/
  | stopping
deriving DecidableEq, Repr

structure MemSys where
  mem : Mem
  pc : ConsumePc

inductive MemOp
  /-- `snd_ioctl`, `dlabort` clear; `a` is what `malloc` returns -/
  | ioctl (a : Nat) (p : Push)
  /-- `snd_stop`, by another thread or by the call that waits for it -/
  | stop (fuel : Nat)
  | next (fuel : Nat)
  | consume (req : Nat)
  | iter
  | wake

def MemSys.step (s : MemSys) : MemOp → Option MemSys
  | .ioctl a p =>
    match s.pc with
    | .looping _ _ => none
    | _ =>
      if s.mem.heap a = none ∧ p.Valid then
        (entry s.mem.lastcmd p).bind fun b =>
          (linkBuffer s.mem a b).map fun m => { s with mem := m }
      else none
  | .stop fuel =>
    match s.pc with
    | .looping _ _ => none
    | .stopping => (freeNodes s.mem fuel).map fun m => ⟨m, .idle⟩
    | _ => (freeNodes s.mem fuel).map fun m => { s with mem := m }
  | .next fuel =>
    match s.pc with
    | .looping _ _ => none
    | _ => (skipNodes s.mem fuel).map fun m => { s with mem := m }
  | .consume req =>
    match s.pc with
    | .idle => some { s with pc := .looping req 0 }
    | _ => none
  | .iter =>
    match s.pc with
    | .looping req total =>
      (iter s.mem req total).map fun (m, i) =>
        match i with
        | .loop total => ⟨m, .looping req total⟩
        | .out (.returned _) => ⟨m, .idle⟩
        | .out (.waiting total) => ⟨m, .waiting req total⟩
        | .out .lastEnd => ⟨m, .stopping⟩
    | _ => none
  | .wake =>
    match s.pc with
    | .waiting req total =>
      -- woken without an entry: break
      if s.mem.start = none then some { s with pc := .idle }
      else some { s with pc := .looping req total }
    | _ => none

/-! ## The invariant -/

/-- `xs` are the nodes from `start` on: `end` is the last of them, none is
handed over to the end, and `totbytes` adds up their lengths. -/
structure Wf (m : Mem) (xs : List (Nat × Buffer)) : Prop where
  chain : Chain m.heap m.start xs
  nodup : (xs.map Prod.fst).Nodup
  end_ : m.end_ = (xs.map Prod.fst).getLast?
  good : ∀ x ∈ xs, x.2.Good
  totbytes : m.totbytes = sumLength (xs.map Prod.snd)

variable {m : Mem} {xs : List (Nat × Buffer)}

theorem Wf.init (heap : Nat → Option (Node Buffer)) : Wf (Mem.init heap) [] :=
  ⟨rfl, List.nodup_nil, rfl, nofun, rfl⟩

theorem Wf.start_iff_end (h : Wf m xs) : m.start = none ↔ m.end_ = none := by
  rw [h.chain.nil_iff, h.end_, List.getLast?_eq_none_iff, List.map_eq_nil_iff]

theorem Wf.totbytes_nonneg (h : Wf m xs) : 0 ≤ m.totbytes := by
  rw [h.totbytes]
  exact sumLength_nonneg _

theorem Wf.totbytes_of_empty (h : Wf m xs) (hstart : m.start = none) : m.totbytes = 0 := by
  rw [h.totbytes, h.chain.nil_iff.mp hstart]
  rfl

/-! ## The operations on lists -/

/-- An entry is hooked in. -/
theorem linkBuffer_eq (h : Wf m xs) {a : Nat} {b : Buffer} (ha : m.heap a = none) (hb : b.Good)
    (hmax : m.totbytes + b.length ≤ INT_MAX) :
    ∃ m', linkBuffer m a b = some m' ∧ m'.lastcmd = b.cmd ∧ Wf m' (xs ++ [(a, b)]) := by
  have hfresh : a ∉ xs.map Prod.fst := by
    intro hmem
    obtain ⟨x, hx, rfl⟩ := List.mem_map.mp hmem
    exact h.chain.alloc x hx ha
  have hnodup : ((xs ++ [(a, b)]).map Prod.fst).Nodup := by
    rw [List.map_append, List.nodup_append]
    refine ⟨h.nodup, List.pairwise_singleton _ a, ?_⟩
    rintro x hx y hy rfl
    rw [List.mem_singleton.mp hy] at hx
    exact hfresh hx
  have hgood : ∀ x ∈ xs ++ [(a, b)], x.2.Good := by
    intro x hx
    rcases List.mem_append.mp hx with hx | hx
    · exact h.good x hx
    · rw [List.mem_singleton.mp hx]
      exact hb
  have htot : m.totbytes + b.length = sumLength ((xs ++ [(a, b)]).map Prod.snd) := by
    simp [h.totbytes]
  have hlast : some a = ((xs ++ [(a, b)]).map Prod.fst).getLast? := by simp
  rw [linkBuffer, if_neg (by omega)]
  rcases List.eq_nil_or_concat xs with rfl | ⟨ys, ⟨e, w⟩, rfl⟩
  · have hend : m.end_ = none := h.end_
    have hstart : m.start = none := h.chain
    simp only [hend, hstart]
    exact ⟨_, rfl, rfl, ⟨rfl, none, Function.update_self _ _ _, rfl⟩, hnodup, hlast, hgood, htot⟩
  · have hend : m.end_ = some e := by rw [h.end_]; simp
    have hstart : m.start ≠ none := by
      rw [Ne, h.chain.nil_iff]
      simp
    rw [List.concat_eq_append] at *
    obtain ⟨he, hchain⟩ := h.chain.append h.nodup ha
    simp only [hend, if_neg hstart]
    rw [he]
    exact ⟨_, rfl, rfl, hchain, hnodup, hlast, hgood, htot⟩

/-- All entries are freed. -/
theorem freeNodes_eq (h : Wf m xs) {fuel : Nat} (hfuel : xs.length ≤ fuel) :
    ∃ m', freeNodes m fuel = some m' ∧ Wf m' [] := by
  obtain ⟨heap, hheap, -⟩ := freeFrom_eq h.chain h.nodup hfuel
  rw [freeNodes, hheap]
  exact ⟨_, rfl, rfl, List.nodup_nil, rfl, nofun, rfl⟩

theorem freeNodes_wf {m' : Mem} {fuel : Nat} (hm : freeNodes m fuel = some m') : Wf m' [] := by
  obtain ⟨heap, -, rfl⟩ := Option.map_eq_some_iff.mp hm
  exact ⟨rfl, List.nodup_nil, rfl, nofun, rfl⟩

/-- What `snd_next` frees. -/
def skipped (x : Nat × Buffer) : Bool := !isStart x.2

/-- The loop of `snd_next` ends, in front of the first `SND_CMD_START`. -/
theorem skipFrom_eq {heap : Nat → Option (Node Buffer)} {p : Option Nat}
    (hc : Chain heap p xs) (hnodup : (xs.map Prod.fst).Nodup) (totbytes : Int) (fuel : Nat) :
    (skipFrom fuel heap totbytes p = none ∧ fuel < xs.length) ∨
    ∃ heap' p', skipFrom fuel heap totbytes p =
        some (heap', totbytes - sumLength ((xs.takeWhile skipped).map Prod.snd), p') ∧
      Chain heap' p' (xs.dropWhile skipped) := by
  induction xs generalizing heap p totbytes fuel with
  | nil =>
    have hp : p = none := hc
    subst hp
    refine Or.inr ⟨heap, none, ?_, rfl⟩
    cases fuel <;> simp [skipFrom]
  | cons x xs ih =>
    obtain ⟨a, b⟩ := x
    obtain ⟨q, ha, hq⟩ := hc.pop hnodup
    have hp : p = some a := hc.1
    subst hp
    cases fuel with
    | zero => exact Or.inl ⟨rfl, Nat.succ_pos _⟩
    | succ fuel =>
      simp only [skipFrom, ha]
      by_cases hb : isStart b = true
      · have hstop : skipped (a, b) = false := by simp [skipped, hb]
        refine Or.inr ⟨heap, some a, ?_, ?_⟩
        · simp [hb, hstop]
        · rw [List.dropWhile_cons_of_neg (by simp [hstop])]
          exact hc
      · have hgo : skipped (a, b) = true := by simp [skipped, hb]
        rw [if_neg hb]
        rcases ih hq (List.nodup_cons.mp hnodup).2 (totbytes - b.length) fuel with
          ⟨hnone, hlt⟩ | ⟨heap', p', hsome, hchain⟩
        · exact Or.inl ⟨hnone, Nat.succ_lt_succ hlt⟩
        · refine Or.inr ⟨heap', p', ?_, ?_⟩
          · rw [hsome, List.takeWhile_cons_of_pos hgo, List.map_cons, sumLength_cons]
            congr 3
            exact Int.sub_sub _ _ _
          · rw [List.dropWhile_cons_of_pos hgo]
            exact hchain

/-- Entries are dropped up to the next `SND_CMD_START`. -/
theorem skipNodes_eq (h : Wf m xs) (fuel : Nat) :
    (skipNodes m fuel = none ∧ fuel < xs.length) ∨
    ∃ m', skipNodes m fuel = some m' ∧ Wf m' (xs.dropWhile skipped) := by
  have hsplit := List.takeWhile_append_dropWhile (p := skipped) (l := xs)
  rcases skipFrom_eq h.chain h.nodup m.totbytes fuel with ⟨hnone, hlt⟩ | ⟨heap, p, hsome, hchain⟩
  · exact Or.inl ⟨by rw [skipNodes, hnone]; rfl, hlt⟩
  · refine Or.inr ⟨_, by rw [skipNodes, hsome]; rfl, hchain, ?_, ?_, ?_, ?_⟩
    · exact h.nodup.sublist ((List.dropWhile_sublist _).map _)
    · change (if p = none then none else m.end_) = _
      split
      · rename_i hp
        rw [hchain.nil_iff.mp hp]
        rfl
      · rename_i hp
        rw [hchain.nil_iff] at hp
        rw [h.end_]
        conv_lhs => rw [← hsplit]
        rw [List.map_append, List.getLast?_append_of_ne_nil _ (by simpa using hp)]
    · exact fun x hx => h.good x ((List.dropWhile_sublist _).subset hx)
    · have hsum : sumLength (xs.map Prod.snd) = sumLength ((xs.takeWhile skipped).map Prod.snd) +
          sumLength ((xs.dropWhile skipped).map Prod.snd) := by
        rw [← sumLength_append, ← List.map_append, hsplit]
      change m.totbytes - _ = _
      rw [h.totbytes]
      omega

/-- The head is freed. -/
theorem Wf.popHead {a : Nat} {b : Buffer} (h : Wf m ((a, b) :: xs)) :
    ∃ q, m.start = some a ∧ m.heap a = some ⟨b, q⟩ ∧
      Wf { Player.popHead m a ⟨b, q⟩ with totbytes := m.totbytes - b.length } xs := by
  obtain ⟨q, ha, hq⟩ := h.chain.pop h.nodup
  obtain ⟨hnot, hnodup⟩ := List.nodup_cons.mp h.nodup
  refine ⟨q, h.chain.1, ha, hq, hnodup, ?_, (List.forall_mem_cons.mp h.good).2, ?_⟩
  · change (if m.end_ = some a then none else m.end_) = _
    rw [h.end_, List.map_cons, List.getLast?_cons]
    cases hlast : (xs.map Prod.fst).getLast? with
    | none => simp
    | some e =>
      have hne : e ≠ a := by
        rintro rfl
        exact hnot (List.mem_of_getLast? hlast)
      simp [hne]
  · change m.totbytes - _ = _
    rw [h.totbytes, List.map_cons, sumLength_cons]
    change (b.length : Int) + sumLength (xs.map Prod.snd) - b.length = _
    omega

/-- Bytes of the head are handed over, but not all. -/
theorem Wf.consumed {a : Nat} {bytes : List Cell} {consumed : Nat} {q : Option Nat}
    (h : Wf m ((a, .data bytes consumed) :: xs)) (ha : m.heap a = some ⟨.data bytes consumed, q⟩)
    {consumed' : Nat} (hlt : consumed' < bytes.length) :
    Wf { m with heap := Function.update m.heap a (some ⟨.data bytes consumed', q⟩) }
      ((a, .data bytes consumed') :: xs) :=
  ⟨h.chain.setHead h.nodup ha, h.nodup, h.end_,
    List.forall_mem_cons.mpr ⟨hlt, (List.forall_mem_cons.mp h.good).2⟩, h.totbytes⟩

/-- The head is freed, and it has no length. -/
theorem Wf.popMark {a : Nat} {b : Buffer} (h : Wf m ((a, b) :: xs)) (hb : b.length = 0) :
    ∃ q, m.start = some a ∧ m.heap a = some ⟨b, q⟩ ∧ Wf (Player.popHead m a ⟨b, q⟩) xs := by
  obtain ⟨q, hstart, ha, hwf⟩ := h.popHead
  refine ⟨q, hstart, ha, ?_⟩
  rw [hb, Int.natCast_zero, Int.sub_zero] at hwf
  exact hwf

/-- The pass `p` of the list loop begins as the first argument says; `xs` is
then queued in `m`. -/
def Iter.Begins (req : Nat) (m : Mem) (xs : List (Nat × Buffer)) (p : Pass) : Iter → Prop
  | .loop total => ∃ notices pieces,
      let rest := consumeLoop req m.totbytes total notices (xs.map Prod.snd)
      p = { rest with pieces := pieces ++ rest.pieces }
  | .out consumed => p.out = consumed ∧ p.buffers = xs.map Prod.snd ∧ p.totbytes = m.totbytes

/-- No more is handed over than was asked for. -/
def Iter.Ok (req : Nat) : Iter → Prop
  | .loop total | .out (.waiting total) => total ≤ req
  | .out (.returned _) | .out .lastEnd => True

/-- One pass of the loop is the list loop's. -/
theorem iter_eq (h : Wf m xs) {req total : Nat} (hreq : total ≤ req) (notices : List Notice) :
    ∃ m' i xs', iter m req total = some (m', i) ∧ i.Ok req ∧ Wf m' xs' ∧
      i.Begins req m' xs' (consumeLoop req m.totbytes total notices (xs.map Prod.snd)) := by
  obtain ⟨heap, start, end_, totbytes, lastcmd⟩ := m
  cases xs with
  | nil =>
    obtain rfl : start = none := h.chain
    exact ⟨_, .out (.waiting total), [], rfl, hreq, h, rfl, rfl, rfl⟩
  | cons x xs =>
    obtain ⟨a, b⟩ := x
    obtain rfl : start = some a := h.chain.1
    cases b with
    | start t next =>
      obtain ⟨q, -, ha, hwf⟩ := h.popMark rfl
      dsimp only at ha
      simp only [iter, ha]
      exact ⟨_, .loop total, xs, rfl, hreq, hwf, .newTrack t next :: notices, [], rfl⟩
    | data bytes consumed =>
      have hgood : consumed < bytes.length := (List.forall_mem_cons.mp h.good).1
      obtain ⟨q, -, ha, hwf⟩ := h.popHead
      dsimp only at ha
      simp only [iter, ha, List.map_cons, consumeLoop]
      generalize hlength : (if total + (bytes.length - consumed) < req then bytes.length - consumed
        else req - total) = length
      have hle : length ≤ bytes.length - consumed ∧ total + length ≤ req ∧
          (consumed + length = bytes.length ∨ total + length = req) := by
        rw [← hlength]
        split <;> omega
      by_cases hall : consumed + length = bytes.length
      · rw [if_pos hall, if_pos hall]
        have hempty : q = none ↔ (xs.map Prod.snd).isEmpty = true := by
          rw [List.isEmpty_iff, List.map_eq_nil_iff]
          exact hwf.chain.nil_iff
        simp only [popHead, Function.update_idem] at hwf ⊢
        by_cases hexit : q = none ∨ total + length = req
        · rw [if_pos hexit, if_pos (hexit.imp_left hempty.mp)]
          exact ⟨_, _, xs, rfl, trivial, hwf, rfl, rfl, rfl⟩
        · have hexit' : ¬ ((xs.map Prod.snd).isEmpty = true ∨ total + length = req) :=
            fun hx => hexit (hx.imp_left hempty.mpr)
          rw [if_neg hexit, if_neg hexit']
          exact ⟨_, .loop (total + length), xs, rfl, hle.2.1, hwf, notices, [_], rfl⟩
      · have hreq' : total + length = req := by omega
        have hlt : consumed + length < bytes.length := by omega
        simp only [if_neg hall, hreq', or_true, if_true]
        exact ⟨_, _, _, rfl, trivial, h.consumed ha hlt, rfl, rfl, rfl⟩
    | ended =>
      obtain ⟨q, -, ha, hwf⟩ := h.popMark rfl
      dsimp only at ha
      simp only [iter, ha, List.map_cons, consumeLoop]
      by_cases htotal : total = 0
      · have hempty : q = none ↔ (xs.map Prod.snd).isEmpty = true := by
          rw [List.isEmpty_iff, List.map_eq_nil_iff]
          exact hwf.chain.nil_iff
        rw [if_neg (not_not.mpr htotal), if_neg (not_not.mpr htotal)]
        by_cases hq : q = none
        · rw [if_pos (hempty.mp hq)]
          simp only [popHead] at hwf ⊢
          rw [if_pos hq]
          exact ⟨_, _, xs, rfl, trivial, hwf, rfl, rfl, rfl⟩
        · rw [if_neg (fun hx => hq (hempty.mpr hx))]
          simp only [popHead] at hwf ⊢
          rw [if_neg hq]
          exact ⟨_, _, xs, rfl, trivial, hwf, rfl, rfl, rfl⟩
      · rw [if_pos htotal, if_pos htotal]
        exact ⟨_, _, _, rfl, trivial, h, rfl, rfl, rfl⟩

/-! ## Every reachable state -/

theorem entry_good {lastcmd : SndCmd} {p : Push} {b : Buffer} (hp : p.Valid)
    (h : entry lastcmd p = some b) : b.Good := by
  cases p with
  | start t next =>
    cases h
    trivial
  | data mem length =>
    cases h
    obtain ⟨hpos, hmem⟩ := hp
    change 0 < List.length _
    split
    · exact length_dropFirstPage_pos hpos (by omega)
    · rw [List.length_take]
      omega
  | ended =>
    simp only [entry] at h
    split at h
    · cases h
    · cases h
      trivial

/-- As `Iter.Ok`. -/
def ConsumePc.Ok : ConsumePc → Prop
  | .looping req total | .waiting req total => total ≤ req
  | .idle | .stopping => True

def MemSys.Inv (s : MemSys) : Prop := (∃ xs, Wf s.mem xs) ∧ s.pc.Ok

theorem MemSys.Inv.ioctl {s s' : MemSys} {a : Nat} {p : Push} (h : s.Inv)
    (hs : s.step (.ioctl a p) = some s') : s'.Inv := by
  obtain ⟨⟨xs, hwf⟩, hpc⟩ := h
  have hstep : (if s.mem.heap a = none ∧ p.Valid then
      (entry s.mem.lastcmd p).bind fun b =>
        (linkBuffer s.mem a b).map fun m => { s with mem := m }
      else none) = some s' := by
    simp only [step] at hs
    split at hs
    · cases hs
    · exact hs
  split at hstep
  · rename_i hpush
    obtain ⟨b, hb, hlink⟩ := Option.bind_eq_some_iff.mp hstep
    obtain ⟨m, hm, rfl⟩ := Option.map_eq_some_iff.mp hlink
    have hmax : s.mem.totbytes + b.length ≤ INT_MAX := by
      by_contra hover
      rw [linkBuffer, if_pos (by omega)] at hm
      cases hm
    obtain ⟨m', hm', -, hwf'⟩ := linkBuffer_eq hwf hpush.1 (entry_good hpush.2 hb) hmax
    cases hm.symm.trans hm'
    exact ⟨⟨_, hwf'⟩, hpc⟩
  · cases hstep

theorem MemSys.Inv.step {s s' : MemSys} {op : MemOp} (h : s.Inv) (hs : s.step op = some s') :
    s'.Inv := by
  cases op with
  | ioctl a p => exact h.ioctl hs
  | stop fuel =>
    simp only [MemSys.step] at hs
    split at hs
    · cases hs
    all_goals
      obtain ⟨m, hm, rfl⟩ := Option.map_eq_some_iff.mp hs
    · exact ⟨⟨[], freeNodes_wf hm⟩, trivial⟩
    · exact ⟨⟨[], freeNodes_wf hm⟩, h.2⟩
  | next fuel =>
    obtain ⟨⟨xs, hwf⟩, hpc⟩ := h
    simp only [MemSys.step] at hs
    split at hs
    · cases hs
    · obtain ⟨m, hm, rfl⟩ := Option.map_eq_some_iff.mp hs
      rcases skipNodes_eq hwf fuel with ⟨hnone, -⟩ | ⟨m', hm', hwf'⟩
      · cases hm.symm.trans hnone
      · cases hm.symm.trans hm'
        exact ⟨⟨_, hwf'⟩, hpc⟩
  | consume req =>
    simp only [MemSys.step] at hs
    split at hs
    · cases hs
      exact ⟨h.1, Nat.zero_le _⟩
    · cases hs
  | iter =>
    obtain ⟨⟨xs, hwf⟩, hpc⟩ := h
    simp only [MemSys.step] at hs
    split at hs
    · rename_i req total hlooping
      rw [hlooping] at hpc
      obtain ⟨m, i, xs', hiter, hok, hwf', -⟩ := iter_eq hwf hpc []
      rw [hiter] at hs
      cases i with
      | loop total' =>
        cases hs
        exact ⟨⟨xs', hwf'⟩, hok⟩
      | out consumed =>
        cases consumed with
        | returned n =>
          cases hs
          exact ⟨⟨xs', hwf'⟩, trivial⟩
        | waiting n =>
          cases hs
          exact ⟨⟨xs', hwf'⟩, hok⟩
        | lastEnd =>
          cases hs
          exact ⟨⟨xs', hwf'⟩, trivial⟩
    · cases hs
  | wake =>
    obtain ⟨hwf, hpc⟩ := h
    simp only [MemSys.step] at hs
    split at hs
    · rename_i req total hwaiting
      rw [hwaiting] at hpc
      split at hs
      · cases hs
        exact ⟨hwf, trivial⟩
      · cases hs
        exact ⟨hwf, hpc⟩
    · cases hs

/-- A session after `snd_init`. -/
def MemSys.init (heap : Nat → Option (Node Buffer)) : MemSys := ⟨Mem.init heap, .idle⟩

theorem MemSys.inv_of_reachable {heap : Nat → Option (Node Buffer)} {s : MemSys}
    (h : Reachable MemSys.step (MemSys.init heap) s) : s.Inv := by
  have hinit : (MemSys.init heap).Inv := ⟨⟨[], Wf.init heap⟩, trivial⟩
  exact h.inv (fun _ _ _ hinv hs => hinv.step hs) hinit

/-- **The links of the sound queue are right in every reachable state**, whether
the mutex is held or not. -/
theorem reachable_wf (heap : Nat → Option (Node Buffer)) (s : MemSys)
    (h : Reachable MemSys.step (MemSys.init heap) s) :
    (∃ xs, Wf s.mem xs) ∧ (s.mem.start = none ↔ s.mem.end_ = none) ∧
      0 ≤ s.mem.totbytes ∧ (s.mem.start = none → s.mem.totbytes = 0) := by
  obtain ⟨⟨xs, hwf⟩, -⟩ := MemSys.inv_of_reachable h
  exact ⟨⟨xs, hwf⟩, hwf.start_iff_end, hwf.totbytes_nonneg, hwf.totbytes_of_empty⟩

set_option maxRecDepth 8000 in
/-- The queue holds a track and three of its four bytes. -/
theorem reachable_wf_partial : ∃ s, Reachable MemSys.step (MemSys.init fun _ => none) s ∧
    ((∃ xs, Wf s.mem xs) ∧ (s.mem.start = none ↔ s.mem.end_ = none) ∧
      0 ≤ s.mem.totbytes ∧ (s.mem.start = none → s.mem.totbytes = 0)) ∧
    s.mem.totbytes = 4 ∧ s.mem.start = some 2 := by
  have hrun : Reachable MemSys.step (MemSys.init fun _ => none) _ :=
    ⟨[.ioctl 1 (.start ⟨1, true⟩ []), .ioctl 2 (.data (List.replicate 1028 ⟨none, 0⟩) 4),
      .consume 1, .iter, .iter], rfl⟩
  exact ⟨_, hrun, reachable_wf _ _ hrun, rfl, rfl⟩

end Despotify.Player

import Despotify.Pool.Runs
import Despotify.Pool.Spine

/-!
# The event loop of the ncurses client

`clients/despotify/event.c` on a heap of events.  The event that the environment picks
says what the program does, outside `event_loop` and inside a callback, and how the loop
goes on: time, ready descriptors, and what a callback returns.

* `eventRegisterAction`, `eventUnregisterAction`, `reap`: the code that links and unlinks.
* `step`: one operation, or one stretch of `event_loop` up to the next callback.
-/

namespace Despotify.Ui.EventLoop

open Linked

/-! ## Events -/

/-- `enum ev_flags`, less the bits that nothing reads. -/
structure Flags where
  runFail : Bool
  msgFail : Bool
  fd : Bool
  fdFail : Bool
  idle : Bool
  done : Bool
  delay : Bool
  deriving DecidableEq, Repr

def Flags.zero : Flags := ⟨false, false, false, false, false, false, false⟩

/-- `EVENT`; the callback is the environment's. -/
structure Event where
  /-- `-1` is `none` -/
  fd : Option Nat
  delayUntil : Int
  msgClassFilter : Nat
  flags : Flags
  stack : Option Nat
  deriving DecidableEq, Repr

def Event.setFlags (v : Event) (f : Flags → Flags) : Event := { v with flags := f v.flags }

/-- `(e->flags & EV_DELAY) && e->delay_until > now` -/
def Event.delayed (v : Event) (now : Int) : Bool :=
  v.flags.delay && decide (now < v.delayUntil)

def Event.undelay (v : Event) : Event := v.setFlags fun f => { f with delay := false }

/-- `EV_RUN_FAIL | EV_FD_FAIL` -/
def Event.failed (v : Event) : Bool := v.flags.runFail || v.flags.fdFail

/-- The functions that write one event. -/
inductive Setting
  | registerFd (fd : Nat)
  | unregisterFd
  | msgSubscriptionClassSet (cls : Nat)
  | markDone
  | markIdle
  | markBusy
  | delay (until' : Int)
  deriving DecidableEq, Repr

def eventRegisterFd (fd : Nat) (v : Event) : Event :=
  let v := if v.flags.fdFail then v.setFlags fun f => { f with fd := false, fdFail := false } else v
  if v.flags.fd then v else { v.setFlags fun f => { f with fd := true } with fd := some fd }

/-- The descriptor becomes `0`, not `-1`. -/
def eventUnregisterFd (v : Event) : Event :=
  { v.setFlags fun f => { f with fd := false } with fd := some 0 }

def eventMarkDone (v : Event) : Event := v.setFlags fun f => { f with done := true }

def eventMarkIdle (v : Event) : Event := v.setFlags fun f => { f with idle := true }

def eventMarkBusy (v : Event) : Event := v.setFlags fun f => { f with idle := false }

def eventDelay (until' : Int) (v : Event) : Event :=
  { v.setFlags fun f => { f with delay := true } with delayUntil := until' }

def Setting.apply : Setting → Event → Event
  | registerFd fd => eventRegisterFd fd
  | unregisterFd => eventUnregisterFd
  | msgSubscriptionClassSet cls => fun v => { v with msgClassFilter := cls }
  | markDone => eventMarkDone
  | markIdle => eventMarkIdle
  | markBusy => eventMarkBusy
  | delay until' => eventDelay until'

/-! ## Linking and unlinking -/

structure Store where
  mem : Mem Event
  evhead : Option Nat

/-- What `EVENT **head` points to. -/
inductive Slot
  | evhead
  | stack (e : Nat)
  deriving DecidableEq, Repr

/-- `*head`; `none` when freed memory is read. -/
def Store.load (s : Store) : Slot → Option (Option Nat)
  | .evhead => some s.evhead
  | .stack e => (s.mem.heap e).map fun n => n.val.stack

/-- `*head = q` -/
def Store.store (s : Store) (q : Option Nat) : Slot → Store
  | .evhead => { s with evhead := q }
  | .stack e => { s with mem := s.mem.modify e fun v => { v with stack := q } }

def Store.free (s : Store) (e : Nat) : Store := { s with mem := s.mem.free e }

/-- A new event; `malloc` does not set `delay_until`. -/
def newEvent (flags : Flags) (delayUntil : Int) : Event := ⟨none, delayUntil, 0, flags, none⟩

/-- `event_register_action`: behind the last event of the list that `head` is in. -/
def eventRegisterAction (s : Store) (head : Option Nat) (flags : Flags) (delayUntil : Int) :
    Option Store :=
  match head.or s.evhead with
  | none => some ⟨s.mem.alloc (newEvent flags delayUntil), some s.mem.brk⟩
  | some e =>
    match lastNode s.mem.brk s.mem.heap (some e) with
    | some (some e) =>
      some { s with mem := (s.mem.alloc (newEvent flags delayUntil)).link e (some s.mem.brk) }
    | _ => none

/-- `for (e = *head; e->next; e = e->next) if (e->next == bad)`: the event before `bad`. -/
def findBefore (bad : Nat) : Nat → Heap Event → Option Nat → Option (Option Nat)
  | 0, _, _ => none
  -- `e->next` of `NULL`
  | _ + 1, _, none => none
  | fuel + 1, h, some e =>
    match h e with
    | none => none
    | some n =>
      if n.next = none then some none
      else if n.next = some bad then some (some e)
      else findBefore bad fuel h n.next

/-- `e->next = bad->next` -/
def Store.linkPast (s : Store) (e bad : Nat) : Option Store :=
  (s.mem.heap bad).map fun n => { s with mem := s.mem.link e n.next }

/-- `*head = bad->next; free (bad)` -/
def Store.dropTo (s : Store) (head : Slot) (bad : Nat) : Option Store :=
  (s.mem.heap bad).map fun n => (s.store n.next head).free bad

mutual

/-- `event_unregister_action`; `*head` is written also when `bad` was not the first. -/
def eventUnregisterAction : Nat → Store → Slot → Nat → Option Store
  | 0, _, _, _ => none
  | fuel + 1, s, head, bad =>
    match (s.load head).bind (findBefore bad s.mem.brk s.mem.heap) with
    | none => none
    | some none => s.dropTo head bad
    | some (some e) =>
      (unregisterStack fuel s bad).bind fun s =>
      (s.linkPast e bad).bind fun s => s.dropTo head bad

/-- `while (bad->stack) event_unregister_action (&bad->stack, bad->stack)` -/
def unregisterStack : Nat → Store → Nat → Option Store
  | 0, _, _ => none
  | fuel + 1, s, bad =>
    match s.mem.heap bad with
    | none => none
    | some n =>
      match n.val.stack with
      | none => some s
      | some x =>
        (eventUnregisterAction fuel s (.stack bad) x).bind fun s => unregisterStack fuel s bad

end

/-- `prev->next = q`, or `evhead = q` where there is none. -/
def Store.setNext (s : Store) (prev : Option Nat) (q : Option Nat) : Store :=
  match prev with
  | some p => { s with mem := s.mem.link p q }
  | none => { s with evhead := q }

/-- The first stacked event takes the place of the one that is done. -/
def replaceDone (s : Store) (prev : Option Nat) (e : Nat) (n : Node Event) : Option Store :=
  match n.val.stack with
  | none => some ((s.setNext prev n.next).free e)
  | some x =>
    (s.mem.heap x).map fun nx =>
      let s := s.setNext prev (some x)
      let m := s.mem.modify e fun v => { v with stack := nx.next }
      Store.free { s with mem := m.link x n.next } e

/-- An event that failed goes, with all that is stacked under it. -/
def removeFailed (s : Store) (prev : Option Nat) (e : Nat) (n : Node Event) : Option Store :=
  (unregisterStack (s.mem.brk + 2) s e).map fun s => (s.setNext prev n.next).free e

/-- `for (prev = NULL, e = evhead; e; e = e->next)` of `event_loop`, from `e` on.  Where the
first event has been removed, the one behind it is stepped over. -/
def reap : Nat → Store → Option Nat → Option Nat → Option Store
  | _, s, _, none => some s
  | 0, _, _, some _ => none
  | fuel + 1, s, prev, some e =>
    match s.mem.heap e with
    | none => none
    | some n =>
      if n.val.flags.done || n.val.failed then
        (if n.val.flags.done then replaceDone s prev e n else removeFailed s prev e n).bind fun s =>
        match prev.or s.evhead with
        | none => some s
        | some p => (s.mem.heap p).bind fun np => reap fuel s (some p) np.next
      else reap fuel s (some e) n.next

/-- `event_fd_add_to_set`, as far as it writes: delays that are over are cleared.  The time
it compares with has never been set. -/
def eventFdAddToSet (tv : Int) : Nat → Mem Event → Option Nat → Option (Mem Event)
  | _, m, none => some m
  | 0, _, some _ => none
  | fuel + 1, m, some e =>
    match m.heap e with
    | none => none
    | some n =>
      if n.val.delayed tv then eventFdAddToSet tv fuel m n.next
      else
        (eventFdAddToSet tv fuel (m.modify e Event.undelay) n.val.stack).bind fun m =>
          eventFdAddToSet tv fuel m n.next

/-! ## The loop -/

/-- The three walks of `event_loop` that call callbacks. -/
inductive Pass
  /-- `event_callbacks_run` -/
  | run (now : Int)
  /-- `event_fd_callbacks_run` -/
  | fd (ready : List Nat)
  /-- `event_msg_deliver` of `msgs[i]` -/
  | msg (i cls : Nat)
  deriving DecidableEq, Repr

/-- Whether the callback of the event is called. -/
def Pass.calls : Pass → Event → Bool
  | run now, v => !v.delayed now && !v.flags.idle
  | fd ready, v => v.fd.any fun d => ready.contains d
  | msg _ cls, v => v.msgClassFilter &&& cls != 0

/-- What the walk writes before that. -/
def Pass.touch : Pass → Event → Event
  | run now, v => if v.delayed now then v else v.undelay
  | fd ready, v => if (fd ready).calls v then eventMarkBusy v else v
  | msg _ _, v => v

/-- What it writes when the callback does not return 0. -/
def Pass.fail : Pass → Event → Event
  | run _, v => v.setFlags fun f => { f with runFail := true }
  | fd _, v => v.setFlags fun f => { f with fdFail := true }
  | msg _ _, v => v.setFlags fun f => { f with msgFail := true }

inductive Phase
  /-- outside `event_loop`, or between two iterations -/
  | idle
  /-- before the event `e` of the walk; `frames` are the events whose stacks it is in -/
  | walk (p : Pass) (e : Option Nat) (frames : List Nat)
  /-- in the callback of `e` -/
  | inside (p : Pass) (e : Nat) (frames : List Nat)
  /-- before `select` -/
  | select
  /-- freed memory has been read -/
  | crashed
  deriving DecidableEq, Repr

structure State extends Store where
  msgs : List Nat
  phase : Phase
  /-- what has been registered under a head, with the head -/
  stacked : List (Nat × Nat)
  /-- what has been marked done -/
  finished : List Nat

def State.init : State := ⟨⟨Mem.empty, none⟩, [], .idle, [], []⟩

inductive Op
  | register (head : Option Nat) (flags : Flags) (delayUntil : Int)
  | unregister (head : Option Nat) (bad : Nat)
  | set (e : Nat) (x : Setting)
  /-- `event_msg_post` -/
  | post (cls : Nat)
  /-- an iteration of `event_loop` begins -/
  | begin (now : Int)
  /-- a callback returns -/
  | ret (fail : Bool)
  /-- the walk goes on -/
  | next
  /-- `select` fails, or says what is ready -/
  | select (tv : Int) (ready : Option (List Nat))
  deriving DecidableEq, Repr

/-- The program runs: outside the loop, or in a callback. -/
def Phase.program : Phase → Bool
  | idle => true
  | inside _ _ _ => true
  | _ => false

def State.live (s : State) (e : Nat) : Bool := (s.mem.heap e).isSome

def State.crash (s : State) : State := { s with phase := .crashed }

/-- The pointer code has run, or has read freed memory. -/
def State.put (s : State) (o : Option Store) : State :=
  match o with
  | none => s.crash
  | some st => { s with toStore := st }

/-- After the last message: `reap`, and the iteration is over. -/
def State.cleanup (s : State) : State :=
  ({ s with msgs := [], phase := .idle }).put (reap s.mem.brk s.toStore none s.evhead)

/-- The message `i` is delivered, or there is none. -/
def State.deliver (s : State) (i : Nat) : State :=
  match s.msgs[i]? with
  | some cls => { s with phase := .walk (.msg i cls) s.evhead [] }
  | none => s.cleanup

/-- The walk leaves the event `e`: only `event_fd_callbacks_run` goes into the stack. -/
def State.leave (s : State) (p : Pass) (e : Nat) (frames : List Nat) : State :=
  match s.mem.heap e with
  | none => s.crash
  | some n =>
    match p, n.val.stack with
    | .fd _, some x => { s with phase := .walk p (some x) (e :: frames) }
    | _, _ => { s with phase := .walk p n.next frames }

def State.advance (s : State) (p : Pass) : Option Nat → List Nat → State
  | some e, frames =>
    match s.mem.heap e with
    | none => s.crash
    | some n =>
      let s := { s with mem := s.mem.modify e p.touch }
      if p.calls n.val then { s with phase := .inside p e frames } else s.leave p e frames
  | none, e :: frames =>
    match s.mem.heap e with
    | none => s.crash
    | some n => { s with phase := .walk p n.next frames }
  | none, [] =>
    match p with
    | .run _ => { s with phase := .select }
    | .fd _ => s.deliver 0
    | .msg i _ => s.deliver (i + 1)

/-- From `event_fd_add_to_set` to the callbacks of what is ready. -/
def State.select (s : State) (tv : Int) (ready : Option (List Nat)) : State :=
  match eventFdAddToSet tv s.mem.brk s.mem s.evhead with
  | none => s.crash
  | some m =>
    let s := { s with mem := m }
    match s.evhead.bind s.mem.heap with
    | none => s.crash
    | some n =>
      if n.val.flags.fd then
        match ready with
        -- `EINTR` goes to the next iteration, any other error ends the loop
        | none => { s with phase := .idle }
        | some [] => s.deliver 0
        | some ready => { s with phase := .walk (.fd ready) s.evhead [] }
      else s.deliver 0

def State.register (s : State) (head : Option Nat) (flags : Flags) (delayUntil : Int) : State :=
  { s with
    stacked := (head.toList.map fun h => (s.mem.brk, h)) ++ s.stacked
    finished := if flags.done then s.mem.brk :: s.finished else s.finished }.put
    (eventRegisterAction s.toStore head flags delayUntil)

def State.unregister (s : State) (head : Option Nat) (bad : Nat) : State :=
  s.put (eventUnregisterAction (s.mem.brk + 2) s.toStore ((head.map Slot.stack).getD .evhead) bad)

def State.set (s : State) (e : Nat) (x : Setting) : State :=
  { s with
    mem := s.mem.modify e x.apply
    finished := if x = .markDone then e :: s.finished else s.finished }

/-- The program passes events that are registered. -/
def step (s : State) : Op → Option State
  | .register head flags delayUntil =>
    if s.phase.program ∧ ∀ h ∈ head, s.live h then some (s.register head flags delayUntil) else none
  | .unregister head bad =>
    if s.phase.program ∧ s.live bad ∧ ∀ h ∈ head, s.live h then some (s.unregister head bad)
    else none
  | .set e x => if s.phase.program ∧ s.live e then some (s.set e x) else none
  | .post cls => if s.phase.program then some { s with msgs := s.msgs ++ [cls] } else none
  | .begin now =>
    if s.phase = .idle ∧ s.evhead ≠ none then
      some { s with phase := .walk (.run now) s.evhead [] }
    else none
  | .ret fail =>
    match s.phase with
    | .inside p e frames =>
      some (State.leave { s with mem := if fail then s.mem.modify e p.fail else s.mem } p e frames)
    | _ => none
  | .next =>
    match s.phase with
    | .walk p e frames => some (s.advance p e frames)
    | _ => none
  | .select tv ready => if s.phase = .select then some (s.select tv ready) else none

end Despotify.Ui.EventLoop

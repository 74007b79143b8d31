import Despotify.Pool.Keyed
import Despotify.Wire.Bytes

/-!
# The channel table of `lib/channel.c`

The list of live channels, the allocator of channel ids and the packet
dispatcher `channel_process`.  A channel is a heap node; its address `ptr` is
never handed out twice (`brk` counts the calls of `malloc` that succeeded), so
a `CHANNEL *` kept by a caller means the same node for as long as it lives.

Callbacks belong to the client: a `Callback` sees the channel and the data,
changes the client's own state and may call `channel_register` any number of
times.  `calls` records every callback entered.

`channel_process` walks the payload with unchecked reads and two assertions;
a run that violates one of them ends with the violations it commits as
`Fault`s.
-/

namespace Despotify.Channels

/-! ## Channels -/

/-- `enum channel_state`. -/
inductive ChannelState
  | header
  | data
  /-- the last packet, before the channel is about to be deallocated -/
  | ended
  /-- the server signalled an error -/
  | error
deriving DecidableEq, Repr

/-- `ch->state & (CHANNEL_END | CHANNEL_ERROR)`. -/
def ChannelState.final : ChannelState → Bool
  | .ended | .error => true
  | .header | .data => false

/-- `struct _channel` at the address `ptr`; `callback` stands for the callback
and its `private` pointer. -/
structure Channel (κ : Type) where
  ptr : Nat
  channelId : Nat
  headerId : UInt32
  state : ChannelState
  totalHeaderLen : UInt32
  totalDataLen : UInt32
  name : List UInt8
  callback : κ
deriving DecidableEq, Repr

variable {σ κ : Type}

/-- `head` and `next_channel_id`, with the address `malloc` returns next. -/
structure Table (κ : Type) where
  head : List (Channel κ)
  nextChannelId : Nat
  brk : Nat
deriving Repr

def Table.empty : Table κ := ⟨[], 0, 0⟩

/-- The channel a `CHANNEL *` points to. -/
def Table.get (t : Table κ) (p : Nat) : Option (Channel κ) := Keyed.find Channel.ptr p t.head

/-- Assignments through a `CHANNEL *`. -/
def Table.modify (t : Table κ) (p : Nat) (f : Channel κ → Channel κ) : Table κ :=
  { t with head := Keyed.update Channel.ptr p f t.head }

/-- The arguments of `channel_register`, and whether its `malloc` succeeds. -/
structure RegArgs (κ : Type) where
  name : Option (List UInt8)
  callback : κ
  mem : Bool
deriving Repr

/-- The scan of `channel_register`: one pass over the list with a moving bound. -/
def scanNext : Nat → List (Channel κ) → Nat
  | next, [] => next
  | next, ch :: chs =>
    scanNext (if next ≤ ch.channelId then ch.channelId + 1 else next) chs

/-- `strncpy` into a 256-byte buffer whose last byte is then cleared. -/
def copyName (name : Option (List UInt8)) : List UInt8 :=
  ((name.getD []).takeWhile (· ≠ 0)).take 255

/-- `channel_register`, with the pointer it returns (`none` for `NULL`). -/
def channelRegister (t : Table κ) (args : RegArgs κ) : Table κ × Option Nat :=
  let id := t.nextChannelId
  let t := { t with nextChannelId := scanNext (t.nextChannelId + 1) t.head }
  if args.mem then
    ({ t with
        head :=
          { ptr := t.brk, channelId := id, headerId := 0, state := .header, totalHeaderLen := 0,
            totalDataLen := 0, name := copyName args.name, callback := args.callback } :: t.head
        brk := t.brk + 1 },
      some t.brk)
  else (t, none)

/-- `channel_unregister`: `none` when `assert (tmp != NULL)` fails, the channel
not being in the list. -/
def channelUnregister (t : Table κ) (p : Nat) : Option (Table κ) :=
  match t.get p, Keyed.remove Channel.ptr p t.head with
  | some ch, some head =>
    some { t with
      head := head
      nextChannelId := if ch.channelId < t.nextChannelId then ch.channelId else t.nextChannelId }
  | _, _ => none

/-- `channel_by_id`, and the same loop in `channel_process`. -/
def channelById (t : Table κ) (channelId : Nat) : Option (Channel κ) :=
  Keyed.find Channel.channelId channelId t.head

/-! ## Callbacks -/

/-- What a callback does: the client's new state, the registrations it makes
in order, and its return value. -/
def Callback (σ κ : Type) : Type := σ → Channel κ → List UInt8 → σ × List (RegArgs κ) × Int

/-- A callback entered: the channel as the callback sees it, and the data. -/
structure Call (κ : Type) where
  ch : Channel κ
  data : List UInt8
deriving DecidableEq, Repr

structure World (σ κ : Type) where
  table : Table κ
  client : σ
  calls : List (Call κ)

def World.modify (w : World σ κ) (p : Nat) (f : Channel κ → Channel κ) : World σ κ :=
  { w with table := w.table.modify p f }

/-- `ch->state = state`. -/
def World.setState (w : World σ κ) (p : Nat) (state : ChannelState) : World σ κ :=
  w.modify p fun ch => { ch with state := state }

def Table.registerAll (t : Table κ) : List (RegArgs κ) → Table κ
  | [] => t
  | args :: rest => (channelRegister t args).1.registerAll rest

/-- `ch->callback (ch, ptr, len)`. -/
def World.enter (cb : Callback σ κ) (w : World σ κ) (p : Nat) (data : List UInt8) :
    World σ κ × Int :=
  match w.table.get p with
  | none => (w, 0)
  | some ch =>
    let (client, regs, ret) := cb w.client ch data
    ({ table := w.table.registerAll regs, client := client, calls := w.calls ++ [⟨ch, data⟩] }, ret)

/-! ## Dispatching a packet -/

/-- How the header loop of `channel_process` ends. -/
inductive LoopExit
  /-- all `len` bytes consumed -/
  | consumed
  /-- a zero length, with this many bytes not consumed -/
  | zero (left : Nat)
  /-- the header is longer than the bytes left -/
  | notEnough
  /-- one byte left where the next length is read -/
  | shortRead
deriving DecidableEq, Repr

/-- One round of the header loop: the callback gets the header, numbered from 1. -/
def headerStep (cb : Callback σ κ) (p : Nat) (w : World σ κ) (header : List UInt8) : World σ κ :=
  let w := w.modify p fun ch => { ch with headerId := ch.headerId + 1 }
  let (w, _) := w.enter cb p header
  w.modify p fun ch =>
    { ch with totalHeaderLen := ch.totalHeaderLen + UInt32.ofNat header.length }

theorem length_drop_lt (a b : UInt8) (ptr : List UInt8) (n : Nat) :
    (ptr.drop n).length < (a :: b :: ptr).length := by
  rw [List.length_drop, List.length_cons, List.length_cons]
  omega

/-- `while (consumed_len < len)`, on the bytes not consumed yet. -/
def headerLoop (cb : Callback σ κ) (p : Nat) (w : World σ κ) : List UInt8 → World σ κ × LoopExit
  | [] => (w, .consumed)
  | [_] => (w, .shortRead)
  | a :: b :: ptr =>
    let headerLen := ntohs a b
    if headerLen = 0 then (w, .zero ptr.length)
    else if ptr.length < headerLen then (w, .notEnough)
    else headerLoop cb p (headerStep cb p w (ptr.take headerLen)) (ptr.drop headerLen)
termination_by buf => buf.length
decreasing_by exact length_drop_lt a b ptr _

/-- What goes wrong in a call of `channel_process`. -/
inductive Fault
  /-- bytes outside the payload are read -/
  | overRead
  /-- `len -= 2` wraps -/
  | underflow
  /-- `assert (len >= 2)` -/
  | assertLen
  /-- `assert (consumed_len == len)` -/
  | assertConsumed
  /-- `assert (tmp != NULL)` of `channel_unregister` -/
  | assertLinked
deriving DecidableEq, Repr

/-- The header phase of `channel_process`. -/
def processHeaders (cb : Callback σ κ) (w : World σ κ) (p : Nat) (buf : List UInt8) :
    World σ κ × Int × List Fault :=
  if buf.length < 2 then (w, 0, [.assertLen])
  else
    match headerLoop cb p w buf with
    | (w, .consumed) => (w, 0, [])
    -- the last header_len was zero: all headers are in
    | (w, .zero 0) => (w.setState p .data, 0, [])
    | (w, .zero (_ + 1)) => (w, 0, [.assertConsumed])
    -- the hex dump starts behind the length field and dumps `len` bytes
    | (w, .notEnough) => (w, 0, [.overRead])
    | (w, .shortRead) => (w, 0, [.overRead])

/-- Hand the data to the callback; an empty packet is the last one. -/
def deliver (cb : Callback σ κ) (w : World σ κ) (p : Nat) (buf : List UInt8) : World σ κ × Int :=
  let w := if buf.length = 0 then w.setState p .ended else w
  let (w, ret) := w.enter cb p buf
  (w.modify p fun ch => { ch with totalDataLen := ch.totalDataLen + UInt32.ofNat buf.length }, ret)

/-- The DATA and ERROR states of `channel_process`. -/
def processData (cb : Callback σ κ) (w : World σ κ) (p : Nat) (buf : List UInt8) :
    World σ κ × Int × List Fault :=
  let (w, ret) := deliver cb w p buf
  match w.table.get p with
  | none => (w, ret, [])
  | some ch =>
    -- deallocate the channel if in END or ERROR state
    if ch.state.final then
      match channelUnregister w.table p with
      | none => (w, ret, [.assertLinked])
      | some t => ({ w with table := t }, ret, [])
    else (w, ret, [])

/-- `channel_process`: the world afterwards, the value returned, and what went
wrong on the way. -/
def channelProcess (cb : Callback σ κ) (w : World σ κ) (payload : List UInt8) (error : Bool) :
    World σ κ × Int × List Fault :=
  match payload with
  | a :: b :: buf =>
    match channelById w.table (ntohs a b) with
    | none => (w, 0, [])
    | some ch =>
      let w := if error then w.setState ch.ptr .error else w
      if (if error then ChannelState.error else ch.state) = .header then
        processHeaders cb w ch.ptr buf
      else processData cb w ch.ptr buf
  | _ => (w, 0, [.overRead, .underflow])

end Despotify.Channels

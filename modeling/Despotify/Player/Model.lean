import Mathlib.Data.List.Basic
import Mathlib.Algebra.GroupWithZero.Nat

/-!
# Playback: `lib/sndqueue.c` and the player half of `lib/despotify.c`

Three threads share `struct despotify_session`: the player thread
(`snd_fill_fifo`, `snd_consume_data`), the network thread (the callbacks of the
AES key and substream channels) and the user (`despotify_play`, `_next`,
`_stop`).  One step is one call of such a function; only the loops that wait
for `dlstate` to leave `DL_FILLING_BUSY` and the wait for data yield to the
other threads, so a thread is idle or at one of these (`UserPc`, `PlayerPc`).

The server answers requests in the order they were sent: `queue` holds those
not answered to the end, the oldest first.  A dereferenced `NULL`, a failed
assertion or `exit` ends the run: such a step is `none`.

`pushed` is ghost state: what `snd_ioctl` has put into the fifo.
-/

namespace Despotify.Player

/-! ## Data -/

/-- The fields of `struct ds_track` the player reads. -/
structure Track where
  fileId : Nat
  playable : Bool
deriving DecidableEq, Repr

/-- What the code gets from elsewhere: the files on the server with their keys,
and `rijndaelKeySetupEnc` and `rijndaelEncrypt` on one block. -/
structure Env (A : Type) where
  key : Track → List UInt8
  cipher : Track → Nat → UInt8
  keySetup : List UInt8 → A
  encrypt : A → List UInt8 → Nat → UInt8

/-- A server that does not encrypt. -/
def noCipher : Env Unit where
  key _ := []
  cipher _ _ := 0
  keySetup _ := ()
  encrypt _ _ _ := 0

/-- A byte in a buffer; `src` is the track and the file offset it is a byte of,
`none` where the buffer was never written. -/
structure Cell where
  src : Option (Track × Nat)
  byte : UInt8
deriving DecidableEq, Repr

inductive DlState
  | filling
  | fillingBusy
  | draining
  | endOfList
deriving DecidableEq, Repr

/-- `cmd` of a buffer: `SND_CMD_START`, `SND_CMD_DATA`, `SND_CMD_END`. -/
inductive SndCmd
  | start
  | data
  | ended
deriving DecidableEq, Repr

/-- `struct ds_snd_buffer`. -/
inductive Buffer
  /-- a copy of the track struct; `next` is the list linked from it -/
  | start (track : Track) (next : List Track)
  | data (bytes : List Cell) (consumed : Nat)
  | ended
deriving DecidableEq, Repr

/-- `length`: only data counts. -/
def Buffer.length : Buffer → Nat
  | .data bytes _ => bytes.length
  | .start _ _ | .ended => 0

/-- `cmd`. -/
def Buffer.cmd : Buffer → SndCmd
  | .start _ _ => .start
  | .data _ _ => .data
  | .ended => .ended

/-- `struct ds_snd_fifo`; `buffers` runs from `start` to `end`. -/
structure Fifo where
  buffers : List Buffer
  totbytes : Int
  lastcmd : SndCmd
deriving DecidableEq, Repr

def SUBSTREAM_SIZE : Nat := 200 * 1024

def maxbytes : Int := 1024 * 1024

def watermark : Int := 200 * 1024

/-- What `client_callback` is called with. -/
inductive Notice
  /-- `DESPOTIFY_NEW_TRACK` with the copy of the track -/
  | newTrack (track : Track) (next : List Track)
  /-- `DESPOTIFY_END_OF_PLAYLIST` -/
  | endOfPlaylist
deriving DecidableEq, Repr

/-- The player's fields of `struct despotify_session`.  `track` is the list
linked from `ds->track`, empty for `NULL`; `fifo` is `none` before `snd_init`. -/
structure Ds (A : Type) where
  track : List Track
  playAsList : Bool
  offset : Nat
  aesState : A
  iv : List UInt8
  dlstate : DlState
  dlabort : Bool
  errorcount : Nat
  fifo : Option Fifo
  /-- everything pushed so far, the last first -/
  pushed : List Buffer
  /-- the calls of `client_callback` so far, the last first -/
  notices : List Notice
deriving Repr

variable {A : Type}

/-! ## The queue: `snd_ioctl` -/

/-- `snd_init`. -/
def sndInit (ds : Ds A) : Ds A :=
  -- calloc leaves lastcmd at 0, which is SND_CMD_START
  { ds with dlstate := .filling, fifo := some ⟨[], 0, .start⟩ }

/-- Hook in the entry. -/
def enqueue (ds : Ds A) (b : Buffer) : Option (Ds A) :=
  ds.fifo.map fun f =>
    { ds with
      fifo := some ⟨f.buffers ++ [b], f.totbytes + b.length, b.cmd⟩
      pushed := b :: ds.pushed }

/-- `snd_ioctl (ds, SND_CMD_START, copy, 0)`.  The test for an Ogg page reads a
character of the hexadecimal `track_id` here, which is never 6. -/
def sndIoctlStart (ds : Ds A) (t : Track) (next : List Track) : Option (Ds A) :=
  if ds.dlabort then some ds else enqueue ds (.start t next)

def byteAt (mem : List Cell) (i : Nat) : Nat := ((mem[i]?).map (·.byte.toNat)).getD 0

/-- What is left of the first data of a track: an Ogg page whose header type is
6 is dropped. -/
def dropFirstPage (mem : List Cell) (length : Nat) : List Cell :=
  if byteAt mem 5 = 6 then
    let offset := 28 + ((List.range (byteAt mem 26)).map fun i => byteAt mem (i + 27)).sum
    if offset < length then (mem.take length).drop offset else mem.take length
  else mem.take length

/-- `snd_ioctl (ds, SND_CMD_DATA, mem, length)`. -/
def sndIoctlData (ds : Ds A) (mem : List Cell) (length : Nat) : Option (Ds A) :=
  if ds.dlabort then some ds
  else
    match ds.fifo with
    | none => none
    | some f =>
      let bytes := if f.lastcmd = .start then dropFirstPage mem length else mem.take length
      enqueue ds (.data bytes 0)

/-- `snd_ioctl (ds, SND_CMD_END, NULL, 0)`. -/
def sndIoctlEnd (ds : Ds A) : Option (Ds A) :=
  let ds := if ds.track.isEmpty then { ds with dlstate := .endOfList } else ds
  if ds.dlabort then some ds
  else
    match ds.fifo with
    | none => none
    -- the test for an Ogg page reads through the NULL data
    | some f => if f.lastcmd = .start then none else enqueue ds .ended

/-- `snd_ioctl (ds, SND_CMD_CHANNEL_END, NULL, 0)`. -/
def sndIoctlChannelEnd (ds : Ds A) : Ds A :=
  if ds.dlabort then { ds with dlstate := .draining }
  else if ds.dlstate ≠ .endOfList then { ds with dlstate := .filling }
  else ds

/-! ## The queue: `snd_consume_data` -/

/-- How a pass over the queue ends. -/
inductive Consumed
  /-- return this many bytes -/
  | returned (total : Nat)
  /-- wait for data, with this many bytes already handed over -/
  | waiting (total : Nat)
  /-- `SND_CMD_END` was the last entry: call `snd_stop` and return 0 -/
  | lastEnd
deriving DecidableEq, Repr

/-- What a pass over the queue does: the queue and `totbytes` afterwards, the
client callbacks, the last first, and the pieces handed to the consumer with
their offsets. -/
structure Pass where
  buffers : List Buffer
  totbytes : Int
  notices : List Notice
  pieces : List (Nat × List Cell)
  out : Consumed
deriving DecidableEq, Repr

/-- The loop of `snd_consume_data`, `total` of `req` bytes done. -/
def consumeLoop (req : Nat) (totbytes : Int) : Nat → List Notice → List Buffer → Pass
  | total, notices, [] => ⟨[], totbytes, notices, [], .waiting total⟩
  | total, notices, .start t next :: rest =>
    consumeLoop req totbytes total (.newTrack t next :: notices) rest
  | total, notices, .data bytes consumed :: rest =>
    let remaining := bytes.length - consumed
    let length := if total + remaining < req then remaining else req - total
    let piece := (total, (bytes.drop consumed).take length)
    if consumed + length = bytes.length then
      if rest.isEmpty ∨ total + length = req then
        ⟨rest, totbytes - bytes.length, notices, [piece], .returned (total + length)⟩
      else
        let pass := consumeLoop req (totbytes - bytes.length) (total + length) notices rest
        { pass with pieces := piece :: pass.pieces }
    else
      ⟨.data bytes (consumed + length) :: rest, totbytes, notices, [piece],
        .returned (total + length)⟩
  | total, notices, .ended :: rest =>
    if total ≠ 0 then ⟨.ended :: rest, totbytes, notices, [], .returned total⟩
    else if rest.isEmpty then ⟨rest, totbytes, notices, [], .lastEnd⟩
    else ⟨rest, totbytes, notices, [], .returned 0⟩

/-! ## Decryption -/

/-- The initial IV of `despotify_aes_callback`. -/
def IV0 : List UInt8 :=
  [0x72, 0xe0, 0x67, 0xfb, 0xdd, 0xcb, 0xcf, 0x77, 0xeb, 0xe8, 0xbc, 0x64, 0x3f, 0x63, 0x0d, 0x93]

/-- The carry loop, from the last byte on. -/
def incLast : List UInt8 → List UInt8
  | [] => []
  | b :: bs => if b + 1 ≠ 0 then (b + 1) :: bs else 0 :: incLast bs

/-- Update IV counter. -/
def incIV (iv : List UInt8) : List UInt8 := (incLast iv.reverse).reverse

/-- Deinterleave the 4x256 byte blocks. -/
def deinterleave {α : Type} [Inhabited α] (buf : List α) : List α :=
  (List.range 256).flatMap fun i =>
    [buf.getD i default, buf.getD (256 + i) default, buf.getD (2 * 256 + i) default,
      buf.getD (3 * 256 + i) default]

instance : Inhabited Cell := ⟨⟨none, 0⟩⟩

/-- `n` units of 16 bytes: one keystream block each. -/
def decryptUnits (env : Env A) (st : A) : Nat → List UInt8 → List Cell → List Cell × List UInt8
  | 0, iv, _ => ([], iv)
  | n + 1, iv, buf =>
    let unit := (buf.take 16).mapIdx fun j c => { c with byte := c.byte ^^^ env.encrypt st iv j }
    let (rest, iv') := decryptUnits env st n (incIV iv) (buf.drop 16)
    (unit ++ rest, iv')

/-- Each whole 1024 byte block is deinterleaved and decrypted. -/
def decryptBlocks (env : Env A) (st : A) : Nat → List UInt8 → List Cell → List Cell × List UInt8
  | 0, iv, _ => ([], iv)
  | n + 1, iv, buf =>
    let (block, iv) := decryptUnits env st 64 iv (deinterleave (buf.take 1024))
    let (rest, iv) := decryptBlocks env st n iv (buf.drop 1024)
    (block ++ rest, iv)

/-! ## Threads and requests -/

inductive Request
  | key (t : Track)
  /-- file offset, and the bytes delivered so far (`ch->total_data_len`) -/
  | substream (t : Track) (offset received : Nat)
deriving DecidableEq, Repr

def Request.isSubstream : Request → Bool
  | .substream _ _ _ => true
  | .key _ => false

/-- The rest of a user call that waits in `snd_stop`; the flags say whether its
`packet_write`s succeed. -/
inductive UserCall
  | play (t : Track) (rest : List Track) (asList notifyOk keyOk : Bool)
  | next (notifyOk keyOk : Bool)
  | stop
deriving DecidableEq, Repr

inductive UserPc
  | idle
  | stopping (call : UserCall)
deriving DecidableEq, Repr

inductive PlayerPc
  | idle
  /-- in the wait loop of `snd_fill_fifo` -/
  | filling
  /-- in `pthread_cond_wait` of `snd_consume_data` -/
  | consuming (req total : Nat)
  /-- in `snd_stop`, called by `snd_consume_data` -/
  | stopping
deriving DecidableEq, Repr

structure Sys (A : Type) where
  ds : Ds A
  queue : List Request
  user : UserPc
  player : PlayerPc
deriving Repr

/-- A session just created: `calloc`. -/
def Sys.init (st : A) : Sys A :=
  { ds :=
      { track := [], playAsList := false, offset := 0, aesState := st, iv := List.replicate 16 0,
        dlstate := .filling, dlabort := false, errorcount := 0, fifo := none, pushed := [],
        notices := [] }
    queue := [], user := .idle, player := .idle }

/-! ## Network thread -/

/-- `cmd_aeskey` for `ds->track`. -/
def cmdAeskey (s : Sys A) (t : Track) (ok : Bool) : Sys A :=
  if ok then { s with queue := s.queue ++ [.key t] } else s

/-- `despotify_aes_callback`, on the answer to the request for `t`. -/
def aesCallback (env : Env A) (s : Sys A) (t : Track) (queue : List Request) : Option (Sys A) :=
  match s.ds.track with
  | [] => none
  | cur :: next =>
    let ds := { s.ds with aesState := env.keySetup (env.key t), iv := IV0 }
    (sndIoctlStart ds cur next).map fun ds => { s with ds := ds, queue := queue }

/-- The byte of the file at wire position `p`: every 1024 bytes are sent as four
runs of 256. -/
def wireCell (env : Env A) (t : Track) (p : Nat) : Cell :=
  let f := 1024 * (p / 1024) + 4 * (p % 256) + p % 1024 / 256
  ⟨some (t, f), env.cipher t f⟩

/-- `despotify_substream_callback`, `CHANNEL_DATA` with `len` bytes; `mem` is
what `malloc (len + 1024)` returned. -/
def substreamData (env : Env A) (ds : Ds A) (buf : List Cell) (mem : List UInt8) :
    Option (Ds A) :=
  let (plain, iv) := decryptBlocks env ds.aesState (buf.length / 1024) ds.iv buf
  let plaintext := plain ++ (mem.drop plain.length).map fun b => ⟨none, b⟩
  sndIoctlData { ds with iv := iv } plaintext buf.length

/-- `do ds->track = ds->track->next; while (ds->track && !ds->track->playable)`. -/
def nextPlayable (track : List Track) : List Track := track.tail.dropWhile (! ·.playable)

/-- `despotify_substream_callback`, `CHANNEL_END`. -/
def substreamEnd (s : Sys A) (total : Nat) (queue : List Request) (keyOk : Bool) :
    Option (Sys A) :=
  let ds := { s.ds with errorcount := 0, offset := s.ds.offset + total }
  if total < SUBSTREAM_SIZE then
    if ds.track.isEmpty then none
    else
      (sndIoctlEnd { ds with track := nextPlayable ds.track }).map fun ds =>
        let s := { s with ds := { ds with offset := 0 }, queue := queue }
        let s :=
          match ds.track with
          | t :: _ => if ds.playAsList then cmdAeskey s t keyOk else s
          | [] => s
        { s with ds := sndIoctlChannelEnd s.ds }
  else some { s with ds := sndIoctlChannelEnd ds, queue := queue }

/-! ## Player thread -/

/-- `despotify_snd_read_stream`, after `dlstate = DL_FILLING_BUSY`. -/
def readStream (s : Sys A) (ok : Bool) : Option (Sys A) :=
  match s.ds.track with
  | [] => none
  | t :: _ =>
    -- the assertion of cmd_getsubstreams
    if s.ds.offset % 4096 ≠ 0 then none
    else
      some { s with
        ds := { s.ds with dlstate := .fillingBusy }
        queue := if ok then s.queue ++ [.substream t s.ds.offset 0] else s.queue }

/-- `snd_fill_fifo` is to request data. -/
def wantsData (ds : Ds A) (f : Fifo) : Bool :=
  match ds.dlstate with
  | .draining => f.totbytes < watermark
  | .filling => f.totbytes < maxbytes - SUBSTREAM_SIZE
  | .fillingBusy | .endOfList => false

/-- `snd_fill_fifo`. -/
def sndFillFifo (s : Sys A) (f : Fifo) (ok : Bool) : Option (Sys A) :=
  if s.ds.dlabort then
    if s.ds.dlstate = .fillingBusy then some { s with player := .filling }
    else some { s with ds := { s.ds with dlstate := .draining } }
  else if wantsData s.ds f then readStream s ok
  else if s.ds.dlstate = .filling then some { s with ds := { s.ds with dlstate := .draining } }
  else some s

/-! ## `snd_stop` and the user's calls -/

/-- `snd_stop` up to its wait loop. -/
def sndStopEnter (ds : Ds A) : Ds A :=
  if ds.dlstate = .filling ∨ ds.dlstate = .fillingBusy then { ds with dlabort := true } else ds

/-- `snd_stop` after its wait loop. -/
def sndStopLeave (ds : Ds A) : Ds A :=
  { ds with
    dlstate := .draining
    fifo := ds.fifo.map fun f => { f with buffers := [], totbytes := 0 }
    dlabort := false }

def isStart : Buffer → Bool
  | .start _ _ => true
  | .data _ _ | .ended => false

/-- `snd_next`: drop entries up to the next `SND_CMD_START`, which stays. -/
def sndNext (ds : Ds A) : Ds A × Bool :=
  match ds.fifo with
  | none => (ds, false)
  | some f =>
    let dropped := f.buffers.takeWhile (! isStart ·)
    let buffers := f.buffers.dropWhile (! isStart ·)
    let notices :=
      match buffers with
      | .start t next :: _ => .newTrack t next :: ds.notices
      | _ => ds.notices
    ({ ds with
        fifo := some { f with
          buffers := buffers, totbytes := f.totbytes - (dropped.map Buffer.length).sum }
        notices := notices },
      !buffers.isEmpty)

/-- `despotify_play` after `snd_stop` or `snd_init`. -/
def play (s : Sys A) (t : Track) (rest : List Track) (asList notifyOk keyOk : Bool) : Sys A :=
  if notifyOk then
    cmdAeskey { s with ds := { s.ds with track := t :: rest, playAsList := asList } } t keyOk
  else s

/-- The loop of `despotify_next`: `none` when it dereferences `NULL`. -/
def skipToPlayable : List Track → Option (List Track)
  | [] => some []
  | [_] => none
  | _ :: t :: rest => if t.playable then some (t :: rest) else skipToPlayable (t :: rest)

def resetOffset (s : Sys A) : Sys A := { s with ds := { s.ds with offset := 0 } }

/-- `despotify_next` after `snd_stop` or `snd_init`; its call of
`despotify_play` runs through `snd_stop` again, without waiting. -/
def next (s : Sys A) (notifyOk keyOk : Bool) : Option (Sys A) :=
  let (ds, found) := sndNext s.ds
  let s := { s with ds := ds }
  if found then some s
  else
    (skipToPlayable s.ds.track).map fun track =>
      let s := { s with ds := { s.ds with track := track } }
      match track with
      | [] => s
      | t :: rest =>
        let s := { s with ds := sndStopLeave (sndStopEnter s.ds) }
        play (resetOffset s) t rest s.ds.playAsList notifyOk keyOk

/-- A user call after its `snd_stop`. -/
def userFinish (s : Sys A) : UserCall → Option (Sys A)
  | .play t rest asList notifyOk keyOk => some (play s t rest asList notifyOk keyOk)
  | .next notifyOk keyOk => next s notifyOk keyOk
  | .stop => some s

/-- A user call: `snd_init` when there is no fifo yet, else `snd_stop`, which
waits while a substream is on its way. -/
def userCall (s : Sys A) (call : UserCall) : Option (Sys A) :=
  match s.ds.fifo with
  | none =>
    match call with
    | .stop => some s
    | call => userFinish { s with ds := sndInit s.ds } call
  | some _ =>
    let ds := sndStopEnter s.ds
    if ds.dlstate = .fillingBusy then some { s with ds := ds, user := .stopping call }
    else userFinish (resetOffset { s with ds := sndStopLeave ds }) call

/-! ## Steps -/

inductive Event
  | user (call : UserCall)
  | userWake
  | fill (ok : Bool)
  | fillWake
  | consume (req : Nat)
  | consumeWake
  | stopWake
  | aesKey
  | aesKeyErr
  | data (n : Nat) (mem : List UInt8)
  | substreamEnd (keyOk : Bool)
  | substreamError
deriving DecidableEq, Repr

/-- `DESPOTIFY_END_OF_PLAYLIST`. -/
def endOfPlaylist (ds : Ds A) : Ds A := { ds with notices := .endOfPlaylist :: ds.notices }

/-- `snd_consume_data` from the top of its loop, `total` of `req` bytes done. -/
def sndConsumeData (s : Sys A) (f : Fifo) (req total : Nat) : Sys A :=
  let pass := consumeLoop req f.totbytes total s.ds.notices f.buffers
  let ds := { s.ds with
    fifo := some { f with buffers := pass.buffers, totbytes := pass.totbytes }
    notices := pass.notices }
  match pass.out with
  | .returned _ => { s with ds := ds, player := .idle }
  | .waiting total => { s with ds := ds, player := .consuming req total }
  | .lastEnd =>
    let ds := sndStopEnter ds
    if ds.dlstate = .fillingBusy then { s with ds := ds, player := .stopping }
    else { s with ds := endOfPlaylist (sndStopLeave ds), player := .idle }

def step (env : Env A) (s : Sys A) : Event → Option (Sys A)
  | .user call => if s.user = .idle then userCall s call else none
  | .userWake =>
    match s.user with
    | .stopping call =>
      if s.ds.dlstate = .fillingBusy then none
      else userFinish (resetOffset { s with ds := sndStopLeave s.ds, user := .idle }) call
    | .idle => none
  | .fill ok =>
    match s.player, s.ds.fifo with
    | .idle, some f => sndFillFifo s f ok
    | _, _ => none
  | .fillWake =>
    if s.player = .filling ∧ s.ds.dlstate ≠ .fillingBusy then
      some { s with ds := { s.ds with dlstate := .draining }, player := .idle }
    else none
  | .consume req =>
    match s.player, s.ds.fifo with
    | .idle, some f => if 0 < req then some (sndConsumeData s f req 0) else none
    | _, _ => none
  | .consumeWake =>
    match s.player, s.ds.fifo with
    | .consuming req total, some f =>
      -- woken without an entry: return what is there
      if f.buffers.isEmpty then some { s with player := .idle }
      else some (sndConsumeData s f req total)
    | _, _ => none
  | .stopWake =>
    if s.player = .stopping ∧ s.ds.dlstate ≠ .fillingBusy then
      some { s with ds := endOfPlaylist (sndStopLeave s.ds), player := .idle }
    else none
  | .aesKey =>
    match s.queue with
    | .key t :: queue => aesCallback env s t queue
    | _ => none
  | .aesKeyErr =>
    match s.queue with
    -- the handler does nothing
    | .key _ :: queue => some { s with queue := queue }
    | _ => none
  | .data n mem =>
    match s.queue with
    | .substream t offset received :: queue =>
      -- len is an unsigned short
      if 0 < n ∧ n < 65536 ∧ mem.length = n + 1024 then
        let buf := (List.range n).map fun i => wireCell env t (offset + received + i)
        (substreamData env s.ds buf mem).map fun ds =>
          { s with ds := ds, queue := .substream t offset (received + n) :: queue }
      else none
    | _ => none
  | .substreamEnd keyOk =>
    match s.queue with
    | .substream _ _ received :: queue => substreamEnd s received queue keyOk
    | _ => none
  | .substreamError =>
    match s.queue with
    | .substream _ _ _ :: queue =>
      if s.ds.errorcount + 1 > 3 then none
      else
        some { s with
          ds := { s.ds with errorcount := s.ds.errorcount + 1 }, queue := queue }
    | _ => none

end Despotify.Player

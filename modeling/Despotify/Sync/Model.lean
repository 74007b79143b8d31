import Despotify.Channel.Live

/-!
# The synchronous requests of `lib/despotify.c`

A request opens the response buffer, sends its command on a new channel, and
blocks in `despotify_wait_timeout` until a callback signals `sync_cond` or the
deadline passes; then the response goes to its decoder.  The network thread
runs the callbacks, one packet a step.  Logging in is the same pattern on
`login_cond`, without a deadline.

One session, two threads: an `Event` is a step of the requesting thread, of the
network thread, or of the player, whose channels live in the same table.  A
signal with no thread blocked on the condition variable is dropped.

The text of the commands, the XML decoders and the tracks they fill in are left
out; `inflate` stands for zlib.
-/

namespace Despotify.Sync

open Channels

/-! ## Requests -/

/-- A C string used as the name of a cache file or in a command. -/
abbrev Key : Type := List UInt8

/-- A call that waits for one channel.  `loadTracks` is one round of
`despotify_load_tracks`, under the hash of its list of tracks. -/
inductive Req
  | search (searchtext : Key)
  | searchMore (query : Key) (offset : Nat)
  | loadTracks (tracksHash : Key) (cacheDoStore : Bool)
  | getPlaylist (playlistId : Option Key) (cacheDoStore : Bool)
  | renamePlaylist (playlistId : Key) (name : Key)
  | setPlaylistCollaboration (playlistId : Key) (collaborative : Bool)
  | getArtist (artistId : Key)
  | getImage (imageId : Key)
  | getAlbum (albumId : Key)
  | getTracks (trackIds : List Key)
deriving DecidableEq, Repr

/-- The callback a channel was registered with; `other` for those of the player,
which touch neither `response` nor `sync_cond`. -/
inductive Handler
  /-- `despotify_plain_callback` -/
  | plain
  /-- `despotify_gzip_callback` -/
  | gzip
  | other
deriving DecidableEq, Repr

def Req.handler : Req → Handler
  | .getPlaylist .. | .renamePlaylist .. | .setPlaylistCollaboration .. | .getImage _ => .plain
  | .search _ | .searchMore .. | .loadTracks .. | .getArtist _ | .getAlbum _ | .getTracks _ => .gzip

/-- `load_lists`. -/
def loadLists : List UInt8 :=
  "<?xml version=\"1.0\" encoding=\"utf-8\" ?>\n<playlist>\n".toUTF8.data.toList

/-- What the response buffer holds before the command is sent. -/
def Req.initial : Req → List UInt8
  | .getPlaylist .. => loadLists
  | _ => []

/-- `buf_append_u8(ds->response, 0)`: the terminator of a plain XML string. -/
def Req.terminator : Req → List UInt8
  | .getPlaylist .. | .renamePlaylist .. | .setPlaylistCollaboration .. => [0]
  | _ => []

/-- The file looked up before the command is sent. -/
def Req.cacheKey : Req → Option Key
  | .getPlaylist id _ => id
  | .loadTracks key _ | .getArtist key | .getImage key | .getAlbum key => some key
  | _ => none

/-- The file written when the reply is in. -/
def Req.storeKey (useCache : Bool) : Req → Option Key
  | .getPlaylist id cacheDoStore => if cacheDoStore then id else none
  | .loadTracks key cacheDoStore => if cacheDoStore then some key else none
  | .getArtist key | .getImage key | .getAlbum key => if useCache then some key else none
  | _ => none

/-! ## The session -/

/-- `ds->response`. -/
inductive Response
  | null
  | buf (data : List UInt8)
  /-- after `buf_free` -/
  | freed
deriving DecidableEq, Repr

/-- A file of the cache directory: what `cache_store` wrote under `key`, for
which request and from which channel. -/
structure Entry where
  key : Key
  data : List UInt8
  req : Req
  own : Nat
deriving DecidableEq, Repr

/-- Where the requesting thread is. -/
inductive Thread
  | off
  /-- the network thread is created, the wait for the login not entered -/
  | started
  /-- in `pthread_cond_wait(&login_cond, …)` -/
  | loggingIn
  | idle
  /-- the response buffer is open, the command not sent -/
  | opened (req : Req)
  /-- the command is sent, the wait not entered -/
  | sent (req : Req) (own : Nat)
  /-- in `pthread_cond_timedwait(&sync_cond, …)` -/
  | waiting (req : Req) (own : Nat)
  /-- signalled by the callback of the channel `signaller` -/
  | woken (req : Req) (own signaller : Nat)
deriving DecidableEq, Repr

/-- What a request came to. -/
inductive Outcome
  /-- served from the cache -/
  | cached (data : List UInt8)
  /-- the command could not be sent -/
  | sendFailed
  | timedOut (own : Nat)
  /-- `handed` went to the decoder, `signaller` having ended the wait -/
  | replied (own signaller : Nat) (handed : List UInt8)
deriving DecidableEq, Repr

/-- The part of `struct despotify_session` that requests use, with the cache
directory (the newest file first) and the requests so far (the last one first). -/
structure Ds where
  thread : Thread
  response : Response
  useCache : Bool
  cache : List Entry
  log : List (Req × Outcome)
  /-- `handle_welcome` has run -/
  welcomed : Bool
  /-- data was appended to a buffer that does not exist -/
  corrupt : Bool
deriving DecidableEq, Repr

def Ds.init (useCache : Bool) : Ds := ⟨.off, .null, useCache, [], [], false, false⟩

/-! ## The callbacks -/

/-- `pthread_cond_signal(&ds->sync_cond)`. -/
def Ds.signal (ds : Ds) (signaller : Nat) : Ds :=
  match ds.thread with
  | .waiting req own => { ds with thread := .woken req own signaller }
  | _ => ds

/-- `buf_append_data(ds->response, buf, len)`. -/
def Ds.append (ds : Ds) (buf : List UInt8) : Ds :=
  match ds.response with
  | .buf data => { ds with response := .buf (data ++ buf) }
  | .null | .freed => { ds with corrupt := true }

/-- The part of a packet that follows the ten bytes of a minimal gzip header. -/
def skipGzipHeader (totalDataLen : UInt32) (buf : List UInt8) : List UInt8 :=
  if totalDataLen < 10 then buf.drop (10 - totalDataLen.toNat) else buf

def plainCallback (ds : Ds) (ch : Channel Handler) (buf : List UInt8) : Ds :=
  match ch.state with
  | .data => ds.append buf
  | .error | .ended => ds.signal ch.ptr
  | .header => ds

def gzipCallback (ds : Ds) (ch : Channel Handler) (buf : List UInt8) : Ds :=
  match ch.state with
  | .data =>
    let rest := skipGzipHeader ch.totalDataLen buf
    if ch.totalDataLen < 10 ∧ rest = [] then ds else ds.append rest
  | .error | .ended => ds.signal ch.ptr
  | .header => ds

/-- The callbacks register no channel. -/
def callback : Callback Ds Handler := fun ds ch buf =>
  match ch.callback with
  | .plain => (plainCallback ds ch buf, [], 0)
  | .gzip => (gzipCallback ds ch buf, [], 0)
  | .other => (ds, [], 0)

/-- `handle_welcome`: the signal for the login. -/
def Ds.welcome (ds : Ds) : Ds :=
  { ds with
    welcomed := true
    thread := match ds.thread with
      | .loggingIn => .idle
      | thread => thread }

/-! ## The requesting thread -/

/-- `cache_contains` and `cache_load`. -/
def Ds.cacheLoad (ds : Ds) (key : Key) : Option (List UInt8) :=
  (ds.cache.find? fun e => e.key = key).map Entry.data

/-- `cache_store`. -/
def Ds.cacheStore (ds : Ds) (e : Entry) : Ds := { ds with cache := e :: ds.cache }

/-- The cache hit of a request. -/
def Ds.hit (ds : Ds) (req : Req) : Option (List UInt8) :=
  if ds.useCache then req.cacheKey.bind ds.cacheLoad else none

/-- A request up to the command: `despotify_load_tracks` opens its buffer
before it looks into the cache, the others after. -/
def Ds.begin (ds : Ds) (req : Req) : Ds :=
  match ds.hit req with
  | some data =>
    { ds with
      log := (req, .cached data) :: ds.log
      response := match req with
        | .loadTracks .. => .buf []
        | _ => ds.response }
  | none => { ds with response := .buf req.initial, thread := .opened req }

section
variable (inflate : List UInt8 → Option (List UInt8))

/-- `despotify_inflate`: nothing to inflate is a failure, and the output is
null terminated. -/
def despotifyInflate (data : List UInt8) : Option (List UInt8) :=
  if data.length = 0 then none else (inflate data).map (· ++ [0])

/-- What is stored of the bytes handed to the decoder. -/
def Req.stored (req : Req) (handed : List UInt8) : Option (List UInt8) :=
  match req.handler with
  | .gzip => despotifyInflate inflate handed
  | .plain | .other => some handed

/-- A request after a wait that was not timed out: the response, `data`, is
terminated, stored, decoded and freed. -/
def Ds.finish (ds : Ds) (req : Req) (own signaller : Nat) (data : List UInt8) : Ds :=
  let handed := data ++ req.terminator
  let ds := match req.storeKey ds.useCache, req.stored inflate handed with
    | some key, some content => ds.cacheStore ⟨key, content, req, own⟩
    | _, _ => ds
  { ds with
    response := .freed
    thread := .idle
    log := (req, .replied own signaller handed) :: ds.log }

/-! ## Steps -/

inductive Event
  /-- `despotify_authenticate` up to `pthread_create` -/
  | authenticate
  /-- `pthread_cond_wait(&login_cond, …)` is entered -/
  | loginWait
  /-- the network thread handles a welcome packet -/
  | welcome
  | setUseCache (useCache : Bool)
  | begin (req : Req)
  /-- `channel_register` and `packet_write`, which may fail -/
  | send (ok : Bool)
  /-- `pthread_cond_timedwait(&sync_cond, …)` is entered -/
  | wait
  /-- the deadline passes -/
  | timeout
  /-- the wait has returned -/
  | finish
  /-- the network thread handles a channel packet -/
  | packet (payload : List UInt8) (error : Bool)
  /-- the player registers a channel; `cmd_aeskey` puts it into DATA state -/
  | register (name : List UInt8) (dataState : Bool)
  /-- the player unregisters a channel of its own -/
  | unregister (p : Nat)

/-- The channel table with its callbacks, and the session they share. -/
abbrev Sys : Type := Run Ds Handler

def Sys.init (useCache : Bool) : Sys := Run.init (Ds.init useCache)

def Sys.ds (s : Sys) : Ds := s.world.client

def Sys.setDs (s : Sys) (ds : Ds) : Sys := { s with world := { s.world with client := ds } }

/-- The channel `channel_register` is about to return. -/
def Sys.nextPtr (s : Sys) : Nat := s.world.table.brk

/-- `channel_register` with a `malloc` that succeeds. -/
def Sys.register (s : Sys) (name : List UInt8) (handler : Handler) : Sys :=
  { s with world := { s.world with
      table := (channelRegister s.world.table ⟨some name, handler, true⟩).1 } }

/-- The command of the open request, on a new channel. -/
def Sys.send (s : Sys) (req : Req) (ok : Bool) : Sys :=
  let ds := s.ds
  (s.register [] req.handler).setDs <|
    if ok then { ds with thread := .sent req s.nextPtr }
    else { ds with thread := .idle, log := (req, .sendFailed) :: ds.log }

/-- `ch->state = CHANNEL_DATA`. -/
def Sys.forceData (s : Sys) (p : Nat) : Sys :=
  { s with world := s.world.setState p .data }

def step (s : Sys) : Event → Option Sys
  | .authenticate =>
    match s.ds.thread with
    | .off => some (s.setDs { s.ds with thread := .started })
    | _ => none
  | .loginWait =>
    match s.ds.thread with
    | .started => some (s.setDs { s.ds with thread := .loggingIn })
    | _ => none
  | .welcome =>
    match s.ds.thread with
    | .off => none
    | _ => some (s.setDs s.ds.welcome)
  | .setUseCache useCache =>
    match s.ds.thread with
    | .idle => some (s.setDs { s.ds with useCache := useCache })
    | _ => none
  | .begin req =>
    match s.ds.thread with
    | .idle => some (s.setDs (s.ds.begin req))
    | _ => none
  | .send ok =>
    match s.ds.thread with
    | .opened req => some (s.send req ok)
    | _ => none
  | .wait =>
    match s.ds.thread with
    | .sent req own => some (s.setDs { s.ds with thread := .waiting req own })
    | _ => none
  | .timeout =>
    match s.ds.thread with
    | .waiting req own =>
      some (s.setDs { s.ds with thread := .idle, log := (req, .timedOut own) :: s.ds.log })
    | _ => none
  | .finish =>
    match s.ds.thread, s.ds.response with
    | .woken req own signaller, .buf data =>
      some (s.setDs (s.ds.finish inflate req own signaller data))
    | _, _ => none
  | .packet payload error =>
    match s.ds.thread with
    | .off => none
    | _ => some { s with world := (channelProcess callback s.world payload error).1 }
  | .register name dataState =>
    let s' := s.register name .other
    some (if dataState then s'.forceData s.nextPtr else s')
  | .unregister p =>
    match s.world.table.get p, channelUnregister s.world.table p with
    | some ch, some t =>
      if ch.callback = .other then
        some { world := { s.world with table := t }, unregistered := p :: s.unregistered }
      else none
    | _, _ => none

end

end Despotify.Sync

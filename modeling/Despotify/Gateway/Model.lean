import Despotify.Channel.Replay
import Despotify.Gateway.Output
import Despotify.Pool.Swap

/-!
# The gateway

`clients/gateway/gw-core.c` serves any number of REST connections from one
thread.  A pass of `main` runs `rest_fsm` on each connection, `spotify_fsm` on
each connection to Spotify, and `select`; an `Event` is one such call, with what
the sockets, `malloc` and the clock answer.

Connections and clients are heap nodes: their addresses are never handed out
twice, and a pointer that leads to no node of its table is a dangling one.
`issued`, `answers`, `uses` and `Rest.last` are ghosts.  A program that does what
C leaves undefined, or fails an assertion, stops with a `Fault`.
-/

namespace Despotify.Gateway

open Channels

/-! ## State -/

/-- `enum client_state_t`. -/
inductive ClientState
  | idleDisconnected
  | allocate
  | connect
  | keyExchange
  | auth
  | idleConnected
  | loginComplete
  | commandComplete
  | errorConnect
  | errorKeyExchange
  | errorAuth
  | errorPacket
deriving DecidableEq, Repr

/-- `SPOTIFYSESSION` at the address `ptr`. -/
structure Client where
  ptr : Nat
  clientId : List UInt8
  state : ClientState
  /-- `session`, with the country it was told -/
  session : Option (List UInt8)
  clientHasData : Bool
  username : List UInt8
  password : List UInt8
  output : Output
  outputLen : Int
  isHttpClient : Bool
deriving DecidableEq, Repr

/-- `HTTPREQUEST`; `callback` is set or NULL, `http_complete_login` being the only one. -/
structure HttpRequest where
  url : List UInt8
  authheader : Option (List UInt8)
  callback : Bool
deriving DecidableEq, Repr

/-- `enum rest_state_t`. -/
inductive RestState
  | reading
  | loadCommand
  | processInitCommand
  | processClientCommand
  | processHttpRequest
  | waiting
  | freeClient
deriving DecidableEq, Repr

/-- `RESTSESSION` at the address `ptr`. -/
structure Rest where
  ptr : Nat
  state : RestState
  socketHasData : Bool
  input : List UInt8
  command : List UInt8
  username : List UInt8
  password : List UInt8
  httpreq : Option HttpRequest
  client : Option Nat
  /-- the channel of the command it issued last -/
  last : Option Nat
deriving DecidableEq, Repr

inductive Assertion
  /-- `assert (r->httpreq != NULL)` -/
  | httpreq
  /-- `assert (r->client != NULL)` in REST_STATE_WAITING -/
  | client
  /-- `assert (0)` in REST_STATE_WAITING -/
  | waiting
  /-- `assert (i < num_clients)` in REST_STATE_FREE_CLIENT -/
  | freeClient
  /-- `assert (offset % 4096 == 0)` -/
  | offset
  /-- `assert (length % 4096 == 0)` -/
  | length
deriving DecidableEq, Repr

inductive Fault
  | nullDeref
  | useAfterFree
  /-- a pointer is cast to the type of another object -/
  | typeConfusion
  /-- a packet that `channel_process` or `handle_aeskey` reads beyond -/
  | packet
  | assertion (a : Assertion)
deriving DecidableEq, Repr

/-- A callback followed `s->output`: the channel it was entered on, and the one
whose context it found. -/
structure Use where
  caller : Nat
  owner : Option Nat
deriving DecidableEq, Repr

/-- What the callbacks share: the table of clients. -/
structure Mem where
  clients : List Client
  uses : List Use
  fault : Option Fault
deriving Repr

/-- A command sent: by whom, and on which channel. -/
structure Issue where
  rest : Nat
  own : Nat
  req : Request
deriving DecidableEq, Repr

/-- A command answered: to whom, with what, and the channel of the command that
connection had issued last. -/
structure Answer where
  rest : Nat
  last : Option Nat
  /-- `none` for "500 0 ERROR" -/
  payload : Option (List UInt8)
deriving DecidableEq, Repr

/-- Where `main` is. -/
inductive Pc
  /-- about to run `rest_fsm (rest[i])` -/
  | rest (i : Nat)
  /-- about to run `spotify_fsm (client[i])` -/
  | clients (i : Nat)
  | select
  | stopped
deriving DecidableEq, Repr

structure Sys where
  pc : Pc
  rest : List Rest
  world : World Mem Handler
  /-- the address `malloc` returns next -/
  brk : Nat
  issued : List Issue
  answers : List Answer
  /-- what was written to the connections -/
  sent : List (Nat × List UInt8)

def Sys.init : Sys := ⟨.rest 0, [], ⟨Table.empty, ⟨[], [], none⟩, []⟩, 0, [], [], []⟩

def Mem.setClients (m : Mem) (clients : List Client) : Mem := { m with clients := clients }

/-- The program stops; the first fault counts. -/
def Mem.fail (m : Mem) (f : Fault) : Mem := { m with fault := m.fault <|> some f }

/-- Assignments through a `SPOTIFYSESSION *`. -/
def Mem.set (m : Mem) (c : Client) : Mem :=
  m.setClients (Keyed.update Client.ptr c.ptr (fun _ => c) m.clients)

def Mem.use (m : Mem) (caller : Nat) (owner : Option Nat) : Mem :=
  { m with uses := m.uses ++ [⟨caller, owner⟩] }

def Sys.mem (s : Sys) : Mem := s.world.client

def Sys.clients (s : Sys) : List Client := s.mem.clients

def Sys.setMem (s : Sys) (m : Mem) : Sys :=
  { s with world := { s.world with client := m } }

def Sys.fail (s : Sys) (f : Fault) : Sys := s.setMem (s.mem.fail f)

def Sys.setClient (s : Sys) (c : Client) : Sys := s.setMem (s.mem.set c)

/-- The client at an address, while it is in the table. -/
def Sys.client? (s : Sys) (p : Nat) : Option Client := Keyed.find Client.ptr p s.clients

def Sys.send (s : Sys) (r : Rest) (text : List UInt8) : Sys :=
  { s with sent := s.sent ++ [(r.ptr, text)] }

section
variable (lib : Lib)

/-! ## Callbacks -/

def Client.react (c : Client) (own : Nat) (r : Reaction) : Client :=
  { c with
    output := match r.output with
      | some o => .obj own o
      | none => .null
    outputLen := r.outputLen.getD c.outputLen
    state := if r.complete then .commandComplete else c.state }

/-- A callback of the gateway: `s = ch->private` and `s->output` are read in any
case.  None registers a channel. -/
def callback : Callback Mem Handler := fun m ch buf =>
  match m.fault with
  | some _ => (m, [], 0)
  | none =>
    match Keyed.find Client.ptr ch.callback.client m.clients with
    | none => (m.fail .useAfterFree, [], 0)
    | some c =>
      match access lib ch buf with
      | .skip => (m, [], 0)
      | .complete => (m.set { c with state := .commandComplete }, [], 0)
      | .context f =>
        match c.output with
        | .null => ((m.use ch.ptr none).fail .nullDeref, [], 0)
        | .dangling => ((m.use ch.ptr none).fail .useAfterFree, [], 0)
        | .obj own o =>
          match f o with
          | some r => ((m.use ch.ptr (some own)).set (c.react own r), [], r.ret)
          | none => ((m.use ch.ptr (some own)).fail .typeConfusion, [], 0)

/-! ## Packets -/

inductive Packet
  /-- CMD_CHANNELDATA and CMD_CHANNELERR -/
  | channel (payload : List UInt8) (error : Bool)
  /-- CMD_AESKEY; `ret` holds `garbage` when no channel is found -/
  | aesKey (payload : List UInt8) (garbage : Int)
  /-- the others, with what their handler returns and the country it leaves -/
  | other (ret : Int) (country : List UInt8)
deriving DecidableEq, Repr

def failWorld (w : World Mem Handler) (f : Fault) : World Mem Handler :=
  { w with client := w.client.fail f }

def handleChannel (w : World Mem Handler) (payload : List UInt8) (error : Bool) :
    World Mem Handler × Int :=
  match channelProcess (callback lib) w payload error with
  | (w, ret, []) => (w, ret)
  | (w, ret, _ :: _) => (failWorld w .packet, ret)

def handleAeskey (w : World Mem Handler) (payload : List UInt8) (garbage : Int) :
    World Mem Handler × Int :=
  match payload with
  | _ :: _ :: a :: b :: buf =>
    match channelById w.table (ntohs a b) with
    | none => (w, garbage)
    | some ch =>
      let (w, ret) := w.enter (callback lib) ch.ptr buf
      match channelUnregister w.table ch.ptr with
      | some t => ({ w with table := t }, ret)
      | none => (failWorld w .packet, ret)
  | _ => (failWorld w .packet, 0)

/-- `handle_packet` on the connection of the client at `p`. -/
def handlePacket (s : Sys) (c : Client) : Packet → Sys × Int
  | .channel payload error =>
    let (w, ret) := handleChannel lib s.world payload error
    ({ s with world := w }, ret)
  | .aesKey payload garbage =>
    let (w, ret) := handleAeskey lib s.world payload garbage
    ({ s with world := w }, ret)
  | .other ret country => (s.setClient { c with session := some country }, ret)

/-! ## `spotify_fsm` -/

/-- How far a login gets. -/
structure Login where
  sessionInit : Bool
  sessionConnect : Bool
  keyExchange : Bool
  auth : Bool
deriving DecidableEq, Repr

/-- CLIENT_STATE_AUTH, and so on down to it. -/
def Login.fromAuth (l : Login) : ClientState := if l.auth then .loginComplete else .errorAuth

def Login.fromKeyExchange (l : Login) : ClientState :=
  if l.keyExchange then l.fromAuth else .errorKeyExchange

def Login.fromConnect (l : Login) : ClientState :=
  if l.sessionConnect then l.fromKeyExchange else .errorConnect

/-- What `main` and `spotify_fsm` meet at one client. -/
structure ClientEnv where
  /-- no activity for SPOTIFYSESSION_TIMEOUT -/
  expired : Bool
  login : Login
  /-- `packet_read`, `none` when it fails -/
  packet : Option Packet
deriving DecidableEq, Repr

def spotifyFsm (s : Sys) (c : Client) (env : ClientEnv) : Sys × Int :=
  match c.state with
  | .allocate =>
    if env.login.sessionInit then
      (s.setClient { c with session := some [], state := env.login.fromConnect }, 0)
    else (s.setClient { c with state := .errorConnect }, 0)
  | .connect => (s.setClient { c with state := env.login.fromConnect }, 0)
  | .keyExchange => (s.setClient { c with state := env.login.fromKeyExchange }, 0)
  | .auth => (s.setClient { c with state := env.login.fromAuth }, 0)
  | .idleConnected =>
    if c.clientHasData then
      let c := { c with clientHasData := false }
      match env.packet with
      | none => (s.setClient { c with state := .errorPacket }, -1)
      | some p =>
        let (s, ret) := handlePacket lib (s.setClient c) c p
        if ret = 0 then (s, 0)
        else
          (s.setMem (s.mem.setClients
            (Keyed.update Client.ptr c.ptr (fun c => { c with state := .errorPacket }) s.clients)),
            ret)
    else (s, 0)
  | .idleDisconnected | .loginComplete | .commandComplete | .errorConnect | .errorKeyExchange
  | .errorAuth | .errorPacket => (s, 0)

/-! ## `rest_fsm` -/

/-- What `rest_fsm` meets at one connection. -/
structure RestEnv where
  /-- what `rest_read_input` gets, `none` when `recv` fails -/
  recv : Option (List UInt8)
  /-- the last write comes through -/
  written : Bool
  /-- `malloc` and `inflateInit2` succeed -/
  alloc : Bool
  /-- `packet_write` succeeds -/
  packet : Bool
  /-- the id for a new client, from the clock and an address -/
  clientId : List UInt8
deriving DecidableEq, Repr

/-- `r->client->…`. -/
def Sys.deref (s : Sys) (r : Rest) (k : Client → Sys × Rest × Int) :
    Sys × Rest × Int :=
  match r.client with
  | none => (s.fail .nullDeref, r, 0)
  | some p =>
    match s.client? p with
    | none => (s.fail .useAfterFree, r, 0)
    | some c => k c

def RestEnv.ret (env : RestEnv) : Int := if env.written then 0 else -1

/-- REST_STATE_LOAD_COMMAND; a C string ends at its first NUL. -/
def restLoadCommand (r : Rest) : Rest :=
  if 10 ∈ r.input then
    let line := r.input.takeWhile (· ≠ 10)
    let line := if line.getLast? = some 13 then line.dropLast else line
    { r with
      input := (r.input.dropWhile (· ≠ 10)).drop 1
      command := line.takeWhile (· ≠ 0)
      state :=
        if r.httpreq.isSome then .processHttpRequest
        else if line = [] then r.state
        else if r.client.isSome then .processClientCommand
        else .processInitCommand }
  else { r with state := .reading }

/-- REST_STATE_READING; the buffer has room for 8192 bytes. -/
def restReading (r : Rest) (env : RestEnv) : Rest × Int :=
  if r.socketHasData then
    let r := { r with socketHasData := false, state := .loadCommand }
    match env.recv with
    | none => (r, -1)
    | some data =>
      if data = [] ∨ 8192 ≤ r.input.length + data.length then (r, -1)
      else (restLoadCommand { r with input := r.input ++ data }, 0)
  else (r, 0)

def newClient (ptr : Nat) (clientId username password : List UInt8) : Client :=
  { ptr := ptr, clientId := clientId, state := .allocate, session := none, clientHasData := false,
    username := username, password := password, output := .dangling, outputLen := 0,
    isHttpClient := false }

def spotifyClientAllocate (s : Sys) (r : Rest) (clientId : List UInt8) : Sys × Rest :=
  match s.clients.find? fun c => c.username = r.username ∧ c.password = r.password with
  | some c => (s, { r with client := some c.ptr })
  | none =>
    let c := newClient s.brk clientId r.username r.password
    ({ s.setMem (s.mem.setClients (s.clients ++ [c])) with brk := s.brk + 1 },
      { r with client := some s.brk, state := .waiting })

/-- REST_STATE_PROCESS_INIT_COMMAND. -/
def restInit (s : Sys) (r : Rest) (env : RestEnv) : Sys × Rest × Int :=
  match initCommand r.command with
  | .quit => (s.send r (ascii "200 0 OK Shutting down\n"), r, -1)
  | .get url =>
    if env.alloc then (s, { r with httpreq := some ⟨url, none, false⟩, state := .loadCommand }, 0)
    else (s, { r with state := .loadCommand }, -1)
  | .login username password =>
    let (s, r) :=
      spotifyClientAllocate s { r with username := username, password := password } env.clientId
    s.deref r fun c =>
      if c.state ≠ .allocate then
        (s.send r (ascii "200 0 OK Found previous session with this username and password\n"),
          { r with state := .loadCommand }, env.ret)
      else (s, r, 0)
  | .session clientId =>
    let r := { r with
      client := ((s.clients.find? fun c => c.clientId = clientId).map Client.ptr).or r.client
      state := .loadCommand }
    let text :=
      if r.client.isSome then ascii "200 0 OK Client with id '" ++ clientId ++ ascii "' found\n"
      else ascii "404 0 WARN Client with id '" ++ clientId ++ ascii "' NOT found\n"
    (s.send r text, r, if env.written then loginRet r.command else -1)
  | .invalid =>
    -- the sscanf of a login has filled in what it could
    let username := match scan loginFormat r.command with
      | (.word username :: _, _) => username
      | _ => r.username
    (s.send r (ascii "501 0 WARN Invalid command '" ++ r.command.take 100 ++ ascii "'\n"),
      { r with username := username, state := .loadCommand },
      if env.written then loginRet r.command else -1)

/-! ### HTTP -/

def decimal (n : Int) : List UInt8 := ascii (toString n)

def contentType : List UInt8 := ascii "Content-Type: text/html; charset=utf-8\r\n"

def connectionClose : List UInt8 := ascii "Connection: close\r\n"

/-- `http_cleanup` after a `send`. -/
def httpSend (s : Sys) (r : Rest) (env : RestEnv) (text : List UInt8) :
    Sys × Rest × Int := (s.send r text, { r with httpreq := none }, env.ret)

def httpReplyNeedAuth (s : Sys) (r : Rest) (env : RestEnv) : Sys × Rest × Int :=
  httpSend s r env (ascii "HTTP/1.1 401\r\n" ++
    ascii "WWW-Authenticate: Basic realm=\"Spotify\"\r\n" ++ contentType ++ connectionClose ++
    ascii "Content-Length: 0\r\n" ++ ascii "\r\n")

def httpReply (s : Sys) (r : Rest) (env : RestEnv) (status : Nat) (response : List UInt8) :
    Sys × Rest × Int :=
  httpSend s r env (ascii "HTTP/1.1 " ++ decimal status ++ ascii "\r\n" ++ contentType ++
    connectionClose ++ ascii "Content-Length: " ++ decimal response.length ++ ascii "\r\n" ++
    ascii "\r\n" ++ response)

def httpCompleteLogin (s : Sys) (r : Rest) (env : RestEnv) : Sys × Rest × Int :=
  s.deref r fun c =>
    if c.state ≠ .idleConnected then httpReplyNeedAuth s r env
    else httpReply s r env 200 (ascii "logged in!\n")

/-- `r->httpreq->callback (r)`. -/
def httpCallback (s : Sys) (r : Rest) (h : HttpRequest) (env : RestEnv) :
    Sys × Rest × Int :=
  if h.callback then httpCompleteLogin s r env else (s.fail .nullDeref, r, 0)

def httpHandleRequest (s : Sys) (r : Rest) (h : HttpRequest) (env : RestEnv) :
    Sys × Rest × Int :=
  let r := { r with state := .loadCommand }
  match s.clients.find? Client.isHttpClient with
  | some _ =>
    httpReply s r env 404 (ascii "You're logged in as '" ++ r.username ++ ascii "' with password '" ++
      r.password ++ ascii "'<br />\n" ++ ascii "The requested URL '" ++ h.url ++
      ascii "' was not found!\n")
  | none =>
    match h.authheader.bind basicCredentials with
    | none => httpReplyNeedAuth s r env
    | some (username, password) =>
      let (s, r) :=
        spotifyClientAllocate s { r with username := username, password := password } env.clientId
      s.deref r fun c =>
        -- spotify_client_mark_for_http
        let s := s.setClient { c with isHttpClient := true }
        if c.state = .idleConnected then httpCompleteLogin s r env
        else (s, { r with httpreq := some { h with callback := true }, state := .waiting }, 0)

def toLower (c : UInt8) : UInt8 := if 65 ≤ c ∧ c ≤ 90 then c + 32 else c

/-- REST_STATE_PROCESS_HTTP_REQUEST. -/
def restHttp (s : Sys) (r : Rest) (env : RestEnv) : Sys × Rest × Int :=
  match r.httpreq with
  | none => (s.fail (.assertion .httpreq), r, 0)
  | some h =>
    if r.command = [] then httpHandleRequest s r h env
    else
      let h :=
        if (r.command.take 21).map toLower = ascii "authorization: basic " then
          { h with authheader := some (r.command.drop 21) }
        else h
      (s, { r with httpreq := some h, state := .loadCommand }, 0)

/-! ### Commands -/

/-- The command of a request on a new channel, `s->output` set: `none` when the
context cannot be made. -/
def Sys.sendCommand (s : Sys) (r : Rest) (c : Client) (req : Request) : Sys :=
  let own := s.world.table.brk
  let s := s.setClient { c with output := .obj own (req.context lib own), outputLen := 0 }
  { s with
    world := { s.world with
      table := (channelRegister s.world.table ⟨some [], ⟨req.kind, c.ptr⟩, true⟩).1 }
    issued := s.issued ++ [⟨r.ptr, own, req⟩] }

/-- `gw_browse` and the like, down to `packet_write`. -/
def gwRequest (s : Sys) (r : Rest) (c : Client) (req : Request) (env : RestEnv) :
    Sys × Rest × Int :=
  let own := s.world.table.brk
  let sent := s.sendCommand lib r c req
  let waiting := { r with state := .waiting, last := some own }
  let failed := { r with state := .freeClient, last := some own }
  match req with
  | .browse .. | .search _ =>
    if env.alloc then if env.packet then (sent, waiting, 0) else (sent, failed, -1)
    else (s, { r with state := .freeClient }, -1)
  | .image _ | .playlist _ => if env.packet then (sent, waiting, 0) else (sent, failed, -1)
  | .key .. =>
    -- cmd_aeskey forces DATA state
    let sent := { sent with world := sent.world.setState own .data }
    if env.packet then (sent, waiting, 0) else (sent, failed, -1)
  | .substream _ offset length _ =>
    if env.alloc then
      if offset % 4096 ≠ 0 then (sent.fail (.assertion .offset), r, 0)
      else if length % 4096 ≠ 0 then (sent.fail (.assertion .length), r, 0)
      else if env.packet then (sent, waiting, 0)
      else
        match channelUnregister sent.world.table own with
        | some t => ({ sent with world := { sent.world with table := t } }, failed, -1)
        | none => (sent.fail .packet, r, 0)
    else (s, { r with state := .freeClient }, -1)

/-- REST_STATE_PROCESS_CLIENT_COMMAND. -/
def restClientCommand (s : Sys) (r : Rest) (env : RestEnv) : Sys × Rest × Int :=
  match clientCommand r.command with
  | .quit => (s.send r (ascii "200 0 OK Shutting down\n"), r, -1)
  | .logout =>
    (s.send r (ascii "200 0 OK Disconnecting client\n"), { r with state := .freeClient }, 0)
  | .id => s.deref r fun c =>
    (s.send r (ascii "200 " ++ decimal c.clientId.length ++
      ascii " OK The session id is shown below\n" ++ c.clientId), { r with state := .loadCommand }, 0)
  | .country => s.deref r fun c =>
    match c.session with
    | none => (s.fail .nullDeref, r, 0)
    | some country =>
      (s.send r (ascii "200 " ++ decimal country.length ++ ascii " OK Assigned country below\n" ++
        country), { r with state := .loadCommand }, 0)
  | .reject reply => (s.send r (ascii reply), { r with state := .loadCommand }, 0)
  | .request req => s.deref r fun c => gwRequest lib s r c req env
  | .unknown =>
    (s.send r (ascii "501 0 WARN Unknown command or bad parameters; '" ++ r.command.take 100 ++
      ascii "'\n"), { r with state := .loadCommand }, env.ret)

/-! ### Waiting -/

/-- A reply in a login state, by the REST protocol or over HTTP. -/
def reply (s : Sys) (r : Rest) (env : RestEnv) (text : String) : Sys × Rest × Int :=
  match r.httpreq with
  | none => (s.send r (ascii text), r, env.ret)
  | some h => httpCallback s r h env

/-- CLIENT_STATE_COMMAND_COMPLETE. -/
def restComplete (s : Sys) (r : Rest) (c : Client) (env : RestEnv) : Sys × Rest × Int :=
  let r := { r with state := .loadCommand }
  let c := { c with state := .idleConnected }
  let freed := { c with output := .dangling }
  match c.output with
  | .null =>
    match r.httpreq with
    | none =>
      ({ (s.setClient c).send r (ascii "500 0 ERROR Command failed to execute\n") with
          answers := s.answers ++ [⟨r.ptr, r.last, none⟩] }, r, env.ret)
    | some h => httpCallback (s.setClient c) r h env
  | .dangling => (s.fail .useAfterFree, r, 0)
  | .obj _ (.buf b) =>
    match r.httpreq with
    | none =>
      let text := ascii "200 " ++ decimal c.outputLen ++ ascii " OK Command completed successfully\n"
      ({ ((s.setClient freed).send r text).send r b with
          answers := s.answers ++ [⟨r.ptr, r.last, some b⟩] }, r,
        -- block_write of nothing returns 0
        if env.written ∧ b ≠ [] then 0 else -1)
    -- buf_free after the callback
    | some h => httpCallback (s.setClient freed) r h env
  | .obj _ (.dctx _) | .obj _ (.sctx _) => (s.fail .typeConfusion, r, 0)

/-- CLIENT_STATE_ERROR_CONNECT and the like. -/
def restLoginError (s : Sys) (r : Rest) (c : Client) (env : RestEnv) (text : String) :
    Sys × Rest × Int :=
  reply (s.setClient { c with state := .idleDisconnected }) { r with state := .freeClient } env text

/-- REST_STATE_WAITING. -/
def restWaiting (s : Sys) (r : Rest) (env : RestEnv) : Sys × Rest × Int :=
  match r.client with
  | none => (s.fail (.assertion .client), r, 0)
  | some _ => s.deref r fun c =>
    match c.state with
    | .commandComplete => restComplete s r c env
    | .loginComplete =>
      reply (s.setClient { c with state := .idleConnected }) { r with state := .loadCommand } env
        "200 0 OK Login successful\n"
    | .idleConnected => (s, r, 0)
    | .errorConnect => restLoginError s r c env "503 0 WARN Client failed to connect\n"
    | .errorKeyExchange =>
      restLoginError s r c env "404 0 WARN Key exchange failed (bad username?)\n"
    | .errorAuth => restLoginError s r c env "403 0 WARN Authentication failed (bad password?)\n"
    | .idleDisconnected | .allocate | .connect | .keyExchange | .auth | .errorPacket =>
      (s.fail (.assertion .waiting), r, 0)

/-- The first client with the address, and the last one moved into its place. -/
def Sys.removeClient (s : Sys) (p : Nat) : Option Sys :=
  if (s.client? p).isSome then
    some (s.setMem (s.mem.setClients
      (Keyed.swapRemove s.clients (s.clients.findIdx fun c => c.ptr = p))))
  else none

/-- REST_STATE_FREE_CLIENT. -/
def restFreeClient (s : Sys) (r : Rest) : Sys × Rest × Int :=
  match r.client.bind s.removeClient with
  | some s => (s, { r with client := none, state := .loadCommand }, 0)
  | none => (s.fail (.assertion .freeClient), r, 0)

def restFsm (s : Sys) (r : Rest) (env : RestEnv) : Sys × Rest × Int :=
  match r.state with
  | .reading =>
    let (r, ret) := restReading r env
    (s, r, ret)
  | .loadCommand => (s, restLoadCommand r, 0)
  | .processInitCommand => restInit s r env
  | .processHttpRequest => restHttp s r env
  | .processClientCommand => restClientCommand lib s r env
  | .waiting => restWaiting s r env
  | .freeClient => restFreeClient s r

/-! ## `main` -/

/-- How `select` returns. -/
inductive Select
  | failed
  | timeout
  /-- a new connection, unless `accept` fails -/
  | accept (ok : Bool)
  /-- the connections and the clients with something to read -/
  | data (rest clients : List Nat)
deriving DecidableEq, Repr

inductive Event
  | rest (env : RestEnv)
  | client (env : ClientEnv)
  | select (outcome : Select)
deriving DecidableEq, Repr

/-- Assignments through the `RESTSESSION *`. -/
def Sys.setRest (s : Sys) (r : Rest) : Sys :=
  { s with rest := Keyed.update Rest.ptr r.ptr (fun _ => r) s.rest }

/-- A round of the first loop; a connection that fails ends the loop. -/
def restTurn (s : Sys) (i : Nat) (env : RestEnv) : Sys :=
  match s.rest[i]? with
  | none => { s with pc := .clients 0 }
  | some r =>
    let (s, r, ret) := restFsm lib s r env
    let s := s.setRest r
    if ret = 0 then { s with pc := .rest (i + 1) }
    else { s with rest := Keyed.swapRemove s.rest i, pc := .clients 0 }

/-- Drop the client from the connections that use it. -/
def Sys.detach (s : Sys) (p : Nat) : Sys :=
  { s with rest := s.rest.map fun r =>
      if r.client = some p then { r with client := none, state := .loadCommand } else r }

/-- A round of the second loop; the client moved into the place of one that is
dropped is passed over. -/
def clientTurn (s : Sys) (i : Nat) (env : ClientEnv) : Sys :=
  match s.clients[i]? with
  | none => { s with pc := .select }
  | some c =>
    let (s, ret) := if env.expired then (s, -1) else spotifyFsm lib s c env
    if ret = 0 then { s with pc := .clients (i + 1) }
    else
      let s := { s.detach c.ptr with pc := .clients (i + 1) }
      match (s.client? c.ptr).bind Client.session with
      -- session_free (NULL)
      | none => s.fail .nullDeref
      | some _ => s.setMem (s.mem.setClients (Keyed.swapRemove s.clients i))

def newRest (ptr : Nat) : Rest :=
  { ptr := ptr, state := .reading, socketHasData := false, input := [], command := [],
    username := [], password := [], httpreq := none, client := none, last := none }

def selectTurn (s : Sys) (outcome : Select) : Sys :=
  -- FD_SET (client[i]->session->ap_sock, …)
  if s.clients.any fun c => c.session = none then s.fail .nullDeref
  else
    match outcome with
    | .failed => { s.setMem (s.mem.setClients []) with pc := .stopped, rest := [] }
    | .timeout | .accept false => { s with pc := .rest 0 }
    | .accept true =>
      { s with pc := .rest 0, rest := s.rest ++ [newRest s.brk], brk := s.brk + 1 }
    | .data rest clients =>
      { s.setMem (s.mem.setClients (s.clients.map fun c =>
          if c.ptr ∈ clients then { c with clientHasData := true } else c)) with
        pc := .rest 0
        rest := s.rest.map fun r =>
          if r.ptr ∈ rest then { r with socketHasData := true } else r }

def step (s : Sys) (e : Event) : Option Sys :=
  match s.mem.fault with
  | some _ => none
  | none =>
    match s.pc, e with
    | .rest i, .rest env => some (restTurn lib s i env)
    | .clients i, .client env => some (clientTurn lib s i env)
    | .select, .select outcome => some (selectTurn s outcome)
    | _, _ => none

end

end Despotify.Gateway

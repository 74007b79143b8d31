import Mathlib.Data.List.Basic
import Mathlib.Algebra.Group.Nat.Defs

/-!
# The command lines of the gateway

A REST client sends lines; `rest_fsm` takes them apart with `strcmp`, `strncmp`
and `sscanf`.  `sscanf` is an interpreter of the few directives the gateway
uses; `initCommand` and `clientCommand` are the two chains of tests, in the order
of `clients/gateway/gw-core.c`.

`substream_accepts`: what the checks of a `substream` command come to.
-/

namespace Despotify.Gateway

/-- A C string literal. -/
def ascii (s : String) : List UInt8 := s.toUTF8.data.toList

/-! ## `sscanf` -/

def isspace (c : UInt8) : Bool := c = 32 || (9 ≤ c && c ≤ 13)

def isdigit (c : UInt8) : Bool := 48 ≤ c && c ≤ 57

inductive Directive
  | literal (c : UInt8)
  /-- white space in the format -/
  | space
  /-- `%<width>s` -/
  | word (width : Nat)
  /-- `%u` -/
  | unsigned
deriving DecidableEq, Repr

inductive Value
  | word (w : List UInt8)
  | unsigned (n : UInt32)
deriving DecidableEq, Repr

/-- `strtoul` into an `unsigned int`: 64 bits, saturating, then the low 32. -/
def strtoul (negative : Bool) (digits : List UInt8) : UInt32 :=
  let n := digits.foldl (fun n d => 10 * n + (d.toNat - 48)) 0
  if 2 ^ 64 ≤ n then UInt32.ofNat (2 ^ 64 - 1)
  else if negative then UInt32.ofNat (2 ^ 64 - n)
  else UInt32.ofNat n

/-- A sign and digits, and what follows them. -/
def scanUnsigned (input : List UInt8) : Option (UInt32 × List UInt8) :=
  let negative := input.head? = some 45
  let unsigned := if negative ∨ input.head? = some 43 then input.drop 1 else input
  match unsigned.takeWhile isdigit with
  | [] => none
  | digits => some (strtoul negative digits, unsigned.dropWhile isdigit)

/-- The values converted, and whether the input ended where one was missing. -/
def scan : List Directive → List UInt8 → List Value × Bool
  | [], _ => ([], false)
  | .literal _ :: _, [] => ([], true)
  | .literal c :: format, b :: input => if b = c then scan format input else ([], false)
  | .space :: format, input => scan format (input.dropWhile isspace)
  | .word width :: format, input =>
    match ((input.dropWhile isspace).take width).takeWhile (!isspace ·) with
    | [] => ([], true)
    | w =>
      let (values, ended) := scan format ((input.dropWhile isspace).drop w.length)
      (.word w :: values, ended)
  | .unsigned :: format, input =>
    match scanUnsigned (input.dropWhile isspace) with
    | none => ([], (input.dropWhile isspace).isEmpty)
    | some (n, rest) =>
      let (values, ended) := scan format rest
      (.unsigned n :: values, ended)

/-- The value `sscanf` returns. -/
def scanCount : List Value × Bool → Int
  | ([], true) => -1
  | (values, _) => values.length

def literals (s : String) : List Directive := (ascii s).map .literal

/-- `"GET %255s HTTP/1."` -/
def getFormat : List Directive := literals "GET" ++ [.space, .word 255, .space] ++ literals "HTTP/1."

/-- `"login %255s %255s"` -/
def loginFormat : List Directive := literals "login" ++ [.space, .word 255, .space, .word 255]

/-- `"session %40s"` -/
def sessionFormat : List Directive := literals "session" ++ [.space, .word 40]

/-- `"key %40s %32s"` -/
def keyFormat : List Directive := literals "key" ++ [.space, .word 40, .space, .word 32]

/-- `"substream %40s %u %u %32s"` -/
def substreamFormat : List Directive :=
  literals "substream" ++
    [.space, .word 40, .space, .unsigned, .space, .unsigned, .space, .word 32]

/-! ## Commands without a client -/

inductive InitCommand
  | quit
  | get (url : List UInt8)
  | login (username password : List UInt8)
  | session (clientId : List UInt8)
  | invalid
deriving DecidableEq, Repr

/-- What `sscanf` of `login` leaves in `ret` for the tests behind it. -/
def loginRet (command : List UInt8) : Int := scanCount (scan loginFormat command)

/-- REST_STATE_PROCESS_INIT_COMMAND. -/
def initCommand (command : List UInt8) : InitCommand :=
  if command = ascii "quit" then .quit
  else match scan getFormat command with
  | (.word url :: _, _) => .get url
  | _ => match scan loginFormat command with
    | ([.word username, .word password], _) => .login username password
    | _ => match scan sessionFormat command with
      | ([.word clientId], _) => .session clientId
      | _ => .invalid

/-! ## Commands for a client -/

/-- A command that goes to the Spotify server; ids and keys in hex. -/
inductive Request
  | browse (kind : UInt8) (ids : List UInt8) (num : Nat)
  | image (imageId : List UInt8)
  | search (text : List UInt8)
  | key (fileId trackId : List UInt8)
  | substream (fileId : List UInt8) (offset length : UInt32) (key : List UInt8)
  | playlist (playlistId : List UInt8)
deriving DecidableEq, Repr

inductive ClientCommand
  | quit
  | logout
  | id
  | country
  /-- bad arguments, with the reply -/
  | reject (reply : String)
  | request (req : Request)
  | unknown
deriving DecidableEq, Repr

/-- `strncmp (command, s, strlen (s)) == 0`. -/
def startsWith (s : String) (command : List UInt8) : Bool := (ascii s).isPrefixOf command

/-- A command with one id of `len` hex characters. -/
def idCommand (name : String) (len : Nat) (reply : String) (req : List UInt8 → Request)
    (command : List UInt8) : ClientCommand :=
  if command.length ≠ (ascii name).length + len then .reject reply
  else .request (req (command.drop (ascii name).length))

def browsetrack (command : List UInt8) : ClientCommand :=
  let ids := command.drop 12
  if ids.length % 32 ≠ 0 ∨ ids.length / 32 > 128 ∨ ids.length < 32 then
    .reject "501 0 WARN Track ID must be provided in hex as 32[,64,96,128,..] characters\n"
  else .request (.browse 3 ids (ids.length / 32))

def keyCommand (fileId trackId : List UInt8) : ClientCommand :=
  if fileId.length ≠ 40 ∨ trackId.length ≠ 32 then
    .reject "501 0 WARN File ID must be provided in hex as 40 character and track ID must be provided in hex as 32 characters\n"
  else .request (.key fileId trackId)

def substreamCommand (fileId : List UInt8) (offset length : UInt32) (key : List UInt8) :
    ClientCommand :=
  if fileId.length ≠ 40 ∨ offset % 1024 ≠ 0 ∨ key.length ≠ 32 then
    .reject "501 0 WARN File IDs must be provided in hex as 40 characters, offset must be in 1024 byte chunks and key must be provided in hex as 32 characters.\n"
  else .request (.substream fileId offset length key)

/-- REST_STATE_PROCESS_CLIENT_COMMAND. -/
def clientCommand (command : List UInt8) : ClientCommand :=
  if command = ascii "quit" then .quit
  else if command = ascii "logout" then .logout
  else if command = ascii "id" then .id
  else if command = ascii "country" then .country
  else if startsWith "browseartist " command then
    idCommand "browseartist " 32
      "501 0 WARN Artist ID must be provided in hex as 32 characters\n" (.browse 1 · 1) command
  else if startsWith "browsealbum " command then
    idCommand "browsealbum " 32
      "501 0 WARN Album ID must be provided in hex as 32 characters\n" (.browse 2 · 1) command
  else if startsWith "browsetrack " command then browsetrack command
  else if startsWith "image " command then
    idCommand "image " 40
      "501 0 WARN Image ID must be provided in hex as 40 characters\n" .image command
  else if startsWith "search " command then .request (.search (command.drop 7))
  else match scan keyFormat command with
  | ([.word fileId, .word trackId], _) => keyCommand fileId trackId
  | _ => match scan substreamFormat command with
    | ([.word fileId, .unsigned offset, .unsigned length, .word key], _) =>
      substreamCommand fileId offset length key
    | _ =>
      if startsWith "playlist " command then
        idCommand "playlist " 34
          "501 0 WARN Playlist IDs must be in hex and need to be 34 characters long\n" .playlist
          command
      else .unknown

/-- The parser asks for whole kilobytes, and of the offset only. -/
theorem substream_accepts {fileId key fileId' key' : List UInt8} {offset length offset' length' : UInt32}
    (h : substreamCommand fileId offset length key =
      .request (.substream fileId' offset' length' key')) :
    offset' = offset ∧ length' = length ∧ offset % 1024 = 0 := by
  unfold substreamCommand at h
  split at h
  · cases h
  · rename_i hok
    cases h
    rw [not_or, not_or] at hok
    exact ⟨rfl, rfl, not_not.mp hok.2.1⟩

/-! ## HTTP credentials -/

/-- `b64idx`. -/
def b64idx (c : UInt8) : Nat :=
  let table := ascii "ABCDEFGHIJKLMNOPQRSTUVWXYZabcdefghijklmnopqrstuvwxyz0123456789+/"
  if table.idxOf c = table.length then 0 else table.idxOf c

/-- The loop of `b64decode`. -/
def b64groups : List UInt8 → List UInt8
  | a :: b :: c :: d :: input =>
    let q := ((b64idx a * 64 + b64idx b) * 64 + b64idx c) * 64 + b64idx d
    [UInt8.ofNat (q / 65536), UInt8.ofNat (q / 256), UInt8.ofNat q] ++ b64groups input
  | _ => []

def b64decode (input : List UInt8) : List UInt8 :=
  if input.length % 4 ≠ 0 then [] else b64groups input

/-- `username:password` in base64. -/
def basicCredentials (authheader : List UInt8) : Option (List UInt8 × List UInt8) :=
  if 100 < authheader.length then none
  else
    let buf := (b64decode authheader).takeWhile (· ≠ 0)
    if 58 ∈ buf then some (buf.takeWhile (· ≠ 58), (buf.dropWhile (· ≠ 58)).drop 1) else none

end Despotify.Gateway

import Despotify.Channel.Table
import Despotify.Gateway.Command
import Despotify.Player.Model

/-!
# The output of a command

`s->output` is one untyped pointer: a decompression context for `search` and the
`browse` commands, a decryption context for `substream`, a `struct buf` for the
others, and in the end the `struct buf` the client gets.  Each command has a
callback that casts the pointer to its own type.

`access` says what a callback entered on a channel makes of the pointer.  The
contexts carry, as a ghost, the channel of the command they were made for.
-/

namespace Despotify.Gateway

open Channels

/-! ## Contexts -/

/-- `DECOMPRESSCTX`. -/
structure DecompressCtx where
  b : List UInt8
  /-- the chunks `inflate` was given, `none` after `inflateEnd` -/
  z : Option (List (List UInt8))
  decompressionDone : Bool
deriving DecidableEq, Repr

/-- `STREAMCTX`, with the key in place of its schedule. -/
structure StreamCtx where
  data : List UInt8
  key : List UInt8
  IV : List UInt8
deriving DecidableEq, Repr

inductive Object
  | dctx (dctx : DecompressCtx)
  | sctx (sctx : StreamCtx)
  | buf (b : List UInt8)
deriving DecidableEq, Repr

/-- `s->output`. -/
inductive Output
  | null
  /-- not initialised, or freed -/
  | dangling
  | obj (own : Nat) (o : Object)
deriving DecidableEq, Repr

/-- The callback of a channel. -/
inductive Kind
  | search
  | browse
  | image
  | playlist
  | key
  | stream
deriving DecidableEq, Repr

/-- The callback, and the `SPOTIFYSESSION` it has for `private`. -/
structure Handler where
  kind : Kind
  client : Nat
deriving DecidableEq, Repr

/-- zlib, AES, and what memory holds that nobody has written: `uninit p n i` is
byte `i` of what the code uses for the channel `p` after `n` bytes of data. -/
structure Lib where
  /-- `dctx->b` after the loop around `inflate`, and the value of its last call,
  for the chunks of a stream so far -/
  inflate : List (List UInt8) → List UInt8 × Int
  /-- `rijndaelEncrypt`: the key, the block, the byte wanted -/
  encrypt : List UInt8 → List UInt8 → Nat → UInt8
  uninit : Nat → UInt32 → Nat → UInt8

/-! ## Hexadecimal -/

def hexValue (c : UInt8) : Option UInt8 :=
  if 48 ≤ c ∧ c ≤ 57 then some (c - 48)
  else if 97 ≤ c ∧ c ≤ 102 then some (c - 87)
  else if 65 ≤ c ∧ c ≤ 70 then some (c - 55)
  else none

/-- `sscanf` of two characters with `%02x`. -/
def scanHex (a b : UInt8) : Option UInt8 :=
  match hexValue a, hexValue b with
  | some x, some y => some (16 * x + y)
  | some x, none => some x
  | none, some y => if a = 43 then some y else if a = 45 then some (0 - y) else none
  | none, none => none

/-- The loop of `hex_ascii_to_bytes`: it returns at the first failure. -/
def hexAsciiToBytes : List UInt8 → List UInt8
  | a :: b :: ascii =>
    match scanHex a b with
    | some value => value :: hexAsciiToBytes ascii
    | none => []
  | _ => []

def hexDigit (n : UInt8) : UInt8 := if n < 10 then n + 48 else n + 87

/-- `%02x` of each byte. -/
def hexBytesToAscii (bytes : List UInt8) : List UInt8 :=
  bytes.flatMap fun b => [hexDigit (b / 16), hexDigit (b % 16)]

section
variable (lib : Lib)

/-- An array of `len` bytes on the stack, filled from the front. -/
def fill (len : Nat) (bytes : List UInt8) (junk : Nat → UInt8) : List UInt8 :=
  (List.range len).map fun i => (bytes[i]?).getD (junk i)

/-! ## What a command starts with -/

/-- The gateway's loop that moves the IV to the offset of the request. -/
def startIV (offset : UInt32) : List UInt8 :=
  Nat.repeat Player.incIV (if offset.toNat < 2 ^ 31 then offset.toNat / 16 else 0) Player.IV0

/-- What `gw_file_key` writes before the key is there. -/
def fileKeyHead (fileId trackId : List UInt8) : List UInt8 :=
  ascii "<?xml version=\"1.0\" encoding=\"utf-8\" ?>\n<filekey>\n" ++ ascii "<file>" ++
    hexBytesToAscii fileId ++ ascii "</file>\n" ++ ascii "<track>" ++ hexBytesToAscii trackId ++
    ascii "</track>\n"

/-- `s->output` when the command of a request goes out on the channel `own`. -/
def Request.context (own : Nat) : Request → Object
  | .browse .. | .search _ => .dctx ⟨[], some [], false⟩
  | .image _ => .buf []
  | .playlist _ =>
    .buf (ascii "<?xml version=\"1.0\" encoding=\"utf-8\" ?>\n<playlist>\n")
  | .key fileId trackId =>
    .buf (fileKeyHead (fill 20 (hexAsciiToBytes fileId) (lib.uninit own 0))
      (fill 16 (hexAsciiToBytes trackId) (lib.uninit own 1)))
  | .substream _ offset _ aesKey =>
    .sctx ⟨[], fill 16 (hexAsciiToBytes aesKey) (lib.uninit own 0), startIV offset⟩

def Request.kind : Request → Kind
  | .browse .. => .browse
  | .image _ => .image
  | .search _ => .search
  | .key .. => .key
  | .substream .. => .stream
  | .playlist _ => .playlist

/-! ## The callbacks -/

/-- What becomes of the context and of the client. -/
structure Reaction where
  /-- `none` when it is freed and the pointer set to NULL -/
  output : Option Object
  /-- an assignment to `s->output_len` -/
  outputLen : Option Int
  /-- `s->state = CLIENT_STATE_COMMAND_COMPLETE` -/
  complete : Bool
  ret : Int
deriving DecidableEq, Repr

/-- What a callback does with the pointer; the function is `none` on an object
of another type. -/
inductive Access
  | skip
  /-- COMMAND_COMPLETE, the pointer not followed -/
  | complete
  | context (f : Object → Option Reaction)

def Access.onDctx (f : DecompressCtx → Reaction) : Access :=
  .context fun
    | .dctx dctx => some (f dctx)
    | .sctx _ | .buf _ => none

def Access.onSctx (f : StreamCtx → Reaction) : Access :=
  .context fun
    | .sctx sctx => some (f sctx)
    | .dctx _ | .buf _ => none

def Access.onBuf (f : List UInt8 → Reaction) : Access :=
  .context fun
    | .buf b => some (f b)
    | .dctx _ | .sctx _ => none

/-- ERROR, in all callbacks but that of `key`. -/
def Reaction.failed : Reaction := ⟨none, some (-1), true, 0⟩

/-- The buffer is complete. -/
def Reaction.finished (b : List UInt8) : Reaction := ⟨some (.buf b), some b.length, true, 0⟩

/-- The data that is not part of the minimal gzip header. -/
def skipHeader (totalDataLen : UInt32) (buf : List UInt8) : List UInt8 :=
  if totalDataLen < 10 then buf.drop (10 - totalDataLen.toNat) else buf

/-- `inflate` while it fills its output, on the next chunk: Z_STREAM_ERROR (-2)
after `inflateEnd`. -/
def DecompressCtx.inflate (dctx : DecompressCtx) (data : List UInt8) : DecompressCtx × Int :=
  match dctx.z with
  | some chunks =>
    let (b, e) := lib.inflate (chunks ++ [data])
    ({ dctx with b := b, z := some (chunks ++ [data]) }, e)
  | none => (dctx, -2)

def gwSearchResultDecompress (dctx : DecompressCtx) (data : List UInt8) : DecompressCtx × Int :=
  let (dctx, e) := dctx.inflate lib data
  if e = 0 then (dctx, 0) else ({ dctx with z := none }, 1 - e)

def gwBrowseResultDecompress (dctx : DecompressCtx) (data : List UInt8) : DecompressCtx × Int :=
  if dctx.decompressionDone then (dctx, 0)
  else
    let (dctx, e) := dctx.inflate lib data
    if e = 0 then (dctx, 0) else ({ dctx with z := none, decompressionDone := e = 1 }, 1 - e)

/-- The callbacks of `search` and `browse`. -/
def compressedCallback (decompress : DecompressCtx → List UInt8 → DecompressCtx × Int)
    (ch : Channel Handler) (buf : List UInt8) : Access :=
  match ch.state with
  | .header => .skip
  | .error => .onDctx fun _ => .failed
  | .ended => .onDctx fun dctx => .finished dctx.b
  | .data =>
    let data := skipHeader ch.totalDataLen buf
    if ch.totalDataLen < 10 ∧ data = [] then .skip
    else .onDctx fun dctx =>
      let (dctx, ret) := decompress dctx data
      ⟨some (.dctx dctx), none, false, ret⟩

def gwSearchResultCallback : Channel Handler → List UInt8 → Access :=
  compressedCallback (gwSearchResultDecompress lib)

def gwBrowseResultCallback : Channel Handler → List UInt8 → Access :=
  compressedCallback (gwBrowseResultDecompress lib)

/-- The callbacks of `image` and `playlist`. -/
def bufCallback (closing : List UInt8) (ch : Channel Handler) (data : List UInt8) : Access :=
  match ch.state with
  | .header => .skip
  | .error => .onBuf fun _ => .failed
  | .ended => .onBuf fun b => .finished (b ++ closing)
  | .data => .onBuf fun b => ⟨some (.buf (b ++ data)), none, false, 0⟩

def gwImageResultCallback : Channel Handler → List UInt8 → Access := bufCallback []

def gwGetplaylistResultCallback : Channel Handler → List UInt8 → Access :=
  bufCallback (ascii "\n</playlist>")

/-- `hexkey` after the loop; a NUL follows the last digits written. -/
def hexkey (ch : Channel Handler) (buf : List UInt8) : List UInt8 :=
  fill 32 (if buf = [] then [] else hexBytesToAscii (buf.take 16) ++ [0]) fun i =>
    lib.uninit ch.ptr ch.totalDataLen (20 + i)

/-- Each call, whatever its state, completes the command. -/
def gwFileKeyCallback (ch : Channel Handler) (buf : List UInt8) : Access :=
  match ch.state with
  | .data => .onBuf fun b =>
    .finished (b ++ ascii "<key>" ++ hexkey lib ch buf ++ ascii "</key>\n" ++ ascii "</filekey>\n")
  | .error => .onBuf fun _ => .failed
  | .ended | .header => .complete

/-- `n` units of 16 bytes. -/
def decryptUnits (key : List UInt8) : Nat → List UInt8 → List UInt8 → List UInt8 × List UInt8
  | 0, iv, _ => ([], iv)
  | n + 1, iv, buf =>
    let plain := (buf.take 16).mapIdx fun j b => b ^^^ lib.encrypt key iv j
    let (rest, iv) := decryptUnits key n (Player.incIV iv) (buf.drop 16)
    (plain ++ rest, iv)

/-- `n` blocks of 1024 bytes. -/
def decryptBlocks (key : List UInt8) : Nat → List UInt8 → List UInt8 → List UInt8 × List UInt8
  | 0, iv, _ => ([], iv)
  | n + 1, iv, buf =>
    let (block, iv) := decryptUnits lib key 64 iv (Player.deinterleave (buf.take 1024))
    let (rest, iv) := decryptBlocks key n iv (buf.drop 1024)
    (block ++ rest, iv)

/-- DATA: the bytes behind the last whole block are those of the fresh memory. -/
def StreamCtx.decrypt (sctx : StreamCtx) (ch : Channel Handler) (buf : List UInt8) : StreamCtx :=
  let (plain, iv) := decryptBlocks lib sctx.key (buf.length / 1024) sctx.IV buf
  let plaintext := fill buf.length plain (lib.uninit ch.ptr ch.totalDataLen)
  { sctx with data := sctx.data ++ plaintext, IV := iv }

/-- The context is followed in every state: `b = sctx->data`. -/
def gwFileStreamCallback (ch : Channel Handler) (buf : List UInt8) : Access :=
  .onSctx fun sctx =>
    match ch.state with
    | .data => ⟨some (.sctx (sctx.decrypt lib ch buf)), none, false, 0⟩
    | .error => .failed
    | .ended => .finished sctx.data
    | .header => ⟨some (.sctx sctx), none, false, 0⟩

def access (ch : Channel Handler) (buf : List UInt8) : Access :=
  match ch.callback.kind with
  | .search => gwSearchResultCallback lib ch buf
  | .browse => gwBrowseResultCallback lib ch buf
  | .image => gwImageResultCallback ch buf
  | .playlist => gwGetplaylistResultCallback ch buf
  | .key => gwFileKeyCallback lib ch buf
  | .stream => gwFileStreamCallback lib ch buf

end

end Despotify.Gateway

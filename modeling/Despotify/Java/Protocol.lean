import Despotify.Pool.Proc
import Despotify.Pool.Source
import Despotify.Wire.ShannonJava

/-!
# Java: what `Protocol` receives

`receiveInitialPacket` and `receivePacket` over a socket that delivers its bytes in
any portions and then ends (`Source`).  `receive` reads until its buffer is full
or the stream ends, and returns the number of bytes; whether anybody looks at that
number is up to the caller.

Logging is left out.
-/

namespace Despotify.Java

/-! ## Buffers -/

/-- The array with what came put at `off`. -/
def put {size : Nat} (bytes : Vector Int8 size) (off : Nat) (got : List Int8) :
    Vector Int8 size :=
  Vector.ofFn fun i => if off ≤ i ∧ i < off + got.length then got.getD (i - off) 0 else bytes[i]

/-- `b & 0xFF`. -/
def unsigned (b : Int8) : Nat := b.toUInt8.toNat

/-- `ByteBuffer.getShort()`. -/
def getShort (b0 b1 : Int8) : Int := b0.toInt * 256 + unsigned b1

/-- `ByteBuffer.getInt()`. -/
def getInt (b0 b1 b2 b3 : Int8) : Int :=
  ((b0.toInt * 256 + unsigned b1) * 256 + unsigned b2) * 256 + unsigned b3

/-- `IntegerUtilities.toBytes`. -/
def toBytesInt (i : Int32) : List Int8 :=
  [(i >>> 24).toInt8, (i >>> 16).toInt8, (i >>> 8).toInt8, i.toInt8]

/-! ## Packet types -/

inductive PacketType
  | secrectBlock | ping | getSubStream | channelData | channelerR | channelAbort | requestKey
  | aesKey | cacheHash | shaCache | image | tokenNotify | countryCode | p2pSetup | p2pInitBlock
  | browse | search | trackAddedToPlaylist | getPlaylist | changePlaylist | notify | log | pong
  | pongAck | pause | requestAd | requestPlay | productInformation | welcome
  deriving DecidableEq, Repr

namespace PacketType

def intValue : PacketType → Nat
  | secrectBlock => 0x02
  | ping => 0x04
  | getSubStream => 0x08
  | channelData => 0x09
  | channelerR => 0x0a
  | channelAbort => 0x0b
  | requestKey => 0x0c
  | aesKey => 0x0d
  | cacheHash => 0x0f
  | shaCache => 0x10
  | image => 0x19
  | tokenNotify => 0x4f
  | countryCode => 0x1b
  | p2pSetup => 0x20
  | p2pInitBlock => 0x21
  | browse => 0x30
  | search => 0x31
  | trackAddedToPlaylist => 0x34
  | getPlaylist => 0x35
  | changePlaylist => 0x36
  | notify => 0x42
  | log => 0x48
  | pong => 0x49
  | pongAck => 0x4a
  | pause => 0x4b
  | requestAd => 0x4e
  | requestPlay => 0x4f
  | productInformation => 0x50
  | welcome => 0x69

/-- In the order of the comparisons. -/
def values : List PacketType :=
  [secrectBlock, ping, getSubStream, channelData, channelerR, channelAbort, requestKey, aesKey,
    cacheHash, shaCache, image, tokenNotify, countryCode, p2pSetup, p2pInitBlock, browse, search,
    trackAddedToPlaylist, getPlaylist, changePlaylist, notify, log, pong, pongAck, pause,
    requestAd, requestPlay, productInformation, welcome]

/-- The first of the values; a byte that is none of them is `null`. -/
def valueOf (intValue : Nat) : Option PacketType :=
  values.find? fun packetType => packetType.intValue == intValue

end PacketType

/-! ## The session and the connection -/

/-- What the two methods use of `Session`. -/
structure Session where
  serverRandom : Vector Int8 16
  serverBlob : Vector Int8 256
  salt : Vector Int8 10
  username : List Int8
  /-- the bytes of `dhServerPublicKey` -/
  dhServerPublicKey : List Int8
  initialServerPacket : Option (List Int8)
  puzzleDenominator : Int
  puzzleMagic : Int
  shannonRecv : Shannon
  keyRecvIv : Int32

/-- An array of the session. -/
structure Session.Field (size : Nat) where
  get : Session → Vector Int8 size
  set : Vector Int8 size → Session → Session
  keyRecvIv_set : ∀ bytes session, (set bytes session).keyRecvIv = session.keyRecvIv
  get_set : ∀ bytes session, get (set bytes session) = bytes

namespace Session

def randomField : Field 16 where
  get session := session.serverRandom
  set bytes session := { session with serverRandom := bytes }
  keyRecvIv_set _ _ := rfl
  get_set _ _ := rfl

def blobField : Field 256 where
  get session := session.serverBlob
  set bytes session := { session with serverBlob := bytes }
  keyRecvIv_set _ _ := rfl
  get_set _ _ := rfl

def saltField : Field 10 where
  get session := session.salt
  set bytes session := { session with salt := bytes }
  keyRecvIv_set _ _ := rfl
  get_set _ _ := rfl

end Session

/-- What the methods throw. -/
inductive ReceiveException
  | recievedInvalidHeaderException (message : String)
  | despotifyException (message : String)
  /-- the message, the bytes of the server's text in it, and the number at its end -/
  | authenticationException (message : String) (text : List Int8) (ret : Nat)
  | bufferUnderflowException
  | bufferOverflowException
  | indexOutOfBoundsException
  /-- whatever a listener throws -/
  | ofListener
  deriving DecidableEq, Repr

/-- A listener returns or throws. -/
abbrev CommandListener := Option PacketType → List Int8 → Bool

/-- A connection, and the calls of `commandReceived` it has made. -/
structure Protocol where
  session : Session
  channel : Source String Int8
  listeners : List CommandListener
  commands : List (Option PacketType × List Int8)

abbrev Recv := Proc Protocol ReceiveException

def session : Recv Session := do
  return (← Proc.get).session

def setSession (f : Session → Session) : Recv Unit :=
  Proc.modify fun s => { s with session := f s.session }

/-! ## Reading -/

/-- `this.channel.read(buffer)` until `n` bytes have come, with `room` in the buffer. -/
def fill (n room : Nat) : Recv (List Int8 × Option String) := fun s =>
  let (got, failure, channel) := s.channel.fill n room
  some (.ok (got, failure), { s with channel := channel })

/-- `catch(IOException e)`. -/
def catchIOException (what : String) : Option String → Recv Unit
  | some message => Proc.throw (.despotifyException (what ++ message))
  | none => pure ()

/-- `ByteBuffer.wrap(bytes, off, len)` takes the arguments. -/
def Fit (size : Nat) (off len : Int) : Prop := 0 ≤ off ∧ off ≤ size ∧ 0 ≤ len ∧ len ≤ size - off

instance (size : Nat) (off len : Int) : Decidable (Fit size off len) :=
  inferInstanceAs (Decidable (_ ∧ _))

/-- The reading of `receive(bytes, off, len, ..)`. -/
def received (size : Nat) (off len : Int) : Recv (List Int8 × Option String) :=
  if Fit size off len then fill len.toNat len.toNat
  else Proc.throw .indexOutOfBoundsException

/-- `receive(bytes, off, len, ..)`: the number of bytes, and the array. -/
def receive {size : Nat} (bytes : Vector Int8 size) (off len : Int) :
    Recv (Nat × Vector Int8 size) := do
  let got ← received size off len
  catchIOException "Error reading data from socket: " got.2
  return (got.1.length, put bytes off.toNat got.1)

/-- The same into an array of the session. -/
def receiveField {size : Nat} (field : Session.Field size) (off len : Int) : Recv Nat := do
  let got ← received size off len
  setSession fun session => field.set (put (field.get session) off.toNat got.1) session
  catchIOException "Error reading data from socket: " got.2
  return got.1.length

/-- `receive(..)` of a single byte: the number that `read` returns is ignored. -/
def receiveByte : Recv Nat := do
  let got ← fill 1 1
  catchIOException "Error reading data from socket: " got.2
  match got.1 with
  | [] => Proc.throw .bufferUnderflowException
  | b :: _ => return unsigned b

/-- The check of the number of bytes that most callers make. -/
def failedToRead (what : String) (ret : Nat) : ReceiveException :=
  .despotifyException ("Failed to read " ++ what ++ ". (" ++ toString ret ++ ")")

/-- `receive(buffer, len, ..)` and its check. -/
def receiveAll {size : Nat} (bytes : Vector Int8 size) (len : Nat) (what : String) :
    Recv (Vector Int8 size) := do
  let received ← receive bytes 0 len
  if received.1 = len then return received.2
  else Proc.throw (failedToRead what received.1)

/-- The same into an array of the session. -/
def receiveAllField {size : Nat} (field : Session.Field size) (off len : Nat) (what : String) :
    Recv Unit := do
  let ret ← receiveField field off len
  if ret = len then return ()
  else Proc.throw (failedToRead what ret)

/-- `serverPacketBuffer.put(..)`: there is room for 1024 bytes. -/
def putPacket (packet bytes : List Int8) : Recv (List Int8) :=
  if packet.length + bytes.length ≤ 1024 then return packet ++ bytes
  else Proc.throw .bufferOverflowException

/-! ## The initial packet -/

/-- The substatuses of a status message: no case ends with a `break`. -/
def statusText (status : Int8) : String :=
  let message :=
    (if status = 1 then "Client upgrade required: " else "") ++
    (if status ∈ [1, 3] then "Non-existant user." else "") ++
    (if status ∈ [1, 3, 4] then "Account has been disabled." else "") ++
    (if status ∈ [1, 3, 4, 6] then "You need to complete your account details." else "") ++
    (if status ∈ [1, 3, 4, 6, 9] then
      "Your current country doesn\x27t match that set in your profile." else "")
  if message = "" then "Unknown error." else message

/-- A status message instead of a server random. -/
def statusMessage (buffer : Vector Int8 512) (ret : Nat) : Recv Unit := do
  let session ← session
  let status := session.serverRandom[1]
  let message := statusText status
  -- read the upgrade URL
  if status = 1 then
    let received ← receive buffer 0 0x11a
    if 0 < received.1 then
      let text ← receive received.2 0 (unsigned received.2[0x119])
      if 0 < text.1 then
        Proc.throw (.authenticationException message (text.2.toList.take text.1) text.1)
      else Proc.throw (.authenticationException message [] text.1)
    else Proc.throw (.authenticationException message [] received.1)
  else Proc.throw (.authenticationException message [] ret)

theorem zero_lt_sixteen : 0 < 16 := by decide

/-- The server random: what is in the packet buffer afterwards. -/
def receiveServerRandom (buffer : Vector Int8 512) : Recv (List Int8) := do
  let ret ← receiveField Session.randomField 0 2
  let random ← session
  if getElem random.serverRandom 0 zero_lt_sixteen ≠ 0 ∨ ret ≠ 2 then
    statusMessage buffer ret
    return []
  else
    receiveAllField Session.randomField 2 14 "server random"
    let random ← session
    putPacket [] random.serverRandom.toList

/-- The public key, the blob and the salt. -/
def receiveKeys (buffer : Vector Int8 512) (packet : List Int8) :
    Recv (Vector Int8 512 × List Int8) := do
  let buffer ← receiveAll buffer 96 "server public key"
  let packet ← putPacket packet (buffer.toList.take 96)
  setSession fun session => { session with dhServerPublicKey := buffer.toList.take 96 }
  receiveAllField Session.blobField 0 256 "server blob"
  let blob ← session
  let packet ← putPacket packet blob.serverBlob.toList
  receiveAllField Session.saltField 0 10 "salt"
  let salt ← session
  let packet ← putPacket packet salt.salt.toList
  return (buffer, packet)

/-- The lengths of the other fields. -/
structure Lengths where
  padding : Nat
  username : Nat
  puzzleChallenge : Int
  unknown1 : Int
  unknown2 : Int
  unknown3 : Int

/-- The lengths: nobody looks whether the last eight bytes came. -/
def receiveLengths (buffer : Vector Int8 512) (packet : List Int8) :
    Recv (Lengths × Vector Int8 512 × List Int8) := do
  let paddingLength ← receiveByte
  let packet ← putPacket packet [Int8.ofNat paddingLength]
  if paddingLength = 0 then
    Proc.throw (.despotifyException "Padding length is negative or zero.")
  else
    let usernameLength ← receiveByte
    let packet ← putPacket packet [Int8.ofNat usernameLength]
    let lengths ← receive buffer 0 8
    let buffer := lengths.2
    let packet ← putPacket packet (buffer.toList.take 8)
    return (⟨paddingLength, usernameLength, getShort buffer[0] buffer[1],
      getShort buffer[2] buffer[3], getShort buffer[4] buffer[5], getShort buffer[6] buffer[7]⟩,
      buffer, packet)

/-- The padding and the name of the user. -/
def receiveUsername (lengths : Lengths) (buffer : Vector Int8 512) (packet : List Int8) :
    Recv (Vector Int8 512 × List Int8) := do
  let buffer ← receiveAll buffer lengths.padding "padding"
  let packet ← putPacket packet (buffer.toList.take lengths.padding)
  let buffer ← receiveAll buffer lengths.username "username"
  let packet ← putPacket packet (buffer.toList.take lengths.username)
  setSession fun session => { session with username := buffer.toList.take lengths.username }
  return (buffer, packet)

/-- The length of the challenge and the unknown fields. -/
def Lengths.total (lengths : Lengths) : Int :=
  lengths.puzzleChallenge + lengths.unknown1 + lengths.unknown2 + lengths.unknown3

/-- The challenge and the unknown fields: nobody looks whether they came. -/
def receiveFields (lengths : Lengths) (buffer : Vector Int8 512) : Recv (Vector Int8 512) := do
  let received ← receive buffer 0 lengths.puzzleChallenge
  let received ← receive received.2 lengths.puzzleChallenge lengths.unknown1
  let received ← receive received.2 (lengths.puzzleChallenge + lengths.unknown1) lengths.unknown2
  let received ← receive received.2 (lengths.puzzleChallenge + lengths.unknown1 + lengths.unknown2)
    lengths.unknown3
  return received.2

/-- The denominator and the magic number, of the first `total` bytes. -/
def readPuzzle (buffer : Vector Int8 512) (total : Int) : Recv Unit := do
  if total < 1 then Proc.throw .bufferUnderflowException
  else if buffer[0] = 1 then
    if total < 2 then Proc.throw .bufferUnderflowException
    else
      setSession fun session => { session with puzzleDenominator := buffer[1].toInt }
      if total < 6 then Proc.throw .bufferUnderflowException
      else setSession fun session =>
        { session with puzzleMagic := getInt buffer[2] buffer[3] buffer[4] buffer[5] }
  else Proc.throw (.despotifyException "Unexpected puzzle challenge.")

def receiveInitialPacket : Recv Unit := do
  let buffer := Vector.replicate 512 0
  let packet ← receiveServerRandom buffer
  let keys ← receiveKeys buffer packet
  let lengths ← receiveLengths keys.1 keys.2
  let username ← receiveUsername lengths.1 lengths.2.1 lengths.2.2
  let buffer ← receiveFields lengths.1 username.1
  let packet ← putPacket username.2 (buffer.toList.take lengths.1.total.toNat)
  setSession fun session => { session with initialServerPacket := some packet }
  readPuzzle buffer lengths.1.total

/-! ## Packets -/

/-- The header, decrypted. -/
def Session.decryptHeader (session : Session) (header : List Int8) :
    Option (Shannon × List Int8) :=
  (session.shannonRecv.nonce (toBytesInt session.keyRecvIv)).decrypt header

/-- `payloadLength`. -/
def payloadLength (header : List Int8) : Nat :=
  unsigned (header.getD 1 0) * 256 + unsigned (header.getD 2 0)

/-- The listeners, one after the other, until one throws. -/
def fire (packetType : Option PacketType) (payload : List Int8) : List CommandListener → Recv Unit
  | [] => pure ()
  | listener :: listeners => do
    Proc.modify fun s => { s with commands := s.commands ++ [(packetType, payload)] }
    if listener packetType payload then fire packetType payload listeners
    else Proc.throw .ofListener

/-- The payload and the MAC.  Neither loop looks whether its bytes came;
`buffer.get(payload)` needs those of the payload. -/
def receiveBody (shannon : Shannon) (header : List Int8) : Recv Unit := do
  let packetType := PacketType.valueOf (unsigned (header.getD 0 0))
  let payloadLength := payloadLength header
  let payload ← fill payloadLength payloadLength
  catchIOException "Failed to read payload: " payload.2
  let mac ← fill 4 (payloadLength + 4 - payload.1.length)
  catchIOException "Failed to read MAC: " mac.2
  let bytes := payload.1 ++ mac.1
  let decrypted ← Proc.ofOption .indexOutOfBoundsException
    (shannon.decrypt (bytes ++ List.replicate (payloadLength + 4 - bytes.length) 0))
  setSession fun session => { session with shannonRecv := decrypted.1 }
  if bytes.length < payloadLength then Proc.throw .bufferUnderflowException
  else
    setSession fun session => { session with keyRecvIv := session.keyRecvIv + 1 }
    let s ← Proc.get
    fire packetType (decrypted.2.take payloadLength) s.listeners

def receivePacket : Recv Unit := do
  let header ← receive (Vector.replicate 3 0) 0 3
  if header.1 = 3 then
    let s ← session
    let decrypted ← Proc.ofOption .indexOutOfBoundsException (s.decryptHeader header.2.toList)
    setSession fun session => { session with shannonRecv := decrypted.1 }
    receiveBody decrypted.1 decrypted.2
  else
    Proc.throw (.recievedInvalidHeaderException
      ("Failed to read header. Expected 3 bytes, received " ++ toString header.1 ++
        ". todo try to reconnect once?"))

end Despotify.Java

import Despotify.Lib.Buf
import Despotify.Pool.Proc
import Despotify.Wire.Packet
import Mathlib.Data.List.GetD

/-!
# The initial packet of the server

`read_server_initial_packet` of `lib/keyexchange.c`, over the bytes the server sends before
it closes the connection.  What is read is appended to `save` as well, which becomes
`init_server_packet`.

`puzzle_len` and the three lengths behind it are those of one piece, the challenge.  Its
buffer is larger than that: `heap` is what its memory holds.

* `ends_readServerInitialPacket`: what becomes of a stream, and of the session.
* `readServerInitialPacket_transcript`: the saved packet is what was consumed.
* `safe_iff`: the streams on which no assertion fails and no other memory is parsed.
-/

namespace Despotify.KeyExchange

open Lib

/-! ## The session -/

/-- The array with bytes stored from `off` on. -/
def store {size : Nat} (array : Vector UInt8 size) (off : Nat) (bytes : List UInt8) :
    Vector UInt8 size :=
  Vector.ofFn fun i =>
    if off ≤ i ∧ i < off + bytes.length then bytes.getD (i - off) 0 else getElem array i i.isLt

/-- The fields of `SESSION` that are read from the server. -/
structure Session where
  serverRandom16 : Vector UInt8 16
  remotePubKey : Vector UInt8 96
  random256 : Vector UInt8 256
  salt : Vector UInt8 10
  username : Vector UInt8 256
  usernameLen : UInt8
  puzzleDenominator : UInt8
  puzzleMagic : Int32
  initServerPacket : Option Buf

/-- Why the function stops. -/
inductive Stop
  /-- it returns a negative value -/
  | code (ret : Int) (h : ret < 0)
  /-- an assertion fails -/
  | abort

/-- A session, and the bytes still to come on its socket. -/
structure State where
  session : Session
  sock : List UInt8

abbrev Exchange := Proc State Stop

/-- `block_read` of `n` bytes, and the check of what it returns; the bytes that come are stored
also when they are too few. -/
def blockRead (n : Nat) (stop : Stop) (store : List UInt8 → Session → Session) :
    Exchange (List UInt8) := fun s =>
  match Packet.blockRead s.sock n with
  | (some bytes, sock) => some (.ok bytes, ⟨store bytes s.session, sock⟩)
  | (none, sock) => some (.error stop, ⟨store s.sock s.session, sock⟩)

def setSession (f : Session → Session) : Exchange Unit :=
  Proc.modify fun s => { s with session := f s.session }

/-- An array of the session. -/
structure Field (size : Nat) where
  get : Session → Vector UInt8 size
  set : Vector UInt8 size → Session → Session
  get_set : ∀ array session, get (set array session) = array
  initServerPacket_set : ∀ array session,
    (set array session).initServerPacket = session.initServerPacket

namespace Field

def serverRandom16 : Field 16 where
  get session := session.serverRandom16
  set array session := { session with serverRandom16 := array }
  get_set _ _ := rfl
  initServerPacket_set _ _ := rfl

def remotePubKey : Field 96 where
  get session := session.remotePubKey
  set array session := { session with remotePubKey := array }
  get_set _ _ := rfl
  initServerPacket_set _ _ := rfl

def random256 : Field 256 where
  get session := session.random256
  set array session := { session with random256 := array }
  get_set _ _ := rfl
  initServerPacket_set _ _ := rfl

def salt : Field 10 where
  get session := session.salt
  set array session := { session with salt := array }
  get_set _ _ := rfl
  initServerPacket_set _ _ := rfl

def username : Field 256 where
  get session := session.username
  set array session := { session with username := array }
  get_set _ _ := rfl
  initServerPacket_set _ _ := rfl

/-- `block_read` into the array. -/
def store {size : Nat} (field : Field size) (off : Nat) (bytes : List UInt8) (session : Session) :
    Session := field.set (KeyExchange.store (field.get session) off bytes) session

end Field

section
variable (mem heap : Nat → UInt8)

/-- `buf_append_data`, or `buf_append_u8` of one byte. -/
def append (save : Buf) (bytes : List UInt8) : Exchange Buf := fun s =>
  (save.append mem bytes).map fun save => (.ok save, s)

/-! ## `read_server_initial_packet` -/

/-- What a status other than 0 comes to. -/
def statusStop (status : UInt8) : Stop :=
  if status = 1 then .code (-11) (by decide)
  else if status = 3 then .code (-13) (by decide)
  else if status = 4 then .code (-14) (by decide)
  else if status = 6 then .code (-16) (by decide)
  else if status = 9 then .code (-19) (by decide)
  else .code (-91) (by decide)

theorem zero_lt_sixteen : 0 < 16 := by decide

theorem one_lt_sixteen : 1 < 16 := by decide

/-- The status bytes and the remaining random bytes. -/
def readRandom (save : Buf) : Exchange Buf := do
  let _ ← blockRead 2 (.code (-90) (by decide)) (Field.serverRandom16.store 0)
  let random := (← Proc.get).session.serverRandom16
  if getElem random 0 zero_lt_sixteen ≠ 0 then
    Proc.throw (statusStop (getElem random 1 one_lt_sixteen))
  else
    let _ ← blockRead 14 (.code (-92) (by decide)) (Field.serverRandom16.store 2)
    append mem save (← Proc.get).session.serverRandom16.toList

/-- An array of the session, and a copy of it. -/
def readField {size : Nat} (field : Field size) (stop : Stop) (save : Buf) : Exchange Buf := do
  let _ ← blockRead size stop (field.store 0)
  append mem save (field.get (← Proc.get).session).toList

/-- `ntohs`, of the bytes in memory. -/
def ntohs (a b : UInt8) : Nat := 256 * a.toNat + b.toNat

/-- `ntohl`, of the bytes in memory. -/
def ntohl (a b c d : UInt8) : UInt32 :=
  ((a.toUInt32 * 256 + b.toUInt32) * 256 + c.toUInt32) * 256 + d.toUInt32

/-- `totlen`, of the four lengths in `chalen`. -/
def totlen (chalen : List UInt8) : Nat :=
  ntohs (chalen.getD 0 0) (chalen.getD 1 0) + ntohs (chalen.getD 2 0) (chalen.getD 3 0) +
    ntohs (chalen.getD 4 0) (chalen.getD 5 0) + ntohs (chalen.getD 6 0) (chalen.getD 7 0)

/-- The lengths: `padlen`, `chalen`, and `save`. -/
def readLengths (save : Buf) : Exchange (UInt8 × List UInt8 × Buf) := do
  let padlen ← blockRead 1 (.code (-96) (by decide)) fun _ session => session
  if padlen.getD 0 0 = 0 then Proc.throw .abort
  else
    let save ← append mem save padlen
    let _ ← blockRead 1 (.code (-97) (by decide)) fun bytes session =>
      { session with usernameLen := bytes.getD 0 session.usernameLen }
    let save ← append mem save [(← Proc.get).session.usernameLen]
    let chalen ← blockRead 8 (.code (-98) (by decide)) fun _ session => session
    let save ← append mem save chalen
    return (padlen.getD 0 0, chalen, save)

/-- The padding and the name of the user. -/
def readUsername (padlen : UInt8) (save : Buf) : Exchange Buf := do
  let padding ← blockRead padlen.toNat (.code (-99) (by decide)) fun _ session => session
  let save ← append mem save padding
  let len := (← Proc.get).session.usernameLen.toNat
  let _ ← blockRead len (.code (-100) (by decide)) (Field.username.store 0)
  let save ← append mem save ((← Proc.get).session.username.toList.take len)
  setSession (Field.username.store len [0])
  return save

/-- The puzzle challenge, in a buffer that is extended for it. -/
def readPuzzle (chalen : List UInt8) (save : Buf) : Exchange Buf := do
  let b ← fun s => ((Buf.new heap).extend heap (totlen chalen)).map fun b => (.ok b, s)
  let bytes ← blockRead (totlen chalen) (.code (-101) (by decide)) fun _ session => session
  let ptr := (b.write 0 bytes).ptr
  let save ← append mem save (ptr.take (totlen chalen))
  if ptr.getD 0 0 = 1 then
    setSession fun session => { session with
      puzzleDenominator := ptr.getD 1 0
      puzzleMagic :=
        (ntohl (ptr.getD 2 0) (ptr.getD 3 0) (ptr.getD 4 0) (ptr.getD 5 0)).toInt32 }
    return save
  else Proc.throw (.code (-102) (by decide))

def readServerInitialPacket : Exchange Unit := do
  let save ← readRandom mem (Buf.new mem)
  let save ← readField mem .remotePubKey (.code (-93) (by decide)) save
  let save ← readField mem .random256 (.code (-94) (by decide)) save
  let save ← readField mem .salt (.code (-95) (by decide)) save
  let (padlen, chalen, save) ← readLengths mem save
  let save ← readUsername mem padlen save
  let save ← readPuzzle mem heap chalen save
  setSession fun session => { session with initServerPacket := some save }

end

/-! ## Storing and saving -/

theorem getElem_store {size : Nat} (array : Vector UInt8 size) (off : Nat) (bytes : List UInt8)
    {i : Nat} (hi : i < size) : (store array off bytes)[i] =
      if off ≤ i ∧ i < off + bytes.length then bytes.getD (i - off) 0 else array[i] := by
  unfold store
  rw [Vector.getElem_ofFn]
  rfl

attribute [irreducible] store

theorem toList_store {size : Nat} (array : Vector UInt8 size) {off : Nat} {bytes : List UInt8}
    (h : off + bytes.length ≤ size) :
    (store array off bytes).toList =
      array.toList.take off ++ bytes ++ array.toList.drop (off + bytes.length) := by
  have hlen : array.toList.length = size := Vector.length_toList
  refine List.ext_getElem ?_ fun i hi hi' => ?_
  · simp only [Vector.length_toList, List.length_append, List.length_take, List.length_drop]
    omega
  · rw [Vector.length_toList] at hi
    have hstore : (store array off bytes).toList[i] =
        if off ≤ i ∧ i < off + bytes.length then bytes.getD (i - off) 0 else array[i] := by
      rw [Vector.getElem_toList, getElem_store]
    rw [hstore]
    by_cases hlow : i < off
    · rw [if_neg (by omega), List.getElem_append_left (by simp; omega),
        List.getElem_append_left (by simp; omega), List.getElem_take, Vector.getElem_toList]
    · by_cases hhigh : i < off + bytes.length
      · have htake : (array.toList.take off).length = off := by
          rw [List.length_take]
          omega
        rw [if_pos ⟨by omega, hhigh⟩, List.getElem_append_left (by rw [List.length_append]; omega),
          List.getElem_append_right (by omega), List.getD_eq_getElem _ _ (by omega)]
        simp only [htake]
      · have htake : (array.toList.take off ++ bytes).length = off + bytes.length := by
          rw [List.length_append, List.length_take]
          omega
        rw [if_neg (by omega), List.getElem_append_right (by omega), List.getElem_drop,
          Vector.getElem_toList]
        simp only [htake]
        congr 1
        omega

theorem toList_store_all {size : Nat} (array : Vector UInt8 size) {bytes : List UInt8}
    (h : bytes.length = size) : (store array 0 bytes).toList = bytes := by
  rw [toList_store array (by omega), List.take_zero, List.nil_append, Nat.zero_add,
    List.drop_eq_nil_of_le (by rw [Vector.length_toList]; omega), List.append_nil]

variable {mem heap : Nat → UInt8} {sock : List UInt8} {n k : Nat} {save : Buf} {s : State}

theorem getD_take (l : List UInt8) (n i : Nat) :
    (l.take n).getD i 0 = if i < n then l.getD i 0 else 0 := by
  simp only [List.getD_eq_getElem?_getD, List.getElem?_take]
  split
  · rfl
  · rfl

theorem getD_drop (l : List UInt8) (n i : Nat) : (l.drop n).getD i 0 = l.getD (n + i) 0 := by
  simp only [List.getD_eq_getElem?_getD, List.getElem?_drop]

/-- The first `n` bytes have been read, and are in the buffer. -/
structure At (sock : List UInt8) (n : Nat) (save : Buf) (s : State) : Prop where
  le : n ≤ sock.length
  rest : s.sock = sock.drop n
  sound : save.Sound
  data : save.data = sock.take n

/-- The same, of the socket alone. -/
theorem ends_blockRead {stop : Stop} {f : List UInt8 → Session → Session}
    (hrest : s.sock = sock.drop n) (hle : n ≤ sock.length) :
    Proc.Ends (blockRead k stop f) s fun r s' => match r with
      | .ok bytes => n + k ≤ sock.length ∧ bytes = (sock.drop n).take k ∧
        s' = ⟨f bytes s.session, sock.drop (n + k)⟩
      | .error e => sock.length < n + k ∧ e = stop ∧ s'.session = f s.sock s.session := by
  unfold blockRead Packet.blockRead
  by_cases hk : k ≤ s.sock.length
  · have hlen := hk
    rw [hrest, List.length_drop] at hlen
    refine ⟨.ok (s.sock.take k), ⟨f (s.sock.take k) s.session, s.sock.drop k⟩, ?_, ?_⟩
    · simp only [if_pos hk]
    · refine ⟨by omega, by rw [hrest], ?_⟩
      rw [← List.drop_drop, ← hrest]
  · have hlen := Nat.not_le.mp hk
    rw [hrest, List.length_drop] at hlen
    refine ⟨.error stop, ⟨f s.sock s.session, []⟩, ?_, by omega, rfl, rfl⟩
    simp only [if_neg hk]

/-- The next bytes are appended. -/
theorem ends_append {bytes : List UInt8} (h : save.Sound) (hdata : save.data = sock.take n)
    (hle : n + k ≤ sock.length) (hbytes : bytes = (sock.drop n).take k) (hroom : n + k ≤ 2 ^ 30) :
    Proc.Ends (append mem save bytes) s fun r s' => match r with
      | .ok save' => save'.Sound ∧ save'.data = sock.take (n + k) ∧ s' = s
      | .error _ => False := by
  have hlen : save.len = n := by
    rw [← Buf.length_data h, hdata, List.length_take]
    omega
  have hk : bytes.length = k := by
    rw [hbytes, List.length_take, List.length_drop]
    omega
  obtain ⟨save', hsave', hsound, -, hdata'⟩ :=
    @Buf.append_some mem save h bytes (by rw [hlen, hk]; exact hroom)
  refine ⟨.ok save', s, ?_, hsound, ?_, rfl⟩
  · unfold append
    rw [hsave']
    rfl
  · rw [hdata', hdata, hbytes, ← List.take_add]

/-- The same, in front of what uses the longer buffer. -/
theorem ends_append_bind {α : Type} {bytes : List UInt8} {f : Buf → Exchange α}
    {Q : Except Stop α → State → Prop} (h : save.Sound) (hdata : save.data = sock.take n)
    (hle : n + k ≤ sock.length) (hbytes : bytes = (sock.drop n).take k) (hroom : n + k ≤ 2 ^ 30)
    (hnext : ∀ save', save'.Sound → save'.data = sock.take (n + k) → Proc.Ends (f save') s Q) :
    Proc.Ends (append mem save bytes >>= f) s Q := by
  refine (ends_append h hdata hle hbytes hroom).bind ?_ ?_
  · rintro e s' hfalse
    exact hfalse.elim
  · rintro save' s' ⟨hsound, hdata', rfl⟩
    exact hnext save' hsound hdata'

/-! ## Field after field -/

theorem Stop.code_ne_abort {ret : Int} {h : ret < 0} : Stop.code ret h ≠ .abort := by
  intro heq
  cases heq

/-- The function returns a negative value, and installs nothing. -/
structure Refused (init : Option Buf) (e : Stop) (s : State) : Prop where
  code : e ≠ .abort
  init : s.session.initServerPacket = init

theorem ends_readField {size : Nat} (field : Field size) {stop : Stop} (hstop : stop ≠ .abort)
    (h : At sock n save s) (hroom : n + size ≤ 2 ^ 30) :
    Proc.Ends (readField mem field stop save) s fun r s' => match r with
      | .ok save' => At sock (n + size) save' s' ∧ ∃ array : Vector UInt8 size,
        array.toList = (sock.drop n).take size ∧ s'.session = field.set array s.session
      | .error e => sock.length < n + size ∧ Refused s.session.initServerPacket e s' := by
  refine (ends_blockRead h.rest h.le).bind ?_ ?_
  · rintro e s1 ⟨hshort, rfl, hsession⟩
    refine ⟨hshort, hstop, ?_⟩
    rw [hsession]
    exact field.initServerPacket_set _ _
  · rintro bytes s1 ⟨hle, hbytes, rfl⟩
    have hlen : bytes.length = size := by
      rw [hbytes, List.length_take, List.length_drop]
      omega
    have harray := toList_store_all (field.get s.session) hlen
    have hget : field.get (field.store 0 bytes s.session) = store (field.get s.session) 0 bytes :=
      field.get_set _ _
    refine Proc.Ends.get_bind ((ends_append h.sound h.data hle ?_ hroom).imp ?_)
    · show (field.get (field.store 0 bytes s.session)).toList = _
      rw [hget, harray, hbytes]
    · rintro (e | save') s' hsave
      · exact hsave.elim
      · obtain ⟨hsound, hdata, rfl⟩ := hsave
        exact ⟨⟨hle, rfl, hsound, hdata⟩, _, by rw [harray, hbytes], rfl⟩

theorem statusStop_ne (status : UInt8) : statusStop status ≠ .abort := by
  unfold statusStop
  split_ifs <;> exact Stop.code_ne_abort

theorem ends_readRandom (h : At sock 0 save s) :
    Proc.Ends (readRandom mem save) s fun r s' => match r with
      | .ok save' => At sock 16 save' s' ∧ sock.getD 0 0 = 0 ∧ ∃ array : Vector UInt8 16,
        array.toList = sock.take 16 ∧ s'.session = { s.session with serverRandom16 := array }
      | .error e => (sock.length < 16 ∨ sock.getD 0 0 ≠ 0) ∧
        Refused s.session.initServerPacket e s' := by
  refine (ends_blockRead h.rest h.le).bind ?_ ?_
  · rintro e s1 ⟨hshort, rfl, hsession⟩
    refine ⟨Or.inl (by omega), Stop.code_ne_abort, ?_⟩
    rw [hsession]
    rfl
  · rintro status s1 ⟨hle, hstatus, rfl⟩
    rw [List.drop_zero] at hstatus
    have hlen : status.length = 2 := by
      rw [hstatus, List.length_take]
      omega
    have hfirst : (store s.session.serverRandom16 0 status)[0] = sock.getD 0 0 := by
      rw [getElem_store, if_pos (by omega), hstatus, getD_take]
      exact if_pos (by decide)
    refine Proc.Ends.get_bind (Proc.Ends.ite ?_ ?_)
    · intro hne
      have hne : (store s.session.serverRandom16 0 status)[0] ≠ 0 := hne
      refine Proc.Ends.throw ⟨Or.inr ?_, statusStop_ne _, rfl⟩
      rwa [hfirst] at hne
    · intro hzero
      have hzero : (store s.session.serverRandom16 0 status)[0] = 0 := not_not.mp hzero
      rw [hfirst] at hzero
      refine (ends_blockRead (n := 2) (by rfl) (by omega)).bind ?_ ?_
      · rintro e s2 ⟨hshort, rfl, hsession⟩
        refine ⟨Or.inl hshort, Stop.code_ne_abort, ?_⟩
        rw [hsession]
        rfl
      · rintro rest s2 ⟨hle2, hrest, rfl⟩
        have hlen2 : rest.length = 14 := by
          rw [hrest, List.length_take, List.length_drop]
          omega
        have hall : (store (store s.session.serverRandom16 0 status) 2 rest).toList =
            sock.take 16 := by
          have hfront : (store s.session.serverRandom16 0 status).toList.take 2 = status := by
            rw [toList_store _ (by omega), List.take_zero, List.nil_append, List.take_left' hlen]
          have hback : (store s.session.serverRandom16 0 status).toList.drop 16 = [] :=
            List.drop_eq_nil_of_le (Nat.le_of_eq Vector.length_toList)
          rw [toList_store _ (by omega), hfront, hlen2, hback, List.append_nil, hstatus, hrest]
          exact (List.take_add (i := 2) (j := 14)).symm
        refine Proc.Ends.get_bind
          ((ends_append (n := 0) (k := 16) h.sound h.data (by omega) ?_ (by decide)).imp ?_)
        · exact hall
        · rintro (e | save') s' hsave
          · exact hsave.elim
          · obtain ⟨hsound, hdata, rfl⟩ := hsave
            exact ⟨⟨hle2, rfl, hsound, hdata⟩, hzero, _, hall, rfl⟩

/-! ## The parts of the packet -/

def padlenOf (sock : List UInt8) : UInt8 := sock.getD 378 0

def usernameLenOf (sock : List UInt8) : UInt8 := sock.getD 379 0

/-- Where the name of the user starts. -/
def nameStart (sock : List UInt8) : Nat := 388 + (padlenOf sock).toNat

/-- Where the challenge starts. -/
def challengeStart (sock : List UInt8) : Nat := nameStart sock + (usernameLenOf sock).toNat

/-- How long the challenge is. -/
def challengeLen (sock : List UInt8) : Nat := totlen ((sock.drop 380).take 8)

def packetEnd (sock : List UInt8) : Nat := challengeStart sock + challengeLen sock

/-- The bytes that are parsed: those behind the challenge are of the heap. -/
def challengeByte (heap : Nat → UInt8) (sock : List UInt8) (i : Nat) : UInt8 :=
  if i < challengeLen sock then sock.getD (challengeStart sock + i) 0 else heap i

theorem challengeLen_le (sock : List UInt8) : challengeLen sock ≤ 4 * 65535 := by
  have hbyte : ∀ b : UInt8, b.toNat ≤ 255 := fun b => Nat.le_of_lt_succ b.toNat_lt
  have hshort : ∀ a b : UInt8, ntohs a b ≤ 65535 := by
    intro a b
    have ha := hbyte a
    have hb := hbyte b
    unfold ntohs
    omega
  unfold challengeLen totlen
  have h0 := hshort (((sock.drop 380).take 8).getD 0 0) (((sock.drop 380).take 8).getD 1 0)
  have h1 := hshort (((sock.drop 380).take 8).getD 2 0) (((sock.drop 380).take 8).getD 3 0)
  have h2 := hshort (((sock.drop 380).take 8).getD 4 0) (((sock.drop 380).take 8).getD 5 0)
  have h3 := hshort (((sock.drop 380).take 8).getD 6 0) (((sock.drop 380).take 8).getD 7 0)
  omega

/-- A byte of the stream, as a list. -/
theorem singleton_eq_take (h : n < sock.length) : [sock.getD n 0] = (sock.drop n).take 1 := by
  rw [List.drop_eq_getElem_cons h, List.take_succ_cons, List.take_zero,
    List.getD_eq_getElem _ _ h]

theorem ends_readLengths (h : At sock 378 save s) :
    Proc.Ends (readLengths mem save) s fun r s' => match r with
      | .ok (padlen, chalen, save') => At sock 388 save' s' ∧ padlen = padlenOf sock ∧
        padlen ≠ 0 ∧ chalen = (sock.drop 380).take 8 ∧
        s'.session = { s.session with usernameLen := usernameLenOf sock }
      | .error e => s'.session.initServerPacket = s.session.initServerPacket ∧
        (sock.length < 388 ∧ (379 ≤ sock.length → padlenOf sock ≠ 0) ∧ e ≠ .abort ∨
          379 ≤ sock.length ∧ padlenOf sock = 0 ∧ e = .abort) := by
  refine (ends_blockRead h.rest h.le).bind ?_ ?_
  · rintro e s1 ⟨hshort, rfl, hsession⟩
    exact ⟨by rw [hsession], Or.inl ⟨by omega, fun hlen => absurd hlen (by omega), nofun⟩⟩
  · rintro padlen s1 ⟨hle, hpadlen, rfl⟩
    obtain rfl : padlen = [padlenOf sock] := hpadlen.trans (singleton_eq_take (by omega)).symm
    refine Proc.Ends.ite ?_ ?_
    · intro hzero
      exact Proc.Ends.throw ⟨rfl, Or.inr ⟨hle, hzero, rfl⟩⟩
    · intro hne
      have hne : padlenOf sock ≠ 0 := hne
      refine ends_append_bind (k := 1) h.sound h.data hle hpadlen (by decide) ?_
      intro save1 hsound1 hdata1
      refine (ends_blockRead (n := 379) rfl hle).bind ?_ ?_
      · rintro e s2 ⟨hshort, rfl, hsession⟩
        exact ⟨by rw [hsession], Or.inl ⟨by omega, fun _ => hne, nofun⟩⟩
      rintro len s2 ⟨hle2, hlen, rfl⟩
      obtain rfl : len = [usernameLenOf sock] := hlen.trans (singleton_eq_take (by omega)).symm
      refine Proc.Ends.get_bind
        (ends_append_bind (k := 1) hsound1 hdata1 hle2 hlen (by decide) ?_)
      intro save2 hsound2 hdata2
      refine (ends_blockRead (n := 380) rfl hle2).bind ?_ ?_
      · rintro e s4 ⟨hshort, rfl, hsession⟩
        exact ⟨by rw [hsession], Or.inl ⟨hshort, fun _ => hne, nofun⟩⟩
      rintro chalen s4 ⟨hle3, hchalen, rfl⟩
      refine ends_append_bind (k := 8) hsound2 hdata2 hle3 hchalen (by decide) ?_
      intro save3 hsound3 hdata3
      exact Proc.Ends.pure ⟨⟨hle3, rfl, hsound3, hdata3⟩, rfl, hne, hchalen, rfl⟩

theorem store_username (off : Nat) (bytes : List UInt8) (session : Session) :
    Field.username.store off bytes session =
      { session with username := store session.username off bytes } := rfl

theorem ends_readUsername (h : At sock 388 save s)
    (hlen : s.session.usernameLen = usernameLenOf sock) :
    Proc.Ends (readUsername mem (padlenOf sock) save) s fun r s' => match r with
      | .ok save' => At sock (challengeStart sock) save' s' ∧ ∃ array : Vector UInt8 256,
        array.toList.take (usernameLenOf sock).toNat =
          (sock.drop (nameStart sock)).take (usernameLenOf sock).toNat ∧
        array.toList.getD (usernameLenOf sock).toNat 0 = 0 ∧
        s'.session = { s.session with username := array }
      | .error e => sock.length < challengeStart sock ∧
        Refused s.session.initServerPacket e s' := by
  have hpad := (padlenOf sock).toNat_lt
  have huser := (usernameLenOf sock).toNat_lt
  obtain ⟨len, hl⟩ : ∃ len, len = (usernameLenOf sock).toNat := ⟨_, rfl⟩
  have hname : nameStart sock = 388 + (padlenOf sock).toNat := rfl
  have hstart : challengeStart sock = nameStart sock + len := by rw [hl]; rfl
  rw [← hl, hstart]
  refine (ends_blockRead h.rest h.le).bind ?_ ?_
  · rintro e s1 ⟨hshort, rfl, hsession⟩
    exact ⟨by omega, Stop.code_ne_abort, by rw [hsession]⟩
  rintro padding s1 ⟨hle, hpadding, rfl⟩
  rw [← hname] at hle
  refine ends_append_bind (k := (padlenOf sock).toNat) h.sound h.data hle hpadding (by omega) ?_
  intro save1 hsound1 hdata1
  refine Proc.Ends.get_bind ?_
  show Proc.Ends (blockRead s.session.usernameLen.toNat _ _ >>= fun _ => _) _ _
  rw [hlen, ← hl]
  refine (ends_blockRead (n := nameStart sock) (by rw [hname]) hle).bind ?_ ?_
  · rintro e s2 ⟨hshort, rfl, hsession⟩
    refine ⟨hshort, Stop.code_ne_abort, ?_⟩
    rw [hsession]
    exact Field.username.initServerPacket_set _ _
  rintro name s2 ⟨hle2, hnamebytes, rfl⟩
  have hlength : name.length = len := by
    rw [hnamebytes, List.length_take, List.length_drop]
    omega
  have hfront : (store s.session.username 0 name).toList.take len = name := by
    rw [toList_store _ (by omega), List.take_zero, List.nil_append, List.take_left' hlength]
  refine Proc.Ends.get_bind (ends_append_bind (k := len) hsound1 hdata1 hle2 ?_ (by omega) ?_)
  · show (store s.session.username 0 name).toList.take len = _
    rw [hfront, hnamebytes, hname]
  intro save2 hsound2 hdata2
  have hall : (store (store s.session.username 0 name) len [0]).toList =
      name ++ [0] ++ (store s.session.username 0 name).toList.drop (len + 1) := by
    rw [toList_store _ (by rw [List.length_singleton]; omega), hfront]
    rfl
  rw [← hname] at hdata2
  refine Proc.Ends.modify_bind (Proc.Ends.pure ⟨⟨hle2, rfl, hsound2, hdata2⟩,
    store (store s.session.username 0 name) len [0], ?_, ?_, ?_⟩)
  · rw [hall, List.append_assoc, List.take_left' hlength, hnamebytes]
  · rw [hall, List.append_assoc, ← hlength]
    simp
  · show Field.username.store len [0] (Field.username.store 0 name s.session) = _
    rw [store_username, store_username]

/-- The memory that is parsed. -/
theorem getD_challenge {b : Buf} {bytes : List UInt8}
    (hb : (Buf.new heap).extend heap (challengeLen sock) = some b)
    (hbytes : bytes = (sock.drop (challengeStart sock)).take (challengeLen sock))
    (hle : packetEnd sock ≤ sock.length) {i : Nat} (hi : i < 512) :
    (b.write 0 bytes).ptr.getD i 0 = challengeByte heap sock i := by
  have hlen : bytes.length = challengeLen sock := by
    rw [hbytes, List.length_take, List.length_drop]
    unfold packetEnd at hle
    omega
  have hptr : (b.write 0 bytes).ptr = bytes ++ b.ptr.drop bytes.length := by
    rw [Buf.write, List.take_zero, List.nil_append, Nat.zero_add]
  unfold challengeByte
  rw [hptr]
  by_cases hlow : i < challengeLen sock
  · rw [if_pos hlow, List.getD_append _ _ _ _ (by omega), hbytes, getD_take, if_pos hlow, getD_drop]
  · obtain ⟨b', hb', -, -, -, -, -, hkept⟩ := @Buf.extend_some heap (Buf.new heap) Buf.sound_new
      (challengeLen sock) (by
        have := challengeLen_le sock
        show 0 + _ ≤ _
        omega)
    obtain rfl := Option.some.inj (hb.symm.trans hb')
    have hheap := hkept 512 (Nat.le_of_eq (by simp [Buf.new, Buf.size]))
    rw [if_neg hlow, List.getD_append_right _ _ _ _ (by omega), getD_drop, hlen,
      Nat.add_sub_cancel' (by omega)]
    have hget := congrArg (fun l => l.getD i 0) hheap
    simp only [getD_take, if_pos hi] at hget
    rw [hget]
    simp [Buf.new, List.getD_eq_getElem?_getD, hi]

/-- What the puzzle leaves in the session. -/
def Session.withPuzzle (session : Session) (byte : Nat → UInt8) : Session :=
  { session with
    puzzleDenominator := byte 1
    puzzleMagic := (ntohl (byte 2) (byte 3) (byte 4) (byte 5)).toInt32 }

theorem ends_readPuzzle (h : At sock (challengeStart sock) save s) :
    Proc.Ends (readPuzzle mem heap ((sock.drop 380).take 8) save) s fun r s' => match r with
      | .ok save' => At sock (packetEnd sock) save' s' ∧ challengeByte heap sock 0 = 1 ∧
        s'.session = s.session.withPuzzle (challengeByte heap sock)
      | .error e => (sock.length < packetEnd sock ∨ challengeByte heap sock 0 ≠ 1) ∧
        Refused s.session.initServerPacket e s' := by
  have hpad := (padlenOf sock).toNat_lt
  have huser := (usernameLenOf sock).toNat_lt
  have htot := challengeLen_le sock
  have hroom : packetEnd sock ≤ 2 ^ 30 := by
    unfold packetEnd challengeStart nameStart
    omega
  obtain ⟨b, hb, -⟩ := @Buf.extend_some heap (Buf.new heap) Buf.sound_new (challengeLen sock) (by
    show 0 + _ ≤ _
    omega)
  have hstep : Proc.Ends
      (fun s => ((Buf.new heap).extend heap (totlen ((sock.drop 380).take 8))).map
        fun b => (Except.ok b, s) : Exchange Buf) s fun r s' => r = .ok b ∧ s' = s := by
    have hb' : (Buf.new heap).extend heap (totlen ((sock.drop 380).take 8)) = some b := hb
    exact ⟨.ok b, s, by rw [hb']; rfl, rfl, rfl⟩
  refine hstep.bind ?_ ?_
  · rintro e s' ⟨hfalse, -⟩
    cases hfalse
  rintro b' s' ⟨hb', rfl⟩
  cases hb'
  refine (ends_blockRead (k := challengeLen sock) h.rest h.le).bind ?_ ?_
  · rintro e s1 ⟨hshort, rfl, hsession⟩
    exact ⟨Or.inl hshort, Stop.code_ne_abort, by rw [hsession]⟩
  rintro bytes s1 ⟨hle, hbytes, rfl⟩
  have hbyte : ∀ i < 512, (b.write 0 bytes).ptr.getD i 0 = challengeByte heap sock i :=
    fun i hi => getD_challenge hb hbytes hle hi
  have hlen : bytes.length = challengeLen sock := by
    rw [hbytes, List.length_take, List.length_drop]
    omega
  have hfront : (b.write 0 bytes).ptr.take (challengeLen sock) = bytes := by
    rw [Buf.write, List.take_zero, List.nil_append, List.take_left' hlen]
  refine ends_append_bind (k := challengeLen sock) h.sound h.data hle ?_ hroom ?_
  · exact hfront.trans hbytes
  intro save' hsound hdata
  refine Proc.Ends.ite ?_ ?_
  · intro hone
    rw [hbyte 0 (by decide)] at hone
    refine Proc.Ends.modify_bind (Proc.Ends.pure ⟨⟨hle, rfl, hsound, hdata⟩, hone, ?_⟩)
    simp only [hbyte 1 (by decide), hbyte 2 (by decide), hbyte 3 (by decide), hbyte 4 (by decide),
      hbyte 5 (by decide)]
    rfl
  · intro hne
    rw [hbyte 0 (by decide)] at hne
    exact Proc.Ends.throw ⟨Or.inr hne, Stop.code_ne_abort, rfl⟩

/-! ## The whole packet -/

/-- What the session holds of the packet. -/
structure Slices (heap : Nat → UInt8) (sock : List UInt8) (session : Session) : Prop where
  serverRandom16 : session.serverRandom16.toList = sock.take 16
  remotePubKey : session.remotePubKey.toList = (sock.drop 16).take 96
  random256 : session.random256.toList = (sock.drop 112).take 256
  salt : session.salt.toList = (sock.drop 368).take 10
  usernameLen : session.usernameLen = usernameLenOf sock
  username : session.username.toList.take session.usernameLen.toNat =
    (sock.drop (nameStart sock)).take (usernameLenOf sock).toNat
  terminated : session.username.toList.getD session.usernameLen.toNat 0 = 0
  puzzle : session = session.withPuzzle (challengeByte heap sock)

/-- The stream has a packet that is read to its end. -/
def Whole (sock : List UInt8) : Prop :=
  packetEnd sock ≤ sock.length ∧ sock.getD 0 0 = 0 ∧ padlenOf sock ≠ 0

/-- The padding length comes, and is 0. -/
def ZeroPadding (sock : List UInt8) : Prop :=
  379 ≤ sock.length ∧ sock.getD 0 0 = 0 ∧ padlenOf sock = 0

theorem packetEnd_ge (sock : List UInt8) : 388 ≤ challengeStart sock ∧
    challengeStart sock ≤ packetEnd sock := by
  unfold packetEnd challengeStart nameStart
  omega

theorem at_zero (session : Session) : At sock 0 (Buf.new mem) ⟨session, sock⟩ :=
  ⟨Nat.zero_le _, rfl, Buf.sound_new, by rw [Buf.data_new, List.take_zero]⟩

/-- What the reads leave in the session. -/
def Session.filled (session : Session) (random : Vector UInt8 16) (key : Vector UInt8 96)
    (blob : Vector UInt8 256) (salt : Vector UInt8 10) (len : UInt8) (name : Vector UInt8 256) :
    Session :=
  { session with
    serverRandom16 := random
    remotePubKey := key
    random256 := blob
    salt := salt
    usernameLen := len
    username := name }

theorem slices_filled {session : Session} {random : Vector UInt8 16} {key : Vector UInt8 96}
    {blob : Vector UInt8 256} {salt : Vector UInt8 10} {name : Vector UInt8 256}
    (save : Option Buf) (hrandom : random.toList = sock.take 16)
    (hkey : key.toList = (sock.drop 16).take 96) (hblob : blob.toList = (sock.drop 112).take 256)
    (hsalt : salt.toList = (sock.drop 368).take 10)
    (hname : name.toList.take (usernameLenOf sock).toNat =
      (sock.drop (nameStart sock)).take (usernameLenOf sock).toNat)
    (hterm : name.toList.getD (usernameLenOf sock).toNat 0 = 0) :
    Slices heap sock { (session.filled random key blob salt (usernameLenOf sock) name).withPuzzle
      (challengeByte heap sock) with initServerPacket := save } :=
  ⟨hrandom, hkey, hblob, hsalt, rfl, hname, hterm, rfl⟩

/-- What becomes of a stream. -/
theorem ends_readServerInitialPacket (mem heap : Nat → UInt8) (session : Session)
    (sock : List UInt8) :
    Proc.Ends (readServerInitialPacket mem heap) ⟨session, sock⟩ fun r s' => match r with
      | .ok _ => (Whole sock ∧ challengeByte heap sock 0 = 1) ∧ Slices heap sock s'.session ∧
        s'.sock = sock.drop (packetEnd sock) ∧
        ∃ save, s'.session.initServerPacket = some save ∧ save.data = sock.take (packetEnd sock)
      | .error e => s'.session.initServerPacket = session.initServerPacket ∧
        ¬ (Whole sock ∧ challengeByte heap sock 0 = 1) ∧ (e = .abort ↔ ZeroPadding sock) := by
  have hend := packetEnd_ge sock
  -- a stream that ends before the padding length
  have hshortPadding : sock.length < 379 →
      ¬ (Whole sock ∧ challengeByte heap sock 0 = 1) ∧ ¬ ZeroPadding sock := by
    refine fun hshort => ⟨?_, ?_⟩
    · rintro ⟨⟨hle, -⟩, -⟩
      omega
    · rintro ⟨hle, -⟩
      omega
  refine (ends_readRandom (at_zero session)).bind ?_ ?_
  · rintro e s1 ⟨hshort | hne, hcode, hinit⟩
    · obtain ⟨hwhole, hpadding⟩ := hshortPadding (by omega)
      exact ⟨hinit, hwhole, iff_of_false hcode hpadding⟩
    · exact ⟨hinit, fun h => hne h.1.2.1, iff_of_false hcode fun h => hne h.2.1⟩
  rintro save1 s1 ⟨hat1, hzero, random, hrandom, hs1⟩
  have hkept1 : s1.session.initServerPacket = session.initServerPacket := by rw [hs1]
  refine (ends_readField .remotePubKey Stop.code_ne_abort hat1 (by decide)).bind ?_ ?_
  · rintro e s2 ⟨hshort, hcode, hinit⟩
    obtain ⟨hwhole, hpadding⟩ := hshortPadding (by omega)
    exact ⟨hinit.trans hkept1, hwhole, iff_of_false hcode hpadding⟩
  rintro save2 s2 ⟨hat2, key, hkey, hs2⟩
  have hkept2 : s2.session.initServerPacket = session.initServerPacket := by
    rw [hs2, Field.initServerPacket_set, hkept1]
  refine (ends_readField .random256 Stop.code_ne_abort hat2 (by decide)).bind ?_ ?_
  · rintro e s3 ⟨hshort, hcode, hinit⟩
    obtain ⟨hwhole, hpadding⟩ := hshortPadding (by omega)
    exact ⟨hinit.trans hkept2, hwhole, iff_of_false hcode hpadding⟩
  rintro save3 s3 ⟨hat3, blob, hblob, hs3⟩
  have hkept3 : s3.session.initServerPacket = session.initServerPacket := by
    rw [hs3, Field.initServerPacket_set, hkept2]
  refine (ends_readField .salt Stop.code_ne_abort hat3 (by decide)).bind ?_ ?_
  · rintro e s4 ⟨hshort, hcode, hinit⟩
    obtain ⟨hwhole, hpadding⟩ := hshortPadding (by omega)
    exact ⟨hinit.trans hkept3, hwhole, iff_of_false hcode hpadding⟩
  rintro save4 s4 ⟨hat4, salt, hsalt, hs4⟩
  have hkept4 : s4.session.initServerPacket = session.initServerPacket := by
    rw [hs4, Field.initServerPacket_set, hkept3]
  refine (ends_readLengths hat4).bind ?_ ?_
  · rintro e s5 ⟨hinit, hwhy⟩
    refine ⟨hinit.trans hkept4, ?_, ?_⟩
    · rintro ⟨⟨hle, -, hne⟩, -⟩
      rcases hwhy with ⟨hshort, -⟩ | ⟨-, hpad, -⟩
      · omega
      · exact hne hpad
    · rcases hwhy with ⟨-, hne, hcode⟩ | ⟨hle, hpad, habort⟩
      · exact iff_of_false hcode fun h => hne h.1 h.2.2
      · exact iff_of_true habort ⟨hle, hzero, hpad⟩
  rintro ⟨padlen, chalen, save5⟩ s5 ⟨hat5, rfl, hpad, rfl, hs5⟩
  have hnozero : ¬ ZeroPadding sock := fun h => hpad h.2.2
  have hkept5 : s5.session.initServerPacket = session.initServerPacket := by rw [hs5, hkept4]
  refine (ends_readUsername hat5 (by rw [hs5])).bind ?_ ?_
  · rintro e s6 ⟨hshort, hcode, hinit⟩
    refine ⟨hinit.trans hkept5, ?_, iff_of_false hcode hnozero⟩
    rintro ⟨⟨hle, -⟩, -⟩
    omega
  rintro save6 s6 ⟨hat6, name, hname, hterm, hs6⟩
  have hfilled : s6.session =
      session.filled random key blob salt (usernameLenOf sock) name := by
    rw [hs6, hs5, hs4, hs3, hs2, hs1]
    rfl
  refine (ends_readPuzzle hat6).bind ?_ ?_
  · rintro e s7 ⟨hwhy, hcode, hinit⟩
    refine ⟨hinit.trans (by rw [hs6, hkept5]), ?_, iff_of_false hcode hnozero⟩
    rintro ⟨⟨hle, -⟩, hone⟩
    rcases hwhy with hshort | hne
    · omega
    · exact hne hone
  rintro save7 s7 ⟨hat7, hone, hs7⟩
  rw [hfilled] at hs7
  refine Proc.Ends.modify ⟨⟨⟨hat7.le, hzero, hpad⟩, hone⟩, ?_, hat7.rest, save7, rfl, hat7.data⟩
  rw [hs7]
  exact slices_filled (some save7) hrandom hkey hblob hsalt hname hterm

/-- **The transcript**: when the function returns 0 the bytes it consumed are the saved packet,
and the fields are slices of it; otherwise it returns a negative value and saves nothing. -/
theorem readServerInitialPacket_transcript (mem heap : Nat → UInt8) (session : Session)
    (sock : List UInt8) (hpad : 379 ≤ sock.length → padlenOf sock ≠ 0) :
    ∃ r s', readServerInitialPacket mem heap ⟨session, sock⟩ = some (r, s') ∧
      (r = .ok () ↔ Whole sock ∧ challengeByte heap sock 0 = 1) ∧
      match r with
      | .ok _ => Slices heap sock s'.session ∧ ∃ save,
        s'.session.initServerPacket = some save ∧ save.data.length = packetEnd sock ∧
          sock = save.data ++ s'.sock
      | .error e => (∃ ret hret, e = .code ret hret) ∧
        s'.session.initServerPacket = session.initServerPacket := by
  obtain ⟨r, s', hrun, hpost⟩ := ends_readServerInitialPacket mem heap session sock
  refine ⟨r, s', hrun, ?_⟩
  cases r with
  | ok =>
    obtain ⟨haccepted, hslices, hrest, save, hsave, hdata⟩ := hpost
    refine ⟨iff_of_true rfl haccepted, hslices, save, hsave, ?_, ?_⟩
    · rw [hdata, List.length_take]
      exact Nat.min_eq_left haccepted.1.1
    · rw [hdata, hrest, List.take_append_drop]
  | error e =>
    obtain ⟨hinit, hno, habort⟩ := hpost
    refine ⟨iff_of_false nofun hno, ?_, hinit⟩
    cases e with
    | code ret hret => exact ⟨ret, hret, rfl⟩
    | abort =>
      obtain ⟨hle, -, hzero⟩ := habort.mp rfl
      exact absurd hzero (hpad hle)

/-- The smallest packet with a puzzle: a byte of padding, no name, and six bytes of challenge. -/
def smallestPacket : List UInt8 :=
  List.replicate 378 0 ++ [1, 0, 0, 6, 0, 0, 0, 0, 0, 0, 9, 1, 2, 3, 4, 5, 6]

theorem smallestPacket_transcript : ∃ s' save,
    readServerInitialPacket (fun _ => 0) (fun _ => 0) ⟨⟨.replicate 16 0, .replicate 96 0,
      .replicate 256 0, .replicate 10 0, .replicate 256 0, 0, 0, 0, none⟩,
      smallestPacket ++ [7]⟩ = some (.ok (), s') ∧ s'.session.initServerPacket = some save ∧
      smallestPacket ++ [7] = save.data ++ s'.sock := by
  obtain ⟨r, s', hrun, haccepted, hpost⟩ :=
    readServerInitialPacket_transcript (fun _ => 0) (fun _ => 0) ⟨.replicate 16 0,
      .replicate 96 0, .replicate 256 0, .replicate 10 0, .replicate 256 0, 0, 0, 0, none⟩
      (smallestPacket ++ [7]) fun _ => by decide +kernel
  obtain rfl := haccepted.mpr (by
    unfold Whole
    decide +kernel)
  obtain ⟨-, save, hsave, -, hdata⟩ := hpost
  exact ⟨s', save, hrun, hsave, hdata⟩

/-! ## Hostile servers -/

/-- Whatever memory holds: no assertion fails, and a puzzle is of bytes that came. -/
def Safe (session : Session) (sock : List UInt8) : Prop :=
  ∀ mem heap, ∃ r s', readServerInitialPacket mem heap ⟨session, sock⟩ = some (r, s') ∧
    r ≠ .error .abort ∧ (r = .ok () → 6 ≤ challengeLen sock ∧
      s'.session = s'.session.withPuzzle fun i => sock.getD (challengeStart sock + i) 0)

/-- **Hostile servers**: the function is safe exactly on the streams whose padding length is not
0 and whose challenge, when it is shorter than six bytes, has a first byte that is not 1. -/
theorem safe_iff (session : Session) (sock : List UInt8) :
    Safe session sock ↔ ¬ ZeroPadding sock ∧ (Whole sock → 6 ≤ challengeLen sock ∨
      0 < challengeLen sock ∧ sock.getD (challengeStart sock) 0 ≠ 1) := by
  constructor
  · intro h
    refine ⟨fun hzero => ?_, fun hwhole => ?_⟩
    · obtain ⟨r, s', hrun, habort, -⟩ := h (fun _ => 0) fun _ => 0
      obtain ⟨r', s'', hrun', hpost⟩ :=
        ends_readServerInitialPacket (fun _ => 0) (fun _ => 0) session sock
      cases hrun.symm.trans hrun'
      cases r with
      | ok => exact hpost.1.1.2.2 hzero.2.2
      | error e => exact habort (congrArg _ (hpost.2.2.mpr hzero))
    · -- the heap may hold a 1
      by_contra hno
      rw [not_or, not_and, not_not] at hno
      obtain ⟨r, s', hrun, -, hok⟩ := h (fun _ => 0) fun _ => 1
      obtain ⟨r', s'', hrun', hpost⟩ :=
        ends_readServerInitialPacket (fun _ => 0) (fun _ => 1) session sock
      cases hrun.symm.trans hrun'
      have hone : challengeByte (fun _ => 1) sock 0 = 1 := by
        unfold challengeByte
        split
        · exact hno.2 ‹_›
        · rfl
      cases r with
      | ok => exact hno.1 (hok rfl).1
      | error e => exact hpost.2.1 ⟨hwhole, hone⟩
  · rintro ⟨hpad, hlen⟩ mem heap
    obtain ⟨r, s', hrun, hpost⟩ := ends_readServerInitialPacket mem heap session sock
    refine ⟨r, s', hrun, ?_, ?_⟩
    · rintro rfl
      exact hpad (hpost.2.2.mp rfl)
    · rintro rfl
      obtain ⟨⟨hwhole, hone⟩, hslices, -⟩ := hpost
      have hsix : 6 ≤ challengeLen sock := by
        rcases hlen hwhole with hsix | ⟨hpos, hne⟩
        · exact hsix
        · refine absurd ?_ hne
          rwa [challengeByte, if_pos hpos] at hone
      refine ⟨hsix, ?_⟩
      have hbyte : ∀ i < 6, challengeByte heap sock i = sock.getD (challengeStart sock + i) 0 :=
        fun i hi => if_pos (by omega)
      have hpuzzle := hslices.puzzle
      unfold Session.withPuzzle at hpuzzle ⊢
      rwa [hbyte 1 (by decide), hbyte 2 (by decide), hbyte 3 (by decide), hbyte 4 (by decide),
        hbyte 5 (by decide)] at hpuzzle

/-- A server that sends nothing but zeros. -/
theorem not_safe_zeros : ¬ ∀ (session : Session) (sock : List UInt8), Safe session sock := by
  intro h
  have hzero : ZeroPadding (List.replicate 379 0) := by
    unfold ZeroPadding
    decide +kernel
  obtain ⟨session⟩ : Nonempty Session :=
    ⟨⟨.replicate 16 0, .replicate 96 0, .replicate 256 0, .replicate 10 0, .replicate 256 0, 0, 0, 0,
      none⟩⟩
  obtain ⟨r, s', hrun, habort, -⟩ := h session (List.replicate 379 0) (fun _ => 0) fun _ => 0
  obtain ⟨r', s'', hrun', hpost⟩ :=
    ends_readServerInitialPacket (fun _ => 0) (fun _ => 0) session (List.replicate 379 0)
  cases hrun.symm.trans hrun'
  cases r with
  | ok => exact hpost.1.1.2.2 hzero.2.2
  | error e => exact habort (congrArg _ (hpost.2.2.mpr hzero))

end Despotify.KeyExchange

import Despotify.Gateway.Model
import Despotify.Lib.Buf
import Despotify.Pool.Filling
import Despotify.Wire.SearchRequest

/-!
# Ids in hexadecimal

A command line gives its ids and keys as hexadecimal text.  `rest_fsm` checks the lengths only,
and `hex_ascii_to_bytes` of `lib/util.c` converts with `sscanf`; no caller looks at whether it
came to the end.

    the bytes that go out are those the text denotes, and a text that denotes none is refused

      iff  every character of the arguments is a hexadecimal digit        (idsFaithful_iff)

Behind a conversion that fails, what the stack held goes out (`hexAsciiToBytes_eq`,
`sent_image_of_fails`).
-/

namespace Despotify.Ids

open Lib Gateway

/-! ## The decoder -/

/-- `sscanf` with `"%02x"`: blanks are skipped, a sign and the `0x` of a prefix count for the
width. -/
def scan02x (input : List UInt8) : Option UInt8 :=
  match input.dropWhile isspace with
  | [] => none
  | [a] => hexValue a
  | a :: b :: _ => scanHex a b

/-- `hex_ascii_to_bytes`: what becomes of the array, and whether it is returned. -/
def hexAsciiToBytes (ascii bytes : List UInt8) (len : Nat) : List UInt8 × Bool :=
  Filling.fill (fun i => scan02x (ascii.drop (2 * i))) len bytes

/-! ## The commands -/

/-- What a request comes to: a packet for `packet_write`, or an assertion that fails first. -/
inductive Sent
  | aborted
  | packet (cmd : UInt8) (payload : List UInt8)
deriving DecidableEq, Repr

section
variable (mem : Nat → UInt8) (channelId : Nat)

/-- A packet of these fields. -/
def write (cmd : UInt8) (fields : List (List UInt8)) : Option Sent := do
  let b ← (Buf.new mem).appendAll mem fields
  return .packet cmd b.data

/-- `cmd_browse`, with the id of the channel it registers. -/
def cmdBrowse (kind : UInt8) (idlist : List UInt8) (num : Nat) : Option Sent :=
  if ((kind = 1 ∨ kind = 2) ∧ num = 1) ∨ kind = 3 then
    write mem 0x30 ([htons channelId, [kind]] ++
      (List.range num).map (fun i => (idlist.drop (i * 16)).take 16) ++
      if kind = 2 ∨ kind = 1 then [htonl 0] else [])
  else some .aborted

def cmdRequestImage (hash : List UInt8) : Option Sent :=
  write mem 0x19 [htons channelId, hash.take 20]

def cmdGetplaylist (playlistId : List UInt8) (revision : UInt32) : Option Sent :=
  write mem 0x35 [htons channelId, playlistId.take 17, htonl revision, htonl 0, htonl 0xffffffff,
    [1]]

def cmdAeskey (fileId trackId : List UInt8) : Option Sent :=
  write mem 0x0c [fileId.take 20, trackId.take 16, htons 0, htons channelId]

def cmdGetsubstreams (fileId : List UInt8) (offset length unknown200k : UInt32) : Option Sent :=
  if offset % 4096 ≠ 0 ∨ length % 4096 ≠ 0 then some .aborted
  else write mem 0x08 [htons channelId, htons 0x0800, htons 0, htons 0, htons 0, htons 0x4e20,
    htonl unknown200k, fileId.take 20, htonl (offset >>> 2), htonl (offset >>> 2 + length >>> 2)]

variable (lib : Lib) (own : Nat)

/-- An array of the stack as the decoder finds it, for the command on the channel `own`. -/
def found (k : UInt32) (len : Nat) : List UInt8 := (List.range len).map (lib.uninit own k)

def gwBrowse (kind : UInt8) (idAsHex : List UInt8) (numIds : Nat) : Option Sent :=
  let id := (hexAsciiToBytes idAsHex (found lib own 0 (16 * numIds)) (16 * numIds)).1
  cmdBrowse mem channelId kind id numIds

def gwImage (idAsHex : List UInt8) : Option Sent :=
  cmdRequestImage mem channelId (hexAsciiToBytes idAsHex (found lib own 0 20) 20).1

/-- PLAYLIST_CURRENT is `~0`. -/
def gwGetplaylist (playlistHexId : List UInt8) : Option Sent :=
  cmdGetplaylist mem channelId (hexAsciiToBytes playlistHexId (found lib own 0 17) 17).1 0xffffffff

/-- The branch of REST_STATE_PROCESS_CLIENT_COMMAND down to `packet_write`; `rest_fsm` itself
converts the arguments of `key` and `substream`. -/
def sent : Request → Option Sent
  | .browse kind ids num => gwBrowse mem channelId lib own kind ids num
  | .image id => gwImage mem channelId lib own id
  | .search searchtext => (SearchRequest.cmdSearch mem channelId searchtext 0 100).map fun
    | .refused => .aborted
    | .payload bytes => .packet 0x31 bytes
  | .key fileId trackId =>
    cmdAeskey mem channelId (hexAsciiToBytes fileId (found lib own 0 20) 20).1
      (hexAsciiToBytes trackId (found lib own 1 16) 16).1
  | .substream fileId offset length _ =>
    cmdGetsubstreams mem channelId (hexAsciiToBytes fileId (found lib own 1 20) 20).1 offset length
      200000
  | .playlist id => gwGetplaylist mem channelId lib own id

end

/-! ## What a text denotes -/

def isxdigit (c : UInt8) : Bool :=
  (48 ≤ c && c ≤ 57) || (65 ≤ c && c ≤ 70) || (97 ≤ c && c ≤ 102)

/-- The digit at an index. -/
def digitAt (hex : List UInt8) (k : Nat) : UInt8 := ((hex[k]?).bind hexValue).getD 0

/-- Two digits to a byte. -/
def denoted (hex : List UInt8) : List UInt8 :=
  (List.range (hex.length / 2)).map fun i => 16 * digitAt hex (2 * i) + digitAt hex (2 * i + 1)

/-- The arguments that go into the packet. -/
def idArgs : Request → List (List UInt8)
  | .browse _ ids _ => [ids]
  | .image id => [id]
  | .search _ => []
  | .key fileId trackId => [fileId, trackId]
  | .substream fileId _ _ _ => [fileId]
  | .playlist id => [id]

/-- The hexadecimal arguments. -/
def hexArgs : Request → List (List UInt8)
  | .substream fileId _ _ key => [fileId, key]
  | req => idArgs req

/-- Every character is a hexadecimal digit. -/
def InHex (req : Request) : Prop := ∀ arg ∈ hexArgs req, ∀ c ∈ arg, isxdigit c = true

/-- The ids in a packet, where the server looks for them. -/
def Sent.ids : Sent → List (List UInt8)
  | .aborted => []
  | .packet cmd payload =>
    if cmd = 0x30 then
      [if payload[2]? = some 3 then payload.drop 3 else (payload.drop 3).take 16]
    else if cmd = 0x19 then [payload.drop 2]
    else if cmd = 0x35 then [(payload.drop 2).take 17]
    else if cmd = 0x0c then [payload.take 20, (payload.drop 20).take 16]
    else if cmd = 0x08 then [(payload.drop 16).take 20]
    else []

/-- A request for data that is not in whole units of 4096 bytes. -/
def Misaligned : Request → Prop
  | .substream _ offset length _ => offset % 4096 ≠ 0 ∨ length % 4096 ≠ 0
  | _ => False

/-- The bytes used are those the arguments denote. -/
structure Carried (mem : Nat → UInt8) (channelId : Nat) (lib : Lib) (own : Nat) (req : Request) :
    Prop where
  packet : ∃ p, sent mem channelId lib own req = some p ∧
    (p = .aborted ∧ Misaligned req ∨ p.ids = (idArgs req).map denoted)
  key : ∀ fileId trackId, req = .key fileId trackId →
    req.context lib own = .buf (fileKeyHead (denoted fileId) (denoted trackId))
  substream : ∀ fileId offset length key, req = .substream fileId offset length key →
    req.context lib own = .sctx ⟨[], denoted key, startIV offset⟩

/-- A connection about to carry out a command for its client. -/
structure Ready (s : Sys) (r : Rest) (c : Client) : Prop where
  running : s.mem.fault = none
  state : r.state = .processClientCommand
  client : r.client = some c.ptr
  found : s.client? c.ptr = some c

/-- **The law** of one command: a request in hexadecimal goes out with the bytes denoted, any
other is answered with an error, and nothing goes out. -/
structure IdsFaithful (mem : Nat → UInt8) (channelId : Nat) (lib : Lib) (s : Sys) (r : Rest)
    (env : RestEnv) (req : Request) : Prop where
  carried : InHex req → Carried mem channelId lib s.world.table.brk req ∧
    (env.alloc = true →
      (restFsm lib s r env).1.issued = s.issued ++ [⟨r.ptr, s.world.table.brk, req⟩])
  refused : ¬ InHex req → (restFsm lib s r env).1.issued = s.issued ∧
    ∃ text, ascii "501 " <+: text ∧ (restFsm lib s r env).1.sent = s.sent ++ [(r.ptr, text)]

/-! ## Decoding -/

theorem hexValue_isSome (c : UInt8) : (hexValue c).isSome = isxdigit c := by
  have hfin : ∀ n < 256, (hexValue (UInt8.ofNat n)).isSome = isxdigit (UInt8.ofNat n) := by
    decide +kernel
  have h := hfin c.toNat c.toNat_lt
  rwa [UInt8.ofNat_toNat] at h

theorem not_isspace_of_isxdigit {c : UInt8} (h : isxdigit c = true) : isspace c = false := by
  have hfin : ∀ n < 256, isxdigit (UInt8.ofNat n) = true → isspace (UInt8.ofNat n) = false := by
    decide +kernel
  have hc := hfin c.toNat c.toNat_lt
  rw [UInt8.ofNat_toNat] at hc
  exact hc h

theorem hexValue_digitAt {hex : List UInt8} (hhex : ∀ c ∈ hex, isxdigit c = true) {k : Nat}
    (hk : k < hex.length) : hexValue hex[k] = some (digitAt hex k) := by
  have hsome : (hexValue hex[k]).isSome := by
    rw [hexValue_isSome]
    exact hhex _ (List.getElem_mem hk)
  obtain ⟨x, hx⟩ := Option.isSome_iff_exists.mp hsome
  rw [digitAt, List.getElem?_eq_getElem hk, Option.bind_some, hx]
  rfl

/-- A conversion at two digits. -/
theorem scan02x_digits {hex : List UInt8} (hhex : ∀ c ∈ hex, isxdigit c = true) {i : Nat}
    (hi : 2 * i + 1 < hex.length) : scan02x (hex.drop (2 * i)) =
      some (16 * digitAt hex (2 * i) + digitAt hex (2 * i + 1)) := by
  have hdrop : hex.drop (2 * i) = hex[2 * i] :: hex[2 * i + 1] :: hex.drop (2 * i + 2) := by
    rw [List.drop_eq_getElem_cons (by omega), List.drop_eq_getElem_cons hi]
  have hblank : isspace hex[2 * i] = false :=
    not_isspace_of_isxdigit (hhex _ (List.getElem_mem (by omega)))
  rw [scan02x, hdrop, List.dropWhile_cons, hblank]
  show scanHex hex[2 * i] hex[2 * i + 1] = _
  rw [scanHex, hexValue_digitAt hhex, hexValue_digitAt hhex]

/-- **The decoder** on any text: what it converts, and behind it what the array held. -/
theorem hexAsciiToBytes_eq (ascii : List UInt8) {bytes : List UInt8} {len : Nat}
    (h : bytes.length = len) : ∃ front : List UInt8, front.length ≤ len ∧
      hexAsciiToBytes ascii bytes len =
        (front ++ bytes.drop front.length, decide (front.length = len)) :=
  ⟨_, Filling.length_values_le 0 len, Filling.fill_eq (Nat.le_of_eq h.symm)⟩

/-- On hexadecimal digits nothing is left of what the array held. -/
theorem hexAsciiToBytes_digits {hex bytes : List UInt8} {len : Nat} (hlen : hex.length = 2 * len)
    (hbytes : bytes.length = len) (hhex : ∀ c ∈ hex, isxdigit c = true) :
    hexAsciiToBytes hex bytes len = (denoted hex, true) := by
  have hhalf : hex.length / 2 = len := by omega
  rw [denoted, hhalf]
  exact Filling.fill_map hbytes fun i hi => scan02x_digits hhex (by omega)

@[simp] theorem length_denoted (hex : List UInt8) : (denoted hex).length = hex.length / 2 := by
  rw [denoted, List.length_map, List.length_range]

@[simp] theorem length_found (lib : Lib) (own : Nat) (k : UInt32) (len : Nat) :
    (found lib own k len).length = len := by
  rw [found, List.length_map, List.length_range]

theorem fill_append {bytes : List UInt8} {len : Nat} (h : bytes.length ≤ len)
    (junk : Nat → UInt8) :
    fill len bytes junk = bytes ++ ((List.range len).map junk).drop bytes.length := by
  refine List.ext_getElem ?_ fun i hi hi' => ?_
  · rw [fill, List.length_map, List.length_range, List.length_append, List.length_drop,
      List.length_map, List.length_range]
    omega
  · rw [fill, List.length_map, List.length_range] at hi
    simp only [fill, List.getElem_map, List.getElem_range]
    by_cases hfront : i < bytes.length
    · rw [List.getElem?_eq_getElem hfront, List.getElem_append_left hfront]
      rfl
    · rw [List.getElem?_eq_none (by omega), List.getElem_append_right (by omega)]
      simp only [List.getElem_drop, List.getElem_map, List.getElem_range]
      rw [Nat.add_sub_cancel' (by omega)]
      rfl

theorem values_word {word : List UInt8} (hword : ∀ c ∈ word, isspace c = false) {i n : Nat}
    (hlen : word.length = 2 * (i + n)) :
    Filling.values (fun j => scan02x (word.drop (2 * j))) i n =
      Gateway.hexAsciiToBytes (word.drop (2 * i)) := by
  induction n generalizing i with
  | zero =>
    rw [List.drop_of_length_le (by omega)]
    rfl
  | succ n ih =>
    have hdrop : word.drop (2 * i) = word[2 * i] :: word[2 * i + 1] :: word.drop (2 * (i + 1)) := by
      rw [List.drop_eq_getElem_cons (by omega), List.drop_eq_getElem_cons (by omega)]
      rfl
    have hscan : scan02x (word.drop (2 * i)) = scanHex word[2 * i] word[2 * i + 1] := by
      rw [scan02x, hdrop, List.dropWhile_cons, hword _ (List.getElem_mem (by omega))]
      rfl
    rw [Filling.values, hscan, hdrop, Gateway.hexAsciiToBytes]
    cases scanHex word[2 * i] word[2 * i + 1] with
    | none => rfl
    | some value => exact congrArg (value :: ·) (ih (by omega))

/-- What the contexts of `key` and `substream` hold of a word is what the decoder leaves. -/
theorem fill_word {word : List UInt8} (hword : ∀ c ∈ word, isspace c = false) {len : Nat}
    (hlen : word.length = 2 * len) (junk : Nat → UInt8) :
    fill len (Gateway.hexAsciiToBytes word) junk =
      (hexAsciiToBytes word ((List.range len).map junk) len).1 := by
  have hvalues := @values_word word hword 0 len (by omega)
  have hle := Filling.length_values_le (f := fun j => scan02x (word.drop (2 * j))) 0 len
  have hjunk : ((List.range len).map junk).length = len := by
    rw [List.length_map, List.length_range]
  rw [hexAsciiToBytes, Filling.fill_eq (Nat.le_of_eq hjunk.symm)]
  rw [hvalues, Nat.mul_zero, List.drop_zero] at hle ⊢
  exact fill_append hle junk

theorem fill_digits {hex : List UInt8} {len : Nat} (hlen : hex.length = 2 * len)
    (hhex : ∀ c ∈ hex, isxdigit c = true) (junk : Nat → UInt8) :
    fill len (Gateway.hexAsciiToBytes hex) junk = denoted hex := by
  rw [fill_word (fun c hc => not_isspace_of_isxdigit (hhex c hc)) hlen,
    hexAsciiToBytes_digits hlen (by rw [List.length_map, List.length_range]) hhex]

/-! ## What is accepted -/

/-- The lengths that `rest_fsm` checks. -/
def Sized : Request → Prop
  | .browse kind ids num =>
    ids.length = 32 * num ∧ num ≤ 128 ∧ ((kind = 1 ∨ kind = 2) ∧ num = 1 ∨ kind = 3)
  | .image id => id.length = 40
  | .search _ => True
  | .key fileId trackId => fileId.length = 40 ∧ trackId.length = 32
  | .substream fileId _ _ key => fileId.length = 40 ∧ key.length = 32
  | .playlist id => id.length = 34

theorem idCommand_request {name : String} {len : Nat} {text : String}
    {mk : List UInt8 → Request} {command : List UInt8} {req : Request}
    (h : idCommand name len text mk command = .request req) :
    ∃ id, id.length = len ∧ req = mk id := by
  unfold idCommand at h
  split at h
  · cases h
  · next hlen =>
    cases h
    refine ⟨_, ?_, rfl⟩
    rw [List.length_drop, not_not.mp hlen, Nat.add_sub_cancel_left]

theorem browsetrack_sized {command : List UInt8} {req : Request}
    (h : browsetrack command = .request req) : Sized req := by
  unfold browsetrack at h
  simp only at h
  split at h
  · cases h
  · next hlen =>
    cases h
    rw [not_or, not_or] at hlen
    exact ⟨by omega, by omega, Or.inr rfl⟩

theorem keyCommand_sized {fileId trackId : List UInt8} {req : Request}
    (h : keyCommand fileId trackId = .request req) : Sized req := by
  unfold keyCommand at h
  split at h
  · cases h
  · next hlen =>
    cases h
    rw [not_or] at hlen
    exact ⟨not_not.mp hlen.1, not_not.mp hlen.2⟩

theorem substreamCommand_sized {fileId key : List UInt8} {offset length : UInt32} {req : Request}
    (h : substreamCommand fileId offset length key = .request req) : Sized req := by
  unfold substreamCommand at h
  split at h
  · cases h
  · next hlen =>
    cases h
    rw [not_or, not_or] at hlen
    exact ⟨not_not.mp hlen.1, not_not.mp hlen.2.2⟩

/-- Every request that `rest_fsm` accepts has arguments of the right lengths. -/
theorem sized_of_accepted {command : List UInt8} {req : Request}
    (h : clientCommand command = .request req) : Sized req := by
  rw [clientCommand] at h
  by_cases hquit : command = ascii "quit"
  · rw [if_pos hquit] at h
    cases h
  rw [if_neg hquit] at h
  by_cases hlogout : command = ascii "logout"
  · rw [if_pos hlogout] at h
    cases h
  rw [if_neg hlogout] at h
  by_cases hid : command = ascii "id"
  · rw [if_pos hid] at h
    cases h
  rw [if_neg hid] at h
  by_cases hcountry : command = ascii "country"
  · rw [if_pos hcountry] at h
    cases h
  rw [if_neg hcountry] at h
  by_cases hartist : startsWith "browseartist " command = true
  · rw [if_pos hartist] at h
    obtain ⟨id, hid, rfl⟩ := idCommand_request h
    exact ⟨hid, by omega, Or.inl ⟨Or.inl rfl, rfl⟩⟩
  rw [if_neg hartist] at h
  by_cases halbum : startsWith "browsealbum " command = true
  · rw [if_pos halbum] at h
    obtain ⟨id, hid, rfl⟩ := idCommand_request h
    exact ⟨hid, by omega, Or.inl ⟨Or.inr rfl, rfl⟩⟩
  rw [if_neg halbum] at h
  by_cases htrack : startsWith "browsetrack " command = true
  · rw [if_pos htrack] at h
    exact browsetrack_sized h
  rw [if_neg htrack] at h
  by_cases himage : startsWith "image " command = true
  · rw [if_pos himage] at h
    obtain ⟨id, hid, rfl⟩ := idCommand_request h
    exact hid
  rw [if_neg himage] at h
  by_cases hsearch : startsWith "search " command = true
  · rw [if_pos hsearch] at h
    cases h
    trivial
  rw [if_neg hsearch] at h
  split at h
  · exact keyCommand_sized h
  · split at h
    · exact substreamCommand_sized h
    · by_cases hplaylist : startsWith "playlist " command = true
      · rw [if_pos hplaylist] at h
        obtain ⟨id, hid, rfl⟩ := idCommand_request h
        exact hid
      · rw [if_neg hplaylist] at h
        cases h

/-! ## The packets -/

section
variable {mem : Nat → UInt8} {channelId : Nat}

theorem write_some (cmd : UInt8) {fields : List (List UInt8)}
    (h : fields.flatten.length ≤ 2 ^ 30) :
    write mem cmd fields = some (.packet cmd fields.flatten) := by
  obtain ⟨b, hb, -, -, hdata⟩ := @Buf.appendAll_some mem (Buf.new mem) Buf.sound_new fields (by
    show 0 + fields.flatten.length ≤ 2 ^ 30
    omega)
  rw [Buf.data_new, List.nil_append] at hdata
  rw [write, hb, ← hdata]
  rfl

/-- The ids of a list are written one by one. -/
theorem flatten_slices {idlist : List UInt8} {num : Nat} (h : idlist.length = 16 * num) :
    ((List.range num).map fun i => (idlist.drop (i * 16)).take 16).flatten = idlist := by
  induction num generalizing idlist with
  | zero => exact (List.length_eq_zero_iff.mp h).symm
  | succ num ih =>
    have hrest : (idlist.drop 16).length = 16 * num := by
      rw [List.length_drop]
      omega
    have hmap : ((List.range num).map fun i => (idlist.drop ((i + 1) * 16)).take 16) =
        (List.range num).map fun i => ((idlist.drop 16).drop (i * 16)).take 16 := by
      refine List.map_congr_left fun i _ => ?_
      rw [List.drop_drop, Nat.succ_mul, Nat.add_comm]
    rw [List.range_succ_eq_map, List.map_cons, List.map_map, List.flatten_cons]
    show idlist.take 16 ++ ((List.range num).map fun i =>
      (idlist.drop ((i + 1) * 16)).take 16).flatten = idlist
    rw [hmap, ih hrest, List.take_append_drop]

theorem cmdBrowse_ids {kind : UInt8} {idlist : List UInt8} {num : Nat}
    (hlen : idlist.length = 16 * num) (hnum : num ≤ 128)
    (hkind : (kind = 1 ∨ kind = 2) ∧ num = 1 ∨ kind = 3) :
    ∃ p, cmdBrowse mem channelId kind idlist num = some p ∧ p.ids = [idlist] := by
  have hfields : ∀ tail : List (List UInt8), ([htons channelId, [kind]] ++
      (List.range num).map (fun i => (idlist.drop (i * 16)).take 16) ++ tail).flatten =
      htons channelId ++ [kind] ++ idlist ++ tail.flatten := by
    intro tail
    rw [List.flatten_append, List.flatten_append, flatten_slices hlen]
    rfl
  have hwrite : ∀ tail : List (List UInt8), tail.flatten.length ≤ 4 →
      write mem 0x30 ([htons channelId, [kind]] ++
        (List.range num).map (fun i => (idlist.drop (i * 16)).take 16) ++ tail) =
      some (.packet 0x30 (htons channelId ++ [kind] ++ idlist ++ tail.flatten)) := by
    intro tail htail
    rw [write_some, hfields]
    rw [hfields]
    simp only [List.length_append, length_htons, List.length_singleton]
    omega
  rw [cmdBrowse, if_pos hkind]
  by_cases hone : kind = 2 ∨ kind = 1
  · have hthree : kind ≠ 3 := by
      rintro rfl
      revert hone
      decide
    obtain rfl : num = 1 := (hkind.resolve_right hthree).2
    rw [if_pos hone, hwrite _ (by decide)]
    refine ⟨_, rfl, ?_⟩
    show [if some kind = some 3 then _ else (idlist ++ (htonl 0 ++ [])).take 16] = [idlist]
    rw [if_neg fun h => hthree (Option.some.inj h), List.take_left' (by omega)]
  · obtain rfl : kind = 3 := hkind.resolve_left fun h => hone h.1.symm
    rw [if_neg hone, hwrite _ (by decide)]
    refine ⟨_, rfl, ?_⟩
    show [idlist ++ []] = [idlist]
    rw [List.append_nil]

theorem cmdRequestImage_ids {hash : List UInt8} (h : hash.length = 20) :
    ∃ p, cmdRequestImage mem channelId hash = some p ∧ p.ids = [hash] := by
  rw [cmdRequestImage, List.take_of_length_le (by omega), write_some _ (by
    simp only [List.flatten_cons, List.flatten_nil, List.length_append, length_htons, h]
    decide)]
  refine ⟨_, rfl, ?_⟩
  show [hash ++ []] = [hash]
  rw [List.append_nil]

theorem cmdGetplaylist_ids {playlistId : List UInt8} (h : playlistId.length = 17)
    (revision : UInt32) :
    ∃ p, cmdGetplaylist mem channelId playlistId revision = some p ∧ p.ids = [playlistId] := by
  rw [cmdGetplaylist, List.take_of_length_le (by omega), write_some _ (by
    simp only [List.flatten_cons, List.flatten_nil, List.length_append, length_htons,
      length_htonl, h]
    decide)]
  refine ⟨_, rfl, ?_⟩
  show [(playlistId ++ _).take 17] = [playlistId]
  rw [List.take_left' h]

theorem cmdAeskey_ids {fileId trackId : List UInt8} (hfile : fileId.length = 20)
    (htrack : trackId.length = 16) :
    ∃ p, cmdAeskey mem channelId fileId trackId = some p ∧ p.ids = [fileId, trackId] := by
  rw [cmdAeskey, List.take_of_length_le (by omega), List.take_of_length_le (by omega),
    write_some _ (by
      simp only [List.flatten_cons, List.flatten_nil, List.length_append, length_htons, hfile,
        htrack]
      decide)]
  refine ⟨_, rfl, ?_⟩
  show [(fileId ++ (trackId ++ _)).take 20, ((fileId ++ (trackId ++ _)).drop 20).take 16] = _
  rw [List.take_left' hfile, List.drop_left' hfile, List.take_left' htrack]

theorem cmdGetsubstreams_ids {fileId : List UInt8} (h : fileId.length = 20)
    (offset length unknown200k : UInt32) :
    ∃ p, cmdGetsubstreams mem channelId fileId offset length unknown200k = some p ∧
      (p = .aborted ∧ (offset % 4096 ≠ 0 ∨ length % 4096 ≠ 0) ∨ p.ids = [fileId]) := by
  by_cases halign : offset % 4096 ≠ 0 ∨ length % 4096 ≠ 0
  · exact ⟨.aborted, by rw [cmdGetsubstreams, if_pos halign], Or.inl ⟨rfl, halign⟩⟩
  · rw [cmdGetsubstreams, if_neg halign, List.take_of_length_le (by omega), write_some _ (by
      simp only [List.flatten_cons, List.flatten_nil, List.length_append, length_htons,
        length_htonl, h]
      decide)]
    refine ⟨_, rfl, Or.inr ?_⟩
    show [(fileId ++ _).take 20] = [fileId]
    rw [List.take_left' h]

/-- A search carries no id. -/
theorem cmdSearch_ids (searchtext : List UInt8) (lib : Lib) (own : Nat) :
    ∃ p, sent mem channelId lib own (.search searchtext) = some p ∧ p.ids = [] := by
  obtain ⟨bytes, hbytes, -⟩ := SearchRequest.cmdSearch_some mem channelId searchtext 0
    (show (100 : UInt32) ≠ 0 by decide)
  refine ⟨.packet 0x31 bytes, ?_, rfl⟩
  show (SearchRequest.cmdSearch mem channelId searchtext 0 100).map _ = _
  rw [hbytes]
  rfl

end

/-! ## What goes out -/

section
variable {mem : Nat → UInt8} {channelId : Nat} {lib : Lib} {s : Sys} {r : Rest} {c : Client}
  {env : RestEnv} {req : Request}

/-- The arguments are converted to the bytes they denote. -/
theorem carried_of_inHex (hsized : Sized req) (hhex : InHex req) (own : Nat) :
    Carried mem channelId lib own req := by
  have hdigits : ∀ (arg : List UInt8) (k : UInt32) (len : Nat), arg ∈ hexArgs req →
      arg.length = 2 * len →
      (hexAsciiToBytes arg (found lib own k len) len).1 = denoted arg := by
    intro arg k len harg hlen
    rw [hexAsciiToBytes_digits hlen (length_found lib own k len) (hhex arg harg)]
  have hdenoted : ∀ (arg : List UInt8) (len : Nat), arg.length = 2 * len →
      (denoted arg).length = len := by
    intro arg len hlen
    rw [length_denoted]
    omega
  cases req with
  | browse kind ids num =>
    obtain ⟨hlen, hnum, hkind⟩ := hsized
    have hlen : ids.length = 2 * (16 * num) := by omega
    obtain ⟨p, hp, hids⟩ := @cmdBrowse_ids mem channelId kind _ _ (hdenoted ids _ hlen) hnum hkind
    refine ⟨⟨p, ?_, Or.inr hids⟩, nofun, nofun⟩
    show cmdBrowse mem channelId kind _ num = some p
    rw [hdigits ids 0 _ (List.mem_singleton_self ids) hlen, hp]
  | image id =>
    obtain ⟨p, hp, hids⟩ := @cmdRequestImage_ids mem channelId _ (hdenoted id 20 hsized)
    refine ⟨⟨p, ?_, Or.inr hids⟩, nofun, nofun⟩
    show cmdRequestImage mem channelId _ = some p
    rw [hdigits id 0 20 (List.mem_singleton_self id) hsized, hp]
  | search searchtext =>
    obtain ⟨p, hp, hids⟩ := @cmdSearch_ids mem channelId searchtext lib own
    exact ⟨⟨p, hp, Or.inr hids⟩, nofun, nofun⟩
  | key fileId trackId =>
    obtain ⟨hfile, htrack⟩ := hsized
    obtain ⟨p, hp, hids⟩ := @cmdAeskey_ids mem channelId _ _ (hdenoted fileId 20 hfile)
      (hdenoted trackId 16 htrack)
    have hfileHex : fileId ∈ hexArgs (.key fileId trackId) := List.mem_cons_self
    have htrackHex : trackId ∈ hexArgs (.key fileId trackId) :=
      List.mem_cons_of_mem _ (List.mem_singleton_self trackId)
    refine ⟨⟨p, ?_, Or.inr hids⟩, ?_, nofun⟩
    · show cmdAeskey mem channelId _ _ = some p
      rw [hdigits fileId 0 20 hfileHex hfile, hdigits trackId 1 16 htrackHex htrack, hp]
    · intro fileId' trackId' heq
      cases heq
      show Object.buf (fileKeyHead _ _) = _
      rw [@fill_digits fileId 20 hfile (hhex fileId hfileHex),
        @fill_digits trackId 16 htrack (hhex trackId htrackHex)]
  | substream fileId offset length key =>
    obtain ⟨hfile, hkey⟩ := hsized
    obtain ⟨p, hp, hids⟩ := @cmdGetsubstreams_ids mem channelId _ (hdenoted fileId 20 hfile)
      offset length 200000
    have hfileHex : fileId ∈ hexArgs (.substream fileId offset length key) := List.mem_cons_self
    have hkeyHex : key ∈ hexArgs (.substream fileId offset length key) :=
      List.mem_cons_of_mem _ (List.mem_singleton_self key)
    refine ⟨⟨p, ?_, hids⟩, nofun, ?_⟩
    · show cmdGetsubstreams mem channelId _ offset length 200000 = some p
      rw [hdigits fileId 1 20 hfileHex hfile, hp]
    · intro fileId' offset' length' key' heq
      cases heq
      show Object.sctx ⟨[], _, startIV offset⟩ = _
      rw [@fill_digits key 16 hkey (hhex key hkeyHex)]
  | playlist id =>
    obtain ⟨p, hp, hids⟩ := @cmdGetplaylist_ids mem channelId _ (hdenoted id 17 hsized) 0xffffffff
    refine ⟨⟨p, ?_, Or.inr hids⟩, nofun, nofun⟩
    show cmdGetplaylist mem channelId _ 0xffffffff = some p
    rw [hdigits id 0 17 (List.mem_singleton_self id) hsized, hp]

/-- Where the first conversion of an image id fails, the packet holds what the stack held. -/
theorem sent_image_of_fails {id : List UInt8} (h : scan02x id = none) (own : Nat) :
    sent mem channelId lib own (.image id) =
      some (.packet 0x19 (htons channelId ++ found lib own 0 20)) := by
  have hkept : hexAsciiToBytes id (found lib own 0 20) 20 = (found lib own 0 20, false) := by
    rw [hexAsciiToBytes, Filling.fill, Filling.rounds, Nat.mul_zero, List.drop_zero, h]
  have hlen := length_found lib own 0 20
  show cmdRequestImage mem channelId _ = _
  rw [hkept, cmdRequestImage, List.take_of_length_le (Nat.le_of_eq hlen), write_some _ (by
    simp only [List.flatten_cons, List.flatten_nil, List.length_append, length_htons, hlen]
    decide)]
  show some (Sent.packet 0x19 (htons channelId ++ (found lib own 0 20 ++ []))) = _
  rw [List.append_nil]

theorem restFsm_request (hready : Ready s r c) (hreq : clientCommand r.command = .request req) :
    restFsm lib s r env = gwRequest lib s r c req env := by
  rw [restFsm, hready.state]
  show restClientCommand lib s r env = _
  rw [restClientCommand, hreq]
  simp only [Sys.deref, hready.client, hready.found]

/-- **A request is not answered** in the step that carries it out. -/
theorem gwRequest_sent : (gwRequest lib s r c req env).1.sent = s.sent := by
  unfold gwRequest
  cases req with
  | browse | search => simp only; split_ifs <;> rfl
  | image | playlist | key => simp only; split_ifs <;> rfl
  | substream =>
    simp only
    split_ifs
    · rfl
    · rfl
    · rfl
    · split <;> rfl
    · rfl

theorem gwRequest_issued (halloc : env.alloc = true) : (gwRequest lib s r c req env).1.issued =
    s.issued ++ [⟨r.ptr, s.world.table.brk, req⟩] := by
  unfold gwRequest
  cases req with
  | browse | search => simp only [if_pos halloc]; split_ifs <;> rfl
  | image | playlist | key => simp only; split_ifs <;> rfl
  | substream =>
    simp only [if_pos halloc]
    split_ifs
    · rfl
    · rfl
    · rfl
    · split <;> rfl

/-- The step does not answer, so the law can only hold of a request in hexadecimal. -/
theorem inHex_of_sent (hsent : (restFsm lib s r env).1.sent = s.sent)
    (h : IdsFaithful mem channelId lib s r env req) : InHex req := by
  by_contra hhex
  obtain ⟨-, text, -, htext⟩ := h.refused hhex
  have hlen := congrArg List.length (hsent.symm.trans htext)
  rw [List.length_append, List.length_singleton] at hlen
  omega

/-- **Ids in hexadecimal**: the law of a request that `rest_fsm` accepts. -/
theorem idsFaithful_iff (hready : Ready s r c) (hreq : clientCommand r.command = .request req) :
    IdsFaithful mem channelId lib s r env req ↔ InHex req := by
  have hstep := @restFsm_request lib s r c env req hready hreq
  constructor
  · refine inHex_of_sent ?_
    rw [hstep]
    exact gwRequest_sent
  · intro hhex
    refine ⟨fun _ => ⟨carried_of_inHex (sized_of_accepted hreq) hhex _, fun halloc => ?_⟩,
      fun hnot => absurd hhex hnot⟩
    rw [hstep]
    exact gwRequest_issued halloc

end

/-- `image` with one character forty times. -/
def imageLine (c : UInt8) : List UInt8 := ascii "image " ++ List.replicate 40 c

/-- One client is there, at the address 0. -/
def oneClient : Sys := Sys.init.setMem (Sys.init.mem.setClients [newClient 0 [] [] []])

/-- A connection that has loaded a line for it. -/
def loadedRest (command : List UInt8) : Rest :=
  { newRest 1 with state := .processClientCommand, command := command, client := some 0 }

theorem ready_loadedRest (command : List UInt8) :
    Ready oneClient (loadedRest command) (newClient 0 [] [] []) := ⟨rfl, rfl, rfl, rfl⟩

/-- Every call succeeds. -/
def quietEnv : RestEnv := ⟨none, true, true, true, []⟩

/-- Memory that nobody has written holds 170. -/
def strayLib : Lib := ⟨fun _ => ([], 0), fun _ _ _ => 0, fun _ _ _ => 170⟩

theorem idsFaithful_zeros :
    IdsFaithful (fun _ => 0) 7 strayLib oneClient (loadedRest (imageLine 48)) quietEnv
      (.image (List.replicate 40 48)) := by
  refine (idsFaithful_iff (ready_loadedRest (imageLine 48)) (by decide +kernel)).mpr ?_
  intro arg harg c hc
  obtain rfl := List.mem_singleton.mp harg
  obtain rfl := List.eq_of_mem_replicate hc
  rfl

/-- Forty `g`s are no id, but they are taken for one. -/
theorem not_idsFaithful :
    ¬ ∀ (lib : Lib) (s : Sys) (r : Rest) (c : Client) (env : RestEnv) (req : Request), Ready s r c →
      clientCommand r.command = .request req → IdsFaithful (fun _ => 0) 7 lib s r env req := by
  intro h
  have hready := ready_loadedRest (imageLine 103)
  have hreq : clientCommand (imageLine 103) = .request (.image (List.replicate 40 103)) := by
    decide +kernel
  have hstep := @restFsm_request strayLib oneClient _ _ quietEnv _ hready hreq
  have hhex := inHex_of_sent (by rw [hstep]; exact gwRequest_sent)
    (h strayLib oneClient _ _ quietEnv _ hready hreq)
  exact absurd (hhex _ (List.mem_singleton_self _) 103 (List.mem_replicate.mpr ⟨by decide, rfl⟩))
    (by decide)

end Despotify.Ids

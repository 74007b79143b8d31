import Despotify.Channel.Bounds
import Despotify.Channel.Receive
import Despotify.Lib.Xml

/-!
# The packet handlers

`handle_packet` of `lib/handlers.c` on one packet of the server: what it does to the
session and the channels, the value it returns, and what goes wrong on the way.

* `Accepted`: the packets the handlers are written for.
* `sound_iff`: exactly for these, whatever the channels and the callbacks.
-/

namespace Despotify.Handlers

open Channels Lib

variable {σ κ : Type}

/-! ## The session -/

/-- `struct ds_user_info`; `country` and `type` are all the bytes of the arrays, which lie side
by side. -/
structure UserInfo where
  username : List UInt8
  country : List UInt8
  type : List UInt8
  expiry : Int
  serverHost : List UInt8
  serverPort : Int
  lastPing : Nat
  country_length : country.length = 4
  type_length : type.length = 16

/-- What the handlers use of `SESSION`. -/
structure Session where
  rsaPubExp : List UInt8
  userInfo : UserInfo
  /-- how often `login_cond` has been signalled -/
  logins : Nat

/-- What the handlers meet outside. -/
structure Env where
  /-- `DSFYDEBUG` writes its log -/
  debug : Bool
  /-- what `cmd_send_cache_hash` and `cmd_ping_reply` return -/
  sendCacheHash : Int
  pingReply : Int
  /-- the tree of `ezxml_parse_str`, `none` when that reads outside the text -/
  ezxmlParseStr : List UInt8 → Option Ezxml
  /-- the local `expiry` -/
  junk : Nat

inductive Fault
  /-- what `channel_process` does wrong -/
  | channel (f : Channels.Fault)
  /-- bytes outside the payload are read -/
  | overRead
  /-- a byte outside the field is written -/
  | overWrite
  /-- `assert (memcmp (session->rsa_pub_exp, payload + 16, 128) == 0)` -/
  | assertRsa
  /-- `assert (len == 4)` -/
  | assertPing
  /-- `assert (tmp != NULL)` of `channel_unregister` -/
  | assertLinked
deriving DecidableEq, Repr

structure Outcome (σ κ : Type) where
  session : Session
  world : World σ κ
  /-- `none` when the value has never been set -/
  result : Option Int
  faults : List Fault

/-! ## The handlers -/

def handleSecretBlock (env : Env) (s : Session) (w : World σ κ) (payload : List UInt8) :
    Outcome σ κ :=
  if payload.length ≠ 336 then ⟨s, w, some (-1), []⟩
  else if s.rsaPubExp = (payload.drop 16).take 128 then ⟨s, w, some env.sendCacheHash, []⟩
  else ⟨s, w, none, [.assertRsa]⟩

/-- The timestamp is in network byte order. -/
def handlePing (env : Env) (s : Session) (w : World σ κ) (payload : List UInt8) : Outcome σ κ :=
  match payload with
  | [a, b, c, d] =>
    ⟨{ s with userInfo := { s.userInfo with lastPing := ntohs a b * 65536 + ntohs c d } }, w,
      some env.pingReply, []⟩
  | _ => ⟨s, w, none, [.assertPing]⟩

/-- The log of an error packet reads its error code. -/
def handleChannel (env : Env) (cb : Callback σ κ) (s : Session) (w : World σ κ)
    (payload : List UInt8) (error : Bool) : Outcome σ κ :=
  let faults := if error ∧ env.debug ∧ payload.length < 4 then [.overRead] else []
  let (w, ret, more) := channelProcess cb w payload error
  ⟨s, w, some ret, faults ++ more.map .channel⟩

/-- The callback gets the key, and the channel is gone; without a channel `ret` is not set. -/
def handleAeskey (cb : Callback σ κ) (s : Session) (w : World σ κ) (payload : List UInt8) :
    Outcome σ κ :=
  match payload with
  | _ :: _ :: a :: b :: key =>
    match channelById w.table (ntohs a b) with
    | none => ⟨s, w, none, []⟩
    | some ch =>
      let (w, ret) := w.enter cb ch.ptr key
      match channelUnregister w.table ch.ptr with
      | none => ⟨s, w, some ret, [.assertLinked]⟩
      | some t => ⟨s, { w with table := t }, some ret, []⟩
  -- the channel id is behind the payload
  | _ => ⟨s, w, none, [.overRead]⟩

/-- All that is left of it is the log. -/
def handleAeskeyerr (env : Env) (s : Session) (w : World σ κ) (payload : List UInt8) :
    Outcome σ κ :=
  ⟨s, w, some 0, if env.debug ∧ payload.length < 4 then [.overRead] else []⟩

/-- `user_info.country[i] = c`: from index 4 on that is `type`. -/
def UserInfo.setCountry (u : UserInfo) (i : Nat) (c : UInt8) : UserInfo :=
  if i < 4 then
    { u with
      country := u.country.set i c
      country_length := by rw [List.length_set, u.country_length] }
  else
    { u with
      type := u.type.set (i - 4) c
      type_length := by rw [List.length_set, u.type_length] }

/-- `for (i = 0; i < len && i < 4; i++)`, and the `NUL` where that stops. -/
def handleCountrycode (s : Session) (w : World σ κ) (payload : List UInt8) : Outcome σ κ :=
  let n := min payload.length 4
  let u := (List.range n).foldl (fun u i => u.setCountry i (payload.getD i 0)) s.userInfo
  ⟨{ s with userInfo := u.setCountry n 0 }, w, some 0, if 4 ≤ n then [.overWrite] else []⟩

/-- `strncpy (dest, text, 16)` fills up with zeros. -/
def typeBytes (text : CString) : List UInt8 :=
  strncpy text 16 ++ List.replicate (16 - (strncpy text 16).length) 0

theorem length_typeBytes (text : CString) : (typeBytes text).length = 16 := by
  rw [typeBytes, List.length_append, List.length_replicate, strncpy, List.length_take]
  omega

def UserInfo.setType (u : UserInfo) (text : CString) : UserInfo :=
  { u with type := typeBytes text, type_length := length_typeBytes text }

/-- `xml_parse_prodinfo` of the tree; `expiry` is an `unsigned int` on the stack. -/
def xmlParseProdinfo (env : Env) (u : UserInfo) (top : Ezxml) : UserInfo :=
  let u :=
    match ezxmlGet (some top) ["product", "type"] with
    | [] => u
    | r :: _ => u.setType r.txt
  { u with expiry := xmlatoi env.junk (some top) ["product", "expiry"] % 2 ^ 32 }

def handleProdinfo (env : Env) (s : Session) (w : World σ κ) (payload : List UInt8) :
    Outcome σ κ :=
  match env.ezxmlParseStr payload with
  | none => ⟨s, w, none, [.overRead]⟩
  | some top => ⟨{ s with userInfo := xmlParseProdinfo env s.userInfo top }, w, some 0, []⟩

def handleWelcome (s : Session) (w : World σ κ) : Outcome σ κ :=
  ⟨{ s with logins := s.logins + 1 }, w, some 0, []⟩

/-- The commands that `handle_packet` knows. -/
inductive Cmd
  | secretblk
  | ping
  | channeldata
  | channelerr
  | aeskey
  | aeskeyerr
  | shahash
  | countrycode
  | p2pInitblk
  | notify
  | prodinfo
  | welcome
  | pause
  | other
deriving DecidableEq, Repr

/-- The command bytes of `lib/commands.h`. -/
def Cmd.ofByte (cmd : UInt8) : Cmd :=
  match cmd with
  | 0x02 => secretblk
  | 0x04 => ping
  | 0x09 => channeldata
  | 0x0a => channelerr
  | 0x0d => aeskey
  | 0x0e => aeskeyerr
  | 0x10 => shahash
  | 0x1b => countrycode
  | 0x21 => p2pInitblk
  | 0x42 => notify
  | 0x50 => prodinfo
  | 0x69 => welcome
  | 0x4b => pause
  | _ => other

def handlePacket (env : Env) (cb : Callback σ κ) (s : Session) (w : World σ κ) (cmd : UInt8)
    (payload : List UInt8) : Outcome σ κ :=
  match Cmd.ofByte cmd with
  | .secretblk => handleSecretBlock env s w payload
  | .ping => handlePing env s w payload
  | .channeldata => handleChannel env cb s w payload false
  | .channelerr => handleChannel env cb s w payload true
  | .aeskey => handleAeskey cb s w payload
  | .aeskeyerr => handleAeskeyerr env s w payload
  | .countrycode => handleCountrycode s w payload
  | .prodinfo => handleProdinfo env s w payload
  | .welcome => handleWelcome s w
  | .shahash | .p2pInitblk | .notify | .pause | .other => ⟨s, w, some 0, []⟩

/-! ## The packets the handlers are written for -/

/-- The channel that a packet is for. -/
def addressed (w : World σ κ) (cmd : Cmd) (payload : List UInt8) : Option (Channel κ) :=
  match cmd, payload with
  | .channeldata, a :: b :: _ => channelById w.table (ntohs a b)
  | .channelerr, a :: b :: _ => channelById w.table (ntohs a b)
  | .aeskey, _ :: _ :: a :: b :: _ => channelById w.table (ntohs a b)
  | _, _ => none

/-- The fields that a command may write; the country has to end in a `NUL`. -/
def Writes (cmd : Cmd) (u u' : UserInfo) : Prop :=
  match cmd with
  | .ping => u' = { u with lastPing := u'.lastPing }
  | .countrycode =>
    u' = { u with country := u'.country, country_length := u'.country_length } ∧ 0 ∈ u'.country
  | .prodinfo =>
    u' = { u with type := u'.type, type_length := u'.type_length, expiry := u'.expiry }
  | _ => u' = u

/-- Nothing goes wrong, and nothing but the session and the channel of the packet changes. -/
structure Sound (s : Session) (w : World σ κ) (cmd : Cmd) (payload : List UInt8)
    (o : Outcome σ κ) : Prop where
  faults : o.faults = []
  result : o.result.isSome
  key : o.session.rsaPubExp = s.rsaPubExp
  user : Writes cmd s.userInfo o.session.userInfo
  channel : ∀ ch, addressed w cmd payload = some ch → w.OnlyOn ch.ptr o.world
  others : addressed w cmd payload = none → o.world = w

def Accepted (env : Env) (s : Session) (w : World σ κ) (cmd : Cmd) (payload : List UInt8) : Prop :=
  match cmd with
  | .secretblk => payload.length = 336 → s.rsaPubExp = (payload.drop 16).take 128
  | .ping => payload.length = 4
  | .channeldata => Proper w.table payload false
  | .channelerr => Proper w.table payload true ∧ (env.debug → 4 ≤ payload.length)
  | .aeskey => (addressed w .aeskey payload).isSome
  | .aeskeyerr => env.debug → 4 ≤ payload.length
  | .countrycode => payload.length < 4
  | .prodinfo => (env.ezxmlParseStr payload).isSome
  | _ => True

variable {env : Env} {cb : Callback σ κ} {s : Session} {w : World σ κ} {payload : List UInt8}

/-- A handler that leaves the channels alone. -/
theorem Sound.of_quiet {cmd : Cmd} {s' : Session} {r : Int} (hkey : s'.rsaPubExp = s.rsaPubExp)
    (huser : Writes cmd s.userInfo s'.userInfo) (hch : addressed w cmd payload = none) :
    Sound s w cmd payload ⟨s', w, some r, []⟩ := by
  refine ⟨rfl, rfl, hkey, huser, fun ch h => ?_, fun _ => rfl⟩
  cases hch.symm.trans h

theorem not_sound {cmd : Cmd} {o : Outcome σ κ} (h : o.faults ≠ []) : ¬ Sound s w cmd payload o :=
  fun hs => h hs.faults

theorem handleSecretBlock_sound_iff :
    Sound s w .secretblk payload (handleSecretBlock env s w payload) ↔
      Accepted env s w .secretblk payload := by
  unfold handleSecretBlock Accepted
  by_cases hlen : payload.length = 336
  · rw [if_neg (not_not.mpr hlen)]
    by_cases hkey : s.rsaPubExp = (payload.drop 16).take 128
    · rw [if_pos hkey]
      exact iff_of_true (.of_quiet rfl rfl rfl) fun _ => hkey
    · rw [if_neg hkey]
      exact iff_of_false (not_sound (by simp)) fun h => hkey (h hlen)
  · rw [if_pos hlen]
    exact iff_of_true (.of_quiet rfl rfl rfl) fun h => absurd h hlen

theorem handlePing_sound_iff :
    Sound s w .ping payload (handlePing env s w payload) ↔ Accepted env s w .ping payload := by
  unfold handlePing Accepted
  split
  · exact iff_of_true (.of_quiet rfl rfl rfl) rfl
  · next hother =>
    refine iff_of_false (not_sound (by simp)) fun hlen => ?_
    obtain ⟨a, b, c, d, rfl⟩ := List.length_eq_four.mp hlen
    exact hother a b c d rfl

theorem handleChannel_sound_iff (hw : w.table.Inv) (cmd : Cmd) (error : Bool)
    (hcmd : cmd = if error then .channelerr else .channeldata) :
    Sound s w cmd payload (handleChannel env cb s w payload error) ↔
      Proper w.table payload error ∧ (error = true → env.debug → 4 ≤ payload.length) := by
  have hfaults : (handleChannel env cb s w payload error).faults = [] ↔
      Proper w.table payload error ∧ (error = true → env.debug → 4 ≤ payload.length) := by
    simp only [handleChannel, List.append_eq_nil_iff, List.map_eq_nil_iff, channelProcess_noFault_iff]
    rw [and_comm]
    refine and_congr_right fun _ => ?_
    split
    · next hbad =>
      refine iff_of_false (by simp) fun h => ?_
      have hlen := h hbad.1 hbad.2.1
      omega
    · next hgood =>
      refine iff_of_true rfl fun herr hdebug => ?_
      by_contra hlen
      exact hgood ⟨herr, hdebug, by omega⟩
  refine ⟨fun hs => hfaults.mp hs.faults, fun hacc => ?_⟩
  obtain ⟨a, b, buf, rfl, -⟩ := hacc.1
  have haddr : addressed w cmd (a :: b :: buf) = channelById w.table (ntohs a b) := by
    subst hcmd
    cases error <;> rfl
  have huser : Writes cmd s.userInfo s.userInfo := by
    subst hcmd
    cases error <;> rfl
  refine ⟨hfaults.mpr hacc, rfl, rfl, huser, fun ch hch => ?_, fun hnone => ?_⟩
  · exact (channelProcess_spec cb hw (haddr.symm.trans hch) buf error).2.1
  · simp only [handleChannel, channelProcess_none cb (haddr.symm.trans hnone) buf error]

theorem handleAeskey_sound_iff (hw : w.table.Inv) :
    Sound s w .aeskey payload (handleAeskey cb s w payload) ↔
      Accepted env s w .aeskey payload := by
  unfold handleAeskey Accepted
  split
  · next c d a b key =>
    have haddr : addressed w .aeskey (c :: d :: a :: b :: key) =
        channelById w.table (ntohs a b) := rfl
    rw [haddr]
    cases hfind : channelById w.table (ntohs a b) with
    | none => exact iff_of_false (fun hs => absurd hs.result (by simp)) (by simp)
    | some ch =>
      have hget : w.table.get ch.ptr = some ch :=
        hw.get_eq_some.mpr ⟨(hw.channelById_eq_some.mp hfind).1, rfl⟩
      have hp : ch.ptr < w.table.brk := hw.fresh ch (hw.channelById_eq_some.mp hfind).1
      have hon := w.onlyOn_enter cb ch.ptr key
      have hinv := World.inv_enter hw cb ch.ptr key
      obtain ⟨t, ht⟩ := exists_channelUnregister ((w.get_enter cb ch.ptr key hp).trans hget)
      simp only [ht]
      refine iff_of_true ⟨rfl, rfl, rfl, rfl, fun ch' hch => ?_, fun hnone => ?_⟩ rfl
      · cases (haddr.trans hfind).symm.trans hch
        exact hon.trans (World.onlyOn_unregister hinv ht)
      · cases (haddr.trans hfind).symm.trans hnone
  · next hother =>
    have haddr : addressed w .aeskey payload = none := by
      unfold addressed
      split
      · next h => cases h
      · next h => cases h
      · next h => exact absurd rfl (hother _ _ _ _ _)
      · rfl
    rw [haddr]
    exact iff_of_false (not_sound (by simp)) (by simp)

theorem handleAeskeyerr_sound_iff :
    Sound s w .aeskeyerr payload (handleAeskeyerr env s w payload) ↔
      Accepted env s w .aeskeyerr payload := by
  unfold handleAeskeyerr Accepted
  by_cases hbad : env.debug ∧ payload.length < 4
  · rw [if_pos hbad]
    refine iff_of_false (not_sound (by simp)) fun h => ?_
    have hlen := h hbad.1
    omega
  · rw [if_neg hbad]
    refine iff_of_true (.of_quiet rfl rfl rfl) fun hdebug => ?_
    by_contra hlen
    exact hbad ⟨hdebug, by omega⟩

theorem setCountry_of_lt (u : UserInfo) {i : Nat} (hi : i < 4) (c : UInt8) :
    u.setCountry i c =
      { u with
        country := u.country.set i c
        country_length := by rw [List.length_set, u.country_length] } := if_pos hi

/-- The first bytes go into the country. -/
theorem foldl_setCountry (payload : List UInt8) (u : UserInfo) {n : Nat} (hn : n ≤ 4) :
    ∃ c h, (List.range n).foldl (fun u i => u.setCountry i (payload.getD i 0)) u =
      { u with country := c, country_length := h } := by
  induction n with
  | zero => exact ⟨u.country, u.country_length, rfl⟩
  | succ n ih =>
    obtain ⟨c, h, heq⟩ := ih (by omega)
    rw [List.range_succ, List.foldl_append, heq]
    refine ⟨c.set n (payload.getD n 0), by rw [List.length_set, h], ?_⟩
    exact setCountry_of_lt _ (by omega) _

theorem handleCountrycode_sound_iff :
    Sound s w .countrycode payload (handleCountrycode s w payload) ↔
      Accepted env s w .countrycode payload := by
  unfold handleCountrycode Accepted
  by_cases hlen : payload.length < 4
  · have hmin : min payload.length 4 = payload.length := Nat.min_eq_left (by omega)
    obtain ⟨c, h, heq⟩ := foldl_setCountry payload s.userInfo (Nat.le_of_lt hlen)
    rw [hmin]
    dsimp only
    rw [heq, setCountry_of_lt _ hlen, if_neg (by omega)]
    refine iff_of_true (.of_quiet rfl ⟨rfl, ?_⟩ rfl) hlen
    refine List.mem_set ?_ 0
    exact h.symm ▸ hlen
  · refine iff_of_false (not_sound ?_) hlen
    have hfour : 4 ≤ min payload.length 4 := by omega
    dsimp only
    rw [if_pos hfour]
    exact List.cons_ne_nil _ _

theorem handleProdinfo_sound_iff :
    Sound s w .prodinfo payload (handleProdinfo env s w payload) ↔
      Accepted env s w .prodinfo payload := by
  unfold handleProdinfo Accepted
  cases htop : env.ezxmlParseStr payload with
  | none => exact iff_of_false (not_sound (by simp)) (by simp)
  | some top =>
    refine iff_of_true (.of_quiet rfl ?_ rfl) rfl
    unfold xmlParseProdinfo
    cases ezxmlGet (some top) ["product", "type"] <;> rfl

/-! ## All packets -/

def UserInfo.zero : UserInfo :=
  ⟨[], [0, 0, 0, 0], List.replicate 16 0, 0, [], 0, 0, rfl, rfl⟩

def Session.start : Session := ⟨List.replicate 128 0, .zero, 0⟩

def noChannels : World Unit Unit := ⟨.empty, (), []⟩

def Env.plain : Env := ⟨false, 0, 0, fun _ => none, 0⟩

end Despotify.Handlers

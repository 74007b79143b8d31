import Despotify.Gateway.Model

/-!
# What one call of `rest_fsm` does

`Pass` lists the calls by what they do to the connection, to the table of
clients and to the channels; `kept` is the connection `main` goes on with,
`none` when it is about to close it.

* `restFsm_pass`: on a connection whose client is in the table, each call is one
  of these.
* `restFsm_shape`: what the state of a connection says about its other fields.
-/

namespace Despotify.Gateway

open Channels

/-! ## Looking up a client -/

section
variable {s : Sys} {p q : Nat} {c c' : Client}

theorem Sys.client?_mem (h : s.client? p = some c) : c ∈ s.clients ∧ c.ptr = p :=
  Keyed.find_mem h

theorem Sys.client?_eq_some (hs : (s.clients.map Client.ptr).Nodup) :
    s.client? p = some c ↔ c ∈ s.clients ∧ c.ptr = p := Keyed.find_eq_some hs

theorem Sys.isSome_client? : (s.client? p).isSome ↔ p ∈ s.clients.map Client.ptr := by
  rw [Option.isSome_iff_ne_none, ne_eq, Sys.client?, Keyed.find_eq_none, not_not]

theorem Sys.ptrs_setClient (s : Sys) (c : Client) :
    (s.setClient c).clients.map Client.ptr = s.clients.map Client.ptr :=
  Keyed.map_overwrite c s.clients

end

/-- The table of clients, the addresses handed out. -/
structure Sys.Wf (s : Sys) : Prop where
  clients : (s.clients.map Client.ptr).Nodup
  clientFresh : ∀ c ∈ s.clients, c.ptr < s.brk
  rest : (s.rest.map Rest.ptr).Nodup
  restFresh : ∀ r ∈ s.rest, r.ptr < s.brk

theorem deref_eq {s : Sys} {r : Rest} {p : Nat} {c : Client} (hp : r.client = some p)
    (hc : s.client? p = some c) (k : Client → Sys × Rest × Int) : s.deref r k = k c := by
  simp only [Sys.deref, hp, hc]

/-! ## The state of a connection -/

/-- A state in which the code follows `r->client`. -/
def RestState.attached : RestState → Bool
  | .processClientCommand | .waiting | .freeClient => true
  | .reading | .loadCommand | .processInitCommand | .processHttpRequest => false

/-- What the state of a connection says about its other fields. -/
structure Rest.Shape (r : Rest) : Prop where
  attached : r.state.attached = true → r.client ≠ none
  plain : r.state = .processInitCommand ∨ r.state = .processClientCommand → r.httpreq = none
  http : r.state = .processHttpRequest → r.httpreq ≠ none
  callback : r.state = .waiting → ∀ h, r.httpreq = some h → h.callback = true

/-- Between two commands a connection may have anything. -/
theorem Rest.Shape.of_idle {r : Rest} (h : r.state = .reading ∨ r.state = .loadCommand) :
    r.Shape := by
  refine ⟨?_, ?_, ?_, ?_⟩ <;> rcases h with h | h <;> rw [h]
  · exact nofun
  · exact nofun
  · rintro (h | h) <;> cases h
  · rintro (h | h) <;> cases h
  · exact nofun
  · exact nofun
  · exact nofun
  · exact nofun

theorem Rest.Shape.of_free {r : Rest} (h : r.state = .freeClient) (hclient : r.client ≠ none) :
    r.Shape := by
  refine ⟨fun _ => hclient, ?_, ?_, ?_⟩ <;> rw [h]
  · rintro (h | h) <;> cases h
  · exact nofun
  · exact nofun

theorem Rest.Shape.of_waiting {r : Rest} (h : r.state = .waiting) (hclient : r.client ≠ none)
    (hcallback : ∀ h, r.httpreq = some h → h.callback = true) : r.Shape := by
  refine ⟨fun _ => hclient, ?_, ?_, fun _ => hcallback⟩ <;> rw [h]
  · rintro (h | h) <;> cases h
  · exact nofun

/-- A connection after REST_STATE_LOAD_COMMAND. -/
structure Rest.Loaded (r r' : Rest) : Prop where
  ptr : r'.ptr = r.ptr
  client : r'.client = r.client
  last : r'.last = r.last
  state : r'.state = .reading ∨ r'.state = .loadCommand ∨
    r'.state = .processHttpRequest ∧ r'.httpreq ≠ none ∨
    r'.state = .processClientCommand ∧ r'.httpreq = none ∧ r'.client ≠ none ∨
    r'.state = .processInitCommand ∧ r'.httpreq = none

theorem restLoadCommand_loaded {r : Rest} (h : r.state = .loadCommand) :
    r.Loaded (restLoadCommand r) := by
  unfold restLoadCommand
  split
  · refine ⟨rfl, rfl, rfl, ?_⟩
    dsimp only
    generalize (if (r.input.takeWhile (· ≠ 10)).getLast? = some 13 then
      (r.input.takeWhile (· ≠ 10)).dropLast else r.input.takeWhile (· ≠ 10)) = line
    split
    · next hhttp =>
      exact Or.inr (Or.inr (Or.inl ⟨rfl, Option.isSome_iff_ne_none.mp hhttp⟩))
    · next hhttp =>
      have hnone : r.httpreq = none := Option.not_isSome_iff_eq_none.mp hhttp
      split
      · exact Or.inr (Or.inl h)
      · split
        · next hclient =>
          exact Or.inr (Or.inr (Or.inr (Or.inl
            ⟨rfl, hnone, Option.isSome_iff_ne_none.mp hclient⟩)))
        · exact Or.inr (Or.inr (Or.inr (Or.inr ⟨rfl, hnone⟩)))
  · exact ⟨rfl, rfl, rfl, Or.inl rfl⟩

theorem Rest.Loaded.shape {r r' : Rest} (h : r.Loaded r') : r'.Shape := by
  rcases h.state with hs | hs | ⟨hs, hhttp⟩ | ⟨hs, hhttp, hclient⟩ | ⟨hs, hhttp⟩
  · exact .of_idle (Or.inl hs)
  · exact .of_idle (Or.inr hs)
  · refine ⟨?_, ?_, fun _ => hhttp, ?_⟩ <;> rw [hs]
    · exact nofun
    · rintro (h | h) <;> cases h
    · exact nofun
  · exact ⟨fun _ => hclient, fun _ => hhttp, by rw [hs]; exact nofun, by rw [hs]; exact nofun⟩
  · refine ⟨?_, fun _ => hhttp, ?_, ?_⟩ <;> rw [hs] <;> exact nofun

theorem restReading_loaded {r : Rest} (h : r.state = .reading) (env : RestEnv) :
    r.Loaded (restReading r env).1 := by
  unfold restReading
  split
  · simp only
    split
    · exact ⟨rfl, rfl, rfl, Or.inr (Or.inl rfl)⟩
    · split
      · exact ⟨rfl, rfl, rfl, Or.inr (Or.inl rfl)⟩
      · next data _ _ =>
        have hload := @restLoadCommand_loaded
          { r with socketHasData := false, state := .loadCommand, input := r.input ++ data } rfl
        exact ⟨hload.ptr, hload.client, hload.last, hload.state⟩
  · exact ⟨rfl, rfl, rfl, Or.inl h⟩

/-! ## The calls -/

/-- The connection goes on with the client it has. -/
structure Rest.Quiet (r r' : Rest) : Prop where
  ptr : r'.ptr = r.ptr
  client : r'.client = r.client
  last : r'.last = r.last
  waiting : r'.state = .waiting → r.state = .waiting ∧ r'.httpreq = r.httpreq
  free : r'.state ≠ .freeClient

/-- The connection has a client, and is in a certain state. -/
structure Rest.Moved (r r' : Rest) (client : Option Nat) (state : RestState) : Prop where
  ptr : r'.ptr = r.ptr
  client : r'.client = client
  last : r'.last = r.last
  state : r'.state = state

/-- The login failed. -/
def ClientState.loginError : ClientState → Bool
  | .errorConnect | .errorKeyExchange | .errorAuth => true
  | _ => false

/-- No case of the switch in REST_STATE_WAITING. -/
def ClientState.unexpected : ClientState → Bool
  | .idleDisconnected | .allocate | .connect | .keyExchange | .auth | .errorPacket => true
  | _ => false

/-- A request for data that is not in whole units of 4096 bytes. -/
def Request.misaligned : Request → Prop
  | .substream _ offset length _ => offset % 4096 ≠ 0 ∨ length % 4096 ≠ 0
  | _ => False

/-- The client an HTTP request finds with its username and password. -/
def Sys.httpTarget (s : Sys) (r : Rest) : Option Client :=
  (r.httpreq.bind fun h => h.authheader.bind basicCredentials).bind fun (username, password) =>
    s.clients.find? fun c => c.username = username ∧ c.password = password

/-- The connection is in a state, and its client in the table. -/
structure Rest.At (s : Sys) (r : Rest) (c : Client) (state : RestState) : Prop where
  state : r.state = state
  client : r.client = some c.ptr
  found : s.client? c.ptr = some c

section
variable (lib : Lib)

/-- The state behind the command of a request. -/
def Sys.command (s : Sys) (r : Rest) (c : Client) (req : Request) : Sys :=
  let sent := s.sendCommand lib r c req
  match req with
  | .key .. => { sent with world := sent.world.setState s.world.table.brk .data }
  | _ => sent

/-- A new client behind the others. -/
def Sys.addClient (s : Sys) (c : Client) : Sys :=
  { s.setMem (s.mem.setClients (s.clients ++ [c])) with brk := s.brk + 1 }

inductive Pass (s : Sys) (r : Rest) : Sys → Option Rest → Prop
  | quiet (sent : List (Nat × List UInt8)) {kept : Option Rest} (h : ∀ r' ∈ kept, r.Quiet r') :
      Pass s r { s with sent := sent } kept
  | fault {f : Fault} {kept : Option Rest} (hf : ∀ a, f = .assertion a → a = .waiting ∧
      ∃ c, r.At s c .waiting ∧ c.state.unexpected = true) (h : ∀ r' ∈ kept, r.Quiet r') :
      Pass s r (s.fail f) kept
  | commandFault {c : Client} {req : Request} {f : Fault} (hat : r.At s c .processClientCommand)
      (hcmd : clientCommand r.command = .request req)
      (h : ∀ a, f = .assertion a → req.misaligned) :
      Pass s r ((s.command lib r c req).fail f) (some r)
  | logout (sent : List (Nat × List UInt8)) {kept : Option Rest}
      (hstate : r.state = .processClientCommand)
      (h : ∀ r' ∈ kept, r.Moved r' r.client .freeClient) : Pass s r { s with sent := sent } kept
  | attach (sent : List (Nat × List UInt8)) {kept : Option Rest} {c : Client} {state : RestState}
      (hc : s.client? c.ptr = some c) (hstate : state = .loadCommand ∨ state = .processInitCommand)
      (h : ∀ r' ∈ kept, r.Moved r' (some c.ptr) state) : Pass s r { s with sent := sent } kept
  | httpAttach (sent : List (Nat × List UInt8)) {kept : Option Rest} {c : Client}
      (hc : s.client? c.ptr = some c) (hstate : r.state = .processHttpRequest)
      (htarget : s.httpTarget r = some c)
      (h : ∀ r' ∈ kept, r.Moved r' (some c.ptr) .loadCommand ∨
        r.Moved r' (some c.ptr) .waiting ∧ r'.httpreq ≠ none) :
      Pass s r { s.setClient { c with isHttpClient := true } with sent := sent } kept
  | allocate (sent : List (Nat × List UInt8)) {kept : Option Rest} {c : Client}
      (hptr : c.ptr = s.brk) (hstate : c.state = .allocate) (hsession : c.session = none)
      (houtput : c.output = .dangling) (h : ∀ r' ∈ kept, r.Moved r' (some s.brk) .waiting) :
      Pass s r
        { s.addClient c with sent := sent } kept
  | issue {c : Client} {req : Request} {kept : Option Rest} (hat : r.At s c .processClientCommand)
      (hcmd : clientCommand r.command = .request req)
      (h : ∀ r' ∈ kept, r' = { r with state := .waiting, last := some s.world.table.brk }) :
      Pass s r (s.command lib r c req) kept
  | unissue {c : Client} {req : Request} {t : Table Handler}
      (hat : r.At s c .processClientCommand) (hcmd : clientCommand r.command = .request req)
      (ht : channelUnregister (s.command lib r c req).world.table s.world.table.brk = some t) :
      Pass s r
        { s.command lib r c req with world := { (s.command lib r c req).world with table := t } } none
  | answer (sent : List (Nat × List UInt8)) {kept : Option Rest} {c : Client} {out : Output}
      {payload : Option (List UInt8)} (hat : r.At s c .waiting) (hdone : c.state = .commandComplete)
      (hplain : r.httpreq = none)
      (hpayload : c.output = .null ∧ payload = none ∧ out = .null ∨
        ∃ own b, c.output = .obj own (.buf b) ∧ payload = some b ∧ out = .dangling)
      (h : ∀ r' ∈ kept, r.Moved r' (some c.ptr) .loadCommand) :
      Pass s r
        { s.setClient { c with state := .idleConnected, output := out } with
          answers := s.answers ++ [⟨r.ptr, r.last, payload⟩], sent := sent } kept
  | httpDone (sent : List (Nat × List UInt8)) {kept : Option Rest} {c : Client} {out : Output}
      (hat : r.At s c .waiting) (hout : out = .null ∨ out = .dangling)
      (h : ∀ r' ∈ kept, r.Moved r' (some c.ptr) .loadCommand) :
      Pass s r { s.setClient { c with state := .idleConnected, output := out } with sent := sent } kept
  | welcome (sent : List (Nat × List UInt8)) {kept : Option Rest} {c : Client}
      (hat : r.At s c .waiting) (h : ∀ r' ∈ kept, r.Moved r' (some c.ptr) .loadCommand) :
      Pass s r { s.setClient { c with state := .idleConnected } with sent := sent } kept
  | loginError (sent : List (Nat × List UInt8)) {kept : Option Rest} {c : Client}
      (hat : r.At s c .waiting) (herror : c.state.loginError = true)
      (h : ∀ r' ∈ kept, r.Moved r' (some c.ptr) .freeClient) :
      Pass s r { s.setClient { c with state := .idleDisconnected } with sent := sent } kept
  | free {c : Client} {i : Nat} {kept : Option Rest} (hat : r.At s c .freeClient)
      (hi : s.clients[i]? = some c) (h : ∀ r' ∈ kept, r.Moved r' none .loadCommand) :
      Pass s r (s.setMem (s.mem.setClients (Keyed.swapRemove s.clients i))) kept

end

/-- The connection `main` goes on with. -/
def keptOf (result : Sys × Rest × Int) : Option Rest :=
  if result.2.2 = 0 then some result.2.1 else none

/-- The call is a `Pass`, and leaves the connection in shape. -/
structure IsPass (lib : Lib) (s : Sys) (r : Rest) (result : Sys × Rest × Int) : Prop where
  pass : Pass lib s r result.1 (keptOf result)
  ptr : result.2.1.ptr = r.ptr
  shape : result.2.1.Shape

section
variable {lib : Lib} {s : Sys} {r : Rest} {env : RestEnv}

/-- What holds of the connection afterwards holds of the one that is kept. -/
theorem IsPass.of_kept {P : Rest → Prop} {s' : Sys} {r' : Rest} {ret : Int}
    (hptr : r'.ptr = r.ptr) (hshape : r'.Shape) (h : P r')
    (hpass : ∀ kept : Option Rest, (∀ r'' ∈ kept, P r'') → Pass lib s r s' kept) :
    IsPass lib s r (s', r', ret) := by
  refine ⟨hpass _ fun r'' hr => ?_, hptr, hshape⟩
  unfold keptOf at hr
  split at hr
  · obtain rfl := Option.mem_some.mp hr
    exact h
  · cases hr

theorem Rest.Moved.quiet {r' : Rest} (h : r.Moved r' r.client .loadCommand) : r.Quiet r' := by
  refine ⟨h.ptr, h.client, h.last, ?_, ?_⟩ <;> rw [h.state] <;> exact nofun

theorem Rest.Quiet.refl (h : r.state ≠ .freeClient) : r.Quiet r :=
  ⟨rfl, rfl, rfl, fun h => ⟨h, rfl⟩, h⟩

theorem Rest.Loaded.quiet {r' : Rest} (h : r.Loaded r') : r.Quiet r' := by
  refine ⟨h.ptr, h.client, h.last, ?_, ?_⟩ <;>
    rcases h.state with hs | hs | ⟨hs, -⟩ | ⟨hs, -⟩ | ⟨hs, -⟩ <;> rw [hs] <;> exact nofun

/-- A call that only writes to the connection and leaves it between two commands. -/
theorem isPass_idle {sent : List (Nat × List UInt8)} {r' : Rest} {ret : Int}
    (hptr : r'.ptr = r.ptr) (hclient : r'.client = r.client) (hlast : r'.last = r.last)
    (hstate : r'.state = .reading ∨ r'.state = .loadCommand) :
    IsPass lib s r ({ s with sent := sent }, r', ret) := by
  refine .of_kept (P := r.Quiet) hptr (.of_idle hstate) ⟨hptr, hclient, hlast, ?_, ?_⟩
    fun _ => .quiet _
  · rcases hstate with hs | hs <;> rw [hs] <;> exact nofun
  · rcases hstate with hs | hs <;> rw [hs] <;> exact nofun

/-- A call that writes to the connection and leaves it as it is. -/
theorem isPass_same {sent : List (Nat × List UInt8)} {ret : Int} (hr : r.Shape)
    (hstate : r.state ≠ .freeClient) : IsPass lib s r ({ s with sent := sent }, r, ret) :=
  .of_kept (P := r.Quiet) rfl hr (.refl hstate) fun _ => .quiet _

/-- A call that stops the program, by no assertion. -/
theorem isPass_fault {f : Fault} {r' : Rest} (hr : r'.Shape) (h : r.Quiet r')
    (hf : ∀ a, f ≠ .assertion a) : IsPass lib s r (s.fail f, r', 0) :=
  .of_kept (P := r.Quiet) h.ptr hr h fun _ => .fault fun a ha => absurd ha (hf a)

theorem isPass_loaded {r' : Rest} {ret : Int} (h : r.Loaded r') : IsPass lib s r (s, r', ret) :=
  .of_kept (P := r.Quiet) h.ptr h.shape h.quiet fun _ => .quiet s.sent

/-! ## Logging in -/

theorem spotifyClientAllocate_cases (s : Sys) (r : Rest) (clientId : List UInt8) :
    (∃ c, (s.clients.find? fun c => c.username = r.username ∧ c.password = r.password) = some c ∧
      spotifyClientAllocate s r clientId = (s, { r with client := some c.ptr })) ∨
    ∃ c, c.ptr = s.brk ∧ c.state = .allocate ∧ c.session = none ∧ c.output = .dangling ∧
      spotifyClientAllocate s r clientId =
        (s.addClient c,
          { r with client := some s.brk, state := .waiting }) := by
  unfold spotifyClientAllocate
  cases h : s.clients.find? fun c => c.username = r.username ∧ c.password = r.password with
  | none => exact Or.inr ⟨newClient s.brk clientId r.username r.password, rfl, rfl, rfl, rfl, rfl⟩
  | some c => exact Or.inl ⟨c, rfl, rfl⟩

theorem client?_of_find {p : Client → Bool} {c : Client} (hs : s.Wf)
    (h : s.clients.find? p = some c) : s.client? c.ptr = some c :=
  (Sys.client?_eq_some hs.clients).mpr ⟨List.mem_of_find?_eq_some h, rfl⟩

/-- A client that is put behind the others is found. -/
theorem client?_allocated (hs : s.Wf) {c : Client} (hptr : c.ptr = s.brk) :
    (s.addClient c).client? s.brk = some c := by
  have hnone : Keyed.find Client.ptr s.brk s.clients = none := by
    rw [Keyed.find_eq_none]
    intro hmem
    obtain ⟨d, hd, heq⟩ := List.mem_map.mp hmem
    exact Nat.lt_irrefl _ (heq ▸ hs.clientFresh d hd)
  show Keyed.find Client.ptr s.brk (s.clients ++ [c]) = some c
  unfold Keyed.find at hnone ⊢
  rw [List.find?_append, hnone, Option.none_or, List.find?_cons_of_pos]
  exact decide_eq_true hptr

theorem setClient_allocated (hs : s.Wf) {c c' : Client} (hptr : c.ptr = s.brk)
    (hptr' : c'.ptr = s.brk) :
    (s.addClient c).setClient c' = s.addClient c' := by
  have hold : Keyed.update Client.ptr s.brk (fun _ => c') s.clients = s.clients := by
    refine (List.map_congr_left fun d hd => ?_).trans (List.map_id _)
    rw [if_neg (Nat.ne_of_lt (hs.clientFresh d hd))]
    rfl
  have hupdate : Keyed.update Client.ptr c'.ptr (fun _ => c') (s.clients ++ [c]) =
      s.clients ++ [c'] := by
    rw [hptr']
    show List.map _ (s.clients ++ [c]) = _
    rw [List.map_append]
    refine congr (congrArg _ hold) ?_
    show [if c.ptr = s.brk then c' else c] = [c']
    rw [if_pos hptr]
  show { s.setMem (s.mem.setClients (Keyed.update Client.ptr c'.ptr (fun _ => c')
    (s.clients ++ [c]))) with brk := s.brk + 1 } = s.addClient c'
  rw [hupdate]
  rfl

theorem client?_setClient_self {c c' : Client} (hc : s.client? c.ptr = some c)
    (hptr : c'.ptr = c.ptr) : (s.setClient c').client? c.ptr = some c' := by
  have h : Keyed.find Client.ptr c.ptr (Keyed.update Client.ptr c'.ptr (fun _ => c') s.clients) = _ :=
    Keyed.find_overwrite c' c.ptr s.clients
  rw [if_pos hptr.symm, hptr] at h
  show Keyed.find Client.ptr c.ptr (Keyed.update Client.ptr c'.ptr (fun _ => c') s.clients) = _
  rw [hptr, h]
  show (s.client? c.ptr).map (fun _ => c') = some c'
  rw [hc]
  rfl

theorem isPass_restInit (hs : s.Wf) (hr : r.Shape) (hstate : r.state = .processInitCommand) :
    IsPass lib s r (restInit s r env) := by
  have hplain := hr.plain (Or.inl hstate)
  unfold restInit
  split
  · exact isPass_same hr (by rw [hstate]; exact nofun)
  · split
    · exact @isPass_idle lib s r s.sent _ _ rfl rfl rfl (Or.inr rfl)
    · exact @isPass_idle lib s r s.sent _ _ rfl rfl rfl (Or.inr rfl)
  · next username password _ =>
    dsimp only
    rcases spotifyClientAllocate_cases s { r with username := username, password := password }
      env.clientId with ⟨c, hfind, heq⟩ | ⟨c, hptr, hallocate, hsession, houtput, heq⟩
    · rw [heq]
      have hc := client?_of_find hs hfind
      rw [deref_eq rfl hc]
      split
      · exact .of_kept (P := fun r' => r.Moved r' (some c.ptr) .loadCommand) rfl
          (.of_idle (Or.inr rfl)) ⟨rfl, rfl, rfl, rfl⟩ fun _ => .attach _ hc (Or.inl rfl)
      · refine .of_kept (P := fun r' => r.Moved r' (some c.ptr) .processInitCommand) rfl ?_
          ⟨rfl, rfl, rfl, hstate⟩ fun _ => .attach s.sent hc (Or.inr rfl)
        exact ⟨fun _ => nofun, fun _ => hplain, hr.http, hr.callback⟩
    · rw [heq, deref_eq rfl (client?_allocated hs hptr), if_neg (not_not.mpr hallocate)]
      refine .of_kept (P := fun r' => r.Moved r' (some s.brk) .waiting) rfl ?_ ⟨rfl, rfl, rfl, rfl⟩
        fun _ => .allocate s.sent hptr hallocate hsession houtput
      refine .of_waiting rfl nofun ?_
      show ∀ h, r.httpreq = some h → _
      rw [hplain]
      exact nofun
  · next clientId _ =>
    cases hfind : s.clients.find? fun c => c.clientId = clientId with
    | none => exact isPass_idle rfl rfl rfl (Or.inr rfl)
    | some c =>
      exact .of_kept (P := fun r' => r.Moved r' (some c.ptr) .loadCommand) rfl (.of_idle (Or.inr rfl))
        ⟨rfl, rfl, rfl, rfl⟩ fun _ => .attach _ (client?_of_find hs hfind) (Or.inl rfl)
  · exact isPass_idle rfl rfl rfl (Or.inr rfl)

/-! ## HTTP -/

/-- A reply over HTTP ends the request. -/
theorem httpSend_moved {client : Option Nat} {state : RestState} {s' : Sys} {r' : Rest}
    {text : List UInt8} {P : Rest → Prop} (hr : r.Moved r' client state)
    (hstate : state = .loadCommand ∨ state = .freeClient ∧ client ≠ none)
    (hP : ∀ r'', r.Moved r'' client state → P r'')
    (hpass : ∀ sent, ∀ kept : Option Rest, (∀ r'' ∈ kept, P r'') →
      Pass lib s r { s' with sent := sent } kept) :
    IsPass lib s r (httpSend s' r' env text) := by
  refine .of_kept (P := P) hr.ptr ?_ (hP _ ⟨hr.ptr, hr.client, hr.last, hr.state⟩)
    fun kept => hpass _ kept
  rcases hstate with hs | ⟨hs, hclient⟩
  · exact .of_idle (Or.inr (hr.state.trans hs))
  · exact .of_free (hr.state.trans hs) fun hnone => hclient (hr.client.symm.trans hnone)

theorem httpCompleteLogin_moved {p : Nat} {state : RestState} {c : Client} {s' : Sys} {r' : Rest}
    {P : Rest → Prop} (hc : s'.client? p = some c) (hr : r.Moved r' (some p) state)
    (hstate : state = .loadCommand ∨ state = .freeClient)
    (hP : ∀ r'', r.Moved r'' (some p) state → P r'')
    (hpass : ∀ sent, ∀ kept : Option Rest, (∀ r'' ∈ kept, P r'') →
      Pass lib s r { s' with sent := sent } kept) :
    IsPass lib s r (httpCompleteLogin s' r' env) := by
  have hsend : ∀ text, IsPass lib s r (httpSend s' r' env text) := fun _ =>
    httpSend_moved hr (hstate.imp_right fun h => ⟨h, nofun⟩) hP hpass
  unfold httpCompleteLogin
  rw [deref_eq hr.client hc]
  split
  · exact hsend _
  · exact hsend _

theorem isPass_httpHandleRequest {h : HttpRequest} (hs : s.Wf) (hhttp : r.httpreq = some h)
    (hstate : r.state = .processHttpRequest) : IsPass lib s r (httpHandleRequest s r h env) := by
  have hidle : r.Moved { r with state := .loadCommand } r.client .loadCommand :=
    ⟨rfl, rfl, rfl, rfl⟩
  have hquiet : ∀ r'', r.Moved r'' r.client .loadCommand → r.Quiet r'' :=
    fun _ h => h.quiet
  unfold httpHandleRequest
  dsimp only
  split
  · exact httpSend_moved hidle (Or.inl rfl) hquiet fun sent _ => .quiet sent
  · split
    · exact httpSend_moved hidle (Or.inl rfl) hquiet fun sent _ => .quiet sent
    · next username password hcredentials =>
      obtain ⟨r₁, hr₁⟩ : ∃ r₁ : Rest, r₁ =
          { r with state := .loadCommand, username := username, password := password } := ⟨_, rfl⟩
      rw [← hr₁]
      have hptr₁ : r₁.ptr = r.ptr := by rw [hr₁]
      have hlast₁ : r₁.last = r.last := by rw [hr₁]
      have hstate₁ : r₁.state = .loadCommand := by rw [hr₁]
      rcases spotifyClientAllocate_cases s r₁ env.clientId with
        ⟨c, hfind, heq⟩ | ⟨c, hptr, hallocate, hsession, houtput, heq⟩
      · have hc := client?_of_find hs hfind
        have htarget : s.httpTarget r = some c := by
          rw [Sys.httpTarget, hhttp, Option.bind_some, hcredentials, Option.bind_some]
          rw [hr₁] at hfind
          exact hfind
        rw [heq, deref_eq rfl hc]
        dsimp only
        split
        · refine httpCompleteLogin_moved
            (@client?_setClient_self s c { c with isHttpClient := true } hc rfl)
            ⟨hptr₁, rfl, hlast₁, hstate₁⟩ (Or.inl rfl) ?_
            fun sent _ => .httpAttach sent hc hstate htarget
          exact fun _ => Or.inl
        · refine .of_kept (P := fun r' => r.Moved r' (some c.ptr) .loadCommand ∨
            r.Moved r' (some c.ptr) .waiting ∧ r'.httpreq ≠ none) hptr₁ ?_
            (Or.inr ⟨⟨hptr₁, rfl, hlast₁, rfl⟩, nofun⟩)
            fun _ => .httpAttach s.sent hc hstate htarget
          exact .of_waiting rfl nofun fun h' hh => by cases hh; rfl
      · rw [heq, deref_eq rfl (client?_allocated hs hptr)]
        dsimp only
        rw [if_neg (by rw [hallocate]; exact nofun),
          @setClient_allocated s hs c { c with isHttpClient := true } hptr hptr]
        refine .of_kept (P := fun r' => r.Moved r' (some s.brk) .waiting) hptr₁ ?_
          ⟨hptr₁, rfl, hlast₁, rfl⟩
          fun _ => .allocate s.sent (c := { c with isHttpClient := true }) hptr hallocate
            hsession houtput
        exact .of_waiting rfl nofun fun h' hh => by cases hh; rfl

theorem isPass_restHttp (hs : s.Wf) (hr : r.Shape) (hstate : r.state = .processHttpRequest) :
    IsPass lib s r (restHttp s r env) := by
  unfold restHttp
  cases hhttp : r.httpreq with
  | none => exact absurd hhttp (hr.http hstate)
  | some h =>
    dsimp only
    by_cases hcommand : r.command = []
    · rw [if_pos hcommand]
      exact isPass_httpHandleRequest hs hhttp hstate
    · rw [if_neg hcommand]
      exact @isPass_idle lib s r s.sent _ _ rfl rfl rfl (Or.inr rfl)

/-! ## Commands -/

/-- A call that fails: `main` closes the connection. -/
theorem isPass_failed {s' : Sys} {r' : Rest} (hptr : r'.ptr = r.ptr) (hshape : r'.Shape)
    (h : Pass lib s r s' none) :
    IsPass lib s r (s', r', -1) := ⟨h, hptr, hshape⟩

theorem isPass_gwRequest {c : Client} {req : Request} (hr : r.Shape)
    (hat : r.At s c .processClientCommand) (hcmd : clientCommand r.command = .request req) :
    IsPass lib s r (gwRequest lib s r c req env) := by
  have hclient : r.client ≠ none := by rw [hat.client]; exact nofun
  have hplain := hr.plain (Or.inr hat.state)
  have hwaiting : ({ r with state := .waiting, last := some s.world.table.brk } : Rest).Shape := by
    refine .of_waiting rfl hclient ?_
    show ∀ h, r.httpreq = some h → _
    rw [hplain]
    exact nofun
  have hfreed : ({ r with state := .freeClient } : Rest).Shape := .of_free rfl hclient
  have hfailed : ({ r with state := .freeClient, last := some s.world.table.brk } : Rest).Shape :=
    .of_free rfl hclient
  -- the command is out
  have hissue : IsPass lib s r
      (s.command lib r c req, { r with state := .waiting, last := some s.world.table.brk }, 0) :=
    ⟨.issue hat hcmd fun r' h => (Option.mem_some.mp h).symm, rfl, hwaiting⟩
  -- the context is there, and the packet is not
  have hlost : IsPass lib s r (s.command lib r c req,
      { r with state := .freeClient, last := some s.world.table.brk }, -1) :=
    isPass_failed rfl hfailed (.issue hat hcmd nofun)
  have hnothing : IsPass lib s r (s, { r with state := .freeClient }, -1) :=
    isPass_failed rfl hfreed (.quiet s.sent nofun)
  have hfault : ∀ f, (∀ a, f = .assertion a → req.misaligned) →
      IsPass lib s r ((s.command lib r c req).fail f, r, 0) :=
    fun f hf => ⟨.commandFault hat hcmd hf, rfl, hr⟩
  unfold gwRequest
  cases req with
  | browse | search =>
    dsimp only
    split
    · split
      · exact hissue
      · exact hlost
    · exact hnothing
  | image | playlist | key =>
    dsimp only
    split
    · exact hissue
    · exact hlost
  | substream fileId offset length key =>
    dsimp only
    split
    · split
      · next hoffset => exact hfault _ fun _ _ => Or.inl hoffset
      · split
        · next hlength => exact hfault _ fun _ _ => Or.inr hlength
        · split
          · exact hissue
          · split
            · next ht => exact isPass_failed rfl hfailed (.unissue hat hcmd ht)
            · exact hfault _ nofun
    · exact hnothing

theorem isPass_restClientCommand {c : Client} (hr : r.Shape) (hat : r.At s c .processClientCommand) :
    IsPass lib s r (restClientCommand lib s r env) := by
  have hclient : r.client ≠ none := by rw [hat.client]; exact nofun
  have hnotFree : r.state ≠ .freeClient := by rw [hat.state]; exact nofun
  unfold restClientCommand
  cases hcmd : clientCommand r.command with
  | quit => exact isPass_same hr hnotFree
  | logout =>
    exact .of_kept (P := fun r' => r.Moved r' r.client .freeClient) rfl (.of_free rfl hclient)
      ⟨rfl, rfl, rfl, rfl⟩ fun _ => .logout _ hat.state
  | id =>
    dsimp only
    rw [deref_eq hat.client hat.found]
    exact isPass_idle rfl rfl rfl (Or.inr rfl)
  | country =>
    dsimp only
    rw [deref_eq hat.client hat.found]
    split
    · exact isPass_fault hr (.refl hnotFree) nofun
    · exact isPass_idle rfl rfl rfl (Or.inr rfl)
  | reject => exact isPass_idle rfl rfl rfl (Or.inr rfl)
  | request req =>
    dsimp only
    rw [deref_eq hat.client hat.found]
    exact isPass_gwRequest hr hat hcmd
  | unknown => exact isPass_idle rfl rfl rfl (Or.inr rfl)

/-! ## Waiting -/

/-- A reply by the REST protocol, or over HTTP, to one that waits for its login. -/
theorem reply_moved {c d : Client} (s' : Sys) (r' : Rest) {text : String} {state : RestState}
    (hr : r.Shape) (hat : r.At s c .waiting) (hc : s'.client? c.ptr = some d)
    (hmoved : r.Moved r' (some c.ptr) state) (hhttp : r'.httpreq = r.httpreq) (hshape : r'.Shape)
    (hstate : state = .loadCommand ∨ state = .freeClient)
    (hpass : ∀ sent, ∀ kept : Option Rest, (∀ r'' ∈ kept, r.Moved r'' (some c.ptr) state) →
      Pass lib s r { s' with sent := sent } kept) :
    IsPass lib s r (reply s' r' env text) := by
  unfold reply
  split
  · exact .of_kept (P := fun r'' => r.Moved r'' (some c.ptr) state) hmoved.ptr hshape hmoved
      fun kept => hpass _ kept
  · next h hsome =>
    unfold httpCallback
    rw [if_pos (hr.callback hat.state h (hhttp ▸ hsome))]
    exact httpCompleteLogin_moved hc hmoved hstate (fun _ h => h) hpass

theorem isPass_restComplete {c : Client} (hr : r.Shape) (hat : r.At s c .waiting)
    (hdone : c.state = .commandComplete) : IsPass lib s r (restComplete s r c env) := by
  have hmoved : r.Moved { r with state := .loadCommand } (some c.ptr) .loadCommand :=
    ⟨rfl, hat.client, rfl, rfl⟩
  have hidle : ({ r with state := .loadCommand } : Rest).Shape := .of_idle (Or.inr rfl)
  have hquiet : r.Quiet { r with state := .loadCommand } :=
    Rest.Moved.quiet ⟨rfl, rfl, rfl, rfl⟩
  have hhttp : ∀ h out, r.httpreq = some h → out = .null ∨ out = .dangling →
      IsPass lib s r (httpCallback (s.setClient { c with state := .idleConnected, output := out })
        { r with state := .loadCommand } h env) := by
    intro h out hsome hout
    unfold httpCallback
    rw [if_pos (hr.callback hat.state h hsome)]
    exact httpCompleteLogin_moved (@client?_setClient_self s c
      { c with state := .idleConnected, output := out } hat.found rfl) hmoved (Or.inl rfl)
      (fun _ h => h) fun sent _ => .httpDone sent hat hout
  unfold restComplete
  dsimp only
  cases houtput : c.output with
  | null =>
    dsimp only
    split
    · next hplain =>
      exact .of_kept (P := fun r'' => r.Moved r'' (some c.ptr) .loadCommand) rfl hidle hmoved
        fun _ => .answer _ hat hdone hplain (Or.inl ⟨houtput, rfl, rfl⟩)
    · next h hsome => exact hhttp h .null hsome (Or.inl rfl)
  | dangling => exact @isPass_fault lib s r .useAfterFree _ hidle hquiet nofun
  | obj own o =>
    cases o with
    | buf b =>
      dsimp only
      split
      · next hplain =>
        exact .of_kept (P := fun r'' => r.Moved r'' (some c.ptr) .loadCommand) rfl hidle hmoved
          fun _ => .answer _ hat hdone hplain (Or.inr ⟨own, b, houtput, rfl, rfl⟩)
      · next h hsome => exact hhttp h .dangling hsome (Or.inr rfl)
    | dctx => exact @isPass_fault lib s r .typeConfusion _ hidle hquiet nofun
    | sctx => exact @isPass_fault lib s r .typeConfusion _ hidle hquiet nofun

theorem isPass_restLoginError {c : Client} {text : String} (hr : r.Shape) (hat : r.At s c .waiting)
    (herror : c.state.loginError = true) : IsPass lib s r (restLoginError s r c env text) :=
  reply_moved (s.setClient { c with state := .idleDisconnected }) { r with state := .freeClient } hr hat
    (@client?_setClient_self s c { c with state := .idleDisconnected } hat.found rfl)
    ⟨rfl, hat.client, rfl, rfl⟩ rfl (.of_free rfl (by rw [hat.client]; exact nofun)) (Or.inr rfl)
    fun sent _ => .loginError sent hat herror

theorem isPass_restWaiting {c : Client} (hr : r.Shape) (hat : r.At s c .waiting) :
    IsPass lib s r (restWaiting s r env) := by
  have hfault : c.state.unexpected = true →
      IsPass lib s r (s.fail (.assertion .waiting), r, 0) := by
    intro h
    refine .of_kept (P := r.Quiet) rfl hr (.refl (by rw [hat.state]; exact nofun))
      fun _ => .fault fun a ha => ?_
    cases ha
    exact ⟨rfl, c, hat, h⟩
  unfold restWaiting
  split
  · next hnone => exact absurd (hnone.symm.trans hat.client) nofun
  rw [deref_eq hat.client hat.found]
  cases hstate : c.state with
  | commandComplete => exact isPass_restComplete hr hat hstate
  | loginComplete =>
    dsimp only
    exact reply_moved (s.setClient { c with state := .idleConnected })
      { r with state := .loadCommand } hr hat
      (@client?_setClient_self s c { c with state := .idleConnected } hat.found rfl)
      ⟨rfl, hat.client, rfl, rfl⟩ rfl (.of_idle (Or.inr rfl)) (Or.inl rfl)
      fun sent _ => .welcome sent hat
  | idleConnected =>
    exact @isPass_same lib s r s.sent _ hr (by rw [hat.state]; exact nofun)
  | errorConnect => exact isPass_restLoginError hr hat (by rw [hstate]; rfl)
  | errorKeyExchange => exact isPass_restLoginError hr hat (by rw [hstate]; rfl)
  | errorAuth => exact isPass_restLoginError hr hat (by rw [hstate]; rfl)
  | idleDisconnected | allocate | connect | keyExchange | auth | errorPacket =>
    exact hfault (by rw [hstate]; rfl)

/-- The client is found, and the last one moved into its place. -/
theorem restFreeClient_eq {c : Client} (hs : s.Wf) (hat : r.At s c .freeClient) :
    ∃ i, s.clients[i]? = some c ∧
      restFreeClient s r = (s.setMem (s.mem.setClients (Keyed.swapRemove s.clients i)),
        { r with client := none, state := .loadCommand }, 0) := by
  obtain ⟨hmem, -⟩ := Sys.client?_mem hat.found
  have hlt : (s.clients.findIdx fun d => d.ptr = c.ptr) < s.clients.length :=
    List.findIdx_lt_length_of_exists ⟨c, hmem, decide_eq_true rfl⟩
  refine ⟨s.clients.findIdx fun d => d.ptr = c.ptr, ?_, ?_⟩
  · have hptr : s.clients[s.clients.findIdx fun d => d.ptr = c.ptr].ptr = c.ptr :=
      of_decide_eq_true (@List.findIdx_getElem _ (fun d => decide (d.ptr = c.ptr)) s.clients hlt)
    rw [List.getElem?_eq_getElem hlt]
    exact congrArg some (List.inj_on_of_nodup_map hs.clients (List.getElem_mem hlt) hmem hptr)
  · unfold restFreeClient
    rw [hat.client, Option.bind_some, Sys.removeClient, hat.found, if_pos Option.isSome_some]

theorem isPass_restFreeClient {c : Client} (hs : s.Wf) (hat : r.At s c .freeClient) :
    IsPass lib s r (restFreeClient s r) := by
  obtain ⟨i, hi, heq⟩ := restFreeClient_eq hs hat
  rw [heq]
  exact .of_kept (P := fun r' => r.Moved r' none .loadCommand) rfl (.of_idle (Or.inr rfl))
    ⟨rfl, rfl, rfl, rfl⟩ fun _ => .free hat hi

/-- **What a call does**, on a connection whose client is in the table. -/
theorem restFsm_pass (hs : s.Wf) (hr : r.Shape)
    (hvalid : ∀ p, r.client = some p → (s.client? p).isSome) :
    IsPass lib s r (restFsm lib s r env) := by
  have hat : r.state.attached = true → ∃ c, r.At s c r.state := by
    intro h
    obtain ⟨p, hp⟩ := Option.ne_none_iff_exists'.mp (hr.attached h)
    obtain ⟨c, hc⟩ := Option.isSome_iff_exists.mp (hvalid p hp)
    obtain rfl := (Sys.client?_mem hc).2
    exact ⟨c, rfl, hp, hc⟩
  unfold restFsm
  cases hstate : r.state with
  | reading => exact isPass_loaded (restReading_loaded hstate env)
  | loadCommand => exact isPass_loaded (restLoadCommand_loaded hstate)
  | processInitCommand => exact isPass_restInit hs hr hstate
  | processHttpRequest => exact isPass_restHttp hs hr hstate
  | processClientCommand =>
    rw [hstate] at hat
    obtain ⟨c, hc⟩ := hat rfl
    exact isPass_restClientCommand hr hc
  | waiting =>
    rw [hstate] at hat
    obtain ⟨c, hc⟩ := hat rfl
    exact isPass_restWaiting hr hc
  | freeClient =>
    rw [hstate] at hat
    obtain ⟨c, hc⟩ := hat rfl
    exact isPass_restFreeClient hs hc

end

end Despotify.Gateway

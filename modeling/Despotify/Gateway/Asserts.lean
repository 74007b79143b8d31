import Despotify.Gateway.Refs

/-!
# The assertions of the gateway

An assertion that fails stops the gateway for everybody.  In `Careful` runs none does:

* a request for data that goes out is for whole units of 4096 bytes, where the parser asks for
  1024, and of the offset only;
* a client is freed by the one connection that holds it;
* that a login has failed is told while nobody else waits for the client: it is left in
  IDLE_DISCONNECTED, which REST_STATE_WAITING does not expect;
* nobody goes on to wait for a client that is left so.

The Spotify side has no part in it: no login is seen half done, and a client whose connection
has failed is dropped in the same round.
-/

namespace Despotify.Gateway

open Channels Runs

/-! ## Careful runs -/

/-- Memory and the socket let the command of a request go out. -/
def Request.goesOut (env : RestEnv) : Request → Bool
  | .browse .. | .search _ | .substream .. => env.alloc && env.packet
  | .image _ | .playlist _ | .key .. => env.packet

/-- The request a connection makes of its client. -/
def Rest.request (r : Rest) : Option Request :=
  match r.state, clientCommand r.command with
  | .processClientCommand, .request req => some req
  | _, _ => none

/-- The client in the table that `r` goes on to wait for. -/
def Sys.waitsFor (s : Sys) (r : Rest) (env : RestEnv) : Option Client :=
  match r.state with
  | .processClientCommand =>
    if r.request.any (Request.goesOut env) then r.client.bind s.client? else none
  | .processHttpRequest =>
    if r.command = [] ∧ s.clients.find? Client.isHttpClient = none then s.httpTarget r else none
  | .reading | .loadCommand | .processInitCommand | .waiting | .freeClient => none

instance : DecidablePred Request.misaligned
  | .substream _ offset length _ =>
    inferInstanceAs (Decidable (offset % 4096 ≠ 0 ∨ length % 4096 ≠ 0))
  | .browse .. | .image _ | .search _ | .key .. | .playlist _ => inferInstanceAs (Decidable False)

/-- A call that leaves nobody with what the assertions rule out. -/
structure Rest.Careful (s : Sys) (r : Rest) (env : RestEnv) : Prop where
  whole : env.alloc = true → ∀ req ∈ r.request, ¬ req.misaligned
  free : r.state = .freeClient → ∀ r' ∈ s.rest, r'.client = r.client → r'.ptr = r.ptr
  told : r.state = .waiting → ∀ c ∈ r.client.bind s.client?, c.state.loginError = true →
    ∀ r' ∈ s.rest, r'.state = .waiting → r'.client = r.client → r'.ptr = r.ptr
  connected : ∀ c ∈ s.waitsFor r env, c.state ≠ .idleDisconnected

instance (s : Sys) (r : Rest) (env : RestEnv) : Decidable (r.Careful s env) :=
  decidable_of_iff
    ((env.alloc = true → ∀ req ∈ r.request, ¬ req.misaligned) ∧
      (r.state = .freeClient → ∀ r' ∈ s.rest, r'.client = r.client → r'.ptr = r.ptr) ∧
      (r.state = .waiting → ∀ c ∈ r.client.bind s.client?, c.state.loginError = true →
        ∀ r' ∈ s.rest, r'.state = .waiting → r'.client = r.client → r'.ptr = r.ptr) ∧
      ∀ c ∈ s.waitsFor r env, c.state ≠ .idleDisconnected)
    ⟨fun h => ⟨h.1, h.2.1, h.2.2.1, h.2.2.2⟩,
      fun h => ⟨h.whole, h.free, h.told, h.connected⟩⟩

def Careful (s : Sys) : Event → Prop
  | .rest env => ∀ r ∈ served s (.rest env), r.Careful s env
  | .client _ | .select _ => True

instance (s : Sys) : DecidablePred (Careful s)
  | .rest env => inferInstanceAs (Decidable (∀ r ∈ served s (.rest env), r.Careful s env))
  | .client _ | .select _ => inferInstanceAs (Decidable True)

theorem Careful.freesAlone {s : Sys} {e : Event} (h : Careful s e) : FreesAlone s e := by
  intro r hr
  cases e with
  | rest env => exact (h r hr).free
  | client | select => cases hr

/-! ## What becomes of a client -/

/-- A state that does not outlast a call, or the round. -/
def ClientState.passing : ClientState → Bool
  | .connect | .keyExchange | .auth | .errorPacket => true
  | _ => false

/-- A client before and after a call that has not told anybody of a failed login. -/
structure Client.Evolves (c c' : Client) : Prop where
  ptr : c'.ptr = c.ptr
  passing : c'.state.passing = true → c.state.passing = true
  allocate : c'.state = .allocate → c.state = .allocate ∧ c'.session = c.session
  disconnected : c'.state = .idleDisconnected → c.state = .idleDisconnected

theorem Client.Evolves.of_same {c c' : Client} (hptr : c'.ptr = c.ptr) (hstate : c'.state = c.state)
    (hsession : c'.session = c.session) : c.Evolves c' :=
  ⟨hptr, fun h => hstate ▸ h, fun h => ⟨hstate ▸ h, hsession⟩, fun h => hstate ▸ h⟩

theorem Client.Evolves.refl (c : Client) : c.Evolves c := .of_same rfl rfl rfl

theorem Client.Evolves.trans {c d e : Client} (h : c.Evolves d) (h' : d.Evolves e) : c.Evolves e := by
  refine ⟨h'.ptr.trans h.ptr, fun hp => h.passing (h'.passing hp), fun ha => ?_,
    fun hd => h.disconnected (h'.disconnected hd)⟩
  obtain ⟨hd, hsession⟩ := h'.allocate ha
  obtain ⟨hc, hsession'⟩ := h.allocate hd
  exact ⟨hc, hsession.trans hsession'⟩

/-- The login is over, or a command is. -/
theorem Client.Evolves.of_state {c c' : Client} (hptr : c'.ptr = c.ptr)
    (hstate : c'.state = .idleConnected ∨ c'.state = .loginComplete ∨
      c'.state = .commandComplete ∨ c'.state.loginError = true) : c.Evolves c' := by
  have hnot : c'.state.passing = false ∧ c'.state ≠ .allocate ∧ c'.state ≠ .idleDisconnected := by
    rcases hstate with h | h | h | h
    · rw [h]; decide
    · rw [h]; decide
    · rw [h]; decide
    · revert h
      cases c'.state <;> decide
  refine ⟨hptr, fun h => ?_, fun h => absurd h hnot.2.1, fun h => absurd h hnot.2.2⟩
  rw [hnot.1] at h
  cases h

/-- The clients of a state, each from one before. -/
def Evolve (before after : List Client) : Prop := ∀ c' ∈ after, ∃ c ∈ before, c.Evolves c'

theorem Evolve.refl (clients : List Client) : Evolve clients clients :=
  fun c hc => ⟨c, hc, .refl c⟩

theorem Evolve.trans {a b c : List Client} (h : Evolve a b) (h' : Evolve b c) : Evolve a c := by
  intro x hx
  obtain ⟨y, hy, hyx⟩ := h' x hx
  obtain ⟨z, hz, hzy⟩ := h y hy
  exact ⟨z, hz, hzy.trans hyx⟩

theorem evolve_set {m : Mem} {c c' : Client} (hc : c ∈ m.clients) (h : c.Evolves c') :
    Evolve m.clients (m.set c').clients := by
  intro x hx
  rcases Keyed.mem_overwrite hx with rfl | ⟨hx, -⟩
  · exact ⟨c, hc, h⟩
  · exact ⟨x, hx, .refl x⟩

/-! ## The first loop -/

section
variable {lib : Lib} {s s₁ : Sys} {r : Rest} {kept : Option Rest} {env : RestEnv}

theorem Rest.At.mem {c : Client} {state : RestState} (h : r.At s c state) : c ∈ s.clients :=
  (Sys.client?_mem h.found).1

/-- Of all calls only two have more to them than `Evolve`: one adds a client, and one tells
that a login has failed. -/
theorem Pass.client {c' : Client} (h : Pass lib s r s₁ kept) (hc' : c' ∈ s₁.clients) :
    (∃ c ∈ s.clients, c.Evolves c') ∨
    (c'.ptr = s.brk ∧ c'.state = .allocate ∧ c'.session = none) ∨
    ∃ c, r.At s c .waiting ∧ c.state.loginError = true ∧
      c' = { c with state := .idleDisconnected } ∧ ∀ r' ∈ kept, r'.state = .freeClient := by
  have hcommand : ∀ {c : Client} {req : Request}, r.At s c .processClientCommand →
      Evolve s.clients (s.command lib r c req).mem.clients := by
    intro c req hat
    rw [Sys.command_mem]
    exact evolve_set (m := s.mem) hat.mem (.of_same rfl rfl rfl)
  have hidle : ∀ {c : Client} {out : Output}, r.At s c .waiting →
      Evolve s.clients (s.mem.set { c with state := .idleConnected, output := out }).clients :=
    fun hat => evolve_set (m := s.mem) hat.mem (.of_state rfl (Or.inl rfl))
  cases h with
  | quiet | fault | logout | attach => exact Or.inl (Evolve.refl s.clients c' hc')
  | @httpAttach _ _ c hc =>
    have hevolve : Evolve s.clients (s.mem.set { c with isHttpClient := true }).clients :=
      evolve_set (m := s.mem) (Sys.client?_mem hc).1 (.of_same rfl rfl rfl)
    exact Or.inl (hevolve c' hc')
  | allocate _ hptr hstate hsession =>
    rcases List.mem_append.mp hc' with hold | hnew
    · exact Or.inl ⟨c', hold, .refl c'⟩
    · rw [List.mem_singleton.mp hnew]
      exact Or.inr (Or.inl ⟨hptr, hstate, hsession⟩)
  | commandFault hat | issue hat | unissue hat => exact Or.inl (hcommand hat c' hc')
  | answer _ hat | httpDone _ hat => exact Or.inl (hidle hat c' hc')
  | @welcome _ _ c hat =>
    have hevolve : Evolve s.clients (s.mem.set { c with state := .idleConnected }).clients :=
      evolve_set (m := s.mem) hat.mem (.of_state rfl (Or.inl rfl))
    exact Or.inl (hevolve c' hc')
  | loginError _ hat herror hkept =>
    rcases Keyed.mem_overwrite hc' with heq | ⟨hold, -⟩
    · exact Or.inr (Or.inr ⟨_, hat, herror, heq, fun r' hr => (hkept r' hr).state⟩)
    · exact Or.inl ⟨c', hold, .refl c'⟩
  | free _ hi =>
    obtain ⟨hlt, -⟩ := List.getElem?_eq_some_iff.mp hi
    have hmem := (Keyed.perm_swapRemove hlt).mem_iff.mp hc'
    exact Or.inl ⟨c', List.mem_of_mem_eraseIdx hmem, .refl c'⟩

/-- The assertions that a call can run into. -/
theorem Pass.asserts (h : Pass lib s r s₁ kept) (hs : s.mem.fault = none) {a : Assertion}
    (ha : s₁.mem.fault = some (.assertion a)) :
    (∃ c, r.At s c .waiting ∧ c.state.unexpected = true) ∨
    ∃ c req, r.At s c .processClientCommand ∧ clientCommand r.command = .request req ∧
      req.misaligned := by
  have hnone : ∀ {s' : Sys}, s'.mem.fault = s.mem.fault → s'.mem.fault ≠ some (.assertion a) := by
    intro s' heq hf
    rw [heq, hs] at hf
    cases hf
  have hcommand : ∀ {c : Client} {req : Request},
      (s.command lib r c req).mem.fault = s.mem.fault := by
    intro c req
    rw [Sys.command_mem]
    rfl
  have hfail : ∀ {s' : Sys} {f : Fault}, s'.mem.fault = s.mem.fault →
      (s'.fail f).mem.fault = some (.assertion a) → f = .assertion a := by
    intro s' f heq hf
    have hf : (s'.mem.fault <|> some f) = some (.assertion a) := hf
    rw [heq, hs] at hf
    exact Option.some.inj hf
  cases h with
  | fault hf => exact Or.inl (hf a (hfail rfl ha)).2
  | commandFault hat hcmd hf => exact Or.inr ⟨_, _, hat, hcmd, hf a (hfail hcommand ha)⟩
  | issue | unissue => exact absurd ha (hnone hcommand)
  | _ => exact absurd ha (hnone rfl)

/-- Who waits after a call: for a client that is new, for the one it waited for, or for one of
the others. -/
theorem Pass.waits {r' : Rest} (h : Pass lib s r s₁ kept) (hkept : r' ∈ kept)
    (hwaiting : r'.state = .waiting) :
    r'.client = some s.brk ∨ r.state = .waiting ∧ r'.client = r.client ∨
    ∃ c, s.client? c.ptr = some c ∧ r'.client = some c.ptr ∧
      ((∃ req, r.At s c .processClientCommand ∧ clientCommand r.command = .request req) ∨
        r.state = .processHttpRequest ∧ s.httpTarget r = some c) := by
  have hmoved : ∀ {client : Option Nat} {state : RestState}, r.Moved r' client state →
      state = .waiting := fun h => h.state.symm.trans hwaiting
  cases h with
  | quiet _ h | fault _ h =>
    obtain ⟨hstate, -⟩ := (h r' hkept).waiting hwaiting
    exact Or.inr (Or.inl ⟨hstate, (h r' hkept).client⟩)
  | commandFault hat =>
    obtain rfl := Option.mem_some.mp hkept
    rw [hat.state] at hwaiting
    cases hwaiting
  | logout _ _ h => cases hmoved (h r' hkept)
  | attach _ _ hstate h =>
    rcases hstate with rfl | rfl
    · cases hmoved (h r' hkept)
    · cases hmoved (h r' hkept)
  | httpAttach _ hc hstate htarget h =>
    refine Or.inr (Or.inr ⟨_, hc, ?_, Or.inr ⟨hstate, htarget⟩⟩)
    exact (h r' hkept).elim Rest.Moved.client fun h => h.1.client
  | allocate _ _ _ _ _ h => exact Or.inl (h r' hkept).client
  | issue hat hcmd h =>
    refine Or.inr (Or.inr ⟨_, hat.found, ?_, Or.inl ⟨_, hat, hcmd⟩⟩)
    rw [h r' hkept]
    exact hat.client
  | unissue => cases hkept
  | answer _ _ _ _ _ h | httpDone _ _ _ h | welcome _ _ h | loginError _ _ _ h | free _ _ h =>
    cases hmoved (h r' hkept)

theorem restFsm_request {c : Client} {req : Request} (hat : r.At s c .processClientCommand)
    (hcmd : clientCommand r.command = .request req) :
    restFsm lib s r env = gwRequest lib s r c req env := by
  unfold restFsm
  rw [hat.state]
  dsimp only
  unfold restClientCommand
  rw [hcmd]
  exact deref_eq hat.client hat.found _

/-- Without memory for the context the request is not looked at. -/
theorem gwRequest_misaligned {c : Client} {req : Request} (hreq : req.misaligned)
    (halloc : env.alloc ≠ true) : (gwRequest lib s r c req env).1 = s := by
  unfold gwRequest
  cases req with
  | substream =>
    dsimp only
    rw [if_neg halloc]
  | browse | image | search | key | playlist => cases hreq

theorem of_mem_keptOf {s' : Sys} {r' r₁ : Rest} {ret : Int} (h : r' ∈ keptOf (s', r₁, ret)) :
    ret = 0 ∧ r' = r₁ := by
  unfold keptOf at h
  split at h
  · next hret => exact ⟨hret, (Option.mem_some.mp h).symm⟩
  · cases h

theorem gwRequest_waiting {c : Client} {req : Request} {r' : Rest} (hr : r.state ≠ .waiting)
    (hkept : r' ∈ keptOf (gwRequest lib s r c req env)) (hwaiting : r'.state = .waiting) :
    req.goesOut env = true := by
  have hclosed : ∀ {s' : Sys} {r₁ : Rest}, r' ∉ keptOf (s', r₁, -1) := by
    intro s' r₁ h
    cases (of_mem_keptOf h).1
  have hstopped : ∀ {s' : Sys}, r' ∉ keptOf (s', r, 0) := by
    intro s' h
    obtain rfl := (of_mem_keptOf h).2
    exact hr hwaiting
  unfold gwRequest at hkept
  cases req with
  | browse | search =>
    dsimp only at hkept
    split at hkept
    · next halloc =>
      split at hkept
      · next hpacket => exact Bool.and_eq_true_iff.mpr ⟨halloc, hpacket⟩
      · exact absurd hkept hclosed
    · exact absurd hkept hclosed
  | image | playlist | key =>
    dsimp only at hkept
    split at hkept
    · next hpacket => exact hpacket
    · exact absurd hkept hclosed
  | substream =>
    dsimp only at hkept
    split at hkept
    · next halloc =>
      split at hkept
      · exact absurd hkept hstopped
      · split at hkept
        · exact absurd hkept hstopped
        · split at hkept
          · next hpacket => exact Bool.and_eq_true_iff.mpr ⟨halloc, hpacket⟩
          · split at hkept
            · exact absurd hkept hclosed
            · exact absurd hkept hstopped
    · exact absurd hkept hclosed

theorem restHttp_waiting {r' : Rest} (hr : r.state = .processHttpRequest)
    (hkept : r' ∈ keptOf (restHttp s r env)) (hwaiting : r'.state = .waiting) :
    r.command = [] ∧ s.clients.find? Client.isHttpClient = none := by
  have hidle : ∀ {s' : Sys} {r₁ : Rest} {ret : Int}, r₁.state ≠ .waiting →
      r' ∉ keptOf (s', r₁, ret) := by
    intro s' r₁ ret hne h
    rw [(of_mem_keptOf h).2] at hwaiting
    exact hne hwaiting
  have hloaded : RestState.loadCommand ≠ .waiting := by decide
  unfold restHttp at hkept
  split at hkept
  · exact absurd hkept (hidle (by rw [hr]; decide))
  · split at hkept
    · next hcommand =>
      refine ⟨hcommand, ?_⟩
      unfold httpHandleRequest at hkept
      dsimp only at hkept
      split at hkept
      · exact absurd hkept (hidle hloaded)
      · next hnone => exact hnone
    · exact absurd hkept (hidle hloaded)

/-- Who waits after a call waits for no client that is left in IDLE_DISCONNECTED. -/
theorem Rest.Careful.waits {r' : Rest} {c : Client} (hcareful : r.Careful s env)
    (h : Pass lib s r s₁ (keptOf (restFsm lib s r env)))
    (hkept : r' ∈ keptOf (restFsm lib s r env)) (hwaiting : r'.state = .waiting)
    (hc : s.client? c.ptr = some c) (hclient : r'.client = some c.ptr) :
    r'.client = some s.brk ∨ r.state = .waiting ∧ r'.client = r.client ∨
      c.state ≠ .idleDisconnected := by
  rcases h.waits hkept hwaiting with hnew | hsame | ⟨d, hfound, hd, hasks⟩
  · exact Or.inl hnew
  · exact Or.inr (Or.inl hsame)
  · have hptr : d.ptr = c.ptr := Option.some.inj (hd.symm.trans hclient)
    obtain rfl : d = c := by
      rw [hptr, hc] at hfound
      exact (Option.some.inj hfound).symm
    refine Or.inr (Or.inr (hcareful.connected _ ?_))
    unfold Sys.waitsFor
    rcases hasks with ⟨req, hat, hcmd⟩ | ⟨hstate, htarget⟩
    · have hgoes : req.goesOut env = true := by
        rw [restFsm_request hat hcmd] at hkept
        exact gwRequest_waiting (by rw [hat.state]; decide) hkept hwaiting
      have hrequest : r.request = some req := by
        rw [Rest.request, hat.state, hcmd]
      rw [hat.state]
      dsimp only
      rw [hrequest, Option.any_some, if_pos hgoes, hat.client, Option.bind_some]
      exact Option.mem_def.mpr hc
    · have hhttp : r.command = [] ∧ s.clients.find? Client.isHttpClient = none := by
        have hfsm : restFsm lib s r env = restHttp s r env := by
          unfold restFsm
          rw [hstate]
        rw [hfsm] at hkept
        exact restHttp_waiting hstate hkept hwaiting
      rw [hstate]
      dsimp only
      rw [if_pos hhttp, htarget]
      exact Option.mem_some_self d

end

/-! ## The invariant -/

/-- No connection is up against an assertion for the sake of `c`. -/
structure Sys.Admits (s : Sys) (c : Client) : Prop where
  passing : c.state.passing = false
  session : c.state = .allocate → c.session = none
  waiting : ∀ r ∈ s.rest, r.state = .waiting → r.client = some c.ptr → c.state ≠ .idleDisconnected
  -- a client in ALLOCATE was added in this round, by a connection before
  polled : ∀ i, s.pc = .rest i → ∀ j r, i ≤ j → s.rest[j]? = some r → r.client = some c.ptr →
    c.state ≠ .allocate

structure Sys.Settled (s : Sys) : Prop where
  inv : s.Inv
  admits : ∀ c ∈ s.clients, s.Admits c

section
variable {lib : Lib} {s s' : Sys} {r : Rest} {i : Nat} {env : RestEnv}

/-- REST_STATE_WAITING has a case for the client. -/
theorem Sys.Settled.expected {c : Client} (h : s.Settled) (hpc : s.pc = .rest i)
    (hi : s.rest[i]? = some r) (hat : r.At s c .waiting) : c.state.unexpected = false := by
  have hc := h.admits c hat.mem
  have hpassing := hc.passing
  have hwaiting := hc.waiting r (List.mem_of_getElem? hi) hat.state hat.client
  have hpolled := hc.polled i hpc i r (Nat.le_refl i) hi hat.client
  revert hpassing hwaiting hpolled
  cases c.state <;> decide

theorem Sys.Admits.of_evolves {c c' : Client} (h : s.Admits c) (hevolves : c.Evolves c')
    (hwaiting : ∀ r ∈ s'.rest, r.state = .waiting → r.client = some c.ptr →
      c.state ≠ .idleDisconnected)
    (hpolled : ∀ i, s'.pc = .rest i → ∀ j r, i ≤ j → s'.rest[j]? = some r →
      r.client = some c.ptr → c.state ≠ .allocate) : s'.Admits c' := by
  refine ⟨eq_false_of_ne_true fun hp => ?_, fun ha => ?_, fun r hr hw hclient hd => ?_,
    fun i hpc j r hij hj hclient ha => ?_⟩
  · have hpassing := hevolves.passing hp
    rw [h.passing] at hpassing
    cases hpassing
  · obtain ⟨hstate, hsession⟩ := hevolves.allocate ha
    exact hsession.trans (h.session hstate)
  · exact hwaiting r hr hw (hevolves.ptr ▸ hclient) (hevolves.disconnected hd)
  · exact hpolled i hpc j r hij hj (hevolves.ptr ▸ hclient) (hevolves.allocate ha).1

theorem settled_restTurn (h : s.Settled) (hpc : s.pc = .rest i)
    (hcareful : ∀ r ∈ s.rest[i]?, r.Careful s env) (hinv : (restTurn lib s i env).Inv) :
    (restTurn lib s i env).Settled := by
  cases hi : s.rest[i]? with
  | none =>
    rw [restTurn_none hi] at hinv ⊢
    refine ⟨hinv, fun c hc => ?_⟩
    have hc := h.admits c hc
    refine ⟨hc.passing, hc.session, hc.waiting, fun j hj => ?_⟩
    cases hj
  | some r =>
    have hr := List.mem_of_getElem? hi
    have hcareful := hcareful r (Option.mem_def.mpr hi)
    have hround := @restTurn_round lib s r i env h.inv.wf hi (h.inv.shape r hr)
      fun p hp => Sys.isSome_client?.mpr (h.inv.valid r hr p hp)
    have hclients : (restTurn lib s i env).clients = (restFsm lib s r env).1.clients := by
      rw [hround.rest]
      rfl
    have hfresh : ∀ c ∈ s.clients, c.ptr ≠ s.brk :=
      fun c hc => Nat.ne_of_lt (h.inv.wf.clientFresh c hc)
    -- the connections that are still to come are as they were
    have hlater : ∀ i', (restTurn lib s i env).pc = .rest i' → ∀ j x, i' ≤ j →
        (restTurn lib s i env).rest[j]? = some x → i ≤ j ∧ s.rest[j]? = some x := by
      intro i' hi' j x hij hj
      rcases hround.pc with hpc' | ⟨hpc', hsame⟩
      · rw [hpc'] at hi'
        cases hi'
      · rw [hpc'] at hi'
        cases hi'
        exact ⟨Nat.le_of_succ_le hij, (hsame j hij).symm.trans hj⟩
    refine ⟨hinv, fun c' hc' => ?_⟩
    rcases hround.pass.client (hclients ▸ hc') with ⟨c, hc, hevolves⟩ | ⟨hptr, hstate, hsession⟩ |
      ⟨c, hat, herror, rfl, hkept⟩
    · have hadmits := h.admits c hc
      refine hadmits.of_evolves hevolves (fun x hx hw hclient => ?_)
        fun i' hi' j x hij hj hclient => ?_
      · rcases hround.mem x hx with hx | ⟨hx, -⟩
        · have hfound := (Sys.client?_eq_some h.inv.wf.clients).mpr ⟨hc, rfl⟩
          rcases hcareful.waits hround.pass hx hw hfound hclient with
            hnew | ⟨hstate, hsame⟩ | hne
          · exact absurd (Option.some.inj (hclient.symm.trans hnew)) (hfresh c hc)
          · exact hadmits.waiting r hr hstate (hsame ▸ hclient)
          · exact hne
        · exact hadmits.waiting x hx hw hclient
      · obtain ⟨hij, hj⟩ := hlater i' hi' j x hij hj
        exact hadmits.polled i hpc j x hij hj hclient
    · have hne : c'.state ≠ .idleDisconnected := by
        rw [hstate]
        decide
      refine ⟨by rw [hstate]; rfl, fun _ => hsession, fun _ _ _ _ => hne,
        fun i' hi' j x hij hj hclient => ?_⟩
      -- nobody held its address before
      obtain ⟨-, hj⟩ := hlater i' hi' j x hij hj
      have hvalid := h.inv.valid x (List.mem_of_getElem? hj) c'.ptr hclient
      obtain ⟨d, hd, heq⟩ := List.mem_map.mp hvalid
      exact absurd (heq.trans hptr) (hfresh d hd)
    · have hne : ClientState.idleDisconnected ≠ .allocate := by decide
      refine ⟨rfl, fun ha => absurd ha hne, fun x hx hw hclient => ?_, fun _ _ _ _ _ _ _ => hne⟩
      rcases hround.mem x hx with hx | ⟨hx, hptr⟩
      · rw [hkept x hx] at hw
        cases hw
      · have hc : c ∈ r.client.bind s.client? := by
          rw [hat.client, Option.bind_some]
          exact Option.mem_def.mpr hat.found
        exact absurd (hcareful.told hat.state c hc herror x hx hw
          (hclient.trans hat.client.symm)) hptr

theorem restTurn_asserts (h : s.Settled) (hfault : s.mem.fault = none) (hpc : s.pc = .rest i)
    (hcareful : ∀ r ∈ s.rest[i]?, r.Careful s env) (a : Assertion) :
    (restTurn lib s i env).mem.fault ≠ some (.assertion a) := by
  intro ha
  cases hi : s.rest[i]? with
  | none =>
    rw [restTurn_none hi] at ha
    cases hfault.symm.trans ha
  | some r =>
    have hr := List.mem_of_getElem? hi
    have hround := @restTurn_round lib s r i env h.inv.wf hi (h.inv.shape r hr)
      fun p hp => Sys.isSome_client?.mpr (h.inv.valid r hr p hp)
    have hmem : (restTurn lib s i env).mem = (restFsm lib s r env).1.mem := by
      rw [hround.rest]
      rfl
    rw [hmem] at ha
    rcases hround.pass.asserts hfault ha with ⟨c, hat, hunexpected⟩ | ⟨c, req, hat, hcmd, hreq⟩
    · rw [h.expected hpc hi hat] at hunexpected
      cases hunexpected
    · have hrequest : req ∈ r.request := by
        rw [Rest.request, hat.state, hcmd]
        exact Option.mem_some_self req
      refine (hcareful r (Option.mem_def.mpr hi)).whole (by_contra fun halloc => ?_) req hrequest
        hreq
      rw [restFsm_request hat hcmd, gwRequest_misaligned hreq halloc, hfault] at ha
      cases ha

end

/-! ## The second loop -/

/-- No assertion has failed. -/
def Mem.Unasserted (m : Mem) : Prop := ∀ a, m.fault ≠ some (.assertion a)

theorem Mem.fail_fault (m : Mem) (f : Fault) : (m.fail f).fault ≠ none := by
  show (m.fault <|> some f) ≠ none
  cases m.fault with
  | none => exact Option.some_ne_none f
  | some g => exact Option.some_ne_none g

theorem Mem.Unasserted.fail {m : Mem} {f : Fault} (h : m.Unasserted) (hf : ∀ a, f ≠ .assertion a) :
    (m.fail f).Unasserted := by
  intro a ha
  have ha : (m.fault <|> some f) = some (.assertion a) := ha
  cases hfault : m.fault with
  | none =>
    rw [hfault] at ha
    exact hf a (Option.some.inj ha)
  | some g =>
    rw [hfault] at ha
    exact h a (hfault.trans ha)

section
variable {lib : Lib} {s s' : Sys} {c : Client} {i : Nat}

theorem Client.react_evolves (c : Client) (own : Nat) (r : Reaction) :
    c.Evolves (c.react own r) := by
  cases hcomplete : r.complete with
  | false => exact .of_same rfl (by rw [Client.react, hcomplete]; rfl) rfl
  | true => exact .of_state rfl (Or.inr (Or.inr (Or.inl (by rw [Client.react, hcomplete]; rfl))))

/-- The callbacks complete commands, and fail no assertion. -/
theorem stable_evolve (clients : List Client) :
    Stable (callback lib) fun w => w.client.Unasserted ∧ Evolve clients w.client.clients where
  enter {w} p data h := by
    obtain ⟨hfault, hevolve⟩ := h
    unfold World.enter
    cases w.table.get p with
    | none => exact ⟨hfault, hevolve⟩
    | some ch =>
      dsimp only
      unfold callback
      cases w.client.fault with
      | some f => exact ⟨hfault, hevolve⟩
      | none =>
        dsimp only
        cases hfind : Keyed.find Client.ptr ch.callback.client w.client.clients with
        | none => exact ⟨hfault.fail (by intro a h; cases h), hevolve⟩
        | some c =>
          have hc := (Keyed.find_mem hfind).1
          dsimp only
          cases access lib ch data with
          | skip => exact ⟨hfault, hevolve⟩
          | complete =>
            exact ⟨hfault, hevolve.trans
              (evolve_set hc (.of_state rfl (Or.inr (Or.inr (Or.inl rfl)))))⟩
          | context f =>
            have huse : ∀ owner, (w.client.use ch.ptr owner).Unasserted := fun _ => hfault
            cases c.output with
            | null => exact ⟨(huse none).fail (by intro a h; cases h), hevolve⟩
            | dangling => exact ⟨(huse none).fail (by intro a h; cases h), hevolve⟩
            | obj own o =>
              dsimp only
              cases f o with
              | none => exact ⟨(huse (some own)).fail (by intro a h; cases h), hevolve⟩
              | some r => exact ⟨hfault, hevolve.trans (evolve_set hc (c.react_evolves own r))⟩
  modify _ _ _ h := h
  unregister _ h := h

theorem handlePacket_evolve {p : Packet} (h : s.mem.Unasserted) (hc : c ∈ s.clients)
    (hstate : c.state = .idleConnected) :
    (handlePacket lib s c p).1.mem.Unasserted ∧
      Evolve s.clients (handlePacket lib s c p).1.clients := by
  have hstable := @stable_evolve lib s.clients
  have hstart : s.world.client.Unasserted ∧ Evolve s.clients s.world.client.clients :=
    ⟨h, .refl s.clients⟩
  have hpacket : ∀ {w : World Mem Handler},
      w.client.Unasserted ∧ Evolve s.clients w.client.clients →
      (failWorld w .packet).client.Unasserted ∧
        Evolve s.clients (failWorld w .packet).client.clients :=
    fun h => ⟨h.1.fail (by intro a h; cases h), h.2⟩
  cases p with
  | other ret country =>
    exact ⟨h, evolve_set (m := s.mem) hc (.of_state rfl (Or.inl hstate))⟩
  | channel payload error =>
    have h := hstable.channelProcess (w := s.world) payload error hstart
    show (handleChannel lib s.world payload error).1.client.Unasserted ∧
      Evolve s.clients (handleChannel lib s.world payload error).1.client.clients
    unfold handleChannel
    generalize channelProcess (callback lib) s.world payload error = result at h ⊢
    obtain ⟨w, ret, faults⟩ := result
    cases faults with
    | nil => exact h
    | cons => exact hpacket h
  | aesKey payload garbage =>
    show (handleAeskey lib s.world payload garbage).1.client.Unasserted ∧
      Evolve s.clients (handleAeskey lib s.world payload garbage).1.client.clients
    unfold handleAeskey
    split
    · next a b buf =>
      cases channelById s.world.table (ntohs a b) with
      | none => exact hstart
      | some ch =>
        have h := hstable.enter (w := s.world) ch.ptr buf hstart
        dsimp only
        generalize s.world.enter (callback lib) ch.ptr buf = result at h ⊢
        obtain ⟨w, ret⟩ := result
        dsimp only at h ⊢
        cases ht : channelUnregister w.table ch.ptr with
        | none => exact hpacket h
        | some t => exact hstable.unregister ht h
    · exact hpacket hstart

/-- A call of `spotify_fsm` that fails leaves its own client behind in ERROR_PACKET. -/
theorem Poll.evolve {s₁ : Sys} {ret : Int} (h : Poll lib s c s₁ ret) (hs : s.mem.Unasserted)
    (hc : c ∈ s.clients) :
    s₁.mem.Unasserted ∧ ∀ c' ∈ s₁.clients, ret = 0 ∨ c'.ptr ≠ c.ptr →
      ∃ d ∈ s.clients, d.Evolves c' := by
  have hpacket : ∀ {p : Packet} {s₁ : Sys} {ret : Int}, c.state = .idleConnected →
      handlePacket lib (s.setClient c.reading) c.reading p = (s₁, ret) →
      s₁.mem.Unasserted ∧ Evolve s.clients s₁.clients := by
    intro p s₁ ret hstate h
    have hreading : Evolve s.clients (s.setClient c.reading).clients :=
      evolve_set (m := s.mem) hc (.of_same rfl rfl rfl)
    have hmem : c.reading ∈ (s.setClient c.reading).clients :=
      List.mem_map.mpr ⟨c, hc, if_pos rfl⟩
    have hhandle := @handlePacket_evolve lib (s.setClient c.reading) c.reading p hs hmem hstate
    rw [h] at hhandle
    exact ⟨hhandle.1, hreading.trans hhandle.2⟩
  cases h with
  | quiet => exact ⟨hs, fun c' hc' _ => ⟨c', hc', .refl c'⟩⟩
  | @login session state _ hafter =>
    have hover : c.Evolves { c with session := session, state := state } :=
      .of_state rfl (hafter.elim (fun h => Or.inr (Or.inl h)) fun h => Or.inr (Or.inr (Or.inr h)))
    exact ⟨hs, fun c' hc' _ => evolve_set (m := s.mem) hc hover c' hc'⟩
  | lost =>
    refine ⟨hs, fun c' hc' hother => ?_⟩
    rcases Keyed.mem_overwrite hc' with rfl | ⟨hc', -⟩
    · exact absurd rfl (hother.resolve_left (by decide))
    · exact ⟨c', hc', .refl c'⟩
  | packet hstate h =>
    obtain ⟨hfault, hevolve⟩ := hpacket hstate h
    exact ⟨hfault, fun c' hc' _ => hevolve c' hc'⟩
  | failed hstate h hret =>
    obtain ⟨hfault, hevolve⟩ := hpacket hstate h
    refine ⟨hfault, fun c' hc' hother => ?_⟩
    obtain ⟨d, hd, rfl⟩ := List.mem_map.mp hc'
    by_cases hptr : d.ptr = c.ptr
    · rw [if_pos hptr] at hother
      exact absurd hptr (hother.resolve_left hret)
    · rw [if_neg hptr]
      exact hevolve d hd

/-- The connections of a client that is dropped do not wait. -/
theorem waiting_detach {p : Nat} {x : Rest} (hx : x ∈ (s.detach p).rest)
    (hw : x.state = .waiting) : x ∈ s.rest := by
  rcases mem_detach hx with ⟨hx, -⟩ | ⟨y, -, rfl⟩
  · exact hx
  · cases hw

/-- The invariant while the program runs, and what it is for. -/
structure Sys.Sound (s : Sys) : Prop where
  unasserted : s.mem.Unasserted
  settled : s.mem.fault = none → s.Settled

theorem sound_clientTurn {env : ClientEnv} (h : s.Settled) (hfault : s.mem.fault = none)
    (hinv : (clientTurn lib s i env).Inv) : (clientTurn lib s i env).Sound := by
  have hs : s.mem.Unasserted := by
    intro a ha
    cases hfault.symm.trans ha
  have hwaiting : ∀ {c : Client}, c ∈ s.clients → ∀ x ∈ s.rest, x.state = .waiting →
      x.client = some c.ptr → c.state ≠ .idleDisconnected := fun hc => (h.admits _ hc).waiting
  cases hi : s.clients[i]? with
  | none =>
    rw [clientTurn_none hi] at hinv ⊢
    refine ⟨hs, fun _ => ⟨hinv, fun c hc => ?_⟩⟩
    exact (h.admits c hc).of_evolves (.refl c) (hwaiting hc) (by intro j hj; cases hj)
  | some c =>
    have hc := List.mem_of_getElem? hi
    have hround := @clientTurn_round lib s i c env hi
    have hlost : ∀ {s₁ : Sys} {ret : Int}, s₁ = s ∨ Poll lib s c s₁ ret ∧ ret ≠ 0 →
        s₁ = { s with world := s₁.world } ∧
        s₁.clients.map Client.ptr = s.clients.map Client.ptr ∧ s₁.mem.Unasserted ∧
        ∀ c' ∈ s₁.clients, c'.ptr ≠ c.ptr → ∃ d ∈ s.clients, d.Evolves c' := by
      rintro s₁ ret (rfl | ⟨hpoll, -⟩)
      · exact ⟨rfl, rfl, hs, fun c' hc' _ => ⟨c', hc', .refl c'⟩⟩
      · obtain ⟨hframe, hptrs⟩ := hpoll.frame
        obtain ⟨hfault, hclients⟩ := hpoll.evolve hs hc
        exact ⟨hframe, hptrs, hfault, fun c' hc' hptr => hclients c' hc' (Or.inr hptr)⟩
    generalize clientTurn lib s i env = s' at hinv hround
    cases hround with
    | kept hpoll =>
      obtain ⟨hframe, -⟩ := hpoll.frame
      obtain ⟨hfault, hclients⟩ := hpoll.evolve hs hc
      refine ⟨hfault, fun _ => ⟨hinv, fun c' hc' => ?_⟩⟩
      obtain ⟨d, hd, hevolves⟩ := hclients c' hc' (Or.inl rfl)
      refine (h.admits d hd).of_evolves hevolves (fun x hx => hwaiting hd x ?_)
        (by intro j hj; cases hj)
      rw [hframe] at hx
      exact hx
    | lost hfailed =>
      obtain ⟨-, -, hfault, -⟩ := hlost hfailed
      exact ⟨hfault.fail (by intro a ha; cases ha), fun hnone => absurd hnone (Mem.fail_fault _ _)⟩
    | @dropped s₁ _ hfailed =>
      obtain ⟨hframe, hptrs, hfault, hclients⟩ := hlost hfailed
      have hnodup : (s₁.clients.map Client.ptr).Nodup := hptrs ▸ h.inv.wf.clients
      obtain ⟨d, hd, hdc⟩ : ∃ d, s₁.clients[i]? = some d ∧ d.ptr = c.ptr := by
        have hptr : (s₁.clients.map Client.ptr)[i]? = some c.ptr := by
          rw [hptrs, List.getElem?_map, hi, Option.map_some]
        rwa [List.getElem?_map, Option.map_eq_some_iff] at hptr
      refine ⟨hfault, fun _ => ⟨hinv, fun c' hc' => ?_⟩⟩
      obtain ⟨hc', hother⟩ := (Keyed.mem_swapRemove hnodup hd c').mp hc'
      obtain ⟨e, he, hevolves⟩ := hclients c' hc' (hdc ▸ hother)
      refine (h.admits e he).of_evolves hevolves (fun x hx hw => ?_) (by intro j hj; cases hj)
      have hx := waiting_detach hx hw
      rw [hframe] at hx
      exact hwaiting he x hx hw

/-! ## Runs -/

theorem sound_selectTurn {outcome : Select} (h : s.Settled) (hfault : s.mem.fault = none)
    (hinv : (selectTurn s outcome).Inv) : (selectTurn s outcome).Sound := by
  have hs : s.mem.Unasserted := by
    intro a ha
    cases hfault.symm.trans ha
  unfold selectTurn at hinv ⊢
  split
  · exact ⟨hs.fail (by intro a ha; cases ha), fun hnone => absurd hnone (Mem.fail_fault _ _)⟩
  · next hsession =>
    rw [if_neg hsession] at hinv
    -- all have been polled
    have hpolled : ∀ c ∈ s.clients, c.state ≠ .allocate := by
      intro c hc ha
      refine hsession (List.any_eq_true.mpr ⟨c, hc, decide_eq_true ?_⟩)
      exact (h.admits c hc).session ha
    have hadmits : ∀ {s' : Sys} {c c' : Client}, c ∈ s.clients → c.Evolves c' →
        (∀ x ∈ s'.rest, x.state = .waiting → ∃ y ∈ s.rest, y.state = .waiting ∧
          y.client = x.client) → s'.Admits c' := by
      intro s' c c' hc hevolves hrest
      refine (h.admits c hc).of_evolves hevolves (fun x hx hw hclient => ?_)
        fun _ _ _ _ _ _ _ => hpolled c hc
      obtain ⟨y, hy, hyw, hyclient⟩ := hrest x hx hw
      exact (h.admits c hc).waiting y hy hyw (hyclient.trans hclient)
    cases outcome with
    | failed => exact ⟨hs, fun _ => ⟨hinv, List.forall_mem_nil _⟩⟩
    | timeout =>
      refine ⟨hs, fun _ => ⟨hinv, fun c hc => hadmits hc (.refl c) fun x hx hw => ?_⟩⟩
      exact ⟨x, hx, hw, rfl⟩
    | accept ok =>
      cases ok with
      | false =>
        refine ⟨hs, fun _ => ⟨hinv, fun c hc => hadmits hc (.refl c) fun x hx hw => ?_⟩⟩
        exact ⟨x, hx, hw, rfl⟩
      | true =>
        refine ⟨hs, fun _ => ⟨hinv, fun c hc => hadmits hc (.refl c) fun x hx hw => ?_⟩⟩
        rcases List.mem_append.mp hx with hx | hx
        · exact ⟨x, hx, hw, rfl⟩
        · rw [List.mem_singleton.mp hx] at hw
          cases hw
    | data rest clients =>
      refine ⟨hs, fun _ => ⟨hinv, fun c' hc' => ?_⟩⟩
      obtain ⟨c, hc, rfl⟩ := List.mem_map.mp hc'
      refine hadmits hc ?_ fun x hx hw => ?_
      · split
        · exact .of_same rfl rfl rfl
        · exact .refl c
      · obtain ⟨y, hy, rfl⟩ := List.mem_map.mp hx
        refine ⟨y, hy, ?_⟩
        split at hw
        · next hdata =>
          rw [if_pos hdata]
          exact ⟨hw, rfl⟩
        · next hdata =>
          rw [if_neg hdata]
          exact ⟨hw, rfl⟩

theorem sound_init : Sys.init.Sound :=
  ⟨(by intro a h; cases h), fun _ => ⟨inv_init, List.forall_mem_nil _⟩⟩

/-- **One step.** -/
theorem sound_step {e : Event} (h : s.Sound) (hcareful : Careful s e)
    (hstep : step lib s e = some s') : s'.Sound := by
  have hsettled : s.mem.fault = none → s.Settled := h.settled
  have hinv : s.mem.fault = none → s'.Inv :=
    fun hfault => inv_step (hsettled hfault).inv hcareful.freesAlone hstep
  unfold step at hstep
  cases hfault : s.mem.fault with
  | some f =>
    rw [hfault] at hstep
    cases hstep
  | none =>
    have hsettled := hsettled hfault
    have hinv := hinv hfault
    rw [hfault] at hstep
    dsimp only at hstep
    split at hstep
    · next i env hpc =>
      cases hstep
      have hcareful : ∀ r ∈ s.rest[i]?, r.Careful s env := by
        have hserved : served s (.rest env) = s.rest[i]? := served_rest hfault hpc
        rw [← hserved]
        exact hcareful
      exact ⟨restTurn_asserts hsettled hfault hpc hcareful,
        fun _ => settled_restTurn hsettled hpc hcareful hinv⟩
    · cases hstep
      exact sound_clientTurn hsettled hfault hinv
    · cases hstep
      exact sound_selectTurn hsettled hfault hinv
    · cases hstep

end

/-- One connection logs in and asks for `length` bytes from `offset` on. -/
def substreamOfOne (offset length : String) : List Event :=
  let once (line : String) (clients : Nat) : List Event :=
    [restGets line, restGets ""] ++ List.replicate (clients + 1) clientRuns
  let hex (n : Nat) : String := String.ofList (List.replicate n 'a')
  [restGets "", clientRuns, .select (.accept true)] ++ once "" 0 ++ [.select (.data [0] [])] ++
    once ("login a b\nsubstream " ++ hex 40 ++ " " ++ offset ++ " " ++ length ++ " " ++ hex 32 ++
      "\n") 0 ++ [.select .timeout] ++
    (List.replicate 3 (once "" 1 ++ [.select .timeout])).flatten ++ [restGets ""]

/-- The parser lets 1024 through. -/
example : ((exec (step plainLib) Sys.init (substreamOfOne "1024" "4096")).map fun s =>
    s.mem.fault) = some (some (.assertion .offset)) := by decide +kernel

end Despotify.Gateway

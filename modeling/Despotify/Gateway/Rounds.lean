import Despotify.Gateway.Pass

/-!
# Rounds of `main`

* `restTurn_round`: a round of the first loop is a `Pass`, and closes the connection or goes on
  to the next one.
* `spotifyFsm_poll`: a call of `spotify_fsm` is one of those that `Poll` lists.
* `clientTurn_round`: a round of the second loop is a `Poll` that succeeds, or drops the client.
-/

namespace Despotify.Gateway

open Channels

/-! ## The first loop -/

section
variable {lib : Lib} {s s' : Sys} {r : Rest} {i : Nat}

theorem Sys.command_rest (s : Sys) (r : Rest) (c : Client) (req : Request) :
    (s.command lib r c req).rest = s.rest := by
  cases req <;> rfl

theorem Sys.command_mem (s : Sys) (r : Rest) (c : Client) (req : Request) :
    (s.command lib r c req).mem = s.mem.set { c with
      output := .obj s.world.table.brk (req.context lib s.world.table.brk), outputLen := 0 } := by
  cases req <;> rfl

theorem Sys.command_brk (s : Sys) (r : Rest) (c : Client) (req : Request) :
    (s.command lib r c req).brk = s.brk := by
  cases req <;> rfl

theorem Pass.rest_eq {s₁ : Sys} {kept : Option Rest} (h : Pass lib s r s₁ kept) :
    s₁.rest = s.rest := by
  cases h with
  | commandFault | issue | unissue => exact Sys.command_rest s r _ _
  | _ => rfl

/-- A round of the first loop: `kept` is the connection afterwards. -/
structure RestRound (lib : Lib) (s : Sys) (i : Nat) (r : Rest) (s₁ : Sys) (kept : Option Rest)
    (s' : Sys) : Prop where
  pass : Pass lib s r s₁ kept
  ptr : ∀ r' ∈ kept, r'.ptr = r.ptr
  shape : ∀ r' ∈ kept, r'.Shape
  rest : s' = { s₁ with rest := s'.rest, pc := s'.pc }
  mem : ∀ x ∈ s'.rest, x ∈ kept ∨ x ∈ s.rest ∧ x.ptr ≠ r.ptr
  nodup : (s'.rest.map Rest.ptr).Nodup
  pc : s'.pc = .clients 0 ∨ s'.pc = .rest (i + 1) ∧ ∀ j, i < j → s'.rest[j]? = s.rest[j]?

theorem restTurn_none {env : RestEnv} (hi : s.rest[i]? = none) :
    restTurn lib s i env = { s with pc := .clients 0 } := by
  rw [restTurn, hi]

theorem restTurn_round {env : RestEnv} (hs : s.Wf) (hi : s.rest[i]? = some r) (hr : r.Shape)
    (hvalid : ∀ p, r.client = some p → (s.client? p).isSome) :
    RestRound lib s i r (restFsm lib s r env).1 (keptOf (restFsm lib s r env))
      (restTurn lib s i env) := by
  have hpass := @restFsm_pass lib s r env hs hr hvalid
  unfold restTurn
  rw [hi]
  dsimp only
  generalize restFsm lib s r env = result at hpass
  obtain ⟨s₁, r₁, ret⟩ := result
  obtain ⟨hp, hptr, hshape⟩ := hpass
  have hptr : r₁.ptr = r.ptr := hptr
  have hrest : s₁.rest = s.rest := hp.rest_eq
  have hset : (s₁.setRest r₁).rest = Keyed.update Rest.ptr r₁.ptr (fun _ => r₁) s.rest := by
    rw [← hrest]
    rfl
  have hmem : ∀ x ∈ (s₁.setRest r₁).rest, x = r₁ ∨ x ∈ s.rest ∧ x.ptr ≠ r.ptr := by
    intro x hx
    rw [hset] at hx
    rw [← hptr]
    exact Keyed.mem_overwrite hx
  have hnodup : ((s₁.setRest r₁).rest.map Rest.ptr).Nodup := by
    rw [hset, Keyed.map_overwrite]
    exact hs.rest
  obtain ⟨hlt, -⟩ := List.getElem?_eq_some_iff.mp hi
  have hlen : (s₁.setRest r₁).rest.length = s.rest.length := by
    rw [hset, Keyed.update, List.length_map]
  by_cases hret : ret = 0
  · have hkept : keptOf (s₁, r₁, ret) = some r₁ := if_pos hret
    rw [if_pos hret]
    rw [hkept] at hp ⊢
    refine ⟨hp, ?_, ?_, rfl, ?_, hnodup, Or.inr ⟨rfl, ?_⟩⟩
    · rintro r' hr'
      rw [← Option.mem_some.mp hr']
      exact hptr
    · rintro r' hr'
      rw [← Option.mem_some.mp hr']
      exact hshape
    · intro x hx
      exact (hmem x hx).imp_left fun h => Option.mem_some.mpr h.symm
    · intro j hj
      show (s₁.setRest r₁).rest[j]? = s.rest[j]?
      rw [hset, Keyed.update, List.getElem?_map]
      cases hget' : s.rest[j]? with
      | none => rfl
      | some x =>
        have hne : x.ptr ≠ r₁.ptr := by
          intro heq
          obtain ⟨hltj, -⟩ := List.getElem?_eq_some_iff.mp hget'
          have hptrs : (s.rest.map Rest.ptr)[i]? = (s.rest.map Rest.ptr)[j]? := by
            rw [List.getElem?_map, List.getElem?_map, hi, hget', Option.map_some, Option.map_some,
              heq, hptr]
          have hj' : j < (s.rest.map Rest.ptr).length := by rwa [List.length_map]
          exact List.nodup_iff_getElem?_ne_getElem?.mp hs.rest i j hj hj' hptrs
        rw [Option.map_some, if_neg hne]
  · have hkept : keptOf (s₁, r₁, ret) = none := if_neg hret
    rw [if_neg hret]
    have hgone : ∀ x ∈ Keyed.swapRemove (s₁.setRest r₁).rest i,
        x ∈ (s₁.setRest r₁).rest ∧ x.ptr ≠ r₁.ptr := by
      have hi' : (s₁.setRest r₁).rest[i]? = some r₁ := by
        rw [hset, Keyed.update, List.getElem?_map, hi, Option.map_some, if_pos hptr.symm]
      exact fun x hx => (Keyed.mem_swapRemove hnodup hi' x).mp hx
    rw [hkept] at hp ⊢
    refine ⟨hp, ?_, ?_, rfl, ?_, ?_, Or.inl rfl⟩
    · rintro r' hr'
      cases hr'
    · rintro r' hr'
      cases hr'
    · intro x hx
      obtain ⟨hx, hne⟩ := hgone x hx
      exact Or.inr ((hmem x hx).resolve_left fun h => hne (h ▸ rfl))
    · exact Keyed.nodup_swapRemove hnodup (hlen ▸ hlt)

/-- The connection a step calls `rest_fsm` on. -/
def served (s : Sys) : Event → Option Rest
  | .rest _ =>
    match s.mem.fault, s.pc with
    | none, .rest i => s.rest[i]?
    | _, _ => none
  | .client _ | .select _ => none

theorem served_rest {env : RestEnv} (hfault : s.mem.fault = none) (hpc : s.pc = .rest i) :
    served s (.rest env) = s.rest[i]? := by
  rw [served, hfault, hpc]

theorem exists_of_served {e : Event} (h : r ∈ served s e) :
    ∃ i env, s.mem.fault = none ∧ s.pc = .rest i ∧ e = .rest env ∧ s.rest[i]? = some r := by
  cases e with
  | client | select => cases h
  | rest env =>
    rw [served] at h
    split at h
    · next i hfault hpc => exact ⟨i, env, hfault, hpc, rfl, h⟩
    · cases h

end

/-! ## The second loop -/

/-- The login is not over. -/
def ClientState.login : ClientState → Bool
  | .allocate | .connect | .keyExchange | .auth => true
  | _ => false

/-- The client once its data is being read. -/
def Client.reading (c : Client) : Client := { c with clientHasData := false }

section
variable (lib : Lib)

/-- The calls of `spotify_fsm`, with the value returned. -/
inductive Poll (s : Sys) (c : Client) : Sys → Int → Prop
  | quiet (hstate : c.state.login = false) : Poll s c s 0
  | login {session : Option (List UInt8)} {state : ClientState} (hbefore : c.state.login = true)
      (hafter : state = .loginComplete ∨ state.loginError = true) :
      Poll s c (s.setClient { c with session := session, state := state }) 0
  | lost (hstate : c.state = .idleConnected) :
      Poll s c (s.setClient { c.reading with state := .errorPacket }) (-1)
  | packet (hstate : c.state = .idleConnected) {p : Packet} {s₁ : Sys}
      (h : handlePacket lib (s.setClient c.reading) c.reading p = (s₁, 0)) : Poll s c s₁ 0
  | failed (hstate : c.state = .idleConnected) {p : Packet} {s₁ : Sys} {ret : Int}
      (h : handlePacket lib (s.setClient c.reading) c.reading p = (s₁, ret)) (hret : ret ≠ 0) :
      Poll s c (s₁.setMem (s₁.mem.setClients
        (Keyed.update Client.ptr c.ptr (fun c => { c with state := .errorPacket }) s₁.clients))) ret

/-- A round of the second loop. -/
inductive ClientRound (s : Sys) (i : Nat) (c : Client) : Sys → Prop
  | kept {s₁ : Sys} (h : Poll lib s c s₁ 0) : ClientRound s i c { s₁ with pc := .clients (i + 1) }
  | lost {s₁ : Sys} {ret : Int} (h : s₁ = s ∨ Poll lib s c s₁ ret ∧ ret ≠ 0) :
      ClientRound s i c
        (({ s₁.detach c.ptr with pc := .clients (i + 1) } : Sys).fail .nullDeref)
  | dropped {s₁ : Sys} {ret : Int} (h : s₁ = s ∨ Poll lib s c s₁ ret ∧ ret ≠ 0) :
      ClientRound s i c
        (({ s₁.detach c.ptr with pc := .clients (i + 1) } : Sys).setMem
          (s₁.mem.setClients (Keyed.swapRemove s₁.clients i)))

end

section
variable {lib : Lib} {s : Sys}

theorem Login.fromAuth_over (l : Login) :
    l.fromAuth = .loginComplete ∨ l.fromAuth.loginError = true := by
  unfold Login.fromAuth
  split
  · exact Or.inl rfl
  · exact Or.inr rfl

theorem Login.fromKeyExchange_over (l : Login) :
    l.fromKeyExchange = .loginComplete ∨ l.fromKeyExchange.loginError = true := by
  unfold Login.fromKeyExchange
  split
  · exact l.fromAuth_over
  · exact Or.inr rfl

theorem Login.fromConnect_over (l : Login) :
    l.fromConnect = .loginComplete ∨ l.fromConnect.loginError = true := by
  unfold Login.fromConnect
  split
  · exact l.fromKeyExchange_over
  · exact Or.inr rfl

/-- **What a call of `spotify_fsm` does**: no login is left half done. -/
theorem spotifyFsm_poll (s : Sys) (c : Client) (env : ClientEnv) :
    Poll lib s c (spotifyFsm lib s c env).1 (spotifyFsm lib s c env).2 := by
  unfold spotifyFsm
  cases hstate : c.state with
  | allocate =>
    have hlogin : c.state.login = true := by rw [hstate]; rfl
    dsimp only
    split
    · exact .login hlogin env.login.fromConnect_over
    · exact @Poll.login lib s c c.session _ hlogin (Or.inr rfl)
  | connect =>
    exact @Poll.login lib s c c.session _ (by rw [hstate]; rfl) env.login.fromConnect_over
  | keyExchange =>
    exact @Poll.login lib s c c.session _ (by rw [hstate]; rfl) env.login.fromKeyExchange_over
  | auth => exact @Poll.login lib s c c.session _ (by rw [hstate]; rfl) env.login.fromAuth_over
  | idleConnected =>
    have hreading : ({ c with clientHasData := false } : Client) = c.reading := rfl
    dsimp only
    rw [← hstate, hreading]
    split
    · cases env.packet with
      | none => exact .lost hstate
      | some p =>
        dsimp only
        generalize hpacket : handlePacket lib (s.setClient c.reading) c.reading p = result
        obtain ⟨s₁, ret⟩ := result
        dsimp only
        split
        · next hret =>
          subst hret
          exact .packet hstate hpacket
        · next hret => exact .failed hstate hpacket hret
    · exact .quiet (by rw [hstate]; rfl)
  | idleDisconnected | loginComplete | commandComplete | errorConnect | errorKeyExchange
  | errorAuth | errorPacket => exact .quiet (by rw [hstate]; rfl)

theorem clientTurn_none {i : Nat} {env : ClientEnv} (hi : s.clients[i]? = none) :
    clientTurn lib s i env = { s with pc := .select } := by
  rw [clientTurn, hi]

theorem clientTurn_round {i : Nat} {c : Client} {env : ClientEnv} (hi : s.clients[i]? = some c) :
    ClientRound lib s i c (clientTurn lib s i env) := by
  have hpoll := @spotifyFsm_poll lib s c env
  unfold clientTurn
  rw [hi]
  dsimp only
  by_cases hexpired : env.expired = true
  · have hfailed : ¬ (-1 : Int) = 0 := by decide
    have hcause : s = s ∨ Poll lib s c s (-1) ∧ (-1 : Int) ≠ 0 := Or.inl rfl
    rw [if_pos hexpired, if_neg hfailed]
    split
    · exact .lost hcause
    · exact .dropped hcause
  · rw [if_neg hexpired]
    generalize spotifyFsm lib s c env = result at hpoll
    obtain ⟨s₁, ret⟩ := result
    dsimp only at hpoll ⊢
    by_cases hret : ret = 0
    · rw [if_pos hret]
      exact .kept (hret ▸ hpoll)
    · have hcause : s₁ = s ∨ Poll lib s c s₁ ret ∧ ret ≠ 0 := Or.inr ⟨hpoll, hret⟩
      rw [if_neg hret]
      split
      · exact .lost hcause
      · exact .dropped hcause

end

end Despotify.Gateway

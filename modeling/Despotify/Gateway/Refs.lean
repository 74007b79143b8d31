import Despotify.Gateway.Rounds
import Despotify.Gateway.Stream
import Despotify.Pool.Runs

/-!
# References between connections and clients

A connection holds a pointer to its client, and several may hold the same.  The table of
clients loses one in three places: when a login has failed or a connection logs out
(REST_STATE_FREE_CLIENT), when the connection to Spotify fails or times out, and at the end.
Only the second one looks for the other connections.

* `refsValid_iff`: all through a run every pointer is NULL or to a client in the table, and
  whoever needs a client has one, if and only if no client is freed that another connection holds.
-/

namespace Despotify.Gateway

open Channels Runs

/-! ## The invariant -/

section
variable {lib : Lib} {s s' : Sys} {r : Rest} {i : Nat}

/-- Every client a connection holds is in the table. -/
structure Sys.Inv (s : Sys) : Prop where
  wf : s.Wf
  shape : ∀ r ∈ s.rest, r.Shape
  valid : ∀ r ∈ s.rest, ∀ p, r.client = some p → p ∈ s.clients.map Client.ptr

/-- What a call does to the table of clients, and to the pointer of the connection. -/
theorem Pass.refs {s₁ : Sys} {kept : Option Rest} (h : Pass lib s r s₁ kept) :
    (s₁.clients.map Client.ptr = s.clients.map Client.ptr ∧ s₁.brk = s.brk ∧
      ∀ r' ∈ kept, ∀ p, r'.client = some p →
        r.client = some p ∨ p ∈ s.clients.map Client.ptr) ∨
    (s₁.clients.map Client.ptr = s.clients.map Client.ptr ++ [s.brk] ∧ s₁.brk = s.brk + 1 ∧
      ∀ r' ∈ kept, r'.client = some s.brk) ∨
    (∃ c i, r.At s c .freeClient ∧ s.clients[i]? = some c ∧
      s₁.clients = Keyed.swapRemove s.clients i ∧ s₁.brk = s.brk ∧
      ∀ r' ∈ kept, r'.client = none) := by
  have hset : ∀ c : Client, (s.mem.set c).clients.map Client.ptr = s.clients.map Client.ptr :=
    fun c => s.ptrs_setClient c
  have hcommand : ∀ c req, (s.command lib r c req).mem.clients.map Client.ptr =
      s.clients.map Client.ptr := by
    intro c req
    rw [Sys.command_mem]
    exact hset { c with
      output := .obj s.world.table.brk (req.context lib s.world.table.brk), outputLen := 0 }
  have hsame : ∀ r' : Rest, r'.client = r.client → ∀ p, r'.client = some p →
      r.client = some p ∨ p ∈ s.clients.map Client.ptr :=
    fun r' hclient p hp => Or.inl (hclient ▸ hp)
  have hat : ∀ {c : Client} {state : RestState}, r.At s c state → ∀ r' : Rest,
      r'.client = some c.ptr → ∀ p, r'.client = some p →
        r.client = some p ∨ p ∈ s.clients.map Client.ptr :=
    fun hat r' hclient => hsame r' (hclient.trans hat.client.symm)
  have hnew : ∀ {c : Client}, s.client? c.ptr = some c → ∀ r' : Rest, r'.client = some c.ptr →
      ∀ p, r'.client = some p → r.client = some p ∨ p ∈ s.clients.map Client.ptr := by
    intro c hc r' hclient p hp
    obtain rfl := Option.some.inj (hclient.symm.trans hp)
    exact Or.inr (List.mem_map_of_mem (Sys.client?_mem hc).1)
  cases h with
  | quiet _ h => exact Or.inl ⟨rfl, rfl, fun r' hr => hsame r' (h r' hr).client⟩
  | fault _ h => exact Or.inl ⟨rfl, rfl, fun r' hr => hsame r' (h r' hr).client⟩
  | logout _ _ h => exact Or.inl ⟨rfl, rfl, fun r' hr => hsame r' (h r' hr).client⟩
  | attach _ hc _ h => exact Or.inl ⟨rfl, rfl, fun r' hr => hnew hc r' (h r' hr).client⟩
  | httpAttach _ hc _ _ h =>
    refine Or.inl ⟨hset _, rfl, fun r' hr => hnew hc r' ?_⟩
    exact (h r' hr).elim Rest.Moved.client fun h => h.1.client
  | allocate _ hptr _ _ _ h =>
    refine Or.inr (Or.inl ⟨?_, rfl, fun r' hr => (h r' hr).client⟩)
    show List.map Client.ptr (s.clients ++ [_]) = _
    rw [List.map_append, List.map_singleton, hptr]
  | commandFault _ _ _ =>
    refine Or.inl ⟨hcommand _ _, Sys.command_brk s r _ _, fun r' hr => hsame r' ?_⟩
    rw [Option.mem_some.mp hr]
  | issue _ _ h =>
    refine Or.inl ⟨hcommand _ _, Sys.command_brk s r _ _, fun r' hr => hsame r' ?_⟩
    rw [h r' hr]
  | unissue => exact Or.inl ⟨hcommand _ _, Sys.command_brk s r _ _, nofun⟩
  | answer _ h _ _ _ hkept =>
    exact Or.inl ⟨hset _, rfl, fun r' hr => hat h r' (hkept r' hr).client⟩
  | httpDone _ h _ hkept =>
    exact Or.inl ⟨hset _, rfl, fun r' hr => hat h r' (hkept r' hr).client⟩
  | welcome _ h hkept => exact Or.inl ⟨hset _, rfl, fun r' hr => hat h r' (hkept r' hr).client⟩
  | loginError _ h _ hkept =>
    exact Or.inl ⟨hset _, rfl, fun r' hr => hat h r' (hkept r' hr).client⟩
  | free h hi hkept =>
    exact Or.inr (Or.inr ⟨_, _, h, hi, rfl, rfl, fun r' hr => (hkept r' hr).client⟩)

/-- A client is freed by the one connection that holds it. -/
def FreesAlone (s : Sys) (e : Event) : Prop :=
  ∀ r ∈ served s e, r.state = .freeClient → ∀ r' ∈ s.rest, r'.client = r.client → r'.ptr = r.ptr

instance (s : Sys) (e : Event) : Decidable (FreesAlone s e) :=
  inferInstanceAs (Decidable (∀ r ∈ served s e, r.state = .freeClient →
    ∀ r' ∈ s.rest, r'.client = r.client → r'.ptr = r.ptr))

theorem inv_restTurn {env : RestEnv} (h : s.Inv) (halone : ∀ r ∈ s.rest[i]?,
    r.state = .freeClient → ∀ r' ∈ s.rest, r'.client = r.client → r'.ptr = r.ptr) :
    (restTurn lib s i env).Inv := by
  cases hi : s.rest[i]? with
  | none =>
    rw [restTurn_none hi]
    exact ⟨⟨h.wf.clients, h.wf.clientFresh, h.wf.rest, h.wf.restFresh⟩, h.shape, h.valid⟩
  | some r =>
    have hr := List.mem_of_getElem? hi
    have hround := @restTurn_round lib s r i env h.wf hi (h.shape r hr)
      fun p hp => Sys.isSome_client?.mpr (h.valid r hr p hp)
    generalize (restFsm lib s r env).1 = s₁, keptOf (restFsm lib s r env) = kept at hround
    generalize restTurn lib s i env = s' at hround
    have hclients : s'.clients = s₁.clients := by rw [hround.rest]; rfl
    have hbrk : s'.brk = s₁.brk := by rw [hround.rest]
    -- an address of a connection is that of one before
    have hptrs : ∀ x ∈ s'.rest, ∃ y ∈ s.rest, x.ptr = y.ptr := by
      intro x hx
      rcases hround.mem x hx with hx | ⟨hx, -⟩
      · exact ⟨r, hr, hround.ptr x hx⟩
      · exact ⟨x, hx, rfl⟩
    have hshape : ∀ x ∈ s'.rest, x.Shape := by
      intro x hx
      rcases hround.mem x hx with hx | ⟨hx, -⟩
      · exact hround.shape x hx
      · exact h.shape x hx
    have hfresh : ∀ p ∈ s.clients.map Client.ptr, p < s.brk :=
      List.forall_mem_map.mpr h.wf.clientFresh
    rcases hround.pass.refs with ⟨hsame, hsameBrk, hkept⟩ | ⟨hadd, haddBrk, hkept⟩ |
      ⟨c, j, hat, hj, hremove, hsameBrk, hkept⟩
    · refine ⟨⟨?_, ?_, hround.nodup, ?_⟩, hshape, ?_⟩
      · rw [hclients, hsame]
        exact h.wf.clients
      · intro d hd
        rw [hbrk, hsameBrk]
        exact hfresh _ (hsame ▸ List.mem_map_of_mem (hclients ▸ hd))
      · intro x hx
        obtain ⟨y, hy, heq⟩ := hptrs x hx
        rw [hbrk, hsameBrk, heq]
        exact h.wf.restFresh y hy
      · intro x hx p hp
        rw [hclients, hsame]
        rcases hround.mem x hx with hx | ⟨hx, -⟩
        · exact (hkept x hx p hp).elim (h.valid r hr p) id
        · exact h.valid x hx p hp
    · refine ⟨⟨?_, ?_, hround.nodup, ?_⟩, hshape, ?_⟩
      · rw [hclients, hadd, List.nodup_append]
        refine ⟨h.wf.clients, List.nodup_singleton _, ?_⟩
        intro p hp q hq
        rw [List.mem_singleton.mp hq]
        exact Nat.ne_of_lt (hfresh p hp)
      · intro d hd
        have hd : d.ptr ∈ s.clients.map Client.ptr ++ [s.brk] :=
          hadd ▸ List.mem_map_of_mem (hclients ▸ hd)
        rw [hbrk, haddBrk]
        rcases List.mem_append.mp hd with hd | hd
        · exact Nat.lt_succ_of_lt (hfresh _ hd)
        · rw [List.mem_singleton.mp hd]
          exact Nat.lt_succ_self _
      · intro x hx
        obtain ⟨y, hy, heq⟩ := hptrs x hx
        rw [hbrk, haddBrk, heq]
        exact Nat.lt_succ_of_lt (h.wf.restFresh y hy)
      · intro x hx p hp
        rw [hclients, hadd, List.mem_append]
        rcases hround.mem x hx with hx | ⟨hx, -⟩
        · obtain rfl := Option.some.inj ((hkept x hx).symm.trans hp)
          exact Or.inr (List.mem_singleton.mpr rfl)
        · exact Or.inl (h.valid x hx p hp)
    · obtain ⟨hlt, -⟩ := List.getElem?_eq_some_iff.mp hj
      refine ⟨⟨?_, ?_, hround.nodup, ?_⟩, hshape, ?_⟩
      · rw [hclients, hremove]
        exact Keyed.nodup_swapRemove h.wf.clients hlt
      · intro d hd
        rw [hclients, hremove] at hd
        rw [hbrk, hsameBrk]
        exact h.wf.clientFresh d ((Keyed.mem_swapRemove h.wf.clients hj d).mp hd).1
      · intro x hx
        obtain ⟨y, hy, heq⟩ := hptrs x hx
        rw [hbrk, hsameBrk, heq]
        exact h.wf.restFresh y hy
      · intro x hx p hp
        rcases hround.mem x hx with hx | ⟨hx, hne⟩
        · rw [hkept x hx] at hp
          cases hp
        · obtain ⟨d, hd, rfl⟩ := List.mem_map.mp (h.valid x hx p hp)
          have hdc : d.ptr ≠ c.ptr := by
            intro heq
            refine hne (halone r hi hat.state x hx ?_)
            rw [hp, heq, hat.client]
          rw [hclients, hremove]
          exact List.mem_map_of_mem ((Keyed.mem_swapRemove h.wf.clients hj d).mpr ⟨hd, hdc⟩)

end

/-! ## The second loop and `select` -/

section
variable {lib : Lib} {s s' : Sys}

/-- The table of clients holds the addresses it held. -/
theorem stable_ptrs (ps : List Nat) :
    Stable (callback lib) fun w => w.client.clients.map Client.ptr = ps where
  enter {w} p data h := by
    unfold World.enter
    cases w.table.get p with
    | none => exact h
    | some ch =>
      dsimp only
      rw [← h]
      unfold callback
      cases w.client.fault with
      | some f => rfl
      | none =>
        dsimp only
        cases Keyed.find Client.ptr ch.callback.client w.client.clients with
        | none => rfl
        | some c =>
          dsimp only
          cases access lib ch data with
          | skip => rfl
          | complete => exact Keyed.map_overwrite _ w.client.clients
          | context f =>
            cases c.output with
            | null => rfl
            | dangling => rfl
            | obj own o =>
              dsimp only
              cases f o with
              | none => rfl
              | some react => exact @Keyed.map_overwrite _ _ _ Client.ptr _ w.client.clients
  modify _ _ _ h := h
  unregister _ h := h

theorem handlePacket_frame (s : Sys) (c : Client) (p : Packet) :
    (handlePacket lib s c p).1 = { s with world := (handlePacket lib s c p).1.world } ∧
      (handlePacket lib s c p).1.clients.map Client.ptr = s.clients.map Client.ptr := by
  have hstable : Stable (callback lib) _ := stable_ptrs (s.clients.map Client.ptr)
  cases p with
  | other ret country => exact ⟨rfl, s.ptrs_setClient { c with session := some country }⟩
  | channel payload error =>
    refine ⟨rfl, ?_⟩
    have h := hstable.channelProcess (w := s.world) payload error rfl
    show (handleChannel lib s.world payload error).1.client.clients.map Client.ptr = _
    unfold handleChannel
    generalize channelProcess (callback lib) s.world payload error = result at h ⊢
    obtain ⟨w, ret, faults⟩ := result
    cases faults with
    | nil => exact h
    | cons => exact h
  | aesKey payload garbage =>
    refine ⟨rfl, ?_⟩
    show (handleAeskey lib s.world payload garbage).1.client.clients.map Client.ptr = _
    unfold handleAeskey
    split
    · next a b buf =>
      cases channelById s.world.table (ntohs a b) with
      | none => rfl
      | some ch =>
        have h := hstable.enter (w := s.world) ch.ptr buf rfl
        dsimp only
        generalize s.world.enter (callback lib) ch.ptr buf = result at h ⊢
        obtain ⟨w, ret⟩ := result
        dsimp only at h ⊢
        cases ht : channelUnregister w.table ch.ptr with
        | none => exact h
        | some t => exact hstable.unregister ht h
    · rfl

/-- Only the table of clients and the channels change, and no address. -/
theorem Poll.frame {s₁ : Sys} {c : Client} {ret : Int} (h : Poll lib s c s₁ ret) :
    s₁ = { s with world := s₁.world } ∧
      s₁.clients.map Client.ptr = s.clients.map Client.ptr := by
  have hset : ∀ c', (s.setClient c').clients.map Client.ptr = s.clients.map Client.ptr :=
    s.ptrs_setClient
  have hpacket : ∀ {p : Packet} {s₁ : Sys} {ret : Int},
      handlePacket lib (s.setClient c.reading) c.reading p = (s₁, ret) →
      s₁ = { s with world := s₁.world } ∧
        s₁.clients.map Client.ptr = s.clients.map Client.ptr := by
    intro p s₁ ret h
    obtain ⟨hframe, hptrs⟩ := @handlePacket_frame lib (s.setClient c.reading) c.reading p
    rw [h] at hframe hptrs
    exact ⟨hframe, hptrs.trans (hset _)⟩
  cases h with
  | quiet => exact ⟨rfl, rfl⟩
  | login | lost => exact ⟨rfl, hset _⟩
  | packet _ h => exact hpacket h
  | failed _ h =>
    obtain ⟨hframe, hptrs⟩ := hpacket h
    refine ⟨?_, Eq.trans ?_ hptrs⟩
    · rw [hframe]
      rfl
    · exact Keyed.map_update Client.ptr c.ptr (f := fun c => { c with state := .errorPacket })
        (fun _ => rfl) _

theorem Sys.Inv.of_ptrs (h : s.Inv) (hrest : s'.rest = s.rest) (hbrk : s'.brk = s.brk)
    (hptrs : s'.clients.map Client.ptr = s.clients.map Client.ptr) : s'.Inv := by
  refine ⟨⟨hptrs ▸ h.wf.clients, ?_, hrest ▸ h.wf.rest, ?_⟩, hrest ▸ h.shape, ?_⟩
  · have hfresh : ∀ p ∈ s.clients.map Client.ptr, p < s.brk :=
      List.forall_mem_map.mpr h.wf.clientFresh
    rw [hbrk]
    exact fun c hc => hfresh _ (hptrs ▸ List.mem_map_of_mem hc)
  · rw [hrest, hbrk]
    exact h.wf.restFresh
  · rw [hrest, hptrs]
    exact h.valid

/-- A connection after `Sys.detach`. -/
theorem mem_detach {p : Nat} {x : Rest} (h : x ∈ (s.detach p).rest) :
    (x ∈ s.rest ∧ x.client ≠ some p) ∨
      ∃ y ∈ s.rest, x = { y with client := none, state := .loadCommand } := by
  obtain ⟨y, hy, rfl⟩ := List.mem_map.mp h
  by_cases hp : y.client = some p
  · rw [if_pos hp]
    exact Or.inr ⟨y, hy, rfl⟩
  · rw [if_neg hp]
    exact Or.inl ⟨hy, hp⟩

theorem ptrs_detach (s : Sys) (p : Nat) :
    (s.detach p).rest.map Rest.ptr = s.rest.map Rest.ptr := by
  show (s.rest.map _).map Rest.ptr = _
  rw [List.map_map]
  refine List.map_congr_left fun r _ => ?_
  show Rest.ptr (if _ then _ else _) = _
  split <;> rfl

/-- After that no connection holds the client. -/
theorem Sys.Inv.detach (h : s.Inv) (p : Nat) :
    (s.detach p).Inv ∧ ∀ x ∈ (s.detach p).rest, x.client ≠ some p := by
  refine ⟨⟨⟨h.wf.clients, h.wf.clientFresh, ?_, ?_⟩, ?_, ?_⟩, ?_⟩
  · rw [ptrs_detach]
    exact h.wf.rest
  · intro x hx
    rcases mem_detach hx with ⟨hx, -⟩ | ⟨y, hy, rfl⟩
    · exact h.wf.restFresh x hx
    · exact h.wf.restFresh y hy
  · intro x hx
    rcases mem_detach hx with ⟨hx, -⟩ | ⟨y, -, rfl⟩
    · exact h.shape x hx
    · exact .of_idle (Or.inr rfl)
  · intro x hx q hq
    rcases mem_detach hx with ⟨hx, -⟩ | ⟨y, -, rfl⟩
    · exact h.valid x hx q hq
    · cases hq
  · intro x hx
    rcases mem_detach hx with ⟨-, hne⟩ | ⟨y, -, rfl⟩
    · exact hne
    · exact nofun

theorem inv_clientTurn {i : Nat} {env : ClientEnv} (h : s.Inv) :
    (clientTurn lib s i env).Inv := by
  cases hi : s.clients[i]? with
  | none =>
    rw [clientTurn_none hi]
    exact h.of_ptrs rfl rfl rfl
  | some c =>
    have hround := @clientTurn_round lib s i c env hi
    -- what is dropped is the client of the round
    have hlost : ∀ {s₁ : Sys} {ret : Int}, s₁ = s ∨ Poll lib s c s₁ ret ∧ ret ≠ 0 →
        s₁.Inv ∧ s₁.clients.map Client.ptr = s.clients.map Client.ptr := by
      rintro s₁ ret (rfl | ⟨hpoll, -⟩)
      · exact ⟨h, rfl⟩
      · obtain ⟨hframe, hptrs⟩ := hpoll.frame
        exact ⟨h.of_ptrs (by rw [hframe]) (by rw [hframe]) hptrs, hptrs⟩
    generalize clientTurn lib s i env = s' at hround
    cases hround with
    | kept hpoll =>
      obtain ⟨hframe, hptrs⟩ := hpoll.frame
      exact h.of_ptrs (by rw [hframe]) (by rw [hframe]) hptrs
    | lost hfailed => exact ((hlost hfailed).1.detach c.ptr).1.of_ptrs rfl rfl rfl
    | @dropped s₁ _ hfailed =>
      obtain ⟨h₁, hptrs⟩ := hlost hfailed
      obtain ⟨hdetach, hfree⟩ := h₁.detach c.ptr
      obtain ⟨d, hd, hdc⟩ : ∃ d, s₁.clients[i]? = some d ∧ d.ptr = c.ptr := by
        have hptr : (s₁.clients.map Client.ptr)[i]? = some c.ptr := by
          rw [hptrs, List.getElem?_map, hi, Option.map_some]
        rwa [List.getElem?_map, Option.map_eq_some_iff] at hptr
      obtain ⟨hlt, -⟩ := List.getElem?_eq_some_iff.mp hd
      have hmem := Keyed.mem_swapRemove h₁.wf.clients hd
      refine ⟨⟨Keyed.nodup_swapRemove h₁.wf.clients hlt, ?_, hdetach.wf.rest,
        hdetach.wf.restFresh⟩, hdetach.shape, ?_⟩
      · exact fun x hx => h₁.wf.clientFresh x ((hmem x).mp hx).1
      · intro x hx p hp
        obtain ⟨y, hy, rfl⟩ := List.mem_map.mp (hdetach.valid x hx p hp)
        refine List.mem_map_of_mem ((hmem y).mpr ⟨hy, fun heq => hfree x hx ?_⟩)
        rw [hp, heq, hdc]

theorem inv_selectTurn (outcome : Select) (h : s.Inv) : (selectTurn s outcome).Inv := by
  unfold selectTurn
  split
  · exact h.of_ptrs rfl rfl rfl
  · cases outcome with
    | failed =>
      exact ⟨⟨List.nodup_nil, List.forall_mem_nil _, List.nodup_nil, List.forall_mem_nil _⟩,
        List.forall_mem_nil _, List.forall_mem_nil _⟩
    | timeout => exact h.of_ptrs rfl rfl rfl
    | accept ok =>
      cases ok with
      | false => exact h.of_ptrs rfl rfl rfl
      | true =>
        have hmem : ∀ {x : Rest}, x ∈ s.rest ++ [newRest s.brk] → x ∈ s.rest ∨ x = newRest s.brk :=
          fun hx => (List.mem_append.mp hx).imp_right List.mem_singleton.mp
        refine ⟨⟨h.wf.clients, fun c hc => Nat.lt_succ_of_lt (h.wf.clientFresh c hc), ?_, ?_⟩, ?_, ?_⟩
        · show ((s.rest ++ [newRest s.brk]).map Rest.ptr).Nodup
          rw [List.map_append, List.nodup_append]
          refine ⟨h.wf.rest, List.nodup_singleton _, ?_⟩
          intro p hp q hq
          obtain ⟨x, hx, rfl⟩ := List.mem_map.mp hp
          rw [List.mem_singleton.mp hq]
          exact Nat.ne_of_lt (h.wf.restFresh x hx)
        · intro x hx
          rcases hmem hx with hx | rfl
          · exact Nat.lt_succ_of_lt (h.wf.restFresh x hx)
          · exact Nat.lt_succ_self _
        · intro x hx
          rcases hmem hx with hx | rfl
          · exact h.shape x hx
          · exact .of_idle (Or.inl rfl)
        · intro x hx p hp
          rcases hmem hx with hx | rfl
          · exact h.valid x hx p hp
          · cases hp
    | data rest clients =>
      have hclients : (s.clients.map fun c =>
          if c.ptr ∈ clients then { c with clientHasData := true } else c).map Client.ptr =
          s.clients.map Client.ptr := by
        rw [List.map_map]
        refine List.map_congr_left fun c _ => ?_
        show Client.ptr (if _ then _ else _) = _
        split <;> rfl
      have hfresh : ∀ p ∈ s.clients.map Client.ptr, p < s.brk :=
        List.forall_mem_map.mpr h.wf.clientFresh
      have hmem : ∀ {x : Rest}, (x ∈ s.rest.map fun r =>
          if r.ptr ∈ rest then { r with socketHasData := true } else r) →
          ∃ y ∈ s.rest, x = y ∨ x = { y with socketHasData := true } := by
        intro x hx
        obtain ⟨y, hy, rfl⟩ := List.mem_map.mp hx
        refine ⟨y, hy, ?_⟩
        split
        · exact Or.inr rfl
        · exact Or.inl rfl
      have hnodup := h.wf.clients
      refine ⟨⟨?_, ?_, ?_, ?_⟩, ?_, ?_⟩
      · rw [← hclients] at hnodup
        exact hnodup
      · intro c hc
        have hc := List.mem_map_of_mem (f := Client.ptr) hc
        exact hfresh _ (hclients ▸ hc)
      · show ((s.rest.map _).map Rest.ptr).Nodup
        rw [List.map_map]
        have hptrs : (s.rest.map (Rest.ptr ∘ fun r =>
            if r.ptr ∈ rest then { r with socketHasData := true } else r)) =
            s.rest.map Rest.ptr := by
          refine List.map_congr_left fun r _ => ?_
          show Rest.ptr (if _ then _ else _) = _
          split <;> rfl
        rw [hptrs]
        exact h.wf.rest
      · intro x hx
        obtain ⟨y, hy, rfl | rfl⟩ := hmem hx
        · exact h.wf.restFresh _ hy
        · exact h.wf.restFresh y hy
      · intro x hx
        obtain ⟨y, hy, rfl | rfl⟩ := hmem hx
        · exact h.shape _ hy
        · have hshape := h.shape y hy
          exact ⟨hshape.attached, hshape.plain, hshape.http, hshape.callback⟩
      · intro x hx p hp
        show p ∈ List.map Client.ptr (s.clients.map _)
        rw [hclients]
        obtain ⟨y, hy, rfl | rfl⟩ := hmem hx
        · exact h.valid _ hy p hp
        · exact h.valid y hy p hp

/-- **One step.** -/
theorem inv_step {e : Event} (h : s.Inv) (halone : FreesAlone s e)
    (hstep : step lib s e = some s') : s'.Inv := by
  unfold step at hstep
  cases hfault : s.mem.fault with
  | some f =>
    rw [hfault] at hstep
    cases hstep
  | none =>
    rw [hfault] at hstep
    dsimp only at hstep
    split at hstep
    · next i env hpc =>
      cases hstep
      have hserved : served s (.rest env) = s.rest[i]? := served_rest hfault hpc
      exact inv_restTurn h (hserved ▸ halone)
    · cases hstep
      exact inv_clientTurn h
    · cases hstep
      exact inv_selectTurn _ h
    · cases hstep

theorem inv_init : Sys.init.Inv :=
  ⟨⟨List.nodup_nil, List.forall_mem_nil _, List.nodup_nil, List.forall_mem_nil _⟩,
    List.forall_mem_nil _, List.forall_mem_nil _⟩

end

/-! ## What the code promises -/

/-- The references that `main`, `rest_fsm` and `spotify_fsm` follow. -/
structure Sys.RefsValid (s : Sys) : Prop where
  valid : ∀ r ∈ s.rest, ∀ p, r.client = some p → p ∈ s.clients.map Client.ptr
  attached : ∀ r ∈ s.rest, r.state.attached = true → r.client ≠ none
  nodup : (s.clients.map Client.ptr).Nodup

section
variable {lib : Lib} {s s' : Sys} {r : Rest} {i : Nat}

theorem Sys.Inv.refsValid (h : s.Inv) : s.RefsValid :=
  ⟨h.valid, fun r hr => (h.shape r hr).attached, h.wf.clients⟩

/-- A client that is freed leaves every other pointer to it dangling. -/
theorem alone_of_refsValid {env : RestEnv} (h : s.Inv) (hi : s.rest[i]? = some r)
    (hstate : r.state = .freeClient) (hvalid : (restTurn lib s i env).RefsValid) :
    ∀ r' ∈ s.rest, r'.client = r.client → r'.ptr = r.ptr := by
  have hr := List.mem_of_getElem? hi
  obtain ⟨p, hp⟩ := Option.ne_none_iff_exists'.mp ((h.shape r hr).attached (by rw [hstate]; rfl))
  obtain ⟨c, hc⟩ := Option.isSome_iff_exists.mp (Sys.isSome_client?.mpr (h.valid r hr p hp))
  obtain rfl := (Sys.client?_mem hc).2
  obtain ⟨j, hj, heq⟩ := restFreeClient_eq h.wf ⟨hstate, hp, hc⟩
  have hturn : restTurn lib s i env =
      { (s.setMem (s.mem.setClients (Keyed.swapRemove s.clients j))).setRest
          { r with client := none, state := .loadCommand } with pc := .rest (i + 1) } := by
    have hfsm : restFsm lib s r env = restFreeClient s r := by
      unfold restFsm
      rw [hstate]
    unfold restTurn
    rw [hi]
    dsimp only
    rw [hfsm, heq]
    exact if_pos rfl
  rw [hturn] at hvalid
  intro r' hr' hclient
  by_contra hne
  have hkept : r' ∈ Keyed.update Rest.ptr r.ptr
      (fun _ => { r with client := none, state := .loadCommand }) s.rest :=
    List.mem_map.mpr ⟨r', hr', if_neg hne⟩
  obtain ⟨d, hd, hdc⟩ := List.mem_map.mp (hvalid.valid r' hkept c.ptr (hclient.trans hp))
  exact ((Keyed.mem_swapRemove h.wf.clients hj d).mp hd).2 hdc

/-- **References stay valid** through a run if and only if each client is freed by the one
connection that holds it. -/
theorem refsValid_iff (lib : Lib) (es : List Event) :
    Always (step lib) Sys.RefsValid Sys.init es ↔ AllSteps (step lib) FreesAlone Sys.init es := by
  have hrun : ∀ {s : Sys}, s.Inv →
      (Always (step lib) Sys.RefsValid s es ↔ AllSteps (step lib) FreesAlone s es) := by
    induction es with
    | nil => exact fun hs => iff_of_true hs.refsValid trivial
    | cons e es ih =>
      intro s hs
      constructor
      · rintro ⟨-, hnext⟩
        have halone : FreesAlone s e := by
          intro r hr hstate
          obtain ⟨i, env, hfault, hpc, rfl, hi⟩ := exists_of_served hr
          have hstep : step lib s (.rest env) = some (restTurn lib s i env) := by
            unfold step
            rw [hfault, hpc]
          exact alone_of_refsValid hs hi hstate (hnext _ hstep).head
        exact ⟨halone, fun s' hstep => (ih (inv_step hs halone hstep)).mp (hnext s' hstep)⟩
      · rintro ⟨halone, hnext⟩
        refine ⟨hs.refsValid, fun s' hstep => ?_⟩
        exact (ih (inv_step hs halone hstep)).mpr (hnext s' hstep)
  exact hrun inv_init

end

/-! ## Two connections on one account -/

/-- A connection gets `line`. -/
def restGets (line : String) : Event := .rest ⟨some (ascii line), true, true, true, [49]⟩

/-- A login succeeds; a client that is connected has nothing to do. -/
def clientRuns : Event := .client ⟨false, ⟨true, true, true, true⟩, none⟩

/-- The two loops, with two connections and a number of clients. -/
def twoGet (line line' : String) (clients : Nat) : List Event :=
  [restGets line, restGets line', restGets ""] ++ List.replicate (clients + 1) clientRuns

/-- Both connections are there, and have something to read. -/
def twoConnections : List Event :=
  [restGets "", clientRuns, .select (.accept true)] ++
    [restGets "", restGets "", clientRuns, .select (.accept true)] ++
    twoGet "" "" 0 ++ [.select (.data [0, 1] [])]

/-- The first connection logs out. -/
def logoutOfTwo : List Event :=
  twoConnections ++ twoGet "login a b\nlogout\n" "login a b\n" 0 ++ [.select .timeout] ++
    (List.replicate 4 (twoGet "" "" 1 ++ [.select .timeout])).flatten ++ [restGets ""]

/-- The second connection holds a client that is gone. -/
theorem not_refsValid :
    ¬ ∀ lib es s, exec (step lib) Sys.init es = some s → s.RefsValid := by
  intro h
  have hrun : ((exec (step plainLib) Sys.init logoutOfTwo).map fun s =>
      (s.rest.map Rest.client, s.clients.map Client.ptr)) = some ([none, some 2], []) := by
    decide +kernel
  obtain ⟨s, hs, heq⟩ := Option.map_eq_some_iff.mp hrun
  obtain ⟨hrest, hclients⟩ := Prod.mk.inj heq
  have hmem : some 2 ∈ s.rest.map Rest.client := by
    rw [hrest]
    decide
  obtain ⟨r, hr, hclient⟩ := List.mem_map.mp hmem
  have hfound := (h plainLib _ s hs).valid r hr 2 hclient
  rw [hclients] at hfound
  cases hfound

end Despotify.Gateway

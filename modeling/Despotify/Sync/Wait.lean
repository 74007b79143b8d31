import Despotify.Sync.Base

/-!
# Completions and the condition variables

`sync_cond` and `login_cond` are signalled once, when the reply is in, and no
variable remembers it: a completion that arrives between the command and the
wait is lost, and the request can only time out (`earlyError_lost`); the login
then blocks for ever.

`released_of_inTime`: in a run where no completion arrives in that gap, every
completion ends the wait it is for.
-/

namespace Despotify.Sync

open Channels Runs

variable {inflate : List UInt8 → Option (List UInt8)}

/-- The callback of the channel was entered in END or ERROR state. -/
def Ended (s : Sys) (p : Nat) : Prop :=
  ∃ c ∈ s.world.calls, c.ch.ptr = p ∧ c.ch.state.final = true

/-- Whoever waits for a reply that is complete has been woken, and so has the
login once the welcome is handled. -/
def Released (s : Sys) : Prop :=
  (∀ req own, s.ds.thread.pending = some (req, own) → Ended s own →
    ∃ signaller, s.ds.thread = .woken req own signaller) ∧
  (s.ds.welcomed = true → s.ds.thread ≠ .started ∧ s.ds.thread ≠ .loggingIn)

/-- No completion arrives between the command and the wait for it. -/
def InTime (s : Sys) : Event → Prop
  | .packet payload error => ∀ req own, s.ds.thread = .sent req own →
      ∀ c ∈ s.callsOn payload error, c.ch.ptr = own → c.ch.state.final = false
  | .welcome => s.ds.thread ≠ .started
  | _ => True

/-! ## One step -/

/-- What a run in time keeps. -/
structure Prompt (s : Sys) : Prop extends Base s where
  /-- a request is awake once its channel is closed -/
  awake : ∀ req own, s.ds.thread.pending = some (req, own) → Ended s own →
    ∃ signaller, s.ds.thread = .woken req own signaller
  login : s.ds.thread.early = true → s.ds.welcomed = false

theorem prompt_init (useCache : Bool) : Prompt (Sys.init useCache) where
  toBase := base_init useCache
  awake := nofun
  login := fun _ => rfl

theorem Prompt.released {s : Sys} (h : Prompt s) : Released s := by
  refine ⟨h.awake, fun hw => ⟨fun ht => ?_, fun ht => ?_⟩⟩
  · rw [h.login (by rw [ht]; rfl)] at hw
    cases hw
  · rw [h.login (by rw [ht]; rfl)] at hw
    cases hw

/-- A channel not registered yet has made no calls. -/
theorem not_ended_nextPtr {s : Sys} (h : s.Inv) : ¬ Ended s s.nextPtr := by
  intro hend
  exact Nat.lt_irrefl _ (h.past s.nextPtr (Or.inr hend))

theorem ended_of_calls {s s' : Sys} (h : s'.world.calls = s.world.calls) (p : Nat) :
    Ended s' p ↔ Ended s p := by
  unfold Ended
  rw [h]

theorem Prompt.turn {s s' : Sys} {e : Event} (h : Prompt s) (hk : Kept s s')
    (ht : Turn inflate s s' e) (hok : InTime s e) : Prompt s' := by
  have hbase : Base s' := h.toBase.turn hk ht
  cases ht with
  | aside hthread _ _ _ _ _ hearly =>
    refine ⟨hbase, fun req own hp hend => ?_, fun he => ?_⟩
    · rcases hthread with ht | ⟨-, ht⟩
      · rw [ht] at hp ⊢
        exact h.awake req own hp ((ended_of_calls hk.calls own).mp hend)
      · rw [Thread.request_of_pending hp] at ht
        cases ht
    · obtain ⟨he0, hw | ⟨rfl, hst⟩⟩ := hearly he
      · rw [hw]
        exact h.login he0
      · exact absurd hst hok
  | begin req hthread hds =>
    rcases begin_cases s.ds req with ⟨data, -, hthread', -, -⟩ | ⟨-, hopen⟩
    · refine ⟨hbase, fun req' own hp => ?_, fun he => ?_⟩
      · rw [hds, hthread', hthread] at hp
        cases hp
      · rw [hds, hthread', hthread] at he
        cases he
    · refine ⟨hbase, fun req' own hp => ?_, fun he => ?_⟩
      · rw [hds, hopen] at hp
        cases hp
      · rw [hds, hopen] at he
        cases he
  | send req ok hthread hs' =>
    subst hs'
    cases ok with
    | false => exact ⟨hbase, nofun, nofun⟩
    | true =>
      refine ⟨hbase, fun req' own hp hend => ?_, nofun⟩
      cases hp
      exact absurd ((ended_of_calls hk.calls _).mp hend) (not_ended_nextPtr h.chan)
  | wait req own hthread hds =>
    refine ⟨hbase, fun req' own' hp hend => ?_, fun he => ?_⟩
    · rw [hds] at hp
      cases hp
      obtain ⟨signaller, hw⟩ := h.awake req own (by rw [hthread]; rfl)
        ((ended_of_calls hk.calls own).mp hend)
      rw [hthread] at hw
      cases hw
    · rw [hds] at he
      cases he
  | timeout req own hthread hds =>
    refine ⟨hbase, fun req' own' hp => ?_, fun he => ?_⟩
    · rw [hds] at hp
      cases hp
    · rw [hds] at he
      cases he
  | finish req own signaller data hthread hresponse hds =>
    refine ⟨hbase, fun req' own' hp => ?_, fun he => ?_⟩
    · rw [hds] at hp
      cases hp
    · rw [hds] at he
      cases he

/-- A signal wakes the request that waits; one already awake stays awake. -/
theorem signal_wakes {ds : Ds} {req : Req} {own : Nat} (signaller : Nat)
    (hp : ds.thread.pending = some (req, own)) (hsent : ds.thread ≠ .sent req own) :
    ∃ signaller', (ds.signal signaller).thread = .woken req own signaller' := by
  unfold Ds.signal
  cases ht : ds.thread with
  | waiting req' own' =>
    rw [ht] at hp
    cases hp
    exact ⟨signaller, rfl⟩
  | woken req' own' signaller' =>
    rw [ht] at hp
    cases hp
    exact ⟨signaller', ht⟩
  | sent req' own' =>
    rw [ht] at hp hsent
    cases hp
    exact absurd rfl hsent
  | _ =>
    rw [ht] at hp
    cases hp

/-- No callback puts a request to sleep again. -/
theorem Effect.woken {ds ds' : Ds} {ch : Channel Handler} {calls : List (Call Handler)}
    (h : Effect ds ch calls ds') {req : Req} {own signaller : Nat}
    (hw : ds.thread = .woken req own signaller) : ds'.thread = .woken req own signaller := by
  cases h with
  | quiet => exact hw
  | closed =>
    unfold Ds.signal
    rw [hw]
    exact hw
  | data =>
    unfold Ds.append
    split <;> exact hw
  | skipped => exact hw

/-- The call that closes a channel is the one that signals. -/
theorem Effect.wakes {ds ds' : Ds} {ch : Channel Handler} {calls : List (Call Handler)}
    (h : Effect ds ch calls ds') (hcb : ch.callback ≠ .other) {c : Call Handler} (hc : c ∈ calls)
    (hfinal : c.ch.state.final = true) {req : Req} {own : Nat}
    (hp : ds.thread.pending = some (req, own)) (hsent : ds.thread ≠ .sent req own) :
    ∃ signaller, ds'.thread = .woken req own signaller := by
  cases h with
  | quiet _ hquiet =>
    rcases hquiet with ho | hheaders
    · exact absurd ho hcb
    · rw [hheaders c hc] at hfinal
      cases hfinal
  | closed => exact signal_wakes ch.ptr hp hsent
  | data _ _ hstate =>
    rw [List.mem_singleton.mp hc, hstate] at hfinal
    cases hfinal
  | skipped _ _ hstate =>
    rw [List.mem_singleton.mp hc, hstate] at hfinal
    cases hfinal

theorem Prompt.packet {s : Sys} (h : Prompt s) {payload : List UInt8} {error : Bool}
    (hok : InTime s (.packet payload error)) : Prompt (s.after payload error) := by
  have hbase := h.toBase.packet payload error
  cases ht : s.target payload with
  | none =>
    have hworld : s.after payload error = s := by
      rw [Sys.after, process_none ht]
    rw [hworld]
    exact h
  | some ch =>
    obtain ⟨hget, -, hcalls, heff, -⟩ := packet_spec h.chan.table ht error
    refine ⟨hbase, fun req own hp hend => ?_, fun he => ?_⟩
    · have hp0 : s.ds.thread.pending = some (req, own) := heff.pending.1.symm.trans hp
      obtain ⟨c, hc, hown, hfinal⟩ := hend
      rcases List.mem_append.mp (hcalls ▸ hc) with hc | hc
      · obtain ⟨signaller, hw⟩ := h.awake req own hp0 ⟨c, hc, hown, hfinal⟩
        exact ⟨signaller, heff.woken hw⟩
      · have hsent : s.ds.thread ≠ .sent req own := by
          intro hsent
          rw [hok req own hsent c hc hown] at hfinal
          cases hfinal
        obtain ⟨-, hcb⟩ := h.own req own hp0
        have hch : c.ch.ptr = ch.ptr := heff.ptr c hc
        have hne : ch.callback ≠ .other := by
          rw [hcb ch (by rw [← hown, hch, hget])]
          exact req.handler_ne_other
        exact heff.wakes hne hc hfinal hp0 hsent
    · exact heff.early.2.trans (h.login (heff.early.1.symm.trans he))

theorem step_prompt {s s' : Sys} {e : Event} (h : Prompt s) (hok : InTime s e)
    (hs : step inflate s e = some s') : Prompt s' := by
  rcases step_turn h.chan hs with ⟨payload, error, rfl, rfl⟩ | ⟨hk, ht⟩
  · exact h.packet hok
  · exact h.turn hk ht hok

/-! ## Whole runs -/

/-- **No lost completion**: in a run where no completion arrives between the
command and the wait, whenever the END or ERROR of a request's channel has been
delivered the wait is over and returns true, and whenever the welcome has been
handled the login is over. -/
theorem released_of_inTime {useCache : Bool} {es : List Event} {s : Sys}
    (hok : AllSteps (step inflate) InTime (Sys.init useCache) es)
    (hrun : exec (step inflate) (Sys.init useCache) es = some s) : Released s :=
  (exec_inv_of_allSteps (fun _ _ _ h ho hs => step_prompt h ho hs) (prompt_init useCache)
    hok hrun).released

/-- A search whose reply comes while it waits. -/
def promptError : List Event :=
  [.authenticate, .loginWait, .welcome, .begin (.search []), .send true, .wait, .packet [0, 0] true]

theorem released_of_inTime_search : ∃ s,
    exec (step fun _ => none) (Sys.init false) promptError = some s ∧
      s.ds.thread = .woken (.search []) 0 0 ∧ Ended s 0 ∧ Released s := by
  have hok : AllSteps (step fun _ => none) InTime (Sys.init false) promptError := by
    refine .cons trivial rfl (.cons trivial rfl (.cons nofun rfl (.cons trivial rfl ?_)))
    refine .cons trivial rfl (.cons trivial rfl (.cons ?_ rfl trivial))
    exact fun _ _ h => nomatch h
  exact ⟨_, rfl, rfl, ⟨_, List.mem_cons_self, rfl, rfl⟩, released_of_inTime hok rfl⟩

/-- A search whose reply is in before the wait for it. -/
def earlyError : List Event :=
  [.authenticate, .loginWait, .welcome, .begin (.search []), .send true, .packet [0, 0] true, .wait]

/-- The error is delivered long before the deadline, and the search times out. -/
theorem earlyError_lost : ∃ s s',
    exec (step fun _ => none) (Sys.init false) earlyError = some s ∧
      s.ds.thread = .waiting (.search []) 0 ∧ Ended s 0 ∧ ¬ Released s ∧
      step (fun _ => none) s .timeout = some s' ∧ s'.ds.log = [(.search [], .timedOut 0)] := by
  refine ⟨_, _, rfl, rfl, ?_, ?_, rfl, rfl⟩
  · exact ⟨_, List.mem_cons_self, rfl, rfl⟩
  · intro h
    obtain ⟨signaller, hw⟩ := h.1 (.search []) 0 rfl ⟨_, List.mem_cons_self, rfl, rfl⟩
    cases hw

end Despotify.Sync

import Despotify.Pool.Runs

/-!
# The PCM thread of the ncurses client

`thread_loop` of `clients/despotify/session.c` against any sequence of
`thread_play`, `thread_pause` and `thread_exit`, in the steps that other threads can
see.  The loop reads `play_state` without the mutex, and does not look at it again
before it waits; a signal that finds no waiter is dropped.

* `step_inv`: a thread on its way to the wait has read the state that is stored.
* `resumes_of_heard`: if no command stores `PLAY` or `EXIT` between the read and the
  wait, the thread is not left waiting after one.
* `play_lost`: a run in which it is.
-/

namespace Despotify.Ui

/-! ## The threads -/

inductive PlayState
  | pause
  | play
  | exit
  deriving DecidableEq, Repr

/-- `thread_pause`, `thread_play` or `thread_exit`, by the state it stores. -/
abbrev Command := PlayState

/-- Where `thread_loop` is. -/
inductive LoopPc
  /-- `switch (play_state)` -/
  | switch
  /-- `PAUSE` has been read, `pthread_mutex_lock` is next -/
  | lock
  /-- with the mutex, `pthread_cond_wait` is next -/
  | wait
  /-- in `pthread_cond_wait`, without a signal -/
  | waiting
  /-- in `pthread_cond_wait`, with a signal: the mutex is to be taken again -/
  | woken
  /-- `pthread_mutex_unlock` is next -/
  | unlock
  /-- `despotify_get_pcm` and `audio_play_pcm` -/
  | play
  /-- the loop has ended -/
  | done
  deriving DecidableEq, Repr

/-- Where the thread that gives the commands is. -/
inductive CallPc
  | idle
  | lock (c : Command)
  /-- with the mutex, `play_state = ..` is next -/
  | store (c : Command)
  /-- `pthread_cond_signal` is next -/
  | signal (c : Command)
  | unlock (c : Command)
  /-- `pthread_join` -/
  | join
  deriving DecidableEq, Repr

inductive Owner
  | loop
  | caller
  deriving DecidableEq, Repr

structure State where
  playState : PlayState
  mutex : Option Owner
  loop : LoopPc
  caller : CallPc
  /-- the last command that has given the mutex back -/
  last : Option Command
  deriving DecidableEq, Repr

def State.init : State := ⟨.pause, none, .switch, .idle, none⟩

/-! ## Steps -/

inductive Event
  /-- a command is called -/
  | call (c : Command)
  /-- the caller goes on -/
  | caller
  /-- the PCM thread goes on -/
  | loop
  deriving DecidableEq, Repr

/-- `pthread_mutex_lock`: it returns when the mutex is free. -/
def State.acquire (s : State) (o : Owner) : Option State :=
  if s.mutex = none then some { s with mutex := some o } else none

/-- One step of `thread_loop`. -/
def stepLoop (s : State) : Option State :=
  match s.loop with
  | .switch =>
    match s.playState with
    | .pause => some { s with loop := .lock }
    | .play => some { s with loop := .play }
    | .exit => some { s with loop := .done }
  | .lock => (s.acquire .loop).map fun s => { s with loop := .wait }
  -- the wait gives the mutex back
  | .wait => some { s with loop := .waiting, mutex := none }
  | .waiting => none
  | .woken => (s.acquire .loop).map fun s => { s with loop := .unlock }
  | .unlock => some { s with loop := .switch, mutex := none }
  | .play => some { s with loop := .switch }
  | .done => none

/-- `pthread_cond_signal`. -/
def LoopPc.signalled : LoopPc → LoopPc
  | waiting => woken
  | pc => pc

/-- One step of a command; `thread_pause` does not signal, `thread_exit` joins. -/
def stepCaller (s : State) : Option State :=
  match s.caller with
  | .idle => none
  | .lock c => (s.acquire .caller).map fun s => { s with caller := .store c }
  | .store c =>
    some { s with playState := c, caller := if c = .pause then .unlock c else .signal c }
  | .signal c => some { s with loop := s.loop.signalled, caller := .unlock c }
  | .unlock c =>
    some { s with mutex := none, last := some c, caller := if c = .exit then .join else .idle }
  | .join => if s.loop = .done then some { s with caller := .idle } else none

def step (s : State) : Event → Option State
  | .call c => if s.caller = .idle then some { s with caller := .lock c } else none
  | .caller => stepCaller s
  | .loop => stepLoop s

/-! ## What the steps keep -/

/-- The command has stored its state and not yet signalled. -/
def State.signals (s : State) : Prop := ∃ c, s.caller = .signal c

/-- The command is over, as far as the other thread is concerned. -/
def CallPc.outside : CallPc → Prop
  | idle => True
  | lock _ => True
  | join => True
  | _ => False

/-- A command does not store a state that ends the pause between the read of the state
and the wait. -/
def Heard (s : State) (e : Event) : Prop :=
  e = .caller → ∀ c, s.caller = .store c → c ≠ .pause → s.loop ≠ .lock

structure Inv (s : State) : Prop where
  /-- between lock and wait, and after it -/
  loop_owns : s.loop = .wait ∨ s.loop = .unlock ↔ s.mutex = some .loop
  caller_owns : ¬ s.caller.outside ↔ s.mutex = some .caller
  paused : s.loop = .lock ∨ s.loop = .wait → s.playState = .pause
  waits : s.loop = .waiting → s.playState = .pause ∨ s.signals
  storing : ∀ c, s.caller = .signal c ∨ s.caller = .unlock c → s.playState = c
  /-- the state is that of the last command, unless one is about to return -/
  stored : ∀ c, s.last = some c → s.caller.outside → s.playState = c

/-- After `thread_play` or `thread_exit` the thread does not wait. -/
def Resumes (s : State) : Prop :=
  s.caller.outside → ∀ c, s.last = some c → c ≠ .pause → s.loop ≠ .waiting

theorem Inv.resumes {s : State} (h : Inv s) : Resumes s := by
  intro hout c hlast hc hwait
  rcases h.waits hwait with hpause | ⟨c', hsignal⟩
  · exact hc ((h.stored c hlast hout).symm.trans hpause)
  · rw [hsignal] at hout
    exact hout

theorem inv_init : Inv .init := by
  constructor
  · decide
  · simp [State.init, CallPc.outside]
  · intro _
    rfl
  · intro h
    cases h
  · intro c h
    simp [State.init] at h
  · intro c h
    cases h

theorem acquire_eq_some {s s' : State} {o : Owner} (h : s.acquire o = some s') :
    s.mutex = none ∧ s' = { s with mutex := some o } := by
  unfold State.acquire at h
  by_cases hfree : s.mutex = none
  · rw [if_pos hfree] at h
    cases h
    exact ⟨hfree, rfl⟩
  · rw [if_neg hfree] at h
    cases h

/-- A step outside the mutex and the wait. -/
theorem Inv.setLoop {s : State} {pc : LoopPc} (h : Inv s) (hout : s.loop ≠ .wait ∧ s.loop ≠ .unlock)
    (hpc : pc ≠ .wait ∧ pc ≠ .unlock ∧ pc ≠ .waiting) (hlock : pc = .lock → s.playState = .pause) :
    Inv { s with loop := pc } := by
  constructor
  · rw [← h.loop_owns]
    simp [hout, hpc]
  · exact h.caller_owns
  · rintro (hpc' | hpc')
    · exact hlock hpc'
    · exact absurd hpc' hpc.1
  · intro hpc'
    exact absurd hpc' hpc.2.2
  · exact h.storing
  · exact h.stored

/-- The mutex is taken by the PCM thread or given back. -/
theorem Inv.setLoop_mutex {s : State} {pc : LoopPc} {o : Option Owner} (h : Inv s)
    (hfree : s.mutex ≠ some .caller) (ho : o ≠ some .caller)
    (howner : pc = .wait ∨ pc = .unlock ↔ o = some .loop) (hlock : pc ≠ .lock)
    (hpause : pc = .wait ∨ pc = .waiting → s.playState = .pause) :
    Inv { s with loop := pc, mutex := o } := by
  constructor
  · exact howner
  · have hnot := mt h.caller_owns.mp hfree
    constructor
    · intro hin
      exact absurd hin hnot
    · intro hmine
      exact absurd hmine ho
  · rintro (hpc | hpc)
    · exact absurd hpc hlock
    · exact hpause (Or.inl hpc)
  · intro hpc
    exact Or.inl (hpause (Or.inr hpc))
  · exact h.storing
  · exact h.stored

theorem Inv.stepLoop {s s' : State} (h : Inv s) (hs : stepLoop s = some s') : Inv s' := by
  unfold Ui.stepLoop at hs
  cases hpc : s.loop with
  | switch =>
    rw [hpc] at hs
    have hout : s.loop ≠ .wait ∧ s.loop ≠ .unlock := by simp [hpc]
    cases hstate : s.playState with
    | pause =>
      rw [hstate] at hs
      cases hs
      rw [← hstate]
      exact h.setLoop hout (by decide) fun _ => hstate
    | play =>
      rw [hstate] at hs
      cases hs
      rw [← hstate]
      exact h.setLoop hout (by decide) nofun
    | exit =>
      rw [hstate] at hs
      cases hs
      rw [← hstate]
      exact h.setLoop hout (by decide) nofun
  | lock =>
    rw [hpc] at hs
    obtain ⟨s1, hs1, rfl⟩ := Option.map_eq_some_iff.mp hs
    obtain ⟨hfree, rfl⟩ := acquire_eq_some hs1
    exact h.setLoop_mutex (by simp [hfree]) (by simp) (by simp) (by decide)
      fun _ => h.paused (Or.inl hpc)
  | wait =>
    rw [hpc] at hs
    cases hs
    have howner : s.mutex = some .loop := h.loop_owns.mp (Or.inl hpc)
    exact h.setLoop_mutex (by simp [howner]) (by decide) (by decide) (by decide)
      fun _ => h.paused (Or.inr hpc)
  | waiting =>
    rw [hpc] at hs
    cases hs
  | woken =>
    rw [hpc] at hs
    obtain ⟨s1, hs1, rfl⟩ := Option.map_eq_some_iff.mp hs
    obtain ⟨hfree, rfl⟩ := acquire_eq_some hs1
    exact h.setLoop_mutex (by simp [hfree]) (by simp) (by simp) (by decide) (by simp)
  | unlock =>
    rw [hpc] at hs
    cases hs
    have howner : s.mutex = some .loop := h.loop_owns.mp (Or.inr hpc)
    exact h.setLoop_mutex (by simp [howner]) (by decide) (by decide) (by decide) (by simp)
  | play =>
    rw [hpc] at hs
    cases hs
    exact h.setLoop (by simp [hpc]) (by decide) nofun
  | done =>
    rw [hpc] at hs
    cases hs

/-- The caller has the mutex, the PCM thread has not. -/
theorem Inv.loop_of_caller {s : State} (h : Inv s) (hin : ¬ s.caller.outside) :
    s.mutex = some .caller ∧ s.loop ≠ .wait ∧ s.loop ≠ .unlock := by
  have howner := h.caller_owns.mp hin
  have hnot : ¬ (s.loop = .wait ∨ s.loop = .unlock) := by
    rw [h.loop_owns, howner]
    decide
  exact ⟨howner, not_or.mp hnot⟩

/-- The caller moves without its mutex: from and to a place outside. -/
theorem Inv.setCaller {s : State} {pc : CallPc} (h : Inv s) (hout : s.caller.outside)
    (hpc : pc.outside) : Inv { s with caller := pc } := by
  have hnot : s.mutex ≠ some .caller := fun hmine => h.caller_owns.mpr hmine hout
  constructor
  · exact h.loop_owns
  · constructor
    · intro hin
      exact absurd hpc hin
    · intro hmine
      exact absurd hmine hnot
  · exact h.paused
  · intro hwait
    refine (h.waits hwait).imp_right ?_
    rintro ⟨c, hsignal⟩
    rw [hsignal] at hout
    exact hout.elim
  · rintro c (hpc' | hpc')
    · rw [show pc = .signal c from hpc'] at hpc
      exact hpc.elim
    · rw [show pc = .unlock c from hpc'] at hpc
      exact hpc.elim
  · intro c hlast _
    exact h.stored c hlast hout

theorem Inv.stepCaller {s s' : State} (h : Inv s) (hok : Heard s .caller)
    (hs : stepCaller s = some s') : Inv s' := by
  unfold Ui.stepCaller at hs
  cases hpc : s.caller with
  | idle =>
    rw [hpc] at hs
    cases hs
  | lock c =>
    rw [hpc] at hs
    obtain ⟨s1, hs1, rfl⟩ := Option.map_eq_some_iff.mp hs
    obtain ⟨hfree, rfl⟩ := acquire_eq_some hs1
    constructor
    · have howns := h.loop_owns
      rw [hfree] at howns
      simpa using howns
    · simp [CallPc.outside]
    · exact h.paused
    · intro hwait
      refine Or.inl ((h.waits hwait).resolve_right ?_)
      rintro ⟨c', hsignal⟩
      rw [hpc] at hsignal
      cases hsignal
    · intro c' hc'
      simp at hc'
    · intro c' _ hout
      exact hout.elim
  | store c =>
    rw [hpc] at hs
    cases hs
    obtain ⟨howner, hwait, hunlock⟩ := h.loop_of_caller (by rw [hpc]; exact id)
    constructor
    · simp [howner, hwait, hunlock]
    · by_cases hc : c = .pause
      · simp [hc, howner, CallPc.outside]
      · simp [hc, howner, CallPc.outside]
    · rintro (hlock | hwait')
      · by_contra hc
        -- the thread would have read the state before it is stored
        exact hok rfl c hpc hc hlock
      · exact absurd hwait' hwait
    · intro _
      by_cases hc : c = .pause
      · exact Or.inl hc
      · exact Or.inr ⟨c, if_neg hc⟩
    · intro c' hc'
      by_cases hc : c = .pause
      · simpa [hc] using hc'
      · simpa [hc] using hc'
    · intro c' _ hout
      by_cases hc : c = .pause
      · simp [hc, CallPc.outside] at hout
      · simp [hc, CallPc.outside] at hout
  | signal c =>
    rw [hpc] at hs
    cases hs
    obtain ⟨howner, hwait, hunlock⟩ := h.loop_of_caller (by rw [hpc]; exact id)
    have hsignalled : s.loop.signalled ≠ .wait ∧ s.loop.signalled ≠ .unlock ∧
        s.loop.signalled ≠ .waiting ∧ (s.loop.signalled = .lock → s.loop = .lock) := by
      revert hwait hunlock
      cases s.loop <;> decide
    obtain ⟨hwait', hunlock', hwaiting', hlock'⟩ := hsignalled
    constructor
    · simp [howner, hwait', hunlock']
    · simp [howner, CallPc.outside]
    · rintro (hlock | hw)
      · exact h.paused (Or.inl (hlock' hlock))
      · exact absurd hw hwait'
    · intro hw
      exact absurd hw hwaiting'
    · intro c' hc'
      have heq : c = c' := by simpa using hc'
      exact h.storing c' (Or.inl (heq ▸ hpc))
    · intro c' _ hout
      exact hout.elim
  | unlock c =>
    rw [hpc] at hs
    cases hs
    obtain ⟨howner, hwait, hunlock⟩ := h.loop_of_caller (by rw [hpc]; exact id)
    have hstate : s.playState = c := h.storing c (Or.inr hpc)
    have hout : (if c = .exit then CallPc.join else .idle).outside := by
      by_cases hc : c = .exit
      · rw [if_pos hc]
        trivial
      · rw [if_neg hc]
        trivial
    constructor
    · simp [hwait, hunlock]
    · simp [hout]
    · exact h.paused
    · intro hw
      refine Or.inl ((h.waits hw).resolve_right ?_)
      rintro ⟨c', hsignal⟩
      rw [hpc] at hsignal
      cases hsignal
    · intro c' hc'
      by_cases hc : c = .exit
      · simp [hc] at hc'
      · simp [hc] at hc'
    · intro c' hlast _
      cases hlast
      exact hstate
  | join =>
    rw [hpc] at hs
    by_cases hdone : s.loop = .done
    · rw [hdone] at hs
      cases hs
      rw [← hdone]
      exact h.setCaller (by rw [hpc]; trivial) trivial
    · simp [hdone] at hs

theorem step_inv {s s' : State} {e : Event} (h : Inv s) (hok : Heard s e)
    (hs : step s e = some s') : Inv s' := by
  cases e with
  | call c =>
    unfold step at hs
    by_cases hidle : s.caller = .idle
    · rw [hidle] at hs
      cases hs
      exact h.setCaller (by rw [hidle]; trivial) trivial
    · simp [hidle] at hs
  | caller => exact h.stepCaller hok hs
  | loop => exact h.stepLoop hs

/-! ## Runs -/

/-- **No command is lost** in a run in which every `thread_play` and `thread_exit` is
heard: in every state it goes through. -/
theorem resumes_of_heard {s : State} {es : List Event}
    (hheard : Runs.AllSteps step Heard .init es) (hrun : Runs.exec step .init es = some s) :
    Resumes s := by
  have hinv : Inv s :=
    Runs.exec_inv_of_allSteps (fun _ _ _ h hok hs => step_inv h hok hs) inv_init hheard hrun
  exact hinv.resumes

/-- The thread waits, and `thread_play` wakes it. -/
def heard : List Event :=
  [.loop, .loop, .loop, .call .play, .caller, .caller, .caller, .caller]

theorem resumes_of_heard_once : ∃ s, Runs.exec step .init heard = some s ∧ s.last = some .play ∧
    Resumes s := by
  have hcaller (s : State) (h : s.loop ≠ .lock) : Heard s .caller := fun _ _ _ _ => h
  have hheard : Runs.AllSteps step Heard .init heard := by
    refine .cons nofun rfl (.cons nofun rfl (.cons nofun rfl (.cons nofun rfl ?_)))
    refine .cons (hcaller _ ?_) rfl (.cons (hcaller _ ?_) rfl ?_)
    · decide
    · decide
    refine .cons (hcaller _ ?_) rfl (.cons (hcaller _ ?_) rfl trivial)
    · decide
    · decide
  exact ⟨_, rfl, rfl, resumes_of_heard hheard rfl⟩

/-- The thread has read `PAUSE` when `thread_play` comes, and waits after it. -/
def unheard : List Event :=
  [.loop, .call .play, .caller, .caller, .caller, .caller, .loop, .loop]

/-- **A lost command**: the thread waits, the state is `PLAY`, and no signal will come. -/
theorem play_lost : ∃ s, Runs.exec step .init unheard = some s ∧ s.playState = .play ∧
    s.loop = .waiting ∧ ¬ Resumes s := by
  refine ⟨_, rfl, rfl, rfl, ?_⟩
  intro h
  exact h trivial .play rfl (by decide) rfl

end Despotify.Ui

import Mathlib.Data.List.Basic

/-!
# Decoders behind buffers

A decoder takes a stream an element at a time and puts something out for each, until it is at
the end of the stream or meets an error.  `out` and `verdict` say what the stream so far amounts
to, however it came.

A stepper is a decoder behind buffers: each call gets input and room for output, and takes some
of the one and fills some of the other.  `Lawful` is what a call may do, given all the calls
before it.

* `verdict_eq_ended_iff`: a list that is decoded to the end is a complete stream and what
  follows it.
* `Lawful.cases`: the ways a call ends.
* `Lawful.drained`, `Lawful.again`: a call with nothing to take, and one after the end.
* `lawful_greedy`: a decoder that goes on as long as there is room is such a stepper, and
  `Eager`.
-/

namespace Decoding

variable {δ α β σ : Type}

/-! ## Decoders -/

inductive Status
  | running
  | ended
  | failed
deriving DecidableEq, Repr

structure Decoder (δ α β : Type) where
  init : δ
  feed : δ → α → δ × List β
  status : δ → Status

namespace Decoder

variable (D : Decoder δ α β)

/-- From a state on: the state in the end, what is put out, and what is not taken. -/
def run : δ → List α → δ × List β × List α
  | s, [] => (s, [], [])
  | s, x :: xs =>
    if D.status s = .running then
      ((run (D.feed s x).1 xs).1, (D.feed s x).2 ++ (run (D.feed s x).1 xs).2.1,
        (run (D.feed s x).1 xs).2.2)
    else (s, [], x :: xs)

def out (xs : List α) : List β := (D.run D.init xs).2.1

def rest (xs : List α) : List α := (D.run D.init xs).2.2

def verdict (xs : List α) : Status := D.status (D.run D.init xs).1

/-- A stream up to its end, and nothing behind it. -/
structure Complete (stream : List α) : Prop where
  ended : D.verdict stream = .ended
  taken : D.rest stream = []

variable {D}

theorem run_append {s : δ} {xs : List α} (h : (D.run s xs).2.2 = []) (ys : List α) :
    D.run s (xs ++ ys) =
      ((D.run (D.run s xs).1 ys).1, (D.run s xs).2.1 ++ (D.run (D.run s xs).1 ys).2.1,
        (D.run (D.run s xs).1 ys).2.2) := by
  induction xs generalizing s with
  | nil => rfl
  | cons x xs ih =>
    by_cases hs : D.status s = .running
    · simp only [run, if_pos hs] at h ⊢
      rw [List.cons_append, run, if_pos hs, ih h, List.append_assoc]
    · simp only [run, if_neg hs] at h
      cases h

/-- Once it has stopped, nothing more is taken. -/
theorem run_append_of_stopped {s : δ} {xs : List α} (h : D.status (D.run s xs).1 ≠ .running)
    (ys : List α) :
    D.run s (xs ++ ys) = ((D.run s xs).1, (D.run s xs).2.1, (D.run s xs).2.2 ++ ys) := by
  induction xs generalizing s with
  | nil =>
    cases ys with
    | nil => rfl
    | cons y ys => exact if_neg h
  | cons x xs ih =>
    by_cases hs : D.status s = .running
    · simp only [run, if_pos hs] at h ⊢
      rw [List.cons_append, run, if_pos hs, ih h]
    · simp only [run, if_neg hs, List.cons_append]

theorem run_rest {s : δ} {xs : List α} (h : D.status (D.run s xs).1 = .running) :
    (D.run s xs).2.2 = [] := by
  induction xs generalizing s with
  | nil => rfl
  | cons x xs ih =>
    by_cases hs : D.status s = .running
    · simp only [run, if_pos hs] at h ⊢
      exact ih h
    · simp only [run, if_neg hs] at h
      exact absurd h hs

/-- What is taken makes the same run. -/
theorem exists_taken (s : δ) (xs : List α) :
    ∃ taken, xs = taken ++ (D.run s xs).2.2 ∧
      D.run s taken = ((D.run s xs).1, (D.run s xs).2.1, []) := by
  induction xs generalizing s with
  | nil => exact ⟨[], rfl, rfl⟩
  | cons x xs ih =>
    by_cases hs : D.status s = .running
    · obtain ⟨taken, heq, hrun⟩ := ih (D.feed s x).1
      refine ⟨x :: taken, ?_, ?_⟩
      · simp only [run, if_pos hs, List.cons_append]
        rw [← heq]
      · simp only [run, if_pos hs, hrun]
    · refine ⟨[], ?_, ?_⟩
      · simp only [run, if_neg hs, List.nil_append]
      · simp only [run, if_neg hs]

/-! ### From the start -/

theorem out_prefix (xs ys : List α) : D.out xs <+: D.out (xs ++ ys) := by
  by_cases h : D.verdict xs = .running
  · exact ⟨_, (congrArg (·.2.1) (run_append (run_rest h) ys)).symm⟩
  · have hsame : D.out (xs ++ ys) = D.out xs := congrArg (·.2.1) (run_append_of_stopped h ys)
    exact ⟨[], by rw [List.append_nil, hsame]⟩

/-- Behind its end a stream may go on. -/
theorem stopped_append {xs : List α} (h : D.verdict xs ≠ .running) (ys : List α) :
    D.verdict (xs ++ ys) = D.verdict xs ∧ D.out (xs ++ ys) = D.out xs ∧
      D.rest (xs ++ ys) = D.rest xs ++ ys := by
  have hrun := run_append_of_stopped h ys
  exact ⟨congrArg D.status (congrArg (·.1) hrun), congrArg (·.2.1) hrun, congrArg (·.2.2) hrun⟩

/-- A stream before its end. -/
theorem Complete.running {xs ys : List α} (h : D.Complete (xs ++ ys)) (hys : ys ≠ []) :
    D.verdict xs = .running := by
  by_contra hstop
  have hrest := (stopped_append hstop ys).2.2
  rw [h.taken] at hrest
  exact hys (List.append_eq_nil_iff.mp hrest.symm).2

/-- A stream and what follows it. -/
theorem Complete.append {stream : List α} (h : D.Complete stream) (trailing : List α) :
    D.verdict (stream ++ trailing) = .ended ∧ D.out (stream ++ trailing) = D.out stream := by
  have hstop : D.verdict stream ≠ .running := by
    rw [h.ended]
    exact nofun
  obtain ⟨hverdict, hout, -⟩ := stopped_append hstop trailing
  exact ⟨hverdict.trans h.ended, hout⟩

/-- **The end of a stream**: what is decoded to the end begins with a complete stream. -/
theorem verdict_eq_ended_iff {xs : List α} :
    D.verdict xs = .ended ↔
      ∃ stream trailing, xs = stream ++ trailing ∧ D.Complete stream := by
  constructor
  · intro h
    obtain ⟨taken, heq, hrun⟩ := exists_taken (D := D) D.init xs
    refine ⟨taken, _, heq, ?_, congrArg (·.2.2) hrun⟩
    rw [verdict, hrun]
    exact h
  · rintro ⟨stream, trailing, rfl, h⟩
    exact (h.append trailing).1

/-- There is no error in a complete stream, nor behind it. -/
theorem Complete.verdict_ne_failed {stream trailing xs : List α} (h : D.Complete stream)
    (hxs : xs <+: stream ++ trailing) : D.verdict xs ≠ .failed := by
  obtain ⟨ys, hys⟩ := hxs
  intro hfailed
  have hstop : D.verdict xs ≠ .running := by
    rw [hfailed]
    exact nofun
  have hverdict := (stopped_append hstop ys).1
  rw [hys, (h.append trailing).1, hfailed] at hverdict
  cases hverdict

end Decoder

/-! ## Steppers -/

inductive Code
  /-- progress was made -/
  | ok
  | streamEnd
  /-- no progress is possible -/
  | bufError
  | dataError
  /-- there is no stream -/
  | streamError
deriving DecidableEq, Repr

structure Result (σ β : Type) where
  state : σ
  /-- how much of the input was taken -/
  used : Nat
  out : List β
  code : Code

structure Stepper (σ α β : Type) where
  init : σ
  step : σ → List α → Nat → Result σ β

/-- The state after some calls that have taken `xs` and put out `ys`. -/
inductive History (Z : Stepper σ α β) : σ → List α → List β → Prop
  | init : History Z Z.init [] []
  | step {s : σ} {xs : List α} {ys : List β} (h : History Z s xs ys) (input : List α) (room : Nat) :
    History Z (Z.step s input room).state (xs ++ input.take (Z.step s input room).used)
      (ys ++ (Z.step s input room).out)

/-- What a call may do after `xs` was taken and `ys` put out. -/
structure Conforms (D : Decoder δ α β) (xs : List α) (ys : List β) (input : List α) (room : Nat)
    (r : Result σ β) : Prop where
  used_le : r.used ≤ input.length
  room_le : r.out.length ≤ room
  /-- nothing is taken past the end of the stream -/
  taken : D.rest (xs ++ input.take r.used) = []
  given : ys ++ r.out <+: D.out (xs ++ input.take r.used)
  ended : r.code = .streamEnd ↔ D.verdict (xs ++ input.take r.used) = .ended ∧
    ys ++ r.out = D.out (xs ++ input.take r.used)
  ok : r.code = .ok → (r.used ≠ 0 ∨ r.out ≠ []) ∧
    (r.out.length = room ∨ r.used = input.length ∧ D.verdict (xs ++ input) = .running ∧
      ys ++ r.out = D.out (xs ++ input))
  stuck : r.code = .bufError → r.used = 0 ∧ r.out = [] ∧
    (room = 0 ∨ input = [] ∧ D.verdict xs = .running ∧ ys = D.out xs)
  bad : r.code = .dataError → D.verdict (xs ++ input.take r.used) = .failed
  opened : r.code ≠ .streamError

/-- A stepper for the decoder: each call, after whatever calls, conforms. -/
def Lawful (D : Decoder δ α β) (Z : Stepper σ α β) : Prop :=
  ∀ s xs ys, History Z s xs ys → ∀ input room, Conforms D xs ys input room (Z.step s input room)

/-- A stepper that takes all of the input when the output of all of it is out, also without
more room. -/
def Eager (D : Decoder δ α β) (Z : Stepper σ α β) : Prop :=
  ∀ s xs ys, History Z s xs ys → ∀ input room, (Z.step s input room).code = .ok →
    ys ++ (Z.step s input room).out = D.out (xs ++ input) → (Z.step s input room).used = input.length

section

variable {D : Decoder δ α β} {Z : Stepper σ α β} {s : σ} {xs : List α} {ys : List β}

theorem Lawful.taken (h : Lawful D Z) (hs : History Z s xs ys) : D.rest xs = [] := by
  cases hs with
  | init => rfl
  | step hs input room => exact (h _ _ _ hs input room).taken

theorem Lawful.given (h : Lawful D Z) (hs : History Z s xs ys) : ys <+: D.out xs := by
  cases hs with
  | init => exact List.nil_prefix
  | step hs input room => exact (h _ _ _ hs input room).given

/-- How a call ends. -/
inductive Outcome (D : Decoder δ α β) (xs : List α) (ys : List β) (input : List α) (room : Nat)
    (r : Result σ β) : Prop
  /-- at the end of the stream, with all of the output put out -/
  | streamEnd (code : r.code = .streamEnd) (verdict : D.verdict (xs ++ input) = .ended)
    (out : ys ++ r.out = D.out (xs ++ input))
    (end_taken : D.verdict (xs ++ input.take r.used) = .ended)
  /-- the room is used up -/
  | full (code : r.code = .ok) (room_eq : r.out.length = room)
  /-- the input is used up -/
  | dry (code : r.code = .ok) (used : r.used = input.length) (room_lt : r.out.length < room)
    (verdict : D.verdict (xs ++ input) = .running) (out : ys ++ r.out = D.out (xs ++ input))
  | stuck (code : r.code = .bufError) (used : r.used = 0) (out_nil : r.out = [])
    (input_nil : input = []) (verdict : D.verdict xs = .running) (out : ys = D.out xs)
  | bad (code : r.code = .dataError) (verdict : D.verdict (xs ++ input) = .failed)

/-- **The ways a call ends**, if there is room. -/
theorem Lawful.cases (h : Lawful D Z) (hs : History Z s xs ys) (input : List α) {room : Nat}
    (hroom : 0 < room) : Outcome D xs ys input room (Z.step s input room) := by
  have hstep := h s xs ys hs input room
  have hsplit : xs ++ input = xs ++ input.take (Z.step s input room).used ++
      input.drop (Z.step s input room).used := by
    rw [List.append_assoc, List.take_append_drop]
  cases hcode : (Z.step s input room).code with
  | ok =>
    obtain ⟨-, hfull | ⟨hused, hrunning, hout⟩⟩ := hstep.ok hcode
    · exact .full hcode hfull
    · by_cases hlt : (Z.step s input room).out.length < room
      · exact .dry hcode hused hlt hrunning hout
      · exact .full hcode (Nat.le_antisymm hstep.room_le (Nat.le_of_not_lt hlt))
  | streamEnd =>
    obtain ⟨hended, hout⟩ := hstep.ended.mp hcode
    have hstop : D.verdict (xs ++ input.take (Z.step s input room).used) ≠ .running := by
      rw [hended]
      exact nofun
    obtain ⟨hverdict, hsame, -⟩ := D.stopped_append hstop (input.drop (Z.step s input room).used)
    rw [← hsplit] at hverdict hsame
    exact .streamEnd hcode (hverdict.trans hended) (hout.trans hsame.symm) hended
  | bufError =>
    obtain ⟨hused, hnil, hzero | ⟨hinput, hrunning, hout⟩⟩ := hstep.stuck hcode
    · omega
    · exact .stuck hcode hused hnil hinput hrunning hout
  | dataError =>
    have hfailed := hstep.bad hcode
    have hstop : D.verdict (xs ++ input.take (Z.step s input room).used) ≠ .running := by
      rw [hfailed]
      exact nofun
    have hverdict := (D.stopped_append hstop (input.drop (Z.step s input room).used)).1
    rw [← hsplit] at hverdict
    exact .bad hcode (hverdict.trans hfailed)
  | streamError => exact absurd hcode hstep.opened

/-- A call without input, when everything has been put out. -/
theorem Lawful.drained (h : Lawful D Z) (hs : History Z s xs ys)
    (hrunning : D.verdict xs = .running) (hout : ys = D.out xs) (room : Nat) :
    (Z.step s [] room).code = .bufError ∧ (Z.step s [] room).out = [] := by
  have hstep := h s xs ys hs [] room
  have hused : (Z.step s [] room).used = 0 := Nat.le_zero.mp hstep.used_le
  have hgiven := hstep.given
  rw [List.take_nil, List.append_nil, ← hout] at hgiven
  have hnil : (Z.step s [] room).out = [] := by
    have hlen := hgiven.length_le
    rw [List.length_append] at hlen
    exact List.eq_nil_of_length_eq_zero (by omega)
  refine ⟨?_, hnil⟩
  cases hcode : (Z.step s [] room).code with
  | bufError => rfl
  | ok =>
    rcases (hstep.ok hcode).1 with hne | hne
    · exact absurd hused hne
    · exact absurd hnil hne
  | streamEnd =>
    have hended := (hstep.ended.mp hcode).1
    rw [List.take_nil, List.append_nil, hrunning] at hended
    cases hended
  | dataError =>
    have hfailed := hstep.bad hcode
    rw [List.take_nil, List.append_nil, hrunning] at hfailed
    cases hfailed
  | streamError => exact absurd hcode hstep.opened

end

/-! ## A stepper for every decoder -/

section

variable (D : Decoder δ α β)

/-- Output is given while there is room, and input taken while none is pending. -/
def Decoder.pump : δ → List β → List α → Nat → (δ × List β) × Nat × List β
  | s, pending, [], room => ((s, pending.drop room), 0, pending.take room)
  | s, pending, x :: xs, room =>
    if room < pending.length ∨ D.status s ≠ .running then
      ((s, pending.drop room), 0, pending.take room)
    else
      let (state, used, out) := pump (D.feed s x).1 (D.feed s x).2 xs (room - pending.length)
      (state, used + 1, pending ++ out)

def Decoder.code (state : δ × List β) (used : Nat) (out : List β) : Code :=
  if state.2 = [] ∧ D.status state.1 = .ended then .streamEnd
  else if state.2 = [] ∧ D.status state.1 = .failed then .dataError
  else if used = 0 ∧ out = [] then .bufError
  else .ok

/-- The stepper that goes on as long as there is room. -/
def Decoder.greedy : Stepper (δ × List β) α β where
  init := (D.init, [])
  step s input room :=
    let (state, used, out) := D.pump s.1 s.2 input room
    ⟨state, used, out, D.code state used out⟩

variable {D}

theorem Decoder.code_eq_streamEnd {state : δ × List β} {used : Nat} {out : List β} :
    D.code state used out = .streamEnd ↔ state.2 = [] ∧ D.status state.1 = .ended := by
  unfold Decoder.code
  split_ifs with h1 h2 h3 <;> simp_all

theorem Decoder.code_eq_dataError {state : δ × List β} {used : Nat} {out : List β} :
    D.code state used out = .dataError ↔ state.2 = [] ∧ D.status state.1 = .failed := by
  unfold Decoder.code
  split_ifs with h1 h2 h3 <;> simp_all

theorem Decoder.code_eq_bufError {state : δ × List β} {used : Nat} {out : List β} :
    D.code state used out = .bufError ↔ (used = 0 ∧ out = []) ∧
      ¬ (state.2 = [] ∧ D.status state.1 = .ended) ∧
      ¬ (state.2 = [] ∧ D.status state.1 = .failed) := by
  unfold Decoder.code
  split_ifs with h1 h2 h3 <;> simp_all

theorem Decoder.code_eq_ok {state : δ × List β} {used : Nat} {out : List β} :
    D.code state used out = .ok ↔ ¬ (used = 0 ∧ out = []) ∧
      ¬ (state.2 = [] ∧ D.status state.1 = .ended) ∧
      ¬ (state.2 = [] ∧ D.status state.1 = .failed) := by
  unfold Decoder.code
  split_ifs with h1 h2 h3 <;> simp_all

theorem Decoder.code_ne_streamError {state : δ × List β} {used : Nat} {out : List β} :
    D.code state used out ≠ .streamError := by
  unfold Decoder.code
  split_ifs <;> exact nofun

variable (D)

/-- What `pump` leaves, from a state with `pending` output on. -/
structure Pumped (s : δ) (pending : List β) (input : List α) (room : Nat)
    (r : (δ × List β) × Nat × List β) : Prop where
  used_le : r.2.1 ≤ input.length
  room_le : r.2.2.length ≤ room
  taken : (D.run s (input.take r.2.1)).2.2 = []
  state : (D.run s (input.take r.2.1)).1 = r.1.1
  given : pending ++ (D.run s (input.take r.2.1)).2.1 = r.2.2 ++ r.1.2
  full : r.1.2 = [] ∨ r.2.2.length = room
  dry : r.1.2 ≠ [] ∨ r.2.1 = input.length ∨ D.status r.1.1 ≠ .running

variable {D}

theorem pumped_stop {s : δ} {pending : List β} {input : List α} {room : Nat}
    (h : room < pending.length ∨ input = [] ∨ D.status s ≠ .running) :
    Pumped D s pending input room ((s, pending.drop room), 0, pending.take room) := by
  refine ⟨Nat.zero_le _, ?_, rfl, rfl, ?_, ?_, ?_⟩
  · rw [List.length_take]
    exact Nat.min_le_left _ _
  · show pending ++ [] = pending.take room ++ pending.drop room
    rw [List.append_nil, List.take_append_drop]
  · by_cases hle : pending.length ≤ room
    · exact Or.inl (List.drop_eq_nil_of_le hle)
    · right
      rw [List.length_take]
      omega
  · rcases h with hlt | rfl | hstop
    · left
      intro hnil
      have hle := List.drop_eq_nil_iff.mp hnil
      omega
    · exact Or.inr (Or.inl rfl)
    · exact Or.inr (Or.inr hstop)

theorem pump_spec (s : δ) (pending : List β) (input : List α) (room : Nat) :
    Pumped D s pending input room (D.pump s pending input room) := by
  induction input generalizing s pending room with
  | nil => exact pumped_stop (Or.inr (Or.inl rfl))
  | cons x xs ih =>
    unfold Decoder.pump
    by_cases hstop : room < pending.length ∨ D.status s ≠ .running
    · rw [if_pos hstop]
      exact pumped_stop (hstop.imp id Or.inr)
    · rw [if_neg hstop]
      rw [not_or, not_not] at hstop
      obtain ⟨hroom, hs⟩ := hstop
      obtain ⟨hused, hle, htaken, hstate, hgiven, hfull, hdry⟩ :=
        ih (D.feed s x).1 (D.feed s x).2 (room - pending.length)
      generalize D.pump (D.feed s x).1 (D.feed s x).2 xs (room - pending.length) = r at *
      have hrun : D.run s ((x :: xs).take (r.2.1 + 1)) =
          ((D.run (D.feed s x).1 (xs.take r.2.1)).1,
            (D.feed s x).2 ++ (D.run (D.feed s x).1 (xs.take r.2.1)).2.1,
            (D.run (D.feed s x).1 (xs.take r.2.1)).2.2) := by
        rw [List.take_succ_cons, Decoder.run, if_pos hs]
      refine ⟨Nat.succ_le_succ hused, ?_, ?_, ?_, ?_, ?_, ?_⟩
      · show (pending ++ r.2.2).length ≤ room
        rw [List.length_append]
        omega
      · exact (congrArg (·.2.2) hrun).trans htaken
      · exact (congrArg (·.1) hrun).trans hstate
      · show pending ++ (D.run s ((x :: xs).take (r.2.1 + 1))).2.1 = pending ++ r.2.2 ++ r.1.2
        rw [hrun, List.append_assoc]
        exact congrArg (pending ++ ·) hgiven
      · refine hfull.imp id fun hlen => ?_
        show (pending ++ r.2.2).length = room
        rw [List.length_append]
        omega
      · exact hdry.imp id (Or.imp (congrArg (· + 1)) id)

/-- What the stepper holds back is what is left of the output. -/
theorem greedy_history {state : δ × List β} {xs : List α} {ys : List β}
    (h : History D.greedy state xs ys) :
    D.run D.init xs = (state.1, ys ++ state.2, []) := by
  induction h with
  | init => rfl
  | @step s xs ys _ input room ih =>
    obtain ⟨-, -, htaken, hstate, hgiven, -, -⟩ := @pump_spec δ α β D s.1 s.2 input room
    show D.run D.init (xs ++ input.take (D.pump s.1 s.2 input room).2.1) =
      ((D.pump s.1 s.2 input room).1.1,
        ys ++ (D.pump s.1 s.2 input room).2.2 ++ (D.pump s.1 s.2 input room).1.2, [])
    rw [Decoder.run_append (congrArg (·.2.2) ih), ih]
    dsimp only
    rw [hstate, htaken, List.append_assoc, hgiven, ← List.append_assoc]

/-- **The greedy stepper** is lawful. -/
theorem lawful_greedy (D : Decoder δ α β) : Lawful D D.greedy := by
  intro s xs ys hs input room
  have hnext := greedy_history (History.step hs input room)
  have hrun := greedy_history hs
  obtain ⟨hused, hle, -, -, -, hfull, hdry⟩ := @pump_spec δ α β D s.1 s.2 input room
  have hstep : D.greedy.step s input room = ⟨(D.pump s.1 s.2 input room).1,
    (D.pump s.1 s.2 input room).2.1, (D.pump s.1 s.2 input room).2.2,
    D.code (D.pump s.1 s.2 input room).1 (D.pump s.1 s.2 input room).2.1
      (D.pump s.1 s.2 input room).2.2⟩ := rfl
  rw [hstep] at hnext ⊢
  generalize D.pump s.1 s.2 input room = r at *
  obtain ⟨⟨t, pending⟩, used, out⟩ := r
  dsimp only at *
  have hverdict : D.verdict (xs ++ input.take used) = D.status t := by
    rw [Decoder.verdict, hnext]
  have hout : D.out (xs ++ input.take used) = ys ++ out ++ pending := by
    rw [Decoder.out, hnext]
  have hall : pending = [] ↔ ys ++ out = D.out (xs ++ input.take used) := by
    rw [hout]
    exact ⟨fun h => by rw [h, List.append_nil], fun h => List.self_eq_append_right.mp h⟩
  have hinput : used = input.length → input.take used = input := fun h => by
    rw [h, List.take_length]
  -- when nothing is pending, the input is used up
  have hidle : pending = [] → ¬ (pending = [] ∧ D.status t = .ended) →
      ¬ (pending = [] ∧ D.status t = .failed) → D.status t = .running ∧ used = input.length := by
    intro hnil hnotEnded hnotFailed
    have hrunning : D.status t = .running := by
      cases hstatus : D.status t with
      | running => rfl
      | ended => exact absurd ⟨hnil, hstatus⟩ hnotEnded
      | failed => exact absurd ⟨hnil, hstatus⟩ hnotFailed
    refine ⟨hrunning, ?_⟩
    rcases hdry with hne | heq | hstop
    · exact absurd hnil hne
    · exact heq
    · exact absurd hrunning hstop
  refine ⟨hused, hle, congrArg (·.2.2) hnext, ?_, ?_, ?_, ?_, ?_, ?_⟩
  · exact ⟨pending, hout.symm⟩
  · rw [hverdict, ← hall, Decoder.code_eq_streamEnd]
    exact and_comm
  · intro hcode
    obtain ⟨hprogress, hnotEnded, hnotFailed⟩ := Decoder.code_eq_ok.mp hcode
    refine ⟨?_, ?_⟩
    · by_cases hzero : used = 0
      · exact Or.inr fun hnil => hprogress ⟨hzero, hnil⟩
      · exact Or.inl hzero
    · rcases hfull with hnil | hlen
      · obtain ⟨hrunning, hlast⟩ := hidle hnil hnotEnded hnotFailed
        have hgiven := hall.mp hnil
        rw [hinput hlast] at hverdict hgiven
        exact Or.inr ⟨hlast, hverdict.trans hrunning, hgiven⟩
      · exact Or.inl hlen
  · intro hcode
    obtain ⟨⟨hzero, hnone⟩, hnotEnded, hnotFailed⟩ := Decoder.code_eq_bufError.mp hcode
    refine ⟨hzero, hnone, ?_⟩
    rcases hfull with hnil | hlen
    · right
      obtain ⟨hrunning, hlast⟩ := hidle hnil hnotEnded hnotFailed
      have hempty : input = [] := List.eq_nil_of_length_eq_zero (hlast.symm.trans hzero)
      have hgiven := hall.mp hnil
      rw [hempty, List.take_nil, List.append_nil] at hverdict hgiven
      rw [hnone, List.append_nil] at hgiven
      exact ⟨hempty, hverdict.trans hrunning, hgiven⟩
    · left
      rw [← hlen, hnone, List.length_nil]
  · intro hcode
    exact hverdict.trans (Decoder.code_eq_dataError.mp hcode).2
  · exact Decoder.code_ne_streamError

theorem eager_greedy (D : Decoder δ α β) : Eager D D.greedy := by
  intro s xs ys hs input room hcode hout
  have hnext := greedy_history (History.step hs input room)
  obtain ⟨-, -, -, -, -, -, hdry⟩ := @pump_spec δ α β D s.1 s.2 input room
  have hprefix := D.out_prefix (xs ++ input.take (D.greedy.step s input room).used)
    (input.drop (D.greedy.step s input room).used)
  rw [List.append_assoc, List.take_append_drop, ← hout, Decoder.out, hnext] at hprefix
  obtain ⟨-, hnotEnded, hnotFailed⟩ := Decoder.code_eq_ok.mp hcode
  have hnil : (D.greedy.step s input room).state.2 = [] := by
    have hlen := hprefix.length_le
    simp only [List.length_append] at hlen
    exact List.eq_nil_of_length_eq_zero (by omega)
  rcases hdry with hne | heq | hstop
  · exact absurd hnil hne
  · exact heq
  · cases hstatus : D.status (D.pump s.1 s.2 input room).1.1 with
    | running => exact absurd hstatus hstop
    | ended => exact absurd ⟨hnil, hstatus⟩ hnotEnded
    | failed => exact absurd ⟨hnil, hstatus⟩ hnotFailed

end

end Decoding

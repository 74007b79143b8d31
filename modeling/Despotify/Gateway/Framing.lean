import Despotify.Gateway.Model
import Despotify.Pool.Lines
import Despotify.Pool.Runs
import Mathlib.Data.List.Induction

/-!
# Lines of a REST connection

`rest_read_input` and REST_STATE_LOAD_COMMAND on one connection: what the socket delivers is
put behind what the buffer holds, and the lines are taken from its front.  A `recv` that
fills the 8192 bytes of the buffer is followed by one for no bytes, which counts as a
failure.

    every line that is not empty is taken once, in order, and the connection is kept

      iff  no piece is empty, and each fits into the buffer behind the unfinished line with
           a byte to spare                                         (framed_iff)

What is done about a command leaves the buffer as it is (`restFsm_input`); an HTTP request,
which takes empty lines as well, is left out.
-/

namespace Despotify.Gateway

/-! ## Reading -/

/-- `rest_read_input`, `recvs` being what the socket has for each `recv`: the buffer. -/
def restReadInput (input : List UInt8) : List (List UInt8) → Option (List UInt8)
  | [] => none
  | data :: recvs =>
    let nbytesToRead := 8192 - input.length
    if nbytesToRead = 0 then none
    else
      let got := data.take nbytesToRead
      if got = [] then none
      else if got.length ≠ nbytesToRead then some (input ++ got)
      else restReadInput (input ++ got) recvs

/-- The buffer is not filled: filling it ends in a failure. -/
theorem restReadInput_eq {input : List UInt8} (hinput : input.length < 8192) (data : List UInt8)
    (recvs : List (List UInt8)) : restReadInput input (data :: recvs) =
      if data = [] ∨ 8192 ≤ input.length + data.length then none else some (input ++ data) := by
  have hroom : 8192 - input.length ≠ 0 := by omega
  rw [restReadInput, if_neg hroom]
  by_cases hfull : 8192 ≤ input.length + data.length
  · have hlen : (data.take (8192 - input.length)).length = 8192 - input.length := by
      rw [List.length_take]
      omega
    have hgot : data.take (8192 - input.length) ≠ [] := by
      intro hnil
      rw [hnil] at hlen
      exact hroom hlen.symm
    have hnext : restReadInput (input ++ data.take (8192 - input.length)) recvs = none := by
      cases recvs with
      | nil => rfl
      | cons data' recvs =>
        have hnone : 8192 - (input ++ data.take (8192 - input.length)).length = 0 := by
          rw [List.length_append, hlen]
          omega
        rw [restReadInput, if_pos hnone]
    rw [if_neg hgot, if_neg (not_not.mpr hlen), hnext, if_pos (Or.inr hfull)]
  · have htake : data.take (8192 - input.length) = data := List.take_of_length_le (by omega)
    rw [htake]
    by_cases hnil : data = []
    · rw [if_pos hnil, if_pos (Or.inl hnil)]
    · rw [if_neg hnil, if_pos (by omega), if_neg (not_or.mpr ⟨hnil, hfull⟩)]

/-! ## Carrying out a command -/

section
variable {lib : Lib} {s : Sys} {r : Rest} {env : RestEnv}

theorem deref_input {k : Client → Sys × Rest × Int} (h : ∀ c, (k c).2.1.input = r.input) :
    (s.deref r k).2.1.input = r.input := by
  unfold Sys.deref
  split
  · rfl
  · split
    · rfl
    · exact h _

theorem spotifyClientAllocate_input (s : Sys) (r : Rest) (clientId : List UInt8) :
    (spotifyClientAllocate s r clientId).2.input = r.input := by
  unfold spotifyClientAllocate
  split <;> rfl

theorem restInit_input : (restInit s r env).2.1.input = r.input := by
  unfold restInit
  split
  · rfl
  · split <;> rfl
  · next username password _ =>
    have h := spotifyClientAllocate_input s { r with username := username, password := password }
      env.clientId
    generalize spotifyClientAllocate s { r with username := username, password := password }
      env.clientId = p at h ⊢
    refine (deref_input fun c => ?_).trans h
    split <;> rfl
  · rfl
  · rfl

theorem httpCompleteLogin_input : (httpCompleteLogin s r env).2.1.input = r.input := by
  refine deref_input fun c => ?_
  split <;> rfl

theorem httpCallback_input {h : HttpRequest} : (httpCallback s r h env).2.1.input = r.input := by
  unfold httpCallback
  split
  · exact httpCompleteLogin_input
  · rfl

theorem httpHandleRequest_input {h : HttpRequest} :
    (httpHandleRequest s r h env).2.1.input = r.input := by
  unfold httpHandleRequest
  simp only
  split
  · rfl
  · split
    · rfl
    · next username password _ =>
      have hr := spotifyClientAllocate_input s
        { r with state := .loadCommand, username := username, password := password } env.clientId
      generalize spotifyClientAllocate s
        { r with state := .loadCommand, username := username, password := password }
        env.clientId = p at hr ⊢
      refine (deref_input fun c => ?_).trans hr
      split
      · exact httpCompleteLogin_input
      · rfl

theorem reply_input {text : String} : (reply s r env text).2.1.input = r.input := by
  unfold reply
  split
  · rfl
  · exact httpCallback_input

theorem restHttp_input : (restHttp s r env).2.1.input = r.input := by
  unfold restHttp
  split
  · rfl
  · split
    · exact httpHandleRequest_input
    · rfl

theorem restClientCommand_input : (restClientCommand lib s r env).2.1.input = r.input := by
  unfold restClientCommand
  split
  · rfl
  · rfl
  · exact deref_input fun c => rfl
  · refine deref_input fun c => ?_
    split <;> rfl
  · rfl
  · refine deref_input fun c => ?_
    unfold gwRequest
    simp only
    split <;> (repeat' split) <;> rfl
  · rfl

theorem restComplete_input {c : Client} : (restComplete s r c env).2.1.input = r.input := by
  unfold restComplete
  simp only
  split
  · split
    · rfl
    · exact httpCallback_input
  · rfl
  · split
    · rfl
    · exact httpCallback_input
  · rfl
  · rfl

theorem restWaiting_input : (restWaiting s r env).2.1.input = r.input := by
  unfold restWaiting
  split
  · rfl
  · refine deref_input fun c => ?_
    split
    · exact restComplete_input
    · exact reply_input
    · rfl
    · exact reply_input
    · exact reply_input
    · exact reply_input
    all_goals rfl

theorem restFreeClient_input : (restFreeClient s r).2.1.input = r.input := by
  unfold restFreeClient
  split <;> rfl

/-- Only REST_STATE_READING and REST_STATE_LOAD_COMMAND look at the buffer. -/
theorem restFsm_input (hreading : r.state ≠ .reading) (hload : r.state ≠ .loadCommand) :
    (restFsm lib s r env).2.1.input = r.input := by
  unfold restFsm
  split
  · exact absurd ‹_› hreading
  · exact absurd ‹_› hload
  · exact restInit_input
  · exact restHttp_input
  · exact restClientCommand_input
  · exact restWaiting_input
  · exact restFreeClient_input

end

/-! ## A connection and its calls -/

/-- A line as it is put into `command`, without `'\r'`. -/
def commandLine (line : List UInt8) : List UInt8 :=
  if line.getLast? = some 13 then line.dropLast else line

/-- The lines of a stream that are not empty, without their terminators. -/
def commandsOf (stream : List UInt8) : List (List UInt8) :=
  ((Lines.whole 10 stream).map commandLine).filter (· ≠ [])

/-- A connection, the lines taken and the pieces received. -/
structure Conn where
  rest : Rest
  extracted : List (List UInt8)
  received : List (List UInt8)
  /-- what the buffer held when the connection was dropped -/
  dropped : Option (List UInt8)

def Conn.start (rest : Rest) : Conn := ⟨rest, [], [], none⟩

/-- What happens to the connection. -/
inductive ConnCall
  /-- REST_STATE_READING: the socket has a piece -/
  | recv (piece : List UInt8)
  /-- REST_STATE_LOAD_COMMAND -/
  | load
  /-- a command has been carried out -/
  | processed (rest : Rest)

/-- What `rest_fsm` meets when a piece comes. -/
def pieceEnv (piece : List UInt8) : RestEnv := ⟨some piece, true, true, true, []⟩

/-- The states in which a command is carried out. -/
def RestState.isProcessing : RestState → Bool
  | .processInitCommand | .processClientCommand | .processHttpRequest => true
  | _ => false

/-- After REST_STATE_LOAD_COMMAND on the buffer `input`. -/
def Conn.loaded (c : Conn) (input : List UInt8) (rest : Rest) : Conn :=
  { c with
    rest := rest
    extracted :=
      if rest.state.isProcessing then c.extracted ++ [commandLine (input.takeWhile (· ≠ 10))]
      else c.extracted }

def callStep (c : Conn) : ConnCall → Option Conn
  | .recv piece =>
    if c.dropped = none ∧ c.rest.state = .reading then
      let (rest, ret) := restReading { c.rest with socketHasData := true } (pieceEnv piece)
      let c' := c.loaded (c.rest.input ++ piece) rest
      if ret = 0 then some { c' with received := c.received ++ [piece] }
      else some { c with
        received := c.received ++ [piece]
        dropped := some ((c.rest.input ++ piece).take 8192) }
    else none
  | .load =>
    if c.dropped = none ∧ c.rest.state = .loadCommand then
      some (c.loaded c.rest.input (restLoadCommand c.rest))
    else none
  | .processed rest =>
    if c.dropped = none ∧ c.rest.state.isProcessing ∧ rest.input = c.rest.input ∧
      rest.httpreq = none ∧ rest.state = .loadCommand then some { c with rest := rest }
    else none

/-- The calls lead from a new connection to `c`. -/
def Leads (calls : List ConnCall) (c : Conn) : Prop :=
  ∃ rest : Rest, rest.state = .reading ∧ rest.input = [] ∧ rest.httpreq = none ∧
    Runs.exec callStep (.start rest) calls = some c

/-! ## The law -/

/-- The pieces are taken apart as they should, whatever is called when. -/
structure Framed (pieces : List (List UInt8)) : Prop where
  /-- the connection is not dropped while a complete line is buffered -/
  kept : ∀ calls c, Leads calls c → c.received <+: pieces → ∀ buffer ∈ c.dropped, 10 ∉ buffer
  /-- the lines taken are the first ones -/
  order : ∀ calls c, Leads calls c → c.received <+: pieces →
    c.extracted <+: commandsOf c.received.flatten
  /-- all are taken before the next piece is read -/
  all : ∀ calls c, Leads calls c → c.received <+: pieces → c.rest.state = .reading →
    c.dropped = none → c.extracted = commandsOf c.received.flatten
  /-- all pieces can be read -/
  read : ∃ calls c, Leads calls c ∧ c.received = pieces ∧ c.dropped = none ∧
    c.rest.state = .reading

/-- The piece fits behind the unfinished line of those before, with a byte to spare. -/
def FitsBehind (before : List (List UInt8)) (piece : List UInt8) : Prop :=
  piece ≠ [] ∧ (Lines.tail 10 before.flatten).length + piece.length < 8192

def Fits (pieces : List (List UInt8)) : Prop :=
  ∀ i (h : i < pieces.length), FitsBehind (pieces.take i) pieces[i]

theorem fits_concat {pieces : List (List UInt8)} {piece : List UInt8} :
    Fits (pieces ++ [piece]) ↔ Fits pieces ∧ FitsBehind pieces piece := by
  have hlen : (pieces ++ [piece]).length = pieces.length + 1 := by simp
  constructor
  · intro h
    refine ⟨fun i hi => ?_, ?_⟩
    · have hfits := h i (by omega)
      rwa [List.take_append_of_le_length (Nat.le_of_lt hi), List.getElem_append_left hi] at hfits
    · have hfits := h pieces.length (by omega)
      rwa [List.take_left, List.getElem_concat_length rfl] at hfits
  · rintro ⟨h, hpiece⟩ i hi
    by_cases hlast : i = pieces.length
    · subst hlast
      rwa [List.take_left, List.getElem_concat_length rfl]
    · have hi' : i < pieces.length := by omega
      rw [List.take_append_of_le_length (Nat.le_of_lt hi'), List.getElem_append_left hi']
      exact h i hi'

/-! ## One call -/

theorem commandsOf_append (s t : List UInt8) :
    commandsOf (s ++ t) = commandsOf s ++ commandsOf (Lines.tail 10 s ++ t) := by
  rw [commandsOf, Lines.whole_append, List.map_append, List.filter_append]
  rfl

theorem commandsOf_of_not_mem {s : List UInt8} (h : 10 ∉ s) : commandsOf s = [] := by
  rw [commandsOf, Lines.whole_of_not_mem h]
  rfl

theorem commandsOf_line {line rest : List UInt8} (h : 10 ∉ line) :
    commandsOf (line ++ 10 :: rest) =
      (if commandLine line = [] then [] else [commandLine line]) ++ commandsOf rest := by
  rw [commandsOf, Lines.whole_line h, List.map_cons, List.filter_cons]
  by_cases hnil : commandLine line = []
  · rw [if_neg (by simpa using hnil), if_pos hnil]
    rfl
  · rw [if_pos (by simpa using hnil), if_neg hnil]
    rfl

theorem takeWhile_line {line rest : List UInt8} (h : 10 ∉ line) :
    (line ++ 10 :: rest).takeWhile (· ≠ 10) = line := by
  have hall : ∀ b ∈ line, decide (b ≠ 10) = true :=
    fun b hb => decide_eq_true fun heq => h (heq ▸ hb)
  rw [List.takeWhile_append_of_pos hall, List.takeWhile_cons_of_neg (by simp), List.append_nil]

/-- REST_STATE_LOAD_COMMAND without an HTTP request. -/
theorem restLoadCommand_line {r : Rest} {line rest : List UInt8} (hr : r.httpreq = none)
    (hinput : r.input = line ++ 10 :: rest) (hline : 10 ∉ line) :
    (restLoadCommand r).input = rest ∧ (restLoadCommand r).httpreq = none ∧
      (restLoadCommand r).state =
        (if commandLine line = [] then r.state
          else if r.client.isSome then .processClientCommand else .processInitCommand) ∧
      (restLoadCommand r).command = (commandLine line).takeWhile (· ≠ 0) := by
  have hmem : 10 ∈ r.input := by
    rw [hinput]
    exact List.mem_append_right _ List.mem_cons_self
  have htake : r.input.takeWhile (· ≠ 10) = line := by
    rw [hinput]
    exact takeWhile_line hline
  have hdrop : r.input.dropWhile (· ≠ 10) = 10 :: rest := by
    have hall : ∀ b ∈ line, decide (b ≠ 10) = true :=
      fun b hb => decide_eq_true fun heq => hline (heq ▸ hb)
    rw [hinput, List.dropWhile_append_of_pos hall, List.dropWhile_cons_of_neg (by simp)]
  have hload : restLoadCommand r = { r with
      input := rest
      command := (commandLine line).takeWhile (· ≠ 0)
      state := if commandLine line = [] then r.state
        else if r.client.isSome then .processClientCommand else .processInitCommand } := by
    rw [restLoadCommand, if_pos hmem]
    simp only [htake, hdrop, hr, Option.isSome_none, Bool.false_eq_true, if_false]
    rfl
  rw [hload]
  exact ⟨rfl, hr, rfl, rfl⟩

theorem restLoadCommand_none {r : Rest} (h : 10 ∉ r.input) :
    restLoadCommand r = { r with state := .reading } := if_neg h

/-! ## Runs -/

/-- What holds after any calls. -/
structure Conn.Inv (c : Conn) : Prop where
  httpreq : c.rest.httpreq = none
  prefixed : c.extracted <+: commandsOf c.received.flatten
  lines : c.dropped = none →
    c.extracted ++ commandsOf c.rest.input = commandsOf c.received.flatten
  tail : c.dropped = none → Lines.tail 10 c.rest.input = Lines.tail 10 c.received.flatten
  idle : c.dropped = none → c.rest.state = .reading → 10 ∉ c.rest.input
  state : c.dropped = none →
    c.rest.state = .reading ∨ c.rest.state = .loadCommand ∨ c.rest.state.isProcessing
  fits : c.dropped = none → Fits c.received
  drop : ∀ buffer ∈ c.dropped, ∃ before piece, c.received = before ++ [piece] ∧
    buffer = (Lines.tail 10 before.flatten ++ piece).take 8192 ∧ ¬ FitsBehind before piece

namespace Conn

variable {c c' : Conn}

theorem inv_start {rest : Rest} (hstate : rest.state = .reading) (hinput : rest.input = [])
    (hhttp : rest.httpreq = none) : (start rest).Inv where
  httpreq := hhttp
  prefixed := List.nil_prefix
  lines _ := by
    show [] ++ commandsOf rest.input = _
    rw [hinput]
    rfl
  tail _ := by
    show Lines.tail 10 rest.input = _
    rw [hinput]
    rfl
  idle _ _ := by
    show 10 ∉ rest.input
    rw [hinput]
    exact List.not_mem_nil
  state _ := Or.inl hstate
  fits _ := nofun
  drop := nofun

/-- In REST_STATE_READING only the unfinished line is buffered. -/
theorem Inv.reading (h : c.Inv) (hd : c.dropped = none) (hs : c.rest.state = .reading) :
    c.rest.input = Lines.tail 10 c.received.flatten ∧
      c.extracted = commandsOf c.received.flatten := by
  have hidle := h.idle hd hs
  refine ⟨?_, ?_⟩
  · rw [← h.tail hd, Lines.tail_of_not_mem hidle]
  · rw [← h.lines hd, commandsOf_of_not_mem hidle, List.append_nil]

/-- What REST_STATE_LOAD_COMMAND leaves of the buffer. -/
structure Loaded (c : Conn) (r : Rest) (c' : Conn) : Prop where
  httpreq : c'.rest.httpreq = none
  lines : c'.extracted ++ commandsOf c'.rest.input = c.extracted ++ commandsOf r.input
  tail : Lines.tail 10 c'.rest.input = Lines.tail 10 r.input
  idle : c'.rest.state = .reading → 10 ∉ c'.rest.input
  state : c'.rest.state = .reading ∨ c'.rest.input.length < r.input.length ∧
    (c'.rest.state = .loadCommand ∨ c'.rest.state.isProcessing)

theorem loaded_spec (c : Conn) {r : Rest} (hr : r.httpreq = none)
    (hstate : r.state = .loadCommand) : Loaded c r (c.loaded r.input (restLoadCommand r)) := by
  by_cases hmem : 10 ∈ r.input
  · obtain ⟨line, rest, hinput, hline⟩ := List.eq_append_cons_of_mem hmem
    obtain ⟨hrest, hhttp, hnext, -⟩ := restLoadCommand_line hr hinput hline
    have htake : r.input.takeWhile (· ≠ 10) = line := by
      rw [hinput]
      exact takeWhile_line hline
    have hshort : rest.length < r.input.length := by
      rw [hinput, List.length_append, List.length_cons]
      omega
    by_cases hnil : commandLine line = []
    · rw [if_pos hnil, hstate] at hnext
      have hloaded :
          c.loaded r.input (restLoadCommand r) = { c with rest := restLoadCommand r } := by
        rw [loaded, hnext]
        rfl
      rw [hloaded]
      refine ⟨hhttp, ?_, ?_, ?_, Or.inr ⟨?_, Or.inl hnext⟩⟩
      · show c.extracted ++ commandsOf (restLoadCommand r).input = _
        rw [hrest, hinput, commandsOf_line hline, if_pos hnil, List.nil_append]
      · show Lines.tail 10 (restLoadCommand r).input = _
        rw [hrest, hinput, Lines.tail_line hline]
      · intro hreading
        rw [hnext] at hreading
        cases hreading
      · show (restLoadCommand r).input.length < _
        rwa [hrest]
    · rw [if_neg hnil] at hnext
      have hprocessing : (restLoadCommand r).state.isProcessing = true := by
        rw [hnext]
        split <;> rfl
      have hloaded : c.loaded r.input (restLoadCommand r) =
          { c with rest := restLoadCommand r, extracted := c.extracted ++ [commandLine line] } := by
        rw [loaded, if_pos hprocessing, htake]
      rw [hloaded]
      refine ⟨hhttp, ?_, ?_, ?_, Or.inr ⟨?_, Or.inr hprocessing⟩⟩
      · show c.extracted ++ [commandLine line] ++ commandsOf (restLoadCommand r).input = _
        rw [hrest, hinput, commandsOf_line hline, if_neg hnil, List.append_assoc]
      · show Lines.tail 10 (restLoadCommand r).input = _
        rw [hrest, hinput, Lines.tail_line hline]
      · intro hreading
        have hreading : (restLoadCommand r).state = .reading := hreading
        rw [hreading] at hprocessing
        cases hprocessing
      · show (restLoadCommand r).input.length < _
        rwa [hrest]
  · have hloaded : c.loaded r.input (restLoadCommand r) =
        { c with rest := { r with state := .reading } } := by
      rw [restLoadCommand_none hmem]
      rfl
    rw [hloaded]
    exact ⟨hr, rfl, rfl, fun _ => hmem, Or.inl rfl⟩

/-- REST_STATE_READING, when a piece has come. -/
theorem restReading_piece (r : Rest) (piece : List UInt8) :
    restReading { r with socketHasData := true } (pieceEnv piece) =
      if piece = [] ∨ 8192 ≤ r.input.length + piece.length then
        ({ r with socketHasData := false, state := .loadCommand }, -1)
      else (restLoadCommand { r with
        socketHasData := false, state := .loadCommand, input := r.input ++ piece }, 0) := rfl

theorem noDrop {dropped : Option (List UInt8)} {P : List UInt8 → Prop} (hd : dropped = none) :
    ∀ buffer ∈ dropped, P buffer := by
  rw [hd]
  exact nofun

theorem Inv.step (h : c.Inv) {call : ConnCall} (hc : callStep c call = some c') : c'.Inv := by
  cases call with
  | recv piece =>
    rw [callStep] at hc
    by_cases hcond : c.dropped = none ∧ c.rest.state = .reading
    · obtain ⟨hd, hs⟩ := hcond
      obtain ⟨hinput, hextracted⟩ := h.reading hd hs
      rw [if_pos ⟨hd, hs⟩, restReading_piece] at hc
      have hflatten : (c.received ++ [piece]).flatten = c.received.flatten ++ piece := by
        rw [List.flatten_append, List.flatten_singleton]
      by_cases hbad : piece = [] ∨ 8192 ≤ c.rest.input.length + piece.length
      · rw [if_pos hbad] at hc
        cases hc
        refine ⟨h.httpreq, ?_, nofun, nofun, nofun, nofun, nofun, fun buffer hbuffer => ?_⟩
        · show c.extracted <+: commandsOf (c.received ++ [piece]).flatten
          rw [hextracted, hflatten, commandsOf_append]
          exact List.prefix_append _ _
        · cases hbuffer
          refine ⟨c.received, piece, rfl, by rw [← hinput], ?_⟩
          rintro ⟨hne, hlt⟩
          rw [← hinput] at hlt
          rcases hbad with hnil | hfull
          · exact hne hnil
          · omega
      · rw [if_neg hbad] at hc
        cases hc
        obtain ⟨hne, hroom⟩ := not_or.mp hbad
        have hload := loaded_spec c (r := { c.rest with
          socketHasData := false, state := .loadCommand, input := c.rest.input ++ piece })
          h.httpreq rfl
        have hlines : c.extracted ++ commandsOf (c.rest.input ++ piece) =
            commandsOf (c.received ++ [piece]).flatten := by
          rw [hextracted, hflatten, commandsOf_append c.received.flatten, hinput]
        refine ⟨hload.httpreq, ?_, fun _ => hload.lines.trans hlines, fun _ => ?_,
          fun _ => hload.idle, fun _ => ?_, fun _ => ?_, noDrop hd⟩
        · exact ⟨_, hload.lines.trans hlines⟩
        · refine hload.tail.trans ?_
          show Lines.tail 10 (c.rest.input ++ piece) = Lines.tail 10 (c.received ++ [piece]).flatten
          rw [hflatten, Lines.tail_append c.received.flatten, hinput]
        · exact hload.state.imp id fun h => h.2
        · refine fits_concat.mpr ⟨h.fits hd, hne, ?_⟩
          rw [← hinput]
          omega
    · rw [if_neg hcond] at hc
      cases hc
  | load =>
    rw [callStep] at hc
    by_cases hcond : c.dropped = none ∧ c.rest.state = .loadCommand
    · obtain ⟨hd, hs⟩ := hcond
      rw [if_pos ⟨hd, hs⟩] at hc
      cases hc
      have hload := loaded_spec c h.httpreq hs
      have hlines := hload.lines.trans (h.lines hd)
      exact ⟨hload.httpreq, ⟨_, hlines⟩, fun _ => hlines, fun _ => hload.tail.trans (h.tail hd),
        fun _ => hload.idle, fun _ => hload.state.imp id fun h => h.2, fun _ => h.fits hd,
        noDrop hd⟩
    · rw [if_neg hcond] at hc
      cases hc
  | processed rest =>
    rw [callStep] at hc
    by_cases hcond : c.dropped = none ∧ c.rest.state.isProcessing ∧ rest.input = c.rest.input ∧
        rest.httpreq = none ∧ rest.state = .loadCommand
    · rw [if_pos hcond] at hc
      cases hc
      obtain ⟨hd, -, hinput, hhttp, hs⟩ := hcond
      refine ⟨hhttp, h.prefixed, fun _ => ?_, fun _ => ?_, fun _ hreading => ?_,
        fun _ => Or.inr (Or.inl hs), fun _ => h.fits hd, noDrop hd⟩
      · show c.extracted ++ commandsOf rest.input = _
        rw [hinput, h.lines hd]
      · show Lines.tail 10 rest.input = _
        rw [hinput, h.tail hd]
      · have hreading : rest.state = .reading := hreading
        rw [hs] at hreading
        cases hreading
    · rw [if_neg hcond] at hc
      cases hc

theorem inv_of_leads {calls : List ConnCall} (h : Leads calls c) : c.Inv := by
  obtain ⟨rest, hstate, hinput, hhttp, hexec⟩ := h
  exact Runs.exec_inv (fun _ _ _ hinv hc => Inv.step hinv hc) (inv_start hstate hinput hhttp) hexec

/-- The lines that are buffered are taken, and the commands carried out, before the next read. -/
theorem drain (h : c.Inv) (hd : c.dropped = none) : ∃ calls c',
    Runs.exec callStep c calls = some c' ∧ c'.rest.state = .reading ∧ c'.dropped = none ∧
      c'.received = c.received := by
  -- a command that is being carried out counts for half a byte
  obtain ⟨n, hn⟩ : ∃ n, n = 2 * c.rest.input.length + if c.rest.state.isProcessing then 1 else 0 :=
    ⟨_, rfl⟩
  induction n using Nat.strongRecOn generalizing c with
  | ind n ih =>
    rcases h.state hd with hs | hs | hs
    · exact ⟨[], c, rfl, hs, hd, rfl⟩
    · have hcall : callStep c .load = some (c.loaded c.rest.input (restLoadCommand c.rest)) := by
        rw [callStep, if_pos ⟨hd, hs⟩]
      have hinv := h.step hcall
      have hload := loaded_spec c h.httpreq hs
      rcases hload.state with hreading | ⟨hshort, -⟩
      · exact ⟨[.load], _, by rw [Runs.exec_cons, hcall]; rfl, hreading, hd, rfl⟩
      · have hless : 2 * (c.loaded c.rest.input (restLoadCommand c.rest)).rest.input.length +
            (if (c.loaded c.rest.input (restLoadCommand c.rest)).rest.state.isProcessing then 1
              else 0) < n := by
          rw [hs] at hn
          have hn : n = 2 * c.rest.input.length := hn
          split
          · omega
          · omega
        obtain ⟨calls, c', hexec, hreading, hd', hreceived⟩ := ih _ hless hinv hd rfl
        exact ⟨.load :: calls, c', by rw [Runs.exec_cons, hcall]; exact hexec, hreading, hd',
          hreceived⟩
    · have hcall : callStep c (.processed { c.rest with state := .loadCommand }) =
          some { c with rest := { c.rest with state := .loadCommand } } := by
        rw [callStep, if_pos ⟨hd, hs, rfl, h.httpreq, rfl⟩]
      have hless : 2 * c.rest.input.length + 0 < n := by
        rw [hn, if_pos hs]
        omega
      obtain ⟨calls, c', hexec, hreading, hd', hreceived⟩ := ih _ hless (h.step hcall) hd rfl
      exact ⟨_ :: calls, c', by rw [Runs.exec_cons, hcall]; exact hexec, hreading, hd', hreceived⟩

theorem leads_append {calls calls' : List ConnCall} (h : Leads calls c)
    (h' : Runs.exec callStep c calls' = some c') : Leads (calls ++ calls') c' := by
  obtain ⟨rest, hstate, hinput, hhttp, hexec⟩ := h
  refine ⟨rest, hstate, hinput, hhttp, ?_⟩
  rw [Runs.exec_append, hexec]
  exact h'

/-- Pieces that fit can be read one after the other. -/
theorem exists_leads {pieces : List (List UInt8)} (h : Fits pieces) : ∃ calls c,
    Leads calls c ∧ c.received = pieces ∧ c.dropped = none ∧ c.rest.state = .reading := by
  induction pieces using List.reverseRecOn with
  | nil => exact ⟨[], start (newRest 0), ⟨newRest 0, rfl, rfl, rfl, rfl⟩, rfl, rfl, rfl⟩
  | append_singleton pieces piece ih =>
    obtain ⟨hfits, hne, hlt⟩ := fits_concat.mp h
    obtain ⟨calls, c, hleads, hreceived, hd, hs⟩ := ih hfits
    have hinv := inv_of_leads hleads
    obtain ⟨hinput, -⟩ := hinv.reading hd hs
    rw [← hreceived, ← hinput] at hlt
    have hroom : ¬ (piece = [] ∨ 8192 ≤ c.rest.input.length + piece.length) :=
      not_or.mpr ⟨hne, by omega⟩
    obtain ⟨c', hcall, hd', hreceived'⟩ : ∃ c', callStep c (.recv piece) = some c' ∧
        c'.dropped = none ∧ c'.received = c.received ++ [piece] := by
      rw [callStep, if_pos ⟨hd, hs⟩, restReading_piece, if_neg hroom]
      exact ⟨_, rfl, hd, rfl⟩
    obtain ⟨calls', c'', hexec, hs'', hd'', hreceived''⟩ := drain (hinv.step hcall) hd'
    refine ⟨calls ++ .recv piece :: calls', c'', leads_append hleads ?_, ?_, hd'', hs''⟩
    · rw [Runs.exec_cons, hcall]
      exact hexec
    · rw [hreceived'', hreceived', hreceived]

end Conn

/-! ## Which pieces are taken apart -/

theorem Fits.of_prefix {pieces front : List (List UInt8)} (h : Fits pieces)
    (hfront : front <+: pieces) : Fits front := by
  obtain ⟨rest, rfl⟩ := hfront
  intro i hi
  have hfits := h i (by
    rw [List.length_append]
    omega)
  rwa [List.take_append_of_le_length (Nat.le_of_lt hi), List.getElem_append_left hi] at hfits

/-- A connection is dropped only with a piece that does not fit. -/
theorem not_fits_of_dropped {calls : List ConnCall} {c : Conn} (h : Leads calls c)
    {buffer : List UInt8} (hbuffer : buffer ∈ c.dropped) : ¬ Fits c.received := by
  obtain ⟨before, piece, hreceived, -, hno⟩ := (Conn.inv_of_leads h).drop buffer hbuffer
  rw [hreceived, fits_concat]
  exact fun h => hno h.2

/-- **Framing**: the pieces that are taken apart as they should, whatever is called when. -/
theorem framed_iff (pieces : List (List UInt8)) : Framed pieces ↔ Fits pieces := by
  constructor
  · intro h
    obtain ⟨calls, c, hleads, rfl, hd, -⟩ := h.read
    exact (Conn.inv_of_leads hleads).fits hd
  · intro h
    exact ⟨fun calls c hleads hfront buffer hbuffer =>
        absurd (h.of_prefix hfront) (not_fits_of_dropped hleads hbuffer),
      fun calls c hleads _ => (Conn.inv_of_leads hleads).prefixed,
      fun calls c hleads _ hs hd => ((Conn.inv_of_leads hleads).reading hd hs).2,
      Conn.exists_leads h⟩

/-- Lines of one letter. -/
def letterLines (k : Nat) : List UInt8 := (List.replicate k [97, 10]).flatten

theorem letterLines_spec (k : Nat) : Lines.tail 10 (letterLines k) = [] ∧
    Lines.whole 10 (letterLines k) = List.replicate k [97] ∧ (letterLines k).length = 2 * k := by
  induction k with
  | zero => exact ⟨rfl, rfl, rfl⟩
  | succ k ih =>
    obtain ⟨htail, hwhole, hlen⟩ := ih
    have hcons : letterLines (k + 1) = [97] ++ 10 :: letterLines k := rfl
    have hmem : (10 : UInt8) ∉ [97] := by decide
    refine ⟨?_, ?_, ?_⟩
    · rw [hcons, Lines.tail_line hmem, htail]
    · rw [hcons, Lines.whole_line hmem, hwhole]
      rfl
    · simp only [hcons, List.length_append, List.length_cons, List.length_nil, hlen]
      omega

/-- Short lines, in one piece that fills the buffer. -/
theorem not_framed_full : ¬ ∀ pieces : List (List UInt8), (∀ piece ∈ pieces, piece ≠ []) →
    Lines.tail 10 pieces.flatten = [] →
    (∀ line ∈ Lines.whole 10 pieces.flatten, (commandLine line).length < 8191) →
    Framed pieces := by
  intro h
  obtain ⟨k, hk⟩ : ∃ k, k = 4096 := ⟨_, rfl⟩
  obtain ⟨htail, hwhole, hlen⟩ := letterLines_spec k
  generalize letterLines k = stream at htail hwhole hlen
  have hflatten : [stream].flatten = stream := List.flatten_singleton
  have hframed : Framed [stream] := by
    refine h _ ?_ (by rw [hflatten, htail]) ?_
    · intro piece hpiece hnil
      rw [List.mem_singleton.mp hpiece] at hnil
      rw [hnil, List.length_nil] at hlen
      omega
    · rw [hflatten, hwhole]
      intro line hline
      rw [List.eq_of_mem_replicate hline]
      decide
  obtain ⟨calls, c, hleads, hreceived, hd, -⟩ := hframed.read
  have hfits := (Conn.inv_of_leads hleads).fits hd
  rw [hreceived] at hfits
  have hlt : _ + stream.length < 8192 := (hfits 0 Nat.one_pos).2
  omega

end Despotify.Gateway

import Despotify.Player.Base

/-!
# How much the fifo holds

`despotify_set_buffer_size` and `despotify_set_watermark` set the limits that
`snd_fill_fifo` compares `totbytes` with; `Limits.step` is a step of the player with these
limits.  What is on its way when `totbytes` is compared is at most one substream.

* `step_totbytes`: what a step adds to `totbytes`.
* `Limits.totbytes_lt`: the fifo never holds more than the limits allow.
-/

namespace Despotify.Player

open Runs

variable {A : Type}

/-! ## Limits -/

/-- `maxbytes` and `watermark` of `struct ds_snd_fifo`. -/
structure Limits where
  maxbytes : Int
  watermark : Int

namespace Limits

variable (lim : Limits)

/-- `snd_fill_fifo` is to request data. -/
def wantsData (ds : Ds A) (f : Fifo) : Bool :=
  match ds.dlstate with
  | .draining => f.totbytes < lim.watermark
  | .filling => f.totbytes < lim.maxbytes - SUBSTREAM_SIZE
  | .fillingBusy | .endOfList => false

/-- `snd_fill_fifo`. -/
def sndFillFifo (s : Sys A) (f : Fifo) (ok : Bool) : Option (Sys A) :=
  if s.ds.dlabort then
    if s.ds.dlstate = .fillingBusy then some { s with player := .filling }
    else some { s with ds := { s.ds with dlstate := .draining } }
  else if lim.wantsData s.ds f then readStream s ok
  else if s.ds.dlstate = .filling then some { s with ds := { s.ds with dlstate := .draining } }
  else some s

def step (env : Env A) (s : Sys A) : Event → Option (Sys A)
  | .fill ok =>
    match s.player, s.ds.fifo with
    | .idle, some f => lim.sndFillFifo s f ok
    | _, _ => none
  | e => Player.step env s e

/-- The limits of `snd_init`. -/
def default : Limits := ⟨Player.maxbytes, Player.watermark⟩

theorem step_default (env : Env A) (s : Sys A) (e : Event) :
    default.step env s e = Player.step env s e := by
  cases e <;> rfl

/-- The most the fifo is to hold. -/
def bound : Int := max lim.maxbytes (lim.watermark + SUBSTREAM_SIZE)

end Limits

/-! ## `totbytes` -/

/-- `ds->fifo->totbytes`, 0 before there is a fifo. -/
def Ds.totbytes (ds : Ds A) : Int := (ds.fifo.map Fifo.totbytes).getD 0

theorem Ds.totbytes_of_fifo {ds : Ds A} {f : Fifo} (h : ds.fifo = some f) :
    ds.totbytes = f.totbytes := by
  rw [Ds.totbytes, h]
  rfl

theorem Enqueued.totbytes {ds ds' : Ds A} {b : Buffer} (h : Enqueued ds ds' b) :
    ds'.totbytes ≤ ds.totbytes + b.length := by
  rcases h with ⟨-, rfl⟩ | ⟨-, f, hf, rfl⟩
  · omega
  · rw [Ds.totbytes_of_fifo hf]
    exact Int.le_refl _

theorem consumeLoop_totbytes (req : Nat) (totbytes : Int) (total : Nat) (notices : List Notice)
    (buffers : List Buffer) :
    (consumeLoop req totbytes total notices buffers).totbytes ≤ totbytes := by
  induction buffers generalizing totbytes total notices with
  | nil => exact Int.le_refl _
  | cons b rest ih =>
    cases b with
    | start t next => exact ih totbytes total (.newTrack t next :: notices)
    | data bytes consumed =>
      have hrest := ih (totbytes - bytes.length)
      simp only [consumeLoop]
      generalize (if total + (bytes.length - consumed) < req then bytes.length - consumed
        else req - total) = length
      by_cases hall : consumed + length = bytes.length
      · rw [if_pos hall]
        by_cases hlast : rest.isEmpty ∨ total + length = req
        · rw [if_pos hlast]
          show totbytes - bytes.length ≤ totbytes
          omega
        · rw [if_neg hlast]
          refine Int.le_trans (hrest (total + length) notices) ?_
          omega
      · exact Int.le_of_eq (by rw [if_neg hall])
    | ended =>
      unfold consumeLoop
      split
      · exact Int.le_refl _
      · split <;> exact Int.le_refl _

theorem sndStopLeave_totbytes (ds : Ds A) : (sndStopLeave ds).totbytes = 0 := by
  unfold Ds.totbytes sndStopLeave
  cases ds.fifo <;> rfl

theorem sndStopEnter_totbytes (ds : Ds A) : (sndStopEnter ds).totbytes = ds.totbytes := by
  rw [Ds.totbytes, sndStopEnter_fifo, Ds.totbytes]

theorem sndConsumeData_totbytes {s : Sys A} {f : Fifo} (hf : s.ds.fifo = some f)
    (req total : Nat) :
    (sndConsumeData s f req total).ds.totbytes ≤ max 0 s.ds.totbytes := by
  have hpass := consumeLoop_totbytes req f.totbytes total s.ds.notices f.buffers
  rw [Ds.totbytes_of_fifo hf]
  unfold sndConsumeData
  dsimp only
  split
  · exact Int.le_trans hpass (Int.le_max_right _ _)
  · exact Int.le_trans hpass (Int.le_max_right _ _)
  · split
    · show Ds.totbytes (sndStopEnter _) ≤ _
      rw [sndStopEnter_totbytes]
      exact Int.le_trans hpass (Int.le_max_right _ _)
    · show Ds.totbytes (sndStopLeave _) ≤ _
      rw [sndStopLeave_totbytes]
      exact Int.le_max_left _ _

theorem play_totbytes (s : Sys A) (t : Track) (rest : List Track) (asList notifyOk keyOk : Bool) :
    (play s t rest asList notifyOk keyOk).ds.totbytes = s.ds.totbytes := by
  unfold play
  split
  · rw [cmdAeskey_ds]
    rfl
  · rfl

theorem sndNext_totbytes (ds : Ds A) : (sndNext ds).1.totbytes ≤ ds.totbytes := by
  unfold sndNext
  split
  · exact Int.le_refl _
  · rename_i f hf
    rw [Ds.totbytes_of_fifo hf]
    show f.totbytes - _ ≤ f.totbytes
    omega

theorem next_totbytes {s s' : Sys A} {notifyOk keyOk : Bool} (h : next s notifyOk keyOk = some s') :
    s'.ds.totbytes ≤ max 0 s.ds.totbytes := by
  have hnext := sndNext_totbytes s.ds
  unfold next at h
  dsimp only at h
  split at h
  · cases h
    exact Int.le_trans hnext (Int.le_max_right _ _)
  · obtain ⟨track, -, rfl⟩ := Option.map_eq_some_iff.mp h
    cases track with
    | nil => exact Int.le_trans hnext (Int.le_max_right _ _)
    | cons t rest =>
      dsimp only
      rw [play_totbytes]
      refine Int.le_trans (Int.le_of_eq ?_) (Int.le_max_left _ _)
      exact sndStopLeave_totbytes _

theorem userFinish_totbytes {s s' : Sys A} {call : UserCall} (h : userFinish s call = some s') :
    s'.ds.totbytes ≤ max 0 s.ds.totbytes := by
  cases call with
  | play t rest asList notifyOk keyOk =>
    cases h
    rw [play_totbytes]
    exact Int.le_max_right _ _
  | next notifyOk keyOk => exact next_totbytes h
  | stop =>
    cases h
    exact Int.le_max_right _ _

theorem userCall_totbytes {s s' : Sys A} {call : UserCall} (h : userCall s call = some s') :
    s'.ds.totbytes ≤ max 0 s.ds.totbytes := by
  have hzero : (0 : Int) ≤ max 0 s.ds.totbytes := Int.le_max_left _ _
  unfold userCall at h
  split at h
  · split at h
    · cases h
      exact Int.le_max_right _ _
    · exact Int.le_trans (userFinish_totbytes h) (Int.max_le.mpr ⟨hzero, hzero⟩)
  · dsimp only at h
    split at h
    · cases h
      rw [sndStopEnter_totbytes]
      exact Int.le_max_right _ _
    · have hleave : (resetOffset { s with ds := sndStopLeave (sndStopEnter s.ds) }).ds.totbytes = 0 :=
        sndStopLeave_totbytes _
      have hfinish := userFinish_totbytes h
      rw [hleave] at hfinish
      exact Int.le_trans hfinish (Int.max_le.mpr ⟨hzero, hzero⟩)

theorem sndIoctlChannelEnd_totbytes (ds : Ds A) :
    (sndIoctlChannelEnd ds).totbytes = ds.totbytes := by
  unfold sndIoctlChannelEnd
  split
  · rfl
  · split <;> rfl

theorem substreamEnd_totbytes {s s' : Sys A} {total : Nat} {queue : List Request} {keyOk : Bool}
    (h : substreamEnd s total queue keyOk = some s') : s'.ds.totbytes ≤ s.ds.totbytes := by
  unfold substreamEnd at h
  dsimp only at h
  split at h
  · split at h
    · cases h
    · obtain ⟨ds, hds, rfl⟩ := Option.map_eq_some_iff.mp h
      obtain ⟨dlstate, hq⟩ := enqueued_end hds
      have htot : ds.totbytes ≤ s.ds.totbytes + Buffer.ended.length := hq.totbytes
      dsimp only
      rw [sndIoctlChannelEnd_totbytes]
      refine Int.le_trans (Int.le_of_eq ?_) (Int.le_trans htot (Int.le_of_eq (Int.add_zero _)))
      split
      · split
        · rw [cmdAeskey_ds]
          rfl
        · rfl
      · rfl
  · cases h
    dsimp only
    rw [sndIoctlChannelEnd_totbytes]
    exact Int.le_refl _

/-- Only a data packet adds to `totbytes`, and no more than it has. -/
theorem step_totbytes {env : Env A} {s s' : Sys A} {e : Event} (hfill : ∀ ok, e ≠ .fill ok)
    (h : step env s e = some s') :
    s'.ds.totbytes ≤ max 0 s.ds.totbytes ∨
      ∃ n mem, e = .data n mem ∧ s'.ds.totbytes ≤ s.ds.totbytes + n := by
  have hright := Int.le_max_right 0 s.ds.totbytes
  have hzero := Int.le_max_left 0 s.ds.totbytes
  cases e with
  | data n mem =>
    refine Or.inr ⟨n, mem, rfl, ?_⟩
    simp only [step] at h
    split at h
    · split at h
      · obtain ⟨ds, hds, rfl⟩ := Option.map_eq_some_iff.mp h
        obtain ⟨bytes, hq, hsub, -⟩ := enqueued_data hds
        have hlen := hsub.length_le
        rw [List.length_take, List.length_map, List.length_range] at hlen
        have htot : ds.totbytes ≤ s.ds.totbytes + bytes.length := hq.totbytes
        dsimp only
        omega
      · cases h
    · cases h
  | user call =>
    simp only [step] at h
    split at h
    · exact Or.inl (userCall_totbytes h)
    · cases h
  | userWake =>
    simp only [step] at h
    split at h
    · split at h
      · cases h
      · have hfinish := userFinish_totbytes h
        have hleave : (resetOffset { s with ds := sndStopLeave s.ds, user := .idle }).ds.totbytes = 0 :=
          sndStopLeave_totbytes _
        rw [hleave] at hfinish
        exact Or.inl (Int.le_trans hfinish (Int.max_le.mpr ⟨hzero, hzero⟩))
    · cases h
  | fill ok => exact absurd rfl (hfill ok)
  | fillWake =>
    simp only [step] at h
    split at h
    · cases h
      exact Or.inl hright
    · cases h
  | consume req =>
    simp only [step] at h
    split at h
    · rename_i hf
      split at h
      · cases h
        exact Or.inl (sndConsumeData_totbytes hf req 0)
      · cases h
    · cases h
  | consumeWake =>
    simp only [step] at h
    split at h
    · rename_i hf
      split at h
      · cases h
        exact Or.inl hright
      · cases h
        exact Or.inl (sndConsumeData_totbytes hf _ _)
    · cases h
  | stopWake =>
    simp only [step] at h
    split at h
    · cases h
      refine Or.inl (Int.le_trans (Int.le_of_eq ?_) hzero)
      exact sndStopLeave_totbytes _
    · cases h
  | aesKey =>
    simp only [step] at h
    split at h
    · unfold aesCallback at h
      split at h
      · cases h
      · obtain ⟨ds, hds, rfl⟩ := Option.map_eq_some_iff.mp h
        have htot := (enqueued_start hds).totbytes
        refine Or.inl (Int.le_trans htot (Int.le_trans (Int.le_of_eq ?_) hright))
        exact Int.add_zero _
    · cases h
  | aesKeyErr =>
    simp only [step] at h
    split at h
    · cases h
      exact Or.inl hright
    · cases h
  | substreamEnd keyOk =>
    simp only [step] at h
    split at h
    · exact Or.inl (Int.le_trans (substreamEnd_totbytes h) hright)
    · cases h
  | substreamError =>
    simp only [step] at h
    split at h
    · split at h
      · cases h
      · cases h
        exact Or.inl hright
    · cases h

/-! ## What is on its way -/

/-- The bytes the server may still send for the substream. -/
def onItsWay : Option (Track × Nat × Nat) → Int
  | none => 0
  | some (_, _, received) => SUBSTREAM_SIZE - received

namespace Limits

variable {lim : Limits}

theorem sndFillFifo_cases {s s' : Sys A} {f : Fifo} {ok : Bool}
    (h : lim.sndFillFifo s f ok = some s') :
    (Quiet s s' ∧ s'.ds.totbytes = s.ds.totbytes) ∨
      (lim.wantsData s.ds f = true ∧ readStream s ok = some s') := by
  unfold sndFillFifo at h
  split at h
  · split at h
    · cases h
      exact Or.inl ⟨⟨rfl, rfl, rfl, rfl, rfl, rfl, Iff.rfl, fun _ h => h, fun h => h⟩, rfl⟩
    · rename_i hb
      cases h
      exact Or.inl ⟨quiet_draining hb s.player, rfl⟩
  · split at h
    · rename_i hw
      exact Or.inr ⟨hw, h⟩
    · split at h
      · rename_i hst
        cases h
        exact Or.inl ⟨quiet_draining (by rw [hst]; nofun) s.player, rfl⟩
      · cases h
        exact Or.inl ⟨Quiet.refl s, rfl⟩

/-- Whoever requests has room for a whole substream. -/
theorem totbytes_of_wantsData {ds : Ds A} {f : Fifo} (hf : ds.fifo = some f)
    (h : lim.wantsData ds f = true) :
    ds.dlstate ≠ .fillingBusy ∧ ds.totbytes + SUBSTREAM_SIZE < lim.bound := by
  rw [Ds.totbytes_of_fifo hf]
  unfold wantsData at h
  unfold bound
  split at h
  · rename_i hst
    have hlt := of_decide_eq_true h
    exact ⟨by rw [hst]; nofun, by omega⟩
  · rename_i hst
    have hlt := of_decide_eq_true h
    exact ⟨by rw [hst]; nofun, by omega⟩
  · cases h
  · cases h

/-- There is room for what is on its way. -/
structure Room (lim : Limits) (s : Sys A) (sub : Option (Track × Nat × Nat)) : Prop where
  received : ∀ t offset received, sub = some (t, offset, received) → received ≤ SUBSTREAM_SIZE
  room : max 0 s.ds.totbytes + onItsWay sub < lim.bound

theorem Room.onItsWay_nonneg {s : Sys A} {sub : Option (Track × Nat × Nat)}
    (h : Room lim s sub) : 0 ≤ onItsWay sub := by
  cases sub with
  | none => exact Int.le_refl _
  | some sub =>
    have hle := h.received sub.1 sub.2.1 sub.2.2 rfl
    show 0 ≤ (SUBSTREAM_SIZE : Int) - (sub.2.2 : Int)
    omega

/-- Nothing new is on its way, and `totbytes` has not grown. -/
theorem Room.shrunk {s s' : Sys A} {sub : Option (Track × Nat × Nat)} (h : Room lim s sub)
    (htot : s'.ds.totbytes ≤ max 0 s.ds.totbytes) : Room lim s' sub := by
  refine ⟨h.received, ?_⟩
  have hroom := h.room
  omega

/-- The substream is over. -/
theorem Room.over {s s' : Sys A} {sub : Option (Track × Nat × Nat)} (h : Room lim s sub)
    (htot : s'.ds.totbytes ≤ max 0 s.ds.totbytes) : Room lim s' none := by
  refine ⟨nofun, ?_⟩
  have hroom := h.room
  have hway := h.onItsWay_nonneg
  show max 0 s'.ds.totbytes + 0 < lim.bound
  omega

/-- The server sends no more than was requested. -/
def Granted (s : Sys A) : Event → Prop
  | .data n _ => ∀ t offset received queue,
    s.queue = .substream t offset received :: queue → received + n ≤ SUBSTREAM_SIZE
  | _ => True

theorem room_request {s s' : Sys A} {keys : List Track}
    {sub : Option (Track × Nat × Nat)} {f : Fifo} {ok : Bool} (hmax : SUBSTREAM_SIZE < lim.maxbytes)
    (hb : Base s keys sub) (hf : s.ds.fifo = some f) (hwants : lim.wantsData s.ds f = true)
    (h : readStream s ok = some s') : ∃ keys' sub', Base s' keys' sub' ∧ Room lim s' sub' := by
  obtain ⟨hidle, htot⟩ := totbytes_of_wantsData hf hwants
  obtain ⟨t, rest, -, hds, hb'⟩ := hb.request hidle (by rw [hf]; nofun) h
  have hsame : s'.ds.totbytes = s.ds.totbytes := by
    rw [hds]
    rfl
  have hbound : (SUBSTREAM_SIZE : Int) < lim.bound := Int.lt_of_lt_of_le hmax (Int.le_max_left _ _)
  refine ⟨keys, _, hb', ?_, ?_⟩
  · rintro t' offset received hsub
    cases ok with
    | true =>
      cases hsub
      exact Nat.zero_le _
    | false => cases hsub
  · rw [hsame]
    have hway : onItsWay (if ok then some (t, s.ds.offset, 0) else none) ≤ SUBSTREAM_SIZE := by
      cases ok with
      | true => exact Int.le_refl _
      | false => exact Int.natCast_nonneg _
    omega

theorem room_data {env : Env A} {s s' : Sys A} {n : Nat} {mem : List UInt8} {keys : List Track}
    {sub : Option (Track × Nat × Nat)} (hb : Base s keys sub) (hroom : Room lim s sub)
    (hgranted : Granted s (.data n mem)) (h : Player.step env s (.data n mem) = some s') :
    ∃ keys' sub', Base s' keys' sub' ∧ Room lim s' sub' := by
  simp only [Player.step] at h
  split at h
  · rename_i t offset received queue hqueue
    split at h
    · obtain ⟨ds, hds, rfl⟩ := Option.map_eq_some_iff.mp h
      obtain ⟨rfl, rfl, hb'⟩ := hb.data hqueue hds n
      obtain ⟨bytes, hq, hsub, -⟩ := enqueued_data hds
      have hlen := hsub.length_le
      rw [List.length_take, List.length_map, List.length_range] at hlen
      have htot : ds.totbytes ≤ s.ds.totbytes + bytes.length := hq.totbytes
      have hle := hgranted t offset received queue hqueue
      refine ⟨[], _, hb', ?_, ?_⟩
      · rintro _ _ _ ⟨⟩
        exact hle
      · have hroom := hroom.room
        dsimp only [onItsWay] at hroom ⊢
        omega
    · cases h
  · cases h

/-- Every step keeps room for what is on its way. -/
theorem room_step {env : Env A} {s s' : Sys A} {e : Event} {keys : List Track}
    {sub : Option (Track × Nat × Nat)} (hmax : SUBSTREAM_SIZE < lim.maxbytes) (hb : Base s keys sub)
    (hroom : Room lim s sub) (hgranted : Granted s e) (h : lim.step env s e = some s') :
    ∃ keys' sub', Base s' keys' sub' ∧ Room lim s' sub' := by
  by_cases hfill : ∃ ok, e = .fill ok
  · obtain ⟨ok, rfl⟩ := hfill
    unfold step at h
    dsimp only at h
    split at h
    · rename_i f _ hf
      rcases sndFillFifo_cases h with ⟨hq, htot⟩ | ⟨hwants, hr⟩
      · refine ⟨keys, sub, hb.quiet hq, hroom.shrunk ?_⟩
        rw [htot]
        exact Int.le_max_right _ _
      · exact room_request hmax hb hf hwants hr
    · cases h
  have hfill : ∀ ok, e ≠ .fill ok := fun ok he => hfill ⟨ok, he⟩
  have hstep : Player.step env s e = some s' := by
    rw [← h]
    cases e with
    | fill ok => exact absurd rfl (hfill ok)
    | _ => rfl
  by_cases hdata : ∃ n mem, e = .data n mem
  · obtain ⟨n, mem, rfl⟩ := hdata
    exact room_data hb hroom hgranted hstep
  have hle : s'.ds.totbytes ≤ max 0 s.ds.totbytes := by
    rcases step_totbytes hfill hstep with hle | ⟨n, mem, he, -⟩
    · exact hle
    · exact absurd ⟨n, mem, he⟩ hdata
  cases step_moved hb.fifo hstep with
  | quiet hq => exact ⟨keys, sub, hb.quiet hq, hroom.shrunk hle⟩
  | restart hr =>
    obtain ⟨keys', hb'⟩ := hb.restart hr
    exact ⟨keys', none, hb', hroom.over hle⟩
  | request => exact absurd rfl (hfill _)
  | aesKey hqueue ha =>
    obtain ⟨keys', cur, rest, -, -, hb', -⟩ := hb.aesKey hqueue ha
    exact ⟨keys', sub, hb', hroom.shrunk hle⟩
  | aesKeyErr hqueue hs' =>
    subst hs'
    obtain ⟨keys', -, hb'⟩ := hb.aesKeyErr hqueue
    exact ⟨keys', sub, hb', hroom.shrunk hle⟩
  | data => exact absurd ⟨_, _, rfl⟩ hdata
  | substreamEnd hqueue hend =>
    obtain ⟨keys', hb'⟩ := hb.ended hqueue (substreamEnd_ended hend)
    exact ⟨keys', none, hb', hroom.over hle⟩
  | substreamError hqueue hs' =>
    subst hs'
    exact ⟨[], none, (hb.failed hqueue _).2, hroom.over hle⟩

/-- **The fifo stays within its limits**: in every run of the player in which the server
sends no more than was requested, `totbytes` is below `maxbytes`, or below the watermark
and one substream. -/
theorem totbytes_lt (lim : Limits) (hmax : SUBSTREAM_SIZE < lim.maxbytes) (env : Env A) (st : A)
    {es : List Event} {s : Sys A} (hgranted : AllSteps (lim.step env) Granted (Sys.init st) es)
    (h : exec (lim.step env) (Sys.init st) es = some s) :
    ∀ f, s.ds.fifo = some f → f.totbytes < max lim.maxbytes (lim.watermark + SUBSTREAM_SIZE) := by
  have hinit : Room lim (Sys.init st) none := by
    refine ⟨nofun, ?_⟩
    have hbound : lim.maxbytes ≤ lim.bound := Int.le_max_left _ _
    have hpos : (0 : Int) ≤ SUBSTREAM_SIZE := Int.natCast_nonneg _
    show (0 : Int) + 0 < lim.bound
    omega
  have hstep : ∀ (s : Sys A) e s', (∃ keys sub, Base s keys sub ∧ Room lim s sub) → Granted s e →
      lim.step env s e = some s' → ∃ keys sub, Base s' keys sub ∧ Room lim s' sub := by
    rintro s e s' ⟨keys, sub, hb, hroom⟩ hgranted hs
    exact room_step hmax hb hroom hgranted hs
  obtain ⟨keys, sub, -, hroom⟩ :=
    exec_inv_of_allSteps hstep ⟨[], none, Base.init st, hinit⟩ hgranted h
  intro f hf
  have hway := hroom.onItsWay_nonneg
  have hroom := hroom.room
  rw [Ds.totbytes_of_fifo hf] at hroom
  show f.totbytes < lim.bound
  omega

def startTrack : List Event := [.user (.play ⟨0, true⟩ [] true true true), .aesKey, .fill true]

/-- A track has started, and its first substream is on its way. -/
theorem totbytes_lt_started :
    ∃ s f, exec (default.step noCipher) (Sys.init ()) startTrack = some s ∧
      s.ds.fifo = some f ∧ f.totbytes < max default.maxbytes (default.watermark + SUBSTREAM_SIZE) := by
  have hgranted : AllSteps (default.step noCipher) Granted (Sys.init ()) startTrack :=
    ⟨trivial, fun _ _ => ⟨trivial, fun _ _ => ⟨trivial, fun _ _ => trivial⟩⟩⟩
  refine ⟨_, _, rfl, rfl, ?_⟩
  exact totbytes_lt default (by decide) noCipher () hgranted rfl _ rfl

end Limits

end Despotify.Player

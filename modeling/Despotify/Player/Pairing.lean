import Despotify.Player.Base
import Despotify.Player.Decrypt

/-!
# Keys, tracks and offsets

What is pushed as `SND_CMD_DATA` is to be bytes of the track whose
`SND_CMD_START` came last, each decrypted with that track's key and the counter
for its file offset (`Paired`).

* `Fits`: the AES state is that of a track at a file offset.
* `Ready`: a substream requested now will meet a fitting AES state; `Careful`:
  every request is made in such a state, no key error undoes it, and packets
  are whole blocks.
* `always_paired`: in every run of careful steps, everything pushed is paired.
* `singleRun_mispaired`: played without `play_as_list`, the second track is
  decrypted with the key of the first.
-/

namespace Despotify.Player

open Runs

variable {A : Type} {env : Env A}

/-! ## The property -/

/-- The last `SND_CMD_START` pushed. -/
def lastStart : List Buffer → Option Track
  | [] => none
  | .start t _ :: _ => some t
  | .data _ _ :: rest | .ended :: rest => lastStart rest

/-- Every byte pushed is a decrypted byte of the track started last. -/
def Paired (env : Env A) : List Buffer → Prop
  | [] => True
  | .data bytes _ :: rest =>
    (∃ t, lastStart rest = some t ∧
      ∀ c ∈ bytes, ∃ f, c = decryptedCell env (env.keySetup (env.key t)) t f) ∧ Paired env rest
  | .start _ _ :: rest | .ended :: rest => Paired env rest

/-- The AES state is that of track `t` at file offset `f`. -/
structure Fits (env : Env A) (ds : Ds A) (t : Track) (f : Nat) : Prop where
  aesState : ds.aesState = env.keySetup (env.key t)
  iv : ds.iv = ivAt (f / 16)
  start : lastStart ds.pushed = some t

def Request.asKey : Request → Option Track
  | .key t => some t
  | .substream _ _ _ => none

/-- The last key on its way. -/
def lastKey (queue : List Request) : Option Track := (queue.filterMap Request.asKey).getLast?

/-- A key for the current track is on its way and `offset` is 0, or no key is
on its way and the AES state is that of the current track at `offset`. -/
def Ready (env : Env A) (s : Sys A) : Prop :=
  ∃ t, s.ds.track.head? = some t ∧
    match lastKey s.queue with
    | some k => env.key k = env.key t ∧ s.ds.offset = 0
    | none => Fits env s.ds t s.ds.offset

/-- `snd_fill_fifo` requests data only when the key is there or on its way; the
last key before a substream is not refused; packets are whole blocks. -/
def Careful (env : Env A) (s : Sys A) : Event → Prop
  | .fill ok => ok = true → s.ds.dlabort = false →
      (∃ f, s.ds.fifo = some f ∧ wantsData s.ds f) → Ready env s
  | .aesKeyErr => ∀ t offset received, s.queue.tail = [.substream t offset received] →
      s.ds.dlabort = false → Fits env s.ds t offset
  | .data n _ => s.ds.dlabort = false → n % 1024 = 0
  | _ => True

/-! ## Packets -/

theorem Fits.congr {ds ds' : Ds A} {t : Track} {f : Nat} (h : Fits env ds t f)
    (haes : ds'.aesState = ds.aesState) (hiv : ds'.iv = ds.iv) (hpushed : ds'.pushed = ds.pushed) :
    Fits env ds' t f :=
  ⟨haes.trans h.aesState, hiv.trans h.iv, by rw [hpushed]; exact h.start⟩

/-- A packet of whole blocks, in a fitting state. -/
theorem Fits.data {ds ds' : Ds A} {t : Track} {f n : Nat} {mem : List UInt8}
    (h : Fits env ds t f) (hf : f % 1024 = 0) (hn : n % 1024 = 0) (habort : ds.dlabort = false)
    (hpaired : Paired env ds.pushed)
    (hds : substreamData env ds ((List.range n).map fun i => wireCell env t (f + i)) mem =
      some ds') :
    Fits env ds' t (f + n) ∧ Paired env ds'.pushed := by
  obtain ⟨m, rfl⟩ : ∃ m, n = 1024 * m := ⟨n / 1024, by omega⟩
  have hlen : ((List.range (1024 * m)).map fun i => wireCell env t (f + i)).length / 1024 = m := by
    rw [List.length_map, List.length_range]
    omega
  unfold substreamData at hds
  rw [hlen, h.iv, decryptBlocks_wire env ds.aesState t m hf] at hds
  dsimp only at hds
  obtain ⟨bytes, hq, hbytes, -⟩ := enqueued_data hds
  rcases hq with ⟨hab, -⟩ | ⟨-, fifo, -, rfl⟩
  · rw [show ds.dlabort = true from hab] at habort
    cases habort
  · refine ⟨⟨h.aesState, rfl, h.start⟩, ⟨t, h.start, fun c hc => ?_⟩, hpaired⟩
    have hc := hbytes.subset hc
    rw [List.take_left' (by simp)] at hc
    obtain ⟨k, -, rfl⟩ := List.mem_map.mp hc
    exact ⟨f + k, by rw [← h.aesState]⟩

/-! ## The invariant -/

/-- The substream on its way will be decrypted as it should, unless `dlabort` has
its data thrown away. -/
def Suits (env : Env A) (s : Sys A) (keys : List Track) : Option (Track × Nat × Nat) → Prop
  | none => True
  | some (t, offset, received) =>
    s.ds.dlabort = true ∨
      match keys.getLast? with
      | some k => env.key k = env.key t ∧ offset = 0
      | none => received % 1024 = 0 ∧ Fits env s.ds t (offset + received)

def Pairing (env : Env A) (s : Sys A) : Prop :=
  ∃ keys sub, Base s keys sub ∧ Suits env s keys sub ∧ Paired env s.ds.pushed

theorem pairing_of_keys {s : Sys A} {keys : List Track} (h : Base s keys none)
    (hpaired : Paired env s.ds.pushed) : Pairing env s :=
  ⟨keys, none, h, trivial, hpaired⟩

theorem lastKey_mkQueue (keys : List Track) : lastKey (mkQueue keys none) = keys.getLast? := by
  unfold lastKey mkQueue
  rw [List.filterMap_map]
  congr 1
  exact List.filterMap_some

/-- A substream requested in a `Ready` state. -/
theorem suits_request {s s' : Sys A} {keys : List Track} {t : Track} {rest : List Track}
    (hready : Ready env s) (hbase : Base s keys none) (htrack : s.ds.track = t :: rest)
    (hds : s'.ds = { s.ds with dlstate := .fillingBusy }) :
    Suits env s' keys (some (t, s.ds.offset, 0)) := by
  obtain ⟨t', ht', h⟩ := hready
  rw [htrack] at ht'
  cases ht'
  rw [hbase.queue, lastKey_mkQueue] at h
  refine Or.inr ?_
  split at h
  · exact h
  · exact ⟨rfl, h.congr (by rw [hds]) (by rw [hds]) (by rw [hds])⟩

/-- A key arrives in front of a substream. -/
theorem suits_aesKey {s s' : Sys A} {keys : List Track} {k cur : Track} {rest : List Track}
    {sub : Option (Track × Nat × Nat)} (h : Suits env s (k :: keys) sub)
    (hbase : Base s (k :: keys) sub) (htrack : s.ds.track = cur :: rest)
    (hq : Enqueued { s.ds with aesState := env.keySetup (env.key k), iv := IV0 } s'.ds
      (.start cur rest)) : Suits env s' keys sub := by
  cases sub with
  | none => trivial
  | some sub =>
    obtain ⟨t, offset, received⟩ := sub
    obtain ⟨hcur, -, -, hreceived⟩ := hbase.track t offset received rfl
    rw [htrack] at hcur
    cases hcur
    rcases hq with ⟨hab, hds⟩ | ⟨hab, f, -, hds⟩
    · exact Or.inl (by rw [hds]; exact hab)
    · rcases h with hab' | h
      · exact absurd (hab.symm.trans hab') nofun
      · refine Or.inr ?_
        cases keys with
        | nil =>
          obtain ⟨hkey, rfl⟩ := h
          have hr : received = 0 := hreceived nofun
          subst hr
          refine ⟨rfl, ?_, ?_, ?_⟩
          · rw [hds]
            exact congrArg env.keySetup hkey
          · rw [hds]
            exact ivAt_zero.symm
          · rw [hds]
            rfl
        | cons k' keys => exact h

theorem suits_aesKeyErr {s : Sys A} {keys : List Track} {k : Track} {queue : List Request}
    {sub : Option (Track × Nat × Nat)} (h : Suits env s (k :: keys) sub)
    (hbase : Base s (k :: keys) sub) (hcareful : Careful env s .aesKeyErr) :
    Suits env { s with queue := queue } keys sub := by
  cases sub with
  | none => trivial
  | some sub =>
    obtain ⟨t, offset, received⟩ := sub
    obtain ⟨-, -, -, hreceived⟩ := hbase.track t offset received rfl
    have hr : received = 0 := hreceived nofun
    subst hr
    rcases h with hab | h
    · exact Or.inl hab
    · by_cases hab : s.ds.dlabort = true
      · exact Or.inl hab
      · refine Or.inr ?_
        cases keys with
        | nil =>
          have hf := hcareful t offset 0 (by rw [hbase.queue]; rfl) (by simpa using hab)
          exact ⟨rfl, hf⟩
        | cons k' keys => exact h

theorem Pairing.step {s s' : Sys A} {e : Event} (h : Pairing env s)
    (hcareful : Careful env s e) (hs : step env s e = some s') : Pairing env s' := by
  obtain ⟨keys, sub, hb, hsuits, hpaired⟩ := h
  cases step_moved hb.fifo hs with
  | quiet hq =>
    refine ⟨keys, sub, hb.quiet hq, ?_, by rw [hq.pushed]; exact hpaired⟩
    cases sub with
    | none => trivial
    | some sub =>
      obtain ⟨t, offset, received⟩ := sub
      rcases hsuits with hab | h
      · exact Or.inl (hq.abort (hb.busy nofun) hab)
      · refine Or.inr ?_
        split at h
        · exact h
        · exact ⟨h.1, h.2.congr hq.aesState hq.iv hq.pushed⟩
  | restart hr =>
    obtain ⟨keys', hb'⟩ := hb.restart hr
    exact pairing_of_keys hb' (by rw [hr.pushed]; exact hpaired)
  | @request ok f hfifo hidle habort hwants hr =>
    have hsub := hb.no_sub (Base.wantsData_idle hwants)
    subst hsub
    obtain ⟨t, rest, htrack, hds, hb'⟩ := hb.request (Base.wantsData_idle hwants)
      (by rw [hfifo]; nofun) hr
    refine ⟨keys, _, hb', ?_, by rw [hds]; exact hpaired⟩
    cases ok with
    | true => exact suits_request (hcareful rfl habort ⟨f, hfifo, hwants⟩) hb htrack hds
    | false => trivial
  | aesKey hqueue ha =>
    obtain ⟨keys', cur, rest, rfl, htrack, hb', hq⟩ := hb.aesKey hqueue ha
    refine ⟨keys', sub, hb', suits_aesKey hsuits hb htrack hq, ?_⟩
    rcases hq with ⟨-, hds⟩ | ⟨-, f, -, hds⟩
    · rw [hds]
      exact hpaired
    · rw [hds]
      exact hpaired
  | aesKeyErr hqueue hs' =>
    subst hs'
    obtain ⟨keys', rfl, hb'⟩ := hb.aesKeyErr hqueue
    exact ⟨keys', sub, hb', suits_aesKeyErr hsuits hb hcareful, hpaired⟩
  | @data n mem t offset received queue ds hqueue hlength hds hs' =>
    subst hs'
    obtain ⟨rfl, rfl, hb'⟩ := hb.data hqueue hds n
    by_cases hab : s.ds.dlabort = true
    · have hds' : ds.dlabort = true ∧ ds.pushed = s.ds.pushed := by
        obtain ⟨bytes, hq, -, -⟩ := enqueued_data hds
        rcases hq with ⟨-, rfl⟩ | ⟨hab', -⟩
        · exact ⟨hab, rfl⟩
        · exact absurd (hab'.symm.trans hab) nofun
      exact ⟨[], _, hb', Or.inl hds'.1, by rw [hds'.2]; exact hpaired⟩
    · have hab : s.ds.dlabort = false := by simpa using hab
      obtain ⟨-, -, hoffset, -⟩ := hb.track t offset received rfl
      rcases hsuits with hab' | ⟨hreceived, hf⟩
      · exact absurd (hab.symm.trans hab') nofun
      · have hn : n % 1024 = 0 := hcareful hab
        obtain ⟨hf', hp'⟩ := hf.data (by omega) hn hab hpaired hds
        rw [Nat.add_assoc] at hf'
        exact ⟨[], _, hb', Or.inr ⟨by omega, hf'⟩, hp'⟩
  | substreamEnd hqueue hend =>
    have he := substreamEnd_ended hend
    obtain ⟨keys', hb'⟩ := hb.ended hqueue he
    refine pairing_of_keys hb' ?_
    rcases he.pushed with hp | hp
    · rw [hp]
      exact hpaired
    · rw [hp]
      exact hpaired
  | substreamError hqueue hs' =>
    subst hs'
    exact pairing_of_keys (hb.failed hqueue _).2 hpaired

/-- **Keys, tracks and offsets.**  In every state of a run of careful steps,
everything pushed is paired. -/
theorem always_paired (env : Env A) (st : A) (es : List Event)
    (h : AllSteps (step env) (fun s e => (step env s e).isSome → Careful env s e)
      (Sys.init st) es) :
    Always (step env) (fun s => Paired env s.ds.pushed) (Sys.init st) es := by
  have key : ∀ es s, Pairing env s →
      AllSteps (step env) (fun s e => (step env s e).isSome → Careful env s e) s es →
      Always (step env) (fun s => Paired env s.ds.pushed) s es := by
    intro es
    induction es with
    | nil =>
      rintro s ⟨keys, sub, -, -, hpaired⟩ -
      exact hpaired
    | cons e es ih =>
      intro s hinv hok
      have hpaired : Paired env s.ds.pushed := by
        obtain ⟨keys, sub, -, -, hpaired⟩ := hinv
        exact hpaired
      refine ⟨hpaired, fun s' hs => ih s' ?_ (hok.2 s' hs)⟩
      exact hinv.step (hok.1 (by rw [hs]; rfl)) hs
  exact key es (Sys.init st) ⟨[], none, Base.init st, trivial, trivial⟩ h

/-- The data are requested before the key has come. -/
theorem always_paired_prefetch : Always (step noCipher) (fun s => Paired noCipher s.ds.pushed)
    (Sys.init ())
    [.user (.play ⟨1, true⟩ [] true true true), .fill true, .aesKey,
      .data 1024 (List.replicate 2048 0)] := by
  refine always_paired noCipher () _ ?_
  refine AllSteps.cons (fun _ => trivial) rfl ?_
  refine AllSteps.cons (fun _ _ _ _ => ?_) rfl ?_
  · exact ⟨⟨1, true⟩, rfl, rfl, rfl⟩
  · refine AllSteps.cons (fun _ => trivial) rfl ?_
    exact ⟨fun _ _ => rfl, fun _ _ => trivial⟩

/-! ## A single track and the next -/

theorem decryptUnits_src (env : Env A) (st : A) (n : Nat) (iv : List UInt8) (buf : List Cell) :
    (decryptUnits env st n iv buf).1.map Cell.src = (buf.take (16 * n)).map Cell.src := by
  induction n generalizing iv buf with
  | zero => rfl
  | succ n ih =>
    have hunit : ∀ (l : List Cell) (f : Nat → Cell → UInt8),
        (l.mapIdx fun j c => { c with byte := f j c }).map Cell.src = l.map Cell.src := by
      intro l f
      refine List.ext_getElem (by simp) fun k hk _ => ?_
      simp
    have hlen : 16 * (n + 1) = 16 + 16 * n := by omega
    simp only [decryptUnits, List.map_append]
    rw [hunit, ih, hlen, List.take_add, List.map_append]

/-- Whatever the key, a block of a track yields 1024 bytes of this track. -/
theorem decryptBlocks_block (env : Env A) (st : A) (t : Track) (iv : List UInt8) (base : Nat) :
    ∃ plain iv', decryptBlocks env st 1 iv
        ((List.range 1024).map fun k => wireCell env t (base + k)) = (plain, iv') ∧
      plain.length = 1024 ∧ ∃ c ∈ plain, ∃ f, c.src = some (t, f) := by
  obtain ⟨plain, iv', heq⟩ : ∃ plain iv', decryptBlocks env st 1 iv
      ((List.range 1024).map fun k => wireCell env t (base + k)) = (plain, iv') := ⟨_, _, rfl⟩
  have hsrc : plain.map Cell.src =
      (List.range 1024).map fun k => (wireCell env t (base + (256 * (k % 4) + k / 4))).src := by
    have htake : ((List.range 1024).map fun k => wireCell env t (base + k)).take 1024 =
        (List.range 1024).map fun k => wireCell env t (base + k) :=
      List.take_of_length_le (by simp)
    have hplain := congrArg (fun r => r.1.map Cell.src) heq
    simp only [decryptBlocks, List.append_nil] at hplain
    rw [← hplain, decryptUnits_src, htake, deinterleave_map_range,
      List.take_of_length_le (by simp), List.map_map]
    rfl
  refine ⟨plain, iv', heq, ?_, ?_⟩
  · have hlen := congrArg List.length hsrc
    simpa using hlen
  · have hmem : (wireCell env t (base + (256 * (0 % 4) + 0 / 4))).src ∈ plain.map Cell.src := by
      rw [hsrc]
      exact List.mem_map.mpr ⟨0, by simp, rfl⟩
    obtain ⟨c, hc, hcsrc⟩ := List.mem_map.mp hmem
    exact ⟨c, hc, _, hcsrc⟩

/-- A block that arrives and is not thrown away: bytes of its own track are
pushed, whatever the key. -/
theorem step_block (env : Env A) (s : Sys A) {t : Track} {offset received : Nat} {queue : List Request}
    {f : Fifo} (hqueue : s.queue = .substream t offset received :: queue)
    (hf : s.ds.fifo = some f) (hab : s.ds.dlabort = false) :
    ∃ bytes iv, bytes.length ≤ 1024 ∧
      (f.lastcmd ≠ .start → ∃ c ∈ bytes, ∃ g, c.src = some (t, g)) ∧
      step env s (.data 1024 (List.replicate 2048 0)) = some { s with
        ds := { s.ds with
          iv := iv
          fifo := some ⟨f.buffers ++ [.data bytes 0], f.totbytes + bytes.length, .data⟩
          pushed := .data bytes 0 :: s.ds.pushed }
        queue := .substream t offset (received + 1024) :: queue } := by
  have hfifo : s.ds.fifo ≠ none := by
    rw [hf]
    exact Option.some_ne_none f
  obtain ⟨ds, hds⟩ := substreamData_some env
    ((List.range 1024).map fun i => wireCell env t (offset + received + i))
    (List.replicate 2048 0) hfifo
  have hstep : step env s (.data 1024 (List.replicate 2048 0)) =
      some { s with ds := ds, queue := .substream t offset (received + 1024) :: queue } := by
    simp only [step, hqueue]
    rw [if_pos ⟨by decide, by decide, List.length_replicate⟩, hds]
    rfl
  obtain ⟨plain, iv', hplain, hlen, c, hc, g, hsrc⟩ :=
    decryptBlocks_block env s.ds.aesState t s.ds.iv (offset + received)
  have hbuf : ((List.range 1024).map fun i =>
      wireCell env t (offset + received + i)).length = 1024 := by
    rw [List.length_map, List.length_range]
  have hone : 1024 / 1024 = 1 := rfl
  unfold substreamData at hds
  rw [hbuf, hone, hplain] at hds
  dsimp only at hds
  obtain ⟨bytes, hq, hbytes, hall⟩ := enqueued_data hds
  rw [List.take_left' hlen] at hbytes hall
  rcases hq with ⟨hab', -⟩ | ⟨-, f', hf', rfl⟩
  · exact absurd (hab.symm.trans hab') Bool.false_ne_true
  · cases hf.symm.trans hf'
    refine ⟨bytes, iv', ?_, fun hlast => ⟨c, ?_, g, hsrc⟩, hstep⟩
    · rw [← hlen]
      exact hbytes.length_le
    · rw [hall f hf' hlast]
      exact hc

/-- The second track of a list, played without `play_as_list`: no key is asked
for when the first one ends. -/
def singleRun : List Event :=
  [.user (.play ⟨1, true⟩ [⟨2, true⟩] false true true), .aesKey, .fill true,
    .data 1024 (List.replicate 2048 0), .substreamEnd true, .fill true,
    .data 1024 (List.replicate 2048 0)]

/-- A state of this run. -/
def singleAt (track : List Track) (iv : List UInt8) (dlstate : DlState) (fifo : Fifo)
    (pushed : List Buffer) (queue : List Request) : Sys Unit where
  ds :=
    { track := track, playAsList := false, offset := 0, aesState := (), iv := iv,
      dlstate := dlstate, dlabort := false, errorcount := 0, fifo := some fifo, pushed := pushed,
      notices := [] }
  queue := queue
  user := .idle
  player := .idle

theorem singleRun_mispaired : ∃ s, exec (step noCipher) (Sys.init ()) singleRun = some s ∧
    ¬ Paired noCipher s.ds.pushed := by
  let one : Track := ⟨1, true⟩
  let two : Track := ⟨2, true⟩
  have hstart : exec (step noCipher) (Sys.init ()) (singleRun.take 3) =
      some (singleAt [one, two] IV0 .fillingBusy ⟨[.start one [two]], 0, .start⟩ [.start one [two]]
        [.substream one 0 0]) := rfl
  obtain ⟨bytes, iv, hlen, -, hdata⟩ := step_block noCipher
    (singleAt [one, two] IV0 .fillingBusy ⟨[.start one [two]], 0, .start⟩ [.start one [two]]
      [.substream one 0 0]) rfl rfl rfl
  let fifo : Fifo := ⟨[.start one [two], .data bytes 0, .ended], 0 + bytes.length + 0, .ended⟩
  have hend : step noCipher (singleAt [one, two] iv .fillingBusy
      ⟨[.start one [two], .data bytes 0], 0 + bytes.length, .data⟩ [.data bytes 0, .start one [two]]
      [.substream one 0 1024]) (.substreamEnd true) =
      some (singleAt [two] iv .filling fifo [.ended, .data bytes 0, .start one [two]] []) := rfl
  have hwants : wantsData (singleAt [two] iv .filling fifo
      [.ended, .data bytes 0, .start one [two]] []).ds fifo = true := by
    simp [singleAt, wantsData, maxbytes, SUBSTREAM_SIZE, fifo]
    omega
  have hfill : step noCipher (singleAt [two] iv .filling fifo
      [.ended, .data bytes 0, .start one [two]] []) (.fill true) =
      some (singleAt [two] iv .fillingBusy fifo [.ended, .data bytes 0, .start one [two]]
        [.substream two 0 0]) :=
    step_fill rfl rfl rfl hwants rfl rfl
  obtain ⟨bytes', iv', -, hsrc, hdata'⟩ := step_block noCipher
    (singleAt [two] iv .fillingBusy fifo [.ended, .data bytes 0, .start one [two]]
      [.substream two 0 0]) rfl rfl rfl
  have hrun : singleRun = singleRun.take 3 ++ [.data 1024 (List.replicate 2048 0),
      .substreamEnd true, .fill true, .data 1024 (List.replicate 2048 0)] := rfl
  have hexec := exec_cons_eq_some.mpr ⟨_, hdata, exec_cons_eq_some.mpr ⟨_, hend,
    exec_cons_eq_some.mpr ⟨_, hfill, exec_cons_eq_some.mpr ⟨_, hdata', exec_nil _ _⟩⟩⟩⟩
  refine ⟨_, by rw [hrun, exec_append, hstart, Option.bind_some, hexec], ?_⟩
  rintro ⟨⟨t, ht, hcells⟩, -⟩
  cases ht
  have hended : fifo.lastcmd ≠ .start := by
    intro hstart
    cases hstart
  obtain ⟨c, hc, g, hg⟩ := hsrc hended
  obtain ⟨f, rfl⟩ := hcells c hc
  have htrack : one = two := congrArg Prod.fst (Option.some.inj hg)
  exact absurd htrack (by decide)

end Despotify.Player

import Despotify.Player.Base
import Mathlib.Algebra.GroupWithZero.Nat

/-!
# The first page of a track

`snd_ioctl` looks into what is pushed right after `SND_CMD_START`, and drops the Ogg
page there if its header type is 6.

* `inside_iff`: it looks beyond the buffer exactly when a track ends before any of its
  data is there, `looksInside_iff` along every run.
* `exact_iff`: the page is removed as it should be exactly when it has one segment.
-/

namespace Despotify.Player

open Runs

variable {A : Type}

/-! ## What is pushed -/

/-- `sizeof (struct ds_track)`, with pointers of eight bytes. -/
def sizeofTrack : Nat := 728

/-- What `malloc` and `memcpy` make of a track. -/
abbrev TrackCopy : Type := { bytes : List UInt8 // bytes.length = sizeofTrack }

/-- The memory a data packet is decrypted to. -/
def plaintext (env : Env A) (ds : Ds A) (buf : List Cell) (mem : List UInt8) : List Cell :=
  let plain := (decryptBlocks env ds.aesState (buf.length / 1024) ds.iv buf).1
  plain ++ (mem.drop plain.length).map fun b => ⟨none, b⟩

theorem substreamData_eq (env : Env A) (ds : Ds A) (buf : List Cell) (mem : List UInt8) :
    substreamData env ds buf mem =
      sndIoctlData
        { ds with iv := (decryptBlocks env ds.aesState (buf.length / 1024) ds.iv buf).2 }
        (plaintext env ds buf mem) buf.length := rfl

theorem length_plaintext_ge (env : Env A) (ds : Ds A) (buf : List Cell) (mem : List UInt8) :
    mem.length ≤ (plaintext env ds buf mem).length := by
  simp only [plaintext, List.length_append, List.length_map, List.length_drop]
  omega

/-- `data` and `length` of a call of `snd_ioctl`. -/
structure IoctlArgs where
  data : Option (List Cell)
  length : Nat

/-- The call of `snd_ioctl` that adds an entry, in each callback. -/
def ioctlArgs (env : Env A) (copy : Track → TrackCopy) (s : Sys A) : Event → Option IoctlArgs
  | .aesKey =>
    match s.queue, s.ds.track with
    | .key _ :: _, t :: _ => some ⟨some ((copy t).1.map fun b => ⟨none, b⟩), 0⟩
    | _, _ => none
  | .data n mem =>
    match s.queue with
    | .substream t offset received :: _ =>
      if 0 < n ∧ n < 65536 ∧ mem.length = n + 1024 then
        let buf := (List.range n).map fun i => wireCell env t (offset + received + i)
        some ⟨some (plaintext env s.ds buf mem), n⟩
      else none
    | _ => none
  | .substreamEnd _ =>
    match s.queue, s.ds.track with
    | .substream _ _ received :: _, _ :: _ =>
      if received < SUBSTREAM_SIZE then some ⟨none, 0⟩ else none
    | _, _ => none
  | .user _ | .userWake | .fill _ | .fillWake | .consume _ | .consumeWake | .stopWake | .aesKeyErr
  | .substreamError => none

/-! ## What is read -/

/-- Where `snd_ioctl` reads when the last command was `SND_CMD_START`. -/
def reads (mem : List Cell) (length : Nat) : List Nat :=
  if byteAt mem 5 = 6 then
    let offset := 28 + ((List.range (byteAt mem 26)).map fun i => byteAt mem (i + 27)).sum
    -- the header type, the segment table, and what memmove moves
    [5, 26] ++ (List.range (byteAt mem 26)).map (· + 27) ++ List.range' offset (length - offset)
  else [5]

theorem byteAt_lt (mem : List Cell) (i : Nat) : byteAt mem i < 256 := by
  unfold byteAt
  cases mem[i]? with
  | none => exact Nat.zero_lt_succ 255
  | some c => exact c.byte.toNat_lt

theorem reads_lt {mem : List Cell} {length : Nat} (hmem : 282 ≤ mem.length)
    (hlen : length ≤ mem.length) : ∀ i ∈ reads mem length, i < mem.length := by
  intro i hi
  have h26 := byteAt_lt mem 26
  unfold reads at hi
  split at hi
  · simp only [List.mem_append, List.mem_cons, List.not_mem_nil, or_false, List.mem_map,
      List.mem_range, List.mem_range'_1] at hi
    rcases hi with ((rfl | rfl) | ⟨k, hk, rfl⟩) | hmove
    · omega
    · omega
    · omega
    · omega
  · rw [List.mem_singleton] at hi
    omega

/-- The buffer pushed is there, and read within its bounds. -/
def LooksInside (env : Env A) (copy : Track → TrackCopy) (s : Sys A) (e : Event) : Prop :=
  ∀ p, ioctlArgs env copy s e = some p → s.ds.dlabort = false →
    ∀ f, s.ds.fifo = some f → f.lastcmd = .start →
      ∃ mem, p.data = some mem ∧ ∀ i ∈ reads mem p.length, i < mem.length

/-- A track ends right after its `SND_CMD_START`. -/
def EndAfterStart (s : Sys A) : Event → Prop
  | .substreamEnd _ =>
    s.ds.dlabort = false ∧ (∃ f, s.ds.fifo = some f ∧ f.lastcmd = .start) ∧
      (∃ t offset received queue,
        s.queue = .substream t offset received :: queue ∧ received < SUBSTREAM_SIZE) ∧
      s.ds.track ≠ []
  | _ => False

theorem ioctlArgs_inside {env : Env A} {copy : Track → TrackCopy} {s : Sys A} {e : Event}
    {p : IoctlArgs} {mem : List Cell} (h : ioctlArgs env copy s e = some p) (hmem : p.data = some mem) :
    ∀ i ∈ reads mem p.length, i < mem.length := by
  unfold ioctlArgs at h
  split at h
  · split at h
    · rename_i t _ _ _
      cases h
      cases hmem
      have hlen : ((copy t).1.map fun b => (⟨none, b⟩ : Cell)).length = 728 := by
        rw [List.length_map]
        exact (copy t).2
      exact reads_lt (by omega) (Nat.zero_le _)
    · cases h
  · rename_i n m
    split at h
    · split at h
      · rename_i hn
        obtain ⟨-, -, hm⟩ := hn
        cases h
        cases hmem
        have hge := fun buf => length_plaintext_ge env s.ds buf m
        refine reads_lt (Nat.le_trans ?_ (hge _)) (Nat.le_trans ?_ (hge _))
        · omega
        · show n ≤ m.length
          omega
      · cases h
    · cases h
  · split at h
    · split at h
      · cases h
        cases hmem
      · cases h
    · cases h
  all_goals cases h

theorem ioctlArgs_null_iff {env : Env A} {copy : Track → TrackCopy} {s : Sys A} {e : Event} :
    (∃ p, ioctlArgs env copy s e = some p ∧ p.data = none) ↔
      (∃ keyOk, e = .substreamEnd keyOk) ∧
        (∃ t offset received queue,
          s.queue = .substream t offset received :: queue ∧ received < SUBSTREAM_SIZE) ∧
        s.ds.track ≠ [] := by
  constructor
  · rintro ⟨p, h, hdata⟩
    unfold ioctlArgs at h
    split at h
    · split at h
      · cases h
        cases hdata
      · cases h
    · split at h
      · split at h
        · cases h
          cases hdata
        · cases h
      · cases h
    · rename_i keyOk
      split at h
      · rename_i t offset received queue cur next hqueue htrack
        split at h
        · rename_i hshort
          exact ⟨⟨keyOk, rfl⟩, ⟨t, offset, received, queue, hqueue, hshort⟩, by rw [htrack]; nofun⟩
        · cases h
      · cases h
    all_goals cases h
  · rintro ⟨⟨keyOk, rfl⟩, ⟨t, offset, received, queue, hqueue, hshort⟩, htrack⟩
    obtain ⟨cur, next, hcur⟩ := List.exists_cons_of_ne_nil htrack
    refine ⟨⟨none, 0⟩, ?_, rfl⟩
    simp only [ioctlArgs, hqueue, hcur, if_pos hshort]

/-- **One entry**: the buffer is read within its bounds unless the track ends right after
its `SND_CMD_START`. -/
theorem inside_iff (env : Env A) (copy : Track → TrackCopy) (s : Sys A) (e : Event) :
    LooksInside env copy s e ↔ ¬ EndAfterStart s e := by
  constructor
  · intro h hend
    cases e with
    | substreamEnd keyOk =>
      obtain ⟨habort, ⟨f, hf, hlast⟩, hqueue, htrack⟩ := hend
      obtain ⟨p, hp, hnone⟩ := (@ioctlArgs_null_iff A env copy s (.substreamEnd keyOk)).mpr
        ⟨⟨keyOk, rfl⟩, hqueue, htrack⟩
      obtain ⟨mem, hmem, -⟩ := h p hp habort f hf hlast
      rw [hnone] at hmem
      cases hmem
    | _ => exact hend
  · intro h p hp habort f hf hlast
    cases hdata : p.data with
    | some mem => exact ⟨mem, rfl, ioctlArgs_inside hp hdata⟩
    | none =>
      obtain ⟨⟨keyOk, rfl⟩, hqueue, htrack⟩ := ioctlArgs_null_iff.mp ⟨p, hp, hdata⟩
      exact absurd ⟨habort, ⟨f, hf, hlast⟩, hqueue, htrack⟩ h

/-- **Bounds of the first page**: along every run of the player every buffer is read within
its bounds if and only if no track ends right after its `SND_CMD_START`. -/
theorem looksInside_iff (env : Env A) (copy : Track → TrackCopy) (st : A) (es : List Event) :
    AllSteps (step env) (LooksInside env copy) (Sys.init st) es ↔
      AllSteps (step env) (fun s e => ¬ EndAfterStart s e) (Sys.init st) es := by
  have hok : LooksInside env copy = fun s e => ¬ EndAfterStart s e := by
    funext s e
    exact propext (inside_iff env copy s e)
  rw [hok]

/-- A track whose first substream is empty. -/
def emptyTrack : List Event :=
  [.user (.play ⟨0, true⟩ [] true true true), .aesKey, .fill true, .substreamEnd true]

def zeroCopy : Track → TrackCopy := fun _ => ⟨List.replicate sizeofTrack 0, List.length_replicate⟩

/-- The end of an empty track is looked into, and there is no buffer. -/
theorem emptyTrack_overread :
    ¬ AllSteps (step noCipher) (LooksInside noCipher zeroCopy) (Sys.init ()) emptyTrack := by
  rintro ⟨-, h⟩
  obtain ⟨-, h⟩ := h _ rfl
  obtain ⟨-, h⟩ := h _ rfl
  obtain ⟨h, -⟩ := h _ rfl
  obtain ⟨mem, hmem, -⟩ := h ⟨none, 0⟩ rfl rfl _ rfl rfl
  cases hmem

/-! ## What is removed -/

/-- The length of the Ogg page in front: its header, the segment table and the segments. -/
def pageLength (mem : List Cell) : Nat :=
  27 + byteAt mem 26 + ((List.range (byteAt mem 26)).map fun i => byteAt mem (i + 27)).sum

/-- What is to be queued of the first data of a track. -/
def withoutPage (mem : List Cell) (length : Nat) : List Cell :=
  if byteAt mem 5 = 6 then (mem.take length).drop (pageLength mem) else mem.take length

/-- `snd_ioctl` queues that. -/
def Exact (ds : Ds A) (f : Fifo) (mem : List Cell) (length : Nat) : Prop :=
  sndIoctlData ds mem length =
    some { ds with
      fifo := some ⟨f.buffers ++ [.data (withoutPage mem length) 0],
        f.totbytes + (withoutPage mem length).length, .data⟩
      pushed := .data (withoutPage mem length) 0 :: ds.pushed }

theorem sndIoctlData_first {ds : Ds A} {f : Fifo} (hf : ds.fifo = some f)
    (hlast : f.lastcmd = .start) (habort : ds.dlabort = false) (mem : List Cell) (length : Nat) :
    sndIoctlData ds mem length = some { ds with
      fifo := some ⟨f.buffers ++ [.data (dropFirstPage mem length) 0],
        f.totbytes + (dropFirstPage mem length).length, .data⟩
      pushed := .data (dropFirstPage mem length) 0 :: ds.pushed } := by
  simp only [sndIoctlData, habort, Bool.false_eq_true, if_false, hf, hlast, if_true, enqueue,
    Option.map_some]
  rfl

/-- The header is counted as one byte more than it has, the segment table not at all. -/
theorem dropFirstPage_eq_iff {mem : List Cell} {length : Nat} (hlen : length ≤ mem.length)
    (hpage : byteAt mem 5 = 6 → pageLength mem < length) :
    dropFirstPage mem length = withoutPage mem length ↔
      (byteAt mem 5 = 6 → byteAt mem 26 = 1) := by
  unfold dropFirstPage withoutPage
  by_cases h6 : byteAt mem 5 = 6
  · have hpage := hpage h6
    rw [if_pos h6, if_pos h6, forall_prop_of_true h6]
    unfold pageLength at hpage ⊢
    dsimp only
    generalize ((List.range (byteAt mem 26)).map fun i => byteAt mem (i + 27)).sum = body at *
    constructor
    · intro h
      have h := congrArg List.length h
      by_cases hoffset : 28 + body < length
      · rw [if_pos hoffset, List.length_drop, List.length_drop, List.length_take] at h
        omega
      · rw [if_neg hoffset, List.length_drop, List.length_take] at h
        omega
    · intro h1
      rw [h1] at hpage ⊢
      rw [if_pos hpage]
  · rw [if_neg h6, if_neg h6]
    exact iff_of_true rfl fun h => absurd h h6

/-- **The first page of a track** is removed as a whole and nothing else is if and only if
no abort is in progress and a page of header type 6 has one segment. -/
theorem exact_iff {ds : Ds A} {f : Fifo} (hf : ds.fifo = some f) (hlast : f.lastcmd = .start)
    {mem : List Cell} {length : Nat} (hlen : length ≤ mem.length)
    (hpage : byteAt mem 5 = 6 → pageLength mem < length) :
    Exact ds f mem length ↔ ds.dlabort = false ∧ (byteAt mem 5 = 6 → byteAt mem 26 = 1) := by
  unfold Exact
  cases habort : ds.dlabort with
  | true =>
    refine iff_of_false (fun h => ?_) (fun h => absurd h.1 nofun)
    have hsame : sndIoctlData ds mem length = some ds := by
      rw [sndIoctlData, if_pos habort]
    have hpushed := congrArg (fun ds => ds.pushed.length) (Option.some.inj (hsame.symm.trans h))
    simp only [List.length_cons] at hpushed
    omega
  | false =>
    rw [sndIoctlData_first hf hlast habort, ← dropFirstPage_eq_iff hlen hpage]
    constructor
    · intro h
      have hpushed := congrArg Ds.pushed (Option.some.inj h)
      cases List.cons.inj hpushed with
      | intro hdata _ => exact ⟨rfl, (Buffer.data.inj hdata).1⟩
    · rintro ⟨-, h⟩
      rw [h, habort]

/-- A page with so many segments of one byte each, and one byte behind it. -/
def smallPage (segments : Nat) : List Cell :=
  (List.replicate 5 0 ++ [6] ++ List.replicate 20 0 ++ [UInt8.ofNat segments] ++
    List.replicate segments 1 ++ List.replicate segments 0 ++ [7]).map fun b => ⟨none, b⟩

/-- After `SND_CMD_START`. -/
def started : Ds Unit := sndInit (Sys.init ()).ds

/-- One segment. -/
theorem exact_one : Exact started ⟨[], 0, .start⟩ (smallPage 1) 30 :=
  (exact_iff rfl rfl (by decide) (by decide)).mpr ⟨rfl, by decide⟩

/-- Of a page with two segments one byte is left. -/
theorem twoSegments_left : ¬ Exact started ⟨[], 0, .start⟩ (smallPage 2) 32 := by
  intro h
  have hpushed := congrArg (Option.map fun ds : Ds Unit => ds.pushed.map Buffer.length) h
  revert hpushed
  decide

end Despotify.Player

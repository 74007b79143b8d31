import Despotify.Player.Model
import Mathlib.Algebra.GroupWithZero.Nat

/-!
# What `snd_consume_data` takes off the queue

One pass of the loop splits the queue: what is handed to the consumer, the
`SND_CMD_END` popped if any, and what stays (`consumeLoop_spec`).

* `content`: the bytes still in the queue, `none` for each `SND_CMD_END`.
* `Buffer.Good`: data not handed over to the end.
* `Contiguous`: the offsets the pieces are handed over with.
-/

namespace Despotify.Player

/-! ## What is in the queue -/

/-- The bytes still in the queue, `none` for each `SND_CMD_END`. -/
def content : List Buffer → List (Option Cell)
  | [] => []
  | .start _ _ :: rest => content rest
  | .data bytes consumed :: rest => (bytes.drop consumed).map some ++ content rest
  | .ended :: rest => none :: content rest

theorem content_append (xs ys : List Buffer) : content (xs ++ ys) = content xs ++ content ys := by
  induction xs with
  | nil => rfl
  | cons b xs ih => cases b <;> simp [content, ih]

/-- Data entries have bytes left. -/
def Buffer.Good : Buffer → Prop
  | .data bytes consumed => consumed < bytes.length
  | .start _ _ | .ended => True

def sumLength (buffers : List Buffer) : Int := ((buffers.map Buffer.length).sum : Nat)

@[simp] theorem sumLength_nil : sumLength [] = 0 := rfl

@[simp] theorem sumLength_cons (b : Buffer) (buffers : List Buffer) :
    sumLength (b :: buffers) = b.length + sumLength buffers := by
  simp [sumLength]

@[simp] theorem sumLength_append (xs ys : List Buffer) :
    sumLength (xs ++ ys) = sumLength xs + sumLength ys := by
  simp [sumLength]

theorem sumLength_nonneg (buffers : List Buffer) : 0 ≤ sumLength buffers := Int.natCast_nonneg _

theorem length_dropFirstPage_pos {mem : List Cell} {length : Nat} (h : 0 < length)
    (hmem : length ≤ mem.length) : 0 < (dropFirstPage mem length).length := by
  have htake : 0 < (mem.take length).length := by
    rw [List.length_take]
    omega
  unfold dropFirstPage
  split
  · dsimp only
    split
    · rw [List.length_drop, List.length_take]
      omega
    · exact htake
  · exact htake

/-! ## What the consumer gets -/

/-- The bytes of all pieces. -/
def handed (pieces : List (Nat × List Cell)) : List Cell := pieces.flatMap (·.2)

@[simp] theorem handed_nil : handed [] = [] := rfl

@[simp] theorem handed_cons (piece : Nat × List Cell) (pieces : List (Nat × List Cell)) :
    handed (piece :: pieces) = piece.2 ++ handed pieces := rfl

@[simp] theorem handed_append (xs ys : List (Nat × List Cell)) :
    handed (xs ++ ys) = handed xs ++ handed ys := by
  simp [handed]

/-- No piece is empty, and each is handed over with the offset behind the last
one, the first with offset `n`. -/
def Contiguous : Nat → List (Nat × List Cell) → Prop
  | _, [] => True
  | n, (offset, bytes) :: rest => offset = n ∧ bytes ≠ [] ∧ Contiguous (n + bytes.length) rest

theorem Contiguous.append {xs ys : List (Nat × List Cell)} {n : Nat} (h : Contiguous n xs)
    (h' : Contiguous (n + (handed xs).length) ys) : Contiguous n (xs ++ ys) := by
  induction xs generalizing n with
  | nil => simpa using h'
  | cons x xs ih =>
    obtain ⟨h1, h2, h3⟩ := h
    refine ⟨h1, h2, ih h3 ?_⟩
    rw [handed_cons, List.length_append, ← Nat.add_assoc] at h'
    exact h'

/-- The pass pops a `SND_CMD_END`. -/
def Consumed.ends : Consumed → Bool
  | .returned total => total = 0
  | .lastEnd => true
  | .waiting _ => false

/-- What a pass does to the queue and hands over. -/
structure PassSpec (req total : Nat) (totbytes : Int) (buffers : List Buffer) (p : Pass) :
    Prop where
  content : content buffers = (handed p.pieces).map some ++
    ((if p.out.ends then [none] else []) ++ Player.content p.buffers)
  good : ∀ b ∈ p.buffers, b.Good
  contiguous : Contiguous total p.pieces
  le : total + (handed p.pieces).length ≤ req
  totbytes : p.totbytes - sumLength p.buffers = totbytes - sumLength buffers
  out : match p.out with
    | .returned n => n = total + (handed p.pieces).length
    | .waiting n => n = total + (handed p.pieces).length ∧ n < req ∧ p.buffers = []
    | .lastEnd => total + (handed p.pieces).length = 0 ∧ p.buffers = []

theorem consumeLoop_spec {req : Nat} (totbytes : Int) {total : Nat} (notices : List Notice)
    {buffers : List Buffer} (hgood : ∀ b ∈ buffers, b.Good) (htotal : total < req) :
    PassSpec req total totbytes buffers (consumeLoop req totbytes total notices buffers) := by
  induction buffers generalizing totbytes total notices with
  | nil =>
    exact
      { content := rfl, good := nofun, contiguous := trivial, le := Nat.le_of_lt htotal, totbytes := rfl
        out := ⟨rfl, htotal, rfl⟩ }
  | cons b rest ih =>
    obtain ⟨hb, hrest⟩ := List.forall_mem_cons.mp hgood
    cases b with
    | start t next =>
      have h := ih totbytes (.newTrack t next :: notices) hrest htotal
      refine ⟨h.content, h.good, h.contiguous, h.le, ?_, h.out⟩
      rw [sumLength_cons]
      simpa [Buffer.length, consumeLoop] using h.totbytes
    | data bytes consumed =>
      have hb : consumed < bytes.length := hb
      simp only [consumeLoop]
      generalize hlength : (if total + (bytes.length - consumed) < req then bytes.length - consumed
        else req - total) = length
      have hpos : 0 < length ∧ length ≤ bytes.length - consumed ∧ total + length ≤ req := by
        rw [← hlength]
        split <;> omega
      have hpiece : ((bytes.drop consumed).take length).length = length := by
        rw [List.length_take, List.length_drop]
        omega
      have hne : (bytes.drop consumed).take length ≠ [] := by
        rw [← List.length_pos_iff_ne_nil]
        omega
      split
      · rename_i hall
        have hfull : (bytes.drop consumed).take length = bytes.drop consumed := by
          rw [List.take_of_length_le]
          rw [List.length_drop]
          omega
        split
        · rename_i hexit
          have hends : Consumed.ends (.returned (total + length)) = false := by
            simp [Consumed.ends]
            omega
          refine ⟨?_, hrest, ⟨rfl, hne, trivial⟩, ?_, ?_, ?_⟩
          · simp [hends, content, hfull]
          · simp only [handed_cons, handed_nil, List.append_nil, hpiece]
            omega
          · simp [Buffer.length]
            omega
          · simp only [handed_cons, handed_nil, List.append_nil, hpiece]
        · rename_i hexit
          have hlt : total + length < req := by
            have hne' : total + length ≠ req := fun h => hexit (Or.inr h)
            omega
          have h := ih (totbytes - bytes.length) notices hrest hlt
          have hlen : total + (bytes.drop consumed).length = total + length := by
            rw [← hfull, hpiece]
          refine ⟨?_, h.good, ⟨rfl, hne, ?_⟩, ?_, ?_, ?_⟩
          · simp only [content, handed_cons, hfull, List.map_append, List.append_assoc]
            rw [h.content]
          · rw [hpiece]
            exact h.contiguous
          · have hle := h.le
            simp only [handed_cons, List.length_append, hpiece]
            omega
          · have ht := h.totbytes
            simp only [sumLength_cons, Buffer.length]
            omega
          · have ho := h.out
            simp only [handed_cons, List.length_append, hpiece, ← Nat.add_assoc]
            exact ho
      · rename_i hpart
        have hends : Consumed.ends (.returned (total + length)) = false := by
          simp [Consumed.ends]
          omega
        have hsplit : bytes.drop consumed =
            (bytes.drop consumed).take length ++ bytes.drop (consumed + length) := by
          rw [← List.drop_drop, List.take_append_drop]
        refine ⟨?_, ?_, ⟨rfl, hne, trivial⟩, ?_, ?_, ?_⟩
        · simp only [content, hends, handed_cons, handed_nil, List.append_nil]
          conv_lhs => rw [hsplit]
          simp only [List.map_append, List.append_assoc, Bool.false_eq_true, if_false, List.nil_append]
        · refine List.forall_mem_cons.mpr ⟨?_, hrest⟩
          change consumed + length < bytes.length
          omega
        · simp only [handed_cons, handed_nil, List.append_nil, hpiece]
          omega
        · simp [Buffer.length]
        · simp only [handed_cons, handed_nil, List.append_nil, hpiece]
    | ended =>
      simp only [consumeLoop]
      split
      · rename_i hne
        refine ⟨?_, hgood, trivial, by simpa using Nat.le_of_lt htotal, rfl, rfl⟩
        simp [Consumed.ends, hne]
      · rename_i hz
        have hz : total = 0 := not_not.mp hz
        split
        · rename_i hempty
          have hnil : rest = [] := List.isEmpty_iff.mp hempty
          subst hnil hz
          exact ⟨rfl, nofun, trivial, by simp, by simp [Buffer.length], rfl, rfl⟩
        · subst hz
          exact ⟨rfl, hrest, trivial, by simp, by simp [Buffer.length], rfl⟩

/-! ## What a pass announces -/

/-- What a pass calls `client_callback` with. -/
theorem consumeLoop_notices (req : Nat) (totbytes : Int) (total : Nat) (notices : List Notice)
    (buffers : List Buffer) :
    ∃ starts, (consumeLoop req totbytes total notices buffers).notices = starts ++ notices ∧
      Notice.endOfPlaylist ∉ starts := by
  induction buffers generalizing totbytes total notices with
  | nil => exact ⟨[], rfl, nofun⟩
  | cons b rest ih =>
    cases b with
    | start t next =>
      obtain ⟨starts, heq, hnot⟩ := ih totbytes total (.newTrack t next :: notices)
      refine ⟨starts ++ [.newTrack t next], ?_, ?_⟩
      · rw [consumeLoop, heq, List.append_assoc]
        rfl
      · simpa using hnot
    | data bytes consumed =>
      simp only [consumeLoop]
      generalize (if total + (bytes.length - consumed) < req then bytes.length - consumed
        else req - total) = length
      split
      · split
        · exact ⟨[], rfl, nofun⟩
        · exact ih _ _ _
      · exact ⟨[], rfl, nofun⟩
    | ended =>
      simp only [consumeLoop]
      split
      · exact ⟨[], rfl, nofun⟩
      · split
        · exact ⟨[], rfl, nofun⟩
        · exact ⟨[], rfl, nofun⟩

/-- A call that waits wants more. -/
theorem consumeLoop_waiting {req : Nat} {totbytes : Int} {total n : Nat} {notices : List Notice}
    {buffers : List Buffer} (hreq : total < req)
    (h : (consumeLoop req totbytes total notices buffers).out = .waiting n) : n < req := by
  induction buffers generalizing totbytes total notices with
  | nil =>
    cases h
    exact hreq
  | cons b rest ih =>
    cases b with
    | start t next => exact ih hreq h
    | data bytes consumed =>
      simp only [consumeLoop] at h
      generalize hlength : (if total + (bytes.length - consumed) < req then bytes.length - consumed
        else req - total) = length at h
      have hle : total + length ≤ req := by
        rw [← hlength]
        split <;> omega
      split at h
      · split at h
        · cases h
        · rename_i hexit
          have hne : total + length ≠ req := fun heq => hexit (Or.inr heq)
          exact ih (by omega) h
      · cases h
    | ended =>
      simp only [consumeLoop] at h
      split at h
      · cases h
      · split at h <;> cases h

/-- When `snd_stop` is called. -/
theorem consumeLoop_lastEnd {req : Nat} {totbytes : Int} {total : Nat} {notices : List Notice}
    {buffers : List Buffer} (hgood : ∀ b ∈ buffers, b.Good) (hreq : total < req)
    (h : (consumeLoop req totbytes total notices buffers).out = .lastEnd) :
    total = 0 ∧ buffers.dropWhile isStart = [.ended] := by
  induction buffers generalizing totbytes total notices with
  | nil => cases h
  | cons b rest ih =>
    obtain ⟨hb, hrest⟩ := List.forall_mem_cons.mp hgood
    cases b with
    | start t next => exact ih hrest hreq h
    | data bytes consumed =>
      have hb : consumed < bytes.length := hb
      simp only [consumeLoop] at h
      generalize hlength : (if total + (bytes.length - consumed) < req then bytes.length - consumed
        else req - total) = length at h
      have hpos : 0 < length ∧ total + length ≤ req := by
        rw [← hlength]
        split <;> omega
      split at h
      · split at h
        · cases h
        · rename_i hexit
          have hne : total + length ≠ req := fun heq => hexit (Or.inr heq)
          have hzero := (ih hrest (by omega) h).1
          omega
      · cases h
    | ended =>
      simp only [consumeLoop] at h
      split at h
      · cases h
      · rename_i hz
        split at h
        · rename_i hempty
          rw [List.isEmpty_iff.mp hempty]
          exact ⟨not_not.mp hz, rfl⟩
        · cases h

end Despotify.Player

import Mathlib.Data.List.Basic

/-!
# Sources that deliver in parts

A source hands out a list in chunks of any sizes, none of them empty, and then
ends, for good or with a failure.  A read asks for at most so many elements and
gets at least one of them while there are any (`read_eq`).

A loop that reads until it has `n` elements gets the next `n`, whatever the chunks
are, and all that is left where there are fewer:

    fill n n s = (s.content.take n, the failure if that is fewer than n)    (fill_got, fill_failure)
-/

/-- The chunks to come, and the failure at their end. -/
structure Source (ε α : Type) where
  chunks : List { chunk : List α // chunk ≠ [] }
  failure : Option ε

namespace Source

variable {ε α : Type}

/-- What is to come, in one piece. -/
def content (s : Source ε α) : List α := (s.chunks.map Subtype.val).flatten

/-- At most `n` elements of the next chunk; none at the end. -/
def read (n : Nat) (s : Source ε α) : List α × Option ε × Source ε α :=
  match s.chunks with
  | [] => ([], s.failure, s)
  | chunk :: chunks =>
    if h : n < chunk.1.length then
      (chunk.1.take n, none, { s with chunks := ⟨chunk.1.drop n, by simpa using h⟩ :: chunks })
    else (chunk.1, none, { s with chunks := chunks })

/-- At most so many reads, until `n` elements have come or there are no more;
no more than `room` in all. -/
def fillFrom : Nat → Nat → Nat → Source ε α → List α × Option ε × Source ε α
  | 0, _, _, s => ([], none, s)
  | passes + 1, n, room, s =>
    if n = 0 then ([], none, s)
    else
      match s.read room with
      | ([], failure, s) => ([], failure, s)
      | (got, _, s) =>
        let (rest, failure, s) := fillFrom passes (n - got.length) (room - got.length) s
        (got ++ rest, failure, s)

/-- Every read that goes on has got an element, so that `n` of them are enough. -/
def fill (n room : Nat) (s : Source ε α) : List α × Option ε × Source ε α := fillFrom n n room s

/-- The source after `n` elements. -/
def skip (n : Nat) (s : Source ε α) : Source ε α := (fill n n s).2.2

/-! ## One read -/

theorem content_eq_nil {s : Source ε α} : s.content = [] ↔ s.chunks = [] := by
  constructor
  · intro h
    cases hc : s.chunks with
    | nil => rfl
    | cons chunk chunks =>
      unfold content at h
      rw [hc, List.map_cons, List.flatten_cons] at h
      exact absurd (List.append_eq_nil_iff.mp h).1 chunk.2
  · intro h
    unfold content
    rw [h]
    rfl

/-- **One read**: at the end the failure, before it the next elements. -/
theorem read_eq (s : Source ε α) {n : Nat} (hn : 0 < n) :
    (s.content = [] ∧ s.read n = ([], s.failure, s)) ∨
      ∃ a got s', s.read n = (a :: got, none, s') ∧ s'.failure = s.failure ∧
        s.content = a :: got ++ s'.content ∧ (a :: got).length ≤ n := by
  cases hc : s.chunks with
  | nil =>
    refine Or.inl ⟨content_eq_nil.mpr hc, ?_⟩
    unfold read
    rw [hc]
  | cons chunk chunks =>
    obtain ⟨l, hl⟩ := chunk
    obtain ⟨a, l, rfl⟩ := List.exists_cons_of_ne_nil hl
    obtain ⟨m, rfl⟩ : ∃ m, n = m + 1 := ⟨n - 1, by omega⟩
    have hcontent : s.content = a :: l ++ (chunks.map Subtype.val).flatten := by
      unfold content
      rw [hc, List.map_cons, List.flatten_cons]
    unfold read
    rw [hc, hcontent]
    by_cases h : m + 1 < (a :: l).length
    · refine Or.inr ⟨a, l.take m, _, dif_pos h, rfl, ?_, ?_⟩
      · show _ = a :: l.take m ++ (l.drop m ++ (chunks.map Subtype.val).flatten)
        rw [← List.append_assoc, List.cons_append, List.cons_append, List.take_append_drop,
          List.cons_append]
      · rw [List.length_cons, List.length_take]
        omega
    · refine Or.inr ⟨a, l, _, dif_neg h, rfl, rfl, ?_⟩
      omega

/-! ## The loop -/

/-- At the end of the source the loop stops at once. -/
theorem fillFrom_of_end (passes n room : Nat) {s : Source ε α} (h : s.content = []) :
    fillFrom (passes + 1) (n + 1) room s = ([], s.failure, s) := by
  have hread : s.read room = ([], s.failure, s) := by
    unfold read
    rw [content_eq_nil.mp h]
  unfold fillFrom
  rw [if_neg (Nat.succ_ne_zero n), hread]

theorem fillFrom_eq (passes n : Nat) (s : Source ε α) (h : n ≤ passes) :
    ∃ s', fillFrom passes n n s =
        (s.content.take n, if s.content.length < n then s.failure else none, s') ∧
      s'.content = s.content.drop n ∧ s'.failure = s.failure := by
  induction passes generalizing n s with
  | zero =>
    obtain rfl : n = 0 := by omega
    exact ⟨s, rfl, rfl, rfl⟩
  | succ passes ih =>
    by_cases hn : n = 0
    · subst hn
      exact ⟨s, rfl, rfl, rfl⟩
    rcases read_eq s (Nat.pos_of_ne_zero hn) with ⟨hend, hread⟩ | ⟨a, got, s1, hread, hf, hc, hlen⟩
    · refine ⟨s, ?_, ?_, rfl⟩
      · unfold fillFrom
        rw [if_neg hn, hread, hend, List.take_nil, List.length_nil, if_pos (Nat.pos_of_ne_zero hn)]
      · rw [hend, List.drop_nil]
    · obtain ⟨s', hrest, hcontent, hfailure⟩ := ih (n - (a :: got).length) s1 (by
        rw [List.length_cons]
        omega)
      refine ⟨s', ?_, ?_, hfailure.trans hf⟩
      · unfold fillFrom
        rw [if_neg hn, hread]
        simp only [hrest, hc, List.take_append, List.length_append]
        rw [List.take_of_length_le hlen, hf]
        congr 2
        by_cases hs : s1.content.length < n - (a :: got).length
        · rw [if_pos hs, if_pos (by omega)]
        · rw [if_neg hs, if_neg (by omega)]
      · rw [hcontent, hc, List.drop_append, List.drop_eq_nil_of_le hlen, List.nil_append]

section Fill

variable (n : Nat) (s : Source ε α)

/-- **What comes** does not depend on the chunks. -/
theorem fill_eq : fill n n s =
    (s.content.take n, if s.content.length < n then s.failure else none, s.skip n) := by
  obtain ⟨s', h, -, -⟩ := fillFrom_eq n n s (Nat.le_refl n)
  have hskip : s.skip n = s' := congrArg (fun x => x.2.2) h
  rw [hskip]
  exact h

@[simp] theorem content_skip : (s.skip n).content = s.content.drop n := by
  obtain ⟨s', h, hc, -⟩ := fillFrom_eq n n s (Nat.le_refl n)
  have hskip : s.skip n = s' := congrArg (fun x => x.2.2) h
  rw [hskip, hc]

@[simp] theorem failure_skip : (s.skip n).failure = s.failure := by
  obtain ⟨s', h, -, hf⟩ := fillFrom_eq n n s (Nat.le_refl n)
  have hskip : s.skip n = s' := congrArg (fun x => x.2.2) h
  rw [hskip, hf]

theorem fill_of_end (room : Nat) (h : s.content = []) (hn : 0 < n) :
    fill n room s = ([], s.failure, s) := by
  obtain ⟨m, rfl⟩ : ∃ m, n = m + 1 := ⟨n - 1, by omega⟩
  exact fillFrom_of_end m m room h

end Fill

end Source

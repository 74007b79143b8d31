import Despotify.Lib.Tracks
import Despotify.Pool.MergeSort
import Mathlib.Data.List.Lex
import Mathlib.Data.Prod.Lex

/-!
# Sorting a track list

`clients/despotify/sort.c`.  A pointer into a list is the list from there on: no write of
`tracklist_sort` reaches a node before it has been linked.

    tracklist_sort gives the stable sort ↔ every comparison of the sort is one that
                                           track_compare settles by the first difference
                                                                  (tracklistSort_iff)

`track_compare` adds up what `strcmp` says of the artists and of the albums, and nothing bounds
what it says of the albums.
-/

namespace Despotify.Ui.Sort

open Lib (CString Track)

/-! ## `track_compare` -/

/-- The numbers of the type `int`. -/
def IsInt (n : Int) : Prop := -2147483648 ≤ n ∧ n < 2147483648

instance (n : Int) : Decidable (IsInt n) := inferInstanceAs (Decidable (_ ∧ _))

/-- A result of the type `int`; nothing is promised of one that overflows. -/
def cInt (n : Int) : Option Int := if IsInt n then some n else none

/-- What `track_compare` makes of the two answers of `strcmp` and the track numbers. -/
def combine (artists albums numbers : Int) : Option Int := do
  let byArtist ← cInt (artists * 1000)
  let byAlbum ← cInt (albums * 10)
  let rv ← cInt (byArtist + byAlbum)
  if rv = 0 then cInt numbers else some rv

variable (strcmp : CString → CString → Int)

/-- `track_compare`; `NULL` is `none`. -/
def trackCompare : Option Track → Option Track → Option Int
  | some t1, some t2 => do
    let artist1 ← t1.artist.head?
    let artist2 ← t2.artist.head?
    combine (strcmp artist1.name artist2.name) (strcmp t1.album t2.album)
      (t1.tracknumber - t2.tracknumber)
  | _, _ => some 0

/-! ## `tracklist_sort` -/

/-- The inner `while`: what it links, and `q` at its end. -/
def mergeLoop (p : List Track) (psize : Nat) (q : List Track) (qsize : Nat) :
    Option (List Track × List Track) :=
  match psize, q, qsize with
  | 0, e :: q, qsize + 1 => (mergeLoop p 0 q qsize).map fun (out, q) => (e :: out, q)
  | 0, q, _ => some ([], q)
  | psize + 1, q, qsize =>
    match p, q, qsize with
    | [], _, _ => none
    | e :: p, f :: q, qsize + 1 =>
      (trackCompare strcmp (some e) (some f)).bind fun rv =>
        if rv ≤ 0 then (mergeLoop p psize (f :: q) (qsize + 1)).map fun (out, q) => (e :: out, q)
        else (mergeLoop (e :: p) (psize + 1) q qsize).map fun (out, q) => (f :: out, q)
    | e :: p, q, qsize => (mergeLoop p psize q qsize).map fun (out, q) => (e :: out, q)
termination_by psize + qsize

/-- `psize` and `q` after `for (i = 0; i < insize; i++)`. -/
def advance : Nat → List Track → Nat × List Track
  | 0, q => (0, q)
  | _ + 1, [] => (0, [])
  | _ + 1, [_] => (1, [])
  | i + 1, _ :: q => ((advance i q).1 + 1, (advance i q).2)

theorem mergeLoop_done {p q : List Track} {qsize : Nat} (h : q = [] ∨ qsize = 0) :
    mergeLoop strcmp p 0 q qsize = some ([], q) := by
  rcases h with rfl | rfl <;> cases p <;> rw [mergeLoop] <;> simp

theorem mergeLoop_left {e : Track} {p q : List Track} {psize qsize : Nat}
    (h : q = [] ∨ qsize = 0) : mergeLoop strcmp (e :: p) (psize + 1) q qsize =
      (mergeLoop strcmp p psize q qsize).map fun (out, q) => (e :: out, q) := by
  rcases h with rfl | rfl <;> rw [mergeLoop] <;> simp

theorem mergeLoop_length {p : List Track} {psize : Nat} {q : List Track} {qsize : Nat}
    {out q' : List Track} (h : mergeLoop strcmp p psize q qsize = some (out, q')) :
    out.length + q'.length = psize + q.length ∧ q'.length ≤ q.length := by
  induction hn : psize + qsize using Nat.strongRecOn generalizing p psize q qsize out q' with
  | ind n ih =>
    unfold mergeLoop at h
    split at h
    · obtain ⟨⟨out1, q1⟩, hrest, heq⟩ := Option.map_eq_some_iff.mp h
      cases heq
      obtain ⟨hlen, hle⟩ := ih _ (by omega) hrest rfl
      simp only [List.length_cons]
      omega
    · cases h
      simp
    · split at h
      · cases h
      · obtain ⟨rv, -, h⟩ := Option.bind_eq_some_iff.mp h
        split at h
        · obtain ⟨⟨out1, q1⟩, hrest, heq⟩ := Option.map_eq_some_iff.mp h
          cases heq
          obtain ⟨hlen, hle⟩ := ih _ (by omega) hrest rfl
          simp only [List.length_cons] at hlen hle ⊢
          omega
        · obtain ⟨⟨out1, q1⟩, hrest, heq⟩ := Option.map_eq_some_iff.mp h
          cases heq
          obtain ⟨hlen, hle⟩ := ih _ (by omega) hrest rfl
          simp only [List.length_cons]
          omega
      · obtain ⟨⟨out1, q1⟩, hrest, heq⟩ := Option.map_eq_some_iff.mp h
        cases heq
        obtain ⟨hlen, hle⟩ := ih _ (by omega) hrest rfl
        simp only [List.length_cons]
        omega

theorem advance_length {insize : Nat} (hin : 0 < insize) (p : List Track) :
    (advance insize p).1 + (advance insize p).2.length = p.length ∧
      (p ≠ [] → 0 < (advance insize p).1) ∧
      ((advance insize p).2 ≠ [] → (advance insize p).1 = insize) := by
  induction insize, p using advance.induct with
  | case1 q => omega
  | case2 i => simp [advance]
  | case3 i t => simp [advance]
  | case4 i t q hq ih =>
    rw [advance]
    · by_cases hi : 0 < i
      · obtain ⟨hlen, -, hfull⟩ := ih hi
        simp only [List.length_cons]
        refine ⟨by omega, fun _ => by omega, fun hne => by rw [hfull hne]⟩
      · obtain rfl : i = 0 := by omega
        simp [advance, Nat.add_comm]
    · exact hq

/-- One pass from `p` on: the list it links, and `nmerges`. -/
def passLoop (insize : Nat) (hin : 0 < insize) (p : List Track) : Option (List Track × Nat) :=
  if _hp : p = [] then some ([], 0)
  else
    match _h : mergeLoop strcmp p (advance insize p).1 (advance insize p).2 insize with
    | none => none
    | some (out, q) =>
      (passLoop insize hin q).map fun (rest, nmerges) => (out ++ rest, nmerges + 1)
termination_by p.length
decreasing_by
  have hle := (mergeLoop_length strcmp _h).2
  obtain ⟨hlen, hpos, -⟩ := advance_length hin p
  have := hpos _hp
  omega

section Pass

variable {insize : Nat} {hin : 0 < insize}

theorem passLoop_nil : passLoop strcmp insize hin [] = some ([], 0) := by
  rw [passLoop, dif_pos rfl]

theorem passLoop_eq {p out q : List Track} (hp : p ≠ [])
    (hm : mergeLoop strcmp p (advance insize p).1 (advance insize p).2 insize = some (out, q)) :
    passLoop strcmp insize hin p =
      (passLoop strcmp insize hin q).map fun (rest, nmerges) => (out ++ rest, nmerges + 1) := by
  rw [passLoop, dif_neg hp]
  split
  · rename_i hm'
    rw [hm] at hm'
    cases hm'
  · rename_i out' q' hm'
    rw [hm] at hm'
    cases hm'
    rfl

theorem passLoop_eq_none {p : List Track} (hp : p ≠ [])
    (hm : mergeLoop strcmp p (advance insize p).1 (advance insize p).2 insize = none) :
    passLoop strcmp insize hin p = none := by
  rw [passLoop, dif_neg hp]
  split
  · rfl
  · rename_i hm'
    rw [hm] at hm'
    cases hm'

theorem passLoop_length {p l : List Track} {nmerges : Nat}
    (h : passLoop strcmp insize hin p = some (l, nmerges)) :
    l.length = p.length ∧ (p = [] → nmerges = 0) ∧ (1 < nmerges → insize < p.length) := by
  induction hn : p.length using Nat.strongRecOn generalizing p l nmerges with
  | ind n ih =>
    by_cases hp : p = []
    · subst hp
      rw [passLoop_nil] at h
      cases h
      simp [← hn]
    · cases hm : mergeLoop strcmp p (advance insize p).1 (advance insize p).2 insize with
      | none =>
        rw [passLoop_eq_none strcmp hp hm] at h
        cases h
      | some r =>
        obtain ⟨out, q⟩ := r
        rw [passLoop_eq strcmp hp hm] at h
        obtain ⟨⟨rest, nrest⟩, hrest, heq⟩ := Option.map_eq_some_iff.mp h
        cases heq
        obtain ⟨hlen, hle⟩ := mergeLoop_length strcmp hm
        obtain ⟨hadv, hpos, hfull⟩ := advance_length hin p
        have hpos := hpos hp
        obtain ⟨hlrest, hnil, -⟩ := ih q.length (by omega) hrest rfl
        refine ⟨by rw [List.length_append]; omega, fun h => (hp h).elim, ?_⟩
        intro hlt
        -- a second merge has something to start from
        have hq : 0 < q.length := List.length_pos_iff.mpr fun h => by rw [hnil h] at hlt; omega
        have := hfull (List.length_pos_iff.mp (by omega))
        omega

end Pass

/-- The passes. -/
def sortLoop (insize : Nat) (hin : 0 < insize) (list : List Track) : Option (List Track) :=
  match _h : passLoop strcmp insize hin list with
  | none => none
  | some (l, nmerges) =>
    if _hn : nmerges ≤ 1 then some l else sortLoop (insize * 2) (by omega) l
termination_by list.length - insize
decreasing_by
  obtain ⟨hlen, -, hlt⟩ := passLoop_length strcmp _h
  have := hlt (by omega)
  omega

def tracklistSort (list : List Track) : Option (List Track) :=
  if list = [] then some [] else sortLoop strcmp 1 Nat.one_pos list

/-! ## The merges of the passes -/

/-- `track_compare(p, q) <= 0` -/
def before (x y : Track) : Option Bool :=
  (trackCompare strcmp (some x) (some y)).map fun rv => decide (rv ≤ 0)

theorem mergeLoop_eq {xs ys tail rest : List Track} {n : Nat} (hys : ys.length ≤ n)
    (hrest : rest = [] ∨ ys.length = n) :
    mergeLoop strcmp (xs ++ tail) xs.length (ys ++ rest) n =
      (Merging.merge (before strcmp) xs ys).map fun out => (out, rest) := by
  induction xs, ys using Merging.merge.induct generalizing n with
  | case1 ys =>
    rw [Merging.merge, List.nil_append, List.length_nil]
    induction ys generalizing n with
    | nil =>
      rw [List.nil_append, mergeLoop_done strcmp (hrest.imp id Eq.symm)]
      rfl
    | cons y ys ih =>
      obtain ⟨m, rfl⟩ : ∃ m, n = m + 1 := ⟨n - 1, by rw [List.length_cons] at hys; omega⟩
      rw [List.cons_append, mergeLoop, ih (by simpa using hys) (by simpa using hrest)]
      rfl
  | case2 x xs =>
    have hend : rest = [] ∨ n = 0 := hrest.imp id Eq.symm
    rw [Merging.merge, List.nil_append]
    induction x :: xs with
    | nil =>
      rw [List.nil_append, List.length_nil, mergeLoop_done strcmp hend]
      rfl
    | cons x xs ih =>
      rw [List.cons_append, List.length_cons, mergeLoop_left strcmp hend, ih]
      rfl
  | case3 x xs y ys ihl ihr =>
    obtain ⟨m, rfl⟩ : ∃ m, n = m + 1 := ⟨n - 1, by rw [List.length_cons] at hys; omega⟩
    rw [Merging.merge, List.cons_append, List.cons_append, List.length_cons, mergeLoop, before]
    cases trackCompare strcmp (some x) (some y) with
    | none => rfl
    | some rv =>
      rw [Option.bind_some, Option.map_some, Option.bind_some]
      by_cases hle : rv ≤ 0
      · rw [if_pos hle, decide_eq_true hle, if_pos rfl, ← List.cons_append, ihl hys hrest,
          Option.map_map, Option.map_map]
        rfl
      · have hys' : ys.length ≤ m := by simpa using hys
        have hrest' : rest = [] ∨ ys.length = m := by simpa using hrest
        rw [if_neg hle, decide_eq_false hle, if_neg Bool.false_ne_true, ← List.cons_append,
          ← List.length_cons, ihr hys' hrest', Option.map_map, Option.map_map]
        rfl

theorem advance_append {insize : Nat} {r rest : List Track} (hr : r ≠ [])
    (hle : r.length ≤ insize) (hfull : rest = [] ∨ r.length = insize) :
    advance insize (r ++ rest) = (r.length, rest) := by
  induction r generalizing insize with
  | nil => exact (hr rfl).elim
  | cons t r ih =>
    obtain ⟨i, rfl⟩ : ∃ i, insize = i + 1 := ⟨insize - 1, by rw [List.length_cons] at hle; omega⟩
    by_cases hr' : r = []
    · subst hr'
      rcases hfull with rfl | hfull
      · rfl
      · obtain rfl : i = 0 := by simpa using hfull.symm
        cases rest <;> rfl
    · have := ih hr' (by simpa using hle) (by simpa using hfull)
      obtain ⟨u, r, rfl⟩ := List.exists_cons_of_ne_nil hr'
      rw [List.cons_append, List.cons_append, advance, ← List.cons_append, this, List.length_cons]
      · rfl
      · exact List.cons_ne_nil _ _

/-- **A pass merges the runs in pairs.** -/
theorem passLoop_runs {insize : Nat} (hin : 0 < insize) {rs : List (List Track)}
    (hrs : Merging.Cut insize rs) : passLoop strcmp insize hin rs.flatten =
      (Merging.mergePairs (before strcmp) rs).map fun rs' => (rs'.flatten, rs'.length) := by
  induction rs using Merging.mergePairs.induct with
  | case1 a b rest ih =>
    obtain ⟨ha0, ha, hafull, hb0, hb, hbfull, hrest⟩ := hrs
    have hafull : a.length = insize := hafull.resolve_left (List.cons_ne_nil _ _)
    have hne : a ≠ [] := List.length_pos_iff.mp ha0
    have hp : (a :: b :: rest).flatten ≠ [] := by simp [hne]
    have hadv : advance insize (a :: b :: rest).flatten = (a.length, (b :: rest).flatten) :=
      advance_append hne ha (.inr hafull)
    have hm : mergeLoop strcmp (a :: b :: rest).flatten a.length (b :: rest).flatten insize =
        (Merging.merge (before strcmp) a b).map fun out => (out, rest.flatten) :=
      mergeLoop_eq strcmp hb (hbfull.imp (fun h => by rw [h]; rfl) id)
    rw [Merging.mergePairs]
    cases hab : Merging.merge (before strcmp) a b with
    | none =>
      rw [hab, Option.map_none] at hm
      rw [passLoop_eq_none strcmp hp (by rw [hadv]; exact hm)]
      rfl
    | some ab =>
      rw [hab, Option.map_some] at hm
      rw [passLoop_eq strcmp hp (by rw [hadv]; exact hm), ih hrest, Option.bind_some,
        Option.map_map, Option.map_map]
      rfl
  | case2 rs hne =>
    rw [Merging.mergePairs.eq_2 _ _ hne, Option.map_some]
    cases rs with
    | nil => exact passLoop_nil strcmp
    | cons a rest =>
      cases rest with
      | nil =>
        obtain ⟨ha0, ha, -, -⟩ := hrs
        have hne : a ≠ [] := List.length_pos_iff.mp ha0
        have hadv : advance insize [a].flatten = (a.length, []) :=
          advance_append hne ha (.inl rfl)
        have hm : mergeLoop strcmp (a ++ []) a.length ([] ++ []) insize =
            (Merging.merge (before strcmp) a []).map fun out => (out, []) :=
          mergeLoop_eq strcmp (Nat.zero_le insize) (.inl rfl)
        rw [Merging.merge_nil, Option.map_some] at hm
        rw [passLoop_eq strcmp (by simpa using hne) (by rw [hadv]; exact hm), passLoop_nil]
        simp
      | cons b rest => exact (hne a b rest rfl).elim

theorem sortLoop_runs {insize : Nat} (hin : 0 < insize) {rs : List (List Track)}
    (hrs : Merging.Cut insize rs) :
    sortLoop strcmp insize hin rs.flatten = Merging.mergeRuns (before strcmp) rs := by
  induction hn : rs.length using Nat.strongRecOn generalizing insize rs with
  | ind n ih =>
    rw [sortLoop]
    have hpass := passLoop_runs strcmp hin hrs
    split
    · rename_i h
      rw [h] at hpass
      rw [Merging.mergeRuns_eq_none (Option.map_eq_none_iff.mp hpass.symm)]
    · rename_i l nmerges h
      rw [h] at hpass
      obtain ⟨rs', hrs', heq⟩ := Option.map_eq_some_iff.mp hpass.symm
      cases heq
      rw [Merging.mergeRuns_eq hrs']
      by_cases hle : rs'.length ≤ 1
      · rw [dif_pos hle, if_pos hle]
      · have hlen := Merging.length_mergePairs hrs'
        rw [dif_neg hle, if_neg hle]
        exact ih rs'.length (by omega) _ (hrs.mergePairs hrs') rfl

theorem tracklistSort_eq (list : List Track) : tracklistSort strcmp list =
    Merging.mergeRuns (before strcmp) (list.map fun t => [t]) := by
  rw [tracklistSort]
  by_cases h : list = []
  · rw [if_pos h, h, List.map_nil, Merging.mergeRuns_eq rfl]
    rfl
  · have hruns := sortLoop_runs strcmp Nat.one_pos (Merging.cut_singletons list)
    rw [Merging.flatten_singletons] at hruns
    rw [if_neg h, hruns]

/-! ## The order of the keys -/

/-- `strcmp` compares bytes as `unsigned char`. -/
def bytes (s : CString) : List Nat := s.map UInt8.toNat

/-- What the C standard says of `strcmp`. -/
structure Conforms : Prop where
  neg_iff : ∀ a b, strcmp a b < 0 ↔ bytes a < bytes b
  pos_iff : ∀ a b, 0 < strcmp a b ↔ bytes b < bytes a

def artistName (t : Track) : CString := (t.artist.headD {}).name

/-- Artist name, then album, then track number. -/
def sortKey (t : Track) : List Nat ×ₗ List Nat ×ₗ Int :=
  toLex (bytes (artistName t), toLex (bytes t.album, t.tracknumber))

/-- `track_compare` of the two tells what their first difference tells. -/
def Settled (pq : Track × Track) : Prop :=
  let artists := strcmp (artistName pq.1) (artistName pq.2)
  let albums := strcmp pq.1.album pq.2.album
  let numbers := pq.1.tracknumber - pq.2.tracknumber
  let sum := artists * 1000 + albums * 10
  (pq.1.artist ≠ [] ∧ pq.2.artist ≠ []) ∧
    (IsInt (artists * 1000) ∧ IsInt (albums * 10) ∧ IsInt sum ∧ (sum = 0 → IsInt numbers)) ∧
    (artists < 0 → sum < 0 ∨ sum = 0 ∧ numbers ≤ 0) ∧
    (0 < artists → 0 < sum ∨ sum = 0 ∧ 0 < numbers)

variable {strcmp}

theorem Conforms.eq_zero_iff (hs : Conforms strcmp) (a b : CString) :
    strcmp a b = 0 ↔ bytes a = bytes b := by
  have hneg := hs.neg_iff a b
  have hpos := hs.pos_iff a b
  constructor
  · intro h
    rw [h, lt_self_iff_false, false_iff, not_lt] at hneg hpos
    exact le_antisymm hpos hneg
  · intro h
    rw [h, lt_self_iff_false, iff_false, not_lt] at hneg hpos
    exact le_antisymm hpos hneg

theorem sortKey_le_iff (hs : Conforms strcmp) (p q : Track) : sortKey p ≤ sortKey q ↔
    strcmp (artistName p) (artistName q) < 0 ∨ strcmp (artistName p) (artistName q) = 0 ∧
      (strcmp p.album q.album < 0 ∨ strcmp p.album q.album = 0 ∧
        p.tracknumber - q.tracknumber ≤ 0) := by
  have hnum : p.tracknumber ≤ q.tracknumber ↔ p.tracknumber - q.tracknumber ≤ 0 := by omega
  rw [sortKey, sortKey, Prod.Lex.toLex_le_toLex, Prod.Lex.toLex_le_toLex, ← hs.neg_iff,
    ← hs.eq_zero_iff, ← hs.neg_iff, ← hs.eq_zero_iff, ← hnum]

theorem combine_nonpos_iff {artists albums numbers : Int} {b : Bool}
    (hb : b = true ↔ artists < 0 ∨ artists = 0 ∧ (albums < 0 ∨ albums = 0 ∧ numbers ≤ 0)) :
    (combine artists albums numbers).map (fun rv => decide (rv ≤ 0)) = some b ↔
      (IsInt (artists * 1000) ∧ IsInt (albums * 10) ∧ IsInt (artists * 1000 + albums * 10) ∧
        (artists * 1000 + albums * 10 = 0 → IsInt numbers)) ∧
      (artists < 0 → artists * 1000 + albums * 10 < 0 ∨
        artists * 1000 + albums * 10 = 0 ∧ numbers ≤ 0) ∧
      (0 < artists → 0 < artists * 1000 + albums * 10 ∨
        artists * 1000 + albums * 10 = 0 ∧ 0 < numbers) := by
  rw [combine]
  by_cases h1 : IsInt (artists * 1000)
  · by_cases h2 : IsInt (albums * 10)
    · by_cases h3 : IsInt (artists * 1000 + albums * 10)
      · rw [cInt, if_pos h1, cInt, if_pos h2]
        simp only [Option.bind_eq_bind, Option.bind_some]
        rw [cInt, if_pos h3, Option.bind_some]
        by_cases h0 : artists * 1000 + albums * 10 = 0
        · rw [if_pos h0, cInt]
          by_cases h4 : IsInt numbers
          · rw [if_pos h4, Option.map_some, Option.some.injEq, Bool.eq_iff_iff, hb,
              decide_eq_true_eq]
            simp only [h1, h2, h3, h4, true_and, implies_true]
            omega
          · rw [if_neg h4]
            simp [h0, h4]
        · rw [if_neg h0, Option.map_some, Option.some.injEq, Bool.eq_iff_iff, hb,
            decide_eq_true_eq]
          simp only [h1, h2, h3, h0, true_and, false_and, false_implies, or_false]
          omega
      · rw [cInt, if_pos h1, cInt, if_pos h2]
        simp [cInt, h3]
    · rw [cInt, if_pos h1]
      simp [cInt, h2]
  · simp [cInt, h1]

/-- What a comparison of the sort comes to. -/
theorem agrees_iff (hs : Conforms strcmp) (pq : Track × Track) :
    Merging.Agrees sortKey (before strcmp) pq ↔ Settled strcmp pq := by
  obtain ⟨p, q⟩ := pq
  rw [Merging.Agrees, Settled, before, trackCompare]
  cases hp : p.artist with
  | nil => simp
  | cons a as =>
    cases hq : q.artist with
    | nil => simp
    | cons c cs =>
      have hap : artistName p = a.name := by rw [artistName, hp]; rfl
      have haq : artistName q = c.name := by rw [artistName, hq]; rfl
      have hle := sortKey_le_iff hs p q
      rw [hap, haq] at hle ⊢
      simp only [List.head?_cons, Option.bind_eq_bind, Option.bind_some]
      have hb : Merging.le sortKey p q = true ↔ _ := decide_eq_true_iff.trans hle
      rw [combine_nonpos_iff hb]
      simp

theorem before_tie (hs : Conforms strcmp) (x y : Track) (h : sortKey x = sortKey y) :
    before strcmp x y ≠ some false := by
  rw [before, trackCompare]
  cases hx : x.artist with
  | nil => simp
  | cons a as =>
    cases hy : y.artist with
    | nil => simp
    | cons c cs =>
      obtain ⟨hname, hrest⟩ := Prod.ext_iff.mp (toLex.injective h)
      obtain ⟨halbum, hnumber⟩ := Prod.ext_iff.mp (toLex.injective hrest)
      have hartists : strcmp a.name c.name = 0 := by
        rw [← show artistName x = a.name by rw [artistName, hx]; rfl,
          ← show artistName y = c.name by rw [artistName, hy]; rfl]
        exact (hs.eq_zero_iff _ _).mpr hname
      have halbums : strcmp x.album y.album = 0 := (hs.eq_zero_iff _ _).mpr halbum
      have hnumbers : x.tracknumber - y.tracknumber = 0 := Int.sub_eq_zero.mpr hnumber
      simp only [List.head?_cons, Option.bind_eq_bind, Option.bind_some, hartists, halbums,
        hnumbers]
      decide

theorem tracklistSort_stable_iff (hs : Conforms strcmp) (list : List Track) :
    (∃ r, tracklistSort strcmp list = some r ∧ Merging.StableSort sortKey list r) ↔
      ∀ pq ∈ Merging.compared sortKey (list.map fun t => [t]),
        Merging.Agrees sortKey (before strcmp) pq := by
  have hruns : ∀ r ∈ list.map fun t => [t], r.Pairwise fun p q => sortKey p ≤ sortKey q := by
    intro r hr
    obtain ⟨t, -, rfl⟩ := List.mem_map.mp hr
    exact List.pairwise_singleton _ t
  have h := Merging.mergeRuns_ordered_iff (before_tie hs) hruns
  rw [Merging.flatten_singletons] at h
  rw [tracklistSort_eq, h]

/-- **`tracklist_sort` gives the stable sort exactly if every comparison of the sort is
settled.** -/
theorem tracklistSort_iff (hs : Conforms strcmp) (list : List Track) :
    (∃ r, tracklistSort strcmp list = some r ∧ Merging.StableSort sortKey list r) ↔
      ∀ pq ∈ Merging.compared sortKey (list.map fun t => [t]), Settled strcmp pq := by
  rw [tracklistSort_stable_iff hs]
  exact forall₂_congr fun pq _ => agrees_iff hs pq

/-- Answers below 100 leave the albums no say in the order of the artists. -/
theorem tracklistSort_of_small (hs : Conforms strcmp)
    (hsmall : ∀ a b, -100 < strcmp a b ∧ strcmp a b < 100) {list : List Track}
    (hlist : ∀ t ∈ list, t.artist ≠ [] ∧ 0 ≤ t.tracknumber ∧ IsInt t.tracknumber) :
    ∃ r, tracklistSort strcmp list = some r ∧ Merging.StableSort sortKey list r := by
  rw [tracklistSort_stable_iff hs]
  intro pq hpq
  rw [agrees_iff hs]
  obtain ⟨hp, hq⟩ := Merging.mem_of_compared hpq
  rw [Merging.flatten_singletons] at hp hq
  obtain ⟨hpa, hp0, hpn⟩ := hlist _ hp
  obtain ⟨hqa, hq0, hqn⟩ := hlist _ hq
  obtain ⟨ha1, ha2⟩ := hsmall (artistName pq.1) (artistName pq.2)
  obtain ⟨hb1, hb2⟩ := hsmall pq.1.album pq.2.album
  simp only [IsInt] at hpn hqn
  refine ⟨⟨hpa, hqa⟩, ?_, ?_, ?_⟩
  · simp only [IsInt]
    omega
  · omega
  · omega

/-- The difference of the first two bytes that differ. -/
def byteDifference : CString → CString → Int
  | [], [] => 0
  | [], b :: _ => if b = 0 then -1 else -b.toNat
  | a :: _, [] => if a = 0 then 1 else a.toNat
  | a :: as, b :: bs => if a = b then byteDifference as bs else a.toNat - b.toNat

theorem byteDifference_iff (a b : CString) : (byteDifference a b < 0 ↔ bytes a < bytes b) ∧
    (0 < byteDifference a b ↔ bytes b < bytes a) := by
  have hpos : ∀ c : UInt8, c ≠ 0 → 0 < c.toNat := fun c hc =>
    Nat.pos_of_ne_zero fun h => hc (UInt8.toNat_inj.mp h)
  induction a generalizing b with
  | nil =>
    cases b with
    | nil => simp [byteDifference, bytes]
    | cons c cs =>
      have hlt : bytes [] < bytes (c :: cs) := List.nil_lt_cons _ _
      have hneg : byteDifference [] (c :: cs) < 0 := by
        rw [byteDifference]
        split
        · decide
        · have := hpos c ‹_›
          omega
      exact ⟨iff_of_true hneg hlt, iff_of_false (by omega) (lt_asymm hlt)⟩
  | cons c cs ih =>
    cases b with
    | nil =>
      have hlt : bytes [] < bytes (c :: cs) := List.nil_lt_cons _ _
      have hgt : 0 < byteDifference (c :: cs) [] := by
        rw [byteDifference]
        split
        · decide
        · have := hpos c ‹_›
          omega
      exact ⟨iff_of_false (by omega) (lt_asymm hlt), iff_of_true hgt hlt⟩
    | cons d ds =>
      rw [byteDifference, bytes, bytes, List.map_cons, List.map_cons, List.cons_lt_cons_iff,
        List.cons_lt_cons_iff]
      by_cases hcd : c = d
      · subst hcd
        simp only [if_true, lt_self_iff_false, false_or, true_and]
        exact ih ds
      · have hne : c.toNat ≠ d.toNat := fun h => hcd (UInt8.toNat_inj.mp h)
        simp only [if_neg hcd, hne, hne.symm, false_and, or_false]
        omega

theorem conforms_byteDifference : Conforms byteDifference :=
  ⟨fun a b => (byteDifference_iff a b).1, fun a b => (byteDifference_iff a b).2⟩

/-- A track of the artist `artist` on the album `album`. -/
def trackOf (artist album : CString) : Track := { artist := [{ name := artist }], album := album }

theorem compared_two (x y : Track) :
    Merging.compared sortKey ([x, y].map fun t => [t]) = [(x, y)] := by
  rw [Merging.compared, dif_pos (by simp [Merging.pairs])]
  simp [Merging.comparedPairs, Merging.comparedMerge]

theorem tracklistSort_iff_two :
    ∃ r, tracklistSort byteDifference [trackOf [97] [98], trackOf [97] [97]] = some r ∧
      Merging.StableSort sortKey [trackOf [97] [98], trackOf [97] [97]] r := by
  refine (tracklistSort_iff conforms_byteDifference _).mpr ?_
  rw [compared_two, List.forall_mem_singleton]
  simp only [Settled]
  decide

/-- The album `z` outweighs the artist. -/
theorem tracklistSort_unordered : ¬ ∀ strcmp, Conforms strcmp → ∀ list : List Track,
    (∀ t ∈ list, t.artist ≠ []) →
    ∃ r, tracklistSort strcmp list = some r ∧ Merging.StableSort sortKey list r := by
  intro h
  have h := h byteDifference conforms_byteDifference [trackOf [97] [122], trackOf [98] []]
    (by decide)
  rw [tracklistSort_stable_iff conforms_byteDifference, compared_two, List.forall_mem_singleton,
    agrees_iff conforms_byteDifference] at h
  simp only [Settled] at h
  revert h
  decide

end Despotify.Ui.Sort

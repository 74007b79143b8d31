import Mathlib.Data.List.Basic

/-!
# Regular expressions with groups

Patterns of texts, classes, one part behind the other, and alternatives, with numbered groups.
`attempts` backtracks: of two alternatives the first is tried first, and a repeated class takes
as much as it can.

    fullMatch r s ≠ none  ↔  s matches r                               (isSome_fullMatch)
    s matches r in one way, with groups g  →  fullMatch r s = some g   (fullMatch_eq_some)
-/

namespace Regex

inductive Pattern (α : Type) where
  | text (w : List α)
  /-- a class, once -/
  | one (p : α → Bool)
  /-- a class, once or more -/
  | plus (p : α → Bool)
  | cat (r₁ r₂ : Pattern α)
  | alt (r₁ r₂ : Pattern α)
  | group (n : Nat) (r : Pattern α)

/-- What the groups matched, the last one first. -/
abbrev Groups (α : Type) := List (Nat × List α)

variable {α : Type}

/-! ## Backtracking -/

/-- The groups and the rest of the input, in the order they are tried. -/
def attempts [DecidableEq α] : Pattern α → Groups α → List α → List (Groups α × List α)
  | .text w, g, s => if w <+: s then [(g, s.drop w.length)] else []
  | .one _, _, [] => []
  | .one p, g, x :: s => if p x then [(g, s)] else []
  | .plus p, g, s =>
    (List.range (s.takeWhile p).length).reverse.map fun k => (g, s.drop (k + 1))
  | .cat r₁ r₂, g, s => (attempts r₁ g s).flatMap fun t => attempts r₂ t.1 t.2
  | .alt r₁ r₂, g, s => attempts r₁ g s ++ attempts r₂ g s
  | .group n r, g, s =>
    (attempts r g s).map fun t => ((n, s.take (s.length - t.2.length)) :: t.1, t.2)

/-- The first attempt that leaves nothing. -/
def fullMatch [DecidableEq α] (r : Pattern α) (s : List α) : Option (Groups α) :=
  ((attempts r [] s).find? fun t => t.2.isEmpty).map Prod.fst

/-! ## What matches -/

/-- A text that matches, with its groups. -/
inductive Match : Pattern α → List α → Groups α → Prop
  | text (w : List α) : Match (.text w) w []
  | one {p : α → Bool} {x : α} (h : p x = true) : Match (.one p) [x] []
  | plus {p : α → Bool} {w : List α} (hne : w ≠ []) (h : ∀ x ∈ w, p x = true) :
      Match (.plus p) w []
  | cat {r₁ r₂ : Pattern α} {w₁ w₂ : List α} {g₁ g₂ : Groups α} (h₁ : Match r₁ w₁ g₁)
      (h₂ : Match r₂ w₂ g₂) : Match (.cat r₁ r₂) (w₁ ++ w₂) (g₂ ++ g₁)
  | altLeft {r₁ r₂ : Pattern α} {w : List α} {g : Groups α} (h : Match r₁ w g) :
      Match (.alt r₁ r₂) w g
  | altRight {r₁ r₂ : Pattern α} {w : List α} {g : Groups α} (h : Match r₂ w g) :
      Match (.alt r₁ r₂) w g
  | group {n : Nat} {r : Pattern α} {w : List α} {g : Groups α} (h : Match r w g) :
      Match (.group n r) w ((n, w) :: g)

variable {r r₁ r₂ : Pattern α} {p : α → Bool} {w s rest : List α} {g g' : Groups α}

theorem match_text {v : List α} : Match (.text v) w g ↔ w = v ∧ g = [] := by
  constructor
  · rintro ⟨⟩
    exact ⟨rfl, rfl⟩
  · rintro ⟨rfl, rfl⟩
    exact .text w

theorem match_one : Match (.one p) w g ↔ (∃ x, p x = true ∧ w = [x]) ∧ g = [] := by
  constructor
  · rintro ⟨⟩
    exact ⟨⟨_, ‹_›, rfl⟩, rfl⟩
  · rintro ⟨⟨x, hx, rfl⟩, rfl⟩
    exact .one hx

theorem match_plus : Match (.plus p) w g ↔ (w ≠ [] ∧ ∀ x ∈ w, p x = true) ∧ g = [] := by
  constructor
  · rintro ⟨⟩
    exact ⟨⟨‹_›, ‹_›⟩, rfl⟩
  · rintro ⟨⟨hne, h⟩, rfl⟩
    exact .plus hne h

theorem match_cat : Match (.cat r₁ r₂) w g ↔
    ∃ w₁ w₂ g₁ g₂, Match r₁ w₁ g₁ ∧ Match r₂ w₂ g₂ ∧ w = w₁ ++ w₂ ∧ g = g₂ ++ g₁ := by
  constructor
  · rintro ⟨⟩
    exact ⟨_, _, _, _, ‹_›, ‹_›, rfl, rfl⟩
  · rintro ⟨w₁, w₂, g₁, g₂, h₁, h₂, rfl, rfl⟩
    exact .cat h₁ h₂

theorem match_alt : Match (.alt r₁ r₂) w g ↔ Match r₁ w g ∨ Match r₂ w g := by
  constructor
  · rintro (_ | _ | _ | _ | h | h)
    · exact Or.inl h
    · exact Or.inr h
  · rintro (h | h)
    · exact .altLeft h
    · exact .altRight h

theorem match_group {n : Nat} :
    Match (.group n r) w g ↔ ∃ g', Match r w g' ∧ g = (n, w) :: g' := by
  constructor
  · rintro ⟨⟩
    exact ⟨_, ‹_›, rfl⟩
  · rintro ⟨g', h, rfl⟩
    exact .group h

/-! ## Where a class ends -/

/-- A text of the class that goes on with something else is cut in one way. -/
theorem append_inj_of_class {xs xs' ys ys' : List α} (hxs : ∀ x ∈ xs, p x = true)
    (hxs' : ∀ x ∈ xs', p x = true) (hys : ys.takeWhile p = []) (hys' : ys'.takeWhile p = [])
    (h : xs ++ ys = xs' ++ ys') : xs = xs' ∧ ys = ys' := by
  have htake := congrArg (List.takeWhile p) h
  rw [List.takeWhile_append_of_pos hxs, List.takeWhile_append_of_pos hxs', hys, hys',
    List.append_nil, List.append_nil] at htake
  exact ⟨htake, List.append_cancel_left (htake ▸ h)⟩

/-! ## Backtracking finds what matches -/

theorem le_length_takeWhile {n : Nat} (hn : n ≤ s.length) :
    n ≤ (s.takeWhile p).length ↔ ∀ x ∈ s.take n, p x = true := by
  constructor
  · intro hle x hx
    have htake : s.take n = (s.takeWhile p).take n := by
      conv_lhs => rw [← List.takeWhile_append_dropWhile (p := p) (l := s)]
      exact List.take_append_of_le_length hle
    rw [htake] at hx
    exact List.all_eq_true.mp List.all_takeWhile x (List.mem_of_mem_take hx)
  · intro hall
    rw [← List.take_append_drop n s, List.takeWhile_append_of_pos hall, List.length_append,
      List.length_take]
    omega

variable [DecidableEq α]

/-- **The attempts** are the ways in which the front of the input matches. -/
theorem mem_attempts :
    (g', rest) ∈ attempts r g s ↔ ∃ w c, Match r w c ∧ s = w ++ rest ∧ g' = c ++ g := by
  induction r generalizing g s g' rest with
  | text v =>
    rw [attempts]
    constructor
    · intro h
      split at h
      · next hprefix =>
        obtain ⟨t, rfl⟩ := hprefix
        rw [List.drop_left, List.mem_singleton, Prod.mk.injEq] at h
        obtain ⟨rfl, rfl⟩ := h
        exact ⟨v, [], .text v, rfl, rfl⟩
      · cases h
    · rintro ⟨w, c, h, rfl, rfl⟩
      obtain ⟨rfl, rfl⟩ := match_text.mp h
      rw [if_pos (List.prefix_append ..), List.drop_left, List.nil_append]
      exact List.mem_singleton_self _
  | one p =>
    cases s with
    | nil =>
      refine iff_of_false (by rw [attempts]; exact List.not_mem_nil) ?_
      rintro ⟨w, c, h, hnil, -⟩
      obtain ⟨⟨x, -, rfl⟩, -⟩ := match_one.mp h
      cases hnil
    | cons x s =>
      rw [attempts]
      constructor
      · intro h
        split at h
        · next hx =>
          obtain ⟨rfl, rfl⟩ := Prod.mk.inj (List.mem_singleton.mp h)
          exact ⟨[x], [], .one hx, rfl, rfl⟩
        · cases h
      · rintro ⟨w, c, h, hs, rfl⟩
        obtain ⟨⟨y, hy, rfl⟩, rfl⟩ := match_one.mp h
        obtain ⟨rfl, rfl⟩ := List.cons.inj hs
        rw [if_pos hy]
        exact List.mem_singleton_self _
  | plus p =>
    rw [attempts, List.mem_map]
    constructor
    · rintro ⟨k, hk, heq⟩
      obtain ⟨rfl, rfl⟩ := Prod.mk.inj heq
      rw [List.mem_reverse, List.mem_range] at hk
      have hlen : (s.takeWhile p).length ≤ s.length := (List.takeWhile_prefix p).length_le
      refine ⟨s.take (k + 1), [], .plus ?_ ((le_length_takeWhile (by omega)).mp hk), ?_, rfl⟩
      · rw [← List.length_pos_iff, List.length_take]
        omega
      · exact (List.take_append_drop _ _).symm
    · rintro ⟨w, c, h, rfl, rfl⟩
      obtain ⟨⟨hne, hall⟩, rfl⟩ := match_plus.mp h
      obtain ⟨k, hk⟩ := Nat.exists_eq_succ_of_ne_zero (Nat.ne_of_gt (List.length_pos_iff.mpr hne))
      refine ⟨k, ?_, ?_⟩
      · rw [List.mem_reverse, List.mem_range]
        refine (le_length_takeWhile (n := k + 1) ?_).mpr ?_
        · rw [List.length_append, hk]
          exact Nat.le_add_right ..
        · rwa [List.take_left' hk]
      · rw [List.drop_left' hk]
        rfl
  | cat r₁ r₂ ih₁ ih₂ =>
    rw [attempts, List.mem_flatMap]
    constructor
    · rintro ⟨⟨g₁, rest₁⟩, h₁, h₂⟩
      obtain ⟨w₁, c₁, hw₁, rfl, rfl⟩ := ih₁.mp h₁
      obtain ⟨w₂, c₂, hw₂, rfl, rfl⟩ := ih₂.mp h₂
      exact ⟨w₁ ++ w₂, c₂ ++ c₁, .cat hw₁ hw₂, (List.append_assoc ..).symm,
        (List.append_assoc ..).symm⟩
    · rintro ⟨w, c, h, rfl, rfl⟩
      obtain ⟨w₁, w₂, c₁, c₂, hw₁, hw₂, rfl, rfl⟩ := match_cat.mp h
      refine ⟨(c₁ ++ g, w₂ ++ rest), ih₁.mpr ⟨w₁, c₁, hw₁, List.append_assoc .., rfl⟩, ?_⟩
      exact ih₂.mpr ⟨w₂, c₂, hw₂, rfl, List.append_assoc ..⟩
  | alt r₁ r₂ ih₁ ih₂ =>
    rw [attempts, List.mem_append, ih₁, ih₂]
    simp only [match_alt, or_and_right, exists_or]
  | group n r ih =>
    rw [attempts, List.mem_map]
    constructor
    · rintro ⟨⟨g₁, rest₁⟩, h, heq⟩
      obtain ⟨w, c, hw, rfl, rfl⟩ := ih.mp h
      obtain ⟨rfl, rfl⟩ := Prod.mk.inj heq
      refine ⟨w, (n, w) :: c, .group hw, rfl, ?_⟩
      rw [List.length_append, Nat.add_sub_cancel, List.take_left, List.cons_append]
    · rintro ⟨w, c, h, rfl, rfl⟩
      obtain ⟨c', hw, rfl⟩ := match_group.mp h
      refine ⟨(c' ++ g, rest), ih.mpr ⟨w, c', hw, rfl, rfl⟩, ?_⟩
      rw [List.length_append, Nat.add_sub_cancel, List.take_left, List.cons_append]

theorem match_of_fullMatch (h : fullMatch r s = some g) : Match r s g := by
  obtain ⟨⟨g', rest⟩, hfind, rfl⟩ := Option.map_eq_some_iff.mp h
  have hempty := List.find?_some hfind
  have hnil : rest = [] := List.isEmpty_iff.mp hempty
  obtain ⟨w, c, hw, rfl, rfl⟩ := mem_attempts.mp (List.mem_of_find?_eq_some hfind)
  rw [hnil, List.append_nil, List.append_nil]
  exact hw

/-- **Accepted**: some attempt goes through. -/
theorem isSome_fullMatch : (fullMatch r s).isSome = true ↔ ∃ g, Match r s g := by
  constructor
  · intro h
    obtain ⟨g, hg⟩ := Option.isSome_iff_exists.mp h
    exact ⟨g, match_of_fullMatch hg⟩
  · rintro ⟨g, hg⟩
    have hmem : (g, []) ∈ attempts r [] s :=
      mem_attempts.mpr ⟨s, g, hg, (List.append_nil s).symm, (List.append_nil g).symm⟩
    rw [fullMatch, Option.isSome_map, List.find?_isSome]
    exact ⟨_, hmem, rfl⟩

/-- **The groups** of a text that matches in one way. -/
theorem fullMatch_eq_some (h : Match r s g) (hone : ∀ g', Match r s g' → g' = g) :
    fullMatch r s = some g := by
  obtain ⟨g', hg'⟩ := Option.isSome_iff_exists.mp (isSome_fullMatch.mpr ⟨g, h⟩)
  rw [hg', hone g' (match_of_fullMatch hg')]

end Regex

import Mathlib.Data.List.Basic

/-!
# Streams cut by a separator

A stream of letters with separators is a list of options, `none` the separator.
`blocks` writes blocks of letters, each closed by a separator.

* `prefix_blocks`: closed blocks and an open one that are a prefix of a stream
  of blocks are its first blocks and the beginning of the next one.
-/

namespace Blocks

variable {β : Type}

def blocks (bs : List (List β)) : List (Option β) := bs.flatMap fun b => b.map some ++ [none]

@[simp] theorem blocks_nil : blocks ([] : List (List β)) = [] := rfl

@[simp] theorem blocks_cons (b : List β) (bs : List (List β)) :
    blocks (b :: bs) = b.map some ++ none :: blocks bs := by
  simp [blocks]

@[simp] theorem blocks_append (bs cs : List (List β)) :
    blocks (bs ++ cs) = blocks bs ++ blocks cs := by
  simp [blocks]

/-- A closed block in front determines the first block. -/
theorem prefix_closed {c b : List β} {x y : List (Option β)}
    (h : c.map some ++ none :: x <+: b.map some ++ none :: y) : c = b ∧ x <+: y := by
  induction c generalizing b with
  | nil =>
    cases b with
    | nil => exact ⟨rfl, (List.cons_prefix_cons.mp h).2⟩
    | cons b bs => cases (List.cons_prefix_cons.mp h).1
  | cons c cs ih =>
    cases b with
    | nil => cases (List.cons_prefix_cons.mp h).1
    | cons b bs =>
      obtain ⟨hcb, htail⟩ := List.cons_prefix_cons.mp h
      obtain ⟨hcs, hxy⟩ := ih htail
      exact ⟨by rw [Option.some.inj hcb, hcs], hxy⟩

theorem prefix_open {o b : List β} {y : List (Option β)}
    (h : o.map some <+: b.map some ++ none :: y) : o <+: b := by
  induction o generalizing b with
  | nil => exact List.nil_prefix
  | cons o os ih =>
    cases b with
    | nil => cases (List.cons_prefix_cons.mp h).1
    | cons b bs =>
      obtain ⟨hob, htail⟩ := List.cons_prefix_cons.mp h
      exact List.cons_prefix_cons.mpr ⟨Option.some.inj hob, ih htail⟩

theorem prefix_blocks {cs bs : List (List β)} {o : List β}
    (h : blocks cs ++ o.map some <+: blocks bs) : cs <+: bs ∧ o <+: (bs[cs.length]?).getD [] := by
  induction cs generalizing bs with
  | nil =>
    cases bs with
    | nil =>
      cases o with
      | nil => exact ⟨List.nil_prefix, List.nil_prefix⟩
      | cons o os => exact absurd (List.prefix_nil.mp h) nofun
    | cons b bs =>
      rw [blocks_cons] at h
      exact ⟨List.nil_prefix, prefix_open h⟩
  | cons c cs ih =>
    cases bs with
    | nil =>
      rw [blocks_cons] at h
      simp at h
    | cons b bs =>
      rw [blocks_cons, blocks_cons, List.append_assoc, List.cons_append] at h
      obtain ⟨rfl, htail⟩ := prefix_closed h
      obtain ⟨hcs, ho⟩ := ih htail
      exact ⟨List.cons_prefix_cons.mpr ⟨rfl, hcs⟩, ho⟩

end Blocks

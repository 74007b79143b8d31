import Despotify.Pool.Runs
import Mathlib.Data.List.Basic

/-!
# Names that come before their keys

A loop reads the children of an element one after another.  A child may give a
name, under a label, and another one the key of what is named.  A name goes to
what the label stands for when the name is read (`target`); where that is
nothing yet the name is kept, and goes to the key when the key comes.

    attached s' n = [(m, name)]  ↔  the target was m, or it was nothing, the name
                                    was kept and the key m was still to come
                                                                    (attached_iff)

`Along` is a condition on every child, given what the children before it did and
which children are still to come.
-/

namespace Attribution

open Runs

/-! ## Conditions along a list -/

section
variable {L C : Type}

/-- Every child meets `P`, in the state the children before it lead to. -/
def Along (f : L → C → L) (P : L → C → List C → Prop) (l : L) (cs : List C) : Prop :=
  ∀ before c later, cs = before ++ c :: later → P (before.foldl f l) c later

theorem along_nil (f : L → C → L) (P : L → C → List C → Prop) (l : L) : Along f P l [] := by
  intro before c later h
  cases before <;> cases h

theorem along_cons {f : L → C → L} {P : L → C → List C → Prop} {l : L} {c : C} {cs : List C} :
    Along f P l (c :: cs) ↔ P l c cs ∧ Along f P (f l c) cs := by
  constructor
  · intro h
    refine ⟨h [] c cs rfl, fun before d later hcs => ?_⟩
    exact h (c :: before) d later (congrArg (c :: ·) hcs)
  · rintro ⟨hc, hcs⟩ before d later h
    cases before with
    | nil =>
      cases h
      exact hc
    | cons b before =>
      cases h
      exact hcs before d later rfl

theorem along_and {f : L → C → L} {P Q : L → C → List C → Prop} {l : L} {cs : List C} :
    Along f (fun l c later => P l c later ∧ Q l c later) l cs ↔ Along f P l cs ∧ Along f Q l cs := by
  constructor
  · intro h
    exact ⟨fun before c later hcs => (h before c later hcs).1,
      fun before c later hcs => (h before c later hcs).2⟩
  · rintro ⟨hP, hQ⟩ before c later hcs
    exact ⟨hP before c later hcs, hQ before c later hcs⟩

/-- The only element of a list with a property splits it in one way. -/
theorem split_unique {P : C → Bool} {before later before' later' : List C} {c c' : C}
    (h : before ++ c :: later = before' ++ c' :: later') (hbefore : ∀ d ∈ before, P d = false)
    (hlater : ∀ d ∈ later, P d = false) (hc' : P c' = true) : before' = before := by
  induction before generalizing before' with
  | nil =>
    cases before' with
    | nil => rfl
    | cons b before' =>
      cases h
      have hno := hlater c' (List.mem_append_right _ List.mem_cons_self)
      exact absurd (hno.symm.trans hc') Bool.false_ne_true
  | cons d before ih =>
    obtain ⟨hd, hrest⟩ := List.forall_mem_cons.mp hbefore
    cases before' with
    | nil =>
      cases h
      exact absurd (hd.symm.trans hc') Bool.false_ne_true
    | cons b before' =>
      rw [List.cons_append, List.cons_append, List.cons.injEq] at h
      obtain ⟨rfl, h⟩ := h
      rw [ih h hrest]

end

/-! ## The loop -/

structure Loop (S C N M T : Type) where
  step : S → C → Option S
  /-- the names attached so far under a label, each with what it went to -/
  attached : S → N → List (M × T)
  /-- a name that waits for its key -/
  kept : S → N → Option T
  /-- what a name under the label goes to now -/
  target : S → N → Option M
  /-- the label of a name, the name itself, and what of it is kept -/
  gives : C → Option (N × T × Option T)
  /-- a key, and the label it is the key of -/
  keys : C → Option (N × M)
  kept_eq : ∀ {c n name keep}, gives c = some (n, name, keep) → keep = none ∨ keep = some name
  quiet : ∀ {s s' c n}, step s c = some s' → (∀ x, gives c ≠ some (n, x)) →
    (kept s n = none ∨ ∀ m, keys c ≠ some (n, m)) →
    attached s' n = attached s n ∧ kept s' n = kept s n
  flush : ∀ {s s' c n m name}, step s c = some s' → keys c = some (n, m) → kept s n = some name →
    attached s' n = attached s n ++ [(m, name)] ∧ kept s' n = none
  found : ∀ {s s' c n name keep m}, step s c = some s' → gives c = some (n, name, keep) →
    target s n = some m → attached s' n = attached s n ++ [(m, name)] ∧ kept s' n = kept s n
  missed : ∀ {s s' c n name keep}, step s c = some s' → gives c = some (n, name, keep) →
    target s n = none → attached s' n = attached s n ∧ kept s' n = keep

namespace Loop

variable {S C N M T : Type} (loop : Loop S C N M T) {s s₁ s₂ s' : S} {n : N} {cs before later : List C}
  {c : C}

/-- No child gives a name under the label. -/
def Silent (n : N) (cs : List C) : Prop := ∀ c ∈ cs, ∀ x, loop.gives c ≠ some (n, x)

theorem attached_quiet (h : exec loop.step s cs = some s') (hsilent : loop.Silent n cs)
    (hkeys : loop.kept s n = none ∨ ∀ c ∈ cs, ∀ m, loop.keys c ≠ some (n, m)) :
    loop.attached s' n = loop.attached s n ∧ loop.kept s' n = loop.kept s n := by
  induction cs generalizing s with
  | nil =>
    cases h
    exact ⟨rfl, rfl⟩
  | cons c cs ih =>
    obtain ⟨hc, hcs⟩ := List.forall_mem_cons.mp hsilent
    obtain ⟨t, hs, ht⟩ := exec_cons_eq_some.mp h
    have hkey : loop.kept s n = none ∨ ∀ m, loop.keys c ≠ some (n, m) :=
      hkeys.imp_right fun hall => hall c List.mem_cons_self
    obtain ⟨hattached, hkept⟩ := loop.quiet hs hc hkey
    have hrest : loop.kept t n = none ∨ ∀ c ∈ cs, ∀ m, loop.keys c ≠ some (n, m) := by
      rw [hkept]
      exact hkeys.imp_right fun hall d hd => hall d (List.mem_cons_of_mem _ hd)
    obtain ⟨hattached', hkept'⟩ := ih ht hcs hrest
    exact ⟨hattached'.trans hattached, hkept'.trans hkept⟩

/-- A kept name goes to the key that comes. -/
theorem attached_kept {name : T} {m : M} (h : exec loop.step s cs = some s')
    (hsilent : loop.Silent n cs) (hkept : loop.kept s n = some name)
    (hall : ∀ c ∈ cs, ∀ m', loop.keys c = some (n, m') → m' = m)
    (hkey : ∃ c ∈ cs, loop.keys c = some (n, m)) :
    loop.attached s' n = loop.attached s n ++ [(m, name)] := by
  induction cs generalizing s with
  | nil =>
    obtain ⟨c, hc, -⟩ := hkey
    cases hc
  | cons c cs ih =>
    obtain ⟨hc, hcs⟩ := List.forall_mem_cons.mp hsilent
    obtain ⟨t, hs, ht⟩ := exec_cons_eq_some.mp h
    by_cases hthis : loop.keys c = some (n, m)
    · obtain ⟨hattached, hnone⟩ := loop.flush hs hthis hkept
      exact (loop.attached_quiet ht hcs (Or.inl hnone)).1.trans hattached
    · have hother : ∀ m', loop.keys c ≠ some (n, m') := by
        rintro m' hm'
        cases hall c List.mem_cons_self m' hm'
        exact hthis hm'
      obtain ⟨hattached, hkept'⟩ := loop.quiet hs hc (Or.inr hother)
      have hlater : ∃ c ∈ cs, loop.keys c = some (n, m) := by
        obtain ⟨d, hd, hkey⟩ := hkey
        rcases List.mem_cons.mp hd with rfl | hd
        · exact absurd hkey hthis
        · exact ⟨d, hd, hkey⟩
      rw [← hattached]
      exact ih ht hcs (hkept'.trans hkept) (fun d hd => hall d (List.mem_cons_of_mem _ hd)) hlater

/-- Without a name under the label, nothing is attached under it. -/
theorem attached_silent (h : exec loop.step s cs = some s') (hsilent : loop.Silent n cs)
    (hnone : loop.kept s n = none) : loop.attached s' n = loop.attached s n :=
  (loop.attached_quiet h hsilent (Or.inl hnone)).1

/-- What becomes of the only name under a label. -/
theorem attached_iff {name : T} {keep : Option T} {key : Option M}
    (hbefore : exec loop.step s before = some s₁) (hs : loop.step s₁ c = some s₂)
    (hlater : exec loop.step s₂ later = some s')
    (hstart : loop.attached s n = [] ∧ loop.kept s n = none)
    (hgives : loop.gives c = some (n, name, keep))
    (hsilent : loop.Silent n before ∧ loop.Silent n later)
    (hkeys : ∀ d ∈ later, ∀ m, loop.keys d = some (n, m) → key = some m) :
    loop.attached s' n = (key.map (·, name)).toList ↔
      (∀ m, loop.target s₁ n = some m → key = some m) ∧
        (loop.target s₁ n = none → ∀ m, key = some m →
          keep = some name ∧ ∃ d ∈ later, loop.keys d = some (n, m)) := by
  obtain ⟨hattached, hkept⟩ := loop.attached_quiet hbefore hsilent.1 (Or.inl hstart.2)
  rw [hstart.1] at hattached
  rw [hstart.2] at hkept
  cases htarget : loop.target s₁ n with
  | some m =>
    obtain ⟨hattached₂, hkept₂⟩ := loop.found hs hgives htarget
    have hend := loop.attached_silent hlater hsilent.2 (hkept₂.trans hkept)
    rw [hend, hattached₂, hattached, List.nil_append]
    constructor
    · intro h
      refine ⟨fun m' hm' => ?_, fun hnone => ?_⟩
      · cases hm'
        cases key with
        | none => cases h
        | some k =>
          cases h
          rfl
      · cases hnone
    · rintro ⟨hkey, -⟩
      rw [hkey m rfl]
      rfl
  | none =>
    obtain ⟨hattached₂, hkept₂⟩ := loop.missed hs hgives htarget
    rw [hattached] at hattached₂
    have hlost : (keep = none ∨ ∀ d ∈ later, ∀ m, loop.keys d ≠ some (n, m)) →
        loop.attached s' n = [] := by
      intro hcase
      rw [← hkept₂] at hcase
      exact (loop.attached_quiet hlater hsilent.2 hcase).1.trans hattached₂
    constructor
    · intro h
      refine ⟨fun m hm => ?_, fun _ m hm => ?_⟩
      · cases hm
      rw [hm] at h
      have hne : loop.attached s' n ≠ [] := by
        rw [h]
        exact List.cons_ne_nil _ _
      refine ⟨?_, ?_⟩
      · exact (loop.kept_eq hgives).resolve_left fun hnone => hne (hlost (Or.inl hnone))
      · by_contra hno
        refine hne (hlost (Or.inr fun d hd m' hm' => hno ⟨d, hd, ?_⟩))
        have hsame := hkeys d hd m' hm'
        rw [hm] at hsame
        cases hsame
        exact hm'
    · rintro ⟨-, hkey⟩
      cases key with
      | none =>
        refine hlost (Or.inr fun d hd m hm => ?_)
        cases hkeys d hd m hm
      | some m =>
        obtain ⟨hkeep, hcomes⟩ := hkey rfl m rfl
        rw [hkeep] at hkept₂
        have hall : ∀ d ∈ later, ∀ m', loop.keys d = some (n, m') → m' = m := by
          intro d hd m' hm'
          exact (Option.some.inj (hkeys d hd m' hm')).symm
        rw [loop.attached_kept hlater hsilent.2 hkept₂ hall hcomes, hattached₂]
        rfl

/-! ## All the names -/

/-- A name finds what it names as its target; or nothing yet, and then it is kept and its key
is still to come. -/
def Settled (gives : C → Option (N × T × Option T)) (keys : C → Option (N × M))
    (key target : N → Option M) (c : C) (later : List C) : Prop :=
  ∀ n name keep, gives c = some (n, name, keep) →
    (∀ m, target n = some m → key n = some m) ∧
      (target n = none → ∀ m, key n = some m →
        keep = some name ∧ ∃ d ∈ later, keys d = some (n, m))

/-- The children give at most one name under each label, and the keys `key`. -/
structure Given (cs : List C) (key : N → Option M) (expected : N → List (M × T)) : Prop where
  once : ∀ before c later n x, cs = before ++ c :: later → loop.gives c = some (n, x) →
    loop.Silent n before ∧ loop.Silent n later
  key_eq : ∀ d ∈ cs, ∀ n m, loop.keys d = some (n, m) → key n = some m
  expected_eq : ∀ c ∈ cs, ∀ n name keep, loop.gives c = some (n, name, keep) →
    expected n = ((key n).map (·, name)).toList
  expected_nil : ∀ n, loop.Silent n cs → expected n = []

variable {loop} {key : N → Option M} {expected : N → List (M × T)}

theorem Given.attached_iff_along {L : Type} (f : L → C → L) (targetAt : L → N → Option M) {l : L}
    (hgiven : loop.Given cs key expected) (h : exec loop.step s cs = some s')
    (hstart : ∀ n, loop.attached s n = [] ∧ loop.kept s n = none)
    (htarget : ∀ before later t, cs = before ++ later → exec loop.step s before = some t →
      loop.target t = targetAt (before.foldl f l)) :
    (∀ n, loop.attached s' n = expected n) ↔
      Along f (fun l => Settled loop.gives loop.keys key (targetAt l)) l cs := by
  -- the names under one label, at the child that gives one
  have hone : ∀ before c later n name keep, cs = before ++ c :: later →
      loop.gives c = some (n, name, keep) → ∃ t : S,
        loop.target t = targetAt (before.foldl f l) ∧ (loop.attached s' n = expected n ↔
          (∀ m, loop.target t n = some m → key n = some m) ∧
            (loop.target t n = none → ∀ m, key n = some m →
              keep = some name ∧ ∃ d ∈ later, loop.keys d = some (n, m))) := by
    intro before c later n name keep hcs hc
    have hmem : c ∈ cs := by
      rw [hcs]
      exact List.mem_append_right _ List.mem_cons_self
    have hrun := h
    rw [hcs, exec_append, Option.bind_eq_some_iff] at hrun
    obtain ⟨t, hbefore, hrest⟩ := hrun
    obtain ⟨t', hs, hlater⟩ := exec_cons_eq_some.mp hrest
    refine ⟨t, htarget before (c :: later) t hcs hbefore, ?_⟩
    rw [hgiven.expected_eq c hmem n name keep hc]
    refine loop.attached_iff hbefore hs hlater (hstart n) hc
      (hgiven.once before c later n _ hcs hc) fun d hd m hm => hgiven.key_eq d ?_ n m hm
    rw [hcs]
    exact List.mem_append_right _ (List.mem_cons_of_mem _ hd)
  constructor
  · intro hall before c later hcs n name keep hc
    obtain ⟨t, ht, hiff⟩ := hone before c later n name keep hcs hc
    rw [← ht]
    exact hiff.mp (hall n)
  · intro hall n
    by_cases hsilent : loop.Silent n cs
    · rw [hgiven.expected_nil n hsilent, loop.attached_silent h hsilent (hstart n).2]
      exact (hstart n).1
    · unfold Silent at hsilent
      push Not at hsilent
      obtain ⟨c, hc, ⟨name, keep⟩, hgives⟩ := hsilent
      obtain ⟨before, later, hcs⟩ := List.append_of_mem hc
      obtain ⟨t, ht, hiff⟩ := hone before c later n name keep hcs hgives
      rw [hiff, ht]
      exact hall before c later hcs n name keep hgives

/-- A list that holds one name under a label holds no other. -/
theorem silent_of_countP [DecidableEq N] {x : T × Option T}
    (hone : cs.countP (fun d => (loop.gives d).map Prod.fst = some n) ≤ 1)
    (hcs : cs = before ++ c :: later) (hc : loop.gives c = some (n, x)) :
    loop.Silent n before ∧ loop.Silent n later := by
  have hthis : (loop.gives c).map Prod.fst = some n := by
    rw [hc]
    rfl
  rw [hcs, List.countP_append, List.countP_cons_of_pos (by simpa using hthis)] at hone
  have hnone : ∀ ds : List C, ds.countP (fun d => (loop.gives d).map Prod.fst = some n) = 0 →
      loop.Silent n ds := by
    intro ds hds d hd y hy
    refine List.countP_eq_zero.mp hds d hd ?_
    simp [hy]
  exact ⟨hnone before (by omega), hnone later (by omega)⟩

/-- Children in some order give what they give in another one. -/
theorem given_of_perm [DecidableEq N] {children : List C} {nameOf : N → Option T}
    (hperm : cs.Perm children)
    (hone : ∀ n, children.countP (fun d => (loop.gives d).map Prod.fst = some n) ≤ 1)
    (hkey : ∀ c ∈ children, ∀ n m, loop.keys c = some (n, m) → key n = some m)
    (hname : ∀ c ∈ children, ∀ n name keep, loop.gives c = some (n, name, keep) →
      nameOf n = some name)
    (hgives : ∀ n name, nameOf n = some name →
      ∃ c ∈ children, ∃ keep, loop.gives c = some (n, name, keep)) :
    loop.Given cs key fun n => ((key n).bind fun m => (nameOf n).map (m, ·)).toList where
  once before c later n x hcs hc := by
    refine silent_of_countP ?_ hcs hc
    rw [hperm.countP_eq]
    exact hone n
  key_eq c hc n m hkeys := hkey c (hperm.mem_iff.mp hc) n m hkeys
  expected_eq c hc n name keep hc' := by
    rw [hname c (hperm.mem_iff.mp hc) n name keep hc']
    cases key n <;> rfl
  expected_nil n hsilent := by
    cases hn : nameOf n with
    | none => cases key n <;> rfl
    | some name =>
      obtain ⟨c, hc, keep, hc'⟩ := hgives n name hn
      exact absurd hc' (hsilent c (hperm.mem_iff.mpr hc) _)

end Loop

end Attribution

import Despotify.Pool.Chain
import Mathlib.Data.List.Perm.Subperm

/-!
# The addresses of a linked list

Code that writes values through pointers and leaves the links alone keeps the
list of addresses it walks over.

* `Spine h p as`: from `p` on the nodes are at the addresses `as`.
* `Spine.nodup`, `Spine.unique`: the addresses are distinct, and there is one such list.
* `Spine.modify`: writing a value keeps it.
* `Mem`: a heap with addresses left to hand out.
* `Spine.link`, `Spine.append`: a list, or a new node, linked behind the last one.
* `Spine.pop`, `Spine.unlink`: the first node freed, or one behind another.
* `Keeps`, `Writes`: every node is as it was, or has its link.
* `findNode_eq`, `lastNode_eq`, `walk_eq`: the walks, over the addresses.
-/

namespace Linked

variable {α : Type}

abbrev Heap (α : Type) := Nat → Option (Node α)

/-- The nodes from `p` on are at these addresses. -/
def Spine (h : Heap α) : Option Nat → List Nat → Prop
  | p, [] => p = none
  | p, a :: as => p = some a ∧ ∃ v q, h a = some ⟨v, q⟩ ∧ Spine h q as

/-- The value at an address meets `P`. -/
def At (P : α → Prop) (h : Heap α) (a : Nat) : Prop := ∃ n, h a = some n ∧ P n.val

instance (P : α → Prop) [DecidablePred P] (h : Heap α) (a : Nat) : Decidable (At P h a) :=
  match hn : h a with
  | none => isFalse fun ⟨_, h', _⟩ => nomatch hn.symm.trans h'
  | some n => decidable_of_iff (P n.val)
      ⟨fun hp => ⟨n, hn, hp⟩, fun ⟨_, h', hp⟩ => by cases hn.symm.trans h'; exact hp⟩

variable {h h' : Heap α} {p q : Option Nat} {as bs : List Nat} {P : α → Prop}

theorem at_iff {a : Nat} {n : Node α} (hn : h a = some n) : At P h a ↔ P n.val := by
  constructor
  · rintro ⟨n', hn', hp⟩
    cases hn.symm.trans hn'
    exact hp
  · intro hp
    exact ⟨n, hn, hp⟩

theorem Spine.unique (hs : Spine h p as) (ht : Spine h p bs) : as = bs := by
  induction as generalizing p bs with
  | nil =>
    cases hs
    cases bs with
    | nil => rfl
    | cons b bs => cases ht.1
  | cons a as ih =>
    obtain ⟨rfl, v, q, ha, hs⟩ := hs
    cases bs with
    | nil => cases ht
    | cons b bs =>
      obtain ⟨hab, v', q', hb, ht⟩ := ht
      cases hab
      cases ha.symm.trans hb
      rw [ih hs ht]

/-- The list from one of its nodes on. -/
theorem Spine.of_append (hs : Spine h p (bs ++ as)) : ∃ q, Spine h q as := by
  induction bs generalizing p with
  | nil => exact ⟨p, hs⟩
  | cons b bs ih =>
    obtain ⟨-, v, q, hb, hs⟩ := hs
    exact ih hs

theorem Spine.nodup (hs : Spine h p as) : as.Nodup := by
  induction as generalizing p with
  | nil => exact List.nodup_nil
  | cons a as ih =>
    obtain ⟨hp, v, q, ha, htail⟩ := hs
    refine List.nodup_cons.mpr ⟨fun hmem => ?_, ih htail⟩
    obtain ⟨s, t, rfl⟩ := List.append_of_mem hmem
    obtain ⟨q', ht⟩ := htail.of_append
    have hq' : q' = some a := ht.1
    subst hq'
    -- the list from `a` on would be a proper part of itself
    have hall : Spine h (some a) (a :: (s ++ a :: t)) := ⟨rfl, v, q, ha, htail⟩
    have hlen := congrArg List.length (hall.unique ht)
    simp only [List.length_cons, List.length_append] at hlen
    omega

theorem Spine.node (hs : Spine h p as) {a : Nat} (ha : a ∈ as) : ∃ n, h a = some n := by
  induction as generalizing p with
  | nil => cases ha
  | cons b as ih =>
    obtain ⟨-, v, q, hb, hs⟩ := hs
    rcases List.mem_cons.mp ha with rfl | ha
    · exact ⟨_, hb⟩
    · exact ih hs ha

/-- Only the links matter. -/
theorem Spine.frame (hs : Spine h p as)
    (heq : ∀ a ∈ as, (h' a).map Node.next = (h a).map Node.next) : Spine h' p as := by
  induction as generalizing p with
  | nil => exact hs
  | cons a as ih =>
    obtain ⟨hp, v, q, ha, hs⟩ := hs
    obtain ⟨heqa, heqs⟩ := List.forall_mem_cons.mp heq
    rw [ha, Option.map_some, Option.map_eq_some_iff] at heqa
    obtain ⟨⟨w, q'⟩, ha', hq⟩ := heqa
    cases hq
    exact ⟨hp, w, q, ha', ih hs heqs⟩

/-! ## Writing a value -/

/-- `*a = f (*a)`, the link left as it is. -/
def modify (h : Heap α) (a : Nat) (f : α → α) : Heap α :=
  Function.update h a ((h a).map fun n => { n with val := f n.val })

theorem modify_self {a : Nat} {f : α → α} {n : Node α} (hn : h a = some n) :
    modify h a f a = some ⟨f n.val, n.next⟩ := by
  rw [modify, Function.update_self, hn]
  rfl

theorem modify_of_ne {a b : Nat} {f : α → α} (hne : b ≠ a) : modify h a f b = h b :=
  Function.update_of_ne hne _ _

theorem modify_modify (a : Nat) (f g : α → α) :
    modify (modify h a f) a g = modify h a fun v => g (f v) := by
  funext b
  by_cases hb : b = a
  · subst hb
    rw [modify, modify, modify, Function.update_self, Function.update_self, Function.update_self,
      Option.map_map]
    rfl
  · rw [modify_of_ne hb, modify_of_ne hb, modify_of_ne hb]

theorem modify_next (a b : Nat) (f : α → α) :
    (modify h a f b).map Node.next = (h b).map Node.next := by
  by_cases hb : b = a
  · subst hb
    rw [modify, Function.update_self, Option.map_map]
    rfl
  · rw [modify_of_ne hb]

theorem Spine.modify (hs : Spine h p as) (a : Nat) (f : α → α) : Spine (modify h a f) p as :=
  hs.frame fun b _ => modify_next a b f

theorem at_modify_self {a : Nat} {f : α → α} {n : Node α} (hn : h a = some n) :
    At P (Linked.modify h a f) a ↔ P (f n.val) :=
  at_iff (modify_self hn)

theorem at_modify_of_ne {a b : Nat} {f : α → α} (hne : b ≠ a) :
    At P (Linked.modify h a f) b ↔ At P h b := by
  rw [At, At, modify_of_ne hne]

/-- A value that comes to meet `P` is one more that does. -/
theorem countP_modify [DecidablePred P] {l : List Nat} (hl : l.Nodup) {a : Nat} (ha : a ∈ l)
    {f : α → α} {n : Node α} (hn : h a = some n) (hbefore : ¬ P n.val) (hafter : P (f n.val)) :
    (l.countP fun b => decide (At P (Linked.modify h a f) b)) =
      (l.countP fun b => decide (At P h b)) + 1 := by
  induction l with
  | nil => cases ha
  | cons b l ih =>
    obtain ⟨hb, hl⟩ := List.nodup_cons.mp hl
    rw [List.countP_cons, List.countP_cons]
    rcases List.mem_cons.mp ha with rfl | ha
    · have hrest : (l.countP fun b => decide (At P (Linked.modify h a f) b)) =
          l.countP fun b => decide (At P h b) := by
        refine List.countP_congr fun c hc => ?_
        have hca : c ≠ a := by
          rintro rfl
          exact hb hc
        rw [decide_eq_true_eq, decide_eq_true_eq, at_modify_of_ne hca]
      rw [hrest, decide_eq_true ((at_modify_self hn).mpr hafter),
        decide_eq_false fun h' => hbefore ((at_iff hn).mp h')]
      rfl
    · have hba : b ≠ a := by
        rintro rfl
        exact hb ha
      rw [ih hl ha]
      simp only [at_modify_of_ne hba]
      omega

/-! ## Memory -/

/-- A heap whose addresses from `brk` on have not been handed out. -/
structure Mem (α : Type) where
  heap : Heap α
  brk : Nat
  fresh : ∀ a, brk ≤ a → heap a = none

namespace Mem

def empty : Mem α := ⟨fun _ => none, 0, fun _ _ => rfl⟩

/-- A new node with this value. -/
def alloc (m : Mem α) (v : α) : Mem α where
  heap := Function.update m.heap m.brk (some ⟨v, none⟩)
  brk := m.brk + 1
  fresh := by
    intro a ha
    rw [Function.update_of_ne (by omega)]
    exact m.fresh a (by omega)

def modify (m : Mem α) (a : Nat) (f : α → α) : Mem α where
  heap := Linked.modify m.heap a f
  brk := m.brk
  fresh := by
    intro b hb
    have hnone := m.fresh b hb
    by_cases hba : b = a
    · subst hba
      rw [Linked.modify, Function.update_self, hnone]
      rfl
    · rw [modify_of_ne hba, hnone]

/-- `a->next = q`. -/
def link (m : Mem α) (a : Nat) (q : Option Nat) : Mem α where
  heap := Function.update m.heap a ((m.heap a).map fun n => { n with next := q })
  brk := m.brk
  fresh := by
    intro b hb
    have hnone := m.fresh b hb
    by_cases hba : b = a
    · subst hba
      rw [Function.update_self, hnone]
      rfl
    · rw [Function.update_of_ne hba, hnone]

/-- `free (a)`. -/
def free (m : Mem α) (a : Nat) : Mem α where
  heap := Function.update m.heap a none
  brk := m.brk
  fresh := by
    intro b hb
    by_cases hba : b = a
    · subst hba
      exact Function.update_self _ _ _
    · rw [Function.update_of_ne hba]
      exact m.fresh b hb

@[simp] theorem alloc_brk_eq (m : Mem α) (v : α) : (m.alloc v).brk = m.brk + 1 := rfl

@[simp] theorem modify_brk (m : Mem α) (a : Nat) (f : α → α) : (m.modify a f).brk = m.brk := rfl

@[simp] theorem link_brk (m : Mem α) (a : Nat) (q : Option Nat) : (m.link a q).brk = m.brk := rfl

@[simp] theorem free_brk (m : Mem α) (a : Nat) : (m.free a).brk = m.brk := rfl

theorem modify_self {m : Mem α} {a : Nat} {f : α → α} {n : Node α} (hn : m.heap a = some n) :
    (m.modify a f).heap a = some ⟨f n.val, n.next⟩ := Linked.modify_self hn

theorem modify_of_ne {m : Mem α} {a b : Nat} {f : α → α} (hne : b ≠ a) :
    (m.modify a f).heap b = m.heap b := Linked.modify_of_ne hne

theorem free_of_ne {m : Mem α} {a b : Nat} (hne : b ≠ a) : (m.free a).heap b = m.heap b :=
  Function.update_of_ne hne _ _

@[simp] theorem modify_heap (m : Mem α) (a : Nat) (f : α → α) :
    (m.modify a f).heap = Linked.modify m.heap a f := rfl

theorem alloc_of_ne {m : Mem α} {v : α} {a : Nat} (ha : a ≠ m.brk) :
    (m.alloc v).heap a = m.heap a := Function.update_of_ne ha _ _

theorem alloc_brk {m : Mem α} {v : α} : (m.alloc v).heap m.brk = some ⟨v, none⟩ :=
  Function.update_self _ _ _

theorem link_of_ne {m : Mem α} {q : Option Nat} {a b : Nat} (hne : b ≠ a) :
    (m.link a q).heap b = m.heap b := Function.update_of_ne hne _ _

theorem link_self {m : Mem α} {q : Option Nat} {a : Nat} {n : Node α} (hn : m.heap a = some n) :
    (m.link a q).heap a = some ⟨n.val, q⟩ := by
  refine (Function.update_self _ _ _).trans ?_
  rw [hn]
  rfl

/-- Links are not values. -/
theorem link_val (m : Mem α) (a b : Nat) (q : Option Nat) :
    ((m.link a q).heap b).map Node.val = (m.heap b).map Node.val := by
  by_cases hb : b = a
  · subst hb
    have hself : (m.link b q).heap b = (m.heap b).map fun n => { n with next := q } :=
      Function.update_self _ _ _
    rw [hself, Option.map_map]
    rfl
  · rw [link_of_ne hb]

end Mem

theorem Spine.modifyMem {m : Mem α} (hs : Spine m.heap p as) (a : Nat) (f : α → α) :
    Spine (m.modify a f).heap p as := hs.modify a f

/-- The addresses of a list are below `brk`. -/
theorem Spine.lt_brk {m : Mem α} (hs : Spine m.heap p as) {a : Nat} (ha : a ∈ as) : a < m.brk := by
  obtain ⟨n, hn⟩ := hs.node ha
  by_contra hge
  rw [m.fresh a (by omega)] at hn
  cases hn

theorem Spine.alloc {m : Mem α} (hs : Spine m.heap p as) (v : α) :
    Spine (m.alloc v).heap p as := by
  refine hs.frame fun a ha => ?_
  rw [Mem.alloc_of_ne (Nat.ne_of_lt (hs.lt_brk ha))]

theorem Spine.free {m : Mem α} (hs : Spine m.heap p as) {a : Nat} (ha : a ∉ as) :
    Spine (m.free a).heap p as := by
  refine hs.frame fun b hb => ?_
  have hba : b ≠ a := by
    rintro rfl
    exact ha hb
  rw [Mem.free_of_ne hba]

/-- A list linked behind the last node of another. -/
theorem Spine.link {m : Mem α} {e : Nat} (hs : Spine m.heap p (as ++ [e]))
    (hq : Spine m.heap q bs) (he : e ∉ bs) : Spine (m.link e q).heap p (as ++ [e] ++ bs) := by
  have hnodup := hs.nodup
  induction as generalizing p with
  | nil =>
    obtain ⟨hp, v, r, hv, -⟩ := hs
    refine ⟨hp, v, q, Mem.link_self hv, hq.frame fun b hb => ?_⟩
    have hbe : b ≠ e := by
      rintro rfl
      exact he hb
    rw [Mem.link_of_ne hbe]
  | cons a as ih =>
    obtain ⟨hp, v, r, ha, hs⟩ := hs
    obtain ⟨hane, hnodup⟩ := List.nodup_cons.mp hnodup
    have hae : a ≠ e := by
      rintro rfl
      exact hane (List.mem_append_right _ List.mem_cons_self)
    refine ⟨hp, v, r, ?_, ih hs hnodup⟩
    rw [Mem.link_of_ne hae, ha]

/-- A new node linked behind the last one. -/
theorem Spine.append {m : Mem α} {e : Nat} (hs : Spine m.heap p (as ++ [e])) (v : α) :
    Spine ((m.alloc v).link e (some m.brk)).heap p (as ++ [e] ++ [m.brk]) := by
  refine (hs.alloc v).link ⟨rfl, v, none, Mem.alloc_brk, rfl⟩ fun hmem => ?_
  have hlt := hs.lt_brk (List.mem_append_right as (List.mem_singleton_self e))
  rw [List.mem_singleton.mp hmem] at hlt
  exact Nat.lt_irrefl _ hlt

/-- There are no more of them than addresses handed out. -/
theorem Spine.length_le {m : Mem α} (hs : Spine m.heap p as) : as.length ≤ m.brk := by
  have hsub : as ⊆ List.range m.brk := fun a ha => List.mem_range.mpr (hs.lt_brk ha)
  have hlen := (hs.nodup.subperm hsub).length_le
  rwa [List.length_range] at hlen

/-- The list behind its first node. -/
theorem Spine.tail {a : Nat} {n : Node α} (hs : Spine h p (a :: as)) (hn : h a = some n) :
    Spine h n.next as := by
  obtain ⟨-, v, q, ha, ht⟩ := hs
  cases hn.symm.trans ha
  exact ht

/-- The list behind one of its nodes. -/
theorem Spine.next {a : Nat} {n : Node α} (hs : Spine h p (bs ++ a :: as)) (hn : h a = some n) :
    Spine h n.next as := by
  obtain ⟨q, hq⟩ := hs.of_append
  exact hq.tail hn

/-- The first node is freed. -/
theorem Spine.pop {m : Mem α} {a : Nat} {n : Node α} (hs : Spine m.heap p (a :: as))
    (hn : m.heap a = some n) : Spine (m.free a).heap n.next as :=
  (hs.tail hn).free (List.nodup_cons.mp hs.nodup).1

/-- `e->next = a->next; free (a)` -/
theorem Spine.unlink {m : Mem α} {e a : Nat} {n : Node α} (hs : Spine m.heap p (as ++ e :: a :: bs))
    (hn : m.heap a = some n) : Spine ((m.link e n.next).free a).heap p (as ++ e :: bs) := by
  have hnodup := hs.nodup
  induction as generalizing p with
  | nil =>
    obtain ⟨hp, v, q, he, hq⟩ := hs
    obtain ⟨hne, hnodup⟩ := List.nodup_cons.mp hnodup
    obtain ⟨heb, hab⟩ := List.ne_and_not_mem_of_not_mem_cons hne
    refine ⟨hp, v, n.next, ?_, (hq.tail hn).frame fun b hb => ?_⟩
    · rw [Mem.free_of_ne heb, Mem.link_self he]
    · have hba : b ≠ a := by
        rintro rfl
        exact (List.nodup_cons.mp hnodup).1 hb
      have hbe : b ≠ e := by
        rintro rfl
        exact hab hb
      rw [Mem.free_of_ne hba, Mem.link_of_ne hbe]
  | cons c as ih =>
    obtain ⟨hp, v, q, hc, hq⟩ := hs
    obtain ⟨hne, hnodup⟩ := List.nodup_cons.mp hnodup
    refine ⟨hp, v, q, ?_, ih hq hnodup⟩
    have hca : c ≠ a := by
      rintro rfl
      exact hne (by simp)
    have hce : c ≠ e := by
      rintro rfl
      exact hne (by simp)
    rw [Mem.free_of_ne hca, Mem.link_of_ne hce, hc]

/-! ## What is still there -/

/-- Every node is as it was. -/
def Keeps (h h' : Heap α) : Prop := ∀ a n, h a = some n → h' a = some n

namespace Keeps

theorem refl (h : Heap α) : Keeps h h := fun _ _ hn => hn

theorem trans {h'' : Heap α} (hk : Keeps h h') (hk' : Keeps h' h'') : Keeps h h'' :=
  fun a n hn => hk' a n (hk a n hn)

theorem spine (hk : Keeps h h') (hs : Spine h p as) : Spine h' p as := by
  refine hs.frame fun a ha => ?_
  obtain ⟨n, hn⟩ := hs.node ha
  rw [hk a n hn, hn]

/-- Changes at addresses that were not in use. -/
theorem of_frame {h'' : Heap α} (hk : Keeps h h') (as : List Nat) (hframe : ∀ a, a ∉ as → h'' a = h' a)
    (hnew : ∀ a ∈ as, h a = none) : Keeps h h'' := by
  intro a n hn
  have ha : a ∉ as := by
    intro ha
    rw [hnew a ha] at hn
    cases hn
  rw [hframe a ha]
  exact hk a n hn

variable {m : Mem α}

theorem alloc (hk : Keeps h m.heap) (v : α) : Keeps h (m.alloc v).heap := by
  intro a n hn
  have hne : a ≠ m.brk := by
    rintro rfl
    have hfresh := m.fresh m.brk (Nat.le_refl _)
    rw [hk _ n hn] at hfresh
    cases hfresh
  rw [Mem.alloc_of_ne hne]
  exact hk a n hn

theorem modify {a : Nat} (hk : Keeps h m.heap) (ha : h a = none) (f : α → α) :
    Keeps h (m.modify a f).heap :=
  hk.of_frame [a] (fun _ hb => Mem.modify_of_ne fun h => hb (List.mem_singleton.mpr h))
    fun b hb => by rw [List.mem_singleton.mp hb, ha]

theorem link {a : Nat} (hk : Keeps h m.heap) (ha : h a = none) (q : Option Nat) :
    Keeps h (m.link a q).heap :=
  hk.of_frame [a] (fun _ hb => Mem.link_of_ne fun h => hb (List.mem_singleton.mpr h))
    fun b hb => by rw [List.mem_singleton.mp hb, ha]

theorem free {a : Nat} (hk : Keeps h m.heap) (ha : h a = none) : Keeps h (m.free a).heap :=
  hk.of_frame [a] (fun _ hb => Mem.free_of_ne fun h => hb (List.mem_singleton.mpr h))
    fun b hb => by rw [List.mem_singleton.mp hb, ha]

/-- An address handed out now was not in use before. -/
theorem brk_none (hk : Keeps h m.heap) : h m.brk = none := by
  cases hb : h m.brk with
  | none => rfl
  | some n =>
    have hfresh := m.fresh m.brk (Nat.le_refl _)
    rw [hk _ n hb] at hfresh
    cases hfresh

end Keeps

/-- Only values at the addresses `as` have been written. -/
structure Writes (as : List Nat) (h h' : Heap α) : Prop where
  links : ∀ a, (h' a).map Node.next = (h a).map Node.next
  others : ∀ a, a ∉ as → h' a = h a

namespace Writes

theorem refl (as : List Nat) (h : Heap α) : Writes as h h := ⟨fun _ => rfl, fun _ _ => rfl⟩

theorem trans {h'' : Heap α} (hw : Writes as h h') (hw' : Writes as h' h'') : Writes as h h'' :=
  ⟨fun a => (hw'.links a).trans (hw.links a), fun a ha => (hw'.others a ha).trans (hw.others a ha)⟩

theorem mono (hw : Writes as h h') (hsub : as ⊆ bs) : Writes bs h h' :=
  ⟨hw.links, fun a ha => hw.others a fun hmem => ha (hsub hmem)⟩

theorem modify {m : Mem α} {a : Nat} (hw : Writes as h m.heap) (ha : a ∈ as) (f : α → α) :
    Writes as h (m.modify a f).heap := by
  refine ⟨fun b => (modify_next a b f).trans (hw.links b), fun b hb => ?_⟩
  have hne : b ≠ a := by
    rintro rfl
    exact hb ha
  exact (Mem.modify_of_ne hne).trans (hw.others b hb)

theorem spine (hw : Writes as h h') (hs : Spine h p bs) : Spine h' p bs :=
  hs.frame fun a _ => hw.links a

theorem keeps {h₀ : Heap α} (hw : Writes as h h') (hk : Keeps h₀ h) (hnew : ∀ a ∈ as, h₀ a = none) :
    Keeps h₀ h' := hk.of_frame as hw.others hnew

end Writes

/-! ## Walking -/

/-- `for (tt = p; tt; tt = tt->next) if (P) break;`; no value when freed memory is
read or `fuel` passes are not enough. -/
def findNode (P : α → Prop) [DecidablePred P] : Nat → Heap α → Option Nat → Option (Option Nat)
  | _, _, none => some none
  | 0, _, some _ => none
  | fuel + 1, h, some a =>
    match h a with
    | none => none
    | some n => if P n.val then some (some a) else findNode P fuel h n.next

theorem findNode_eq [DecidablePred P] (hs : Spine h p as) {fuel : Nat} (hfuel : as.length ≤ fuel) :
    findNode P fuel h p = some (as.find? fun a => decide (At P h a)) := by
  induction as generalizing p fuel with
  | nil =>
    cases hs
    cases fuel <;> rfl
  | cons a as ih =>
    obtain ⟨rfl, v, q, ha, hs⟩ := hs
    cases fuel with
    | zero => cases hfuel
    | succ fuel =>
      have hlen : as.length ≤ fuel := Nat.le_of_succ_le_succ hfuel
      simp only [findNode, ha]
      by_cases hv : P v
      · have hat : At P h a := ⟨_, ha, hv⟩
        rw [if_pos hv, List.find?_cons, decide_eq_true hat]
      · have hat : ¬ At P h a := fun h' => hv ((at_iff ha).mp h')
        rw [if_neg hv, ih hs hlen, List.find?_cons, decide_eq_false hat]

theorem findNode_mem [DecidablePred P] (hs : Spine h p as) {fuel a : Nat}
    (hfind : findNode P fuel h p = some (some a)) : a ∈ as := by
  induction as generalizing p fuel with
  | nil =>
    cases hs
    cases fuel <;> cases hfind
  | cons b as ih =>
    obtain ⟨rfl, v, q, hb, hs⟩ := hs
    cases fuel with
    | zero => cases hfind
    | succ fuel =>
      simp only [findNode, hb] at hfind
      split at hfind
      · cases hfind
        exact List.mem_cons_self
      · exact List.mem_cons_of_mem b (ih hs hfind)

/-- `for (t = p; t; t = t->next) if (!t->next) break;` -/
def lastNode : Nat → Heap α → Option Nat → Option (Option Nat)
  | _, _, none => some none
  | 0, _, some _ => none
  | fuel + 1, h, some a =>
    match h a with
    | none => none
    | some n =>
      match n.next with
      | none => some (some a)
      | some b => lastNode fuel h (some b)

theorem lastNode_eq {e : Nat} (hs : Spine h p (as ++ [e])) {fuel : Nat}
    (hfuel : (as ++ [e]).length ≤ fuel) : lastNode fuel h p = some (some e) := by
  induction as generalizing p fuel with
  | nil =>
    obtain ⟨rfl, v, q, he, hq⟩ := hs
    cases hq
    cases fuel with
    | zero => cases hfuel
    | succ fuel => simp only [lastNode, he]
  | cons a as ih =>
    obtain ⟨rfl, v, q, ha, hs⟩ := hs
    cases fuel with
    | zero => cases hfuel
    | succ fuel =>
      have hq : ∃ b, q = some b := by
        cases as with
        | nil => exact ⟨e, hs.1⟩
        | cons b as => exact ⟨b, hs.1⟩
      obtain ⟨b, rfl⟩ := hq
      simp only [lastNode, ha]
      exact ih hs (Nat.le_of_succ_le_succ hfuel)

theorem lastNode_eq_none (hs : Spine h p as) {fuel : Nat} (hfuel : fuel < as.length) :
    lastNode fuel h p = none := by
  induction as generalizing p fuel with
  | nil => cases hfuel
  | cons a as ih =>
    obtain ⟨rfl, v, q, ha, hs⟩ := hs
    cases fuel with
    | zero => rfl
    | succ fuel =>
      have hlen : fuel < as.length := Nat.lt_of_succ_lt_succ hfuel
      have hq : ∃ b, q = some b := by
        cases as with
        | nil => cases hlen
        | cons b as => exact ⟨b, hs.1⟩
      obtain ⟨b, rfl⟩ := hq
      simp only [lastNode, ha]
      exact ih hs hlen

/-- `for (count = 0; t && count < n; t = t->next, count++)`: the rest of the list,
and the values passed. -/
def walk : Nat → Heap α → Option Nat → Option (Option Nat × List α)
  | 0, _, p => some (p, [])
  | _ + 1, _, none => some (none, [])
  | n + 1, h, some a =>
    match h a with
    | none => none
    | some node => (walk n h node.next).map fun (q, vs) => (q, node.val :: vs)

/-- The values at the addresses. -/
def vals (h : Heap α) (as : List Nat) : List α := as.filterMap fun a => (h a).map Node.val

theorem vals_cons {a : Nat} {n : Node α} (hn : h a = some n) :
    vals h (a :: as) = n.val :: vals h as := by
  rw [vals, List.filterMap_cons_some (by rw [hn]; rfl)]
  rfl

theorem vals_congr (heq : ∀ a ∈ as, (h' a).map Node.val = (h a).map Node.val) :
    vals h' as = vals h as := List.filterMap_congr heq

theorem Spine.length_vals_take (hs : Spine h p as) (n : Nat) :
    (vals h (as.take n)).length = (as.take n).length := by
  induction n generalizing p as with
  | zero => rfl
  | succ n ih =>
    cases as with
    | nil => rfl
    | cons a as =>
      obtain ⟨-, v, q, ha, hs⟩ := hs
      rw [List.take_succ_cons, vals_cons ha, List.length_cons, List.length_cons, ih hs]

theorem walk_eq (hs : Spine h p as) (n : Nat) :
    ∃ q, walk n h p = some (q, vals h (as.take n)) ∧ Spine h q (as.drop n) := by
  induction n generalizing p as with
  | zero => exact ⟨p, rfl, hs⟩
  | succ n ih =>
    cases as with
    | nil =>
      cases hs
      exact ⟨none, rfl, rfl⟩
    | cons a as =>
      obtain ⟨rfl, v, q, ha, hs⟩ := hs
      obtain ⟨q', hw, hq'⟩ := ih hs
      refine ⟨q', ?_, hq'⟩
      rw [List.take_succ_cons, vals_cons ha]
      simp only [walk, ha, hw, Option.map_some]

/-- `for (p = a; p; p = next) { next = p->next; free (p); }` -/
def freeList : Nat → Mem α → Option Nat → Option (Mem α)
  | _, m, none => some m
  | 0, _, some _ => none
  | fuel + 1, m, some a =>
    match m.heap a with
    | none => none
    | some n => freeList fuel (m.free a) n.next

end Linked

import Despotify.Ui.EventLoop

/-!
# What the event loop owes its events

An event stacked under a head is to run once the head is done, behind those stacked there
before it, and what goes from the list takes nothing else with it.  `event_register_action`
never fills a stack: the new event goes behind the last one of the main list, head or no
head.  `event_unregister_action` leaves only what is behind the event it removes.

* `eventRegisterAction_spec`, `eventUnregisterAction_first`, `reap_spec`: what the pointer
  code does to the list.
* `step_lawful`: the invariant, step by step.
* `lawful_of_orderly`: in a run in which nothing waits in the list for its head, and only
  the first event is unregistered, every step meets the law.
* `stacked_called`, `unregister_loses`: two runs in which it is broken.
-/

namespace Despotify.Ui.EventLoop

open Linked

/-! ## The law -/

/-- The step calls the callback of `x`. -/
def Calls (e : Op) (s' : State) (x : Nat) : Prop :=
  e = .next ∧ ∃ p frames, s'.phase = .inside p x frames

def State.failed (s : State) (a : Nat) : Prop := ∃ n, s.mem.heap a = some n ∧ n.val.failed

/-- What goes at the end of an iteration: the events that are done, and those that have
failed, with what is stacked under them. -/
structure Left (s : State) (as as' : List Nat) : Prop where
  sub : as'.Sublist as
  gone : ∀ a ∈ as, a ∉ as' → a ∈ s.finished ∨ s.failed a ∧ ∀ y ∈ as', (y, a) ∉ s.stacked

/-- The list before the step and after it. -/
def Relinked (s : State) (e : Op) (as as' : List Nat) : Prop :=
  match e with
  | .register _ _ _ => as' = as ++ [s.mem.brk]
  | .unregister _ bad => as' = as.filter fun a => a ≠ bad ∧ (a, bad) ∉ s.stacked
  | _ => Left s as as'

structure Law (s : State) (e : Op) (s' : State) : Prop where
  intact : s'.phase ≠ .crashed
  /-- An event is not called before its head is done, nor before what is stacked there. -/
  inTurn : ∀ x, Calls e s' x → ∀ h, (x, h) ∈ s.stacked →
    h ∈ s.finished ∧ ∀ y, y < x → (y, h) ∈ s.stacked → s.live y → y ∈ s.finished
  /-- What goes is done, has failed, or is unregistered. -/
  kept : ∃ as as', Spine s.mem.heap s.evhead as ∧ Spine s'.mem.heap s'.evhead as' ∧
    Relinked s e as as'

/-- Nothing in the list waits for its head. -/
def Settled (s : State) : Prop :=
  ∀ r ∈ s.stacked, s.live r.1 →
    r.2 ∈ s.finished ∧ ∀ t ∈ s.stacked, t.2 = r.2 → t.1 < r.1 → s.live t.1 → t.1 ∈ s.finished

instance (s : State) : Decidable (Settled s) :=
  inferInstanceAs (Decidable (∀ r ∈ s.stacked, s.live r.1 →
    r.2 ∈ s.finished ∧ ∀ t ∈ s.stacked, t.2 = r.2 → t.1 < r.1 → s.live t.1 → t.1 ∈ s.finished))

def Phase.current : Phase → Option Nat
  | inside _ e _ => some e
  | _ => none

/-- Nothing waits when the loop goes on, and what is unregistered is the first event of the
list, with nothing registered under it and not in its own callback. -/
def Orderly (s : State) : Op → Prop
  | .unregister head bad =>
    head = none ∧ s.evhead = some bad ∧ s.phase.current ≠ some bad ∧
      ∀ r ∈ s.stacked, r.2 = bad → ¬ s.live r.1
  | .begin _ => Settled s
  | .ret _ => Settled s
  | _ => True

/-! ## The list -/

/-- The links, and what `π` reads of the events. -/
def Same {β : Type} (π : Event → β) (h h' : Heap Event) : Prop :=
  ∀ a, (h' a).map (fun n => (n.next, π n.val)) = (h a).map fun n => (n.next, π n.val)

namespace Same

variable {β γ : Type} {π : Event → β} {h h' h'' : Heap Event}

theorem refl (π : Event → β) (h : Heap Event) : Same π h h := fun _ => rfl

theorem trans (h1 : Same π h h') (h2 : Same π h' h'') : Same π h h'' :=
  fun a => (h2 a).trans (h1 a)

theorem map (h1 : Same π h h') (f : β → γ) : Same (fun v => f (π v)) h h' := by
  intro a
  have heq := congrArg (Option.map fun x : Option Nat × β => (x.1, f x.2)) (h1 a)
  rwa [Option.map_map, Option.map_map] at heq

theorem modify {a : Nat} {f : Event → Event} (hf : ∀ v, π (f v) = π v) :
    Same π h (Linked.modify h a f) := by
  intro b
  by_cases hb : b = a
  · subst hb
    rw [Linked.modify, Function.update_self, Option.map_map]
    congr 1
    funext n
    exact Prod.ext rfl (hf n.val)
  · rw [modify_of_ne hb]

theorem node (h1 : Same π h h') {a : Nat} {n : Node Event} (hn : h a = some n) :
    ∃ n', h' a = some n' ∧ n'.next = n.next ∧ π n'.val = π n.val := by
  have heq := h1 a
  rw [hn, Option.map_some, Option.map_eq_some_iff] at heq
  obtain ⟨n', hn', hpair⟩ := heq
  exact ⟨n', hn', congrArg Prod.fst hpair, congrArg Prod.snd hpair⟩

theorem symm (h1 : Same π h h') : Same π h' h := fun a => (h1 a).symm

theorem isSome (h1 : Same π h h') (a : Nat) : (h' a).isSome = (h a).isSome := by
  have heq := congrArg Option.isSome (h1 a)
  rwa [Option.isSome_map, Option.isSome_map] at heq

theorem spine (h1 : Same π h h') {p : Option Nat} {as : List Nat} (hs : Spine h p as) :
    Spine h' p as := by
  refine hs.frame fun a _ => ?_
  have heq := congrArg (Option.map Prod.fst) (h1 a)
  rwa [Option.map_map, Option.map_map] at heq

end Same

/-- No event has a stack. -/
def Flat (h : Heap Event) : Prop := ∀ a n, h a = some n → n.val.stack = none

theorem Flat.of_vals {h h' : Heap Event} (hflat : Flat h)
    (hvals : ∀ a, h' a = none ∨ (h' a).map Node.val = (h a).map Node.val) : Flat h' := by
  intro a n hn
  rcases hvals a with hnone | hval
  · cases hnone.symm.trans hn
  · rw [hn, Option.map_some, eq_comm, Option.map_eq_some_iff] at hval
    obtain ⟨n', hn', heq⟩ := hval
    rw [← heq]
    exact hflat a n' hn'

/-- The list of events, which have no stacks. -/
structure Listed (s : Store) (as : List Nat) : Prop where
  spine : Spine s.mem.heap s.evhead as
  all : ∀ a n, s.mem.heap a = some n → a ∈ as
  flat : Flat s.mem.heap

theorem Listed.same {s : Store} {m : Mem Event} {as : List Nat} (hl : Listed s as)
    (hsame : Same Event.stack s.mem.heap m.heap) : Listed { s with mem := m } as := by
  constructor
  · exact hsame.spine hl.spine
  · intro a n hn
    obtain ⟨n', hn', -⟩ := hsame.symm.node hn
    exact hl.all a n' hn'
  · intro a n hn
    obtain ⟨n', hn', -, hstack⟩ := hsame.symm.node hn
    rw [← hstack]
    exact hl.flat a n' hn'

theorem Listed.node {s : Store} {as : List Nat} (hl : Listed s as) {a : Nat} (ha : a ∈ as) :
    ∃ n, s.mem.heap a = some n := hl.spine.node ha

theorem Listed.next_mem {s : Store} {as : List Nat} (hl : Listed s as) {a : Nat} {n : Node Event}
    (hn : s.mem.heap a = some n) : ∀ b ∈ n.next, b ∈ as := by
  intro b hb
  obtain ⟨l, r, rfl⟩ := List.append_of_mem (hl.all a n hn)
  have hr := hl.spine.next hn
  rw [hb] at hr
  cases r with
  | nil => cases hr
  | cons c r =>
    cases hr.1
    simp

theorem Listed.head_mem {s : Store} {as : List Nat} (hl : Listed s as) : ∀ b ∈ s.evhead, b ∈ as := by
  intro b hb
  have hs := hl.spine
  rw [hb] at hs
  cases as with
  | nil => cases hs
  | cons c as =>
    cases hs.1
    exact List.mem_cons_self

/-! ## `event_register_action` -/

/-- The last event of the list, from any of its events on. -/
theorem lastNode_of_mem {s : Store} {as : List Nat} (hl : Listed s as) {e : Nat} (he : e ∈ as) :
    ∃ init last, as = init ++ [last] ∧
      lastNode s.mem.brk s.mem.heap (some e) = some (some last) := by
  obtain ⟨l, r, rfl⟩ := List.append_of_mem he
  obtain ⟨q, hq⟩ := hl.spine.of_append
  cases hq.1
  rcases List.eq_nil_or_concat (e :: r) with hnil | ⟨init, last, hlast⟩
  · cases hnil
  · rw [List.concat_eq_append] at hlast
    rw [hlast] at hq ⊢
    exact ⟨l ++ init, last, (List.append_assoc _ _ _).symm, lastNode_eq hq hq.length_le⟩

theorem eventRegisterAction_spec {s : Store} {as : List Nat} (hl : Listed s as) {head : Option Nat}
    (hhead : ∀ h ∈ head, h ∈ as) (flags : Flags) (delayUntil : Int) :
    ∃ s', eventRegisterAction s head flags delayUntil = some s' ∧ Listed s' (as ++ [s.mem.brk]) ∧
      (s'.mem.heap s.mem.brk).map Node.val = some (newEvent flags delayUntil) ∧
      (∀ a, a ≠ s.mem.brk → (s'.mem.heap a).map Node.val = (s.mem.heap a).map Node.val) ∧
      s'.mem.brk = s.mem.brk + 1 := by
  -- the list follows from the links and the values
  have listed : ∀ s' : Store, Spine s'.mem.heap s'.evhead (as ++ [s.mem.brk]) →
      (s'.mem.heap s.mem.brk).map Node.val = some (newEvent flags delayUntil) →
      (∀ a, a ≠ s.mem.brk → (s'.mem.heap a).map Node.val = (s.mem.heap a).map Node.val) →
      Listed s' (as ++ [s.mem.brk]) := by
    intro s' hspine hnew hold
    refine ⟨hspine, fun a n hn => ?_, fun a n hn => ?_⟩
    · by_cases ha : a = s.mem.brk
      · rw [ha]
        simp
      · have hval := hold a ha
        rw [hn, Option.map_some, eq_comm, Option.map_eq_some_iff] at hval
        obtain ⟨n', hn', -⟩ := hval
        exact List.mem_append_left _ (hl.all a n' hn')
    · by_cases ha : a = s.mem.brk
      · rw [ha] at hn
        rw [hn, Option.map_some, Option.some_inj] at hnew
        rw [hnew]
        rfl
      · have hval := hold a ha
        rw [hn, Option.map_some, eq_comm, Option.map_eq_some_iff] at hval
        obtain ⟨n', hn', hv⟩ := hval
        rw [← hv]
        exact hl.flat a n' hn'
  have hstart : ∀ e ∈ head.or s.evhead, e ∈ as := by
    intro e he
    cases head with
    | none => exact hl.head_mem e he
    | some h => exact hhead e he
  unfold eventRegisterAction
  cases hor : head.or s.evhead with
  | none =>
    obtain ⟨-, hnone⟩ := Option.or_eq_none_iff.mp hor
    have has : as = [] := by
      have hs := hl.spine
      rw [hnone] at hs
      cases as with
      | nil => rfl
      | cons a as => cases hs.1
    subst has
    refine ⟨_, rfl, listed _ ⟨rfl, _, none, Mem.alloc_brk, rfl⟩ ?_ ?_, ?_, ?_, rfl⟩
    · rw [Mem.alloc_brk]
      rfl
    · intro a ha
      rw [Mem.alloc_of_ne ha]
    · rw [Mem.alloc_brk]
      rfl
    · intro a ha
      rw [Mem.alloc_of_ne ha]
  | some e =>
    obtain ⟨init, last, rfl, hwalk⟩ := lastNode_of_mem hl (hstart e hor)
    have hnew : (((s.mem.alloc (newEvent flags delayUntil)).link last (some s.mem.brk)).heap
        s.mem.brk).map Node.val = some (newEvent flags delayUntil) := by
      rw [Mem.link_val, Mem.alloc_brk]
      rfl
    have hold : ∀ a, a ≠ s.mem.brk →
        (((s.mem.alloc (newEvent flags delayUntil)).link last (some s.mem.brk)).heap a).map
          Node.val = (s.mem.heap a).map Node.val := by
      intro a ha
      rw [Mem.link_val, Mem.alloc_of_ne ha]
    simp only [hwalk]
    exact ⟨_, rfl, listed _ (hl.spine.append _) hnew hold, hnew, hold, rfl⟩

/-! ## `event_unregister_action` -/

/-- The first event is not behind another. -/
theorem findBefore_first {h : Heap Event} {p : Option Nat} {b : Nat} {as : List Nat}
    (hs : Spine h p (b :: as)) {bad : Nat} (hbad : bad ∉ as) {fuel : Nat}
    (hfuel : (b :: as).length ≤ fuel) : findBefore bad fuel h p = some none := by
  induction as generalizing p b fuel with
  | nil =>
    obtain ⟨rfl, v, q, hb, hq⟩ := hs
    cases hq
    cases fuel with
    | zero => cases hfuel
    | succ fuel => simp only [findBefore, hb, if_true]
  | cons c as ih =>
    obtain ⟨rfl, v, q, hb, hq⟩ := hs
    obtain ⟨hne, hbad⟩ := List.ne_and_not_mem_of_not_mem_cons hbad
    cases fuel with
    | zero => cases hfuel
    | succ fuel =>
      have hrest := ih hq hbad (Nat.le_of_succ_le_succ hfuel)
      cases hq.1
      have hne' : ¬ some c = some bad := by
        rintro ⟨⟩
        exact hne rfl
      simp only [findBefore, hb, reduceCtorEq, if_false, if_neg hne', hrest]

/-- What is behind the first event, when that is freed. -/
theorem Listed.drop {s : Store} {b : Nat} {as : List Nat} (hl : Listed s (b :: as))
    {n : Node Event} (hn : s.mem.heap b = some n) : Listed ((s.store n.next .evhead).free b) as := by
  have hsub : ∀ a n', (s.mem.free b).heap a = some n' → a ≠ b ∧ s.mem.heap a = some n' := by
    intro a n' hn'
    by_cases ha : a = b
    · subst ha
      have hfreed : (s.mem.free a).heap a = none := Function.update_self _ _ _
      cases hfreed.symm.trans hn'
    · rw [Mem.free_of_ne ha] at hn'
      exact ⟨ha, hn'⟩
  refine ⟨hl.spine.pop hn, fun a n' hn' => ?_, fun a n' hn' => ?_⟩
  · obtain ⟨hne, ha⟩ := hsub a n' hn'
    exact (List.mem_cons.mp (hl.all a n' ha)).resolve_left hne
  · exact hl.flat a n' (hsub a n' hn').2

theorem eventUnregisterAction_first {s : Store} {b : Nat} {as : List Nat} (hl : Listed s (b :: as))
    (fuel : Nat) :
    ∃ s', eventUnregisterAction (fuel + 1) s .evhead b = some s' ∧ Listed s' as ∧
      s'.mem.heap b = none ∧ (∀ a, a ≠ b → s'.mem.heap a = s.mem.heap a) ∧
      s'.mem.brk = s.mem.brk := by
  obtain ⟨hb, -⟩ := List.nodup_cons.mp hl.spine.nodup
  obtain ⟨n, hn⟩ := hl.node List.mem_cons_self
  have hfind := findBefore_first hl.spine hb hl.spine.length_le
  refine ⟨(s.store n.next .evhead).free b, ?_, hl.drop hn, Function.update_self _ _ _,
    fun a ha => Mem.free_of_ne ha, rfl⟩
  simp only [eventUnregisterAction, Store.load, Option.bind_some, hfind, Store.dropTo, hn,
    Option.map_some]

/-! ## The end of an iteration -/

/-- `EV_DONE`, or a failure that counts. -/
def Event.ends (v : Event) : Bool := v.flags.done || v.failed

/-- Of the events `as`, those in `as'` are left; the others end. -/
structure Swept (as as' : List Nat) (h h' : Heap Event) : Prop where
  sub : as'.Sublist as
  ended : ∀ a ∈ as, a ∉ as' → ∃ n, h a = some n ∧ n.val.ends
  freed : ∀ a ∈ as, a ∉ as' → h' a = none
  vals : ∀ a, (a ∈ as → a ∈ as') → (h' a).map Node.val = (h a).map Node.val

namespace Swept

variable {as as' : List Nat} {h h1 h' : Heap Event} {a : Nat}

theorem nil (h : Heap Event) : Swept [] [] h h := ⟨.slnil, nofun, nofun, fun _ _ => rfl⟩

/-- The first event is kept. -/
theorem keep (hs : Swept as as' h h') (ha : a ∉ as) : Swept (a :: as) (a :: as') h h' := by
  have hout : ∀ b, b ∈ a :: as → b ∉ a :: as' → b ∈ as ∧ b ∉ as' := by
    intro b hb hnot
    rw [List.mem_cons, not_or] at hnot
    exact ⟨(List.mem_cons.mp hb).resolve_left hnot.1, hnot.2⟩
  refine ⟨hs.sub.cons_cons a, fun b hb hnot => ?_, fun b hb hnot => ?_, fun b hb => ?_⟩
  · exact hs.ended b (hout b hb hnot).1 (hout b hb hnot).2
  · exact hs.freed b (hout b hb hnot).1 (hout b hb hnot).2
  · refine hs.vals b fun hmem => ?_
    have hne : b ≠ a := by
      rintro rfl
      exact ha hmem
    exact (List.mem_cons.mp (hb (List.mem_cons_of_mem a hmem))).resolve_left hne

/-- The first event goes. -/
theorem drop (hs : Swept as as' h1 h') (ha : a ∉ as) {n : Node Event} (hn : h a = some n)
    (hends : n.val.ends) (hfree : h1 a = none)
    (hrest : ∀ b, b ≠ a → (h1 b).map Node.val = (h b).map Node.val) :
    Swept (a :: as) as' h h' := by
  have hgone : h' a = none := by
    have hval := hs.vals a fun hmem => absurd hmem ha
    rwa [hfree, Option.map_none, Option.map_eq_none_iff] at hval
  refine ⟨hs.sub.cons a, fun b hb hnot => ?_, fun b hb hnot => ?_, fun b hb => ?_⟩
  · rcases List.mem_cons.mp hb with rfl | hb
    · exact ⟨n, hn, hends⟩
    · obtain ⟨n1, hn1, hends1⟩ := hs.ended b hb hnot
      have hval := hrest b fun heq => ha (heq ▸ hb)
      rw [hn1, Option.map_some, eq_comm, Option.map_eq_some_iff] at hval
      obtain ⟨n2, hn2, heq⟩ := hval
      exact ⟨n2, hn2, heq ▸ hends1⟩
  · rcases List.mem_cons.mp hb with rfl | hb
    · exact hgone
    · exact hs.freed b hb hnot
  · have hne : b ≠ a := by
      rintro rfl
      exact ha (hs.sub.subset (hb List.mem_cons_self))
    rw [hs.vals b fun hmem => hb (List.mem_cons_of_mem a hmem), hrest b hne]

end Swept

/-- Without a stack, what ends is unlinked and freed. -/
theorem remove_eq {s : Store} {e : Nat} {n : Node Event} (hn : s.mem.heap e = some n)
    (hflat : n.val.stack = none) (prev : Option Nat) :
    (if n.val.flags.done then replaceDone s prev e n else removeFailed s prev e n) =
      some ((s.setNext prev n.next).free e) := by
  by_cases hdone : n.val.flags.done
  · rw [if_pos hdone]
    simp only [replaceDone, hflat]
  · rw [if_neg hdone]
    simp only [removeFailed, unregisterStack, hn, hflat, Option.map_some]

/-- The walk behind an event that is kept. -/
theorem reap_tail {s : Store} {pre rest : List Nat} {p : Nat} {n : Node Event}
    (hs : Spine s.mem.heap s.evhead (pre ++ p :: rest))
    (hflat : Flat s.mem.heap) (hn : s.mem.heap p = some n)
    {fuel : Nat} (hfuel : rest.length ≤ fuel) :
    ∃ s' as', reap fuel s (some p) n.next = some s' ∧
      Spine s'.mem.heap s'.evhead (pre ++ p :: as') ∧ Swept rest as' s.mem.heap s'.mem.heap ∧
      s'.mem.brk = s.mem.brk := by
  induction rest generalizing s pre p n fuel with
  | nil =>
    have hnext : n.next = none := hs.next hn
    refine ⟨s, [], ?_, hs, .nil _, rfl⟩
    rw [hnext]
    cases fuel <;> rfl
  | cons a rest ih =>
    obtain ⟨hnext, v, q, ha, -⟩ := hs.next hn
    have hnot : a ∉ rest := by
      have hnodup := (List.nodup_append.mp hs.nodup).2.1
      exact (List.nodup_cons.mp (List.nodup_cons.mp hnodup).2).1
    have hpa : p ≠ a := by
      have hnodup := (List.nodup_append.mp hs.nodup).2.1
      rintro rfl
      exact (List.nodup_cons.mp hnodup).1 List.mem_cons_self
    cases fuel with
    | zero => cases hfuel
    | succ fuel =>
      have hlen : rest.length ≤ fuel := Nat.le_of_succ_le_succ hfuel
      rw [hnext]
      by_cases hends : v.ends
      · -- `p` is the event before the next one too
        have hcond : (v.flags.done || v.failed) = true := hends
        have hp' : ((s.setNext (some p) q).free a).mem.heap p = some ⟨n.val, q⟩ := by
          refine (Mem.free_of_ne hpa).trans ?_
          exact Mem.link_self hn
        have hvals : ∀ b, b ≠ a → (((s.setNext (some p) q).free a).mem.heap b).map Node.val =
            (s.mem.heap b).map Node.val := by
          intro b hb
          refine (congrArg _ (Mem.free_of_ne hb)).trans ?_
          exact Mem.link_val _ _ _ _
        have hfree : ((s.setNext (some p) q).free a).mem.heap a = none := Function.update_self _ _ _
        have hflat' : Flat ((s.setNext (some p) q).free a).mem.heap := by
          refine hflat.of_vals fun b => ?_
          by_cases hb : b = a
          · exact Or.inl (hb ▸ hfree)
          · exact Or.inr (hvals b hb)
        obtain ⟨s', as', hreap, hspine, hswept, hbrk⟩ := ih (hs.unlink ha) hflat' hp' hlen
        refine ⟨s', as', ?_, hspine, hswept.drop hnot ha hends hfree hvals, hbrk⟩
        simp only [reap, ha, hcond, if_true]
        rw [remove_eq ha (hflat a _ ha)]
        simp only [Option.bind_some, Option.some_or, hp', hreap]
      · have hcond : ¬ (v.flags.done || v.failed) = true := hends
        have hs' : Spine s.mem.heap s.evhead ((pre ++ [p]) ++ a :: rest) := by
          rwa [List.append_assoc]
        obtain ⟨s', as', hreap, hspine, hswept, hbrk⟩ := ih hs' hflat ha hlen
        refine ⟨s', a :: as', ?_, ?_, hswept.keep hnot, hbrk⟩
        · simp only [reap, ha, if_neg hcond, hreap]
        · rwa [List.append_assoc] at hspine

/-- The whole walk. -/
theorem reap_list {s : Store} {as : List Nat} (hl : Listed s as) {fuel : Nat}
    (hfuel : as.length ≤ fuel) :
    ∃ s' as', reap fuel s none s.evhead = some s' ∧ Spine s'.mem.heap s'.evhead as' ∧
      Swept as as' s.mem.heap s'.mem.heap ∧ s'.mem.brk = s.mem.brk := by
  cases as with
  | nil =>
    have hnone : s.evhead = none := hl.spine
    refine ⟨s, [], ?_, hl.spine, .nil _, rfl⟩
    rw [hnone]
    cases fuel <;> rfl
  | cons a as =>
    obtain ⟨hhead, v, q, ha, hq⟩ := hl.spine
    obtain ⟨hnot, -⟩ := List.nodup_cons.mp hl.spine.nodup
    rw [hhead]
    cases fuel with
    | zero => cases hfuel
    | succ fuel =>
      have hlen : as.length ≤ fuel := Nat.le_of_succ_le_succ hfuel
      by_cases hends : v.ends
      · have hcond : (v.flags.done || v.failed) = true := hends
        have hdrop := hl.drop ha
        have hfree : (s.mem.free a).heap a = none := Function.update_self _ _ _
        have hvals : ∀ b, b ≠ a →
            ((s.mem.free a).heap b).map Node.val = (s.mem.heap b).map Node.val :=
          fun b hb => congrArg _ (Mem.free_of_ne hb)
        cases as with
        | nil =>
          have hqn : q = none := hq
          refine ⟨(s.setNext none q).free a, [], ?_, hdrop.spine,
            (Swept.nil _).drop hnot ha hends hfree hvals, rfl⟩
          simp only [reap, ha, hcond, if_true]
          rw [remove_eq ha (hl.flat a _ ha)]
          simp only [Option.bind_some, Option.none_or, Store.setNext, Store.free, hqn]
        | cons b as =>
          -- the new first event is not looked at
          obtain ⟨nb, hnb⟩ := hdrop.node List.mem_cons_self
          have hlen : as.length ≤ fuel := Nat.le_of_succ_le hlen
          have hqb : q = some b := hq.1
          have hspine : Spine ((s.setNext none q).free a).mem.heap
              ((s.setNext none q).free a).evhead ([] ++ b :: as) := hdrop.spine
          obtain ⟨s', as', hreap, hspine, hswept, hbrk⟩ := reap_tail hspine hdrop.flat hnb hlen
          have hb : b ∉ as := (List.nodup_cons.mp hdrop.spine.nodup).1
          refine ⟨s', b :: as', ?_, hspine, (hswept.keep hb).drop hnot ha hends hfree hvals,
            hbrk⟩
          have hnb' : ((s.setNext none q).free a).mem.heap b = some nb := hnb
          have hev : ((s.setNext none q).free a).evhead = some b := hqb
          simp only [reap, ha, hcond, if_true]
          rw [remove_eq ha (hl.flat a _ ha)]
          simp only [Option.bind_some, Option.none_or, hev, hnb', hreap]
      · have hcond : ¬ (v.flags.done || v.failed) = true := hends
        have hspine : Spine s.mem.heap s.evhead ([] ++ a :: as) := hl.spine
        obtain ⟨s', as', hreap, hspine, hswept, hbrk⟩ := reap_tail hspine hl.flat ha hlen
        refine ⟨s', a :: as', ?_, hspine, hswept.keep hnot, hbrk⟩
        simp only [reap, ha, if_neg hcond, hreap]

/-- What goes ends, and the rest keeps its order. -/
theorem reap_spec {s : Store} {as : List Nat} (hl : Listed s as) :
    ∃ s' as', reap s.mem.brk s none s.evhead = some s' ∧ Listed s' as' ∧
      Swept as as' s.mem.heap s'.mem.heap ∧ s'.mem.brk = s.mem.brk := by
  obtain ⟨s', as', hreap, hspine, hswept, hbrk⟩ := reap_list hl hl.spine.length_le
  have hgone : ∀ a, s'.mem.heap a = none ∨
      (s'.mem.heap a).map Node.val = (s.mem.heap a).map Node.val := by
    intro a
    by_cases ha : a ∈ as ∧ a ∉ as'
    · exact Or.inl (hswept.freed a ha.1 ha.2)
    · exact Or.inr (hswept.vals a fun hmem => by_contra fun hnot => ha ⟨hmem, hnot⟩)
  refine ⟨s', as', hreap, ⟨hspine, fun a n hn => ?_, hl.flat.of_vals hgone⟩, hswept, hbrk⟩
  by_contra hnot
  by_cases ha : a ∈ as
  · cases (hswept.freed a ha hnot).symm.trans hn
  · have hval := hswept.vals a fun hmem => absurd hmem ha
    rw [hn, Option.map_some, eq_comm, Option.map_eq_some_iff] at hval
    obtain ⟨n', hn', -⟩ := hval
    exact ha (hl.all a n' hn')

/-! ## Delays -/

/-- All but the descriptor, the delay and the message class. -/
def Event.shape (v : Event) : Bool × Bool × Option Nat := (v.flags.done, v.failed, v.stack)

theorem eventFdAddToSet_spec (tv : Int) {m : Mem Event} {p : Option Nat} {as : List Nat}
    (hs : Spine m.heap p as) (hflat : Flat m.heap) {fuel : Nat} (hfuel : as.length ≤ fuel) :
    ∃ m', eventFdAddToSet tv fuel m p = some m' ∧ Same Event.shape m.heap m'.heap ∧
      m'.brk = m.brk := by
  induction as generalizing m p fuel with
  | nil =>
    cases hs
    exact ⟨m, by cases fuel <;> rfl, .refl _ _, rfl⟩
  | cons a as ih =>
    obtain ⟨rfl, v, q, ha, hq⟩ := hs
    cases fuel with
    | zero => cases hfuel
    | succ fuel =>
      have hlen : as.length ≤ fuel := Nat.le_of_succ_le_succ hfuel
      by_cases hdelay : v.delayed tv
      · obtain ⟨m', hm', hsame⟩ := ih hq hflat hlen
        refine ⟨m', ?_, hsame⟩
        simp only [eventFdAddToSet, ha, hdelay, if_true, hm']
      · have hsame : Same Event.shape m.heap (m.modify a Event.undelay).heap := .modify fun _ => rfl
        have hflat' : Flat (m.modify a Event.undelay).heap := by
          intro b n hn
          obtain ⟨n', hn', -, hshape⟩ := hsame.symm.node hn
          have hstack : n'.val.stack = n.val.stack := congrArg (fun x => x.2.2) hshape
          rw [← hstack]
          exact hflat b n' hn'
        obtain ⟨m', hm', hsame', hbrk⟩ := ih (hsame.spine hq) hflat' hlen
        refine ⟨m', ?_, hsame.trans hsame', hbrk⟩
        have hstack : v.stack = none := hflat a _ ha
        have hstop : eventFdAddToSet tv fuel (m.modify a Event.undelay) none =
            some (m.modify a Event.undelay) := by
          cases fuel <;> rfl
        simp only [eventFdAddToSet, ha, if_neg hdelay, hstack, hstop, Option.bind_some, hm']

/-! ## What the steps keep -/

/-- The list and the flags, whatever the loop is at. -/
structure Base (s : State) (as : List Nat) : Prop where
  listed : Listed s.toStore as
  done : ∀ a n, s.mem.heap a = some n → (n.val.flags.done = true ↔ a ∈ s.finished)
  old : ∀ a ∈ s.finished, a < s.mem.brk

def PhaseOk (s : State) : Phase → Prop
  | .idle => True
  | .walk _ e frames => frames = [] ∧ (∀ a ∈ e, s.live a) ∧ s.evhead ≠ none ∧ Settled s
  | .inside _ e frames => frames = [] ∧ s.live e
  | .select => s.evhead ≠ none ∧ Settled s
  | .crashed => False

structure Inv (s : State) : Prop where
  base : ∃ as, Base s as
  phase : PhaseOk s s.phase

theorem inv_init : Inv .init := by
  refine ⟨⟨[], ⟨rfl, ?_, ?_⟩, ?_, ?_⟩, trivial⟩
  · intro a n hn
    cases hn
  · intro a n hn
    cases hn
  · intro a n hn
    cases hn
  · intro a ha
    cases ha

/-- What holds of an event's flags that the list depends on. -/
def Event.core (v : Event) : Bool × Option Nat := (v.flags.done, v.stack)

variable {s : State} {as : List Nat}

theorem Base.live_iff (hb : Base s as) {a : Nat} : s.live a ↔ a ∈ as := by
  constructor
  · intro hlive
    obtain ⟨n, hn⟩ := Option.isSome_iff_exists.mp hlive
    exact hb.listed.all a n hn
  · intro ha
    obtain ⟨n, hn⟩ := hb.listed.node ha
    exact Option.isSome_iff_exists.mpr ⟨n, hn⟩

theorem Base.same {m : Mem Event} (hb : Base s as) (hsame : Same Event.core s.mem.heap m.heap)
    (hbrk : m.brk = s.mem.brk) : Base { s with mem := m } as := by
  constructor
  · exact hb.listed.same (hsame.map Prod.snd)
  · intro a n hn
    obtain ⟨n', hn', -, hcore⟩ := hsame.symm.node hn
    have hdone : n'.val.flags.done = n.val.flags.done := congrArg Prod.fst hcore
    rw [← hdone]
    exact hb.done a n' hn'
  · intro a ha
    exact hbrk ▸ hb.old a ha

theorem Settled.same {m : Mem Event} {β : Type} {π : Event → β} (hset : Settled s)
    (hsame : Same π s.mem.heap m.heap) : Settled { s with mem := m } := by
  have hlive : ∀ a, State.live { s with mem := m } a = s.live a := hsame.isSome
  intro r hr hx
  rw [hlive] at hx
  refine ⟨(hset r hr hx).1, fun t ht heq hlt hly => ?_⟩
  rw [hlive] at hly
  exact (hset r hr hx).2 t ht heq hlt hly

theorem Left.refl (s : State) (as : List Nat) : Left s as as :=
  ⟨.refl _, fun _ ha hnot => absurd ha hnot⟩

/-- The messages are delivered one by one, and then the iteration ends. -/
theorem deliver_spec (hb : Base s as) (hhead : s.evhead ≠ none) (hset : Settled s) (i : Nat) :
    Inv (s.deliver i) ∧ (∀ p x frames, (s.deliver i).phase ≠ .inside p x frames) ∧
      ∃ as', Spine (s.deliver i).mem.heap (s.deliver i).evhead as' ∧ Left s as as' := by
  unfold State.deliver
  cases hmsg : s.msgs[i]? with
  | some cls =>
    refine ⟨⟨⟨as, hb.listed, hb.done, hb.old⟩, rfl, fun a ha => ?_, hhead, hset⟩, nofun,
      as, hb.listed.spine, .refl s as⟩
    exact hb.live_iff.mpr (hb.listed.head_mem a ha)
  | none =>
    obtain ⟨s', as', hreap, hl, hswept, hbrk⟩ := reap_spec hb.listed
    unfold State.cleanup
    rw [hreap]
    refine ⟨⟨⟨as', hl, ?_, ?_⟩, trivial⟩, nofun, as', hl.spine, hswept.sub, ?_⟩
    · intro a n hn
      have ha : a ∈ as → a ∈ as' := fun _ => hl.all a n hn
      have hval := hswept.vals a ha
      have hn : s'.mem.heap a = some n := hn
      rw [hn, Option.map_some, eq_comm, Option.map_eq_some_iff] at hval
      obtain ⟨n', hn', heq⟩ := hval
      rw [← heq]
      exact hb.done a n' hn'
    · intro a ha
      have hlt : a < s.mem.brk := hb.old a ha
      exact hbrk ▸ hlt
    · intro a ha hnot
      obtain ⟨n, hn, hends⟩ := hswept.ended a ha hnot
      by_cases hfin : a ∈ s.finished
      · exact Or.inl hfin
      · right
        have hdone : ¬ n.val.flags.done = true := mt (hb.done a n hn).mp hfin
        have hfailed : n.val.failed := by
          rcases Bool.or_eq_true_iff.mp hends with h | h
          · exact absurd h hdone
          · exact h
        refine ⟨⟨n, hn, hfailed⟩, fun y hy hstack => ?_⟩
        -- otherwise `y` would wait for `a`
        have hlive : s.live y := hb.live_iff.mpr (hswept.sub.subset hy)
        exact hfin (hset (y, a) hstack hlive).1

theorem leave_eq {e : Nat} {n : Node Event} (hn : s.mem.heap e = some n)
    (hstack : n.val.stack = none) (p : Pass) (frames : List Nat) :
    s.leave p e frames = { s with phase := .walk p n.next frames } := by
  simp only [State.leave, hn, hstack]

/-- On to the event behind `e`. -/
theorem leave_inv (hb : Base s as) {e : Nat} (he : s.live e) (hset : Settled s) (p : Pass) :
    Inv (s.leave p e []) ∧ (s.leave p e []).toStore = s.toStore ∧
      ∀ q x frames, (s.leave p e []).phase ≠ .inside q x frames := by
  obtain ⟨n, hn⟩ := Option.isSome_iff_exists.mp he
  rw [leave_eq hn (hb.listed.flat e n hn)]
  refine ⟨⟨⟨as, hb.listed, hb.done, hb.old⟩, rfl, ?_, ?_, hset⟩, rfl, nofun⟩
  · intro a ha
    exact hb.live_iff.mpr (hb.listed.next_mem hn a ha)
  · intro hhead
    have hs := hb.listed.spine
    have hmem := hb.live_iff.mp he
    rw [hhead] at hs
    cases as with
    | nil => cases hmem
    | cons a as => cases hs.1

theorem Pass.core_touch (p : Pass) (v : Event) : (p.touch v).core = v.core := by
  cases p with
  | run now =>
    simp only [Pass.touch]
    split <;> rfl
  | fd ready =>
    simp only [Pass.touch]
    split <;> rfl
  | msg i cls => rfl

theorem Pass.core_fail (p : Pass) (v : Event) : (p.fail v).core = v.core := by
  cases p <;> rfl

/-- A step that neither registers nor unregisters. -/
theorem Law.of_left {s s' : State} {e : Op} {as as' : List Nat} (hb : Base s as) (hinv : Inv s')
    (hop : Relinked s e as as' = Left s as as') (hleft : Left s as as')
    (hspine : Spine s'.mem.heap s'.evhead as')
    (hcalls : ∀ x, Calls e s' x → s.live x ∧ Settled s) : Law s e s' := by
  refine ⟨fun hcrash => ?_, fun x hx h hxh => ?_, as, as', hb.listed.spine, hspine, hop ▸ hleft⟩
  · have hphase := hinv.phase
    rw [hcrash] at hphase
    exact hphase
  · obtain ⟨hlive, hset⟩ := hcalls x hx
    obtain ⟨hfin, hturn⟩ := hset (x, h) hxh hlive
    exact ⟨hfin, fun y hy hyh => hturn (y, h) hyh rfl hy⟩

/-- `next`: on to the next callback, or to the end of the walk. -/
theorem advance_lawful {p : Pass} {e : Option Nat} (hb : Base s as) (he : ∀ a ∈ e, s.live a)
    (hhead : s.evhead ≠ none) (hset : Settled s) :
    Inv (s.advance p e []) ∧ Law s .next (s.advance p e []) := by
  cases e with
  | none =>
    have deliver : ∀ i, Inv (s.deliver i) ∧ Law s .next (s.deliver i) := by
      intro i
      obtain ⟨hinv, hout, as', hspine, hleft⟩ := deliver_spec hb hhead hset i
      refine ⟨hinv, .of_left hb hinv rfl hleft hspine ?_⟩
      rintro x ⟨-, q, frames, hphase⟩
      exact absurd hphase (hout q x frames)
    cases p with
    | run now =>
      have hinv : Inv (s.advance (.run now) none []) :=
        ⟨⟨as, hb.listed, hb.done, hb.old⟩, hhead, hset⟩
      refine ⟨hinv, .of_left hb hinv rfl (.refl s as) hb.listed.spine ?_⟩
      rintro x ⟨-, q, frames, hphase⟩
      cases hphase
    | fd ready => exact deliver 0
    | msg i cls => exact deliver (i + 1)
  | some e =>
    have hlive : s.live e := he e rfl
    obtain ⟨n, hn⟩ := Option.isSome_iff_exists.mp hlive
    have hsame : Same Event.core s.mem.heap (s.mem.modify e p.touch).heap := .modify p.core_touch
    have hb' : Base { s with mem := s.mem.modify e p.touch } as := hb.same hsame rfl
    have hset' : Settled { s with mem := s.mem.modify e p.touch } := hset.same hsame
    have hlive' : State.live { s with mem := s.mem.modify e p.touch } e := by
      rw [State.live, hsame.isSome]
      exact hlive
    simp only [State.advance, hn]
    by_cases hcalls : p.calls n.val
    · rw [if_pos hcalls]
      have hinv : Inv { s with mem := s.mem.modify e p.touch, phase := .inside p e [] } :=
        ⟨⟨as, hb'.listed, hb'.done, hb'.old⟩, rfl, hlive'⟩
      refine ⟨hinv, .of_left hb hinv rfl (.refl s as) hb'.listed.spine ?_⟩
      rintro x ⟨-, q, frames, hphase⟩
      cases hphase
      exact ⟨hlive, hset⟩
    · rw [if_neg hcalls]
      obtain ⟨hinv, hstore, hout⟩ := leave_inv hb' hlive' hset' p
      refine ⟨hinv, .of_left hb hinv rfl (.refl s as) ?_ ?_⟩
      · rw [hstore]
        exact hb'.listed.spine
      · rintro x ⟨-, q, frames, hphase⟩
        exact absurd hphase (hout q x frames)

/-- A callback has returned. -/
theorem ret_lawful {p : Pass} {e : Nat} (hb : Base s as) (he : s.live e) (hset : Settled s)
    (fail : Bool) :
    Inv (State.leave { s with mem := if fail then s.mem.modify e p.fail else s.mem } p e []) ∧
      Law s (.ret fail)
        (State.leave { s with mem := if fail then s.mem.modify e p.fail else s.mem } p e []) := by
  have hsame : Same Event.core s.mem.heap (if fail then s.mem.modify e p.fail else s.mem).heap := by
    cases fail with
    | false => exact .refl _ _
    | true => exact .modify p.core_fail
  have hbrk : (if fail then s.mem.modify e p.fail else s.mem).brk = s.mem.brk := by
    cases fail <;> rfl
  have hb' := hb.same hsame hbrk
  have hlive' : State.live { s with mem := if fail then s.mem.modify e p.fail else s.mem } e := by
    rw [State.live, hsame.isSome]
    exact he
  obtain ⟨hinv, hstore, -⟩ := leave_inv hb' hlive' (hset.same hsame) p
  refine ⟨hinv, .of_left hb hinv rfl (.refl s as) ?_ ?_⟩
  · rw [hstore]
    exact hb'.listed.spine
  · rintro x ⟨hop, -⟩
    cases hop

theorem select_lawful (hb : Base s as) (hhead : s.evhead ≠ none) (hset : Settled s) (tv : Int)
    (ready : Option (List Nat)) :
    Inv (s.select tv ready) ∧ Law s (.select tv ready) (s.select tv ready) := by
  obtain ⟨m, hm, hsame, hbrk⟩ :=
    eventFdAddToSet_spec tv hb.listed.spine hb.listed.flat hb.listed.spine.length_le
  have hcore : Same Event.core s.mem.heap m.heap := hsame.map fun x => (x.1, x.2.2)
  have hb' := hb.same hcore hbrk
  have hset' := hset.same hcore
  have quiet : ∀ s' : State, Inv s' → ∀ as', Spine s'.mem.heap s'.evhead as' → Left s as as' →
      Inv s' ∧ Law s (.select tv ready) s' := by
    intro s' hinv as' hspine hleft
    refine ⟨hinv, .of_left hb hinv rfl hleft hspine ?_⟩
    rintro x ⟨hop, -⟩
    cases hop
  have deliver : Inv (State.deliver { s with mem := m } 0) ∧
      Law s (.select tv ready) (State.deliver { s with mem := m } 0) := by
    obtain ⟨hinv, -, as', hspine, hleft⟩ := deliver_spec hb' hhead hset' 0
    refine quiet _ hinv as' hspine ⟨hleft.sub, fun a ha hnot => ?_⟩
    refine (hleft.gone a ha hnot).imp_right ?_
    rintro ⟨⟨n, hn, hfailed⟩, hstack⟩
    obtain ⟨n', hn', -, hshape⟩ := hsame.symm.node hn
    have heq : n'.val.failed = n.val.failed := congrArg (fun x => x.2.1) hshape
    exact ⟨⟨n', hn', heq ▸ hfailed⟩, hstack⟩
  obtain ⟨e, he⟩ := Option.ne_none_iff_exists'.mp hhead
  have hmem : e ∈ as := hb.listed.head_mem e he
  obtain ⟨n, hn⟩ := hb'.listed.node hmem
  have hhn : s.evhead.bind m.heap = some n := by
    rw [he]
    exact hn
  simp only [State.select, hm, hhn]
  by_cases hfd : n.val.flags.fd
  · rw [if_pos hfd]
    cases ready with
    | none =>
      exact quiet _ ⟨⟨as, hb'.listed, hb'.done, hb'.old⟩, trivial⟩ as hb'.listed.spine (.refl s as)
    | some ready =>
      cases ready with
      | nil => exact deliver
      | cons d ready =>
        refine quiet _ ⟨⟨as, hb'.listed, hb'.done, hb'.old⟩, rfl, fun a ha => ?_, hhead, hset'⟩ as
          hb'.listed.spine (.refl s as)
        exact hb'.live_iff.mpr (hb.listed.head_mem a ha)
  · rw [if_neg hfd]
    exact deliver

/-! ## What the program does -/

/-- Outside the loop and in a callback, only the event called has to stay. -/
theorem phaseOk_program {s' : State} (hprog : s.phase.program) (hok : PhaseOk s s.phase)
    (hphase : s'.phase = s.phase) (hlive : ∀ e, s.phase.current = some e → s.live e → s'.live e) :
    PhaseOk s' s'.phase := by
  rw [hphase]
  cases hp : s.phase with
  | idle => trivial
  | inside p e frames =>
    rw [hp] at hok
    exact ⟨hok.1, hlive e (by rw [hp]; rfl) hok.2⟩
  | walk p e frames =>
    rw [hp] at hprog
    cases hprog
  | select =>
    rw [hp] at hprog
    cases hprog
  | crashed =>
    rw [hp] at hprog
    cases hprog

theorem register_lawful (hb : Base s as) (hprog : s.phase.program) (hok : PhaseOk s s.phase)
    {head : Option Nat} (hhead : ∀ h ∈ head, s.live h) (flags : Flags) (delayUntil : Int) :
    Inv (s.register head flags delayUntil) ∧
      Law s (.register head flags delayUntil) (s.register head flags delayUntil) := by
  obtain ⟨st, hst, hl, hnew, hold, hbrk⟩ := eventRegisterAction_spec hb.listed
    (fun h hh => hb.live_iff.mp (hhead h hh)) flags delayUntil
  have hfresh : s.mem.brk ∉ s.finished := fun hmem => Nat.lt_irrefl _ (hb.old _ hmem)
  have hbase : Base (s.register head flags delayUntil) (as ++ [s.mem.brk]) := by
    unfold State.register
    rw [hst]
    refine ⟨hl, fun a n hn => ?_, fun a ha => ?_⟩
    · have hn : st.mem.heap a = some n := hn
      simp only [State.put]
      by_cases ha : a = s.mem.brk
      · subst ha
        rw [hn, Option.map_some, Option.some_inj] at hnew
        rw [hnew]
        by_cases hdone : flags.done
        · simp [newEvent, hdone]
        · simp [newEvent, hdone, hfresh]
      · have hval := hold a ha
        rw [hn, Option.map_some, eq_comm, Option.map_eq_some_iff] at hval
        obtain ⟨n', hn', heq⟩ := hval
        rw [← heq, hb.done a n' hn']
        by_cases hdone : flags.done
        · simp [hdone, ha]
        · simp [hdone]
    · have ha : a ∈ if flags.done then s.mem.brk :: s.finished else s.finished := ha
      have hlt : a < s.mem.brk + 1 := by
        by_cases hdone : flags.done
        · rw [if_pos hdone] at ha
          rcases List.mem_cons.mp ha with rfl | ha
          · exact Nat.lt_succ_self _
          · exact Nat.lt_succ_of_lt (hb.old a ha)
        · rw [if_neg hdone] at ha
          exact Nat.lt_succ_of_lt (hb.old a ha)
      exact hbrk ▸ hlt
  have hphase : (s.register head flags delayUntil).phase = s.phase := by
    unfold State.register
    rw [hst]
    rfl
  have hinv : Inv (s.register head flags delayUntil) := by
    refine ⟨⟨_, hbase⟩, phaseOk_program hprog hok hphase fun e _ he => ?_⟩
    exact hbase.live_iff.mpr (List.mem_append_left _ (hb.live_iff.mp he))
  refine ⟨hinv, fun hcrash => ?_, ?_, as, _, hb.listed.spine, hbase.listed.spine, rfl⟩
  · have hbad := hinv.phase
    rw [hcrash] at hbad
    exact hbad
  · rintro x ⟨hop, -⟩
    cases hop

/-- The first event is unregistered, and nothing else. -/
theorem unregister_lawful (hb : Base s as) (hprog : s.phase.program) (hok : PhaseOk s s.phase)
    {head : Option Nat} {bad : Nat} (hord : Orderly s (.unregister head bad)) :
    Inv (s.unregister head bad) ∧ Law s (.unregister head bad) (s.unregister head bad) := by
  obtain ⟨rfl, hfirst, hcur, halone⟩ := hord
  cases as with
  | nil =>
    have hnone := hb.listed.spine
    rw [hfirst] at hnone
    cases hnone
  | cons b as =>
    have hs := hb.listed.spine
    rw [hfirst] at hs
    cases hs.1
    obtain ⟨st, hst, hl, hgone, hsame, hbrk⟩ := eventUnregisterAction_first hb.listed (s.mem.brk + 1)
    have hnot : bad ∉ as := (List.nodup_cons.mp hb.listed.spine.nodup).1
    have hres : s.unregister none bad = { s with toStore := st } := by
      simp only [State.unregister, Option.map_none, Option.getD_none, hst, State.put]
    have hbase : Base { s with toStore := st } as := by
      refine ⟨hl, fun a n hn => ?_, fun a ha => ?_⟩
      · have ha : a ≠ bad := by
          rintro rfl
          cases hgone.symm.trans hn
        exact hb.done a n ((hsame a ha).symm.trans hn)
      · have hlt : a < s.mem.brk := hb.old a ha
        exact hbrk ▸ hlt
    have hinv : Inv { s with toStore := st } := by
      refine ⟨⟨as, hbase⟩, phaseOk_program hprog hok rfl fun e he hlive => ?_⟩
      have hne : e ≠ bad := by
        rintro rfl
        exact hcur he
      rw [State.live, hsame e hne]
      exact hlive
    rw [hres]
    refine ⟨hinv, fun hcrash => ?_, ?_, _, as, hb.listed.spine, hl.spine, ?_⟩
    · have hbad := hinv.phase
      rw [hcrash] at hbad
      exact hbad
    · rintro x ⟨hop, -⟩
      cases hop
    · have hkeep : ∀ a ∈ as, decide (a ≠ bad ∧ (a, bad) ∉ s.stacked) = true := by
        intro a ha
        refine decide_eq_true ⟨?_, fun hstack => ?_⟩
        · rintro rfl
          exact hnot ha
        · exact halone (a, bad) hstack rfl (hb.live_iff.mpr (List.mem_cons_of_mem bad ha))
      show as = (bad :: as).filter _
      rw [List.filter_cons_of_neg (by simp), List.filter_eq_self.mpr hkeep]

theorem Setting.stack_apply (x : Setting) (v : Event) : (x.apply v).stack = v.stack := by
  cases x with
  | registerFd fd =>
    simp only [Setting.apply, eventRegisterFd]
    split <;> split <;> rfl
  | _ => rfl

theorem Setting.done_apply {x : Setting} (hx : x ≠ .markDone) (v : Event) :
    (x.apply v).flags.done = v.flags.done := by
  cases x with
  | registerFd fd =>
    simp only [Setting.apply, eventRegisterFd]
    split <;> split <;> rfl
  | markDone => exact absurd rfl hx
  | _ => rfl

theorem set_lawful (hb : Base s as) (hprog : s.phase.program) (hok : PhaseOk s s.phase) {e : Nat}
    (he : s.live e) (x : Setting) : Inv (s.set e x) ∧ Law s (.set e x) (s.set e x) := by
  obtain ⟨n, hn⟩ := Option.isSome_iff_exists.mp he
  have hl := hb.listed.same (m := s.mem.modify e x.apply) (.modify x.stack_apply)
  have hbase : Base (s.set e x) as := by
    by_cases hx : x = .markDone
    · subst hx
      refine ⟨hl, fun a m hm => ?_, fun a ha => ?_⟩
      · simp only [State.set, if_true, List.mem_cons]
        by_cases ha : a = e
        · subst ha
          cases (Mem.modify_self hn).symm.trans hm
          simp [Setting.apply, eventMarkDone, Event.setFlags]
        · have hm : s.mem.heap a = some m := (Mem.modify_of_ne ha).symm.trans hm
          simp only [ha, false_or]
          exact hb.done a m hm
      · have ha : a ∈ e :: s.finished := ha
        rcases List.mem_cons.mp ha with rfl | ha
        · exact hb.listed.spine.lt_brk (hb.live_iff.mp he)
        · exact hb.old a ha
    · have hfin : (s.set e x).finished = s.finished := if_neg hx
      refine ⟨hl, fun a m hm => ?_, fun a ha => ?_⟩
      · rw [hfin]
        by_cases ha : a = e
        · subst ha
          cases (Mem.modify_self hn).symm.trans hm
          rw [← hb.done a n hn]
          simp only [Setting.done_apply hx]
        · exact hb.done a m ((Mem.modify_of_ne ha).symm.trans hm)
      · rw [hfin] at ha
        exact hb.old a ha
  have hinv : Inv (s.set e x) := by
    refine ⟨⟨as, hbase⟩, phaseOk_program hprog hok rfl fun a _ ha => ?_⟩
    exact hbase.live_iff.mpr (hb.live_iff.mp ha)
  refine ⟨hinv, .of_left hb hinv rfl (.refl s as) hl.spine ?_⟩
  rintro y ⟨hop, -⟩
  cases hop

/-! ## Runs -/

/-- The invariant and the law, step by step. -/
theorem step_lawful {s s' : State} {e : Op} (hinv : Inv s) (hord : Orderly s e)
    (hs : step s e = some s') : Inv s' ∧ Law s e s' := by
  obtain ⟨as, hb⟩ := hinv.base
  have hok := hinv.phase
  cases e with
  | register head flags delayUntil =>
    simp only [step] at hs
    split at hs
    · next hcond =>
      cases hs
      exact register_lawful hb hcond.1 hok hcond.2 flags delayUntil
    · cases hs
  | unregister head bad =>
    simp only [step] at hs
    split at hs
    · next hcond =>
      cases hs
      exact unregister_lawful hb hcond.1 hok hord
    · cases hs
  | set a x =>
    simp only [step] at hs
    split at hs
    · next hcond =>
      cases hs
      exact set_lawful hb hcond.1 hok hcond.2 x
    · cases hs
  | post cls =>
    simp only [step] at hs
    split at hs
    · next hprog =>
      cases hs
      have hinv' : Inv { s with msgs := s.msgs ++ [cls] } :=
        ⟨⟨as, hb.listed, hb.done, hb.old⟩, phaseOk_program hprog hok rfl fun _ _ h => h⟩
      refine ⟨hinv', .of_left hb hinv' rfl (.refl s as) hb.listed.spine ?_⟩
      rintro y ⟨hop, -⟩
      cases hop
    · cases hs
  | begin now =>
    simp only [step] at hs
    split at hs
    · next hcond =>
      cases hs
      have hinv' : Inv { s with phase := .walk (.run now) s.evhead [] } := by
        refine ⟨⟨as, hb.listed, hb.done, hb.old⟩, rfl, fun a ha => ?_, hcond.2, hord⟩
        exact hb.live_iff.mpr (hb.listed.head_mem a ha)
      refine ⟨hinv', .of_left hb hinv' rfl (.refl s as) hb.listed.spine ?_⟩
      rintro y ⟨hop, -⟩
      cases hop
    · cases hs
  | ret fail =>
    cases hp : s.phase with
    | inside p a frames =>
      rw [hp] at hok
      obtain ⟨rfl, hlive⟩ := hok
      simp only [step, hp] at hs
      cases hs
      exact ret_lawful hb hlive hord fail
    | _ =>
      simp only [step, hp] at hs
      cases hs
  | next =>
    cases hp : s.phase with
    | walk p a frames =>
      rw [hp] at hok
      obtain ⟨rfl, hlive, hhead, hset⟩ := hok
      simp only [step, hp] at hs
      cases hs
      exact advance_lawful hb hlive hhead hset
    | _ =>
      simp only [step, hp] at hs
      cases hs
  | select tv ready =>
    simp only [step] at hs
    split at hs
    · next hp =>
      cases hs
      rw [hp] at hok
      exact select_lawful hb hok.1 hok.2 tv ready
    · cases hs

def Lawful (s : State) (e : Op) : Prop := ∀ s', step s e = some s' → Law s e s'

/-- **The scheduler.** Where nothing in the list waits for its head when the loop goes on,
and only the first event is unregistered, every step of the run meets the law. -/
theorem lawful_of_orderly {es : List Op} (hok : Runs.AllSteps step Orderly .init es) :
    Runs.AllSteps step Lawful .init es :=
  .of_inv (fun _ _ _ hinv hord hs => (step_lawful hinv hord hs).1)
    (fun _ _ hinv hord _ hs => (step_lawful hinv hord hs).2) inv_init hok

/-- An event registers another under itself, is done, and makes room for it. -/
theorem lawful_handOver :
    Runs.AllSteps step Lawful .init
      [.register none .zero 0, .begin 0, .next, .register (some 0) .zero 0, .set 0 .markDone,
        .ret false, .next, .ret false, .next, .select 0 none, .unregister none 1] :=
  lawful_of_orderly <|
    .cons trivial rfl <| .cons (by decide : Settled _) rfl <| .cons trivial rfl <|
    .cons trivial rfl <| .cons trivial rfl <| .cons (by decide : Settled _) rfl <|
    .cons trivial rfl <| .cons (by decide : Settled _) rfl <| .cons trivial rfl <|
    .cons trivial rfl ⟨⟨rfl, rfl, by decide, by decide⟩, fun _ _ => trivial⟩

/-- An event is called while its head is not done, and one is lost when the event behind it
is unregistered. -/
theorem law_broken :
    ¬ Runs.AllSteps step Lawful .init
      [.register none .zero 0, .register (some 0) .zero 0, .begin 0, .next, .ret false, .next] ∧
    ¬ Runs.AllSteps step Lawful .init
      [.register none .zero 0, .register none .zero 0, .unregister none 1] := by
  constructor
  · intro h
    have hlaw := ((((((h.2 _ rfl).2 _ rfl).2 _ rfl).2 _ rfl).2 _ rfl).1 _ rfl)
    have hfin := (hlaw.inTurn 1 ⟨rfl, _, _, rfl⟩ 0 List.mem_cons_self).1
    cases hfin
  · intro h
    have hlaw := ((h.2 _ rfl).2 _ rfl).1 _ rfl
    obtain ⟨as, as', hs, hs', hrel⟩ := hlaw.kept
    have has : as = [0, 1] := hs.unique ⟨rfl, _, _, rfl, rfl, _, _, rfl, rfl⟩
    have has' : as' = [] := hs'.unique rfl
    subst has has'
    cases hrel

end Despotify.Ui.EventLoop

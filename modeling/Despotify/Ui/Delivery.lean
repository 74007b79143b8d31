import Despotify.Ui.EventLoop
import Mathlib.Data.List.ProdSigma

/-!
# Delivering the queued messages

The delivery of `event_loop`: `msgs[i]` is shown to the events of the list, one after the other,
and a callback that is called with it may post more, which the loop finds at the end of the
array when it gets there.  A message is known by its number in the order of the posts.

    n messages, those posted meanwhile included:  looks = 0, 1, .. n - 1 at each event of the list
    delivered = the looks at which the filter matches                    (delivery_exactly_once)
    no other step of the loop leads into it                                     (deliver_of_step)
-/

namespace Despotify.Ui.EventLoop

open Linked

/-! ## What is seen of a run -/

/-- `event_msg_deliver` at an event. -/
structure Look where
  msg : Nat
  cls : Nat
  event : Nat
  filter : Nat
  deriving DecidableEq, Repr

/-- `(e->msg_class_filter & m->class) != 0` -/
def Look.hit (v : Look) : Bool := v.filter &&& v.cls != 0

def Look.key (v : Look) : Nat × Nat := (v.msg, v.event)

def looks (s : State) (e : Op) : List Look :=
  match s.phase, e with
  | .walk (.msg i cls) (some a) _, .next =>
    (s.mem.heap a).toList.map fun n => ⟨i, cls, a, n.val.msgClassFilter⟩
  | _, _ => []

/-- The message and the event of the callback that runs. -/
def Phase.called : Phase → List (Nat × Nat)
  | .inside (.msg i _) a _ => [(i, a)]
  | _ => []

/-- The callback that `event_msg_deliver` calls: the number of the message, and the event. -/
def delivered (s : State) : Op → List (Nat × Nat)
  | .next => ((step s .next).map fun t => t.phase.called).getD []
  | _ => []

/-- The message queued by a step. -/
def Op.posted : Op → List Nat
  | .post cls => [cls]
  | _ => []

/-- The steps of `event_loop` itself, and the return to it. -/
def Op.loops : Op → Bool
  | .next => true
  | .ret _ => true
  | _ => false

/-- `for (i = 0; i < num_msgs; i++)` is running. -/
def Phase.delivering : Phase → Bool
  | .walk (.msg _ _) _ _ => true
  | .inside (.msg _ _) _ _ => true
  | _ => false

/-- The loop is running, and no callback registers or unregisters an event. -/
def InDelivery (s : State) (e : Op) : Prop :=
  s.phase.delivering = true ∧ (e.loops = true ∨ e.posted ≠ [] ∨ ∃ a x, e = .set a x)

/-! ## The invariant -/

variable {as : List Nat}

/-- The messages `0 .. i - 1` at every event, `i` at the events `pre`. -/
def seen (as pre : List Nat) (i : Nat) : List (Nat × Nat) :=
  List.range i ×ˢ as ++ pre.map fun a => (i, a)

theorem seen_full (as : List Nat) (i : Nat) : seen as as i = seen as [] (i + 1) := by
  rw [seen, seen, List.range_succ, List.map_nil, List.append_nil]
  simp [SProd.sprod, List.product]

theorem seen_concat (as pre : List Nat) (i a : Nat) :
    seen as (pre ++ [a]) i = seen as pre i ++ [(i, a)] := by
  rw [seen, seen, List.map_append, List.append_assoc]
  rfl

/-- Where the loop is, by the messages `M` posted until now, the looks `L` and the number `c` of
its steps. -/
inductive Shown (as M : List Nat) (L : List Look) (c : Nat) (t : State) : Prop
  | walk {i cls : Nat} {p : Option Nat} {pre rest : List Nat}
      (hphase : t.phase = .walk (.msg i cls) p []) (hmsgs : t.msgs = M) (hcls : M[i]? = some cls)
      (hlist : Spine t.mem.heap t.evhead as) (has : as = pre ++ rest)
      (hrest : Spine t.mem.heap p rest) (hseen : L.map Look.key = seen as pre i)
      (hc : c ≤ i * (2 * as.length + 1) + 2 * pre.length)
  | inside {i cls a : Nat} {pre rest : List Nat} (hphase : t.phase = .inside (.msg i cls) a [])
      (hmsgs : t.msgs = M) (hcls : M[i]? = some cls) (hlist : Spine t.mem.heap t.evhead as)
      (has : as = pre ++ a :: rest) (hseen : L.map Look.key = seen as (pre ++ [a]) i)
      (hc : c ≤ i * (2 * as.length + 1) + 2 * pre.length + 1)
  | ended (hphase : t.phase.delivering = false) (hmsgs : t.msgs = [])
      (hseen : L.map Look.key = seen as [] M.length) (hc : c ≤ M.length * (2 * as.length + 1))

theorem cleanup_msgs (s : State) : s.cleanup.msgs = [] := by
  unfold State.cleanup State.put
  split <;> rfl

theorem cleanup_phase (s : State) : s.cleanup.phase.delivering = false := by
  unfold State.cleanup State.put
  split <;> rfl

/-- On to the message `i`. -/
theorem Shown.deliver {s : State} {L : List Look} {c i : Nat} (hlist : Spine s.mem.heap s.evhead as)
    (hi : i ≤ s.msgs.length) (hseen : L.map Look.key = seen as [] i)
    (hc : c ≤ i * (2 * as.length + 1)) : Shown as s.msgs L c (s.deliver i) := by
  unfold State.deliver
  cases hcls : s.msgs[i]? with
  | some cls => exact .walk rfl rfl hcls hlist (List.nil_append as).symm hlist hseen hc
  | none =>
    obtain rfl : i = s.msgs.length := Nat.le_antisymm hi (List.getElem?_eq_none_iff.mp hcls)
    exact .ended (cleanup_phase s) (cleanup_msgs s) hseen hc

theorem leave_msg {s : State} {e : Nat} {n : Node Event} (hn : s.mem.heap e = some n)
    (i cls : Nat) :
    s.leave (.msg i cls) e [] = { s with phase := .walk (.msg i cls) n.next [] } := by
  simp only [State.leave, hn]

/-- `event_msg_deliver` writes nothing before it calls. -/
theorem modify_touch (m : Mem Event) (a i cls : Nat) : m.modify a (Pass.msg i cls).touch = m := by
  have hheap : Linked.modify m.heap a (Pass.msg i cls).touch = m.heap := by
    funext b
    by_cases hb : b = a
    · subst hb
      rw [Linked.modify, Function.update_self]
      cases m.heap b <;> rfl
    · exact Linked.modify_of_ne hb
  obtain ⟨heap, brk, fresh⟩ := m
  simp only [Mem.modify, Mem.mk.injEq, and_true]
  exact hheap

theorem advance_msg {s : State} {a : Nat} {n : Node Event} (hn : s.mem.heap a = some n)
    (i cls : Nat) : s.advance (.msg i cls) (some a) [] =
      if (n.val.msgClassFilter &&& cls != 0) = true then
        { s with phase := .inside (.msg i cls) a [] }
      else { s with phase := .walk (.msg i cls) n.next [] } := by
  simp only [State.advance, hn, modify_touch]
  rw [leave_msg hn]
  rfl

variable {s s' : State} {e : Op} {M : List Nat} {L : List Look} {c : Nat}

/-- The loop goes on. -/
theorem Shown.next (h : Shown as M L c s) (hd : s.phase.delivering = true)
    (hs : step s .next = some s') : Shown as M (L ++ looks s .next) (c + 1) s' := by
  cases h with
  | ended hphase => simp [hphase] at hd
  | inside hphase =>
    simp only [step, hphase] at hs
    cases hs
  | @walk i cls p pre rest hphase hmsgs hcls hlist has hrest hseen hc =>
    simp only [step, hphase] at hs
    cases hs
    cases rest with
    | nil =>
      cases hrest
      obtain rfl : pre = as := by rw [has, List.append_nil]
      have hlooks : looks s .next = [] := by simp only [looks, hphase]
      rw [hlooks, List.append_nil, ← hmsgs]
      have hi : i < s.msgs.length := hmsgs ▸ (List.getElem?_eq_some_iff.mp hcls).1
      refine Shown.deliver hlist hi (hseen.trans (seen_full pre i)) ?_
      rw [Nat.succ_mul]
      omega
    | cons a rest =>
      obtain ⟨rfl, v, q, ha, hq⟩ := hrest
      have hkey : (L ++ looks s .next).map Look.key = seen as (pre ++ [a]) i := by
        rw [List.map_append, hseen, seen_concat]
        simp only [looks, hphase, ha]
        rfl
      rw [advance_msg ha]
      split
      · exact .inside rfl hmsgs hcls hlist has hkey (by omega)
      · refine .walk rfl hmsgs hcls hlist ?_ hq hkey ?_
        · rw [has, List.append_assoc]
          rfl
        · rw [List.length_append, List.length_singleton]
          omega

/-- A callback runs, or returns. -/
theorem Shown.inside_step (h : Shown as M L c s) (hok : InDelivery s e) (hne : e ≠ .next)
    (hs : step s e = some s') :
    Shown as (M ++ e.posted) L (if e.loops then c + 1 else c) s' := by
  obtain ⟨hd, hop⟩ := hok
  cases h with
  | ended hphase => simp [hphase] at hd
  | walk hphase =>
    -- no callback runs
    rcases hop with hloops | hposted | ⟨a, x, rfl⟩
    · cases e with
      | next => exact (hne rfl).elim
      | ret fail => simp [step, hphase] at hs
      | _ => cases hloops
    · cases e with
      | post cls => simp [step, hphase, Phase.program] at hs
      | _ => exact (hposted rfl).elim
    · simp [step, hphase, Phase.program] at hs
  | @inside i cls a pre rest hphase hmsgs hcls hlist has hseen hc =>
    rcases hop with hloops | hposted | ⟨b, x, rfl⟩
    · cases e with
      | next => exact (hne rfl).elim
      | ret fail =>
        simp only [step, hphase] at hs
        cases hs
        have hlist' : Spine (if fail then s.mem.modify a (Pass.msg i cls).fail else s.mem).heap
            s.evhead as := by
          cases fail with
          | false => exact hlist
          | true => exact hlist.modifyMem a _
        obtain ⟨n, hn⟩ := hlist'.node (show a ∈ as by rw [has]; simp)
        have hrest := (has ▸ hlist').next hn
        rw [leave_msg hn, show M ++ (Op.ret fail).posted = M from List.append_nil M]
        refine .walk rfl hmsgs hcls hlist' ?_ hrest hseen ?_
        · rw [has, List.append_assoc]
          rfl
        · rw [List.length_append, List.length_singleton, show (Op.ret fail).loops = true from rfl,
            if_pos rfl]
          omega
      | _ => cases hloops
    · cases e with
      | post cls' =>
        simp only [step, hphase, Phase.program, if_true] at hs
        cases hs
        refine .inside rfl (congrArg (· ++ [cls']) hmsgs) ?_ hlist has hseen hc
        exact (List.getElem?_append_left (List.getElem?_eq_some_iff.mp hcls).1).trans hcls
      | _ => exact (hposted rfl).elim
    · simp only [step] at hs
      split at hs
      · cases hs
        rw [show M ++ (Op.set b x).posted = M from List.append_nil M]
        exact .inside hphase hmsgs hcls (hlist.modifyMem b x.apply) has hseen hc
      · cases hs

theorem looks_of_ne (s : State) {e : Op} (hne : e ≠ .next) : looks s e = [] := by
  unfold looks
  split
  · exact (hne rfl).elim
  · rfl

/-- **A step of the delivery.** -/
theorem Shown.step (h : Shown as M L c s) (hok : InDelivery s e) (hs : step s e = some s') :
    Shown as (M ++ e.posted) (L ++ looks s e) (if e.loops then c + 1 else c) s' := by
  by_cases hne : e = .next
  · subst hne
    rw [show M ++ Op.next.posted = M from List.append_nil M]
    exact h.next hok.1 hs
  · rw [looks_of_ne s hne, List.append_nil]
    exact h.inside_step hok hne hs

/-- A message is looked at with its class. -/
theorem Shown.looks_cls (h : Shown as M L c s) : ∀ v ∈ looks s e, M[v.msg]? = some v.cls := by
  intro v hv
  unfold looks at hv
  split at hv
  · next i cls a frames hphase =>
    obtain ⟨n, -, rfl⟩ := List.mem_map.mp hv
    cases h with
    | walk hphase' hmsgs hcls =>
      cases hphase.symm.trans hphase'
      exact hcls
    | inside hphase' => cases hphase.symm.trans hphase'
    | ended hphase' =>
      rw [hphase] at hphase'
      cases hphase'
  · cases hv

theorem Shown.count_le (h : Shown as M L c s) : c ≤ M.length * (2 * as.length + 1) := by
  have hbound : ∀ i cls, M[i]? = some cls →
      i * (2 * as.length + 1) + (2 * as.length + 1) ≤ M.length * (2 * as.length + 1) := by
    intro i cls hcls
    rw [← Nat.succ_mul]
    exact Nat.mul_le_mul_right _ (List.getElem?_eq_some_iff.mp hcls).1
  cases h with
  | walk hphase hmsgs hcls hlist has hrest hseen hc =>
    have := hbound _ _ hcls
    have hlen := congrArg List.length has
    rw [List.length_append] at hlen
    omega
  | inside hphase hmsgs hcls hlist has hseen hc =>
    have := hbound _ _ hcls
    have hlen := congrArg List.length has
    rw [List.length_append, List.length_cons] at hlen
    omega
  | ended hphase hmsgs hseen hc => exact hc

theorem deliver_called (s : State) (i : Nat) : (s.deliver i).phase.called = [] := by
  unfold State.deliver
  split
  · rfl
  · unfold State.cleanup State.put
    split <;> rfl

/-- The callback is called where the filter matches. -/
theorem Shown.delivered_eq (h : Shown as M L c s) (hd : s.phase.delivering = true) :
    delivered s e = ((looks s e).filter Look.hit).map Look.key := by
  by_cases hne : e = .next
  · subst hne
    cases h with
    | ended hphase => simp [hphase] at hd
    | inside hphase => simp [delivered, looks, EventLoop.step, hphase]
    | @walk i cls p pre rest hphase hmsgs hcls hlist has hrest =>
      simp only [delivered, looks, EventLoop.step, hphase, Option.map_some, Option.getD_some]
      cases rest with
      | nil =>
        cases hrest
        exact deliver_called s (i + 1)
      | cons a rest =>
        obtain ⟨rfl, v, q, ha, hq⟩ := hrest
        rw [advance_msg ha]
        simp only [ha, Option.toList_some, List.map_cons, List.map_nil]
        by_cases hhit : (v.msgClassFilter &&& cls != 0) = true
        · have hlook : Look.hit ⟨i, cls, a, v.msgClassFilter⟩ = true := hhit
          rw [if_pos hhit, List.filter_cons_of_pos hlook]
          rfl
        · have hlook : ¬ Look.hit ⟨i, cls, a, v.msgClassFilter⟩ = true := hhit
          rw [if_neg hhit, List.filter_cons_of_neg hlook]
          rfl
  · rw [looks_of_ne s hne]
    cases e with
    | next => exact (hne rfl).elim
    | _ => rfl

/-! ## Runs -/

theorem put_phase (s : State) (o : Option Store) :
    (s.put o).phase = s.phase ∨ (s.put o).phase = .crashed := by
  unfold State.put
  split
  · exact .inr rfl
  · exact .inl rfl

theorem leave_delivering (s : State) {p : Pass} (hp : ∀ i cls, p ≠ .msg i cls) (e : Nat)
    (frames : List Nat) : (s.leave p e frames).phase.delivering = false := by
  unfold State.leave
  cases p with
  | msg i cls => exact (hp i cls rfl).elim
  | _ =>
    split
    · rfl
    · split <;> rfl

/-- The delivery begins at the first message. -/
theorem deliver_of_step (hs : step s e = some s') (hout : s.phase.delivering = false)
    (hin : s'.phase.delivering = true) :
    ∃ s₀ : State, s' = s₀.deliver 0 ∧ s₀.msgs = s.msgs ∧ s₀.evhead = s.evhead := by
  have hput : ∀ (s₁ : State) o, s' = s₁.put o → s₁.phase = s.phase → False := by
    rintro s₁ o rfl heq
    rcases put_phase s₁ o with h | h
    · rw [h, heq, hout] at hin
      cases hin
    · rw [h] at hin
      cases hin
  have hsame : s'.phase = s.phase → False := by
    intro h
    rw [h, hout] at hin
    cases hin
  cases e with
  | register head flags delayUntil =>
    simp only [step] at hs
    split at hs <;> cases hs
    exact (hput _ _ rfl rfl).elim
  | unregister head bad =>
    simp only [step] at hs
    split at hs <;> cases hs
    exact (hput s _ rfl rfl).elim
  | set a x =>
    simp only [step] at hs
    split at hs <;> cases hs
    exact (hsame rfl).elim
  | post cls =>
    simp only [step] at hs
    split at hs <;> cases hs
    exact (hsame rfl).elim
  | begin now =>
    simp only [step] at hs
    split at hs <;> cases hs
    cases hin
  | ret fail =>
    cases hphase : s.phase with
    | inside p a frames =>
      simp only [step, hphase] at hs
      cases hs
      rw [hphase] at hout
      rw [leave_delivering _ (by rintro i cls rfl; cases hout)] at hin
      cases hin
    | _ =>
      simp only [step, hphase] at hs
      cases hs
  | next =>
    cases hphase : s.phase with
    | walk p a frames =>
      simp only [step, hphase] at hs
      cases hs
      rw [hphase] at hout
      cases p with
      | msg i cls => cases hout
      | run now =>
        have hleave : ∀ s₁ a, (State.leave s₁ (.run now) a frames).phase.delivering = false :=
          fun s₁ a => leave_delivering s₁ (fun i cls h => by cases h) a frames
        cases a with
        | none =>
          cases frames with
          | nil => cases hin
          | cons f frames =>
            simp only [State.advance] at hin
            split at hin <;> cases hin
        | some a =>
          simp only [State.advance] at hin
          split at hin
          · cases hin
          · split at hin
            · cases hin
            · rw [hleave] at hin
              cases hin
      | fd ready =>
        have hleave : ∀ s₁ a, (State.leave s₁ (.fd ready) a frames).phase.delivering = false :=
          fun s₁ a => leave_delivering s₁ (fun i cls h => by cases h) a frames
        cases a with
        | none =>
          cases frames with
          | nil => exact ⟨s, rfl, rfl, rfl⟩
          | cons f frames =>
            simp only [State.advance] at hin
            split at hin <;> cases hin
        | some a =>
          simp only [State.advance] at hin
          split at hin
          · cases hin
          · split at hin
            · cases hin
            · rw [hleave] at hin
              cases hin
    | _ =>
      simp only [step, hphase] at hs
      cases hs
  | select tv ready =>
    simp only [step] at hs
    split at hs <;> cases hs
    unfold State.select at hin ⊢
    split
    · next hnone =>
      rw [hnone] at hin
      cases hin
    · next m hm =>
      rw [hm] at hin
      dsimp only at hin ⊢
      split
      · next hnone =>
        rw [hnone] at hin
        cases hin
      · next n hn =>
        rw [hn] at hin
        dsimp only at hin
        split
        · next hfd =>
          rw [if_pos hfd] at hin
          match ready, hin with
          | none, hin => cases hin
          | some [], _ => exact ⟨_, rfl, rfl, rfl⟩
          | some (r :: rs), hin => cases hin
        · exact ⟨_, rfl, rfl, rfl⟩
theorem Shown.run {es : List Op} {t : State} (h : Shown as M L c s)
    (hok : Runs.AllSteps EventLoop.step InDelivery s es)
    (ht : Runs.exec EventLoop.step s es = some t) :
    Shown as (M ++ es.flatMap Op.posted) (L ++ Runs.outputs EventLoop.step looks s es)
        (c + es.countP Op.loops) t ∧
      (∀ v ∈ Runs.outputs EventLoop.step looks s es,
        (M ++ es.flatMap Op.posted)[v.msg]? = some v.cls) ∧
      Runs.outputs EventLoop.step delivered s es =
        ((Runs.outputs EventLoop.step looks s es).filter Look.hit).map Look.key := by
  induction es generalizing s M L c with
  | nil =>
    cases ht
    rw [List.flatMap_nil, List.append_nil, Runs.outputs, List.append_nil]
    refine ⟨h, fun v hv => ?_, rfl⟩
    cases hv
  | cons e es ih =>
    obtain ⟨s', hs, ht⟩ := Runs.exec_cons_eq_some.mp ht
    obtain ⟨hshown, hcls, heq⟩ := ih (h.step hok.1 hs) (hok.2 s' hs) ht
    rw [List.append_assoc, List.append_assoc] at hshown
    rw [List.append_assoc] at hcls
    rw [List.flatMap_cons, Runs.outputs_cons looks hs, Runs.outputs_cons delivered hs]
    refine ⟨?_, ?_, ?_⟩
    · have hcount : (if e.loops then c + 1 else c) + es.countP Op.loops =
          c + (e :: es).countP Op.loops := by
        rw [List.countP_cons]
        split <;> omega
      rwa [hcount] at hshown
    · rw [List.forall_mem_append]
      refine ⟨fun v hv => ?_, hcls⟩
      have hM := h.looks_cls v hv
      exact (List.getElem?_append_left (List.getElem?_eq_some_iff.mp hM).1).trans hM
    · rw [List.filter_append, List.map_append, h.delivered_eq hok.1.1, heq]

/-- The loop is not stuck. -/
theorem exists_step_of_delivering (hd : s.phase.delivering = true) :
    ∃ e, e.loops = true ∧ ∃ s', step s e = some s' := by
  cases hphase : s.phase with
  | walk p e frames => exact ⟨.next, rfl, _, by simp only [step, hphase]; rfl⟩
  | inside p e frames => exact ⟨.ret false, rfl, _, by simp only [step, hphase]; rfl⟩
  | _ =>
    rw [hphase] at hd
    cases hd

/-- **Every message once, and in order.**  The delivery of `event_loop` to the events `as`, in any
run in which no callback registers or unregisters: it ends unless the posts go on for ever; and
then every message, of those queued before and those posted by callbacks, in their order, has
been looked at by every event of the list in turn, the callbacks called are those of the looks
at which the filter matched, and the queue is empty. -/
theorem delivery_exactly_once {s t : State} {as : List Nat} {es : List Op}
    (hlist : Spine s.mem.heap s.evhead as)
    (hok : Runs.AllSteps step InDelivery (s.deliver 0) es)
    (ht : Runs.exec step (s.deliver 0) es = some t) :
    let messages := s.msgs ++ es.flatMap Op.posted
    let shown := Runs.outputs step looks (s.deliver 0) es
    es.countP Op.loops ≤ messages.length * (2 * as.length + 1) ∧
      (t.phase.delivering = true → ∃ e, e.loops = true ∧ ∃ t', step t e = some t') ∧
      (t.phase.delivering = false →
        shown.map Look.key = List.range messages.length ×ˢ as ∧
        (∀ v ∈ shown, messages[v.msg]? = some v.cls) ∧
        Runs.outputs step delivered (s.deliver 0) es = (shown.filter Look.hit).map Look.key ∧
        t.msgs = []) := by
  have hstart : Shown as s.msgs [] 0 (s.deliver 0) :=
    .deliver hlist (Nat.zero_le _) (by simp [seen]) (Nat.zero_le _)
  obtain ⟨hshown, hcls, heq⟩ := hstart.run hok ht
  rw [List.nil_append, Nat.zero_add] at hshown
  refine ⟨hshown.count_le, exists_step_of_delivering, fun hover => ?_⟩
  cases hshown with
  | walk hphase =>
    rw [hphase] at hover
    cases hover
  | inside hphase =>
    rw [hphase] at hover
    cases hover
  | ended hphase hmsgs hseen hc =>
    rw [seen, List.map_nil, List.append_nil] at hseen
    exact ⟨hseen, hcls, heq, hmsgs⟩

/-- One event that listens, and a message. -/
def oneMessage : State :=
  { mem := Mem.empty.alloc { newEvent .zero 0 with msgClassFilter := 1 }
    evhead := some 0
    msgs := [1]
    phase := .select
    stacked := []
    finished := [] }

/-- The callback posts another message, of a class that the event does not listen to. -/
theorem delivery_exactly_once_two :
    ∃ t, Runs.exec step (oneMessage.deliver 0) [.next, .post 2, .ret false, .next, .next, .next] =
        some t ∧ t.msgs = [] ∧
      Runs.outputs step delivered (oneMessage.deliver 0)
        [.next, .post 2, .ret false, .next, .next, .next] = [(0, 0)] := by
  have hlist : Spine oneMessage.mem.heap oneMessage.evhead [0] := ⟨rfl, _, _, rfl, rfl⟩
  have hok : Runs.AllSteps step InDelivery (oneMessage.deliver 0)
      [.next, .post 2, .ret false, .next, .next, .next] :=
    .cons ⟨rfl, .inl rfl⟩ rfl <| .cons ⟨rfl, .inr (.inl (by decide))⟩ rfl <|
    .cons ⟨rfl, .inl rfl⟩ rfl <| .cons ⟨rfl, .inl rfl⟩ rfl <| .cons ⟨rfl, .inl rfl⟩ rfl <|
    .cons ⟨rfl, .inl rfl⟩ rfl trivial
  obtain ⟨-, -, hend⟩ := delivery_exactly_once hlist hok rfl
  obtain ⟨-, -, hdel, hmsgs⟩ := hend rfl
  exact ⟨_, rfl, hmsgs, hdel⟩

end Despotify.Ui.EventLoop

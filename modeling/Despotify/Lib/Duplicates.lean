import Despotify.Lib.Bookkeeping
import Despotify.Pool.Chunks

/-!
# Tracks that occur more than once

A playlist may have a track several times; every batch of `despotify_load_tracks` gets
an answer for each id it asks for, under that id or with a redirect of it.  An answer
fills in the first track that waits under one of its ids, from the batch to the end of
the list.

* `Undisturbed`: no track waits under an id that an answer is tried under before the
  one it is for.
* `During.placeAll`: what the answers of a batch make of the list.
* `loadLoop_values`: after the rounds the first of its id in every batch is filled in,
  and no other.
-/

namespace Despotify.Lib

open Gateway Linked Chunks

/-! ## Answers -/

/-- The batch of a number. -/
def batch (all : List Nat) (b : Nat) : List Nat := chunk MAX_BROWSE_REQ all b

/-- The number of the batch a track is in. -/
def batchOf (all : List Nat) (a : Nat) : Nat := number MAX_BROWSE_REQ all a

/-- The first of its id in its batch. -/
def First (all : List Nat) (x : Nat → CString) (a : Nat) : Prop := Lead MAX_BROWSE_REQ all x a

instance (all : List Nat) (x : Nat → CString) : DecidablePred (First all x) := fun a =>
  inferInstanceAs (Decidable (Lead MAX_BROWSE_REQ all x a))

/-- The ids an element is tried under, in that order. -/
def keys (e : Locals × Ezxml) : List CString :=
  tid e.1 e.2 :: (e.2.children "redirect").map (·.txt.take 33)

/-- The elements of a batch, each with the id it is the answer for: every id of the
batch has one. -/
structure Answered (x : Nat → CString) (asked : List Nat) (es : List (Locals × Ezxml))
    (ps : List (CString × Locals × Ezxml)) : Prop where
  elements : es = ps.map Prod.snd
  once : (ps.map Prod.fst).Nodup
  ids : ∀ q, q ∈ ps.map Prod.fst ↔ ∃ a ∈ asked, x a = q
  mem_keys : ∀ p ∈ ps, p.1 ∈ keys p.2

/-- No track from the batch on waits under an id that comes before the one an answer is
for: there is none with the id, but one in the batch itself, answered before. -/
def Undisturbed (x : Nat → CString) (asked rest : List Nat) (ps : List (CString × Locals × Ezxml)) :
    Prop :=
  ∀ done p later, ps = done ++ p :: later →
    ∀ key ∈ (keys p.2).takeWhile (· ≠ p.1), ∀ a ∈ rest, x a = key →
      key ∈ done.map Prod.fst ∧ a ∈ asked ∧ ∀ c ∈ rest, x c = key → c = a

variable {highBitrate : Bool} {all : List Nat} {x : Nat → CString}
  {ps : Nat → List (CString × Locals × Ezxml)} {answers : Nat → Answer}

/-- What an element makes of a blank track. -/
def filled (highBitrate : Bool) (e : Locals × Ezxml) : Track := fillAs highBitrate e {}

theorem fillAs_blank (highBitrate : Bool) (e : Locals × Ezxml) (id : CString) :
    fillAs highBitrate e { trackId := id } = filled highBitrate e := rfl

/-- The answer for a track, from its batch. -/
def answerFor (ps : Nat → List (CString × Locals × Ezxml)) (all : List Nat) (x : Nat → CString)
    (a : Nat) : Option (Locals × Ezxml) :=
  ((ps (batchOf all a)).find? fun p => p.1 = x a).map Prod.snd

/-- The track as its answer fills it in. -/
def resolved (highBitrate : Bool) (ps : Nat → List (CString × Locals × Ezxml)) (all : List Nat)
    (x : Nat → CString) (a : Nat) : Track :=
  match answerFor ps all x a with
  | some e => filled highBitrate e
  | none => { trackId := x a }

/-! ## One batch -/

theorem locate_eq (h : Heap Track) (as : List Nat) (e : Locals × Ezxml) :
    locate h as (tid e.1 e.2) (e.2.children "redirect") =
      (keys e).findSome? fun key => as.find? fun a => decide (At (Unfilled key) h a) := by
  rw [locate, keys, List.findSome?_cons, List.findSome?_map]
  cases as.find? fun a => decide (At (Unfilled (tid e.1 e.2)) h a) <;> rfl

/-- The values while a batch is filled in: those before are done, and of this one the
first tracks of the ids `done`. -/
def During (highBitrate : Bool) (ps : Nat → List (CString × Locals × Ezxml)) (all : List Nat)
    (x : Nat → CString) (b : Nat) (done : List CString) (h : Heap Track) : Prop :=
  ∀ a ∈ all, (h a).map Node.val = some
    (if First all x a ∧ (batchOf all a < b ∨ batchOf all a = b ∧ x a ∈ done) then
      resolved highBitrate ps all x a
    else { trackId := x a })

variable {b : Nat} {es : List (Locals × Ezxml)} {h : Heap Track} {a : Nat}

theorem maxBrowseReq_pos : 0 < MAX_BROWSE_REQ := by decide

theorem mem_batch_iff (hall : all.Nodup) : a ∈ batch all b ↔ a ∈ all ∧ batchOf all a = b :=
  mem_chunk_iff maxBrowseReq_pos hall

/-- What is left from a batch on. -/
theorem mem_drop_iff (hall : all.Nodup) :
    a ∈ all.drop (MAX_BROWSE_REQ * b) ↔ a ∈ all ∧ b ≤ batchOf all a := by
  rw [List.mem_drop_iff_getElem]
  constructor
  · rintro ⟨i, hi, rfl⟩
    refine ⟨List.getElem_mem _, ?_⟩
    rw [batchOf, number, hall.idxOf_getElem, Nat.le_div_iff_mul_le maxBrowseReq_pos, Nat.mul_comm]
    omega
  · rintro ⟨ha, hb⟩
    have hlt := List.idxOf_lt_length_of_mem ha
    rw [batchOf, number, Nat.le_div_iff_mul_le maxBrowseReq_pos, Nat.mul_comm] at hb
    refine ⟨all.idxOf a - MAX_BROWSE_REQ * b, by omega, ?_⟩
    simp only [Nat.add_sub_cancel' hb]
    exact List.getElem_idxOf hlt

/-- A track whose id has an answer in its batch. -/
theorem resolved_of_mem (highBitrate : Bool) (hmem : x a ∈ (ps (batchOf all a)).map Prod.fst) :
    ∃ p ∈ ps (batchOf all a), p.1 = x a ∧ answerFor ps all x a = some p.2 ∧
      resolved highBitrate ps all x a = filled highBitrate p.2 := by
  obtain ⟨p, hp, hpx⟩ := List.mem_map.mp hmem
  cases hfind : (ps (batchOf all a)).find? fun p => p.1 = x a with
  | none =>
    have hno := List.find?_eq_none.mp hfind p hp
    simp [hpx] at hno
  | some p' =>
    have hanswer : answerFor ps all x a = some p'.2 := by rw [answerFor, hfind, Option.map_some]
    exact ⟨p', List.mem_of_find?_eq_some hfind, by simpa using List.find?_some hfind, hanswer,
      by rw [resolved, hanswer]⟩

/-- Its answer is the one of the pair that has the id. -/
theorem answerFor_eq {p : CString × Locals × Ezxml} (honce : ((ps b).map Prod.fst).Nodup)
    (hp : p ∈ ps b) (hb : batchOf all a = b) (hx : x a = p.1) :
    answerFor ps all x a = some p.2 := by
  have hmem : x a ∈ (ps (batchOf all a)).map Prod.fst := by
    rw [hb, hx]
    exact List.mem_map_of_mem hp
  obtain ⟨p', hp', hkey, hanswer, -⟩ := resolved_of_mem true hmem
  rw [hb] at hp'
  rw [hanswer, List.inj_on_of_nodup_map honce hp' hp (hkey.trans hx)]

/-- The tracks that wait while a batch is filled in. -/
theorem During.unfilled_iff {done : List CString} (hd : During highBitrate ps all x b done h)
    (hdone : ∀ q ∈ done, q ∈ (ps b).map Prod.fst) (ha : a ∈ all) (hb : b ≤ batchOf all a)
    (key : CString) :
    At (Unfilled key) h a ↔ x a = key ∧ ¬ (First all x a ∧ batchOf all a = b ∧ x a ∈ done) := by
  obtain ⟨n, hn, hval⟩ := Option.map_eq_some_iff.mp (hd a ha)
  rw [at_iff hn, hval]
  have hcond : (First all x a ∧ (batchOf all a < b ∨ batchOf all a = b ∧ x a ∈ done)) ↔
      First all x a ∧ batchOf all a = b ∧ x a ∈ done := by
    constructor
    · rintro ⟨hf, hlt | heq⟩
      · omega
      · exact ⟨hf, heq⟩
    · rintro ⟨hf, heq⟩
      exact ⟨hf, .inr heq⟩
  by_cases hfilled : First all x a ∧ batchOf all a = b ∧ x a ∈ done
  · rw [if_pos (hcond.mpr hfilled)]
    have hmem : x a ∈ (ps (batchOf all a)).map Prod.fst := by
      rw [hfilled.2.1]
      exact hdone _ hfilled.2.2
    obtain ⟨p, -, -, -, hres⟩ := resolved_of_mem highBitrate hmem
    rw [hres]
    exact iff_of_false (fun h' => nomatch h'.1) (fun h' => h'.2 hfilled)
  · rw [if_neg fun h' => hfilled (hcond.mp h')]
    exact ⟨fun h' => ⟨h'.2, hfilled⟩, fun h' => ⟨rfl, h'.1⟩⟩

/-- What an answer fills in: the first track of its id in the batch. -/
theorem During.locate_eq {done : List CString} {p : CString × Locals × Ezxml}
    {later : List (CString × Locals × Ezxml)} {before : List (CString × Locals × Ezxml)}
    (hall : all.Nodup) (hans : Answered x (batch all b) es (ps b))
    (hun : Undisturbed x (batch all b) (all.drop (MAX_BROWSE_REQ * b)) (ps b))
    (hsplit : ps b = before ++ p :: later) (hdone : done = before.map Prod.fst)
    (hd : During highBitrate ps all x b done h) :
    ∃ c ∈ all, batchOf all c = b ∧ x c = p.1 ∧ First all x c ∧
      locate h (all.drop (MAX_BROWSE_REQ * b)) (tid p.2.1 p.2.2) (p.2.2.children "redirect") =
        some c := by
  have hp : p ∈ ps b := by
    rw [hsplit]
    simp
  have hsub : ∀ q ∈ done, q ∈ (ps b).map Prod.fst := by
    intro q hq
    rw [hsplit, List.map_append]
    exact List.mem_append_left _ (hdone ▸ hq)
  have hnew : p.1 ∉ done := by
    have honce := hans.once
    rw [hsplit, List.map_append, List.map_cons, ← hdone] at honce
    exact fun hmem => (List.nodup_append.mp honce).2.2 _ hmem _ List.mem_cons_self rfl
  obtain ⟨a, ha, hax⟩ := (hans.ids p.1).mp (List.mem_map_of_mem hp)
  obtain ⟨haall, hab⟩ := (mem_batch_iff hall).mp ha
  obtain ⟨c, hc, hcb, hcx, hfirst, hfind⟩ := exists_lead maxBrowseReq_pos hall x haall
  have hcb : batchOf all c = b := hcb.trans hab
  refine ⟨c, hc, hcb, hcx.trans hax, hfirst, ?_⟩
  have hwaits : ∀ a ∈ all.drop (MAX_BROWSE_REQ * b), ∀ key, At (Unfilled key) h a ↔
      x a = key ∧ ¬ (First all x a ∧ batchOf all a = b ∧ x a ∈ done) := by
    intro a ha key
    obtain ⟨ha, hb⟩ := (mem_drop_iff hall).mp ha
    exact hd.unfilled_iff hsub ha hb key
  rw [Lib.locate_eq]
  refine findSome?_eq_of_takeWhile (hans.mem_keys p hp) ?_ ?_
  · -- an id tried before: its track has been filled in
    intro key hkey
    refine List.find?_eq_none.mpr fun a ha => ?_
    rw [decide_eq_true_eq, hwaits a ha]
    rintro ⟨hax, hnot⟩
    obtain ⟨hkdone, hka, huniq⟩ := hun before p later hsplit key hkey a ha hax
    obtain ⟨haall, hab⟩ := (mem_batch_iff hall).mp hka
    obtain ⟨c', hc', hcb', hcx', hfirst', -⟩ := exists_lead maxBrowseReq_pos hall x haall
    have hcb' : batchOf all c' = b := hcb'.trans hab
    have hca : c' = a := by
      refine huniq c' ((mem_drop_iff hall).mpr ⟨hc', by omega⟩) (hcx'.trans hax)
    subst hca
    exact hnot ⟨hfirst', hab, by rw [hax, hdone]; exact hkdone⟩
  · -- its own id: the first of the batch is the first from the batch on
    have hown : (all.drop (MAX_BROWSE_REQ * b)).find? (fun d => decide (x d = p.1)) = some c := by
      have hparts : all.drop (MAX_BROWSE_REQ * b) =
          batch all b ++ (all.drop (MAX_BROWSE_REQ * b)).drop MAX_BROWSE_REQ :=
        (List.take_append_drop _ _).symm
      rw [hparts, List.find?_append]
      have hbatch : (batch all b).find? (fun d => decide (x d = p.1)) = some c := by
        rw [← hax]
        rw [show number MAX_BROWSE_REQ all a = b from hab] at hfind
        exact hfind
      rw [hbatch, Option.some_or]
    have hcd : c ∈ all.drop (MAX_BROWSE_REQ * b) := (mem_drop_iff hall).mpr ⟨hc, by omega⟩
    refine find?_eq_some_of_imp hown ?_ ?_
    · rw [decide_eq_true_eq, hwaits c hcd]
      refine ⟨hcx.trans hax, fun hfilled => hnew ?_⟩
      rw [← hcx.trans hax]
      exact hfilled.2.2
    · intro d hd' hat
      rw [decide_eq_true_eq, hwaits d hd'] at hat
      rw [decide_eq_true_eq]
      exact hat.1

/-- One answer. -/
theorem During.place {n : Nat} {before later : List (CString × Locals × Ezxml)}
    {p : CString × Locals × Ezxml} (hall : all.Nodup) (hans : Answered x (batch all b) es (ps b))
    (hun : Undisturbed x (batch all b) (all.drop (MAX_BROWSE_REQ * b)) (ps b))
    (hsplit : ps b = before ++ p :: later)
    (hd : During highBitrate ps all x b (before.map Prod.fst) h) :
    During highBitrate ps all x b ((before ++ [p]).map Prod.fst)
      (place highBitrate (all.drop (MAX_BROWSE_REQ * b)) (h, n) p.2).1 := by
  obtain ⟨c, hc, hcb, hcx, hfirst, hloc⟩ := hd.locate_eq hall hans hun hsplit rfl
  have hp : p ∈ ps b := by
    rw [hsplit]
    simp
  have hnew : p.1 ∉ before.map Prod.fst := by
    have honce := hans.once
    rw [hsplit, List.map_append, List.map_cons] at honce
    exact fun hmem => (List.nodup_append.mp honce).2.2 _ hmem _ List.mem_cons_self rfl
  rw [Lib.place]
  simp only [hloc]
  intro a ha
  rw [List.map_append, List.map_singleton]
  obtain ⟨n, hn, hval⟩ := Option.map_eq_some_iff.mp (hd a ha)
  by_cases hac : a = c
  · subst hac
    rw [modify_self hn, Option.map_some,
      if_pos ⟨hfirst, .inr ⟨hcb, by rw [hcx]; exact List.mem_append_right _ List.mem_cons_self⟩⟩]
    rw [if_neg] at hval
    · rw [hval, fillAs_blank, resolved, answerFor_eq hans.once hp hcb hcx]
    · rintro ⟨-, hlt | ⟨-, hmem⟩⟩
      · omega
      · exact hnew (hcx ▸ hmem)
  · rw [modify_of_ne hac, hn, Option.map_some, hval]
    congr 1
    refine if_congr ?_ rfl rfl
    constructor
    · rintro ⟨hf, hlt | ⟨hb, hmem⟩⟩
      · exact ⟨hf, .inl hlt⟩
      · exact ⟨hf, .inr ⟨hb, List.mem_append_left _ hmem⟩⟩
    · rintro ⟨hf, hlt | ⟨hb, hmem⟩⟩
      · exact ⟨hf, .inl hlt⟩
      · rcases List.mem_append.mp hmem with hmem | hmem
        · exact ⟨hf, .inr ⟨hb, hmem⟩⟩
        · have hax : x a = p.1 := List.mem_singleton.mp hmem
          exact absurd (hfirst.unique hf (hb.trans hcb.symm) (hax.trans hcx.symm)) hac

/-- All answers of a batch. -/
theorem During.placeAll {n : Nat} {before later : List (CString × Locals × Ezxml)}
    (hall : all.Nodup) (hans : Answered x (batch all b) es (ps b))
    (hun : Undisturbed x (batch all b) (all.drop (MAX_BROWSE_REQ * b)) (ps b))
    (hsplit : ps b = before ++ later)
    (hd : During highBitrate ps all x b (before.map Prod.fst) h) :
    During highBitrate ps all x b ((ps b).map Prod.fst)
      (placeAll highBitrate (all.drop (MAX_BROWSE_REQ * b)) (later.map Prod.snd) (h, n)).1 := by
  induction later generalizing h n before with
  | nil =>
    rw [hsplit, List.append_nil]
    exact hd
  | cons p later ih =>
    have hstep := hd.place (n := n) hall hans hun hsplit
    rw [List.append_cons] at hsplit
    exact ih hsplit hstep

/-- A batch is done. -/
theorem During.next (hall : all.Nodup) (hans : Answered x (batch all b) es (ps b))
    (hd : During highBitrate ps all x b ((ps b).map Prod.fst) h) :
    During highBitrate ps all x (b + 1) [] h := by
  intro a ha
  rw [hd a ha]
  congr 1
  refine if_congr ?_ rfl rfl
  constructor
  · rintro ⟨hf, hlt | ⟨hb, -⟩⟩
    · exact ⟨hf, .inl (by omega)⟩
    · exact ⟨hf, .inl (by omega)⟩
  · rintro ⟨hf, hlt | ⟨-, hmem⟩⟩
    · refine ⟨hf, ?_⟩
      rcases Nat.lt_or_ge (batchOf all a) b with hlt' | hge
      · exact .inl hlt'
      · have hb : batchOf all a = b := by omega
        exact .inr ⟨hb, (hans.ids _).mpr ⟨a, (mem_batch_iff hall).mpr ⟨ha, hb⟩, rfl⟩⟩
    · cases hmem

/-! ## The loop -/

/-- Every batch is answered, and undisturbed. -/
structure Served (all : List Nat) (x : Nat → CString) (answers : Nat → Answer)
    (ps : Nat → List (CString × Locals × Ezxml)) : Prop where
  answered : ∀ b, batch all b ≠ [] → Answered x (batch all b) (answers b).elements (ps b)
  undisturbed : ∀ b, batch all b ≠ [] →
    Undisturbed x (batch all b) (all.drop (MAX_BROWSE_REQ * b)) (ps b)

/-- An answer with elements is no failure. -/
theorem error_of_elements {answer : Answer} (h : answer.elements ≠ []) : answer.error = none := by
  cases answer with
  | cached | fetched | notInflated => rfl
  | sendFailed | timeout => exact absurd rfl h

theorem Answered.ne_nil {asked : List Nat} {ps : List (CString × Locals × Ezxml)}
    (hans : Answered x asked es ps) (hasked : asked ≠ []) : es ≠ [] := by
  obtain ⟨a, ha⟩ := List.exists_mem_of_ne_nil asked hasked
  obtain ⟨p, hp, -⟩ := List.mem_map.mp ((hans.ids (x a)).mpr ⟨a, ha, rfl⟩)
  rw [hans.elements]
  exact List.ne_nil_of_mem (List.mem_map_of_mem hp)

/-- The values of the list after the rounds: the first of its id in every batch is filled
in. -/
def Leads (highBitrate : Bool) (ps : Nat → List (CString × Locals × Ezxml)) (all : List Nat)
    (x : Nat → CString) (h : Heap Track) : Prop :=
  ∀ a ∈ all, (h a).map Node.val =
    some (if First all x a then resolved highBitrate ps all x a else { trackId := x a })

/-- While tracks are left to ask for, the next batch has some. -/
theorem Load.On.batch_ne_nil {s : Load} {root : Option Nat} {before : List Nat}
    (hon : s.On root before (all.drop (MAX_BROWSE_REQ * b)))
    (hsplit : before ++ all.drop (MAX_BROWSE_REQ * b) = all)
    (hmore : (s.totcount : Int) < all.length) : batch all b ≠ [] := by
  have hlen := congrArg List.length hsplit
  rw [hon.totcount] at hmore
  rw [List.length_append, List.length_drop] at hlen
  rw [batch, Ne, chunk_eq_nil_iff maxBrowseReq_pos]
  omega

theorem loadLoop_values {fuel rounds : Nat} {mem : Mem Track} {root : Option Nat} {s : Load}
    {err : Option String} (hs : Spine mem.heap root all)
    (hblank : ∀ a ∈ all, (mem.heap a).map Node.val = some { trackId := x a })
    (hserved : Served all x answers ps) (hfuel : all.length ≤ fuel)
    (h : loadLoop fuel highBitrate answers all.length rounds ⟨mem, root, 0, 0, []⟩ =
      some (s, err)) :
    err = none ∧ Spine s.mem.heap root all ∧ Leads highBitrate ps all x s.mem.heap := by
  have hnodup := hs.nodup
  have hround : ∀ {s s' : Load} {before as : List Nat}, before ++ as = all → s.On root before as →
      as = all.drop (MAX_BROWSE_REQ * s.requested.length) ∧
        During highBitrate ps all x s.requested.length [] s.mem.heap →
      (s.totcount : Int) < all.length →
      (s'.mem.heap, s'.trackCount) = Lib.placeAll highBitrate as
        (answers s.requested.length).elements (s.mem.heap, s.trackCount) →
      s'.requested =
        (vals s.mem.heap (as.take MAX_BROWSE_REQ)).map Track.trackId :: s.requested →
      as.drop MAX_BROWSE_REQ = all.drop (MAX_BROWSE_REQ * s'.requested.length) ∧
        During highBitrate ps all x s'.requested.length [] s'.mem.heap := by
    rintro s s' before as hsplit hon ⟨rfl, hduring⟩ hmore hplace hreq
    rw [hreq, List.length_cons]
    refine ⟨by rw [List.drop_drop, Nat.mul_succ], ?_⟩
    have hne := hon.batch_ne_nil hsplit hmore
    have hans := hserved.answered _ hne
    have hheap := congrArg Prod.fst hplace
    dsimp only at hheap
    rw [hheap, hans.elements]
    refine During.next hnodup hans ?_
    exact During.placeAll hnodup hans (hserved.undisturbed _ hne)
      (show ps s.requested.length = [] ++ ps s.requested.length from rfl) hduring
  have hstart : During highBitrate ps all x 0 [] mem.heap := by
    intro a ha
    rw [hblank a ha, if_neg]
    rintro ⟨-, hlt | ⟨-, hmem⟩⟩
    · cases hlt
    · cases hmem
  obtain ⟨before, as, hsplit, hon, ⟨has, hduring⟩, hdone, hfail⟩ := loadLoop_inv
    (I := fun s _ as => as = all.drop (MAX_BROWSE_REQ * s.requested.length) ∧
      During highBitrate ps all x s.requested.length [] s.mem.heap) hfuel hround rfl
    (Load.On.start hs) ⟨rfl, hstart⟩ h
  have herr : err = none := by
    cases err with
    | none => rfl
    | some e =>
      obtain ⟨s₀, before₀, as₀, hsplit₀, hon₀, ⟨rfl, -⟩, hmore₀, herr₀⟩ := hfail e rfl
      have hne := hon₀.batch_ne_nil hsplit₀ hmore₀
      rw [error_of_elements ((hserved.answered _ hne).ne_nil hne)] at herr₀
      cases herr₀
  refine ⟨herr, hsplit ▸ hon.list, fun a ha => ?_⟩
  -- every track has been asked for
  have hrest : as = [] := by
    have hlen := congrArg List.length hsplit
    have hcount := hdone herr
    rw [hon.totcount] at hcount
    rw [List.length_append] at hlen
    exact List.length_eq_zero_iff.mp (by omega)
  have hlt : batchOf all a < s.requested.length := by
    have hnot : a ∉ all.drop (MAX_BROWSE_REQ * s.requested.length) := by
      rw [← has, hrest]
      exact List.not_mem_nil
    rw [mem_drop_iff hnodup] at hnot
    by_contra hge
    exact hnot ⟨ha, by omega⟩
  rw [hduring a ha]
  congr 1
  refine if_congr ?_ rfl rfl
  constructor
  · exact fun h' => h'.1
  · exact fun hf => ⟨hf, .inl hlt⟩

end Despotify.Lib

import Despotify.Lib.Duplicates

/-!
# Copies of the tracks filled in

The second pass of `despotify_load_tracks` gives a track that is still without metadata
those of the first track of the list that has its id by then, which may be one that a
redirect has brought there.

* `Leads.duplicates`: what the pass makes of the list the rounds have left.
* `loaded_values`: the list that the function leaves.
* `resolved_iff`: all tracks are resolved, and alike for one id, exactly when an id that
  a batch has twice is not redirected and the answers agree.
* `twice_unresolved`: a list with a track that is not.
-/

namespace Despotify.Lib

open Gateway Linked Chunks

variable {highBitrate : Bool} {all : List Nat} {x : Nat → CString}
  {ps : Nat → List (CString × Locals × Ezxml)} {answers : Nat → Answer} {h : Heap Track}
  {a : Nat}

/-! ## Filled tracks -/

theorem parseArtists_ne_nil (xas xids : List Ezxml) : parseArtists xas xids ≠ [] := by
  unfold parseArtists
  cases xas with
  | nil => exact List.cons_ne_nil _ _
  | cons xa xas => cases xids <;> exact List.cons_ne_nil _ _

/-- A copy of a track filled in is the track. -/
theorem copyTrack_filled (e : Locals × Ezxml) :
    copyTrack (filled highBitrate e) = filled highBitrate e := by
  have hartist : (filled highBitrate e).artist ≠ [] := by
    rw [filled, fillAs, fillTrack_artist]
    exact parseArtists_ne_nil _ _
  have hmeta : (filled highBitrate e).hasMetaData = true := rfl
  rw [copyTrack, if_neg hartist, ← hmeta]

/-- The first track of the list that its answer has given an id. -/
def sourceOf (highBitrate : Bool) (ps : Nat → List (CString × Locals × Ezxml)) (all : List Nat)
    (x : Nat → CString) (q : CString) : Option Nat :=
  all.find? fun a => decide (First all x a ∧ (resolved highBitrate ps all x a).trackId = q)

/-- A track as both passes leave it. -/
def settled (highBitrate : Bool) (ps : Nat → List (CString × Locals × Ezxml)) (all : List Nat)
    (x : Nat → CString) (a : Nat) : Track :=
  if First all x a then resolved highBitrate ps all x a
  else match sourceOf highBitrate ps all x (x a) with
    | some tt => resolved highBitrate ps all x tt
    | none => { trackId := x a }

/-- The track of an answer. -/
theorem Served.resolved_eq (hserved : Served all x answers ps) (highBitrate : Bool)
    (hall : all.Nodup) (ha : a ∈ all) :
    ∃ e, resolved highBitrate ps all x a = filled highBitrate e := by
  have hmem : a ∈ batch all (batchOf all a) := (mem_batch_iff hall).mpr ⟨ha, rfl⟩
  have hans := hserved.answered _ (List.ne_nil_of_mem hmem)
  obtain ⟨p, -, -, -, hres⟩ := resolved_of_mem highBitrate ((hans.ids (x a)).mpr ⟨a, hmem, rfl⟩)
  exact ⟨_, hres⟩

theorem sourceOf_some {q : CString} {tt : Nat}
    (hsource : sourceOf highBitrate ps all x q = some tt) :
    tt ∈ all ∧ First all x tt ∧ (resolved highBitrate ps all x tt).trackId = q := by
  refine ⟨List.mem_of_find?_eq_some hsource, ?_⟩
  simpa using List.find?_some hsource

/-! ## The second pass -/

/-- The values while the pass goes on: the tracks `done` are as it leaves them. -/
def Settling (highBitrate : Bool) (ps : Nat → List (CString × Locals × Ezxml)) (all : List Nat)
    (x : Nat → CString) (done : List Nat) (h : Heap Track) : Prop :=
  ∀ a ∈ all, (h a).map Node.val = some
    (if First all x a ∨ a ∈ done then settled highBitrate ps all x a else { trackId := x a })

theorem settled_of_first (hf : First all x a) :
    settled highBitrate ps all x a = resolved highBitrate ps all x a := if_pos hf

theorem settled_of_source (hf : ¬ First all x a) {tt : Nat}
    (hsource : sourceOf highBitrate ps all x (x a) = some tt) :
    settled highBitrate ps all x a = resolved highBitrate ps all x tt := by
  rw [settled, if_neg hf, hsource]

theorem settled_of_none (hf : ¬ First all x a)
    (hsource : sourceOf highBitrate ps all x (x a) = none) :
    settled highBitrate ps all x a = { trackId := x a } := by
  rw [settled, if_neg hf, hsource]

variable {done : List Nat} {d : Nat} {q : CString}

/-- The track of an answer with this id can be copied. -/
theorem Settling.filled_of_first (hserved : Served all x answers ps) (hall : all.Nodup)
    (hset : Settling highBitrate ps all x done h) (hd : d ∈ all) (hf : First all x d)
    (hid : (resolved highBitrate ps all x d).trackId = q) : At (Filled q) h d := by
  obtain ⟨n, hn, hval⟩ := Option.map_eq_some_iff.mp (hset d hd)
  rw [if_pos (.inl hf), settled_of_first hf] at hval
  obtain ⟨e, he⟩ := hserved.resolved_eq highBitrate hall hd
  rw [at_iff hn, hval]
  refine ⟨?_, hid⟩
  rw [he]
  rfl

/-- A track that can be copied is that of an answer, or a copy itself. -/
theorem Settling.source_of_filled (hset : Settling highBitrate ps all x done h) (hd : d ∈ all)
    (hat : At (Filled q) h d) :
    (h d).map Node.val = some (settled highBitrate ps all x d) ∧
      (First all x d ∧ (resolved highBitrate ps all x d).trackId = q ∨
        ∃ tt, sourceOf highBitrate ps all x q = some tt ∧
          settled highBitrate ps all x d = resolved highBitrate ps all x tt) := by
  obtain ⟨n, hn, hmeta, hid⟩ := hat
  have hval := hset d hd
  rw [hn, Option.map_some, Option.some_inj] at hval
  by_cases hcond : First all x d ∨ d ∈ done
  · rw [if_pos hcond] at hval
    refine ⟨by rw [hn, Option.map_some, hval], ?_⟩
    by_cases hf : First all x d
    · rw [hval, settled_of_first hf] at hid
      exact .inl ⟨hf, hid⟩
    · cases hsource : sourceOf highBitrate ps all x (x d) with
      | none =>
        rw [hval, settled_of_none hf hsource] at hmeta
        cases hmeta
      | some tt =>
        have hset' := settled_of_source hf hsource
        obtain ⟨-, -, hkey⟩ := sourceOf_some hsource
        have hxd : x d = q := by rw [← hkey, ← hid, hval, hset']
        exact .inr ⟨tt, hxd ▸ hsource, hset'⟩
  · rw [if_neg hcond] at hval
    rw [hval] at hmeta
    cases hmeta

/-- What the pass finds for a track is what it is to become. -/
theorem Settling.found (hserved : Served all x answers ps) (hall : all.Nodup)
    (hset : Settling highBitrate ps all x done h) (hf : ¬ First all x a)
    (hfind : all.find? (fun b => decide (At (Filled (x a)) h b)) = some d) :
    (h d).map Node.val = some (settled highBitrate ps all x a) ∧
      copyTrack (settled highBitrate ps all x a) = settled highBitrate ps all x a := by
  have hd := List.mem_of_find?_eq_some hfind
  have hat : At (Filled (x a)) h d := by simpa using List.find?_some hfind
  obtain ⟨hval, hcases⟩ := hset.source_of_filled hd hat
  have hsource : ∃ tt, sourceOf highBitrate ps all x (x a) = some tt ∧
      settled highBitrate ps all x d = resolved highBitrate ps all x tt := by
    rcases hcases with ⟨hfd, hid⟩ | hcopy
    · refine ⟨d, find?_eq_some_of_imp hfind (by simp [hfd, hid]) ?_, settled_of_first hfd⟩
      intro b hb hlead
      obtain ⟨hfb, hidb⟩ := of_decide_eq_true hlead
      exact decide_eq_true (hset.filled_of_first hserved hall hb hfb hidb)
    · exact hcopy
  obtain ⟨tt, hsource, hdtt⟩ := hsource
  have hatt := settled_of_source hf hsource
  obtain ⟨e, he⟩ := hserved.resolved_eq highBitrate hall (sourceOf_some hsource).1
  refine ⟨by rw [hval, hdtt, hatt], ?_⟩
  rw [hatt, he, copyTrack_filled]

/-- One track of the pass. -/
theorem Settling.step {later : List Nat} {n : Nat} (hserved : Served all x answers ps)
    (hall : all.Nodup) (hsplit : all = done ++ a :: later)
    (hset : Settling highBitrate ps all x done h) :
    Settling highBitrate ps all x (done ++ [a]) (duplicate all (h, n) a).1 := by
  have ha : a ∈ all := by
    rw [hsplit]
    simp
  have hnew : a ∉ done := by
    rw [hsplit] at hall
    exact fun hmem => (List.nodup_append.mp hall).2.2 a hmem a List.mem_cons_self rfl
  -- it is enough that the track is settled, and the others stay
  have hgoal : ∀ {h' : Heap Track}, (h' a).map Node.val = some (settled highBitrate ps all x a) →
      (∀ b, b ≠ a → h' b = h b) → Settling highBitrate ps all x (done ++ [a]) h' := by
    intro h' hself hother b hb
    by_cases hba : b = a
    · subst hba
      rw [hself, if_pos (.inr (List.mem_append_right _ List.mem_cons_self))]
    · rw [hother b hba, hset b hb]
      congr 1
      refine if_congr (or_congr Iff.rfl ?_) rfl rfl
      rw [List.mem_append, List.mem_singleton, or_iff_left hba]
  obtain ⟨node, hn, hval⟩ := Option.map_eq_some_iff.mp (hset a ha)
  by_cases hf : First all x a
  · rw [if_pos (.inl hf)] at hval
    obtain ⟨e, he⟩ := hserved.resolved_eq highBitrate hall ha
    have hmeta : node.val.hasMetaData = true := by
      rw [hval, settled_of_first hf, he]
      rfl
    have hstay : duplicate all (h, n) a = (h, n) := by
      simp only [duplicate, hn, if_pos hmeta]
    rw [hstay]
    dsimp only
    exact hgoal (by rw [hn, Option.map_some, hval]) fun _ _ => rfl
  · rw [if_neg (fun hcond => hcond.elim hf hnew)] at hval
    have hmeta : ¬ node.val.hasMetaData = true := by
      rw [hval]
      exact Bool.false_ne_true
    have hid : node.val.trackId = x a := by rw [hval]
    simp only [duplicate, hn, if_neg hmeta, hid]
    cases hfind : all.find? fun b => decide (At (Filled (x a)) h b) with
    | none =>
      dsimp only
      refine hgoal ?_ fun _ _ => rfl
      have hsource : sourceOf highBitrate ps all x (x a) = none := by
        refine List.find?_eq_none.mpr fun b hb hlead => ?_
        obtain ⟨hfb, hidb⟩ := of_decide_eq_true hlead
        have hat := hset.filled_of_first hserved hall hb hfb hidb
        exact List.find?_eq_none.mp hfind b hb (decide_eq_true hat)
      rw [hn, Option.map_some, hval, settled_of_none hf hsource]
    | some d =>
      obtain ⟨hvald, hcopy⟩ := hset.found hserved hall hf hfind
      obtain ⟨source, hsource, hvals⟩ := Option.map_eq_some_iff.mp hvald
      simp only [hsource]
      refine hgoal ?_ fun b hb => modify_of_ne hb
      rw [modify_self hn, Option.map_some, hvals, hcopy]

/-- The whole pass. -/
theorem Leads.duplicates (hserved : Served all x answers ps) (hall : all.Nodup) (n : Nat)
    (hleads : Leads highBitrate ps all x h) :
    ∀ a ∈ all, ((all.foldl (duplicate all) (h, n)).1 a).map Node.val =
      some (settled highBitrate ps all x a) := by
  have hpass : ∀ (done later : List Nat) (st : Heap Track × Nat), all = done ++ later →
      Settling highBitrate ps all x done st.1 →
      Settling highBitrate ps all x all (later.foldl (duplicate all) st).1 := by
    intro done later
    induction later generalizing done with
    | nil =>
      intro st hsplit hset
      rw [List.append_nil] at hsplit
      subst hsplit
      exact hset
    | cons a later ih =>
      intro st hsplit hset
      have hstep := hset.step (n := st.2) hserved hall hsplit
      rw [List.append_cons] at hsplit
      exact ih _ _ hsplit hstep
  have hstart : Settling highBitrate ps all x [] h := by
    intro a ha
    rw [hleads a ha]
    by_cases hf : First all x a
    · rw [if_pos hf, if_pos (.inl hf), settled_of_first hf]
    · rw [if_neg hf, if_neg (fun hcond => hcond.elim hf List.not_mem_nil)]
  intro a ha
  rw [hpass [] all (h, n) rfl hstart a ha, if_pos (.inr ha)]

/-! ## The whole function -/

/-- Without a track to fill in, the counter was right. -/
theorem Leads.settled (hleads : Leads highBitrate ps all x h)
    (hcount : all.length ≤ metaCount h all) :
    ∀ a ∈ all, (h a).map Node.val = some (settled highBitrate ps all x a) := by
  have hle : metaCount h all = all.length := Nat.le_antisymm List.countP_le_length hcount
  intro a ha
  have hat := List.countP_eq_length.mp hle a ha
  rw [decide_eq_true_eq] at hat
  obtain ⟨n, hn, hval⟩ := Option.map_eq_some_iff.mp (hleads a ha)
  rw [at_iff hn, hval] at hat
  by_cases hf : First all x a
  · rw [hleads a ha, if_pos hf, settled_of_first hf]
  · rw [if_neg hf] at hat
    cases hat

/-- The list that the function leaves. -/
theorem loaded_values {fuel : Nat} {mem : Mem Track} {pl : Playlist} (highBitrate : Bool)
    (hs : Spine mem.heap pl.tracks all) (hnum : pl.numTracks = all.length)
    (hblank : ∀ a ∈ all, (mem.heap a).map Node.val = some { trackId := x a })
    (hserved : Served all x answers ps) (hfuel : all.length ≤ fuel) :
    ∃ out, despotifyLoadTracks fuel highBitrate answers mem pl = some out ∧ out.ok = true ∧
      ∀ a ∈ all, (out.mem.heap a).map Node.val = some (settled highBitrate ps all x a) := by
  have hnone : ∀ a ∈ all, ¬ At HasMeta mem.heap a := by
    intro a ha
    obtain ⟨n, hn, hval⟩ := Option.map_eq_some_iff.mp (hblank a ha)
    rw [at_iff hn, hval]
    nofun
  unfold despotifyLoadTracks
  split
  · rename_i hzero
    have hnil : all = [] := List.length_eq_zero_iff.mp (by omega)
    subst hnil
    exact ⟨_, rfl, rfl, nofun⟩
  · have hsome : (loadLoop fuel highBitrate answers pl.numTracks fuel
        ⟨mem, pl.tracks, 0, 0, []⟩).isSome :=
      loadLoop_isSome (Load.On.start hs) hfuel hfuel (Int.le_of_eq hnum)
    obtain ⟨⟨s, err⟩, hloop⟩ := Option.isSome_iff_exists.mp hsome
    obtain ⟨hlist, hsound⟩ := loadLoop_sound hs hnone hfuel hloop
    have hloop' := hloop
    rw [hnum] at hloop'
    obtain ⟨rfl, -, hleads⟩ := loadLoop_values hs hblank hserved hfuel hloop'
    simp only [hloop]
    split
    · obtain ⟨mem', count', heq, hfold⟩ := fillDuplicates_eq s.trackCount hlist hlist hfuel hfuel
      rw [heq]
      refine ⟨_, rfl, rfl, fun a ha => ?_⟩
      have hheap : mem'.heap = (all.foldl (duplicate all) (s.mem.heap, s.trackCount)).1 :=
        congrArg Prod.fst hfold
      dsimp only
      rw [hheap]
      exact hleads.duplicates hserved hs.nodup s.trackCount a ha
    · rename_i hcount
      refine ⟨_, rfl, rfl, hleads.settled ?_⟩
      rw [← hsound.counted]
      omega

/-- Every track has its metadata, and tracks that had one id have come to be alike. -/
structure Resolved (all : List Nat) (x : Nat → CString) (h : Heap Track) : Prop where
  hasMeta : ∀ a ∈ all, At HasMeta h a
  alike : ∀ a ∈ all, ∀ b ∈ all, x a = x b → (h a).map Node.val = (h b).map Node.val

/-- The answers are consistent. -/
structure Consistent (highBitrate : Bool) (ps : Nat → List (CString × Locals × Ezxml))
    (all : List Nat) (x : Nat → CString) : Prop where
  /-- an id that two batches ask for is answered alike -/
  alike : ∀ a ∈ all, ∀ b ∈ all, x a = x b →
    resolved highBitrate ps all x a = resolved highBitrate ps all x b
  /-- an id that a batch has twice is not redirected -/
  own : ∀ a ∈ all, ¬ First all x a → (resolved highBitrate ps all x a).trackId = x a
  /-- nor is another one redirected to it with other metadata -/
  source : ∀ a ∈ all, ¬ First all x a → ∀ tt, sourceOf highBitrate ps all x (x a) = some tt →
    resolved highBitrate ps all x tt = resolved highBitrate ps all x a

/-- The first of its id in its batch has the same answer. -/
theorem exists_first (highBitrate : Bool) (ps : Nat → List (CString × Locals × Ezxml))
    (hall : all.Nodup) (x : Nat → CString) (ha : a ∈ all) :
    ∃ c ∈ all, First all x c ∧ x c = x a ∧
      resolved highBitrate ps all x c = resolved highBitrate ps all x a := by
  obtain ⟨c, hc, hcb, hcx, hf, -⟩ := exists_lead maxBrowseReq_pos hall x ha
  refine ⟨c, hc, hf, hcx, ?_⟩
  have hbatch : batchOf all c = batchOf all a := hcb
  rw [resolved, resolved, answerFor, answerFor, hbatch, hcx]

theorem Consistent.settled_eq (hcons : Consistent highBitrate ps all x) (hall : all.Nodup)
    (ha : a ∈ all) : settled highBitrate ps all x a = resolved highBitrate ps all x a := by
  by_cases hf : First all x a
  · exact settled_of_first hf
  · obtain ⟨c, hc, hfc, hcx, hres⟩ := exists_first highBitrate ps hall x ha
    cases hsource : sourceOf highBitrate ps all x (x a) with
    | none =>
      have hno := List.find?_eq_none.mp hsource c hc
      rw [decide_eq_true_eq, hres] at hno
      exact absurd ⟨hfc, hcons.own a ha hf⟩ hno
    | some tt => rw [settled_of_source hf hsource, hcons.source a ha hf tt hsource]

theorem resolved_iff_consistent (hserved : Served all x answers ps) (hall : all.Nodup)
    (hval : ∀ a ∈ all, (h a).map Node.val = some (settled highBitrate ps all x a)) :
    Resolved all x h ↔ Consistent highBitrate ps all x := by
  constructor
  · intro hres
    have hset : ∀ a ∈ all, settled highBitrate ps all x a = resolved highBitrate ps all x a := by
      intro a ha
      obtain ⟨c, hc, hfc, hcx, hca⟩ := exists_first highBitrate ps hall x ha
      have heq := hres.alike a ha c hc hcx.symm
      rw [hval a ha, hval c hc, Option.some_inj] at heq
      rw [heq, settled_of_first hfc, hca]
    have hsource : ∀ a ∈ all, ¬ First all x a → ∃ tt,
        sourceOf highBitrate ps all x (x a) = some tt := by
      intro a ha hf
      cases hsource : sourceOf highBitrate ps all x (x a) with
      | none =>
        obtain ⟨n, hn, hmeta⟩ := hres.hasMeta a ha
        have hn' := hval a ha
        rw [hn, Option.map_some, Option.some_inj, settled_of_none hf hsource] at hn'
        rw [HasMeta, hn'] at hmeta
        cases hmeta
      | some tt => exact ⟨tt, rfl⟩
    refine ⟨fun a ha b hb hab => ?_, fun a ha hf => ?_, fun a ha hf tt htt => ?_⟩
    · have heq := hres.alike a ha b hb hab
      rwa [hval a ha, hval b hb, Option.some_inj, hset a ha, hset b hb] at heq
    · obtain ⟨tt, htt⟩ := hsource a ha hf
      rw [← hset a ha, settled_of_source hf htt]
      exact (sourceOf_some htt).2.2
    · rw [← hset a ha, settled_of_source hf htt]
  · intro hcons
    refine ⟨fun a ha => ?_, fun a ha b hb hab => ?_⟩
    · obtain ⟨n, hn, hval⟩ := Option.map_eq_some_iff.mp (hval a ha)
      obtain ⟨e, he⟩ := hserved.resolved_eq highBitrate hall ha
      rw [at_iff hn, hval, hcons.settled_eq hall ha, he]
      rfl
    · rw [hval a ha, hval b hb, hcons.settled_eq hall ha, hcons.settled_eq hall hb,
        hcons.alike a ha b hb hab]

/-- **Tracks that occur more than once** are all resolved, and alike for one id, exactly
when the answers are consistent: no id that a batch has twice is redirected, or gets
other metadata from another id redirected to it, and two batches get alike ones. -/
theorem resolved_iff {fuel : Nat} {mem : Mem Track} {pl : Playlist} (highBitrate : Bool)
    (hs : Spine mem.heap pl.tracks all) (hnum : pl.numTracks = all.length)
    (hblank : ∀ a ∈ all, (mem.heap a).map Node.val = some { trackId := x a })
    (hserved : Served all x answers ps) (hfuel : all.length ≤ fuel) :
    ∃ out, despotifyLoadTracks fuel highBitrate answers mem pl = some out ∧ out.ok = true ∧
      (Resolved all x out.mem.heap ↔ Consistent highBitrate ps all x) := by
  obtain ⟨out, hout, hok, hval⟩ := loaded_values highBitrate hs hnum hblank hserved hfuel
  exact ⟨out, hout, hok, resolved_iff_consistent hserved hs.nodup hval⟩

def oldId : CString := ascii "00112233445566778899aabbccddeeff"

def renamedId : CString := ascii "ffeeddccbbaa99887766554433221100"

/-- A list with one track twice. -/
def twice : Mem Track :=
  ((Mem.empty.alloc { trackId := oldId }).alloc { trackId := oldId }).link 0 (some 1)

def twicePlaylist : Playlist := { numTracks := 2, tracks := some 0 }

/-- The track has a new id. -/
def redirected : Ezxml :=
  .mk (ascii "track") [] []
    [.mk (ascii "id") renamedId [] [], .mk (ascii "redirect") oldId [] []]

def redirectedReply : Answer :=
  .fetched (some (.mk (ascii "result") [] [] [.mk (ascii "tracks") [] [] [redirected]])) fun _ => {}

theorem twice_spine : Spine twice.heap twicePlaylist.tracks [0, 1] :=
  ⟨rfl, { trackId := oldId }, some 1, rfl, rfl, { trackId := oldId }, none, rfl, rfl⟩

/-- The reply has the one id asked for, and nobody waits under the new one. -/
theorem twice_served :
    Served [0, 1] (fun _ => oldId) (fun _ => redirectedReply)
      fun _ => [(oldId, {}, redirected)] := by
  have hkeys : keys (({} : Locals), redirected) = [renamedId, oldId] := by decide
  have hfirst : ∀ b, batch [0, 1] b ≠ [] → b = 0 := by
    intro b hb
    rw [batch, Ne, chunk_eq_nil_iff maxBrowseReq_pos, MAX_BROWSE_REQ] at hb
    simp only [List.length_cons, List.length_nil] at hb
    omega
  refine ⟨fun b hb => ?_, fun b hb => ?_⟩
  · cases hfirst b hb
    refine ⟨rfl, List.nodup_singleton _, fun q => ?_, fun p hp => ?_⟩
    · rw [List.map_singleton, List.mem_singleton]
      constructor
      · rintro rfl
        exact ⟨0, List.mem_cons_self, rfl⟩
      · rintro ⟨a, -, rfl⟩
        rfl
    · cases List.mem_singleton.mp hp
      rw [hkeys]
      exact List.mem_cons_of_mem _ List.mem_cons_self
  · intro done p later hsplit key hkey a _ hxa
    obtain ⟨-, rfl, -⟩ : done = [] ∧ p = (oldId, {}, redirected) ∧ later = [] := by
      cases done with
      | nil =>
        cases hsplit
        exact ⟨rfl, rfl, rfl⟩
      | cons d done => simp at hsplit
    have hne := List.all_eq_true.mp List.all_takeWhile key hkey
    exact absurd hxa.symm (by simpa using hne)

/-- Of that list with that reply. -/
theorem resolved_iff_twice :
    ∃ out, despotifyLoadTracks 2 false (fun _ => redirectedReply) twice twicePlaylist = some out ∧
      out.ok = true ∧
      (Resolved [0, 1] (fun _ => oldId) out.mem.heap ↔
        Consistent false (fun _ => [(oldId, {}, redirected)]) [0, 1] fun _ => oldId) := by
  refine resolved_iff false twice_spine rfl ?_ twice_served (Nat.le_refl 2)
  intro a ha
  rcases List.mem_pair.mp ha with rfl | rfl <;> rfl

/-- The second one is left without metadata: the first has another id by then. -/
theorem twice_unresolved :
    Spine twice.heap twicePlaylist.tracks [0, 1] ∧
      Served [0, 1] (fun _ => oldId) (fun _ => redirectedReply)
        (fun _ => [(oldId, {}, redirected)]) ∧
      ∃ out, despotifyLoadTracks 2 false (fun _ => redirectedReply) twice twicePlaylist = some out ∧
        ¬ Resolved [0, 1] (fun _ => oldId) out.mem.heap := by
  refine ⟨twice_spine, twice_served, ?_⟩
  have hrun : (despotifyLoadTracks 2 false (fun _ => redirectedReply) twice twicePlaylist).map
      (fun out => decide (At HasMeta out.mem.heap 1)) = some false := by decide
  obtain ⟨out, hout, hmeta⟩ := Option.map_eq_some_iff.mp hrun
  exact ⟨out, hout, fun hres => of_decide_eq_false hmeta (hres.hasMeta 1 (by simp))⟩

end Despotify.Lib

import Despotify.Lib.Ordered
import Despotify.Lib.Playlist

/-!
# Loading the tracks of a playlist

`despotify_load_tracks`: the metadata come in batches of 244 tracks, from the cache
or from the server, and a second pass copies them to the tracks that are still
without.  The loop counts the tracks it has asked for up to `num_tracks`.

* `loadLoop_eq`: what the rounds do to the list, as folds of `place`.
* `returns_iff`: the function returns exactly when `num_tracks` is at most the length
  of the list, or a request fails.
* `moreTracks_loops`: a document for which it does not.
-/

namespace Despotify.Lib

open Gateway Linked

def MAX_BROWSE_REQ : Nat := 244

/-- How a batch ends. -/
inductive Answer
  /-- a file of the cache, and the locals of the passes over it -/
  | cached (top : Option Ezxml) (locals : Nat → Locals)
  /-- a reply that inflates -/
  | fetched (top : Option Ezxml) (locals : Nat → Locals)
  | notInflated
  | sendFailed
  | timeout

/-- The elements a batch brings, with the locals of their passes. -/
def Answer.elements : Answer → List (Locals × Ezxml)
  | .cached top locals | .fetched top locals => passes locals (tracksOf top)
  | .notInflated | .sendFailed | .timeout => []

/-- What `last_error` is set to when the function gives up. -/
def Answer.error : Answer → Option String
  | .cached .. | .fetched .. | .notInflated => none
  | .sendFailed => some "Network error."
  | .timeout => some "Timeout while loading tracks"

/-! ## The rounds -/

/-- The loop between two rounds. -/
structure Load where
  mem : Mem Track
  /-- the next track to ask for -/
  t : Option Nat
  totcount : Nat
  trackCount : Nat
  /-- the ids asked for, the last batch first -/
  requested : List (List CString)

section
variable (fuel : Nat) (highBitrate : Bool) (answers : Nat → Answer)

/-- The tracks of a document are filled in from `firsttrack` on. -/
def Load.parse (s : Load) (firsttrack : Option Nat) (top : Option Ezxml) (locals : Nat → Locals) :
    Option Load :=
  (xmlParseTracklist fuel s.mem firsttrack top true highBitrate locals).map fun (mem, n) =>
    { s with mem := mem, trackCount := s.trackCount + n }

/-- One round: the next one, or the error that ends it. -/
def loadRound (s : Load) : Option (Load × Option String) :=
  match walk MAX_BROWSE_REQ s.mem.heap s.t with
  | none => none
  | some (t, batch) =>
    let s' := { s with
      t := t
      totcount := s.totcount + batch.length
      requested := batch.map Track.trackId :: s.requested }
    match answers s.requested.length with
    | .cached top locals | .fetched top locals =>
      (s'.parse fuel highBitrate s.t top locals).map fun s'' => (s'', none)
    | .notInflated => some (s', none)
    | .sendFailed => some (s', some "Network error.")
    | .timeout => some (s', some "Timeout while loading tracks")

/-- `for (totcount = 0; totcount < pl->num_tracks; totcount += count)`. -/
def loadLoop (numTracks : Int) : Nat → Load → Option (Load × Option String)
  | rounds, s =>
    if (s.totcount : Int) < numTracks then
      match rounds with
      | 0 => none
      | rounds + 1 =>
        match loadRound fuel highBitrate answers s with
        | none => none
        | some (s', some err) => some (s', some err)
        | some (s', none) => loadLoop numTracks rounds s'
    else some (s, none)

end

/-! ## The second pass -/

/-- `*t = *tt`, with the list of artists copied. -/
def copyTrack (tt : Track) : Track :=
  { tt with artist := if tt.artist = [] then [{}] else tt.artist, hasMetaData := true }

/-- A track whose metadata a track of this id can have. -/
def Filled (id : CString) (tt : Track) : Prop := tt.hasMetaData = true ∧ tt.trackId = id

instance (id : CString) : DecidablePred (Filled id) := fun tt =>
  inferInstanceAs (Decidable (tt.hasMetaData = true ∧ tt.trackId = id))

/-- The pass over the tracks from `t` on: the memory, and `track_count`. -/
def fillDuplicates (fuel : Nat) (root : Option Nat) :
    Nat → Mem Track → Nat → Option Nat → Option (Mem Track × Nat)
  | _, mem, count, none => some (mem, count)
  | 0, _, _, some _ => none
  | n + 1, mem, count, some t =>
    match mem.heap t with
    | none => none
    | some node =>
      if node.val.hasMetaData then fillDuplicates fuel root n mem count node.next
      else
        match findNode (Filled node.val.trackId) fuel mem.heap root with
        | none => none
        | some none => fillDuplicates fuel root n mem count node.next
        | some (some tt) =>
          match mem.heap tt with
          | none => none
          | some source =>
            fillDuplicates fuel root n (mem.modify t fun _ => copyTrack source.val) (count + 1)
              node.next

/-! ## The function -/

structure Loaded where
  mem : Mem Track
  playlist : Playlist
  ok : Bool
  lastError : Option String := none
  requested : List (List CString) := []

/-- `despotify_load_tracks`; no value when `fuel` is not enough for the rounds or for a
walk over the list. -/
def despotifyLoadTracks (fuel : Nat) (highBitrate : Bool) (answers : Nat → Answer)
    (mem : Mem Track) (pl : Playlist) : Option Loaded :=
  if pl.numTracks = 0 then some { mem := mem, playlist := pl, ok := true }
  else
    match loadLoop fuel highBitrate answers pl.numTracks fuel ⟨mem, pl.tracks, 0, 0, []⟩ with
    | none => none
    | some (s, some err) => some
        { mem := s.mem, playlist := pl, ok := false, lastError := some err
          requested := s.requested }
    | some (s, none) =>
      if (s.trackCount : Int) < pl.numTracks then
        (fillDuplicates fuel pl.tracks fuel s.mem s.trackCount pl.tracks).map fun (mem, count) =>
          { mem := mem, playlist := { pl with numTracks := count }, ok := true
            requested := s.requested }
      else some
        { mem := s.mem, playlist := { pl with numTracks := s.trackCount }, ok := true
          requested := s.requested }

/-! ## A round on the list -/

variable {fuel : Nat} {highBitrate : Bool} {answers : Nat → Answer} {root : Option Nat}
  {as : List Nat} {s : Load} {numTracks : Int}

/-- The loop on a list of tracks: those before `as` have been asked for. -/
structure Load.On (s : Load) (root : Option Nat) (before as : List Nat) : Prop where
  list : Spine s.mem.heap root (before ++ as)
  rest : Spine s.mem.heap s.t as
  totcount : s.totcount = before.length

/-- A document is filled in from the batch on. -/
theorem Load.parse_eq (s : Load) {firsttrack : Option Nat} (hs : Spine s.mem.heap firsttrack as)
    (hfuel : as.length ≤ fuel) (top : Option Ezxml) (locals : Nat → Locals) :
    ∃ mem n, s.parse fuel highBitrate firsttrack top locals =
        some { s with mem := mem, trackCount := n } ∧
      (mem.heap, n) = placeAll highBitrate as (passes locals (tracksOf top))
        (s.mem.heap, s.trackCount) := by
  obtain ⟨mem, n, hparse, heq⟩ := xmlParseTracklist_ordered highBitrate hs hfuel top locals
  refine ⟨mem, s.trackCount + n, by rw [Load.parse, hparse]; rfl, ?_⟩
  have hadd := placeAll_add highBitrate as (passes locals (tracksOf top)) s.mem.heap
    s.trackCount 0
  rw [Nat.add_zero, ← heq] at hadd
  exact hadd.symm

theorem loadRound_eq (highBitrate : Bool) (answers : Nat → Answer) {before : List Nat}
    (hon : s.On root before as) (hfuel : as.length ≤ fuel) :
    ∃ s', loadRound fuel highBitrate answers s = some (s', (answers s.requested.length).error) ∧
      (s'.mem.heap, s'.trackCount) =
        placeAll highBitrate as (answers s.requested.length).elements
          (s.mem.heap, s.trackCount) ∧
      s'.On root (before ++ as.take MAX_BROWSE_REQ) (as.drop MAX_BROWSE_REQ) ∧
      s'.requested =
        (vals s.mem.heap (as.take MAX_BROWSE_REQ)).map Track.trackId :: s.requested := by
  obtain ⟨t, hwalk, ht⟩ := walk_eq hon.rest MAX_BROWSE_REQ
  generalize hbatch : vals s.mem.heap (as.take MAX_BROWSE_REQ) = batch at hwalk
  have hparts : before ++ as.take MAX_BROWSE_REQ ++ as.drop MAX_BROWSE_REQ = before ++ as := by
    rw [List.append_assoc, List.take_append_drop]
  have htot : s.totcount + batch.length = (before ++ as.take MAX_BROWSE_REQ).length := by
    rw [← hbatch, hon.rest.length_vals_take, List.length_append, hon.totcount]
  -- what a document makes of the state behind the batch
  have hdoc : ∀ top locals, ∃ s', Load.parse fuel highBitrate
        ⟨s.mem, t, s.totcount + batch.length, s.trackCount,
          batch.map Track.trackId :: s.requested⟩ s.t top locals = some s' ∧
      (s'.mem.heap, s'.trackCount) = placeAll highBitrate as (passes locals (tracksOf top))
        (s.mem.heap, s.trackCount) ∧
      s'.On root (before ++ as.take MAX_BROWSE_REQ) (as.drop MAX_BROWSE_REQ) ∧
      s'.requested = batch.map Track.trackId :: s.requested := by
    intro top locals
    obtain ⟨mem, n, hparse, hplace⟩ := Load.parse_eq
      ⟨s.mem, t, s.totcount + batch.length, s.trackCount, batch.map Track.trackId :: s.requested⟩
      hon.rest hfuel top locals
    have hheap : mem.heap = (placeAll highBitrate as (passes locals (tracksOf top))
        (s.mem.heap, s.trackCount)).1 := congrArg Prod.fst hplace
    have hkeep : ∀ {q bs}, Spine s.mem.heap q bs → Spine mem.heap q bs := by
      intro q bs hq
      rw [hheap]
      exact placeAll_spine highBitrate hq as _
    exact ⟨_, hparse, hplace, ⟨hparts ▸ hkeep hon.list, hkeep ht, htot⟩, rfl⟩
  have hstay : Load.On ⟨s.mem, t, s.totcount + batch.length, s.trackCount,
      batch.map Track.trackId :: s.requested⟩ root (before ++ as.take MAX_BROWSE_REQ)
      (as.drop MAX_BROWSE_REQ) := ⟨hparts ▸ hon.list, ht, htot⟩
  simp only [loadRound, hwalk]
  cases answers s.requested.length with
  | cached top locals | fetched top locals =>
    obtain ⟨s', hparse, hplace, hon', hreq⟩ := hdoc top locals
    refine ⟨s', ?_, hplace, hon', hreq⟩
    simp only [hparse, Option.map_some, Answer.error]
  | notInflated | sendFailed | timeout => exact ⟨_, rfl, rfl, hstay, rfl⟩

/-- What every round keeps holds of the state the loop leaves, and of the one in which a
request has failed. -/
theorem loadLoop_inv {all : List Nat} (hfuel : all.length ≤ fuel)
    {I : Load → List Nat → List Nat → Prop}
    (hstep : ∀ {s s' before as}, before ++ as = all → s.On root before as → I s before as →
      (s.totcount : Int) < numTracks →
      (s'.mem.heap, s'.trackCount) = placeAll highBitrate as (answers s.requested.length).elements
        (s.mem.heap, s.trackCount) →
      s'.requested =
        (vals s.mem.heap (as.take MAX_BROWSE_REQ)).map Track.trackId :: s.requested →
      I s' (before ++ as.take MAX_BROWSE_REQ) (as.drop MAX_BROWSE_REQ))
    {before : List Nat} (hall : before ++ as = all) (hon : s.On root before as) (hI : I s before as)
    {rounds : Nat} {s' : Load} {err : Option String}
    (h : loadLoop fuel highBitrate answers numTracks rounds s = some (s', err)) :
    ∃ before' as', before' ++ as' = all ∧ s'.On root before' as' ∧ I s' before' as' ∧
      (err = none → numTracks ≤ s'.totcount) ∧
      ∀ e, err = some e → ∃ s₀ before₀ as₀, before₀ ++ as₀ = all ∧ s₀.On root before₀ as₀ ∧
        I s₀ before₀ as₀ ∧ (s₀.totcount : Int) < numTracks ∧
        (answers s₀.requested.length).error = some e := by
  induction rounds generalizing s before as with
  | zero =>
    rw [loadLoop] at h
    split at h
    · cases h
    · rename_i hend
      cases h
      exact ⟨before, as, hall, hon, hI, fun _ => by omega, nofun⟩
  | succ rounds ih =>
    rw [loadLoop] at h
    split at h
    · rename_i hmore
      have hlen : as.length ≤ fuel := by
        have hall' := congrArg List.length hall
        rw [List.length_append] at hall'
        omega
      have hnext : before ++ as.take MAX_BROWSE_REQ ++ as.drop MAX_BROWSE_REQ = all := by
        rw [List.append_assoc, List.take_append_drop, hall]
      obtain ⟨s₁, hround, hplace, hon₁, hreq⟩ := loadRound_eq highBitrate answers hon hlen
      have hI₁ := hstep hall hon hI hmore hplace hreq
      rw [hround] at h
      cases herr : (answers s.requested.length).error with
      | some e =>
        rw [herr] at h
        cases h
        refine ⟨_, _, hnext, hon₁, hI₁, nofun, fun e he => ?_⟩
        cases he
        exact ⟨s, before, as, hall, hon, hI, hmore, herr⟩
      | none =>
        rw [herr] at h
        exact ih hnext hon₁ hI₁ h
    · rename_i hend
      cases h
      exact ⟨before, as, hall, hon, hI, fun _ => by omega, nofun⟩

/-! ## The second pass on the list -/

/-- A track without metadata takes those of the first one filled in under its id. -/
def duplicate (all : List Nat) (s : Heap Track × Nat) (a : Nat) : Heap Track × Nat :=
  match s.1 a with
  | none => s
  | some n =>
    if n.val.hasMetaData then s
    else
      match all.find? fun b => decide (At (Filled n.val.trackId) s.1 b) with
      | none => s
      | some tt =>
        match s.1 tt with
        | none => s
        | some source => (modify s.1 a fun _ => copyTrack source.val, s.2 + 1)

theorem duplicate_spine {all : List Nat} {st : Heap Track × Nat} (hs : Spine st.1 root as) (b : Nat) :
    Spine (duplicate all st b).1 root as := by
  unfold duplicate
  split
  · exact hs
  · split
    · exact hs
    · split
      · exact hs
      · split
        · exact hs
        · dsimp only
          exact Spine.modify hs _ _

theorem duplicates_spine {all : List Nat} {st : Heap Track × Nat} (hs : Spine st.1 root as)
    (bs : List Nat) : Spine (bs.foldl (duplicate all) st).1 root as := by
  induction bs generalizing st with
  | nil => exact hs
  | cons b bs ih => exact ih (duplicate_spine hs b)

theorem fillDuplicates_eq {all : List Nat} {mem : Mem Track} {t : Option Nat} (count : Nat)
    (hall : Spine mem.heap root all) (ht : Spine mem.heap t as) (hfuel : all.length ≤ fuel)
    {n : Nat} (hn : as.length ≤ n) :
    ∃ mem' count', fillDuplicates fuel root n mem count t = some (mem', count') ∧
      (mem'.heap, count') = as.foldl (duplicate all) (mem.heap, count) := by
  induction n generalizing mem t as count with
  | zero =>
    have has : as = [] := List.length_eq_zero_iff.mp (by omega)
    subst has
    cases ht
    exact ⟨mem, count, rfl, rfl⟩
  | succ n ih =>
    cases as with
    | nil =>
      cases ht
      exact ⟨mem, count, rfl, rfl⟩
    | cons a as =>
      obtain ⟨rfl, v, q, ha, ht⟩ := ht
      have hlen : as.length ≤ n := Nat.le_of_succ_le_succ hn
      simp only [fillDuplicates, ha, List.foldl_cons, duplicate, findNode_eq hall hfuel]
      by_cases hv : v.hasMetaData = true
      · rw [if_pos hv, if_pos hv]
        exact ih _ hall ht hlen
      · rw [if_neg hv, if_neg hv]
        cases hfind : all.find? fun b => decide (At (Filled v.trackId) mem.heap b) with
        | none => exact ih _ hall ht hlen
        | some tt =>
          obtain ⟨source, hsource⟩ := hall.node (List.mem_of_find?_eq_some hfind)
          simp only [hsource]
          exact ih _ (hall.modifyMem _ _) (ht.modifyMem _ _) hlen

/-! ## When the function returns -/

/-- The list ends, and with it the loop. -/
theorem loadLoop_isSome {before : List Nat} (hon : s.On root before as) (hfuel : as.length ≤ fuel)
    {rounds : Nat} (hrounds : as.length ≤ rounds)
    (hnum : numTracks ≤ (before ++ as).length) :
    (loadLoop fuel highBitrate answers numTracks rounds s).isSome := by
  induction rounds generalizing s before as with
  | zero =>
    have has : as = [] := List.length_eq_zero_iff.mp (by omega)
    rw [has, List.append_nil] at hnum
    rw [loadLoop, if_neg (by rw [hon.totcount]; omega)]
    rfl
  | succ rounds ih =>
    rw [loadLoop]
    split
    · rename_i hmore
      rw [hon.totcount] at hmore
      have hne : 0 < as.length := by
        rw [List.length_append] at hnum
        omega
      obtain ⟨s', hround, -, hon', -⟩ := loadRound_eq highBitrate answers hon hfuel
      rw [hround]
      cases (answers s.requested.length).error with
      | some err => rfl
      | none =>
        refine ih hon' ?_ ?_ ?_
        · rw [List.length_drop]
          omega
        · rw [List.length_drop, MAX_BROWSE_REQ]
          omega
        · rwa [List.append_assoc, List.take_append_drop]
    · rfl

/-- A request fails. -/
theorem loadLoop_isSome_of_error {before : List Nat} (hon : s.On root before as)
    (hfuel : as.length ≤ fuel) {rounds k : Nat} (hk : k < rounds)
    (herr : (answers (s.requested.length + k)).error ≠ none) :
    (loadLoop fuel highBitrate answers numTracks rounds s).isSome := by
  induction rounds generalizing s before as k with
  | zero => cases hk
  | succ rounds ih =>
    rw [loadLoop]
    split
    · obtain ⟨s', hround, -, hon', hreq⟩ := loadRound_eq highBitrate answers hon hfuel
      rw [hround]
      cases herr₁ : (answers s.requested.length).error with
      | some err => rfl
      | none =>
        cases k with
        | zero => exact absurd herr₁ herr
        | succ k =>
          refine ih hon' ?_ (Nat.lt_of_succ_lt_succ hk) ?_
          · rw [List.length_drop]
            omega
          · rwa [hreq, List.length_cons, Nat.add_right_comm]
    · rfl

/-- More tracks are counted than the list has, and no request fails. -/
theorem loadLoop_eq_none {before : List Nat} (hon : s.On root before as) (hfuel : as.length ≤ fuel)
    (hnum : ((before ++ as).length : Int) < numTracks) (hok : ∀ i, (answers i).error = none)
    (rounds : Nat) : loadLoop fuel highBitrate answers numTracks rounds s = none := by
  induction rounds generalizing s before as with
  | zero =>
    rw [loadLoop, if_pos]
    rw [hon.totcount]
    rw [List.length_append] at hnum
    omega
  | succ rounds ih =>
    have hmore : (s.totcount : Int) < numTracks := by
      rw [hon.totcount]
      rw [List.length_append] at hnum
      omega
    obtain ⟨s', hround, -, hon', -⟩ := loadRound_eq highBitrate answers hon hfuel
    rw [hok] at hround
    rw [loadLoop, if_pos hmore, hround]
    refine ih hon' ?_ ?_
    · rw [List.length_drop]
      omega
    · rwa [List.append_assoc, List.take_append_drop]

/-- The state the loop starts in. -/
theorem Load.On.start {mem : Mem Track} (hs : Spine mem.heap root as) :
    Load.On ⟨mem, root, 0, 0, []⟩ root [] as := ⟨hs, hs, rfl⟩

/-- What is left after the rounds always ends. -/
theorem despotifyLoadTracks_isSome_iff {mem : Mem Track} {pl : Playlist}
    (hs : Spine mem.heap pl.tracks as) (hfuel : as.length ≤ fuel) :
    (despotifyLoadTracks fuel highBitrate answers mem pl).isSome ↔
      pl.numTracks = 0 ∨ (loadLoop fuel highBitrate answers pl.numTracks fuel
        ⟨mem, pl.tracks, 0, 0, []⟩).isSome := by
  unfold despotifyLoadTracks
  split
  · rename_i hzero
    exact iff_of_true rfl (.inl hzero)
  · rename_i hnum
    rw [or_iff_right hnum]
    cases hloop : loadLoop fuel highBitrate answers pl.numTracks fuel ⟨mem, pl.tracks, 0, 0, []⟩ with
    | none => exact Iff.rfl
    | some r =>
      obtain ⟨s, err⟩ := r
      cases err with
      | some err => exact Iff.rfl
      | none =>
        obtain ⟨before, rest, hall, hon, -⟩ := loadLoop_inv (I := fun _ _ _ => True) hfuel
          (fun _ _ _ _ _ _ => trivial) rfl (Load.On.start hs) trivial hloop
        have hlist : Spine s.mem.heap pl.tracks as := hall ▸ hon.list
        refine iff_of_true ?_ rfl
        simp only
        split
        · obtain ⟨mem', count', heq, -⟩ :=
            fillDuplicates_eq s.trackCount hlist hlist hfuel hfuel
          rw [heq]
          rfl
        · rfl

/-- The call returns, given enough fuel. -/
def Returns {α : Type} (call : Nat → Option α) : Prop :=
  ∃ enough, ∀ fuel, enough ≤ fuel → (call fuel).isSome

theorem despotifyLoadTracks_returns_iff {mem : Mem Track} {pl : Playlist}
    (hs : Spine mem.heap pl.tracks as) :
    Returns (fun fuel => despotifyLoadTracks fuel highBitrate answers mem pl) ↔
      pl.numTracks ≤ as.length ∨ ∃ i, (answers i).error ≠ none := by
  constructor
  · rintro ⟨enough, henough⟩
    by_contra hnot
    rw [not_or, Int.not_le, not_exists] at hnot
    obtain ⟨hmore, hok⟩ := hnot
    have hsome := henough (max enough as.length) (Nat.le_max_left _ _)
    rw [despotifyLoadTracks_isSome_iff hs (Nat.le_max_right _ _),
      loadLoop_eq_none (Load.On.start hs) (Nat.le_max_right _ _) hmore fun i => not_not.mp (hok i)]
      at hsome
    exact hsome.elim (fun h => by omega) nofun
  · rintro (hnum | ⟨i, hi⟩)
    · refine ⟨as.length, fun fuel hfuel => ?_⟩
      rw [despotifyLoadTracks_isSome_iff hs hfuel]
      exact .inr (loadLoop_isSome (Load.On.start hs) hfuel hfuel hnum)
    · refine ⟨max as.length (i + 1), fun fuel hfuel => ?_⟩
      rw [despotifyLoadTracks_isSome_iff hs (by omega)]
      refine .inr (loadLoop_isSome_of_error (Load.On.start hs) (by omega) (k := i) (by omega) ?_)
      rwa [List.length_nil, Nat.zero_add]

/-! ## When it succeeds -/

/-- Every batch that the loop comes to is answered. -/
theorem loadLoop_error {before : List Nat} (hon : s.On root before as) (hfuel : as.length ≤ fuel)
    (hbefore : before.length = min (MAX_BROWSE_REQ * s.requested.length) (before ++ as).length)
    (hnum : numTracks ≤ (before ++ as).length) {rounds : Nat} {s' : Load} {err : Option String}
    (h : loadLoop fuel highBitrate answers numTracks rounds s = some (s', err)) :
    err = none ↔ ∀ b, s.requested.length ≤ b → ((MAX_BROWSE_REQ * b : Nat) : Int) < numTracks →
      (answers b).error = none := by
  have hstop : ∀ {s : Load} {before as : List Nat}, s.On root before as →
      before.length = min (MAX_BROWSE_REQ * s.requested.length) (before ++ as).length →
      ¬ (s.totcount : Int) < numTracks →
      ∀ b, s.requested.length ≤ b → ((MAX_BROWSE_REQ * b : Nat) : Int) < numTracks →
        (answers b).error = none := by
    intro s before as hon hbefore hend b hb hlt
    have hmul := Nat.mul_le_mul_left MAX_BROWSE_REQ hb
    rw [hon.totcount] at hend
    omega
  induction rounds generalizing s before as with
  | zero =>
    rw [loadLoop] at h
    split at h
    · cases h
    · rename_i hend
      cases h
      exact iff_of_true rfl (hstop hon hbefore hend)
  | succ rounds ih =>
    rw [loadLoop] at h
    split at h
    · rename_i hmore
      obtain ⟨s₁, hround, -, hon₁, hreq⟩ := loadRound_eq highBitrate answers hon hfuel
      have hlen : s₁.requested.length = s.requested.length + 1 := by rw [hreq, List.length_cons]
      rw [hround] at h
      rw [hon.totcount] at hmore
      cases herr : (answers s.requested.length).error with
      | some e =>
        rw [herr] at h
        cases h
        refine iff_of_false nofun fun hall => ?_
        rw [hall _ (Nat.le_refl _) (by omega)] at herr
        cases herr
      | none =>
        rw [herr] at h
        rw [List.length_append] at hbefore hnum
        have hrest : (as.drop MAX_BROWSE_REQ).length ≤ fuel := by
          rw [List.length_drop]
          omega
        have hnext : (before ++ as.take MAX_BROWSE_REQ).length =
            min (MAX_BROWSE_REQ * s₁.requested.length)
              (before ++ as.take MAX_BROWSE_REQ ++ as.drop MAX_BROWSE_REQ).length := by
          rw [List.append_assoc, List.take_append_drop, List.length_append, List.length_append,
            List.length_take, hlen, Nat.mul_succ]
          omega
        have hall : numTracks ≤
            (before ++ as.take MAX_BROWSE_REQ ++ as.drop MAX_BROWSE_REQ).length := by
          rw [List.append_assoc, List.take_append_drop, List.length_append]
          exact hnum
        refine (ih hon₁ hrest hnext hall h).trans ?_
        rw [hlen]
        constructor
        · intro hok b hb hlt
          rcases Nat.eq_or_lt_of_le hb with rfl | hb
          · exact herr
          · exact hok b hb hlt
        · exact fun hok b hb hlt => hok b (by omega) hlt
    · rename_i hend
      cases h
      exact iff_of_true rfl (hstop hon hbefore hend)

/-- The tracks are loaded when the list has as many as are counted, and no request for
them fails. -/
theorem despotifyLoadTracks_ok_iff {mem : Mem Track} {pl : Playlist} {out : Loaded}
    (hs : Spine mem.heap pl.tracks as) (hfuel : as.length ≤ fuel)
    (h : despotifyLoadTracks fuel highBitrate answers mem pl = some out) :
    out.ok = true ↔ pl.numTracks ≤ as.length ∧
      ∀ b, ((MAX_BROWSE_REQ * b : Nat) : Int) < pl.numTracks → (answers b).error = none := by
  have hstart : Load.On ⟨mem, pl.tracks, 0, 0, []⟩ pl.tracks [] as := Load.On.start hs
  unfold despotifyLoadTracks at h
  split at h
  · rename_i hzero
    cases h
    exact iff_of_true rfl ⟨by omega, fun b hb => by omega⟩
  · cases hloop : loadLoop fuel highBitrate answers pl.numTracks fuel ⟨mem, pl.tracks, 0, 0, []⟩ with
    | none =>
      rw [hloop] at h
      cases h
    | some r =>
      obtain ⟨s, err⟩ := r
      have hok : out.ok = true ↔ err = none := by
        rw [hloop] at h
        cases err with
        | some err =>
          cases h
          exact iff_of_false nofun nofun
        | none =>
          simp only at h
          split at h
          · obtain ⟨r, -, rfl⟩ := Option.map_eq_some_iff.mp h
            exact iff_of_true rfl rfl
          · cases h
            exact iff_of_true rfl rfl
      rw [hok]
      by_cases hnum : pl.numTracks ≤ as.length
      · rw [and_iff_right hnum, loadLoop_error hstart hfuel (by simp) hnum hloop]
        exact ⟨fun hall b => hall b (Nat.zero_le b), fun hall b _ => hall b⟩
      · refine iff_of_false (fun herr => ?_) fun h => hnum h.1
        obtain ⟨before, rest, hall, hon, -, hend, -⟩ := loadLoop_inv (I := fun _ _ _ => True) hfuel
          (fun _ _ _ _ _ _ => trivial) rfl hstart trivial hloop
        have hcount := hend herr
        have hlen := congrArg List.length hall
        rw [hon.totcount] at hcount
        rw [List.length_append] at hlen
        omega

/-! ## The list of a document -/

/-- The list `xml_parse_playlist` builds. -/
theorem newTracks_spine {mem : Mem Track} {p : Nat} (hs : Spine mem.heap root (as ++ [p]))
    (ids : List CString) :
    ∃ bs, Spine (newTracks ids mem (some p) root).1.heap (newTracks ids mem (some p) root).2
        (as ++ [p] ++ bs) ∧ bs.length = ids.length := by
  induction ids generalizing mem p as with
  | nil => exact ⟨[], by rwa [List.append_nil], rfl⟩
  | cons id ids ih =>
    obtain ⟨bs, hbs, hlen⟩ := ih (hs.append { trackId := strncpy id 33 })
    refine ⟨mem.brk :: bs, ?_, by rw [List.length_cons, hlen, List.length_cons]⟩
    rw [List.append_assoc _ _ bs, List.singleton_append] at hbs
    exact hbs

theorem xmlParsePlaylist_spine (stale : List CString) (junk : UInt32) (mem : Mem Track)
    (pl : Playlist) (top : Option Ezxml) :
    ∃ as, Spine (xmlParsePlaylist stale junk mem pl top).1.heap
        (xmlParsePlaylist stale junk mem pl top).2.tracks as ∧
      as.length = (trackIds stale top).length := by
  have htracks : (xmlParsePlaylist stale junk mem pl top).2.tracks =
      (newTracks (trackIds stale top) mem none none).2 := by
    simp only [xmlParsePlaylist]
    cases (ezxmlGet top ["next-change", "version"]).head? <;> rfl
  rw [htracks]
  have hmem : (xmlParsePlaylist stale junk mem pl top).1 =
      (newTracks (trackIds stale top) mem none none).1 := rfl
  rw [hmem]
  cases trackIds stale top with
  | nil => exact ⟨[], rfl, rfl⟩
  | cons id ids =>
    have hfirst : Spine (mem.alloc { trackId := strncpy id 33 }).heap (some mem.brk) ([] ++ [mem.brk]) :=
      ⟨rfl, _, none, Mem.alloc_brk, rfl⟩
    obtain ⟨bs, hbs, hlen⟩ := newTracks_spine hfirst ids
    exact ⟨_, hbs, by simp [hlen]⟩

/-- **The batching loop ends** exactly when the number of tracks, which the version may
have set, is at most the number of ids listed, or a request fails. -/
theorem returns_iff (stale : List CString) (junk : UInt32) (mem : Mem Track) (pl : Playlist)
    (top : Option Ezxml) (highBitrate : Bool) (answers : Nat → Answer) :
    Returns (fun fuel => despotifyLoadTracks fuel highBitrate answers
        (xmlParsePlaylist stale junk mem pl top).1 (xmlParsePlaylist stale junk mem pl top).2) ↔
      (xmlParsePlaylist stale junk mem pl top).2.numTracks ≤ (trackIds stale top).length ∨
        ∃ i, (answers i).error ≠ none := by
  obtain ⟨as, hs, hlen⟩ := xmlParsePlaylist_spine stale junk mem pl top
  rw [despotifyLoadTracks_returns_iff hs, hlen]

/-- A playlist without tracks, of which the version says that it has one. -/
def moreTracks : Ezxml :=
  .mk (ascii "playlist") [] []
    [.mk (ascii "next-change") [] []
      [.mk (ascii "change") [] [] [.mk (ascii "ops") [] [] [.mk (ascii "add") [] []
        [.mk (ascii "items") [] [] []]]],
      .mk (ascii "version") (ascii "0000000001,0000000001,0000000000,0") [] []]]

/-- The loop asks for no tracks, over and over. -/
theorem moreTracks_loops :
    ¬ Returns (fun fuel => despotifyLoadTracks fuel false (fun _ => .notInflated)
      (xmlParsePlaylist [] 0 Mem.empty {} (some moreTracks)).1
      (xmlParsePlaylist [] 0 Mem.empty {} (some moreTracks)).2) := by
  obtain ⟨as, hs, hlen⟩ := xmlParsePlaylist_spine [] 0 Mem.empty {} (some moreTracks)
  rw [despotifyLoadTracks_returns_iff hs, hlen]
  rintro (hnum | ⟨i, hi⟩)
  · exact absurd hnum (by decide +kernel)
  · exact hi rfl

end Despotify.Lib

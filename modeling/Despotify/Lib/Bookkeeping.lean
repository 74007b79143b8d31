import Despotify.Lib.Files
import Despotify.Lib.LoadTracks

/-!
# What loading leaves of a playlist

`despotify_load_tracks` fills in the tracks of a list and copies some over others.

* `place_cases`, `duplicate_cases`: what one step of the two passes does.
* `Kept`: a track has its id, or the one that came with a redirect of it.
* `bookkeeping`: the nodes stay where they are, with such ids, and `num_tracks` comes to
  the number of tracks that have metadata.
-/

namespace Despotify.Lib

open Gateway Linked

/-! ## The steps -/

/-- A track whose metadata have come. -/
def HasMeta (t : Track) : Prop := t.hasMetaData = true

instance : DecidablePred HasMeta := fun t => inferInstanceAs (Decidable (t.hasMetaData = true))

/-- `num_tracks`, counted. -/
def metaCount (h : Heap Track) (all : List Nat) : Nat :=
  all.countP fun a => decide (At HasMeta h a)

variable {highBitrate : Bool} {as all : List Nat} {h : Heap Track} {e : Locals × Ezxml}

/-- The track filled in has the id of the element. -/
theorem fillAs_trackId (highBitrate : Bool) (e : Locals × Ezxml) (t : Track) :
    (fillAs highBitrate e t).trackId = tid e.1 e.2 := by
  rw [fillAs, fillTrack_trackId]
  unfold tid xmlstrncpy
  split <;> rfl

theorem fillAs_hasMeta (highBitrate : Bool) (e : Locals × Ezxml) (t : Track) :
    HasMeta (fillAs highBitrate e t) := rfl

/-- The ids a track may wait under for the element. -/
def Asks (e : Locals × Ezxml) (id : CString) : Prop :=
  id = tid e.1 e.2 ∨ ∃ re ∈ e.2.children "redirect", re.txt.take 33 = id

/-- What an element does. -/
theorem place_cases (highBitrate : Bool) (as : List Nat) (st : Heap Track × Nat)
    (e : Locals × Ezxml) :
    place highBitrate as st e = st ∨
      ∃ a ∈ as, ∃ id, At (Unfilled id) st.1 a ∧ Asks e id ∧
        place highBitrate as st e = (modify st.1 a (fillAs highBitrate e), st.2 + 1) := by
  cases hloc : locate st.1 as (tid e.1 e.2) (e.2.children "redirect") with
  | none => exact .inl (by rw [place, hloc])
  | some a =>
    refine .inr ⟨a, ?_⟩
    have hplace : place highBitrate as st e = (modify st.1 a (fillAs highBitrate e), st.2 + 1) := by
      rw [place, hloc]
    rw [locate, Option.or_eq_some_iff] at hloc
    rcases hloc with hfind | ⟨-, hre⟩
    · exact ⟨List.mem_of_find?_eq_some hfind, _, by simpa using List.find?_some hfind, .inl rfl,
        hplace⟩
    · obtain ⟨re, hmem, hfind⟩ := List.exists_of_findSome?_eq_some hre
      exact ⟨List.mem_of_find?_eq_some hfind, _, by simpa using List.find?_some hfind,
        .inr ⟨re, hmem, rfl⟩, hplace⟩

/-- What the second pass does to a track. -/
theorem duplicate_cases (all : List Nat) (st : Heap Track × Nat) (a : Nat) :
    duplicate all st a = st ∨
      ∃ n tt source, st.1 a = some n ∧ n.val.hasMetaData = false ∧ tt ∈ all ∧
        st.1 tt = some source ∧ Filled n.val.trackId source.val ∧
        duplicate all st a = (modify st.1 a fun _ => copyTrack source.val, st.2 + 1) := by
  unfold duplicate
  cases hn : st.1 a with
  | none => exact .inl rfl
  | some n =>
    by_cases hmeta : n.val.hasMetaData = true
    · exact .inl (by simp only [hmeta, if_true])
    · simp only [if_neg hmeta]
      cases hfind : all.find? fun b => decide (At (Filled n.val.trackId) st.1 b) with
      | none => exact .inl rfl
      | some tt =>
        have hat : At (Filled n.val.trackId) st.1 tt := by simpa using List.find?_some hfind
        obtain ⟨source, hsource, hfilled⟩ := hat
        exact .inr ⟨n, tt, source, rfl, Bool.eq_false_iff.mpr hmeta,
          List.mem_of_find?_eq_some hfind, hsource, hfilled, by simp only [hsource]⟩

/-! ## The ids -/

/-- An answer has an element of the new id with a redirect from the old one. -/
def Redirected (answers : Nat → Answer) (old new : CString) : Prop :=
  ∃ i, ∃ e ∈ (answers i).elements, tid e.1 e.2 = new ∧
    ∃ re ∈ e.2.children "redirect", re.txt.take 33 = old

/-- A track behind and before: one that waits has its id, and another has it or a new
one from a redirect. -/
structure Kept (answers : Nat → Answer) (old new : Track) : Prop where
  waits : new.hasMetaData = false → new.trackId = old.trackId
  id : new.trackId = old.trackId ∨ Redirected answers old.trackId new.trackId

/-- Every track of the list is kept. -/
def AllKept (answers : Nat → Answer) (all : List Nat) (h₀ h : Heap Track) : Prop :=
  ∀ a ∈ all, ∃ n₀ n, h₀ a = some n₀ ∧ h a = some n ∧ Kept answers n₀.val n.val

variable {answers : Nat → Answer} {h₀ : Heap Track}

theorem AllKept.modify (hk : AllKept answers all h₀ h) {a : Nat} {f : Track → Track}
    (hf : ∀ n₀ n, h₀ a = some n₀ → h a = some n → Kept answers n₀.val n.val →
      Kept answers n₀.val (f n.val)) :
    AllKept answers all h₀ (modify h a f) := by
  intro b hb
  obtain ⟨n₀, n, hn₀, hn, hkept⟩ := hk b hb
  by_cases hba : b = a
  · subst hba
    exact ⟨n₀, _, hn₀, modify_self hn, hf n₀ n hn₀ hn hkept⟩
  · exact ⟨n₀, n, hn₀, (modify_of_ne hba).trans hn, hkept⟩

theorem place_kept {st : Heap Track × Nat} (hk : AllKept answers all h₀ st.1) (as : List Nat)
    (he : ∃ i, e ∈ (answers i).elements) : AllKept answers all h₀ (place highBitrate as st e).1 := by
  rcases place_cases highBitrate as st e with heq | ⟨a, -, id, hat, hasks, heq⟩
  · rwa [heq]
  · rw [heq]
    refine hk.modify fun n₀ n hn₀ hn hkept => ⟨nofun, ?_⟩
    obtain ⟨hwaits, hid⟩ := (at_iff hn).mp hat
    rw [fillAs_trackId]
    rcases hasks with rfl | ⟨re, hre, htxt⟩
    · exact .inl (hid.symm.trans (hkept.waits hwaits))
    · obtain ⟨i, hi⟩ := he
      refine .inr ⟨i, e, hi, rfl, re, hre, ?_⟩
      rw [htxt, ← hid]
      exact hkept.waits hwaits

theorem duplicate_kept {st : Heap Track × Nat} (hk : AllKept answers all h₀ st.1) (a : Nat) :
    AllKept answers all h₀ (duplicate all st a).1 := by
  rcases duplicate_cases all st a with heq | ⟨n, tt, source, hn, hwaits, -, -, hfilled, heq⟩
  · rwa [heq]
  · rw [heq]
    dsimp only
    refine hk.modify fun n₀ n' hn₀ hn' hkept => ⟨nofun, .inl ?_⟩
    cases hn.symm.trans hn'
    exact hfilled.2.trans (hkept.waits hwaits)

/-! ## The count -/

/-- The counter is the number of tracks with metadata. -/
def Counted (all : List Nat) (st : Heap Track × Nat) : Prop := st.2 = metaCount st.1 all

theorem place_counted {st : Heap Track × Nat} (hc : Counted all st) (hall : all.Nodup)
    (hsub : as ⊆ all) (e : Locals × Ezxml) : Counted all (place highBitrate as st e) := by
  rcases place_cases highBitrate as st e with heq | ⟨a, ha, id, ⟨n, hn, hwaits, -⟩, -, heq⟩
  · rwa [heq]
  · rw [heq, Counted, metaCount]
    have hbefore : ¬ HasMeta n.val := by
      rw [HasMeta, hwaits]
      nofun
    rw [countP_modify hall (hsub ha) hn hbefore (fillAs_hasMeta highBitrate e n.val)]
    exact congrArg (· + 1) hc

theorem duplicate_counted {st : Heap Track × Nat} (hc : Counted all st) (hall : all.Nodup)
    {a : Nat} (ha : a ∈ all) : Counted all (duplicate all st a) := by
  rcases duplicate_cases all st a with heq | ⟨n, tt, source, hn, hwaits, -, -, -, heq⟩
  · rwa [heq]
  · rw [heq, Counted, metaCount]
    have hbefore : ¬ HasMeta n.val := by
      rw [HasMeta, hwaits]
      nofun
    have hafter : HasMeta (copyTrack source.val) := rfl
    rw [countP_modify hall ha hn hbefore hafter]
    exact congrArg (· + 1) hc

/-! ## The whole function -/

/-- What both passes keep. -/
structure Sound (answers : Nat → Answer) (all : List Nat) (h₀ : Heap Track)
    (st : Heap Track × Nat) : Prop where
  kept : AllKept answers all h₀ st.1
  counted : Counted all st

theorem Sound.placeAll {st : Heap Track × Nat} (hst : Sound answers all h₀ st) (hall : all.Nodup)
    (hsub : as ⊆ all) {es : List (Locals × Ezxml)} (hes : ∀ e ∈ es, ∃ i, e ∈ (answers i).elements) :
    Sound answers all h₀ (placeAll highBitrate as es st) := by
  induction es generalizing st with
  | nil => exact hst
  | cons e es ih =>
    obtain ⟨he, hes⟩ := List.forall_mem_cons.mp hes
    exact ih ⟨place_kept hst.kept as he, place_counted hst.counted hall hsub e⟩ hes

theorem Sound.duplicates {st : Heap Track × Nat} (hst : Sound answers all h₀ st) (hall : all.Nodup)
    {bs : List Nat} (hbs : bs ⊆ all) : Sound answers all h₀ (bs.foldl (duplicate all) st) := by
  induction bs generalizing st with
  | nil => exact hst
  | cons b bs ih =>
    obtain ⟨hb, hbs⟩ := List.cons_subset.mp hbs
    exact ih ⟨duplicate_kept hst.kept b, duplicate_counted hst.counted hall hb⟩ hbs

/-- A list without metadata. -/
theorem Sound.start {p : Option Nat} (hs : Spine h p all)
    (hnone : ∀ a ∈ all, ¬ At HasMeta h a) : Sound answers all h (h, 0) := by
  constructor
  · intro a ha
    obtain ⟨n, hn⟩ := hs.node ha
    exact ⟨n, n, hn, hn, fun _ => rfl, .inl rfl⟩
  · refine (List.countP_eq_zero.mpr fun a ha => ?_).symm
    rw [decide_eq_true_eq]
    exact hnone a ha

/-- The rounds of the loop. -/
theorem loadLoop_sound {fuel : Nat} {mem : Mem Track} {root : Option Nat} {numTracks : Int}
    {rounds : Nat} {s : Load} {err : Option String} (hs : Spine mem.heap root all)
    (hnone : ∀ a ∈ all, ¬ At HasMeta mem.heap a) (hfuel : all.length ≤ fuel)
    (h : loadLoop fuel highBitrate answers numTracks rounds ⟨mem, root, 0, 0, []⟩ = some (s, err)) :
    Spine s.mem.heap root all ∧ Sound answers all mem.heap (s.mem.heap, s.trackCount) := by
  have hround : ∀ {s s' : Load} {before as : List Nat}, before ++ as = all → s.On root before as →
      Sound answers all mem.heap (s.mem.heap, s.trackCount) → (s.totcount : Int) < numTracks →
      (s'.mem.heap, s'.trackCount) = Lib.placeAll highBitrate as (answers s.requested.length).elements
        (s.mem.heap, s.trackCount) →
      s'.requested =
        (vals s.mem.heap (as.take MAX_BROWSE_REQ)).map Track.trackId :: s.requested →
      Sound answers all mem.heap (s'.mem.heap, s'.trackCount) := by
    intro s s' before as hall hon hsound _ hplace _
    rw [hplace]
    refine hsound.placeAll hs.nodup ?_ fun e he => ⟨_, he⟩
    rw [← hall]
    exact List.subset_append_right before as
  obtain ⟨before, rest, hall, hon, hsound, -⟩ := loadLoop_inv
    (I := fun s _ _ => Sound answers all mem.heap (s.mem.heap, s.trackCount)) hfuel hround
    rfl (Load.On.start hs) (Sound.start hs hnone) h
  exact ⟨hall ▸ hon.list, hsound⟩

/-- **The bookkeeping of a load**: the nodes of the list stay as they are, each with its
id or one from a redirect of it, and on success `num_tracks` is the number of tracks that
have metadata. -/
theorem bookkeeping {fuel : Nat} {mem : Mem Track} {pl : Playlist} (answers : Nat → Answer)
    (highBitrate : Bool) (hs : Spine mem.heap pl.tracks all) (hnum : pl.numTracks = all.length)
    (hnone : ∀ a ∈ all, ¬ At HasMeta mem.heap a) (hfuel : all.length ≤ fuel) :
    ∃ out, despotifyLoadTracks fuel highBitrate answers mem pl = some out ∧
      Spine out.mem.heap out.playlist.tracks all ∧ out.playlist.tracks = pl.tracks ∧
      (∀ a ∈ all, ∃ n₀ n, mem.heap a = some n₀ ∧ out.mem.heap a = some n ∧
        (n.val.trackId = n₀.val.trackId ∨
          Redirected answers n₀.val.trackId n.val.trackId)) ∧
      (out.ok = true → out.playlist.numTracks = metaCount out.mem.heap all) := by
  have hreturns : (despotifyLoadTracks fuel highBitrate answers mem pl).isSome := by
    rw [despotifyLoadTracks_isSome_iff hs hfuel]
    exact .inr (loadLoop_isSome (Load.On.start hs) hfuel hfuel (Int.le_of_eq hnum))
  have hids : ∀ {h : Heap Track} {n : Nat}, Sound answers all mem.heap (h, n) →
      ∀ a ∈ all, ∃ n₀ n, mem.heap a = some n₀ ∧ h a = some n ∧
        (n.val.trackId = n₀.val.trackId ∨ Redirected answers n₀.val.trackId n.val.trackId) := by
    intro h n hsound a ha
    obtain ⟨n₀, n, hn₀, hn, hkept⟩ := hsound.kept a ha
    exact ⟨n₀, n, hn₀, hn, hkept.id⟩
  obtain ⟨out, hout⟩ := Option.isSome_iff_exists.mp hreturns
  refine ⟨out, hout, ?_⟩
  unfold despotifyLoadTracks at hout
  split at hout
  · rename_i hzero
    cases hout
    have hstart : Sound answers all mem.heap (mem.heap, 0) := Sound.start hs hnone
    refine ⟨hs, rfl, hids hstart, fun _ => ?_⟩
    exact hzero.trans (congrArg Int.ofNat hstart.counted)
  · cases hloop : loadLoop fuel highBitrate answers pl.numTracks fuel ⟨mem, pl.tracks, 0, 0, []⟩ with
    | none =>
      rw [hloop] at hout
      cases hout
    | some r =>
      obtain ⟨s, err⟩ := r
      obtain ⟨hlist, hsound⟩ := loadLoop_sound hs hnone hfuel hloop
      rw [hloop] at hout
      cases err with
      | some err =>
        cases hout
        exact ⟨hlist, rfl, hids hsound, nofun⟩
      | none =>
        simp only at hout
        split at hout
        · obtain ⟨mem', count', heq, hfold⟩ :=
            fillDuplicates_eq s.trackCount hlist hlist hfuel hfuel
          rw [heq] at hout
          cases hout
          have hsound' : Sound answers all mem.heap (mem'.heap, count') := by
            rw [hfold]
            exact hsound.duplicates hs.nodup (List.Subset.refl _)
          have hlist' : Spine mem'.heap pl.tracks all := by
            have hheap : mem'.heap = (all.foldl (duplicate all) (s.mem.heap, s.trackCount)).1 :=
              congrArg Prod.fst hfold
            rw [hheap]
            exact duplicates_spine hlist all
          exact ⟨hlist', rfl, hids hsound', fun _ => congrArg Int.ofNat hsound'.counted⟩
        · cases hout
          exact ⟨hlist, rfl, hids hsound, fun _ => congrArg Int.ofNat hsound.counted⟩

/-- A list with one track. -/
def oneTrack : Mem Track := Mem.empty.alloc { trackId := ascii "aa" }

def onePlaylist : Playlist := { numTracks := 1, tracks := some 0 }

/-- A reply with a track of another id. -/
def unknownTrack : Answer :=
  .fetched (some (.mk (ascii "result") [] [] [.mk (ascii "tracks") [] []
    [.mk (ascii "track") [] [] [.mk (ascii "id") (ascii "bb") [] []]]])) fun _ => {}

/-- Of that list with that reply. -/
theorem bookkeeping_unknownTrack :
    ∃ out, despotifyLoadTracks 1 false (fun _ => unknownTrack) oneTrack onePlaylist = some out ∧
      Spine out.mem.heap out.playlist.tracks [0] ∧
      (out.ok = true → out.playlist.numTracks = metaCount out.mem.heap [0]) := by
  have hnode : oneTrack.heap 0 = some ⟨{ trackId := ascii "aa" }, none⟩ := rfl
  have hlist : Spine oneTrack.heap onePlaylist.tracks [0] := ⟨rfl, _, none, hnode, rfl⟩
  have hnone : ∀ a ∈ [0], ¬ At HasMeta oneTrack.heap a := by
    intro a ha
    cases List.mem_singleton.mp ha
    rw [at_iff hnode]
    nofun
  obtain ⟨out, hout, hsame, -, -, hcount⟩ :=
    bookkeeping (fun _ => unknownTrack) false hlist rfl hnone (Nat.le_refl 1)
  exact ⟨out, hout, hsame, hcount⟩

end Despotify.Lib

import Despotify.Lib.Session

/-!
# The stored playlists

`despotify_get_stored_playlists` fetches the playlists of the meta playlist one by one
and threads those that come through `prev`.  A fetch that fails is threaded like the
others: it ends the list, and the next result starts a new one.

* `Thread`: what the loop has made of the results so far.
* `survives_iff`: the list has exactly the playlists loaded, and the call returns, when
  the meta playlist has come or the cache is off, and no fetch but the last one fails
  after another has succeeded.
* `secondFails_lost`: a playlist that is lost.
-/

namespace Despotify.Lib

open Gateway Linked

/-! ## The call -/

/-- The loop between two playlists. -/
structure Stored where
  session : Session
  root : Option Nat := none
  prev : Option Nat := none
  /-- the playlists that have come, as they were then -/
  loaded : List (Nat × Playlist) := []

/-- `if (prev) prev->next = new; else root = new; prev = new;` -/
def Stored.append (st : Stored) (new : Option Nat) : Stored :=
  match st.prev with
  | some prev => { st with
      session := { st.session with playlists := st.session.playlists.link prev new }
      prev := new }
  | none => { st with root := new, prev := new }

/-- The result of a fetch, when there is one. -/
def Stored.record (st : Stored) (s : Session) (new : Option Nat) : Stored :=
  { st with
    session := s
    loaded := st.loaded ++
      (new.bind fun a => (s.playlists.heap a).map fun node => (a, node.val)).toList }

section
variable (fuel : Nat) (supplies : Nat → Supply)

/-- `for (p = metalist; p && p->playlist_id[0]; p = p->next)`, with `i` fetches behind. -/
def storedLoop : Nat → Nat → Stored → Option Nat → Option Stored
  | _, _, st, none => some st
  | 0, _, _, some _ => none
  | n + 1, i, st, some p =>
    match st.session.playlists.heap p with
    | none => none
    | some node =>
      if node.val.playlistId = [] then some st
      else
        match despotifyGetPlaylist fuel (supplies i) st.session (some node.val.playlistId) with
        | none => none
        | some (s, new) =>
          let st := (st.record s new).append new
          match st.session.playlists.heap p with
          | none => none
          | some node => storedLoop n (i + 1) st node.next

end

/-- `xml_free_playlist`. -/
def xmlFreePlaylist (fuel : Nat) : Nat → Session → Option Nat → Option Session
  | _, s, none => some s
  | 0, _, some _ => none
  | n + 1, s, some p =>
    match s.playlists.heap p with
    | none => none
    | some node =>
      match freeList fuel s.tracks node.val.tracks with
      | none => none
      | some tracks =>
        xmlFreePlaylist fuel n { s with tracks := tracks, playlists := s.playlists.free p } node.next

/-- How the call ends. -/
inductive StoredEnd
  /-- `metalist->revision` with `metalist` `NULL` -/
  | crashed
  | returned (st : Stored)

/-- The check of the revision; no value when `metalist` is `NULL`. -/
def checkRevision (oldUseCache : Bool) (s : Session) (metalist : Option Nat) : Option Session :=
  if oldUseCache then
    match metalist.bind s.playlists.heap with
    | none => none
    | some node => some
        (if s.metaRevision < node.val.revision then
          { s with metaRevision := node.val.revision, useCache := false }
        else { s with useCache := oldUseCache })
  else some s

/-- `despotify_get_stored_playlists`; no value when it does not return. -/
def despotifyGetStoredPlaylists (fuel : Nat) (metaSupply : Supply) (supplies : Nat → Supply)
    (s : Session) : Option StoredEnd :=
  let oldUseCache := s.useCache
  match despotifyGetPlaylist fuel metaSupply { s with useCache := false } none with
  | none => none
  | some (s, metalist) =>
    match checkRevision oldUseCache s metalist with
    | none => some .crashed
    | some s =>
      match storedLoop fuel supplies fuel 0 { session := s } metalist with
      | none => none
      | some st =>
        (xmlFreePlaylist fuel fuel st.session metalist).map fun s =>
          .returned { st with session := { s with useCache := oldUseCache } }

/-! ## The property -/

/-- The call returns the playlists that have come, in that order and as they were, and
the cache is used as before. -/
def Survives (useCache : Bool) : StoredEnd → Prop
  | .crashed => False
  | .returned st =>
    Spine st.session.playlists.heap st.root (st.loaded.map Prod.fst) ∧
      (∀ r ∈ st.loaded, (st.session.playlists.heap r.1).map Node.val = some r.2) ∧
      st.session.useCache = useCache

/-- No result but the last one is a failure after a success. -/
def Lossless (ok : Nat → Prop) (n : Nat) : Prop :=
  ∀ j k, j < k → k + 1 < n → ok j → ok k

/-- The ids the loop goes over. -/
def Supply.metaIds (supply : Supply) : List CString :=
  match supply.reply with
  | .document top => ((trackIds supply.stale top).map fun id => strncpy id 35).takeWhile (· ≠ [])
  | .sendFailed | .timeout => []

/-- The revision of the meta playlist. -/
def Supply.revision (supply : Supply) : UInt32 :=
  match supply.reply with
  | .document top =>
    (xmlParseVersion supply.junk {} (ezxmlGet top ["next-change", "version"]).head?).revision
  | .sendFailed | .timeout => 0

/-- The meta playlist has come. -/
def Supply.Replied (supply : Supply) : Prop := ∃ top, supply.reply = .document top

/-- Whether the fetches look into the cache. -/
def fetchesUseCache (s : Session) (metaSupply : Supply) : Bool :=
  s.useCache && decide (¬ s.metaRevision < metaSupply.revision)

/-! ## The thread -/

/-- What the loop has made of the first `n` results, of which `ok` says which succeeded:
none has, the list is open, it has ended with a failure, or its start is lost. -/
inductive Thread (ok : Nat → Prop) (h : Heap Playlist) (n : Nat) (root prev : Option Nat) :
    List Nat → Prop
  | empty (hno : ∀ k < n, ¬ ok k) (hroot : root = none) (hprev : prev = none) :
    Thread ok h n root prev []
  | extending {as : List Nat} {e : Nat} (hs : Spine h root (as ++ [e])) (hprev : prev = some e)
    {i : Nat} (hi : i < n) (hok : ∀ k < n, ok k ↔ i ≤ k) : Thread ok h n root prev (as ++ [e])
  | ended {as : List Nat} (hs : Spine h root as) (hne : as ≠ []) (hprev : prev = none) {m i : Nat}
    (hn : n = m + 1) (hi : i < m) (hok : ∀ k < m, ok k ↔ i ≤ k) (hfail : ¬ ok m) :
    Thread ok h n root prev as
  | lost {a : Nat} {as : List Nat} (hroot : root ≠ some a) {j k : Nat} (hjk : j < k)
    (hkn : k + 1 < n) (hj : ok j) (hk : ¬ ok k) : Thread ok h n root prev (a :: as)

variable {ok : Nat → Prop} {h : Heap Playlist} {n : Nat} {root prev : Option Nat} {as : List Nat}

theorem Thread.spine_iff (ht : Thread ok h n root prev as) :
    Spine h root as ↔ Lossless ok n := by
  cases ht with
  | empty hno hroot hprev =>
    exact iff_of_true hroot fun j k hjk hk hj => absurd hj (hno j (by omega))
  | extending hs hprev hi hok =>
    refine iff_of_true hs fun j k hjk hk hj => ?_
    rw [hok k (by omega)]
    have hij := (hok j (by omega)).mp hj
    omega
  | ended hs hne hprev hn hi hok hfail =>
    refine iff_of_true hs fun j k hjk hk hj => ?_
    rw [hok k (by omega)]
    have hij := (hok j (by omega)).mp hj
    omega
  | lost hroot hjk hkn hj hk =>
    exact iff_of_false (fun hs => hroot hs.1) fun hall => hk (hall _ _ hjk hkn hj)

/-- The next result, threaded. -/
theorem Thread.step {m m' : Mem Playlist} {new : Option Nat} {st : Stored}
    (ht : Thread ok m.heap n st.root st.prev as) (hlt : ∀ a ∈ as, a < m.brk)
    (hothers : ∀ a, a ≠ m.brk → m'.heap a = m.heap a)
    (hnew : ∀ a, new = some a → a = m.brk ∧ ∃ v, m'.heap a = some ⟨v, none⟩)
    (hok : new.isSome ↔ ok n) (hm' : st.session.playlists = m') :
    Thread ok (st.append new).session.playlists.heap (n + 1) (st.append new).root
      (st.append new).prev (as ++ new.toList) := by
  subst hm'
  have hframe : ∀ {p : Option Nat} {as : List Nat}, (∀ a ∈ as, a < m.brk) → Spine m.heap p as →
      Spine st.session.playlists.heap p as := by
    intro p as hlt hs
    refine hs.frame fun a ha => ?_
    rw [hothers a (Nat.ne_of_lt (hlt a ha))]
  cases ht with
  | empty hno hroot hprev =>
    simp only [Stored.append, hprev]
    cases new with
    | none =>
      refine .empty (fun k hk => ?_) rfl rfl
      rcases Nat.lt_succ_iff_lt_or_eq.mp hk with hk | rfl
      · exact hno k hk
      · exact fun hokn => nomatch hok.mpr hokn
    | some b =>
      obtain ⟨rfl, v, hv⟩ := hnew b rfl
      have hspine : Spine st.session.playlists.heap (some m.brk) ([] ++ [m.brk]) :=
        ⟨rfl, v, none, hv, rfl⟩
      refine .extending hspine rfl (Nat.lt_succ_self n) fun k hk => ?_
      rcases Nat.lt_succ_iff_lt_or_eq.mp hk with hk | rfl
      · exact iff_of_false (hno k hk) (by omega)
      · exact iff_of_true (hok.mp rfl) (Nat.le_refl _)
  | @extending as e hs hprev i hi hokn =>
    simp only [Stored.append, hprev]
    have hs' := hframe hlt hs
    cases new with
    | none =>
      have hnil : Spine st.session.playlists.heap none [] := rfl
      exact .ended (hs'.link hnil List.not_mem_nil) (by simp) rfl rfl hi hokn
        fun hfail => nomatch hok.mpr hfail
    | some b =>
      obtain ⟨rfl, v, hv⟩ := hnew b rfl
      have hone : Spine st.session.playlists.heap (some m.brk) [m.brk] := ⟨rfl, v, none, hv, rfl⟩
      have he : e ∉ [m.brk] := by
        rw [List.mem_singleton]
        exact Nat.ne_of_lt (hlt e (by simp))
      refine .extending (hs'.link hone he) rfl (Nat.lt_succ_of_lt hi) fun k hk => ?_
      rcases Nat.lt_succ_iff_lt_or_eq.mp hk with hk | rfl
      · exact hokn k hk
      · exact iff_of_true (hok.mp rfl) (Nat.le_of_lt hi)
  | @ended as hs hne hprev k i hn hi hokn hfail =>
    simp only [Stored.append, hprev]
    cases as with
    | nil => exact absurd rfl hne
    | cons a as =>
      -- whatever comes now takes the place of the start
      refine .lost ?_ hi (by omega) ((hokn i hi).mpr (Nat.le_refl i)) hfail
      rintro rfl
      exact Nat.lt_irrefl _ ((hnew a rfl).1 ▸ hlt a List.mem_cons_self)
  | @lost a as hroot j k hjk hkn hj hk =>
    refine .lost ?_ hjk (Nat.lt_succ_of_lt hkn) hj hk
    unfold Stored.append
    split
    · exact hroot
    · rintro hnew'
      exact Nat.lt_irrefl _ ((hnew a hnew').1 ▸ hlt a List.mem_cons_self)

/-! ## The loop -/

theorem Stored.append_of_ne {st : Stored} {new : Option Nat} {a : Nat} (ha : st.prev ≠ some a) :
    (st.append new).session.playlists.heap a = st.session.playlists.heap a := by
  unfold Stored.append
  split
  · rename_i prev hprev
    refine Mem.link_of_ne ?_
    rintro rfl
    exact ha hprev
  · rfl

theorem Stored.append_val (st : Stored) (new : Option Nat) (a : Nat) :
    ((st.append new).session.playlists.heap a).map Node.val =
      (st.session.playlists.heap a).map Node.val := by
  unfold Stored.append
  split
  · exact Mem.link_val _ _ _ _
  · rfl

/-- What linking leaves alone. -/
theorem Stored.append_same (st : Stored) (new : Option Nat) :
    (st.append new).session.playlists.brk = st.session.playlists.brk ∧
      (st.append new).session.listOfLists = st.session.listOfLists ∧
      (st.append new).session.useCache = st.session.useCache ∧
      (st.append new).session.tracks = st.session.tracks ∧
      (st.append new).loaded = st.loaded ∧ (st.append new).prev = new := by
  unfold Stored.append
  split <;> exact ⟨rfl, rfl, rfl, rfl, rfl, rfl⟩

/-- The loop behind `n` fetches: the meta playlist at `all` is as it was, and apart from
the playlists loaded. -/
structure Looping (ok : Nat → Prop) (useCache : Bool) (metalist : Option Nat) (all : List Nat)
    (n : Nat) (st : Stored) : Prop where
  list : Spine st.session.playlists.heap metalist all
  lists : st.session.listOfLists = false
  useCache : st.session.useCache = useCache
  thread : Thread ok st.session.playlists.heap n st.root st.prev (st.loaded.map Prod.fst)
  prev : ∀ e, st.prev = some e → e ∈ st.loaded.map Prod.fst
  apart : ∀ r ∈ st.loaded, r.1 ∉ all
  below : ∀ r ∈ st.loaded, r.1 < st.session.playlists.brk
  values : ∀ r ∈ st.loaded, (st.session.playlists.heap r.1).map Node.val = some r.2

variable {useCache : Bool} {metalist : Option Nat} {all rest : List Nat} {st : Stored}

/-- The state with the result of a fetch. -/
theorem record_loaded (st : Stored) {s s' : Session} {new : Option Nat} (hgot : Got s s' new) :
    ∃ rs, (st.record s' new).loaded = st.loaded ++ rs ∧ rs.map Prod.fst = new.toList ∧
      ∀ r ∈ rs, r.1 = s.playlists.brk ∧ (s'.playlists.heap r.1).map Node.val = some r.2 := by
  cases new with
  | none => exact ⟨[], rfl, rfl, nofun⟩
  | some a =>
    obtain ⟨ha, pl, hpl⟩ := hgot.value a rfl
    refine ⟨[(a, pl)], ?_, rfl, ?_⟩
    · simp only [Stored.record, Option.bind_some, hpl, Option.map_some, Option.toList_some]
    · intro r hr
      cases List.mem_singleton.mp hr
      exact ⟨ha, by rw [hpl, Option.map_some]⟩

theorem Looping.step (hl : Looping ok useCache metalist all n st) {s' : Session}
    {new : Option Nat} (hgot : Got st.session s' new) (hok : new.isSome ↔ ok n) :
    Looping ok useCache metalist all (n + 1) ((st.record s' new).append new) ∧
      ∀ a ∈ all, ((st.record s' new).append new).session.playlists.heap a =
        st.session.playlists.heap a := by
  obtain ⟨rs, hrs, hfst, hnew⟩ := record_loaded st hgot
  have hprev : ∀ a ∈ all, st.prev ≠ some a := by
    intro a ha hprev
    obtain ⟨r, hr, rfl⟩ := List.mem_map.mp (hl.prev a hprev)
    exact hl.apart r hr ha
  have hkeep : ∀ a ∈ all, ((st.record s' new).append new).session.playlists.heap a =
      st.session.playlists.heap a := by
    intro a ha
    refine (Stored.append_of_ne ?_).trans (hgot.others a (Nat.ne_of_lt (hl.list.lt_brk ha)))
    exact hprev a ha
  obtain ⟨hbrk, hlists, huse, -, hsame, hprev'⟩ := Stored.append_same (st.record s' new) new
  have hbrk' : ((st.record s' new).append new).session.playlists.brk =
      st.session.playlists.brk + 1 := hbrk.trans hgot.brk
  have hloaded : ((st.record s' new).append new).loaded = st.loaded ++ rs := hsame.trans hrs
  have hlt : ∀ a ∈ st.loaded.map Prod.fst, a < st.session.playlists.brk := by
    intro a ha
    obtain ⟨r, hr, rfl⟩ := List.mem_map.mp ha
    exact hl.below r hr
  have hthread : Thread ok st.session.playlists.heap n (st.record s' new).root
      (st.record s' new).prev (st.loaded.map Prod.fst) := hl.thread
  refine ⟨?_, hkeep⟩
  constructor
  · refine hl.list.frame fun a ha => ?_
    rw [hkeep a ha]
  · exact hlists.trans hgot.listOfLists
  · exact huse.trans (hgot.useCache.trans hl.useCache)
  · rw [hloaded, List.map_append, hfst]
    exact hthread.step hlt hgot.others hgot.value hok rfl
  · intro e he
    rw [hloaded, List.map_append, hfst]
    rw [hprev'] at he
    exact List.mem_append_right _ (Option.mem_toList.mpr he)
  · intro r hr hall
    rw [hloaded] at hr
    rcases List.mem_append.mp hr with hr | hr
    · exact hl.apart r hr hall
    · exact Nat.lt_irrefl _ ((hnew r hr).1 ▸ hl.list.lt_brk hall)
  · intro r hr
    rw [hloaded] at hr
    rw [hbrk']
    rcases List.mem_append.mp hr with hr | hr
    · exact Nat.lt_succ_of_lt (hl.below r hr)
    · rw [(hnew r hr).1]
      exact Nat.lt_succ_self _
  · intro r hr
    rw [hloaded] at hr
    rw [Stored.append_val]
    rcases List.mem_append.mp hr with hr | hr
    · rw [← hl.values r hr]
      exact congrArg _ (hgot.others r.1 (Nat.ne_of_lt (hl.below r hr)))
    · exact (hnew r hr).2

/-- The ids of the playlists from here on. -/
def idsFrom (h : Heap Playlist) (rest : List Nat) : List CString :=
  ((vals h rest).map Playlist.playlistId).takeWhile (· ≠ [])

/-- The loop goes over the rest of the meta playlist. -/
theorem storedLoop_spec {supplies : Nat → Supply} {p : Option Nat} {ids : List CString}
    {fuel steps : Nat} (hsub : rest ⊆ all) (hlen : rest.length ≤ steps)
    (hrest : Spine st.session.playlists.heap p rest)
    (hids : idsFrom st.session.playlists.heap rest = ids)
    (hget : ∀ k, n ≤ k → k < n + ids.length → ∀ (s : Session) (id : CString),
      s.listOfLists = false → ∃ s' new, despotifyGetPlaylist fuel (supplies k) s (some id) =
        some (s', new) ∧ Got s s' new ∧ (new.isSome ↔ (supplies k).Succeeds s.useCache))
    (hl : Looping (fun k => (supplies k).Succeeds useCache) useCache metalist all n st) :
    ∃ st', storedLoop fuel supplies steps n st p = some st' ∧
      Looping (fun k => (supplies k).Succeeds useCache) useCache metalist all (n + ids.length) st' ∧
      ∀ a ∈ all, st'.session.playlists.heap a = st.session.playlists.heap a := by
  induction rest generalizing p ids steps n st with
  | nil =>
    cases hrest
    subst hids
    cases steps <;> exact ⟨st, rfl, hl, fun _ _ => rfl⟩
  | cons a rest ih =>
    obtain ⟨rfl, v, q, ha, hrest⟩ := hrest
    cases steps with
    | zero => cases hlen
    | succ steps =>
      obtain ⟨haall, hsub⟩ := List.cons_subset.mp hsub
      rw [idsFrom, vals_cons ha, List.map_cons] at hids
      by_cases hv : v.playlistId = []
      · rw [List.takeWhile_cons_of_neg (by simp [hv])] at hids
        subst hids
        refine ⟨st, ?_, hl, fun _ _ => rfl⟩
        simp only [storedLoop, ha, if_pos hv]
      · rw [List.takeWhile_cons_of_pos (by simpa using hv)] at hids
        change v.playlistId :: idsFrom st.session.playlists.heap rest = ids at hids
        subst hids
        have hnow : n < n + (v.playlistId :: idsFrom st.session.playlists.heap rest).length := by
          rw [List.length_cons]
          omega
        obtain ⟨s', new, hrun, hgot, hok⟩ :=
          hget n (Nat.le_refl n) hnow st.session v.playlistId hl.lists
        rw [hl.useCache] at hok
        obtain ⟨hl', hkeep⟩ := hl.step hgot hok
        have hrest' : Spine ((st.record s' new).append new).session.playlists.heap q rest := by
          refine hrest.frame fun b hb => ?_
          rw [hkeep b (hsub hb)]
        have hids' : idsFrom ((st.record s' new).append new).session.playlists.heap rest =
            idsFrom st.session.playlists.heap rest := by
          rw [idsFrom, idsFrom, vals, vals, List.filterMap_congr]
          intro b hb
          rw [hkeep b (hsub hb)]
        have hnext : n + 1 + (idsFrom st.session.playlists.heap rest).length =
            n + (v.playlistId :: idsFrom st.session.playlists.heap rest).length := by
          rw [List.length_cons]
          omega
        obtain ⟨st', hloop, hl'', hkeep'⟩ := ih hsub (Nat.le_of_succ_le_succ hlen) hrest' hids'
          (fun k hk hkn => hget k (by omega) (by rw [← hnext]; exact hkn)) hl'
        refine ⟨st', ?_, hnext ▸ hl'', fun b hb => (hkeep' b hb).trans (hkeep b hb)⟩
        simp only [storedLoop, ha, if_neg hv, hrun, (hkeep a haall).trans ha]
        exact hloop

/-! ## The meta playlist -/

/-- A playlist of the meta playlist. -/
def NoTracks (pl : Playlist) : Prop := pl.tracks = none

/-- The meta playlist has come. -/
theorem metaPlaylist_of_document (fuel : Nat) {metaSupply : Supply} {top : Option Ezxml} (s : Session)
    (hreply : metaSupply.reply = .document top) :
    ∃ s' p v all, despotifyGetPlaylist fuel metaSupply s none = some (s', some p) ∧
      s'.useCache = s.useCache ∧ s'.metaRevision = s.metaRevision ∧ s'.listOfLists = false ∧
      Spine s'.playlists.heap (some p) all ∧ (s'.playlists.heap p).map Node.val = some v ∧
      v.revision = metaSupply.revision ∧
      idsFrom s'.playlists.heap all = metaSupply.metaIds ∧
      (∀ a ∈ all, At NoTracks s'.playlists.heap a) ∧
      all.length ≤ (trackIds metaSupply.stale top).length + 1 ∧
      ∀ a ∈ all, s.playlists.heap a = none := by
  obtain ⟨v, q, bs, hv, hs, hvals, hlen, hnew, hid, htracks, hrev⟩ :=
    xmlParsePlaylists_spec metaSupply.stale metaSupply.junk s.playlists top
  have hrun : despotifyGetPlaylist fuel metaSupply s none = some
      ({ (s.newPlaylist.setLists true) with
          playlists := xmlParsePlaylists metaSupply.stale metaSupply.junk s.newPlaylist.playlists
            s.playlists.brk top }.setLists false, some s.playlists.brk) := by
    simp only [despotifyGetPlaylist, Session.requestPlaylist, hreply, Option.isNone_none, Bool.or_true]
    rfl
  have hall : vals (xmlParsePlaylists metaSupply.stale metaSupply.junk (s.playlists.alloc {})
      s.playlists.brk top).heap (s.playlists.brk :: bs) =
      v :: ((trackIds metaSupply.stale top).tail.map fun id => { playlistId := strncpy id 35 }) := by
    rw [vals_cons hv, hvals]
  refine ⟨_, _, v, s.playlists.brk :: bs, hrun, rfl, rfl, rfl, hs,
    congrArg (Option.map Node.val) hv, ?_, ?_, ?_, ?_, ?_⟩
  · rw [hrev, Supply.revision, hreply]
  · change ((vals (xmlParsePlaylists metaSupply.stale metaSupply.junk (s.playlists.alloc {})
      s.playlists.brk top).heap (s.playlists.brk :: bs)).map Playlist.playlistId).takeWhile
        (· ≠ []) = metaSupply.metaIds
    have hmeta : metaSupply.metaIds = ((trackIds metaSupply.stale top).map fun id =>
        strncpy id 35).takeWhile (· ≠ []) := by
      rw [Supply.metaIds, hreply]
    rw [hall, List.map_cons, hid, List.map_map, hmeta]
    cases trackIds metaSupply.stale top with
    | nil => rfl
    | cons id ids => rfl
  · intro a ha
    obtain ⟨node, hnode⟩ := hs.node ha
    refine ⟨node, hnode, ?_⟩
    have hmem : node.val ∈ vals (xmlParsePlaylists metaSupply.stale metaSupply.junk
        (s.playlists.alloc {}) s.playlists.brk top).heap (s.playlists.brk :: bs) :=
      List.mem_filterMap.mpr ⟨a, ha, by rw [hnode, Option.map_some]⟩
    rw [hall] at hmem
    rcases List.mem_cons.mp hmem with heq | hmem
    · rw [heq]
      exact htracks
    · obtain ⟨id, -, heq⟩ := List.mem_map.mp hmem
      rw [← heq]
      rfl
  · rw [List.length_cons, hlen, List.length_tail]
    omega
  · intro a ha
    rcases List.mem_cons.mp ha with rfl | ha
    · exact s.playlists.fresh _ (Nat.le_refl _)
    · exact s.playlists.fresh a (hnew a ha)

/-- The meta playlist has not come. -/
theorem metaPlaylist_of_none (fuel : Nat) {metaSupply : Supply} (s : Session)
    (hreply : ¬ metaSupply.Replied) :
    ∃ s', despotifyGetPlaylist fuel metaSupply s none = some (s', none) ∧
      s'.useCache = s.useCache := by
  cases hcase : metaSupply.reply with
  | sendFailed | timeout =>
    simp only [despotifyGetPlaylist, Session.requestPlaylist, hcase]
    exact ⟨_, rfl, rfl⟩
  | document top => exact absurd ⟨top, hcase⟩ hreply

/-- The list is freed, and nothing else. -/
theorem xmlFreePlaylist_spec (fuel : Nat) {steps : Nat} {s : Session} {p : Option Nat}
    (hs : Spine s.playlists.heap p as) (hsteps : as.length ≤ steps)
    (htracks : ∀ a ∈ as, At NoTracks s.playlists.heap a) :
    ∃ s', xmlFreePlaylist fuel steps s p = some s' ∧
      ∀ a, a ∉ as → s'.playlists.heap a = s.playlists.heap a := by
  have hnodup := hs.nodup
  induction as generalizing s p steps with
  | nil =>
    cases hs
    cases steps <;> exact ⟨s, rfl, fun _ _ => rfl⟩
  | cons a as ih =>
    obtain ⟨rfl, v, q, ha, hs⟩ := hs
    obtain ⟨hane, hnodup⟩ := List.nodup_cons.mp hnodup
    cases steps with
    | zero => cases hsteps
    | succ steps =>
      obtain ⟨hv, htracks⟩ := List.forall_mem_cons.mp htracks
      rw [at_iff ha] at hv
      have hfree : freeList fuel s.tracks v.tracks = some s.tracks := by
        rw [hv]
        cases fuel <;> rfl
      have hne : ∀ b ∈ as, b ≠ a := by
        rintro b hb rfl
        exact hane hb
      have htracks' : ∀ b ∈ as, At NoTracks
          (s.playlists.free a).heap b := by
        intro b hb
        obtain ⟨n, hn, hpl⟩ := htracks b hb
        exact ⟨n, (Mem.free_of_ne (hne b hb)).trans hn, hpl⟩
      have hrest : Spine ({ s with playlists := s.playlists.free a } : Session).playlists.heap q as :=
        hs.free hane
      obtain ⟨s', hrun, hkeep⟩ := ih hrest (Nat.le_of_succ_le_succ hsteps) htracks' hnodup
      refine ⟨s', ?_, fun b hb => ?_⟩
      · simp only [xmlFreePlaylist, ha, hfree]
        exact hrun
      · obtain ⟨hba, hb⟩ := not_or.mp fun h => hb (List.mem_cons.mpr h)
        exact (hkeep b hb).trans (Mem.free_of_ne hba)

/-! ## The call -/

/-- What the loop leaves is what the call returns, when the thread is whole. -/
theorem survives_of_looping {useCache loopCache : Bool} {st : Stored} {s' : Session}
    (hl : Looping ok loopCache metalist all n st)
    (hkeep : ∀ a, a ∉ all → s'.playlists.heap a = st.session.playlists.heap a) :
    Survives useCache (.returned { st with session := { s' with useCache := useCache } }) ↔
      Lossless ok n := by
  rw [← hl.thread.spine_iff]
  have hloaded : ∀ a ∈ st.loaded.map Prod.fst,
      s'.playlists.heap a = st.session.playlists.heap a := by
    intro a ha
    obtain ⟨r, hr, rfl⟩ := List.mem_map.mp ha
    exact hkeep r.1 (hl.apart r hr)
  constructor
  · rintro ⟨hs, -, -⟩
    exact hs.frame fun a ha => by rw [hloaded a ha]
  · intro hs
    refine ⟨hs.frame fun a ha => by rw [hloaded a ha], fun r hr => ?_, rfl⟩
    rw [← hl.values r hr]
    exact congrArg _ (hkeep r.1 (hl.apart r hr))

/-- The revision is checked, with the cache used for the fetches if it has not risen. -/
theorem checkRevision_of_document {metaSupply : Supply} {s s' : Session} {p : Nat} {v : Playlist}
    (huse : s'.useCache = false) (hrevision : s'.metaRevision = s.metaRevision)
    (hv : (s'.playlists.heap p).map Node.val = some v) (hrev : v.revision = metaSupply.revision) :
    ∃ s'', checkRevision s.useCache s' (some p) = some s'' ∧ s''.playlists = s'.playlists ∧
      s''.listOfLists = s'.listOfLists ∧ s''.useCache = fetchesUseCache s metaSupply := by
  obtain ⟨node, hnode, rfl⟩ := Option.map_eq_some_iff.mp hv
  unfold checkRevision fetchesUseCache
  cases s.useCache with
  | false => exact ⟨s', rfl, rfl, rfl, huse⟩
  | true =>
    simp only [if_true, Option.bind_some, hnode, hrevision, hrev, Bool.true_and]
    by_cases hlt : s.metaRevision < metaSupply.revision
    · exact ⟨_, rfl, by rw [if_pos hlt], by rw [if_pos hlt], by simp [hlt]⟩
    · exact ⟨_, rfl, by rw [if_neg hlt], by rw [if_neg hlt], by simp [hlt]⟩

/-- One bound for finitely many. -/
theorem exists_enough {P : Nat → Nat → Prop} {n : Nat}
    (h : ∀ k < n, ∃ enough, ∀ fuel, enough ≤ fuel → P k fuel) :
    ∃ enough, ∀ fuel, enough ≤ fuel → ∀ k < n, P k fuel := by
  induction n with
  | zero => exact ⟨0, fun _ _ _ hk => nomatch hk⟩
  | succ n ih =>
    obtain ⟨e, he⟩ := ih fun k hk => h k (Nat.lt_succ_of_lt hk)
    obtain ⟨e', he'⟩ := h n (Nat.lt_succ_self n)
    refine ⟨max e e', fun fuel hfuel k hk => ?_⟩
    rcases Nat.lt_succ_iff_lt_or_eq.mp hk with hk | rfl
    · exact he fuel (by omega) k hk
    · exact he' fuel (by omega)

/-- **The stored playlists survive failures** exactly when the meta playlist has come, or
the cache is off, and no fetch but the last one fails after another has succeeded. -/
theorem survives_iff (metaSupply : Supply) (supplies : Nat → Supply) (s : Session)
    (hends : ∀ i < metaSupply.metaIds.length, (supplies i).Ends) :
    ∃ enough, ∀ fuel, enough ≤ fuel →
      ∃ out, despotifyGetStoredPlaylists fuel metaSupply supplies s = some out ∧
        (Survives s.useCache out ↔
          (metaSupply.Replied ∨ s.useCache = false) ∧
            Lossless (fun i => (supplies i).Succeeds (fetchesUseCache s metaSupply))
              metaSupply.metaIds.length) := by
  obtain ⟨enough, hget⟩ := exists_enough fun i hi => despotifyGetPlaylist_spec (supplies i) (hends i hi)
  by_cases hreplied : metaSupply.Replied
  · obtain ⟨top, hreply⟩ := hreplied
    refine ⟨max enough ((trackIds metaSupply.stale top).length + 1), fun fuel hfuel => ?_⟩
    obtain ⟨s', p, v, all, hrun, huse, hrevision, hlists, hall, hv, hrev, hids, htracks, hlen, -⟩ :=
      metaPlaylist_of_document fuel { s with useCache := false } hreply
    obtain ⟨s'', hcheck, hplaylists, hlists'', huse''⟩ :=
      checkRevision_of_document (s := s) huse hrevision hv hrev
    rw [← hplaylists] at hall hids htracks
    have hstart : Looping (fun k => (supplies k).Succeeds (fetchesUseCache s metaSupply))
        (fetchesUseCache s metaSupply) (some p) all 0 { session := s'' } := by
      refine ⟨hall, hlists''.trans hlists, huse'', .empty ?_ rfl rfl, ?_, ?_, ?_, ?_⟩
      all_goals
        intro _ hnil
        cases hnil
    have hfetch : ∀ k, 0 ≤ k → k < 0 + metaSupply.metaIds.length → ∀ (s : Session) (id : CString),
        s.listOfLists = false → ∃ s' new, despotifyGetPlaylist fuel (supplies k) s (some id) =
          some (s', new) ∧ Got s s' new ∧ (new.isSome ↔ (supplies k).Succeeds s.useCache) :=
      fun k _ hk => hget fuel (by omega) k (by omega)
    have hsteps : all.length ≤ fuel := by omega
    obtain ⟨st, hloop, hl, hkeep⟩ :=
      storedLoop_spec (List.Subset.refl all) hsteps hall hids hfetch hstart
    rw [Nat.zero_add] at hl
    have htracks' : ∀ a ∈ all, At NoTracks st.session.playlists.heap a := by
      intro a ha
      rw [At, hkeep a ha]
      exact htracks a ha
    obtain ⟨s₁, hfree, hothers⟩ := xmlFreePlaylist_spec fuel hl.list hsteps htracks'
    refine ⟨.returned { st with session := { s₁ with useCache := s.useCache } }, ?_, ?_⟩
    · simp only [despotifyGetStoredPlaylists, hrun, hcheck, hloop, hfree, Option.map_some]
    · rw [survives_of_looping hl hothers, and_iff_right (.inl ⟨top, hreply⟩)]
  · refine ⟨0, fun fuel _ => ?_⟩
    obtain ⟨s', hrun, huse⟩ := metaPlaylist_of_none fuel { s with useCache := false } hreplied
    have hids : metaSupply.metaIds = [] := by
      unfold Supply.metaIds
      split
      · rename_i top hreply
        exact absurd ⟨top, hreply⟩ hreplied
      · rfl
      · rfl
    rw [hids]
    cases hcache : s.useCache with
    | true =>
      refine ⟨.crashed, ?_, iff_of_false id ?_⟩
      · simp only [despotifyGetStoredPlaylists, hrun, hcache]
        rfl
      · rintro ⟨hrep | hfalse, -⟩
        · exact hreplied hrep
        · cases hfalse
    | false =>
      refine ⟨.returned { session := { s' with useCache := false } }, ?_, ?_⟩
      · simp only [despotifyGetStoredPlaylists, hrun, hcache]
        cases fuel <;> rfl
      · refine iff_of_true ⟨rfl, fun r hr => ?_, rfl⟩ ⟨.inr rfl, fun j k _ hk => ?_⟩
        · cases hr
        · cases hk

/-- A meta playlist with three ids. -/
def threeIds : Ezxml :=
  .mk (ascii "playlist") [] [] [.mk (ascii "next-change") [] [] [.mk (ascii "change") [] []
    [.mk (ascii "ops") [] [] [.mk (ascii "add") [] [] [.mk (ascii "items")
      (ascii "0011223344556677889900112233445501,\n" ++
        ascii "1011223344556677889900112233445501,\n" ++
        ascii "2011223344556677889900112233445501")
      [] []]]]]]

/-- A reply for which nothing else has to be asked. -/
def plainReply (reply : Reply) : Supply :=
  { cached := none, reply := reply, stale := [], junk := 0, answers := fun _ => .timeout }

/-- The second of three fetches times out; the playlists are empty. -/
def secondFails (i : Nat) : Supply :=
  plainReply (if i = 1 then .timeout else .document (some (.mk (ascii "playlist") [] [] [])))

theorem secondFails_ends (i : Nat) : (secondFails i).Ends := by
  intro useCache top htop
  refine .inl ?_
  have hcached : (if useCache then (secondFails i).cached else none) = none := by
    cases useCache <;> rfl
  rw [Supply.document, hcached] at htop
  by_cases hi : i = 1
  · subst hi
    cases htop
  · rw [secondFails, if_neg hi] at htop ⊢
    cases htop
    decide

/-- Of these fetches. -/
theorem survives_iff_secondFails :
    ∃ enough, ∀ fuel, enough ≤ fuel →
      ∃ out, despotifyGetStoredPlaylists fuel (plainReply (.document (some threeIds))) secondFails
          ⟨Mem.empty, Mem.empty, none, true, false, false, 0, none⟩ = some out ∧
        (Survives true out ↔
          ((plainReply (.document (some threeIds))).Replied ∨ true = false) ∧
            Lossless (fun i => (secondFails i).Succeeds
              (fetchesUseCache ⟨Mem.empty, Mem.empty, none, true, false, false, 0, none⟩
                (plainReply (.document (some threeIds)))))
              (plainReply (.document (some threeIds))).metaIds.length) :=
  survives_iff (plainReply (.document (some threeIds))) secondFails
    ⟨Mem.empty, Mem.empty, none, true, false, false, 0, none⟩ fun i _ => secondFails_ends i

/-- The list that the call returns, and the playlists that have come. -/
def StoredEnd.lists : StoredEnd → Option (Option Nat × List Nat)
  | .crashed => none
  | .returned st => some (st.root, st.loaded.map Prod.fst)

/-- The first playlist is lost; and without the meta playlist the call crashes. -/
theorem secondFails_lost :
    (∃ out, despotifyGetStoredPlaylists 4 (plainReply (.document (some threeIds))) secondFails
        ⟨Mem.empty, Mem.empty, none, true, false, false, 0, none⟩ = some out ∧
      ¬ Survives true out) ∧
    despotifyGetStoredPlaylists 4 (plainReply .timeout) secondFails
        ⟨Mem.empty, Mem.empty, none, true, false, false, 0, none⟩ = some .crashed := by
  constructor
  · have hrun : (despotifyGetStoredPlaylists 4 (plainReply (.document (some threeIds))) secondFails
        ⟨Mem.empty, Mem.empty, none, true, false, false, 0, none⟩).map StoredEnd.lists =
        some (some (some 5, [3, 5])) := by decide
    obtain ⟨out, hout, hlists⟩ := Option.map_eq_some_iff.mp hrun
    refine ⟨out, hout, fun hsurvives => ?_⟩
    cases out with
    | crashed => exact hsurvives
    | returned st =>
      obtain ⟨hroot, hloaded⟩ := Prod.mk.inj (Option.some.inj hlists)
      have hs := hsurvives.1
      rw [hloaded] at hs
      cases hroot.symm.trans hs.1
  · rfl

end Despotify.Lib

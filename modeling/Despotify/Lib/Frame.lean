import Despotify.Lib.Stored

/-!
# What the loads leave alone

A load writes to the list of tracks and the playlists it makes itself: every track and
every playlist that was there before is as it was.

* `despotifyLoadTracks_frame`: only tracks of the list are written.
* `despotifyGetPlaylist_keeps`, `despotifyGetStoredPlaylists_keeps`: nothing that was
  there is.
-/

namespace Despotify.Lib

open Gateway Linked

variable {fuel : Nat} {root : Option Nat} {as all : List Nat} {highBitrate : Bool}
  {answers : Nat → Answer} {numTracks : Int}

/-! ## Documents -/

theorem Parse.fill_eq_some {s s' : Parse} {locals : Locals} {track : Ezxml} {mem : Mem Track}
    {t : Nat} (h : s.fill highBitrate locals track mem t = some s') :
    s'.mem = mem.modify t (fillTrack highBitrate locals track) := by
  unfold Parse.fill at h
  split at h
  · cases h
  · cases h
    rfl

theorem findRedirect_mem {h : Heap Track} (hs : Spine h root as) {redirects : List Ezxml} {a : Nat}
    (hfind : findRedirect fuel h root redirects = some (some a)) : a ∈ as := by
  induction redirects with
  | nil => cases hfind
  | cons re res ih =>
    rw [findRedirect] at hfind
    split at hfind
    · cases hfind
    · rename_i tt htt
      cases hfind
      exact findNode_mem hs htt
    · exact ih hfind

/-- Only tracks of the list are written. -/
theorem parseTrack_writes {locals : Locals} {track : Ezxml} {s s' : Parse}
    (hs : Spine s.mem.heap root as)
    (h : parseTrack fuel root true highBitrate locals track s = some s') :
    Writes as s.mem.heap s'.mem.heap := by
  simp only [parseTrack, if_true] at h
  split at h
  · cases h
  · rename_i tt htt
    rw [Parse.fill_eq_some h]
    exact (Writes.refl as _).modify (findNode_mem hs htt) _
  · split at h
    · cases h
    · rename_i tt htt
      rw [Parse.fill_eq_some h]
      have hmem := findRedirect_mem hs htt
      exact ((Writes.refl as _).modify hmem _).modify hmem _
    · cases h
      exact Writes.refl as _

theorem parseTracks_writes {locals : Nat → Locals} {tracks : List Ezxml} {s s' : Parse}
    (hs : Spine s.mem.heap root as)
    (h : parseTracks fuel root true highBitrate locals tracks s = some s') :
    Writes as s.mem.heap s'.mem.heap := by
  induction tracks generalizing locals s with
  | nil =>
    cases h
    exact Writes.refl as _
  | cons track tracks ih =>
    obtain ⟨s₁, h₁, h⟩ := Option.bind_eq_some_iff.mp h
    have hw := parseTrack_writes hs h₁
    exact hw.trans (ih (hw.spine hs) h)

/-! ## The tracks of a playlist -/

theorem Load.parse_writes {s s' : Load} {firsttrack : Option Nat} {top : Option Ezxml}
    {locals : Nat → Locals} (h : s.parse fuel highBitrate firsttrack top locals = some s')
    (hs : Spine s.mem.heap firsttrack as) :
    Writes as s.mem.heap s'.mem.heap ∧ s'.t = s.t ∧ s'.totcount = s.totcount := by
  obtain ⟨⟨mem, n⟩, hparse, rfl⟩ := Option.map_eq_some_iff.mp h
  obtain ⟨p, hp, heq⟩ := Option.map_eq_some_iff.mp hparse
  cases heq
  exact ⟨parseTracks_writes hs hp, rfl, rfl⟩

theorem loadRound_writes {s s' : Load} {before : List Nat} {err : Option String}
    (hon : s.On root before as) (h : loadRound fuel highBitrate answers s = some (s', err)) :
    Writes as s.mem.heap s'.mem.heap ∧
      s'.On root (before ++ as.take MAX_BROWSE_REQ) (as.drop MAX_BROWSE_REQ) := by
  obtain ⟨t, hwalk, ht⟩ := walk_eq hon.rest MAX_BROWSE_REQ
  have hparts : before ++ as.take MAX_BROWSE_REQ ++ as.drop MAX_BROWSE_REQ = before ++ as := by
    rw [List.append_assoc, List.take_append_drop]
  have htot : s.totcount + (vals s.mem.heap (as.take MAX_BROWSE_REQ)).length =
      (before ++ as.take MAX_BROWSE_REQ).length := by
    rw [hon.rest.length_vals_take, List.length_append, hon.totcount]
  -- whatever is written, the loop is behind the batch
  have hbehind : ∀ {s'' : Load}, Writes as s.mem.heap s''.mem.heap → s''.t = t →
      s''.totcount = s.totcount + (vals s.mem.heap (as.take MAX_BROWSE_REQ)).length →
      Writes as s.mem.heap s''.mem.heap ∧
        s''.On root (before ++ as.take MAX_BROWSE_REQ) (as.drop MAX_BROWSE_REQ) := by
    intro s'' hw hnext hcount
    exact ⟨hw, hparts ▸ hw.spine hon.list, hnext ▸ hw.spine ht, hcount.trans htot⟩
  simp only [loadRound, hwalk] at h
  cases hanswer : answers s.requested.length with
  | cached top locals | fetched top locals =>
    rw [hanswer] at h
    obtain ⟨s'', hparse, heq⟩ := Option.map_eq_some_iff.mp h
    cases heq
    obtain ⟨hw, hnext, hcount⟩ := Load.parse_writes hparse hon.rest
    exact hbehind hw hnext hcount
  | notInflated | sendFailed | timeout =>
    rw [hanswer] at h
    cases h
    exact hbehind (Writes.refl as _) rfl rfl

theorem loadLoop_writes {s s' : Load} {before : List Nat} {err : Option String} {rounds : Nat}
    (hon : s.On root before as)
    (h : loadLoop fuel highBitrate answers numTracks rounds s = some (s', err)) :
    Writes as s.mem.heap s'.mem.heap := by
  induction rounds generalizing s before as with
  | zero =>
    rw [loadLoop] at h
    split at h
    · cases h
    · cases h
      exact Writes.refl as _
  | succ rounds ih =>
    rw [loadLoop] at h
    split at h
    · cases hround : loadRound fuel highBitrate answers s with
      | none =>
        rw [hround] at h
        cases h
      | some r =>
        obtain ⟨s₁, err₁⟩ := r
        obtain ⟨hw, hon₁⟩ := loadRound_writes hon hround
        rw [hround] at h
        cases err₁ with
        | some e =>
          cases h
          exact hw
        | none => exact hw.trans ((ih hon₁ h).mono (List.drop_subset _ _))
    · cases h
      exact Writes.refl as _

theorem fillDuplicates_writes {n count count' : Nat} {mem mem' : Mem Track} {t : Option Nat}
    (ht : Spine mem.heap t as) (h : fillDuplicates fuel root n mem count t = some (mem', count')) :
    Writes as mem.heap mem'.heap := by
  induction n generalizing mem count t as with
  | zero =>
    cases t with
    | none =>
      cases h
      exact Writes.refl as _
    | some t => cases h
  | succ n ih =>
    cases as with
    | nil =>
      cases ht
      cases h
      exact Writes.refl [] _
    | cons a as =>
      obtain ⟨rfl, v, q, ha, ht⟩ := ht
      simp only [fillDuplicates, ha] at h
      split at h
      · exact (ih ht h).mono (List.subset_cons_self a as)
      · split at h
        · cases h
        · exact (ih ht h).mono (List.subset_cons_self a as)
        · split at h
          · cases h
          · rename_i source _
            have hw := (Writes.refl (a :: as) mem.heap).modify List.mem_cons_self
              fun _ => copyTrack source.val
            exact hw.trans ((ih (hw.spine ht) h).mono (List.subset_cons_self a as))

/-- Only tracks of the list are written. -/
theorem despotifyLoadTracks_writes {mem : Mem Track} {pl : Playlist} {out : Loaded}
    (hs : Spine mem.heap pl.tracks all)
    (h : despotifyLoadTracks fuel highBitrate answers mem pl = some out) :
    Writes all mem.heap out.mem.heap := by
  unfold despotifyLoadTracks at h
  split at h
  · cases h
    exact Writes.refl all _
  · cases hloop : loadLoop fuel highBitrate answers pl.numTracks fuel ⟨mem, pl.tracks, 0, 0, []⟩ with
    | none =>
      rw [hloop] at h
      cases h
    | some r =>
      obtain ⟨s, err⟩ := r
      have hw := loadLoop_writes (Load.On.start hs) hloop
      rw [hloop] at h
      cases err with
      | some err =>
        cases h
        exact hw
      | none =>
        simp only at h
        split at h
        · obtain ⟨⟨mem', count'⟩, hfill, rfl⟩ := Option.map_eq_some_iff.mp h
          exact hw.trans (fillDuplicates_writes (hw.spine hs) hfill)
        · cases h
          exact hw

/-! ## Playlists -/

/-- The list of a document is new. -/
theorem newTracks_keeps {h₀ : Heap Track} {mem : Mem Track} {prev : Option Nat}
    (hk : Keeps h₀ mem.heap) (hprev : ∀ e, prev = some e → h₀ e = none) (ids : List CString)
    (root : Option Nat) : Keeps h₀ (newTracks ids mem prev root).1.heap := by
  induction ids generalizing mem prev root with
  | nil => exact hk
  | cons id ids ih =>
    have hnew : ∀ e, some mem.brk = some e → h₀ e = none := by
      rintro e he
      cases he
      exact hk.brk_none
    have hk' := hk.alloc { trackId := strncpy id 33 }
    cases prev with
    | none => exact ih hk' hnew (some mem.brk)
    | some e => exact ih (hk'.link (hprev e rfl) (some mem.brk)) hnew root

theorem newTracks_new {h₀ : Heap Track} {mem : Mem Track} {p : Nat} (hk : Keeps h₀ mem.heap)
    (hs : Spine mem.heap root (as ++ [p])) (hnew : ∀ a ∈ as ++ [p], h₀ a = none)
    (ids : List CString) :
    ∃ bs, Spine (newTracks ids mem (some p) root).1.heap (newTracks ids mem (some p) root).2 bs ∧
      ∀ b ∈ bs, h₀ b = none := by
  induction ids generalizing mem p as with
  | nil => exact ⟨_, hs, hnew⟩
  | cons id ids ih =>
    have hp : h₀ p = none := hnew p (by simp)
    have hk' := (hk.alloc { trackId := strncpy id 33 }).link hp (some mem.brk)
    refine ih hk' (hs.append { trackId := strncpy id 33 }) fun a ha => ?_
    rcases List.mem_append.mp ha with ha | ha
    · exact hnew a ha
    · rw [List.mem_singleton.mp ha]
      exact hk.brk_none

/-- A playlist is parsed into tracks of its own. -/
theorem xmlParsePlaylist_new {h₀ : Heap Track} {mem : Mem Track} (hk : Keeps h₀ mem.heap)
    (stale : List CString) (junk : UInt32) (pl : Playlist) (top : Option Ezxml) :
    Keeps h₀ (xmlParsePlaylist stale junk mem pl top).1.heap ∧
      ∃ as, Spine (xmlParsePlaylist stale junk mem pl top).1.heap
          (xmlParsePlaylist stale junk mem pl top).2.tracks as ∧
        ∀ a ∈ as, h₀ a = none := by
  have htracks : (xmlParsePlaylist stale junk mem pl top).2.tracks =
      (newTracks (trackIds stale top) mem none none).2 := by
    simp only [xmlParsePlaylist]
    cases (ezxmlGet top ["next-change", "version"]).head? <;> rfl
  have hmem : (xmlParsePlaylist stale junk mem pl top).1 =
      (newTracks (trackIds stale top) mem none none).1 := rfl
  rw [htracks, hmem]
  have hnone : ∀ e, (none : Option Nat) = some e → h₀ e = none := by
    intro e he
    cases he
  refine ⟨newTracks_keeps hk hnone _ _, ?_⟩
  cases trackIds stale top with
  | nil =>
    refine ⟨[], rfl, fun a ha => ?_⟩
    cases ha
  | cons id ids =>
    have hfirst : Spine (mem.alloc { trackId := strncpy id 33 }).heap (some mem.brk)
        ([] ++ [mem.brk]) := ⟨rfl, _, none, Mem.alloc_brk, rfl⟩
    refine newTracks_new (hk.alloc _) hfirst (fun a ha => ?_) ids
    rw [List.mem_singleton.mp ha]
    exact hk.brk_none

/-- The tracks and the playlists there were are as they were. -/
structure Session.Keeps (s s' : Session) : Prop where
  tracks : Linked.Keeps s.tracks.heap s'.tracks.heap
  playlists : Linked.Keeps s.playlists.heap s'.playlists.heap

theorem Session.Keeps.refl (s : Session) : s.Keeps s := ⟨Linked.Keeps.refl _, Linked.Keeps.refl _⟩

theorem Session.Keeps.trans {s s' s'' : Session} (hk : s.Keeps s') (hk' : s'.Keeps s'') :
    s.Keeps s'' := ⟨hk.tracks.trans hk'.tracks, hk.playlists.trans hk'.playlists⟩

/-- The tracks of a new playlist are new. -/
theorem loadTracks_keeps {s₀ s s' : Session} {p : Nat} {r : Option Nat} (hk : s₀.Keeps s)
    (hp : s₀.playlists.heap p = none)
    (htracks : ∀ node, s.playlists.heap p = some node →
      ∃ as, Spine s.tracks.heap node.val.tracks as ∧ ∀ a ∈ as, s₀.tracks.heap a = none)
    (h : s.loadTracks fuel answers p = some (s', r)) :
    s₀.Keeps s' ∧ ∀ a, r = some a → a = p := by
  unfold Session.loadTracks at h
  split at h
  · cases h
  · rename_i node hnode
    obtain ⟨as, hs, hnew⟩ := htracks node hnode
    split at h
    · cases h
    · rename_i out hout
      have hmem := (despotifyLoadTracks_writes hs hout).keeps hk.tracks hnew
      have hplaylists := hk.playlists.modify hp fun _ => out.playlist
      split at h
      · cases h
        refine ⟨⟨hmem, hplaylists⟩, fun a ha => ?_⟩
        cases ha
        rfl
      · cases h
        exact ⟨⟨hmem, hplaylists.free hp⟩, nofun⟩

theorem parsePlaylist_keeps {s₀ s : Session} {p : Nat} (hk : s₀.Keeps s)
    (hp : s₀.playlists.heap p = none) (supply : Supply) (id : CString) (top : Option Ezxml) :
    s₀.Keeps (s.parsePlaylist supply p id top) ∧
      ∀ node, (s.parsePlaylist supply p id top).playlists.heap p = some node →
        ∃ as, Spine (s.parsePlaylist supply p id top).tracks.heap node.val.tracks as ∧
          ∀ a ∈ as, s₀.tracks.heap a = none := by
  cases hnode : s.playlists.heap p with
  | none =>
    have hsame : s.parsePlaylist supply p id top = s := by
      rw [Session.parsePlaylist, hnode]
    rw [hsame]
    refine ⟨hk, fun node hnode' => ?_⟩
    rw [hnode] at hnode'
    cases hnode'
  | some n =>
    obtain ⟨hmem, as, hs, hnew⟩ :=
      xmlParsePlaylist_new hk.tracks supply.stale supply.junk n.val top
    simp only [Session.parsePlaylist, hnode]
    refine ⟨⟨hmem, hk.playlists.modify hp _⟩, fun node hnode' => ⟨as, ?_, hnew⟩⟩
    rw [Mem.modify_self hnode] at hnode'
    cases hnode'
    exact hs

theorem newPlaylists_keeps {h₀ : Heap Playlist} {mem : Mem Playlist} {prev : Nat}
    (hk : Linked.Keeps h₀ mem.heap) (hprev : h₀ prev = none) (ids : List CString) :
    Linked.Keeps h₀ (newPlaylists ids mem prev).heap := by
  induction ids generalizing mem prev with
  | nil => exact hk
  | cons id ids ih =>
    exact ih ((hk.alloc { playlistId := strncpy id 35 }).link hprev (some mem.brk)) hk.brk_none

theorem xmlParsePlaylists_keeps {h₀ : Heap Playlist} {mem : Mem Playlist} {p : Nat}
    (hk : Linked.Keeps h₀ mem.heap) (hp : h₀ p = none) (stale : List CString) (junk : UInt32)
    (top : Option Ezxml) : Linked.Keeps h₀ (xmlParsePlaylists stale junk mem p top).heap := by
  have hids : Linked.Keeps h₀ (listIds (trackIds stale top) mem p).heap := by
    cases trackIds stale top with
    | nil => exact hk
    | cons id ids => exact newPlaylists_keeps (hk.modify hp _) hp ids
  exact hids.modify hp _

/-- **A load of a playlist** leaves everything there was as it was. -/
theorem despotifyGetPlaylist_keeps {supply : Supply} {s s' : Session} {id : Option CString}
    {r : Option Nat} (h : despotifyGetPlaylist fuel supply s id = some (s', r)) :
    s.Keeps s' ∧ ∀ a, r = some a → s.playlists.heap a = none := by
  have hp : s.playlists.heap s.playlists.brk = none := s.playlists.fresh _ (Nat.le_refl _)
  have halloc : Linked.Keeps s.playlists.heap s.newPlaylist.playlists.heap :=
    (Linked.Keeps.refl s.playlists.heap).alloc ({} : Playlist)
  have hopen : s.Keeps s.newPlaylist := ⟨Linked.Keeps.refl _, halloc⟩
  have hload : ∀ {s₁ : Session},
      (s.Keeps s₁ ∧ ∀ node, s₁.playlists.heap s.playlists.brk = some node →
        ∃ as, Spine s₁.tracks.heap node.val.tracks as ∧ ∀ a ∈ as, s.tracks.heap a = none) →
      s₁.loadTracks fuel supply.answers s.playlists.brk = some (s', r) →
      s.Keeps s' ∧ ∀ a, r = some a → s.playlists.heap a = none := by
    rintro s₁ ⟨hk, htracks⟩ hrun
    obtain ⟨hk', hr⟩ := loadTracks_keeps hk hp htracks hrun
    exact ⟨hk', fun a ha => by rw [hr a ha, hp]⟩
  -- a list of lists: the first playlist has no tracks
  have hlists : ∀ (top : Option Ezxml) (s₁ : Session), s₁.tracks = s.tracks →
      s₁.playlists = xmlParsePlaylists supply.stale supply.junk (s.playlists.alloc {})
        s.playlists.brk top →
      s.Keeps s₁ ∧ ∀ node, s₁.playlists.heap s.playlists.brk = some node →
        ∃ as, Spine s₁.tracks.heap node.val.tracks as ∧ ∀ a ∈ as, s.tracks.heap a = none := by
    intro top s₁ htracks hplaylists
    obtain ⟨v, q, bs, hv, -, -, -, -, -, hnone, -⟩ :=
      xmlParsePlaylists_spec supply.stale supply.junk s.playlists top
    refine ⟨⟨htracks ▸ Linked.Keeps.refl _, ?_⟩, fun node hnode => ⟨[], ?_, ?_⟩⟩
    · rw [hplaylists]
      exact xmlParsePlaylists_keeps halloc hp _ _ _
    · rw [hplaylists, hv] at hnode
      cases hnode
      exact hnone
    · intro a ha
      cases ha
  have hrequest : s.newPlaylist.requestPlaylist fuel supply s.playlists.brk id = some (s', r) →
      s.Keeps s' ∧ ∀ a, r = some a → s.playlists.heap a = none := by
    intro h
    simp only [Session.requestPlaylist] at h
    cases hreply : supply.reply with
    | sendFailed | timeout =>
      rw [hreply] at h
      cases h
      refine ⟨⟨Linked.Keeps.refl _, halloc⟩, fun a ha => ?_⟩
      cases ha
    | document top =>
      simp only [hreply] at h
      cases id with
      | none =>
        simp only [Option.isNone_none, Bool.or_true] at h
        cases h
        refine ⟨(hlists top _ ?_ ?_).1, fun a ha => ?_⟩
        · rfl
        · rfl
        · cases ha
          exact hp
      | some id =>
        simp only [Option.isNone_some, Bool.or_false] at h
        cases hflag : s.newPlaylist.listOfLists with
        | false =>
          have hsame : s.newPlaylist.setLists false = s.newPlaylist := Session.setLists_of_eq hflag
          simp only [hflag, hsame] at h
          obtain ⟨hkept, hparsed⟩ := parsePlaylist_keeps hopen hp supply id top
          refine hload ?_ h
          exact ⟨⟨hkept.tracks, hkept.playlists⟩, hparsed⟩
        | true =>
          simp only [hflag] at h
          refine hload (hlists top _ ?_ ?_) h
          · rfl
          · rfl
  simp only [despotifyGetPlaylist] at h
  split at h
  · exact hload (parsePlaylist_keeps hopen hp supply _ _) h
  · exact hrequest h

/-! ## The stored playlists -/

/-- The loop over the meta playlist at `all`, which was made after `s₀`. -/
structure Guarded (s₀ : Session) (metalist : Option Nat) (all : List Nat) (st : Stored) : Prop where
  keeps : s₀.Keeps st.session
  list : Spine st.session.playlists.heap metalist all
  noTracks : ∀ a ∈ all, At NoTracks st.session.playlists.heap a
  new : ∀ a ∈ all, s₀.playlists.heap a = none
  prev : ∀ e, st.prev = some e → s₀.playlists.heap e = none ∧ e ∉ all

variable {s₀ : Session} {metalist : Option Nat} {st st' : Stored}

theorem Guarded.step (hg : Guarded s₀ metalist all st) {supply : Supply} {id : Option CString}
    {s' : Session} {new : Option Nat}
    (hget : despotifyGetPlaylist fuel supply st.session id = some (s', new)) :
    Guarded s₀ metalist all ((st.record s' new).append new) := by
  obtain ⟨hk, hnew⟩ := despotifyGetPlaylist_keeps hget
  obtain ⟨-, -, -, htracks, -, hprev⟩ := Stored.append_same (st.record s' new) new
  have hkeep : ∀ a ∈ all, ∀ n, st.session.playlists.heap a = some n →
      ((st.record s' new).append new).session.playlists.heap a = some n := by
    intro a ha n hn
    have hne : (st.record s' new).prev ≠ some a := fun h => (hg.prev a h).2 ha
    rw [Stored.append_of_ne hne]
    exact hk.playlists a n hn
  have hlink : Linked.Keeps s₀.playlists.heap
      ((st.record s' new).append new).session.playlists.heap := by
    have hkept : Linked.Keeps s₀.playlists.heap (st.record s' new).session.playlists.heap :=
      hg.keeps.playlists.trans hk.playlists
    unfold Stored.append
    split
    · rename_i e he
      exact hkept.link (hg.prev e he).1 new
    · exact hkept
  constructor
  · refine ⟨?_, hlink⟩
    rw [htracks]
    exact hg.keeps.tracks.trans hk.tracks
  · refine hg.list.frame fun a ha => ?_
    obtain ⟨n, hn⟩ := hg.list.node ha
    rw [hkeep a ha n hn, hn]
  · intro a ha
    obtain ⟨n, hn, hno⟩ := hg.noTracks a ha
    exact ⟨n, hkeep a ha n hn, hno⟩
  · exact hg.new
  · intro e he
    rw [hprev] at he
    have hfresh := hnew e he
    constructor
    · cases hold : s₀.playlists.heap e with
      | none => rfl
      | some n =>
        rw [hg.keeps.playlists e n hold] at hfresh
        cases hfresh
    · intro hmem
      obtain ⟨n, hn⟩ := hg.list.node hmem
      rw [hn] at hfresh
      cases hfresh

theorem storedLoop_guarded {supplies : Nat → Supply} {steps n : Nat} {p : Option Nat}
    (hg : Guarded s₀ metalist all st) (h : storedLoop fuel supplies steps n st p = some st') :
    Guarded s₀ metalist all st' := by
  induction steps generalizing n st p with
  | zero =>
    cases p with
    | none =>
      cases h
      exact hg
    | some p => cases h
  | succ steps ih =>
    cases p with
    | none =>
      cases h
      exact hg
    | some p =>
      simp only [storedLoop] at h
      split at h
      · cases h
      · split at h
        · cases h
          exact hg
        · split at h
          · cases h
          · rename_i s' new hget
            split at h
            · cases h
            · exact ih (hg.step hget) h

/-- The meta playlist is freed. -/
theorem xmlFreePlaylist_keeps {steps : Nat} {s s' : Session} {p : Option Nat} (hk : s₀.Keeps s)
    (hs : Spine s.playlists.heap p as) (hno : ∀ a ∈ as, At NoTracks s.playlists.heap a)
    (hnew : ∀ a ∈ as, s₀.playlists.heap a = none)
    (h : xmlFreePlaylist fuel steps s p = some s') : s₀.Keeps s' := by
  have hnodup := hs.nodup
  induction as generalizing s p steps with
  | nil =>
    cases hs
    cases steps <;> cases h <;> exact hk
  | cons a as ih =>
    obtain ⟨rfl, v, q, ha, hs⟩ := hs
    obtain ⟨hane, hnodup⟩ := List.nodup_cons.mp hnodup
    obtain ⟨hv, hno⟩ := List.forall_mem_cons.mp hno
    obtain ⟨hnewa, hnew⟩ := List.forall_mem_cons.mp hnew
    rw [at_iff ha] at hv
    cases steps with
    | zero => cases h
    | succ steps =>
      have hfree : freeList fuel s.tracks v.tracks = some s.tracks := by
        rw [show v.tracks = none from hv]
        cases fuel <;> rfl
      simp only [xmlFreePlaylist, ha, hfree] at h
      have hk' : s₀.Keeps { s with playlists := s.playlists.free a } :=
        ⟨hk.tracks, hk.playlists.free hnewa⟩
      refine ih hk' (hs.free hane) (fun b hb => ?_) hnew h hnodup
      obtain ⟨n, hn, hpl⟩ := hno b hb
      refine ⟨n, (Mem.free_of_ne ?_).trans hn, hpl⟩
      rintro rfl
      exact hane hb

/-- **The load of the stored playlists** leaves everything there was as it was. -/
theorem despotifyGetStoredPlaylists_keeps {metaSupply : Supply} {supplies : Nat → Supply}
    {s : Session} (h : despotifyGetStoredPlaylists fuel metaSupply supplies s = some (.returned st)) :
    s.Keeps st.session := by
  simp only [despotifyGetStoredPlaylists] at h
  cases hmeta : despotifyGetPlaylist fuel metaSupply { s with useCache := false } none with
  | none =>
    rw [hmeta] at h
    cases h
  | some r =>
    obtain ⟨s', metalist⟩ := r
    rw [hmeta] at h
    have hk : s.Keeps s' := by
      obtain ⟨hk, -⟩ := despotifyGetPlaylist_keeps hmeta
      exact ⟨hk.tracks, hk.playlists⟩
    -- the playlists the loop goes over are new
    obtain ⟨all, hall, hno, hnew⟩ : ∃ all, Spine s'.playlists.heap metalist all ∧
        (∀ a ∈ all, At NoTracks s'.playlists.heap a) ∧ ∀ a ∈ all, s.playlists.heap a = none := by
      by_cases hreplied : metaSupply.Replied
      · obtain ⟨top, hreply⟩ := hreplied
        obtain ⟨s'', p, v, all, hrun, -, -, -, hall, -, -, -, hno, -, hnew⟩ :=
          metaPlaylist_of_document fuel { s with useCache := false } hreply
        cases hmeta.symm.trans hrun
        exact ⟨all, hall, hno, hnew⟩
      · obtain ⟨s'', hrun, -⟩ := metaPlaylist_of_none fuel { s with useCache := false } hreplied
        cases hmeta.symm.trans hrun
        refine ⟨[], rfl, fun a ha => ?_, fun a ha => ?_⟩
        · cases ha
        · cases ha
    cases hcheck : checkRevision s.useCache s' metalist with
    | none =>
      simp only [hcheck] at h
      cases h
    | some s₁ =>
      simp only [hcheck] at h
      have hsame : s₁.playlists = s'.playlists ∧ s₁.tracks = s'.tracks := by
        unfold checkRevision at hcheck
        split at hcheck
        · split at hcheck
          · cases hcheck
          · cases hcheck
            split <;> exact ⟨rfl, rfl⟩
        · cases hcheck
          exact ⟨rfl, rfl⟩
      have hstart : Guarded s metalist all { session := s₁ } := by
        obtain ⟨hplaylists, htracks⟩ := hsame
        refine ⟨⟨?_, ?_⟩, ?_, ?_, hnew, ?_⟩
        · exact htracks ▸ hk.tracks
        · exact hplaylists ▸ hk.playlists
        · exact hplaylists ▸ hall
        · exact hplaylists ▸ hno
        · intro e he
          cases he
      cases hloop : storedLoop fuel supplies fuel 0 { session := s₁ } metalist with
      | none =>
        simp only [hloop] at h
        cases h
      | some st₁ =>
        simp only [hloop] at h
        obtain ⟨s₂, hfree, heq⟩ := Option.map_eq_some_iff.mp h
        cases heq
        have hg := storedLoop_guarded hstart hloop
        have hend := xmlFreePlaylist_keeps hg.keeps hg.list hg.noTracks hg.new hfree
        exact ⟨hend.tracks, hend.playlists⟩

end Despotify.Lib

import Despotify.Sync.Reply

/-!
# Freshness of the playlist cache

`despotify_get_stored_playlists` reads the meta playlist and compares its
revision with the one stored beside the cache.  If it is higher it is stored,
and the playlists are fetched again; if not, they are served from the cache.

The revision is stored before the playlists it vouches for are fetched, so a
fetch that fails leaves an old playlist under the new revision
(`staleEntry_served`).

`fresh_of_refetched`: in a run where no such entry is left behind, a playlist
served under the revision stored has the content it had as of that revision.

The server changes between any two steps; `xmlParsePlaylist` stands for the XML
parser with `list_of_lists` set, and gives the revision and the playlist ids.
-/

namespace Despotify.Playlists

open Runs
open Sync (Key Req Ds loadLists)

/-! ## Fetches -/

/-- How a request ends that is not served from the cache. -/
inductive Fetch
  | sendFailed
  | timedOut (own : Nat)
  /-- the DATA bytes of the reply -/
  | replied (own signaller : Nat) (data : List UInt8)

section
variable (inflate : List UInt8 → Option (List UInt8))

/-- The end of a request. -/
def conclude (ds : Ds) (req : Req) : Fetch → Ds
  | .sendFailed => { ds with thread := .idle, log := (req, .sendFailed) :: ds.log }
  | .timedOut own => { ds with thread := .idle, log := (req, .timedOut own) :: ds.log }
  | .replied own signaller data => ds.finish inflate req own signaller (req.initial ++ data)

/-! ## The server and the client -/

/-- Where the client is in `despotify_get_stored_playlists`; `observed` is
`metalist->revision`, and `rest` the ids the loop has not come to. -/
inductive Phase
  | idle
  /-- the meta playlist is asked for -/
  | metalist (oldUseCache : Bool)
  | loop (oldUseCache : Bool) (observed : UInt32) (rest : List Key)
  | fetching (oldUseCache : Bool) (observed : UInt32) (playlistId : Key) (rest : List Key)
  /-- in `despotify_load_tracks` -/
  | tracks (oldUseCache : Bool) (observed : UInt32) (rest : List Key)
  /-- `metalist` was NULL -/
  | crashed

/-- After a fetch: the playlist or its tracks are in, or the loop goes on
without them. -/
def Phase.after (oldUseCache : Bool) (observed : UInt32) (rest : List Key) : Fetch → Phase
  | .replied .. => .tracks oldUseCache observed rest
  | .sendFailed | .timedOut _ => .loop oldUseCache observed rest

structure State where
  ds : Ds
  phase : Phase
  /-- the file `meta_playlist_revision`, 0 when there is none -/
  revision : UInt32
  /-- the server's meta playlist -/
  metaDoc : List UInt8
  /-- the server's playlists -/
  content : Key → List UInt8
  /-- the playlists as they were at each revision -/
  asOf : UInt32 → Key → List UInt8

def State.init (useCache : Bool) (metaDoc : List UInt8) (content : Key → List UInt8) : State :=
  { ds := { Ds.init useCache with thread := .idle, welcomed := true }
    phase := .idle
    revision := 0
    metaDoc := metaDoc
    content := content
    asOf := fun _ => content }

/-- The XML string of a reply: `load_lists`, the data, and the terminator. -/
def playlistFile (data : List UInt8) : List UInt8 := loadLists ++ data ++ [0]

/-- The ids the loop goes through: `char playlist_id[35]`, up to an empty one. -/
def playlistIds (ids : List Key) : List Key := (ids.map (·.take 34)).takeWhile (· ≠ [])

inductive Event
  | change (metaDoc : List UInt8) (content : Key → List UInt8)
  /-- `despotify_get_stored_playlists` up to the command for the meta playlist -/
  | call
  | metaReply (fetch : Fetch)
  /-- the head of the loop, and the next playlist up to its command -/
  | next
  | fetched (fetch : Fetch)
  /-- a round of `despotify_load_tracks`, under the SHA-1 of its tracks in hex -/
  | loadTracks (tracksHash : Key) (fetch : Fetch)
  | tracksLoaded

variable (xmlParsePlaylist : List UInt8 → UInt32 × List Key)

/-- The server's revision. -/
def State.remote (s : State) : UInt32 := (xmlParsePlaylist (playlistFile s.metaDoc)).1

/-- The playlists of the server. -/
def State.ids (s : State) : List Key :=
  playlistIds (xmlParsePlaylist (playlistFile s.metaDoc)).2

/-- The check of the meta playlist's revision. -/
def State.check (s : State) (oldUseCache : Bool) (observed : UInt32) (ids : List Key) : State :=
  let s := { s with phase := .loop oldUseCache observed ids }
  if oldUseCache then
    if s.revision < observed then
      { s with revision := observed, ds := { s.ds with useCache := false } }
    else { s with ds := { s.ds with useCache := oldUseCache } }
  else s

def step (s : State) : Event → Option State
  | .change metaDoc content =>
    let s' := { s with
      metaDoc := metaDoc
      content := content
      asOf := fun revision =>
        if revision = (xmlParsePlaylist (playlistFile metaDoc)).1 then content
        else s.asOf revision }
    -- a change raises the revision
    if s.remote xmlParsePlaylist < s'.remote xmlParsePlaylist then some s' else none
  | .call =>
    match s.phase with
    | .idle => some { s with
        phase := .metalist s.ds.useCache
        ds := { s.ds with useCache := false }.begin (.getPlaylist none false) }
    | _ => none
  | .metaReply fetch =>
    match s.phase with
    | .metalist oldUseCache =>
      let ds := conclude inflate s.ds (.getPlaylist none false) fetch
      match fetch with
      | .replied _ _ data =>
        let list := xmlParsePlaylist (playlistFile data)
        some ({ s with ds := ds }.check oldUseCache list.1 (playlistIds list.2))
      | .sendFailed | .timedOut _ =>
        -- `metalist->revision` is read when the cache is on
        if oldUseCache then some { s with ds := ds, phase := .crashed }
        else some { s with ds := { ds with useCache := oldUseCache }, phase := .idle }
    | _ => none
  | .next =>
    match s.phase with
    | .loop oldUseCache _ [] =>
      some { s with ds := { s.ds with useCache := oldUseCache }, phase := .idle }
    | .loop oldUseCache observed (playlistId :: rest) =>
      let req := Req.getPlaylist (some playlistId) oldUseCache
      some { s with
        ds := s.ds.begin req
        phase := match s.ds.hit req with
          | some _ => .tracks oldUseCache observed rest
          | none => .fetching oldUseCache observed playlistId rest }
    | _ => none
  | .fetched fetch =>
    match s.phase with
    | .fetching oldUseCache observed playlistId rest =>
      some { s with
        ds := conclude inflate s.ds (.getPlaylist (some playlistId) oldUseCache) fetch
        phase := .after oldUseCache observed rest fetch }
    | _ => none
  | .loadTracks tracksHash fetch =>
    match s.phase with
    | .tracks oldUseCache observed rest =>
      let req := Req.loadTracks tracksHash oldUseCache
      if tracksHash.length = 40 then
        match s.ds.hit req with
        | some _ => some { s with ds := s.ds.begin req }
        | none => some { s with
            ds := conclude inflate (s.ds.begin req) req fetch
            phase := .after oldUseCache observed rest fetch }
      else none
    | _ => none
  | .tracksLoaded =>
    match s.phase with
    | .tracks oldUseCache observed rest => some { s with phase := .loop oldUseCache observed rest }
    | _ => none

end

section
variable {inflate : List UInt8 → Option (List UInt8)}

/-! ## The requests of one call -/

/-! ## What lies in the cache -/

theorem cacheLoad_cons (ds : Ds) (x : Sync.Entry) (q : Key) :
    (ds.cacheStore x).cacheLoad q = if x.key = q then some x.data else ds.cacheLoad q := by
  unfold Ds.cacheStore Ds.cacheLoad
  rw [List.find?_cons]
  by_cases h : x.key = q <;> simp [h]

theorem begin_same (ds : Ds) (req : Req) :
    (ds.begin req).cache = ds.cache ∧ (ds.begin req).useCache = ds.useCache := by
  unfold Ds.begin
  split <;> exact ⟨rfl, rfl⟩

theorem cacheLoad_congr {ds ds' : Ds} (h : ds'.cache = ds.cache) (q : Key) :
    ds'.cacheLoad q = ds.cacheLoad q := by
  unfold Ds.cacheLoad
  rw [h]

theorem useCache_conclude (ds : Ds) (req : Req) (fetch : Fetch) :
    (conclude inflate ds req fetch).useCache = ds.useCache := by
  cases fetch with
  | sendFailed => rfl
  | timedOut => rfl
  | replied =>
    unfold conclude Ds.finish
    dsimp only
    split <;> rfl

/-- A request leaves the files alone that it does not store. -/
theorem cacheLoad_conclude_ne {ds : Ds} {req : Req} {q : Key}
    (h : req.storeKey ds.useCache ≠ some q) (fetch : Fetch) :
    (conclude inflate ds req fetch).cacheLoad q = ds.cacheLoad q := by
  cases fetch with
  | sendFailed => rfl
  | timedOut => rfl
  | replied own signaller data =>
    unfold conclude Ds.finish
    dsimp only
    split
    · rename_i key content hkey _
      have hne : key ≠ q := fun heq => h (heq ▸ hkey)
      exact (cacheLoad_cons ds ⟨key, content, req, own⟩ q).trans (if_neg hne)
    · rfl

/-- What lies under `p` when its fetch is over. -/
def left (ds : Ds) (p : Key) : Fetch → Option (List UInt8)
  | .replied _ _ data => some (playlistFile data)
  | .sendFailed | .timedOut _ => ds.cacheLoad p

theorem cacheLoad_conclude_self (ds : Ds) (p : Key) (fetch : Fetch) :
    (conclude inflate ds (.getPlaylist (some p) true) fetch).cacheLoad p = left ds p fetch := by
  cases fetch with
  | sendFailed => rfl
  | timedOut => rfl
  | replied own signaller data =>
    exact (cacheLoad_cons ds ⟨p, playlistFile data, .getPlaylist (some p) true, own⟩ p).trans
      (if_pos rfl)

theorem length_of_mem_playlistIds {ids : List Key} {p : Key} (h : p ∈ playlistIds ids) :
    p.length ≤ 34 := by
  have hmem := (List.takeWhile_sublist _).subset h
  obtain ⟨id, -, rfl⟩ := List.mem_map.mp hmem
  exact (List.length_take_le 34 id)

/-! ## The condition -/

variable {xmlParsePlaylist : List UInt8 → UInt32 × List Key}

/-- **Freshness**: when the revision observed is the one stored, a playlist about
to be served from the cache is as it was at that revision. -/
def Fresh (s : State) : Prop :=
  ∀ observed p rest, s.phase = .loop true observed (p :: rest) → observed = s.revision →
    ∀ file, s.ds.hit (.getPlaylist (some p) true) = some file →
      file = playlistFile (s.asOf observed p)

/-- The reply to the meta playlist is complete, and a fetch that is over leaves
no file behind that is not the playlist's content, unless the server has moved on
from the revision stored or the playlist comes again in this call. -/
def Refetched (xmlParsePlaylist : List UInt8 → UInt32 × List Key) (s : State) : Event → Prop
  | .metaReply (.replied _ _ data) => data = s.metaDoc
  | .fetched fetch => ∀ observed p rest, s.phase = .fetching true observed p rest →
      ∀ file, left s.ds p fetch = some file →
        (s.revision = s.remote xmlParsePlaylist →
          file = playlistFile (s.content p) ∨ s.ds.useCache = false ∧ p ∈ rest) ∧
        (s.ds.useCache = true → observed = s.revision → p ∈ rest →
          file = playlistFile (s.asOf observed p))
  | _ => True

/-! ## The invariant -/

/-- The playlists this call has still to deal with. -/
def Phase.todo : Phase → List Key
  | .loop _ _ rest | .tracks _ _ rest => rest
  | .fetching _ _ p rest => p :: rest
  | .idle | .metalist _ | .crashed => []

/-- The playlists this call has still to fetch again. -/
def State.stale (s : State) : List Key :=
  match s.phase with
  | .loop true _ rest | .tracks true _ rest => if s.ds.useCache then [] else rest
  | .fetching true _ p rest => if s.ds.useCache then [] else p :: rest
  | _ => []

/-- The playlists this call may serve, under the revision observed. -/
def Phase.serving : Phase → Option (UInt32 × List Key)
  | .loop true observed rest | .tracks true observed rest | .fetching true observed _ rest =>
    some (observed, rest)
  | _ => none

structure Inv (xmlParsePlaylist : List UInt8 → UInt32 × List Key) (s : State) : Prop where
  le : s.revision ≤ s.remote xmlParsePlaylist
  now : s.asOf (s.remote xmlParsePlaylist) = s.content
  /-- as long as the server stays at the revision stored, what is not to be
  fetched again is as the server has it -/
  vouched : s.revision = s.remote xmlParsePlaylist → ∀ p ∈ s.ids xmlParsePlaylist, p ∉ s.stale →
    ∀ file, s.ds.cacheLoad p = some file → file = playlistFile (s.content p)
  serve : s.ds.useCache = true → ∀ observed rest, s.phase.serving = some (observed, rest) →
    observed = s.revision → ∀ p ∈ rest, ∀ file, s.ds.cacheLoad p = some file →
      file = playlistFile (s.asOf observed p)
  short : ∀ p ∈ s.phase.todo, p.length ≤ 34

theorem inv_init (useCache : Bool) (metaDoc : List UInt8) (content : Key → List UInt8) :
    Inv xmlParsePlaylist (State.init useCache metaDoc content) where
  le := UInt32.zero_le
  now := rfl
  vouched := nofun
  serve := nofun
  short := nofun

theorem mem_todo_of_serving {phase : Phase} {observed : UInt32} {rest : List Key}
    (h : phase.serving = some (observed, rest)) {p : Key} (hp : p ∈ rest) : p ∈ phase.todo := by
  unfold Phase.serving at h
  split at h
  · cases h
    exact hp
  · cases h
    exact hp
  · cases h
    exact List.mem_cons_of_mem _ hp
  · cases h

theorem Inv.fresh {s : State} (h : Inv xmlParsePlaylist s) : Fresh s := by
  intro observed p rest hphase hobs file hhit
  unfold Ds.hit at hhit
  split at hhit
  · rename_i huse
    exact h.serve huse observed (p :: rest) (by rw [hphase]; rfl) hobs p List.mem_cons_self file
      hhit
  · cases hhit

/-- A step that leaves the server and the playlists in the cache as they are. -/
theorem Inv.of_same {s s' : State} (h : Inv xmlParsePlaylist s)
    (hrev : s'.revision = s.revision) (hdoc : s'.metaDoc = s.metaDoc)
    (hcontent : s'.content = s.content) (hasOf : s'.asOf = s.asOf)
    (hload : ∀ p : Key, p.length ≤ 34 → s'.ds.cacheLoad p = s.ds.cacheLoad p)
    (hstale : ∀ p ∈ s.stale, p ∈ s'.stale)
    (hserve : s'.ds.useCache = true → ∀ observed rest',
      s'.phase.serving = some (observed, rest') → s.ds.useCache = true ∧
        ∃ rest, s.phase.serving = some (observed, rest) ∧ ∀ p ∈ rest', p ∈ rest)
    (htodo : ∀ p ∈ s'.phase.todo, p ∈ s.phase.todo) : Inv xmlParsePlaylist s' := by
  have hremote : s'.remote xmlParsePlaylist = s.remote xmlParsePlaylist := by
    rw [State.remote, hdoc, State.remote]
  refine ⟨?_, ?_, ?_, ?_, fun p hp => h.short p (htodo p hp)⟩
  · rw [hrev, hremote]
    exact h.le
  · rw [hasOf, hremote, hcontent]
    exact h.now
  · intro heq p hp hnot file hfile
    rw [hrev, hremote] at heq
    rw [State.ids, hdoc] at hp
    rw [hload p (length_of_mem_playlistIds hp)] at hfile
    rw [hcontent]
    exact h.vouched heq p hp (fun hmem => hnot (hstale p hmem)) file hfile
  · intro huse observed rest' hs' hobs p hp file hfile
    obtain ⟨huse0, rest, hs, hsub⟩ := hserve huse observed rest' hs'
    rw [hload p (h.short p (mem_todo_of_serving hs (hsub p hp)))] at hfile
    rw [hasOf]
    exact h.serve huse0 observed rest hs (hobs.trans hrev) p (hsub p hp) file hfile

/-! ## One step -/

theorem Inv.change {s s' : State} {metaDoc : List UInt8} {content : Key → List UInt8}
    (h : Inv xmlParsePlaylist s)
    (hs : step inflate xmlParsePlaylist s (.change metaDoc content) = some s') :
    Inv xmlParsePlaylist s' := by
  simp only [step] at hs
  split at hs
  · rename_i hlt
    cases hs
    have hrev : s.revision < (xmlParsePlaylist (playlistFile metaDoc)).1 :=
      UInt32.lt_of_le_of_lt h.le hlt
    refine ⟨UInt32.le_of_lt hrev, if_pos rfl, fun heq => ?_, ?_, h.short⟩
    · exact absurd heq (UInt32.ne_of_lt hrev)
    · intro huse observed rest hserving hobs p hp file hfile
      have hne : observed ≠ (xmlParsePlaylist (playlistFile metaDoc)).1 := by
        rw [show observed = s.revision from hobs]
        exact UInt32.ne_of_lt hrev
      dsimp only
      rw [if_neg hne]
      exact h.serve huse observed rest hserving hobs p hp file hfile
  · cases hs

theorem Inv.call {s s' : State} (h : Inv xmlParsePlaylist s)
    (hs : step inflate xmlParsePlaylist s .call = some s') : Inv xmlParsePlaylist s' := by
  simp only [step] at hs
  split at hs
  · rename_i hphase
    cases hs
    refine h.of_same rfl rfl rfl rfl (fun p _ => ?_) (fun p hp => ?_)
      (fun _ _ _ hserving => nomatch hserving) nofun
    · exact cacheLoad_congr (begin_same _ _).1 p
    · rw [State.stale, hphase] at hp
      exact hp
  · cases hs

/-- The meta playlist is in: what the revision stored vouches for is served, or
all of it is fetched again. -/
theorem Inv.check {s : State} (h : Inv xmlParsePlaylist s) (hstale : s.stale = [])
    (oldUseCache : Bool) :
    Inv xmlParsePlaylist
      (s.check oldUseCache (s.remote xmlParsePlaylist) (s.ids xmlParsePlaylist)) := by
  have hvouched : s.revision = s.remote xmlParsePlaylist → ∀ p ∈ s.ids xmlParsePlaylist,
      ∀ file, s.ds.cacheLoad p = some file → file = playlistFile (s.content p) := by
    intro heq p hp
    refine h.vouched heq p hp ?_
    rw [hstale]
    exact nofun
  unfold State.check
  cases oldUseCache with
  | false =>
    exact ⟨h.le, h.now, fun heq p hp _ => hvouched heq p hp,
      fun _ _ _ hserving => (nomatch hserving), fun p hp => length_of_mem_playlistIds hp⟩
  | true =>
    dsimp only
    rw [if_pos rfl]
    split
    · refine ⟨UInt32.le_refl _, h.now, fun _ p hp hnot => ?_, nofun,
        fun p hp => length_of_mem_playlistIds hp⟩
      exact absurd hp hnot
    · rename_i hlt
      have heq : s.revision = s.remote xmlParsePlaylist :=
        UInt32.le_antisymm h.le (UInt32.not_lt.mp hlt)
      refine ⟨h.le, h.now, fun heq p hp _ => hvouched heq p hp, ?_,
        fun p hp => length_of_mem_playlistIds hp⟩
      intro _ observed rest hserving _ p hp file hfile
      cases hserving
      show file = playlistFile (s.asOf (s.remote xmlParsePlaylist) p)
      rw [h.now]
      exact hvouched heq p hp file hfile

theorem Inv.metaReply {s s' : State} {fetch : Fetch} (h : Inv xmlParsePlaylist s)
    (hok : Refetched xmlParsePlaylist s (.metaReply fetch))
    (hs : step inflate xmlParsePlaylist s (.metaReply fetch) = some s') :
    Inv xmlParsePlaylist s' := by
  have hload : ∀ p : Key, (conclude inflate s.ds (.getPlaylist none false) fetch).cacheLoad p =
      s.ds.cacheLoad p := fun p => cacheLoad_conclude_ne (by simp [Req.storeKey]) fetch
  simp only [step] at hs
  split at hs
  · rename_i oldUseCache hphase
    have hstale : s.stale = [] := by rw [State.stale, hphase]
    have hend : ∀ (ds : Ds) (phase : Phase), (∀ p : Key, ds.cacheLoad p = s.ds.cacheLoad p) →
        phase.serving = none → phase.todo = [] →
        Inv xmlParsePlaylist { s with ds := ds, phase := phase } := by
      intro ds phase hds hserving htodo
      refine h.of_same rfl rfl rfl rfl (fun p _ => hds p) (fun p hp => ?_) ?_ fun p hp => ?_
      · rw [hstale] at hp
        cases hp
      · intro _ observed rest' hs'
        exact nomatch hserving.symm.trans hs'
      · rw [htodo] at hp
        cases hp
    cases fetch with
    | replied own signaller data =>
      have hdata : data = s.metaDoc := hok
      subst hdata
      cases hs
      have hconcluded := hend _ (.metalist oldUseCache) hload rfl rfl
      exact hconcluded.check rfl oldUseCache
    | sendFailed =>
      dsimp only at hs
      split at hs
      · cases hs
        exact hend _ .crashed hload rfl rfl
      · cases hs
        exact hend _ .idle hload rfl rfl
    | timedOut own =>
      dsimp only at hs
      split at hs
      · cases hs
        exact hend _ .crashed hload rfl rfl
      · cases hs
        exact hend _ .idle hload rfl rfl
  · cases hs

theorem Inv.next {s s' : State} (h : Inv xmlParsePlaylist s)
    (hs : step inflate xmlParsePlaylist s .next = some s') : Inv xmlParsePlaylist s' := by
  simp only [step] at hs
  split at hs
  · rename_i oldUseCache observed hphase
    cases hs
    refine h.of_same rfl rfl rfl rfl (fun _ _ => rfl) (fun p hp => ?_)
      (fun _ _ _ hserving => nomatch hserving) nofun
    rw [State.stale, hphase] at hp
    cases oldUseCache with
    | false => cases hp
    | true =>
      dsimp only at hp
      split at hp <;> cases hp
  · rename_i oldUseCache observed playlistId rest hphase
    cases hs
    obtain ⟨hcache, huse⟩ := begin_same s.ds (.getPlaylist (some playlistId) oldUseCache)
    have hload := fun p (_ : p.length ≤ 34) => cacheLoad_congr hcache p
    cases hhit : s.ds.hit (.getPlaylist (some playlistId) oldUseCache) with
    | some file =>
      have huse0 : s.ds.useCache = true := by
        unfold Ds.hit at hhit
        split at hhit
        · assumption
        · cases hhit
      refine h.of_same rfl rfl rfl rfl hload (fun p hp => ?_) ?_ fun p hp => ?_
      · rw [State.stale, hphase, huse0] at hp
        cases oldUseCache <;> cases hp
      · intro _ observed' rest' hserving
        cases oldUseCache with
        | false => cases hserving
        | true =>
          cases hserving
          exact ⟨huse0, playlistId :: rest, by rw [hphase]; rfl, fun p hp =>
            List.mem_cons_of_mem _ hp⟩
      · rw [hphase]
        exact List.mem_cons_of_mem _ hp
    | none =>
      refine h.of_same rfl rfl rfl rfl hload (fun p hp => ?_) ?_ fun p hp => ?_
      · rw [State.stale, hphase] at hp
        cases oldUseCache with
        | false => cases hp
        | true =>
          show p ∈ if (s.ds.begin _).useCache then [] else playlistId :: rest
          rw [huse]
          exact hp
      · intro huse' observed' rest' hserving
        cases oldUseCache with
        | false => cases hserving
        | true =>
          cases hserving
          exact ⟨huse.symm.trans huse', playlistId :: rest, by rw [hphase]; rfl, fun p hp =>
            List.mem_cons_of_mem _ hp⟩
      · rw [hphase]
        exact hp
  · cases hs

theorem after_cases (oldUseCache : Bool) (observed : UInt32) (rest : List Key) (fetch : Fetch) :
    Phase.after oldUseCache observed rest fetch = .tracks oldUseCache observed rest ∨
      Phase.after oldUseCache observed rest fetch = .loop oldUseCache observed rest := by
  cases fetch with
  | replied => exact Or.inl rfl
  | sendFailed => exact Or.inr rfl
  | timedOut => exact Or.inr rfl

/-- A playlist is dealt with, whether its fetch left a file behind or not. -/
theorem Inv.fetched {s s' : State} {fetch : Fetch} (h : Inv xmlParsePlaylist s)
    (hok : Refetched xmlParsePlaylist s (.fetched fetch))
    (hs : step inflate xmlParsePlaylist s (.fetched fetch) = some s') :
    Inv xmlParsePlaylist s' := by
  simp only [step] at hs
  split at hs
  · rename_i oldUseCache observed playlistId rest hphase
    have hcases := after_cases oldUseCache observed rest fetch
    generalize Phase.after oldUseCache observed rest fetch = phase at hcases hs
    cases hs
    have huse := @useCache_conclude inflate s.ds (.getPlaylist (some playlistId) oldUseCache) fetch
    have htodo : phase.todo = rest := by
      rcases hcases with rfl | rfl <;> rfl
    have hshort : ∀ p ∈ rest, p.length ≤ 34 := by
      intro p hp
      refine h.short p ?_
      rw [hphase]
      exact List.mem_cons_of_mem _ hp
    cases oldUseCache with
    | false =>
      refine h.of_same rfl rfl rfl rfl (fun p _ => ?_) (fun p hp => ?_) ?_ fun p hp => ?_
      · exact cacheLoad_conclude_ne (by simp [Req.storeKey]) fetch
      · rw [State.stale, hphase] at hp
        cases hp
      · intro _ observed' rest' hserving
        rcases hcases with rfl | rfl <;> cases hserving
      · rw [hphase]
        exact List.mem_cons_of_mem _ (htodo ▸ hp)
    | true =>
      have hother : ∀ q, q ≠ playlistId →
          (conclude inflate s.ds (.getPlaylist (some playlistId) true) fetch).cacheLoad q =
            s.ds.cacheLoad q := by
        intro q hq
        refine cacheLoad_conclude_ne ?_ fetch
        simp [Req.storeKey, Ne.symm hq]
      have hself := @cacheLoad_conclude_self inflate s.ds playlistId fetch
      have hleft := hok observed playlistId rest hphase
      refine ⟨h.le, h.now, ?_, ?_, fun p hp => hshort p (htodo ▸ hp)⟩
      · intro heq p hp hnot file hfile
        have hstale : p ∉ if s.ds.useCache then [] else rest := by
          rw [← huse]
          rcases hcases with rfl | rfl <;> exact hnot
        by_cases hpid : p = playlistId
        · subst hpid
          rcases (hleft file (hself.symm.trans hfile)).1 heq with hfresh | ⟨huse0, hmem⟩
          · exact hfresh
          · rw [huse0] at hstale
            exact absurd hmem hstale
        · refine h.vouched heq p hp (fun hmem => hstale ?_) file ((hother p hpid).symm.trans hfile)
          rw [State.stale, hphase] at hmem
          dsimp only at hmem
          split at hmem
          · cases hmem
          · rename_i huse0
            rw [if_neg huse0]
            exact (List.mem_cons.mp hmem).resolve_left hpid
      · intro huse' observed' rest' hserving hobs p hp file hfile
        have huse0 : s.ds.useCache = true := huse.symm.trans huse'
        obtain ⟨rfl, rfl⟩ : observed' = observed ∧ rest' = rest := by
          rcases hcases with rfl | rfl <;> cases hserving <;> exact ⟨rfl, rfl⟩
        by_cases hpid : p = playlistId
        · subst hpid
          exact (hleft file (hself.symm.trans hfile)).2 huse0 hobs hp
        · exact h.serve huse0 observed' rest' (by rw [hphase]; rfl) hobs p hp file
            ((hother p hpid).symm.trans hfile)
  · cases hs

/-- The tracks lie in files whose names are longer than a playlist id. -/
theorem Inv.loadTracks {s s' : State} {tracksHash : Key} {fetch : Fetch}
    (h : Inv xmlParsePlaylist s)
    (hs : step inflate xmlParsePlaylist s (.loadTracks tracksHash fetch) = some s') :
    Inv xmlParsePlaylist s' := by
  simp only [step] at hs
  split at hs
  · rename_i oldUseCache observed rest hphase
    obtain ⟨hcache, huse⟩ := begin_same s.ds (.loadTracks tracksHash oldUseCache)
    split at hs
    · rename_i hlen
      split at hs
      · cases hs
        refine h.of_same rfl rfl rfl rfl (fun p _ => cacheLoad_congr hcache p) (fun p hp => ?_) ?_
          fun _ hp => hp
        · rw [State.stale, hphase] at hp ⊢
          dsimp only at hp ⊢
          rw [huse]
          exact hp
        · intro huse' observed' rest' hserving
          exact ⟨huse.symm.trans huse', rest', hserving, fun _ hp => hp⟩
      · have hcases := after_cases oldUseCache observed rest fetch
        generalize Phase.after oldUseCache observed rest fetch = phase at hcases hs
        cases hs
        have huse2 := (@useCache_conclude inflate (s.ds.begin (.loadTracks tracksHash oldUseCache))
          (.loadTracks tracksHash oldUseCache) fetch).trans huse
        refine h.of_same rfl rfl rfl rfl (fun p hp => ?_) (fun p hp => ?_) ?_ fun p hp => ?_
        · refine (cacheLoad_conclude_ne ?_ fetch).trans (cacheLoad_congr hcache p)
          have hne : tracksHash ≠ p := by
            rintro rfl
            omega
          cases oldUseCache <;> simp [Req.storeKey, hne]
        · rw [State.stale, hphase] at hp
          cases oldUseCache with
          | false => cases hp
          | true =>
            rcases hcases with rfl | rfl
            · show p ∈ if (conclude _ _ _ _).useCache then [] else rest
              rw [huse2]
              exact hp
            · show p ∈ if (conclude _ _ _ _).useCache then [] else rest
              rw [huse2]
              exact hp
        · intro huse' observed' rest' hserving
          refine ⟨huse2.symm.trans huse', rest', ?_, fun _ hp => hp⟩
          rw [hphase]
          rcases hcases with rfl | rfl <;> cases oldUseCache <;> exact hserving
        · rw [hphase]
          rcases hcases with rfl | rfl <;> exact hp
    · cases hs
  · cases hs

theorem Inv.tracksLoaded {s s' : State} (h : Inv xmlParsePlaylist s)
    (hs : step inflate xmlParsePlaylist s .tracksLoaded = some s') : Inv xmlParsePlaylist s' := by
  simp only [step] at hs
  split at hs
  · rename_i oldUseCache observed rest hphase
    cases hs
    refine h.of_same rfl rfl rfl rfl (fun _ _ => rfl) (fun p hp => ?_) ?_ fun p hp => ?_
    · rw [State.stale, hphase] at hp
      cases oldUseCache <;> exact hp
    · intro huse observed' rest' hserving
      refine ⟨huse, rest', ?_, fun _ hp => hp⟩
      rw [hphase]
      cases oldUseCache <;> exact hserving
    · rw [hphase]
      exact hp
  · cases hs

theorem step_inv {s s' : State} {e : Event} (h : Inv xmlParsePlaylist s)
    (hok : Refetched xmlParsePlaylist s e) (hs : step inflate xmlParsePlaylist s e = some s') :
    Inv xmlParsePlaylist s' := by
  cases e with
  | change metaDoc content => exact h.change hs
  | call => exact h.call hs
  | metaReply fetch => exact h.metaReply hok hs
  | next => exact h.next hs
  | fetched fetch => exact h.fetched hok hs
  | loadTracks tracksHash fetch => exact h.loadTracks hs
  | tracksLoaded => exact h.tracksLoaded hs

/-! ## Whole runs -/

/-- **Freshness**: in a run where the meta playlist is read whole and no fetch
leaves an old file behind, a playlist served under the revision stored is as it
was at that revision. -/
theorem fresh_of_refetched {useCache : Bool} {metaDoc : List UInt8} {content : Key → List UInt8}
    {es : List Event} {s : State}
    (hok : AllSteps (step inflate xmlParsePlaylist) (Refetched xmlParsePlaylist)
      (State.init useCache metaDoc content) es)
    (hrun : exec (step inflate xmlParsePlaylist) (State.init useCache metaDoc content) es =
      some s) : Fresh s :=
  (exec_inv_of_allSteps (fun _ _ _ h ho hs => step_inv h ho hs)
    (inv_init useCache metaDoc content) hok hrun).fresh

end

/-! ## One playlist, changed once -/

/-- The id of the one playlist. -/
def onlyId : Key := "0123456789abcdef0123456789abcdef02".toUTF8.data.toList

/-- A meta playlist with a revision of one digit. -/
def metaXml (revision : String) : List UInt8 :=
  ("<next-change><change><ops><add><i>0</i><items>0123456789abcdef0123456789abcdef02</items></add>"
    ++ "</ops></change><version>" ++ revision ++ ",1,0,0</version></next-change>\n</playlist>"
    ).toUTF8.data.toList

/-- A playlist without tracks. -/
def nameXml (name : String) : List UInt8 :=
  ("<next-change><change><ops><name>" ++ name
    ++ "</name></ops></change><version>1,0,0,0</version></next-change>\n</playlist>"
    ).toUTF8.data.toList

/-- The parser on such meta playlists: the digit stands at one place. -/
def parseMetaXml (xml : List UInt8) : UInt32 × List Key :=
  ((xml.getD 169 48 - 48).toUInt32, [onlyId])

/-- A client that has fetched the playlist, on a server that then changes it. -/
def changedOnce : List Event :=
  [.call, .metaReply (.replied 0 0 (metaXml "1")), .next, .fetched (.replied 1 1 (nameXml "a")),
    .tracksLoaded, .next, .change (metaXml "2") fun _ => nameXml "b"]

def served : State := State.init true (metaXml "1") fun _ => nameXml "a"

/-- The change is fetched, and then asked for again. -/
def refetched : List Event :=
  changedOnce ++ [.call, .metaReply (.replied 2 2 (metaXml "2")), .next,
    .fetched (.replied 3 3 (nameXml "b")), .tracksLoaded, .next, .call,
    .metaReply (.replied 4 4 (metaXml "2"))]

/-- The fetch of the change times out. -/
def notRefetched : List Event :=
  changedOnce ++ [.call, .metaReply (.replied 2 2 (metaXml "2")), .next, .fetched (.timedOut 3),
    .next, .call, .metaReply (.replied 4 4 (metaXml "2"))]

set_option maxRecDepth 8000 in
theorem fresh_of_refetched_once : ∃ s,
    exec (step (fun _ => none) parseMetaXml) served refetched = some s ∧
      s.ds.hit (.getPlaylist (some onlyId) true) = some (playlistFile (nameXml "b")) ∧ Fresh s := by
  have hok : AllSteps (step (fun _ => none) parseMetaXml) (Refetched parseMetaXml) served
      refetched := by
    refine .cons trivial rfl (.cons rfl rfl (.cons trivial rfl (.cons ?_ rfl ?_)))
    · intro observed p rest hphase file hfile
      cases hphase
      cases hfile
      exact ⟨fun _ => Or.inl rfl, nofun⟩
    refine .cons trivial rfl (.cons trivial rfl (.cons trivial rfl (.cons trivial rfl ?_)))
    refine .cons rfl rfl (.cons trivial rfl (.cons ?_ rfl ?_))
    · intro observed p rest hphase file hfile
      cases hphase
      cases hfile
      exact ⟨fun _ => Or.inl rfl, nofun⟩
    refine .cons trivial rfl (.cons trivial rfl (.cons trivial rfl (.cons rfl rfl trivial)))
  exact ⟨_, rfl, rfl, fresh_of_refetched hok rfl⟩

set_option maxRecDepth 8000 in
theorem staleEntry_served : ∃ s,
    exec (step (fun _ => none) parseMetaXml) served notRefetched = some s ∧
      s.phase = .loop true 2 [onlyId] ∧ s.revision = 2 ∧
      s.ds.hit (.getPlaylist (some onlyId) true) = some (playlistFile (nameXml "a")) ∧
      s.asOf 2 onlyId = nameXml "b" ∧ ¬ Fresh s := by
  refine ⟨_, rfl, rfl, rfl, rfl, rfl, fun h => ?_⟩
  have hfile := h 2 onlyId [] rfl rfl (playlistFile (nameXml "a")) rfl
  exact absurd hfile (by decide)

end Despotify.Playlists

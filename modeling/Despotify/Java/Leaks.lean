import Despotify.Java.Exchange

/-!
# Java: which commands give their connections back

Every command closes its connection by hand, and no `close` stands in a
`finally`.  `Clean` says of an answer of the world that it lets the command come
to its `close`:

    Run w calls w' → (w'.borrowed = w.borrowed ↔ ∀ s ∈ calls, s.Clean)

Along a run the number never falls, so no command makes up for what another lost
(`borrowed_run_iff`).
-/

namespace Despotify.Java

/-- The playlist can be announced as destroyed. -/
def Destroyable (pl : Playlist) : Prop :=
  pl.revision ≠ none ∧ pl.tracks ≠ none ∧ pl.collaborative ≠ none ∧ HasUUID pl.id

/-- The reply is read as the playlist. -/
def ReadAs (pl : Playlist) (reply : Reply) : Prop :=
  ∃ e, reply.document = some e ∧ ∃ pl', Playlist.fromXMLElement e pl = some (.ok (), pl')

/-- An answer after which the command still gives its connection back.  `pl` is the
playlist that `RemovePlaylistFromUser` removes: this command also reads its fields
and the reply while it holds the connection. -/
def Clean (pl : Playlist) : Answer → Prop
  | .borrowObject _ => True
  | .isConnected r connected => connected = true ∧ (r = .removePlaylist → pl.collaborative ≠ none) ∧
      (r = .destroyPlaylist → Destroyable pl)
  | .sendPacket _ ok => ok = true
  | .getData r none => r = .loadImage
  | .getData r (some reply) => r = .destroyPlaylist → ReadAs pl reply

/-! ## Counting -/

/-- The answers used up between two states, and `k` connections more than before,
or further ones exactly if an answer is not clean; the pool keeps its size. -/
def Moved (pl : Playlist) (k : Int) (w w' : World) : Prop :=
  w'.size = w.size ∧ ∃ used, w.script = used ++ w'.script ∧ w.borrowed + k ≤ w'.borrowed ∧
    ((w'.borrowed : Int) = w.borrowed + k ↔ ∀ a ∈ used, Clean pl a)

section Moved

variable {pl : Playlist}

theorem Moved.still {w w' : World} (hs : w'.script = w.script) (hb : w'.borrowed = w.borrowed)
    (hz : w'.size = w.size) : Moved pl 0 w w' := by
  refine ⟨hz, [], hs.symm, by omega, fun _ a hmem => ?_, fun _ => by omega⟩
  cases hmem

theorem Moved.trans {k j : Int} {w w1 w2 : World} (h : Moved pl k w w1) (h' : Moved pl j w1 w2) :
    Moved pl (k + j) w w2 := by
  obtain ⟨hz, used, hs, hb, hc⟩ := h
  obtain ⟨hz', used', hs', hb', hc'⟩ := h'
  refine ⟨hz'.trans hz, used ++ used', by rw [hs, hs', List.append_assoc], by omega, ?_⟩
  rw [List.forall_mem_append, ← hc, ← hc']
  omega

/-- One answer that changes the number by `d`. -/
theorem Moved.answer {k : Int} (d : Int) {a : Answer} {w w' : World}
    (hs : w.script = a :: w'.script) (hb : (w'.borrowed : Int) = w.borrowed + d) (hk : k ≤ d)
    (hc : d = k ↔ Clean pl a) (hz : w'.size = w.size := by rfl) : Moved pl k w w' := by
  refine ⟨hz, [a], hs, by omega, ?_⟩
  rw [List.forall_mem_singleton, ← hc]
  omega

/-- An answer that is not clean is the first of those used. -/
theorem Moved.lost {k : Int} {a : Answer} {used : List Answer} {w w' : World}
    (hs : w.script = a :: used ++ w'.script) (hb : w.borrowed + k < w'.borrowed)
    (hc : ¬ Clean pl a) (hz : w'.size = w.size := by rfl) : Moved pl k w w' := by
  refine ⟨hz, a :: used, hs, by omega, ⟨fun h => by omega, fun h => ?_⟩⟩
  exact absurd (h a List.mem_cons_self) hc

instance : Std.Refl (Moved pl 0) := ⟨fun _ => Moved.still rfl rfl rfl⟩

instance : IsTrans World (Moved pl 0) := ⟨fun _ _ _ h h' => h.trans h'⟩

end Moved

/-! ## Holding a connection -/

section Held

variable {pl : Playlist} {α β : Type}

/-- While a connection is held: the number stays when the action returns, and does
not fall with the `close` that an exception skips. -/
def HeldTo (pl : Playlist) (w : World) (r : Except Exn α) (w' : World) : Prop :=
  match r with
  | .ok _ => Moved pl 0 w w'
  | .error _ => Moved pl (-1) w w'

def Held (pl : Playlist) (m : Send α) : Prop := ∀ w r w', m w = some (r, w') → HeldTo pl w r w'

theorem HeldTo.after {w w1 w' : World} {r : Except Exn α} (h : Moved pl 0 w w1)
    (h' : HeldTo pl w1 r w') : HeldTo pl w r w' := by
  cases r with
  | ok a => exact h.trans h'
  | error e =>
    have h' : Moved pl (-1) w1 w' := h'
    exact h.trans h'

theorem Held.bind {m : Send α} {f : α → Send β} (hm : Held pl m) (hf : ∀ a, Held pl (f a)) :
    Held pl (m >>= f) := by
  intro w r w' h
  rcases Proc.bind_eq_some h with ⟨e, he, rfl⟩ | ⟨a, w1, ha, hb⟩
  · exact hm w _ w' he
  · exact HeldTo.after (hm w _ w1 ha) (hf a w1 r w' hb)

theorem HeldTo.of_lost {w w' : World} {r : Except Exn α} (hlost : Moved pl (-1) w w')
    (hkept : ∀ a, r = .ok a → Moved pl 0 w w') : HeldTo pl w r w' := by
  cases r with
  | ok a => exact hkept a rfl
  | error e => exact hlost

/-- A connection that was lost, however `getConnection` goes on. -/
theorem reconnect_lost {q : Request} {w w' : World} {as : List Answer} {r : Except Exn Unit}
    (hs : w.script = .isConnected q false :: as)
    (h : getConnection { w with script := as } = some (r, w')) :
    Moved pl (-1) w w' ∧ ∀ a, r = .ok a → Moved pl 0 w w' := by
  have hlost : ¬ Clean pl (.isConnected q false) := fun hc => nomatch hc.1
  obtain ⟨as', ⟨hs', rfl, -, rfl⟩ | ⟨hs', rfl, rfl⟩⟩ := getConnection_cases h
  · have hused : w.script = [.isConnected q false, .borrowObject true] ++ as' :=
      hs.trans (congrArg _ hs')
    refine ⟨Moved.lost hused ?_ hlost, fun _ _ => Moved.lost hused ?_ hlost⟩
    · dsimp only
      omega
    · dsimp only
      omega
  · have hused : w.script = [.isConnected q false, .borrowObject false] ++ as' :=
      hs.trans (congrArg _ hs')
    refine ⟨Moved.lost hused ?_ hlost, nofun⟩
    dsimp only
    omega

/-- The requests whose answers matter only by themselves. -/
def Plain (r : Request) : Prop :=
  r ≠ .removePlaylist ∧ r ≠ .destroyPlaylist ∧ r ≠ .loadImage

instance (r : Request) : Decidable (Plain r) := inferInstanceAs (Decidable (_ ∧ _))

/-- The call while the connection is still there, or a further one is borrowed. -/
theorem checkConnection_held {q : Request} {w w' : World} {r : Except Exn Unit}
    (hq : Clean pl (.isConnected q true)) (h : checkConnection q w = some (r, w')) :
    HeldTo pl w r w' := by
  obtain ⟨as, ⟨hs, rfl, rfl⟩ | ⟨hs, hget⟩⟩ := checkConnection_cases h
  · exact Moved.answer 0 hs (by simp) (by omega) (by simpa using hq)
  · exact HeldTo.of_lost (reconnect_lost hs hget).1 (reconnect_lost hs hget).2

/-- The same where an exception must follow. -/
theorem checkConnection_lost {q : Request} {w w' : World} {r : Except Exn Unit}
    (hq : ¬ Clean pl (.isConnected q true)) (h : checkConnection q w = some (r, w')) :
    Moved pl (-1) w w' := by
  obtain ⟨as, ⟨hs, rfl, rfl⟩ | ⟨hs, hget⟩⟩ := checkConnection_cases h
  · exact Moved.answer 0 hs (by simp) (by omega) (by simpa using hq)
  · exact (reconnect_lost hs hget).1

theorem held_checkConnection {q : Request} (hq : q ≠ .removePlaylist ∧ q ≠ .destroyPlaylist) :
    Held pl (checkConnection q) :=
  fun _ _ _ h => checkConnection_held ⟨rfl, fun hr => absurd hr hq.1, fun hr => absurd hr hq.2⟩ h

theorem held_sendPacket (q : Request) (changes : List Change) : Held pl (sendPacket q changes) := by
  intro w r w' h
  obtain ⟨as, ⟨hs, rfl, rfl⟩ | ⟨hs, rfl, rfl⟩⟩ := sendPacket_cases h
  · exact Moved.answer 0 hs (by simp) (by omega) (by simp [Clean])
  · exact Moved.answer 0 hs (by simp) (by omega) (by simp [Clean])

theorem held_getData {q : Request} (hq : q ≠ .destroyPlaylist ∧ q ≠ .loadImage) :
    Held pl (getData q) := by
  intro w r w' h
  obtain ⟨as, ⟨reply, hs, rfl, rfl⟩ | ⟨hs, rfl, rfl⟩⟩ := getData_cases h
  · exact Moved.answer 0 hs (by simp) (by omega) (by simp [Clean, hq.1])
  · exact Moved.answer 0 hs (by simp) (by omega) (by simp [Clean, hq.2])

end Held

/-! ## Whole commands -/

/-- Connections are given back exactly while the answers are clean. -/
abbrev Balanced {α : Type} (pl : Playlist) (m : Send α) : Prop := Proc.Keeps (Moved pl 0) m

section Balanced

variable {pl : Playlist} {α β : Type}

instance (priority := low) balanced_of_local (m : Send α) [hm : Local m] : Balanced pl m := by
  refine ⟨fun w r w' h => ?_⟩
  obtain ⟨hs, hb, hz, -⟩ := World.outside_eq (hm.same h)
  exact Moved.still hs hb hz

/-- Borrow, hold, close. -/
theorem moved_borrow {held : Send α} (rest : α → Send β) {w w' : World} {r : Except Exn β}
    (hheld : ∀ w1 r1 w2, w1.objects = w.objects → held w1 = some (r1, w2) → HeldTo pl w1 r1 w2)
    (hrest : ∀ a, Balanced pl (rest a))
    (h : (getConnection >>= fun _ => held >>= fun a => close >>= fun _ => rest a) w =
      some (r, w')) : Moved pl 0 w w' := by
  rcases Proc.bind_eq_some h with ⟨e, he, rfl⟩ | ⟨⟨⟩, w1, h1, h⟩
  · obtain ⟨as, ⟨-, he, -⟩ | ⟨hs, -, rfl⟩⟩ := getConnection_cases he
    · cases he
    · exact Moved.answer 0 hs (by simp) (by omega) (by simp [Clean])
  have hobj : w1.objects = w.objects := keeps_getConnection.same h1
  have hborrow : Moved pl 1 w w1 := by
    obtain ⟨as, ⟨hs, -, -, rfl⟩ | ⟨-, h1, -⟩⟩ := getConnection_cases h1
    · exact Moved.answer 1 hs (by simp) (by omega) (by simp [Clean])
    · cases h1
  rcases Proc.bind_eq_some h with ⟨e, he, rfl⟩ | ⟨a, w2, h2, h⟩
  · have hlost : Moved pl (-1) w1 w' := hheld w1 _ w' hobj he
    exact hborrow.trans hlost
  have hheld' : Moved pl 1 w w2 := by
    have hkept : Moved pl 0 w1 w2 := hheld w1 _ w2 hobj h2
    exact hborrow.trans hkept
  rcases Proc.bind_eq_some h with ⟨e, he, -⟩ | ⟨⟨⟩, w3, h3, h⟩
  · cases he
  cases h3
  have hclosed : Moved pl 0 w { w2 with borrowed := w2.borrowed - 1 } := by
    obtain ⟨hz, used, hs, hb, hc⟩ := hheld'
    refine ⟨hz, used, hs, ?_, ?_⟩
    · dsimp only
      omega
    · rw [← hc]
      dsimp only
      omega
  exact hclosed.trans ((hrest a).moves _ r w' h)

theorem balanced_borrow {held : Send α} (rest : α → Send β) (hheld : Held pl held)
    (hrest : ∀ a, Balanced pl (rest a)) :
    Balanced pl (getConnection >>= fun _ => held >>= fun a => close >>= fun _ => rest a) :=
  ⟨fun _ _ _ => moved_borrow rest (fun w1 r1 w2 _ => hheld w1 r1 w2) hrest⟩

theorem balanced_exchange (pl : Playlist) {r : Request} (hr : Plain r) (changes : List Change) :
    Balanced pl (exchange r changes) := by
  have hheld : Held pl (checkConnection r >>= fun _ => sendPacket r changes >>= fun _ =>
      getData r) :=
    (held_checkConnection ⟨hr.1, hr.2.1⟩).bind fun _ =>
      (held_sendPacket r changes).bind fun _ => held_getData ⟨hr.2.1, hr.2.2⟩
  have h := balanced_borrow (fun data => pure data) hheld fun _ => inferInstance
  rw [Proc.bind_assoc] at h
  simpa only [exchange, Proc.bind_assoc] using h

instance balanced_sessionUser (given : Bool) : Balanced pl (sessionUser given) := by
  have hheld : Held pl (checkConnection .session) := held_checkConnection (by decide)
  have h : Balanced pl (getConnection >>= fun _ => checkConnection .session >>= fun _ => close) :=
    balanced_borrow (fun _ => pure ()) hheld fun _ => inferInstance
  unfold sessionUser
  infer_instance

set_option synthInstance.maxSize 100000

theorem balanced_browse {r : Request} (hr : Plain r) :
    Balanced pl (exchange r [] >>= fun _ => pure ()) := by
  have hexchange := balanced_exchange pl hr []
  infer_instance

theorem balanced_sendLoadTracks (ids : List Text) : Balanced pl (sendLoadTracks ids) := by
  have hbrowse : Balanced pl (exchange .loadTracks [] >>= fun _ => pure ()) :=
    balanced_browse (by decide)
  unfold sendLoadTracks
  infer_instance

theorem balanced_sendLoadAlbum (id : Text) : Balanced pl (sendLoadAlbum id) := by
  have hbrowse : Balanced pl (exchange .loadAlbum [] >>= fun _ => pure ()) :=
    balanced_browse (by decide)
  unfold sendLoadAlbum
  infer_instance

theorem balanced_sendLoadArtist (id : Text) : Balanced pl (sendLoadArtist id) := by
  have hbrowse : Balanced pl (exchange .loadArtist [] >>= fun _ => pure ()) :=
    balanced_browse (by decide)
  unfold sendLoadArtist
  infer_instance

theorem balanced_sendSearch (offset : Int) : Balanced pl (sendSearch offset) := by
  have hbrowse : Balanced pl (exchange .search [] >>= fun _ => pure ()) :=
    balanced_browse (by decide)
  unfold sendSearch
  infer_instance

/-- The image is waited for when the connection has been given back. -/
theorem balanced_getImage : Balanced pl (getData .loadImage) := by
  refine ⟨fun w r w' h => ?_⟩
  obtain ⟨as, ⟨reply, hs, rfl, rfl⟩ | ⟨hs, rfl, rfl⟩⟩ := getData_cases h
  · exact Moved.answer 0 hs (by simp) (by omega) (by simp [Clean])
  · exact Moved.answer 0 hs (by simp) (by omega) (by simp [Clean])

theorem balanced_sendLoadImage (id : Text) : Balanced pl (sendLoadImage id) := by
  have hheld : Held pl (checkConnection .loadImage >>= fun _ => sendPacket .loadImage []) :=
    (held_checkConnection (by decide)).bind fun _ => held_sendPacket _ _
  have hget : Balanced pl (getData .loadImage) := balanced_getImage
  have h := balanced_borrow (fun _ => getData .loadImage >>= fun _ => pure ()) hheld
    fun _ => inferInstance
  rw [Proc.bind_assoc] at h
  unfold sendLoadImage
  infer_instance

instance balanced_sendLoadPlaylist (p : Nat) : Balanced pl (sendLoadPlaylist p) := by
  have hexchange : Balanced pl (exchange .getPlaylist []) := balanced_exchange pl (by decide) []
  unfold sendLoadPlaylist
  infer_instance

instance balanced_sendLoadUserPlaylists : Balanced pl sendLoadUserPlaylists := by
  have hexchange : Balanced pl (exchange .userPlaylists []) := balanced_exchange pl (by decide) []
  have hnew : Local (Proc.modify fun w : World =>
      { w with container := some (w.container.getD .new) }) :=
    ⟨Proc.Moves.modify fun _ => rfl⟩
  unfold sendLoadUserPlaylists
  infer_instance

instance balanced_loadedUserPlaylists : Balanced pl loadedUserPlaylists := by
  unfold loadedUserPlaylists
  infer_instance

theorem balanced_sendAddTrack (p : Nat) (track : Text) (position : Option Int) (user : Bool) :
    Balanced pl (sendAddTrack p track position user) := by
  have hexchange := fun changes => balanced_exchange pl (r := .addTrack) (by decide) changes
  unfold sendAddTrack prepareAddTrack changeAddTrack
  dsimp only
  infer_instance

theorem balanced_sendRemoveTrack (p : Nat) (position : Int) :
    Balanced pl (sendRemoveTrack p position) := by
  have hexchange := fun changes => balanced_exchange pl (r := .removeTrack) (by decide) changes
  unfold sendRemoveTrack prepareRemoveTrack changeRemoveTrack
  dsimp only
  infer_instance

theorem balanced_changeProperty {r : Request} (hr : Plain r) (p : Nat) (op : Op) :
    Balanced pl (changeProperty r p op) := by
  have hexchange := fun changes => balanced_exchange pl hr changes
  unfold changeProperty
  dsimp only
  infer_instance

instance balanced_sendReservePlaylistUUID (uuid name : Text) (collaborative user : Bool) :
    Balanced pl (sendReservePlaylistUUID uuid name collaborative user) := by
  have hexchange := fun changes => balanced_exchange pl (r := .reserveUUID) (by decide) changes
  unfold sendReservePlaylistUUID
  infer_instance

theorem balanced_go (uuids : List Text) (name : Text) (collaborative user : Bool) :
    Balanced pl (sendReserveRandomPlaylistUUID.go name collaborative user uuids) := by
  induction uuids with
  | nil =>
    unfold sendReserveRandomPlaylistUUID.go
    infer_instance
  | cons uuid uuids ih =>
    unfold sendReserveRandomPlaylistUUID.go
    infer_instance

instance balanced_sendReserveRandomPlaylistUUID (uuids : List Text) (name : Text)
    (collaborative user : Bool) :
    Balanced pl (sendReserveRandomPlaylistUUID uuids name collaborative user) :=
  balanced_go (uuids.take 10) name collaborative user

instance balanced_sendCreatePlaylistWithReservedUUID (p : Nat) (position : Option Int)
    (user : Bool) : Balanced pl (sendCreatePlaylistWithReservedUUID p position user) := by
  have hexchange := fun changes => balanced_exchange pl (r := .createPlaylist) (by decide) changes
  unfold sendCreatePlaylistWithReservedUUID prepareCreatePlaylist changeCreatePlaylist
  dsimp only
  infer_instance

theorem balanced_sendCreatePlaylist (uuids : List Text) (name : Text)
    (collaborative user : Bool) :
    Balanced pl (sendCreatePlaylist uuids name collaborative user) := by
  unfold sendCreatePlaylist
  infer_instance

end Balanced

/-! ## Removing a playlist -/

section Remove

variable {pl : Playlist} {p position : Nat} {c : PlaylistContainer}

theorem sendDelete_held {w w' : World} {r : Except Exn Unit} (hp : w.playlists p = pl)
    (hc : w.container = some c) (h : sendDelete p position w = some (r, w')) :
    HeldTo pl w r w' := by
  unfold sendDelete at h
  rcases Proc.bind_eq_some h with ⟨e, he, rfl⟩ | ⟨⟨⟩, w1, h1, h⟩
  · obtain ⟨as, ⟨-, he, -⟩ | ⟨hs, hget⟩⟩ := checkConnection_cases he
    · cases he
    · exact (reconnect_lost hs hget).1
  obtain ⟨-, hpl, -, hco⟩ := World.objects_eq ((keeps_checkConnection _).same h1)
  rw [playlists_bind (hco.trans hc), playlist_bind, hpl, hp] at h
  cases hb : pl.collaborative with
  | none =>
    rw [hb, orNull_none_bind] at h
    cases h
    exact checkConnection_lost (fun hc => hc.2.1 rfl hb) h1
  | some b =>
    have hclean : Clean pl (.isConnected .removePlaylist true) :=
      ⟨rfl, fun _ => by rw [hb]; nofun, nofun⟩
    have hkept : Moved pl 0 w w1 := checkConnection_held hclean h1
    rw [hb, orNull_some_bind] at h
    exact HeldTo.after hkept (held_sendPacket _ _ w1 r w' h)

/-- The reply is waited for and read while the connection is held. -/
theorem readDestroyed_held {w w' : World} {r : Except Exn Unit} {k : Send Unit}
    (hp : w.playlists p = pl)
    (h : (getData .destroyPlaylist >>= fun data => orNull data.document >>= fun response =>
      onPlaylist p (Playlist.fromXMLElement response) >>= fun _ =>
        if response.hasChild "next-change" then pure () else k) w = some (r, w')) :
    HeldTo pl w r w' := by
  rcases Proc.bind_eq_some h with ⟨e, he, rfl⟩ | ⟨data, w1, h1, h⟩
  · obtain ⟨as, ⟨reply, -, he, -⟩ | ⟨hs, -, rfl⟩⟩ := getData_cases he
    · cases he
    · exact Moved.answer 0 hs (by simp) (by omega) (by simp [Clean])
  obtain ⟨as, ⟨reply, hs, hr, rfl⟩ | ⟨-, hr, -⟩⟩ := getData_cases h1
  case inr => cases hr
  cases hr
  have hreply : Clean pl (.getData .destroyPlaylist (some data)) ↔ ReadAs pl data := by
    simp [Clean]
  cases hd : data.document with
  | none =>
    rw [hd, orNull_none_bind] at h
    cases h
    exact Moved.answer 0 hs (by simp) (by omega) (by simp [hreply, ReadAs, hd])
  | some e =>
    rw [hd, orNull_some_bind] at h
    rcases Proc.bind_eq_some h with ⟨x, hx, rfl⟩ | ⟨⟨⟩, w2, h2, h⟩
    · obtain ⟨pl', hread, rfl⟩ := onPlaylist_cases hx
      have hread : Playlist.fromXMLElement e pl = some (.error x, pl') := hp ▸ hread
      refine Moved.answer 0 hs (by simp) (by omega) ?_
      simp [hreply, ReadAs, hd, hread]
    · obtain ⟨pl', hread, rfl⟩ := onPlaylist_cases h2
      have hread : Playlist.fromXMLElement e pl = some (.ok (), pl') := hp ▸ hread
      rw [Playlist.hasChild_of_fromXMLElement hread, if_pos rfl] at h
      cases h
      refine Moved.answer 0 hs (by simp) (by omega) ?_
      simp [hreply, ReadAs, hd, hread]

theorem sendDestroy_held {w w' : World} {r : Except Exn Unit} (hp : w.playlists p = pl)
    (hc : w.container = some c) (h : sendDestroy p position w = some (r, w')) :
    HeldTo pl w r w' := by
  unfold sendDestroy at h
  rcases Proc.bind_eq_some h with ⟨e, he, rfl⟩ | ⟨⟨⟩, w1, h1, h⟩
  · obtain ⟨as, ⟨-, he, -⟩ | ⟨hs, hget⟩⟩ := checkConnection_cases he
    · cases he
    · exact (reconnect_lost hs hget).1
  obtain ⟨-, hpl, -, hco⟩ := World.objects_eq ((keeps_checkConnection _).same h1)
  have hlost (hbad : ¬ Destroyable pl) (e : Exn) (hr : some (.error e, w1) = some (r, w')) :
      HeldTo pl w r w' := by
    cases hr
    exact checkConnection_lost (fun hc => hbad (hc.2.2 rfl)) h1
  rw [playlists_bind (hco.trans hc), playlist_bind, hpl, hp] at h
  cases hrev : pl.revision with
  | none =>
    rw [hrev, orNull_none_bind] at h
    exact hlost (fun hd => hd.1 hrev) _ h
  | some revision =>
  cases htr : pl.tracks with
  | none =>
    rw [hrev, htr, orNull_some_bind, orNull_none_bind] at h
    exact hlost (fun hd => hd.2.1 htr) _ h
  | some tracks =>
  cases hcol : pl.collaborative with
  | none =>
    rw [hrev, htr, hcol, orNull_some_bind, orNull_some_bind, orNull_none_bind] at h
    exact hlost (fun hd => hd.2.2.1 hcol) _ h
  | some collaborative =>
  rw [hrev, htr, hcol, orNull_some_bind, orNull_some_bind, orNull_some_bind] at h
  by_cases hid : HasUUID pl.id
  · rw [putUUID_bind_of_has hid] at h
    have hdes : Destroyable pl := ⟨by rw [hrev]; nofun, by rw [htr]; nofun, by rw [hcol]; nofun, hid⟩
    have hclean : Clean pl (.isConnected .destroyPlaylist true) := ⟨rfl, nofun, fun _ => hdes⟩
    have hkept : Moved pl 0 w w1 := checkConnection_held hclean h1
    refine HeldTo.after hkept ?_
    rcases Proc.bind_eq_some h with ⟨e, he, rfl⟩ | ⟨⟨⟩, w2, h2, h⟩
    · exact held_sendPacket _ _ w1 _ w' he
    · refine HeldTo.after (held_sendPacket _ _ w1 _ w2 h2) (readDestroyed_held ?_ h)
      rw [(World.objects_eq ((keeps_sendPacket _ _).same h2)).2.1, hpl, hp]
  · obtain ⟨e, he⟩ := putUUID_bind_of_not hid (α := Unit) _
    rw [he] at h
    exact hlost (fun hd => hid hd.2.2.2) e h

theorem moved_changeRemovePlaylist {w w' : World} {r : Except Exn Unit}
    (hp : w.playlists p = pl) (h : changeRemovePlaylist p w = some (r, w')) :
    Moved pl 0 w w' := by
  unfold changeRemovePlaylist at h
  cases hc : w.container with
  | none =>
    rw [playlists_bind_none hc] at h
    cases h
    exact Moved.still rfl rfl rfl
  | some c =>
  rw [playlists_bind hc, playlist_bind] at h
  cases hf : c.items.findIdx? fun item => item.id = (w.playlists p).id with
  | none =>
    simp only [hf] at h
    cases h
    exact Moved.still rfl rfl rfl
  | some position =>
    simp only [hf] at h
    unfold setContainer at h
    rw [Proc.modify_bind, Proc.ite_run] at h
    split at h
    · cases h
      exact Moved.still rfl rfl rfl
    · have hassoc : (sendDelete p position >>= fun _ => sendDestroy p position >>= fun _ => close) =
          (sendDelete p position >>= fun _ => sendDestroy p position) >>= fun _ => close :=
        (Proc.bind_assoc _ _ _).symm
      rw [hassoc] at h
      -- taking the playlist off the list is not seen by the pool
      change Moved pl 0 { w with container := w.container.map fun c =>
        { c with items := c.items.eraseIdx position } } w'
      refine moved_borrow (fun _ => pure ()) ?_ (fun _ => inferInstance) h
      intro w1 r1 w2 hobj h12
      obtain ⟨-, hpl, -, hco⟩ := World.objects_eq hobj
      have hp1 : w1.playlists p = pl := by rw [hpl, hp]
      have hc1 : w1.container = some { c with items := c.items.eraseIdx position } := by
        rw [hco, hc]
        rfl
      rcases Proc.bind_eq_some h12 with ⟨e, he, rfl⟩ | ⟨⟨⟩, w3, h3, h12⟩
      · exact sendDelete_held hp1 hc1 he
      · have hobj3 : w3.objects = w1.objects := (keeps_sendDelete p position).same h3
        obtain ⟨-, hpl3, -, hco3⟩ := World.objects_eq hobj3
        refine HeldTo.after (sendDelete_held hp1 hc1 h3) (sendDestroy_held ?_ (hco3.trans hc1) h12)
        rw [hpl3, hp1]

theorem moved_sendRemovePlaylistFromUser {w w' : World} {r : Except Exn Unit}
    (hp : w.playlists p = pl) (h : sendRemovePlaylistFromUser p w = some (r, w')) :
    Moved pl 0 w w' := by
  unfold sendRemovePlaylistFromUser at h
  have hload : Balanced pl loadedUserPlaylists := inferInstance
  rcases Proc.bind_eq_some h with ⟨e, he, rfl⟩ | ⟨⟨⟩, w1, h1, h⟩
  · exact hload.moves w _ w' he
  · have hp1 : w1.playlists p = pl := by rw [keeps_loadedUserPlaylists.same h1, hp]
    exact trans_of (Moved pl 0) (hload.moves w _ w1 h1) (moved_changeRemovePlaylist hp1 h)

end Remove

/-! ## Every command -/

/-- The playlist to be removed; the other commands remove none, and any will do. -/
def Command.removed : Command → Nat
  | .removePlaylistFromUser p => p
  | _ => 0

theorem moved_send (c : Command) {w w' : World} {r : Except Exn Unit}
    (h : c.send w = some (r, w')) : Moved (w.playlists c.removed) 0 w w' := by
  generalize hp : w.playlists c.removed = pl
  cases c with
  | loadTracks ids => exact (balanced_sendLoadTracks ids).moves w r w' h
  | loadAlbum id => exact (balanced_sendLoadAlbum id).moves w r w' h
  | loadArtist id => exact (balanced_sendLoadArtist id).moves w r w' h
  | search offset => exact (balanced_sendSearch offset).moves w r w' h
  | loadImage id => exact (balanced_sendLoadImage id).moves w r w' h
  | loadPlaylist p => exact (balanced_sendLoadPlaylist p).moves w r w' h
  | loadUserPlaylists => exact balanced_sendLoadUserPlaylists.moves w r w' h
  | addTrack p track position user =>
    exact (balanced_sendAddTrack p track position user).moves w r w' h
  | removeTrack p position => exact (balanced_sendRemoveTrack p position).moves w r w' h
  | renamePlaylist p newName =>
    have hproperty : Balanced pl (changeProperty .renamePlaylist p (.name newName)) :=
      balanced_changeProperty (by decide) p _
    have hsend : Balanced pl (changeProperty .renamePlaylist p (.name newName) >>=
      fun _ => pure ()) := inferInstance
    exact hsend.moves w r w' h
  | setPlaylistCollaborative p value =>
    have hproperty : Balanced pl (changeProperty .setCollaborative p (.pub value)) :=
      balanced_changeProperty (by decide) p _
    have hsend : Balanced pl (changeProperty .setCollaborative p (.pub value) >>=
      fun _ => pure ()) := inferInstance
    exact hsend.moves w r w' h
  | reservePlaylistUUID uuid name collaborative user =>
    have hsend : Balanced pl (sendReservePlaylistUUID uuid name collaborative user >>=
      fun _ => pure ()) := inferInstance
    exact hsend.moves w r w' h
  | reserveRandomPlaylistUUID uuids name collaborative user =>
    have hsend : Balanced pl (sendReserveRandomPlaylistUUID uuids name collaborative user >>=
      fun _ => pure ()) := inferInstance
    exact hsend.moves w r w' h
  | createPlaylistWithReservedUUID p position user =>
    exact (balanced_sendCreatePlaylistWithReservedUUID p position user).moves w r w' h
  | createPlaylist uuids name collaborative user =>
    exact (balanced_sendCreatePlaylist uuids name collaborative user).moves w r w' h
  | removePlaylistFromUser p => exact moved_sendRemovePlaylistFromUser hp h

/-! ## Runs -/

/-- A command sent in the world `before`, with the answers it got. -/
structure Call where
  command : Command
  before : World
  answers : List Answer
  outcome : Except Exn Unit
  after : World
  sent : command.Sent before answers outcome after

/-- Every answer is clean. -/
def Call.Clean (s : Call) : Prop :=
  ∀ a ∈ s.answers, Java.Clean (s.before.playlists s.command.removed) a

/-- The calls follow each other. -/
def Run : World → List Call → World → Prop
  | w, [], w' => w' = w
  | w, s :: calls, w' => s.before = w ∧ Run s.after calls w'

theorem Call.borrowed (s : Call) : s.after.size = s.before.size ∧
    s.before.borrowed ≤ s.after.borrowed ∧ (s.after.borrowed = s.before.borrowed ↔ s.Clean) := by
  obtain ⟨c, w, answers, r, w', hsend, hscript⟩ := s
  obtain ⟨hz, used, hs, hb, hc⟩ := moved_send c hsend
  rw [hscript, List.append_nil] at hs
  dsimp only at hz hs hb hc ⊢
  refine ⟨hz, by omega, ?_⟩
  unfold Call.Clean
  dsimp only
  rw [hs, ← hc]
  omega

/-- Over a run the number never falls, and stays exactly if all answers are clean. -/
theorem Run.borrowed {w w' : World} {calls : List Call} (hrun : Run w calls w') :
    w'.size = w.size ∧ w.borrowed ≤ w'.borrowed ∧
      (w'.borrowed = w.borrowed ↔ ∀ s ∈ calls, s.Clean) := by
  induction calls generalizing w with
  | nil =>
    cases hrun
    exact ⟨rfl, le_refl _, by simp⟩
  | cons s calls ih =>
    obtain ⟨rfl, hrun⟩ := hrun
    obtain ⟨hz, hb, hc⟩ := s.borrowed
    obtain ⟨hz', hb', hc'⟩ := ih hrun
    refine ⟨hz'.trans hz, hb.trans hb', ?_⟩
    rw [List.forall_mem_cons, ← hc, ← hc']
    omega

/-- **No connection is lost.**  In a run, every command leaves as many connections
borrowed as before it exactly if all answers are clean; this is exactly if the
last one leaves as many as there were before the first, of as many as there are. -/
theorem borrowed_run_iff {w w' : World} {calls : List Call} (hrun : Run w calls w') :
    ((∀ s ∈ calls, s.after.borrowed = s.before.borrowed) ↔ ∀ s ∈ calls, s.Clean) ∧
      (w'.borrowed = w.borrowed ↔ ∀ s ∈ calls, s.Clean) ∧ w'.size = w.size := by
  obtain ⟨hz, -, hc⟩ := hrun.borrowed
  refine ⟨?_, hc, hz⟩
  constructor
  · exact fun h s hs => s.borrowed.2.2.mp (h s hs)
  · exact fun h s hs => s.borrowed.2.2.mpr (h s hs)

/-- A pool of one connection, and a user without playlists. -/
def World.idle : World where
  store _ := 0
  playlists _ := ⟨[], none, none, none, none, none, none, false⟩
  userId := []
  container := none
  size := 1
  borrowed := 0
  sent := []
  script := []

def searched (answer : Option Reply) : List Answer :=
  [.borrowObject true, .isConnected .search true, .sendPacket .search true,
    .getData .search answer]

/-- A search that gets its reply. -/
def searchCall : Call where
  command := .search 0
  before := .idle
  answers := searched (some ⟨0, none⟩)
  outcome := .ok ()
  after := .idle
  sent := ⟨rfl, rfl⟩

theorem borrowed_run_iff_searched : Run .idle [searchCall] .idle ∧
    ((∀ s ∈ [searchCall], s.after.borrowed = s.before.borrowed) ↔
        ∀ s ∈ [searchCall], s.Clean) ∧
      (World.idle.borrowed = World.idle.borrowed ↔ ∀ s ∈ [searchCall], s.Clean) ∧
      World.idle.size = World.idle.size :=
  have hrun : Run .idle [searchCall] .idle := ⟨rfl, rfl⟩
  ⟨hrun, borrowed_run_iff hrun⟩

/-- After one timeout the only connection stays borrowed, and no later
`borrowObject` is answered by one. -/
theorem timeout_leaks : ∃ w', Command.Sent (.search 0) .idle (searched none)
    (.error .timeoutException) w' ∧ World.idle.borrowed = 0 ∧ w'.borrowed = 1 ∧
      ∀ as, getConnection { w' with script := .borrowObject true :: as } = none :=
  ⟨{ World.idle with borrowed := 1 }, ⟨rfl, rfl⟩, rfl, rfl, fun _ => rfl⟩

end Despotify.Java

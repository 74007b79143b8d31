import Despotify.Java.Client

/-!
# Java: what a command does between its answers

The world is in two parts, `World.objects` and `World.outside`: an exchange with
the server leaves the first alone, what a command does on its objects the second.

    exchange r changes w = some (x, w') → w'.objects = w.objects ∧
      (x is an exception, and no reply to r was used ∨
       x is the reply to r, and the changes went out)          (exchange_cases)
-/

namespace Despotify.Java

/-! ## The objects during an exchange -/

/-- What is not in the pool: the store, the playlists, the user and his container. -/
def World.objects (w : World) := (w.store, w.playlists, w.userId, w.container)

theorem World.objects_eq {w w' : World} (h : w'.objects = w.objects) :
    w'.store = w.store ∧ w'.playlists = w.playlists ∧ w'.userId = w.userId ∧
      w'.container = w.container := by
  simpa only [World.objects, Prod.mk.injEq] using h

instance keeps_playlist (p : Nat) : Proc.Keeps (Proc.Same World.objects) (playlist p) := by
  unfold playlist
  infer_instance

instance keeps_playlists : Proc.Keeps (Proc.Same World.objects) playlists := by
  unfold playlists
  infer_instance

instance keeps_getConnection : Proc.Keeps (Proc.Same World.objects) getConnection := by
  refine ⟨fun w r w' h => ?_⟩
  obtain ⟨as, ⟨-, -, -, rfl⟩ | ⟨-, -, rfl⟩⟩ := getConnection_cases h
  · rfl
  · rfl

instance keeps_checkConnection (q : Request) :
    Proc.Keeps (Proc.Same World.objects) (checkConnection q) := by
  refine ⟨fun w r w' h => ?_⟩
  obtain ⟨as, ⟨-, -, rfl⟩ | ⟨-, hget⟩⟩ := checkConnection_cases h
  · rfl
  · exact (keeps_getConnection.same hget).trans rfl

instance keeps_sendPacket (q : Request) (changes : List Change) :
    Proc.Keeps (Proc.Same World.objects) (sendPacket q changes) := by
  refine ⟨fun w r w' h => ?_⟩
  obtain ⟨as, ⟨-, -, rfl⟩ | ⟨-, -, rfl⟩⟩ := sendPacket_cases h
  · rfl
  · rfl

instance keeps_getData (q : Request) : Proc.Keeps (Proc.Same World.objects) (getData q) := by
  refine ⟨fun w r w' h => ?_⟩
  obtain ⟨as, ⟨reply, -, -, rfl⟩ | ⟨-, -, rfl⟩⟩ := getData_cases h
  · rfl
  · rfl

instance keeps_close : Proc.Keeps (Proc.Same World.objects) close :=
  ⟨Proc.Moves.modify fun _ => rfl⟩

instance keeps_exchange (q : Request) (changes : List Change) :
    Proc.Keeps (Proc.Same World.objects) (exchange q changes) := by
  unfold exchange
  infer_instance

instance keeps_sessionUser (given : Bool) :
    Proc.Keeps (Proc.Same World.objects) (sessionUser given) := by
  unfold sessionUser
  infer_instance

instance keeps_checkAllowed (p : Nat) : Proc.Keeps (Proc.Same World.objects) (checkAllowed p) := by
  unfold checkAllowed
  infer_instance

instance keeps_sendDelete (p position : Nat) :
    Proc.Keeps (Proc.Same World.objects) (sendDelete p position) := by
  unfold sendDelete
  infer_instance

set_option synthInstance.maxSize 100000 in
/-- Loading the list of playlists leaves the playlists as they are. -/
instance keeps_sendLoadUserPlaylists :
    Proc.Keeps (Proc.Same World.playlists) sendLoadUserPlaylists := by
  have hexchange : Proc.Keeps (Proc.Same World.playlists) (exchange .userPlaylists []) :=
    (keeps_exchange .userPlaylists []).of_same fun w w' h => congrArg (fun o => o.2.1) h
  have hnew : Proc.Keeps (Proc.Same World.playlists) (Proc.modify fun w : World =>
      { w with container := some (w.container.getD .new) } : Send Unit) :=
    ⟨Proc.Moves.modify fun _ => rfl⟩
  have hset : ∀ f, Proc.Keeps (Proc.Same World.playlists) (setContainer f) :=
    fun f => ⟨Proc.Moves.modify fun _ => rfl⟩
  have hon : ∀ m, Proc.Keeps (Proc.Same World.playlists) (onContainer m) := by
    refine fun m => ⟨fun w r w' h => ?_⟩
    obtain ⟨-, -, rfl⟩ | ⟨c, c', -, -, rfl⟩ := onContainer_cases h
    · rfl
    · rfl
  unfold sendLoadUserPlaylists
  infer_instance

instance keeps_loadedUserPlaylists :
    Proc.Keeps (Proc.Same World.playlists) loadedUserPlaylists := by
  unfold loadedUserPlaylists
  infer_instance

/-! ## Between the calls -/

/-- What is not the objects: the answers to come, the pool and what went out. -/
def World.outside (w : World) := (w.script, w.borrowed, w.size, w.sent)

theorem World.outside_eq {w w' : World} (h : w'.outside = w.outside) :
    w'.script = w.script ∧ w'.borrowed = w.borrowed ∧ w'.size = w.size ∧ w'.sent = w.sent := by
  simpa only [World.outside, Prod.mk.injEq] using h

/-- Only objects change. -/
abbrev Local {α : Type} (m : Send α) : Prop := Proc.Keeps (Proc.Same World.outside) m

section Local

instance local_setPlaylist (p : Nat) (f : Playlist → Playlist) : Local (setPlaylist p f) :=
  ⟨Proc.Moves.modify fun _ => rfl⟩

instance local_setContainer (f : PlaylistContainer → PlaylistContainer) :
    Local (setContainer f) :=
  ⟨Proc.Moves.modify fun _ => rfl⟩

instance local_playlist (p : Nat) : Local (playlist p) := by
  unfold playlist
  infer_instance

instance local_playlists : Local playlists := by
  unfold playlists
  infer_instance

instance local_onPlaylist (p : Nat) (m : Proc Playlist Exn Unit) : Local (onPlaylist p m) := by
  refine ⟨fun w r w' h => ?_⟩
  obtain ⟨pl, -, rfl⟩ := onPlaylist_cases h
  rfl

instance local_onContainer (m : Proc PlaylistContainer Exn Unit) : Local (onContainer m) := by
  refine ⟨fun w r w' h => ?_⟩
  obtain ⟨-, -, rfl⟩ | ⟨c, c', -, -, rfl⟩ := onContainer_cases h
  · rfl
  · rfl

instance local_putUUID (limit : Nat) (id : Text) : Local (putUUID limit id) := by
  unfold putUUID
  infer_instance

instance local_checkAllowed (p : Nat) : Local (checkAllowed p) := by
  unfold checkAllowed
  infer_instance

instance local_checkAuthor (p : Nat) : Local (checkAuthor p) := by
  unfold checkAuthor
  infer_instance

instance local_someTracks (p : Nat) : Local (someTracks p) := by
  unfold someTracks
  infer_instance

instance local_setChecksum (p : Nat) : Local (setChecksum p) := by
  unfold setChecksum
  infer_instance

instance local_tracksChange (p : Nat) (op : Nat → Op) (place : Nat → Int) (previous : Int) :
    Local (tracksChange p op place previous) := by
  unfold tracksChange
  infer_instance

instance local_propertyChange (p : Nat) (op : Op) : Local (propertyChange p op) := by
  unfold propertyChange
  infer_instance

set_option synthInstance.maxSize 100000

instance local_confirmTracks (p : Nat) (response : XMLElement) :
    Local (confirmTracks p response) := by
  unfold confirmTracks
  dsimp only
  infer_instance

instance local_confirmItems (p : Nat) (response : XMLElement) :
    Local (confirmItems p response) := by
  unfold confirmItems
  dsimp only
  infer_instance

end Local

/-! ## The answers used -/

/-- The answers used up between two states all satisfy `P`. -/
def Used (P : Answer → Prop) (w w' : World) : Prop :=
  ∃ used, w.script = used ++ w'.script ∧ ∀ a ∈ used, P a

/-- No reply to `q`. -/
def NoReply (q : Request) (a : Answer) : Prop := ∀ reply, a ≠ .getData q (some reply)

section Used

variable {P : Answer → Prop} {q : Request}

instance : Std.Refl (Used P) := ⟨fun _ => ⟨[], rfl, nofun⟩⟩

instance : IsTrans World (Used P) := by
  refine ⟨fun w w1 w2 ⟨used, hs, hP⟩ ⟨used', hs', hP'⟩ => ⟨used ++ used', ?_, ?_⟩⟩
  · rw [hs, hs', List.append_assoc]
  · rw [List.forall_mem_append]
    exact ⟨hP, hP'⟩

theorem Used.answer {a : Answer} {w w' : World} (hs : w.script = a :: w'.script) (ha : P a) :
    Used P w w' :=
  ⟨[a], hs, by simpa using ha⟩

theorem Used.mem {w w' : World} (h : Used P w w') {a : Answer} (ha : a ∈ w'.script) :
    a ∈ w.script := by
  obtain ⟨used, hs, -⟩ := h
  rw [hs]
  exact List.mem_append_right _ ha

theorem Used.noReply_of_script {w w' : World} (h : Used (NoReply q) w w') (hs : w'.script = [])
    (reply : Reply) : .getData q (some reply) ∉ w.script := by
  obtain ⟨used, hused, hP⟩ := h
  rw [hused, hs, List.append_nil]
  exact fun hmem => hP _ hmem reply rfl

instance (priority := low) used_of_local {α : Type} (m : Send α) [hm : Local m] :
    Proc.Keeps (Used P) m :=
  ⟨fun _ _ _ h => ⟨[], (World.outside_eq (hm.same h)).1.symm, nofun⟩⟩

instance used_getConnection : Proc.Keeps (Used (NoReply q)) getConnection := by
  refine ⟨fun w r w' h => ?_⟩
  obtain ⟨as, ⟨hs, -, -, rfl⟩ | ⟨hs, -, rfl⟩⟩ := getConnection_cases h
  · exact Used.answer hs nofun
  · exact Used.answer hs nofun

instance used_checkConnection (r : Request) :
    Proc.Keeps (Used (NoReply q)) (checkConnection r) := by
  refine ⟨fun w x w' h => ?_⟩
  obtain ⟨as, ⟨hs, -, rfl⟩ | ⟨hs, hget⟩⟩ := checkConnection_cases h
  · exact Used.answer hs nofun
  · have hfirst : Used (NoReply q) w { w with script := as } := Used.answer hs nofun
    exact trans_of (Used (NoReply q)) hfirst (used_getConnection.moves _ _ _ hget)

instance used_sendPacket (r : Request) (changes : List Change) :
    Proc.Keeps (Used (NoReply q)) (sendPacket r changes) := by
  refine ⟨fun w x w' h => ?_⟩
  obtain ⟨as, ⟨hs, -, rfl⟩ | ⟨hs, -, rfl⟩⟩ := sendPacket_cases h
  · exact Used.answer hs nofun
  · exact Used.answer hs nofun

theorem used_getData {r : Request} (hr : r ≠ q) : Proc.Keeps (Used (NoReply q)) (getData r) := by
  refine ⟨fun w x w' h => ?_⟩
  obtain ⟨as, ⟨reply, hs, -, rfl⟩ | ⟨hs, -, rfl⟩⟩ := getData_cases h
  · exact Used.answer hs fun reply' heq => hr (Answer.getData.inj heq).1
  · exact Used.answer hs nofun

instance used_close : Proc.Keeps (Used P) close := ⟨Proc.Moves.modify fun _ => ⟨[], rfl, nofun⟩⟩

theorem used_exchange {r : Request} (hr : r ≠ q) (changes : List Change) :
    Proc.Keeps (Used (NoReply q)) (exchange r changes) := by
  have hget := used_getData hr
  unfold exchange
  infer_instance

instance used_sessionUser (given : Bool) : Proc.Keeps (Used (NoReply q)) (sessionUser given) := by
  unfold sessionUser
  infer_instance

end Used

/-! ## What went out -/

section Sent

instance (priority := low) sent_of_local {α : Type} (m : Send α) [hm : Local m] :
    Proc.Keeps (Proc.Same World.sent) m :=
  ⟨fun _ _ _ h => (World.outside_eq (hm.same h)).2.2.2⟩

instance sent_getConnection : Proc.Keeps (Proc.Same World.sent) getConnection := by
  refine ⟨fun w r w' h => ?_⟩
  obtain ⟨as, ⟨-, -, -, rfl⟩ | ⟨-, -, rfl⟩⟩ := getConnection_cases h
  · rfl
  · rfl

instance sent_checkConnection (q : Request) :
    Proc.Keeps (Proc.Same World.sent) (checkConnection q) := by
  refine ⟨fun w r w' h => ?_⟩
  obtain ⟨as, ⟨-, -, rfl⟩ | ⟨-, hget⟩⟩ := checkConnection_cases h
  · rfl
  · exact (sent_getConnection.same hget).trans rfl

instance sent_sendPacket_nil (q : Request) :
    Proc.Keeps (Proc.Same World.sent) (sendPacket q []) := by
  refine ⟨fun w r w' h => ?_⟩
  obtain ⟨as, ⟨-, -, rfl⟩ | ⟨-, -, rfl⟩⟩ := sendPacket_cases h
  · exact List.append_nil _
  · rfl

instance sent_getData (q : Request) : Proc.Keeps (Proc.Same World.sent) (getData q) := by
  refine ⟨fun w r w' h => ?_⟩
  obtain ⟨as, ⟨reply, -, -, rfl⟩ | ⟨-, -, rfl⟩⟩ := getData_cases h
  · rfl
  · rfl

instance sent_close : Proc.Keeps (Proc.Same World.sent) close := ⟨Proc.Moves.modify fun _ => rfl⟩

instance sent_exchange_nil (q : Request) : Proc.Keeps (Proc.Same World.sent) (exchange q []) := by
  unfold exchange
  infer_instance

instance sent_sessionUser (given : Bool) :
    Proc.Keeps (Proc.Same World.sent) (sessionUser given) := by
  unfold sessionUser
  infer_instance

end Sent

/-! ## An exchange -/

/-- **An exchange** ends in an exception without a reply, or brings the reply after
the changes have gone out. -/
theorem exchange_cases {q : Request} {changes : List Change} {w w' : World} {r : Except Exn Reply}
    (h : exchange q changes w = some (r, w')) :
    w'.objects = w.objects ∧
      ((∃ e, r = .error e ∧ Used (NoReply q) w w') ∨
        ∃ reply used, r = .ok reply ∧ w'.sent = w.sent ++ changes ∧
          w.script = used ++ .getData q (some reply) :: w'.script ∧ ∀ a ∈ used, NoReply q a) := by
  refine ⟨(keeps_exchange q changes).same h, ?_⟩
  unfold exchange at h
  rcases Proc.bind_eq_some h with ⟨e, he, rfl⟩ | ⟨⟨⟩, w1, h1, h⟩
  · exact Or.inl ⟨e, rfl, used_getConnection.moves _ _ _ he⟩
  have hu1 : Used (NoReply q) w w1 := used_getConnection.moves _ _ _ h1
  rcases Proc.bind_eq_some h with ⟨e, he, rfl⟩ | ⟨⟨⟩, w2, h2, h⟩
  · exact Or.inl ⟨e, rfl, trans_of (Used _) hu1 ((used_checkConnection q).moves _ _ _ he)⟩
  have hu2 : Used (NoReply q) w w2 :=
    trans_of (Used _) hu1 ((used_checkConnection q).moves _ _ _ h2)
  have hsent2 : w2.sent = w.sent :=
    ((sent_checkConnection q).same h2).trans (sent_getConnection.same h1)
  rcases Proc.bind_eq_some h with ⟨e, he, rfl⟩ | ⟨⟨⟩, w3, h3, h⟩
  · exact Or.inl ⟨e, rfl, trans_of (Used _) hu2 ((used_sendPacket q changes).moves _ _ _ he)⟩
  obtain ⟨used, hs, hP⟩ : Used (NoReply q) w w3 :=
    trans_of (Used _) hu2 ((used_sendPacket q changes).moves _ _ _ h3)
  have hsent3 : w3.sent = w.sent ++ changes := by
    obtain ⟨as, ⟨-, -, rfl⟩ | ⟨-, h3, -⟩⟩ := sendPacket_cases h3
    · rw [hsent2]
    · cases h3
  rcases Proc.bind_eq_some h with ⟨e, he, rfl⟩ | ⟨data, w4, h4, h⟩
  · obtain ⟨as, ⟨reply, -, he, -⟩ | ⟨hs', -, rfl⟩⟩ := getData_cases he
    · cases he
    · have hlast : Used (NoReply q) w3 { w3 with script := as } := Used.answer hs' nofun
      exact Or.inl ⟨e, rfl, trans_of (Used _) ⟨used, hs, hP⟩ hlast⟩
  obtain ⟨as, ⟨reply, hs', hr, rfl⟩ | ⟨-, hr, -⟩⟩ := getData_cases h4
  · cases hr
    cases h
    exact Or.inr ⟨data, used, rfl, hsent3, by rw [hs, hs'], hP⟩
  · cases hr

end Despotify.Java

import Despotify.Sync.Reply

/-!
# Integrity of the cache

The callbacks tell the waiter that a reply is over, not how: after an ERROR as
after an END `despotify_get_image` and `despotify_get_playlist` store what has
come so far, and the next call for the same key takes it for the whole
(`cutShort_cached`).

`sound_of_uncut`: in a run where no error closes the channel of such a request
while it waits, and no call meets one it is not for, every entry they write is
the complete reply of a channel that reached its END.
-/

namespace Despotify.Sync

open Channels Runs

variable {inflate : List UInt8 → Option (List UInt8)}

/-- `despotify_get_image` and `despotify_get_playlist`. -/
def Req.plainFile : Req → Bool
  | .getImage _ | .getPlaylist .. => true
  | _ => false

/-- The reply will be stored as it comes. -/
def Stores (useCache : Bool) (req : Req) : Prop :=
  req.plainFile = true ∧ req.storeKey useCache ≠ none

/-- The channel a `CMD_CHANNELERR` closes. -/
def errored (s : Sys) : Event → List Nat
  | .packet payload true => (s.target payload).toList.map Channel.ptr
  | _ => []

/-- The entry holds, under its key, the whole reply of a channel that reached
CHANNEL_END, `errors` being the channels closed by an error. -/
structure Complete (s : Sys) (errors : List Nat) (x : Entry) : Prop where
  key : x.req.cacheKey = some x.key
  ended : ∃ c ∈ s.world.calls, c.ch.ptr = x.own ∧ c.ch.state = .ended
  uncut : x.own ∉ errors
  data : x.data = s.reply x.req x.own

structure Sound (s : Sys) (errors : List Nat) : Prop where
  stored : ∀ x ∈ s.ds.cache, x.req.plainFile = true → Complete s errors x
  /-- what is served from the cache is what is stored under the key -/
  cached : ∀ req data, (req, .cached data) ∈ s.ds.log →
    ∃ x ∈ s.ds.cache, req.cacheKey = some x.key ∧ x.data = data

/-- No call meets a request it is not for whose reply will be stored, and no
error comes for one that waits. -/
def Uncut (s : Sys) (e : Event) : Prop :=
  Undisturbed Stores s e ∧
    ∀ p ∈ errored s e, ∀ req, s.ds.thread = .waiting req p → ¬ Stores s.ds.useCache req

/-! ## One step -/

/-- What such a run keeps. -/
structure Whole (s : Sys) (errors : List Nat) : Prop extends Sound s errors where
  closed : ∀ p ∈ errors, Ended s p
  /-- the channel of the request in progress is open -/
  live : ∀ req own, s.ds.thread.pending = some (req, own) → ∀ ch,
    s.world.table.get own = some ch → ch.state.final = false
  woken : ∀ req own signaller, s.ds.thread = .woken req own signaller → Stores s.ds.useCache req →
    own ∉ errors ∧ ∃ c ∈ s.world.calls, c.ch.ptr = own ∧ c.ch.state = .ended

theorem whole_init (useCache : Bool) : Whole (Sys.init useCache) [] where
  stored := nofun
  cached := nofun
  closed := nofun
  live := nofun
  woken := nofun

theorem cacheKey_of_storeKey {req : Req} {useCache : Bool} {key : Key}
    (h : req.storeKey useCache = some key) : req.cacheKey = some key := by
  cases req <;> simp_all [Req.storeKey, Req.cacheKey]

/-- A cache hit is the data of a file under the key of the request. -/
theorem hit_mem {ds : Ds} {req : Req} {data : List UInt8} (h : ds.hit req = some data) :
    ∃ x ∈ ds.cache, req.cacheKey = some x.key ∧ x.data = data := by
  unfold Ds.hit at h
  split at h
  · obtain ⟨key, hkey, hload⟩ := Option.bind_eq_some_iff.mp h
    obtain ⟨x, hfind, hdata⟩ := Option.map_eq_some_iff.mp hload
    have hx : x.key = key := by simpa using List.find?_some hfind
    exact ⟨x, List.mem_of_find?_eq_some hfind, hx ▸ hkey, hdata⟩
  · cases h

/-- A packet that is not an error closes an open channel with END. -/
theorem ended_of_receive {ch : Channel Handler} (hopen : ch.state.final = false)
    {body : List UInt8} {c : Call Handler} (hc : c ∈ (ch.receive body false).1)
    (hfinal : c.ch.state.final = true) : c.ch.state = .ended := by
  unfold Channel.receive at hc
  simp only [Bool.false_eq_true, if_false] at hc
  split at hc
  · rename_i hstate
    rw [state_headerCalls hc, hstate] at hfinal
    cases hfinal
  · rw [List.mem_singleton.mp hc] at hfinal ⊢
    unfold Channel.onData at hfinal ⊢
    split
    · rfl
    · rename_i hne
      rw [if_neg hne, hopen] at hfinal
      cases hfinal

/-- An error closes the channel. -/
theorem final_of_receive_error (ch : Channel Handler) (body : List UInt8) :
    ∃ c ∈ (ch.receive body true).1, c.ch.state.final = true := by
  unfold Channel.receive
  refine ⟨_, List.mem_singleton_self _, ?_⟩
  unfold Channel.onData
  split <;> rfl

theorem open_of_receive {ch ch' : Channel Handler} {body : List UInt8} {error : Bool}
    (h : (ch.receive body error).2 = some ch') : ch'.state.final = false := by
  unfold Channel.receive at h
  generalize (if error then { ch with state := .error } else ch : Channel Handler) = c0 at h
  dsimp only at h
  split at h
  · rename_i hstate
    have hfold := (foldl_afterHeader c0 (splitHeaders body).1).1
    cases h
    split
    · rfl
    · rw [hfold, hstate]
      rfl
  · dsimp only at h
    split at h
    · cases h
    · rename_i hfinal
      cases h
      exact Bool.eq_false_iff.mpr hfinal

theorem mem_errored {s : Sys} {e : Event} {p : Nat} : p ∈ errored s e ↔
    ∃ payload ch, e = .packet payload true ∧ s.target payload = some ch ∧ ch.ptr = p := by
  constructor
  · intro h
    match e, h with
    | .packet payload true, h =>
      obtain ⟨ch, hch, hptr⟩ := List.mem_map.mp h
      exact ⟨payload, ch, rfl, Option.mem_toList.mp hch, hptr⟩
  · rintro ⟨payload, ch, rfl, ht, hptr⟩
    exact List.mem_map.mpr ⟨ch, Option.mem_toList.mpr ht, hptr⟩

theorem not_ended_of_mem_errored {s : Sys} (h : s.Inv) {e : Event} {p : Nat}
    (hp : p ∈ errored s e) : ¬ Ended s p := by
  obtain ⟨payload, ch, -, ht, rfl⟩ := mem_errored.mp hp
  exact not_ended_target h ht

theorem Complete.step {s s' : Sys} {e : Event} {errors : List Nat} {x : Entry}
    (h : Complete s errors x) (hinv : s.Inv) (hs : step inflate s e = some s') :
    Complete s' (errors ++ errored s e) x := by
  obtain ⟨c, hc, hptr, hstate⟩ := h.ended
  have hend : Ended s x.own := ⟨c, hc, hptr, by rw [hstate]; rfl⟩
  obtain ⟨-, hdata⟩ := step_reply_of_ended hinv hs hend
  refine ⟨h.key, ⟨c, step_calls hinv hs hc, hptr, hstate⟩, fun hmem => ?_, ?_⟩
  · rcases List.mem_append.mp hmem with hmem | hmem
    · exact h.uncut hmem
    · exact not_ended_of_mem_errored hinv hmem hend
  · rw [h.data, Sys.reply, Sys.reply, hdata]

/-- The log and the cache are the requesting thread's. -/
theorem after_log {s : Sys} (h : s.Inv) (payload : List UInt8) (error : Bool) :
    (s.after payload error).ds.log = s.ds.log ∧ (s.after payload error).ds.cache = s.ds.cache ∧
      (s.after payload error).ds.useCache = s.ds.useCache := by
  cases ht : s.target payload with
  | none =>
    rw [Sys.after, process_none ht]
    exact ⟨rfl, rfl, rfl⟩
  | some ch =>
    obtain ⟨-, -, -, heff, -⟩ := packet_spec h.table ht error
    exact heff.log

section
variable {s s' : Sys} {e : Event} {errors : List Nat}

theorem Whole.step_closed (h : Whole s errors) (hinv : s.Inv)
    (hs : step inflate s e = some s') : ∀ p ∈ errors ++ errored s e, Ended s' p := by
  intro p hp
  rcases List.mem_append.mp hp with hp | hp
  · obtain ⟨c, hc, hptr, hfinal⟩ := h.closed p hp
    exact ⟨c, step_calls hinv hs hc, hptr, hfinal⟩
  · obtain ⟨payload, ch, rfl, ht, rfl⟩ := mem_errored.mp hp
    rw [step_packet hs]
    obtain ⟨-, -, hcalls, heff, -⟩ := packet_spec hinv.table ht true
    obtain ⟨c, hc, hfinal⟩ := final_of_receive_error ch (payload.drop 2)
    have hc' : c ∈ s.callsOn payload true := by
      rw [Sys.callsOn, ht]
      exact hc
    exact ⟨c, hcalls ▸ List.mem_append_right _ hc', heff.ptr c hc', hfinal⟩

theorem Whole.step_live (hbase : Base s) (h : Whole s errors) (hs : step inflate s e = some s') :
    ∀ req own, s'.ds.thread.pending = some (req, own) → ∀ ch,
      s'.world.table.get own = some ch → ch.state.final = false := by
  intro req own hp ch hget
  rcases step_turn hbase.chan hs with ⟨payload, error, rfl, rfl⟩ | ⟨hk, ht⟩
  · cases ht : s.target payload with
    | none =>
      rw [Sys.after, process_none ht] at hp hget
      exact h.live req own hp ch hget
    | some ch0 =>
      obtain ⟨-, hon, -, heff, hself⟩ := packet_spec hbase.chan.table ht error
      have hp0 : s.ds.thread.pending = some (req, own) := heff.pending.1.symm.trans hp
      by_cases hown : own = ch0.ptr
      · subst hown
        exact open_of_receive (hself.symm.trans hget)
      · exact h.live req own hp0 ch ((hon.get own (hbase.own req own hp0).1 hown).symm.trans hget)
  · rcases ht.pending hp with hp0 | ⟨rfl, rfl⟩
    · obtain ⟨ch0, hget0, -, -, hopen⟩ := hk.get own (hbase.own req own hp0).1 ch hget
      exact hopen (h.live req own hp0 ch0 hget0)
    · obtain ⟨ch0, hget0, -, -, hstate⟩ := get_register_new s [] req.handler
      rw [show (s.send req true).world.table.get s.nextPtr = some ch0 from hget0] at hget
      cases hget
      rw [hstate]
      rfl

/-- Whoever is woken was woken by the END of its own channel. -/
theorem Whole.step_woken (hclean : Clean Stores s) (h : Whole s errors) (hok : Uncut s e)
    (hs : step inflate s e = some s') : ∀ req own signaller,
    s'.ds.thread = .woken req own signaller → Stores s'.ds.useCache req →
      own ∉ errors ++ errored s e ∧ ∃ c ∈ s'.world.calls, c.ch.ptr = own ∧ c.ch.state = .ended := by
  intro req own signaller hw hstores
  have hkeep : s.ds.thread = .woken req own signaller → Stores s.ds.useCache req →
      own ∉ errors ++ errored s e ∧
        ∃ c ∈ s'.world.calls, c.ch.ptr = own ∧ c.ch.state = .ended := by
    intro hw0 hstores0
    obtain ⟨huncut, c, hc, hptr, hstate⟩ := h.woken req own signaller hw0 hstores0
    refine ⟨fun hmem => ?_, c, step_calls hclean.chan hs hc, hptr, hstate⟩
    rcases List.mem_append.mp hmem with hmem | hmem
    · exact huncut hmem
    · exact not_ended_of_mem_errored hclean.chan hmem ⟨c, hc, hptr, by rw [hstate]; rfl⟩
  rcases step_turn hclean.chan hs with ⟨payload, error, rfl, rfl⟩ | ⟨-, ht⟩
  · rw [(after_log hclean.chan payload error).2.2] at hstores
    cases ht : s.target payload with
    | none =>
      rw [Sys.after, process_none ht] at hw
      exact hkeep hw hstores
    | some ch =>
      obtain ⟨hget, -, hcalls, heff, -⟩ := packet_spec hclean.chan.table ht error
      rcases heff.thread with hthread | ⟨c, hc, req', own', hcb, hfinal, hwait, hwoken⟩
      · exact hkeep (hthread.symm.trans hw) hstores
      · cases hw.symm.trans hwoken
        have hcallsOn : s.callsOn payload error = (ch.receive (payload.drop 2) error).1 := by
          rw [Sys.callsOn, ht]
        have hon : On ch c := mem_receive (hcallsOn ▸ hc)
        have hown : ch.ptr = own := hon.ptr.symm.trans <|
          (hok.1 c hc).closing (hon.callback ▸ hcb) hfinal req own hwait hstores
        subst hown
        cases error with
        | true =>
          exact absurd hstores
            (hok.2 ch.ptr (mem_errored.mpr ⟨payload, ch, rfl, ht, rfl⟩) req hwait)
        | false =>
          have hopen : ch.state.final = false :=
            h.live req ch.ptr (by rw [hwait]; rfl) ch hget
          have hstate := ended_of_receive hopen (hcallsOn ▸ hc) hfinal
          refine ⟨fun hmem => ?_, c, hcalls ▸ List.mem_append_right _ hc, hon.ptr, hstate⟩
          rcases List.mem_append.mp hmem with hmem | hmem
          · exact not_ended_target hclean.chan ht (h.closed ch.ptr hmem)
          · cases hmem
  · obtain ⟨hw0, huse⟩ := ht.woken hw
    exact hkeep hw0 (huse ▸ hstores)

theorem Whole.step_stored (hclean : Clean Stores s) (h : Whole s errors)
    (hs : step inflate s e = some s') : ∀ x ∈ s'.ds.cache, x.req.plainFile = true →
      Complete s' (errors ++ errored s e) x := by
  intro x hx hfile
  have hold : x ∈ s.ds.cache → Complete s' (errors ++ errored s e) x := fun hx =>
    (h.stored x hx hfile).step hclean.chan hs
  rcases step_turn hclean.chan hs with ⟨payload, error, rfl, rfl⟩ | ⟨-, ht⟩
  · exact hold ((after_log hclean.chan payload error).2.1 ▸ hx)
  · rcases ht.cache with hcache | ⟨req, own, sig, data, key, content, hw, hr, hkey, hcontent, hcache⟩
    · exact hold (hcache ▸ hx)
    · rcases List.mem_cons.mp (hcache ▸ hx) with rfl | hx
      · have hstores : Stores s.ds.useCache req := ⟨hfile, by rw [hkey]; exact nofun⟩
        obtain ⟨-, -, hhanded⟩ := hclean.handed hw hr hstores
        obtain ⟨huncut, c, hc, hptr, hstate⟩ := h.woken req own sig hw hstores
        have hend : Ended s own := ⟨c, hc, hptr, by rw [hstate]; rfl⟩
        obtain ⟨-, hdata⟩ := step_reply_of_ended hclean.chan hs hend
        have hplain : content = data ++ req.terminator := by
          cases req <;> cases hfile <;> exact (Option.some.inj hcontent).symm
        refine ⟨cacheKey_of_storeKey hkey, ⟨c, step_calls hclean.chan hs hc, hptr, hstate⟩, ?_, ?_⟩
        · intro hmem
          rcases List.mem_append.mp hmem with hmem | hmem
          · exact huncut hmem
          · exact not_ended_of_mem_errored hclean.chan hmem hend
        · show content = _
          rw [hplain, hhanded, Sys.reply, Sys.reply, hdata]
      · exact hold hx

theorem Whole.step_cached (hinv : s.Inv) (h : Whole s errors) (hs : step inflate s e = some s') :
    ∀ req data, (req, .cached data) ∈ s'.ds.log →
      ∃ x ∈ s'.ds.cache, req.cacheKey = some x.key ∧ x.data = data := by
  intro req data hlog
  rcases step_turn hinv hs with ⟨payload, error, rfl, rfl⟩ | ⟨-, ht⟩
  · obtain ⟨hlog', hcache, -⟩ := after_log hinv payload error
    rw [hcache]
    exact h.cached req data (hlog' ▸ hlog)
  · have hgrow : ∀ x ∈ s.ds.cache, x ∈ s'.ds.cache := by
      intro x hx
      rcases ht.cache with hcache | ⟨_, _, _, _, _, _, _, _, _, _, hcache⟩
      · exact hcache ▸ hx
      · exact hcache ▸ List.mem_cons_of_mem _ hx
    obtain ⟨x, hx, hfound⟩ : ∃ x ∈ s.ds.cache, req.cacheKey = some x.key ∧ x.data = data := by
      rcases ht.log hlog with hlog | ⟨_, hx, hhit⟩ | hx | ⟨_, hx⟩ | ⟨_, _, _, _, _, hx⟩
      · exact h.cached req data hlog
      · cases hx
        exact hit_mem hhit
      · cases hx
      · cases hx
      · cases hx
    exact ⟨x, hgrow x hx, hfound⟩

theorem step_whole (hclean : Clean Stores s) (h : Whole s errors) (hok : Uncut s e)
    (hs : step inflate s e = some s') : Whole s' (errors ++ errored s e) where
  stored := h.step_stored hclean hs
  cached := h.step_cached hclean.chan hs
  closed := h.step_closed hclean.chan hs
  live := h.step_live hclean.toBase hs
  woken := h.step_woken hclean hok hs

end

/-! ## Whole runs -/

/-- **Integrity**: in a run where the channel of no request that will store its
reply is closed by an error during the wait, and none meets the data or the END
of another channel, what is stored is the complete reply to a request for the
key. -/
theorem sound_of_uncut {useCache : Bool} {es : List Event} {s : Sys}
    (hok : AllSteps (step inflate) Uncut (Sys.init useCache) es)
    (hrun : exec (step inflate) (Sys.init useCache) es = some s) :
    Sound s (outputs (step inflate) errored (Sys.init useCache) es) := by
  have hstep : ∀ s e s' acc, Clean Stores s ∧ Whole s acc → Uncut s e →
      step inflate s e = some s' → Clean Stores s' ∧ Whole s' (acc ++ errored s e) :=
    fun _ _ _ _ h ho hs => ⟨step_clean h.1 ho.1 hs, step_whole h.1 h.2 ho hs⟩
  have hrun' := exec_inv_outputs hstep ⟨clean_init useCache, whole_init useCache⟩ hok hrun
  exact hrun'.2.toSound

/-- The client asks for an image with the cache on. -/
def imageAsked : Sys := (exec (step fun _ => none) (Sys.init true) askImage).getD (Sys.init true)

/-- The header phase of the reply is over. -/
def imageBegun : Sys := { imageAsked with world := imageAsked.world.setState 0 .data }

theorem step_imageAsked :
    step (fun _ => none) imageAsked (.packet [0, 0, 0, 0] false) = some imageBegun ∧
      imageAsked.callsOn [0, 0, 0, 0] false = [] := by
  obtain ⟨ch, hfind, hstate, hptr⟩ : ∃ ch,
      channelById imageAsked.world.table (ntohs 0 0) = some ch ∧ ch.state = .header ∧ ch.ptr = 0 :=
    ⟨_, rfl, rfl, rfl⟩
  have hon : imageAsked.ds.thread ≠ .off := nofun
  obtain ⟨hstep, hcalls⟩ := @step_terminator (fun _ => none) _ hon _ _ ch hfind hstate
  rw [hptr] at hstep
  exact ⟨hstep, hcalls⟩

theorem exec_askImage : exec (step fun _ => none) (Sys.init true) askImage = some imageAsked := rfl

theorem exec_imageBegun (es : List Event) :
    exec (step fun _ => none) (Sys.init true) (askImage ++ .packet [0, 0, 0, 0] false :: es) =
      exec (step fun _ => none) imageBegun es := by
  rw [exec_append, exec_askImage]
  show exec (step fun _ => none) imageAsked (.packet [0, 0, 0, 0] false :: es) = _
  rw [exec_cons, step_imageAsked.1]
  rfl

/-- One byte comes, and the END; the image is asked for again. -/
def wholeImage : List Event :=
  [.packet [0, 0, 1] false, .packet [0, 0] false, .finish, .begin (.getImage [97])]

theorem sound_of_uncut_image : ∃ s,
    exec (step fun _ => none) (Sys.init true)
        (askImage ++ .packet [0, 0, 0, 0] false :: wholeImage) = some s ∧
      s.ds.log = [(.getImage [97], .cached [1]), (.getImage [97], .replied 0 0 [1])] ∧
      Sound s (outputs (step fun _ => none) errored (Sys.init true)
        (askImage ++ .packet [0, 0, 0, 0] false :: wholeImage)) := by
  have hrun := exec_imageBegun wholeImage
  have hok : AllSteps (step fun _ => none) Uncut (Sys.init true)
      (askImage ++ .packet [0, 0, 0, 0] false :: wholeImage) := by
    have hask : AllSteps (step fun _ => none) Uncut (Sys.init true) askImage := by
      refine .cons ⟨trivial, nofun⟩ rfl (.cons ⟨trivial, nofun⟩ rfl ?_)
      refine .cons ⟨trivial, nofun⟩ rfl (.cons ⟨trivial, nofun⟩ rfl ?_)
      exact .cons ⟨trivial, nofun⟩ rfl (.cons ⟨trivial, nofun⟩ rfl trivial)
    refine hask.append exec_askImage (.cons ?_ step_imageAsked.1 (.cons ?_ rfl (.cons ?_ rfl ?_)))
    · refine ⟨fun c hc => ?_, nofun⟩
      rw [step_imageAsked.2] at hc
      cases hc
    · refine ⟨fun c hc => ?_, nofun⟩
      cases List.mem_singleton.mp hc
      refine ⟨nofun, fun _ _ => ⟨_, rfl⟩, fun _ _ req hr _ => ?_, nofun⟩
      cases hr
      rfl
    · refine ⟨fun c hc => ?_, nofun⟩
      cases List.mem_singleton.mp hc
      refine ⟨fun _ _ req own ht _ => ?_, nofun, nofun, nofun⟩
      cases ht
      rfl
    · exact .cons ⟨trivial, nofun⟩ rfl (.cons ⟨trivial, nofun⟩ rfl trivial)
  exact ⟨_, hrun, rfl, sound_of_uncut hok hrun⟩

/-- One byte comes, and an ERROR; the image is asked for again. -/
def cutShort : List Event :=
  [.packet [0, 0, 1] false, .packet [0, 0, 0] true, .finish, .begin (.getImage [97])]

/-- The one byte is stored, and served from the cache as the image. -/
theorem cutShort_cached : ∃ s,
    exec (step fun _ => none) (Sys.init true)
        (askImage ++ .packet [0, 0, 0, 0] false :: cutShort) = some s ∧
      s.ds.log = [(.getImage [97], .cached [1]), (.getImage [97], .replied 0 0 [1])] ∧
      s.ds.cache = [⟨[97], [1], .getImage [97], 0⟩] ∧ ∀ errors, ¬ Sound s errors := by
  refine ⟨_, exec_imageBegun cutShort, rfl, rfl, fun errors h => ?_⟩
  obtain ⟨c, hc, -, hstate⟩ := (h.stored _ List.mem_cons_self rfl).ended
  rcases List.mem_cons.mp hc with rfl | hc
  · cases hstate
  · rw [List.mem_singleton.mp hc] at hstate
    cases hstate

end Despotify.Sync

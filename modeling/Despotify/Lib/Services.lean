import Despotify.Lib.Edit
import Despotify.Pool.Selection
import Mathlib.Data.List.TakeWhile
import Mathlib.Data.Nat.Basic
import Mathlib.Algebra.GroupWithZero.Nat

/-!
# The list of services

`dns_srv_list` of `lib/dns.c` writes the service records into a string, those of the lowest
priority first; the loop of `session_connect` in `lib/session.c` reads such a string.  The
writer takes 65535 for the mark of a record it has written, and pads the port of the first
record only; the reader steps over five digits.

    every record is tried once, in order, up to the end of the string

      iff  there is at most one record or every priority is below 65535,
           no host is empty, and
           all ports but that of the first record have five digits       (serviceLists_iff)

`none`: memory is read that was freed, or behind the end of the string, or the host does not
fit its array.
-/

namespace Despotify.Services

open Lib Gateway

/-! ## The writer -/

/-- A record of the answer; `dn_expand` writes the host to an array of 1024. -/
structure Srv where
  host : CString
  prio : UInt16
  port : UInt16
  noColon : 58 ∉ host
  short : host.length < 1024

/-- `%05d` -/
def padded5 (n : Nat) : CString := List.replicate (5 - (decimal n).length) 48 ++ decimal n

/-- What is printed of a record, the first one in the format `"%s:%05d\n"`, the others in
`"%s:%d\n"`. -/
def Srv.entry (i : Nat) (srv : Srv) : CString :=
  srv.host ++ [58] ++ (if i = 0 then padded5 srv.port.toNat else decimal srv.port.toNat) ++ [10]

/-- The variables of the loop; `freed` are the hosts that have been freed. -/
structure Pick where
  svrPrio : Nat → Nat
  freed : List Nat
  lowestPrio : Nat
  svrList : Option CString

/-- The body of the loop. -/
def pick (svr : List Srv) (p : Pick) (i : Nat) : Option Pick :=
  let lowestPrio := Selection.lowest p.svrPrio svr.length p.lowestPrio
  if lowestPrio ∈ p.freed then none
  else svr[lowestPrio]?.map fun srv =>
    { svrPrio := Function.update p.svrPrio lowestPrio 65535
      freed := p.freed ++ [lowestPrio]
      lowestPrio := lowestPrio
      svrList := some (p.svrList.getD [] ++ srv.entry i) }

def prioOf (svr : List Srv) (j : Nat) : Nat := (svr[j]?.map fun srv => srv.prio.toNat).getD 0

/-- `dns_srv_list`, from the records it has read; `some none` is `NULL`. -/
def dnsSrvList (svr : List Srv) : Option (Option CString) :=
  ((List.range svr.length).foldlM (pick svr) ⟨prioOf svr, [], 0, none⟩).map Pick.svrList

/-! ## The reader -/

/-- Why the loop ends. -/
inductive Stop
  /-- at the end of the string -/
  | exhausted
  /-- `sscanf` does not find two fields -/
  | failed
  | connected
  deriving DecidableEq, Repr

/-- `sscanf (service, "%[^:]:%5s\n", host, port)`, when it converts both. -/
def scanService (service : CString) : Option (CString × CString) :=
  let host := service.takeWhile (· ≠ 58)
  match service.drop host.length with
  | 58 :: rest =>
    let port := ((rest.dropWhile isspace).take 5).takeWhile (!isspace ·)
    if host = [] ∨ port = [] then none else some (host, port)
  | _ => none

/-- The loop of `session_connect`: the services it tries, and why it ends. -/
def connectLoop (connects : CString → CString → Bool) (list : CString) (service : Nat) :
    Option (List (CString × CString) × Stop) :=
  if service = list.length then some ([], .exhausted)
  else if list.length < service then none
  else if 1025 < ((list.drop service).takeWhile (· ≠ 58)).length then none
  else match scanService (list.drop service) with
    | none => some ([], .failed)
    | some (host, port) =>
      if connects host port then some ([(host, port)], .connected)
      else (connectLoop connects list (service + host.length + 7)).map fun (tried, stop) =>
        ((host, port) :: tried, stop)
termination_by list.length - service

/-- The list when there is no answer. -/
def fallbackList : CString := ascii "a6.spotify.com:4070\n"

/-! ## The law -/

/-- Walking the string tries these services and stops at its end. -/
def Tries (list : CString) (services : List (CString × Int)) : Prop :=
  ∃ tried, connectLoop (fun _ _ => false) list 0 = some (tried, .exhausted) ∧
    tried.map (fun service => (service.1, atoi service.2)) = services

/-- Every record is tried once, in the order of the priorities. -/
def Agrees (svr : List Srv) : Prop :=
  match dnsSrvList svr with
  | none => False
  | some none => svr = []
  | some (some list) => ∃ order : List Srv, order.Perm svr ∧
      order.Pairwise (fun a b => a.prio ≤ b.prio) ∧
      Tries list (order.map fun srv => (srv.host, (srv.port.toNat : Int)))

/-! ## Ports -/

theorem isdigit_decimal {n : Nat} {d : UInt8} (hd : d ∈ decimal n) : isdigit d = true := by
  obtain ⟨c, hc, rfl⟩ := List.mem_map.mp hd
  have hdigit := Nat.isDigit_of_mem_toDigits (by decide) (by decide) hc
  simp only [Char.isDigit, Bool.and_eq_true, decide_eq_true_eq, ge_iff_le] at hdigit
  obtain ⟨hge, hle⟩ := hdigit
  have hge : 48 ≤ c.toNat := hge
  have hle : c.toNat ≤ 57 := hle
  simp only [isdigit, Bool.and_eq_true, decide_eq_true_eq, UInt8.le_iff_toNat_le,
    UInt8.toNat_ofNat']
  have h48 : (48 : UInt8).toNat = 48 := rfl
  have h57 : (57 : UInt8).toNat = 57 := rfl
  omega

theorem isdigit_padded5 {n : Nat} {d : UInt8} (hd : d ∈ padded5 n) : isdigit d = true := by
  rcases List.mem_append.mp hd with hd | hd
  · rw [List.eq_of_mem_replicate hd]
    rfl
  · exact isdigit_decimal hd

theorem isspace_of_isdigit {d : UInt8} (h : isdigit d = true) : isspace d = false := by
  simp only [isdigit, Bool.and_eq_true, decide_eq_true_eq, UInt8.le_iff_toNat_le] at h
  simp only [isspace, Bool.or_eq_false_iff, decide_eq_false_iff_not, Bool.and_eq_false_iff,
    UInt8.le_iff_toNat_le, ← UInt8.toNat_inj]
  have h48 : (48 : UInt8).toNat = 48 := rfl
  have h32 : (32 : UInt8).toNat = 32 := rfl
  have h9 : (9 : UInt8).toNat = 9 := rfl
  have h13 : (13 : UInt8).toNat = 13 := rfl
  omega

theorem length_decimal_le (port : UInt16) : (decimal port.toNat).length ≤ 5 := by
  have hport := port.toNat_lt
  rw [decimal, List.length_map, Nat.length_toDigits_le_iff (by decide) (by decide)]
  omega

/-- Five digits. -/
theorem length_decimal_eq_iff (port : UInt16) :
    (decimal port.toNat).length = 5 ↔ 10000 ≤ port.toNat := by
  have hle := length_decimal_le port
  have hfour : (decimal port.toNat).length ≤ 4 ↔ port.toNat < 10 ^ 4 := by
    rw [decimal, List.length_map, Nat.length_toDigits_le_iff (by decide) (by decide)]
  omega

theorem length_padded5 (port : UInt16) : (padded5 port.toNat).length = 5 := by
  have hle := length_decimal_le port
  rw [padded5, List.length_append, List.length_replicate]
  omega

theorem foldl_digits {l : List Char} (hl : ∀ c ∈ l, c.isDigit) (init : Nat) :
    (l.map fun c => UInt8.ofNat c.toNat).foldl (fun n d => 10 * n + (d.toNat - 48)) init =
      Nat.ofDigitChars 10 l init := by
  induction l generalizing init with
  | nil => rfl
  | cons c l ih =>
    have hc := hl c List.mem_cons_self
    simp only [Char.isDigit, Bool.and_eq_true, decide_eq_true_eq] at hc
    have hle : c.toNat ≤ 57 := hc.2
    have hbyte : (UInt8.ofNat c.toNat).toNat = c.toNat := by
      rw [UInt8.toNat_ofNat']
      omega
    rw [List.map_cons, List.foldl_cons, hbyte, ih fun c hc => hl c (List.mem_cons_of_mem _ hc),
      Nat.ofDigitChars_cons]
    rfl

theorem foldl_zeros (k : Nat) :
    (List.replicate k (48 : UInt8)).foldl (fun n d => 10 * n + (d.toNat - 48)) 0 = 0 := by
  induction k with
  | zero => rfl
  | succ k ih => rwa [List.replicate_succ, List.foldl_cons]

/-- The digits, read back. -/
theorem atoi_padded5 (port : UInt16) : atoi (padded5 port.toNat) = port.toNat := by
  have hport := port.toNat_lt
  have hmem : ∀ d ∈ padded5 port.toNat, isdigit d = true := fun d hd => isdigit_padded5 hd
  have hvalue : (padded5 port.toNat).foldl (fun n d => 10 * n + (d.toNat - 48)) 0 =
      port.toNat := by
    rw [padded5, List.foldl_append, foldl_zeros, decimal, foldl_digits fun c hc =>
      Nat.isDigit_of_mem_toDigits (by decide) (by decide) hc]
    exact Nat.ofDigitChars_toDigits (by decide) (by decide)
  obtain ⟨d, ds, hcons⟩ : ∃ d ds, padded5 port.toNat = d :: ds := by
    match h : padded5 port.toNat with
    | [] =>
      have hlen := length_padded5 port
      rw [h] at hlen
      cases hlen
    | d :: ds => exact ⟨d, ds, rfl⟩
  have hd : isdigit d = true := hmem d (by rw [hcons]; exact List.mem_cons_self)
  have hspace : (padded5 port.toNat).dropWhile isspace = padded5 port.toNat := by
    rw [hcons, List.dropWhile_cons_of_neg (by rw [isspace_of_isdigit hd]; decide)]
  have hminus : ¬ (padded5 port.toNat).head? = some 45 := by
    rw [hcons, List.head?_cons]
    rintro ⟨⟩
    exact absurd hd (by decide)
  have hplus : ¬ (padded5 port.toNat).head? = some 43 := by
    rw [hcons, List.head?_cons]
    rintro ⟨⟩
    exact absurd hd (by decide)
  simp only [atoi, hspace, if_neg (not_or.mpr ⟨hminus, hplus⟩)]
  rw [List.takeWhile_eq_self_iff.mpr hmem, decide_eq_false hminus, strtol, hvalue]
  simp only [Bool.false_eq_true, if_false]
  have hmin : min (port.toNat : Int) (2 ^ 63 - 1) = port.toNat := by omega
  rw [hmin, int32, Int.bmod_eq_of_le (by omega) (by omega)]

/-! ## What is written -/

/-- The records of the entries selected. -/
def written (svr : List Srv) (picked : List Nat) : List Srv := picked.filterMap (svr[·]?)

/-- The string of the records in this order. -/
def entries (order : List Srv) : CString := (order.mapIdx fun i srv => srv.entry i).flatten

theorem entries_concat (order : List Srv) (srv : Srv) :
    entries (order ++ [srv]) = entries order ++ srv.entry order.length := by
  rw [entries, entries, List.mapIdx_concat, List.flatten_append, List.flatten_singleton]

theorem length_written {svr : List Srv} {picked : List Nat} (h : ∀ k ∈ picked, k < svr.length) :
    (written svr picked).length = picked.length := by
  induction picked with
  | nil => rfl
  | cons k picked ih =>
    have hk := h k List.mem_cons_self
    have hrest := ih fun k hk => h k (List.mem_cons_of_mem _ hk)
    rw [written, List.filterMap_cons_some (List.getElem?_eq_getElem hk), List.length_cons,
      List.length_cons, ← hrest]
    rfl

theorem written_range (svr : List Srv) : written svr (List.range svr.length) = svr := by
  have hmap : (List.range svr.length).map (svr[·]?) = svr.map some := by
    refine List.ext_getElem (by simp) fun i hi _ => ?_
    simp only [List.length_map, List.length_range] at hi
    simp [hi]
  have hid : written svr (List.range svr.length) =
      ((List.range svr.length).map (svr[·]?)).filterMap id := by
    rw [List.filterMap_map]
    rfl
  rw [hid, hmap, List.filterMap_map]
  exact List.filterMap_some

/-- The loop selects, and writes what it selects. -/
theorem foldlM_pick (svr : List Srv) {i : Nat} (hi : i ≤ svr.length) :
    (List.range i).foldlM (pick svr) ⟨prioOf svr, [], 0, none⟩ =
      (Selection.run 65535 svr.length (prioOf svr) i).map fun s =>
        ⟨s.prio, s.picked, s.low,
          if s.picked = [] then none else some (entries (written svr s.picked))⟩ := by
  induction i with
  | zero => rfl
  | succ i ih =>
    rw [List.range_succ, List.foldlM_append, ih (by omega), Selection.run]
    cases hrun : Selection.run 65535 svr.length (prioOf svr) i with
    | none => rfl
    | some s =>
      have hselected := Selection.run_selected (by omega) hrun
      have hlist : (if s.picked = [] then none else some (entries (written svr s.picked))).getD [] =
          entries (written svr s.picked) := by
        by_cases hnil : s.picked = []
        · rw [if_pos hnil, hnil]
          rfl
        · rw [if_neg hnil]
          rfl
      obtain ⟨k, hk⟩ : ∃ k, k = Selection.lowest s.prio svr.length s.low := ⟨_, rfl⟩
      simp only [Option.map_some, Option.bind_eq_bind, Option.bind_some, List.foldlM_cons,
        List.foldlM_nil, pick, Selection.step, hlist, ← hk]
      by_cases hmem : k ∈ s.picked
      · rw [if_pos hmem, if_pos hmem]
        rfl
      · rw [if_neg hmem, if_neg hmem]
        have hstep : Selection.step 65535 svr.length s =
            some ⟨Function.update s.prio k 65535, k, s.picked ++ [k]⟩ := by
          rw [Selection.step, ← hk]
          exact if_neg hmem
        have hlt : k < svr.length := (hselected.step (by omega) hstep).lt k
          (List.mem_append_right _ (List.mem_singleton_self k))
        have hrecords : written svr (s.picked ++ [k]) = written svr s.picked ++ [svr[k]] := by
          rw [written, List.filterMap_append, List.filterMap_cons_some
            (List.getElem?_eq_getElem hlt)]
          rfl
        have hne : s.picked ++ [k] ≠ [] :=
          List.append_ne_nil_of_right_ne_nil _ (List.cons_ne_nil _ _)
        simp only [List.getElem?_eq_getElem hlt, Option.map_some, if_neg hne, hrecords,
          entries_concat, length_written hselected.lt, hselected.length]
        rfl

theorem dnsSrvList_eq (svr : List Srv) : dnsSrvList svr =
    (Selection.run 65535 svr.length (prioOf svr) svr.length).map fun s =>
      if s.picked = [] then none else some (entries (written svr s.picked)) := by
  rw [dnsSrvList, foldlM_pick svr (Nat.le_refl _), Option.map_map]
  rfl

/-! ## What is read -/

theorem scanService_host {service host port : CString}
    (h : scanService service = some (host, port)) : host ≠ [] := by
  simp only [scanService] at h
  split at h
  · split at h
    · cases h
    · cases h
      exact fun hnil => ‹¬ _› (Or.inl hnil)
  · cases h

theorem entry_append (srv : Srv) (rest : CString) :
    srv.entry 0 ++ rest = srv.host ++ 58 :: (padded5 srv.port.toNat ++ 10 :: rest) := by
  rw [Srv.entry, if_pos rfl]
  simp

theorem takeWhile_entry (srv : Srv) (rest : CString) :
    (srv.entry 0 ++ rest).takeWhile (· ≠ 58) = srv.host := by
  have hhost : ∀ c ∈ srv.host, decide (c ≠ 58) = true :=
    fun c hc => decide_eq_true fun heq => srv.noColon (heq ▸ hc)
  rw [entry_append, List.takeWhile_append_of_pos hhost, List.takeWhile_cons_of_neg (by simp),
    List.append_nil]

/-- A record with five digits, read back. -/
theorem scanService_entry {srv : Srv} (hhost : srv.host ≠ []) (rest : CString) :
    scanService (srv.entry 0 ++ rest) = some (srv.host, padded5 srv.port.toNat) := by
  have hlen := length_padded5 srv.port
  have hport : padded5 srv.port.toNat ≠ [] := fun h => by
    rw [h] at hlen
    cases hlen
  have hdigits : ∀ d ∈ padded5 srv.port.toNat, (!isspace d) = true := fun d hd => by
    rw [isspace_of_isdigit (isdigit_padded5 hd)]
    rfl
  have hspace : (padded5 srv.port.toNat ++ 10 :: rest).dropWhile isspace =
      padded5 srv.port.toNat ++ 10 :: rest := by
    obtain ⟨d, ds, hcons⟩ := List.exists_cons_of_ne_nil hport
    have hd := isspace_of_isdigit (isdigit_padded5 (hcons ▸ List.mem_cons_self))
    rw [hcons, List.cons_append, List.dropWhile_cons_of_neg (by rw [hd]; decide)]
  have hdrop : (srv.entry 0 ++ rest).drop srv.host.length =
      58 :: (padded5 srv.port.toNat ++ 10 :: rest) := by
    rw [entry_append, List.drop_left]
  rw [scanService]
  simp only [takeWhile_entry, hdrop, hspace]
  rw [List.take_left' hlen, List.takeWhile_eq_self_iff.mpr hdigits,
    if_neg (not_or.mpr ⟨hhost, hport⟩)]

theorem length_entry_zero (srv : Srv) : (srv.entry 0).length = srv.host.length + 7 := by
  rw [Srv.entry, if_pos rfl]
  simp only [List.length_append, List.length_singleton, length_padded5]

/-- **The walk** over records with five digits tries each, and stops at the end. -/
theorem connectLoop_entries {order : List Srv} (hhost : ∀ srv ∈ order, srv.host ≠ [])
    (front : CString) :
    connectLoop (fun _ _ => false) (front ++ (order.map (Srv.entry 0)).flatten) front.length =
      some (order.map fun srv => (srv.host, padded5 srv.port.toNat), .exhausted) := by
  induction order generalizing front with
  | nil =>
    rw [connectLoop, if_pos (by simp)]
    rfl
  | cons srv order ih =>
    have hsrv := hhost srv List.mem_cons_self
    have hnext :=
      ih (fun srv hsrv => hhost srv (List.mem_cons_of_mem _ hsrv)) (front ++ srv.entry 0)
    rw [List.append_assoc, List.length_append, length_entry_zero, ← Nat.add_assoc] at hnext
    rw [List.map_cons, List.flatten_cons]
    obtain ⟨rest, hrest⟩ : ∃ rest, rest = (order.map (Srv.entry 0)).flatten := ⟨_, rfl⟩
    rw [← hrest] at hnext ⊢
    have hlen : (front ++ (srv.entry 0 ++ rest)).length =
        front.length + (srv.host.length + 7) + rest.length := by
      rw [List.length_append, List.length_append, length_entry_zero]
      omega
    have hscan := scanService_entry hsrv rest
    have hfits : ((srv.entry 0 ++ rest).takeWhile (· ≠ 58)).length ≤ 1025 := by
      rw [takeWhile_entry]
      exact srv.short.le.trans (by omega)
    rw [connectLoop, if_neg (by omega), if_neg (by omega), List.drop_left, if_neg (by omega), hscan]
    simp only [Bool.false_eq_true, if_false, hnext]
    rfl

/-- A walk up to the end of the string steps over all of it. -/
theorem connectLoop_sum {connects : CString → CString → Bool} {list : CString} {service : Nat}
    {tried : List (CString × CString)}
    (h : connectLoop connects list service = some (tried, .exhausted)) :
    service + (tried.map fun v => v.1.length + 7).sum = list.length ∧ ∀ v ∈ tried, v.1 ≠ [] := by
  fun_induction connectLoop connects list service generalizing tried with
  | case1 =>
    cases h
    exact ⟨rfl, nofun⟩
  | case2 => cases h
  | case3 => cases h
  | case4 => cases h
  | case5 => cases h
  | case6 service _ _ _ host port hscan _ ih =>
    obtain ⟨⟨tried', stop⟩, hrest, heq⟩ := Option.map_eq_some_iff.mp h
    cases heq
    obtain ⟨hsum, hall⟩ := ih hrest
    have hhost : host ≠ [] := scanService_host hscan
    refine ⟨?_, ?_⟩
    · rw [List.map_cons, List.sum_cons]
      show service + (host.length + 7 + _) = _
      omega
    · intro v hv
      rcases List.mem_cons.mp hv with rfl | hv
      · exact hhost
      · exact hall v hv

/-! ## When they agree -/

/-- The records that are tried once, in order. -/
structure Readable (svr : List Srv) : Prop where
  prio : svr.length ≤ 1 ∨ ∀ srv ∈ svr, srv.prio.toNat < 65535
  host : ∀ srv ∈ svr, srv.host ≠ []
  /-- the ports of all records but the first of the lowest priority -/
  port : ∀ i j (hj : j < svr.length), Selection.IsFirst (prioOf svr) svr.length i → j ≠ i →
    10000 ≤ svr[j].port.toNat

theorem prioOf_eq {svr : List Srv} {j : Nat} {srv : Srv} (h : svr[j]? = some srv) :
    prioOf svr j = srv.prio.toNat := by
  rw [prioOf, h]
  rfl

theorem prio_iff (svr : List Srv) : (∀ srv ∈ svr, srv.prio.toNat < 65535) ↔
    ∀ j < svr.length, prioOf svr j < 65535 := by
  constructor
  · intro h j hj
    rw [prioOf_eq (List.getElem?_eq_getElem hj)]
    exact h _ (List.getElem_mem hj)
  · intro h srv hsrv
    obtain ⟨j, hj, rfl⟩ := List.getElem_of_mem hsrv
    rw [← prioOf_eq (List.getElem?_eq_getElem hj)]
    exact h j hj

section
variable {svr : List Srv} {s : Selection.Marked Nat}

theorem written_perm (h : Selection.Selected 65535 svr.length (prioOf svr) svr.length s) :
    (written svr s.picked).Perm svr := by
  have hperm : (written svr s.picked).Perm (written svr (List.range svr.length)) :=
    h.perm.filterMap _
  rwa [written_range] at hperm

theorem written_sorted (h : Selection.Selected 65535 svr.length (prioOf svr) svr.length s) :
    (written svr s.picked).Pairwise fun a b => a.prio ≤ b.prio := by
  rw [written, List.pairwise_filterMap]
  refine h.sorted.imp fun {j k} hle a ha b hb => ?_
  rw [prioOf_eq ha, prioOf_eq hb] at hle
  exact UInt16.le_iff_toNat_le.mpr hle

end

/-- Of sums that are not less, all entries are equal. -/
theorem eq_of_sum_le {α : Type} {f g : α → Nat} {l : List α} (hle : ∀ a ∈ l, f a ≤ g a)
    (h : (l.map g).sum ≤ (l.map f).sum) : ∀ a ∈ l, f a = g a := by
  induction l with
  | nil => exact nofun
  | cons a l ih =>
    have ha := hle a List.mem_cons_self
    rw [List.map_cons, List.map_cons, List.sum_cons, List.sum_cons] at h
    have hrest := ih (fun b hb => hle b (List.mem_cons_of_mem _ hb)) (by omega)
    have hsum : (l.map f).sum = (l.map g).sum := by rw [List.map_congr_left hrest]
    intro b hb
    rcases List.mem_cons.mp hb with rfl | hb
    · omega
    · exact hrest b hb

theorem entries_cons (srv : Srv) (order : List Srv) : entries (srv :: order) =
    srv.entry 0 ++ (order.map (Srv.entry 1)).flatten := by
  have htail : order.mapIdx (fun i srv => srv.entry (i + 1)) = order.map (Srv.entry 1) := by
    refine List.ext_getElem (by simp) fun i _ _ => ?_
    simp [Srv.entry]
  rw [entries, List.mapIdx_cons, htail, List.flatten_cons]

/-- The entry selected first, and the records of the others. -/
theorem written_cons {svr : List Srv} {k : Nat} {picked : List Nat} (hk : k < svr.length) :
    written svr (k :: picked) = svr[k] :: written svr picked :=
  List.filterMap_cons_some (List.getElem?_eq_getElem hk)

section
variable {svr : List Srv} {s : Selection.Marked Nat} {k : Nat} {ks : List Nat}

/-- The records behind the first one are those at other places. -/
theorem mem_written_iff (h : Selection.Selected 65535 svr.length (prioOf svr) svr.length s)
    (hpicked : s.picked = k :: ks) {j : Nat} : j ∈ ks ↔ j < svr.length ∧ j ≠ k := by
  have hnodup := h.nodup
  rw [hpicked, List.nodup_cons] at hnodup
  have hmem : j ∈ s.picked ↔ j < svr.length := h.perm.mem_iff.trans List.mem_range
  rw [hpicked, List.mem_cons] at hmem
  constructor
  · intro hj
    exact ⟨hmem.mp (Or.inr hj), fun heq => hnodup.1 (heq ▸ hj)⟩
  · rintro ⟨hlt, hne⟩
    exact (hmem.mpr hlt).resolve_left hne

theorem readable_port_iff (h : Selection.Selected 65535 svr.length (prioOf svr) svr.length s)
    (hpicked : s.picked = k :: ks) :
    (∀ i j (hj : j < svr.length), Selection.IsFirst (prioOf svr) svr.length i → j ≠ i →
      10000 ≤ svr[j].port.toNat) ↔ ∀ srv ∈ written svr ks, 10000 ≤ srv.port.toNat := by
  have hfirst : Selection.IsFirst (prioOf svr) svr.length k := h.first k (by rw [hpicked]; rfl)
  constructor
  · intro hports srv hsrv
    obtain ⟨j, hj, hget⟩ := List.mem_filterMap.mp hsrv
    obtain ⟨hlt, hne⟩ := (mem_written_iff h hpicked).mp hj
    rw [List.getElem?_eq_getElem hlt] at hget
    cases hget
    exact hports k j hlt hfirst hne
  · intro hports i j hj hi hne
    refine hports _ (List.mem_filterMap.mpr ⟨j, ?_, List.getElem?_eq_getElem hj⟩)
    rw [mem_written_iff h hpicked, hfirst.unique hi]
    exact ⟨hj, hne⟩

end

/-- **A walk that tries the records** steps over five digits in each. -/
theorem ports_of_tries {first : Srv} {rest : List Srv} {order : List Srv}
    (hperm : order.Perm (first :: rest))
    (h : Tries (entries (first :: rest)) (order.map fun srv => (srv.host, (srv.port.toNat : Int)))) :
    (∀ srv ∈ first :: rest, srv.host ≠ []) ∧ ∀ srv ∈ rest, 10000 ≤ srv.port.toNat := by
  obtain ⟨tried, hwalk, htried⟩ := h
  obtain ⟨hsum, hhosts⟩ := connectLoop_sum hwalk
  have hhost : tried.map Prod.fst = order.map Srv.host := by
    have hmap := congrArg (List.map Prod.fst) htried
    rwa [List.map_map, List.map_map] at hmap
  refine ⟨fun srv hsrv => ?_, ?_⟩
  · have hmem : srv.host ∈ tried.map Prod.fst := by
      rw [hhost]
      exact List.mem_map_of_mem (hperm.mem_iff.mpr hsrv)
    obtain ⟨v, hv, heq⟩ := List.mem_map.mp hmem
    rw [← heq]
    exact hhosts v hv
  · -- the steps of the walk, and the records
    have hsteps : (tried.map fun v => v.1.length + 7).sum =
        ((first :: rest).map fun srv => srv.host.length + 7).sum := by
      have hmap : tried.map (fun v => v.1.length + 7) =
          (order.map Srv.host).map fun host => host.length + 7 := by
        rw [← hhost, List.map_map]
        rfl
      rw [hmap, List.map_map]
      exact (hperm.map _).sum_nat
    have hlength : (entries (first :: rest)).length =
        first.host.length + 7 + (rest.map fun srv => (srv.entry 1).length).sum := by
      rw [entries_cons, List.length_append, length_entry_zero, List.length_flatten, List.map_map]
      rfl
    have hentry : ∀ srv : Srv,
        (srv.entry 1).length = srv.host.length + 2 + (decimal srv.port.toNat).length := by
      intro srv
      simp only [Srv.entry, List.length_append, List.length_singleton, if_neg (Nat.one_ne_zero)]
      omega
    rw [hsteps, hlength, List.map_cons, List.sum_cons] at hsum
    have hall := eq_of_sum_le (f := fun srv : Srv => (srv.entry 1).length)
      (g := fun srv => srv.host.length + 7) (l := rest) (fun srv _ => by
        have hle := length_decimal_le srv.port
        show (srv.entry 1).length ≤ srv.host.length + 7
        rw [hentry]
        omega) (by omega)
    intro srv hsrv
    have heq : (srv.entry 1).length = srv.host.length + 7 := hall srv hsrv
    rw [hentry] at heq
    exact (length_decimal_eq_iff srv.port).mp (by omega)

/-- Records with five digits are tried in order. -/
theorem tries_of_ports {first : Srv} {rest : List Srv}
    (hhost : ∀ srv ∈ first :: rest, srv.host ≠ []) (hport : ∀ srv ∈ rest, 10000 ≤ srv.port.toNat) :
    Tries (entries (first :: rest))
      ((first :: rest).map fun srv => (srv.host, (srv.port.toNat : Int))) := by
  have hentries : entries (first :: rest) = ((first :: rest).map (Srv.entry 0)).flatten := by
    have hrest : rest.map (Srv.entry 1) = rest.map (Srv.entry 0) := by
      refine List.map_congr_left fun srv hsrv => ?_
      have hfive := (length_decimal_eq_iff srv.port).mpr (hport srv hsrv)
      have hsame : padded5 srv.port.toNat = decimal srv.port.toNat := by
        rw [padded5, hfive]
        rfl
      rw [Srv.entry, Srv.entry, if_pos rfl, if_neg Nat.one_ne_zero, hsame]
    rw [entries_cons, hrest, List.map_cons, List.flatten_cons]
  have hwalk := connectLoop_entries hhost []
  rw [List.nil_append, List.length_nil, ← hentries] at hwalk
  refine ⟨_, hwalk, ?_⟩
  rw [List.map_map]
  refine List.map_congr_left fun srv _ => ?_
  show (srv.host, atoi (padded5 srv.port.toNat)) = _
  rw [atoi_padded5]

theorem agrees_iff_readable (svr : List Srv) : Agrees svr ↔ Readable svr := by
  have hmark := @Selection.run_isSome_iff Nat _ 65535 svr.length (prioOf svr)
  rw [← prio_iff] at hmark
  unfold Agrees
  rw [dnsSrvList_eq]
  cases hrun : Selection.run 65535 svr.length (prioOf svr) svr.length with
  | none =>
    rw [hrun] at hmark
    refine iff_of_false id fun h => ?_
    exact absurd (hmark.mpr h.prio) Bool.false_ne_true
  | some s =>
    rw [hrun] at hmark
    have hprio := hmark.mp rfl
    have h := Selection.run_selected (Nat.le_refl _) hrun
    have hperm := written_perm h
    match hpicked : s.picked with
    | [] =>
      have hnil : svr = [] := by
        rw [hpicked] at hperm
        exact hperm.nil_eq.symm
      rw [Option.map_some, hpicked, if_pos rfl]
      refine iff_of_true hnil ⟨hprio, ?_, ?_⟩
      · rw [hnil]
        exact nofun
      · rw [hnil]
        exact fun _ _ hj => absurd hj (Nat.not_lt_zero _)
    | k :: ks =>
      have hk : k < svr.length := h.lt k (by rw [hpicked]; exact List.mem_cons_self)
      rw [hpicked, written_cons hk] at hperm
      rw [Option.map_some, hpicked, if_neg (List.cons_ne_nil k ks), written_cons hk]
      constructor
      · rintro ⟨order, horder, -, htries⟩
        obtain ⟨hhost, hport⟩ := ports_of_tries (horder.trans hperm.symm) htries
        exact ⟨hprio, fun srv hsrv => hhost srv (hperm.mem_iff.mpr hsrv),
          (readable_port_iff h hpicked).mpr hport⟩
      · intro hreadable
        have hsorted := written_sorted h
        rw [hpicked, written_cons hk] at hsorted
        exact ⟨_, hperm, hsorted, tries_of_ports
          (fun srv hsrv => hreadable.host srv (hperm.mem_iff.mp hsrv))
          ((readable_port_iff h hpicked).mp hreadable.port)⟩

/-- The list of one service is not walked to its end: its port has four digits. -/
theorem not_tries_fallback : ¬ Tries fallbackList [(ascii "a6.spotify.com", 4070)] := by
  rintro ⟨tried, hwalk, htried⟩
  obtain ⟨hsum, -⟩ := connectLoop_sum hwalk
  have hhost : tried.map Prod.fst = [ascii "a6.spotify.com"] := by
    have hmap := congrArg (List.map Prod.fst) htried
    rwa [List.map_map] at hmap
  have hsteps : (tried.map fun v => v.1.length + 7) =
      [ascii "a6.spotify.com"].map fun host => host.length + 7 := by
    rw [← hhost, List.map_map]
    rfl
  rw [hsteps] at hsum
  revert hsum
  decide +kernel

/-- **Writer and reader** agree on these records, and never on the list for no answer. -/
theorem serviceLists_iff (svr : List Srv) : (Agrees svr ↔ Readable svr) ∧
    ¬ Tries fallbackList [(ascii "a6.spotify.com", 4070)] :=
  ⟨agrees_iff_readable svr, not_tries_fallback⟩

theorem isFirst_zero {prio : Nat → Nat} {n : Nat} (hn : 0 < n) (h : prio 0 = 0) :
    Selection.IsFirst prio n 0 := by
  refine ⟨hn, fun j _ => ?_, fun j hj => absurd hj (Nat.not_lt_zero j)⟩
  rw [h]
  exact Nat.zero_le _

/-- Two records with the port 4070. -/
theorem not_serviceLists : ¬ ∀ svr : List Srv, svr.length ≤ 10 → Agrees svr := by
  intro h
  have hall : ∀ svr : List Srv, svr.length ≤ 10 → Readable svr :=
    fun svr hlen => (agrees_iff_readable svr).mp (h svr hlen)
  let first : Srv := ⟨[97], 0, 4070, by decide, by decide⟩
  let second : Srv := ⟨[98], 0, 4070, by decide, by decide⟩
  have hreadable := hall [first, second] (by decide)
  have hzero : prioOf [first, second] 0 = 0 := @prioOf_eq [first, second] 0 first rfl
  have hport := hreadable.port 0 1 Nat.one_lt_two (isFirst_zero Nat.two_pos hzero) Nat.one_ne_zero
  exact absurd hport (by decide)

end Despotify.Services

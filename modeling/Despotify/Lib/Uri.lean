import Despotify.Lib.Xml
import Despotify.Pool.Radix
import Mathlib.Data.List.GetD

/-!
# Ids and the ids in Spotify URIs

`despotify_id2uri` and `despotify_uri2id` of `lib/despotify.c`: 32 hex digits, and the
same number as 22 digits in base 62.

* `baseconvert_eq`: the fixed number of digits of the number, where they are enough.
* `baseconvert_isSome_iff`: they are enough exactly when the number is below the power.
* `baseconvert_back`: another conversion gives the first string again.
-/

namespace Despotify.Lib

open Gateway Radix

/-! ## `baseconvert` -/

def alphabet : CString := ascii "0123456789abcdefghijklmnopqrstuvwxyzABCDEFGHIJKLMNOPQRSTUVWXYZ+/"

/-- `strchr (alphabet, c) - alphabet`, for a character of it. -/
def digit (c : UInt8) : Nat := alphabet.idxOf c

/-- `alphabet[d]` -/
def character (d : Nat) : UInt8 := alphabet.getD d 0

/-- `do .. while (newlen != 0)`; `none` when it writes before `dest`.  The `len` digits are
in `number`, and `padlen` characters of `dest` are still to be written. -/
def convertLoop (frombase tobase : Nat) : Nat → (Nat → Nat) → Nat → CString → Option CString
  | 0, _, _, _ => none
  | padlen + 1, number, len, dest =>
    let p := pass frombase tobase number len
    let dest := dest.set padlen (character p.divide)
    if p.newlen = 0 then some dest
    else convertLoop frombase tobase padlen p.number p.newlen dest

/-- The characters of the string are looked at, not all there are. -/
instance (priority := 1100) decidableInAlphabet (src : CString) :
    Decidable (∀ c ∈ src, c ∈ alphabet) := List.decidableBAll _ _

/-- `baseconvert`; `none` also when the string does not fit into `number`, or has a character
that is not in the alphabet. -/
def baseconvert (src : CString) (frombase tobase padlen : Nat) : Option CString :=
  if src.length ≤ 128 ∧ ∀ c ∈ src, c ∈ alphabet then
    convertLoop frombase tobase padlen (fun i => (src.map digit).getD i 0) src.length
      (List.replicate padlen (character 0))
  else none

def despotifyId2uri (id : CString) : Option CString := baseconvert id 16 62 22

def despotifyUri2id (uri : CString) : Option CString := baseconvert uri 62 16 32

/-! ## What a string denotes -/

/-- The characters are digits in base `b`. -/
def InBase (b : Nat) (s : CString) : Prop := ∀ c ∈ s, c ∈ alphabet.take b

instance (b : Nat) (s : CString) : Decidable (InBase b s) :=
  inferInstanceAs (Decidable (∀ c ∈ s, c ∈ alphabet.take b))

def denotes (b : Nat) (s : CString) : Nat := value b (s.map digit)

theorem length_alphabet : alphabet.length = 64 := by decide

theorem nodup_alphabet : alphabet.Nodup := by decide

theorem digit_character {d : Nat} (hd : d < 64) : digit (character d) = d := by
  have hlt : d < alphabet.length := length_alphabet ▸ hd
  rw [digit, character, List.getD_eq_getElem _ _ hlt, nodup_alphabet.idxOf_getElem]

theorem character_mem {b d : Nat} (hb : b ≤ 64) (hd : d < b) : character d ∈ alphabet.take b := by
  have hlt : d < alphabet.length := by
    rw [length_alphabet]
    omega
  rw [character, List.getD_eq_getElem _ _ hlt, List.mem_take_iff_getElem]
  exact ⟨d, by omega, rfl⟩

theorem digit_lt {b : Nat} {c : UInt8} (hc : c ∈ alphabet.take b) : digit c < b := by
  obtain ⟨i, hi, rfl⟩ := List.mem_take_iff_getElem.mp hc
  rw [digit, nodup_alphabet.idxOf_getElem]
  omega

theorem character_digit {c : UInt8} (hc : c ∈ alphabet) : character (digit c) = c := by
  have hlt := List.idxOf_lt_length_of_mem hc
  rw [character, digit, List.getD_eq_getElem _ _ hlt, List.getElem_idxOf]

variable {b : Nat} {s : CString}

theorem InBase.mem (hs : InBase b s) : ∀ c ∈ s, c ∈ alphabet :=
  fun c hc => List.mem_of_mem_take (hs c hc)

theorem InBase.mono {b' : Nat} (hs : InBase b s) (hb : b ≤ b') : InBase b' s :=
  fun c hc => List.take_subset_take_left alphabet hb (hs c hc)

theorem InBase.digit_lt (hs : InBase b s) : ∀ d ∈ s.map digit, d < b := by
  intro d hd
  obtain ⟨c, hc, rfl⟩ := List.mem_map.mp hd
  exact Lib.digit_lt (hs c hc)

theorem InBase.denotes_lt (hs : InBase b s) : denotes b s < b ^ s.length := by
  have hlt := value_lt hs.digit_lt
  rwa [List.length_map] at hlt

/-- The string of given digits. -/
def written (ds : List Nat) : CString := ds.map character

theorem map_digit_written {ds : List Nat} (hds : ∀ d ∈ ds, d < 64) :
    (written ds).map digit = ds := by
  rw [written, List.map_map]
  refine (List.map_congr_left fun d hd => ?_).trans (List.map_id ds)
  exact digit_character (hds d hd)

theorem written_map_digit (hs : ∀ c ∈ s, c ∈ alphabet) : written (s.map digit) = s := by
  rw [written, List.map_map]
  refine (List.map_congr_left fun c hc => ?_).trans (List.map_id s)
  exact character_digit (hs c hc)

theorem inBase_written (hb : b ≤ 64) {ds : List Nat} (hds : ∀ d ∈ ds, d < b) :
    InBase b (written ds) := by
  intro c hc
  obtain ⟨d, hd, rfl⟩ := List.mem_map.mp hc
  exact character_mem hb (hds d hd)

/-! ## The conversion -/

variable {frombase tobase padlen : Nat}

/-- The digits that are still to be written. -/
theorem convertLoop_eq (hfrom : 0 < frombase) (hto : 0 < tobase) (number : Nat → Nat) (len : Nat)
    (hpad : 0 < padlen) (hlt : value frombase (upTo number len) < tobase ^ padlen) (w : CString) :
    convertLoop frombase tobase padlen number len (List.replicate padlen (character 0) ++ w) =
      some (written (fixed tobase padlen (value frombase (upTo number len))) ++ w) := by
  induction padlen generalizing number len w with
  | zero => cases hpad
  | succ padlen ih =>
    obtain ⟨hdivide, hquot, hnewlen⟩ := pass_spec hfrom hto number len
    have hset : (List.replicate (padlen + 1) (character 0) ++ w).set padlen
        (character (pass frombase tobase number len).divide) =
        List.replicate padlen (character 0) ++
          (character (pass frombase tobase number len).divide :: w) := by
      rw [List.replicate_succ', List.append_assoc, List.set_append_right _ _ (by simp)]
      simp
    simp only [convertLoop, hset]
    by_cases hzero : (pass frombase tobase number len).newlen = 0
    · rw [if_pos hzero, fixed, hnewlen.mp hzero, fixed_zero, hdivide]
      simp [written]
    · have hne := mt hnewlen.mpr hzero
      have hq : value frombase (upTo number len) / tobase < tobase ^ padlen :=
        Nat.div_lt_of_lt_mul (by rwa [Nat.mul_comm, ← Nat.pow_succ])
      have hpos : 0 < padlen := by
        rcases Nat.eq_zero_or_pos padlen with hz | hpos
        · rw [hz, Nat.pow_zero] at hq
          omega
        · exact hpos
      rw [if_neg hzero, ih _ _ hpos (hquot ▸ hq), hquot, fixed, hdivide]
      simp [written]

theorem baseconvert_eq (hfrom : 0 < frombase) (hto : 0 < tobase) (hpad : 0 < padlen)
    (hs : ∀ c ∈ s, c ∈ alphabet) (hlen : s.length ≤ 128)
    (hlt : denotes frombase s < tobase ^ padlen) :
    baseconvert s frombase tobase padlen =
      some (written (fixed tobase padlen (denotes frombase s))) := by
  have hnum : upTo (fun i => (s.map digit).getD i 0) s.length = s.map digit := by
    have h := upTo_getD (s.map digit)
    rwa [List.length_map] at h
  have hloop := convertLoop_eq hfrom hto (fun i => (s.map digit).getD i 0) s.length hpad
    (by rwa [hnum]) []
  rw [hnum, List.append_nil, List.append_nil] at hloop
  rw [baseconvert, if_pos ⟨hlen, hs⟩]
  exact hloop

/-- Where there is no room for the digits, the loop writes before `dest`. -/
theorem convertLoop_none (hfrom : 0 < frombase) (hto : 0 < tobase) (number : Nat → Nat)
    (len : Nat) (hle : tobase ^ padlen ≤ value frombase (upTo number len)) (dest : CString) :
    convertLoop frombase tobase padlen number len dest = none := by
  induction padlen generalizing number len dest with
  | zero => rfl
  | succ padlen ih =>
    obtain ⟨-, hquot, hnewlen⟩ := pass_spec hfrom hto number len
    have hq : tobase ^ padlen ≤ value frombase (upTo number len) / tobase := by
      rw [Nat.le_div_iff_mul_le hto, ← Nat.pow_succ]
      exact hle
    have hpos : 0 < tobase ^ padlen := Nat.pow_pos hto
    have hne : ¬ (pass frombase tobase number len).newlen = 0 := by
      intro hzero
      have hz := hnewlen.mp hzero
      omega
    simp only [convertLoop]
    rw [if_neg hne]
    exact ih _ _ (hquot ▸ hq) _

/-- **When there is a result.** -/
theorem baseconvert_isSome_iff (hfrom : 0 < frombase) (hto : 0 < tobase) (hpad : 0 < padlen)
    (hlen : s.length ≤ 128) :
    (baseconvert s frombase tobase padlen).isSome ↔
      (∀ c ∈ s, c ∈ alphabet) ∧ denotes frombase s < tobase ^ padlen := by
  constructor
  · intro h
    by_cases hs : ∀ c ∈ s, c ∈ alphabet
    · refine ⟨hs, Nat.lt_of_not_le fun hle => ?_⟩
      have hnum : upTo (fun i => (s.map digit).getD i 0) s.length = s.map digit := by
        have hupTo := upTo_getD (s.map digit)
        rwa [List.length_map] at hupTo
      rw [baseconvert, if_pos ⟨hlen, hs⟩,
        convertLoop_none hfrom hto _ _ (by rw [hnum]; exact hle)] at h
      cases h
    · rw [baseconvert, if_neg fun hboth => hs hboth.2] at h
      cases h
  · rintro ⟨hs, hlt⟩
    rw [baseconvert_eq hfrom hto hpad hs hlen hlt]
    rfl

/-- The same number in the other base, and back. -/
theorem baseconvert_back (hfrom : 0 < frombase) (hto : 0 < tobase) (hto' : tobase ≤ 64)
    (hs : InBase frombase s) (hpad : 0 < padlen) (hpad' : padlen ≤ 128)
    (hpos : 0 < s.length) (hlen : s.length ≤ 128) (hlt : denotes frombase s < tobase ^ padlen) :
    ∃ t, baseconvert s frombase tobase padlen = some t ∧ t.length = padlen ∧ InBase tobase t ∧
      denotes tobase t = denotes frombase s ∧
      baseconvert t tobase frombase s.length = some s := by
  have hds := fixed_lt hto padlen (denotes frombase s)
  have hds' : ∀ d ∈ fixed tobase padlen (denotes frombase s), d < 64 :=
    fun d hd => Nat.lt_of_lt_of_le (hds d hd) hto'
  have hbase := inBase_written hto' hds
  have hlength : (written (fixed tobase padlen (denotes frombase s))).length = padlen := by
    rw [written, List.length_map, length_fixed]
  have hden : denotes tobase (written (fixed tobase padlen (denotes frombase s))) =
      denotes frombase s := by
    rw [denotes, map_digit_written hds', value_fixed hlt]
  refine ⟨_, baseconvert_eq hfrom hto hpad hs.mem hlen hlt, hlength, hbase, hden, ?_⟩
  have hlt' := hden.trans_lt hs.denotes_lt
  rw [baseconvert_eq hto hfrom hpos hbase.mem (hlength.trans_le hpad') hlt', hden, denotes]
  have hfix := fixed_value hs.digit_lt
  rw [List.length_map] at hfix
  rw [hfix, written_map_digit hs.mem]

/-- An id, the 22 characters of its URI, and the id again. -/
theorem despotifyId2uri_back {id : CString} (hlen : id.length = 32) (hid : InBase 16 id) :
    ∃ uri, despotifyId2uri id = some uri ∧ uri.length = 22 ∧ InBase 62 uri ∧
      denotes 62 uri = denotes 16 id ∧ despotifyUri2id uri = some id := by
  have hlt : denotes 16 id < 62 ^ 22 := by
    refine Nat.lt_of_lt_of_le hid.denotes_lt ?_
    rw [hlen]
    norm_num
  have hback := baseconvert_back (by decide) (by decide) (by decide) hid
    (by decide : 0 < 22) (by decide) (by omega) (by omega) hlt
  rwa [hlen] at hback

/-- The characters of a URI, the id, and the characters again. -/
theorem despotifyUri2id_back {uri : CString} (hlen : uri.length = 22) (huri : InBase 62 uri)
    (hlt : denotes 62 uri < 2 ^ 128) :
    ∃ id, despotifyUri2id uri = some id ∧ id.length = 32 ∧ InBase 16 id ∧
      denotes 16 id = denotes 62 uri ∧ despotifyId2uri id = some uri := by
  have hlt : denotes 62 uri < 16 ^ 32 := by
    refine Nat.lt_of_lt_of_le hlt ?_
    norm_num
  have hback := baseconvert_back (by decide) (by decide) (by decide) huri
    (by decide : 0 < 32) (by decide) (by omega) (by omega) hlt
  rwa [hlen] at hback

end Despotify.Lib

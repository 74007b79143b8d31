import Despotify.Java.Xml
import Despotify.Lib.Uri
import Mathlib.Data.List.Nodup

/-!
# Ids and Spotify URIs in Java

`toURI` and `toHex` of `util/SpotifyURI.java` divide as `baseconvert` of the C library
does, and put the zeros in front afterwards.

* `convertLoop_padLeft`: both loops side by side.
* `codec`: the two conversions undo each other, and the Java methods give the same texts.
-/

namespace Despotify.Java.SpotifyURI

open Radix
open Lib (CString InBase denotes character)

/-! ## `SpotifyURI` -/

def chars : Text := "0123456789abcdefghijklmnopqrstuvwxyzABCDEFGHIJKLMNOPQRSTUVWXYZ".toList

/-- `do .. while (newlen != 0)`; `none` when `fuel` passes are not enough. -/
def baseConvertLoop (fromBase toBase : Nat) : Nat → (Nat → Nat) → Nat → Text → Option Text
  | 0, _, _, _ => none
  | fuel + 1, number, length, result =>
    let p := pass fromBase toBase number length
    let result := chars.getD p.divide ' ' :: result
    if p.newlen = 0 then some result
    else baseConvertLoop fromBase toBase fuel p.number p.newlen result

/-- The characters of the text are looked at, not all there are. -/
instance (priority := 1100) decidableInChars (source : Text) :
    Decidable (∀ c ∈ source, c ∈ chars) := List.decidableBAll _ _

/-- `baseConvert`, of texts over its characters: `indexOf` is `-1` for others. -/
def baseConvert (fuel : Nat) (source : Text) (fromBase toBase : Nat) : Option Text :=
  if ∀ c ∈ source, c ∈ chars then
    baseConvertLoop fromBase toBase fuel (fun i => (source.map chars.idxOf).getD i 0)
      source.length []
  else none

/-- `while (s.length () < n) s.insert (0, '0')` -/
def padLeft (n : Nat) (s : Text) : Text := List.replicate (n - s.length) '0' ++ s

def toURI (fuel : Nat) (hex : Text) : Option Text := (baseConvert fuel hex 16 62).map (padLeft 22)

def toHex (fuel : Nat) (uri : Text) : Option Text := (baseConvert fuel uri 62 16).map (padLeft 32)

/-! ## The same characters -/

/-- The bytes of a C string as characters. -/
def text (s : CString) : Text := s.map fun c => Char.ofNat c.toNat

theorem chars_eq : chars = text (Lib.alphabet.take 62) := by decide +kernel

theorem ofNat_toNat_injective : Function.Injective fun c : UInt8 => Char.ofNat c.toNat := by
  intro a b hab
  have hvalid : ∀ c : UInt8, (Char.ofNat c.toNat).toNat = c.toNat := by
    intro c
    have hlt := c.toNat_lt
    have hchar : c.toNat.isValidChar := Or.inl (by omega)
    rw [Char.ofNat, dif_pos hchar]
    rfl
  exact UInt8.toNat_inj.mp ((hvalid a).symm.trans ((congrArg Char.toNat hab).trans (hvalid b)))

theorem nodup_chars : chars.Nodup := by
  rw [chars_eq]
  exact (Lib.nodup_alphabet.sublist (List.take_sublist 62 _)).map ofNat_toNat_injective

theorem getElem_chars {d : Nat} (hd : d < chars.length) :
    chars[d] = Char.ofNat (character d).toNat := by
  have hlt : d < (Lib.alphabet.take 62).length := by
    rwa [chars_eq, text, List.length_map] at hd
  have hlt' : d < Lib.alphabet.length := by
    rw [List.length_take] at hlt
    omega
  rw [List.getElem_of_eq chars_eq, character, List.getD_eq_getElem _ _ hlt']
  simp only [text, List.getElem_map, List.getElem_take]

theorem length_chars : chars.length = 62 := by
  rw [chars_eq, text, List.length_map, List.length_take, Lib.length_alphabet]
  rfl

theorem chars_getD {d : Nat} (hd : d < 62) :
    chars.getD d ' ' = Char.ofNat (character d).toNat := by
  have hlt : d < chars.length := length_chars ▸ hd
  rw [List.getD_eq_getElem _ _ hlt, getElem_chars hlt]

theorem chars_idxOf {c : UInt8} (hc : c ∈ Lib.alphabet.take 62) :
    Char.ofNat c.toNat ∈ chars ∧ chars.idxOf (Char.ofNat c.toNat) = Lib.digit c := by
  have hlt : Lib.digit c < chars.length := by
    rw [length_chars]
    exact Lib.digit_lt hc
  have hget := getElem_chars hlt
  rw [Lib.character_digit (List.mem_of_mem_take hc)] at hget
  rw [← hget]
  exact ⟨List.getElem_mem hlt, nodup_chars.idxOf_getElem _ hlt⟩

theorem map_idxOf_text {s : CString} (hs : InBase 62 s) :
    (text s).map chars.idxOf = s.map Lib.digit := by
  rw [text, List.map_map]
  exact List.map_congr_left fun c hc => (chars_idxOf (hs c hc)).2

/-! ## The same conversion -/

variable {frombase tobase : Nat}

/-- What is written so far, and the zeros in front of it. -/
theorem convertLoop_padLeft (hfrom : 0 < frombase) (hto : 0 < tobase) (hto' : tobase ≤ 62)
    {padlen fuel : Nat} (hfuel : padlen ≤ fuel) {number : Nat → Nat} {len : Nat} {w d : CString}
    (hd : Lib.convertLoop frombase tobase padlen number len
      (List.replicate padlen (character 0) ++ w) = some d) :
    ∃ r, baseConvertLoop frombase tobase fuel number len (text w) = some r ∧
      text d = padLeft (padlen + w.length) r := by
  induction padlen generalizing number len w fuel with
  | zero => cases hd
  | succ padlen ih =>
    cases fuel with
    | zero => cases hfuel
    | succ fuel =>
      have hdivide : (pass frombase tobase number len).divide < tobase := by
        rw [(pass_spec hfrom hto number len).1]
        exact Nat.mod_lt _ hto
      have hchar := chars_getD (Nat.lt_of_lt_of_le hdivide hto')
      have hset : (List.replicate (padlen + 1) (character 0) ++ w).set padlen
          (character (pass frombase tobase number len).divide) =
          List.replicate padlen (character 0) ++
            (character (pass frombase tobase number len).divide :: w) := by
        rw [List.replicate_succ', List.append_assoc, List.set_append_right _ _ (by simp)]
        simp
      simp only [Lib.convertLoop, hset] at hd
      simp only [baseConvertLoop, hchar]
      by_cases hzero : (pass frombase tobase number len).newlen = 0
      · rw [if_pos hzero] at hd ⊢
        cases hd
        refine ⟨_, rfl, ?_⟩
        have hsub : padlen + 1 + w.length - (w.length + 1) = padlen := by omega
        simp only [text, padLeft, List.map_append, List.map_replicate, List.map_cons,
          List.length_cons, List.length_map, hsub]
        rfl
      · rw [if_neg hzero] at hd ⊢
        obtain ⟨r, hr, hpad⟩ := ih (Nat.le_of_succ_le_succ hfuel) hd
        refine ⟨r, hr, ?_⟩
        rw [hpad, List.length_cons]
        congr 1
        omega

/-- `baseConvert` and the zeros give what `baseconvert` gives. -/
theorem baseConvert_padLeft (hfrom : 0 < frombase) (hfrom' : frombase ≤ 62) (hto : 0 < tobase)
    (hto' : tobase ≤ 62) {padlen fuel : Nat} (hfuel : padlen ≤ fuel) {s t : CString}
    (hs : InBase frombase s) (ht : Lib.baseconvert s frombase tobase padlen = some t) :
    (baseConvert fuel (text s) frombase tobase).map (padLeft padlen) = some (text t) := by
  have hs62 := hs.mono hfrom'
  have hall : ∀ c ∈ text s, c ∈ chars := by
    intro c hc
    obtain ⟨b, hb, rfl⟩ := List.mem_map.mp hc
    exact (chars_idxOf (hs62 b hb)).1
  unfold Lib.baseconvert at ht
  split at ht
  · rw [← List.append_nil (List.replicate padlen (character 0))] at ht
    obtain ⟨r, hr, hpad⟩ := convertLoop_padLeft hfrom hto hto' hfuel ht
    have hlen : (text s).length = s.length := List.length_map _
    rw [baseConvert, if_pos hall, map_idxOf_text hs62, hlen]
    have hr : baseConvertLoop frombase tobase fuel (fun i => (s.map Lib.digit).getD i 0) s.length [] =
        some r := hr
    rw [hr, Option.map_some, hpad]
    rfl
  · cases ht

/-! ## The codec -/

/-- **The id codec.** 32 hex digits and 22 characters in base 62 denote the same number and are
turned into each other, and Java does the same. -/
theorem codec :
    (∀ id : CString, id.length = 32 → InBase 16 id →
      ∃ uri, Lib.despotifyId2uri id = some uri ∧ uri.length = 22 ∧ InBase 62 uri ∧
        denotes 62 uri = denotes 16 id ∧ Lib.despotifyUri2id uri = some id ∧
        ∀ fuel, 32 ≤ fuel → toURI fuel (text id) = some (text uri) ∧
          toHex fuel (text uri) = some (text id)) ∧
    (∀ uri : CString, uri.length = 22 → InBase 62 uri → denotes 62 uri < 2 ^ 128 →
      ∃ id, Lib.despotifyUri2id uri = some id ∧ Lib.despotifyId2uri id = some uri ∧
        ∀ fuel, 32 ≤ fuel → toHex fuel (text uri) = some (text id) ∧
          toURI fuel (text id) = some (text uri)) := by
  have java : ∀ {id uri : CString} {fuel : Nat}, InBase 16 id → InBase 62 uri → 32 ≤ fuel →
      Lib.despotifyId2uri id = some uri → Lib.despotifyUri2id uri = some id →
      toURI fuel (text id) = some (text uri) ∧ toHex fuel (text uri) = some (text id) := by
    intro id uri fuel hid huri hfuel hto hback
    exact ⟨baseConvert_padLeft (by decide) (by decide) (by decide) (by decide) (by omega) hid hto,
      baseConvert_padLeft (by decide) (by decide) (by decide) (by decide) hfuel huri hback⟩
  constructor
  · intro id hlen hid
    obtain ⟨uri, hto, hlen', huri, hden, hback⟩ := Lib.despotifyId2uri_back hlen hid
    exact ⟨uri, hto, hlen', huri, hden, hback, fun fuel hfuel => java hid huri hfuel hto hback⟩
  · intro uri hlen huri hlt
    obtain ⟨id, hto, -, hid, -, hback⟩ := Lib.despotifyUri2id_back hlen huri hlt
    exact ⟨id, hto, hback, fun fuel hfuel => (java hid huri hfuel hback hto).symm⟩

theorem codec_last :
    (∃ uri, Lib.despotifyId2uri (Gateway.ascii "ffffffffffffffffffffffffffffffff") = some uri ∧
      uri.length = 22 ∧ Lib.despotifyUri2id uri =
        some (Gateway.ascii "ffffffffffffffffffffffffffffffff")) ∧
    ∃ id, Lib.despotifyUri2id (Gateway.ascii "000000000000000000000Z") = some id ∧
      Lib.despotifyId2uri id = some (Gateway.ascii "000000000000000000000Z") := by
  obtain ⟨uri, hto, hlen, -, -, hback, -⟩ := codec.1
    (Gateway.ascii "ffffffffffffffffffffffffffffffff") (by decide) (by decide +kernel)
  obtain ⟨id, hid, hback', -⟩ := codec.2 (Gateway.ascii "000000000000000000000Z") (by decide)
    (by decide +kernel) (by decide +kernel)
  exact ⟨⟨uri, hto, hlen, hback⟩, id, hid, hback'⟩

end Despotify.Java.SpotifyURI

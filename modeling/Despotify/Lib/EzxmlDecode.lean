import Despotify.Lib.Edit
import Mathlib.Data.List.TakeWhile

/-!
# References in documents

`ezxml_decode` and `ezxml_ampencode`, with the entities a document has without a DTD.

* `decode_ampencode`, `decode_text`: what was encoded is decoded again.
-/

namespace Despotify.Ezxml

open Gateway (ascii isspace)
open Lib (CString)

/-! ## Numbers -/

/-- The value of a digit in a base up to 36. -/
def digit (c : UInt8) : Option Nat :=
  if 48 ≤ c ∧ c ≤ 57 then some (c.toNat - 48)
  else if 97 ≤ c ∧ c ≤ 122 then some (c.toNat - 87)
  else if 65 ≤ c ∧ c ≤ 90 then some (c.toNat - 55)
  else none

def isDigit (base : Nat) (c : UInt8) : Bool := (digit c).any (· < base)

/-- What stands behind a sign, and whether it is a minus. -/
def sign : CString → Bool × CString
  | 45 :: s => (true, s)
  | 43 :: s => (false, s)
  | s => (false, s)

/-- `0x` in front of a digit. -/
def prefixed : CString → Bool
  | 48 :: x :: d :: _ => (x = 120 || x = 88) && isDigit 16 d
  | _ => false

/-- `strtol` on 64 bits: the number, and where it ends. -/
def strtol (s : CString) (base : Nat) : Int × CString :=
  let (negative, s) := sign (s.dropWhile isspace)
  let s := if base = 16 ∧ prefixed s then s.drop 2 else s
  let digits := s.takeWhile (isDigit base)
  let n : Nat := digits.foldl (fun n d => base * n + (digit d).getD 0) 0
  (if negative then max (-n) (-0x8000000000000000) else min n 0x7fffffffffffffff,
    s.drop digits.length)

/-- The multi-byte sequence of `c`: a head, and six bits in each byte behind it. -/
def utf8 (c : Nat) : CString :=
  let b := (c.log2 + 1 - 2) / 5
  UInt8.ofNat ((0xFF <<< (7 - b)) ||| (c >>> (6 * b))) ::
    (List.range b).reverse.map fun k => UInt8.ofNat (0x80 ||| ((c >>> (6 * k)) &&& 0x3F))

/-! ## `ezxml_decode` -/

/-- The last argument of `ezxml_decode`: `'&'`, `' '` or `'c'`. -/
inductive Mode
  | text
  | attribute
  | cdata
deriving DecidableEq, Repr

/-- `ent` of `ezxml_new`. -/
def ent : List (CString × CString) := [
  (ascii "lt;", ascii "&#60;"), (ascii "gt;", ascii "&#62;"), (ascii "quot;", ascii "&#34;"),
  (ascii "apos;", ascii "&#39;"), (ascii "amp;", ascii "&#38;")]

/-- The number in `&#…` or `&#x…`, and where it ends. -/
def refNumber (s : CString) : Int × CString :=
  if (s.drop 2).head? = some 120 then strtol (s.drop 3) 16 else strtol (s.drop 2) 10

/-- A character reference: what it stands for, and what is behind it. -/
def charRef (s : CString) : Option (CString × CString) :=
  let c := (refNumber s).1
  let e := (refNumber s).2
  if c = 0 ∨ e.head? ≠ some 59 then none
  else if c < 0x80 then some ([UInt8.ofNat (c % 256).toNat], e.drop 1)
  else some (utf8 c.toNat, e.drop 1)

/-- What becomes of `c :: s`: a part that is done, and the rest. -/
def decodeStep (t : Mode) (c : UInt8) (s : CString) : CString × CString :=
  if c ≠ 38 ∧ ¬ isspace c then ([c], s)
  else if t ≠ .cdata ∧ (ascii "&#").isPrefixOf (c :: s) then (charRef (c :: s)).getD ([c], s)
  else if t ≠ .cdata ∧ c = 38 then
    match ent.find? fun e => e.1.isPrefixOf s with
    -- The replacement is looked at again; each of them is a character reference.
    | some e => (charRef (e.2 ++ s.drop e.1.length)).getD ([c], s)
    | none => ([c], s)
  else if t = .attribute ∧ isspace c then ([32], s)
  else ([c], s)

/-- Line endings are normalized. -/
def lineEndings : CString → CString
  | [] => []
  | 13 :: 10 :: s => 10 :: lineEndings s
  | 13 :: s => 10 :: lineEndings s
  | c :: s => c :: lineEndings s

theorem length_strtol (s : CString) (base : Nat) : (strtol s base).2.length ≤ s.length := by
  have hsign : ∀ s, (sign s).2.length ≤ s.length := by
    intro s
    unfold sign
    split <;> simp
  have hspace := (List.dropWhile_suffix (l := s) isspace).length_le
  have hsigned := hsign (s.dropWhile isspace)
  unfold strtol
  dsimp only
  rw [List.length_drop]
  split
  · rw [List.length_drop]
    omega
  · omega

theorem length_charRef {s out rest : CString} (h : charRef s = some (out, rest)) :
    rest.length + 3 ≤ s.length := by
  have hnumber : (refNumber s).2.length ≤ s.length - 2 := by
    unfold refNumber
    split
    · have hlength := length_strtol (s.drop 3) 16
      rw [List.length_drop] at hlength
      omega
    · have hlength := length_strtol (s.drop 2) 10
      rw [List.length_drop] at hlength
      omega
  have hrest : (refNumber s).2.head? = some 59 ∧ rest = (refNumber s).2.drop 1 := by
    unfold charRef at h
    dsimp only at h
    split at h
    · cases h
    next hgood =>
      refine ⟨not_not.mp fun hne => hgood (Or.inr hne), ?_⟩
      split at h
      · exact (Prod.mk.inj (Option.some.inj h)).2.symm
      · exact (Prod.mk.inj (Option.some.inj h)).2.symm
  obtain ⟨hhead, rfl⟩ := hrest
  cases he : (refNumber s).2 with
  | nil =>
    rw [he] at hhead
    cases hhead
  | cons x e =>
    rw [he, List.length_cons] at hnumber
    rw [List.drop_one, List.tail_cons]
    omega

theorem length_decodeStep (t : Mode) (c : UInt8) (s : CString) :
    (decodeStep t c s).2.length ≤ s.length := by
  have href : ∀ s', s'.length ≤ s.length + 3 →
      ((charRef s').getD ([c], s)).2.length ≤ s.length := by
    intro s' hs'
    cases hr : charRef s' with
    | none => exact Nat.le_refl _
    | some r =>
      have hlength := length_charRef hr
      rw [Option.getD_some]
      omega
  unfold decodeStep
  split
  · exact Nat.le_refl _
  split
  · exact href _ (by rw [List.length_cons]; omega)
  split
  · split
    next e he =>
      refine href _ ?_
      have hmem := List.mem_of_find?_eq_some he
      have hlong : ∀ e ∈ ent, e.2.length = 5 ∧ 3 ≤ e.1.length := by decide
      obtain ⟨hvalue, hname⟩ := hlong e hmem
      have hfound := List.find?_some he
      have hstarts := (List.isPrefixOf_iff_prefix.mp hfound).length_le
      rw [List.length_append, List.length_drop, hvalue]
      omega
    next he => exact Nat.le_refl _
  split
  · exact Nat.le_refl _
  · exact Nat.le_refl _

/-- `for (s = r; ; )`: at most `n` turns. -/
def decodeTurns (t : Mode) : Nat → CString → CString
  | 0, _ => []
  | _ + 1, [] => []
  | n + 1, c :: s => (decodeStep t c s).1 ++ decodeTurns t n (decodeStep t c s).2

/-- More turns do not change anything. -/
theorem decodeTurns_eq (t : Mode) {m n : Nat} {s : CString} (hm : s.length ≤ m)
    (hn : s.length ≤ n) : decodeTurns t m s = decodeTurns t n s := by
  induction m generalizing n s with
  | zero =>
    cases List.length_eq_zero_iff.mp (Nat.le_zero.mp hm)
    cases n <;> rfl
  | succ m ih =>
    cases s with
    | nil => cases n <;> rfl
    | cons c s =>
      cases n with
      | zero => cases hn
      | succ n =>
        have hstep := length_decodeStep t c s
        rw [List.length_cons] at hm hn
        rw [decodeTurns, decodeTurns, ih (n := n) (by omega) (by omega)]

def decodeLoop (t : Mode) (s : CString) : CString := decodeTurns t s.length s

theorem decodeLoop_cons (t : Mode) (c : UInt8) (s : CString) :
    decodeLoop t (c :: s) = (decodeStep t c s).1 ++ decodeLoop t (decodeStep t c s).2 := by
  rw [decodeLoop, List.length_cons, decodeTurns,
    decodeTurns_eq t (length_decodeStep t c s) (Nat.le_refl _)]
  rfl

/-- The string that is there before the `NUL`. -/
def decode (t : Mode) (s : CString) : CString :=
  (decodeLoop t (lineEndings s)).takeWhile (· ≠ 0)

theorem zero_notMem_decode (t : Mode) (s : CString) : 0 ∉ decode t s := by
  intro h
  have hzero := List.mem_takeWhile_imp (p := fun c : UInt8 => decide (c ≠ 0)) h
  exact absurd rfl (of_decide_eq_true hzero)

/-! ## `ezxml_ampencode` -/

/-- A character, in an attribute or elsewhere. -/
def escape (a : Bool) (c : UInt8) : CString :=
  if c = 38 then ascii "&amp;"
  else if c = 60 then ascii "&lt;"
  else if c = 62 then ascii "&gt;"
  else if c = 34 then if a then ascii "&quot;" else [34]
  else if c = 10 then if a then ascii "&#xA;" else [10]
  else if c = 9 then if a then ascii "&#x9;" else [9]
  else if c = 13 then ascii "&#xD;"
  else [c]

def ampencode (s : CString) (a : Bool) : CString := s.flatMap (escape a)

/-- The character that comes back: `\v` and `\f` become spaces in an attribute. -/
def received (a : Bool) (c : UInt8) : UInt8 := if a = true ∧ (c = 11 ∨ c = 12) then 32 else c

/-- How the references are read. -/
def modeOf : Bool → Mode
  | false => .text
  | true => .attribute

theorem decodeLoop_plain (t : Mode) {c : UInt8} (hamp : c ≠ 38)
    (hspace : isspace c = true → t = .attribute → c = 32) (s : CString) :
    decodeLoop t (c :: s) = c :: decodeLoop t s := by
  have hstarts : ¬ (ascii "&#").isPrefixOf (c :: s) = true := by
    intro h
    have h : (38 == c && _) = true := h
    rw [Bool.and_eq_true, beq_iff_eq] at h
    exact hamp h.1.symm
  have hstep : decodeStep t c s = ([c], s) := by
    unfold decodeStep
    split
    · rfl
    rw [if_neg fun h => hstarts h.2, if_neg fun h => hamp h.2]
    split
    next h => rw [hspace h.2 h.1]
    · rfl
  rw [decodeLoop_cons, hstep]
  rfl

theorem decodeLoop_space {c : UInt8} (hspace : isspace c = true) (s : CString) :
    decodeLoop .attribute (c :: s) = 32 :: decodeLoop .attribute s := by
  have hstarts : ¬ (ascii "&#").isPrefixOf (c :: s) = true := by
    intro h
    have h : (38 == c && _) = true := h
    rw [Bool.and_eq_true, beq_iff_eq] at h
    rw [← h.1] at hspace
    exact absurd hspace (by decide)
  have hamp : c ≠ 38 := by
    rintro rfl
    exact absurd hspace (by decide)
  have hstep : decodeStep .attribute c s = ([32], s) := by
    rw [decodeStep, if_neg (fun h => h.2 hspace), if_neg fun h => hstarts h.2,
      if_neg fun h => hamp h.2, if_pos ⟨rfl, hspace⟩]
  rw [decodeLoop_cons, hstep]
  rfl

theorem charRef_eq {s rest : CString} {c : UInt8} (h : refNumber s = ((c.toNat : Int), 59 :: rest))
    (hpos : 0 < c.toNat) (hlt : c.toNat < 128) : charRef s = some ([c], rest) := by
  have hbyte : UInt8.ofNat ((c.toNat : Int) % 256).toNat = c := by
    rw [Int.emod_eq_of_lt (by omega) (by omega), Int.toNat_natCast, UInt8.ofNat_toNat]
  unfold charRef
  rw [h]
  dsimp only
  rw [if_neg, if_pos (by omega), hbyte]
  · rfl
  · rintro (h | h)
    · omega
    · exact h rfl

theorem decodeLoop_ref {t : Mode} (ht : t ≠ .cdata) {s out rest : CString}
    (h : charRef (38 :: 35 :: s) = some (out, rest)) :
    decodeLoop t (38 :: 35 :: s) = out ++ decodeLoop t rest := by
  have hstarts : (ascii "&#").isPrefixOf (38 :: 35 :: s) = true := rfl
  rw [decodeLoop_cons, decodeStep, if_neg (fun h => h.1 rfl), if_pos ⟨ht, hstarts⟩, h]
  rfl

theorem decodeLoop_ent {t : Mode} (ht : t ≠ .cdata) {s name value out rest : CString}
    (hfind : (ent.find? fun e => e.1.isPrefixOf s) = some (name, value))
    (hstarts : (ascii "&#").isPrefixOf (38 :: s) = false)
    (h : charRef (value ++ s.drop name.length) = some (out, rest)) :
    decodeLoop t (38 :: s) = out ++ decodeLoop t rest := by
  rw [decodeLoop_cons, decodeStep, if_neg (fun h => h.1 rfl),
    if_neg fun h => Bool.false_ne_true (hstarts.symm.trans h.2), if_pos ⟨ht, rfl⟩, hfind]
  dsimp only
  rw [h]
  rfl

theorem isspace_cases {c : UInt8} (h : isspace c = true) :
    c = 32 ∨ c = 9 ∨ c = 10 ∨ c = 11 ∨ c = 12 ∨ c = 13 := by
  unfold isspace at h
  rw [Bool.or_eq_true, Bool.and_eq_true, decide_eq_true_iff, decide_eq_true_iff,
    decide_eq_true_iff] at h
  rcases h with h | ⟨hlow, hhigh⟩
  · exact Or.inl h
  · have hlow : 9 ≤ c.toNat := UInt8.le_iff_toNat_le.mp hlow
    have hhigh : c.toNat ≤ 13 := UInt8.le_iff_toNat_le.mp hhigh
    simp only [← UInt8.toNat_inj]
    show c.toNat = 32 ∨ c.toNat = 9 ∨ c.toNat = 10 ∨ c.toNat = 11 ∨ c.toNat = 12 ∨ c.toNat = 13
    omega

/-- The characters that are escaped, and what stands for them. -/
def references : List (UInt8 × String) :=
  [(38, "&amp;"), (60, "&lt;"), (62, "&gt;"), (34, "&quot;"), (10, "&#xA;"), (9, "&#x9;"),
    (13, "&#xD;")]

/-- A character is written as a reference or as it is. -/
theorem escape_cases (a : Bool) (c : UInt8) :
    (∃ r ∈ references, r.1 = c ∧ escape a c = ascii r.2) ∨
      escape a c = [c] ∧ c ≠ 38 ∧ c ≠ 60 ∧ c ≠ 13 ∧ (a = true → c ≠ 34 ∧ c ≠ 10 ∧ c ≠ 9) := by
  unfold escape
  split
  next hc => exact Or.inl ⟨(38, "&amp;"), by simp [references], hc.symm, rfl⟩
  next hamp =>
  split
  next hc => exact Or.inl ⟨(60, "&lt;"), by simp [references], hc.symm, rfl⟩
  next hlt =>
  split
  next hc => exact Or.inl ⟨(62, "&gt;"), by simp [references], hc.symm, rfl⟩
  split
  next hc =>
    subst hc
    split
    · exact Or.inl ⟨(34, "&quot;"), by simp [references], rfl, rfl⟩
    next ha => exact Or.inr ⟨rfl, hamp, hlt, by decide, fun h => absurd h ha⟩
  next hquot =>
  split
  next hc =>
    subst hc
    split
    · exact Or.inl ⟨(10, "&#xA;"), by simp [references], rfl, rfl⟩
    next ha => exact Or.inr ⟨rfl, hamp, hlt, by decide, fun h => absurd h ha⟩
  next hnl =>
  split
  next hc =>
    subst hc
    split
    · exact Or.inl ⟨(9, "&#x9;"), by simp [references], rfl, rfl⟩
    next ha => exact Or.inr ⟨rfl, hamp, hlt, by decide, fun h => absurd h ha⟩
  next htab =>
  split
  next hc => exact Or.inl ⟨(13, "&#xD;"), by simp [references], hc.symm, rfl⟩
  next hcr => exact Or.inr ⟨rfl, hamp, hlt, hcr, fun _ => ⟨hquot, hnl, htab⟩⟩

/-- A reference is read as its character. -/
theorem decodeLoop_reference {t : Mode} (ht : t ≠ .cdata) {r : UInt8 × String}
    (hr : r ∈ references) (s : CString) :
    decodeLoop t (ascii r.2 ++ s) = r.1 :: decodeLoop t s := by
  simp only [references, List.mem_cons, List.not_mem_nil, or_false] at hr
  rcases hr with rfl | rfl | rfl | rfl | rfl | rfl | rfl
  · exact decodeLoop_ent ht rfl rfl (charRef_eq rfl (by decide) (by decide))
  · exact decodeLoop_ent ht rfl rfl (charRef_eq rfl (by decide) (by decide))
  · exact decodeLoop_ent ht rfl rfl (charRef_eq rfl (by decide) (by decide))
  · exact decodeLoop_ent ht rfl rfl (charRef_eq rfl (by decide) (by decide))
  · exact decodeLoop_ref ht (charRef_eq rfl (by decide) (by decide))
  · exact decodeLoop_ref ht (charRef_eq rfl (by decide) (by decide))
  · exact decodeLoop_ref ht (charRef_eq rfl (by decide) (by decide))

theorem decodeLoop_escape (a : Bool) (c : UInt8) (s : CString) :
    decodeLoop (modeOf a) (escape a c ++ s) = received a c :: decodeLoop (modeOf a) s := by
  rcases escape_cases a c with ⟨r, hr, rfl, hescape⟩ | ⟨hescape, hamp, -, hcr, hattr⟩
  · have ht : modeOf a ≠ .cdata := by cases a <;> decide
    have hkept : ∀ r ∈ references, ¬ (r.1 = 11 ∨ r.1 = 12) := by decide
    rw [hescape, decodeLoop_reference ht hr, received, if_neg fun h => hkept r hr h.2]
  · rw [hescape, List.singleton_append]
    by_cases hfeed : a = true ∧ (c = 11 ∨ c = 12)
    · obtain ⟨rfl, hc⟩ := hfeed
      have hspace : isspace c = true := by
        rcases hc with rfl | rfl <;> decide
      rw [received, if_pos ⟨rfl, hc⟩]
      exact decodeLoop_space hspace s
    · rw [received, if_neg hfeed]
      refine decodeLoop_plain _ hamp (fun hspace hmode => ?_) s
      have ha : a = true := by
        cases a
        · cases hmode
        · rfl
      obtain ⟨-, hnl, htab⟩ := hattr ha
      have hv : ¬ (c = 11 ∨ c = 12) := fun hc => hfeed ⟨ha, hc⟩
      obtain h | h | h | h | h | h := isspace_cases hspace
      · exact h
      · exact absurd h htab
      · exact absurd h hnl
      · exact absurd (Or.inl h) hv
      · exact absurd (Or.inr h) hv
      · exact absurd h hcr

theorem lineEndings_eq {s : CString} (h : 13 ∉ s) : lineEndings s = s := by
  induction s with
  | nil => rfl
  | cons c s ih =>
    obtain ⟨hc, hs⟩ := not_or.mp (mt List.mem_cons.mpr h)
    rw [lineEndings, ih hs]
    · rintro s' rfl -
      exact hc rfl
    · rintro rfl
      exact hc rfl

/-- No carriage return, no `<`, in an attribute no quote, and no `NUL`. -/
theorem mem_escape {a : Bool} {c d : UInt8} (h : d ∈ escape a c) :
    d ≠ 13 ∧ d ≠ 60 ∧ (a = true → d ≠ 34) ∧ (c ≠ 0 → d ≠ 0) := by
  rcases escape_cases a c with ⟨r, hr, -, hescape⟩ | ⟨hescape, -, hlt, hcr, hattr⟩
  · have hall : ∀ r ∈ references, ∀ d ∈ ascii r.2, d ≠ 13 ∧ d ≠ 60 ∧ d ≠ 34 ∧ d ≠ 0 := by
      decide +kernel
    obtain ⟨h13, h60, h34, h0⟩ := hall r hr d (hescape ▸ h)
    exact ⟨h13, h60, fun _ => h34, fun _ => h0⟩
  · rw [hescape, List.mem_singleton] at h
    subst h
    exact ⟨hcr, hlt, fun ha => (hattr ha).1, id⟩

theorem lineEndings_ampencode (s : CString) (a : Bool) :
    lineEndings (ampencode s a) = ampencode s a := by
  refine lineEndings_eq fun h => ?_
  obtain ⟨c, -, hc⟩ := List.mem_flatMap.mp h
  exact (mem_escape hc).1 rfl

theorem decode_ampencode {s : CString} (h : 0 ∉ s) (a : Bool) :
    decode (modeOf a) (ampencode s a) = s.map (received a) := by
  have hloop : decodeLoop (modeOf a) (ampencode s a) = s.map (received a) := by
    clear h
    induction s with
    | nil => rfl
    | cons c s ih =>
      rw [ampencode, List.flatMap_cons, decodeLoop_escape, ← ampencode, ih, List.map_cons]
  rw [decode, lineEndings_ampencode, hloop, List.takeWhile_eq_self_iff]
  intro d hd
  obtain ⟨c, hc, rfl⟩ := List.mem_map.mp hd
  refine decide_eq_true ?_
  unfold received
  split
  · decide
  · rintro rfl
    exact h hc

theorem decode_text {s : CString} (h : 0 ∉ s) : decode .text (ampencode s false) = s := by
  have hid : received false = id := by
    funext c
    exact if_neg fun h => absurd h.1 Bool.false_ne_true
  have hdecode := decode_ampencode h false
  rwa [hid, List.map_id] at hdecode

end Despotify.Ezxml

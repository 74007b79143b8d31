import Despotify.Player.Decrypt
import Despotify.Player.FirstPage

/-!
# The plaintext of a sequence of packets

The three players decrypt a packet in the same way: each whole block of 1024 bytes is
deinterleaved and xored with the keystream, and what is behind the last whole block is what
the memory held before.  `plainRun` is that on bytes, for any sequence of packets.

* `plainRun_eq`: packets of whole blocks become the file bytes, each xored with the keystream
  byte of its offset.
* `whole_of_over`: other packets show what the memory held.
* `handedOn_eq`: what `despotify_substream_callback` hands on.
-/

namespace Despotify.Player

variable {A : Type}

/-! ## Blocks of bytes -/

section

variable (E : List UInt8 → Nat → UInt8)

/-- `n` units of 16 bytes, each xored with its keystream block. -/
def unitsOf : Nat → List UInt8 → List UInt8 → List UInt8 × List UInt8
  | 0, iv, _ => ([], iv)
  | n + 1, iv, buf =>
    let unit := (buf.take 16).mapIdx fun j b => b ^^^ E iv j
    let (rest, iv) := unitsOf n (incIV iv) (buf.drop 16)
    (unit ++ rest, iv)

/-- `n` blocks of 1024 bytes. -/
def blocksOf : Nat → List UInt8 → List UInt8 → List UInt8 × List UInt8
  | 0, iv, _ => ([], iv)
  | n + 1, iv, buf =>
    let (block, iv) := unitsOf E 64 iv (deinterleave (buf.take 1024))
    let (rest, iv) := blocksOf n iv (buf.drop 1024)
    (block ++ rest, iv)

end

section

variable {E : List UInt8 → Nat → UInt8}

theorem length_deinterleave {α : Type} [Inhabited α] (buf : List α) :
    (deinterleave buf).length = 1024 := by
  unfold deinterleave
  simp only [List.length_flatMap, List.length_cons, List.length_nil, List.map_const',
    List.length_range, List.sum_replicate_nat]

theorem length_unitsOf (n : Nat) (iv : List UInt8) {buf : List UInt8} (h : 16 * n ≤ buf.length) :
    (unitsOf E n iv buf).1.length = 16 * n := by
  induction n generalizing iv buf with
  | zero => rfl
  | succ n ih =>
    have hrest : 16 * n ≤ (buf.drop 16).length := by
      rw [List.length_drop]
      omega
    simp only [unitsOf]
    rw [List.length_append, List.length_mapIdx, List.length_take, ih _ hrest]
    omega

theorem length_blocksOf (n : Nat) (iv buf : List UInt8) :
    (blocksOf E n iv buf).1.length = 1024 * n := by
  induction n generalizing iv buf with
  | zero => rfl
  | succ n ih =>
    simp only [blocksOf]
    rw [List.length_append, length_unitsOf 64 iv (Nat.le_of_eq (length_deinterleave _).symm), ih]
    omega

/-- Blocks before others. -/
theorem blocksOf_append (m n : Nat) (iv : List UInt8) {a : List UInt8} (b : List UInt8)
    (ha : a.length = 1024 * m) :
    blocksOf E (m + n) iv (a ++ b) =
      ((blocksOf E m iv a).1 ++ (blocksOf E n (blocksOf E m iv a).2 b).1,
        (blocksOf E n (blocksOf E m iv a).2 b).2) := by
  induction m generalizing iv a with
  | zero =>
    obtain rfl := List.eq_nil_of_length_eq_zero ha
    rw [Nat.zero_add]
    rfl
  | succ m ih =>
    have hdrop : (a.drop 1024).length = 1024 * m := by
      rw [List.length_drop]
      omega
    have htake : (a ++ b).take 1024 = a.take 1024 := List.take_append_of_le_length (by omega)
    have hrest : (a ++ b).drop 1024 = a.drop 1024 ++ b := List.drop_append_of_le_length (by omega)
    rw [Nat.add_right_comm]
    simp only [blocksOf]
    rw [htake, hrest, ih _ hdrop, List.append_assoc]

/-! ## In file order -/

/-- The byte sent for file offset `f`. -/
def fileByte (wire : List UInt8) (f : Nat) : UInt8 :=
  wire.getD (1024 * (f / 1024) + (256 * (f % 4) + f % 1024 / 4)) 0

/-- The bytes of whole blocks sent from the file offset `base` on, each xored with the
keystream byte of its offset. -/
def plainAt (E : List UInt8 → Nat → UInt8) (base : Nat) (wire : List UInt8) : List UInt8 :=
  (List.range wire.length).map fun f => fileByte wire f ^^^ E (ivAt ((base + f) / 16)) ((base + f) % 16)

end

/-- Cells are decrypted as their bytes are. -/
theorem decryptUnits_bytes (env : Env A) (st : A) (n : Nat) (iv : List UInt8) (buf : List Cell) :
    unitsOf (env.encrypt st) n iv (buf.map Cell.byte) =
      ((decryptUnits env st n iv buf).1.map Cell.byte, (decryptUnits env st n iv buf).2) := by
  induction n generalizing iv buf with
  | zero => rfl
  | succ n ih =>
    simp only [unitsOf, decryptUnits]
    rw [← List.map_drop, ih, ← List.map_take, List.map_append]
    refine Prod.ext (congrArg (· ++ _) ?_) rfl
    refine List.ext_getElem (by simp) fun j _ _ => ?_
    simp only [List.getElem_mapIdx, List.getElem_map]

theorem deinterleave_bytes (buf : List Cell) :
    deinterleave (buf.map Cell.byte) = (deinterleave buf).map Cell.byte := by
  have hget : ∀ i, (buf.map Cell.byte).getD i default = (buf.getD i default).byte := by
    intro i
    rw [List.getD_eq_getElem?_getD, List.getD_eq_getElem?_getD, List.getElem?_map]
    cases buf[i]? <;> rfl
  unfold deinterleave
  rw [List.map_flatMap]
  refine List.flatMap_congr fun i _ => ?_
  simp only [hget, List.map_cons, List.map_nil]

theorem decryptBlocks_bytes (env : Env A) (st : A) (n : Nat) (iv : List UInt8) (buf : List Cell) :
    blocksOf (env.encrypt st) n iv (buf.map Cell.byte) =
      ((decryptBlocks env st n iv buf).1.map Cell.byte, (decryptBlocks env st n iv buf).2) := by
  induction n generalizing iv buf with
  | zero => rfl
  | succ n ih =>
    simp only [blocksOf, decryptBlocks]
    rw [← List.map_take, deinterleave_bytes, decryptUnits_bytes, ← List.map_drop, ih,
      List.map_append]

/-- A server that sends the bytes, from the file offset `base` on. -/
def serverOf (E : List UInt8 → Nat → UInt8) (base : Nat) (wire : List UInt8) : Env Unit where
  key _ := []
  cipher _ f := fileByte wire (f - base)
  keySetup _ := ()
  encrypt _ := E

theorem wireCell_serverOf (E : List UInt8 → Nat → UInt8) {base : Nat} (hbase : base % 1024 = 0)
    (wire : List UInt8) (t : Track) (k : Nat) :
    (wireCell (serverOf E base wire) t (base + k)).byte = wire.getD k 0 := by
  have hf : 1024 * ((base + k) / 1024) + 4 * ((base + k) % 256) + (base + k) % 1024 / 256 =
      base + (1024 * (k / 1024) + 4 * (k % 256) + k % 1024 / 256) := by omega
  have hk : ∀ f, f = 1024 * (k / 1024) + 4 * (k % 256) + k % 1024 / 256 →
      1024 * (f / 1024) + (256 * (f % 4) + f % 1024 / 4) = k := by
    intro f hf
    have hblock : f / 1024 = k / 1024 := by omega
    have hrun : f % 4 = k % 1024 / 256 := by omega
    have hin : f % 1024 / 4 = k % 256 := by omega
    rw [hblock, hrun, hin]
    omega
  show fileByte wire _ = wire.getD k 0
  rw [hf, Nat.add_sub_cancel_left, fileByte, hk _ rfl]

/-- **Whole blocks** become the file bytes, each xored with its keystream byte. -/
theorem blocksOf_eq (E : List UInt8 → Nat → UInt8) {n base : Nat} (hbase : base % 1024 = 0)
    {wire : List UInt8} (hwire : wire.length = 1024 * n) :
    blocksOf E n (ivAt (base / 16)) wire =
      (plainAt E base wire, ivAt ((base + 1024 * n) / 16)) := by
  have hcells : ((List.range (1024 * n)).map fun k =>
      wireCell (serverOf E base wire) ⟨0, true⟩ (base + k)).map Cell.byte = wire := by
    refine List.ext_getElem (by simp [hwire]) fun k hk _ => ?_
    have hk : k < wire.length := by simpa [hwire] using hk
    simp only [List.getElem_map, List.getElem_range]
    rw [wireCell_serverOf E hbase, List.getD_eq_getElem?_getD, List.getElem?_eq_getElem hk,
      Option.getD_some]
  have h := decryptBlocks_bytes (serverOf E base wire) () n (ivAt (base / 16))
    ((List.range (1024 * n)).map fun k => wireCell (serverOf E base wire) ⟨0, true⟩ (base + k))
  rw [decryptBlocks_wire _ _ _ _ hbase, hcells] at h
  refine h.trans (Prod.ext ?_ rfl)
  rw [plainAt, hwire, List.map_map]
  refine List.map_congr_left fun f _ => ?_
  show fileByte wire (base + f - base) ^^^ _ = _
  rw [Nat.add_sub_cancel_left]
  rfl

/-! ## Packets -/

/-- A data packet, and what the memory for its plaintext holds. -/
structure Packet where
  buf : List UInt8
  junk : Nat → UInt8

section

variable (E : List UInt8 → Nat → UInt8)

/-- The plaintext of a packet: the whole blocks, and what was there behind them. -/
def Packet.plain (iv : List UInt8) (p : Packet) : List UInt8 :=
  (List.range p.buf.length).map fun i =>
    ((blocksOf E (p.buf.length / 1024) iv p.buf).1[i]?).getD (p.junk i)

def Packet.nextIV (iv : List UInt8) (p : Packet) : List UInt8 :=
  (blocksOf E (p.buf.length / 1024) iv p.buf).2

/-- The plaintexts of the packets, one behind the other. -/
def plainRun : List UInt8 → List Packet → List UInt8
  | _, [] => []
  | iv, p :: ps => p.plain E iv ++ plainRun (p.nextIV E iv) ps

/-- The counter behind the packets. -/
def ivRun : List UInt8 → List Packet → List UInt8
  | iv, [] => iv
  | iv, p :: ps => ivRun (p.nextIV E iv) ps

end

section

variable {E : List UInt8 → Nat → UInt8}

theorem plainRun_append (iv : List UInt8) (ps qs : List Packet) :
    plainRun E iv (ps ++ qs) = plainRun E iv ps ++ plainRun E (ivRun E iv ps) qs := by
  induction ps generalizing iv with
  | nil => rfl
  | cons p ps ih =>
    rw [List.cons_append, plainRun, plainRun, ih, ivRun, List.append_assoc]

theorem Packet.length_plain (iv : List UInt8) (p : Packet) :
    (p.plain E iv).length = p.buf.length := by
  rw [Packet.plain, List.length_map, List.length_range]

theorem Packet.plain_of_whole (iv : List UInt8) {p : Packet} (h : p.buf.length % 1024 = 0) :
    p.plain E iv = (blocksOf E (p.buf.length / 1024) iv p.buf).1 := by
  have hlen : (blocksOf E (p.buf.length / 1024) iv p.buf).1.length = p.buf.length := by
    rw [length_blocksOf]
    omega
  refine List.ext_getElem (by rw [Packet.length_plain, hlen]) fun i hi hi' => ?_
  simp only [Packet.plain, List.getElem_map, List.getElem_range]
  rw [List.getElem?_eq_getElem hi', Option.getD_some]

/-- Packets of whole blocks are decrypted as if they were one. -/
theorem plainRun_whole (iv : List UInt8) {ps : List Packet}
    (h : ∀ p ∈ ps, p.buf.length % 1024 = 0) :
    plainRun E iv ps =
      (blocksOf E ((ps.map Packet.buf).flatten.length / 1024) iv (ps.map Packet.buf).flatten).1 := by
  induction ps generalizing iv with
  | nil => rfl
  | cons p ps ih =>
    obtain ⟨hp, hps⟩ := List.forall_mem_cons.mp h
    have hbuf : p.buf.length = 1024 * (p.buf.length / 1024) := by omega
    rw [plainRun, Packet.plain_of_whole iv hp, ih _ hps, List.map_cons, List.flatten_cons,
      List.length_append]
    have hdiv : (p.buf.length + (ps.map Packet.buf).flatten.length) / 1024 =
        p.buf.length / 1024 + (ps.map Packet.buf).flatten.length / 1024 := by omega
    rw [hdiv, blocksOf_append _ _ iv _ hbuf]
    rfl

theorem whole_flatten {bufs : List (List UInt8)} (h : ∀ buf ∈ bufs, buf.length % 1024 = 0) :
    bufs.flatten.length % 1024 = 0 := by
  induction bufs with
  | nil => rfl
  | cons buf bufs ih =>
    obtain ⟨hbuf, hbufs⟩ := List.forall_mem_cons.mp h
    have hrest := ih hbufs
    rw [List.flatten_cons, List.length_append]
    omega

/-- **Packets of whole blocks**, from the start of the keystream or from any block on. -/
theorem plainRun_eq {base : Nat} (hbase : base % 1024 = 0) {ps : List Packet}
    (h : ∀ p ∈ ps, p.buf.length % 1024 = 0) :
    plainRun E (ivAt (base / 16)) ps = plainAt E base (ps.map Packet.buf).flatten := by
  have hwhole : (ps.map Packet.buf).flatten.length % 1024 = 0 := by
    refine whole_flatten fun buf hbuf => ?_
    obtain ⟨p, hp, rfl⟩ := List.mem_map.mp hbuf
    exact h p hp
  rw [plainRun_whole _ h, blocksOf_eq E hbase (by omega)]

/-- The same packets over memory that holds the byte `b`. -/
def onto (b : UInt8) (bufs : List (List UInt8)) : List Packet := bufs.map fun buf => ⟨buf, fun _ => b⟩

theorem map_buf_over (b : UInt8) (bufs : List (List UInt8)) : (onto b bufs).map Packet.buf = bufs := by
  rw [onto, List.map_map]
  exact List.map_id bufs

/-- Where the memory does not show, the packets are whole. -/
theorem whole_of_over {iv : List UInt8} {bufs : List (List UInt8)}
    (h : plainRun E iv (onto 0 bufs) = plainRun E iv (onto 1 bufs)) :
    ∀ buf ∈ bufs, buf.length % 1024 = 0 := by
  induction bufs generalizing iv with
  | nil => exact nofun
  | cons buf bufs ih =>
    obtain ⟨hplain, hrest⟩ := List.append_inj h (by rw [Packet.length_plain, Packet.length_plain])
    refine List.forall_mem_cons.mpr ⟨?_, ih hrest⟩
    by_contra hpart
    -- the first byte behind the last whole block
    have hlast : 1024 * (buf.length / 1024) < buf.length := by omega
    have hnone : (blocksOf E (buf.length / 1024) iv buf).1[1024 * (buf.length / 1024)]? = none :=
      List.getElem?_eq_none (Nat.le_of_eq (length_blocksOf _ iv buf))
    have hbyte := congrArg (·[1024 * (buf.length / 1024)]?) hplain
    simp only [Packet.plain, List.getElem?_map, List.getElem?_range hlast, Option.map_some, hnone,
      Option.getD_none] at hbyte
    exact absurd hbyte (by decide)

end

/-! ## `despotify_substream_callback` -/

/-- The bytes of a packet, whatever file they are of. -/
def cellsOf (buf : List UInt8) : List Cell := buf.map fun b => ⟨none, b⟩

theorem cellsOf_bytes (buf : List UInt8) : (cellsOf buf).map Cell.byte = buf := by
  rw [cellsOf, List.map_map]
  exact List.map_id buf

theorem length_cellsOf (buf : List UInt8) : (cellsOf buf).length = buf.length := List.length_map _

/-- A data packet, and what `malloc (len + 1024)` returned for it. -/
abbrev Received : Type := { x : List UInt8 × List UInt8 // x.2.length = x.1.length + 1024 }

def Received.packet (x : Received) : Packet := ⟨x.1.1, fun i => x.1.2.getD i 0⟩

/-- What `snd_ioctl` is handed for the packets. -/
def handedOn (env : Env A) : Ds A → List Received → Option (List Cell)
  | _, [] => some []
  | ds, x :: xs =>
    (substreamData env ds (cellsOf x.1.1) x.1.2).bind fun ds' =>
      (handedOn env ds' xs).map
        ((plaintext env ds (cellsOf x.1.1) x.1.2).take x.1.1.length ++ ·)

theorem substreamData_keeps {env : Env A} {ds ds' : Ds A} {buf : List Cell} {mem : List UInt8}
    (h : substreamData env ds buf mem = some ds') :
    ds'.aesState = ds.aesState ∧
      ds'.iv = (decryptBlocks env ds.aesState (buf.length / 1024) ds.iv buf).2 ∧
      (ds'.fifo = none → ds.fifo = none) := by
  rw [substreamData_eq] at h
  obtain ⟨bytes, hq, -, -⟩ := enqueued_data h
  have hfifo := hq.fifo
  rcases hq with ⟨-, rfl⟩ | ⟨-, f, -, rfl⟩
  · exact ⟨rfl, rfl, hfifo⟩
  · exact ⟨rfl, rfl, hfifo⟩

theorem plaintext_bytes (env : Env A) (ds : Ds A) (x : Received) :
    ((plaintext env ds (cellsOf x.1.1) x.1.2).take x.1.1.length).map Cell.byte =
      x.packet.plain (env.encrypt ds.aesState) ds.iv := by
  obtain ⟨⟨buf, mem⟩, hmem⟩ := x
  have hblocks := decryptBlocks_bytes env ds.aesState (buf.length / 1024) ds.iv (cellsOf buf)
  rw [cellsOf_bytes] at hblocks
  have hplain := congrArg Prod.fst hblocks
  dsimp only at hplain
  have hmem : mem.length = buf.length + 1024 := hmem
  have hlen := length_blocksOf (E := env.encrypt ds.aesState) (buf.length / 1024) ds.iv buf
  have hcells : (plaintext env ds (cellsOf buf) mem).map Cell.byte =
      (blocksOf (env.encrypt ds.aesState) (buf.length / 1024) ds.iv buf).1 ++
        mem.drop (1024 * (buf.length / 1024)) := by
    have hcount := congrArg List.length hplain
    rw [hlen, List.length_map] at hcount
    unfold plaintext
    dsimp only
    rw [length_cellsOf, List.map_append, ← hplain, List.map_map, ← hcount]
    exact congrArg (_ ++ ·) (List.map_id _)
  rw [List.map_take, hcells]
  refine List.ext_getElem ?_ fun i hi hi' => ?_
  · rw [Packet.length_plain, List.length_take, List.length_append, List.length_drop, hlen, hmem]
    show min buf.length _ = buf.length
    omega
  have hi : i < buf.length := by rwa [Packet.length_plain] at hi'
  simp only [Received.packet, Packet.plain, List.getElem_take, List.getElem_map, List.getElem_range]
  by_cases hin : i < 1024 * (buf.length / 1024)
  · rw [List.getElem_append_left (by omega), List.getElem?_eq_getElem (by omega), Option.getD_some]
  · have hj : 1024 * (buf.length / 1024) + (i - 1024 * (buf.length / 1024)) = i := by omega
    rw [List.getElem_append_right (by omega), List.getElem_drop, List.getElem?_eq_none (by omega),
      Option.getD_none, List.getD_eq_getElem?_getD, List.getElem?_eq_getElem (by omega),
      Option.getD_some]
    simp only [hlen, hj]

theorem nextIV_packet (env : Env A) (ds : Ds A) (x : Received) :
    (decryptBlocks env ds.aesState ((cellsOf x.1.1).length / 1024) ds.iv (cellsOf x.1.1)).2 =
      x.packet.nextIV (env.encrypt ds.aesState) ds.iv := by
  have hblocks := decryptBlocks_bytes env ds.aesState (x.1.1.length / 1024) ds.iv (cellsOf x.1.1)
  rw [cellsOf_bytes] at hblocks
  rw [length_cellsOf]
  exact (congrArg Prod.snd hblocks).symm

/-- **The plaintext handed on** for a sequence of packets. -/
theorem handedOn_eq (env : Env A) {ds : Ds A} (hfifo : ds.fifo ≠ none) (xs : List Received) :
    ∃ out, handedOn env ds xs = some out ∧
      out.map Cell.byte = plainRun (env.encrypt ds.aesState) ds.iv (xs.map Received.packet) := by
  induction xs generalizing ds with
  | nil => exact ⟨[], rfl, rfl⟩
  | cons x xs ih =>
    obtain ⟨ds', hds⟩ := substreamData_some env (cellsOf x.1.1) x.1.2 hfifo
    obtain ⟨haes, hiv, hfifo'⟩ := substreamData_keeps hds
    obtain ⟨out, hout, hbytes⟩ := ih (fun hn => hfifo (hfifo' hn))
    refine ⟨_, by rw [handedOn, hds, Option.bind_some, hout]; rfl, ?_⟩
    rw [List.map_append, plaintext_bytes, hbytes, haes, hiv, nextIV_packet]
    rfl

end Despotify.Player

import Despotify.Java.Reading

/-!
# Java: the initial packet of the server

Stage by stage, exactly when `receiveInitialPacket` returns on a stream of bytes and
what it stores (`returns_receiveInitialPacket`).  `Acceptable` says it of the bytes that
have come; those of the fields at the end need not have.

    stored packet = the first `packetEnd` bytes, where so many have come       (Stored)
-/

namespace Despotify.Java

/-! ## The server random, the keys and the lengths -/

section Stages

variable {s : Protocol} {bs packet : List Int8} {failure : Option String} {n : Nat}
  {buffer : Vector Int8 512}

/-- The bytes from `n` on are still to come. -/
structure Reads (s : Protocol) (bs : List Int8) (failure : Option String) (n : Nat) : Prop where
  content : s.channel.content = bs.drop n
  failure : s.channel.failure = failure

theorem Reads.of_skip {s' : Protocol} {k : Nat} (h : Reads s bs failure n)
    (hs : s'.channel = s.channel.skip k) : Reads s' bs failure (n + k) := by
  constructor
  · rw [hs, Source.content_skip, h.content, List.drop_drop]
  · rw [hs, Source.failure_skip, h.failure]

theorem Reads.skip (h : Reads s bs failure n) (k : Nat) : Reads (s.skip k) bs failure (n + k) :=
  h.of_skip rfl

theorem Reads.of_channel {s' : Protocol} (h : Reads s bs failure n)
    (hs : s'.channel = s.channel) : Reads s' bs failure n :=
  ⟨hs ▸ h.content, hs ▸ h.failure⟩

theorem returns_session (s : Protocol) :
    Proc.Returns session s True (fun a s' => a = s.session ∧ s' = s) := Proc.Returns.of_eq rfl

/-- A status message always ends in an exception. -/
theorem statusMessage_throws (ret : Nat) {Q : Unit → Protocol → Prop} :
    Proc.Returns (statusMessage buffer ret) s False Q := by
  refine (returns_session s).seq (fun _ => trivial) ?_
  rintro session s1 - ⟨rfl, rfl⟩
  refine Proc.Returns.ite (fun _ => ?_) (fun _ => Proc.Returns.throw _ id)
  refine (returns_receive buffer 0 0x11a).seq False.elim ?_
  rintro received s2 - -
  refine Proc.Returns.ite (fun _ => ?_) (fun _ => Proc.Returns.throw _ id)
  refine (returns_receive received.2 0 _).seq False.elim ?_
  rintro text s3 - -
  exact Proc.Returns.ite (fun _ => Proc.Returns.throw _ id) (fun _ => Proc.Returns.throw _ id)

theorem getElem_zero_put {size : Nat} (bytes : Vector Int8 size) (got : List Int8)
    (h0 : 0 < size) : (put bytes 0 got)[0] = (got ++ [bytes[0]]).getD 0 0 := by
  unfold put
  cases got with
  | nil => simp
  | cons b got => simp

theorem toList_put_take (bytes : Vector Int8 16) (hlen : 16 ≤ bs.length) :
    (put (put bytes 0 (bs.take 2)) 2 ((bs.drop 2).take 14)).toList = bs.take 16 := by
  have h2 : (bs.take 2).length = 2 := length_take_eq_iff.mpr (by omega)
  have h14 : ((bs.drop 2).take 14).length = 14 := by
    rw [length_take_eq_iff, List.length_drop]
    omega
  have hrest : (put bytes 0 (bs.take 2)).toList.drop 16 = [] :=
    List.drop_eq_nil_of_le (Nat.le_of_eq Vector.length_toList)
  rw [toList_put _ _ _ (by omega), h14, take_put_zero _ _ (by omega) h2.symm, hrest,
    List.append_nil]
  exact (List.take_add (i := 2) (j := 14)).symm

theorem returns_receiveServerRandom (hs : Reads s bs failure 0) :
    Proc.Returns (receiveServerRandom buffer) s (16 ≤ bs.length ∧ bs.getD 0 0 = 0)
      (fun packet s' => packet = bs.take 16 ∧ Reads s' bs failure 16) := by
  have hcontent : s.channel.content = bs := hs.content
  refine (returns_receiveField Session.randomField 0 2).seq ?_ ?_
  · rintro ⟨hlen, -⟩
    refine ⟨?_, Or.inl ?_⟩
    · unfold Fit
      omega
    · rw [hcontent]
      omega
  rintro ret s1 - ⟨hret, hchannel, hrandom⟩
  have hs1 : Reads s1 bs failure 2 := hs.of_skip (n := 0) (k := 2) hchannel
  rw [hcontent] at hret hrandom
  have hret : ret = (bs.take 2).length := hret
  have hrandom : s1.session.serverRandom = put s.session.serverRandom 0 (bs.take 2) := hrandom
  rw [List.length_take] at hret
  refine (returns_session s1).seq (fun _ => trivial) ?_
  rintro session s2 - ⟨rfl, rfl⟩
  have hfirst : s2.session.serverRandom[0] =
      (bs.take 2 ++ [s.session.serverRandom[0]]).getD 0 0 := by
    rw [hrandom, getElem_zero_put _ _ (by omega)]
  have hzero (hlen : 2 ≤ bs.length) : s2.session.serverRandom[0] = bs.getD 0 0 := by
    rw [hfirst]
    cases bs with
    | nil => simp at hlen
    | cons b bs => rfl
  by_cases hstatus : s2.session.serverRandom[0] ≠ 0 ∨ ret ≠ 2
  · rw [if_pos hstatus]
    refine (Proc.Returns.bind_throws _ (statusMessage_throws ret)).imp ?_ (fun _ _ _ h => h)
    refine ⟨False.elim, ?_⟩
    rintro ⟨hlen, hbs⟩
    rcases hstatus with hrand | htwo
    · exact hrand ((hzero (by omega)).trans hbs)
    · omega
  · rw [if_neg hstatus]
    obtain ⟨hrand, htwo⟩ := not_or.mp hstatus
    refine (returns_receiveAllField Session.randomField 2 14 _ (by omega)).seq ?_ ?_
    · rintro ⟨hlen, -⟩
      rw [hs1.content, List.length_drop]
      omega
    rintro _ s3 hlen ⟨hchannel3, hrandom3⟩
    rw [hs1.content, List.length_drop] at hlen
    rw [hs1.content] at hrandom3
    have hrandom3 : s3.session.serverRandom =
        put s2.session.serverRandom 2 ((bs.drop 2).take 14) := hrandom3
    refine (returns_session s3).seq (fun _ => trivial) ?_
    rintro session s4 - ⟨rfl, rfl⟩
    refine (returns_putPacket _ _).imp ?_ ?_
    · rw [← hzero (by omega), not_not.mp hrand, Vector.length_toList, List.length_nil]
      constructor
      · intro _
        exact ⟨by omega, rfl⟩
      · intro _
        omega
    · rintro packet s5 - ⟨rfl, rfl⟩
      refine ⟨?_, hs1.of_skip hchannel3⟩
      rw [hrandom3, hrandom, List.nil_append, toList_put_take _ (by omega)]

/-- The packet grows by what is read. -/
theorem take_append_take (n k : Nat) : bs.take n ++ (bs.drop n).take k = bs.take (n + k) :=
  List.take_add.symm

theorem toList_put_all {size : Nat} (bytes : Vector Int8 size) {got : List Int8}
    (h : got.length = size) : (put bytes 0 got).toList = got := by
  rw [toList_put_zero bytes got (Nat.le_of_eq h),
    List.drop_eq_nil_of_le (by rw [Vector.length_toList]; omega), List.append_nil]

theorem length_take_drop {n k : Nat} (h : n + k ≤ bs.length) :
    ((bs.drop n).take k).length = k := by
  rw [List.length_take, List.length_drop]
  omega

/-- What is read next goes into the packet as well. -/
theorem returns_putPacket_take {k : Nat} (h : n + k ≤ bs.length) (hroom : n + k ≤ 1024) :
    Proc.Returns (putPacket (bs.take n) ((bs.drop n).take k)) s True
      (fun a s' => a = bs.take (n + k) ∧ s' = s) := by
  refine (returns_putPacket _ _).imp ?_ ?_
  · rw [length_take_drop h, List.length_take]
    simp only [iff_true]
    omega
  · rintro a s' - ⟨rfl, rfl⟩
    exact ⟨take_append_take n k, rfl⟩

theorem returns_receiveKeys (hs : Reads s bs failure 16) :
    Proc.Returns (receiveKeys buffer (bs.take 16)) s (378 ≤ bs.length)
      (fun keys s' => keys.2 = bs.take 378 ∧ Reads s' bs failure 378) := by
  have hlength (n : Nat) : (bs.drop n).length = bs.length - n := List.length_drop
  refine (returns_receiveAll buffer 96 _ (by omega)).seq (by rw [hs.content, hlength]; omega) ?_
  rintro buffer s1 hlen ⟨hbuffer, rfl⟩
  rw [hs.content] at hlen hbuffer
  rw [hlength] at hlen
  have hkey : buffer.toList.take 96 = (bs.drop 16).take 96 := by
    have h96 : ((bs.drop 16).take 96).length = 96 := length_take_drop (by omega)
    rw [hbuffer, take_put_zero _ _ (by omega) h96.symm]
  rw [hkey]
  refine (returns_putPacket_take (by omega) (by omega)).seq (fun _ => trivial) ?_
  rintro packet s2 - ⟨rfl, rfl⟩
  refine (Proc.Returns.modify _).seq (fun _ => trivial) ?_
  rintro _ s2 - hs2
  have hs2 : Reads s2 bs failure 112 := (hs.skip 96).of_channel (by rw [hs2])
  refine (returns_receiveAllField Session.blobField 0 256 _ (by omega)).seq
    (by rw [hs2.content, hlength]; omega) ?_
  rintro _ s3 hlen3 ⟨hchannel3, hblob⟩
  rw [hs2.content] at hlen3 hblob
  rw [hlength] at hlen3
  have hs3 : Reads s3 bs failure 368 := hs2.of_skip hchannel3
  have hblob : s3.session.serverBlob.toList = (bs.drop 112).take 256 := by
    have hput : s3.session.serverBlob = put _ 0 _ := hblob
    rw [hput, toList_put_all _ (length_take_drop (by omega))]
  refine (returns_session s3).seq (fun _ => trivial) ?_
  rintro session s4 - ⟨rfl, rfl⟩
  rw [hblob]
  refine (returns_putPacket_take (by omega) (by omega)).seq (fun _ => trivial) ?_
  rintro packet s5 - ⟨rfl, rfl⟩
  refine (returns_receiveAllField Session.saltField 0 10 _ (by omega)).seq
    (by rw [hs3.content, hlength]; omega) ?_
  rintro _ s6 hlen6 ⟨hchannel6, hsalt⟩
  rw [hs3.content] at hlen6 hsalt
  rw [hlength] at hlen6
  have hs6 : Reads s6 bs failure 378 := hs3.of_skip hchannel6
  have hsalt : s6.session.salt.toList = (bs.drop 368).take 10 := by
    have hput : s6.session.salt = put _ 0 _ := hsalt
    rw [hput, toList_put_all _ (length_take_drop (by omega))]
  refine (returns_session s6).seq (fun _ => trivial) ?_
  rintro session s7 - ⟨rfl, rfl⟩
  rw [hsalt]
  refine (returns_putPacket_take (by omega) (by omega)).seq (fun _ => trivial) ?_
  rintro packet s8 - ⟨rfl, rfl⟩
  refine (Proc.Returns.pure _).imp (by simp only [true_iff]; omega) ?_
  rintro keys s9 - ⟨rfl, rfl⟩
  exact ⟨rfl, hs6⟩

theorem unsigned_lt (b : Int8) : unsigned b < 256 := b.toUInt8.toNat_lt

theorem ofNat_unsigned (b : Int8) : Int8.ofNat (unsigned b) = b := by
  unfold unsigned
  apply Int8.toBitVec_inj.mp
  simp

/-- The lengths as the stream says them. -/
def lengthsOf (bs : List Int8) : Lengths where
  padding := unsigned (bs.getD 378 0)
  username := unsigned (bs.getD 379 0)
  puzzleChallenge := getShort (bs.getD 380 0) (bs.getD 381 0)
  unknown1 := getShort (bs.getD 382 0) (bs.getD 383 0)
  unknown2 := getShort (bs.getD 384 0) (bs.getD 385 0)
  unknown3 := getShort (bs.getD 386 0) (bs.getD 387 0)

/-- Where the puzzle challenge starts. -/
def Lengths.start (lengths : Lengths) : Nat := 388 + lengths.padding + lengths.username

theorem getD_drop (n i : Nat) : (bs.drop n).getD i 0 = bs.getD (n + i) 0 := by
  simp only [List.getD_eq_getElem?_getD, List.getElem?_drop]

/-- A byte read into the packet. -/
theorem returns_putPacket_byte (h : n + 1 ≤ bs.length) (hroom : n + 1 ≤ 1024) :
    Proc.Returns (putPacket (bs.take n) [Int8.ofNat (unsigned ((bs.drop n).getD 0 0))]) s True
      (fun a s' => a = bs.take (n + 1) ∧ s' = s) := by
  have hbyte : [Int8.ofNat (unsigned ((bs.drop n).getD 0 0))] = (bs.drop n).take 1 := by
    rw [ofNat_unsigned, getD_drop, Nat.add_zero, List.drop_eq_getElem_cons (by omega),
      List.getD_eq_getElem?_getD, List.getElem?_eq_getElem (by omega)]
    rfl
  rw [hbyte]
  exact returns_putPacket_take h hroom

theorem getElem_put_eight (bytes : Vector Int8 512) (h : 388 ≤ bs.length) {i : Nat} (hi : i < 8) :
    (put bytes 0 ((bs.drop 380).take 8))[i] = bs.getD (380 + i) 0 := by
  have h8 := length_take_drop (n := 380) (k := 8) h
  unfold put
  rw [Vector.getElem_ofFn, if_pos ⟨Nat.zero_le i, show i < _ by rw [h8]; omega⟩]
  simp only [List.getD_eq_getElem?_getD, List.getElem?_take, List.getElem?_drop, Nat.sub_zero]
  rw [if_pos hi]

theorem returns_receiveLengths (hs : Reads s bs failure 378) :
    Proc.Returns (receiveLengths buffer (bs.take 378)) s
      (380 ≤ bs.length ∧ (lengthsOf bs).padding ≠ 0 ∧ (388 ≤ bs.length ∨ failure = none))
      (fun a s' => a.1.padding = (lengthsOf bs).padding ∧ Reads s' bs failure 388 ∧
        (388 ≤ bs.length → a.1 = lengthsOf bs ∧ a.2.2 = bs.take 388)) := by
  have hlength (n : Nat) : (bs.drop n).length = bs.length - n := List.length_drop
  refine returns_receiveByte.seq (by rw [hs.content, hlength]; omega) ?_
  rintro padding s1 hlen ⟨hpadding, rfl⟩
  rw [hs.content] at hlen hpadding
  rw [hlength] at hlen
  have hs1 := hs.skip 1
  have hpad : padding = (lengthsOf bs).padding := by
    rw [hpadding, getD_drop]
    rfl
  rw [hpadding]
  refine (returns_putPacket_byte (by omega) (by omega)).seq (fun _ => trivial) ?_
  rintro packet s2 - ⟨rfl, rfl⟩
  rw [← hpadding]
  by_cases hzero : padding = 0
  · rw [if_pos hzero]
    refine Proc.Returns.throw _ ?_
    rintro ⟨-, hpadding, -⟩
    exact hpadding (hpad ▸ hzero)
  rw [if_neg hzero]
  refine returns_receiveByte.seq (by rw [hs1.content, hlength]; omega) ?_
  rintro username s3 hlen3 ⟨husername, rfl⟩
  rw [hs1.content] at hlen3 husername
  rw [hlength] at hlen3
  have hs3 := hs1.skip 1
  rw [husername]
  refine (returns_putPacket_byte (by omega) (by omega)).seq (fun _ => trivial) ?_
  rintro packet s4 - ⟨rfl, rfl⟩
  refine (returns_receive buffer 0 8).seq ?_ ?_
  · rintro ⟨-, -, hend⟩
    refine ⟨?_, ?_⟩
    · unfold Fit
      omega
    · unfold Arrived
      rw [hs3.content, hs3.failure, hlength]
      exact hend.imp_left (fun h => by omega)
  rintro lengths s5 ⟨-, hended⟩ ⟨-, hbuffer, rfl⟩
  rw [hs3.content] at hbuffer
  have hs5 := hs3.skip 8
  have hbuffer : lengths.2 = put buffer 0 ((bs.drop 380).take 8) := hbuffer
  refine (returns_putPacket _ _).seq ?_ ?_
  · intro _
    simp only [List.length_take, Vector.length_toList]
    omega
  rintro packet s6 - ⟨rfl, rfl⟩
  refine (Proc.Returns.pure _).imp ?_ ?_
  · refine ⟨fun _ => ⟨by omega, by rwa [← hpad], ?_⟩, fun _ => trivial⟩
    unfold Arrived at hended
    rw [hs3.content, hs3.failure, hlength] at hended
    exact hended.imp_left (fun h => by omega)
  · rintro a s7 - ⟨rfl, rfl⟩
    refine ⟨hpad, hs5, fun h => ⟨?_, ?_⟩⟩
    · have hget {i : Nat} (hi : i < 8) := getElem_put_eight buffer h hi
      rw [← husername, hbuffer, husername, getD_drop, hpad]
      simp only [hget (show 0 < 8 by omega), hget (show 1 < 8 by omega),
        hget (show 2 < 8 by omega), hget (show 3 < 8 by omega), hget (show 4 < 8 by omega),
        hget (show 5 < 8 by omega), hget (show 6 < 8 by omega), hget (show 7 < 8 by omega)]
      rfl
    · have h8 := length_take_drop (n := 380) (k := 8) h
      rw [hbuffer, take_put_zero _ _ (by omega) h8.symm]
      exact take_append_take 380 8

/-- The first byte of the buffer before the challenge is read into it: of the name of
the user, or of the padding where that is empty. -/
def staleByte (bs : List Int8) : Int8 :=
  ((bs.drop (388 + (lengthsOf bs).padding)).take (lengthsOf bs).username ++
    (bs.drop 388).take (lengthsOf bs).padding).getD 0 0

theorem returns_receiveUsername {lengths : Lengths} (hs : Reads s bs failure 388)
    (hpad : lengths.padding = (lengthsOf bs).padding) (hzero : (lengthsOf bs).padding ≠ 0)
    (h : 388 ≤ bs.length → lengths = lengthsOf bs ∧ packet = bs.take 388) :
    Proc.Returns (receiveUsername lengths buffer packet) s ((lengthsOf bs).start ≤ bs.length)
      (fun a s' => a.2 = bs.take (lengthsOf bs).start ∧
        Reads s' bs failure (lengthsOf bs).start ∧ a.1[0] = staleByte bs) := by
  have hlength (n : Nat) : (bs.drop n).length = bs.length - n := List.length_drop
  have hlt := unsigned_lt (bs.getD 378 0)
  have hlt' := unsigned_lt (bs.getD 379 0)
  have hpadlt : (lengthsOf bs).padding < 256 := hlt
  have huserlt : (lengthsOf bs).username < 256 := hlt'
  unfold Lengths.start
  refine (returns_receiveAll buffer _ _ (by omega)).seq (by rw [hs.content, hlength]; omega) ?_
  rintro buffer1 s1 hlen ⟨hbuffer, rfl⟩
  rw [hs.content] at hlen hbuffer
  rw [hlength] at hlen
  obtain ⟨rfl, rfl⟩ := h (by omega)
  have hs1 := hs.skip (lengthsOf bs).padding
  have hpadding : ((bs.drop 388).take (lengthsOf bs).padding).length = (lengthsOf bs).padding :=
    length_take_drop (by omega)
  have htake : buffer1.toList.take (lengthsOf bs).padding =
      (bs.drop 388).take (lengthsOf bs).padding := by
    rw [hbuffer, take_put_zero _ _ (by omega) hpadding.symm]
  rw [htake]
  refine (returns_putPacket_take (by omega) (by omega)).seq (fun _ => trivial) ?_
  rintro packet s2 - ⟨rfl, rfl⟩
  refine (returns_receiveAll buffer1 _ _ (by omega)).seq (by rw [hs1.content, hlength]; omega) ?_
  rintro buffer3 s3 hlen3 ⟨hbuffer3, rfl⟩
  rw [hs1.content] at hlen3 hbuffer3
  rw [hlength] at hlen3
  have hs3 := hs1.skip (lengthsOf bs).username
  have husername : ((bs.drop (388 + (lengthsOf bs).padding)).take (lengthsOf bs).username).length =
      (lengthsOf bs).username := length_take_drop (by omega)
  have htake3 : buffer3.toList.take (lengthsOf bs).username =
      (bs.drop (388 + (lengthsOf bs).padding)).take (lengthsOf bs).username := by
    rw [hbuffer3, take_put_zero _ _ (by omega) husername.symm]
  rw [htake3]
  refine (returns_putPacket_take (by omega) (by omega)).seq (fun _ => trivial) ?_
  rintro packet s4 - ⟨rfl, rfl⟩
  refine (Proc.Returns.modify _).seq (fun _ => trivial) ?_
  rintro _ s5 - hs5
  refine (Proc.Returns.pure _).imp (by simp only [true_iff]; omega) ?_
  rintro a s6 - ⟨rfl, rfl⟩
  refine ⟨rfl, hs3.of_channel (by rw [hs5]), ?_⟩
  unfold staleByte
  rw [hbuffer3, getElem_zero_put _ _ (by omega), hbuffer, getElem_zero_put _ _ (by omega)]
  -- the name is put over the padding, which is not empty
  cases hname : (bs.drop (388 + (lengthsOf bs).padding)).take (lengthsOf bs).username with
  | cons b name => rfl
  | nil =>
    cases hbytes : (bs.drop 388).take (lengthsOf bs).padding with
    | cons b padding => rfl
    | nil =>
      rw [hbytes] at hpadding
      exact absurd hpadding.symm hzero

/-! ## The challenge and the unknown fields -/

/-- The first `n` bytes of the buffer are the next ones, as far as there are any. -/
def Filled (rest : List Int8) (buffer buffer' : Vector Int8 512) (n : Nat) : Prop :=
  buffer'.toList = rest.take n ++ buffer.toList.drop (rest.take n).length

theorem Filled.put {rest : List Int8} {buffer buffer' : Vector Int8 512} {k : Nat}
    (h : Filled rest buffer buffer' n) (hn : n + k ≤ 512) :
    Filled rest buffer (put buffer' n ((rest.drop n).take k)) (n + k) := by
  unfold Filled at h ⊢
  have hsize : ((rest.drop n).take k).length ≤ k := List.length_take_le k _
  rw [toList_put _ _ _ (by omega), ← take_append_take n k, h]
  by_cases hrest : n ≤ rest.length
  · have hlen : (rest.take n).length = n := length_take_eq_iff.mpr hrest
    have hold : (rest.take n).drop (n + ((rest.drop n).take k).length) = [] :=
      List.drop_eq_nil_of_le (by omega)
    rw [List.take_append_of_le_length (by omega), List.take_of_length_le (by omega),
      List.drop_append, hold, List.nil_append, List.drop_drop, List.length_append, hlen]
    congr 2
    omega
  · have hnil : rest.drop n = [] := List.drop_eq_nil_of_le (by omega)
    rw [hnil, List.take_nil, List.append_nil, List.append_nil, List.length_nil, Nat.add_zero,
      List.take_append_drop]

theorem Filled.first {rest : List Int8} {buffer buffer' : Vector Int8 512}
    (h : Filled rest buffer buffer' n) (hn : 0 < n) :
    buffer'[0] = (rest ++ [buffer[0]]).getD 0 0 := by
  have hget (v : Vector Int8 512) : v[0] = v.toList.getD 0 0 := by
    rw [List.getD_eq_getElem?_getD, List.getElem?_eq_getElem (by simp), Option.getD_some,
      Vector.getElem_toList]
  unfold Filled at h
  rw [hget buffer', h]
  cases rest with
  | nil =>
    rw [List.take_nil, List.length_nil, List.drop_zero, List.nil_append, ← hget buffer]
    rfl
  | cons b rest =>
    obtain ⟨m, rfl⟩ : ∃ m, n = m + 1 := ⟨n - 1, by omega⟩
    rfl

section Fields

variable {lengths : Lengths} {start : Nat}

/-- All bytes have come before `n`, unless the stream has ended for good. -/
def ArrivedUpTo (bs : List Int8) (failure : Option String) (n : Nat) : Prop :=
  n ≤ bs.length ∨ failure = none

/-- One of the fields, with `off` bytes of them behind. -/
structure Field (s : Protocol) (bs : List Int8) (failure : Option String) (start : Nat)
    (buffer buffer' : Vector Int8 512) (off : Int) : Prop where
  nonneg : 0 ≤ off
  le : off ≤ 512
  reads : Reads s bs failure (start + off.toNat)
  complete : ArrivedUpTo bs failure (start + off.toNat)
  filled : Filled (bs.drop start) buffer buffer' off.toNat

theorem Field.returns {buffer' : Vector Int8 512} {off len : Int}
    (h : Field s bs failure start buffer buffer' off) :
    Proc.Returns (receive buffer' off len) s
      (0 ≤ len ∧ off + len ≤ 512 ∧ ArrivedUpTo bs failure (start + (off + len).toNat))
      (fun a s' => Field s' bs failure start buffer a.2 (off + len)) := by
  obtain ⟨hnonneg, hle, hreads, hcomplete, hfilled⟩ := h
  have hlength : s.channel.content.length = bs.length - (start + off.toNat) := by
    rw [hreads.content, List.length_drop]
  refine (returns_receive buffer' off len).imp ?_ ?_
  · unfold Fit Arrived ArrivedUpTo at *
    rw [hlength, hreads.failure]
    constructor
    · rintro ⟨⟨-, -, hlen, hsum⟩, hend⟩
      refine ⟨hlen, by omega, ?_⟩
      rcases hcomplete with hc | hc
      · exact hend.imp_left fun h => by omega
      · exact Or.inr hc
    · rintro ⟨hlen, hsum, hend⟩
      exact ⟨⟨hnonneg, by omega, hlen, by omega⟩, hend.imp_left fun h => by omega⟩
  · rintro a s' ⟨⟨-, -, hlen, hsum⟩, hend⟩ ⟨-, hput, rfl⟩
    have hnat : (off + len).toNat = off.toNat + len.toNat := by omega
    rw [hreads.content, ← List.drop_drop] at hput
    refine ⟨by omega, by omega, ?_, ?_, ?_⟩
    · rw [hnat, ← Nat.add_assoc]
      exact hreads.skip len.toNat
    · unfold Arrived ArrivedUpTo at *
      rw [hlength, hreads.failure] at hend
      rcases hcomplete with hc | hc
      · exact hend.imp_left fun h => by omega
      · exact Or.inr hc
    · rw [hput, hnat]
      exact hfilled.put (by omega)

/-- The lengths of the fields fit the buffer. -/
def Lengths.Fits (lengths : Lengths) : Prop :=
  0 ≤ lengths.puzzleChallenge ∧ 0 ≤ lengths.unknown1 ∧ 0 ≤ lengths.unknown2 ∧
    0 ≤ lengths.unknown3 ∧ lengths.total ≤ 512

instance (lengths : Lengths) : Decidable lengths.Fits := inferInstanceAs (Decidable (_ ∧ _))

theorem returns_receiveFields (hs : Reads s bs failure start) (hstart : start ≤ bs.length) :
    Proc.Returns (receiveFields lengths buffer) s
      (lengths.Fits ∧ ArrivedUpTo bs failure (start + lengths.total.toNat))
      (fun a s' => Field s' bs failure start buffer a lengths.total) := by
  have hfield : Field s bs failure start buffer buffer 0 := by
    refine ⟨by omega, by omega, hs, Or.inl hstart, ?_⟩
    unfold Filled
    simp
  have hcomplete {n m : Nat} (hn : n ≤ m) (h : ArrivedUpTo bs failure m) :
      ArrivedUpTo bs failure n :=
    h.imp_left fun hm => by omega
  unfold Lengths.Fits Lengths.total
  refine hfield.returns.seq ?_ ?_
  · rintro ⟨⟨h1, h2, h3, h4, h5⟩, hc⟩
    exact ⟨h1, by omega, hcomplete (by omega) hc⟩
  rintro a1 s1 ⟨h1, -, -⟩ hfield1
  rw [Int.zero_add] at hfield1
  refine hfield1.returns.seq ?_ ?_
  · rintro ⟨⟨-, h2, h3, h4, h5⟩, hc⟩
    exact ⟨h2, by omega, hcomplete (by omega) hc⟩
  rintro a2 s2 ⟨h2, -, -⟩ hfield2
  refine hfield2.returns.seq ?_ ?_
  · rintro ⟨⟨-, -, h3, h4, h5⟩, hc⟩
    exact ⟨h3, by omega, hcomplete (by omega) hc⟩
  rintro a3 s3 ⟨h3, -, -⟩ hfield3
  refine hfield3.returns.seq ?_ ?_
  · rintro ⟨⟨-, -, -, h4, h5⟩, hc⟩
    exact ⟨h4, h5, hc⟩
  rintro a4 s4 ⟨h4, h5, hc⟩ hfield4
  refine (Proc.Returns.pure _).imp ?_ ?_
  · simp only [true_iff]
    exact ⟨⟨h1, h2, h3, h4, h5⟩, hc⟩
  · rintro a s' - ⟨rfl, rfl⟩
    exact hfield4

end Fields

theorem returns_readPuzzle (total : Int) (h : 0 < 512) :
    Proc.Returns (readPuzzle buffer total) s (6 ≤ total ∧ buffer[0] = 1)
      (fun _ s' => s'.channel = s.channel ∧
        s'.session.initialServerPacket = s.session.initialServerPacket) := by
  unfold readPuzzle
  by_cases h1 : total < 1
  · rw [if_pos h1]
    exact Proc.Returns.throw _ (by omega)
  rw [if_neg h1]
  by_cases hfirst : buffer[0] = 1
  · rw [if_pos hfirst]
    by_cases h2 : total < 2
    · rw [if_pos h2]
      exact Proc.Returns.throw _ (by omega)
    rw [if_neg h2]
    refine (Proc.Returns.modify _).seq (fun _ => trivial) ?_
    rintro _ s1 - rfl
    by_cases h6 : total < 6
    · rw [if_pos h6]
      exact Proc.Returns.throw _ (by omega)
    rw [if_neg h6]
    refine (Proc.Returns.modify _).imp ?_ ?_
    · simp only [hfirst, and_true, true_iff]
      omega
    · rintro _ s2 - rfl
      exact ⟨rfl, rfl⟩
  · rw [if_neg hfirst]
    exact Proc.Returns.throw _ fun h => hfirst h.2

end Stages

/-! ## The initial packet -/

/-- A packet that is taken if nobody looks at what came of its fields. -/
structure Acceptable (bs : List Int8) : Prop where
  status : bs.getD 0 0 = 0
  padding : (lengthsOf bs).padding ≠ 0
  start : (lengthsOf bs).start ≤ bs.length
  fits : (lengthsOf bs).Fits
  room : (lengthsOf bs).start + (lengthsOf bs).total.toNat ≤ 1024
  puzzle : 6 ≤ (lengthsOf bs).total
  /-- the first byte of the challenge, or what is in the buffer where none came -/
  first : ((bs.drop (lengthsOf bs).start) ++ [staleByte bs]).getD 0 0 = 1

/-- The end of the initial packet. -/
def packetEnd (bs : List Int8) : Nat := (lengthsOf bs).start + (lengthsOf bs).total.toNat

/-- What is stored: as many bytes as the lengths say, of which those come from the
stream that have come. -/
def Stored (bs packet : List Int8) : Prop :=
  packet.length = packetEnd bs ∧ (packetEnd bs ≤ bs.length → packet = bs.take (packetEnd bs))

theorem returns_receiveInitialPacket (s : Protocol) :
    Proc.Returns receiveInitialPacket s
      (Acceptable s.channel.content ∧
        ArrivedUpTo s.channel.content s.channel.failure (packetEnd s.channel.content))
      (fun _ s' => ∃ packet, s'.session.initialServerPacket = some packet ∧
        Stored s.channel.content packet ∧
        s'.channel.content = s.channel.content.drop (packetEnd s.channel.content)) := by
  have hs : Reads s s.channel.content s.channel.failure 0 := ⟨rfl, rfl⟩
  generalize s.channel.content = bs at hs ⊢
  generalize s.channel.failure = failure at hs ⊢
  refine (returns_receiveServerRandom hs).seq ?_ ?_
  · rintro ⟨h, -⟩
    have hstart := h.start
    unfold Lengths.start at hstart
    exact ⟨by omega, h.status⟩
  rintro packet s1 ⟨-, hstatus⟩ ⟨rfl, hs1⟩
  refine (returns_receiveKeys hs1).seq ?_ ?_
  · rintro ⟨h, -⟩
    have hstart := h.start
    unfold Lengths.start at hstart
    omega
  rintro ⟨buffer2, packet⟩ s2 - ⟨hpacket, hs2⟩
  dsimp only at hpacket ⊢
  subst hpacket
  refine (returns_receiveLengths hs2).seq ?_ ?_
  · rintro ⟨h, -⟩
    have hstart := h.start
    unfold Lengths.start at hstart
    exact ⟨by omega, h.padding, Or.inl (by omega)⟩
  rintro ⟨lengths, buffer3, packet⟩ s3 ⟨-, hpadding, -⟩ ⟨hpad, hs3, hlengths⟩
  refine (returns_receiveUsername hs3 hpad hpadding hlengths).seq (fun h => h.1.start) ?_
  rintro ⟨buffer4, packet4⟩ s4 hstart ⟨hpacket, hs4, hstale⟩
  obtain ⟨rfl, -⟩ := hlengths (by unfold Lengths.start at hstart; omega)
  dsimp only at hpacket hstale ⊢
  subst hpacket
  refine (returns_receiveFields hs4 hstart).seq (fun h => ⟨h.1.fits, h.2⟩) ?_
  rintro buffer5 s5 ⟨hfits, hcomplete⟩ hfield
  have hlen : (buffer5.toList.take (lengthsOf bs).total.toNat).length =
      (lengthsOf bs).total.toNat := by
    have hle := hfield.le
    rw [List.length_take, Vector.length_toList]
    omega
  refine (returns_putPacket _ _).seq ?_ ?_
  · rintro ⟨h, -⟩
    have hroom := h.room
    rw [hlen, List.length_take]
    omega
  rintro packet6 s6 hroom ⟨rfl, rfl⟩
  rw [hlen, List.length_take, Nat.min_eq_left hstart] at hroom
  refine (Proc.Returns.modify _).seq (fun _ => trivial) ?_
  rintro _ s7 - rfl
  have htoList := hfield.filled
  unfold Filled at htoList
  have hfirst : 6 ≤ (lengthsOf bs).total →
      buffer5[0] = ((bs.drop (lengthsOf bs).start) ++ [staleByte bs]).getD 0 0 := by
    intro h6
    rw [← hstale]
    exact hfield.filled.first (by omega)
  refine (returns_readPuzzle _ (by decide)).imp ?_ ?_
  · constructor
    · rintro ⟨h6, hone⟩
      exact ⟨⟨hstatus, hpadding, hstart, hfits, hroom, h6, (hfirst h6).symm.trans hone⟩, hcomplete⟩
    · rintro ⟨h, -⟩
      exact ⟨h.puzzle, (hfirst h.puzzle).trans h.first⟩
  · rintro _ s8 - ⟨hchannel, hinitial⟩
    refine ⟨_, hinitial, ⟨?_, ?_⟩, ?_⟩
    · rw [List.length_append, hlen, List.length_take, Nat.min_eq_left hstart]
      rfl
    · intro hall
      unfold packetEnd at hall ⊢
      have hrest : ((bs.drop (lengthsOf bs).start).take (lengthsOf bs).total.toNat).length =
          (lengthsOf bs).total.toNat := length_take_drop hall
      have htake : buffer5.toList.take (lengthsOf bs).total.toNat =
          (bs.drop (lengthsOf bs).start).take (lengthsOf bs).total.toNat := by
        rw [htoList, List.take_append_of_le_length (by omega), List.take_of_length_le (by omega)]
      rw [htake, take_append_take]
    · rw [hchannel]
      exact hfield.reads.content

/-! ## What never changes -/

instance quiet_statusMessage (buffer : Vector Int8 512) (ret : Nat) :
    Quiet (statusMessage buffer ret) := by
  unfold statusMessage
  dsimp only
  infer_instance

instance quiet_receiveServerRandom (buffer : Vector Int8 512) :
    Quiet (receiveServerRandom buffer) := by
  unfold receiveServerRandom
  infer_instance

set_option synthInstance.maxSize 1000 in
instance quiet_receiveKeys (buffer : Vector Int8 512) (packet : List Int8) :
    Quiet (receiveKeys buffer packet) := by
  have hset (l : List Int8) := quiet_setSession
    (f := fun session => { session with dhServerPublicKey := l }) fun _ => rfl
  unfold receiveKeys
  infer_instance

instance quiet_receiveLengths (buffer : Vector Int8 512) (packet : List Int8) :
    Quiet (receiveLengths buffer packet) := by
  unfold receiveLengths
  dsimp only
  infer_instance

instance quiet_receiveUsername (lengths : Lengths) (buffer : Vector Int8 512)
    (packet : List Int8) : Quiet (receiveUsername lengths buffer packet) := by
  have hset (l : List Int8) := quiet_setSession
    (f := fun session => { session with username := l }) fun _ => rfl
  unfold receiveUsername
  infer_instance

instance quiet_receiveFields (lengths : Lengths) (buffer : Vector Int8 512) :
    Quiet (receiveFields lengths buffer) := by
  unfold receiveFields
  infer_instance

instance quiet_readPuzzle (buffer : Vector Int8 512) (total : Int) :
    Quiet (readPuzzle buffer total) := by
  have hdenominator (i : Int) := quiet_setSession
    (f := fun session => { session with puzzleDenominator := i }) fun _ => rfl
  have hmagic (i : Int) := quiet_setSession
    (f := fun session => { session with puzzleMagic := i }) fun _ => rfl
  unfold readPuzzle
  infer_instance

theorem quiet_receiveInitialPacket : Quiet receiveInitialPacket := by
  have hset (l : List Int8) := quiet_setSession
    (f := fun session => { session with initialServerPacket := some l }) fun _ => rfl
  unfold receiveInitialPacket
  dsimp only
  infer_instance

end Despotify.Java

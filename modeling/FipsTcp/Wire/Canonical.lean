/-
What the decoder accepts, and what the encoder makes of it.

`decodeOptionsLoop_sound` is the converse of `decodeOptionsLoop_encode`: the options that are read are plain, their encoding is
the front of the option area, and what follows is empty or starts with End-of-list (`padding`).
- `encode_read_back`: what is encoded is read back exactly if no unknown option has the kind of a known one. The encoder refuses
  only the kinds 0 and 1 (`encode_reinterpreted`).
- `reencode_canonical`: a decoded segment is encoded again, in no more bytes, to a byte string that decodes to it and is the
  original exactly if that is `Canonical`.
-/
import FipsTcp.Wire.RoundTrip

namespace FipsTcp

/-! ## Words -/

theorem be16_fromBe16 (a b : U8) : be16 (fromBe16 a b) = [a, b] := by
  have h1 : (fromBe16 a b).extractLsb' 8 8 = a := by
    refine BitVec.eq_of_getLsbD_eq fun i hi => ?_
    unfold fromBe16
    rw [BitVec.getLsbD_extractLsb', BitVec.getLsbD_append]
    simp [hi]
  have h2 : (fromBe16 a b).extractLsb' 0 8 = b := by
    refine BitVec.eq_of_getLsbD_eq fun i hi => ?_
    unfold fromBe16
    rw [BitVec.getLsbD_extractLsb', BitVec.getLsbD_append]
    simp [hi]
  rw [be16, h1, h2]

theorem be32_fromBe32 (a b c d : U8) : be32 (fromBe32 a b c d) = [a, b, c, d] := by
  have h : ∀ i (hi : i < 8), (fromBe32 a b c d).getLsbD (24 + i) = a.getLsbD i ∧
      (fromBe32 a b c d).getLsbD (16 + i) = b.getLsbD i ∧ (fromBe32 a b c d).getLsbD (8 + i) = c.getLsbD i ∧
      (fromBe32 a b c d).getLsbD i = d.getLsbD i := fun i hi => by
    unfold fromBe32
    simp only [BitVec.getLsbD_append]
    refine ⟨?_, ?_, ?_, ?_⟩
    · rw [if_neg (by omega), if_neg (by omega), if_neg (by omega)]
      congr 1
      omega
    · rw [if_neg (by omega), if_neg (by omega), if_pos (by omega)]
      congr 1
      omega
    · rw [if_neg (by omega), if_pos (by omega)]
      congr 1
      omega
    · rw [if_pos hi]
  have hext : ∀ (k : ℕ) (x : U8), (∀ i, i < 8 → (fromBe32 a b c d).getLsbD (k + i) = x.getLsbD i) →
      (fromBe32 a b c d).extractLsb' k 8 = x := fun k x hx => by
    refine BitVec.eq_of_getLsbD_eq fun i hi => ?_
    rw [BitVec.getLsbD_extractLsb', hx i hi]
    simp [hi]
  rw [be32, hext 24 a fun i hi => (h i hi).1, hext 16 b fun i hi => (h i hi).2.1, hext 8 c fun i hi => (h i hi).2.2.1,
    hext 0 d fun i hi => by rw [Nat.zero_add]; exact (h i hi).2.2.2]

theorem be16_front {l : List U8} {n : ℕ} (h : n + 2 ≤ l.length) : ∃ (x : U16) (rest : List U8), l = be16 x ++ rest ∧ n ≤ rest.length := by
  obtain ⟨a, l, rfl⟩ := List.exists_cons_of_length_pos (show 0 < l.length by omega)
  obtain ⟨b, l, rfl⟩ := List.exists_cons_of_length_pos (show 0 < l.length by simp only [List.length_cons] at h; omega)
  refine ⟨fromBe16 a b, l, ?_, by simp only [List.length_cons] at h; omega⟩
  rw [be16_fromBe16]
  rfl

theorem be32_front {l : List U8} {n : ℕ} (h : n + 4 ≤ l.length) : ∃ (x : U32) (rest : List U8), l = be32 x ++ rest ∧ n ≤ rest.length := by
  obtain ⟨a, l, rfl⟩ := List.exists_cons_of_length_pos (show 0 < l.length by omega)
  obtain ⟨b, l, rfl⟩ := List.exists_cons_of_length_pos (show 0 < l.length by simp only [List.length_cons] at h; omega)
  obtain ⟨c, l, rfl⟩ := List.exists_cons_of_length_pos (show 0 < l.length by simp only [List.length_cons] at h; omega)
  obtain ⟨d, l, rfl⟩ := List.exists_cons_of_length_pos (show 0 < l.length by simp only [List.length_cons] at h; omega)
  refine ⟨fromBe32 a b c d, l, ?_, by simp only [List.length_cons] at h; omega⟩
  rw [be32_fromBe32]
  rfl

/-- a header is its fields -/
theorem header_split {bytes : List U8} (h : 20 ≤ bytes.length) :
    ∃ (srcPort dstPort : U16) (seq rawAck : U32) (word window sum urgent : U16) (rest : List U8),
      bytes = be16 srcPort ++ be16 dstPort ++ be32 seq ++ be32 rawAck ++ be16 word ++ be16 window ++ be16 sum ++ be16 urgent ++
        rest := by
  obtain ⟨srcPort, l1, rfl, h1⟩ := be16_front (n := 18) h
  obtain ⟨dstPort, l2, rfl, h2⟩ := be16_front (n := 16) h1
  obtain ⟨seq, l3, rfl, h3⟩ := be32_front (n := 12) h2
  obtain ⟨rawAck, l4, rfl, h4⟩ := be32_front (n := 8) h3
  obtain ⟨word, l5, rfl, h5⟩ := be16_front (n := 6) h4
  obtain ⟨window, l6, rfl, h6⟩ := be16_front (n := 4) h5
  obtain ⟨sum, l7, rfl, h7⟩ := be16_front (n := 2) h6
  obtain ⟨urgent, rest, rfl, -⟩ := be16_front (n := 0) h7
  exact ⟨srcPort, dstPort, seq, rawAck, word, window, sum, urgent, rest, by simp only [List.append_assoc]⟩

/-! ## Options -/

namespace Segment

/-- an option area from its End-of-list on; `fuel` is at least the number of bytes left -/
def paddingLoop : ℕ → List U8 → List U8
  | 0, bytes => bytes
  | _ + 1, [] => []
  | fuel + 1, kind :: rest =>
    if kind = 0 then kind :: rest
    else if kind = 1 then paddingLoop fuel rest
    else
      match rest with
      | [] => []
      | len :: body => paddingLoop fuel (body.drop (len.toNat - 2))

def padding (area : List U8) : List U8 := paddingLoop area.length area

/-- an encoded option in front of encoded options -/
theorem encodeOptions_cons {o : TcpOption} {os : List TcpOption} {b bs : List U8} (h : o.encode = .ok b)
    (hs : encodeOptions os = .ok bs) : encodeOptions (o :: os) = .ok (b ++ bs) := by
  simp only [encodeOptions, h, hs, bind, Except.bind, pure, Except.pure]

/-- one option with a length byte, as the decoder reads it -/
def decodeOption (kind : U8) (data : List U8) : Except WireError TcpOption :=
  match data with
  | [a, b] =>
    if kind = 2 then .ok (.maxSegmentSize (fromBe16 a b))
    else if kind = FIPS_OPTION_KIND then .ok (.fipsVersion a b)
    else .ok (.unknown kind data)
  | _ => if kind = 2 ∨ kind = FIPS_OPTION_KIND then .error .malformedOption else .ok (.unknown kind data)

theorem decodeOptionsLoop_tlv {kind : U8} (h0 : kind ≠ 0) (h1 : kind ≠ 1) (fuel : ℕ) (lenByte : U8) (body : List U8) :
    decodeOptionsLoop (fuel + 1) (kind :: lenByte :: body) =
      if lenByte.toNat < 2 ∨ body.length + 2 < lenByte.toNat then .error .malformedOption
      else do
        let option ← decodeOption kind (body.take (lenByte.toNat - 2))
        let options ← decodeOptionsLoop fuel (body.drop (lenByte.toNat - 2))
        return option :: options := by
  rw [decodeOptionsLoop, if_neg h0, if_neg h1]
  rfl

/-- an option that was read is plain, and is encoded to the bytes it was read from -/
theorem decodeOption_sound {kind : U8} (h0 : kind ≠ 0) (h1 : kind ≠ 1) {lenByte : U8} {data : List U8} {o : TcpOption}
    (hlen : data.length + 2 = lenByte.toNat) (h : decodeOption kind data = .ok o) :
    o.Plain ∧ o.encode = .ok (kind :: lenByte :: data) := by
  have hunknown : ∀ (_ : kind ≠ 2) (_ : kind ≠ FIPS_OPTION_KIND), (TcpOption.unknown kind data).Plain ∧
      (TcpOption.unknown kind data).encode = .ok (kind :: lenByte :: data) := fun h2 h254 => by
    have hkind : ¬ kind.toNat ≤ 1 := fun hle => by
      have : kind.toNat = 0 ∨ kind.toNat = 1 := by omega
      rcases this with h | h
      · exact h0 (BitVec.eq_of_toNat_eq h)
      · exact h1 (BitVec.eq_of_toNat_eq h)
    have hbyte : BitVec.ofNat 8 (data.length + 2) = lenByte := by rw [hlen]; exact BitVec.ofNat_toNat 8 lenByte
    refine ⟨⟨h2, h254⟩, ?_⟩
    rw [TcpOption.encode, if_neg (by have := lenByte.isLt; omega), if_neg hkind, hbyte]
    rfl
  have hfour : ∀ {a b : U8}, data = [a, b] → lenByte = 4 := fun hd => by
    apply BitVec.eq_of_toNat_eq
    rw [← hlen, hd]
    rfl
  unfold decodeOption at h
  split at h
  · rename_i a b
    rw [hfour rfl]
    rw [hfour rfl] at hunknown
    split_ifs at h with h2 h254
    · cases h
      refine ⟨trivial, ?_⟩
      rw [TcpOption.encode, be16_fromBe16, h2]
      rfl
    · cases h
      refine ⟨trivial, ?_⟩
      rw [TcpOption.encode, h254]
    · cases h
      exact hunknown h2 h254
  · split_ifs at h with h2
    cases h
    exact hunknown (not_or.1 h2).1 (not_or.1 h2).2

/-- **Soundness of the option decoder.** What is read is plain, and its encoding is what comes before the padding. -/
theorem decodeOptionsLoop_sound {fuel : ℕ} {bytes : List U8} {options : List TcpOption} (hfuel : bytes.length ≤ fuel)
    (h : decodeOptionsLoop fuel bytes = .ok options) :
    (∀ o ∈ options, o.Plain) ∧ ∃ encoded, encodeOptions options = .ok encoded ∧ bytes = encoded ++ paddingLoop fuel bytes := by
  have hnone : ∀ {l : List U8}, (∀ o ∈ ([] : List TcpOption), o.Plain) ∧
      ∃ encoded, encodeOptions [] = .ok encoded ∧ l = encoded ++ l := ⟨(fun _ h => nomatch h), [], rfl, rfl⟩
  have hcons : ∀ {o : TcpOption} {os : List TcpOption} {b rest pad : List U8}, o.Plain → o.encode = .ok b →
      ((∀ o ∈ os, o.Plain) ∧ ∃ encoded, encodeOptions os = .ok encoded ∧ rest = encoded ++ pad) →
      (∀ x ∈ o :: os, x.Plain) ∧ ∃ encoded, encodeOptions (o :: os) = .ok encoded ∧ b ++ rest = encoded ++ pad :=
    fun {o os b rest pad} ho hb hos => by
      obtain ⟨hp, encoded, he, hrest⟩ := hos
      refine ⟨fun x hx => ?_, b ++ encoded, encodeOptions_cons hb he, by rw [List.append_assoc, ← hrest]⟩
      rcases List.mem_cons.1 hx with rfl | hx
      · exact ho
      · exact hp x hx
  induction fuel generalizing bytes options with
  | zero =>
    cases h
    exact hnone
  | succ fuel ih =>
    cases bytes with
    | nil =>
      cases h
      exact hnone
    | cons kind rest =>
      simp only [List.length_cons, Nat.add_le_add_iff_right] at hfuel
      by_cases h0 : kind = 0
      · subst h0
        cases h
        exact hnone
      by_cases h1 : kind = 1
      · subst h1
        rcases hr : decodeOptionsLoop fuel rest with e | os
        · simp [decodeOptionsLoop, hr, bind, Except.bind] at h
        · have h' : options = .noOperation :: os := by
            simp [decodeOptionsLoop, hr, bind, Except.bind, pure, Except.pure] at h
            exact h.symm
          rw [h']
          exact hcons (o := .noOperation) (b := [1]) trivial rfl (ih hfuel hr)
      cases rest with
      | nil =>
        exfalso
        rw [decodeOptionsLoop, if_neg h0, if_neg h1] at h
        cases h
      | cons lenByte body =>
        rw [decodeOptionsLoop_tlv h0 h1] at h
        split_ifs at h with hlen
        rw [not_or, not_lt, not_lt] at hlen
        rcases ho : decodeOption kind (body.take (lenByte.toNat - 2)) with e | o <;> rw [ho] at h
        · cases h
        rcases hos : decodeOptionsLoop fuel (body.drop (lenByte.toNat - 2)) with e | os <;>
          simp only [bind, Except.bind, hos, pure, Except.pure] at h
        · cases h
        cases h
        have hdata : (body.take (lenByte.toNat - 2)).length + 2 = lenByte.toNat := by
          rw [List.length_take]
          omega
        obtain ⟨hplain, hencode⟩ := decodeOption_sound h0 h1 hdata ho
        have hrest : (body.drop (lenByte.toNat - 2)).length ≤ fuel := by
          rw [List.length_drop]
          simp only [List.length_cons] at hfuel
          omega
        have hpad : paddingLoop (fuel + 1) (kind :: lenByte :: body) = paddingLoop fuel (body.drop (lenByte.toNat - 2)) := by
          rw [paddingLoop, if_neg h0, if_neg h1]
        have hbytes : kind :: lenByte :: body = (kind :: lenByte :: body.take (lenByte.toNat - 2)) ++
            body.drop (lenByte.toNat - 2) := by
          rw [List.cons_append, List.cons_append, List.take_append_drop]
        rw [hpad]
        nth_rewrite 1 [hbytes]
        exact hcons hplain hencode (ih hrest hos)

/-! ## Accepted datagrams -/

/-- what the decoder has checked: the fields of the header, and where the options and the payload stand -/
theorem decode_ok {b : List U8} {s : Segment} (h : decode b = .ok s) :
    ∃ (rawAck : U32) (word : U16) (area : List U8),
      b = be16 s.srcPort ++ be16 s.dstPort ++ be32 s.seq ++ be32 rawAck ++ be16 word ++ be16 s.window ++ be16 0 ++ be16 0 ++
        (area ++ s.payload) ∧
      ¬ (s.srcPort = 0 ∨ s.dstPort = 0) ∧ (word >>> 12).toNat * 4 = HEADER_LEN + area.length ∧
      s.flags.bits = word &&& 0x1ff ∧ s.flags.bits &&& ~~~Flags.supportedMask = 0 ∧
      s.ack = (if s.flags.contains .ACK then some rawAck else none) ∧ decodeOptions area = .ok s.options := by
  have h20 : 20 ≤ b.length := by
    by_contra hlt
    rw [decode, dif_pos (not_le.1 hlt)] at h
    cases h
  obtain ⟨srcPort, dstPort, seq, rawAck, word, window, sum, urgent, rest, rfl⟩ := header_split h20
  rw [decode_header] at h
  dsimp only at h
  split_ifs at h with hports hheader hsum hurgent
  rw [not_or, not_not, not_lt] at hheader
  rw [not_not] at hsum hurgent
  rcases hf : Flags.fromWire (word &&& 0x1ff) with e | flags <;> rw [hf] at h
  · cases h
  rcases ho : decodeOptions (rest.take ((word >>> 12).toNat * 4 - HEADER_LEN)) with e | options <;>
    simp only [bind, Except.bind, ho, pure, Except.pure] at h
  · cases h
  cases h
  simp only [Flags.fromWire] at hf
  split_ifs at hf with hsupported
  cases hf
  refine ⟨rawAck, word, rest.take ((word >>> 12).toNat * 4 - HEADER_LEN), ?_, hports, ?_, rfl, not_not.1 hsupported, rfl, ho⟩
  · rw [List.take_append_drop, hsum, hurgent]
  · rw [List.length_take]
    omega

/-- what is decoded is plain -/
theorem decode_plain {b : List U8} {s : Segment} (h : decode b = .ok s) : s.Plain := by
  obtain ⟨-, -, area, -, -, -, -, hflags, -, ho⟩ := decode_ok h
  exact ⟨hflags, (decodeOptionsLoop_sound le_rfl ho).1⟩

end Segment

/-! ## Reading back what was encoded -/

/-- the flags that can be built: the constructor is private to the codec -/
inductive Flags.Built : Flags → Prop
  | empty : Built .empty
  | fin : Built .FIN
  | syn : Built .SYN
  | rst : Built .RST
  | psh : Built .PSH
  | ack : Built .ACK
  | ece : Built .ECE
  | cwr : Built .CWR
  | union {f flag : Flags} : Built f → Built flag → Built (f.union flag)
  | wire {bits : U16} {f : Flags} : Flags.fromWire bits = .ok f → Built f

theorem Flags.Built.supported {f : Flags} (h : f.Built) : f.bits &&& ~~~Flags.supportedMask = 0 := by
  induction h with
  | union _ _ h1 h2 =>
    change (_ ||| _) &&& _ = _
    rw [BitVec.and_comm, BitVec.and_or_distrib_left, BitVec.and_comm, h1, BitVec.and_comm, h2]
    rfl
  | wire h =>
    simp only [Flags.fromWire] at h
    split_ifs at h with hsupported
    cases h
    exact not_not.1 hsupported
  | _ => decide

/-- **Reading back.** An encoded segment is decoded as itself exactly if no unknown option has the kind of a known one. -/
theorem encode_read_back {s : Segment} (hflags : s.flags.Built) (hend : TcpOption.endOfList ∉ s.options) {bytes : List U8}
    (h : s.encode = .ok bytes) :
    Segment.decode bytes = .ok s ↔ ∀ kind data, TcpOption.unknown kind data ∈ s.options → kind ≠ 2 ∧ kind ≠ FIPS_OPTION_KIND := by
  constructor
  · intro hd kind data ho
    exact (Segment.decode_plain hd).options _ ho
  · intro hkinds
    refine Segment.decode_encode ⟨hflags.supported, fun o ho => ?_⟩ h
    cases o with
    | endOfList => exact absurd ho hend
    | unknown kind data => exact hkinds kind data ho
    | _ => trivial

/-- a segment with one unknown option -/
def unknownSegment (kind : U8) (data : List U8) : Segment :=
  { Segment.new 1 2 0 with options := [.unknown kind data] }

theorem encode_read_back_seven : Segment.decode [0, 1, 0, 2, 0, 0, 0, 0, 0, 0, 0, 0, 96, 0, 255, 255, 0, 0, 0, 0, 7, 3, 9, 0] =
    .ok (unknownSegment 7 [9]) := by
  refine (encode_read_back (s := unknownSegment 7 [9]) .empty (by decide) (by decide)).2 fun kind data h => ?_
  cases List.mem_singleton.1 h
  decide

/-- the encoder takes an unknown option of the kind of the maximum segment size, and the decoder reads the latter -/
theorem encode_reinterpreted : ∃ bytes, (unknownSegment 2 [1, 2]).encode = .ok bytes ∧
    Segment.decode bytes = .ok { unknownSegment 2 [1, 2] with options := [.maxSegmentSize 258] } ∧
    Segment.decode bytes ≠ .ok (unknownSegment 2 [1, 2]) :=
  ⟨[0, 1, 0, 2, 0, 0, 0, 0, 0, 0, 0, 0, 96, 0, 255, 255, 0, 0, 0, 0, 2, 4, 1, 2], by decide, by decide, by decide⟩

/-! ## Canonical datagrams -/

/-- the data offset and the flags -/
def offsetAndFlags (b : List U8) : U16 := fromBe16 (b.getD 12 0) (b.getD 13 0)

def ackField (b : List U8) : U32 := fromBe32 (b.getD 8 0) (b.getD 9 0) (b.getD 10 0) (b.getD 11 0)

def optionArea (b : List U8) : List U8 := (b.take ((offsetAndFlags b >>> 12).toNat * 4)).drop HEADER_LEN

/-- the padding is the option area from its End-of-list on -/
structure Canonical (b : List U8) : Prop where
  reserved : offsetAndFlags b >>> 9 &&& 7 = 0
  ackField : (Flags.mk (offsetAndFlags b &&& 0x1ff)).contains .ACK = false → ackField b = 0
  endOfList : ∀ x ∈ Segment.padding (optionArea b), x = 0
  rounding : (optionArea b).length = ((optionArea b).length - (Segment.padding (optionArea b)).length + 3) / 4 * 4

/-- a word without its reserved bits is the word exactly if these are zero -/
theorem reserved_iff {k : ℕ} (hk : k < 16) {word : U16} (hflags : (word &&& 0x1ff) &&& ~~~Flags.supportedMask = 0) :
    (BitVec.ofNat 16 k <<< 12 ||| (word &&& 0x1ff)) = word ↔ k = (word >>> 12).toNat ∧ word >>> 9 &&& 7 = 0 := by
  obtain ⟨hoffset, hlow⟩ := offset_flags hk (f := ⟨word &&& 0x1ff⟩) hflags
  have hlow' : ((0x1ff : U16)).toNat = 2 ^ 9 - 1 := by decide
  have hseven : ((7 : U16)).toNat = 2 ^ 3 - 1 := by decide
  have hreserved : (word >>> 9 &&& 7).toNat = word.toNat / 512 % 8 := by
    rw [BitVec.toNat_and, hseven, Nat.and_two_pow_sub_one_eq_mod, BitVec.toNat_ushiftRight, Nat.shiftRight_eq_div_pow]
  have hzero : word >>> 9 &&& 7 = 0 ↔ word.toNat / 512 % 8 = 0 := by
    rw [← hreserved]
    exact ⟨fun h => by rw [h]; rfl, fun h => BitVec.eq_of_toNat_eq h⟩
  have hshift : ∀ w : U16, (w >>> 12).toNat = w.toNat / 4096 := fun w => by
    rw [BitVec.toNat_ushiftRight, Nat.shiftRight_eq_div_pow]
  have hand : ∀ w : U16, (w &&& 0x1ff).toNat = w.toNat % 512 := fun w => by
    rw [BitVec.toNat_and, hlow', Nat.and_two_pow_sub_one_eq_mod]
  generalize hw : (BitVec.ofNat 16 k <<< 12 ||| (word &&& 0x1ff) : U16) = w at hoffset hlow ⊢
  have hwlow : w.toNat % 512 = word.toNat % 512 := by rw [← hand, ← hand, hlow]
  have hwres : w.toNat / 512 % 8 = 0 := by
    have hor : w.toNat = k * 4096 + word.toNat % 512 := by
      rw [← hw, BitVec.toNat_or, BitVec.toNat_shiftLeft, BitVec.toNat_ofNat, Nat.mod_eq_of_lt (by omega), Nat.shiftLeft_eq,
        Nat.mod_eq_of_lt (by omega), hand]
      have hor := Nat.two_pow_add_eq_or_of_lt (i := 12) (b := word.toNat % 512) (by omega) k
      rw [Nat.mul_comm k, ← hor]
    omega
  rw [hshift] at hoffset ⊢
  rw [hzero]
  constructor
  · rintro rfl
    exact ⟨hoffset.symm, hwres⟩
  · intro h
    apply BitVec.eq_of_toNat_eq
    omega

/-- padding is zero up to a multiple of four -/
theorem padding_iff {n : ℕ} {padding : List U8} :
    List.replicate n 0 = padding ↔ n = padding.length ∧ ∀ x ∈ padding, x = 0 := by
  rw [eq_comm, List.eq_replicate_iff, eq_comm (a := n)]

theorem header_length (srcPort dstPort : U16) (seq rawAck : U32) (word window : U16) (rest : List U8) :
    (be16 srcPort ++ be16 dstPort ++ be32 seq ++ be32 rawAck ++ be16 word ++ be16 window ++ be16 0 ++ be16 0 ++ rest).length =
      20 + rest.length := by
  rw [List.length_append]
  rfl

/-- headers in front of two byte strings, with the fields that a round trip may change -/
theorem header_congr (srcPort dstPort : U16) (seq : U32) (window : U16) {rawAck rawAck' : U32} {word word' : U16}
    {rest rest' : List U8} :
    be16 srcPort ++ be16 dstPort ++ be32 seq ++ be32 rawAck ++ be16 word ++ be16 window ++ be16 0 ++ be16 0 ++ rest =
        be16 srcPort ++ be16 dstPort ++ be32 seq ++ be32 rawAck' ++ be16 word' ++ be16 window ++ be16 0 ++ be16 0 ++ rest' ↔
      rawAck = rawAck' ∧ word = word' ∧ rest = rest' := by
  constructor
  · intro h
    simp only [List.append_assoc, List.append_cancel_left_eq] at h
    obtain ⟨hack, h⟩ := List.append_inj h rfl
    obtain ⟨hword, h⟩ := List.append_inj h rfl
    simp only [List.append_cancel_left_eq] at h
    refine ⟨?_, ?_, h⟩
    · have := congrArg (fun l : List U8 => fromBe32 (l.getD 0 0) (l.getD 1 0) (l.getD 2 0) (l.getD 3 0)) hack
      exact (fromBe32_be32 rawAck).symm.trans (this.trans (fromBe32_be32 rawAck'))
    · have := congrArg (fun l : List U8 => fromBe16 (l.getD 0 0) (l.getD 1 0)) hword
      exact (fromBe16_be16 word).symm.trans (this.trans (fromBe16_be16 word'))
  · rintro ⟨rfl, rfl, rfl⟩
    rfl

/-- **Canonicalization.** A decoded segment is encoded again, in no more bytes, to bytes that decode to it; these are the
original exactly if that is canonical. -/
theorem reencode_canonical {b : List U8} {s : Segment} (h : Segment.decode b = .ok s) :
    ∃ b', s.encode = .ok b' ∧ b'.length ≤ b.length ∧ Segment.decode b' = .ok s ∧ (b' = b ↔ Canonical b) := by
  have hplain := Segment.decode_plain h
  obtain ⟨rawAck, word, area, hb, hports, hheader, hflags, hsupported, hack, ho⟩ := Segment.decode_ok h
  obtain ⟨-, encoded, hencoded, harea⟩ := Segment.decodeOptionsLoop_sound le_rfl ho
  change area = encoded ++ Segment.padding area at harea
  have hlen : area.length = encoded.length + (Segment.padding area).length := by
    conv_lhs => rw [harea, List.length_append]
  have hHEADER : HEADER_LEN = 20 := rfl
  have hword : (word >>> 12).toNat < 16 := by
    rw [BitVec.toNat_ushiftRight, Nat.shiftRight_eq_div_pow]
    have := word.isLt
    omega
  -- the header of the encoding, in words
  obtain ⟨k, hk⟩ : ∃ k, k * 4 = HEADER_LEN + (encoded.length + 3) / 4 * 4 := ⟨5 + (encoded.length + 3) / 4, by omega⟩
  have hackSome : s.flags.contains .ACK = s.ack.isSome := by
    rw [hack]
    cases s.flags.contains .ACK <;> rfl
  have hb' := Segment.encode_header hports hackSome hencoded hk (by omega)
  refine ⟨_, hb', ?_, Segment.decode_encode hplain hb', ?_⟩
  · rw [hb, header_length, header_length, List.length_append, List.length_append, List.length_append, List.length_replicate]
    omega
  -- the parts of the original that a canonical datagram is about
  have hparts : offsetAndFlags b = word ∧ ackField b = rawAck ∧ optionArea b = area := by
    have hword' : offsetAndFlags b = word := by rw [hb]; exact fromBe16_be16 word
    refine ⟨hword', by rw [hb]; exact fromBe32_be32 rawAck, ?_⟩
    rw [optionArea, hword', hheader, List.drop_take, Nat.add_sub_cancel_left, hb]
    exact List.take_left
  have hcanonical : Canonical b ↔ (word >>> 9 &&& 7 = 0 ∧ (s.flags.contains .ACK = false → rawAck = 0) ∧
      (∀ x ∈ Segment.padding area, x = 0) ∧
      area.length = (area.length - (Segment.padding area).length + 3) / 4 * 4) := by
    obtain ⟨h1, h2, h3⟩ := hparts
    have hf : Flags.mk (word &&& 0x1ff) = s.flags := by rw [← hflags]
    constructor
    · rintro ⟨h4, h5, h6, h7⟩
      rw [h1] at h4 h5
      rw [h2, hf] at h5
      rw [h3] at h6 h7
      exact ⟨h4, h5, h6, h7⟩
    · rintro ⟨h4, h5, h6, h7⟩
      exact ⟨by rw [h1]; exact h4, by rw [h1, h2, hf]; exact h5, by rw [h3]; exact h6, by rw [h3]; exact h7⟩
  rw [hcanonical, hb, header_congr, hflags, reserved_iff (by omega) (by rw [← hflags]; exact hsupported)]
  have hackField : s.ack.getD 0 = rawAck ↔ (s.flags.contains .ACK = false → rawAck = 0) := by
    rw [hack]
    cases s.flags.contains .ACK
    · exact ⟨fun h _ => h.symm, fun h => (h rfl).symm⟩
    · exact ⟨fun _ => (fun h => nomatch h), fun _ => rfl⟩
  have hrest : encoded ++ List.replicate (k * 4 - (20 + encoded.length)) 0 ++ s.payload = area ++ s.payload ↔
      k * 4 - (20 + encoded.length) = (Segment.padding area).length ∧ ∀ x ∈ Segment.padding area, x = 0 := by
    rw [List.append_left_inj]
    conv_lhs => rw [harea]
    rw [List.append_right_inj, padding_iff]
  rw [hackField, hrest]
  constructor
  · rintro ⟨h1, ⟨h2, h3⟩, h4, h5⟩
    exact ⟨h3, h1, h5, by omega⟩
  · rintro ⟨h1, h2, h3, h4⟩
    exact ⟨h2, ⟨by omega, h1⟩, by omega, h3⟩

theorem reencode_canonical_reserved : ∃ b', (Segment.new 1 2 0).encode = .ok b' ∧
    b' ≠ [0, 1, 0, 2, 0, 0, 0, 0, 0, 0, 0, 0, 0x52, 0, 255, 255, 0, 0, 0, 0] := by
  obtain ⟨b', he, -, -, hb⟩ := reencode_canonical
    (b := [0, 1, 0, 2, 0, 0, 0, 0, 0, 0, 0, 0, 0x52, 0, 255, 255, 0, 0, 0, 0]) (s := Segment.new 1 2 0) (by decide)
  refine ⟨b', he, fun h => ?_⟩
  have hreserved := (hb.1 h).1
  revert hreserved
  decide

end FipsTcp

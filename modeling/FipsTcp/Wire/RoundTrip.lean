/-
Reading back what was encoded.

An option is `Plain` if it does not end the list and no other option has its kind. The decoder reads a list of plain options
back from its encoding, whatever padding follows (`decodeOptionsLoop_encode`), and a segment from its header, its options and
its payload (`decode_encode`). The segments of the state machine are plain (`buildSegment_plain`, `resetFor_plain`).
-/
import FipsTcp.Core.Connection

namespace FipsTcp

/-! ## Words -/

theorem fromBe16_be16 (x : U16) : fromBe16 (x.extractLsb' 8 8) (x.extractLsb' 0 8) = x := by
  refine BitVec.eq_of_getLsbD_eq fun i hi => ?_
  unfold fromBe16
  rw [BitVec.getLsbD_append]
  split_ifs with h <;> rw [BitVec.getLsbD_extractLsb']
  · simp [h]
  · simp [show i - 8 < 8 by omega, show 8 + (i - 8) = i by omega]

theorem fromBe32_be32 (x : U32) :
    fromBe32 (x.extractLsb' 24 8) (x.extractLsb' 16 8) (x.extractLsb' 8 8) (x.extractLsb' 0 8) = x := by
  refine BitVec.eq_of_getLsbD_eq fun i hi => ?_
  unfold fromBe32
  simp only [BitVec.getLsbD_append, BitVec.getLsbD_extractLsb']
  split_ifs with h1 h2 h3
  · simp [h1]
  · simp [h2, show 8 + (i - 8) = i by omega]
  · simp [h3, show 16 + (i - 8 - 8) = i by omega]
  · simp [show i - 8 - 8 - 8 < 8 by omega, show 24 + (i - 8 - 8 - 8) = i by omega]

/-- flags that the decoder knows are below the data offset -/
theorem Flags.and_supported {f : Flags} (h : f.bits &&& ~~~supportedMask = 0) : f.bits &&& supportedMask = f.bits := by
  have hor : (f.bits &&& supportedMask) ||| (f.bits &&& ~~~supportedMask) = f.bits := by
    rw [← BitVec.and_or_distrib_left, (by decide : supportedMask ||| ~~~supportedMask = BitVec.allOnes 16), BitVec.and_allOnes]
  rw [h] at hor
  simpa using hor

theorem Flags.lt_of_supported {f : Flags} (h : f.bits &&& ~~~supportedMask = 0) : f.bits.toNat < 512 := by
  calc f.bits.toNat = (f.bits &&& supportedMask).toNat := by rw [and_supported h]
    _ ≤ supportedMask.toNat := by rw [BitVec.toNat_and]; exact Nat.and_le_right
    _ < 512 := by decide

/-- the data offset and the flags share a word -/
theorem offset_flags {k : ℕ} (hk : k < 16) {f : Flags} (h : f.bits &&& ~~~Flags.supportedMask = 0) :
    ((BitVec.ofNat 16 k <<< 12 ||| f.bits) >>> 12).toNat = k ∧ (BitVec.ofNat 16 k <<< 12 ||| f.bits) &&& 0x1ff = f.bits := by
  have hlt := Flags.lt_of_supported h
  have hsum : (BitVec.ofNat 16 k <<< 12 ||| f.bits).toNat = k * 4096 + f.bits.toNat := by
    rw [BitVec.toNat_or, BitVec.toNat_shiftLeft, BitVec.toNat_ofNat, Nat.mod_eq_of_lt (by omega), Nat.shiftLeft_eq,
      Nat.mod_eq_of_lt (by omega)]
    have hor := Nat.two_pow_add_eq_or_of_lt (i := 12) (b := f.bits.toNat) (by omega) k
    rw [Nat.mul_comm k, ← hor]
  constructor
  · rw [BitVec.toNat_ushiftRight, hsum, Nat.shiftRight_eq_div_pow]
    omega
  · apply BitVec.eq_of_toNat_eq
    rw [BitVec.toNat_and, hsum]
    have : (0x1ff : U16).toNat = 2 ^ 9 - 1 := by decide
    rw [this, Nat.and_two_pow_sub_one_eq_mod]
    omega

/-! ## Options -/

/-- read back as itself: it does not end the list, and no other option has its kind -/
def TcpOption.Plain : TcpOption → Prop
  | .endOfList => False
  | .unknown kind _ => kind ≠ 2 ∧ kind ≠ FIPS_OPTION_KIND
  | _ => True

instance : DecidablePred TcpOption.Plain := fun o => by cases o <;> unfold TcpOption.Plain <;> infer_instance

namespace Segment

theorem encode_pos {o : TcpOption} {bytes : List U8} (h : o.encode = .ok bytes) : bytes.length = o.encodedLen ∧ bytes ≠ [] := by
  cases o with
  | unknown kind data =>
    simp only [TcpOption.encode] at h
    split_ifs at h
    cases h
    simp [TcpOption.encodedLen]
  | _ => cases h; simp [TcpOption.encodedLen, be16]

theorem encodeOptions_length {options : List TcpOption} {bytes : List U8} (h : encodeOptions options = .ok bytes) :
    bytes.length = (options.map TcpOption.encodedLen).sum ∧ options.length ≤ bytes.length := by
  induction options generalizing bytes with
  | nil => cases h; simp
  | cons o options ih =>
    simp only [encodeOptions, bind, Except.bind, pure, Except.pure] at h
    rcases ho : o.encode with e | b <;> rw [ho] at h
    · cases h
    rcases hos : encodeOptions options with e | bs <;> rw [hos] at h
    · cases h
    cases h
    obtain ⟨hlen, hpos⟩ := encode_pos ho
    obtain ⟨hsum, hle⟩ := ih hos
    have := List.length_pos_of_ne_nil hpos
    simp only [List.length_append, List.map_cons, List.sum_cons, List.length_cons]
    omega

/-- one round of the loop reads one plain option -/
theorem decodeOptionsLoop_plain {o : TcpOption} (hp : o.Plain) {bytes : List U8} (h : o.encode = .ok bytes) (fuel : ℕ)
    (rest : List U8) :
    decodeOptionsLoop (fuel + 1) (bytes ++ rest) = (do
      let options ← decodeOptionsLoop fuel rest
      return o :: options) := by
  cases o with
  | endOfList => exact hp.elim
  | noOperation => cases h; rfl
  | maxSegmentSize value =>
    cases h
    have hvalue := fromBe16_be16 value
    simp [decodeOptionsLoop, be16, hvalue, bind, Except.bind]
  | fipsVersion version reserved =>
    cases h
    simp [decodeOptionsLoop, FIPS_OPTION_KIND, bind, Except.bind]
  | unknown kind data =>
    simp only [TcpOption.encode] at h
    split_ifs at h with hlong hkind
    cases h
    have h0 : kind ≠ 0 := fun h => hkind (by rw [h]; decide)
    have h1 : kind ≠ 1 := fun h => hkind (by rw [h]; decide)
    obtain ⟨h2, h254⟩ : kind ≠ 2 ∧ kind ≠ FIPS_OPTION_KIND := hp
    have hlen : (BitVec.ofNat 8 (data.length + 2)).toNat = data.length + 2 := Nat.mod_eq_of_lt (by omega)
    have htake : (data ++ rest).take (data.length + 2 - 2) = data := List.take_left
    have hdrop : (data ++ rest).drop (data.length + 2 - 2) = rest := List.drop_left
    simp only [decodeOptionsLoop, List.cons_append, List.nil_append, if_neg h0, if_neg h1, hlen, List.length_cons,
      List.length_append, htake, hdrop]
    rw [if_neg (by omega)]
    split
    · rw [if_neg h2, if_neg h254]; rfl
    · rw [if_neg (not_or.2 ⟨h2, h254⟩)]; rfl

theorem decodeOptionsLoop_padding (fuel n : ℕ) : decodeOptionsLoop fuel (List.replicate n 0) = .ok [] := by
  cases fuel with
  | zero => rfl
  | succ fuel => cases n <;> rfl

/-- **Options.** A list of plain options is read back from its encoding, whatever padding follows. -/
theorem decodeOptionsLoop_encode {options : List TcpOption} (hp : ∀ o ∈ options, o.Plain) {bytes : List U8}
    (h : encodeOptions options = .ok bytes) {fuel : ℕ} (hfuel : options.length ≤ fuel) (n : ℕ) :
    decodeOptionsLoop fuel (bytes ++ List.replicate n 0) = .ok options := by
  induction options generalizing bytes fuel with
  | nil => cases h; exact decodeOptionsLoop_padding fuel n
  | cons o options ih =>
    simp only [encodeOptions, bind, Except.bind, pure, Except.pure] at h
    rcases ho : o.encode with e | b <;> rw [ho] at h
    · cases h
    rcases hos : encodeOptions options with e | bs <;> rw [hos] at h
    · cases h
    cases h
    obtain ⟨fuel, rfl⟩ : ∃ n, fuel = n + 1 := ⟨fuel - 1, by simp only [List.length_cons] at hfuel; omega⟩
    rw [List.append_assoc, decodeOptionsLoop_plain (hp o List.mem_cons_self) ho,
      ih (fun o ho => hp o (List.mem_cons_of_mem _ ho)) hos (by simpa using hfuel)]
    rfl

/-! ## Segments -/

/-- the decoder on a header and what follows it -/
theorem decode_header (srcPort dstPort : U16) (seq rawAck : U32) (word window sum urgent : U16) (rest : List U8) :
    decode (be16 srcPort ++ be16 dstPort ++ be32 seq ++ be32 rawAck ++ be16 word ++ be16 window ++ be16 sum ++ be16 urgent ++
        rest) =
      (let headerLen := (word >>> 12).toNat * 4
      if srcPort = 0 ∨ dstPort = 0 then .error .zeroPort
      else if ¬ (HEADER_LEN ≤ headerLen ∧ headerLen ≤ 60) ∨ HEADER_LEN + rest.length < headerLen then .error .invalidHeaderLength
      else if sum ≠ 0 then .error .nonZeroChecksum
      else if urgent ≠ 0 then .error .urgentUnsupported
      else do
        let flags ← Flags.fromWire (word &&& 0x1ff)
        let options ← decodeOptions (rest.take (headerLen - HEADER_LEN))
        return {
          srcPort, dstPort, seq, flags, options, window
          ack := if flags.contains .ACK then some rawAck else none
          payload := rest.drop (headerLen - HEADER_LEN) }) := by
  generalize hbytes : be16 srcPort ++ be16 dstPort ++ be32 seq ++ be32 rawAck ++ be16 word ++ be16 window ++ be16 sum ++
    be16 urgent ++ rest = bytes
  have hlen : bytes.length = HEADER_LEN + rest.length := by
    rw [← hbytes, List.length_append]
    rfl
  have h20 : ¬ bytes.length < 20 := by rw [hlen]; exact Nat.not_lt.2 (Nat.le_add_right _ _)
  have hbody : bytes.drop HEADER_LEN = rest := by rw [← hbytes]; rfl
  have hread : fromBe16 bytes[0] bytes[1] = srcPort ∧ fromBe16 bytes[2] bytes[3] = dstPort ∧
      fromBe32 bytes[4] bytes[5] bytes[6] bytes[7] = seq ∧ fromBe32 bytes[8] bytes[9] bytes[10] bytes[11] = rawAck ∧
      fromBe16 bytes[12] bytes[13] = word ∧ fromBe16 bytes[14] bytes[15] = window ∧ fromBe16 bytes[16] bytes[17] = sum ∧
      fromBe16 bytes[18] bytes[19] = urgent := by
    subst hbytes
    exact ⟨fromBe16_be16 srcPort, fromBe16_be16 dstPort, fromBe32_be32 seq, fromBe32_be32 rawAck, fromBe16_be16 word,
      fromBe16_be16 window, fromBe16_be16 sum, fromBe16_be16 urgent⟩
  obtain ⟨hsrc, hdst, hseq, hack, hword, hwindow, hsum, hurgent⟩ := hread
  unfold decode
  rw [dif_neg h20]
  simp only [hsrc, hdst, hseq, hack, hword, hwindow, hsum, hurgent, hlen, List.drop_take, hbody]
  by_cases hheader : ¬ (HEADER_LEN ≤ (word >>> 12).toNat * 4 ∧ (word >>> 12).toNat * 4 ≤ 60) ∨
      HEADER_LEN + rest.length < (word >>> 12).toNat * 4
  · rw [if_pos hheader, if_pos hheader]
  · have hpayload : bytes.drop ((word >>> 12).toNat * 4) = rest.drop ((word >>> 12).toNat * 4 - HEADER_LEN) := by
      rw [← hbody, List.drop_drop, Nat.add_sub_cancel' (not_not.1 (not_or.1 hheader).1).1]
    rw [hpayload]

/-- the encoder on a header of `k` words -/
theorem encode_header {s : Segment} (hports : ¬ (s.srcPort = 0 ∨ s.dstPort = 0)) (hack : s.flags.contains .ACK = s.ack.isSome)
    {options : List U8} (ho : encodeOptions s.options = .ok options) {k : ℕ}
    (hk : k * 4 = HEADER_LEN + (options.length + 3) / 4 * 4) (hle : k * 4 ≤ 60) :
    s.encode = .ok (be16 s.srcPort ++ be16 s.dstPort ++ be32 s.seq ++ be32 (s.ack.getD 0) ++
      be16 (BitVec.ofNat 16 k <<< 12 ||| s.flags.bits) ++ be16 s.window ++ be16 0 ++ be16 0 ++
      (options ++ List.replicate (k * 4 - (20 + options.length)) 0 ++ s.payload)) := by
  have hlen := (encodeOptions_length ho).1
  unfold encode
  rw [if_neg hports, if_neg (not_not.2 hack)]
  simp only [← hlen, ← hk, if_neg (not_lt.2 hle), ho, bind, Except.bind, pure, Except.pure,
    Nat.mul_div_cancel k (show 0 < 4 by decide)]
  rw [resize, List.take_of_length_le, List.length_append]
  · simp only [List.append_assoc]
    rfl
  · rw [List.length_append]
    change 20 + options.length ≤ k * 4
    have : HEADER_LEN = 20 := rfl
    omega

/-- what the encoder checks, and the header it writes -/
theorem encode_ok {s : Segment} {bytes : List U8} (h : s.encode = .ok bytes) :
    ¬ (s.srcPort = 0 ∨ s.dstPort = 0) ∧ s.flags.contains .ACK = s.ack.isSome ∧
      ∃ (options : List U8) (k : ℕ), encodeOptions s.options = .ok options ∧ k * 4 = HEADER_LEN + (options.length + 3) / 4 * 4 ∧
        k * 4 ≤ 60 := by
  unfold encode at h
  simp only [bind, Except.bind, pure, Except.pure] at h
  split_ifs at h with hports hack hlong
  rcases ho : encodeOptions s.options with e | options <;> rw [ho] at h
  · cases h
  rw [not_lt, ← (encodeOptions_length ho).1] at hlong
  refine ⟨hports, not_not.1 hack, options, 5 + (options.length + 3) / 4, rfl, ?_, ?_⟩
  · rw [Nat.add_mul]
    rfl
  · rw [Nat.add_mul]
    exact hlong

/-- the decoder reads its encoding back as the segment itself -/
structure Plain (s : Segment) : Prop where
  flags : s.flags.bits &&& ~~~Flags.supportedMask = 0
  options : ∀ o ∈ s.options, o.Plain

/-- **Segments.** What is encoded of a plain segment is decoded as the segment. -/
theorem decode_encode {s : Segment} (hp : s.Plain) {bytes : List U8} (h : s.encode = .ok bytes) : decode bytes = .ok s := by
  obtain ⟨hports, hack, options, k, ho, hk, hle⟩ := encode_ok h
  obtain ⟨-, hcount⟩ := encodeOptions_length ho
  have hHEADER : HEADER_LEN = 20 := rfl
  have hk5 : 20 + options.length ≤ k * 4 := by omega
  obtain ⟨hoffset, hflags⟩ := offset_flags (show k < 16 by omega) hp.flags
  rw [encode_header hports hack ho hk hle] at h
  generalize hword : (BitVec.ofNat 16 k <<< 12 ||| s.flags.bits : U16) = word at h hoffset hflags
  have hpad : (options ++ List.replicate (k * 4 - (20 + options.length)) 0).length = k * 4 - HEADER_LEN := by
    rw [List.length_append, List.length_replicate]
    omega
  generalize harea : options ++ List.replicate (k * 4 - (20 + options.length)) 0 = area at hpad h
  have hread : decodeOptions area = .ok s.options := by
    rw [← harea]
    exact decodeOptionsLoop_encode hp.options ho (by rw [List.length_append]; omega) _
  have hflags' : Flags.fromWire s.flags.bits = .ok s.flags := if_neg (not_not.2 hp.flags)
  rw [← Except.ok.inj h, decode_header]
  simp only [hoffset, hflags, ne_eq, not_true, if_false]
  rw [if_neg hports, if_neg, hflags', ← hpad, List.take_left, List.drop_left, hread]
  · -- the ACK number is written exactly with its flag
    have hack' : (if s.flags.contains .ACK = true then some (s.ack.getD 0) else none) = s.ack := by
      rw [hack]
      cases s.ack <;> rfl
    simp only [bind, Except.bind, pure, Except.pure, hack']
  · rw [List.length_append, hpad]
    omega

end Segment

/-! ## The segments of the state machine -/

theorem buildSegment_plain {header : SegmentHeader} (h : header.flags.bits &&& ~~~Flags.supportedMask = 0) (payload : List U8) :
    (buildSegment header payload).Plain := by
  refine ⟨h, fun o ho => ?_⟩
  simp only [buildSegment] at ho
  split_ifs at ho
  · rcases List.mem_cons.1 ho with rfl | ho
    · trivial
    · rw [List.mem_singleton.1 ho]
      trivial
  · cases ho

theorem resetFor_plain (segment : Segment) : (resetFor segment).Plain := by
  unfold resetFor
  cases segment.ack with
  | none => exact ⟨(by decide : (Flags.RST.union .ACK).bits &&& ~~~Flags.supportedMask = 0), fun _ h => nomatch h⟩
  | some ack => exact ⟨(by decide : Flags.RST.bits &&& ~~~Flags.supportedMask = 0), fun _ h => nomatch h⟩

end FipsTcp

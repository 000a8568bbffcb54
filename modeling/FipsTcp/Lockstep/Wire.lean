/-
The two codecs side by side.

The Rust decoder consumes a slice of the option area, the TypeScript one moves an offset through it (`decodeOptionsLoop_toTs`);
the Rust encoder adds up the lengths of the options before it writes them, the TypeScript one writes them first
(`encodeOptions_toTs`). `codecs_agree`: both decode the same byte strings, to the same segments, and encode the same segments,
to the same bytes. The texts of their errors differ, so the results are compared as options.
-/
import Mathlib.Data.Nat.Bitwise
import FipsTcp.Wire.Canonical
import FipsTcp.Lockstep.Values

namespace FipsTcp

/-! ## Results -/

section Except

variable {ε ε' α β : Type}

theorem toOption_bind (x : Except ε α) (f : α → Except ε β) : (x >>= f).toOption = x.toOption.bind fun a => (f a).toOption := by
  cases x <;> rfl

theorem toOption_none {x : Except ε α} (h : ∀ a, x ≠ .ok a) : x.toOption = none := by
  cases x with
  | ok a => exact absurd rfl (h a)
  | error e => rfl

end Except

/-! ## Words -/

theorem ts_getUint16 (a b : U8) : Ts.getUint16 a b = (fromBe16 a b).toNat := by
  rw [fromBe16, BitVec.toNat_append, ← Nat.shiftLeft_add_eq_or_of_lt b.isLt, Nat.shiftLeft_eq, Ts.getUint16]

theorem ts_getUint32 (a b c d : U8) : Ts.getUint32 a b c d = (fromBe32 a b c d).toNat := by
  rw [fromBe32, BitVec.toNat_append, ← Nat.shiftLeft_add_eq_or_of_lt d.isLt, BitVec.toNat_append,
    ← Nat.shiftLeft_add_eq_or_of_lt c.isLt, BitVec.toNat_append, ← Nat.shiftLeft_add_eq_or_of_lt b.isLt, Nat.shiftLeft_eq,
    Nat.shiftLeft_eq, Nat.shiftLeft_eq, Ts.getUint32]
  ring

theorem ts_setUint16 (x : U16) : Ts.setUint16 x.toNat = be16 x := rfl

theorem ts_setUint32 (x : U32) : Ts.setUint32 x.toNat = be32 x := rfl

/-- both refuse the same flags -/
theorem ts_parse (bits : U16) : (Ts.FlagSet.parse bits.toNat).toOption = (Flags.fromWire bits).toOption.map Flags.toTs := by
  have hldiff : Nat.ldiff bits.toNat Ts.SUPPORTED_FLAGS = (bits &&& ~~~Flags.supportedMask).toNat := by
    apply Nat.eq_of_testBit_eq
    intro i
    rw [Nat.testBit_ldiff, ← BitVec.getLsbD, ← BitVec.getLsbD, BitVec.getLsbD_and, BitVec.getLsbD_not]
    by_cases hi : i < 16
    · rw [decide_eq_true hi, Bool.true_and]
      rfl
    · rw [BitVec.getLsbD_of_ge bits i (not_lt.1 hi), Bool.false_and, Bool.false_and]
  have hiff : Nat.ldiff bits.toNat Ts.SUPPORTED_FLAGS ≠ 0 ↔ bits &&& ~~~Flags.supportedMask ≠ 0 := by
    rw [hldiff, ne_eq, ne_eq, ← BitVec.toNat_inj]
    rfl
  unfold Ts.FlagSet.parse Flags.fromWire
  by_cases h : bits &&& ~~~Flags.supportedMask ≠ 0
  · rw [if_pos h, if_pos (hiff.2 h)]
    rfl
  · rw [if_neg h, if_neg (fun h' => h (hiff.1 h'))]
    rfl

/-! ## Options -/

namespace Segment

/-- the known kinds have two bytes -/
theorem decodeOption_ne (kind : U8) {data : List U8} (h : data.length ≠ 2) :
    decodeOption kind data =
      if kind = 2 ∨ kind = FIPS_OPTION_KIND then .error .malformedOption else .ok (.unknown kind data) := by
  unfold decodeOption
  split
  · exact absurd rfl h
  · rfl

/-- one option with a length byte, in the words of the TypeScript loop -/
theorem decodeOption_toTs (kind : U8) {data : List U8} {length : ℕ} (hlen : data.length + 2 = length) :
    (if kind = 2 then
      if length ≠ 4 then (.error "malformed MSS option" : Except String Ts.TcpOption)
      else .ok (.maxSegmentSize (((data.getD 0 0).toNat <<< 8) ||| (data.getD 1 0).toNat))
    else if kind.toNat = Ts.FIPS_OPTION_KIND then
      if length ≠ 4 then .error "malformed TCP/FIPS version option"
      else .ok (.fipsVersion (data.getD 0 0).toNat (data.getD 1 0).toNat)
    else .ok (.unknown kind.toNat data)).toOption = (decodeOption kind data).toOption.map TcpOption.toTs := by
  have hkind : kind.toNat = Ts.FIPS_OPTION_KIND ↔ kind = FIPS_OPTION_KIND := by
    rw [← BitVec.toNat_inj]
    rfl
  simp only [hkind]
  by_cases h4 : length = 4
  · obtain ⟨a, b, rfl⟩ := List.length_eq_two.1 (show data.length = 2 by omega)
    rw [if_neg (not_not.2 h4), if_neg (not_not.2 h4)]
    simp only [decodeOption]
    split_ifs
    · change some (Ts.TcpOption.maxSegmentSize (a.toNat <<< 8 ||| b.toNat)) = some (.maxSegmentSize (fromBe16 a b).toNat)
      rw [fromBe16, BitVec.toNat_append]
    · rfl
    · rfl
  · rw [if_pos h4, if_pos h4, decodeOption_ne kind (by omega)]
    by_cases h2 : kind = 2
    · rw [if_pos h2, if_pos (Or.inl h2)]
      rfl
    · rw [if_neg h2]
      by_cases h254 : kind = FIPS_OPTION_KIND
      · rw [if_pos h254, if_pos (Or.inr h254)]
        rfl
      · rw [if_neg h254, if_neg (not_or.2 ⟨h2, h254⟩)]
        rfl

/-- **Options.** The offset loop reads what the slice loop reads from the bytes that are left. -/
theorem decodeOptionsLoop_toTs (bytes : List U8) (fuel offset : ℕ) :
    (Ts.decodeOptionsLoop bytes fuel offset).toOption =
      (decodeOptionsLoop fuel (bytes.drop offset)).toOption.map (List.map TcpOption.toTs) := by
  induction fuel generalizing offset with
  | zero => rfl
  | succ fuel ih =>
    have hget : ∀ k, bytes[offset + k]? = (bytes.drop offset)[k]? := fun k => by rw [List.getElem?_drop]
    have hdrop : ∀ k, bytes.drop (offset + k) = (bytes.drop offset).drop k := fun k => by rw [List.drop_drop]
    have hleft : (bytes.drop offset).length = bytes.length - offset := List.length_drop
    rw [Ts.decodeOptionsLoop, show bytes[offset]? = (bytes.drop offset)[0]? from hget 0, hget 1]
    generalize hl : bytes.drop offset = left at hget hdrop hleft
    cases left with
    | nil => rfl
    | cons kind rest =>
      simp only [List.getElem?_cons_zero, List.getElem?_cons_succ]
      have hnext := ih (offset + 1)
      rw [hdrop 1, List.drop_one, List.tail_cons] at hnext
      by_cases h0 : kind = 0
      · subst h0
        rfl
      by_cases h1 : kind = 1
      · subst h1
        change ((Ts.decodeOptionsLoop bytes fuel (offset + 1)) >>= fun os => pure (.noOperation :: os)).toOption =
          ((decodeOptionsLoop fuel rest) >>= fun os => pure (.noOperation :: os)).toOption.map _
        rw [toOption_bind, toOption_bind, hnext]
        cases (decodeOptionsLoop fuel rest).toOption <;> rfl
      rw [if_neg h0, if_neg h1]
      cases rest with
      | nil =>
        rw [decodeOptionsLoop, if_neg h0, if_neg h1]
        rfl
      | cons lenByte body =>
        rw [decodeOptionsLoop_tlv h0 h1]
        simp only [List.getElem?_cons_zero]
        simp only [List.length_cons] at hleft
        have hbad : (lenByte.toNat < 2 ∨ bytes.length < offset + lenByte.toNat) ↔
            (lenByte.toNat < 2 ∨ body.length + 2 < lenByte.toNat) := by omega
        by_cases hb : lenByte.toNat < 2 ∨ body.length + 2 < lenByte.toNat
        · rw [if_pos hb, if_pos (hbad.2 hb)]
          rfl
        rw [if_neg hb, if_neg (fun h => hb (hbad.1 h))]
        rw [not_or, not_lt, not_lt] at hb
        have hdata : (bytes.take (offset + lenByte.toNat)).drop (offset + 2) = body.take (lenByte.toNat - 2) := by
          rw [List.drop_take, hdrop 2, Nat.add_sub_add_left]
          rfl
        have hafter : bytes.drop (offset + lenByte.toNat) = body.drop (lenByte.toNat - 2) := by
          rw [hdrop, ← Nat.sub_add_cancel hb.1]
          rfl
        have hlen : (body.take (lenByte.toNat - 2)).length + 2 = lenByte.toNat := by
          rw [List.length_take]
          omega
        have hrest := ih (offset + lenByte.toNat)
        rw [hafter] at hrest
        rw [hdata, toOption_bind, toOption_bind, decodeOption_toTs kind hlen]
        cases (decodeOption kind (body.take (lenByte.toNat - 2))).toOption with
        | none => rfl
        | some o =>
          simp only [Option.map_some, Option.bind_some]
          rw [toOption_bind, toOption_bind, hrest]
          cases (decodeOptionsLoop fuel (body.drop (lenByte.toNat - 2))).toOption <;> rfl

theorem decodeOptions_toTs (bytes : List U8) :
    (Ts.decodeOptions bytes).toOption = (decodeOptions bytes).toOption.map (List.map TcpOption.toTs) :=
  decodeOptionsLoop_toTs bytes bytes.length 0

theorem encode_toTs (o : TcpOption) : (Ts.encodeOption o.toTs).toOption = o.encode.toOption := by
  cases o with
  | maxSegmentSize value =>
    change (if 65535 < value.toNat then _ else _ : Except String (List U8)).toOption = _
    rw [if_neg (by have := value.isLt; omega)]
    rfl
  | unknown kind data =>
    have hk := kind.isLt
    simp only [TcpOption.toTs, Ts.encodeOption, TcpOption.encode]
    by_cases hlong : 255 < data.length + 2
    · rw [if_pos hlong, if_pos (by omega)]
      rfl
    rw [if_neg hlong]
    by_cases hkind : kind.toNat ≤ 1
    · rw [if_pos hkind, if_pos (Or.inl hkind)]
      rfl
    rw [if_neg hkind, if_neg (by omega), BitVec.ofNat_toNat]
    rfl
  | fipsVersion version reserved =>
    simp only [TcpOption.toTs, Ts.encodeOption, TcpOption.encode, BitVec.ofNat_toNat]
    rfl
  | _ => rfl

/-- the options one after the other -/
theorem encodeOptions_toTs (options : List TcpOption) :
    (Ts.Segment.encodeOptions (options.map TcpOption.toTs)).toOption = (encodeOptions options).toOption := by
  induction options with
  | nil => rfl
  | cons o os ih =>
    simp only [List.map_cons, Ts.Segment.encodeOptions, encodeOptions]
    rw [toOption_bind, toOption_bind, encode_toTs o]
    cases o.encode.toOption with
    | none => rfl
    | some b =>
      simp only [Option.bind_some]
      rw [toOption_bind, toOption_bind, ih]
      cases (encodeOptions os).toOption <;> rfl

/-! ## Segments -/

/-- **The decoders agree.** -/
theorem decode_toTs (bytes : List U8) : (Ts.Segment.decode bytes).toOption = (decode bytes).toOption.map toTs := by
  by_cases h20 : bytes.length < 20
  · rw [decode, dif_pos h20, Ts.Segment.decode, dif_pos (show bytes.length < Ts.HEADER_LEN from h20)]
    rfl
  rw [decode, dif_neg h20, Ts.Segment.decode, dif_neg (show ¬ bytes.length < Ts.HEADER_LEN from h20)]
  simp only [ts_getUint16, ts_getUint32]
  have hzero : ∀ x : U16, x.toNat = 0 ↔ x = 0 := fun x => by
    rw [← BitVec.toNat_inj]
    rfl
  simp only [hzero, ne_eq]
  generalize fromBe16 bytes[12] bytes[13] = word
  have hshift : word.toNat >>> 12 = (word >>> 12).toNat := (BitVec.toNat_ushiftRight word 12).symm
  have hmask : word.toNat &&& 0x1ff = (word &&& 0x1ff).toNat := (BitVec.toNat_and word 0x1ff).symm
  rw [hshift, hmask]
  generalize (word >>> 12).toNat * 4 = headerLen
  by_cases hports : fromBe16 bytes[0] bytes[1] = 0 ∨ fromBe16 bytes[2] bytes[3] = 0
  · rw [if_pos hports, if_pos hports]
    rfl
  rw [if_neg hports, if_neg hports]
  have hheader : (headerLen < Ts.HEADER_LEN ∨ 60 < headerLen ∨ bytes.length < headerLen) ↔
      (¬ (HEADER_LEN ≤ headerLen ∧ headerLen ≤ 60) ∨ bytes.length < headerLen) := by
    have : Ts.HEADER_LEN = HEADER_LEN := rfl
    omega
  by_cases hh : ¬ (HEADER_LEN ≤ headerLen ∧ headerLen ≤ 60) ∨ bytes.length < headerLen
  · rw [if_pos hh, if_pos (hheader.2 hh)]
    rfl
  rw [if_neg hh, if_neg (fun h => hh (hheader.1 h))]
  by_cases hsum : ¬ fromBe16 bytes[16] bytes[17] = 0
  · rw [if_pos hsum, if_pos hsum]
    rfl
  rw [if_neg hsum, if_neg hsum]
  by_cases hurgent : ¬ fromBe16 bytes[18] bytes[19] = 0
  · rw [if_pos hurgent, if_pos hurgent]
    rfl
  rw [if_neg hurgent, if_neg hurgent, toOption_bind, toOption_bind, ts_parse]
  cases (Flags.fromWire (word &&& 0x1ff)).toOption with
  | none => rfl
  | some flags =>
    simp only [Option.map_some, Option.bind_some]
    rw [toOption_bind, toOption_bind, decodeOptions_toTs]
    change Option.bind (Option.map _ (decodeOptions ((bytes.take headerLen).drop HEADER_LEN)).toOption) _ = _
    cases (decodeOptions ((bytes.take headerLen).drop HEADER_LEN)).toOption with
    | none => rfl
    | some options =>
      simp only [Option.map_some, Option.bind_some, Flags.toTs_names]
      cases flags.contains .ACK <;> rfl

/-- **The encoders agree.** -/
theorem encode_toTs_segment (s : Segment) : (Ts.Segment.encode s.toTs).toOption = s.encode.toOption := by
  have hzero : ∀ x : U16, x.toNat = 0 ↔ x = 0 := fun x => by
    rw [← BitVec.toNat_inj]
    rfl
  have hsome : s.toTs.ack.isSome = s.ack.isSome := by
    simp only [toTs]
    cases s.ack <;> rfl
  have htsports : s.toTs.srcPort = 0 ∨ s.toTs.dstPort = 0 ↔ s.srcPort = 0 ∨ s.dstPort = 0 := or_congr (hzero _) (hzero _)
  by_cases hports : s.srcPort = 0 ∨ s.dstPort = 0
  · rw [encode, if_pos hports, Ts.Segment.encode, if_pos (htsports.2 hports)]
    rfl
  have htsports := fun h => hports (htsports.1 h)
  have hhas : s.toTs.flags.has Ts.Flags.Ack = s.flags.contains .ACK := s.flags.toTs_names.2.2.2
  by_cases hack : s.flags.contains .ACK ≠ s.ack.isSome
  · rw [encode, if_neg hports, if_pos hack, Ts.Segment.encode, if_neg htsports, if_pos (by rw [hhas, hsome]; exact hack)]
    rfl
  rw [Ts.Segment.encode, if_neg htsports, if_neg (by rw [hhas, hsome]; exact hack), toOption_bind,
    show s.toTs.options = s.options.map TcpOption.toTs from rfl, encodeOptions_toTs]
  rcases ho : encodeOptions s.options with e | options
  · refine (toOption_none fun bytes h => ?_).symm
    obtain ⟨-, -, options, -, hoptions, -⟩ := encode_ok h
    rw [ho] at hoptions
    cases hoptions
  change (if 60 < Ts.HEADER_LEN + (options.length + 3) / 4 * 4 then _ else _ : Except String (List U8)).toOption = _
  have hTs : Ts.HEADER_LEN = 20 := rfl
  have hHEADER : HEADER_LEN = 20 := rfl
  by_cases hlong : 60 < Ts.HEADER_LEN + (options.length + 3) / 4 * 4
  · rw [if_pos hlong]
    refine (toOption_none fun bytes h => ?_).symm
    obtain ⟨-, -, options', k, hoptions, hk, hle⟩ := encode_ok h
    rw [ho] at hoptions
    cases hoptions
    omega
  rw [if_neg hlong]
  -- both write the header of `k` words
  generalize hk' : (Ts.HEADER_LEN + (options.length + 3) / 4 * 4) / 4 = k
  have hk : k * 4 = HEADER_LEN + (options.length + 3) / 4 * 4 := by omega
  have hk16 : k < 16 := by omega
  rw [encode_header hports (not_not.1 hack) ho hk (by omega)]
  have hword : (k <<< 12) ||| s.flags.bits.toNat = (BitVec.ofNat 16 k <<< 12 ||| s.flags.bits).toNat := by
    rw [BitVec.toNat_or, BitVec.toNat_shiftLeft, BitVec.toNat_ofNat, Nat.mod_eq_of_lt (show k < 2 ^ 16 by omega), Nat.mod_eq_of_lt]
    rw [Nat.shiftLeft_eq]
    omega
  have hackField : s.toTs.ack.getD 0 = (s.ack.getD 0).toNat := by
    simp only [toTs]
    cases s.ack <;> rfl
  have hpad : (options.length + 3) / 4 * 4 - options.length = k * 4 - (20 + options.length) := by omega
  change some (Ts.setUint16 s.srcPort.toNat ++ Ts.setUint16 s.dstPort.toNat ++ Ts.setUint32 s.seq.toNat ++
    Ts.setUint32 (s.toTs.ack.getD 0) ++ Ts.setUint16 (k <<< 12 ||| s.flags.bits.toNat) ++ Ts.setUint16 s.window.toNat ++
    [0, 0, 0, 0] ++ options ++ List.replicate ((options.length + 3) / 4 * 4 - options.length) 0 ++ s.payload) = _
  rw [hword, hackField, hpad, ts_setUint16, ts_setUint16, ts_setUint16, ts_setUint16, ts_setUint32, ts_setUint32]
  change _ = some _
  simp only [List.append_assoc]
  rfl

end Segment

/-! ## The codecs -/

/-- the fields of an option are in the range of its bytes -/
def Ts.TcpOption.FieldsInRange : Ts.TcpOption → Prop
  | .maxSegmentSize value => value < 2 ^ 16
  | .fipsVersion version reserved => version < 2 ^ 8 ∧ reserved < 2 ^ 8
  | .unknown wireKind _ => wireKind < 2 ^ 8
  | _ => True

structure Ts.Segment.FieldsInRange (t : Ts.Segment) : Prop where
  srcPort : t.srcPort < 2 ^ 16
  dstPort : t.dstPort < 2 ^ 16
  seq : t.seq < 2 ^ 32
  ack : ∀ ack ∈ t.ack, ack < 2 ^ 32
  flags : t.flags.bits < 2 ^ 16
  window : t.window < 2 ^ 16
  options : ∀ o ∈ t.options, o.FieldsInRange

theorem Ts.TcpOption.FieldsInRange.exists_option {t : Ts.TcpOption} (h : t.FieldsInRange) : ∃ o : FipsTcp.TcpOption, o.toTs = t := by
  cases t with
  | endOfList => exact ⟨.endOfList, rfl⟩
  | noOperation => exact ⟨.noOperation, rfl⟩
  | maxSegmentSize value => exact ⟨.maxSegmentSize (BitVec.ofNat 16 value), congrArg Ts.TcpOption.maxSegmentSize (Nat.mod_eq_of_lt h)⟩
  | fipsVersion version reserved =>
    exact ⟨.fipsVersion (BitVec.ofNat 8 version) (BitVec.ofNat 8 reserved),
      congrArg₂ Ts.TcpOption.fipsVersion (Nat.mod_eq_of_lt h.1) (Nat.mod_eq_of_lt h.2)⟩
  | unknown wireKind data =>
    exact ⟨.unknown (BitVec.ofNat 8 wireKind) data, congrArg (Ts.TcpOption.unknown · data) (Nat.mod_eq_of_lt h)⟩

/-- a segment with its fields in range is one of the Rust program -/
theorem Ts.Segment.FieldsInRange.exists_segment {t : Ts.Segment} (h : t.FieldsInRange) : ∃ s : FipsTcp.Segment, s.toTs = t := by
  have hoptions : ∀ os : List Ts.TcpOption, (∀ o ∈ os, o.FieldsInRange) →
      ∃ options : List FipsTcp.TcpOption, options.map FipsTcp.TcpOption.toTs = os := fun os hos => by
    induction os with
    | nil => exact ⟨[], rfl⟩
    | cons o os ih =>
      obtain ⟨x, hx⟩ := (hos o List.mem_cons_self).exists_option
      obtain ⟨xs, hxs⟩ := ih fun o ho => hos o (List.mem_cons_of_mem _ ho)
      exact ⟨x :: xs, by rw [List.map_cons, hx, hxs]⟩
  obtain ⟨options, ho⟩ := hoptions t.options h.options
  have hack : (t.ack.map (BitVec.ofNat 32)).map (·.toNat) = t.ack := by
    have hlt := h.ack
    cases htack : t.ack with
    | none => rfl
    | some ack => exact congrArg some (Nat.mod_eq_of_lt (hlt ack htack))
  refine ⟨⟨BitVec.ofNat 16 t.srcPort, BitVec.ofNat 16 t.dstPort, BitVec.ofNat 32 t.seq, t.ack.map (BitVec.ofNat 32),
    ⟨BitVec.ofNat 16 t.flags.bits⟩, BitVec.ofNat 16 t.window, options, t.payload⟩, ?_⟩
  have hflags : (Flags.toTs ⟨BitVec.ofNat 16 t.flags.bits⟩) = t.flags :=
    congrArg Ts.FlagSet.mk (Nat.mod_eq_of_lt h.flags)
  simp only [FipsTcp.Segment.toTs, BitVec.toNat_ofNat, Nat.mod_eq_of_lt h.srcPort, Nat.mod_eq_of_lt h.dstPort,
    Nat.mod_eq_of_lt h.seq, Nat.mod_eq_of_lt h.window, hack, ho, hflags]

/-- **One codec.** The two decoders accept the same byte strings and read the same fields; the two encoders accept the same
segments and write the same bytes; every TypeScript segment with its fields in range is one of the Rust program. -/
theorem codecs_agree :
    (∀ bytes, (Ts.Segment.decode bytes).toOption = (Segment.decode bytes).toOption.map Segment.toTs) ∧
    (∀ s : Segment, (Ts.Segment.encode s.toTs).toOption = s.encode.toOption) ∧
    ∀ t : Ts.Segment, t.FieldsInRange → ∃ s : Segment, s.toTs = t ∧ (Ts.Segment.encode t).toOption = s.encode.toOption := by
  refine ⟨Segment.decode_toTs, Segment.encode_toTs_segment, fun t ht => ?_⟩
  obtain ⟨s, rfl⟩ := ht.exists_segment
  exact ⟨s, rfl, s.encode_toTs_segment⟩

theorem codecs_agree_syn : ∃ s : Segment, s.toTs = Ts.buildSegment 7 9 5 0 100 1200 ⟨Ts.Flags.Syn⟩ [] ∧
    (Ts.Segment.encode (Ts.buildSegment 7 9 5 0 100 1200 ⟨Ts.Flags.Syn⟩ [])).toOption = s.encode.toOption := by
  refine codecs_agree.2.2 _ ⟨by decide, by decide, by decide, (fun _ h => nomatch h), by decide, by decide, fun o ho => ?_⟩
  rcases List.mem_cons.1 ho with rfl | ho
  · exact (by decide : 1200 < 2 ^ 16)
  · rw [List.mem_singleton.1 ho]
    exact ⟨by decide, by decide⟩

end FipsTcp

/-
The grammar of segments, and that the decoder accepts exactly this grammar.

The grammar is stated on the bytes: numbers at offsets of the header (`field`), and an inductive definition of the option area.
`decodeChecked` is the decoder with every index and slice of the source taken as an operation that may fail, and with a count of
the rounds of its loop; it never fails and never runs out of rounds (`decodeChecked_eq`).
- `optionArea_iff`: the option loop accepts exactly the option areas;
- `wellFormed_of_decode`, `decode_of_wellFormed`: soundness and completeness, with the fields that are read.
-/
import FipsTcp.Wire.Canonical

namespace FipsTcp

/-! ## The grammar -/

/-- the number that bytes spell, the most significant byte first -/
def number (bytes : List U8) : ℕ := bytes.foldl (fun value byte => value * 256 + byte.toNat) 0

/-- the number that `n` bytes at an offset spell -/
def field (bytes : List U8) (offset n : ℕ) : ℕ := number ((bytes.drop offset).take n)

/-- the length of the header in words, above the flags -/
def dataOffset (bytes : List U8) : ℕ := field bytes 12 2 / 4096

/-- what stands between the fixed fields and the payload -/
def optionBytes (bytes : List U8) : List U8 := (bytes.take (dataOffset bytes * 4)).drop 20

/-- an option with a length byte, which counts all bytes of the option -/
inductive LengthOption : U8 → U8 → List U8 → TcpOption → Prop
  | maxSegmentSize (a b : U8) : LengthOption 2 4 [a, b] (.maxSegmentSize (fromBe16 a b))
  | fipsVersion (version reserved : U8) : LengthOption 254 4 [version, reserved] (.fipsVersion version reserved)
  | unknown (kind len : U8) (data : List U8) (hkind : 2 ≤ kind.toNat) (hmss : kind ≠ 2) (hfips : kind ≠ 254)
      (hlen : len.toNat = 2 + data.length) : LengthOption kind len data (.unknown kind data)

/-- the options, up to the end of the area or a zero byte -/
inductive OptionArea : List U8 → List TcpOption → Prop
  | finish : OptionArea [] []
  | endOfList (rest : List U8) : OptionArea (0 :: rest) []
  | noOperation {rest : List U8} {options : List TcpOption} (h : OptionArea rest options) :
      OptionArea (1 :: rest) (.noOperation :: options)
  | option {kind len : U8} {data rest : List U8} {o : TcpOption} {options : List TcpOption} (ho : LengthOption kind len data o)
      (h : OptionArea rest options) : OptionArea (kind :: len :: (data ++ rest)) (o :: options)

/-- a byte string of the grammar -/
structure WellFormed (bytes : List U8) : Prop where
  length : 20 ≤ bytes.length
  ports : field bytes 0 2 ≠ 0 ∧ field bytes 2 2 ≠ 0
  offset : 5 ≤ dataOffset bytes ∧ dataOffset bytes ≤ 15
  fits : dataOffset bytes * 4 ≤ bytes.length
  checksum : field bytes 16 2 = 0
  urgent : field bytes 18 2 = 0
  flags : (field bytes 12 2).testBit 5 = false ∧ (field bytes 12 2).testBit 8 = false
  options : ∃ options, OptionArea (optionBytes bytes) options

/-- the segment that the grammar assigns to a byte string -/
structure Assigns (bytes : List U8) (s : Segment) : Prop where
  srcPort : s.srcPort.toNat = field bytes 0 2
  dstPort : s.dstPort.toNat = field bytes 2 2
  seq : s.seq.toNat = field bytes 4 4
  /-- where the bit 0x10 is set -/
  ack : s.ack = if (field bytes 12 2).testBit 4 then some (BitVec.ofNat 32 (field bytes 8 4)) else none
  /-- the low nine bits -/
  flags : s.flags.bits.toNat = field bytes 12 2 % 512
  window : s.window.toNat = field bytes 14 2
  options : OptionArea (optionBytes bytes) s.options
  payload : s.payload = bytes.drop (dataOffset bytes * 4)

/-! ## The decoder with its checks -/

namespace Segment

/-- `bytes[start..stop]`, which panics out of range -/
def slice (bytes : List U8) (start stop : ℕ) : Option (List U8) :=
  if start ≤ stop ∧ stop ≤ bytes.length then some ((bytes.take stop).drop start) else none

/-- `u16::from_be_bytes(bytes[start..stop].try_into().expect("fixed field"))` -/
def fixedU16 (bytes : List U8) (start stop : ℕ) : Option U16 :=
  match slice bytes start stop with
  | some [a, b] => some (fromBe16 a b)
  | _ => none

def fixedU32 (bytes : List U8) (start stop : ℕ) : Option U32 :=
  match slice bytes start stop with
  | some [a, b, c, d] => some (fromBe32 a b c d)
  | _ => none

/-- the option of a kind and a length byte -/
def optionChecked (kind : U8) (len : ℕ) (data : List U8) : Option (Except WireError TcpOption) :=
  if kind = 2 ∧ len = 4 then do
    let a ← data[0]?
    let b ← data[1]?
    some (.ok (.maxSegmentSize (fromBe16 a b)))
  else if kind = FIPS_OPTION_KIND ∧ len = 4 then do
    let version ← data[0]?
    let reserved ← data[1]?
    some (.ok (.fipsVersion version reserved))
  else if kind = 2 ∨ kind = FIPS_OPTION_KIND then some (.error .malformedOption)
  else some (.ok (.unknown kind data))

/-- the loop of `decode_options`, with the number of rounds left; out of rounds is a failure too -/
def optionsChecked : ℕ → List U8 → List TcpOption → Option (Except WireError (List TcpOption))
  | 0, _, _ => none
  | _ + 1, [], options => some (.ok options)
  | rounds + 1, kind :: rest, options =>
    if kind = 0 then some (.ok options)
    else if kind = 1 then optionsChecked rounds rest (options ++ [.noOperation])
    else
      match rest.head? with
      | none => some (.error .malformedOption)
      | some lenByte =>
        let len := lenByte.toNat
        if len < 2 ∨ (kind :: rest).length < len then some (.error .malformedOption)
        else do
          let data ← slice (kind :: rest) 2 len
          match ← optionChecked kind len data with
          | .error e => some (.error e)
          | .ok option => do
            let bytes ← slice (kind :: rest) len (kind :: rest).length
            optionsChecked rounds bytes (options ++ [option])

/-- `Segment::decode`, where a panic is `none` -/
def decodeChecked (bytes : List U8) : Option (Except WireError Segment) :=
  if bytes.length < HEADER_LEN then some (.error .truncated)
  else do
    let srcPort := fromBe16 (← bytes[0]?) (← bytes[1]?)
    let dstPort := fromBe16 (← bytes[2]?) (← bytes[3]?)
    if srcPort = 0 ∨ dstPort = 0 then some (.error .zeroPort)
    else do
      let seq ← fixedU32 bytes 4 8
      let rawAck ← fixedU32 bytes 8 12
      let offsetAndFlags ← fixedU16 bytes 12 14
      let headerLen := (offsetAndFlags >>> 12).toNat * 4
      if ¬ (HEADER_LEN ≤ headerLen ∧ headerLen ≤ 60) ∨ bytes.length < headerLen then some (.error .invalidHeaderLength)
      else do
        let checksum := fromBe16 (← bytes[16]?) (← bytes[17]?)
        if checksum ≠ 0 then some (.error .nonZeroChecksum)
        else do
          let urgent := fromBe16 (← bytes[18]?) (← bytes[19]?)
          if urgent ≠ 0 then some (.error .urgentUnsupported)
          else
            match Flags.fromWire (offsetAndFlags &&& 0x1ff) with
            | .error e => some (.error e)
            | .ok flags => do
              let window := fromBe16 (← bytes[14]?) (← bytes[15]?)
              let area ← slice bytes HEADER_LEN headerLen
              match ← optionsChecked (area.length + 1) area [] with
              | .error e => some (.error e)
              | .ok options => do
                let payload ← slice bytes headerLen bytes.length
                some (.ok {
                  srcPort, dstPort, seq, flags, window, options, payload
                  ack := if flags.contains .ACK then some rawAck else none })

/-! ## No index is out of range -/

variable {bytes : List U8}

theorem slice_eq {start stop : ℕ} (h : start ≤ stop) (hstop : stop ≤ bytes.length) :
    slice bytes start stop = some ((bytes.take stop).drop start) := if_pos ⟨h, hstop⟩

theorem fixedU16_eq {start : ℕ} (h : start + 2 ≤ bytes.length) :
    fixedU16 bytes start (start + 2) = some (fromBe16 bytes[start] bytes[start + 1]) := by
  have hfield : (bytes.take (start + 2)).drop start = [bytes[start], bytes[start + 1]] := by
    rw [List.drop_take, List.drop_eq_getElem_cons (by omega), List.drop_eq_getElem_cons (by omega), Nat.add_sub_cancel_left]
    rfl
  rw [fixedU16, slice_eq (Nat.le_add_right _ _) h, hfield]

theorem fixedU32_eq {start : ℕ} (h : start + 4 ≤ bytes.length) : fixedU32 bytes start (start + 4) =
    some (fromBe32 bytes[start] bytes[start + 1] bytes[start + 2] bytes[start + 3]) := by
  have hfield : (bytes.take (start + 4)).drop start =
      [bytes[start], bytes[start + 1], bytes[start + 2], bytes[start + 3]] := by
    rw [List.drop_take, List.drop_eq_getElem_cons (by omega), List.drop_eq_getElem_cons (by omega),
      List.drop_eq_getElem_cons (by omega), List.drop_eq_getElem_cons (by omega), Nat.add_sub_cancel_left]
    rfl
  rw [fixedU32, slice_eq (Nat.le_add_right _ _) h, hfield]

/-- an option whose data are not two bytes -/
theorem decodeOption_other {kind : U8} {data : List U8} (h : data.length ≠ 2) : decodeOption kind data =
    if kind = 2 ∨ kind = FIPS_OPTION_KIND then .error .malformedOption else .ok (.unknown kind data) := by
  unfold decodeOption
  split
  · exact absurd rfl h
  · rfl

/-- the data of an option has the bytes that are taken of it -/
theorem optionChecked_eq {kind : U8} {len : ℕ} {data : List U8} (h : data.length + 2 = len) :
    optionChecked kind len data = some (decodeOption kind data) := by
  unfold optionChecked
  by_cases hlen : len = 4
  · obtain ⟨a, b, rfl⟩ := List.length_eq_two.1 (show data.length = 2 by omega)
    simp only [hlen, and_true, decodeOption]
    by_cases h2 : kind = 2
    · rw [if_pos h2, if_pos h2]
      rfl
    by_cases h254 : kind = FIPS_OPTION_KIND
    · rw [if_neg h2, if_pos h254, if_neg h2, if_pos h254]
      rfl
    · rw [if_neg h2, if_neg h254, if_neg h2, if_neg h254, if_neg (not_or.2 ⟨h2, h254⟩)]
  · rw [if_neg fun h => hlen h.2, if_neg fun h => hlen h.2, decodeOption_other (by omega)]
    split_ifs <;> rfl

theorem decodeOptionsLoop_zero (rounds : ℕ) (rest : List U8) : decodeOptionsLoop (rounds + 1) (0 :: rest) = .ok [] := rfl

theorem decodeOptionsLoop_one (rounds : ℕ) (rest : List U8) :
    decodeOptionsLoop (rounds + 1) (1 :: rest) = (decodeOptionsLoop rounds rest).map (.noOperation :: ·) := by
  have hround : decodeOptionsLoop (rounds + 1) (1 :: rest) = (do
    let options ← decodeOptionsLoop rounds rest
    return .noOperation :: options) := rfl
  rw [hround]
  cases decodeOptionsLoop rounds rest <;> rfl

/-- the length byte is missing -/
theorem decodeOptionsLoop_short {kind : U8} (h0 : kind ≠ 0) (h1 : kind ≠ 1) (rounds : ℕ) :
    decodeOptionsLoop (rounds + 1) [kind] = .error .malformedOption := by
  rw [decodeOptionsLoop, if_neg h0, if_neg h1]

/-- **The option loop** takes no index out of range, and ends within as many rounds as the area has bytes. -/
theorem optionsChecked_eq {rounds : ℕ} (hrounds : bytes.length ≤ rounds) (options : List TcpOption) :
    optionsChecked (rounds + 1) bytes options = some ((decodeOptionsLoop rounds bytes).map (options ++ ·)) := by
  have hnil : (Except.ok [] : Except WireError (List TcpOption)).map (options ++ ·) = .ok options :=
    congrArg Except.ok (List.append_nil options)
  induction rounds generalizing bytes options with
  | zero =>
    obtain rfl := List.length_eq_zero_iff.1 (Nat.le_zero.1 hrounds)
    exact congrArg some hnil.symm
  | succ rounds ih =>
    have hacc : ∀ (o : TcpOption) (rest : List U8), rest.length ≤ rounds → optionsChecked (rounds + 1) rest (options ++ [o]) =
        some (((decodeOptionsLoop rounds rest).map (o :: ·)).map (options ++ ·)) := by
      intro o rest hrest
      rw [ih hrest _ (congrArg Except.ok (List.append_nil _))]
      cases decodeOptionsLoop rounds rest with
      | error e => rfl
      | ok os => exact congrArg (some ∘ Except.ok) (List.append_assoc options [o] os)
    cases bytes with
    | nil => exact congrArg some hnil.symm
    | cons kind rest =>
      rw [List.length_cons, Nat.add_le_add_iff_right] at hrounds
      by_cases h0 : kind = 0
      · subst h0
        rw [decodeOptionsLoop_zero, hnil, optionsChecked, if_pos rfl]
      by_cases h1 : kind = 1
      · subst h1
        rw [decodeOptionsLoop_one, optionsChecked, if_neg h0, if_pos rfl, hacc _ _ hrounds]
      cases rest with
      | nil =>
        rw [decodeOptionsLoop_short h0 h1, optionsChecked, if_neg h0, if_neg h1]
        rfl
      | cons lenByte body =>
        rw [List.length_cons] at hrounds
        rw [decodeOptionsLoop_tlv h0 h1, optionsChecked, if_neg h0, if_neg h1]
        simp only [List.head?_cons, List.length_cons]
        by_cases hlen : lenByte.toNat < 2 ∨ body.length + 2 < lenByte.toNat
        · rw [if_pos hlen, if_pos hlen]
          rfl
        rw [if_neg hlen, if_neg hlen]
        obtain ⟨hlow, hhigh⟩ := not_or.1 hlen
        obtain ⟨len, hbyte⟩ : ∃ len, lenByte.toNat = len + 2 := ⟨lenByte.toNat - 2, by omega⟩
        rw [hbyte] at hhigh ⊢
        have hle : len + 2 ≤ body.length + 1 + 1 := not_lt.1 hhigh
        -- the slices that the round takes: the data, and the bytes after the option
        have hdata : slice (kind :: lenByte :: body) 2 (len + 2) = some (body.take len) := slice_eq (Nat.le_add_left _ _) hle
        have hrest : slice (kind :: lenByte :: body) (len + 2) (body.length + 1 + 1) = some (body.drop len) := by
          rw [slice_eq hle le_rfl]
          exact congrArg (fun l => some (l.drop (len + 2))) (List.take_length (l := kind :: lenByte :: body))
        have htaken : (body.take len).length + 2 = len + 2 := by
          rw [List.length_take]
          omega
        have hshort : (body.drop len).length ≤ rounds := by
          rw [List.length_drop]
          omega
        simp only [hdata, hrest, optionChecked_eq htaken, Nat.add_sub_cancel, bind, Option.bind, Except.bind, pure, Except.pure]
        cases decodeOption kind (body.take len) with
        | error e => rfl
        | ok option =>
          simp only [hacc _ _ hshort]
          cases decodeOptionsLoop rounds (body.drop len) <;> rfl

/-- **The decoder** takes no index out of range, and ends. -/
theorem decodeChecked_eq (bytes : List U8) : decodeChecked bytes = some (decode bytes) := by
  by_cases h20 : bytes.length < 20
  · have hshort : bytes.length < HEADER_LEN := h20
    rw [decodeChecked, decode, if_pos hshort, dif_pos h20]
  have hbyte : ∀ (i : ℕ) (hi : i < 20), bytes[i]? = some bytes[i] := fun i hi => List.getElem?_eq_getElem (by omega)
  have hseq : fixedU32 bytes 4 8 = some (fromBe32 bytes[4] bytes[5] bytes[6] bytes[7]) := fixedU32_eq (by omega)
  have hack : fixedU32 bytes 8 12 = some (fromBe32 bytes[8] bytes[9] bytes[10] bytes[11]) := fixedU32_eq (by omega)
  have hword : fixedU16 bytes 12 14 = some (fromBe16 bytes[12] bytes[13]) := fixedU16_eq (by omega)
  have hlong : ¬ bytes.length < HEADER_LEN := h20
  unfold decodeChecked decode
  rw [if_neg hlong, dif_neg h20]
  simp only [bind, Option.bind_some, hbyte 0 (by decide), hbyte 1 (by decide), hbyte 2 (by decide), hbyte 3 (by decide),
    hbyte 14 (by decide), hbyte 15 (by decide), hbyte 16 (by decide), hbyte 17 (by decide), hbyte 18 (by decide),
    hbyte 19 (by decide), hseq, hack, hword]
  generalize fromBe16 bytes[12] bytes[13] = word
  by_cases hports : fromBe16 bytes[0] bytes[1] = 0 ∨ fromBe16 bytes[2] bytes[3] = 0
  · rw [if_pos hports, if_pos hports]
  by_cases hheader : ¬ (HEADER_LEN ≤ (word >>> 12).toNat * 4 ∧ (word >>> 12).toNat * 4 ≤ 60) ∨ bytes.length < (word >>> 12).toNat * 4
  · rw [if_neg hports, if_neg hports, if_pos hheader, if_pos hheader]
  by_cases hsum : fromBe16 bytes[16] bytes[17] ≠ 0
  · rw [if_neg hports, if_neg hports, if_neg hheader, if_neg hheader, if_pos hsum, if_pos hsum]
  by_cases hurgent : fromBe16 bytes[18] bytes[19] ≠ 0
  · rw [if_neg hports, if_neg hports, if_neg hheader, if_neg hheader, if_neg hsum, if_neg hsum, if_pos hurgent, if_pos hurgent]
  rw [if_neg hports, if_neg hports, if_neg hheader, if_neg hheader, if_neg hsum, if_neg hsum, if_neg hurgent, if_neg hurgent]
  cases Flags.fromWire (word &&& 0x1ff) with
  | error e => rfl
  | ok flags =>
    obtain ⟨hlow, hhigh⟩ := not_or.1 hheader
    rw [not_not] at hlow
    have harea : slice bytes HEADER_LEN ((word >>> 12).toNat * 4) =
        some ((bytes.take ((word >>> 12).toNat * 4)).drop HEADER_LEN) :=
      slice_eq hlow.1 (not_lt.1 hhigh)
    have hpayload : slice bytes ((word >>> 12).toNat * 4) bytes.length = some (bytes.drop ((word >>> 12).toNat * 4)) := by
      rw [slice_eq (not_lt.1 hhigh) le_rfl, List.take_length]
    simp only [harea, hpayload, Option.bind_some, optionsChecked_eq le_rfl, Except.bind, decodeOptions, pure, Except.pure]
    cases decodeOptionsLoop ((bytes.take ((word >>> 12).toNat * 4)).drop HEADER_LEN).length
      ((bytes.take ((word >>> 12).toNat * 4)).drop HEADER_LEN) <;> rfl

/-! ## The option area -/

/-- an option with a length byte, as the decoder reads it -/
theorem decodeOption_iff {kind len : U8} {data : List U8} {o : TcpOption} (h0 : kind ≠ 0) (h1 : kind ≠ 1)
    (hlen : len.toNat = data.length + 2) : decodeOption kind data = .ok o ↔ LengthOption kind len data o := by
  have hkind : 2 ≤ kind.toNat := by
    by_contra hlt
    have : kind.toNat = 0 ∨ kind.toNat = 1 := by omega
    rcases this with h | h
    · exact h0 (BitVec.eq_of_toNat_eq h)
    · exact h1 (BitVec.eq_of_toNat_eq h)
  constructor
  · intro h
    by_cases htwo : data.length = 2
    · obtain ⟨a, b, rfl⟩ := List.length_eq_two.1 htwo
      have h4 : len = 4 := BitVec.eq_of_toNat_eq hlen
      simp only [decodeOption] at h
      split_ifs at h with h2 h254
      · cases h
        rw [h2, h4]
        exact .maxSegmentSize a b
      · cases h
        rw [h254, h4]
        exact .fipsVersion a b
      · cases h
        exact .unknown kind len [a, b] hkind h2 h254 (hlen.trans (Nat.add_comm _ _))
    · rw [decodeOption_other htwo] at h
      split_ifs at h with hknown
      cases h
      obtain ⟨h2, h254⟩ := not_or.1 hknown
      exact .unknown kind len data hkind h2 h254 (hlen.trans (Nat.add_comm _ _))
  · intro h
    cases h with
    | maxSegmentSize a b => rfl
    | fipsVersion version reserved => rfl
    | unknown _ _ _ _ h2 hfips =>
      have h254 : kind ≠ FIPS_OPTION_KIND := hfips
      by_cases htwo : data.length = 2
      · obtain ⟨a, b, rfl⟩ := List.length_eq_two.1 htwo
        simp only [decodeOption]
        rw [if_neg h2, if_neg h254]
      · rw [decodeOption_other htwo, if_neg (not_or.2 ⟨h2, h254⟩)]

/-- what an option's kind and length byte are -/
theorem lengthOption_bytes {kind len : U8} {data : List U8} {o : TcpOption} (h : LengthOption kind len data o) :
    kind ≠ 0 ∧ kind ≠ 1 ∧ len.toNat = data.length + 2 := by
  cases h with
  | maxSegmentSize => exact ⟨by decide, by decide, rfl⟩
  | fipsVersion => exact ⟨by decide, by decide, rfl⟩
  | unknown _ _ _ hkind _ _ hlen =>
    refine ⟨?_, ?_, hlen.trans (Nat.add_comm _ _)⟩ <;> rintro rfl <;> exact absurd hkind (by decide)

/-- **The option loop accepts the option areas.** -/
theorem optionArea_of_decode {rounds : ℕ} {options : List TcpOption} (hrounds : bytes.length ≤ rounds)
    (h : decodeOptionsLoop rounds bytes = .ok options) : OptionArea bytes options := by
  induction rounds generalizing bytes options with
  | zero =>
    obtain rfl := List.length_eq_zero_iff.1 (Nat.le_zero.1 hrounds)
    cases h
    exact .finish
  | succ rounds ih =>
    cases bytes with
    | nil =>
      cases h
      exact .finish
    | cons kind rest =>
      rw [List.length_cons, Nat.add_le_add_iff_right] at hrounds
      by_cases h0 : kind = 0
      · subst h0
        cases h
        exact .endOfList rest
      by_cases h1 : kind = 1
      · subst h1
        rw [decodeOptionsLoop_one] at h
        rcases hrest : decodeOptionsLoop rounds rest with e | os <;> rw [hrest] at h
        · cases h
        · cases h
          exact .noOperation (ih hrounds hrest)
      cases rest with
      | nil =>
        rw [decodeOptionsLoop_short h0 h1] at h
        cases h
      | cons lenByte body =>
        rw [List.length_cons] at hrounds
        rw [decodeOptionsLoop_tlv h0 h1] at h
        split_ifs at h with hlen
        obtain ⟨hlow, hhigh⟩ := not_or.1 hlen
        have hdata : lenByte.toNat = (body.take (lenByte.toNat - 2)).length + 2 := by
          rw [List.length_take]
          omega
        have hshort : (body.drop (lenByte.toNat - 2)).length ≤ rounds := by
          rw [List.length_drop]
          omega
        rcases ho : decodeOption kind (body.take (lenByte.toNat - 2)) with e | o <;> rw [ho] at h
        · cases h
        rcases hrest : decodeOptionsLoop rounds (body.drop (lenByte.toNat - 2)) with e | os <;> rw [hrest] at h
        · cases h
        cases h
        rw [← List.take_append_drop (lenByte.toNat - 2) body]
        exact .option ((decodeOption_iff h0 h1 hdata).1 ho) (ih hshort hrest)

/-- **The option loop reads every option area.** -/
theorem decode_of_optionArea {rounds : ℕ} {options : List TcpOption} (h : OptionArea bytes options)
    (hrounds : bytes.length ≤ rounds) : decodeOptionsLoop rounds bytes = .ok options := by
  induction h generalizing rounds with
  | finish => cases rounds <;> rfl
  | endOfList rest =>
    obtain ⟨rounds, rfl⟩ := Nat.exists_eq_add_of_lt (Nat.lt_of_lt_of_le (Nat.succ_pos _) hrounds)
    rw [Nat.zero_add]
    exact decodeOptionsLoop_zero rounds rest
  | @noOperation rest os h ih =>
    obtain ⟨rounds, rfl⟩ := Nat.exists_eq_add_of_lt (Nat.lt_of_lt_of_le (Nat.succ_pos _) hrounds)
    rw [Nat.zero_add] at hrounds ⊢
    rw [decodeOptionsLoop_one, ih (Nat.le_of_succ_le_succ hrounds)]
    rfl
  | @option kind len data rest o os ho h ih =>
    obtain ⟨rounds, rfl⟩ := Nat.exists_eq_add_of_lt (Nat.lt_of_lt_of_le (Nat.succ_pos _) hrounds)
    obtain ⟨h0, h1, hlen⟩ := lengthOption_bytes ho
    simp only [List.length_cons, List.length_append, Nat.zero_add] at hrounds ⊢
    have hread : decodeOption kind data = .ok o := (decodeOption_iff h0 h1 hlen).2 ho
    have htake : (data ++ rest).take (len.toNat - 2) = data := by rw [hlen, Nat.add_sub_cancel, List.take_left]
    have hdrop : (data ++ rest).drop (len.toNat - 2) = rest := by rw [hlen, Nat.add_sub_cancel, List.drop_left]
    rw [decodeOptionsLoop_tlv h0 h1, if_neg (by rw [List.length_append]; omega), htake, hdrop, hread,
      ih (by omega : rest.length ≤ rounds)]
    rfl

theorem optionArea_iff {options : List TcpOption} : decodeOptions bytes = .ok options ↔ OptionArea bytes options :=
  ⟨optionArea_of_decode le_rfl, fun h => decode_of_optionArea h le_rfl⟩

/-! ## The fixed fields -/

theorem number_be16 (x : U16) : number (be16 x) = x.toNat := by
  have hlt := x.isLt
  simp only [number, be16, List.foldl_cons, List.foldl_nil, BitVec.extractLsb'_toNat, Nat.shiftRight_eq_div_pow]
  omega

theorem number_be32 (x : U32) : number (be32 x) = x.toNat := by
  have hlt := x.isLt
  simp only [number, be32, List.foldl_cons, List.foldl_nil, BitVec.extractLsb'_toNat, Nat.shiftRight_eq_div_pow]
  omega

/-- the flag bits that the decoder refuses -/
theorem supported_iff (word : U16) : (word &&& 0x1ff) &&& ~~~Flags.supportedMask = 0 ↔
    word.toNat.testBit 5 = false ∧ word.toNat.testBit 8 = false := by
  have hmask : (0x1ff : U16) &&& ~~~Flags.supportedMask = BitVec.twoPow 16 5 ||| BitVec.twoPow 16 8 := by decide
  have hbit : ∀ i < 16, word &&& BitVec.twoPow 16 i = 0 ↔ word.toNat.testBit i = false := by
    intro i hi
    rw [BitVec.and_twoPow, ← BitVec.testBit_toNat]
    cases word.toNat.testBit i with
    | false => exact iff_of_true (if_neg Bool.false_ne_true) rfl
    | true =>
      refine iff_of_false ?_ (by decide)
      rw [if_pos rfl]
      intro h
      have := congrArg (fun x => BitVec.getLsbD x i) h
      simp [hi] at this
  rw [BitVec.and_assoc, hmask, BitVec.and_or_distrib_left]
  exact BitVec.or_eq_zero_iff.trans (and_congr (hbit 5 (by decide)) (hbit 8 (by decide)))

theorem contains_ack (word : U16) : (Flags.mk (word &&& 0x1ff)).contains .ACK = word.toNat.testBit 4 := by
  have hmask : (0x1ff : U16) &&& Flags.ACK.bits = BitVec.twoPow 16 4 := by decide
  have hack : Flags.ACK.bits = BitVec.twoPow 16 4 := by decide
  rw [Flags.contains, BitVec.and_assoc, hmask, hack, BitVec.and_twoPow, ← BitVec.testBit_toNat]
  cases word.toNat.testBit 4 <;> decide

/-- a header and what follows it, as the grammar sees them -/
structure Fields (bytes : List U8) (srcPort dstPort : U16) (seq rawAck : U32) (word window sum urgent : U16) (rest : List U8) :
    Prop where
  srcPort : field bytes 0 2 = srcPort.toNat
  dstPort : field bytes 2 2 = dstPort.toNat
  seq : field bytes 4 4 = seq.toNat
  rawAck : field bytes 8 4 = rawAck.toNat
  word : field bytes 12 2 = word.toNat
  window : field bytes 14 2 = window.toNat
  sum : field bytes 16 2 = sum.toNat
  urgent : field bytes 18 2 = urgent.toNat
  length : bytes.length = 20 + rest.length
  body : bytes.drop 20 = rest

theorem fields_header (srcPort dstPort : U16) (seq rawAck : U32) (word window sum urgent : U16) (rest : List U8) :
    Fields (be16 srcPort ++ be16 dstPort ++ be32 seq ++ be32 rawAck ++ be16 word ++ be16 window ++ be16 sum ++ be16 urgent ++ rest)
      srcPort dstPort seq rawAck word window sum urgent rest :=
  ⟨number_be16 srcPort, number_be16 dstPort, number_be32 seq, number_be32 rawAck, number_be16 word, number_be16 window,
    number_be16 sum, number_be16 urgent, by rw [List.length_append]; rfl, rfl⟩

section Fields

variable {srcPort dstPort : U16} {seq rawAck : U32} {word window sum urgent : U16} {rest : List U8}
  (h : Fields bytes srcPort dstPort seq rawAck word window sum urgent rest)
include h

theorem Fields.offset : dataOffset bytes = (word >>> 12).toNat := by
  rw [dataOffset, h.word, BitVec.toNat_ushiftRight, Nat.shiftRight_eq_div_pow]

theorem Fields.optionBytes : optionBytes bytes = rest.take ((word >>> 12).toNat * 4 - 20) := by
  rw [FipsTcp.optionBytes, h.offset, List.drop_take, h.body]

theorem Fields.payload (hle : 20 ≤ (word >>> 12).toNat * 4) :
    bytes.drop (dataOffset bytes * 4) = rest.drop ((word >>> 12).toNat * 4 - 20) := by
  rw [h.offset, ← h.body, List.drop_drop, Nat.add_sub_cancel' hle]

end Fields

theorem toNat_eq_zero {w : ℕ} {x : BitVec w} : x.toNat = 0 ↔ x = 0 :=
  ⟨fun h => BitVec.eq_of_toNat_eq h, fun h => by rw [h]; rfl⟩

theorem low_flags (word : U16) : (word &&& 0x1ff).toNat = word.toNat % 512 := by
  have hmask : (0x1ff : U16).toNat = 2 ^ 9 - 1 := by decide
  rw [BitVec.toNat_and, hmask, Nat.and_two_pow_sub_one_eq_mod]

/-- a data offset is a number of four bits -/
theorem offset_le (word : U16) : (word >>> 12).toNat ≤ 15 := by
  have hword := word.isLt
  rw [BitVec.toNat_ushiftRight, Nat.shiftRight_eq_div_pow]
  omega

/-- **Soundness.** What is accepted is of the grammar, and is read as the grammar says. -/
theorem wellFormed_of_decode {s : Segment} (h : decode bytes = .ok s) : WellFormed bytes ∧ Assigns bytes s := by
  obtain ⟨rawAck, word, area, rfl, hports, hoffset, hflags, hsupported, hack, hoptions⟩ := decode_ok h
  have hf := fields_header s.srcPort s.dstPort s.seq rawAck word s.window 0 0 (area ++ s.payload)
  generalize be16 s.srcPort ++ be16 s.dstPort ++ be32 s.seq ++ be32 rawAck ++ be16 word ++ be16 s.window ++ be16 0 ++ be16 0 ++
    (area ++ s.payload) = bytes at hf ⊢
  have hcount : (word >>> 12).toNat * 4 - 20 = area.length := by
    rw [hoffset]
    exact Nat.add_sub_cancel_left 20 area.length
  have hle : 20 ≤ (word >>> 12).toNat * 4 := hoffset ▸ Nat.le_add_right _ _
  have hfour := offset_le word
  have hlen := hf.length
  rw [List.length_append] at hlen
  have harea : optionBytes bytes = area := by rw [hf.optionBytes, hcount, List.take_left]
  have hoptions' : OptionArea (optionBytes bytes) s.options := by rw [harea]; exact optionArea_iff.1 hoptions
  constructor
  · refine ⟨?_, ⟨?_, ?_⟩, ?_, ?_, hf.sum, hf.urgent, ?_, s.options, hoptions'⟩
    · omega
    · rw [hf.srcPort]
      exact fun h0 => hports (.inl (toNat_eq_zero.1 h0))
    · rw [hf.dstPort]
      exact fun h0 => hports (.inr (toNat_eq_zero.1 h0))
    · rw [hf.offset]
      omega
    · rw [hf.offset]
      omega
    · rw [hf.word, ← supported_iff, ← hflags]
      exact hsupported
  · refine ⟨hf.srcPort.symm, hf.dstPort.symm, hf.seq.symm, ?_, ?_, hf.window.symm, hoptions', ?_⟩
    · have hcontains : s.flags.contains .ACK = word.toNat.testBit 4 := by rw [← contains_ack, ← hflags]
      rw [hack, hcontains, hf.word, hf.rawAck, BitVec.ofNat_toNat, BitVec.setWidth_eq]
    · rw [hflags, low_flags, hf.word]
    · rw [hf.payload hle, hcount, List.drop_left]

/-- **Completeness.** What is of the grammar is accepted. -/
theorem decode_of_wellFormed {s : Segment} (h : WellFormed bytes) (hs : Assigns bytes s) : decode bytes = .ok s := by
  obtain ⟨srcPort, dstPort, seq, rawAck, word, window, sum, urgent, rest, hbytes⟩ := header_split h.length
  have hf := fields_header srcPort dstPort seq rawAck word window sum urgent rest
  rw [← hbytes] at hf
  have hoffset := h.offset
  have hfits := h.fits
  rw [hf.offset] at hoffset hfits
  rw [hf.length] at hfits
  have hle : 20 ≤ (word >>> 12).toNat * 4 := by omega
  have hports : ¬ (srcPort = 0 ∨ dstPort = 0) := by
    rintro (rfl | rfl)
    · exact h.ports.1 hf.srcPort
    · exact h.ports.2 hf.dstPort
  have hheader : ¬ (¬ (HEADER_LEN ≤ (word >>> 12).toNat * 4 ∧ (word >>> 12).toNat * 4 ≤ 60) ∨
      HEADER_LEN + rest.length < (word >>> 12).toNat * 4) := by
    rw [not_or, not_not, not_lt]
    exact ⟨⟨hle, by omega⟩, hfits⟩
  have hsum : ¬ sum ≠ 0 := not_not.2 (toNat_eq_zero.1 (hf.sum.symm.trans h.checksum))
  have hurgent : ¬ urgent ≠ 0 := not_not.2 (toNat_eq_zero.1 (hf.urgent.symm.trans h.urgent))
  have hflags : Flags.fromWire (word &&& 0x1ff) = .ok ⟨word &&& 0x1ff⟩ := by
    have hsupported := h.flags
    rw [hf.word, ← supported_iff] at hsupported
    exact if_neg (not_not.2 hsupported)
  have hoptions : decodeOptions (rest.take ((word >>> 12).toNat * 4 - HEADER_LEN)) = .ok s.options := by
    rw [optionArea_iff, show HEADER_LEN = 20 from rfl, ← hf.optionBytes]
    exact hs.options
  rw [hbytes, decode_header]
  dsimp only
  rw [if_neg hports, if_neg hheader, if_neg hsum, if_neg hurgent, hflags]
  simp only [bind, Except.bind, hoptions, pure, Except.pure, Except.ok.injEq]
  have hword : s.flags = ⟨word &&& 0x1ff⟩ := by
    have : s.flags.bits = word &&& 0x1ff := BitVec.eq_of_toNat_eq (by rw [hs.flags, hf.word, low_flags])
    rw [← this]
  have h1 : s.srcPort = srcPort := BitVec.eq_of_toNat_eq (hs.srcPort.trans hf.srcPort)
  have h2 : s.dstPort = dstPort := BitVec.eq_of_toNat_eq (hs.dstPort.trans hf.dstPort)
  have h3 : s.seq = seq := BitVec.eq_of_toNat_eq (hs.seq.trans hf.seq)
  have h4 : s.window = window := BitVec.eq_of_toNat_eq (hs.window.trans hf.window)
  have h5 : s.payload = rest.drop ((word >>> 12).toNat * 4 - HEADER_LEN) := hs.payload.trans (hf.payload hle)
  have h6 : s.ack = if (Flags.mk (word &&& 0x1ff)).contains .ACK then some rawAck else none := by
    rw [hs.ack, contains_ack, hf.word, hf.rawAck, BitVec.ofNat_toNat, BitVec.setWidth_eq]
  rw [← h1, ← h2, ← h3, ← h4, ← h5, ← h6, ← hword]

/-- a byte string of the grammar is assigned a segment -/
theorem assigned (h : WellFormed bytes) : ∃ s, Assigns bytes s := by
  obtain ⟨srcPort, dstPort, seq, rawAck, word, window, sum, urgent, rest, hbytes⟩ := header_split h.length
  have hf := fields_header srcPort dstPort seq rawAck word window sum urgent rest
  rw [← hbytes] at hf
  obtain ⟨options, hoptions⟩ := h.options
  refine ⟨⟨srcPort, dstPort, seq, _, ⟨word &&& 0x1ff⟩, window, options, _⟩, hf.srcPort.symm, hf.dstPort.symm, hf.seq.symm, rfl, ?_,
    hf.window.symm, hoptions, rfl⟩
  rw [low_flags, hf.word]

end Segment

/-- **The decoder accepts the grammar.** On every byte string the decoder takes no index out of range; it accepts exactly those of
the grammar, and what it reads is what the grammar assigns. -/
theorem decode_grammar (bytes : List U8) : Segment.decodeChecked bytes = some (Segment.decode bytes) ∧
    ((∃ s, Segment.decode bytes = .ok s) ↔ WellFormed bytes) ∧
    ∀ s, Segment.decode bytes = .ok s ↔ WellFormed bytes ∧ Assigns bytes s := by
  refine ⟨Segment.decodeChecked_eq bytes, ⟨?_, ?_⟩, fun s => ⟨Segment.wellFormed_of_decode, ?_⟩⟩
  · rintro ⟨s, h⟩
    exact (Segment.wellFormed_of_decode h).1
  · intro h
    obtain ⟨s, hs⟩ := Segment.assigned h
    exact ⟨s, Segment.decode_of_wellFormed h hs⟩
  · rintro ⟨h, hs⟩
    exact Segment.decode_of_wellFormed h hs

/-- a zero byte ends the options, whatever follows it -/
example : OptionArea [1, 2, 4, 5, 180, 0, 2, 9] [.noOperation, .maxSegmentSize 1460] :=
  .noOperation (.option (.maxSegmentSize 5 180) (.endOfList [2, 9]))

end FipsTcp

/-
Sequence numbers and segments of the TypeScript package (`seq.ts`, `wire.ts`, `segment.ts`).

A `number` is a natural number; where a difference can be negative the operator is applied to an integer, and where a result
can pass 2^53 it is rounded. The bytes of a `Uint8Array` are 8-bit values. A throw is an error with its text. The constructor
of `Segment` refuses fields out of range (`Segment.inRange`): every segment that `decode`, `buildSegment` and `resetResponse`
make is in range, so those three build their segments without the check.
-/
import FipsTcp.Core.Seq
import FipsTcp.Lib.Number

namespace FipsTcp.Ts

open Number

/-! ## `seq.ts` -/

def u32 (value : ℕ) : ℕ := toUint32 value

def before (left right : ℕ) : Prop := toInt32 (left - right) < 0

instance (left right : ℕ) : Decidable (before left right) := by unfold before; infer_instance

def after (left right : ℕ) : Prop := before right left

instance (left right : ℕ) : Decidable (after left right) := by unfold after; infer_instance

def beforeOrEqual (left right : ℕ) : Prop := left = right ∨ before left right

instance (left right : ℕ) : Decidable (beforeOrEqual left right) := by unfold beforeOrEqual; infer_instance

def inClosedInterval (value start end_ : ℕ) : Prop := ¬ before value start ∧ ¬ after value end_

instance (value start end_ : ℕ) : Decidable (inClosedInterval value start end_) := by
  unfold inClosedInterval; infer_instance

def distance (start end_ : ℕ) : ℕ := toUint32 (end_ - start)

/-! ## Flags and options -/

def HEADER_LEN : ℕ := 20
def FIPS_OPTION_KIND : ℕ := 254
def FIPS_VERSION : ℕ := 1

namespace Flags

def Fin : ℕ := 0x001
def Syn : ℕ := 0x002
def Rst : ℕ := 0x004
def Psh : ℕ := 0x008
def Ack : ℕ := 0x010
def Ece : ℕ := 0x040
def Cwr : ℕ := 0x080

end Flags

def SUPPORTED_FLAGS : ℕ := Flags.Fin ||| Flags.Syn ||| Flags.Rst ||| Flags.Psh ||| Flags.Ack ||| Flags.Ece ||| Flags.Cwr

structure FlagSet where
  bits : ℕ
deriving DecidableEq, Repr

namespace FlagSet

/-- `new FlagSet(bits)`, for bits that may not be supported -/
def parse (bits : ℕ) : Except String FlagSet :=
  if Nat.ldiff bits SUPPORTED_FLAGS ≠ 0 then .error s!"unsupported TCP flags: {bits}" else .ok ⟨bits⟩

def has (f : FlagSet) (flag : ℕ) : Bool := f.bits &&& flag == flag

end FlagSet

inductive TcpOption where
  | endOfList
  | noOperation
  | maxSegmentSize (value : ℕ)
  | fipsVersion (version reserved : ℕ)
  | unknown (wireKind : ℕ) (data : List U8)
deriving DecidableEq, Repr

/-- `setUint16` and `setUint32` -/
def setUint16 (x : ℕ) : List U8 := [BitVec.ofNat 8 (x >>> 8), BitVec.ofNat 8 x]

def setUint32 (x : ℕ) : List U8 :=
  [BitVec.ofNat 8 (x >>> 24), BitVec.ofNat 8 (x >>> 16), BitVec.ofNat 8 (x >>> 8), BitVec.ofNat 8 x]

/-- `getUint16` and `getUint32` -/
def getUint16 (a b : U8) : ℕ := a.toNat * 2 ^ 8 + b.toNat

def getUint32 (a b c d : U8) : ℕ := a.toNat * 2 ^ 24 + b.toNat * 2 ^ 16 + c.toNat * 2 ^ 8 + d.toNat

def encodeOption : TcpOption → Except String (List U8)
  | .endOfList => .ok [0]
  | .noOperation => .ok [1]
  | .maxSegmentSize value =>
    if 65535 < value then .error "MSS must be a u16" else .ok [2, 4, BitVec.ofNat 8 (value >>> 8), BitVec.ofNat 8 value]
  | .fipsVersion version reserved => .ok [254, 4, BitVec.ofNat 8 version, BitVec.ofNat 8 reserved]
  | .unknown wireKind data =>
    if wireKind ≤ 1 ∨ 255 < wireKind ∨ 253 < data.length then .error "malformed TCP option"
    else .ok ([BitVec.ofNat 8 wireKind, BitVec.ofNat 8 (data.length + 2)] ++ data)

/-- the loop of `decodeOptions` from an offset on; `fuel` is at least the number of bytes left -/
def decodeOptionsLoop (bytes : List U8) : ℕ → ℕ → Except String (List TcpOption)
  | 0, _ => .ok []
  | fuel + 1, offset =>
    match bytes[offset]? with
    | none => .ok []
    | some kind =>
      if kind = 0 then .ok []
      else if kind = 1 then do
        let options ← decodeOptionsLoop bytes fuel (offset + 1)
        return .noOperation :: options
      else
        match bytes[offset + 1]? with
        | none => .error "malformed TCP option"
        | some length =>
          if length.toNat < 2 ∨ bytes.length < offset + length.toNat then .error "malformed TCP option"
          else
            let data := (bytes.take (offset + length.toNat)).drop (offset + 2)
            let option : Except String TcpOption :=
              if kind = 2 then
                if length.toNat ≠ 4 then .error "malformed MSS option"
                else .ok (.maxSegmentSize (((data.getD 0 0).toNat <<< 8) ||| (data.getD 1 0).toNat))
              else if kind.toNat = FIPS_OPTION_KIND then
                if length.toNat ≠ 4 then .error "malformed TCP/FIPS version option"
                else .ok (.fipsVersion (data.getD 0 0).toNat (data.getD 1 0).toNat)
              else .ok (.unknown kind.toNat data)
            do
              let option ← option
              let options ← decodeOptionsLoop bytes fuel (offset + length.toNat)
              return option :: options

def decodeOptions (bytes : List U8) : Except String (List TcpOption) := decodeOptionsLoop bytes bytes.length 0

/-! ## Segments -/

structure Segment where
  srcPort : ℕ
  dstPort : ℕ
  seq : ℕ
  ack : Option ℕ
  flags : FlagSet
  window : ℕ
  options : List TcpOption
  payload : List U8
deriving DecidableEq, Repr

namespace Segment

/-- what the constructor checks -/
def inRange (s : Segment) : Bool :=
  decide (s.srcPort ≤ 65535) && decide (s.dstPort ≤ 65535) && decide (s.seq < 2 ^ 32) && s.ack.all fun ack => decide (ack < 2 ^ 32)

def supportsFipsVersion (s : Segment) (expected : ℕ) : Bool :=
  s.options.any fun
    | .fipsVersion version reserved => version == expected && reserved == 0
    | _ => false

def maxSegmentSize (s : Segment) : Option ℕ :=
  s.options.findSome? fun
    | .maxSegmentSize value => some value
    | _ => none

def sequenceLength (s : Segment) : ℕ := s.payload.length + (s.flags.has Flags.Syn).toNat + (s.flags.has Flags.Fin).toNat

/-- `this.options.map(encodeOption)`: the first option that cannot be encoded throws -/
def encodeOptions : List TcpOption → Except String (List U8)
  | [] => .ok []
  | o :: os => do
    let b ← encodeOption o
    let bs ← encodeOptions os
    return b ++ bs

def encode (s : Segment) : Except String (List U8) :=
  if s.srcPort = 0 ∨ s.dstPort = 0 then .error "TCP/FIPS ports must be non-zero"
  else if s.flags.has Flags.Ack ≠ s.ack.isSome then .error "ACK flag and ACK number disagree"
  else do
    let encodedOptions ← encodeOptions s.options
    let paddedOptionsLength := (encodedOptions.length + 3) / 4 * 4
    let headerLength := HEADER_LEN + paddedOptionsLength
    if 60 < headerLength then .error "TCP/FIPS header exceeds 60 bytes"
    else
      -- the buffer is made of zeros: the checksum, the urgent pointer and the padding are not written
      return setUint16 s.srcPort ++ setUint16 s.dstPort ++ setUint32 s.seq ++ setUint32 (s.ack.getD 0) ++
        setUint16 (((headerLength / 4) <<< 12) ||| s.flags.bits) ++ setUint16 s.window ++ [0, 0, 0, 0] ++ encodedOptions ++
        List.replicate (paddedOptionsLength - encodedOptions.length) 0 ++ s.payload

def decode (bytes : List U8) : Except String Segment :=
  if h : bytes.length < HEADER_LEN then .error "truncated TCP/FIPS segment"
  else
    have h20 : 20 ≤ bytes.length := not_lt.1 h
    let srcPort := getUint16 bytes[0] bytes[1]
    let dstPort := getUint16 bytes[2] bytes[3]
    if srcPort = 0 ∨ dstPort = 0 then .error "TCP/FIPS ports must be non-zero"
    else
      let offsetAndFlags := getUint16 bytes[12] bytes[13]
      let headerLength := (offsetAndFlags >>> 12) * 4
      if headerLength < HEADER_LEN ∨ 60 < headerLength ∨ bytes.length < headerLength then
        .error "invalid TCP/FIPS header length"
      else if getUint16 bytes[16] bytes[17] ≠ 0 then .error "TCP/FIPS checksum must be zero"
      else if getUint16 bytes[18] bytes[19] ≠ 0 then .error "TCP/FIPS urgent data is unsupported"
      else do
        let flags ← FlagSet.parse (offsetAndFlags &&& 0x1ff)
        let options ← decodeOptions ((bytes.take headerLength).drop HEADER_LEN)
        return {
          srcPort, dstPort, flags, options
          seq := getUint32 bytes[4] bytes[5] bytes[6] bytes[7]
          ack := if flags.has Flags.Ack then some (getUint32 bytes[8] bytes[9] bytes[10] bytes[11]) else none
          window := getUint16 bytes[14] bytes[15]
          payload := bytes.drop headerLength }

end Segment

/-! ## `segment.ts` -/

def buildSegment (localPort remotePort seq ack window mss : ℕ) (flags : FlagSet) (payload : List U8) : Segment where
  srcPort := localPort
  dstPort := remotePort
  seq := seq
  ack := if flags.has Flags.Ack then some ack else none
  flags := flags
  window := window
  options := if flags.has Flags.Syn then [.maxSegmentSize mss, .fipsVersion FIPS_VERSION 0] else []
  payload := payload

def resetResponse (incoming : Segment) : Segment where
  srcPort := incoming.dstPort
  dstPort := incoming.srcPort
  seq := incoming.ack.getD 0
  ack := if incoming.ack.isSome then none else some (u32 (incoming.seq + incoming.sequenceLength))
  flags := if incoming.ack.isSome then ⟨Flags.Rst⟩ else ⟨Flags.Rst ||| Flags.Ack⟩
  window := 0
  options := []
  payload := []

end FipsTcp.Ts

/-
Segments and their encoding (`wire.rs`, and `build_segment` of `segment.rs`).

Bytes are lists of 8-bit values. Every index of `Segment.decode` is an indexing of the list with its bound proved, so the
decoder cannot read out of range; the option loop runs on the length of the option area, which every round shortens.
-/
import FipsTcp.Core.Seq

namespace FipsTcp

/-! ## Flags -/

structure Flags where
  bits : U16
deriving DecidableEq, Repr

namespace Flags

def FIN : Flags := ⟨0x001⟩
def SYN : Flags := ⟨0x002⟩
def RST : Flags := ⟨0x004⟩
def PSH : Flags := ⟨0x008⟩
def ACK : Flags := ⟨0x010⟩
def ECE : Flags := ⟨0x040⟩
def CWR : Flags := ⟨0x080⟩

def supportedMask : U16 :=
  FIN.bits ||| SYN.bits ||| RST.bits ||| PSH.bits ||| ACK.bits ||| ECE.bits ||| CWR.bits

def empty : Flags := ⟨0⟩

def contains (f flag : Flags) : Bool := f.bits &&& flag.bits == flag.bits

def union (f flag : Flags) : Flags := ⟨f.bits ||| flag.bits⟩

end Flags

inductive WireError where
  | truncated
  | invalidHeaderLength
  | nonZeroChecksum
  | urgentUnsupported
  | unsupportedFlags (bits : U16)
  | zeroPort
  | ackFlagMismatch
  | headerTooLong
  | optionTooLong
  | malformedOption
deriving DecidableEq, Repr

def Flags.fromWire (bits : U16) : Except WireError Flags :=
  if bits &&& ~~~supportedMask ≠ 0 then .error (.unsupportedFlags bits) else .ok ⟨bits⟩

/-! ## Options -/

def HEADER_LEN : ℕ := 20
def FIPS_OPTION_KIND : U8 := 254
def FIPS_VERSION : U8 := 1

inductive TcpOption where
  | endOfList
  | noOperation
  | maxSegmentSize (value : U16)
  | fipsVersion (version reserved : U8)
  | unknown (kind : U8) (data : List U8)
deriving DecidableEq, Repr

/-- `u16::to_be_bytes` and `u32::to_be_bytes` -/
def be16 (x : U16) : List U8 := [x.extractLsb' 8 8, x.extractLsb' 0 8]

def be32 (x : U32) : List U8 := [x.extractLsb' 24 8, x.extractLsb' 16 8, x.extractLsb' 8 8, x.extractLsb' 0 8]

/-- `u16::from_be_bytes` and `u32::from_be_bytes` -/
def fromBe16 (a b : U8) : U16 := a ++ b

def fromBe32 (a b c d : U8) : U32 := a ++ b ++ c ++ d

namespace TcpOption

def encodedLen : TcpOption → ℕ
  | endOfList | noOperation => 1
  | maxSegmentSize _ | fipsVersion _ _ => 4
  | unknown _ data => data.length + 2

def encode : TcpOption → Except WireError (List U8)
  | endOfList => .ok [0]
  | noOperation => .ok [1]
  | maxSegmentSize value => .ok ([2, 4] ++ be16 value)
  | fipsVersion version reserved => .ok [FIPS_OPTION_KIND, 4, version, reserved]
  | unknown kind data =>
    if 255 < data.length + 2 then .error .optionTooLong
    else if kind.toNat ≤ 1 then .error .malformedOption
    else .ok ([kind, BitVec.ofNat 8 (data.length + 2)] ++ data)

end TcpOption

/-! ## Segments -/

structure Segment where
  srcPort : U16
  dstPort : U16
  seq : U32
  ack : Option U32
  flags : Flags
  window : U16
  options : List TcpOption
  payload : List U8
deriving DecidableEq, Repr

namespace Segment

def new (srcPort dstPort : U16) (seq : U32) : Segment :=
  ⟨srcPort, dstPort, seq, none, Flags.empty, BitVec.allOnes 16, [], []⟩

def supportsFipsVersion (s : Segment) (expected : U8) : Bool :=
  s.options.any fun
    | .fipsVersion version reserved => reserved == 0 && version == expected
    | _ => false

def maxSegmentSize (s : Segment) : Option U16 :=
  s.options.findSome? fun
    | .maxSegmentSize value => some value
    | _ => none

/-- `u32::from(bool)` of a flag -/
def flagLen (flags flag : Flags) : ℕ := if flags.contains flag then 1 else 0

def sequenceLen (s : Segment) : U32 :=
  asU32 s.payload.length + asU32 (flagLen s.flags .SYN) + asU32 (flagLen s.flags .FIN)

/-- `Vec::resize(n, 0)` -/
def resize (l : List U8) (n : ℕ) : List U8 := l.take n ++ List.replicate (n - l.length) 0

/-- the options one after the other, up to the first that cannot be encoded -/
def encodeOptions : List TcpOption → Except WireError (List U8)
  | [] => .ok []
  | o :: os => do
    let b ← o.encode
    let bs ← encodeOptions os
    return b ++ bs

def encode (s : Segment) : Except WireError (List U8) :=
  if s.srcPort = 0 ∨ s.dstPort = 0 then .error .zeroPort
  else if s.flags.contains .ACK ≠ s.ack.isSome then .error .ackFlagMismatch
  else
    let optionsLen := (s.options.map TcpOption.encodedLen).sum
    let headerLen := HEADER_LEN + (optionsLen + 3) / 4 * 4
    if 60 < headerLen then .error .headerTooLong
    else do
      let offsetAndFlags := BitVec.ofNat 16 (headerLen / 4) <<< 12 ||| s.flags.bits
      let header := be16 s.srcPort ++ be16 s.dstPort ++ be32 s.seq ++ be32 (s.ack.getD 0) ++ be16 offsetAndFlags ++
        be16 s.window ++ be16 0 ++ be16 0
      let options ← encodeOptions s.options
      return resize (header ++ options) headerLen ++ s.payload

/-- the loop of `decode_options`; `fuel` is at least the number of bytes left -/
def decodeOptionsLoop : ℕ → List U8 → Except WireError (List TcpOption)
  | 0, _ => .ok []
  | _ + 1, [] => .ok []
  | fuel + 1, kind :: rest =>
    if kind = 0 then .ok []
    else if kind = 1 then do
      let options ← decodeOptionsLoop fuel rest
      return .noOperation :: options
    else
      match rest with
      | [] => .error .malformedOption
      | lenByte :: body =>
        let len := lenByte.toNat
        if len < 2 ∨ rest.length + 1 < len then .error .malformedOption
        else
          let data := body.take (len - 2)
          -- `data` has two bytes exactly when the length byte is 4
          let option : Except WireError TcpOption :=
            match data with
            | [a, b] =>
              if kind = 2 then .ok (.maxSegmentSize (fromBe16 a b))
              else if kind = FIPS_OPTION_KIND then .ok (.fipsVersion a b)
              else .ok (.unknown kind data)
            | _ => if kind = 2 ∨ kind = FIPS_OPTION_KIND then .error .malformedOption else .ok (.unknown kind data)
          do
            let option ← option
            let options ← decodeOptionsLoop fuel (body.drop (len - 2))
            return option :: options

def decodeOptions (bytes : List U8) : Except WireError (List TcpOption) := decodeOptionsLoop bytes.length bytes

def decode (bytes : List U8) : Except WireError Segment :=
  if h : bytes.length < 20 then .error .truncated
  else
    let srcPort := fromBe16 bytes[0] bytes[1]
    let dstPort := fromBe16 bytes[2] bytes[3]
    if srcPort = 0 ∨ dstPort = 0 then .error .zeroPort
    else
      let seq := fromBe32 bytes[4] bytes[5] bytes[6] bytes[7]
      let rawAck := fromBe32 bytes[8] bytes[9] bytes[10] bytes[11]
      let offsetAndFlags := fromBe16 bytes[12] bytes[13]
      let headerLen := (offsetAndFlags >>> 12).toNat * 4
      if ¬ (HEADER_LEN ≤ headerLen ∧ headerLen ≤ 60) ∨ bytes.length < headerLen then .error .invalidHeaderLength
      else if fromBe16 bytes[16] bytes[17] ≠ 0 then .error .nonZeroChecksum
      else if fromBe16 bytes[18] bytes[19] ≠ 0 then .error .urgentUnsupported
      else do
        let flags ← Flags.fromWire (offsetAndFlags &&& 0x1ff)
        let options ← decodeOptions ((bytes.take headerLen).drop HEADER_LEN)
        return {
          srcPort, dstPort, seq, flags, options
          ack := if flags.contains .ACK then some rawAck else none
          window := fromBe16 bytes[14] bytes[15]
          payload := bytes.drop headerLen }

end Segment

/-! ## Segments built by the state machine -/

structure SegmentHeader where
  localPort : U16
  remotePort : U16
  seq : U32
  ack : U32
  window : U16
  mss : U16
  flags : Flags

def buildSegment (header : SegmentHeader) (payload : List U8) : Segment :=
  { srcPort := header.localPort
    dstPort := header.remotePort
    seq := header.seq
    ack := if header.flags.contains .ACK then some header.ack else none
    flags := header.flags
    window := header.window
    options := if header.flags.contains .SYN then [.maxSegmentSize header.mss, .fipsVersion FIPS_VERSION 0] else []
    payload }

end FipsTcp

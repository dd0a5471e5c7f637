/-
  `ProtobufCodecLite` (muduo/net/protobuf/ProtobufCodecLite.{h,cc}) over `Buffer`; `RpcCodec` is the
  codec with the tag "RPC0" (muduo/net/protorpc/RpcCodec.h).

  A frame is `size | tag | payload | checkSum`, integers big-endian. The virtual functions
  `serializeToBuffer` and `parseFromBuffer` are fields, and `Lawful` says that one inverts the other.
  `rawCb_` sees every whole frame first; where it returns false the frame is skipped.

  A value `none` of a modelled function is a failed assertion, an access outside the memory it was
  given, or a sum that does not fit into an `int`.
-/
import Mmvx.Net.Frame

namespace Mmvx.Net

open Mmvx.Lib

structure ProtobufCodecLite where
  Message : Type
  tag_ : List UInt8
  rawCb_ : Option (List UInt8 → Bool)
  serializeToBuffer : Message → List UInt8
  parseFromBuffer : List UInt8 → Option Message

def kChecksumLen : Nat := 4

namespace ProtobufCodecLite

structure Lawful (c : ProtobufCodecLite) : Prop where
  parse_serialize : ∀ m, c.parseFromBuffer (c.serializeToBuffer m) = some m

/-- What the codec calls. -/
inductive Call (M : Type) where
  | raw (frame : List UInt8)
  | message (m : M)
  | error (e : ErrorCode)
  deriving DecidableEq, Repr

variable (c : ProtobufCodecLite)

def kMinMessageLen : Nat := c.tag_.length + kChecksumLen

def fillEmptyBuffer (buf : Buffer) (message : c.Message) : Option Buffer :=
  if buf.readableBytes ≠ 0 then none
  else
    let buf := buf.append c.tag_
    let byte_size := (c.serializeToBuffer message).length
    -- both terms are of type `int`
    if byte_size + kChecksumLen > 2147483647 then none
    else
      let buf := (buf.ensureWritableBytes (byte_size + kChecksumLen)).append
        (c.serializeToBuffer message)
      let buf := buf.appendInt32 (adler32 buf.readable)
      if buf.readableBytes ≠ c.tag_.length + byte_size + kChecksumLen then none
      else buf.prepend (int32Bytes buf.readableBytes)

/-- The bytes `send` hands to the connection. -/
def send (message : c.Message) : Option (List UInt8) := do
  let buf ← c.fillEmptyBuffer Buffer.empty message
  some buf.readable

/-- `kChecksumLen` is the `kHeaderLen` of `checkSumMatches`. -/
def validateChecksum (buf : List UInt8) (len : Int) : Option Bool := checkSumMatches buf len

def parse (buf : List UInt8) (len : Int) : Option (Except ErrorCode c.Message) := do
  if (← validateChecksum buf len) then
    if (← bytesAt buf 0 c.tag_.length) = c.tag_ then
      let data ← bytesAt buf c.tag_.length (len - kChecksumLen - c.tag_.length)
      match c.parseFromBuffer data with
      | some m => pure (.ok m)
      | none => pure (.error .kParseError)
    else pure (.error .kUnknownMessageType)
  else pure (.error .kCheckSumError)

/-- `rawCb_ && !rawCb_(..)` does not hold. -/
def wants (frame : List UInt8) : Bool :=
  match c.rawCb_ with
  | some rawCb => rawCb frame
  | none => true

/-- The call of `rawCb_`. -/
def rawCalls (frame : List UInt8) : List (Call c.Message) :=
  match c.rawCb_ with
  | some _ => [.raw frame]
  | none => []

/-- `onMessage`'s loop: its calls and the buffer it leaves. A turn that does not leave the loop
    consumes a frame, so the content's size bounds the number of turns. -/
def onMessageLoop : Nat → Buffer → Option (List (Call c.Message) × Buffer)
  | 0, buf => some ([], buf)
  | turns + 1, buf =>
    if buf.readableBytes < c.kMinMessageLen + kHeaderLen then some ([], buf)
    else
      let len := buf.peekInt32
      if len > kMaxMessageLen ∨ len < c.kMinMessageLen then some ([.error .kInvalidLength], buf)
      else if (buf.readableBytes : Int) ≥ kHeaderLen + len then
        let frame := buf.readable.take (kHeaderLen + len.toNat)
        if c.wants frame then do
          match ← c.parse (frame.drop kHeaderLen) len with
          | .ok m =>
            let (calls, buf') ← onMessageLoop turns (buf.retrieve (kHeaderLen + len.toNat))
            some (c.rawCalls frame ++ .message m :: calls, buf')
          | .error e => some (c.rawCalls frame ++ [.error e], buf)
        else do
          let (calls, buf') ← onMessageLoop turns (buf.retrieve (kHeaderLen + len.toNat))
          some (c.rawCalls frame ++ calls, buf')
      else some ([], buf)

def onMessage (buf : Buffer) : Option (List (Call c.Message) × Buffer) :=
  c.onMessageLoop (buf.readableBytes + 1) buf

/-- One read event: a chunk is appended to the input buffer and `onMessage` runs. -/
def receive (st : List (Call c.Message) × Buffer) (chunk : List UInt8) :
    Option (List (Call c.Message) × Buffer) := do
  let (calls, buf) ← c.onMessage (st.2.append chunk)
  some (st.1 ++ calls, buf)

/-- A fresh connection's read events, in order. -/
def receiveAll (chunks : List (List UInt8)) : Option (List (Call c.Message) × Buffer) :=
  chunks.foldlM c.receive ([], Buffer.empty)

end ProtobufCodecLite

end Mmvx.Net

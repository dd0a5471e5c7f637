/-
  `muduo::net::ProtobufCodec` (muduo/net/protobuf/ProtobufCodec.{h,cc}) over `Buffer`.

  A frame is `len | nameLen | typeName '\0' | protobufData | checkSum`, integers big-endian.
  protobuf (message types, serialiser, parser) and OpenSSL's AES are outside the repository:
  they are the parameters `Protobuf` and `Aes`, and what is assumed of them is `Protobuf.Lawful`
  and `Aes.Lawful`. `Aes::encrypt` copies the IV for every call, so each 16-byte block is
  transformed on its own. `adler32` is zlib's, with seed 1.

  A value `none` of a modelled function is a failed assertion or an access outside the memory it
  was given. Log lines are left out.
-/
import Mmvx.Net.Buffer

namespace Mmvx.Net

open Mmvx.Lib

/-! ## What is outside the repository -/

/-- The protobuf runtime: `Message` is `google::protobuf::Message`, `createMessage` says whether
    the generated pool knows a type name, and `ParseFromArray` returns the message object of that
    type after the call together with the call's result. -/
structure Protobuf where
  Message : Type
  GetTypeName : Message → List UInt8
  SerializeWithCachedSizesToArray : Message → List UInt8
  createMessage : List UInt8 → Bool
  ParseFromArray : List UInt8 → List UInt8 → Message × Bool

/-- Type names are not empty, the sender's types are known to the receiver, and parsing inverts
    serialising. -/
structure Protobuf.Lawful (pb : Protobuf) : Prop where
  typeName_ne_nil : ∀ m, pb.GetTypeName m ≠ []
  createMessage_typeName : ∀ m, pb.createMessage (pb.GetTypeName m) = true
  parse_serialize : ∀ m,
    pb.ParseFromArray (pb.GetTypeName m) (pb.SerializeWithCachedSizesToArray m) = (m, true)

def AES_BLOCK_SIZE : Nat := 16

/-- One AES block. -/
abbrev Block := { x : List UInt8 // x.length = AES_BLOCK_SIZE }

/-- `muduo::Aes` with its fixed key and IV: `encrypt` and `decrypt` on one block. -/
structure Aes where
  encrypt : Block → Block
  decrypt : Block → Block

structure Aes.Lawful (aes : Aes) : Prop where
  decrypt_encrypt : ∀ x, aes.decrypt (aes.encrypt x) = x

/-- A block function on the bytes of one block. -/
def onBlock (f : Block → Block) (x : List UInt8) : List UInt8 :=
  if h : x.length = AES_BLOCK_SIZE then (f ⟨x, h⟩).1 else x

/-- One byte of `adler32`: the two sums modulo 65521. -/
def adlerStep (s : Nat × Nat) (x : UInt8) : Nat × Nat :=
  ((s.1 + x.toNat) % 65521, (s.2 + (s.1 + x.toNat)) % 65521)

/-- zlib's `adler32(1, buf, len)`. -/
def adler32 (buf : List UInt8) : Nat :=
  65536 * (buf.foldl adlerStep (1, 0)).2 + (buf.foldl adlerStep (1, 0)).1

/-! ## The codec -/

inductive ErrorCode where
  | kNoError | kInvalidLength | kCheckSumError | kInvalidNameLen | kUnknownMessageType | kParseError
  deriving DecidableEq, Repr

def kHeaderLen : Nat := 4

def kMinMessageLen : Nat := 2 * kHeaderLen + 2

def kMaxMessageLen : Nat := 64 * 1024 * 1024

def kPadding : List UInt8 := List.replicate AES_BLOCK_SIZE 0

/-- A call of `messageCallback_` or of `errorCallback_`. -/
inductive Callback (M : Type) where
  | message (m : M)
  | error (e : ErrorCode)
  deriving DecidableEq, Repr

/-- The messages handed to `messageCallback_`, in order. -/
def delivered {M : Type} (cbs : List (Callback M)) : List M :=
  cbs.filterMap fun
    | .message m => some m
    | .error _ => none

/-- `errorCallback_` was called. -/
def Reports {M : Type} (cbs : List (Callback M)) : Prop := ∃ e, Callback.error e ∈ cbs

/-- `buf + off .. buf + off + len` of a caller's memory; `none` outside it. -/
def bytesAt (buf : List UInt8) (off len : Int) : Option (List UInt8) :=
  if 0 ≤ off ∧ 0 ≤ len ∧ off + len ≤ buf.length then some ((buf.drop off.toNat).take len.toNat)
  else none

/-- A step of a modelled function that returns. -/
theorem bind_of_some {α β : Type} {x : Option α} {a : α} (h : x = some a) (f : α → Option β) :
    (x >>= f) = f a := by
  rw [h]; rfl

def asInt32 (buf : List UInt8) : Int := toSigned 32 (beNat buf)

variable (pb : Protobuf)

def fillEmptyBuffer (buf : Buffer) (message : pb.Message) : Option Buffer :=
  if buf.readableBytes ≠ 0 then none
  else
    let typeName := pb.GetTypeName message
    let nameLen := typeName.length + 1
    let buf := buf.appendInt32 nameLen
    -- `c_str()` with its terminating NUL
    let buf := buf.append (typeName ++ [0])
    let buf := buf.append (pb.SerializeWithCachedSizesToArray message)
    let buf := buf.appendInt32 (adler32 buf.readable)
    buf.prepend (int32Bytes buf.readableBytes)

/-- The check sum over all but the last `kHeaderLen` bytes agrees with the one stored there. -/
def checkSumMatches (buf : List UInt8) (len : Int) : Option Bool := do
  let expectedCheckSum ← bytesAt buf (len - kHeaderLen) kHeaderLen
  let summed ← bytesAt buf 0 (len - kHeaderLen)
  pure (toSigned 32 (adler32 summed) == asInt32 expectedCheckSum)

/-- `parse` once the type name's length is accepted. -/
def parseMessage (buf : List UInt8) (len nameLen : Int) :
    Option (Option pb.Message × ErrorCode) := do
  let typeName ← bytesAt buf kHeaderLen (nameLen - 1)
  if pb.createMessage typeName then
    let data ← bytesAt buf (kHeaderLen + nameLen) (len - nameLen - 2 * kHeaderLen)
    pure (some (pb.ParseFromArray typeName data).1,
      if (pb.ParseFromArray typeName data).2 then .kNoError else .kParseError)
  else pure (none, .kUnknownMessageType)

/-- `parse` once the check sum is accepted. -/
def parseNamed (buf : List UInt8) (len nameLen : Int) :
    Option (Option pb.Message × ErrorCode) :=
  if nameLen ≥ 2 ∧ nameLen ≤ len - 2 * kHeaderLen then parseMessage pb buf len nameLen
  else pure (none, .kInvalidNameLen)

def parse (buf : List UInt8) (len : Int) : Option (Option pb.Message × ErrorCode) := do
  if (← checkSumMatches buf len) then
    parseNamed pb buf len (asInt32 (← bytesAt buf 0 kHeaderLen))
  else pure (none, .kCheckSumError)

/-- The `for` loop of `encryptBuffer`: each whole block of the content, in place. -/
def encryptBlocks (aes : Aes) (buf : Buffer) : Option Buffer :=
  (List.range (buf.readableBytes / AES_BLOCK_SIZE)).foldlM (fun b i => do
    let x ← b.readAt (b.beginEncrypt + (i * AES_BLOCK_SIZE : Nat)) AES_BLOCK_SIZE
    b.writeAt (b.beginEncrypt + (i * AES_BLOCK_SIZE : Nat)) (onBlock aes.encrypt x)) buf

def encryptBuffer (aes : Aes) (buf : Buffer) : Option Buffer :=
  if buf.readableBytes = 0 then none
  else
    let paddingLen := buf.readableBytes % AES_BLOCK_SIZE
    encryptBlocks aes (buf.append (kPadding.take paddingLen))

/-- `decryptBuffer`'s loop. The comparison is on `size_t`, where a negative difference is huge.
    Every turn that stays inside the vector moves `decryptIndex_` up, so the vector's size bounds
    the number of turns. -/
def decryptLoop (aes : Aes) : Nat → Buffer → Option Buffer
  | 0, buf => some buf
  | turns + 1, buf =>
    if buf.unDecryptedBytes < 0 ∨ (AES_BLOCK_SIZE : Int) ≤ buf.unDecryptedBytes then do
      let x ← buf.readAt buf.beginDecrypt AES_BLOCK_SIZE
      let buf' ← buf.writeAt buf.beginDecrypt (onBlock aes.decrypt x)
      decryptLoop aes turns (buf'.hasDecrypt AES_BLOCK_SIZE)
    else some buf

def decryptBuffer (aes : Aes) (buf : Buffer) : Option Buffer :=
  decryptLoop aes (buf.buffer_.length + 1) buf

/-- `if (aes_) decryptBuffer(buf);` -/
def decryptIf (aes_ : Option Aes) (buf : Buffer) : Option Buffer :=
  match aes_ with
  | some aes => decryptBuffer aes buf
  | none => some buf

/-- `onMessage`'s loop: the callbacks it makes and the buffer it leaves. A turn that does not
    leave the loop consumes a frame, so the content's size bounds the number of turns. -/
def onMessageLoop (aes_ : Option Aes) : Nat → Buffer → Option (List (Callback pb.Message) × Buffer)
  | 0, buf => some ([], buf)
  | turns + 1, buf =>
    if buf.readableBytes < kMinMessageLen + kHeaderLen then some ([], buf)
    else do
      let buf ← decryptIf aes_ buf
      let len := buf.peekInt32
      if len > kMaxMessageLen ∨ len < kMinMessageLen then
        some ([.error .kInvalidLength], buf)
      else if (buf.readableBytes : Int) ≥ len + kHeaderLen then do
        let (message, errorCode) ←
          parse pb ((buf.readable.drop kHeaderLen).take len.toNat) len
        match errorCode, message with
        | .kNoError, some m => do
          let (cbs, buf') ← onMessageLoop aes_ turns (buf.retrieve (kHeaderLen + len.toNat))
          some (.message m :: cbs, buf')
        | e, _ => some ([.error e], buf)
      else some ([], buf)

def onMessage (aes_ : Option Aes) (buf : Buffer) : Option (List (Callback pb.Message) × Buffer) :=
  onMessageLoop pb aes_ (buf.readableBytes + 1) buf

/-- `if (aes_) encryptBuffer(&buf);` -/
def encryptIf (aes_ : Option Aes) (buf : Buffer) : Option Buffer :=
  match aes_ with
  | some aes => encryptBuffer aes buf
  | none => some buf

/-- The bytes `send` hands to the connection. -/
def send (aes_ : Option Aes) (message : pb.Message) : Option (List UInt8) := do
  let buf ← fillEmptyBuffer pb Buffer.empty message
  let buf ← encryptIf aes_ buf
  some buf.readable

/-- One read event: a chunk is appended to the input buffer and `onMessage` runs. -/
def receive (aes_ : Option Aes) (st : List (Callback pb.Message) × Buffer) (chunk : List UInt8) :
    Option (List (Callback pb.Message) × Buffer) := do
  let (cbs, buf) ← onMessage pb aes_ (st.2.append chunk)
  some (st.1 ++ cbs, buf)

/-- A fresh connection's read events, in order. -/
def receiveAll (aes_ : Option Aes) (chunks : List (List UInt8)) :
    Option (List (Callback pb.Message) × Buffer) :=
  chunks.foldlM (receive pb aes_) ([], Buffer.empty)

end Mmvx.Net

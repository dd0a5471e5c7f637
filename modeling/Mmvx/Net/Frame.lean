/-
  The frame `fillEmptyBuffer` writes, and that it is well formed: `parse` gives the message back
  and the length field is the number of bytes that follow.

  `frame_wellFormed` needs the name bound and the size bound of the protocol only; the protobuf
  laws enter through `parseMessage_body`.
-/
import Mmvx.Net.PlainStream

namespace Mmvx.Net

open Mmvx.Lib

variable (pb : Protobuf)

/-- `nameLen | typeName '\0' | protobufData`, the bytes under the check sum. -/
def summed (m : pb.Message) : List UInt8 :=
  int32Bytes ((pb.GetTypeName m).length + 1 : Nat) ++ ((pb.GetTypeName m ++ [0]) ++
    pb.SerializeWithCachedSizesToArray m)

/-- Everything after the length field. -/
def body (m : pb.Message) : List UInt8 :=
  summed pb m ++ int32Bytes (adler32 (summed pb m))

def frame (m : pb.Message) : List UInt8 :=
  int32Bytes (body pb m).length ++ body pb m

@[simp] theorem length_int32Bytes (x : Int) : (int32Bytes x).length = kHeaderLen := by
  simp [int32Bytes, kHeaderLen]

/-- `asInt32` of a stored `int32_t`, with the value wrapped to 32 bits. -/
theorem asInt32_int32Bytes (x : Int) : asInt32 (int32Bytes x) = Int.bmod x (2 ^ 32) := by
  have hlt : (x % 2 ^ 32).toNat < 256 ^ 4 := by omega
  rw [asInt32, int32Bytes, beNat_beBytes, Nat.mod_eq_of_lt hlt, toSigned_emod]

theorem asInt32_int32Bytes_natCast {n : Nat} (h : n ≤ kMaxMessageLen) :
    asInt32 (int32Bytes n) = n := by
  have hmax : kMaxMessageLen = 67108864 := by decide
  rw [asInt32_int32Bytes, Int.bmod_eq_of_le_mul_two (by omega) (by omega)]

theorem length_summed (m : pb.Message) :
    (summed pb m).length = kHeaderLen + ((pb.GetTypeName m).length + 1 +
      (pb.SerializeWithCachedSizesToArray m).length) := by
  simp only [summed, List.length_append, length_int32Bytes, List.length_singleton]

theorem length_body_eq (m : pb.Message) :
    (body pb m).length = (summed pb m).length + kHeaderLen := by
  simp only [body, List.length_append, length_int32Bytes]

theorem length_frame (m : pb.Message) : (frame pb m).length = kHeaderLen + (body pb m).length := by
  simp only [frame, List.length_append, length_int32Bytes]

/-- `fillEmptyBuffer` on a fresh buffer writes the frame. -/
theorem fillEmptyBuffer_empty (m : pb.Message) :
    ∃ b, fillEmptyBuffer pb Buffer.empty m = some b ∧ b.readable = frame pb m := by
  have hempty : Buffer.empty.readableBytes = 0 := by decide
  have hcheap : kCheapPrepend ≤ Buffer.empty.prependableBytes := by decide
  have hhdr : kHeaderLen ≤ kCheapPrepend := by decide
  let b3 := ((Buffer.empty.appendInt32 ((pb.GetTypeName m).length + 1 : Nat)).append
    (pb.GetTypeName m ++ [0])).append (pb.SerializeWithCachedSizesToArray m)
  have hr3 : b3.readable = summed pb m := by
    show (((Buffer.empty.append _).append _).append _).readable = _
    rw [Buffer.readable_append, Buffer.readable_append, Buffer.readable_append,
      Buffer.readable_empty, List.nil_append, List.append_assoc, summed]
  have hp3 : kCheapPrepend ≤ b3.prependableBytes :=
    Buffer.cheap_le_prependableBytes_append _ _
      (Buffer.cheap_le_prependableBytes_append _ _
        (Buffer.cheap_le_prependableBytes_append _ _ hcheap))
  have hfill : fillEmptyBuffer pb Buffer.empty m =
      (b3.appendInt32 (adler32 b3.readable)).prepend
        (int32Bytes (b3.appendInt32 (adler32 b3.readable)).readableBytes) := by
    rw [fillEmptyBuffer, if_neg (not_not.mpr hempty)]
  clear_value b3
  have hr4 : (b3.appendInt32 (adler32 b3.readable)).readable = body pb m := by
    rw [Buffer.appendInt32, Buffer.readable_append, hr3, body]
  have hp4 : kCheapPrepend ≤ (b3.appendInt32 (adler32 b3.readable)).prependableBytes :=
    Buffer.cheap_le_prependableBytes_append b3 _ hp3
  have hroom : (int32Bytes (b3.appendInt32 (adler32 b3.readable)).readableBytes).length ≤
      (b3.appendInt32 (adler32 b3.readable)).prependableBytes := by
    rw [length_int32Bytes]
    exact Nat.le_trans hhdr hp4
  obtain ⟨c, hc, hrc⟩ := Buffer.readable_prepend _ hroom
  refine ⟨c, hfill.trans hc, ?_⟩
  rw [hrc, hr4, ← Buffer.length_readable, hr4, frame]

/-! ## A frame is well formed -/

/-- The length field of `fr` is acceptable and counts the bytes after it, and those parse
    to `m`. -/
def WellFormedFrame (m : pb.Message) (fr : List UInt8) : Prop :=
  LenOk (lenField fr) ∧ (fr.length : Int) = kHeaderLen + lenField fr ∧
    parse pb (fr.drop kHeaderLen) (lenField fr) = some (some m, .kNoError)

/-- `s` is the concatenation of well-formed frames of the messages `ms`. -/
inductive Frames : List pb.Message → List UInt8 → Prop
  | nil : Frames [] []
  | cons {m ms fr s} : WellFormedFrame pb m fr → Frames ms s → Frames (m :: ms) (fr ++ s)

theorem wellFormedFrame_iff (m : pb.Message) (fr : List UInt8) :
    WellFormedFrame pb m fr ↔ headOf pb fr = .item m fr.length := by
  have hmin : kMinMessageLen = 10 := rfl
  constructor
  · rintro ⟨hok, hlen, hp⟩
    have hge := hok.1
    have hn : kHeaderLen + (lenField fr).toNat = fr.length := by omega
    have hbody : (fr.drop kHeaderLen).take (lenField fr).toNat = fr.drop kHeaderLen := by
      apply List.take_of_length_le
      simp only [List.length_drop]; omega
    rw [← hn]
    exact headOf_eq_item pb hok (by omega) (by rw [hbody]; exact hp)
  · intro h
    obtain ⟨hok, hn, _, hp⟩ := headOf_item pb h
    have hge := hok.1
    have hbody : (fr.drop kHeaderLen).take (lenField fr).toNat = fr.drop kHeaderLen := by
      apply List.take_of_length_le
      simp only [List.length_drop]; omega
    rw [hbody] at hp
    exact ⟨hok, by omega, hp⟩

theorem frames_iff (ms : List pb.Message) (s : List UInt8) :
    Frames pb ms s ↔ (plain pb).Framed ms s := by
  constructor
  · intro h
    induction h with
    | nil => exact .nil
    | cons hfr _ ih => exact .cons ((wellFormedFrame_iff pb _ _).mp hfr) ih
  · intro h
    induction h with
    | nil => exact .nil
    | cons hfr _ ih => exact .cons ((wellFormedFrame_iff pb _ _).mpr hfr) ih

theorem bytesAt_mid (a b c : List UInt8) {off len : Int} (hoff : off = a.length)
    (hlen : len = b.length) : bytesAt (a ++ (b ++ c)) off len = some b := by
  subst hoff hlen
  rw [bytesAt_eq (by omega) (by omega) (by simp only [List.length_append]; omega),
    Int.toNat_natCast, Int.toNat_natCast, List.drop_left, List.take_left]

theorem checkSumMatches_body (m : pb.Message) :
    checkSumMatches (body pb m) (body pb m).length = some true := by
  have hlen := length_body_eq pb m
  have ht : (body pb m).take ((body pb m).length - kHeaderLen) = summed pb m := by
    rw [hlen, Nat.add_sub_cancel, body, List.take_left]
  have hd : (body pb m).drop ((body pb m).length - kHeaderLen) =
      int32Bytes (adler32 (summed pb m)) := by
    rw [hlen, Nat.add_sub_cancel, body, List.drop_left]
  rw [checkSumMatches_eq (by omega), ht, hd, asInt32_int32Bytes, toSigned, BEq.rfl]

/-- The type name and the data are where `parse` looks for them. -/
theorem parseMessage_body (hpb : pb.Lawful) (m : pb.Message) :
    parseMessage pb (body pb m) (body pb m).length ((pb.GetTypeName m).length + 1 : Nat) =
      some (some m, .kNoError) := by
  have hlen := length_body_eq pb m
  have hsum := length_summed pb m
  have hname : bytesAt (body pb m) kHeaderLen (((pb.GetTypeName m).length + 1 : Nat) - 1) =
      some (pb.GetTypeName m) := by
    have hsplit : body pb m = int32Bytes ((pb.GetTypeName m).length + 1 : Nat) ++
        (pb.GetTypeName m ++ ([0] ++ pb.SerializeWithCachedSizesToArray m ++
          int32Bytes (adler32 (summed pb m)))) := by
      simp only [body, summed, List.append_assoc]
    rw [hsplit]
    exact bytesAt_mid _ _ _ (by rw [length_int32Bytes]) (by omega)
  have hdata : bytesAt (body pb m) (kHeaderLen + ((pb.GetTypeName m).length + 1 : Nat))
      ((body pb m).length - ((pb.GetTypeName m).length + 1 : Nat) - 2 * kHeaderLen) =
        some (pb.SerializeWithCachedSizesToArray m) := by
    have hsplit : body pb m = (int32Bytes ((pb.GetTypeName m).length + 1 : Nat) ++
        (pb.GetTypeName m ++ [0])) ++ (pb.SerializeWithCachedSizesToArray m ++
          int32Bytes (adler32 (summed pb m))) := by
      simp only [body, summed, List.append_assoc]
    have hoff : ((kHeaderLen + ((pb.GetTypeName m).length + 1 : Nat) : Int)) =
        (int32Bytes ((pb.GetTypeName m).length + 1 : Nat) ++ (pb.GetTypeName m ++ [0])).length := by
      simp only [List.length_append, length_int32Bytes, List.length_singleton]
      push_cast
      rfl
    have hmid := bytesAt_mid _ _ (int32Bytes (adler32 (summed pb m))) hoff
      (rfl : _ = ((pb.SerializeWithCachedSizesToArray m).length : Int))
    rw [← hsplit] at hmid
    rw [← hmid]
    congr 1
    omega
  unfold parseMessage
  rw [bind_of_some hname, if_pos (hpb.createMessage_typeName m), bind_of_some hdata,
    hpb.parse_serialize]
  rfl

theorem parse_body (hpb : pb.Lawful) (m : pb.Message)
    (h : (body pb m).length ≤ kMaxMessageLen) :
    parse pb (body pb m) (body pb m).length = some (some m, .kNoError) := by
  have hlen := length_body_eq pb m
  have hsum := length_summed pb m
  have hne : 0 < (pb.GetTypeName m).length := List.length_pos_of_ne_nil (hpb.typeName_ne_nil m)
  have hfield : bytesAt (body pb m) 0 kHeaderLen =
      some (int32Bytes ((pb.GetTypeName m).length + 1 : Nat)) := by
    have hsplit : body pb m = [] ++ (int32Bytes ((pb.GetTypeName m).length + 1 : Nat) ++
        ((pb.GetTypeName m ++ [0]) ++ pb.SerializeWithCachedSizesToArray m ++
          int32Bytes (adler32 (summed pb m)))) := by
      simp only [body, summed, List.append_assoc, List.nil_append]
    rw [hsplit]
    exact bytesAt_mid _ _ _ rfl (by rw [length_int32Bytes])
  unfold parse
  rw [bind_of_some (checkSumMatches_body pb m), if_pos rfl, bind_of_some hfield,
    asInt32_int32Bytes_natCast (by omega), parseNamed, if_pos ⟨by omega, by omega⟩]
  exact parseMessage_body pb hpb m

theorem frame_wellFormed (hpb : pb.Lawful) (m : pb.Message)
    (h : (body pb m).length ≤ kMaxMessageLen) : WellFormedFrame pb m (frame pb m) := by
  have hlen := length_body_eq pb m
  have hsum := length_summed pb m
  have hne : 0 < (pb.GetTypeName m).length := List.length_pos_of_ne_nil (hpb.typeName_ne_nil m)
  have hmin : kMinMessageLen = 10 := rfl
  have hhdr : kHeaderLen = 4 := rfl
  have htake : (frame pb m).take kHeaderLen = int32Bytes (body pb m).length := by
    rw [frame, List.take_left' (length_int32Bytes _)]
  have hdrop : (frame pb m).drop kHeaderLen = body pb m := by
    rw [frame, List.drop_left' (length_int32Bytes _)]
  have hfield : lenField (frame pb m) = (body pb m).length := by
    rw [lenField, htake, asInt32_int32Bytes_natCast h]
  refine ⟨?_, ?_, ?_⟩
  · rw [hfield]
    exact ⟨by omega, by omega⟩
  · rw [hfield, length_frame]
    push_cast
    rfl
  · rw [hfield, hdrop]
    exact parse_body pb hpb m h

end Mmvx.Net

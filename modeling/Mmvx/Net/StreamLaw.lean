/-
  The stream law of a `ProtobufCodec` without AES.

  `receiveAll_plain`: whatever the stream and however it is cut, the run delivers the items of the
  stream, leaves its rest, and reports an error exactly when the rest is refused. With
  `ExactFraming.decode_longest` this is the longest prefix of well-formed frames
  (`plain_stream_law`).
-/
import Mmvx.Net.Frame

namespace Mmvx.Net

open Mmvx.Lib

variable (pb : Protobuf)

theorem receiveAll_snoc (aes_ : Option Aes) (chunks : List (List UInt8)) (c : List UInt8) :
    receiveAll pb aes_ (chunks ++ [c]) =
      receiveAll pb aes_ chunks >>= fun st => receive pb aes_ st c := by
  simp [receiveAll, List.foldlM_append]

/-- A run over chunks, for any stream. -/
theorem receiveAll_plain (chunks : List (List UInt8)) :
    ∃ cbs b, receiveAll pb none chunks = some (cbs, b) ∧
      delivered cbs = (plain pb).items chunks.flatten ∧
      b.readable = (plain pb).rest chunks.flatten ∧
      (Reports cbs ↔ (plain pb).Refused chunks.flatten) := by
  induction chunks using List.reverseRecOn with
  | nil =>
    have hmore : (plain pb).head [] = .more := rfl
    have hstop := (plain pb).head_more_stop hmore
    refine ⟨[], Buffer.empty, rfl, ?_, ?_, ?_⟩
    · rw [List.flatten_nil, (plain pb).items_stop hstop]; rfl
    · rw [List.flatten_nil, (plain pb).rest_stop hstop, Buffer.readable_empty]
    · simp [Reports, Framing.Refused, (plain pb).rest_stop hstop, hmore]
  | append_singleton chunks c ih =>
    obtain ⟨cbs, b, hrun, hdel, hrest, hrep⟩ := ih
    obtain ⟨b', hmsg, hrest'⟩ := onMessage_plain pb (b.append c)
    have hcontent : (b.append c).readable = (plain pb).rest chunks.flatten ++ c := by
      rw [Buffer.readable_append, hrest]
    rw [hcontent] at hmsg hrest'
    have hflat : (chunks ++ [c]).flatten = chunks.flatten ++ c := by simp
    have hrest_eq := (plain pb).rest_append chunks.flatten c
    refine ⟨cbs ++ callbacks pb ((plain pb).rest chunks.flatten ++ c), b', ?_, ?_, ?_, ?_⟩
    · rw [receiveAll_snoc, bind_of_some hrun, receive, bind_of_some hmsg]
    · rw [delivered_append, hdel, delivered_callbacks, hflat,
        (plain pb).items_append chunks.flatten c]
    · rw [hrest', hflat, hrest_eq]
    · -- an earlier refusal is still there, so the last call decides
      rw [reports_append, hrep, reports_callbacks, hflat]
      have hsame : (plain pb).Refused ((plain pb).rest chunks.flatten ++ c) ↔
          (plain pb).Refused (chunks.flatten ++ c) := by
        unfold Framing.Refused
        rw [hrest_eq]
      rw [hsame]
      exact ⟨fun h => h.elim (fun h => ((plain pb).refused_append h c).1) id, Or.inr⟩

/-- `ms` are the messages of the longest prefix of `s` that consists of well-formed frames. -/
def LongestFrames (s : List UInt8) (ms : List pb.Message) : Prop :=
  ∃ pre, pre <+: s ∧ Frames pb ms pre ∧
    ∀ ms' pre', pre' <+: s → Frames pb ms' pre' → pre'.length ≤ pre.length

theorem longestFrames_items (s : List UInt8) : LongestFrames pb s ((plain pb).items s) := by
  obtain ⟨pre, hs, hpre⟩ := (plain pb).decode_framed s
  refine ⟨pre, ⟨_, hs.symm⟩, (frames_iff pb _ _).mpr hpre, ?_⟩
  intro ms' pre' hpre' hframes
  have hlong := ((plain pb).decode_longest hpre' ((frames_iff pb _ _).mp hframes)).2
  have hlen : s.length = pre.length + ((plain pb).rest s).length := by
    conv_lhs => rw [hs]
    exact List.length_append
  omega

theorem send_plain (m : pb.Message) : send pb none m = some (frame pb m) := by
  obtain ⟨b, hb, hr⟩ := fillEmptyBuffer_empty pb m
  rw [send, bind_of_some hb, bind_of_some (show encryptIf none b = some b from rfl), hr]

theorem mapM_send_plain (ms : List pb.Message) :
    ms.mapM (send pb none) = some (ms.map (frame pb)) := by
  induction ms with
  | nil => rfl
  | cons m ms ih =>
    rw [List.mapM_cons, bind_of_some (send_plain pb m), bind_of_some ih]
    rfl

/-- Sent frames are framed as a whole. -/
theorem frames_map_frame (hpb : pb.Lawful) (ms : List pb.Message)
    (h : ∀ m ∈ ms, (body pb m).length ≤ kMaxMessageLen) :
    Frames pb ms (ms.map (frame pb)).flatten := by
  induction ms with
  | nil => exact .nil
  | cons m ms ih =>
    rw [List.map_cons, List.flatten_cons]
    exact .cons (frame_wellFormed pb hpb m (h m (by simp)))
      (ih fun m' hm' => h m' (List.mem_cons_of_mem m hm'))

/-- **Stream law.** Every segmentation of a byte stream delivers the messages of the longest
    prefix of well-formed frames of the stream. For a stream of sent frames these are the messages
    sent; there is no error and nothing is left. -/
theorem plain_stream_law :
    (∀ s : List UInt8, ∃ ms, LongestFrames pb s ms ∧
      ∀ chunks : List (List UInt8), chunks.flatten = s →
        ∃ cbs b, receiveAll pb none chunks = some (cbs, b) ∧ delivered cbs = ms) ∧
    (pb.Lawful → ∀ ms : List pb.Message, (∀ m ∈ ms, (body pb m).length ≤ kMaxMessageLen) →
      ∃ wires, ms.mapM (send pb none) = some wires ∧
        ∀ chunks : List (List UInt8), chunks.flatten = wires.flatten →
          ∃ cbs b, receiveAll pb none chunks = some (cbs, b) ∧ delivered cbs = ms ∧
            ¬ Reports cbs ∧ b.readable = []) := by
  refine ⟨?_, ?_⟩
  · intro s
    refine ⟨_, longestFrames_items pb s, ?_⟩
    intro chunks hchunks
    obtain ⟨cbs, b, hrun, hdel, -, -⟩ := receiveAll_plain pb chunks
    exact ⟨cbs, b, hrun, by rw [hdel, hchunks]⟩
  · intro hpb ms hms
    refine ⟨_, mapM_send_plain pb ms, ?_⟩
    intro chunks hchunks
    obtain ⟨cbs, b, hrun, hdel, hrest, hrep⟩ := receiveAll_plain pb chunks
    have hframed := (frames_iff pb _ _).mp (frames_map_frame pb hpb ms hms)
    obtain ⟨hitems, hr⟩ := (plain pb).decode_framed_append hframed []
    have hstop := (plain pb).head_more_stop (x := []) rfl
    rw [List.append_nil, (plain pb).items_stop hstop, List.append_nil] at hitems
    rw [List.append_nil, (plain pb).rest_stop hstop] at hr
    refine ⟨cbs, b, hrun, ?_, ?_, ?_⟩
    · rw [hdel, hchunks, hitems]
    · rw [hrep, hchunks]
      rintro ⟨e, he⟩
      rw [hr] at he
      cases he
    · rw [hrest, hchunks, hr]

/-- `muduo.LogonForward` with `uid` and `session` below 128, so that each varint is one byte. -/
def logonForward : Protobuf where
  Message := Fin 128 × Fin 128
  GetTypeName _ := [109, 117, 100, 117, 111, 46, 76, 111, 103, 111, 110, 70, 111, 114, 119, 97, 114, 100]
  SerializeWithCachedSizesToArray m := [8, UInt8.ofNat m.1, 16, UInt8.ofNat m.2]
  createMessage name :=
    name == [109, 117, 100, 117, 111, 46, 76, 111, 103, 111, 110, 70, 111, 114, 119, 97, 114, 100]
  ParseFromArray _ data :=
    match data with
    | [8, u, 16, s] => ((Fin.ofNat 128 u.toNat, Fin.ofNat 128 s.toNat), u < 128 && s < 128)
    | _ => ((0, 0), false)

theorem varint_byte (u : Fin 128) :
    Fin.ofNat 128 (UInt8.ofNat u).toNat = u ∧ decide (UInt8.ofNat u < 128) = true := by
  revert u
  decide +kernel

theorem logonForward_lawful : logonForward.Lawful where
  typeName_ne_nil _ := by simp [logonForward]
  createMessage_typeName _ := by rfl
  parse_serialize := by
    rintro ⟨u, s⟩
    show ((Fin.ofNat 128 (UInt8.ofNat u).toNat, Fin.ofNat 128 (UInt8.ofNat s).toNat),
      decide (UInt8.ofNat u < 128) && decide (UInt8.ofNat s < 128)) = ((u, s), true)
    rw [(varint_byte u).1, (varint_byte s).1, (varint_byte u).2, (varint_byte s).2]
    rfl

theorem fits_logonForward (m : logonForward.Message) :
    (body logonForward m).length ≤ kMaxMessageLen := by
  have hmax : kMaxMessageLen = 67108864 := by decide
  have hname : (logonForward.GetTypeName m).length = 18 := rfl
  have hdata : (logonForward.SerializeWithCachedSizesToArray m).length = 4 := rfl
  have hhead : kHeaderLen = 4 := rfl
  rw [length_body_eq, length_summed]
  omega

/-- The law applied to the frames of two `LogonForward`. -/
theorem plain_stream_law_logonForward :
    logonForward.Lawful ∧ (∀ m ∈ [((1, 42) : Fin 128 × Fin 128), (2, 7)],
      (body logonForward m).length ≤ kMaxMessageLen) ∧
      ∃ wires, [((1, 42) : Fin 128 × Fin 128), (2, 7)].mapM (send logonForward none) = some wires ∧
        ∀ chunks : List (List UInt8), chunks.flatten = wires.flatten →
          ∃ cbs b, receiveAll logonForward none chunks = some (cbs, b) ∧
            delivered cbs = [(1, 42), (2, 7)] ∧ ¬ Reports cbs ∧ b.readable = [] :=
  ⟨logonForward_lawful, fun m _ => fits_logonForward m,
    (plain_stream_law logonForward).2 logonForward_lawful [(1, 42), (2, 7)]
      fun m _ => fits_logonForward m⟩

end Mmvx.Net

/-
  A `ProtobufCodec` with AES on both ends of a connection.

  The sender pads a frame of `n` bytes with `n % 16` zeros (`encryptBuffer`), so the padded frame
  is a whole number of blocks only for `n % 16 ∈ {0, 8}`, and the receiver never skips padding.
  `roundTrips_aligned`: frames that need no padding round-trip. `not_roundTrips_snoc`: a frame that
  is padded leaves its padding in the receiver's buffer. Together, `aes_round_trip_iff`.
-/
import Mathlib.Logic.Equiv.Basic
import Mmvx.Net.AesBuffer
import Mmvx.Net.StreamLaw

namespace Mmvx.Net

open Mmvx.Lib

variable (pb : Protobuf) (aes : Aes)

/-! ## Round trip -/

/-- What `encryptBuffer` encrypts: the frame and its padding. -/
def padded (m : pb.Message) : List UInt8 :=
  frame pb m ++ kPadding.take ((frame pb m).length % AES_BLOCK_SIZE)

theorem send_aes (m : pb.Message) : send pb (some aes) m = some (aes.encryptAll (padded pb m)) := by
  obtain ⟨b, hb, hr⟩ := fillEmptyBuffer_empty pb m
  have hne : b.readable ≠ [] := by
    rw [hr, ← List.length_pos_iff, length_frame]
    exact Nat.lt_of_lt_of_le (by decide : 0 < kHeaderLen) (Nat.le_add_right _ _)
  obtain ⟨c, hc, hrc⟩ := encryptBuffer_eq aes b hne
  rw [send, bind_of_some hb, bind_of_some (show encryptIf (some aes) b = some c from hc), hrc, hr,
    padded]

theorem mapM_send_aes (ms : List pb.Message) :
    ms.mapM (send pb (some aes)) = some (ms.map fun m => aes.encryptAll (padded pb m)) := by
  induction ms with
  | nil => rfl
  | cons m ms ih =>
    rw [List.mapM_cons, bind_of_some (send_aes pb aes m), bind_of_some ih]
    rfl

/-- `ms` is sent, the bytes reach a fresh peer in one piece, and `onMessage` runs once: the
    callbacks are exactly the messages in order, and nothing is left in the buffer. -/
def RoundTrips (ms : List pb.Message) : Prop :=
  ∃ wires cbs b, ms.mapM (send pb (some aes)) = some wires ∧
    receiveAll pb (some aes) [wires.flatten] = some (cbs, b) ∧
    cbs = ms.map .message ∧ b.readable = []

theorem receiveAll_singleton (aes_ : Option Aes) (w : List UInt8) :
    receiveAll pb aes_ [w] = onMessage pb aes_ (Buffer.empty.append w) := by
  have h := receiveAll_snoc pb aes_ [] w
  rw [List.nil_append] at h
  rw [h, bind_of_some (show receiveAll pb aes_ [] = some ([], Buffer.empty) from rfl), receive]
  cases onMessage pb aes_ (Buffer.empty.append w) with
  | none => rfl
  | some r => rfl

/-- A fresh peer that is given all of a stream at once takes it as the plain stream of its
    decrypted blocks. -/
theorem receiveAll_once (w : List UInt8) :
    ∃ b, receiveAll pb (some aes) [w] = some (callbacks pb (aes.decryptAll w), b) ∧
      b.readable = (plain pb).rest (aes.decryptAll w) := by
  have hr : (Buffer.empty.append w).readable = [] ++ w := by
    rw [Buffer.readable_append, Buffer.readable_empty]
  have hd : (Buffer.empty.append w).decryptedBytes = ([] : List UInt8).length := by
    rw [Buffer.decryptedBytes_append, Buffer.decryptedBytes_empty]
    rfl
  rw [receiveAll_singleton]
  by_cases h : (Buffer.empty.append w).readable.length < kMinMessageLen + kHeaderLen
  · -- too short for a frame and for a block: nothing happens on either side
    rw [hr, List.nil_append] at h
    have hw : aes.decryptAll w = w := onBlocks_short (by
      simp only [kMinMessageLen, kHeaderLen, AES_BLOCK_SIZE] at h ⊢; omega)
    have hmore : headOf pb w = .more := by rw [headOf, if_pos h]
    have hstop := (plain pb).head_more_stop (x := w) hmore
    refine ⟨Buffer.empty.append w, ?_, ?_⟩
    · rw [onMessage_short pb (some aes) (by rw [hr, List.nil_append]; exact h), hw, callbacks,
        (plain pb).items_stop hstop, (plain pb).rest_stop hstop, hmore]
      rfl
    · rw [hr, hw, (plain pb).rest_stop hstop, List.nil_append]
  · obtain ⟨c, hrun, hrest, -⟩ := onMessage_aes pb aes _ [] w hr hd (by omega)
    exact ⟨c, hrun, hrest⟩

theorem flatten_encryptAll {aes : Aes} (haes : aes.Lawful) (ms : List pb.Message)
    (h : ∀ m ∈ ms, AES_BLOCK_SIZE ∣ (frame pb m).length) (y : List UInt8) :
    aes.decryptAll ((ms.map fun m => aes.encryptAll (padded pb m)).flatten ++ aes.encryptAll y) =
      (ms.map (frame pb)).flatten ++ y := by
  induction ms with
  | nil => exact Aes.decryptAll_encryptAll haes y
  | cons m ms ih =>
    have hm := h m (by simp)
    have hpad : padded pb m = frame pb m := by
      rw [padded, Nat.mod_eq_zero_of_dvd hm, List.take_zero, List.append_nil]
    rw [List.map_cons, List.flatten_cons, List.append_assoc,
      Aes.decryptAll_append aes (by rw [Aes.length_encryptAll, hpad]; exact hm),
      Aes.decryptAll_encryptAll haes, hpad, ih fun m' hm' => h m' (List.mem_cons_of_mem m hm'),
      List.map_cons, List.flatten_cons, List.append_assoc]

/-- Frames of whole blocks round-trip, in any number. -/
theorem roundTrips_aligned {aes : Aes} (hpb : pb.Lawful) (haes : aes.Lawful)
    (ms : List pb.Message) (hsize : ∀ m ∈ ms, (body pb m).length ≤ kMaxMessageLen)
    (h : ∀ m ∈ ms, AES_BLOCK_SIZE ∣ (frame pb m).length) : RoundTrips pb aes ms := by
  obtain ⟨b, hrun, hrest⟩ := receiveAll_once pb aes
    (ms.map fun m => aes.encryptAll (padded pb m)).flatten
  have hdec := flatten_encryptAll pb haes ms h []
  have hnil : aes.encryptAll [] = [] := onBlocks_short (by decide)
  rw [hnil, List.append_nil, List.append_nil] at hdec
  have hframed := (frames_iff pb _ _).mp (frames_map_frame pb hpb ms hsize)
  obtain ⟨hitems, hr⟩ := (plain pb).decode_framed_append hframed []
  have hstop := (plain pb).head_more_stop (x := []) rfl
  rw [List.append_nil, (plain pb).items_stop hstop, List.append_nil] at hitems
  rw [List.append_nil, (plain pb).rest_stop hstop] at hr
  refine ⟨_, _, b, mapM_send_aes pb aes ms, hrun, ?_, ?_⟩
  · rw [hdec, callbacks, hitems, hr]
    exact List.append_nil _
  · rw [hrest, hdec, hr]

/-- Zero bytes are never a frame. -/
theorem headOf_padding (n : Nat) : ∀ m k, headOf pb (kPadding.take n) ≠ .item m k := by
  intro m k h
  obtain ⟨hok, -, hle, -⟩ := headOf_item pb h
  have hfield : ∀ n ≤ 16, ¬ LenOk (lenField (kPadding.take n)) := by decide
  by_cases hn : n ≤ 16
  · exact hfield n hn hok
  · have hall : kPadding.take n = kPadding.take 16 := by
      rw [List.take_of_length_le (by simp [kPadding, AES_BLOCK_SIZE]; omega),
        List.take_of_length_le (by simp [kPadding, AES_BLOCK_SIZE])]
    rw [hall] at hok
    exact hfield 16 (by omega) hok

/-- A last frame that is not a whole number of blocks leaves its padding behind. -/
theorem not_roundTrips_snoc {aes : Aes} (hpb : pb.Lawful) (haes : aes.Lawful)
    (ms : List pb.Message) (m : pb.Message)
    (hsize : ∀ m' ∈ ms ++ [m], (body pb m').length ≤ kMaxMessageLen)
    (h : ∀ m' ∈ ms, AES_BLOCK_SIZE ∣ (frame pb m').length)
    (hm : ¬ AES_BLOCK_SIZE ∣ (frame pb m).length) : ¬ RoundTrips pb aes (ms ++ [m]) := by
  rintro ⟨wires, cbs, b, hwires, hrun, -, hnil⟩
  rw [mapM_send_aes pb aes] at hwires
  cases hwires
  obtain ⟨b', hrun', hrest⟩ := receiveAll_once pb aes
    ((ms ++ [m]).map fun m => aes.encryptAll (padded pb m)).flatten
  rw [hrun] at hrun'
  cases hrun'
  have hflat : ((ms ++ [m]).map fun m => aes.encryptAll (padded pb m)).flatten =
      (ms.map fun m => aes.encryptAll (padded pb m)).flatten ++ aes.encryptAll (padded pb m) := by
    simp
  rw [hflat, flatten_encryptAll pb haes ms h, padded, ← List.append_assoc] at hrest
  have hframes : (ms.map (frame pb)).flatten ++ frame pb m =
      ((ms ++ [m]).map (frame pb)).flatten := by simp
  have hframed := (frames_iff pb _ _).mp (frames_map_frame pb hpb (ms ++ [m]) hsize)
  rw [hframes, ((plain pb).decode_framed_append hframed _).2,
    (plain pb).rest_stop (headOf_padding pb _), hnil] at hrest
  -- the padding that is left has `frame.length % 16` bytes
  have hlen := congrArg List.length hrest
  have hmod : (frame pb m).length % AES_BLOCK_SIZE ≠ 0 := fun h0 => hm (Nat.dvd_of_mod_eq_zero h0)
  have hlt := Nat.mod_lt (frame pb m).length (show 0 < AES_BLOCK_SIZE by decide)
  simp only [kPadding, List.length_nil, List.length_take, List.length_replicate] at hlen
  omega

/-- **AES round trip.** The peer is in step after every one of the messages exactly when every
    frame is a whole number of blocks, so that it is not padded. -/
theorem aes_round_trip_iff (hpb : pb.Lawful) (haes : aes.Lawful) (ms : List pb.Message)
    (hsize : ∀ m ∈ ms, (body pb m).length ≤ kMaxMessageLen) :
    (∀ sent, sent <+: ms → RoundTrips pb aes sent) ↔
      ∀ m ∈ ms, AES_BLOCK_SIZE ∣ (frame pb m).length := by
  constructor
  · intro h
    induction ms using List.reverseRecOn with
    | nil => intro m hm; cases hm
    | append_singleton ms m ih =>
      have hpre : ∀ m' ∈ ms, AES_BLOCK_SIZE ∣ (frame pb m').length :=
        ih (fun m' hm' => hsize m' (List.mem_append_left _ hm'))
          fun sent hsent => h sent (hsent.trans (List.prefix_append ms [m]))
      intro m' hm'
      rcases List.mem_append.mp hm' with hm' | hm'
      · exact hpre m' hm'
      · rw [List.mem_singleton.mp hm']
        by_contra hm
        exact not_roundTrips_snoc pb hpb haes ms m hsize hpre hm (h _ (List.prefix_refl _))
  · intro h sent hsent
    exact roundTrips_aligned pb hpb haes sent (fun m hm => hsize m (hsent.subset hm))
      fun m hm => h m (hsent.subset hm)

/-! ## The `Logon` that `LogonClient` sends -/

/-- `muduo.Logon` with `uid` 1, `passwd` "123456" and `keeperserverid` 10101, as `LogonClient`
    sends it, for a `uname` of less than 128 bytes. -/
def logonData (uname : List UInt8) : List UInt8 :=
  [8, 1, 18, UInt8.ofNat uname.length] ++ uname ++ [26, 6, 49, 50, 51, 52, 53, 54, 32, 245, 78]

def logon : Protobuf where
  Message := { uname : List UInt8 // uname.length < 128 }
  GetTypeName _ := [109, 117, 100, 117, 111, 46, 76, 111, 103, 111, 110]
  SerializeWithCachedSizesToArray m := logonData m.1
  createMessage name := name == [109, 117, 100, 117, 111, 46, 76, 111, 103, 111, 110]
  ParseFromArray _ data :=
    if h : ((data.drop 4).take (data.length - 15)).length < 128 then
      (⟨_, h⟩, data == logonData ((data.drop 4).take (data.length - 15)))
    else (⟨[], by decide⟩, false)

theorem logon_lawful : logon.Lawful where
  typeName_ne_nil _ := by simp [logon]
  createMessage_typeName _ := by rfl
  parse_serialize := by
    rintro ⟨uname, h⟩
    have hlen : (logonData uname).length - 15 = uname.length := by simp [logonData]
    have huname : ((logonData uname).drop 4).take uname.length = uname := by simp [logonData]
    simp only [logon, hlen, huname, h, dite_true, beq_self_eq_true]

def block (x : List UInt8) : Block := if h : x.length = AES_BLOCK_SIZE then ⟨x, h⟩ else ⟨kPadding, rfl⟩

/-- The blocks of two such messages, with `uname` "1" and "123456789", and what AES in IGE mode
    makes of them under the key and IV of `Aes`. -/
def logonBlocks : List (Block × Block) := [
  (block [0, 0, 0, 36, 0, 0, 0, 12, 109, 117, 100, 117, 111, 46, 76, 111],
    block [125, 203, 1, 124, 16, 246, 83, 167, 113, 153, 153, 38, 71, 85, 226, 144]),
  (block [103, 111, 110, 0, 8, 1, 18, 1, 49, 26, 6, 49, 50, 51, 52, 53],
    block [136, 38, 111, 132, 167, 131, 163, 18, 68, 252, 153, 54, 216, 239, 57, 222]),
  (block [54, 32, 245, 78, 117, 35, 7, 105, 0, 0, 0, 0, 0, 0, 0, 0],
    block [248, 169, 61, 152, 126, 147, 60, 209, 49, 141, 38, 209, 132, 155, 89, 181]),
  (block [0, 0, 0, 44, 0, 0, 0, 12, 109, 117, 100, 117, 111, 46, 76, 111],
    block [137, 239, 60, 238, 67, 72, 90, 176, 136, 156, 175, 194, 144, 152, 9, 186]),
  (block [103, 111, 110, 0, 8, 1, 18, 9, 49, 50, 51, 52, 53, 54, 55, 56],
    block [35, 164, 56, 246, 198, 154, 193, 139, 17, 237, 237, 123, 169, 18, 144, 123]),
  (block [57, 26, 6, 49, 50, 51, 52, 53, 54, 32, 245, 78, 181, 19, 9, 29],
    block [233, 204, 191, 136, 106, 176, 28, 95, 83, 123, 145, 214, 141, 88, 207, 84])]

/-- A permutation of the blocks that agrees with AES on `logonBlocks`. -/
def logonPerm : Equiv.Perm Block :=
  logonBlocks.foldr (fun pc f => (Equiv.swap pc.1 pc.2).trans f) (Equiv.refl Block)

def logonAes : Aes where
  encrypt := logonPerm
  decrypt := logonPerm.symm

theorem logonAes_lawful : logonAes.Lawful where
  decrypt_encrypt := logonPerm.symm_apply_apply

instance : DecidableEq logon.Message :=
  inferInstanceAs (DecidableEq { uname : List UInt8 // uname.length < 128 })

def logonOne : logon.Message := ⟨[49], by decide⟩

def logonNine : logon.Message := ⟨[49, 50, 51, 52, 53, 54, 55, 56, 57], by decide⟩

/-- The message `LogonClient` sends has a frame of 40 bytes: it does not round-trip. -/
theorem not_roundTrips_logon : logon.Lawful ∧ logonAes.Lawful ∧
    (∀ m ∈ [logonOne], (body logon m).length ≤ kMaxMessageLen) ∧
    ¬ RoundTrips logon logonAes [logonOne] :=
  ⟨logon_lawful, logonAes_lawful, by decide +kernel,
    not_roundTrips_snoc logon logon_lawful logonAes_lawful [] logonOne (by decide +kernel)
      (by simp) (by decide +kernel)⟩

/-- A user name of nine bytes makes a frame of 48 bytes, and the peer stays in step. -/
theorem aes_round_trip_iff_logon :
    (frame logon logonNine).length = 48 ∧ RoundTrips logon logonAes [logonNine, logonNine] :=
  ⟨by decide +kernel,
    (aes_round_trip_iff logon logonAes logon_lawful logonAes_lawful [logonNine, logonNine]
      (by decide +kernel)).mpr (by decide +kernel) _ (List.prefix_refl _)⟩

end Mmvx.Net

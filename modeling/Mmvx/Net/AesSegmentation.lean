/-
  The receive path of a `ProtobufCodec` with AES under different segmentations of one stream.

  The receiver starts to interpret a frame at 14 readable bytes but decrypts blocks of 16, so a cut
  can make it judge bytes that are still to be decrypted. `SafeCut` says of a received prefix that
  it does not. `receiveAll_safe`: a run whose cuts are safe takes the stream as the plain stream of
  its decrypted blocks, and so `aes_segmentation`: two such runs over one stream agree.
-/
import Mmvx.Net.AesStream

namespace Mmvx.Net

open Mmvx.Lib

variable (pb : Protobuf) (aes : Aes)

/-! ## Whole blocks of a received prefix -/

/-- The plain text of the whole blocks of `x`. -/
def clear (x : List UInt8) : List UInt8 :=
  aes.decryptAll (x.take (x.length / AES_BLOCK_SIZE * AES_BLOCK_SIZE))

/-- The bytes of `x` behind its whole blocks. -/
def raw (x : List UInt8) : List UInt8 :=
  x.drop (x.length / AES_BLOCK_SIZE * AES_BLOCK_SIZE)

theorem take_blocks_append_raw (x : List UInt8) :
    x.take (x.length / AES_BLOCK_SIZE * AES_BLOCK_SIZE) ++ raw x = x :=
  List.take_append_drop _ x

theorem dvd_length_take_blocks (x : List UInt8) :
    AES_BLOCK_SIZE ∣ (x.take (x.length / AES_BLOCK_SIZE * AES_BLOCK_SIZE)).length := by
  rw [List.length_take, Nat.min_eq_left (Nat.div_mul_le_self _ _)]
  exact Nat.dvd_mul_left _ _

theorem length_raw (x : List UInt8) : (raw x).length = x.length % AES_BLOCK_SIZE := by
  rw [raw, List.length_drop]
  simp only [AES_BLOCK_SIZE]
  omega

theorem decryptAll_eq (x : List UInt8) : aes.decryptAll x = clear aes x ++ raw x := by
  conv_lhs => rw [← take_blocks_append_raw x]
  have hshort : aes.decryptAll (raw x) = raw x := onBlocks_short (by
    rw [length_raw]; exact Nat.mod_lt _ (by decide))
  rw [Aes.decryptAll_append aes (dvd_length_take_blocks x), hshort, clear]

/-- Whole blocks in front. -/
theorem clear_raw_blocks {x : List UInt8} (h : AES_BLOCK_SIZE ∣ x.length) (y : List UInt8) :
    clear aes (x ++ y) = aes.decryptAll x ++ clear aes y ∧ raw (x ++ y) = raw y := by
  have hlen : (x ++ y).length / AES_BLOCK_SIZE * AES_BLOCK_SIZE =
      x.length + y.length / AES_BLOCK_SIZE * AES_BLOCK_SIZE := by
    obtain ⟨q, hq⟩ := h
    rw [List.length_append, hq, Nat.mul_add_div (by decide), Nat.add_mul, Nat.mul_comm q]
  refine ⟨?_, ?_⟩
  · rw [clear, hlen, List.take_length_add_append, Aes.decryptAll_append aes h, clear]
  · rw [raw, hlen, List.drop_length_add_append, raw]

/-- A further chunk: the blocks so far stay, the bytes behind them join the chunk. -/
theorem clear_raw_append (x c : List UInt8) :
    clear aes (x ++ c) = clear aes x ++ clear aes (raw x ++ c) ∧
      raw (x ++ c) = raw (raw x ++ c) := by
  have hx : x ++ c = x.take (x.length / AES_BLOCK_SIZE * AES_BLOCK_SIZE) ++ (raw x ++ c) := by
    rw [← List.append_assoc, take_blocks_append_raw]
  obtain ⟨hclear, hraw⟩ := clear_raw_blocks aes (dvd_length_take_blocks x) (raw x ++ c)
  rw [hx]
  exact ⟨hclear, hraw⟩

/-- The decrypted bytes of `x` that no frame has taken yet. -/
def left (x : List UInt8) : List UInt8 := (plain pb).rest (clear aes x)

/-- Once `x` is received, `onMessage` judges no byte that is not decrypted: it does not look at
    the buffer, or the length field is decrypted, and the frame it announces is refused by its
    length, decrypted, or not all there. -/
def SafeCut (x : List UInt8) : Prop :=
  (left pb aes x).length + (raw x).length < kMinMessageLen + kHeaderLen ∨
    (kHeaderLen ≤ (left pb aes x).length ∧
      (¬ LenOk (lenField (left pb aes x)) ∨
        kHeaderLen + lenField (left pb aes x) ≤ (left pb aes x).length ∨
        ((left pb aes x).length + (raw x).length : Nat) < kHeaderLen + lenField (left pb aes x)))

instance (x : List UInt8) : Decidable (SafeCut pb aes x) := inferInstanceAs (Decidable (_ ∨ _))

/-! ## Runs through safe cuts -/

variable {pb aes}

theorem decryptAll_append_raw (x c : List UInt8) :
    aes.decryptAll (x ++ c) = clear aes x ++ aes.decryptAll (raw x ++ c) := by
  obtain ⟨hclear, hraw⟩ := clear_raw_append aes x c
  rw [decryptAll_eq, decryptAll_eq aes (raw x ++ c), hclear, hraw, List.append_assoc]

theorem items_decryptAll_append (x c : List UInt8) :
    (plain pb).items (aes.decryptAll (x ++ c)) = (plain pb).items (clear aes x) ++
      (plain pb).items (left pb aes x ++ aes.decryptAll (raw x ++ c)) := by
  rw [decryptAll_append_raw, (plain pb).items_append, left]

theorem rest_decryptAll_append (x c : List UInt8) :
    (plain pb).rest (aes.decryptAll (x ++ c)) =
      (plain pb).rest (left pb aes x ++ aes.decryptAll (raw x ++ c)) := by
  rw [decryptAll_append_raw, (plain pb).rest_append, left]

/-- A frame with a decrypted length field that is all there is decided by the decrypted bytes. -/
theorem headOf_left {x : List UInt8} (hok : LenOk (lenField (left pb aes x)))
    (h : kHeaderLen + lenField (left pb aes x) ≤ (left pb aes x).length) :
    ∃ e, ∀ y, headOf pb (left pb aes x ++ y) = .refuse e := by
  have hmin : kMinMessageLen = 10 := rfl
  have hge := hok.1
  have hstop : ∀ m n, headOf pb (left pb aes x) ≠ .item m n := by
    rw [left]
    exact (plain pb).head_rest (clear aes x)
  cases hx : headOf pb (left pb aes x) with
  | item m n => exact absurd hx (hstop m n)
  | refuse e => exact ⟨e, fun y => (plain pb).refuse_append y hx⟩
  | more =>
    rw [headOf, if_neg (by omega), if_neg (not_not.mpr hok), if_neg (by omega)] at hx
    split at hx <;> cases hx

/-- At a safe cut no frame is taken that is not decrypted. -/
theorem SafeCut.head_ne_item {x : List UInt8} (h : SafeCut pb aes x) :
    ∀ m n, headOf pb (left pb aes x ++ raw x) ≠ .item m n := by
  intro m n hitem
  obtain ⟨hok, hn, hle, -⟩ := headOf_item pb hitem
  have hge := hok.1
  rw [List.length_append] at hle
  have hmin : kMinMessageLen = 10 := rfl
  obtain hshort | ⟨hhdr, hcut⟩ := h
  · omega
  · rw [lenField_append hhdr] at hok hn hge
    obtain hbad | hall | hmore := hcut
    · exact hbad hok
    · obtain ⟨e, he⟩ := headOf_left hok hall
      rw [he] at hitem
      cases hitem
    · omega

/-- At a safe cut the decrypted blocks decide what is taken. -/
theorem SafeCut.decode_eq {x : List UInt8} (h : SafeCut pb aes x) :
    (plain pb).items (aes.decryptAll x) = (plain pb).items (clear aes x) ∧
      (plain pb).rest (aes.decryptAll x) = left pb aes x ++ raw x := by
  have hstop := h.head_ne_item
  refine ⟨?_, ?_⟩
  · rw [decryptAll_eq, (plain pb).items_append, ← left, (plain pb).items_stop hstop,
      List.append_nil]
  · rw [decryptAll_eq, (plain pb).rest_append, ← left, (plain pb).rest_stop hstop]

/-- What is refused at a safe cut stays refused. -/
theorem SafeCut.refused_append {x : List UInt8} (h : SafeCut pb aes x)
    (hx : (plain pb).Refused (aes.decryptAll x)) (c : List UInt8) :
    (plain pb).Refused (aes.decryptAll (x ++ c)) := by
  obtain ⟨e, he⟩ := hx
  rw [h.decode_eq.2] at he
  have he : headOf pb (left pb aes x ++ raw x) = .refuse e := he
  have henough := headOf_enough pb (x := left pb aes x ++ raw x) (by rw [he]; simp)
  rw [List.length_append] at henough
  -- the head is refused with the decrypted bytes of the chunk in the place of the raw bytes
  have hrefuse : ∃ e', headOf pb (left pb aes x ++ aes.decryptAll (raw x ++ c)) = .refuse e' := by
    obtain hshort | ⟨hhdr, hcut⟩ := h
    · omega
    · rw [lenField_append hhdr] at henough
      by_cases hok : LenOk (lenField (left pb aes x))
      · have hall : kHeaderLen + lenField (left pb aes x) ≤ (left pb aes x).length := by
          have := henough.2 hok
          obtain hbad | hall | hmore := hcut
          · exact absurd hok hbad
          · exact hall
          · omega
        obtain ⟨e', he'⟩ := headOf_left hok hall
        exact ⟨e', he' _⟩
      · refine ⟨.kInvalidLength, ?_⟩
        rw [headOf, lenField_append hhdr, if_neg, if_pos hok]
        rw [List.length_append, Aes.length_decryptAll, List.length_append]
        omega
  obtain ⟨e', he'⟩ := hrefuse
  refine ⟨e', ?_⟩
  rw [rest_decryptAll_append, (plain pb).rest_stop ((plain pb).head_refuse_stop he')]
  exact he'

variable (pb aes)

/-- The callbacks are those of the plain stream of the decrypted blocks of `x`. -/
structure Agrees (x : List UInt8) (cbs : List (Callback pb.Message)) : Prop where
  delivered_eq : delivered cbs = (plain pb).items (aes.decryptAll x)
  reports_iff : Reports cbs ↔ (plain pb).Refused (aes.decryptAll x)

/-- The buffer holds the decrypted bytes of `x` that no frame has taken, then the bytes behind the
    whole blocks. -/
structure InStep (x : List UInt8) (b : Buffer) : Prop where
  readable_eq : b.readable = left pb aes x ++ raw x
  decryptedBytes_eq : b.decryptedBytes = (left pb aes x).length

variable {pb aes}

theorem agrees_nil : Agrees pb aes [] [] := by
  have hnil : aes.decryptAll [] = [] := onBlocks_short (by decide)
  have hmore : (plain pb).head [] = .more := rfl
  have hstop := (plain pb).head_more_stop hmore
  refine ⟨?_, ?_⟩
  · rw [hnil, (plain pb).items_stop hstop]; rfl
  · simp [Reports, Framing.Refused, hnil, (plain pb).rest_stop hstop, hmore]

theorem inStep_nil : InStep pb aes [] Buffer.empty := by
  have hclear : clear aes [] = [] := onBlocks_short (by decide)
  have hleft : left pb aes [] = [] := by
    rw [left, hclear, (plain pb).rest_stop ((plain pb).head_more_stop rfl)]
  refine ⟨?_, ?_⟩
  · rw [hleft, Buffer.readable_empty]; rfl
  · rw [hleft, Buffer.decryptedBytes_empty]; rfl

/-- Too few bytes for a frame are not refused and carry no item. -/
theorem decode_short (pb : Protobuf) {x : List UInt8} (h : x.length < kMinMessageLen + kHeaderLen) :
    (plain pb).items x = [] ∧ (plain pb).rest x = x ∧ ∀ e, headOf pb x ≠ .refuse e := by
  have hmore : headOf pb x = .more := by rw [headOf, if_pos h]
  have hstop := (plain pb).head_more_stop (x := x) hmore
  refine ⟨(plain pb).items_stop hstop, (plain pb).rest_stop hstop, ?_⟩
  intro e he
  rw [hmore] at he
  cases he

/-- A read event after which fewer bytes are readable than the shortest frame has. -/
theorem append_short {x c : List UInt8} {cbs : List (Callback pb.Message)} {b : Buffer}
    (ha : Agrees pb aes x cbs) (hb : InStep pb aes x b) (hx : SafeCut pb aes x)
    (hc : (left pb aes x ++ (raw x ++ c)).length < kMinMessageLen + kHeaderLen) :
    Agrees pb aes (x ++ c) cbs ∧ InStep pb aes (x ++ c) (b.append c) := by
  obtain ⟨hclear, hraw⟩ := clear_raw_append aes x c
  rw [List.length_append] at hc
  have hlt : (raw x ++ c).length < AES_BLOCK_SIZE := by
    simp only [kMinMessageLen, kHeaderLen, AES_BLOCK_SIZE] at hc ⊢
    omega
  have hdec : aes.decryptAll (raw x ++ c) = raw x ++ c := onBlocks_short hlt
  have hdiv : (raw x ++ c).length / AES_BLOCK_SIZE * AES_BLOCK_SIZE = 0 := by
    rw [Nat.div_eq_of_lt hlt, Nat.zero_mul]
  have hnone : clear aes (raw x ++ c) = [] := by
    rw [clear, hdiv, List.take_zero]
    exact onBlocks_short (by decide)
  have hkeep : raw (x ++ c) = raw x ++ c := by rw [hraw, raw, hdiv, List.drop_zero]
  rw [hnone, List.append_nil] at hclear
  have hleft : left pb aes (x ++ c) = left pb aes x := by rw [left, hclear, left]
  obtain ⟨hi, hr, hno⟩ := decode_short pb (x := left pb aes x ++ (raw x ++ c)) (by
    rw [List.length_append]; exact hc)
  obtain ⟨-, -, hno'⟩ := decode_short pb (x := left pb aes x ++ raw x) (by
    rw [List.length_append] at hc ⊢; omega)
  refine ⟨⟨?_, ?_⟩, ⟨?_, ?_⟩⟩
  · rw [ha.delivered_eq, hx.decode_eq.1, items_decryptAll_append, hdec, hi, List.append_nil]
  · rw [ha.reports_iff, Framing.Refused, Framing.Refused, hx.decode_eq.2, rest_decryptAll_append,
      hdec, hr]
    constructor
    · rintro ⟨e, he⟩
      exact absurd he (hno' e)
    · rintro ⟨e, he⟩
      exact absurd he (hno e)
  · rw [Buffer.readable_append, hb.readable_eq, hleft, hkeep, List.append_assoc]
  · rw [Buffer.decryptedBytes_append, hb.decryptedBytes_eq, hleft]

/-- One read event from a safe cut. What it delivers and reports does not depend on where it
    ends; the buffer is in step again if that is a safe cut. -/
theorem receive_safe {x : List UInt8} {cbs : List (Callback pb.Message)} {b : Buffer}
    (ha : Agrees pb aes x cbs) (hs : InStep pb aes x b) (hx : SafeCut pb aes x) (c : List UInt8) :
    ∃ cbs' b', receive pb (some aes) (cbs, b) c = some (cbs', b') ∧ Agrees pb aes (x ++ c) cbs' ∧
      (SafeCut pb aes (x ++ c) → InStep pb aes (x ++ c) b') := by
  have hb : (b.append c).readable = left pb aes x ++ (raw x ++ c) := by
    rw [Buffer.readable_append, hs.readable_eq, List.append_assoc]
  have hd : (b.append c).decryptedBytes = (left pb aes x).length := by
    rw [Buffer.decryptedBytes_append, hs.decryptedBytes_eq]
  by_cases hshort : (b.append c).readable.length < kMinMessageLen + kHeaderLen
  · obtain ⟨ha', hs'⟩ := append_short (c := c) ha hs hx (by rw [← hb]; exact hshort)
    refine ⟨cbs, b.append c, ?_, ha', fun _ => hs'⟩
    rw [receive, bind_of_some (onMessage_short pb (some aes) hshort)]
    exact congrArg (fun l => some (l, b.append c)) (List.append_nil cbs)
  · obtain ⟨b', hmsg, hrest, hun⟩ := onMessage_aes pb aes (b.append c) _ _ hb hd (by omega)
    refine ⟨_, b', by rw [receive, bind_of_some hmsg], ⟨?_, ?_⟩, ?_⟩
    · rw [delivered_append, delivered_callbacks, ha.delivered_eq, hx.decode_eq.1,
        items_decryptAll_append]
    · have hlast : (plain pb).Refused (left pb aes x ++ aes.decryptAll (raw x ++ c)) ↔
          (plain pb).Refused (aes.decryptAll (x ++ c)) := by
        rw [Framing.Refused, Framing.Refused, rest_decryptAll_append]
      rw [reports_append, reports_callbacks, hlast, ha.reports_iff]
      exact ⟨fun hr => hr.elim (fun hr => hx.refused_append hr c) id, Or.inr⟩
    · intro hc
      rw [← rest_decryptAll_append, hc.decode_eq.2] at hrest
      refine ⟨hrest, ?_⟩
      obtain hun | ⟨hnil, h0⟩ := hun
      · have hu := b'.unDecryptedBytes_eq
        rw [← length_raw, ← (clear_raw_append aes x c).2] at hun
        rw [hrest, hun, List.length_append] at hu
        push_cast at hu
        omega
      · rw [hnil] at hrest
        have hl := congrArg List.length hrest
        rw [List.length_append, List.length_nil] at hl
        rw [h0]
        omega

/-- A run whose cuts are safe. -/
theorem receiveAll_safe (chunks : List (List UInt8))
    (h : ∀ pre, pre <+: chunks → pre ≠ chunks → SafeCut pb aes pre.flatten) :
    ∃ cbs b, receiveAll pb (some aes) chunks = some (cbs, b) ∧
      Agrees pb aes chunks.flatten cbs ∧
      (SafeCut pb aes chunks.flatten → InStep pb aes chunks.flatten b) := by
  induction chunks using List.reverseRecOn with
  | nil => exact ⟨[], Buffer.empty, rfl, agrees_nil, fun _ => inStep_nil⟩
  | append_singleton chunks c ih =>
    have hshorter : ∀ pre, pre <+: chunks → pre ≠ chunks ++ [c] := by
      intro pre hpre heq
      have hle := hpre.length_le
      rw [heq, List.length_append, List.length_singleton] at hle
      omega
    obtain ⟨cbs, b, hrun, ha, hs⟩ := ih fun pre hpre _ =>
      h pre (hpre.trans (List.prefix_append _ _)) (hshorter pre hpre)
    have hx := h chunks (List.prefix_append _ _) (hshorter chunks (List.prefix_refl _))
    obtain ⟨cbs', b', hlast, ha', hs'⟩ := receive_safe ha (hs hx) hx c
    have hflat : (chunks ++ [c]).flatten = chunks.flatten ++ c := by simp
    refine ⟨cbs', b', ?_, ?_, ?_⟩
    · rw [receiveAll_snoc, bind_of_some hrun, hlast]
    · rw [hflat]; exact ha'
    · rw [hflat]; exact hs'

/-- **Segmentation with AES.** Two runs over one stream whose cuts are safe return, deliver the
    same messages, and report an error both or neither. -/
theorem aes_segmentation (pb : Protobuf) (aes : Aes) (chunks chunks' : List (List UInt8))
    (hs : chunks.flatten = chunks'.flatten)
    (h : ∀ pre, pre <+: chunks → pre ≠ chunks → SafeCut pb aes pre.flatten)
    (h' : ∀ pre, pre <+: chunks' → pre ≠ chunks' → SafeCut pb aes pre.flatten) :
    ∃ cbs b cbs' b', receiveAll pb (some aes) chunks = some (cbs, b) ∧
      receiveAll pb (some aes) chunks' = some (cbs', b') ∧
      delivered cbs = delivered cbs' ∧ (Reports cbs ↔ Reports cbs') := by
  obtain ⟨cbs, b, hrun, ha, -⟩ := receiveAll_safe chunks h
  obtain ⟨cbs', b', hrun', ha', -⟩ := receiveAll_safe chunks' h'
  refine ⟨cbs, b, cbs', b', hrun, hrun', ?_, ?_⟩
  · rw [ha.delivered_eq, ha'.delivered_eq, hs]
  · rw [ha.reports_iff, ha'.reports_iff, hs]

/-- Whole blocks are a safe cut. -/
theorem safeCut_of_dvd {x : List UInt8} (h : AES_BLOCK_SIZE ∣ x.length) : SafeCut pb aes x := by
  have hraw : (raw x).length = 0 := by rw [length_raw, Nat.mod_eq_zero_of_dvd h]
  have hmin : kMinMessageLen = 10 := rfl
  unfold SafeCut
  omega

/-- What `send` makes of `logonNine`. -/
def logonWire : List UInt8 := logonAes.encryptAll (padded logon logonNine)

theorem send_logonNine : send logon (some logonAes) logonNine = some logonWire :=
  send_aes logon logonAes logonNine

theorem receiveAll_logonWire :
    (receiveAll logon (some logonAes) [logonWire]).map Prod.fst = some [.message logonNine] := by
  decide +kernel

theorem receiveAll_logonWire_cut :
    (receiveAll logon (some logonAes) [logonWire.take 14, logonWire.drop 14]).map Prod.fst =
      some [.error .kInvalidLength, .message logonNine] := by
  decide +kernel

/-- Cut after 14 bytes, the wire of `logonNine` is refused for its length; uncut it is not. -/
theorem aes_segmentation_fails :
    send logon (some logonAes) logonNine = some logonWire ∧
      [logonWire].flatten = [logonWire.take 14, logonWire.drop 14].flatten ∧
      (∃ cbs b, receiveAll logon (some logonAes) [logonWire] = some (cbs, b) ∧ ¬ Reports cbs) ∧
      (∃ cbs b, receiveAll logon (some logonAes) [logonWire.take 14, logonWire.drop 14] =
        some (cbs, b) ∧ Reports cbs) := by
  refine ⟨send_logonNine, by simp, ?_, ?_⟩
  · obtain ⟨⟨cbs, b⟩, hrun, hcbs⟩ := Option.map_eq_some_iff.mp receiveAll_logonWire
    refine ⟨cbs, b, hrun, ?_⟩
    rw [show cbs = [.message logonNine] from hcbs]
    simp [Reports]
  · obtain ⟨⟨cbs, b⟩, hrun, hcbs⟩ := Option.map_eq_some_iff.mp receiveAll_logonWire_cut
    refine ⟨cbs, b, hrun, .kInvalidLength, ?_⟩
    rw [show cbs = [.error .kInvalidLength, .message logonNine] from hcbs]
    exact List.mem_cons_self

/-- Cut at block boundaries, or not at all. -/
theorem aes_segmentation_logonWire :
    ∃ cbs b cbs' b', receiveAll logon (some logonAes) [logonWire] = some (cbs, b) ∧
      receiveAll logon (some logonAes) [logonWire.take 16, logonWire.drop 16] = some (cbs', b') ∧
      delivered cbs = delivered cbs' ∧ (Reports cbs ↔ Reports cbs') := by
  have hfirst : AES_BLOCK_SIZE ∣ [logonWire.take 16].flatten.length := by decide +kernel
  refine aes_segmentation logon logonAes _ _ (by simp) ?_ ?_
  · intro pre hpre hne
    obtain rfl | ⟨t, rfl, ht⟩ := List.prefix_cons_iff.mp hpre
    · exact safeCut_of_dvd (Nat.dvd_zero _)
    · rw [List.prefix_nil.mp ht] at hne
      exact absurd rfl hne
  · intro pre hpre hne
    obtain rfl | ⟨t, rfl, ht⟩ := List.prefix_cons_iff.mp hpre
    · exact safeCut_of_dvd (Nat.dvd_zero _)
    · obtain rfl | ⟨u, rfl, hu⟩ := List.prefix_cons_iff.mp ht
      · exact safeCut_of_dvd hfirst
      · rw [List.prefix_nil.mp hu] at hne
        exact absurd rfl hne

end Mmvx.Net

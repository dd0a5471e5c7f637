/-
  The receive path of a `ProtobufCodec` without AES, for every byte stream.

  `headOf` is what one turn of `onMessage` makes of the content of the buffer, as a function of
  bytes; it is a `Framing` (`plain`), so the chunking results of `Lib.Framing` apply.
  `onMessage_plain`: `onMessage` delivers the items of the content, leaves the rest, and reports
  an error exactly when the rest is refused. `onMessageLoop_settled` is the same for a codec with
  AES whose buffer has no whole block left to decrypt.
-/
import Mmvx.Lib.Framing
import Mmvx.Net.ProtobufCodec

namespace Mmvx.Net

open Mmvx.Lib

variable (pb : Protobuf)

/-! ## `parse` stays inside its memory -/

theorem bytesAt_eq {buf : List UInt8} {off len : Int} (h0 : 0 ≤ off) (h1 : 0 ≤ len)
    (h : off + len ≤ buf.length) :
    bytesAt buf off len = some ((buf.drop off.toNat).take len.toNat) := by
  unfold bytesAt
  rw [if_pos ⟨h0, h1, h⟩]

theorem checkSumMatches_eq {buf : List UInt8} (h : kHeaderLen ≤ buf.length) :
    checkSumMatches buf buf.length =
      some (toSigned 32 (adler32 (buf.take (buf.length - kHeaderLen))) ==
        asInt32 (buf.drop (buf.length - kHeaderLen))) := by
  have hn : ((buf.length : Int) - kHeaderLen).toNat = buf.length - kHeaderLen := by omega
  have hd : (buf.drop (buf.length - kHeaderLen)).take kHeaderLen =
      buf.drop (buf.length - kHeaderLen) := by
    apply List.take_of_length_le
    simp only [List.length_drop]; omega
  unfold checkSumMatches
  rw [bind_of_some (bytesAt_eq (by omega) (by omega) (by omega)),
    bind_of_some (bytesAt_eq (by omega) (by omega) (by omega)), hn, Int.toNat_natCast, hd]
  rfl

/-- `parse(buf, len)` touches only the `len` bytes at `buf`, whatever they are. -/
theorem parse_isSome (buf : List UInt8) (h : kMinMessageLen ≤ buf.length) :
    ∃ m e, parse pb buf buf.length = some (m, e) := by
  have hmin : kMinMessageLen = 10 := rfl
  have hhdr : kHeaderLen = 4 := rfl
  unfold parse
  rw [bind_of_some (checkSumMatches_eq (by omega))]
  split
  · rw [bind_of_some (bytesAt_eq (by omega) (by omega) (by omega))]
    unfold parseNamed
    split
    · unfold parseMessage
      rw [bind_of_some (bytesAt_eq (by omega) (by omega) (by omega))]
      split
      · rw [bind_of_some (bytesAt_eq (by omega) (by omega) (by omega))]
        exact ⟨_, _, rfl⟩
      · exact ⟨_, _, rfl⟩
    · exact ⟨_, _, rfl⟩
  · exact ⟨_, _, rfl⟩

/-! ## One turn of the loop as a framing -/

/-- The length field at the head of the content. -/
def lenField (x : List UInt8) : Int := asInt32 (x.take kHeaderLen)

/-- `len > kMaxMessageLen || len < kMinMessageLen` does not hold. -/
def LenOk (len : Int) : Prop := kMinMessageLen ≤ len ∧ len ≤ kMaxMessageLen

instance (len : Int) : Decidable (LenOk len) := inferInstanceAs (Decidable (_ ∧ _))

/-- What one turn of `onMessage` makes of the content `x`. -/
def headOf (x : List UInt8) : Head pb.Message ErrorCode :=
  if x.length < kMinMessageLen + kHeaderLen then .more
  else if ¬ LenOk (lenField x) then .refuse .kInvalidLength
  else if (x.length : Int) < lenField x + kHeaderLen then .more
  else
    match parse pb ((x.drop kHeaderLen).take (lenField x).toNat) (lenField x) with
    | some (some m, .kNoError) => .item m (kHeaderLen + (lenField x).toNat)
    | some (_, e) => .refuse e
    | none => .refuse .kParseError

theorem lenField_append {x : List UInt8} (h : kHeaderLen ≤ x.length) (y : List UInt8) :
    lenField (x ++ y) = lenField x := by
  rw [lenField, List.take_append_of_le_length h, lenField]

theorem body_append {x : List UInt8} {len : Int} (h : len + kHeaderLen ≤ x.length)
    (y : List UInt8) :
    ((x ++ y).drop kHeaderLen).take len.toNat = (x.drop kHeaderLen).take len.toNat := by
  have hhdr : kHeaderLen = 4 := rfl
  by_cases hneg : len < 0
  · have : len.toNat = 0 := by omega
    rw [this, List.take_zero, List.take_zero]
  · rw [List.drop_append_of_le_length (by omega), List.take_append_of_le_length]
    simp only [List.length_drop]
    omega

/-- The body of an accepted length, when it is all there. -/
theorem length_body {x : List UInt8} {len : Int} (hok : LenOk len)
    (h : len + kHeaderLen ≤ x.length) :
    ((x.drop kHeaderLen).take len.toNat).length = len.toNat ∧ (len.toNat : Int) = len ∧
      kMinMessageLen ≤ len.toNat := by
  have hhdr : kHeaderLen = 4 := rfl
  have hmin : kMinMessageLen = 10 := rfl
  have hge := hok.1
  simp only [List.length_take, List.length_drop]
  omega

/-- What is needed for a verdict other than `more` is there. -/
theorem headOf_enough {x : List UInt8} (h : headOf pb x ≠ .more) :
    kMinMessageLen + kHeaderLen ≤ x.length ∧
      (LenOk (lenField x) → lenField x + kHeaderLen ≤ x.length) := by
  unfold headOf at h
  split at h
  · exact absurd rfl h
  · rename_i hlen
    refine ⟨by omega, fun hok => ?_⟩
    rw [if_neg (not_not.mpr hok)] at h
    split at h
    · exact absurd rfl h
    · omega

/-- A verdict other than `more` is not changed by more input. -/
theorem headOf_append {x : List UInt8} (h : headOf pb x ≠ .more) (y : List UInt8) :
    headOf pb (x ++ y) = headOf pb x := by
  obtain ⟨hlen, hbody⟩ := headOf_enough pb h
  have hxy : (x ++ y).length = x.length + y.length := List.length_append
  have hl : ¬ x.length < kMinMessageLen + kHeaderLen := by omega
  have hl' : ¬ (x ++ y).length < kMinMessageLen + kHeaderLen := by omega
  unfold headOf
  rw [lenField_append (by omega) y, if_neg hl, if_neg hl']
  by_cases hok : LenOk (lenField x)
  · have hb := hbody hok
    have hc : ¬ (x.length : Int) < lenField x + kHeaderLen := by omega
    have hc' : ¬ ((x ++ y).length : Int) < lenField x + kHeaderLen := by omega
    rw [if_neg (not_not.mpr hok), if_neg (not_not.mpr hok), if_neg hc, if_neg hc',
      body_append hb y]
  · rw [if_pos hok, if_pos hok]

theorem headOf_item {x : List UInt8} {m : pb.Message} {n : Nat} (h : headOf pb x = .item m n) :
    LenOk (lenField x) ∧ n = kHeaderLen + (lenField x).toNat ∧ n ≤ x.length ∧
      parse pb ((x.drop kHeaderLen).take (lenField x).toNat) (lenField x) =
        some (some m, .kNoError) := by
  have hne : headOf pb x ≠ .more := by rw [h]; simp
  obtain ⟨hlen, hbody⟩ := headOf_enough pb hne
  unfold headOf at h
  rw [if_neg (by omega)] at h
  split at h
  · cases h
  · rename_i hok
    have hok := not_not.mp hok
    have hb := hbody hok
    have hmin : kMinMessageLen = 10 := rfl
    have hge := hok.1
    rw [if_neg (by omega)] at h
    split at h
    · rename_i m' hp
      cases h
      exact ⟨hok, rfl, by omega, hp⟩
    · cases h
    · cases h

theorem headOf_eq_item {x : List UInt8} {m : pb.Message} (hok : LenOk (lenField x))
    (hlen : kHeaderLen + (lenField x).toNat ≤ x.length)
    (hp : parse pb ((x.drop kHeaderLen).take (lenField x).toNat) (lenField x) =
      some (some m, .kNoError)) :
    headOf pb x = .item m (kHeaderLen + (lenField x).toNat) := by
  have hmin : kMinMessageLen = 10 := rfl
  have hge := hok.1
  unfold headOf
  rw [if_neg (by omega), if_neg (not_not.mpr hok), if_neg (by omega), hp]

/-- The receive path without AES, as a framing of bytes. -/
def plain : ExactFraming UInt8 pb.Message ErrorCode where
  head := headOf pb
  item_size := by
    intro x m n h
    obtain ⟨_, hn, hle, _⟩ := headOf_item pb h
    have hhdr : kHeaderLen = 4 := rfl
    omega
  item_append := by
    intro x m n y h
    rw [headOf_append pb (by rw [h]; simp), h]
  refuse_append := by
    intro x e y h
    rw [headOf_append pb (by rw [h]; simp), h]
  item_take := by
    intro x m n h
    obtain ⟨hok, hn, hle, hp⟩ := headOf_item pb h
    have hl : (x.take n).length = n := by simp only [List.length_take]; omega
    have hhdr : kHeaderLen = 4 := rfl
    have hmin : kMinMessageLen = 10 := rfl
    have hge := hok.1
    have hf : lenField (x.take n) = lenField x := by
      have := lenField_append (x := x.take n) (by omega) (x.drop n)
      rwa [List.take_append_drop, eq_comm] at this
    have hb : ((x.take n).drop kHeaderLen).take (lenField x).toNat =
        (x.drop kHeaderLen).take (lenField x).toNat := by
      have hfit : lenField x + kHeaderLen ≤ (x.take n).length := by omega
      have := body_append hfit (x.drop n)
      rwa [List.take_append_drop, eq_comm] at this
    have hitem := headOf_eq_item pb (x := x.take n) (m := m) (by rw [hf]; exact hok)
      (by rw [hf]; omega) (by rw [hf, hb]; exact hp)
    rw [hitem, hf, hn]

/-! ## `onMessage` takes the items of the content -/

/-- The error call for a verdict. -/
def report : Head pb.Message ErrorCode → List (Callback pb.Message)
  | .refuse e => [.error e]
  | .more => []
  | .item _ _ => []

/-- The callbacks of one `onMessage` on the plain content `x`. -/
def callbacks (x : List UInt8) : List (Callback pb.Message) :=
  ((plain pb).items x).map .message ++ report pb (headOf pb ((plain pb).rest x))

theorem onMessageLoop_short {aes_ : Option Aes} {turns : Nat} {b : Buffer}
    (h : b.readable.length < kMinMessageLen + kHeaderLen) :
    onMessageLoop pb aes_ turns b = some ([], b) := by
  rw [Buffer.length_readable] at h
  cases turns with
  | zero => rfl
  | succ n => rw [onMessageLoop, if_pos h]

/-- One turn of the loop, with `c` the buffer after `decryptIf`. -/
theorem onMessageLoop_turn {aes_ : Option Aes} {turns : Nat} {b c : Buffer}
    (hb : kMinMessageLen + kHeaderLen ≤ b.readable.length) (hc : decryptIf aes_ b = some c)
    (hlen : c.readable.length = b.readable.length) :
    onMessageLoop pb aes_ (turns + 1) b =
      match headOf pb c.readable with
      | .more => some ([], c)
      | .refuse e => some ([.error e], c)
      | .item m n =>
        onMessageLoop pb aes_ turns (c.retrieve n) >>= fun r => some (.message m :: r.1, r.2) := by
  have hhdr : kHeaderLen = 4 := rfl
  have hpeek : c.peekInt32 = lenField c.readable := rfl
  have hrb := b.length_readable
  have hrc := c.length_readable
  have hb' : ¬ b.readableBytes < kMinMessageLen + kHeaderLen := by omega
  have hc' : ¬ c.readable.length < kMinMessageLen + kHeaderLen := by omega
  rw [onMessageLoop, if_neg hb', bind_of_some hc, hpeek, headOf, if_neg hc']
  by_cases hok : LenOk (lenField c.readable)
  · have hbad : ¬ (lenField c.readable > kMaxMessageLen ∨ lenField c.readable < kMinMessageLen) := by
      have := hok.1
      have := hok.2
      omega
    rw [if_neg hbad, if_neg (not_not.mpr hok)]
    by_cases hbody : (c.readable.length : Int) < lenField c.readable + kHeaderLen
    · have hbody' : ¬ (c.readableBytes : Int) ≥ lenField c.readable + kHeaderLen := by omega
      rw [if_pos hbody, if_neg hbody']
    · have hbody' : (c.readableBytes : Int) ≥ lenField c.readable + kHeaderLen := by omega
      obtain ⟨hl, hcast, hmin⟩ := length_body (x := c.readable) hok (Int.not_lt.mp hbody)
      obtain ⟨m, e, hp⟩ := parse_isSome pb
        ((c.readable.drop kHeaderLen).take (lenField c.readable).toNat) (by rw [hl]; exact hmin)
      rw [hl, hcast] at hp
      rw [if_neg hbody, if_pos hbody', bind_of_some hp, hp]
      cases e <;> cases m <;> rfl
  · have hbad : lenField c.readable > kMaxMessageLen ∨ lenField c.readable < kMinMessageLen := by
      unfold LenOk at hok
      omega
    rw [if_pos hbad, if_pos hok]

/-- `decryptIf` has nothing to do: no AES, or less than a block that is not decrypted. -/
def Settled (aes_ : Option Aes) (b : Buffer) : Prop :=
  aes_ = none ∨ (0 ≤ b.unDecryptedBytes ∧ b.unDecryptedBytes < AES_BLOCK_SIZE)

theorem Settled.decryptIf_eq {aes_ : Option Aes} {b : Buffer} (h : Settled aes_ b) :
    decryptIf aes_ b = some b := by
  cases aes_ with
  | none => rfl
  | some aes =>
    obtain h | ⟨h0, h1⟩ := h
    · cases h
    · rw [decryptIf, decryptBuffer, decryptLoop, if_neg (by omega)]

/-- `retrieve` moves no byte between the decrypted and the other part, except that an emptied
    buffer starts over. -/
theorem unDecryptedBytes_retrieve (b : Buffer) (n : Nat) :
    (b.retrieve n).unDecryptedBytes = b.unDecryptedBytes ∨
      ((b.retrieve n).readable = [] ∧ (b.retrieve n).decryptedBytes = 0) := by
  by_cases h : n < b.readableBytes
  · left
    simp only [Buffer.retrieve, h, dite_true, Buffer.unDecryptedBytes]
  · right
    refine ⟨?_, b.decryptedBytes_retrieve_of_le (by omega)⟩
    rw [b.readable_retrieve, List.drop_eq_nil_of_le (by rw [b.length_readable]; omega)]

theorem Settled.retrieve {aes_ : Option Aes} {b : Buffer} (h : Settled aes_ b) (n : Nat) :
    Settled aes_ (b.retrieve n) := by
  obtain h | h := h
  · exact Or.inl h
  · refine Or.inr ?_
    obtain he | ⟨he, hd⟩ := unDecryptedBytes_retrieve b n
    · rw [he]; exact h
    · rw [(b.retrieve n).unDecryptedBytes_eq, he, hd]
      decide

/-- The whole loop where `decryptIf` has nothing to do. -/
theorem onMessageLoop_settled {aes_ : Option Aes} (turns : Nat) (b : Buffer)
    (hs : Settled aes_ b) (h : b.readable.length < turns) :
    ∃ c, onMessageLoop pb aes_ turns b = some (callbacks pb b.readable, c) ∧
      c.readable = (plain pb).rest b.readable ∧
      (c.unDecryptedBytes = b.unDecryptedBytes ∨ (c.readable = [] ∧ c.decryptedBytes = 0)) := by
  induction turns generalizing b with
  | zero => omega
  | succ n ih =>
    by_cases hshort : b.readable.length < kMinMessageLen + kHeaderLen
    · have hmore : headOf pb b.readable = .more := by rw [headOf, if_pos hshort]
      have hstop := (plain pb).head_more_stop (x := b.readable) hmore
      refine ⟨b, ?_, ((plain pb).rest_stop hstop).symm, Or.inl rfl⟩
      rw [onMessageLoop_short pb hshort, callbacks, (plain pb).items_stop hstop,
        (plain pb).rest_stop hstop, hmore]
      rfl
    · rw [onMessageLoop_turn pb (by omega) hs.decryptIf_eq rfl]
      cases hx : headOf pb b.readable with
      | more =>
        have hstop := (plain pb).head_more_stop (x := b.readable) hx
        refine ⟨b, ?_, ((plain pb).rest_stop hstop).symm, Or.inl rfl⟩
        rw [callbacks, (plain pb).items_stop hstop, (plain pb).rest_stop hstop, hx]
        rfl
      | refuse e =>
        have hstop := (plain pb).head_refuse_stop (x := b.readable) hx
        refine ⟨b, ?_, ((plain pb).rest_stop hstop).symm, Or.inl rfl⟩
        rw [callbacks, (plain pb).items_stop hstop, (plain pb).rest_stop hstop, hx]
        rfl
      | item m k =>
        obtain ⟨hk0, hk⟩ := (plain pb).item_size (x := b.readable) hx
        have hdrop := b.readable_retrieve k
        obtain ⟨c, hrun, hrest, hun⟩ := ih (b.retrieve k) (hs.retrieve k) (by
          rw [hdrop]; simp only [List.length_drop]; omega)
        refine ⟨c, ?_, ?_, ?_⟩
        · show (onMessageLoop pb aes_ n (b.retrieve k) >>= _) = _
          rw [bind_of_some hrun, hdrop, callbacks, callbacks,
            (plain pb).items_item (x := b.readable) hx, (plain pb).rest_item (x := b.readable) hx]
          rfl
        · rw [hrest, hdrop, (plain pb).rest_item (x := b.readable) hx]
        · obtain hun | hun := hun
          · obtain he | ⟨he, hd⟩ := unDecryptedBytes_retrieve b k
            · exact Or.inl (hun.trans he)
            · -- the buffer was emptied here, and stays empty
              right
              have hc : c.readable = [] := by
                rw [hrest, he, (plain pb).rest_stop ((plain pb).head_more_stop rfl)]
              have h0 := c.unDecryptedBytes_eq
              have h1 := (b.retrieve k).unDecryptedBytes_eq
              rw [hc] at h0
              rw [he, hd] at h1
              exact ⟨hc, by simp only [List.length_nil] at h0 h1; omega⟩
          · exact Or.inr hun

/-- `onMessage` without AES, on any content. -/
theorem onMessage_plain (b : Buffer) :
    ∃ c, onMessage pb none b = some (callbacks pb b.readable, c) ∧
      c.readable = (plain pb).rest b.readable := by
  obtain ⟨c, hrun, hrest, -⟩ := onMessageLoop_settled pb (b.readableBytes + 1) b
    (Or.inl rfl : Settled none b) (by rw [b.length_readable]; omega)
  exact ⟨c, hrun, hrest⟩

theorem delivered_append {M : Type} (xs ys : List (Callback M)) :
    delivered (xs ++ ys) = delivered xs ++ delivered ys :=
  List.filterMap_append

theorem reports_append {M : Type} (xs ys : List (Callback M)) :
    Reports (xs ++ ys) ↔ Reports xs ∨ Reports ys := by
  simp only [Reports, List.mem_append, exists_or]

theorem delivered_map_message {M : Type} (ms : List M) :
    delivered (ms.map Callback.message) = ms := by
  induction ms with
  | nil => rfl
  | cons m ms ih => simp [delivered]

theorem delivered_callbacks (x : List UInt8) :
    delivered (callbacks pb x) = (plain pb).items x := by
  rw [callbacks, delivered_append, delivered_map_message]
  cases headOf pb ((plain pb).rest x) <;> simp [report, delivered]

theorem reports_callbacks (x : List UInt8) :
    Reports (callbacks pb x) ↔ (plain pb).Refused x := by
  rw [callbacks, reports_append]
  have hmsg : ¬ Reports (((plain pb).items x).map Callback.message) := by
    simp [Reports]
  constructor
  · rintro (h | h)
    · exact absurd h hmsg
    · cases hv : headOf pb ((plain pb).rest x) with
      | refuse e => exact ⟨e, hv⟩
      | more => rw [hv] at h; simp [Reports, report] at h
      | item m n => rw [hv] at h; simp [Reports, report] at h
  · rintro ⟨e, he⟩
    refine Or.inr ⟨e, ?_⟩
    have he : headOf pb ((plain pb).rest x) = .refuse e := he
    rw [he]
    simp [report]

end Mmvx.Net

/-
  The receive path of a `ProtobufCodecLite`, for every byte stream and every way of cutting it.

  One turn of `onMessage` as a function of the content of the buffer is a `Framing` whose items are
  the calls for one frame (`framing`), and a read event is one `feed`. So the calls of a connection
  are those of the longest prefix of whole frames; a frame that cannot be parsed stays in the buffer,
  and every read event from there on shows it to `rawCb_` and reports it again (`lite_stream_law`).
  `fillEmptyBuffer` does not look at `kMaxMessageLen`, so a message that is too long is sent, and
  takes all messages after it with it (`lite_round_trip`).
-/
import Mmvx.Lib.Feed
import Mmvx.Net.CodecLite

namespace Mmvx.Net.ProtobufCodecLite

open Mmvx.Lib

variable (c : ProtobufCodecLite)

/-! ## Frames -/

/-- `len > kMaxMessageLen || len < kMinMessageLen` does not hold. -/
def LenOk (len : Int) : Prop := c.kMinMessageLen ≤ len ∧ len ≤ kMaxMessageLen

instance (len : Int) : Decidable (c.LenOk len) := inferInstanceAs (Decidable (_ ∧ _))

/-- The length field of `fr` is acceptable and counts the bytes after it. -/
structure Sized (fr : List UInt8) : Prop where
  ok : c.LenOk (lenField fr)
  length : (fr.length : Int) = kHeaderLen + lenField fr

/-- A whole frame and the calls that are made for it. -/
inductive Taken (fr : List UInt8) : List (Call c.Message) → Prop
  | skipped : c.Sized fr → c.wants fr = false → Taken fr (c.rawCalls fr)
  | parsed {m : c.Message} : c.Sized fr → c.wants fr = true →
      c.parse (fr.drop kHeaderLen) (lenField fr) = some (.ok m) →
      Taken fr (c.rawCalls fr ++ [.message m])

/-- The content `x` at which `onMessage` reports an error, and the calls it makes there. -/
inductive Refused (x : List UInt8) : List (Call c.Message) → Prop
  | length : c.kMinMessageLen + kHeaderLen ≤ x.length → ¬ c.LenOk (lenField x) →
      Refused x [.error .kInvalidLength]
  | parse {fr y : List UInt8} {e : ErrorCode} : x = fr ++ y → c.Sized fr → c.wants fr = true →
      c.parse (fr.drop kHeaderLen) (lenField fr) = some (.error e) →
      Refused x (c.rawCalls fr ++ [.error e])

/-- Whole frames one after the other. -/
inductive Frames : List (List (Call c.Message)) → List UInt8 → Prop
  | nil : Frames [] []
  | cons {calls rest fr s} : c.Taken fr calls → Frames rest s → Frames (calls :: rest) (fr ++ s)

theorem parse_isSome (buf : List UInt8) (h : c.kMinMessageLen ≤ buf.length) :
    ∃ r, c.parse buf buf.length = some r := by
  have hmin : c.kMinMessageLen = c.tag_.length + 4 := rfl
  have hsum : kChecksumLen = 4 := rfl
  have hhdr : kHeaderLen = 4 := rfl
  unfold parse validateChecksum
  rw [bind_of_some (checkSumMatches_eq (by omega))]
  split
  · rw [bind_of_some (bytesAt_eq (by omega) (by omega) (by omega))]
    split
    · rw [bind_of_some (bytesAt_eq (by omega) (by omega) (by omega))]
      split <;> exact ⟨_, rfl⟩
    · exact ⟨_, rfl⟩
  · exact ⟨_, rfl⟩

/-! ## One turn of the loop as a framing -/

/-- What one turn makes of a frame that is all there. -/
def frameHead (fr : List UInt8) : Head (List (Call c.Message)) (List (Call c.Message)) :=
  if c.wants fr then
    match c.parse (fr.drop kHeaderLen) (lenField fr) with
    | some (.ok m) => .item (c.rawCalls fr ++ [.message m]) fr.length
    | some (.error e) => .refuse (c.rawCalls fr ++ [.error e])
    | none => .refuse []
  else .item (c.rawCalls fr) fr.length

/-- What one turn makes of the content `x`. -/
def headOf (x : List UInt8) : Head (List (Call c.Message)) (List (Call c.Message)) :=
  if x.length < c.kMinMessageLen + kHeaderLen then .more
  else if ¬ c.LenOk (lenField x) then .refuse [.error .kInvalidLength]
  else if (x.length : Int) < kHeaderLen + lenField x then .more
  else c.frameHead (x.take (kHeaderLen + (lenField x).toNat))

section

variable {c} {x fr : List UInt8}

theorem Sized.toNat (h : c.Sized fr) : kHeaderLen + (lenField fr).toNat = fr.length := by
  have hle := h.ok.1
  have hlen := h.length
  omega

theorem Sized.min_le (h : c.Sized fr) : c.kMinMessageLen + kHeaderLen ≤ fr.length := by
  have hle := h.ok.1
  have hlen := h.length
  omega

theorem lenField_take (x : List UInt8) (n : Nat) :
    lenField (x.take (kHeaderLen + n)) = lenField x := by
  rw [lenField, List.take_take, Nat.min_eq_left (Nat.le_add_right _ _), lenField]

/-- The frame at the head of the content, when it is all there. -/
theorem sized_take (hok : c.LenOk (lenField x)) (h : kHeaderLen + lenField x ≤ x.length) :
    c.Sized (x.take (kHeaderLen + (lenField x).toNat)) := by
  have hle := hok.1
  refine ⟨by rwa [lenField_take], ?_⟩
  rw [lenField_take, List.length_take, Nat.min_eq_left (by omega)]
  omega

/-- A frame at the head of the content decides the turn. -/
theorem Sized.headOf_append (h : c.Sized fr) (y : List UInt8) :
    c.headOf (fr ++ y) = c.frameHead fr := by
  have hmin := h.min_le
  have hlen := h.length
  have hxy : (fr ++ y).length = fr.length + y.length := List.length_append
  unfold headOf
  rw [if_neg (by omega), lenField_append (by omega) y, if_neg (not_not.mpr h.ok),
    if_neg (by omega), h.toNat, List.take_left]

/-- The three ways a turn can go. -/
theorem headOf_cases (x : List UInt8) : c.headOf x = .more ∨
    (c.kMinMessageLen + kHeaderLen ≤ x.length ∧ ¬ c.LenOk (lenField x) ∧
      c.headOf x = .refuse [.error .kInvalidLength]) ∨
    ∃ fr y, x = fr ++ y ∧ c.Sized fr ∧ c.headOf x = c.frameHead fr := by
  by_cases hlen : x.length < c.kMinMessageLen + kHeaderLen
  · exact .inl (if_pos hlen)
  by_cases hok : c.LenOk (lenField x)
  · by_cases hbody : (x.length : Int) < kHeaderLen + lenField x
    · refine .inl ?_
      rw [headOf, if_neg hlen, if_neg (not_not.mpr hok), if_pos hbody]
    · have hsized := sized_take hok (Int.not_lt.mp hbody)
      refine .inr (.inr ⟨_, _, (List.take_append_drop _ x).symm, hsized, ?_⟩)
      rw [headOf, if_neg hlen, if_neg (not_not.mpr hok), if_neg hbody]
  · refine .inr (.inl ⟨Nat.not_lt.mp hlen, hok, ?_⟩)
    rw [headOf, if_neg hlen, if_pos hok]

theorem Sized.parse_isSome (h : c.Sized fr) :
    ∃ r, c.parse (fr.drop kHeaderLen) (lenField fr) = some r := by
  have hmin := h.min_le
  have hlen := h.length
  have hbody : ((fr.drop kHeaderLen).length : Int) = lenField fr := by
    rw [List.length_drop]
    omega
  rw [← hbody]
  refine ProtobufCodecLite.parse_isSome c _ ?_
  rw [List.length_drop]
  omega

theorem Sized.frameHead_item (h : c.Sized fr) {calls : List (Call c.Message)} {n : Nat} :
    c.frameHead fr = .item calls n ↔ c.Taken fr calls ∧ n = fr.length := by
  unfold frameHead
  constructor
  · intro hitem
    split at hitem
    · rename_i hw
      split at hitem
      · rename_i m hp
        cases hitem
        exact ⟨.parsed h hw hp, rfl⟩
      · cases hitem
      · cases hitem
    · rename_i hw
      cases hitem
      exact ⟨.skipped h (Bool.eq_false_iff.mpr hw), rfl⟩
  · rintro ⟨htaken, rfl⟩
    cases htaken with
    | skipped _ hw => rw [if_neg (Bool.eq_false_iff.mp hw)]
    | parsed _ hw hp => rw [if_pos hw, hp]

theorem Sized.frameHead_refuse (h : c.Sized fr) {bad : List (Call c.Message)} :
    c.frameHead fr = .refuse bad ↔ ∃ e, c.wants fr = true ∧
      c.parse (fr.drop kHeaderLen) (lenField fr) = some (.error e) ∧
      bad = c.rawCalls fr ++ [.error e] := by
  obtain ⟨r, hr⟩ := h.parse_isSome
  unfold frameHead
  rw [hr]
  cases hw : c.wants fr with
  | false => simp
  | true =>
    cases r with
    | ok m => simp
    | error e => simp [eq_comm]

theorem Taken.sized {calls : List (Call c.Message)} (h : c.Taken fr calls) : c.Sized fr := by
  cases h with
  | skipped hs _ => exact hs
  | parsed hs _ _ => exact hs

/-- A whole frame at the head of the content. -/
theorem headOf_item {calls : List (Call c.Message)} {n : Nat} :
    c.headOf x = .item calls n ↔ ∃ fr y, x = fr ++ y ∧ c.Taken fr calls ∧ n = fr.length := by
  constructor
  · intro h
    obtain hmore | ⟨-, -, hbad⟩ | ⟨fr, y, hx, hs, hhead⟩ := headOf_cases (c := c) x
    · rw [h] at hmore; cases hmore
    · rw [h] at hbad; cases hbad
    · rw [h] at hhead
      exact ⟨fr, y, hx, hs.frameHead_item.mp hhead.symm⟩
  · rintro ⟨fr, y, rfl, ht, hn⟩
    rw [ht.sized.headOf_append y]
    exact ht.sized.frameHead_item.mpr ⟨ht, hn⟩

theorem headOf_refuse {bad : List (Call c.Message)} :
    c.headOf x = .refuse bad ↔ c.Refused x bad := by
  constructor
  · intro h
    obtain hmore | ⟨hlen, hok, hbad⟩ | ⟨fr, y, hx, hs, hhead⟩ := headOf_cases (c := c) x
    · rw [h] at hmore; cases hmore
    · rw [h] at hbad
      cases hbad
      exact .length hlen hok
    · rw [h] at hhead
      obtain ⟨e, hw, hp, rfl⟩ := hs.frameHead_refuse.mp hhead.symm
      exact .parse hx hs hw hp
  · intro h
    cases h with
    | length hlen hok => rw [headOf, if_neg (Nat.not_lt.mpr hlen), if_pos hok]
    | parse hx hs hw hp =>
      rw [hx, hs.headOf_append]
      exact hs.frameHead_refuse.mpr ⟨_, hw, hp, rfl⟩

end

/-- The receive path as a framing of bytes. -/
def framing : ExactFraming UInt8 (List (Call c.Message)) (List (Call c.Message)) where
  head := c.headOf
  item_size := by
    intro x calls n h
    obtain ⟨fr, y, rfl, ht, rfl⟩ := headOf_item.mp h
    have hmin := ht.sized.min_le
    have hhdr : kHeaderLen = 4 := rfl
    rw [List.length_append]
    omega
  item_append := by
    intro x calls n y h
    obtain ⟨fr, z, rfl, ht, rfl⟩ := headOf_item.mp h
    exact headOf_item.mpr ⟨fr, z ++ y, List.append_assoc _ _ _, ht, rfl⟩
  refuse_append := by
    intro x bad y h
    rw [headOf_refuse] at h ⊢
    cases h with
    | length hlen hok =>
      refine .length (Nat.le_trans hlen (by simp)) ?_
      rwa [lenField_append (by omega) y]
    | @parse fr z e hx hs hw hp =>
      refine .parse (y := z ++ y) ?_ hs hw hp
      rw [hx, List.append_assoc]
  item_take := by
    intro x calls n h
    obtain ⟨fr, y, rfl, ht, rfl⟩ := headOf_item.mp h
    rw [List.take_left]
    exact headOf_item.mpr ⟨fr, [], (List.append_nil _).symm, ht, rfl⟩

theorem frames_iff (calls : List (List (Call c.Message))) (s : List UInt8) :
    c.Frames calls s ↔ c.framing.Framed calls s := by
  constructor
  · intro h
    induction h with
    | nil => exact .nil
    | @cons calls rest fr s ht _ ih =>
      refine .cons ?_ ih
      exact headOf_item.mpr ⟨fr, [], (List.append_nil _).symm, ht, rfl⟩
  · intro h
    induction h with
    | nil => exact .nil
    | @cons calls rest fr s hhead _ ih =>
      obtain ⟨fr', y, hfr, ht, hlen⟩ := headOf_item.mp hhead
      have hnil : y = [] := by
        rw [hfr, List.length_append] at hlen
        exact List.eq_nil_of_length_eq_zero (by omega)
      rw [hnil, List.append_nil] at hfr
      rw [hfr]
      exact .cons ht ih

/-! ## `onMessage` is one run of the framing -/

/-- One turn of the loop. -/
theorem onMessageLoop_turn (turns : Nat) (b : Buffer) :
    c.onMessageLoop (turns + 1) b =
      match c.headOf b.readable with
      | .more => some ([], b)
      | .refuse bad => some (bad, b)
      | .item calls n =>
        c.onMessageLoop turns (b.retrieve n) >>= fun r => some (calls ++ r.1, r.2) := by
  have hpeek : b.peekInt32 = lenField b.readable := rfl
  have hlen := b.length_readable
  rw [onMessageLoop, headOf, hpeek, hlen]
  by_cases hshort : b.readableBytes < c.kMinMessageLen + kHeaderLen
  · rw [if_pos hshort, if_pos hshort]
  rw [if_neg hshort, if_neg hshort]
  dsimp only
  by_cases hok : c.LenOk (lenField b.readable)
  · have hbad : ¬ (lenField b.readable > kMaxMessageLen ∨
        lenField b.readable < c.kMinMessageLen) := by
      have hmin := hok.1
      have hmax := hok.2
      omega
    rw [if_neg hbad, if_neg (not_not.mpr hok)]
    by_cases hbody : (b.readableBytes : Int) ≥ kHeaderLen + lenField b.readable
    · have hbody' : ¬ (b.readableBytes : Int) < kHeaderLen + lenField b.readable := by omega
      have hsized := sized_take hok (by omega)
      obtain ⟨r, hr⟩ := hsized.parse_isSome
      have htake := hsized.toNat
      rw [lenField_take] at hr htake
      rw [if_pos hbody, if_neg hbody', frameHead, lenField_take, hr, ← htake]
      by_cases hw : c.wants (b.readable.take (kHeaderLen + (lenField b.readable).toNat)) = true
      · rw [if_pos hw, if_pos hw]
        cases r <;> simp
      · rw [if_neg hw, if_neg hw]
    · rw [if_neg hbody, if_pos (by omega)]
  · have hbad : lenField b.readable > kMaxMessageLen ∨ lenField b.readable < c.kMinMessageLen := by
      unfold LenOk at hok
      omega
    rw [if_pos hbad, if_pos hok]

/-- The whole loop, on any content. -/
theorem onMessageLoop_eq (turns : Nat) (b : Buffer) (h : b.readable.length < turns) :
    ∃ b', c.onMessageLoop turns b =
        some ((c.framing.items b.readable ++ (c.framing.refusal b.readable).toList).flatten, b') ∧
      b'.readable = c.framing.rest b.readable := by
  induction turns generalizing b with
  | zero => cases h
  | succ turns ih =>
    rw [onMessageLoop_turn]
    cases hhead : c.headOf b.readable with
    | more =>
      have hmore : c.framing.head b.readable = .more := hhead
      have hstop := c.framing.head_more_stop hmore
      refine ⟨b, ?_, (c.framing.rest_stop hstop).symm⟩
      rw [c.framing.items_stop hstop, Framing.refusal_of_more hmore]
      rfl
    | refuse bad =>
      have hrefuse : c.framing.head b.readable = .refuse bad := hhead
      have hstop := c.framing.head_refuse_stop hrefuse
      refine ⟨b, ?_, (c.framing.rest_stop hstop).symm⟩
      rw [c.framing.items_stop hstop, Framing.refusal_of_refuse hrefuse]
      simp
    | item calls n =>
      have hitem : c.framing.head b.readable = .item calls n := hhead
      have hsize := c.framing.item_size hitem
      have hdrop := b.readable_retrieve n
      obtain ⟨b', hrun, hrest⟩ := ih (b.retrieve n) (by
        rw [hdrop, List.length_drop]
        omega)
      refine ⟨b', ?_, by rw [hrest, hdrop, c.framing.rest_item hitem]⟩
      show (c.onMessageLoop turns (b.retrieve n) >>= _) = _
      rw [bind_of_some hrun, hdrop, c.framing.items_item hitem, Framing.refusal_item hitem]
      simp

theorem onMessage_eq (b : Buffer) :
    ∃ b', c.onMessage b =
        some ((c.framing.items b.readable ++ (c.framing.refusal b.readable).toList).flatten, b') ∧
      b'.readable = c.framing.rest b.readable :=
  c.onMessageLoop_eq (b.readableBytes + 1) b (by rw [b.length_readable]; omega)

theorem receiveAll_concat (chunks : List (List UInt8)) (chunk : List UInt8) :
    c.receiveAll (chunks ++ [chunk]) = c.receiveAll chunks >>= fun st => c.receive st chunk := by
  simp [receiveAll, List.foldlM_append]

/-- A run over chunks feeds the framing. -/
theorem receiveAll_feed (chunks : List (List UInt8)) :
    ∃ b, c.receiveAll chunks = some ((chunks.foldl c.framing.feed ([], [])).1.flatten, b) ∧
      b.readable = (chunks.foldl c.framing.feed ([], [])).2 := by
  induction chunks using List.reverseRecOn with
  | nil => exact ⟨Buffer.empty, rfl, Buffer.readable_empty⟩
  | append_singleton chunks chunk ih =>
    obtain ⟨b, hrun, hb⟩ := ih
    obtain ⟨b', hmsg, hb'⟩ := c.onMessage_eq (b.append chunk)
    rw [Buffer.readable_append, hb] at hmsg hb'
    rw [List.foldl_append, List.foldl_cons, List.foldl_nil]
    refine ⟨b', ?_, hb'⟩
    rw [receiveAll_concat, bind_of_some hrun, receive, bind_of_some hmsg, Framing.feed]
    simp

theorem receiveAll_eq (chunks : List (List UInt8)) :
    ∃ b, c.receiveAll chunks = some ((c.framing.items chunks.flatten ++
        (c.framing.refusal chunks.flatten).elim []
          (List.replicate (c.framing.refusals chunks))).flatten, b) ∧
      b.readable = c.framing.rest chunks.flatten := by
  obtain ⟨b, hrun, hb⟩ := c.receiveAll_feed chunks
  rw [c.framing.foldl_feed chunks] at hrun hb
  exact ⟨b, hrun, hb⟩

theorem head_nil : c.framing.head [] = .more := by
  have hshort : ([] : List UInt8).length < c.kMinMessageLen + kHeaderLen := Nat.succ_pos _
  show c.headOf [] = .more
  rw [headOf, if_pos hshort]

theorem refusals_pos {chunks : List (List UInt8)} {bad : List (Call c.Message)}
    (h : c.framing.refusal chunks.flatten = some bad) : 0 < c.framing.refusals chunks := by
  refine Framing.refusals_pos _ h ?_
  rintro rfl
  rw [List.flatten_nil, Framing.refusal_of_more c.head_nil] at h
  cases h

/-- **Stream law.** However a stream is cut, the calls made are those for the longest prefix of
    whole frames. If the rest is refused, the same calls are made for it in every read event from
    the first one that refuses it. -/
theorem lite_stream_law (chunks : List (List UInt8)) :
    ∃ pre calls b, pre ++ b.readable = chunks.flatten ∧ c.Frames calls pre ∧
      (∀ pre' calls', pre' <+: chunks.flatten → c.Frames calls' pre' →
        pre'.length ≤ pre.length) ∧
      ((∀ bad, ¬ c.Refused b.readable bad) → c.receiveAll chunks = some (calls.flatten, b)) ∧
      ∀ bad, c.Refused b.readable bad → 0 < c.framing.refusals chunks ∧
        c.receiveAll chunks = some (calls.flatten ++
          (List.replicate (c.framing.refusals chunks) bad).flatten, b) := by
  obtain ⟨b, hrun, hb⟩ := c.receiveAll_eq chunks
  obtain ⟨pre, hs, hframed⟩ := c.framing.decode_framed chunks.flatten
  have hrefused (bad : List (Call c.Message)) :
      c.Refused b.readable bad ↔ c.framing.refusal chunks.flatten = some bad := by
    rw [hb, Framing.refusal_eq_some]
    exact headOf_refuse.symm
  refine ⟨pre, _, b, by rw [hb, ← hs], (c.frames_iff _ _).mpr hframed, ?_, ?_, ?_⟩
  · intro pre' calls' hpre' hframes
    have hlong := (c.framing.decode_longest hpre' ((c.frames_iff _ _).mp hframes)).2
    have hlen := congrArg List.length hs
    rw [List.length_append] at hlen
    omega
  · intro hnot
    have hnone : c.framing.refusal chunks.flatten = none := by
      rw [Option.eq_none_iff_forall_ne_some]
      exact fun bad h => hnot bad ((hrefused bad).mpr h)
    rw [hrun, hnone, Option.elim_none, List.append_nil]
  · intro bad hbad
    have hsome := (hrefused bad).mp hbad
    refine ⟨c.refusals_pos hsome, ?_⟩
    rw [hrun, hsome, Option.elim_some, List.flatten_append]

/-! ## What is sent -/

/-- The bytes under the check sum. -/
def summed (m : c.Message) : List UInt8 := c.tag_ ++ c.serializeToBuffer m

/-- Everything after the length field. -/
def body (m : c.Message) : List UInt8 := c.summed m ++ int32Bytes (adler32 (c.summed m))

def frame (m : c.Message) : List UInt8 := int32Bytes (c.body m).length ++ c.body m

theorem length_body (m : c.Message) : (c.body m).length =
    c.tag_.length + (c.serializeToBuffer m).length + kChecksumLen := by
  simp only [body, summed, List.length_append, length_int32Bytes]
  rfl

/-- The message has room in its buffer. -/
def Sendable (m : c.Message) : Prop :=
  (c.serializeToBuffer m).length + kChecksumLen ≤ 2147483647

instance (m : c.Message) : Decidable (c.Sendable m) := inferInstanceAs (Decidable (_ ≤ _))

theorem send_eq {m : c.Message} (h : c.Sendable m) : c.send m = some (c.frame m) := by
  have hempty : Buffer.empty.readableBytes = 0 := by decide
  have hcheap : kCheapPrepend ≤ Buffer.empty.prependableBytes := by decide
  let b := ((Buffer.empty.append c.tag_).ensureWritableBytes
    ((c.serializeToBuffer m).length + kChecksumLen)).append (c.serializeToBuffer m)
  have hr : b.readable = c.summed m := by
    show (((Buffer.empty.append _).ensureWritableBytes _).append _).readable = _
    rw [Buffer.readable_append, Buffer.readable_ensureWritableBytes, Buffer.readable_append,
      Buffer.readable_empty, List.nil_append, summed]
  have hp : kCheapPrepend ≤ b.prependableBytes :=
    Buffer.cheap_le_prependableBytes_append _ _
      (Buffer.cheap_le_readerIndex_ensureWritableBytes _ _
        (Buffer.cheap_le_prependableBytes_append _ _ hcheap))
  have hfill : c.fillEmptyBuffer Buffer.empty m =
      if (b.appendInt32 (adler32 b.readable)).readableBytes ≠
          c.tag_.length + (c.serializeToBuffer m).length + kChecksumLen then none
      else (b.appendInt32 (adler32 b.readable)).prepend
        (int32Bytes (b.appendInt32 (adler32 b.readable)).readableBytes) := by
    rw [fillEmptyBuffer, if_neg (not_not.mpr hempty)]
    exact if_neg (Nat.not_lt.mpr h)
  clear_value b
  have hr' : (b.appendInt32 (adler32 b.readable)).readable = c.body m := by
    rw [Buffer.appendInt32, Buffer.readable_append, hr, body]
  have hlen : (b.appendInt32 (adler32 b.readable)).readableBytes = (c.body m).length := by
    rw [← Buffer.length_readable, hr']
  have hroom : (int32Bytes (b.appendInt32 (adler32 b.readable)).readableBytes).length ≤
      (b.appendInt32 (adler32 b.readable)).prependableBytes := by
    rw [length_int32Bytes]
    exact Nat.le_trans (by decide) (Buffer.cheap_le_prependableBytes_append b _ hp)
  obtain ⟨b', hb', hrb'⟩ := Buffer.readable_prepend _ hroom
  rw [if_neg (not_not.mpr (hlen.trans (c.length_body m)))] at hfill
  rw [send, bind_of_some (hfill.trans hb'), hrb', hr', hlen, frame]

/-- A longer message is not sent. -/
theorem send_eq_none {m : c.Message} (h : ¬ c.Sendable m) : c.send m = none := by
  have hempty : Buffer.empty.readableBytes = 0 := by decide
  rw [send, fillEmptyBuffer, if_neg (not_not.mpr hempty)]
  dsimp only
  rw [if_pos (Nat.lt_of_not_le h)]
  rfl

/-- Exactly the lists whose messages all have room are sent. -/
theorem mapM_send_isSome_iff (ms : List c.Message) :
    (ms.mapM c.send).isSome = true ↔ ∀ m ∈ ms, c.Sendable m := by
  induction ms with
  | nil => simp
  | cons m ms ih =>
    rw [List.mapM_cons]
    by_cases h : c.Sendable m
    · rw [bind_of_some (c.send_eq h)]
      cases hrest : ms.mapM c.send <;> simp [hrest, h, ← ih]
    · simp [c.send_eq_none h, h]

theorem mapM_send {ms : List c.Message} (h : ∀ m ∈ ms, c.Sendable m) :
    ms.mapM c.send = some (ms.map c.frame) := by
  induction ms with
  | nil => rfl
  | cons m ms ih =>
    have hfirst := c.send_eq (h m List.mem_cons_self)
    have hrest := ih fun m' hm' => h m' (List.mem_cons_of_mem m hm')
    rw [List.mapM_cons, bind_of_some hfirst, bind_of_some hrest]
    rfl

/-- The message is not longer than a receiver accepts. -/
def Fits (m : c.Message) : Prop := (c.body m).length ≤ kMaxMessageLen

instance (m : c.Message) : Decidable (c.Fits m) := inferInstanceAs (Decidable (_ ≤ _))

/-- The calls for the frame of `m`. -/
def callsFor (m : c.Message) : List (Call c.Message) :=
  c.rawCalls (c.frame m) ++ if c.wants (c.frame m) then [.message m] else []

theorem lenField_frame_append (m : c.Message) (y : List UInt8) :
    lenField (c.frame m ++ y) = Int.bmod (c.body m).length 4294967296 := by
  rw [lenField_append (by simp [frame]), lenField, frame, List.take_left' (length_int32Bytes _),
    asInt32_int32Bytes]
  rfl

theorem min_le_length_body (m : c.Message) : c.kMinMessageLen ≤ (c.body m).length := by
  have hlen := c.length_body m
  have hmin : c.kMinMessageLen = c.tag_.length + kChecksumLen := rfl
  omega

theorem length_frame (m : c.Message) : (c.frame m).length = kHeaderLen + (c.body m).length := by
  rw [frame, List.length_append, length_int32Bytes]

section

variable {c} {m : c.Message}

theorem Fits.lenField_frame (h : c.Fits m) : lenField (c.frame m) = (c.body m).length := by
  have hfield := c.lenField_frame_append m []
  have hmax : kMaxMessageLen = 67108864 := by decide
  unfold Fits at h
  rw [List.append_nil] at hfield
  rw [hfield, Int.bmod_eq_of_le_mul_two (by omega) (by omega)]

theorem Fits.sized (h : c.Fits m) : c.Sized (c.frame m) where
  ok := by
    rw [h.lenField_frame]
    exact ⟨Int.ofNat_le.mpr (c.min_le_length_body m), Int.ofNat_le.mpr h⟩
  length := by
    rw [h.lenField_frame, length_frame]
    exact Int.natCast_add _ _

/-- The tag, the payload and the check sum are where `parse` looks for them. -/
theorem parse_body (hc : c.Lawful) (m : c.Message) :
    c.parse (c.body m) (c.body m).length = some (.ok m) := by
  have hlen := c.length_body m
  have hsum : (c.summed m).length = c.tag_.length + (c.serializeToBuffer m).length :=
    List.length_append
  have hhdr : kHeaderLen = 4 := rfl
  have hchk : kChecksumLen = 4 := rfl
  have ht : (c.body m).take ((c.body m).length - kHeaderLen) = c.summed m := by
    rw [body, List.take_left']
    simp only [List.length_append, length_int32Bytes]
    omega
  have hd : (c.body m).drop ((c.body m).length - kHeaderLen) =
      int32Bytes (adler32 (c.summed m)) := by
    rw [body, List.drop_left']
    simp only [List.length_append, length_int32Bytes]
    omega
  have hsplit : c.body m = [] ++ (c.tag_ ++ (c.serializeToBuffer m ++
      int32Bytes (adler32 (c.summed m)))) := by
    simp only [body, summed, List.append_assoc, List.nil_append]
  have htag : bytesAt (c.body m) 0 c.tag_.length = some c.tag_ := by
    rw [hsplit]
    exact bytesAt_mid _ _ _ rfl rfl
  have hdata : bytesAt (c.body m) c.tag_.length
      ((c.body m).length - kChecksumLen - c.tag_.length) = some (c.serializeToBuffer m) := by
    have hmid := bytesAt_mid c.tag_ (c.serializeToBuffer m) (int32Bytes (adler32 (c.summed m)))
      (rfl : _ = (c.tag_.length : Int))
      (show ((c.body m).length - kChecksumLen - c.tag_.length : Int) =
        (c.serializeToBuffer m).length by omega)
    rw [List.nil_append] at hsplit
    rwa [← hsplit] at hmid
  unfold parse validateChecksum
  rw [checkSumMatches_eq (by omega), ht, hd, asInt32_int32Bytes, toSigned, BEq.rfl]
  rw [bind_of_some rfl, if_pos rfl, bind_of_some htag, if_pos rfl, bind_of_some hdata,
    hc.parse_serialize]
  rfl

theorem Fits.taken (h : c.Fits m) (hc : c.Lawful) : c.Taken (c.frame m) (c.callsFor m) := by
  have hdrop : (c.frame m).drop kHeaderLen = c.body m := by
    rw [frame, List.drop_left' (length_int32Bytes _)]
  unfold callsFor
  by_cases hw : c.wants (c.frame m) = true
  · rw [if_pos hw]
    refine .parsed h.sized hw ?_
    rw [hdrop, h.lenField_frame]
    exact parse_body hc m
  · rw [if_neg hw, List.append_nil]
    exact .skipped h.sized (Bool.eq_false_iff.mpr hw)

theorem body_lt (htag : c.kMinMessageLen + kHeaderLen ≤ 2147483647)
    (h : (c.serializeToBuffer m).length + kChecksumLen ≤ 2147483647) :
    (c.body m).length < 4294967296 := by
  have hlen := c.length_body m
  have hmin : c.kMinMessageLen = c.tag_.length + kChecksumLen := rfl
  omega

/-- A message that is too long is refused, also where its length is stored as a negative number. -/
theorem refused_frame (h : ¬ c.Fits m) (hsize : (c.body m).length < 4294967296) (y : List UInt8) :
    c.Refused (c.frame m ++ y) [.error .kInvalidLength] := by
  have hmax : kMaxMessageLen = 67108864 := by decide
  have hmin := c.min_le_length_body m
  have hlen := c.length_frame m
  unfold Fits at h
  refine .length ?_ ?_
  · rw [List.length_append]
    omega
  · rw [lenField_frame_append]
    unfold LenOk Int.bmod
    dsimp only
    split <;> omega

end

/-- Frames of messages that fit. -/
theorem frames_map (hc : c.Lawful) (ms : List c.Message) (h : ∀ m ∈ ms, c.Fits m) :
    c.Frames (ms.map c.callsFor) (ms.map c.frame).flatten := by
  induction ms with
  | nil => exact .nil
  | cons m ms ih =>
    rw [List.map_cons, List.map_cons, List.flatten_cons]
    exact .cons ((h m List.mem_cons_self).taken hc)
      (ih fun m' hm' => h m' (List.mem_cons_of_mem m hm'))

/-- **Round trip.** Messages are sent as long as their length and `kChecksumLen` make an `int`, as
    the tag and `kMinMessageLen` do. However their frames are cut, `rawCb_` sees the frames and
    `messageCallback_` the messages it wants, in order, up to the first message that is too long;
    from the read event that brings its length on, every read event reports it. -/
theorem lite_round_trip (hc : c.Lawful) (htag : c.kMinMessageLen + kHeaderLen ≤ 2147483647)
    (ms : List c.Message)
    (hsize : ∀ m ∈ ms, (c.serializeToBuffer m).length + kChecksumLen ≤ 2147483647) :
    ∃ wires, ms.mapM c.send = some wires ∧ ∀ chunks, chunks.flatten = wires.flatten →
      ∃ k b, c.receiveAll chunks =
          some ((ms.takeWhile (c.Fits ·)).flatMap c.callsFor ++
            List.replicate k (.error .kInvalidLength), b) ∧
        (k = 0 ↔ ∀ m ∈ ms, c.Fits m) ∧ (k = 0 → b.readable = []) := by
  refine ⟨_, c.mapM_send hsize, ?_⟩
  intro chunks hchunks
  obtain ⟨b, hrun, hb⟩ := c.receiveAll_eq chunks
  have hfit : ∀ m ∈ ms.takeWhile (c.Fits ·), c.Fits m := by
    intro m hm
    simpa using List.all_eq_true.mp List.all_takeWhile m hm
  have hframed := (c.frames_iff _ _).mp (c.frames_map hc _ hfit)
  cases hrest : ms.dropWhile (c.Fits ·) with
  | nil =>
    have hall : ms.takeWhile (c.Fits ·) = ms := by
      have happend := List.takeWhile_append_dropWhile (p := (c.Fits ·)) (l := ms)
      rwa [hrest, List.append_nil] at happend
    rw [hall] at hfit hframed ⊢
    have hstop := c.framing.head_more_stop c.head_nil
    obtain ⟨hitems, hleft⟩ := c.framing.decode_framed_append hframed []
    rw [List.append_nil, c.framing.items_stop hstop, List.append_nil] at hitems
    rw [List.append_nil, c.framing.rest_stop hstop] at hleft
    have hnone : c.framing.refusal (ms.map c.frame).flatten = none := by
      rw [Framing.refusal, hleft, head_nil]
    refine ⟨0, b, ?_, ⟨fun _ => hfit, fun _ => rfl⟩, fun _ => ?_⟩
    · rw [hrun, hchunks, hitems, hnone]
      simp [List.flatMap_def]
    · rw [hb, hchunks, hleft]
  | cons m rest =>
    have hms : ms = ms.takeWhile (c.Fits ·) ++ m :: rest := by
      rw [← hrest, List.takeWhile_append_dropWhile]
    have hnot : ¬ c.Fits m := by
      have hhead := List.head?_dropWhile_not (c.Fits ·) ms
      rw [hrest] at hhead
      simpa using hhead
    have hmem : m ∈ ms := by
      rw [hms]
      simp
    have hflat : (ms.map c.frame).flatten = ((ms.takeWhile (c.Fits ·)).map c.frame).flatten ++
        (c.frame m ++ (rest.map c.frame).flatten) := by
      conv_lhs => rw [hms]
      simp
    have hrefuse : c.framing.head (c.frame m ++ (rest.map c.frame).flatten) =
        .refuse [.error .kInvalidLength] := headOf_refuse.mpr (refused_frame hnot (body_lt htag (hsize m hmem)) _)
    have hstop := c.framing.head_refuse_stop hrefuse
    obtain ⟨hitems, hleft⟩ := c.framing.decode_framed_append hframed
      (c.frame m ++ (rest.map c.frame).flatten)
    rw [← hflat, c.framing.items_stop hstop, List.append_nil] at hitems
    rw [← hflat, c.framing.rest_stop hstop] at hleft
    have hsome : c.framing.refusal chunks.flatten = some [.error .kInvalidLength] := by
      rw [Framing.refusal_eq_some, hchunks, hleft, hrefuse]
    have hpos := c.refusals_pos hsome
    refine ⟨c.framing.refusals chunks, b, ?_, ?_, ?_⟩
    · rw [hrun, hsome, hchunks, hitems]
      simp [List.flatMap_def]
    · exact ⟨fun h => absurd h (Nat.ne_of_gt hpos), fun h => absurd (h m hmem) hnot⟩
    · exact fun h => absurd h (Nat.ne_of_gt hpos)

/-- `RpcCodec` for the messages REQUEST with an `id` below 128 (protorpc/RpcCodec_test.cc), and a
    `rawCb_` that skips the frame with the `id` 3. -/
def rpcCodec : ProtobufCodecLite where
  Message := Fin 128
  tag_ := [82, 80, 67, 48]
  rawCb_ := some fun fr => fr[11]? ≠ some 3
  serializeToBuffer id := [8, 1, 17, UInt8.ofNat id, 0, 0, 0, 0, 0, 0, 0]
  parseFromBuffer data :=
    match data with
    | [8, 1, 17, id, 0, 0, 0, 0, 0, 0, 0] =>
      if h : id.toNat < 128 then some ⟨id.toNat, h⟩ else none
    | _ => none

theorem rpcCodec_lawful : rpcCodec.Lawful where
  parse_serialize := by
    intro (id : Fin 128)
    have hid : (UInt8.ofNat id).toNat = id := by
      rw [UInt8.toNat_ofNat']
      exact Nat.mod_eq_of_lt (by omega)
    show (if h : (UInt8.ofNat id).toNat < 128 then some ⟨(UInt8.ofNat id).toNat, h⟩ else none) =
      some id
    rw [dif_pos (by omega)]
    exact congrArg some (Fin.ext hid)

def request (id : Fin 128) : rpcCodec.Message := id

/-- The second of three requests is skipped. -/
theorem lite_round_trip_rpc :
    ∃ wires, [request 2, request 3, request 5].mapM rpcCodec.send = some wires ∧
      wires[0]? = some [0, 0, 0, 0x13, 82, 80, 67, 48, 8, 1, 0x11, 2, 0, 0, 0, 0, 0, 0, 0, 0x0f, 0xef,
        1, 0x32] ∧
      ∀ chunks, chunks.flatten = wires.flatten →
        ∃ b, rpcCodec.receiveAll chunks = some ([.raw (rpcCodec.frame (request 2)),
          .message (request 2), .raw (rpcCodec.frame (request 3)),
          .raw (rpcCodec.frame (request 5)), .message (request 5)], b) ∧ b.readable = [] := by
  have hfit : ∀ m ∈ [request 2, request 3, request 5], rpcCodec.Fits m := by decide +kernel
  have hsize : ∀ m ∈ [request 2, request 3, request 5],
      (rpcCodec.serializeToBuffer m).length + kChecksumLen ≤ 2147483647 := by decide +kernel
  obtain ⟨wires, hsend, hreceived⟩ :=
    lite_round_trip rpcCodec rpcCodec_lawful (by decide) [request 2, request 3, request 5] hsize
  obtain rfl := Option.some.inj ((rpcCodec.mapM_send hsize).symm.trans hsend)
  refine ⟨_, hsend, by decide +kernel, ?_⟩
  intro chunks hchunks
  obtain ⟨k, b, hrun, hk, hb⟩ := hreceived chunks hchunks
  have hzero := hk.mpr hfit
  refine ⟨b, ?_, hb hzero⟩
  have htake : [request 2, request 3, request 5].takeWhile (rpcCodec.Fits ·) =
      [request 2, request 3, request 5] := by
    have h2 := hfit (request 2) (by simp)
    have h3 := hfit (request 3) (by simp)
    have h5 := hfit (request 5) (by simp)
    simp [h2, h3, h5]
  have htwo : rpcCodec.wants (rpcCodec.frame (request 2)) = true := by decide +kernel
  have hthree : rpcCodec.wants (rpcCodec.frame (request 3)) = false := by decide +kernel
  have hfive : rpcCodec.wants (rpcCodec.frame (request 5)) = true := by decide +kernel
  rw [hrun, hzero, htake]
  simp only [List.flatMap_cons, List.flatMap_nil, callsFor, htwo, hthree, hfive]
  rfl

end Mmvx.Net.ProtobufCodecLite

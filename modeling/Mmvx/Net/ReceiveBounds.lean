/-
  The receive path of a `ProtobufCodec` without AES on hostile input.

  `parseTraced` is `parse` on a pointer into a larger memory, with a record of everything it reads;
  `turn` is one turn of `onMessage`'s loop with the calls it makes. `Loop` strings turns together
  without a bound on their number. For every content of the buffer the loop ends, in one way only,
  and all its turns are `TurnOk`: lengths are in range, nothing outside the body is read, and a turn
  that stays in the loop takes a whole frame (`receive_in_bounds`).
-/
import Mmvx.Net.StreamLaw

namespace Mmvx.Net

open Mmvx.Lib

variable (pb : Protobuf)

/-! ## `parse` with its reads -/

/-- A read of the `len` bytes at `buf + off`. -/
structure Access where
  off : Int
  len : Int
  deriving DecidableEq, Repr

/-- The `len` bytes at `off` are among the first `n`. -/
def Within (n off len : Int) : Prop := 0 ≤ off ∧ 0 ≤ len ∧ off + len ≤ n

/-- `bytesAt`, recorded. -/
def readBytes (buf : List UInt8) (off len : Int) : StateT (List Access) Option (List UInt8) :=
  fun log => (bytesAt buf off len).map fun bytes => (bytes, log ++ [⟨off, len⟩])

/-- `parse` with a record of what it reads; `buf` is all the memory from the pointer on. -/
def parseTraced (buf : List UInt8) (len : Int) :
    StateT (List Access) Option (Option pb.Message × ErrorCode) := do
  let expectedCheckSum ← readBytes buf (len - kHeaderLen) kHeaderLen
  let summed ← readBytes buf 0 (len - kHeaderLen)
  if toSigned 32 (adler32 summed) == asInt32 expectedCheckSum then
    let nameLen := asInt32 (← readBytes buf 0 kHeaderLen)
    if nameLen ≥ 2 ∧ nameLen ≤ len - 2 * kHeaderLen then
      let typeName ← readBytes buf kHeaderLen (nameLen - 1)
      if pb.createMessage typeName then
        let data ← readBytes buf (kHeaderLen + nameLen) (len - nameLen - 2 * kHeaderLen)
        pure (some (pb.ParseFromArray typeName data).1,
          if (pb.ParseFromArray typeName data).2 then .kNoError else .kParseError)
      else pure (none, .kUnknownMessageType)
    else pure (none, .kInvalidNameLen)
  else pure (none, .kCheckSumError)

/-- A read inside the first `n` bytes. -/
theorem readBytes_bind {α : Type} {buf : List UInt8} {n off len : Int} (log : List Access)
    (f : List UInt8 → StateT (List Access) Option α) (h : Within n off len) (hn : n ≤ buf.length) :
    ∃ x, bytesAt (buf.take n.toNat) off len = some x ∧
      (readBytes buf off len >>= f) log = f x (log ++ [⟨off, len⟩]) := by
  obtain ⟨h₀, h₁, h₂⟩ := h
  have hlen : ((buf.take n.toNat).length : Int) = n := by
    simp only [List.length_take]
    omega
  have hsame : ((buf.take n.toNat).drop off.toNat).take len.toNat =
      (buf.drop off.toNat).take len.toNat := by
    rw [List.drop_take, List.take_take, Nat.min_eq_left (by omega)]
  refine ⟨_, bytesAt_eq h₀ h₁ (by rw [hlen]; exact h₂), ?_⟩
  show (readBytes buf off len log).bind _ = _
  rw [readBytes, bytesAt_eq h₀ h₁ (Int.le_trans h₂ hn), hsame]
  rfl

/-- What `parse(buf, len)` computes from the `len` bytes at `buf`, with what it reads. -/
theorem parseTraced_eq {buf : List UInt8} {len : Int} (hmin : kMinMessageLen ≤ len)
    (hlen : len ≤ buf.length) :
    ∃ r log, parse pb (buf.take len.toNat) len = some r ∧
      parseTraced pb buf len [] = some (r, log) ∧ ∀ a ∈ log, Within len a.off a.len := by
  have hm : (kMinMessageLen : Int) = 10 := rfl
  have hh : (kHeaderLen : Int) = 4 := rfl
  have w₁ : Within len (len - kHeaderLen) kHeaderLen := ⟨by omega, by omega, by omega⟩
  have w₂ : Within len 0 (len - kHeaderLen) := ⟨by omega, by omega, by omega⟩
  have w₃ : Within len 0 kHeaderLen := ⟨by omega, by omega, by omega⟩
  unfold parse parseTraced
  obtain ⟨x₁, hx₁, ht₁⟩ := readBytes_bind [] _ w₁ hlen
  rw [ht₁]
  obtain ⟨x₂, hx₂, ht₂⟩ := readBytes_bind _ _ w₂ hlen
  rw [ht₂]
  have hsum : checkSumMatches (buf.take len.toNat) len =
      some (toSigned 32 (adler32 x₂) == asInt32 x₁) := by
    rw [checkSumMatches, bind_of_some hx₁, bind_of_some hx₂]
    rfl
  rw [bind_of_some hsum]
  split
  · obtain ⟨x₃, hx₃, ht₃⟩ := readBytes_bind _ _ w₃ hlen
    rw [bind_of_some hx₃, ht₃, parseNamed]
    split
    · rename_i hname
      have w₄ : Within len kHeaderLen (asInt32 x₃ - 1) := ⟨by omega, by omega, by omega⟩
      have w₅ : Within len (kHeaderLen + asInt32 x₃) (len - asInt32 x₃ - 2 * kHeaderLen) :=
        ⟨by omega, by omega, by omega⟩
      obtain ⟨x₄, hx₄, ht₄⟩ := readBytes_bind _ _ w₄ hlen
      rw [parseMessage, bind_of_some hx₄, ht₄]
      split
      · obtain ⟨x₅, hx₅, ht₅⟩ := readBytes_bind _ _ w₅ hlen
        rw [bind_of_some hx₅, ht₅]
        refine ⟨_, _, rfl, rfl, ?_⟩
        simp [w₁, w₂, w₃, w₄, w₅]
      · refine ⟨_, _, rfl, rfl, ?_⟩
        simp [w₁, w₂, w₃, w₄]
    · refine ⟨_, _, rfl, rfl, ?_⟩
      simp [w₁, w₂, w₃]
  · refine ⟨_, _, rfl, rfl, ?_⟩
    simp [w₁, w₂]

/-! ## The loop of `onMessage` -/

/-- One turn of the loop: its calls of `parse` with their length and reads, its calls of `retrieve`,
    what it hands to the callbacks, and the buffer after it; `again` where it stays in the loop. -/
structure Turn where
  parses : List (Int × List Access)
  retrieves : List Nat
  callbacks : List (Callback pb.Message)
  buf : Buffer
  again : Bool

/-- The body of the loop. -/
def turn (buf : Buffer) : Option (Turn pb) :=
  let len := buf.peekInt32
  if len > kMaxMessageLen ∨ len < kMinMessageLen then
    some ⟨[], [], [.error .kInvalidLength], buf, false⟩
  else if (buf.readableBytes : Int) ≥ len + kHeaderLen then do
    let ((message, errorCode), reads) ← parseTraced pb (buf.readable.drop kHeaderLen) len []
    match errorCode, message with
    | .kNoError, some m =>
      some ⟨[(len, reads)], [kHeaderLen + len.toNat], [.message m],
        buf.retrieve (kHeaderLen + len.toNat), true⟩
    | e, _ => some ⟨[(len, reads)], [], [.error e], buf, false⟩
  else some ⟨[], [], [], buf, false⟩

/-- The loop from the buffer `b` on, as the list of its turns with the buffers they start with. -/
inductive Loop : Buffer → List (Buffer × Turn pb) → Prop
  | done {b : Buffer} (h : b.readableBytes < kMinMessageLen + kHeaderLen) : Loop b []
  | leave {b : Buffer} {t : Turn pb} (h : kMinMessageLen + kHeaderLen ≤ b.readableBytes)
      (ht : turn pb b = some t) (ha : t.again = false) : Loop b [(b, t)]
  | again {b : Buffer} {t : Turn pb} {ts : List (Buffer × Turn pb)}
      (h : kMinMessageLen + kHeaderLen ≤ b.readableBytes) (ht : turn pb b = some t)
      (ha : t.again = true) (hts : Loop t.buf ts) : Loop b ((b, t) :: ts)

/-- What is promised of a turn that starts with `b`. -/
structure TurnOk (b : Buffer) (t : Turn pb) : Prop where
  lens : ∀ p ∈ t.parses, (kMinMessageLen : Int) ≤ p.1 ∧ p.1 ≤ kMaxMessageLen ∧
    kHeaderLen + p.1 ≤ b.readableBytes
  reads : ∀ p ∈ t.parses, ∀ a ∈ p.2, Within p.1 a.off a.len
  retrieves : ∀ n ∈ t.retrieves, n ≤ b.readableBytes
  consumes : t.again = true →
    t.buf.readableBytes + (kHeaderLen + kMinMessageLen) ≤ b.readableBytes

/-- The callbacks of the turns and the buffer after the last one. -/
def outcome (b : Buffer) : List (Buffer × Turn pb) → List (Callback pb.Message) × Buffer
  | [] => ([], b)
  | (_, t) :: ts => (t.callbacks ++ (outcome t.buf ts).1, (outcome t.buf ts).2)

/-- `onMessageLoop` past the test of its `while`. -/
theorem onMessageLoop_none {b : Buffer} (hb : kMinMessageLen + kHeaderLen ≤ b.readableBytes)
    (turns : Nat) : onMessageLoop pb none (turns + 1) b =
      if b.peekInt32 > kMaxMessageLen ∨ b.peekInt32 < kMinMessageLen then
        some ([.error .kInvalidLength], b)
      else if (b.readableBytes : Int) ≥ b.peekInt32 + kHeaderLen then
        parse pb ((b.readable.drop kHeaderLen).take b.peekInt32.toNat) b.peekInt32 >>= fun r =>
          match r.2, r.1 with
          | .kNoError, some m =>
            onMessageLoop pb none turns (b.retrieve (kHeaderLen + b.peekInt32.toNat)) >>= fun r' =>
              some (.message m :: r'.1, r'.2)
          | e, _ => some ([.error e], b)
      else some ([], b) := by
  have hmore : ¬ b.readableBytes < kMinMessageLen + kHeaderLen := Nat.not_lt.mpr hb
  rw [onMessageLoop, if_neg hmore, decryptIf, Option.bind_eq_bind]
  exact Option.bind_some _ _

/-- A turn is as promised, and it is one turn of `onMessageLoop`. -/
theorem turn_spec {b : Buffer} (hb : kMinMessageLen + kHeaderLen ≤ b.readableBytes) :
    ∃ t, turn pb b = some t ∧ TurnOk pb b t ∧ ∀ turns, onMessageLoop pb none (turns + 1) b =
      if t.again then (onMessageLoop pb none turns t.buf).map fun r => (t.callbacks ++ r.1, r.2)
      else some (t.callbacks, t.buf) := by
  have hm : (kMinMessageLen : Int) = 10 := rfl
  have hh : (kHeaderLen : Int) = 4 := rfl
  have hloop := onMessageLoop_none pb hb
  by_cases hlen : b.peekInt32 > kMaxMessageLen ∨ b.peekInt32 < kMinMessageLen
  · refine ⟨⟨[], [], [.error .kInvalidLength], b, false⟩, by rw [turn, if_pos hlen], ?_, ?_⟩
    · exact ⟨by simp, by simp, by simp, by simp⟩
    · intro turns
      rw [hloop, if_pos hlen, if_neg Bool.false_ne_true]
  · by_cases hall : (b.readableBytes : Int) ≥ b.peekInt32 + kHeaderLen
    · have hrb := b.length_readable
      have hfits : b.peekInt32 ≤ (b.readable.drop kHeaderLen).length := by
        simp only [List.length_drop]
        omega
      obtain ⟨⟨message, errorCode⟩, reads, hp, ht, hw⟩ := parseTraced_eq pb (by omega) hfits
      have hparsed : ∀ p ∈ [(b.peekInt32, reads)], (kMinMessageLen : Int) ≤ p.1 ∧
          p.1 ≤ kMaxMessageLen ∧ kHeaderLen + p.1 ≤ b.readableBytes := by
        intro p hp
        rw [List.mem_singleton.mp hp]
        omega
      have hreads : ∀ p ∈ [(b.peekInt32, reads)], ∀ a ∈ p.2, Within p.1 a.off a.len := by
        intro p hp
        obtain rfl := List.mem_singleton.mp hp
        dsimp only
        exact hw
      by_cases hok : errorCode = .kNoError ∧ message.isSome = true
      · obtain ⟨rfl, hsome⟩ := hok
        obtain ⟨m, rfl⟩ := Option.isSome_iff_exists.mp hsome
        refine ⟨⟨[(b.peekInt32, reads)], [kHeaderLen + b.peekInt32.toNat], [.message m],
          b.retrieve (kHeaderLen + b.peekInt32.toNat), true⟩, ?_, ⟨hparsed, hreads, ?_, ?_⟩, ?_⟩
        · rw [turn, if_neg hlen, if_pos hall, bind_of_some ht]
        · intro n hn
          rw [List.mem_singleton.mp hn]
          omega
        · intro _
          rw [← Buffer.length_readable, Buffer.readable_retrieve, List.length_drop]
          omega
        · intro turns
          rw [hloop, if_neg hlen, if_pos hall, bind_of_some hp, if_pos rfl]
          cases onMessageLoop pb none turns (b.retrieve (kHeaderLen + b.peekInt32.toNat)) <;> rfl
      · refine ⟨⟨[(b.peekInt32, reads)], [], [.error errorCode], b, false⟩, ?_,
          ⟨hparsed, hreads, by simp, by simp⟩, ?_⟩
        · rw [turn, if_neg hlen, if_pos hall, bind_of_some ht]
          cases errorCode <;> cases message <;> first | rfl | simp at hok
        · intro turns
          rw [hloop, if_neg hlen, if_pos hall, bind_of_some hp, if_neg Bool.false_ne_true]
          cases errorCode <;> cases message <;> first | rfl | simp at hok
    · refine ⟨⟨[], [], [], b, false⟩, by rw [turn, if_neg hlen, if_neg hall], ?_, ?_⟩
      · exact ⟨by simp, by simp, by simp, by simp⟩
      · intro turns
        rw [hloop, if_neg hlen, if_neg hall, if_neg Bool.false_ne_true]

/-- The turns of the loop are determined by the buffer. -/
theorem Loop.unique {b : Buffer} {ts ts' : List (Buffer × Turn pb)} (h : Loop pb b ts)
    (h' : Loop pb b ts') : ts = ts' := by
  induction h generalizing ts' with
  | done hb =>
    cases h' with
    | done _ => rfl
    | leave hb' _ _ => omega
    | again hb' _ _ _ => omega
  | leave hb ht ha =>
    cases h' with
    | done hb' => omega
    | leave _ ht' _ => rw [Option.some.inj (ht.symm.trans ht')]
    | again _ ht' ha' _ =>
      obtain rfl := Option.some.inj (ht.symm.trans ht')
      rw [ha] at ha'
      cases ha'
  | again hb ht ha _ ih =>
    cases h' with
    | done hb' => omega
    | leave _ ht' ha' =>
      obtain rfl := Option.some.inj (ht.symm.trans ht')
      rw [ha] at ha'
      cases ha'
    | again _ ht' _ hts' =>
      obtain rfl := Option.some.inj (ht.symm.trans ht')
      rw [ih hts']

/-- The loop ends, since a turn that stays in it makes the content shorter. -/
theorem loop_ends (turns : Nat) (b : Buffer) (h : b.readableBytes < turns) :
    ∃ ts, Loop pb b ts ∧ (∀ p ∈ ts, TurnOk pb p.1 p.2) ∧
      onMessageLoop pb none turns b = some (outcome pb b ts) := by
  induction turns generalizing b with
  | zero => omega
  | succ turns ih =>
    by_cases hb : kMinMessageLen + kHeaderLen ≤ b.readableBytes
    · obtain ⟨t, ht, hok, hloop⟩ := turn_spec pb hb
      by_cases ha : t.again = true
      · have hh : kHeaderLen = 4 := rfl
        have hless := hok.consumes ha
        obtain ⟨ts, hts, hall, hrun⟩ := ih t.buf (by omega)
        refine ⟨(b, t) :: ts, .again hb ht ha hts, ?_, ?_⟩
        · intro p hp
          rcases List.mem_cons.mp hp with rfl | hp
          · exact hok
          · exact hall p hp
        · rw [hloop, if_pos ha, hrun]
          rfl
      · refine ⟨[(b, t)], .leave hb ht (by simpa using ha), ?_, ?_⟩
        · intro p hp
          rw [List.mem_singleton.mp hp]
          exact hok
        · rw [hloop, if_neg ha]
          simp only [outcome, List.append_nil]
    · refine ⟨[], .done (by omega), by simp, ?_⟩
      rw [onMessageLoop, if_pos (by omega)]
      rfl

/-- **The plain receive path is total and in bounds on every input.** Whatever the buffer holds, the
    loop of `onMessage` comes to an end, in one way; every call `parse(buf, len)` on the way has a
    length between `kMinMessageLen` and `kMaxMessageLen` that is all in the buffer and reads only
    offsets `0` to `len - 1`; every `retrieve` has its precondition; a turn that stays in the loop
    consumes at least `kHeaderLen + kMinMessageLen` bytes. The callbacks of the turns are those of
    `onMessage`. -/
theorem receive_in_bounds (b : Buffer) :
    ∃ ts, Loop pb b ts ∧ (∀ ts', Loop pb b ts' → ts' = ts) ∧ (∀ p ∈ ts, TurnOk pb p.1 p.2) ∧
      onMessage pb none b = some (outcome pb b ts) := by
  obtain ⟨ts, hts, hall, hrun⟩ := loop_ends pb (b.readableBytes + 1) b (by omega)
  exact ⟨ts, hts, fun ts' h' => h'.unique pb hts, hall, hrun⟩

end Mmvx.Net

/-
  `muduo::LogStream` (muduo/base/LogStream.{h,cc}): a fixed buffer of 4000 bytes and the insertions
  into it.

  An integer is written in place: `convert` puts its digits into the buffer from the back, one for
  each turn of its loop, then a sign and a terminator, and reverses them. The loop divides the
  value itself, so for a negative value the remainders are negative and index the first half of
  `digits`. Whatever the value is, all indices are inside the table and the text is its canonical
  numeral (`convert_exact`).

  The bytes behind `cur_` are never read, so a buffer is its bytes up to `cur_`; a write that would
  leave the buffer fails.
-/
import Mmvx.Lib.Numeral

namespace Mmvx.Base

open Mmvx.Lib

def kSmallBuffer : Nat := 4000

def kMaxNumericSize : Nat := 32

/-! ## The integer types -/

/-- The integer types of the `operator<<` of `LogStream`, on a machine with a `long` of 64 bits. -/
inductive IntegerType where
  | short
  | unsignedShort
  | int
  | unsignedInt
  | long
  | unsignedLong
  | longLong
  | unsignedLongLong
  deriving DecidableEq, Repr

/-- The least and the greatest value of a type. -/
def IntegerType.limits : IntegerType → Int × Int
  | .short => (-2 ^ 15, 2 ^ 15 - 1)
  | .unsignedShort => (0, 2 ^ 16 - 1)
  | .int => (-2 ^ 31, 2 ^ 31 - 1)
  | .unsignedInt => (0, 2 ^ 32 - 1)
  | .long | .longLong => (-2 ^ 63, 2 ^ 63 - 1)
  | .unsignedLong | .unsignedLongLong => (0, 2 ^ 64 - 1)

structure Integer where
  type : IntegerType
  value : Int
  min_le : type.limits.1 ≤ value
  le_max : value ≤ type.limits.2
  deriving DecidableEq, Repr

theorem Integer.natAbs_lt (x : Integer) : x.value.natAbs < 10 ^ 20 := by
  obtain ⟨type, value, hmin, hmax⟩ := x
  cases type <;> simp only [IntegerType.limits] at hmin hmax ⊢ <;> omega

/-! ## convert and convertHex -/

/-- `const char digits[] = "9876543210123456789"`. -/
def digits : List UInt8 :=
  [57, 56, 55, 54, 53, 52, 51, 50, 49, 48, 49, 50, 51, 52, 53, 54, 55, 56, 57]

/-- `zero[lsd]`, where `zero` is `digits + 9`; `none` outside of the table. -/
def zeroAt (lsd : Int) : Option UInt8 := if 0 ≤ 9 + lsd then digits[(9 + lsd).toNat]? else none

/-- `const char digitsHex[] = "0123456789ABCDEF"`. -/
def digitsHex : List UInt8 :=
  [48, 49, 50, 51, 52, 53, 54, 55, 56, 57, 65, 66, 67, 68, 69, 70]

/-- The loop of `convert`. Division and remainder of C++ round towards zero. -/
def convertLoop (i : Int) : Option (List UInt8) :=
  let lsd := i.tmod 10
  let i' := i.tdiv 10
  (zeroAt lsd).bind fun c => if i' ≠ 0 then (convertLoop i').map (c :: ·) else some [c]
termination_by i.natAbs
decreasing_by
  rename_i h
  have hne : i.tdiv 10 ≠ 0 := h
  rw [Int.natAbs_tdiv]
  have : i.natAbs ≠ 0 := by
    intro h0
    exact hne (by rw [Int.natAbs_eq_zero.mp h0]; rfl)
  exact Nat.div_lt_self (by omega) (by decide)

/-- The bytes that `convert` leaves at `buf`, with the terminator, and what it returns. -/
def convert (value : Int) : Option (List UInt8 × Nat) :=
  (convertLoop value).map fun ds =>
    let ds := if value < 0 then ds ++ [45] else ds
    (ds.reverse ++ [0], ds.length)

/-- The loop of `convertHex`. -/
def convertHexLoop (i : Nat) : Option (List UInt8) :=
  let lsd := i % 16
  let i' := i / 16
  (digitsHex[lsd]?).bind fun c => if i' ≠ 0 then (convertHexLoop i').map (c :: ·) else some [c]
termination_by i
decreasing_by
  rename_i h
  have hne : i / 16 ≠ 0 := h
  omega

def convertHex (value : UInt64) : Option (List UInt8 × Nat) :=
  (convertHexLoop value.toNat).map fun ds => (ds.reverse ++ [0], ds.length)

/-! ## The text of an integer -/

/-- The table is its own mirror image around `zero`. -/
theorem zeroAt_mirror : ∀ k < 10,
    zeroAt (k : Nat) = some (symbol k) ∧ zeroAt (-(k : Nat)) = some (symbol k) := by
  decide

theorem zeroAt_tmod (i : Int) : zeroAt (i.tmod 10) = some (symbol (i.natAbs % 10)) := by
  have habs : (i.tmod 10).natAbs = i.natAbs % 10 := Int.natAbs_tmod i 10
  have hlt : i.natAbs % 10 < 10 := Nat.mod_lt _ (by decide)
  obtain ⟨hpos, hneg⟩ := zeroAt_mirror (i.natAbs % 10) hlt
  rcases Int.natAbs_eq (i.tmod 10) with h | h
  · rw [h, habs]
    exact hpos
  · rw [h, habs]
    exact hneg

/-- The loop finds the digits of the absolute value. -/
theorem convertLoop_eq (i : Int) : convertLoop i = some ((digitsOf 10 i.natAbs).map symbol) := by
  induction i using convertLoop.induct with
  | case1 i _ ih =>
    have hdiv : (i.tdiv 10).natAbs = i.natAbs / 10 := Int.natAbs_tdiv i 10
    rw [convertLoop, zeroAt_tmod, Option.bind_some, digitsOf_eq (by decide), List.map_cons]
    by_cases hz : i.tdiv 10 = 0
    · have hn : i.natAbs / 10 = 0 := by rw [← hdiv, hz]; rfl
      rw [if_neg (by simpa using hz), if_pos hn, List.map_nil]
    · have hn : i.natAbs / 10 ≠ 0 := by
        rw [← hdiv]
        exact Int.natAbs_ne_zero.mpr hz
      rw [if_pos hz, ih hz, if_neg hn, hdiv, Option.map_some]

theorem digitsHex_getElem? : ∀ d < 16, digitsHex[d]? = some (symbol d) := by decide

theorem convertHexLoop_eq (i : Nat) : convertHexLoop i = some ((digitsOf 16 i).map symbol) := by
  induction i using convertHexLoop.induct with
  | case1 i _ ih =>
    have hlt : i % 16 < 16 := Nat.mod_lt _ (by decide)
    rw [convertHexLoop, digitsHex_getElem? _ hlt, Option.bind_some, digitsOf_eq (by decide),
      List.map_cons]
    by_cases hz : i / 16 = 0
    · rw [if_neg (by simpa using hz), if_pos hz, List.map_nil]
    · rw [if_pos hz, ih hz, if_neg hz, Option.map_some]

/-- The numeral of an integer. -/
def decimal (value : Int) : List UInt8 :=
  (if value < 0 then [45] else []) ++ numeral 10 value.natAbs

theorem convert_eq (value : Int) :
    convert value = some (decimal value ++ [0], (decimal value).length) := by
  rw [convert, convertLoop_eq, Option.map_some, decimal, numeral]
  by_cases h : value < 0
  · simp [h]
  · simp [h]

theorem convertHex_eq (value : UInt64) :
    convertHex value = some (numeral 16 value.toNat ++ [0], (numeral 16 value.toNat).length) := by
  rw [convertHex, convertHexLoop_eq, Option.map_some, numeral, List.length_reverse]

theorem length_decimal_le (x : Integer) : (decimal x.value).length ≤ 21 := by
  have h : (numeral 10 x.value.natAbs).length ≤ 20 :=
    length_numeral_le (by decide) (by decide) x.natAbs_lt
  unfold decimal
  rw [List.length_append]
  split
  · rw [List.length_singleton]
    omega
  · rw [List.length_nil]
    omega

theorem length_hex_le (p : UInt64) : (numeral 16 p.toNat).length ≤ 16 :=
  length_numeral_le (by decide) (by decide) (by simpa using p.toNat_lt)

/-! ## Canonical numerals -/

/-- The integer that a text is read as: a numeral, or `-` and a numeral. -/
def readDecimal : List UInt8 → Option Int
  | 45 :: text => (readNumeral 10 text).map fun n : Nat => -(n : Int)
  | text => (readNumeral 10 text).map fun n : Nat => (n : Int)

/-- The text is the value's canonical numeral: it reads back as the value, has a sign if the value is
    negative only, and a leading zero if it is `0` only. -/
structure CanonicalDecimal (text : List UInt8) (value : Int) : Prop where
  reads : readDecimal text = some value
  sign : text.head? = some 45 ↔ value < 0
  leading : ∀ rest, text = 48 :: rest ∨ text = 45 :: 48 :: rest → text = [48]

structure CanonicalHex (text : List UInt8) (value : UInt64) : Prop where
  reads : readNumeral 16 text = some value.toNat
  leading : ∀ rest, text = 48 :: rest → text = [48]

theorem symbol_ne_minus : ∀ d < 16, symbol d ≠ 45 := by decide

theorem numeral_head_ne_minus {b n : Nat} (hb : 1 < b) (hb' : b ≤ 16) :
    (numeral b n).head? ≠ some 45 := by
  intro h
  obtain ⟨d, hd, hs⟩ := mem_numeral hb (List.mem_of_mem_head? h)
  exact symbol_ne_minus d (by omega) hs.symm

theorem readDecimal_unsigned {text : List UInt8} (h : text.head? ≠ some 45) :
    readDecimal text = (readNumeral 10 text).map fun n : Nat => (n : Int) := by
  unfold readDecimal
  split
  · exact absurd rfl h
  · rfl

theorem canonical_decimal (value : Int) : CanonicalDecimal (decimal value) value := by
  have hread := readNumeral_numeral (b := 10) (by decide) (by decide) value.natAbs
  have hhead := numeral_head_ne_minus (b := 10) (n := value.natAbs) (by decide) (by decide)
  have hzero := numeral_head (b := 10) (n := value.natAbs) (by decide) (by decide)
  by_cases hneg : value < 0
  · have htext : decimal value = 45 :: numeral 10 value.natAbs := by simp [decimal, hneg]
    rw [htext]
    refine ⟨?_, ?_, ?_⟩
    · rw [readDecimal, hread, Option.map_some, Int.ofNat_natAbs_of_nonpos (by omega), Int.neg_neg]
    · simp [hneg]
    · -- a negative value has a digit that is not zero
      rintro rest (h | h)
      · cases h
      · have hcons : numeral 10 value.natAbs = 48 :: rest := (List.cons.inj h).2
        rw [hcons] at hzero hread
        rw [hzero rfl] at hread
        have h0 : readNumeral 10 [48] = some 0 := by decide
        rw [h0] at hread
        have : value.natAbs = 0 := (Option.some.inj hread).symm
        omega
  · have htext : decimal value = numeral 10 value.natAbs := by simp [decimal, hneg]
    rw [htext]
    refine ⟨?_, ?_, ?_⟩
    · rw [readDecimal_unsigned hhead, hread, Option.map_some, Int.natAbs_of_nonneg (by omega)]
    · exact iff_of_false hhead hneg
    · rintro rest (h | h)
      · exact hzero (by rw [h]; rfl)
      · exact absurd (by rw [h]; rfl) hhead

theorem canonical_hex (value : UInt64) : CanonicalHex (numeral 16 value.toNat) value := by
  refine ⟨readNumeral_numeral (by decide) (by decide) _, ?_⟩
  intro rest h
  exact numeral_head (by decide) (by decide) (by rw [h]; rfl)

/-- **Integer formatting is exact.** For every value of every integer type, `convert` reads its table
    inside its bounds only, writes the canonical numeral and a terminator in at most
    `kMaxNumericSize` bytes, and returns the length of the numeral. So does `convertHex` for every
    pointer, behind the two bytes of `0x`. -/
theorem convert_exact :
    (∀ x : Integer, ∃ text, convert x.value = some (text ++ [0], text.length) ∧
      CanonicalDecimal text x.value ∧ (text ++ [0]).length ≤ kMaxNumericSize) ∧
    ∀ p : UInt64, ∃ text, convertHex p = some (text ++ [0], text.length) ∧
      CanonicalHex text p ∧ 2 + (text ++ [0]).length ≤ kMaxNumericSize := by
  refine ⟨?_, ?_⟩
  · intro x
    have hlen := length_decimal_le x
    refine ⟨decimal x.value, convert_eq x.value, canonical_decimal x.value, ?_⟩
    rw [List.length_append, List.length_singleton, kMaxNumericSize]
    omega
  · intro p
    have hlen := length_hex_le p
    refine ⟨numeral 16 p.toNat, convertHex_eq p, canonical_hex p, ?_⟩
    rw [List.length_append, List.length_singleton, kMaxNumericSize]
    omega

/-! ## FixedBuffer -/

/-- `FixedBuffer<SIZE>`: the bytes up to `cur_`. -/
structure FixedBuffer (SIZE : Nat) where
  bytes : List UInt8
  deriving DecidableEq, Repr

namespace FixedBuffer

variable {SIZE : Nat}

def length (buf : FixedBuffer SIZE) : Nat := buf.bytes.length

def avail (buf : FixedBuffer SIZE) : Int := SIZE - buf.length

/-- Write `written` at `cur_` and move `cur_` behind the first `len` bytes of it; `none` where the
    write leaves `data_`. -/
def write (buf : FixedBuffer SIZE) (written : List UInt8) (len : Nat) :
    Option (FixedBuffer SIZE) :=
  if buf.length + written.length ≤ SIZE then some ⟨buf.bytes ++ written.take len⟩ else none

/-- A piece that does not fit is dropped. The room is converted to `size_t` for the comparison. -/
def append (buf : FixedBuffer SIZE) (data : List UInt8) : Option (FixedBuffer SIZE) :=
  if (buf.avail % 2 ^ 64).toNat > data.length then buf.write data data.length else some buf

end FixedBuffer

/-! ## LogStream -/

structure LogStream where
  buffer_ : FixedBuffer kSmallBuffer
  deriving DecidableEq, Repr

/-- What is inserted by one `operator<<`. -/
inductive Insertion where
  | bool (v : Bool)
  | char (v : UInt8)
  /-- `const char*`, which may be `NULL`. -/
  | cstr (str : Option (List UInt8))
  /-- `string`, `StringPiece`, `T`, `Fmt` and `SourceFile`, which come with their length. -/
  | string (v : List UInt8)
  | integer (v : Integer)
  /-- `const void*`. -/
  | pointer (p : UInt64)
  deriving DecidableEq, Repr

namespace LogStream

def append (s : LogStream) (data : List UInt8) : Option LogStream :=
  (s.buffer_.append data).map LogStream.mk

/-- `formatInteger`. A `short` is converted to an `int` first, which keeps its value. -/
def formatInteger (s : LogStream) (v : Integer) : Option LogStream :=
  if s.buffer_.avail ≥ kMaxNumericSize then
    (convert v.value).bind fun r => (s.buffer_.write r.1 r.2).map LogStream.mk
  else some s

def insertPointer (s : LogStream) (p : UInt64) : Option LogStream :=
  if s.buffer_.avail ≥ kMaxNumericSize then
    (convertHex p).bind fun r =>
      (s.buffer_.write ([48, 120] ++ r.1) (r.2 + 2)).map LogStream.mk
  else some s

/-- `operator<<`. -/
def insert (s : LogStream) : Insertion → Option LogStream
  | .bool v => s.append [if v then 49 else 48]
  | .char v => s.append [v]
  | .cstr (some str) => s.append str
  -- "(null)"
  | .cstr none => s.append [40, 110, 117, 108, 108, 41]
  | .string v => s.append v
  | .integer v => s.formatInteger v
  | .pointer p => s.insertPointer p

def insertAll (s : LogStream) (xs : List Insertion) : Option LogStream := xs.foldlM insert s

/-- The bytes that an insertion adds where there is room, and the room that it asks for. -/
def text : Insertion → List UInt8 × Nat
  | .bool v => ([if v then 49 else 48], 2)
  | .char v => ([v], 2)
  | .cstr (some str) => (str, str.length + 1)
  | .cstr none => ([40, 110, 117, 108, 108, 41], 7)
  | .string v => (v, v.length + 1)
  | .integer v => (decimal v.value, kMaxNumericSize)
  | .pointer p => ([48, 120] ++ numeral 16 p.toNat, kMaxNumericSize)

/-- An insertion asks for more room than it takes. -/
theorem length_text_lt (x : Insertion) : (text x).1.length < (text x).2 := by
  match x with
  | .bool v => exact Nat.lt_succ_self _
  | .char v => exact Nat.lt_succ_self _
  | .cstr (some str) => exact Nat.lt_succ_self _
  | .cstr none => decide
  | .string v => exact Nat.lt_succ_self _
  | .integer v =>
    have h := length_decimal_le v
    simp only [text, kMaxNumericSize]
    omega
  | .pointer p =>
    have h := length_hex_le p
    simp only [text, kMaxNumericSize, List.length_append, List.length_cons, List.length_nil]
    omega

/-- The room of a stream. -/
def room (s : LogStream) : Nat := kSmallBuffer - s.buffer_.length

/-- The stream with some more bytes. -/
def put (s : LogStream) (data : List UInt8) : LogStream := ⟨⟨s.buffer_.bytes ++ data⟩⟩

theorem append_eq {s : LogStream} (hs : s.buffer_.length < kSmallBuffer) (data : List UInt8) :
    s.append data = some (if data.length + 1 ≤ s.room then s.put data else s) := by
  have havail : (s.buffer_.avail % 2 ^ 64).toNat = s.room := by
    unfold FixedBuffer.avail room
    unfold kSmallBuffer at hs ⊢
    omega
  unfold append FixedBuffer.append
  rw [havail]
  by_cases h : data.length < s.room
  · have hfit : s.buffer_.length + data.length ≤ kSmallBuffer := by
      unfold room at h
      omega
    rw [if_pos h, if_pos (Nat.succ_le_of_lt h), FixedBuffer.write, if_pos hfit, List.take_length]
    rfl
  · rw [if_neg h, if_neg (fun h' => h (Nat.lt_of_succ_le h'))]
    rfl

theorem avail_ge_iff {s : LogStream} (hs : s.buffer_.length < kSmallBuffer) :
    s.buffer_.avail ≥ kMaxNumericSize ↔ kMaxNumericSize ≤ s.room := by
  unfold FixedBuffer.avail room
  unfold kSmallBuffer at hs ⊢
  omega

/-- A text of fewer bytes than are asked for, and its terminator, are written inside the buffer. -/
theorem write_text {s : LogStream} {data : List UInt8} (hroom : kMaxNumericSize ≤ s.room)
    (hlen : data.length < kMaxNumericSize) :
    (s.buffer_.write (data ++ [0]) data.length).map LogStream.mk = some (s.put data) := by
  have hfit : s.buffer_.length + (data ++ [0]).length ≤ kSmallBuffer := by
    rw [List.length_append, List.length_singleton]
    unfold room at hroom
    omega
  rw [FixedBuffer.write, if_pos hfit, List.take_left]
  rfl

theorem formatInteger_eq {s : LogStream} (hs : s.buffer_.length < kSmallBuffer) (v : Integer) :
    s.formatInteger v = some (if kMaxNumericSize ≤ s.room then s.put (decimal v.value) else s) := by
  rw [formatInteger]
  by_cases h : kMaxNumericSize ≤ s.room
  · rw [if_pos ((avail_ge_iff hs).mpr h), if_pos h, convert_eq, Option.bind_some]
    exact write_text h (length_text_lt (.integer v))
  · rw [if_neg (fun h' => h ((avail_ge_iff hs).mp h')), if_neg h]

theorem insertPointer_eq {s : LogStream} (hs : s.buffer_.length < kSmallBuffer) (p : UInt64) :
    s.insertPointer p =
      some (if kMaxNumericSize ≤ s.room then s.put ([48, 120] ++ numeral 16 p.toNat) else s) := by
  have hlen : (numeral 16 p.toNat).length + 2 = ([48, 120] ++ numeral 16 p.toNat).length := by
    simp
  rw [insertPointer]
  by_cases h : kMaxNumericSize ≤ s.room
  · rw [if_pos ((avail_ge_iff hs).mpr h), if_pos h, convertHex_eq, Option.bind_some, hlen,
      ← List.append_assoc]
    exact write_text h (length_text_lt (.pointer p))
  · rw [if_neg (fun h' => h ((avail_ge_iff hs).mp h')), if_neg h]

/-- The stream after an insertion. -/
def after (s : LogStream) (x : Insertion) : LogStream :=
  if (text x).2 ≤ s.room then s.put (text x).1 else s

/-- **What an insertion does.** It never leaves the buffer, and adds its whole text or nothing. -/
theorem insert_eq {s : LogStream} (hs : s.buffer_.length < kSmallBuffer) (x : Insertion) :
    s.insert x = some (s.after x) := by
  match x with
  | .bool v => exact append_eq hs _
  | .char v => exact append_eq hs _
  | .cstr (some str) => exact append_eq hs _
  | .cstr none => exact append_eq hs _
  | .string v => exact append_eq hs _
  | .integer v => exact formatInteger_eq hs v
  | .pointer p => exact insertPointer_eq hs p

theorem after_put {s : LogStream} {x : Insertion} (h : (text x).2 ≤ s.room) :
    s.after x = s.put (text x).1 := if_pos h

theorem after_drop {s : LogStream} {x : Insertion} (h : ¬ (text x).2 ≤ s.room) : s.after x = s :=
  if_neg h

theorem room_put (s : LogStream) (data : List UInt8) : (s.put data).room = s.room - data.length := by
  unfold room put FixedBuffer.length
  rw [List.length_append]
  omega

theorem getLast?_put (s : LogStream) {data : List UInt8} {c : UInt8} (h : data.getLast? = some c) :
    (s.put data).buffer_.bytes.getLast? = some c := by
  simp [put, List.getLast?_append, h]

theorem room_pos_after {s : LogStream} (h : 0 < s.room) (x : Insertion) : 0 < (s.after x).room := by
  have hlen := length_text_lt x
  unfold after
  split
  · rw [room_put]
    omega
  · exact h

theorem length_lt_of_room {s : LogStream} (h : 0 < s.room) : s.buffer_.length < kSmallBuffer := by
  unfold room at h
  omega

theorem insertAll_eq {s : LogStream} (h : 0 < s.room) (xs : List Insertion) :
    s.insertAll xs = some (xs.foldl after s) ∧ 0 < (xs.foldl after s).room := by
  induction xs generalizing s with
  | nil => exact ⟨rfl, h⟩
  | cons x xs ih =>
    obtain ⟨hrun, hpos⟩ := ih (room_pos_after h x)
    refine ⟨?_, hpos⟩
    rw [insertAll, List.foldlM_cons, insert_eq (length_lt_of_room h), Option.bind_eq_bind,
      Option.bind_some]
    exact hrun

end LogStream

end Mmvx.Base

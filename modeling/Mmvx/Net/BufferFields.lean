/-
  The typed fields of `Buffer`: `appendIntN`, `peekIntN`, `readIntN` and `prependIntN`.

  An integer is stored in network order whatever the order of the host is, so a field is its
  big-endian bytes (`intBytes`), and reading them gives back every value of the field's type
  (`readInt_intBytes`). `fields_round_trip` puts this together for lists of fields of any widths:
  what was appended is read behind any content that is retrieved first, and what was prepended in
  reverse order is read before any content.
-/
import Mmvx.Net.Buffer

namespace Mmvx.Net

open Mmvx.Lib

inductive IntWidth where
  | int8
  | int16
  | int32
  | int64
  deriving DecidableEq, Repr

/-- `sizeof`. -/
def IntWidth.size : IntWidth → Nat
  | .int8 => 1
  | .int16 => 2
  | .int32 => 4
  | .int64 => 8

/-- A value of the signed type of a width. -/
structure IntField where
  width : IntWidth
  value : Int
  min_le : -2 ^ (8 * width.size - 1) ≤ value
  lt_max : value < 2 ^ (8 * width.size - 1)

/-- The word that represents `x` in a width, of which all but the low bits are cut off. -/
def word (w : IntWidth) (x : Int) : Nat := (x % 2 ^ (8 * w.size)).toNat

/-- The bytes of a field in network order. -/
def intBytes (w : IntWidth) (x : Int) : List UInt8 := beBytes w.size (word w x)

@[simp] theorem length_intBytes (w : IntWidth) (x : Int) : (intBytes w x).length = w.size :=
  length_beBytes _ _

namespace Buffer

section

variable (o : ByteOrder)

/-! ## Appending -/

/-- `int64_t be64 = sockets::hostToNetwork64(x); append(&be64, sizeof be64);` and the others. -/
def appendInt (w : IntWidth) (b : Buffer) (x : Int) : Buffer :=
  b.append (memory o w.size (htobe o w.size (word w x)))

def appendInt64 : Buffer → Int → Buffer := appendInt o .int64

def appendInt16 : Buffer → Int → Buffer := appendInt o .int16

/-- A byte has no order: `append(&x, sizeof x)`. -/
def appendInt8 (b : Buffer) (x : Int) : Buffer := b.append [UInt8.ofNat (word .int8 x)]

/-! ## Prepending -/

def prependInt (w : IntWidth) (b : Buffer) (x : Int) : Option Buffer :=
  b.prepend (memory o w.size (htobe o w.size (word w x)))

def prependInt64 : Buffer → Int → Option Buffer := prependInt o .int64

def prependInt32 : Buffer → Int → Option Buffer := prependInt o .int32

def prependInt16 : Buffer → Int → Option Buffer := prependInt o .int16

def prependInt8 (b : Buffer) (x : Int) : Option Buffer := b.prepend [UInt8.ofNat (word .int8 x)]

/-! ## Reading -/

/-- `peekInt64` and the others; `none` where their assertion fails. -/
def peekInt (w : IntWidth) (b : Buffer) : Option Int :=
  if w.size ≤ b.readableBytes then
    some (toSigned (8 * w.size) (htobe o w.size (ofMemory o (b.readable.take w.size))))
  else none

def peekInt64 : Buffer → Option Int := peekInt o .int64

def peekInt16 : Buffer → Option Int := peekInt o .int16

/-- `int8_t x = *peek();`. -/
def peekInt8 (b : Buffer) : Option Int :=
  if IntWidth.int8.size ≤ b.readableBytes then b.readable.head?.map fun y => toSigned 8 y.toNat
  else none

/-- `result = peekIntN(); retrieveIntN(); return result;`. -/
def readInt (w : IntWidth) (peek : Buffer → Option Int) (b : Buffer) : Option (Int × Buffer) :=
  (peek b).map fun result => (result, b.retrieve w.size)

def readInt64 : Buffer → Option (Int × Buffer) := readInt .int64 (peekInt64 o)

def readInt32 : Buffer → Option (Int × Buffer) := readInt .int32 (peekInt o .int32)

def readInt16 : Buffer → Option (Int × Buffer) := readInt .int16 (peekInt16 o)

def readInt8 : Buffer → Option (Int × Buffer) := readInt .int8 peekInt8

/-! ## Lists of fields -/

def appendField (b : Buffer) (f : IntField) : Buffer :=
  match f.width with
  | .int8 => b.appendInt8 f.value
  | .int16 => b.appendInt16 o f.value
  | .int32 => b.appendInt32 f.value
  | .int64 => b.appendInt64 o f.value

def prependField (b : Buffer) (f : IntField) : Option Buffer :=
  match f.width with
  | .int8 => b.prependInt8 f.value
  | .int16 => b.prependInt16 o f.value
  | .int32 => b.prependInt32 o f.value
  | .int64 => b.prependInt64 o f.value

def readField (b : Buffer) : IntWidth → Option (Int × Buffer)
  | .int8 => b.readInt8
  | .int16 => b.readInt16 o
  | .int32 => b.readInt32 o
  | .int64 => b.readInt64 o

def appendFields (b : Buffer) (fs : List IntField) : Buffer := fs.foldl (appendField o) b

def prependFields (b : Buffer) (fs : List IntField) : Option Buffer := fs.foldlM (prependField o) b

def readFields (b : Buffer) : List IntWidth → Option (List Int × Buffer)
  | [] => some ([], b)
  | w :: ws => do
    let (x, b) ← b.readField o w
    let (xs, b) ← b.readFields ws
    some (x :: xs, b)

end

/-! ## What a field is in the content -/

variable {o : ByteOrder}

theorem beBytes_one (n : Nat) : beBytes 1 n = [UInt8.ofNat n] := rfl

theorem appendField_eq (b : Buffer) (f : IntField) :
    b.appendField o f = b.append (intBytes f.width f.value) := by
  unfold appendField
  split
  · rename_i hw
    rw [hw, appendInt8, intBytes, ← beBytes_one]
    rfl
  · rename_i hw
    rw [hw, appendInt16, appendInt, memory_htobe, intBytes]
  · rename_i hw
    rw [hw]
    rfl
  · rename_i hw
    rw [hw, appendInt64, appendInt, memory_htobe, intBytes]

theorem prependField_eq (b : Buffer) (f : IntField) :
    b.prependField o f = b.prepend (intBytes f.width f.value) := by
  unfold prependField
  split
  · rename_i hw
    rw [hw, prependInt8, intBytes, ← beBytes_one]
    rfl
  · rename_i hw
    rw [hw, prependInt16, prependInt, memory_htobe, intBytes]
  · rename_i hw
    rw [hw, prependInt32, prependInt, memory_htobe, intBytes]
  · rename_i hw
    rw [hw, prependInt64, prependInt, memory_htobe, intBytes]

theorem toSigned_word (f : IntField) :
    toSigned (8 * f.width.size) (word f.width f.value) = f.value := by
  obtain ⟨w, x, hmin, hmax⟩ := f
  rw [word, toSigned_emod]
  apply Int.bmod_eq_of_le_mul_two
  · cases w <;> simp only [IntWidth.size] at hmin hmax ⊢ <;> omega
  · cases w <;> simp only [IntWidth.size] at hmin hmax ⊢ <;> omega

theorem word_lt (w : IntWidth) (x : Int) : word w x < 256 ^ w.size := by
  cases w <;> simp only [word, IntWidth.size] <;> omega

/-- Reading the bytes of a field gives its value. -/
theorem toSigned_intBytes (f : IntField) :
    toSigned (8 * f.width.size) (beNat (intBytes f.width f.value)) = f.value := by
  rw [intBytes, beNat_beBytes, Nat.mod_eq_of_lt (word_lt _ _), toSigned_word]

theorem peekInt_intBytes {b : Buffer} {f : IntField} {rest : List UInt8}
    (h : b.readable = intBytes f.width f.value ++ rest) :
    b.peekInt o f.width = some f.value := by
  have hlen : f.width.size ≤ b.readableBytes := by
    rw [← length_readable, h, List.length_append, length_intBytes]
    omega
  have htake : b.readable.take f.width.size = intBytes f.width f.value := by
    rw [h, List.take_left' (length_intBytes _ _)]
  have hread := betoh_ofMemory o (intBytes f.width f.value)
  rw [length_intBytes] at hread
  rw [peekInt, if_pos hlen, htake, hread, toSigned_intBytes]

/-- A byte is read as the one-byte word it is. -/
theorem peekInt8_eq (b : Buffer) : b.peekInt8 = b.peekInt o .int8 := by
  unfold peekInt8 peekInt
  split
  · rename_i hlen
    rw [← length_readable] at hlen
    cases hb : b.readable with
    | nil =>
      rw [hb] at hlen
      cases hlen
    | cons y ys =>
      have hread := betoh_ofMemory o [y]
      rw [List.head?_cons, Option.map_some]
      have htake : (y :: ys).take IntWidth.int8.size = [y] := rfl
      have hone : beNat [y] = y.toNat := by simp [beNat]
      rw [htake, show IntWidth.int8.size = [y].length from rfl, hread, hone]
      rfl
  · rfl

theorem readField_eq (b : Buffer) (w : IntWidth) :
    b.readField o w = (b.peekInt o w).map fun result => (result, b.retrieve w.size) := by
  cases w with
  | int8 => rw [← peekInt8_eq]; rfl
  | int16 => rfl
  | int32 => rfl
  | int64 => rfl

/-- A field at the front of the content is read and retrieved. -/
theorem readField_intBytes {b : Buffer} {f : IntField} {rest : List UInt8}
    (h : b.readable = intBytes f.width f.value ++ rest) :
    ∃ c, b.readField o f.width = some (f.value, c) ∧ c.readable = rest := by
  refine ⟨b.retrieve f.width.size, ?_, ?_⟩
  · rw [readField_eq, peekInt_intBytes h, Option.map_some]
  · rw [readable_retrieve, h, List.drop_left' (length_intBytes _ _)]

/-! ## Lists of fields -/

/-- The bytes of a list of fields. -/
def fieldBytes (fs : List IntField) : List UInt8 := fs.flatMap fun f => intBytes f.width f.value

theorem readable_appendFields (b : Buffer) (fs : List IntField) :
    (b.appendFields o fs).readable = b.readable ++ fieldBytes fs := by
  induction fs generalizing b with
  | nil => exact (List.append_nil _).symm
  | cons f fs ih =>
    have hrest : b.appendFields o (f :: fs) = (b.appendField o f).appendFields o fs := rfl
    rw [hrest, ih, appendField_eq, readable_append, fieldBytes, fieldBytes, List.flatMap_cons,
      List.append_assoc]

theorem readFields_fieldBytes {b : Buffer} {fs : List IntField} {rest : List UInt8}
    (h : b.readable = fieldBytes fs ++ rest) :
    ∃ c, b.readFields o (fs.map IntField.width) = some (fs.map IntField.value, c) ∧
      c.readable = rest := by
  induction fs generalizing b with
  | nil => exact ⟨b, rfl, h⟩
  | cons f fs ih =>
    rw [fieldBytes, List.flatMap_cons, List.append_assoc] at h
    obtain ⟨b₁, hread, hb₁⟩ := readField_intBytes (o := o) h
    obtain ⟨c, hreads, hc⟩ := ih hb₁
    refine ⟨c, ?_, hc⟩
    rw [List.map_cons, readFields, hread, Option.bind_eq_bind, Option.bind_some]
    simp only [hreads, Option.bind_eq_bind, Option.bind_some, List.map_cons]

theorem prependableBytes_prepend {b c : Buffer} {data : List UInt8} (h : b.prepend data = some c) :
    c.prependableBytes = b.prependableBytes - data.length := by
  unfold prepend at h
  split at h
  · rw [← Option.some.inj h]
    rfl
  · cases h

/-- Fields that fit into the prependable bytes, prepended one before the other. -/
theorem readable_prependFields {b : Buffer} {fs : List IntField}
    (h : (fieldBytes fs).length ≤ b.prependableBytes) :
    ∃ c, b.prependFields o fs.reverse = some c ∧ c.readable = fieldBytes fs ++ b.readable ∧
      c.prependableBytes = b.prependableBytes - (fieldBytes fs).length := by
  induction fs with
  | nil => exact ⟨b, rfl, rfl, rfl⟩
  | cons f fs ih =>
    rw [fieldBytes, List.flatMap_cons, List.length_append] at h
    change _ + (fieldBytes fs).length ≤ _ at h
    obtain ⟨b₁, hb₁, hread₁, hroom₁⟩ := ih (by omega)
    have hfit : (intBytes f.width f.value).length ≤ b₁.prependableBytes := by omega
    obtain ⟨c, hc, hread⟩ := readable_prepend b₁ hfit
    have hlast : b₁.prependField o f = some c := by rw [prependField_eq, hc]
    refine ⟨c, ?_, ?_, ?_⟩
    · unfold prependFields at hb₁ ⊢
      rw [List.reverse_cons, List.foldlM_append, hb₁]
      simp only [Option.bind_eq_bind, Option.bind_some, List.foldlM_cons, List.foldlM_nil, hlast]
      rfl
    · rw [hread, hread₁, fieldBytes, fieldBytes, List.flatMap_cons, List.append_assoc]
    · rw [prependableBytes_prepend hc, hroom₁, fieldBytes, fieldBytes, List.flatMap_cons,
        List.length_append]
      omega

theorem length_fieldBytes (fs : List IntField) :
    (fieldBytes fs).length = (fs.map fun f => f.width.size).sum := by
  induction fs with
  | nil => rfl
  | cons f fs ih =>
    rw [fieldBytes, List.flatMap_cons, List.length_append, length_intBytes, List.map_cons,
      List.sum_cons, ← ih]
    rfl

end Buffer

open Buffer

/-- **Typed fields round-trip.** Fields of any widths and values, on a host of either byte order.
    Appended in order behind any content they are read in order once that content is retrieved, and
    leave the buffer empty. Prepended in reverse order they are read in order before any content,
    which they leave as it was. -/
theorem fields_round_trip (o : ByteOrder) (b : Buffer) (fs : List IntField) :
    (∃ c, ((b.appendFields o fs).retrieve b.readableBytes).readFields o (fs.map IntField.width) =
        some (fs.map IntField.value, c) ∧ c.readable = []) ∧
    ((fs.map fun f => f.width.size).sum ≤ b.prependableBytes →
      ∃ b' c, b.prependFields o fs.reverse = some b' ∧
        b'.readFields o (fs.map IntField.width) = some (fs.map IntField.value, c) ∧
        c.readable = b.readable) := by
  constructor
  · apply readFields_fieldBytes
    rw [readable_retrieve, readable_appendFields, ← length_readable, List.drop_left,
      List.append_nil]
  · intro hroom
    rw [← length_fieldBytes] at hroom
    obtain ⟨b', hb', hread, -⟩ := readable_prependFields (o := o) hroom
    obtain ⟨c, hreads, hc⟩ := readFields_fieldBytes (o := o) hread
    exact ⟨b', c, hb', hreads, hc⟩

/-- A byte and a word of eight prependable bytes, with the least values of their types. -/
theorem fields_round_trip_limits :
    ∃ b' c, Buffer.empty.prependFields .little
        [⟨.int32, -2147483648, by decide, by decide⟩, ⟨.int8, -128, by decide, by decide⟩] =
          some b' ∧
      b'.readFields .little [.int8, .int32] = some ([-128, -2147483648], c) ∧ c.readable = [] :=
  (fields_round_trip .little Buffer.empty
    [⟨.int8, -128, by decide, by decide⟩, ⟨.int32, -2147483648, by decide, by decide⟩]).2
    (by decide)

end Mmvx.Net

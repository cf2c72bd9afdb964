import SaunaFS.Lib.ByteReader

/-! The serialization framework (`src/common/serialization.h`, `legacy_string.h`,
`legacy_vector.h`, and `put8bit` to `get64bit` of `datapack.h`).

The overloads of `serializedSize`, `serialize` and `deserialize` are chosen by the
C++ type of their argument. Here the types are the codes `Ty`, each family of
overloads is one function by recursion on the code, and a value of a code has the
Lean type `Ty.denote`. An integer is its width and signedness; a signed one is
kept as a signed machine integer and written through its bits, as `put16bit`
takes them. `std::vector`, `small_vector`, `compact_vector` and the `data()` of
`flat_set` and `flat_map` share the code `vector`, and `std::array` and C arrays
the code `array`. A `std::set` or `std::map` is the list of its elements in
iteration order; reading one inserts every element as `insert` does one that
goes last. The bytes left in the buffer are the bytes of the list that remain,
and an `IncorrectDeserializationException` is an error with its message.
-/

set_option autoImplicit false

namespace SaunaFS.Serialization

open ByteReader

def kMaxDeserializedBytesCount : Nat := 32 * 1024 * 1024
def kMaxDeserializedElementsCount : Nat := 1000 * 1000

/-! ## Integers -/

inductive Width where
  | b1
  | b2
  | b4
  | b8
  deriving DecidableEq, Repr

def Width.bytes : Width → Nat
  | .b1 => 1
  | .b2 => 2
  | .b4 => 4
  | .b8 => 8

/-- The C++ integer type of a width and signedness. -/
@[reducible] def Width.word : Width → Bool → Type
  | .b1, false => UInt8
  | .b1, true => Int8
  | .b2, false => UInt16
  | .b2, true => Int16
  | .b4, false => UInt32
  | .b4, true => Int32
  | .b8, false => UInt64
  | .b8, true => Int64

/-- The bits of an integer, as the unsigned number that `putNbit` is given. -/
def Width.toBits : (w : Width) → (signed : Bool) → w.word signed → Nat
  | .b1, false, x => x.toNat
  | .b1, true, x => x.toUInt8.toNat
  | .b2, false, x => x.toNat
  | .b2, true, x => x.toUInt16.toNat
  | .b4, false, x => x.toNat
  | .b4, true, x => x.toUInt32.toNat
  | .b8, false, x => x.toNat
  | .b8, true, x => x.toUInt64.toNat

/-- The integer that takes the value `getNbit` returns. -/
def Width.ofBits : (w : Width) → (signed : Bool) → Nat → w.word signed
  | .b1, false, n => UInt8.ofNat n
  | .b1, true, n => (UInt8.ofNat n).toInt8
  | .b2, false, n => UInt16.ofNat n
  | .b2, true, n => (UInt16.ofNat n).toInt16
  | .b4, false, n => UInt32.ofNat n
  | .b4, true, n => (UInt32.ofNat n).toInt32
  | .b8, false, n => UInt64.ofNat n
  | .b8, true, n => (UInt64.ofNat n).toInt64

@[simp] theorem Width.ofBits_toBits (w : Width) (signed : Bool) (x : w.word signed) :
    w.ofBits signed (w.toBits signed x) = x := by
  cases w <;> cases signed <;> simp [ofBits, toBits]

theorem Width.toBits_lt (w : Width) (signed : Bool) (x : w.word signed) : w.toBits signed x < 256 ^ w.bytes := by
  cases w <;> cases signed
  all_goals first
    | exact UInt8.toNat_lt _
    | exact UInt16.toNat_lt _
    | exact UInt32.toNat_lt _
    | exact UInt64.toNat_lt _

/-- `put8bit` to `put64bit`: the low bytes of a number, most significant first. -/
def Width.put (w : Width) (value : Nat) : List UInt8 := putBE w.bytes value

/-- `verifySize` and `get8bit` to `get64bit`. -/
def Width.get (w : Width) (bytes : List UInt8) : Except String (Nat × List UInt8) :=
  if bytes.length < w.bytes then .error "unexpected end of buffer"
  else .ok (valueBE (bytes.take w.bytes), bytes.drop w.bytes)

theorem Width.get_put (w : Width) (value : Nat) (rest : List UInt8) :
    w.get (w.put value ++ rest) = .ok (value % 256 ^ w.bytes, rest) := by
  simp [get, put, valueBE_putBE]

/-- `serialize` and `deserialize` of a `bool`. -/
def writeBool (value : Bool) : List UInt8 := Width.b1.put (if value then 1 else 0)

def readBool (bytes : List UInt8) : Except String (Bool × List UInt8) := do
  let (value, bytes) ← Width.b1.get bytes
  if value > 1 then throw "corrupted boolean value"
  return (value == 1, bytes)

theorem readBool_writeBool (value : Bool) (rest : List UInt8) :
    readBool (writeBool value ++ rest) = .ok (value, rest) := by
  cases value <;> simp [readBool, writeBool, Width.get_put, Width.bytes, bind, Except.bind, pure, Except.pure]

/-! ## The types -/

/-- The serialized types. `LegacyString<L>` is the width of its length type `L`. -/
inductive Ty where
  | bool
  | word (width : Width) (signed : Bool)
  | string
  | array (elem : Ty) (n : Nat)
  | pair (first second : Ty)
  | uniquePtr (elem : Ty)
  | vector (elem : Ty)
  | set (elem : Ty)
  | map (key value : Ty)
  | legacyString (lengthType : Width)
  | legacyVector (elem : Ty)
  deriving DecidableEq, Repr

namespace Ty

/-- The values of a type; a `unique_ptr` is the object it holds, if any. -/
@[reducible] def denote : Ty → Type
  | .bool => Bool
  | .word width signed => width.word signed
  | .string => List UInt8
  | .array elem n => { xs : List elem.denote // xs.length = n }
  | .pair first second => first.denote × second.denote
  | .uniquePtr elem => Option elem.denote
  | .vector elem => List elem.denote
  | .set elem => List elem.denote
  | .map key value => List (key.denote × value.denote)
  | .legacyString _ => List UInt8
  | .legacyVector elem => List elem.denote

/-- Lists equivalent element by element, as `std::less` of a container sees them. -/
def listEquiv {α : Type} (equiv : α → α → Bool) (xs ys : List α) : Bool :=
  xs.length == ys.length && (xs.zip ys).all fun (x, y) => equiv x y

/-- Whether `std::less` holds neither way between two values. Two `unique_ptr` that
hold objects are compared by address, and a freshly read object has an address
of its own, so they are never equivalent. -/
def equiv : (t : Ty) → t.denote → t.denote → Bool
  | .bool, x, y => x == y
  | .word width signed, x, y => width.toBits signed x == width.toBits signed y
  | .string, x, y => x == y
  | .array elem _, xs, ys => listEquiv elem.equiv xs.1 ys.1
  | .pair first second, x, y => first.equiv x.1 y.1 && second.equiv x.2 y.2
  | .uniquePtr _, x, y => x.isNone && y.isNone
  | .vector elem, xs, ys => listEquiv elem.equiv xs ys
  | .set elem, xs, ys => listEquiv elem.equiv xs ys
  | .map key value, xs, ys => listEquiv (fun x y => key.equiv x.1 y.1 && value.equiv x.2 y.2) xs ys
  | .legacyString _, x, y => x == y
  | .legacyVector elem, xs, ys => listEquiv elem.equiv xs ys

def serializedSize : (t : Ty) → t.denote → UInt32
  | .bool, _ => 1
  | .word width _, _ => UInt32.ofNat width.bytes
  | .string, value => 4 + UInt32.ofNat value.length + 1
  | .array elem _, xs => xs.1.foldl (fun ret x => ret + elem.serializedSize x) 0
  | .pair first second, x => first.serializedSize x.1 + second.serializedSize x.2
  | .uniquePtr elem, x =>
    match x with
    | some value => 1 + elem.serializedSize value
    | none => 1
  | .vector elem, xs => xs.foldl (fun ret x => ret + elem.serializedSize x) 4
  | .set elem, xs => xs.foldl (fun ret x => ret + elem.serializedSize x) 4
  | .map key value, xs => xs.foldl (fun ret x => ret + (key.serializedSize x.1 + value.serializedSize x.2)) 4
  | .legacyString width, value => UInt32.ofNat width.bytes + UInt32.ofNat value.length
  | .legacyVector elem, xs => xs.foldl (fun ret x => ret + elem.serializedSize x) 0

/-- `serialize`; a string is written with its length plus one and a closing zero. -/
def serialize : (t : Ty) → t.denote → List UInt8
  | .bool, value => writeBool value
  | .word width signed, x => width.put (width.toBits signed x)
  | .string, value => Width.b4.put (value.length + 1) ++ value ++ [0]
  | .array elem _, xs => xs.1.flatMap elem.serialize
  | .pair first second, x => first.serialize x.1 ++ second.serialize x.2
  | .uniquePtr elem, x =>
    match x with
    | some value => writeBool true ++ elem.serialize value
    | none => writeBool false
  | .vector elem, xs => Width.b4.put xs.length ++ xs.flatMap elem.serialize
  | .set elem, xs => Width.b4.put xs.length ++ xs.flatMap elem.serialize
  | .map key value, xs => Width.b4.put xs.length ++ xs.flatMap fun x => key.serialize x.1 ++ value.serialize x.2
  | .legacyString width, value => width.put value.length ++ value
  | .legacyVector elem, xs => xs.flatMap elem.serialize

/-- `deserialize`. A string's size counts its closing zero, which is read at
`size - 1` computed in `uint32_t`: for a size of `0` that is the byte `2^32 - 1`
past the string's data, and a read past the bytes left is an error here. A legacy
vector reads elements until the buffer ends, and fails the assertion that each
takes a byte. -/
def deserialize : (t : Ty) → List UInt8 → Except String (t.denote × List UInt8)
  | .bool, bytes => readBool bytes
  | .word width signed, bytes => do
    let (value, bytes) ← width.get bytes
    return (width.ofBits signed value, bytes)
  | .string, bytes => do
    let (size, bytes) ← Width.b4.get bytes
    if size > kMaxDeserializedElementsCount then throw "untrustworthy string size"
    if bytes.length < size then throw "unexpected end of buffer"
    let last := (UInt32.ofNat size - 1).toNat
    match bytes[last]? with
    | none => throw "read outside the buffer"
    | some terminator =>
      if terminator ≠ 0 then throw "deserialized string not null-terminated"
      return (bytes.take last, bytes.drop size)
  | .array elem n, bytes => readVector elem.deserialize n bytes
  | .pair first second, bytes => do
    let (x, bytes) ← first.deserialize bytes
    let (y, bytes) ← second.deserialize bytes
    return ((x, y), bytes)
  | .uniquePtr elem, bytes => do
    let (isNotEmpty, bytes) ← readBool bytes
    if isNotEmpty then
      let (value, bytes) ← elem.deserialize bytes
      return (some value, bytes)
    else return (none, bytes)
  | .vector elem, bytes => do
    let (size, bytes) ← Width.b4.get bytes
    if size > kMaxDeserializedElementsCount then throw "untrustworthy vector size"
    readFold elem.deserialize (fun vec x => vec ++ [x]) size [] bytes
  | .set elem, bytes => do
    let (size, bytes) ← Width.b4.get bytes
    if size > kMaxDeserializedElementsCount then throw "untrustworthy set size"
    readFold elem.deserialize (insertNew elem.equiv) size [] bytes
  | .map key value, bytes => do
    let (size, bytes) ← Width.b4.get bytes
    if size > kMaxDeserializedElementsCount then throw "untrustworthy map size"
    let readPair := fun bytes => do
      let (k, bytes) ← key.deserialize bytes
      let (v, bytes) ← value.deserialize bytes
      return ((k, v), bytes)
    readFold readPair (insertNew fun x y => key.equiv x.1 y.1) size [] bytes
  | .legacyString width, bytes => do
    let (length, bytes) ← width.get bytes
    if bytes.length < length then throw "Buffer too short to deserialize string"
    return (bytes.take length, bytes.drop length)
  | .legacyVector elem, bytes => readGreedy elem.deserialize "failed assertion" bytes.length [] bytes

/-- No legacy vector inside: a reader that knows where the value ends. -/
def delimited : Ty → Bool
  | .legacyVector _ => false
  | .array elem _ => elem.delimited
  | .pair first second => first.delimited && second.delimited
  | .uniquePtr elem => elem.delimited
  | .vector elem => elem.delimited
  | .set elem => elem.delimited
  | .map key value => key.delimited && value.delimited
  | _ => true

/-- The values a round trip is about: a string shorter than the element limit and
containers no longer than it, sets with no two equivalent elements, maps with no
two equivalent keys, legacy strings whose length fits their length type. -/
def valid : (t : Ty) → t.denote → Bool
  | .bool, _ => true
  | .word _ _, _ => true
  | .string, value => value.length < kMaxDeserializedElementsCount
  | .array elem _, xs => xs.1.all elem.valid
  | .pair first second, x => first.valid x.1 && second.valid x.2
  | .uniquePtr elem, x => x.all elem.valid
  | .vector elem, xs => xs.length ≤ kMaxDeserializedElementsCount && xs.all elem.valid
  | .set elem, xs =>
    xs.length ≤ kMaxDeserializedElementsCount && decide (xs.Pairwise fun x y => elem.equiv y x = false) &&
      xs.all elem.valid
  | .map key value, xs =>
    xs.length ≤ kMaxDeserializedElementsCount && decide (xs.Pairwise fun x y => key.equiv y.1 x.1 = false) &&
      xs.all fun x => key.valid x.1 && value.valid x.2
  | .legacyString width, value => value.length < 256 ^ width.bytes
  | .legacyVector elem, xs => xs.all elem.valid

/-! ## Sizes -/

/-- A sum of sizes in `uint32_t` is the sum of the lengths, modulo `2^32`. -/
theorem foldl_add_toNat {α : Type} (size : α → UInt32) (length : α → Nat) (xs : List α)
    (each : ∀ x ∈ xs, (size x).toNat = length x % 2 ^ 32) (init : UInt32) :
    (xs.foldl (fun ret x => ret + size x) init).toNat = (init.toNat + (xs.map length).sum) % 2 ^ 32 := by
  induction xs generalizing init with
  | nil => simp [Nat.mod_eq_of_lt (UInt32.toNat_lt init)]
  | cons x xs ih =>
    have head := each x List.mem_cons_self
    rw [List.foldl_cons, ih (fun y member => each y (List.mem_cons_of_mem x member)), UInt32.toNat_add, head]
    simp only [List.map_cons, List.sum_cons]
    omega

/-- `serializedSize` counts the bytes `serialize` writes, modulo `2^32`. -/
theorem serializedSize_toNat : (t : Ty) → (x : t.denote) → (t.serializedSize x).toNat = (t.serialize x).length % 2 ^ 32 := by
  intro t
  induction t with
  | bool => intro x; cases x <;> rfl
  | word width signed => intro x; cases width <;> rfl
  | string =>
    intro value
    simp only [serializedSize, serialize, UInt32.toNat_add, UInt32.toNat_ofNat, UInt32.toNat_ofNat', Width.put, putBE_length,
      List.length_append, List.length_singleton, Width.bytes]
    omega
  | array elem n ih =>
    intro xs
    simp only [serializedSize, serialize, foldl_add_toNat _ _ xs.1 (fun x _ => ih x), List.length_flatMap]
    simp
  | pair first second ihFirst ihSecond =>
    intro x
    simp only [serializedSize, serialize, UInt32.toNat_add, ihFirst, ihSecond, List.length_append]
    omega
  | uniquePtr elem ih =>
    intro x
    cases x with
    | none => rfl
    | some value =>
      simp only [serializedSize, serialize, UInt32.toNat_add, ih, List.length_append, writeBool, Width.put,
        putBE_length, Width.bytes]
      simp
  | vector elem ih =>
    intro xs
    simp only [serializedSize, serialize, foldl_add_toNat _ _ xs (fun x _ => ih x), List.length_append,
      List.length_flatMap, Width.put, putBE_length, Width.bytes]
    simp
  | set elem ih =>
    intro xs
    simp only [serializedSize, serialize, foldl_add_toNat _ _ xs (fun x _ => ih x), List.length_append,
      List.length_flatMap, Width.put, putBE_length, Width.bytes]
    simp
  | map key value ihKey ihValue =>
    intro xs
    have each : ∀ x ∈ xs, (key.serializedSize x.1 + value.serializedSize x.2).toNat =
        (key.serialize x.1 ++ value.serialize x.2).length % 2 ^ 32 := by
      intro x _
      simp only [UInt32.toNat_add, ihKey, ihValue, List.length_append]
      omega
    simp only [serializedSize, serialize, foldl_add_toNat _ _ xs each, List.length_append,
      List.length_flatMap, Width.put, putBE_length, Width.bytes]
    simp
  | legacyString width =>
    intro value
    simp only [serializedSize, serialize, UInt32.toNat_add, UInt32.toNat_ofNat', Width.put, putBE_length,
      List.length_append]
    omega
  | legacyVector elem ih =>
    intro xs
    simp only [serializedSize, serialize, foldl_add_toNat _ _ xs (fun x _ => ih x), List.length_flatMap]
    simp

/-! ## Reading back -/

/-- A count of at most the element limit takes four bytes and reads back. -/
theorem get_put_count (count : Nat) (small : count ≤ kMaxDeserializedElementsCount) (rest : List UInt8) :
    Width.b4.get (Width.b4.put count ++ rest) = .ok (count, rest) := by
  rw [Width.get_put, Nat.mod_eq_of_lt]
  simp only [Width.bytes, kMaxDeserializedElementsCount] at small ⊢
  omega

/-- Every value of a delimited type reads back from its bytes, whatever follows. -/
theorem deserialize_serialize (t : Ty) : t.delimited = true → ∀ x, t.valid x = true → ∀ rest : List UInt8,
    t.deserialize (t.serialize x ++ rest) = .ok (x, rest) := by
  induction t with
  | bool => intro _ x _ rest; exact readBool_writeBool x rest
  | word width signed =>
    intro _ x _ rest
    simp [serialize, deserialize, Width.get_put, Nat.mod_eq_of_lt (width.toBits_lt signed x), bind,
      Except.bind, pure, Except.pure]
  | string =>
    intro _ value valid rest
    simp only [Ty.valid, decide_eq_true_eq] at valid
    -- `size - 1` in `uint32_t` is the string's length, short of `2^32`
    have last : value.length % 4294967296 = value.length := by
      simp only [kMaxDeserializedElementsCount] at valid
      omega
    simp only [serialize, deserialize, List.append_assoc, List.singleton_append,
      get_put_count (value.length + 1) (by omega), bind, Except.bind]
    simp [kMaxDeserializedElementsCount] at valid ⊢
    rw [if_neg (by omega), last]
    simp [pure, Except.pure]
  | array elem n ih =>
    intro delimited xs valid rest
    obtain ⟨xs, rfl⟩ := xs
    simp only [Ty.valid, List.all_eq_true] at valid
    exact readVector_flatMap xs (fun x member rest => ih delimited x (valid x member) rest) rest
  | pair first second ihFirst ihSecond =>
    intro delimited x valid rest
    simp only [Ty.delimited, Bool.and_eq_true] at delimited
    simp only [Ty.valid, Bool.and_eq_true] at valid
    simp only [serialize, deserialize, List.append_assoc, ihFirst delimited.1 x.1 valid.1,
      ihSecond delimited.2 x.2 valid.2, bind, Except.bind, pure, Except.pure]
  | uniquePtr elem ih =>
    intro delimited x valid rest
    cases x with
    | none => simp [serialize, deserialize, readBool_writeBool, bind, Except.bind, pure, Except.pure]
    | some value =>
      simp only [Ty.valid, Option.all_some] at valid
      simp [serialize, deserialize, readBool_writeBool, ih delimited value valid, bind, Except.bind, pure,
        Except.pure]
  | vector elem ih =>
    intro delimited xs valid rest
    simp only [Ty.valid, Bool.and_eq_true, decide_eq_true_eq, List.all_eq_true] at valid
    have read := readFold_flatMap (fun vec x => vec ++ [x]) xs
      (fun x member rest => ih delimited x (valid.2 x member) rest) [] rest
    simp only [serialize, deserialize, List.append_assoc, get_put_count xs.length valid.1, bind, Except.bind,
      foldl_append_singleton] at read ⊢
    rw [if_neg (by omega), read, List.nil_append]
  | set elem ih =>
    intro delimited xs valid rest
    simp only [Ty.valid, Bool.and_eq_true, decide_eq_true_eq, List.all_eq_true] at valid
    obtain ⟨⟨small, distinct⟩, valid⟩ := valid
    have read := readFold_flatMap (insertNew elem.equiv) xs
      (fun x member rest => ih delimited x (valid x member) rest) [] rest
    rw [foldl_insertNew elem.equiv xs distinct [] (by simp), List.nil_append] at read
    simp only [serialize, deserialize, List.append_assoc, get_put_count xs.length small, bind, Except.bind]
    rw [if_neg (by omega), read]
  | map key value ihKey ihValue =>
    intro delimited xs valid rest
    simp only [Ty.delimited, Bool.and_eq_true] at delimited
    simp only [Ty.valid, Bool.and_eq_true, decide_eq_true_eq, List.all_eq_true] at valid
    obtain ⟨⟨small, distinct⟩, valid⟩ := valid
    simp only [serialize, deserialize, List.append_assoc, get_put_count xs.length small, bind, Except.bind]
    rw [if_neg (by omega), readFold_flatMap _ xs ?back [] rest,
      foldl_insertNew _ xs distinct [] (by simp), List.nil_append]
    intro x member rest
    simp [ihKey delimited.1 x.1 (valid x member).1, ihValue delimited.2 x.2 (valid x member).2, pure,
      Except.pure]
  | legacyString width =>
    intro _ value valid rest
    simp only [Ty.valid, decide_eq_true_eq] at valid
    simp only [serialize, deserialize, List.append_assoc, Width.get_put, Nat.mod_eq_of_lt valid, bind,
      Except.bind]
    simp [pure, Except.pure]
  | legacyVector elem _ => intro delimited; cases delimited

/-- What a value in last place needs to read back with no byte after it: a value
of a delimited type, or a legacy vector of delimited elements each of which takes
a byte. -/
def validLast : (t : Ty) → t.denote → Bool
  | .legacyVector elem, xs => elem.delimited && xs.all fun x => elem.valid x && !(elem.serialize x).isEmpty
  | t, x => t.delimited && t.valid x

theorem deserialize_serialize_last (t : Ty) (x : t.denote) (valid : t.validLast x = true) :
    t.deserialize (t.serialize x) = .ok (x, []) := by
  cases t with
  | legacyVector elem =>
    simp only [validLast, Bool.and_eq_true, List.all_eq_true, Bool.not_eq_true', List.isEmpty_eq_false_iff]
      at valid
    obtain ⟨delimited, each⟩ := valid
    have nonempty : ∀ y ∈ x, elem.serialize y ≠ [] := fun y member => (each y member).2
    simp only [serialize, deserialize]
    rw [readGreedy_flatMap _ x (fun y member rest => deserialize_serialize elem delimited y (each y member).1 rest)
      nonempty _ (length_le_flatMap _ x nonempty), List.nil_append]
  | _ =>
    simp only [validLast, Bool.and_eq_true] at valid
    simpa using deserialize_serialize _ valid.1 x valid.2 []

end Ty

/-! ## Calls with several arguments -/

/-- The values of the arguments of a call, in order. -/
@[reducible] def valuesOf : List Ty → Type
  | [] => Unit
  | t :: ts => t.denote × valuesOf ts

/-- `serializedSize(t, args...)`. -/
def serializedSizeAll : (args : List Ty) → valuesOf args → UInt32
  | [], () => 0
  | t :: ts, (x, xs) => t.serializedSize x + serializedSizeAll ts xs

/-- `serialize(destination, t, args...)`, and the bytes `serialize(buffer, args...)`
leaves in its buffer. -/
def serializeAll : (args : List Ty) → valuesOf args → List UInt8
  | [], () => []
  | t :: ts, (x, xs) => t.serialize x ++ serializeAll ts xs

/-- `deserialize(source, bytesLeftInBuffer, t, args...)`. -/
def deserializeAll : (args : List Ty) → List UInt8 → Except String (valuesOf args × List UInt8)
  | [], bytes => .ok ((), bytes)
  | t :: ts, bytes => do
    let (x, bytes) ← t.deserialize bytes
    let (xs, bytes) ← deserializeAll ts bytes
    return ((x, xs), bytes)

/-- `deserialize(sourceBuffer, sourceBufferSize, args...)`: the values and the number
of bytes not used. -/
def deserializeBuffer (args : List Ty) (buffer : List UInt8) : Except String (valuesOf args × Nat) :=
  if buffer.length > kMaxDeserializedBytesCount then .error "too much data to deserialize"
  else (deserializeAll args buffer).map fun (values, rest) => (values, rest.length)

/-- Every argument delimited and valid: the call reads back whatever follows. -/
def validAll : (args : List Ty) → valuesOf args → Bool
  | [], () => true
  | t :: ts, (x, xs) => t.delimited && t.valid x && validAll ts xs

/-- Every argument delimited and valid but the last, which may be a legacy vector:
the call reads back when nothing follows. -/
def validFramed : (args : List Ty) → valuesOf args → Bool
  | [], () => true
  | [t], (x, ()) => t.validLast x
  | t :: ts, (x, xs) => t.delimited && t.valid x && validFramed ts xs

theorem serializedSizeAll_toNat : (args : List Ty) → (values : valuesOf args) →
    (serializedSizeAll args values).toNat = (serializeAll args values).length % 2 ^ 32
  | [], () => rfl
  | t :: ts, (x, xs) => by
    simp only [serializedSizeAll, serializeAll, UInt32.toNat_add, t.serializedSize_toNat,
      serializedSizeAll_toNat ts xs, List.length_append]
    omega

/-- One argument read, then the others. -/
theorem deserializeAll_cons {t : Ty} {ts : List Ty} {bytes rest rest' : List UInt8} {x : t.denote}
    {xs : valuesOf ts} (head : t.deserialize bytes = .ok (x, rest)) (tail : deserializeAll ts rest = .ok (xs, rest')) :
    deserializeAll (t :: ts) bytes = .ok ((x, xs), rest') := by
  simp only [deserializeAll, head, tail, bind, Except.bind, pure, Except.pure]

theorem deserializeAll_serializeAll : (args : List Ty) → (values : valuesOf args) →
    validAll args values = true → ∀ rest : List UInt8,
    deserializeAll args (serializeAll args values ++ rest) = .ok (values, rest)
  | [], (), _, rest => rfl
  | t :: ts, (x, xs), valid, rest => by
    simp only [validAll, Bool.and_eq_true] at valid
    show deserializeAll (t :: ts) ((t.serialize x ++ serializeAll ts xs) ++ rest) = _
    rw [List.append_assoc]
    exact deserializeAll_cons (t.deserialize_serialize valid.1.1 x valid.1.2 _)
      (deserializeAll_serializeAll ts xs valid.2 rest)

theorem deserializeAll_serializeAll_framed : (args : List Ty) → (values : valuesOf args) →
    validFramed args values = true → deserializeAll args (serializeAll args values) = .ok (values, [])
  | [], (), _ => rfl
  | [t], (x, ()), valid => by
    simp only [validFramed] at valid
    show deserializeAll [t] (t.serialize x ++ []) = _
    rw [List.append_nil]
    exact deserializeAll_cons (t.deserialize_serialize_last x valid) rfl
  | t :: u :: ts, (x, xs), valid => by
    simp only [validFramed, Bool.and_eq_true] at valid
    exact deserializeAll_cons (t.deserialize_serialize valid.1.1 x valid.1.2 _)
      (deserializeAll_serializeAll_framed (u :: ts) xs valid.2)

/-- The bytes of a call, then `tail`, read back through `deserialize(buffer, size,
args...)`: the values, with `tail` left unread. Bytes may follow only a call
without a legacy vector, and the whole buffer must fit the 32 MiB limit. -/
theorem deserializeBuffer_serializeAll (args : List Ty) (values : valuesOf args) (tail : List UInt8)
    (framed : validFramed args values = true) (delimitedIfTail : tail ≠ [] → validAll args values = true)
    (fits : (serializeAll args values).length + tail.length ≤ kMaxDeserializedBytesCount) :
    deserializeBuffer args (serializeAll args values ++ tail) = .ok (values, tail.length) := by
  have small : ¬(serializeAll args values ++ tail).length > kMaxDeserializedBytesCount := by
    simp only [List.length_append]
    omega
  have read : deserializeAll args (serializeAll args values ++ tail) = .ok (values, tail) := by
    by_cases empty : tail = []
    · subst empty
      rw [List.append_nil]
      exact deserializeAll_serializeAll_framed args values framed
    · exact deserializeAll_serializeAll args values (delimitedIfTail empty) tail
  rw [deserializeBuffer, if_neg small, read]
  rfl

/-- A legacy vector of bytes in last place reads whatever follows the call as more
of its elements, and leaves no byte unread. -/
theorem deserializeBuffer_legacyVector_tail (xs tail : List UInt8)
    (fits : xs.length + tail.length ≤ kMaxDeserializedBytesCount) :
    deserializeBuffer [.legacyVector (.word .b1 false)] (serializeAll [.legacyVector (.word .b1 false)] (xs, ()) ++ tail) =
      .ok ((xs ++ tail, ()), 0) := by
  -- a byte is written as itself
  have byte : ∀ ys : List UInt8, (Ty.legacyVector (.word .b1 false)).serialize ys = ys := by
    intro ys
    induction ys with
    | nil => rfl
    | cons y ys ih =>
      simp only [Ty.serialize, List.flatMap_cons] at ih ⊢
      rw [ih]
      simp [Width.put, Width.toBits, Width.bytes, putBE]
  have all : validFramed [.legacyVector (.word .b1 false)] (xs ++ tail, ()) = true := by
    simp [validFramed, Ty.validLast, Ty.delimited, Ty.valid, Ty.serialize, Width.put, Width.bytes, putBE]
  have read := deserializeBuffer_serializeAll [.legacyVector (.word .b1 false)] (xs ++ tail, ()) [] all
    (fun nonempty => absurd rfl nonempty) (by simp [serializeAll, byte]; omega)
  simpa [serializeAll, byte] using read

/-! ## Reading outside the buffer -/

/-- A string whose size is `0`: both checks on the size pass, and the test of the
closing zero reads `(*source)[size - 1]`, the byte `2^32 - 1` after the size, past
the bytes left. -/
theorem deserialize_string_zero_size (rest : List UInt8) (short : rest.length ≤ 2 ^ 32 - 1) :
    Ty.string.deserialize (Width.b4.put 0 ++ rest) = .error "read outside the buffer" := by
  have outside : rest[(UInt32.ofNat 0 - 1).toNat]? = none := List.getElem?_eq_none (by simpa using short)
  simp only [Ty.deserialize, Ty.get_put_count 0 (by decide), bind, Except.bind]
  rw [if_neg (by simp [kMaxDeserializedElementsCount]), if_neg (by simp), outside]
  rfl

/-- Every call of `deserialize` on a buffer that it accepts, for arguments starting
with a string, reads outside the buffer when the buffer starts with four zero bytes. -/
theorem deserializeBuffer_string_zero_size (args : List Ty) (rest : List UInt8)
    (fits : 4 + rest.length ≤ kMaxDeserializedBytesCount) :
    deserializeBuffer (.string :: args) (Width.b4.put 0 ++ rest) = .error "read outside the buffer" := by
  have short : rest.length ≤ 2 ^ 32 - 1 := by
    simp only [kMaxDeserializedBytesCount] at fits
    omega
  have accepted : ¬(Width.b4.put 0 ++ rest).length > kMaxDeserializedBytesCount := by
    simp only [List.length_append, putBE_length, Width.put, Width.bytes]
    omega
  rw [deserializeBuffer, if_neg accepted]
  simp only [deserializeAll, deserialize_string_zero_size rest short, bind, Except.bind, Except.map]

/-- The four bytes of a zero size alone. -/
theorem deserializeBuffer_string_zero_size_fourZeros :
    4 + ([] : List UInt8).length ≤ kMaxDeserializedBytesCount ∧
      deserializeBuffer [.string] [0, 0, 0, 0] = .error "read outside the buffer" :=
  ⟨by decide, deserializeBuffer_string_zero_size [] [] (by decide)⟩

end SaunaFS.Serialization

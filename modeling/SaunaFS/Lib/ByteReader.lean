import Mathlib.Tactic.Ring

/-! Readers of a byte stream, and big-endian numbers.

A reader takes what it reads from the front of a list of bytes and returns it
with the bytes it leaves, or fails with a message. `readVector`, `readFold` and
`readGreedy` run one reader several times: a fixed number of times into a list
of that length, a counted number of times into an accumulator, and for as long
as bytes remain. Each has its round trip: run on the concatenated encodings of
a list whose elements each read back, it gives the list back.
-/

set_option autoImplicit false

namespace ByteReader

variable {α β : Type}

/-! ## Big-endian numbers -/

/-- The `n` low bytes of `x`, most significant first. -/
def putBE : Nat → Nat → List UInt8
  | 0, _ => []
  | n + 1, x => UInt8.ofNat (x / 256 ^ n) :: putBE n x

/-- One more byte below the number read so far. -/
def shiftIn (acc : Nat) (byte : UInt8) : Nat := acc * 256 + byte.toNat

/-- The number whose big-endian bytes are `bytes`. -/
def valueBE (bytes : List UInt8) : Nat := bytes.foldl shiftIn 0

@[simp] theorem putBE_length (n x : Nat) : (putBE n x).length = n := by
  induction n with
  | zero => rfl
  | succ n ih => simp [putBE, ih]

theorem foldl_shiftIn_putBE (n x acc : Nat) :
    (putBE n x).foldl shiftIn acc = acc * 256 ^ n + x % 256 ^ n := by
  induction n generalizing acc with
  | zero => simp [putBE, Nat.mod_one]
  | succ n ih =>
    have byte : (UInt8.ofNat (x / 256 ^ n)).toNat = x / 256 ^ n % 256 := by simp
    -- the top byte of the `n + 1` low bytes sits above the `n` low ones
    have split : x % 256 ^ (n + 1) = x % 256 ^ n + 256 ^ n * (x / 256 ^ n % 256) := Nat.mod_pow_succ
    rw [putBE, List.foldl_cons, ih, shiftIn, byte, split, pow_succ]
    ring

theorem valueBE_putBE (n x : Nat) : valueBE (putBE n x) = x % 256 ^ n := by
  simp [valueBE, foldl_shiftIn_putBE]

/-- The bytes of the number in front, and those after it. -/
theorem putBE_append_take (n x : Nat) (rest : List UInt8) : (putBE n x ++ rest).take n = putBE n x := by
  simp

theorem putBE_append_drop (n x : Nat) (rest : List UInt8) : (putBE n x ++ rest).drop n = rest := by
  simp

/-! ## Repeated reads -/

section Readers

variable (read : List UInt8 → Except String (α × List UInt8)) (encode : α → List UInt8)

/-- `n` reads, into a list of length `n`. -/
def readVector : (n : Nat) → List UInt8 → Except String ({ xs : List α // xs.length = n } × List UInt8)
  | 0, bytes => .ok (⟨[], rfl⟩, bytes)
  | n + 1, bytes => do
    let (x, bytes) ← read bytes
    let (xs, bytes) ← readVector n bytes
    return (⟨x :: xs.1, by simp [xs.2]⟩, bytes)

/-- `n` reads, each what it read added to an accumulator. -/
def readFold (insert : β → α → β) : Nat → β → List UInt8 → Except String (β × List UInt8)
  | 0, acc, bytes => .ok (acc, bytes)
  | n + 1, acc, bytes => do
    let (x, bytes) ← read bytes
    readFold insert n (insert acc x) bytes

/-- Reads for as long as bytes remain, each appended; a read that takes no byte
fails with `message`. Every pass takes a byte, so the number of bytes is fuel
enough. -/
def readGreedy (message : String) : Nat → List α → List UInt8 → Except String (List α × List UInt8)
  | 0, acc, bytes => .ok (acc, bytes)
  | fuel + 1, acc, bytes =>
    if bytes.isEmpty then .ok (acc, bytes)
    else do
      let (x, rest) ← read bytes
      if rest.length < bytes.length then readGreedy message fuel (acc ++ [x]) rest else throw message

/-- Every element of `xs` reads back from its encoding, whatever follows it. -/
def ReadsBack (xs : List α) : Prop := ∀ x ∈ xs, ∀ rest, read (encode x ++ rest) = .ok (x, rest)

variable {read encode}

theorem ReadsBack.tail {x : α} {xs : List α} (back : ReadsBack read encode (x :: xs)) :
    ReadsBack read encode xs :=
  fun y member => back y (List.mem_cons_of_mem x member)

theorem readVector_flatMap (xs : List α) (back : ReadsBack read encode xs) (rest : List UInt8) :
    readVector read xs.length (xs.flatMap encode ++ rest) = .ok (⟨xs, rfl⟩, rest) := by
  induction xs with
  | nil => rfl
  | cons x xs ih =>
    have first := back x List.mem_cons_self (xs.flatMap encode ++ rest)
    simp only [List.flatMap_cons, List.append_assoc, List.length_cons, readVector, first, bind, Except.bind,
      ih back.tail, pure, Except.pure]

theorem readFold_flatMap (insert : β → α → β) (xs : List α) (back : ReadsBack read encode xs) (acc : β)
    (rest : List UInt8) :
    readFold read insert xs.length acc (xs.flatMap encode ++ rest) = .ok (xs.foldl insert acc, rest) := by
  induction xs generalizing acc with
  | nil => rfl
  | cons x xs ih =>
    have first := back x List.mem_cons_self (xs.flatMap encode ++ rest)
    simp only [List.flatMap_cons, List.append_assoc, List.length_cons, readFold, first, bind, Except.bind,
      List.foldl_cons]
    exact ih back.tail (insert acc x)

theorem readGreedy_flatMap (message : String) (xs : List α) (back : ReadsBack read encode xs)
    (nonempty : ∀ x ∈ xs, encode x ≠ []) (fuel : Nat) (enough : xs.length ≤ fuel) (acc : List α) :
    readGreedy read message fuel acc (xs.flatMap encode) = .ok (acc ++ xs, []) := by
  induction xs generalizing fuel acc with
  | nil =>
    cases fuel <;> simp [readGreedy]
  | cons x xs ih =>
    obtain ⟨fuel, rfl⟩ : ∃ fuel', fuel = fuel' + 1 := ⟨fuel - 1, by simp at enough; omega⟩
    have first := back x List.mem_cons_self (xs.flatMap encode)
    have taken : 0 < (encode x).length := List.length_pos_iff.mpr (nonempty x List.mem_cons_self)
    have shorter : (xs.flatMap encode).length < (encode x ++ xs.flatMap encode).length := by
      simp only [List.length_append]
      omega
    have notEmpty : (encode x ++ xs.flatMap encode).isEmpty = false := by
      simp [nonempty x List.mem_cons_self]
    have rest := ih back.tail (fun y member => nonempty y (List.mem_cons_of_mem x member)) fuel
      (by simp at enough; omega) (acc ++ [x])
    simp only [List.flatMap_cons, readGreedy, notEmpty, first, bind, Except.bind, shorter]
    simpa using rest

end Readers

/-- Appending each element in turn, as `resize` and the assignments of a vector's
reader leave it. -/
theorem foldl_append_singleton (xs acc : List α) : xs.foldl (fun vec x => vec ++ [x]) acc = acc ++ xs := by
  induction xs generalizing acc with
  | nil => simp
  | cons x xs ih => simp [ih]

/-- Encodings of a byte or more have at least as many bytes as elements. -/
theorem length_le_flatMap (encode : α → List UInt8) (xs : List α) (nonempty : ∀ x ∈ xs, encode x ≠ []) :
    xs.length ≤ (xs.flatMap encode).length := by
  induction xs with
  | nil => simp
  | cons x xs ih =>
    have head : 0 < (encode x).length := List.length_pos_iff.mpr (nonempty x List.mem_cons_self)
    have tail := ih fun y member => nonempty y (List.mem_cons_of_mem x member)
    simp only [List.flatMap_cons, List.length_append, List.length_cons]
    omega

/-! ## Inserting what is new -/

/-- `std::set::insert` and `std::map::insert` of an element that goes last: it is
added unless an equivalent one is held. -/
def insertNew (equiv : α → α → Bool) (acc : List α) (x : α) : List α :=
  if acc.any (equiv x) then acc else acc ++ [x]

/-- Inserting in turn elements none of which is equivalent to one before it adds
every one. -/
theorem foldl_insertNew (equiv : α → α → Bool) (xs : List α)
    (distinct : xs.Pairwise fun earlier later => equiv later earlier = false) (acc : List α)
    (fresh : ∀ a ∈ acc, ∀ x ∈ xs, equiv x a = false) : xs.foldl (insertNew equiv) acc = acc ++ xs := by
  induction xs generalizing acc with
  | nil => simp
  | cons x xs ih =>
    obtain ⟨later, distinct⟩ := List.pairwise_cons.mp distinct
    have new : acc.any (equiv x) = false := by
      simpa using fun a member => fresh a member x List.mem_cons_self
    have step : insertNew equiv acc x = acc ++ [x] := by simp [insertNew, new]
    rw [List.foldl_cons, step, ih distinct]
    · simp
    · intro a member y later'
      rcases List.mem_append.mp member with held | added
      · exact fresh a held y (List.mem_cons_of_mem x later')
      · rw [List.mem_singleton.mp added]
        exact later y later'

end ByteReader

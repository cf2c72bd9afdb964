import Mathlib.Data.List.Basic

/-! Files as their readers see them: a size and a byte at each offset, every
offset at or past the end reading as zero. A write past the end or an
`ftruncate` that grows a file leaves zeros in the gap, as POSIX files do, so a
reader never meets bytes the file was not given.
-/

set_option autoImplicit false

/-- A file: its size and its bytes, a byte at or past the end being zero. -/
structure ByteFile where
  size : Nat
  bytes : Nat → UInt8
  zero_past_end : ∀ offset, size ≤ offset → bytes offset = 0

namespace ByteFile

/-- A new, empty file. -/
def empty : ByteFile := ⟨0, fun _ => 0, fun _ _ => rfl⟩

/-- `pread`: `count` bytes from `offset`. -/
def pread (file : ByteFile) (offset count : Nat) : List UInt8 :=
  (List.range count).map fun k => file.bytes (offset + k)

/-- `pwrite`: `buffer` at `offset`, the file growing to the end of the write. -/
def pwrite (file : ByteFile) (offset : Nat) (buffer : List UInt8) : ByteFile where
  size := max file.size (offset + buffer.length)
  bytes p := if offset ≤ p ∧ p < offset + buffer.length then buffer.getD (p - offset) 0 else file.bytes p
  zero_past_end p past := by
    have bounds := Nat.max_le.mp past
    rw [if_neg (by omega)]
    exact file.zero_past_end p bounds.1

/-- `ftruncate`: the file cut or grown to `length`. -/
def ftruncate (file : ByteFile) (length : Nat) : ByteFile where
  size := length
  bytes p := if p < length then file.bytes p else 0
  zero_past_end p past := by rw [if_neg (by omega)]

@[simp] theorem size_pwrite (file : ByteFile) (offset : Nat) (buffer : List UInt8) :
    (file.pwrite offset buffer).size = max file.size (offset + buffer.length) := rfl

@[simp] theorem size_ftruncate (file : ByteFile) (length : Nat) : (file.ftruncate length).size = length := rfl

@[simp] theorem length_pread (file : ByteFile) (offset count : Nat) : (file.pread offset count).length = count := by
  simp [pread]

theorem pread_add (file : ByteFile) (offset a b : Nat) :
    file.pread offset (a + b) = file.pread offset a ++ file.pread (offset + a) b := by
  simp [pread, List.range_add, Nat.add_assoc]

/-- Reads of two files agree where their bytes do. -/
theorem pread_congr {file file' : ByteFile} {offset count : Nat}
    (same : ∀ k < count, file'.bytes (offset + k) = file.bytes (offset + k)) :
    file'.pread offset count = file.pread offset count :=
  List.map_congr_left fun k member => same k (List.mem_range.mp member)

/-- Past the end a file reads zeros. -/
theorem pread_of_size_le (file : ByteFile) {offset : Nat} (count : Nat) (past : file.size ≤ offset) :
    file.pread offset count = List.replicate count 0 := by
  rw [pread, List.map_congr_left fun k _ => file.zero_past_end (offset + k) (by omega), List.map_const',
    List.length_range]

theorem pread_pwrite_of_disjoint (file : ByteFile) {offset count written : Nat} {buffer : List UInt8}
    (apart : offset + count ≤ written ∨ written + buffer.length ≤ offset) :
    (file.pwrite written buffer).pread offset count = file.pread offset count :=
  pread_congr fun k below => if_neg (by omega)

/-- A write reads back. -/
theorem pread_pwrite_self (file : ByteFile) (offset : Nat) (buffer : List UInt8) :
    (file.pwrite offset buffer).pread offset buffer.length = buffer := by
  apply List.ext_getElem (by simp)
  intro k below _
  simp only [length_pread] at below
  simp [pread, pwrite, below, List.getD_eq_getElem?_getD]

/-- A write inside a read range replaces the bytes it covers and keeps the rest. -/
theorem pread_pwrite_inside (file : ByteFile) {offset count before : Nat} {buffer : List UInt8}
    (fits : before + buffer.length ≤ count) :
    (file.pwrite (offset + before) buffer).pread offset count =
      (file.pread offset count).take before ++ buffer ++ (file.pread offset count).drop (before + buffer.length) := by
  -- the read splits at the two ends of the write
  have split (f : ByteFile) : f.pread offset count =
      f.pread offset before ++ (f.pread (offset + before) buffer.length ++
        f.pread (offset + before + buffer.length) (count - before - buffer.length)) := by
    conv_lhs => rw [show count = before + (buffer.length + (count - before - buffer.length)) by omega]
    rw [pread_add, pread_add]
  have prefixLength := length_pread file offset before
  rw [split, split file, pread_pwrite_self, pread_pwrite_of_disjoint _ (Or.inl (Nat.le_refl _)),
    pread_pwrite_of_disjoint _ (Or.inr (by omega)), List.take_left' prefixLength,
    ← List.append_assoc (file.pread offset before) (file.pread (offset + before) buffer.length),
    List.drop_left' (by simp), List.append_assoc]

theorem pread_ftruncate_of_le (file : ByteFile) {offset count length : Nat} (inside : offset + count ≤ length) :
    (file.ftruncate length).pread offset count = file.pread offset count :=
  pread_congr fun k below => if_pos (by omega)

/-- A file grown by `ftruncate` reads zeros past its old end. -/
theorem pread_ftruncate_of_size_le (file : ByteFile) {offset : Nat} (length count : Nat) (past : file.size ≤ offset) :
    (file.ftruncate length).pread offset count = List.replicate count 0 := by
  rw [← pread_of_size_le file count past]
  exact pread_congr fun k _ => by
    simp only [ftruncate]
    split <;> simp [file.zero_past_end (offset + k) (by omega)]

/-- A file cut inside a read range reads what it kept, then zeros. -/
theorem pread_ftruncate_inside (file : ByteFile) {offset keep count : Nat} (kept : keep ≤ count) :
    (file.ftruncate (offset + keep)).pread offset count = file.pread offset keep ++ List.replicate (count - keep) 0 := by
  rw [show count = keep + (count - keep) by omega, pread_add, pread_ftruncate_of_le _ (Nat.le_refl _),
    pread_of_size_le (file.ftruncate (offset + keep)) (count - keep) (by simp), Nat.add_sub_cancel_left]

end ByteFile

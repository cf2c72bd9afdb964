import Mathlib.Data.List.Basic

/-! Names in the changelog (src/master/filesystem_node.cc, src/master/restore.cc).
`fsnodes_escape_name` writes a name into a changelog line with the bytes that
would break the line (controls, bytes from 127 on, `,` `%` `(` `)`) as `%XY` in
upper-case hex; the restore parser reads it back with `GETNAME`, `GETPATH` or
`GETDATA` up to the terminator that follows. Lines are byte lists, and a `char`
of the source is a byte read as signed (`UInt8.toInt8`) where the source
compares it. The decoders' buffers are not modelled: `GETNAME` writes into 256
bytes, so it takes at most 255 characters, and the other two grow theirs.
-/

set_option autoImplicit false

namespace SaunaFS

namespace ChangelogEscape

/-- `hex_digit`. -/
def hexDigit : List UInt8 := "0123456789ABCDEF".toList.map Char.toUInt8

/-- The test of `fsnodes_escape_name`, on a signed `char`: bytes from 128 on are
negative, so below 32. -/
def escaped (b : UInt8) : Bool :=
  let c := b.toInt8
  c < 32 || c >= 127 || c == (',' : Char).toUInt8.toInt8 || c == ('%' : Char).toUInt8.toInt8 ||
    c == ('(' : Char).toUInt8.toInt8 || c == (')' : Char).toUInt8.toInt8

/-- `hex_digit[(c >> 4) & 0xF]`. -/
def highDigit (b : UInt8) : UInt8 := hexDigit.getD ((b.toInt8 >>> 4) &&& 0xF).toNatClampNeg 0

/-- `hex_digit[c & 0xF]`. -/
def lowDigit (b : UInt8) : UInt8 := hexDigit.getD (b.toInt8 &&& 0xF).toNatClampNeg 0

/-- One character of `fsnodes_escape_name`. -/
def escapeChar (b : UInt8) : List UInt8 :=
  if escaped b then [('%' : Char).toUInt8, highDigit b, lowDigit b] else [b]

/-- `fsnodes_escape_name`. -/
def fsnodesEscapeName (name : List UInt8) : List UInt8 := name.flatMap escapeChar

/-- One hex digit of the decoders, compared as a signed `char`. -/
def hexValue (h : UInt8) : Option UInt8 :=
  let c := h.toInt8
  if c >= ('0' : Char).toUInt8.toInt8 && c <= ('9' : Char).toUInt8.toInt8 then some (h - ('0' : Char).toUInt8)
  else if c >= ('A' : Char).toUInt8.toInt8 && c <= ('F' : Char).toUInt8.toInt8 then
    some (h - (('A' : Char).toUInt8 - 10))
  else none

/-- The byte of `%XY`: `_tmp_h1*16+_tmp_h2`, the first digit checked first. -/
def hexPair (h1 h2 : UInt8) : Option UInt8 := do
  let v1 ← hexValue h1
  let v2 ← hexValue h2
  pure (v1 * 16 + v2)

/-- The loop of `GETNAME`, `GETPATH` and `GETDATA`: characters up to `c`, or until
`room` refuses the next one, with `%XY` read as the byte `0xXY`. The decoded bytes,
and the line from the character the cursor is stepped back onto. A line that ends
before `c` is read past its end by the source; the model stops there with an
error. A `%` at the end of the line meets its terminating zero, no hex digit. -/
def unescape (c : UInt8) (room : Nat → Bool) : Nat → List UInt8 → Except String (List UInt8 × List UInt8)
  | _, [] => .error "end of line"
  | i, x :: rest =>
    if x = c ∨ room i = false then .ok ([], x :: rest)
    else if x = ('%' : Char).toUInt8 then
      match rest with
      | h1 :: h2 :: rest =>
        match hexPair h1 h2 with
        | some byte => (unescape c room (i + 1) rest).map fun decoded => (byte :: decoded.1, decoded.2)
        | none => .error "hex expected"
      | _ => .error "hex expected"
    else (unescape c room (i + 1) rest).map fun decoded => (x :: decoded.1, decoded.2)

/-- `GETNAME`: at most 255 characters, the name buffer less its terminating zero. -/
def getName (c : UInt8) (line : List UInt8) : Except String (List UInt8 × List UInt8) :=
  unescape c (fun i => decide (i < 255)) 0 line

/-- `GETPATH`: the path buffer grows as it fills. -/
def getPath (c : UInt8) (line : List UInt8) : Except String (List UInt8 × List UInt8) :=
  unescape c (fun _ => true) 0 line

/-- `GETDATA`: like `GETPATH`, and the number of bytes `leng`, for data that may
hold zero bytes. -/
def getData (c : UInt8) (line : List UInt8) : Except String (List UInt8 × Nat × List UInt8) :=
  (unescape c (fun _ => true) 0 line).map fun decoded => (decoded.1, decoded.1.length, decoded.2)

/-- `EAT`: the next character must be `c`. -/
def eat (c : UInt8) : List UInt8 → Except String (List UInt8)
  | x :: rest => if x = c then .ok rest else .error ("\x27" ++ (Char.ofNat c.toNat).toString ++ "\x27 expected")
  | [] => .error ("\x27" ++ (Char.ofNat c.toNat).toString ++ "\x27 expected")

/-! ## Single bytes -/

/-- A fact about every byte, from the 256 values. -/
theorem forall_byte {P : UInt8 → Prop} (each : ∀ n < 256, P (UInt8.ofNat n)) (b : UInt8) : P b := by
  simpa using each b.toNat (UInt8.toNat_lt b)

set_option maxRecDepth 2000 in
/-- The decoders read the two digits of an escaped byte back as the byte. -/
theorem hexPair_digits : ∀ b : UInt8, escaped b = true → hexPair (highDigit b) (lowDigit b) = some b :=
  forall_byte (by decide)

set_option maxRecDepth 2000 in
/-- A byte written as itself is neither an escape nor a terminator. -/
theorem plain_ne : ∀ b : UInt8, escaped b = false →
    b ≠ ('%' : Char).toUInt8 ∧ b ≠ (',' : Char).toUInt8 ∧ b ≠ (')' : Char).toUInt8 :=
  forall_byte (by decide)

/-! ## The decoding loop over an escaped name -/

section Loop

variable {c : UInt8} (terminator : c = (',' : Char).toUInt8 ∨ c = (')' : Char).toUInt8) {room : Nat → Bool}

theorem unescape_terminator (i : Nat) (rest : List UInt8) : unescape c room i (c :: rest) = .ok ([], c :: rest) := by
  rw [unescape.eq_def]
  simp

theorem unescape_full {i : Nat} (full : room i = false) (x : UInt8) (rest : List UInt8) :
    unescape c room i (x :: rest) = .ok ([], x :: rest) := by
  rw [unescape.eq_def]
  simp [full]

include terminator

/-- One byte of an escaped name, with room for it, decodes to itself. -/
theorem unescape_escapeChar {i : Nat} (free : room i = true) (b : UInt8) (line : List UInt8) :
    unescape c room i (escapeChar b ++ line) =
      (unescape c room (i + 1) line).map fun decoded => (b :: decoded.1, decoded.2) := by
  have percentNe : ('%' : Char).toUInt8 ≠ c := by rcases terminator with rfl | rfl <;> decide
  unfold escapeChar
  split
  next escapes =>
    -- `%XY`: the escape, then the two digits of the byte
    rw [List.cons_append, List.cons_append, List.cons_append, List.nil_append, unescape.eq_def]
    simp [percentNe, free, hexPair_digits b escapes]
  next plain =>
    obtain ⟨notPercent, notComma, notParen⟩ := plain_ne b (by simpa using plain)
    have notTerminator : b ≠ c := by rcases terminator with rfl | rfl <;> assumption
    rw [List.cons_append, List.nil_append, unescape.eq_def]
    simp [notTerminator, free, notPercent]

/-- With room for every byte, an escaped name and its terminator decode to the
name, and the cursor stays on the terminator. -/
theorem unescape_escape (rest : List UInt8) (name : List UInt8) {i : Nat}
    (fits : ∀ k < name.length, room (i + k) = true) :
    unescape c room i (fsnodesEscapeName name ++ c :: rest) = .ok (name, c :: rest) := by
  induction name generalizing i with
  | nil => exact unescape_terminator i rest
  | cons b name ih =>
    have tail : ∀ k < name.length, room (i + 1 + k) = true := fun k below => by
      simpa [Nat.add_assoc, Nat.add_comm 1 k] using fits (k + 1) (by simpa using below)
    rw [fsnodesEscapeName, List.flatMap_cons, List.append_assoc, ← fsnodesEscapeName,
      unescape_escapeChar terminator (by simpa using fits 0 (by simp)) b, ih tail]
    rfl

/-- Where room runs out after `m` bytes the loop stops there, on the escape of the
next byte. -/
theorem unescape_escape_cut (rest : List UInt8) (name : List UInt8) {i m : Nat} (short : m < name.length)
    (fits : ∀ k < m, room (i + k) = true) (full : room (i + m) = false) :
    unescape c room i (fsnodesEscapeName name ++ c :: rest) =
      .ok (name.take m, fsnodesEscapeName (name.drop m) ++ c :: rest) := by
  induction name generalizing i m with
  | nil => simp at short
  | cons b name ih =>
    cases m with
    | zero =>
      -- the loop stops on the first character, whatever it is
      obtain ⟨x, line, split⟩ :=
        List.exists_cons_of_ne_nil (by simp : fsnodesEscapeName (b :: name) ++ c :: rest ≠ [])
      rw [split, unescape_full (by simpa using full)]
      simp [split]
    | succ m =>
      have tail : ∀ k < m, room (i + 1 + k) = true := fun k below => by
        simpa [Nat.add_assoc, Nat.add_comm 1 k] using fits (k + 1) (by omega)
      rw [fsnodesEscapeName, List.flatMap_cons, List.append_assoc, ← fsnodesEscapeName,
        unescape_escapeChar terminator (by simpa using fits 0 (by omega)) b,
        ih (by simpa using short) tail (by simpa [Nat.add_assoc, Nat.add_comm 1 m] using full)]
      rfl

/-- An escaped byte never starts with the terminator. -/
theorem escapeChar_head (b : UInt8) : ∃ x tail, escapeChar b = x :: tail ∧ x ≠ c := by
  unfold escapeChar
  split
  next => exact ⟨_, _, rfl, by rcases terminator with rfl | rfl <;> decide⟩
  next plain =>
    obtain ⟨-, notComma, notParen⟩ := plain_ne b (by simpa using plain)
    exact ⟨_, _, rfl, by rcases terminator with rfl | rfl <;> assumption⟩

end Loop

/-- Escaped names read back: `GETNAME` for names of at most 255 bytes, `GETPATH`
and `GETDATA` for any length, each leaving the cursor on the terminator. The
bytes come back even with zero bytes among them; `GETNAME` and `GETPATH` end the
buffer with a zero, so only a name without one reads back as a C string. -/
theorem escape_name_round_trip (c : UInt8) (terminator : c = (',' : Char).toUInt8 ∨ c = (')' : Char).toUInt8)
    (rest : List UInt8) :
    (∀ name : List UInt8, name.length ≤ 255 →
        getName c (fsnodesEscapeName name ++ c :: rest) = .ok (name, c :: rest)) ∧
      (∀ path : List UInt8, getPath c (fsnodesEscapeName path ++ c :: rest) = .ok (path, c :: rest)) ∧
      ∀ data : List UInt8, getData c (fsnodesEscapeName data ++ c :: rest) = .ok (data, data.length, c :: rest) := by
  refine ⟨fun name short => ?_, fun path => ?_, fun data => ?_⟩
  · exact unescape_escape terminator rest name fun k below => by simp; omega
  · exact unescape_escape terminator rest path fun _ _ => rfl
  · rw [getData, unescape_escape terminator rest data fun _ _ => rfl]
    rfl

theorem escape_name_round_trip_comma :
    ((',' : Char).toUInt8 = (',' : Char).toUInt8 ∨ (',' : Char).toUInt8 = (')' : Char).toUInt8) ∧
      ((∀ name : List UInt8, name.length ≤ 255 →
          getName (',' : Char).toUInt8 (fsnodesEscapeName name ++ [(',' : Char).toUInt8]) =
            .ok (name, [(',' : Char).toUInt8])) ∧
        (∀ path : List UInt8, getPath (',' : Char).toUInt8 (fsnodesEscapeName path ++ [(',' : Char).toUInt8]) =
            .ok (path, [(',' : Char).toUInt8])) ∧
        ∀ data : List UInt8, getData (',' : Char).toUInt8 (fsnodesEscapeName data ++ [(',' : Char).toUInt8]) =
            .ok (data, data.length, [(',' : Char).toUInt8])) :=
  ⟨.inl rfl, escape_name_round_trip _ (.inl rfl) []⟩

/-- A name longer than 255 bytes is cut after 255, with the cursor on the escape of
the next byte and not on the terminator, so the `EAT` of the terminator that
follows every `GETNAME` fails. -/
theorem getName_long {c : UInt8} (terminator : c = (',' : Char).toUInt8 ∨ c = (')' : Char).toUInt8)
    (name rest : List UInt8) (long : 255 < name.length) :
    ∃ line, getName c (fsnodesEscapeName name ++ c :: rest) = .ok (name.take 255, line) ∧
      ∃ message, eat c line = .error message := by
  refine ⟨_, unescape_escape_cut terminator rest name long (fun k below => by simp; omega) (by simp), ?_⟩
  obtain ⟨b, later, split⟩ := List.exists_cons_of_length_pos (by simp; omega : 0 < (name.drop 255).length)
  obtain ⟨x, tail, head, notTerminator⟩ := escapeChar_head terminator b
  rw [split, fsnodesEscapeName, List.flatMap_cons, head, List.cons_append, List.cons_append]
  exact ⟨_, if_neg notTerminator⟩

end ChangelogEscape

end SaunaFS

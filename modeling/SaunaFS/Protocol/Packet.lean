import SaunaFS.Common.Serialization

/-! Packets of the SaunaFS protocol (`src/protocol/packet.h`).

A packet is a header, which holds its type and the length of what follows, then
a version and the data. `buildPacket` writes all of it with one `serialize`; a
receiver reads the header with `deserializePacketHeader` and the data, past the
header and the version, with `deserializePacketDataSkipHeader`. Both read
through `deserialize(buffer, size, ...)`, which refuses more than 32 MiB.
-/

set_option autoImplicit false

namespace SaunaFS.Serialization

/-- `uint32_t`, as `PacketHeader::Type`, `PacketHeader::Length` and `PacketVersion`. -/
@[reducible] def uint32 : Ty := .word .b4 false

structure PacketHeader where
  type : UInt32
  length : UInt32
  deriving DecidableEq, Repr

def PacketHeader.kMinSauPacketType : UInt32 := 1001
def PacketHeader.kMaxSauPacketType : UInt32 := 2000

/-- `buildPacket`, whose assertion on the type fails outside the SaunaFS packet types. -/
def buildPacket (type version : UInt32) (data : List Ty) (values : valuesOf data) : Except String (List UInt8) :=
  if type < PacketHeader.kMinSauPacketType ∨ PacketHeader.kMaxSauPacketType < type then .error "failed assertion"
  else
    let length := serializedSizeAll (uint32 :: data) (version, values)
    .ok (serializeAll (uint32 :: uint32 :: uint32 :: data) (type, length, version, values))

def deserializePacketHeader (source : List UInt8) : Except String PacketHeader := do
  let ((type, length, ()), _) ← deserializeBuffer [uint32, uint32] source
  return ⟨type, length⟩

/-- `deserializePacketDataSkipHeader`: the header and the version are skipped by
`deserializeAndIgnore`, which does not check the size of the buffer. -/
def deserializePacketDataSkipHeader (data : List Ty) (source : List UInt8) : Except String (valuesOf data) := do
  let (_, source) ← deserializeAll [uint32, uint32] source
  let (_, source) ← deserializeAll [uint32] source
  let (values, _) ← deserializeBuffer data source
  return values

theorem uint32_deserialize_serialize (x : UInt32) (rest : List UInt8) :
    uint32.deserialize (uint32.serialize x ++ rest) = .ok (x, rest) :=
  Ty.deserialize_serialize uint32 rfl x rfl rest

/-- The header in front of a packet reads back. -/
theorem deserializeAll_header (type length : UInt32) (rest : List UInt8) :
    deserializeAll [uint32, uint32] (uint32.serialize type ++ (uint32.serialize length ++ rest)) =
      .ok ((type, length, ()), rest) :=
  deserializeAll_cons (uint32_deserialize_serialize type _) (deserializeAll_cons (uint32_deserialize_serialize length _) rfl)

theorem uint32_serialize_length (x : UInt32) : (uint32.serialize x).length = 4 := by
  simp [Ty.serialize, Width.put, Width.bytes]

/-- A packet of a SaunaFS type: its header, its version, its data. -/
theorem buildPacket_ok (type version : UInt32) (data : List Ty) (values : valuesOf data)
    (low : PacketHeader.kMinSauPacketType ≤ type) (high : type ≤ PacketHeader.kMaxSauPacketType) :
    buildPacket type version data values =
      .ok (uint32.serialize type ++ (uint32.serialize (serializedSizeAll (uint32 :: data) (version, values)) ++
        (uint32.serialize version ++ serializeAll data values))) := by
  have sau : ¬(type < PacketHeader.kMinSauPacketType ∨ PacketHeader.kMaxSauPacketType < type) := by
    simp only [not_or, UInt32.not_lt]
    exact ⟨low, high⟩
  rw [buildPacket, if_neg sau]
  rfl

/-- A header read from a buffer of at most 32 MiB. -/
theorem deserializePacketHeader_header (type length : UInt32) (rest : List UInt8)
    (fits : 8 + rest.length ≤ kMaxDeserializedBytesCount) :
    deserializePacketHeader (uint32.serialize type ++ (uint32.serialize length ++ rest)) = .ok ⟨type, length⟩ := by
  have small : ¬(uint32.serialize type ++ (uint32.serialize length ++ rest)).length > kMaxDeserializedBytesCount := by
    simp only [List.length_append, uint32_serialize_length]
    omega
  simp only [deserializePacketHeader, deserializeBuffer, if_neg small, deserializeAll_header, Except.map, bind,
    Except.bind, pure, Except.pure]

/-- The data past a header and a version, read without the limit on the header
and the version. -/
theorem deserializePacketDataSkipHeader_data (type length version : UInt32) (data : List Ty)
    (values : valuesOf data) (framed : validFramed data values = true)
    (fits : (serializeAll data values).length ≤ kMaxDeserializedBytesCount) :
    deserializePacketDataSkipHeader data
      (uint32.serialize type ++ (uint32.serialize length ++ (uint32.serialize version ++ serializeAll data values))) =
      .ok values := by
  have version' : deserializeAll [uint32] (uint32.serialize version ++ serializeAll data values) =
      .ok ((version, ()), serializeAll data values) :=
    deserializeAll_cons (uint32_deserialize_serialize version _) rfl
  have read := deserializeBuffer_serializeAll data values [] framed (fun nonempty => absurd rfl nonempty)
    (by simpa using fits)
  rw [List.append_nil] at read
  simp only [deserializePacketDataSkipHeader, deserializeAll_header, version', read, bind, Except.bind, pure,
    Except.pure]

/-- The round trips of the framework: a call's bytes number its `serializedSize`;
read back with bytes after them, they give the values and leave those bytes; in a
packet, the header gives the type and the size of the version and the data, and
the data read back. Bytes may follow only a call without a legacy vector, a
legacy vector's elements must each take a byte, and every buffer read must fit
the 32 MiB limit, a packet's with its twelve bytes of header and version. -/
theorem serialization_round_trip (args : List Ty) (values : valuesOf args) (tail : List UInt8)
    (framed : validFramed args values = true) (delimitedIfTail : tail ≠ [] → validAll args values = true)
    (fits : (serializeAll args values).length + tail.length ≤ kMaxDeserializedBytesCount) :
    (serializeAll args values).length = (serializedSizeAll args values).toNat ∧
      deserializeBuffer args (serializeAll args values ++ tail) = .ok (values, tail.length) ∧
      ∀ type version : UInt32, PacketHeader.kMinSauPacketType ≤ type → type ≤ PacketHeader.kMaxSauPacketType →
        (serializeAll args values).length + 12 ≤ kMaxDeserializedBytesCount →
        ∃ packet, buildPacket type version args values = .ok packet ∧
          deserializePacketHeader packet = .ok ⟨type, serializedSizeAll (uint32 :: args) (version, values)⟩ ∧
          deserializePacketDataSkipHeader args packet = .ok values := by
  refine ⟨?size, deserializeBuffer_serializeAll args values tail framed delimitedIfTail fits, ?packet⟩
  case size =>
    rw [serializedSizeAll_toNat, Nat.mod_eq_of_lt]
    simp only [kMaxDeserializedBytesCount] at fits
    omega
  case packet =>
    intro type version low high packetFits
    refine ⟨_, buildPacket_ok type version args values low high, ?_, ?_⟩
    · apply deserializePacketHeader_header
      simp only [List.length_append, uint32_serialize_length]
      omega
    · exact deserializePacketDataSkipHeader_data type _ version args values framed (by omega)

/-- The bytes `[1]` of a legacy vector of bytes, then the byte `2`: the byte is read
as a second element and no byte is left unread. -/
theorem legacyVector_reads_tail :
    deserializeBuffer [.legacyVector (.word .b1 false)]
        (serializeAll [.legacyVector (.word .b1 false)] ([1], ()) ++ [2]) = .ok (([1, 2], ()), 0) := by
  rfl

/-- A string, a set of `int16_t` and a trailing legacy vector of bytes, with no tail, in a packet of type `1001`. -/
theorem serialization_round_trip_stringSetBytes :
    let args : List Ty := [.string, .set (.word .b2 true), .legacyVector (.word .b1 false)]
    let values : valuesOf args := ([104, 105], [(-3 : Int16), 5], [7, 8], ())
    validFramed args values = true ∧ (serializeAll args values).length + 0 ≤ kMaxDeserializedBytesCount ∧
      ((serializeAll args values).length = (serializedSizeAll args values).toNat ∧
        deserializeBuffer args (serializeAll args values ++ []) = .ok (values, 0) ∧
        ∀ type version : UInt32, PacketHeader.kMinSauPacketType ≤ type → type ≤ PacketHeader.kMaxSauPacketType →
          (serializeAll args values).length + 12 ≤ kMaxDeserializedBytesCount →
          ∃ packet, buildPacket type version args values = .ok packet ∧
            deserializePacketHeader packet = .ok ⟨type, serializedSizeAll (uint32 :: args) (version, values)⟩ ∧
            deserializePacketDataSkipHeader args packet = .ok values) := by
  intro args values
  have framed : validFramed args values = true := by decide
  have fits : (serializeAll args values).length + 0 ≤ kMaxDeserializedBytesCount := by decide
  exact ⟨framed, fits, serialization_round_trip args values [] framed (fun nonempty => absurd rfl nonempty) fits⟩

end SaunaFS.Serialization

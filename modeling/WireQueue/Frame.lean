import WireQueue.Header

/-! # Frames

The receiver's side of the wire. A frame is a header with the payload bytes it announces, and
`Frame.read?` takes one frame off the front of a byte stream. The receiver is told the payload size
by nothing but the header: 16 bytes, or 24 where the 16-bit size field is marked. -/

namespace WireQueue

/-- Reads a header as a receiver does: a marked size field means that the real size and count
follow. -/
def Header.read? (bytes : List UInt8) : Option (Header × List UInt8) :=
  let size := fieldAt UInt16 bytes 2
  let header : Header :=
    { command := fieldAt UInt16 bytes 0
      payloadSize := size.toUInt32
      dataType := fieldAt UInt16 bytes 4
      count := (fieldAt UInt16 bytes 6).toUInt32
      channel := fieldAt UInt32 bytes 8
      parameter := fieldAt UInt32 bytes 12 }
  if bytes.length < Form.compact.length then none
  else if size ≠ extendedSizeMark then some (header, bytes.drop Form.compact.length)
  else if bytes.length < Form.extended.length then none
  else
    some ({ header with payloadSize := fieldAt UInt32 bytes 16, count := fieldAt UInt32 bytes 20 },
      bytes.drop Form.extended.length)

structure Frame where
  header : Header
  payload : List UInt8
  deriving DecidableEq

namespace Frame

/-- Takes one frame off the front of the stream, if it is there in full. -/
def read? (bytes : List UInt8) : Option (Frame × List UInt8) := do
  let (header, rest) ← Header.read? bytes
  let size := header.payloadSize.toNat
  if rest.length < size then none else some (⟨header, rest.take size⟩, rest.drop size)

/-- A header takes at least one byte. -/
theorem length_lt_of_headerRead? {bytes rest : List UInt8} {header : Header}
    (h : Header.read? bytes = some (header, rest)) : rest.length < bytes.length := by
  simp only [Header.read?] at h
  split at h
  · simp at h
  rename_i hlen
  have hcompact : Header.Form.compact.length = 16 := rfl
  have hextended : Header.Form.extended.length = 24 := rfl
  split at h
  · simp only [Option.some.injEq, Prod.mk.injEq] at h
    obtain ⟨-, rfl⟩ := h
    rw [List.length_drop]
    omega
  split at h
  · simp at h
  · simp only [Option.some.injEq, Prod.mk.injEq] at h
    obtain ⟨-, rfl⟩ := h
    rw [List.length_drop]
    omega

/-- A frame takes at least one byte, so reading frame by frame comes to an end. -/
theorem length_lt_of_read? {bytes rest : List UInt8} {frame : Frame}
    (h : read? bytes = some (frame, rest)) : rest.length < bytes.length := by
  obtain ⟨⟨header, tail⟩, hheader, h⟩ := Option.bind_eq_some_iff.mp h
  have hlt := length_lt_of_headerRead? hheader
  simp only [Option.ite_none_left_eq_some, Option.some.injEq, Prod.mk.injEq] at h
  obtain ⟨-, -, rfl⟩ := h
  rw [List.length_drop]
  omega

/-- Splits a whole stream into frames; nothing may be left over. -/
def readAll? (bytes : List UInt8) : Option (List Frame) :=
  if bytes.isEmpty then some []
  else
    match h : read? bytes with
    | none => none
    | some (frame, rest) =>
      have := length_lt_of_read? h
      (readAll? rest).map (frame :: ·)
termination_by bytes.length

end Frame

end WireQueue

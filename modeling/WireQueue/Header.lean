import WireQueue.Element
import WireQueue.Fault

/-! # Request headers

Every request opens with a header. The compact form has 16 bytes, with 16-bit fields for payload
size and element count; the extended form marks these two fields and appends the real values as
32-bit words. In order, all big-endian:

    command (2)  payload size (2)  data type (2)  element count (2)  channel (4)  parameter (4)
    extended only:  payload size (4)  element count (4)

`Header.form` chooses the form, `Header.encodeAs` writes it, and `Header.decode?` reads either form
back. A size or count of `0xFFFF` never travels in the compact form, so the mark is unambiguous. -/

namespace WireQueue

structure Header where
  command : UInt16
  /-- Bytes of payload that follow, padding included. -/
  payloadSize : UInt32
  dataType : UInt16
  /-- Number of elements in the payload. -/
  count : UInt32
  channel : UInt32
  /-- A word whose meaning depends on the command. -/
  parameter : UInt32
  deriving DecidableEq

namespace Header

/-- The two layouts of a header. -/
inductive Form where
  | compact
  | extended
  deriving DecidableEq

def Form.length : Form → Nat
  | compact => 16
  | extended => 24

def Form.name : Form → String
  | compact => "compact"
  | extended => "extended"

/-- Size and count must stay below this value in the compact form. -/
def compactLimit : UInt32 := 0xFFFF

/-- What stands in the 16-bit size field of an extended header. -/
def extendedSizeMark : UInt16 := 0xFFFF

/-- What stands in the 16-bit count field of an extended header. -/
def extendedCountMark : UInt16 := 0

/-- Both size and count fit the fields of the compact form. -/
def fitsCompact (header : Header) : Bool :=
  header.payloadSize < compactLimit && header.count < compactLimit

/-- The form to write: compact where it fits, else extended if the peer reads that. Of two values
that are too large the fault names the size. -/
def form (header : Header) (extendedOk : Bool) : Except Fault Form :=
  if header.fitsCompact then .ok .compact
  else if extendedOk then .ok .extended
  else
    let max := compactLimit.toNat - 1
    if compactLimit ≤ header.payloadSize then
      .error (.tooLarge .payloadSize header.payloadSize.toNat max)
    else .error (.tooLarge .elementCount header.count.toNat max)

/-- The 16-bit size field. A compact field takes the low bits of its value, which are the value
where the header fits. -/
def sizeField (form : Form) (header : Header) : UInt16 :=
  match form with
  | .compact => header.payloadSize.toUInt16
  | .extended => extendedSizeMark

/-- The 16-bit count field, under the same rule. -/
def countField (form : Form) (header : Header) : UInt16 :=
  match form with
  | .compact => header.count.toUInt16
  | .extended => extendedCountMark

/-- The 32-bit words that only the extended form has. -/
def extension (form : Form) (header : Header) : List UInt8 :=
  match form with
  | .compact => []
  | .extended => Element.encode header.payloadSize ++ Element.encode header.count

/-- The bytes of the header in the given form, whether or not its values fit. -/
def encodeAs (form : Form) (header : Header) : List UInt8 :=
  Element.encode header.command ++ Element.encode (header.sizeField form) ++
    Element.encode header.dataType ++ Element.encode (header.countField form) ++
    Element.encode header.channel ++ Element.encode header.parameter ++ header.extension form

/-- The bytes of the header in the form chosen for it. -/
def encode (header : Header) (extendedOk : Bool) : Except Fault (List UInt8) :=
  (header.form extendedOk).map header.encodeAs

@[simp] theorem length_encodeAs (form : Form) (header : Header) :
    (header.encodeAs form).length = form.length := by
  cases form <;> simp [encodeAs, extension, Element.width] <;> rfl

/-! ### Reading a header -/

/-- The value of type `α` that starts at `offset`. -/
def fieldAt (α : Type) [Element α] (bytes : List UInt8) (offset : Nat) : α :=
  Element.decode ((bytes.drop offset).take (Element.width α))

/-- Reads a header of either form, and gives its form and the bytes after it. Refuses what no header
is written as: fewer bytes than the form has, marks that are not both there, and an extended header
whose values would have fitted the compact form. -/
def decode? (bytes : List UInt8) : Option (Header × Form × List UInt8) :=
  let size := fieldAt UInt16 bytes 2
  let count := fieldAt UInt16 bytes 6
  let compact : Header :=
    { command := fieldAt UInt16 bytes 0
      payloadSize := size.toUInt32
      dataType := fieldAt UInt16 bytes 4
      count := count.toUInt32
      channel := fieldAt UInt32 bytes 8
      parameter := fieldAt UInt32 bytes 12 }
  let extended : Header :=
    { compact with payloadSize := fieldAt UInt32 bytes 16, count := fieldAt UInt32 bytes 20 }
  if bytes.length < Form.compact.length then none
  else if compact.fitsCompact then some (compact, .compact, bytes.drop Form.compact.length)
  else if size ≠ extendedSizeMark ∨ count ≠ extendedCountMark then none
  else if bytes.length < Form.extended.length then none
  else if extended.fitsCompact then none
  else some (extended, .extended, bytes.drop Form.extended.length)

end Header

end WireQueue

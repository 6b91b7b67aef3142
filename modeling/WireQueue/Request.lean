import WireQueue.Alignment
import WireQueue.Header
import WireQueue.Payload

/-! # Requests that carry values

`Request.layout` turns a request into what goes on the wire: a header that announces the padded
size of the payload, the body, and the number of zeros after it. Everything that can be wrong with
a request, the choice of the header's form apart, is found there, before a byte is written.

A single element of type `DataType.string` is sent as its text up to the first NUL and one NUL,
and not as a full slot. -/

namespace WireQueue

structure Request where
  command : UInt16
  /-- A code that may or may not name a data type. -/
  typeCode : UInt32
  /-- Number of elements to send. -/
  count : UInt32
  channel : UInt32
  /-- A word whose meaning depends on the command. -/
  parameter : UInt32
  payload : Payload

/-- What a well-formed request puts on the wire. -/
structure Layout where
  header : Header
  /-- The text of a single string; otherwise the payload is sent element by element. -/
  text? : Option (List UInt8)
  /-- Zeros after the body. -/
  padding : Nat

namespace Request

/-- The text of a single string, if that is what the request sends: the bytes before the first NUL.
With its terminator it must fit one string element. -/
def text? (request : Request) (type : DataType) : Except Fault (Option (List UInt8)) :=
  match request.payload with
  | .string bytes =>
    if request.count = 1 ∧ type = .string then
      let text := bytes.takeWhile (· ≠ 0)
      if stringSize < text.length + 1 then
        .error (.tooLarge .stringLength (text.length + 1) stringSize)
      else .ok (some text)
    else .ok none
  | _ => .ok none

/-- Bytes of the body, before padding. -/
def bodySize (request : Request) (type : DataType) : Option (List UInt8) → UInt64
  | some text => UInt64.ofNat (text.length + 1)
  | none => type.payloadSize request.count

/-- The largest payload size that any header can announce. -/
def maxPayloadSize : Nat := UInt32.size - 1

/-- Header, body and padding of a request whose type and text are known. -/
def assemble (request : Request) (type : DataType) (text? : Option (List UInt8)) :
    Except Fault Layout :=
  let size := request.bodySize type text?
  let padded := alignUp size
  if maxPayloadSize < padded.toNat then
    .error (.tooLarge .payloadSize padded.toNat maxPayloadSize)
  else
    .ok
      { header :=
          { command := request.command
            payloadSize := padded.toUInt32
            dataType := type.code
            count := request.count
            channel := request.channel
            parameter := request.parameter }
        text?
        padding := (padded - size).toNat }

/-- What the request puts on the wire, or the first thing wrong with it: the type code, the
payload's kind, its number of elements, the length of a single string, the size altogether. -/
def layout (request : Request) : Except Fault Layout := do
  let type ← DataType.ofCode request.typeCode
  request.payload.check type request.count.toNat
  let text? ← request.text? type
  request.assemble type text?

end Request

end WireQueue

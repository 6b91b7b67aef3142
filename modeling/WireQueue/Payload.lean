import WireQueue.Element
import WireQueue.Fault

/-! # Payloads

A payload is the list of values that a caller offers to a request, typed by the form it holds them
in. A request asks it for the first few elements of some data type; `Payload.check` says whether
the payload can supply them. -/

namespace WireQueue

inductive Payload where
  /-- Strings packed in consecutive slots of `stringSize` bytes; a single string may be shorter. -/
  | string (bytes : List UInt8)
  | short (values : List Int16)
  /-- Unsigned words: indices of an enumeration, or acknowledgements. -/
  | enum (values : List UInt16)
  | float (values : List Binary32)
  | char (bytes : List UInt8)
  | long (values : List Int32)
  | double (values : List Binary64)

namespace Payload

def kind : Payload → Kind
  | string _ => .string
  | short _ | enum _ => .short
  | float _ => .float
  | char _ => .char
  | long _ => .long
  | double _ => .double

/-- Number of whole elements held. -/
def count : Payload → Nat
  | string bytes => bytes.length / stringSize
  | short values => values.length
  | enum values => values.length
  | float values => values.length
  | char bytes => bytes.length
  | long values => values.length
  | double values => values.length

/-- Number of elements that can be had for a request of `needed` elements of the type. A request for
a single string makes do with any nonempty text. -/
def available (payload : Payload) (type : DataType) (needed : Nat) : Nat :=
  match payload with
  | string bytes =>
    if needed = 1 ∧ type = .string then (if bytes.isEmpty then 0 else 1) else payload.count
  | _ => payload.count

/-- Whether the payload can supply `needed` elements of the type. -/
def check (payload : Payload) (type : DataType) (needed : Nat) : Except Fault Unit :=
  if payload.kind ≠ type.kind then .error (.wrongKind type type.kind)
  else
    let got := payload.available type needed
    if got < needed then .error (.tooFew needed got) else .ok ()

end Payload

/-- The first `needed` of the values. -/
def leading {α : Type} (values : List α) (needed : Nat) : Except Fault (List α) :=
  if needed ≤ values.length then .ok (values.take needed)
  else .error (.tooFew needed values.length)

end WireQueue

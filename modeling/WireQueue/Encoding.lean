import WireQueue.Operation

/-! # What a write puts on the wire

Every write stands for a list of units: numbers, elements and headers, none of which is cut by a
chunk border. `Write.units` gives them without a queue in sight, or the fault for which the write is
refused; `Write.encoding` is their bytes, one after the other. A queue that has chunks enough stores
exactly these bytes, and one that runs out of chunks stores the first few of the units. -/

namespace WireQueue

inductive WireUnit where
  | header (bytes : List UInt8)
  /-- A number, or one element of an array. -/
  | value (bytes : List UInt8)
  deriving DecidableEq

def WireUnit.bytes : WireUnit → List UInt8
  | header bytes => bytes
  | value bytes => bytes

/-- Each value is a unit of its own. -/
def valueUnits {α : Type} [Element α] (values : List α) : List WireUnit :=
  values.map fun value => .value (Element.encode value)

/-- The first `needed` of the values, as units. -/
def leadingUnits {α : Type} [Element α] (values : List α) (needed : Nat) :
    Except Fault (List WireUnit) :=
  (leading values needed).map valueUnits

/-- The first `count` elements; a string element is sent byte by byte. -/
def Payload.units (payload : Payload) (count : Nat) : Except Fault (List WireUnit) :=
  match payload with
  | .string bytes => leadingUnits bytes (count * stringSize)
  | .short values => leadingUnits values count
  | .enum values => leadingUnits values count
  | .float values => leadingUnits values count
  | .char bytes => leadingUnits bytes count
  | .long values => leadingUnits values count
  | .double values => leadingUnits values count

def Header.units (header : Header) (extendedOk : Bool) : Except Fault (List WireUnit) := do
  return [.header (← header.encode extendedOk)]

/-- The body of a request, between header and padding. -/
def Request.bodyUnits (request : Request) (layout : Layout) : Except Fault (List WireUnit) :=
  match layout.text? with
  | some text => .ok (valueUnits (text ++ [0]))
  | none => request.payload.units request.count.toNat

def Request.units (request : Request) (extendedOk : Bool) : Except Fault (List WireUnit) := do
  let layout ← request.layout
  let header ← layout.header.units extendedOk
  let body ← request.bodyUnits layout
  return header ++ body ++ valueUnits (List.replicate layout.padding (0 : UInt8))

namespace Write

/-- The units of a write, or why it is refused. -/
def units : Write → Except Fault (List WireUnit)
  | word16 value => .ok (valueUnits [value])
  | word32 value => .ok (valueUnits [value])
  | real32 value => .ok (valueUnits [value])
  | .bytes added => .ok (valueUnits added)
  | values type payload count => do
    payload.check type count.toNat
    payload.units count.toNat
  | .header opening extendedOk => opening.units extendedOk
  | .request whole extendedOk => whole.units extendedOk

/-- The bytes of a write, or why it is refused. -/
def encoding (write : Write) : Except Fault (List UInt8) :=
  write.units.map (List.flatMap WireUnit.bytes)

end Write

@[simp] theorem flatMap_valueUnits {α : Type} [Element α] (values : List α) :
    (valueUnits values).flatMap WireUnit.bytes = Element.encodeAll values := by
  induction values with
  | nil => simp [valueUnits]
  | cons value values ih =>
    rw [Element.encodeAll_cons, ← ih]
    rfl

end WireQueue

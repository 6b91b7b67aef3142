import WireQueue.DataType

/-! # Faults

Why a write is refused or stops. Each constructor of `Fault` is one cause with the figures that
belong to it; `Fault.message` has the wording. A queue gives all of them but the first one, which is
for suppliers. -/

namespace WireQueue

/-- A supplier's refusal to hand out a further chunk. -/
structure Shortage where
  /-- Chunks handed out and not given back. -/
  outstanding : Nat
  /-- The most that may be handed out. -/
  limit : Nat
  deriving DecidableEq

/-- A quantity that has an upper bound, by its name. -/
structure Quantity where
  name : String
  deriving DecidableEq

namespace Quantity

def payloadSize : Quantity := ⟨"payload size"⟩

def elementCount : Quantity := ⟨"element count"⟩

def stringLength : Quantity := ⟨"string length"⟩

end Quantity

inductive Fault where
  /-- No chunk was to be had. -/
  | exhausted (shortage : Shortage)
  /-- A quantity is above what the chosen form can carry. -/
  | tooLarge (quantity : Quantity) (value max : Nat)
  /-- The code names no data type that can be written. -/
  | unknownType (code : UInt32)
  /-- The payload holds another kind of element than the one that the data type calls for. -/
  | wrongKind (type : DataType) (kind : Kind)
  /-- The payload holds fewer elements than asked for. -/
  | tooFew (needed got : Nat)
  deriving DecidableEq

def Fault.message : Fault → String
  | exhausted shortage =>
    s!"buffer allocation failed: {shortage.outstanding} buffers outstanding " ++
      s!"(limit {shortage.limit})"
  | tooLarge quantity value max => s!"{quantity.name} out of bounds: {value} (max {max})"
  | unknownType code => s!"bad data type code: {code}"
  | wrongKind type kind => s!"payload does not match {type.name}: expected {kind.name} elements"
  | tooFew needed got => s!"payload too short: need {needed} elements, got {got}"

/-- The data type with the given code. -/
def DataType.ofCode (code : UInt32) : Except Fault DataType :=
  match DataType.ofCode? code with
  | some type => .ok type
  | none => .error (.unknownType code)

end WireQueue

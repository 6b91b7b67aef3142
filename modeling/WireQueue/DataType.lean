/-! # Data types

A request that carries values names their data type by a small code. The data type fixes the
*kind* of element the payload holds, and the kind fixes the encoded size of one element. Ten codes
can be written; the other codes below `DataType.codeBound` name compound types that a client only
reads.

`DataType.code` is the one table: `DataType.ofCode?` searches it, and `ofCode?_eq_some_iff` says
that the two are inverse to each other. -/

namespace WireQueue

/-- Bytes of one fixed-width string element, terminator included. -/
def stringSize : Nat := 40

/-- The native form of one element. -/
inductive Kind where
  | string
  | short
  | float
  | char
  | long
  | double
  deriving DecidableEq

namespace Kind

def name : Kind → String
  | string => "string"
  | short => "short"
  | float => "float"
  | char => "char"
  | long => "long"
  | double => "double"

/-- Encoded bytes of one element. -/
def size : Kind → Nat
  | string => stringSize
  | short => 2
  | float | long => 4
  | char => 1
  | double => 8

end Kind

/-- The data types that a request can write. -/
inductive DataType where
  | string
  | short
  | float
  | enum
  | char
  | long
  | double
  /-- Acknowledges transient alarms. -/
  | ackTransient
  /-- Acknowledges an alarm severity. -/
  | ackSeverity
  /-- The class name of a record. -/
  | className
  deriving DecidableEq

namespace DataType

/-- Every data type of the protocol has a code below this one. -/
def codeBound : Nat := 39

def all : List DataType :=
  [string, short, float, enum, char, long, double, ackTransient, ackSeverity, className]

/-- The code in a request header. -/
def code : DataType → UInt16
  | string => 0
  | short => 1
  | float => 2
  | enum => 3
  | char => 4
  | long => 5
  | double => 6
  | ackTransient => 35
  | ackSeverity => 36
  | className => 38

/-- The data type with the given code, if one can be written. -/
def ofCode? (code : UInt32) : Option DataType :=
  all.find? fun type => type.code.toUInt32 == code

def name : DataType → String
  | string => "DBR_STRING"
  | short => "DBR_SHORT"
  | float => "DBR_FLOAT"
  | enum => "DBR_ENUM"
  | char => "DBR_CHAR"
  | long => "DBR_LONG"
  | double => "DBR_DOUBLE"
  | ackTransient => "DBR_PUT_ACKT"
  | ackSeverity => "DBR_PUT_ACKS"
  | className => "DBR_CLASS_NAME"

/-- What one element of the type is encoded as: enumerations and acknowledgements are 16-bit words,
class names are strings. -/
def kind : DataType → Kind
  | string | className => .string
  | short | enum | ackTransient | ackSeverity => .short
  | float => .float
  | char => .char
  | long => .long
  | double => .double

/-- Encoded bytes of `count` elements, before padding. The largest product is far below `2 ^ 64`. -/
def payloadSize (type : DataType) (count : UInt32) : UInt64 :=
  count.toUInt64 * UInt64.ofNat type.kind.size

theorem mem_all (type : DataType) : type ∈ all := by
  cases type <;> decide

theorem code_inj {t u : DataType} (h : t.code.toUInt32 = u.code.toUInt32) : t = u := by
  revert h
  cases t <;> cases u <;> decide

/-- A code is found exactly if it is the code of a data type. -/
theorem ofCode?_eq_some_iff {code : UInt32} {type : DataType} :
    ofCode? code = some type ↔ code = type.code.toUInt32 := by
  have sound {code : UInt32} {type : DataType} (h : ofCode? code = some type) :
      code = type.code.toUInt32 := by
    have hfound := List.find?_some h
    exact (beq_iff_eq.mp hfound).symm
  constructor
  · exact sound
  · rintro rfl
    cases h : ofCode? type.code.toUInt32 with
    | none => exact absurd (beq_self_eq_true _) (List.find?_eq_none.mp h type (mem_all type))
    | some found => rw [code_inj (sound h)]

/-- The product does not wrap. -/
theorem toNat_payloadSize (type : DataType) (count : UInt32) :
    (type.payloadSize count).toNat = count.toNat * type.kind.size := by
  have hcount := count.toNat_lt
  rw [payloadSize, UInt64.toNat_mul, UInt32.toNat_toUInt64, UInt64.toNat_ofNat']
  cases type <;> simp only [kind, Kind.size, stringSize] <;> omega

end DataType

end WireQueue

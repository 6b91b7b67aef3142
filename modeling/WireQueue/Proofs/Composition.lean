import WireQueue.Proofs.Refusal

/-! # Writes made of smaller writes

What a caller writes at once could also be written piece by piece. `Attempt.inOrder` makes one write
after the other, up to the first that fails. The pieces fail where the whole does, and leave the
queue as the whole does: in the same chunks with the same marks, with the same counts, and with the
supplier in the same state.

* `Queue.spread_append`, `Queue.putUnits_eq_inOrder` — an array is its parts, down to single values.
* `Request.Sendable.layout_eq_assembled` — what the layout of a request in order is, field by field.
* `Request.exists_layout_iff` — and no other request has one.
* `Request.parts` — the writes that a request is made of. -/

namespace WireQueue

namespace Attempt

variable {M S : Type}

/-- One write after the other, up to the first that fails. -/
def inOrder (writes : List (Attempt M S)) : Attempt M S := writes.foldr andThen done

@[simp] theorem inOrder_nil : inOrder ([] : List (Attempt M S)) = done := rfl

@[simp] theorem inOrder_cons (write : Attempt M S) (writes : List (Attempt M S)) :
    inOrder (write :: writes) = write.andThen (inOrder writes) := rfl

end Attempt

namespace Queue

variable {M S : Type} [Supplier M]

/-! ### Arrays -/

/-- Placing units is placing the first one, then the second one, and so on. -/
theorem putUnits_eq_inOrder (units : List WireUnit) :
    (putUnits units : Attempt M S) = .inOrder (units.map putUnit) := by
  induction units with
  | nil => rfl
  | cons unit units ih => rw [putUnits_cons, ih, List.map_cons, Attempt.inOrder_cons]

section Arrays

variable {α : Type} [Element α]

theorem valueUnits_append (front back : List α) :
    valueUnits (front ++ back) = valueUnits front ++ valueUnits back :=
  List.map_append

/-- An array is added in two parts as well as in one. -/
theorem spread_append (front back : List α) :
    (spread (front ++ back) : Attempt M S) = (spread front).andThen (spread back) := by
  rw [spread_eq_putUnits, spread_eq_putUnits, spread_eq_putUnits, valueUnits_append,
    putUnits_append]

/-- **An array is its values.** Adding an array at once comes to adding its values one by one, up to
the first that finds no chunk. So bytes can be cut anywhere and added in two parts. -/
theorem spread_value_by_value :
    (∀ values : List α, (spread values : Attempt M S) = .inOrder (values.map putScalar)) ∧
      ∀ front back : List UInt8,
        (putBytes (front ++ back) : Attempt M S) = (putBytes front).andThen (putBytes back) := by
  refine ⟨?_, ?_⟩
  · intro values
    rw [spread_eq_putUnits, putUnits_eq_inOrder, valueUnits, List.map_map]
    -- As a unit, a value is placed by its bytes, and nothing is counted.
    rfl
  · intro front back
    exact spread_append front back

end Arrays

end Queue

/-! ### Requests -/

namespace Request

variable {request : Request} {type : DataType}

/-- The header of the request, which announces the padded size. -/
def header (request : Request) (type : DataType) : Header where
  command := request.command
  payloadSize := UInt32.ofNat (request.paddedSize type)
  dataType := type.code
  count := request.count
  channel := request.channel
  parameter := request.parameter

/-- Zeros behind the body of the request. -/
def zeros (request : Request) (type : DataType) : Nat :=
  request.paddedSize type - request.plainSize type

/-- The writes that make up the request: its header, its elements and zeros. The text of a single
string goes together with its zeros, of which one is its terminator. -/
def parts (request : Request) (type : DataType) (extendedOk : Bool) : List Write :=
  .header (request.header type) extendedOk ::
    match request.singleText? with
    | some text => [.bytes (text ++ List.replicate (request.zeros type + 1) 0)]
    | none =>
      [.values type request.payload request.count,
        .bytes (List.replicate (request.zeros type) 0)]

/-- Nothing in the layout of a request is lost in 32 or 64 bits. -/
theorem Sendable.layout_eq_assembled (h : request.Sendable type)
    (hsmall : request.paddedSize type < UInt32.size) :
    request.layout =
      .ok
        { header := request.header type
          text? := request.singleText?
          padding := request.zeros type } := by
  have hmax : ¬ maxPayloadSize < request.paddedSize type := Nat.not_le.mpr hsmall
  have hsize : (alignUp (request.bodySize type request.singleText?)).toUInt32 =
      UInt32.ofNat (request.paddedSize type) := by
    rw [← h.toNat_alignUp]
    rfl
  have hle : request.bodySize type request.singleText? ≤
      alignUp (request.bodySize type request.singleText?) := by
    rw [UInt64.le_iff_toNat_le, h.toNat_alignUp, h.toNat_bodySize, paddedSize]
    omega
  have hpadding : (alignUp (request.bodySize type request.singleText?) -
      request.bodySize type request.singleText?).toNat = request.zeros type := by
    rw [UInt64.toNat_sub_of_le _ _ hle, h.toNat_alignUp, h.toNat_bodySize, zeros]
  rw [h.layout_eq, assemble]
  simp only [h.toNat_alignUp, if_neg hmax, hsize, hpadding]
  rfl

/-- The requests in order are those that have a layout. -/
theorem exists_layout_iff (request : Request) :
    (∃ layout, request.layout = .ok layout) ↔
      ∃ type, request.Sendable type ∧ request.paddedSize type < UInt32.size := by
  constructor
  · rintro ⟨layout, hlayout⟩
    rcases request.layout_verdict with ⟨fault, herror, -⟩ | hsendable
    · rw [hlayout] at herror
      cases herror
    · exact hsendable
  · rintro ⟨type, hsendable, hsmall⟩
    exact ⟨_, hsendable.layout_eq_assembled hsmall⟩

end Request

namespace Queue

variable {M S : Type} [Supplier M]

/-- A text, its terminator and padding are so many bytes. -/
theorem putText_andThen_putPadding (text : List UInt8) (zeros : Nat) :
    ((putText text).andThen (putPadding zeros) : Attempt M S) =
      putBytes (text ++ List.replicate (zeros + 1) 0) := by
  have hbytes : text ++ List.replicate (zeros + 1) 0 = (text ++ [0]) ++ List.replicate zeros 0 := by
    rw [List.replicate_succ, List.append_assoc, List.singleton_append]
  rw [putText_eq, putPadding, putBytes, hbytes, spread_append, spread_eq_putUnits (text ++ [0])]

/-- **A request is its parts.** A request that is in order, up to the form of its header, is written
as its parts are one after the other, up to the first of them that fails. -/
theorem putRequest_part_by_part {request : Request} {type : DataType} (h : request.Sendable type)
    (hsmall : request.paddedSize type < UInt32.size) (extendedOk : Bool) :
    (putRequest request extendedOk : Attempt M S) =
      .inOrder ((request.parts type extendedOk).map Write.attempt) := by
  simp only [putRequest, h.layout_eq_assembled hsmall, Request.parts]
  cases htext : request.singleText? with
  | some text =>
    simp only [List.map_cons, List.map_nil, Attempt.inOrder_cons, Attempt.inOrder_nil,
      Attempt.andThen_done, Write.attempt, putText_andThen_putPadding]
  | none =>
    have hvalues : (putValues type request.payload request.count : Attempt M S) =
        putElements request.payload request.count.toNat := by
      simp only [putValues, h.check_eq_ok]
    simp only [List.map_cons, List.map_nil, Attempt.inOrder_cons, Attempt.inOrder_nil,
      Attempt.andThen_done, Write.attempt, hvalues, putPadding, putBytes]

/-- Two letters for a single string, and something behind them that is not sent. -/
def shortName : Request where
  command := 4
  typeCode := 0
  count := 1
  channel := 3
  parameter := 0
  payload := .string [111, 110, 0, 103]

/-- Two letters and their terminator take three bytes, and five zeros more. -/
theorem putRequest_part_by_part_shortName :
    shortName.Sendable .string ∧ shortName.paddedSize .string = 8 ∧
      (putRequest shortName false : Attempt Shelf Transcript) =
        .inOrder [putHeader ⟨4, 8, 0, 1, 3, 0⟩ false, putBytes [111, 110, 0, 0, 0, 0, 0, 0]] := by
  have hsendable : shortName.Sendable .string := by
    refine { names := rfl, kind := rfl, enough := by decide, fits := ?_ }
    intro text htext
    cases htext
    decide
  have hparts := putRequest_part_by_part (M := Shelf) (S := Transcript) hsendable (by decide) false
  exact ⟨hsendable, rfl, hparts.trans rfl⟩

end Queue

end WireQueue

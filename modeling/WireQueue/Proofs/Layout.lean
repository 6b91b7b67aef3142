import WireQueue.Encoding

/-! # What a layout promises

`Request.layout` settles everything about a request before a byte is written. Here is what a settled
layout is worth, said of the request alone: `Request.body` is what it sends between header and
padding.

* `Request.bodyUnits_of_layout` — the body can be written: no payload runs short later on.
* `Request.length_body_add_padding` — the announced size is the size of body and padding.
* `Request.padding_lt` and `Request.eight_dvd_payloadSize` — fewer than eight zeros, up to a
  multiple of eight. -/

namespace WireQueue

/-- A sequence of checks passes exactly if each of them does. -/
theorem bind_eq_ok {ε α β : Type} {first : Except ε α} {next : α → Except ε β} {result : β} :
    (first >>= next) = .ok result ↔ ∃ value, first = .ok value ∧ next value = .ok result := by
  cases first with
  | error fault =>
    constructor
    · intro h
      cases h
    · rintro ⟨_, h, -⟩
      cases h
  | ok value =>
    constructor
    · intro h
      exact ⟨value, rfl, h⟩
    · rintro ⟨_, h, hnext⟩
      cases h
      exact hnext

/-- Two steps fail with the fault of the first of them that fails. -/
theorem bind_eq_error {ε α β : Type} {first : Except ε α} {next : α → Except ε β} {fault : ε} :
    (first >>= next) = .error fault ↔
      first = .error fault ∨ ∃ value, first = .ok value ∧ next value = .error fault := by
  cases first with
  | error fault' =>
    constructor
    · intro h
      cases h
      exact Or.inl rfl
    · rintro (h | ⟨_, h, -⟩)
      · cases h
        rfl
      · cases h
  | ok value =>
    constructor
    · intro h
      exact Or.inr ⟨value, rfl, h⟩
    · rintro (h | ⟨_, h, hnext⟩)
      · cases h
      · cases h
        exact hnext

/-! ### The first elements of a payload -/

/-- The bytes of the first `count` elements. -/
def Payload.leadingBytes (payload : Payload) (count : Nat) : List UInt8 :=
  match payload with
  | .string bytes => bytes.take (count * stringSize)
  | .short values => Element.encodeAll (values.take count)
  | .enum values => Element.encodeAll (values.take count)
  | .float values => Element.encodeAll (values.take count)
  | .char bytes => bytes.take count
  | .long values => Element.encodeAll (values.take count)
  | .double values => Element.encodeAll (values.take count)

theorem leadingUnits_of_le {α : Type} [Element α] {values : List α} {needed : Nat}
    (h : needed ≤ values.length) :
    leadingUnits values needed = .ok (valueUnits (values.take needed)) := by
  rw [leadingUnits, leading, if_pos h]
  rfl

theorem leadingUnits_eq_ok {α : Type} [Element α] {values : List α} {needed : Nat}
    {units : List WireUnit} (h : leadingUnits values needed = .ok units) :
    units = valueUnits (values.take needed) := by
  rw [leadingUnits, leading] at h
  split at h
  · exact (Except.ok.inj h).symm
  · cases h

theorem length_encodeAll_take {α : Type} [Element α] {values : List α} {count : Nat}
    (h : count ≤ values.length) :
    (Element.encodeAll (values.take count)).length = count * Element.width α := by
  rw [Element.length_encodeAll, List.length_take, Nat.min_eq_left h]

/-- A payload that holds enough whole elements can write them. -/
theorem Payload.units_of_le_count {payload : Payload} {count : Nat} (h : count ≤ payload.count) :
    ∃ units, payload.units count = .ok units ∧
      units.flatMap WireUnit.bytes = payload.leadingBytes count := by
  cases payload with
  | string bytes =>
    have hbytes : count * stringSize ≤ bytes.length := (Nat.le_div_iff_mul_le (by decide)).mp h
    exact ⟨_, leadingUnits_of_le hbytes, flatMap_valueUnits _⟩
  | _ values => exact ⟨_, leadingUnits_of_le h, flatMap_valueUnits _⟩

/-- Elements take their number times the size of one. -/
theorem Payload.length_leadingBytes {payload : Payload} {count : Nat} (h : count ≤ payload.count) :
    (payload.leadingBytes count).length = count * payload.kind.size := by
  cases payload with
  | string bytes =>
    have hbytes : count * stringSize ≤ bytes.length := (Nat.le_div_iff_mul_le (by decide)).mp h
    rw [leadingBytes, List.length_take, Nat.min_eq_left hbytes]
    rfl
  | char bytes =>
    rw [leadingBytes, List.length_take, Nat.min_eq_left (show count ≤ bytes.length from h)]
    exact (Nat.mul_one _).symm
  | _ values => exact length_encodeAll_take h

theorem Kind.size_le (kind : Kind) : kind.size ≤ stringSize := by
  cases kind <;> decide

/-! ### The text of a single string -/

namespace Request

/-- The request is for one element of `DataType.string`, which is sent as a text. -/
def SendsText (request : Request) : Prop :=
  request.count = 1 ∧ request.typeCode = DataType.string.code.toUInt32

instance (request : Request) : Decidable request.SendsText :=
  inferInstanceAs (Decidable (_ ∧ _))

/-- What the request sends between header and padding: the text of a single string and its
terminator, or the first elements of the payload. -/
def body (request : Request) : List UInt8 :=
  match request.payload with
  | .string bytes =>
    if request.SendsText then bytes.takeWhile (· ≠ 0) ++ [0]
    else request.payload.leadingBytes request.count.toNat
  | payload => payload.leadingBytes request.count.toNat

/-- What is put together once type and text are known. -/
theorem eq_of_assemble {request : Request} {type : DataType} {text? : Option (List UInt8)}
    {layout : Layout} (h : request.assemble type text? = .ok layout) :
    (alignUp (request.bodySize type text?)).toNat ≤ maxPayloadSize ∧
      layout =
        { header :=
            { command := request.command
              payloadSize := (alignUp (request.bodySize type text?)).toUInt32
              dataType := type.code
              count := request.count
              channel := request.channel
              parameter := request.parameter }
          text?
          padding :=
            (alignUp (request.bodySize type text?) - request.bodySize type text?).toNat } := by
  simp only [assemble] at h
  split at h
  · cases h
  · next hmax => exact ⟨Nat.not_lt.mp hmax, (Except.ok.inj h).symm⟩

/-- Everything that was settled on the way to a layout. -/
theorem layout_eq_ok {request : Request} {layout : Layout} (h : request.layout = .ok layout) :
    ∃ type, DataType.ofCode request.typeCode = .ok type ∧
      request.payload.check type request.count.toNat = .ok () ∧
      request.text? type = .ok layout.text? ∧
      request.assemble type layout.text? = .ok layout := by
  obtain ⟨type, htype, h⟩ := bind_eq_ok.mp h
  obtain ⟨_, hcheck, h⟩ := bind_eq_ok.mp h
  obtain ⟨text?, htext, h⟩ := bind_eq_ok.mp h
  have hsame : layout.text? = text? := by
    rw [(eq_of_assemble h).2]
  rw [hsame]
  exact ⟨type, htype, hcheck, htext, h⟩

theorem typeCode_of_ofCode {code : UInt32} {type : DataType} (h : DataType.ofCode code = .ok type) :
    code = type.code.toUInt32 := by
  rw [DataType.ofCode] at h
  split at h
  · next found hfound =>
    cases h
    exact DataType.ofCode?_eq_some_iff.mp hfound
  · cases h

/-- A layout with a text is that of a request for a single string. -/
theorem text?_eq_some {request : Request} {type : DataType} {text : List UInt8}
    (h : request.text? type = .ok (some text)) :
    ∃ bytes, request.payload = .string bytes ∧ request.count = 1 ∧ type = .string ∧
      text = bytes.takeWhile (· ≠ 0) ∧ text.length + 1 ≤ stringSize := by
  rw [text?] at h
  split at h
  · next bytes hpayload =>
    split at h
    · next hsingle =>
      dsimp only at h
      split at h
      · cases h
      · next hfits =>
        cases h
        exact ⟨bytes, hpayload, hsingle.1, hsingle.2, rfl, Nat.not_lt.mp hfits⟩
    · cases h
  · cases h

/-- A layout without a text is that of any other request. -/
theorem text?_eq_none {request : Request} {type : DataType} {bytes : List UInt8}
    (h : request.text? type = .ok none) (hpayload : request.payload = .string bytes) :
    ¬ (request.count = 1 ∧ type = .string) := by
  intro hsingle
  rw [text?, hpayload] at h
  simp only [if_pos hsingle] at h
  split at h
  · cases h
  · cases h

/-- Past the check, a payload that is not sent as a text holds enough whole elements. -/
theorem count_le_of_check {request : Request} {type : DataType}
    (hcheck : request.payload.check type request.count.toNat = .ok ())
    (htext : request.text? type = .ok none) :
    request.count.toNat ≤ request.payload.count := by
  -- Only a single string is counted in another way, and that would be sent as a text.
  have havailable : request.payload.available type request.count.toNat = request.payload.count := by
    unfold Payload.available
    split
    · next bytes hpayload =>
      have hmany : ¬ (request.count.toNat = 1 ∧ type = .string) := by
        rintro ⟨hone, htype⟩
        exact text?_eq_none htext hpayload ⟨UInt32.toNat_inj.mp hone, htype⟩
      rw [if_neg hmany]
    · rfl
  rw [Payload.check] at hcheck
  split at hcheck
  · cases hcheck
  · dsimp only at hcheck
    split at hcheck
    · cases hcheck
    · omega

theorem kind_of_check {payload : Payload} {type : DataType} {count : Nat}
    (hcheck : payload.check type count = .ok ()) : payload.kind = type.kind := by
  rw [Payload.check] at hcheck
  split at hcheck
  · cases hcheck
  · next h => exact Decidable.not_not.mp h

/-- Where there is a text, the body is the text with its terminator. -/
theorem body_eq_text {request : Request} {type : DataType} {text : List UInt8}
    (htype : DataType.ofCode request.typeCode = .ok type)
    (htext : request.text? type = .ok (some text)) : request.body = text ++ [0] := by
  obtain ⟨bytes, hpayload, hcount, rfl, rfl, -⟩ := text?_eq_some htext
  have hsends : request.SendsText := ⟨hcount, typeCode_of_ofCode htype⟩
  rw [body, hpayload]
  exact if_pos hsends

/-- Where there is no text, the body is the first elements of the payload. -/
theorem body_eq_leadingBytes {request : Request} {type : DataType}
    (htype : DataType.ofCode request.typeCode = .ok type)
    (htext : request.text? type = .ok none) :
    request.body = request.payload.leadingBytes request.count.toNat := by
  rw [body]
  split
  · next bytes hpayload =>
    have hmany : ¬ request.SendsText := by
      rintro ⟨hcount, hstring⟩
      have hcode := typeCode_of_ofCode htype
      exact text?_eq_none htext hpayload ⟨hcount, DataType.code_inj (hcode ▸ hstring)⟩
    rw [if_neg hmany]
  · rfl

/-- The body of a settled layout can be written, and it is `Request.body`. -/
theorem bodyUnits_of_layout {request : Request} {layout : Layout}
    (h : request.layout = .ok layout) :
    ∃ units, request.bodyUnits layout = .ok units ∧
      units.flatMap WireUnit.bytes = request.body := by
  obtain ⟨type, htype, hcheck, htext, -⟩ := layout_eq_ok h
  cases hlayout : layout.text? with
  | some text =>
    rw [hlayout] at htext
    refine ⟨valueUnits (text ++ [0]), ?_, ?_⟩
    · rw [bodyUnits, hlayout]
    · rw [flatMap_valueUnits, body_eq_text htype htext]
      rfl
  | none =>
    rw [hlayout] at htext
    obtain ⟨units, hunits, hbytes⟩ := Payload.units_of_le_count (count_le_of_check hcheck htext)
    refine ⟨units, ?_, ?_⟩
    · rw [bodyUnits, hlayout]
      exact hunits
    · rw [hbytes, body_eq_leadingBytes htype htext]

/-! ### The units of a whole request -/

theorem units_of_layout_error {request : Request} {fault : Fault}
    (hlayout : request.layout = .error fault) (extendedOk : Bool) :
    request.units extendedOk = .error fault := by
  rw [units, hlayout]
  rfl

theorem units_of_form_error {request : Request} {layout : Layout} {extendedOk : Bool}
    {fault : Fault} (hlayout : request.layout = .ok layout)
    (hform : layout.header.form extendedOk = .error fault) :
    request.units extendedOk = .error fault := by
  simp only [units, hlayout, Header.units, Header.encode, hform, bind, Except.bind, Except.map]

/-- Header, body and padding, one after the other. -/
theorem units_of_form {request : Request} {layout : Layout} {extendedOk : Bool}
    {form : Header.Form} {body : List WireUnit} (hlayout : request.layout = .ok layout)
    (hform : layout.header.form extendedOk = .ok form)
    (hbody : request.bodyUnits layout = .ok body) :
    request.units extendedOk =
      .ok (.header (layout.header.encodeAs form) :: body ++
        valueUnits (List.replicate layout.padding (0 : UInt8))) := by
  simp only [units, hlayout, Header.units, Header.encode, hform, hbody, bind, Except.bind,
    Except.map, pure, Except.pure, List.singleton_append]

/-! ### Sizes -/

/-- The body has the size that was computed for it. -/
theorem toNat_bodySize {request : Request} {type : DataType} {text? : Option (List UInt8)}
    (htype : DataType.ofCode request.typeCode = .ok type)
    (hcheck : request.payload.check type request.count.toNat = .ok ())
    (htext : request.text? type = .ok text?) :
    (request.bodySize type text?).toNat = request.body.length := by
  cases text? with
  | some text =>
    obtain ⟨-, -, -, -, -, hfits⟩ := text?_eq_some htext
    have hsmall : text.length + 1 < UInt64.size := Nat.lt_of_le_of_lt hfits (by decide)
    rw [bodySize, UInt64.toNat_ofNat_of_lt' hsmall, body_eq_text htype htext, List.length_append,
      List.length_singleton]
  | none =>
    rw [bodySize, DataType.toNat_payloadSize, body_eq_leadingBytes htype htext,
      Payload.length_leadingBytes (count_le_of_check hcheck htext), kind_of_check hcheck]

/-- No body comes near the end of the 64-bit range. -/
theorem length_body_le {request : Request} {type : DataType} {text? : Option (List UInt8)}
    (htype : DataType.ofCode request.typeCode = .ok type)
    (hcheck : request.payload.check type request.count.toNat = .ok ())
    (htext : request.text? type = .ok text?) : request.body.length ≤ UInt32.size * stringSize := by
  cases text? with
  | some text =>
    obtain ⟨-, -, -, -, -, hfits⟩ := text?_eq_some htext
    rw [body_eq_text htype htext, List.length_append, List.length_singleton]
    exact Nat.le_trans hfits (by decide)
  | none =>
    rw [body_eq_leadingBytes htype htext,
      Payload.length_leadingBytes (count_le_of_check hcheck htext)]
    exact Nat.mul_le_mul (Nat.le_of_lt request.count.toNat_lt) (Kind.size_le _)

/-- What `Request.assemble` puts together, in numbers. -/
theorem sizes_of_layout {request : Request} {layout : Layout} (h : request.layout = .ok layout) :
    layout.header.payloadSize.toNat = (request.body.length + 7) / 8 * 8 ∧
      layout.padding = (request.body.length + 7) / 8 * 8 - request.body.length := by
  obtain ⟨type, htype, hcheck, htext, h⟩ := layout_eq_ok h
  have hsize := toNat_bodySize htype hcheck htext
  have hle := length_body_le htype hcheck htext
  have hpadded : (alignUp (request.bodySize type layout.text?)).toNat =
      (request.body.length + 7) / 8 * 8 := by
    rw [toNat_alignUp, hsize]
    -- Rounding up does not wrap around.
    rw [hsize]
    rw [UInt32.size, stringSize] at hle
    rw [UInt64.size]
    omega
  obtain ⟨hmax, hlayout⟩ := eq_of_assemble h
  rw [hpadded, maxPayloadSize, UInt32.size] at hmax
  rw [hlayout]
  refine ⟨?_, ?_⟩
  · rw [UInt64.toNat_toUInt32, hpadded]
    omega
  · rw [UInt64.toNat_sub_of_le, hpadded, hsize]
    rw [UInt64.le_iff_toNat_le, hpadded, hsize]
    omega

/-- Body and padding are what the header announces. -/
theorem length_body_add_padding {request : Request} {layout : Layout}
    (h : request.layout = .ok layout) :
    request.body.length + layout.padding = layout.header.payloadSize.toNat := by
  obtain ⟨hsize, hpadding⟩ := sizes_of_layout h
  omega

/-- Fewer than eight zeros are added. -/
theorem padding_lt {request : Request} {layout : Layout} (h : request.layout = .ok layout) :
    layout.padding < 8 := by
  obtain ⟨-, hpadding⟩ := sizes_of_layout h
  omega

/-- The size that the header announces is a multiple of eight. -/
theorem eight_dvd_payloadSize {request : Request} {layout : Layout}
    (h : request.layout = .ok layout) : 8 ∣ layout.header.payloadSize.toNat := by
  obtain ⟨hsize, -⟩ := sizes_of_layout h
  exact ⟨_, hsize.trans (Nat.mul_comm _ _)⟩

end Request

end WireQueue

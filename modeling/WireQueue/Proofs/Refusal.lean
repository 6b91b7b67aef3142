import WireQueue.Proofs.Growth
import WireQueue.Proofs.HeaderCodec
import WireQueue.Supplier.Shelf

/-! # Which requests are refused

A request is checked in a fixed order before a byte of it is written. `Request.Refused` lists the
reasons for a refusal in terms of the request alone, each with the checks that were passed before
it.

* `Request.refused_of_units`, `Request.units_of_refused` — these are the reasons, and there are no
  others.
* `Write.eq_of_fault` — a refused write, of any kind, leaves the queue as it was.
* `Queue.putRequest_eq_error_iff` — so the queue refuses a request exactly for its reason, and past
  the checks only the supplier can stop it. -/

namespace WireQueue

/-- The codes that a request may give for its data type. -/
def DataType.writableCodes : List UInt32 := [0, 1, 2, 3, 4, 5, 6, 35, 36, 38]

theorem DataType.mem_writableCodes_iff {code : UInt32} :
    code ∈ writableCodes ↔ ∃ type : DataType, code = type.code.toUInt32 := by
  have hcodes : writableCodes = all.map fun type => type.code.toUInt32 := by decide
  rw [hcodes, List.mem_map]
  constructor
  · rintro ⟨type, -, rfl⟩
    exact ⟨type, rfl⟩
  · rintro ⟨type, rfl⟩
    exact ⟨type, mem_all type, rfl⟩

namespace Request

/-! ### What a request asks for -/

/-- The request gives the code of the type. -/
def Names (request : Request) (type : DataType) : Prop := request.typeCode = type.code.toUInt32

/-- The text of a request for a single string: the bytes before the first NUL. -/
def singleText? (request : Request) : Option (List UInt8) :=
  match request.payload with
  | .string bytes => if request.SendsText then some (bytes.takeWhile (· ≠ 0)) else none
  | _ => none

/-- Elements that the payload has for the request. A string element is a full slot, but any nonempty
text will do for a single string. -/
def held (request : Request) : Nat :=
  match request.payload with
  | .string bytes => if request.SendsText then min 1 bytes.length else bytes.length / stringSize
  | payload => payload.count

/-- Bytes between header and padding: a text and its terminator, or the elements asked for. -/
def plainSize (request : Request) (type : DataType) : Nat :=
  match request.singleText? with
  | some text => text.length + 1
  | none => request.count.toNat * type.kind.size

/-- Bytes after the header, padding included. -/
def paddedSize (request : Request) (type : DataType) : Nat :=
  (request.plainSize type + 7) / 8 * 8

/-- The payload has the elements asked for. -/
structure Supplied (request : Request) (type : DataType) : Prop where
  names : request.Names type
  kind : request.payload.kind = type.kind
  enough : request.count.toNat ≤ request.held

/-- The payload has the elements asked for, and a text and its terminator fit one string element. -/
structure Sendable (request : Request) (type : DataType) : Prop extends Supplied request type where
  fits : ∀ text, request.singleText? = some text → text.length < stringSize

/-- The request is refused for the given reason. -/
inductive Refused (request : Request) (extendedOk : Bool) : Fault → Prop where
  | unknownType (h : request.typeCode ∉ DataType.writableCodes) :
      Refused request extendedOk (.unknownType request.typeCode)
  | wrongKind {type : DataType} (h : request.Names type)
      (hkind : request.payload.kind ≠ type.kind) :
      Refused request extendedOk (.wrongKind type type.kind)
  | tooFew {type : DataType} (h : request.Names type) (hkind : request.payload.kind = type.kind)
      (hfew : request.held < request.count.toNat) :
      Refused request extendedOk (.tooFew request.count.toNat request.held)
  | longText {type : DataType} {text : List UInt8} (h : request.Supplied type)
      (htext : request.singleText? = some text) (hlong : stringSize ≤ text.length) :
      Refused request extendedOk (.tooLarge .stringLength (text.length + 1) stringSize)
  /-- No header can announce the payload. -/
  | hugePayload {type : DataType} (h : request.Sendable type)
      (hhuge : UInt32.size ≤ request.paddedSize type) :
      Refused request extendedOk
        (.tooLarge .payloadSize (request.paddedSize type) (UInt32.size - 1))
  /-- No compact header can announce the payload, and the receiver reads no other. -/
  | longPayload {type : DataType} (h : request.Sendable type)
      (hsmall : request.paddedSize type < UInt32.size) (hcompact : extendedOk = false)
      (hlong : 65534 < request.paddedSize type) :
      Refused request extendedOk (.tooLarge .payloadSize (request.paddedSize type) 65534)

variable {request : Request} {type : DataType}

/-! ### The checks, one by one -/

theorem ofCode_of_names (h : request.Names type) :
    DataType.ofCode request.typeCode = .ok type := by
  rw [DataType.ofCode, DataType.ofCode?_eq_some_iff.mpr h]

theorem ofCode_of_not_mem (h : request.typeCode ∉ DataType.writableCodes) :
    DataType.ofCode request.typeCode = .error (.unknownType request.typeCode) := by
  rw [DataType.ofCode]
  split
  · next type hfound =>
    have hcode := DataType.ofCode?_eq_some_iff.mp hfound
    exact absurd (DataType.mem_writableCodes_iff.mpr ⟨type, hcode⟩) h
  · rfl

/-- Where the type is known, so is what counts as a single string. -/
theorem sendsText_iff (h : request.Names type) :
    request.SendsText ↔ request.count = 1 ∧ type = .string := by
  constructor
  · rintro ⟨hcount, hstring⟩
    exact ⟨hcount, DataType.code_inj (h.symm.trans hstring)⟩
  · rintro ⟨hcount, rfl⟩
    exact ⟨hcount, h⟩

theorem available_eq_held (h : request.Names type) :
    request.payload.available type request.count.toNat = request.held := by
  unfold Payload.available held
  cases request.payload with
  | string bytes =>
    have hone : request.count.toNat = 1 ↔ request.count = 1 :=
      UInt32.toNat_inj (b := (1 : UInt32))
    have hsingle : (request.count.toNat = 1 ∧ type = .string) ↔ request.SendsText := by
      rw [sendsText_iff h, hone]
    by_cases hsends : request.SendsText
    · simp only [if_pos hsends, if_pos (hsingle.mpr hsends)]
      cases bytes <;> simp
    · simp only [if_neg hsends, if_neg (mt hsingle.mp hsends), Payload.count]
  | _ => rfl

theorem check_eq (h : request.Names type) :
    request.payload.check type request.count.toNat =
      if request.payload.kind ≠ type.kind then .error (.wrongKind type type.kind)
      else if request.held < request.count.toNat then
        .error (.tooFew request.count.toNat request.held)
      else .ok () := by
  rw [Payload.check, available_eq_held h]

theorem text?_eq (h : request.Names type) :
    request.text? type =
      match request.singleText? with
      | none => .ok none
      | some text =>
        if stringSize < text.length + 1 then
          .error (.tooLarge .stringLength (text.length + 1) stringSize)
        else .ok (some text) := by
  unfold text? singleText?
  cases request.payload with
  | string bytes =>
    by_cases hsends : request.SendsText
    · simp only [if_pos hsends, if_pos ((sendsText_iff h).mp hsends)]
    · simp only [if_neg hsends, if_neg (mt (sendsText_iff h).mpr hsends)]
  | _ => rfl

/-- The text of a single string is settled as it stands. -/
theorem Sendable.text?_eq (h : request.Sendable type) :
    request.text? type = .ok request.singleText? := by
  rw [Request.text?_eq h.names]
  cases htext : request.singleText? with
  | none => rfl
  | some text =>
    have hfits := h.fits text htext
    simp only [if_neg (show ¬ stringSize < text.length + 1 by omega)]

theorem Sendable.toNat_bodySize (h : request.Sendable type) :
    (request.bodySize type request.singleText?).toNat = request.plainSize type := by
  unfold plainSize
  cases htext : request.singleText? with
  | none => exact DataType.toNat_payloadSize type request.count
  | some text =>
    have hsmall : text.length + 1 < UInt64.size :=
      Nat.lt_of_le_of_lt (h.fits text htext) (by decide)
    exact UInt64.toNat_ofNat_of_lt' hsmall

/-- The size is rounded up without a wrap. -/
theorem Sendable.toNat_alignUp (h : request.Sendable type) :
    (alignUp (request.bodySize type request.singleText?)).toNat = request.paddedSize type := by
  have hplain : request.plainSize type ≤ UInt32.size * stringSize := by
    unfold plainSize
    cases htext : request.singleText? with
    | none => exact Nat.mul_le_mul (Nat.le_of_lt request.count.toNat_lt) (Kind.size_le _)
    | some text => exact Nat.le_trans (h.fits text htext) (by decide)
  rw [UInt32.size, stringSize] at hplain
  rw [WireQueue.toNat_alignUp, h.toNat_bodySize, paddedSize]
  rw [h.toNat_bodySize, UInt64.size]
  omega

/-- A payload has at least one byte for each element. -/
theorem count_le_paddedSize (h : request.Names type) :
    request.count.toNat ≤ request.paddedSize type := by
  have hplain : request.count.toNat ≤ request.plainSize type := by
    unfold plainSize
    cases htext : request.singleText? with
    | none =>
      have hsize : 0 < type.kind.size := by cases type <;> decide
      exact Nat.le_mul_of_pos_right _ hsize
    | some text =>
      -- Only a request for one element sends a text.
      have hsends : request.SendsText := by
        unfold singleText? at htext
        split at htext
        · exact (Option.ite_none_right_eq_some.mp htext).1
        · cases htext
      have hone : request.count.toNat = 1 := congrArg UInt32.toNat hsends.1
      dsimp only
      omega
  rw [paddedSize]
  omega

/-! ### The layout, check by check -/

theorem layout_of_not_mem (h : request.typeCode ∉ DataType.writableCodes) :
    request.layout = .error (.unknownType request.typeCode) := by
  rw [layout, ofCode_of_not_mem h]
  rfl

theorem layout_of_names (h : request.Names type) :
    request.layout = (do
      request.payload.check type request.count.toNat
      request.assemble type (← request.text? type)) := by
  rw [layout, ofCode_of_names h]
  rfl

theorem layout_of_kind_ne (h : request.Names type) (hkind : request.payload.kind ≠ type.kind) :
    request.layout = .error (.wrongKind type type.kind) := by
  rw [layout_of_names h, check_eq h, if_pos hkind]
  rfl

theorem layout_of_held_lt (h : request.Names type) (hkind : request.payload.kind = type.kind)
    (hfew : request.held < request.count.toNat) :
    request.layout = .error (.tooFew request.count.toNat request.held) := by
  rw [layout_of_names h, check_eq h, if_neg (not_not_intro hkind), if_pos hfew]
  rfl

theorem Supplied.check_eq_ok (h : request.Supplied type) :
    request.payload.check type request.count.toNat = .ok () := by
  rw [check_eq h.names, if_neg (not_not_intro h.kind), if_neg (Nat.not_lt.mpr h.enough)]

theorem Supplied.layout_of_long (h : request.Supplied type) {text : List UInt8}
    (htext : request.singleText? = some text) (hlong : stringSize ≤ text.length) :
    request.layout = .error (.tooLarge .stringLength (text.length + 1) stringSize) := by
  rw [layout_of_names h.names, h.check_eq_ok, text?_eq h.names, htext]
  simp only [if_pos (Nat.lt_succ_of_le hlong)]
  rfl

theorem Sendable.layout_eq (h : request.Sendable type) :
    request.layout = request.assemble type request.singleText? := by
  rw [layout_of_names h.names, h.check_eq_ok, h.text?_eq]
  rfl

/-- The last check of the layout: some header can announce the size. -/
theorem Sendable.layout_of_huge (h : request.Sendable type)
    (hhuge : UInt32.size ≤ request.paddedSize type) :
    request.layout =
      .error (.tooLarge .payloadSize (request.paddedSize type) (UInt32.size - 1)) := by
  have hmax : maxPayloadSize < request.paddedSize type := hhuge
  rw [h.layout_eq, assemble]
  simp only [h.toNat_alignUp, if_pos hmax]
  rfl

/-- Of a header whose size is at least its count, only the size can be too large. -/
theorem form_eq {header : Header} (hcount : header.count.toNat ≤ header.payloadSize.toNat)
    (extendedOk : Bool) :
    header.form extendedOk =
      if header.payloadSize.toNat ≤ 65534 then .ok .compact
      else if extendedOk then .ok .extended
      else .error (.tooLarge .payloadSize header.payloadSize.toNat 65534) := by
  have hlimit : Header.compactLimit.toNat = 65535 := rfl
  have hfits : header.fitsCompact = true ↔ header.payloadSize.toNat ≤ 65534 := by
    rw [Header.fitsCompact_iff]
    omega
  by_cases hsize : header.payloadSize.toNat ≤ 65534
  · rw [Header.form, if_pos (hfits.mpr hsize), if_pos hsize]
  · have hlarge : Header.compactLimit ≤ header.payloadSize := by
      rw [UInt32.le_iff_toNat_le, hlimit]
      omega
    rw [Header.form, if_neg (mt hfits.mp hsize), if_neg hsize]
    simp only [if_pos hlarge]
    rfl

/-- Past all checks of the layout, the form of the header is left to choose. -/
theorem Sendable.layout_of_small (h : request.Sendable type)
    (hsmall : request.paddedSize type < UInt32.size) :
    ∃ layout, request.layout = .ok layout ∧ ∀ extendedOk, layout.header.form extendedOk =
      if request.paddedSize type ≤ 65534 then .ok .compact
      else if extendedOk then .ok .extended
      else .error (.tooLarge .payloadSize (request.paddedSize type) 65534) := by
  have hmax : ¬ maxPayloadSize < request.paddedSize type := Nat.not_le.mpr hsmall
  have hsize : (alignUp (request.bodySize type request.singleText?)).toUInt32.toNat =
      request.paddedSize type := by
    rw [UInt64.toNat_toUInt32, h.toNat_alignUp]
    exact Nat.mod_eq_of_lt hsmall
  rw [h.layout_eq, assemble]
  simp only [h.toNat_alignUp, if_neg hmax]
  refine ⟨_, rfl, ?_⟩
  intro extendedOk
  rw [form_eq, hsize]
  dsimp only
  rw [hsize]
  exact count_le_paddedSize h.names

/-- **The verdict of the layout.** Either there is a reason to refuse the request, or all is well up
to the form of its header. -/
theorem layout_verdict (request : Request) :
    (∃ fault, request.layout = .error fault ∧ ∀ extendedOk, request.Refused extendedOk fault) ∨
      ∃ type, request.Sendable type ∧ request.paddedSize type < UInt32.size := by
  by_cases hwritable : request.typeCode ∈ DataType.writableCodes
  case neg => exact Or.inl ⟨_, layout_of_not_mem hwritable, fun _ => .unknownType hwritable⟩
  obtain ⟨type, hnames⟩ := DataType.mem_writableCodes_iff.mp hwritable
  by_cases hkind : request.payload.kind = type.kind
  case neg => exact Or.inl ⟨_, layout_of_kind_ne hnames hkind, fun _ => .wrongKind hnames hkind⟩
  by_cases hfew : request.held < request.count.toNat
  case pos =>
    exact Or.inl ⟨_, layout_of_held_lt hnames hkind hfew, fun _ => .tooFew hnames hkind hfew⟩
  have hsupplied : request.Supplied type := ⟨hnames, hkind, Nat.not_lt.mp hfew⟩
  by_cases hlong : ∃ text, request.singleText? = some text ∧ stringSize ≤ text.length
  case pos =>
    obtain ⟨text, htext, hlong⟩ := hlong
    exact Or.inl ⟨_, hsupplied.layout_of_long htext hlong, fun _ => .longText hsupplied htext hlong⟩
  have hsendable : request.Sendable type := by
    refine ⟨hsupplied, ?_⟩
    intro text htext
    exact Nat.not_le.mp fun hle => hlong ⟨text, htext, hle⟩
  by_cases hhuge : UInt32.size ≤ request.paddedSize type
  case pos =>
    exact Or.inl ⟨_, hsendable.layout_of_huge hhuge, fun _ => .hugePayload hsendable hhuge⟩
  exact Or.inr ⟨type, hsendable, Nat.not_le.mp hhuge⟩

/-! ### Refused for a reason -/

/-- What a request fails for is a reason to refuse it. -/
theorem refused_of_units {extendedOk : Bool} {fault : Fault}
    (h : request.units extendedOk = .error fault) : request.Refused extendedOk fault := by
  rcases request.layout_verdict with ⟨fault', hlayout, hrefused⟩ | ⟨type, hsendable, hsmall⟩
  · rw [units_of_layout_error hlayout] at h
    cases h
    exact hrefused extendedOk
  · obtain ⟨layout, hlayout, hform⟩ := hsendable.layout_of_small hsmall
    have hform := hform extendedOk
    cases hchosen : layout.header.form extendedOk with
    | ok form =>
      obtain ⟨body, hbody, -⟩ := bodyUnits_of_layout hlayout
      rw [units_of_form hlayout hchosen hbody] at h
      cases h
    | error fault' =>
      rw [units_of_form_error hlayout hchosen] at h
      cases h
      rw [hchosen] at hform
      split at hform
      · cases hform
      · next hlong =>
        split at hform
        · cases hform
        · next hcompact =>
          cases hform
          exact .longPayload hsendable hsmall (Bool.eq_false_iff.mpr hcompact)
            (Nat.not_le.mp hlong)

/-- A request fails for every reason that there is to refuse it. -/
theorem units_of_refused {extendedOk : Bool} {fault : Fault}
    (h : request.Refused extendedOk fault) : request.units extendedOk = .error fault := by
  cases h with
  | unknownType h => exact units_of_layout_error (layout_of_not_mem h) extendedOk
  | wrongKind h hkind => exact units_of_layout_error (layout_of_kind_ne h hkind) extendedOk
  | tooFew h hkind hfew => exact units_of_layout_error (layout_of_held_lt h hkind hfew) extendedOk
  | longText h htext hlong => exact units_of_layout_error (h.layout_of_long htext hlong) extendedOk
  | hugePayload h hhuge => exact units_of_layout_error (h.layout_of_huge hhuge) extendedOk
  | longPayload h hsmall hcompact hlong =>
    obtain ⟨layout, hlayout, hform⟩ := h.layout_of_small hsmall
    apply units_of_form_error hlayout
    rw [hform, if_neg (Nat.not_le.mpr hlong), hcompact]
    rfl

/-- There is no reason to do with the number of elements: each of them takes a byte, so that the
size is too large first. -/
theorem not_refused_elementCount (extendedOk : Bool) (value max : Nat) :
    ¬ request.Refused extendedOk (.tooLarge .elementCount value max) := by
  intro h
  -- The quantities that are too large have other names.
  generalize hquantity : Quantity.elementCount = quantity at h
  cases h <;> exact absurd hquantity (by decide)

end Request

/-! ### Without a trace -/

/-- **Refused without a trace.** A write that fails with a fault that is not the supplier's has no
units, and leaves the queue as it was. -/
theorem Write.eq_of_fault {M S : Type} [Supplier M] {write : Write} {q : Queue M S} {fault : Fault}
    (hfault : ¬ Supplier.Refuses M fault)
    (h : (write.attempt q).1 = .error fault) :
    write.units = .error fault ∧ (write.attempt q).2 = q := by
  rcases Write.attempt_error_cases h with ⟨_, _, _, _, -, hsupplier, -, -⟩ | hrefused
  · exact absurd hsupplier.refuses hfault
  · exact hrefused

/-! ### Not for a lack of chunks -/

theorem Payload.units_ne_exhausted (payload : Payload) (count : Nat) (shortage : Shortage) :
    payload.units count ≠ .error (.exhausted shortage) := by
  have hleading {α : Type} [Element α] (values : List α) (needed : Nat) :
      leadingUnits values needed ≠ .error (.exhausted shortage) := by
    intro h
    rw [leadingUnits, leading] at h
    split at h <;> cases h
  cases payload <;> exact hleading _ _

theorem Payload.check_ne_exhausted (payload : Payload) (type : DataType) (needed : Nat)
    (shortage : Shortage) : payload.check type needed ≠ .error (.exhausted shortage) := by
  intro h
  rw [Payload.check] at h
  split at h
  · cases h
  · dsimp only at h
    split at h <;> cases h

theorem Header.form_ne_exhausted (header : Header) (extendedOk : Bool) (shortage : Shortage) :
    header.form extendedOk ≠ .error (.exhausted shortage) := by
  intro h
  rw [Header.form] at h
  split at h
  · cases h
  · split at h
    · cases h
    · dsimp only at h
      split at h <;> cases h

/-- A lack of chunks is no reason to refuse a write before it is begun. -/
theorem Write.units_ne_exhausted (write : Write) (shortage : Shortage) :
    write.units ≠ .error (.exhausted shortage) := by
  intro h
  cases write with
  | values type payload count =>
    rcases bind_eq_error.mp h with h | ⟨_, -, h⟩
    · exact Payload.check_ne_exhausted payload type _ shortage h
    · exact Payload.units_ne_exhausted payload _ shortage h
  | header opening extendedOk =>
    rcases bind_eq_error.mp h with h | ⟨_, -, h⟩
    · rw [Header.encode] at h
      cases hform : opening.form extendedOk with
      | ok form =>
        rw [hform] at h
        cases h
      | error fault =>
        rw [hform] at h
        cases h
        exact Header.form_ne_exhausted opening extendedOk shortage hform
    · cases h
  | request whole extendedOk => cases Request.refused_of_units h
  | _ => cases h

namespace Queue

variable {M S : Type} [Supplier M]

/-- What callers may rely on when a write is refused, if the supplier has no fault of another kind
than a lack of chunks. -/
structure RefusesExactly (q : Queue M S) : Prop where
  /-- A request is refused for the reason there is, and for no other. -/
  refused : ∀ request extendedOk fault, (∀ shortage, fault ≠ .exhausted shortage) →
    ((q.putRequest request extendedOk).1 = .error fault ↔ request.Refused extendedOk fault)
  /-- Where there is no reason to refuse a request, only a lack of chunks can stop it. -/
  accepted : ∀ request extendedOk, (∀ fault, ¬ request.Refused extendedOk fault) →
    (q.putRequest request extendedOk).1 = .ok () ∨
      ∃ shortage, (q.putRequest request extendedOk).1 = .error (.exhausted shortage)
  /-- The number of elements is never what is too large. -/
  count : ∀ request extendedOk value max,
    (q.putRequest request extendedOk).1 ≠ .error (.tooLarge .elementCount value max)
  /-- A write that is refused, of whatever kind, leaves everything as it was. -/
  unchanged : ∀ (write : Write) fault, (∀ shortage, fault ≠ .exhausted shortage) →
    (write.attempt q).1 = .error fault → (write.attempt q).2 = q

/-- A fault that the supplier does not have is a reason for which the request is refused. -/
theorem putRequest_eq_error_iff (q : Queue M S) {request : Request} {extendedOk : Bool}
    {fault : Fault} (hfault : ¬ Supplier.Refuses M fault) :
    (q.putRequest request extendedOk).1 = .error fault ↔ request.Refused extendedOk fault := by
  constructor
  · intro h
    change ((Write.request request extendedOk).attempt q).1 = .error fault at h
    exact Request.refused_of_units (Write.eq_of_fault hfault h).1
  · intro h
    rw [putRequest_eq, Request.units_of_refused h]
    rfl

/-- **Refusal is exact and leaves no trace.** -/
theorem refusesExactly (h : Supplier.OnlyExhausts M) (q : Queue M S) : q.RefusesExactly where
  refused := by
    intro request extendedOk fault hfault
    exact q.putRequest_eq_error_iff (h.not_refuses hfault)
  accepted := by
    intro request extendedOk hnone
    cases houtcome : (q.putRequest request extendedOk).1 with
    | ok _ => exact Or.inl rfl
    | error fault =>
      by_cases hsupplier : Supplier.Refuses M fault
      · obtain ⟨shortage, rfl⟩ := h fault hsupplier
        exact Or.inr ⟨shortage, rfl⟩
      · have hrefused := (q.putRequest_eq_error_iff hsupplier).mp houtcome
        exact absurd hrefused (hnone fault)
  count := by
    intro request extendedOk value max herror
    have hfault : ∀ shortage, Fault.tooLarge .elementCount value max ≠ .exhausted shortage := by
      intro shortage hsame
      cases hsame
    have hrefused := (q.putRequest_eq_error_iff (h.not_refuses hfault)).mp herror
    exact Request.not_refused_elementCount extendedOk value max hrefused
  unchanged := by
    intro write fault hfault herror
    exact (Write.eq_of_fault (h.not_refuses hfault) herror).2

/-- Forty letters for a single string. -/
def longName : Request where
  command := 4
  typeCode := 0
  count := 1
  channel := 3
  parameter := 0
  payload := .string (List.replicate 40 65)

/-- Behind four bytes of an open message, a text that leaves no place for its terminator is refused.
-/
theorem refusesExactly_longName :
    ∃ q : Queue Shelf Transcript, q.RefusesExactly ∧ q.occupied = 4 ∧
      q.putRequest longName true = (.error (.tooLarge .stringLength 41 40), q) := by
  obtain ⟨q, hoccupied⟩ : ∃ q : Queue Shelf Transcript, q.occupied = 4 :=
    ⟨((Queue.new {} {}).run [.startMessage, .write (.word32 7)]).2, rfl⟩
  have hrefuses := refusesExactly Shelf.onlyExhausts q
  have hfault : ∀ shortage, Fault.tooLarge .stringLength 41 40 ≠ .exhausted shortage := by
    intro shortage h
    cases h
  have hsupplied : longName.Supplied .string := ⟨rfl, rfl, by decide⟩
  have hreason : longName.Refused true (.tooLarge .stringLength 41 40) :=
    .longText hsupplied rfl (by decide)
  have houtcome := (hrefuses.refused longName true _ hfault).mpr hreason
  have hsame := hrefuses.unchanged (.request longName true) _ hfault houtcome
  exact ⟨q, hrefuses, hoccupied, Prod.ext houtcome hsame⟩

end Queue

end WireQueue

import WireQueue.Proofs.Bounds
import WireQueue.Proofs.Composition

/-! # Padding

The size of a payload is rounded up by one addition and one mask, in 64 bits, before anything is
written; body and zeros are written after that, each by itself. The two agree.

* `RoundsUp` — the mask gives the least multiple of eight that is not below the size.
* `Request.Padded` — the zeros are as many as lead from the body to a multiple of eight, and the
  header announces body and zeros together.
* `Queue.StoresPadded` — this is what a request adds to a queue. -/

namespace WireQueue

/-! ### Rounding up -/

/-- What rounding a size up comes to. -/
structure RoundsUp (size : UInt64) : Prop where
  /-- The sum on the way does not wrap. -/
  inRange : alignUp? size = some (alignUp size)
  dvd : 8 ∣ (alignUp size).toNat
  le : size ≤ alignUp size
  least : ∀ multiple : Nat, 8 ∣ multiple → size.toNat ≤ multiple → (alignUp size).toNat ≤ multiple
  lt : (alignUp size - size).toNat < 8
  idempotent : alignUp (alignUp size) = alignUp size
  monotone : ∀ larger : UInt64, size ≤ larger → larger.toNat ≤ UInt64.size - 8 →
    alignUp size ≤ alignUp larger

section RoundsUp

variable {size : UInt64}

theorem le_alignUp (h : size.toNat ≤ UInt64.size - 8) : size ≤ alignUp size := by
  rw [UInt64.le_iff_toNat_le, toNat_alignUp size h]
  omega

theorem eight_dvd_alignUp (h : size.toNat ≤ UInt64.size - 8) : 8 ∣ (alignUp size).toNat := by
  rw [toNat_alignUp size h]
  exact Nat.dvd_mul_left 8 _

/-- A multiple of eight is left as it is. -/
theorem alignUp_of_dvd (hdvd : 8 ∣ size.toNat) (h : size.toNat ≤ UInt64.size - 8) :
    alignUp size = size := by
  apply UInt64.toNat_inj.mp
  rw [toNat_alignUp size h]
  omega

theorem roundsUp (h : size.toNat ≤ UInt64.size - 8) : RoundsUp size where
  inRange := alignUp?_eq h
  dvd := eight_dvd_alignUp h
  le := le_alignUp h
  least := by
    intro multiple hdvd hle
    rw [toNat_alignUp size h]
    omega
  lt := by
    rw [UInt64.toNat_sub_of_le _ _ (le_alignUp h), toNat_alignUp size h]
    omega
  idempotent := by
    apply alignUp_of_dvd (eight_dvd_alignUp h)
    -- The greatest size that is allowed is a multiple of eight itself.
    rw [toNat_alignUp size h]
    rw [UInt64.size] at h ⊢
    omega
  monotone := by
    intro larger hle hlarger
    rw [UInt64.le_iff_toNat_le] at hle ⊢
    rw [toNat_alignUp size h, toNat_alignUp larger hlarger]
    omega

end RoundsUp

/-! ### The padding of a request -/

namespace Request

variable {request : Request} {type : DataType} {extendedOk : Bool}

/-- Body, zeros and announced size of a request go together. -/
structure Padded (request : Request) (type : DataType) : Prop where
  /-- The body is a text and its terminator, or the elements asked for. -/
  body_length : request.body.length = request.plainSize type
  zeros_iff : ∀ zeros, (zeros < 8 ∧ 8 ∣ request.body.length + zeros) ↔ zeros = request.zeros type
  payloadSize_eq : (request.header type).payloadSize.toNat =
    (request.body ++ List.replicate (request.zeros type) 0).length

/-- What a request is on the wire: its header, its body and zeros. -/
def wire (request : Request) (type : DataType) (form : Header.Form) : List UInt8 :=
  (request.header type).encodeAs form ++
    (request.body ++ List.replicate (request.zeros type) 0)

/-- The receiver can be told the size. -/
def Announceable (request : Request) (type : DataType) (extendedOk : Bool) : Prop :=
  request.paddedSize type < UInt32.size ∧ (extendedOk = true ∨ request.paddedSize type ≤ 65534)

theorem Sendable.length_body (h : request.Sendable type) :
    request.body.length = request.plainSize type := by
  rw [← Request.toNat_bodySize (ofCode_of_names h.names) h.check_eq_ok h.text?_eq,
    h.toNat_bodySize]

theorem Sendable.padded (h : request.Sendable type)
    (hsmall : request.paddedSize type < UInt32.size) : request.Padded type where
  body_length := h.length_body
  zeros_iff := by
    intro zeros
    rw [h.length_body, Request.zeros, paddedSize]
    omega
  payloadSize_eq := by
    have hsize := length_body_add_padding (h.layout_eq_assembled hsmall)
    rw [List.length_append, List.length_replicate]
    exact hsize.symm

/-- There is a form for a header that can be announced. -/
theorem Sendable.exists_form (h : request.Sendable type)
    (hannounceable : request.Announceable type extendedOk) :
    ∃ form, (request.header type).form extendedOk = .ok form := by
  obtain ⟨hsmall, hreads⟩ := hannounceable
  obtain ⟨layout, hlayout, hform⟩ := h.layout_of_small hsmall
  rw [h.layout_eq_assembled hsmall] at hlayout
  cases hlayout
  rw [hform]
  by_cases hcompact : request.paddedSize type ≤ 65534
  · exact ⟨.compact, if_pos hcompact⟩
  · rw [if_neg hcompact, if_pos (hreads.resolve_right hcompact)]
    exact ⟨.extended, rfl⟩

theorem Sendable.encoding_eq (h : request.Sendable type)
    (hsmall : request.paddedSize type < UInt32.size) {form : Header.Form}
    (hform : (request.header type).form extendedOk = .ok form) :
    (Write.request request extendedOk).encoding = .ok (request.wire type form) := by
  have hlayout := h.layout_eq_assembled hsmall
  obtain ⟨body, hbody, hbytes⟩ := bodyUnits_of_layout hlayout
  rw [Write.encoding, Write.units, units_of_form hlayout hform hbody]
  simp only [Except.map, List.cons_append, List.flatMap_cons, List.flatMap_append, hbytes,
    flatMap_valueUnits]
  rfl

/-- Only what is in order and can be announced has units. -/
theorem announceable_of_units {units : List WireUnit} (h : request.units extendedOk = .ok units) :
    ∃ type, request.Sendable type ∧ request.Announceable type extendedOk := by
  have hnone (fault : Fault) : ¬ request.Refused extendedOk fault := by
    intro hrefused
    rw [units_of_refused hrefused] at h
    cases h
  rcases request.layout_verdict with ⟨fault, -, hrefused⟩ | ⟨type, hsendable, hsmall⟩
  · exact absurd (hrefused extendedOk) (hnone fault)
  · refine ⟨type, hsendable, hsmall, ?_⟩
    cases extendedOk with
    | true => exact .inl rfl
    | false =>
      exact .inr (Nat.not_lt.mp fun hlong => hnone _ (.longPayload hsendable hsmall rfl hlong))

end Request

/-! ### The bytes of a request in a queue -/

namespace Queue

variable {M S : Type} [Supplier M]

/-- What can be encoded is added, or a first part of it if the supplier refuses a chunk. -/
theorem attempt_of_encoding {write : Write} {encoded : List UInt8}
    (h : write.encoding = .ok encoded) (q : Queue M S) :
    ((write.attempt q).1 = .ok () ∧ (write.attempt q).2.bytes = q.bytes ++ encoded) ∨
      ∃ fault stored missing, (write.attempt q).1 = .error fault ∧
        Supplier.RefusedWith fault (write.attempt q).2.supply ∧
        missing ≠ [] ∧ encoded = stored ++ missing ∧
        (write.attempt q).2.bytes = q.bytes ++ stored := by
  rcases write.attempt_grows q with ⟨units, fresh, hunits, hok, hgrows⟩ |
    ⟨stored, next, rest, fresh, fault, hunits, herror, hsupplier, -, hgrows⟩ | ⟨fault, hunits, -⟩
  · rw [Write.encoding, hunits] at h
    cases h
    exact .inl ⟨hok, hgrows.laid.bytes⟩
  · obtain ⟨missing, hne, hencoding⟩ := Write.encoding_of_units hunits
    rw [h] at hencoding
    exact .inr ⟨fault, unitBytes stored, missing, herror, hsupplier, hne,
      Except.ok.inj hencoding, hgrows.laid.bytes⟩
  · rw [Write.encoding, hunits] at h
    cases h

/-- What a request adds to a queue. -/
structure StoresPadded (q : Queue M S) (request : Request) (extendedOk : Bool) : Prop where
  /-- Body and zeros go with the header, and all of them are added, or all that the supplier has
  chunks for. -/
  stored : ∀ type, request.Sendable type → request.Announceable type extendedOk →
    request.Padded type ∧ ∃ form, (request.header type).form extendedOk = .ok form ∧
      (((q.putRequest request extendedOk).1 = .ok () ∧
          (q.putRequest request extendedOk).2.bytes = q.bytes ++ request.wire type form) ∨
        ∃ fault front missing,
          (q.putRequest request extendedOk).1 = .error fault ∧
            Supplier.RefusedWith fault (q.putRequest request extendedOk).2.supply ∧
            missing ≠ [] ∧ request.wire type form = front ++ missing ∧
            (q.putRequest request extendedOk).2.bytes = q.bytes ++ front)
  /-- A request that is accepted is in order and can be announced. -/
  accepted : (q.putRequest request extendedOk).1 = .ok () →
    ∃ type, request.Sendable type ∧ request.Announceable type extendedOk

theorem storesPadded (q : Queue M S) (request : Request) (extendedOk : Bool) :
    q.StoresPadded request extendedOk where
  stored := by
    intro type hsendable hannounceable
    obtain ⟨form, hform⟩ := hsendable.exists_form hannounceable
    have hencoding := hsendable.encoding_eq hannounceable.1 hform
    exact ⟨hsendable.padded hannounceable.1, form, hform, attempt_of_encoding hencoding q⟩
  accepted := by
    intro hok
    change ((Write.request request extendedOk).attempt q).1 = .ok () at hok
    rcases (Write.request request extendedOk).attempt_grows q with ⟨units, -, hunits, -⟩ |
      ⟨_, _, _, _, fault, -, herror, -⟩ | ⟨fault, -, hrefused⟩
    · exact Request.announceable_of_units hunits
    · rw [hok] at herror
      cases herror
    · rw [hrefused] at hok
      cases hok

/-- **Padding adds up.** Sizes are rounded up exactly in the whole range, and every request is
followed by as many zeros as its size asks for and its header announces. -/
theorem padding_exact (M S : Type) [Supplier M] :
    (∀ size : UInt64, size.toNat ≤ UInt64.size - 8 → RoundsUp size) ∧
      ∀ (q : Queue M S) (request : Request) (extendedOk : Bool),
        q.StoresPadded request extendedOk :=
  ⟨fun _ => roundsUp, storesPadded⟩

/-- Three 16-bit numbers. -/
def threeShorts : Request where
  command := 4
  typeCode := 1
  count := 3
  channel := 9
  parameter := 0
  payload := .short [1, -1, 3]

/-- The greatest size of all. Behind two bytes of an open message, six bytes and two zeros more. -/
theorem padding_exact_greatest :
    RoundsUp 0xFFFFFFFFFFFFFFF8 ∧
      ∃ q : Queue Shelf Transcript, q.bytes = [0, 7] ∧ threeShorts.Padded .short ∧
        (q.putRequest threeShorts false).2.bytes =
          q.bytes ++ [0, 4, 0, 8, 0, 1, 0, 3, 0, 0, 0, 9, 0, 0, 0, 0] ++
            [0, 1, 255, 255, 0, 3, 0, 0] := by
  obtain ⟨q, hq⟩ : ∃ q : Queue Shelf Transcript, q = ((new {} {}).run [.write (.word16 7)]).2 :=
    ⟨_, rfl⟩
  have hgreatest : (0xFFFFFFFFFFFFFFF8 : UInt64).toNat ≤ UInt64.size - 8 := by decide
  obtain ⟨hrounds, hstores⟩ := padding_exact Shelf Transcript
  have hsendable : threeShorts.Sendable .short := by
    refine { names := rfl, kind := rfl, enough := by decide, fits := ?_ }
    intro text htext
    cases htext
  obtain ⟨hpadded, form, hform, hstored⟩ :=
    (hstores q threeShorts false).stored .short hsendable ⟨by decide, .inr (by decide)⟩
  have hcompact : (threeShorts.header .short).form false = .ok .compact := rfl
  rw [hcompact] at hform
  cases hform
  refine ⟨hrounds _ hgreatest, q, by rw [hq]; rfl, hpadded, ?_⟩
  rcases hstored with ⟨-, hbytes⟩ | ⟨_, _, _, herror, -⟩
  · rw [hbytes, List.append_assoc]
    rfl
  · rw [hq, putRequest_eq] at herror
    cases herror

end Queue

end WireQueue

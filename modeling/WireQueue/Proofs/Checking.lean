import WireQueue.Proofs.Shortfall
import WireQueue.Supplier.Pool

/-! # The check and the write

Elements are written once the payload is checked, and the write looks once more for what it needs.
The two have different rules for a single string: the check makes do with any nonempty text, while
the write wants a full slot. `Payload.IsShortText` is what lies between them, and there is nothing
else.

* `Payload.isShortText_or_le_count` — what passes the check is a short text, or holds enough
  elements.
* `Queue.CheckDecides` — what callers may expect of the check.
* `Queue.putRequest_of_isShortText` — a request is written with a short text as well. -/

namespace WireQueue

namespace Payload

/-- A nonempty text for a single string that takes less than a slot. -/
structure IsShortText (payload : Payload) (type : DataType) (needed : Nat) : Prop where
  string : type = .string
  single : needed = 1
  short : ∃ bytes, payload = .string bytes ∧ bytes ≠ [] ∧ bytes.length < stringSize

variable {payload : Payload} {type : DataType} {needed : Nat}

theorem check_eq_ok_iff :
    payload.check type needed = .ok () ↔
      payload.kind = type.kind ∧ needed ≤ payload.available type needed := by
  rw [check]
  by_cases hkind : payload.kind = type.kind
  · rw [if_neg (not_not_intro hkind)]
    dsimp only
    by_cases hfew : payload.available type needed < needed
    · rw [if_pos hfew]
      simp [hfew]
    · rw [if_neg hfew]
      simp [hkind, Nat.not_lt.mp hfew]
  · simp [hkind]

/-- The check goes by whole elements, but for a single string. -/
theorem isShortText_or_le_count (hcheck : payload.check type needed = .ok ()) :
    payload.IsShortText type needed ∨ needed ≤ payload.count := by
  have havailable := (check_eq_ok_iff.mp hcheck).2
  cases payload with
  | string bytes =>
    by_cases hsingle : needed = 1 ∧ type = .string
    · have hne : bytes ≠ [] := by
        intro hnil
        simp [available, hsingle, hnil] at havailable
      rcases Nat.lt_or_ge bytes.length stringSize with hshort | hfull
      · exact Or.inl ⟨hsingle.2, hsingle.1, bytes, rfl, hne, hshort⟩
      · have hone : 1 ≤ bytes.length / stringSize := Nat.div_pos hfull (by decide)
        exact Or.inr (hsingle.1 ▸ hone)
    · rw [available, if_neg hsingle] at havailable
      exact Or.inr havailable
  | _ values => exact Or.inr havailable

theorem IsShortText.check_eq_ok (h : payload.IsShortText type needed) :
    payload.check type needed = .ok () := by
  obtain ⟨rfl, rfl, bytes, rfl, hne, -⟩ := h
  refine check_eq_ok_iff.mpr ⟨rfl, ?_⟩
  simp [available, hne]

/-- Where the text falls short of a slot, there is nothing to write. What is reported is the size of
the slot and of the text. -/
theorem IsShortText.units_eq (h : payload.IsShortText type needed) :
    ∃ got, got < stringSize ∧ payload.units needed = .error (.tooFew stringSize got) := by
  obtain ⟨rfl, rfl, bytes, rfl, -, hshort⟩ := h
  refine ⟨bytes.length, hshort, ?_⟩
  rw [units, leadingUnits, leading, Nat.one_mul, if_neg (Nat.not_le.mpr hshort)]
  rfl

end Payload

namespace Queue

variable {M S : Type} [Supplier M]

/-! ### What the check is expected to decide -/

/-- The write of elements fails as the check does, or for a lack of chunks, or adds the elements. -/
structure CheckDecides (q : Queue M S) (type : DataType) (payload : Payload) (count : UInt32) :
    Prop where
  refused : ∀ fault, (∀ shortage, fault ≠ .exhausted shortage) →
    ((q.putValues type payload count).1 = .error fault ↔
      payload.check type count.toNat = .error fault)
  accepted : payload.check type count.toNat = .ok () →
    (∃ shortage, (q.putValues type payload count).1 = .error (.exhausted shortage)) ∨
      (q.putValues type payload count).1 = .ok () ∧
        (payload.leadingBytes count.toNat).length = count.toNat * type.kind.size ∧
        ∃ fresh, q.chain.Extends (payload.leadingBytes count.toNat) fresh
          (q.putValues type payload count).2.chain

variable {type : DataType} {payload : Payload} {count : UInt32}

theorem putValues_of_check_error {fault : Fault}
    (h : payload.check type count.toNat = .error fault) (q : Queue M S) :
    q.putValues type payload count = (.error fault, q) := by
  simp only [putValues, h]
  rfl

/-- With enough elements, the write adds them as long as the supplier has chunks. -/
theorem putValues_of_le_count (hcheck : payload.check type count.toNat = .ok ())
    (hcount : count.toNat ≤ payload.count) (q : Queue M S) :
    (∃ fault, (q.putValues type payload count).1 = .error fault ∧ Supplier.Refuses M fault) ∨
      (q.putValues type payload count).1 = .ok () ∧
        ∃ fresh, q.chain.Extends (payload.leadingBytes count.toNat) fresh
          (q.putValues type payload count).2.chain := by
  obtain ⟨units, hunits, hbytes⟩ := Payload.units_of_le_count hcount
  have hwrite : (Write.values type payload count).units = .ok units := by
    rw [Write.units, hcheck]
    exact hunits
  rcases (Write.values type payload count).attempt_grows q with
    ⟨stored, fresh, hstored, hok, hgrows⟩ | ⟨_, _, _, _, fault, -, herror, hsupplier, -, -⟩ |
    ⟨fault, hfault, -⟩
  · rw [hwrite] at hstored
    cases hstored
    have hextends := hgrows.laid.extends
    rw [unitBytes, hbytes] at hextends
    exact Or.inr ⟨hok, fresh, hextends⟩
  · exact Or.inl ⟨fault, herror, hsupplier.refuses⟩
  · rw [hwrite] at hfault
    cases hfault

/-- A short text is refused after it has passed the check. -/
theorem putValues_of_isShortText (h : payload.IsShortText type count.toNat) (q : Queue M S) :
    ∃ got, got < stringSize ∧
      q.putValues type payload count = (.error (.tooFew stringSize got), q) := by
  obtain ⟨got, hgot, hunits⟩ := h.units_eq
  refine ⟨got, hgot, ?_⟩
  simp only [putValues, h.check_eq_ok, putElements_eq, hunits]
  rfl

theorem checkDecides_of_not_isShortText (h : Supplier.OnlyExhausts M)
    (hshort : ¬ payload.IsShortText type count.toNat) (q : Queue M S) :
    q.CheckDecides type payload count := by
  cases hcheck : payload.check type count.toNat with
  | error fault =>
    refine { refused := ?_, accepted := ?_ }
    · intro other _
      rw [putValues_of_check_error hcheck, hcheck]
    · intro hok
      rw [hcheck] at hok
      cases hok
  | ok =>
    have hcount := (Payload.isShortText_or_le_count hcheck).resolve_left hshort
    have hwritten := putValues_of_le_count hcheck hcount q
    refine { refused := ?_, accepted := ?_ }
    · intro fault hfault
      rw [hcheck]
      constructor
      · intro herror
        rcases hwritten with ⟨fault', herror', hsupplier⟩ | ⟨hok, -⟩
        · rw [herror'] at herror
          cases herror
          exact absurd hsupplier (h.not_refuses hfault)
        · rw [hok] at herror
          cases herror
      · intro herror
        cases herror
    · intro _
      rcases hwritten with ⟨fault, herror, hsupplier⟩ | ⟨hok, hextends⟩
      · obtain ⟨shortage, rfl⟩ := h fault hsupplier
        exact Or.inl ⟨shortage, herror⟩
      · have hlength := Payload.length_leadingBytes hcount
        rw [Request.kind_of_check hcheck] at hlength
        exact Or.inr ⟨hok, hlength, hextends⟩

theorem not_checkDecides_of_isShortText (hshort : payload.IsShortText type count.toNat)
    (q : Queue M S) : ¬ q.CheckDecides type payload count := by
  intro hdecides
  obtain ⟨got, -, hwrite⟩ := putValues_of_isShortText hshort q
  have herror := (hdecides.refused (.tooFew stringSize got) (by simp)).mp (by rw [hwrite])
  rw [hshort.check_eq_ok] at herror
  cases herror

/-- **How far the check goes.** With a supplier that fails for a lack of chunks only, it decides the
write for every payload, type and number of elements but one case: a single string in less than a
slot passes the check, and the write refuses it and leaves the queue as it was, with any supplier.
The figures of the refusal are then in bytes. -/
theorem checkDecides_iff (q : Queue M S) (type : DataType) (payload : Payload) (count : UInt32) :
    (Supplier.OnlyExhausts M →
      (q.CheckDecides type payload count ↔ ¬ payload.IsShortText type count.toNat)) ∧
      (payload.IsShortText type count.toNat →
        payload.check type count.toNat = .ok () ∧
          ∃ got, got < stringSize ∧
            q.putValues type payload count = (.error (.tooFew stringSize got), q)) := by
  refine ⟨?_, ?_⟩
  · intro hsupplier
    constructor
    · intro hdecides hshort
      exact not_checkDecides_of_isShortText hshort q hdecides
    · intro hshort
      exact checkDecides_of_not_isShortText hsupplier hshort q
  · intro hshort
    exact ⟨hshort.check_eq_ok, putValues_of_isShortText hshort q⟩

/-- Three letters and a NUL, asked for as a single string of a new queue. -/
theorem not_checkDecides_letters :
    ¬ ∀ (M S : Type) [Supplier M] [Sink S], Supplier.OnlyExhausts M →
      ∀ q : Queue M S, Reachable q → ∀ (type : DataType) (payload : Payload) (count : UInt32),
        q.CheckDecides type payload count := by
  intro hdecides
  let letters : Payload := .string [97, 98, 99, 0]
  let q : Queue Pool Transcript := Queue.new .standard {}
  have hshort : letters.IsShortText .string (1 : UInt32).toNat :=
    ⟨rfl, rfl, [97, 98, 99, 0], rfl, List.cons_ne_nil _ _, by decide⟩
  have hq := hdecides Pool Transcript Pool.onlyExhausts q (.new _ _) .string letters 1
  exact not_checkDecides_of_isShortText hshort q hq

end Queue

/-! ### A request with a short text -/

theorem Request.sendable_of_isShortText {request : Request} (hnames : request.Names .string)
    (h : request.payload.IsShortText .string request.count.toNat) :
    request.Sendable .string := by
  obtain ⟨-, hsingle, bytes, hpayload, hne, hshort⟩ := h
  have hsends : request.SendsText :=
    (sendsText_iff hnames).mpr ⟨UInt32.toNat_inj.mp hsingle, rfl⟩
  refine { names := hnames, kind := ?_, enough := ?_, fits := ?_ }
  · rw [hpayload]
    rfl
  · have hpos := List.length_pos_iff.mpr hne
    rw [hsingle, held, hpayload]
    simp only [if_pos hsends]
    omega
  · intro text htext
    rw [singleText?, hpayload] at htext
    simp only [if_pos hsends, Option.some.injEq] at htext
    rw [← htext]
    exact Nat.lt_of_le_of_lt (List.takeWhile_sublist _).length_le hshort

/-- A request that is in order and takes no extended header is not refused. -/
theorem Request.Sendable.not_refused {request : Request} {type : DataType}
    (h : request.Sendable type) (hcompact : request.paddedSize type ≤ 65534) (extendedOk : Bool)
    (fault : Fault) : ¬ request.Refused extendedOk fault := by
  have hunique {other : DataType} (hother : request.Names other) : other = type :=
    DataType.code_inj (hother.symm.trans h.names)
  intro hrefused
  cases hrefused with
  | unknownType hcode => exact hcode (DataType.mem_writableCodes_iff.mpr ⟨type, h.names⟩)
  | wrongKind hother hkind =>
    cases hunique hother
    exact hkind h.kind
  | tooFew hother hkind hfew => exact Nat.not_lt.mpr h.enough hfew
  | longText hother htext hlong => exact Nat.not_lt.mpr hlong (h.fits _ htext)
  | hugePayload hother hhuge =>
    cases hunique hother.names
    rw [UInt32.size] at hhuge
    omega
  | longPayload hother hsmall hform hlong =>
    cases hunique hother.names
    omega

/-- As the payload of a request, a short text is written, as long as the supplier has chunks. -/
theorem Queue.putRequest_of_isShortText {M S : Type} [Supplier M] {request : Request}
    (hnames : request.Names .string)
    (h : request.payload.IsShortText .string request.count.toNat) (extendedOk : Bool)
    (q : Queue M S) :
    (q.putRequest request extendedOk).1 = .ok () ∨
      ∃ fault, (q.putRequest request extendedOk).1 = .error fault ∧ Supplier.Refuses M fault := by
  have hsendable := Request.sendable_of_isShortText hnames h
  have hcompact : request.paddedSize .string ≤ 65534 := by
    have hplain : request.plainSize .string ≤ stringSize := by
      rw [Request.plainSize]
      split
      · next text htext => exact hsendable.fits text htext
      · rw [h.single]
        decide
    rw [stringSize] at hplain
    rw [Request.paddedSize]
    omega
  rcases (Write.request request extendedOk).attempt_grows q with ⟨_, _, -, hok, -⟩ |
    ⟨_, _, _, _, fault, -, herror, hsupplier, -, -⟩ | ⟨fault, hunits, -⟩
  · exact Or.inl hok
  · exact Or.inr ⟨fault, herror, hsupplier.refuses⟩
  · have hrefused := Request.refused_of_units hunits
    exact absurd hrefused (hsendable.not_refused hcompact extendedOk fault)

end WireQueue

import WireQueue.Numeral
import WireQueue.Proofs.Bounds
import WireQueue.Proofs.HeaderCodec
import WireQueue.Proofs.Refusal

/-! # Every header has one encoding

`Header.decode?` is strict: of all the ways in which the fields of a header could be put into bytes
it takes only the one that `Header.encode` chooses. `Header.Written` says, in numbers, which byte
strings these are.

* `Header.decode?_encodeAs` — what is encoded is decoded again, whatever follows it.
* `Header.eq_of_decode?` — what is decoded has been encoded, to the bytes that were read.
* `Header.written_encodeAs` and `Header.Written.exists_eq_encodeAs` — the encodings are the byte
  strings with these numbers.
* `Queue.AppendsHeader` — a queue stores the same bytes in one piece, or fails as the encoder does,
  or as its supplier does. -/

namespace WireQueue

namespace Header

/-! ### Byte strings that are headers -/

/-- The number in the `width` bytes from `offset` on. -/
def numberAt (bytes : List UInt8) (offset width : Nat) : Nat :=
  ofBigEndian ((bytes.drop offset).take width)

/-- The byte strings that are headers. In the compact form neither size nor count is `0xFFFF`; in
the extended form they are marked, and one of the long values needs the form. -/
inductive Written : Form → List UInt8 → Prop where
  | compact {bytes : List UInt8} (hlength : bytes.length = 16)
      (hsize : numberAt bytes 2 2 < 0xFFFF) (hcount : numberAt bytes 6 2 < 0xFFFF) :
      Written .compact bytes
  | extended {bytes : List UInt8} (hlength : bytes.length = 24)
      (hsize : numberAt bytes 2 2 = 0xFFFF) (hcount : numberAt bytes 6 2 = 0)
      (hlong : 0xFFFF ≤ numberAt bytes 16 4 ∨ 0xFFFF ≤ numberAt bytes 20 4) :
      Written .extended bytes

/-- A field within the bytes has its full width. -/
theorem length_field {bytes : List UInt8} {offset width : Nat} (h : offset + width ≤ bytes.length) :
    ((bytes.drop offset).take width).length = width := by
  rw [List.length_take, List.length_drop]
  omega

/-- A number is that of the field in its place. -/
theorem numberAt_eq (α : Type) [Element α] [Numeral α] {bytes : List UInt8} (offset : Nat)
    (h : offset + Element.width α ≤ bytes.length) :
    numberAt bytes offset (Element.width α) = Numeral.number (fieldAt α bytes offset) :=
  (Numeral.number_decode _ (length_field h)).symm

/-! ### The choice of the form -/

variable {header : Header} {extendedOk : Bool} {form : Form}

theorem form_of_fitsCompact (h : header.fitsCompact = true) (extendedOk : Bool) :
    header.form extendedOk = .ok .compact := by
  rw [form, if_pos h]

theorem form_of_not_fitsCompact (h : ¬ header.fitsCompact = true) :
    header.form true = .ok .extended := by
  rw [form, if_neg h]
  rfl

/-- There is no form for a header that needs the extended one where that is not read. -/
theorem form_eq_error_iff :
    (∃ fault, header.form extendedOk = .error fault) ↔
      extendedOk = false ∧ ¬ header.fitsCompact = true := by
  by_cases hfits : header.fitsCompact = true
  · simp [form_of_fitsCompact hfits, hfits]
  · cases extendedOk with
    | true => simp [form_of_not_fitsCompact hfits]
    | false =>
      refine ⟨fun _ => ⟨rfl, hfits⟩, fun _ => ?_⟩
      rw [form, if_neg hfits, if_neg Bool.false_ne_true]
      dsimp only
      split
      · exact ⟨_, rfl⟩
      · exact ⟨_, rfl⟩

/-- The extended form is chosen only where the compact one would not do. -/
theorem not_fitsCompact_of_form (h : header.form extendedOk = .ok .extended) :
    ¬ header.fitsCompact = true := by
  intro hfits
  rw [form_of_fitsCompact hfits] at h
  cases h

theorem encode_eq_ok_iff {encoded : List UInt8} :
    header.encode extendedOk = .ok encoded ↔
      ∃ form, header.form extendedOk = .ok form ∧ encoded = header.encodeAs form := by
  rw [encode]
  cases header.form extendedOk with
  | error fault => simp [Except.map]
  | ok form => simp [Except.map, eq_comm]

theorem encode_eq_error_iff {fault : Fault} :
    header.encode extendedOk = .error fault ↔ header.form extendedOk = .error fault := by
  rw [encode]
  cases header.form extendedOk <;> simp [Except.map]

/-! ### What is encoded is decoded -/

/-- **The round trip.** The reader gives back the header, its form and what follows it. -/
theorem decode?_encodeAs (hform : header.form extendedOk = .ok form) (rest : List UInt8) :
    decode? (header.encodeAs form ++ rest) = some (header, form, rest) := by
  have hlength := header.length_encodeAs_append form rest
  simp only [decode?, command_encodeAs, size_encodeAs, dataType_encodeAs, count_encodeAs,
    channel_encodeAs, parameter_encodeAs, hlength]
  cases form with
  | compact =>
    have hfits := fitsCompact_of_form hform
    obtain ⟨hsize, hcount⟩ : header.payloadSize < compactLimit ∧ header.count < compactLimit := by
      simpa only [fitsCompact, Bool.and_eq_true, decide_eq_true_eq] using hfits
    simp only [sizeField, countField, toUInt32_toUInt16 hsize, toUInt32_toUInt16 hcount]
    rw [if_neg (by omega), if_pos hfits, drop_encodeAs_append]
  | extended =>
    have hcompact : ¬ Form.extended.length + rest.length < Form.compact.length := by
      rw [Form.length, Form.length]
      omega
    -- The marks are too large for the compact form, and so are the values behind them.
    have hmarked : ∀ command dataType channel parameter, ¬ fitsCompact
        ⟨command, extendedSizeMark.toUInt32, dataType, extendedCountMark.toUInt32, channel,
          parameter⟩ = true := by
      intro command dataType channel parameter hfits
      have hsize : extendedSizeMark.toUInt32.toNat < 0xFFFF := (fitsCompact_iff.mp hfits).1
      exact absurd hsize (by decide)
    simp only [sizeField, countField, longSize_encodeAs, longCount_encodeAs]
    rw [if_neg hcompact, if_neg (hmarked _ _ _ _), if_neg (by simp), if_neg (by omega),
      if_neg (not_fitsCompact_of_form hform), drop_encodeAs_append]

/-! ### What is decoded has been encoded -/

/-- A field and what is behind it. -/
theorem encode_fieldAt_append (α : Type) [Element α] [Numeral α] {bytes : List UInt8}
    (offset next : Nat) (hnext : next = offset + Element.width α) (h : next ≤ bytes.length) :
    Element.encode (fieldAt α bytes offset) ++ bytes.drop next = bytes.drop offset := by
  subst hnext
  rw [fieldAt, Numeral.encode_decode (length_field h), ← List.drop_drop, List.take_append_drop]

/-- The header that the compact form gives, whatever the bytes are. -/
def compactAt (bytes : List UInt8) : Header where
  command := fieldAt UInt16 bytes 0
  payloadSize := (fieldAt UInt16 bytes 2).toUInt32
  dataType := fieldAt UInt16 bytes 4
  count := (fieldAt UInt16 bytes 6).toUInt32
  channel := fieldAt UInt32 bytes 8
  parameter := fieldAt UInt32 bytes 12

/-- The header that the extended form gives, whatever the bytes are. -/
def extendedAt (bytes : List UInt8) : Header :=
  { compactAt bytes with payloadSize := fieldAt UInt32 bytes 16, count := fieldAt UInt32 bytes 20 }

/-- Both short fields hold the marks of the extended form. -/
def MarkedAt (bytes : List UInt8) : Prop :=
  fieldAt UInt16 bytes 2 = extendedSizeMark ∧ fieldAt UInt16 bytes 6 = extendedCountMark

/-- The ways of reading a header. -/
theorem decode?_cases {bytes rest : List UInt8} (h : decode? bytes = some (header, form, rest)) :
    (16 ≤ bytes.length ∧ header.fitsCompact = true ∧ header = compactAt bytes ∧ form = .compact ∧
        rest = bytes.drop 16) ∨
      (24 ≤ bytes.length ∧ ¬ header.fitsCompact = true ∧ MarkedAt bytes ∧
        header = extendedAt bytes ∧ form = .extended ∧ rest = bytes.drop 24) := by
  simp only [decode?, Option.ite_none_left_eq_some] at h
  obtain ⟨hlength, h⟩ := h
  split at h
  · next hfits =>
    cases h
    exact .inl ⟨Nat.not_lt.mp hlength, hfits, rfl, rfl, rfl⟩
  · simp only [Option.ite_none_left_eq_some] at h
    obtain ⟨hmarks, hlong, hneeded, h⟩ := h
    cases h
    obtain ⟨hsize, hcount⟩ := not_or.mp hmarks
    exact .inr ⟨Nat.not_lt.mp hlong, hneeded,
      ⟨Decidable.not_not.mp hsize, Decidable.not_not.mp hcount⟩, rfl, rfl, rfl⟩

/-- The six fields that both forms have, and what is behind them. -/
theorem encode_fields_append {bytes : List UInt8} (h : 16 ≤ bytes.length) :
    Element.encode (fieldAt UInt16 bytes 0) ++ (Element.encode (fieldAt UInt16 bytes 2) ++
      (Element.encode (fieldAt UInt16 bytes 4) ++ (Element.encode (fieldAt UInt16 bytes 6) ++
        (Element.encode (fieldAt UInt32 bytes 8) ++ (Element.encode (fieldAt UInt32 bytes 12) ++
          bytes.drop 16))))) = bytes := by
  rw [encode_fieldAt_append UInt32 12 16 rfl h,
    encode_fieldAt_append UInt32 8 12 rfl (by omega),
    encode_fieldAt_append UInt16 6 8 rfl (by omega),
    encode_fieldAt_append UInt16 4 6 rfl (by omega),
    encode_fieldAt_append UInt16 2 4 rfl (by omega),
    encode_fieldAt_append UInt16 0 2 rfl (by omega), List.drop_zero]

/-- A header read in the compact form holds all that was read. -/
theorem encodeAs_compactAt {bytes : List UInt8} (h : 16 ≤ bytes.length) :
    (compactAt bytes).encodeAs .compact ++ bytes.drop 16 = bytes := by
  simp only [encodeAs, compactAt, sizeField, countField, extension, UInt16.toUInt16_toUInt32,
    List.append_nil, List.append_assoc]
  exact encode_fields_append h

/-- A header read in the extended form holds all but the marks. -/
theorem encodeAs_extendedAt {bytes : List UInt8} (h : 24 ≤ bytes.length)
    (hmarked : MarkedAt bytes) :
    (extendedAt bytes).encodeAs .extended ++ bytes.drop 24 = bytes := by
  obtain ⟨hsize, hcount⟩ := hmarked
  simp only [encodeAs, extendedAt, compactAt, sizeField, countField, extension, List.append_assoc]
  rw [← hsize, ← hcount, encode_fieldAt_append UInt32 20 24 rfl h,
    encode_fieldAt_append UInt32 16 20 rfl (by omega)]
  exact encode_fields_append (Nat.le_trans (by decide) h)

/-- **Nothing is lost in decoding.** Header and form give back the bytes that were read. -/
theorem eq_of_decode? {bytes rest : List UInt8} (h : decode? bytes = some (header, form, rest)) :
    header.form true = .ok form ∧ bytes = header.encodeAs form ++ rest := by
  rcases decode?_cases h with ⟨hlength, hfits, rfl, rfl, rfl⟩ |
    ⟨hlength, hneeded, hmarked, rfl, rfl, rfl⟩
  · exact ⟨form_of_fitsCompact hfits true, (encodeAs_compactAt hlength).symm⟩
  · exact ⟨form_of_not_fitsCompact hneeded, (encodeAs_extendedAt hlength hmarked).symm⟩

/-! ### Which byte strings are headers -/

/-- The short fields hold size and count as 16-bit numbers. -/
theorem numberAt_short {bytes : List UInt8} (h : 16 ≤ bytes.length) :
    numberAt bytes 2 2 = (fieldAt UInt16 bytes 2).toNat ∧
      numberAt bytes 6 2 = (fieldAt UInt16 bytes 6).toNat :=
  ⟨numberAt_eq UInt16 2 (Nat.le_trans (by decide) h),
    numberAt_eq UInt16 6 (Nat.le_trans (by decide) h)⟩

/-- The long fields hold size and count as 32-bit numbers. -/
theorem numberAt_long {bytes : List UInt8} (h : 24 ≤ bytes.length) :
    numberAt bytes 16 4 = (fieldAt UInt32 bytes 16).toNat ∧
      numberAt bytes 20 4 = (fieldAt UInt32 bytes 20).toNat :=
  ⟨numberAt_eq UInt32 16 (Nat.le_trans (by decide) h),
    numberAt_eq UInt32 20 (Nat.le_trans (by decide) h)⟩

/-- An encoding has the numbers of its form. -/
theorem written_encodeAs (hform : header.form extendedOk = .ok form) :
    Written form (header.encodeAs form) := by
  have hlength := header.length_encodeAs form
  have hsizeField := header.size_encodeAs form []
  have hcountField := header.count_encodeAs form []
  rw [List.append_nil] at hsizeField hcountField
  cases form with
  | compact =>
    obtain ⟨hsize, hcount⟩ := numberAt_short (Nat.le_of_eq hlength.symm)
    obtain ⟨hsmall, hfew⟩ := fitsCompact_iff.mp (fitsCompact_of_form hform)
    rw [hsizeField, sizeField, UInt32.toNat_toUInt16] at hsize
    rw [hcountField, countField, UInt32.toNat_toUInt16] at hcount
    exact .compact hlength (by omega) (by omega)
  | extended =>
    have hlong : 24 ≤ (header.encodeAs .extended).length := Nat.le_of_eq hlength.symm
    have hlongSize := header.longSize_encodeAs []
    have hlongCount := header.longCount_encodeAs []
    rw [List.append_nil] at hlongSize hlongCount
    obtain ⟨hsize, hcount⟩ := numberAt_short (Nat.le_trans (by decide) hlong)
    obtain ⟨hlongSize', hlongCount'⟩ := numberAt_long hlong
    have hneeded := mt fitsCompact_iff.mpr (not_fitsCompact_of_form hform)
    rw [hsizeField] at hsize
    rw [hcountField] at hcount
    rw [hlongSize] at hlongSize'
    rw [hlongCount] at hlongCount'
    exact .extended hlength hsize hcount (by omega)

/-- What has the numbers of a form is the encoding of a header that has the form. -/
theorem Written.exists_eq_encodeAs {bytes : List UInt8} (h : Written form bytes) :
    ∃ header : Header, header.form true = .ok form ∧ bytes = header.encodeAs form := by
  cases h with
  | compact hlength hsize hcount =>
    have hle : 16 ≤ bytes.length := Nat.le_of_eq hlength.symm
    obtain ⟨hsizeField, hcountField⟩ := numberAt_short hle
    have hfits : (compactAt bytes).fitsCompact = true := by
      rw [fitsCompact_iff, compactAt, UInt16.toNat_toUInt32, UInt16.toNat_toUInt32, ← hsizeField,
        ← hcountField]
      exact ⟨hsize, hcount⟩
    have hbytes := encodeAs_compactAt hle
    rw [List.drop_eq_nil_of_le (Nat.le_of_eq hlength), List.append_nil] at hbytes
    exact ⟨compactAt bytes, form_of_fitsCompact hfits true, hbytes.symm⟩
  | extended hlength hsize hcount hlong =>
    have hle : 24 ≤ bytes.length := Nat.le_of_eq hlength.symm
    obtain ⟨hsizeField, hcountField⟩ := numberAt_short (Nat.le_trans (by decide) hle)
    obtain ⟨hlongSize, hlongCount⟩ := numberAt_long hle
    have hmarked : MarkedAt bytes :=
      ⟨UInt16.toNat_inj.mp (hsizeField.symm.trans hsize),
        UInt16.toNat_inj.mp (hcountField.symm.trans hcount)⟩
    have hneeded : ¬ (extendedAt bytes).fitsCompact = true := by
      rw [fitsCompact_iff, extendedAt, ← hlongSize, ← hlongCount]
      omega
    have hbytes := encodeAs_extendedAt hle hmarked
    rw [List.drop_eq_nil_of_le (Nat.le_of_eq hlength), List.append_nil] at hbytes
    exact ⟨extendedAt bytes, form_of_not_fitsCompact hneeded, hbytes.symm⟩

/-! ### The code of headers -/

/-- What makes `decode` the decoder of the headers that `Header.encode` writes. -/
structure Codec (decode : List UInt8 → Option (Header × Form × List UInt8)) : Prop where
  /-- The decoder reads an encoding back, with its form, and leaves what follows. -/
  decodes : ∀ (header : Header) (extendedOk : Bool) (encoded : List UInt8),
    header.encode extendedOk = .ok encoded →
      ∃ form, header.form extendedOk = .ok form ∧ encoded.length = form.length ∧
        ∀ rest, decode (encoded ++ rest) = some (header, form, rest)
  /-- What the decoder reads is an encoding, for every receiver of the form. -/
  reencodes : ∀ (bytes : List UInt8) (header : Header) (form : Form) (rest : List UInt8),
    decode bytes = some (header, form, rest) →
      ∃ encoded, bytes = encoded ++ rest ∧ Written form encoded ∧
        ∀ extendedOk, (form = .extended → extendedOk = true) →
          header.form extendedOk = .ok form ∧ header.encode extendedOk = .ok encoded
  /-- Nothing that is written as a header is refused. -/
  accepts : ∀ (form : Form) (front rest : List UInt8), Written form front →
    ∃ header, decode (front ++ rest) = some (header, form, rest)
  /-- No encoding begins another one, or stands for two headers. -/
  prefixFree : ∀ (header header' : Header) (extendedOk extendedOk' : Bool)
    (encoded encoded' : List UInt8), header.encode extendedOk = .ok encoded →
      header'.encode extendedOk' = .ok encoded' → encoded <+: encoded' →
        header = header' ∧ encoded = encoded'
  /-- A header has no encoding if it needs a form that the receiver does not read. -/
  fails : ∀ (header : Header) (extendedOk : Bool),
    (∃ fault, header.encode extendedOk = .error fault) ↔
      extendedOk = false ∧ (0xFFFF ≤ header.payloadSize.toNat ∨ 0xFFFF ≤ header.count.toNat)

/-- A header has the form that is read, for every receiver of that form. -/
theorem form_of_form_true (hform : header.form true = .ok form)
    (hread : form = .extended → extendedOk = true) : header.form extendedOk = .ok form := by
  cases form with
  | compact => exact form_of_fitsCompact (fitsCompact_of_form hform) extendedOk
  | extended => rwa [hread rfl]

/-- An encoding is read with the form that was chosen for it. -/
theorem decode?_encode {encoded : List UInt8} (h : header.encode extendedOk = .ok encoded) :
    ∃ form, header.form extendedOk = .ok form ∧ encoded.length = form.length ∧
      ∀ rest, decode? (encoded ++ rest) = some (header, form, rest) := by
  obtain ⟨form, hform, rfl⟩ := encode_eq_ok_iff.mp h
  exact ⟨form, hform, header.length_encodeAs form, decode?_encodeAs hform⟩

/-- **No encoding begins another one.** Both headers are read off the longer encoding, so that
nothing is left over of it. -/
theorem eq_of_encode_isPrefix {header' : Header} {extendedOk' : Bool}
    {encoded encoded' : List UInt8} (hencode : header.encode extendedOk = .ok encoded)
    (hencode' : header'.encode extendedOk' = .ok encoded') (hbegins : encoded <+: encoded') :
    header = header' ∧ encoded = encoded' := by
  obtain ⟨rest, rfl⟩ := hbegins
  obtain ⟨form, -, -, hread⟩ := decode?_encode hencode
  obtain ⟨form', -, -, hread'⟩ := decode?_encode hencode'
  have hall := hread' []
  rw [List.append_nil] at hall
  have hboth := (hread rest).symm.trans hall
  obtain ⟨hheader, -, hrest⟩ : header = header' ∧ form = form' ∧ rest = [] := by
    simpa only [Option.some.injEq, Prod.mk.injEq] using hboth
  exact ⟨hheader, by rw [hrest, List.append_nil]⟩

/-- **The code is read without loss, and nothing else is.** -/
theorem codec_decode? : Codec decode? where
  decodes := by
    intro header extendedOk encoded hencode
    exact decode?_encode hencode
  reencodes := by
    intro bytes header form rest hdecode
    obtain ⟨hform, hbytes⟩ := eq_of_decode? hdecode
    refine ⟨header.encodeAs form, hbytes, written_encodeAs hform, ?_⟩
    intro extendedOk hread
    have hform' := form_of_form_true hform hread
    exact ⟨hform', encode_eq_ok_iff.mpr ⟨form, hform', rfl⟩⟩
  accepts := by
    intro form front rest hwritten
    obtain ⟨header, hform, rfl⟩ := hwritten.exists_eq_encodeAs
    exact ⟨header, decode?_encodeAs hform rest⟩
  prefixFree := by
    intro header header' extendedOk extendedOk' encoded encoded' hencode hencode' hbegins
    exact eq_of_encode_isPrefix hencode hencode' hbegins
  fails := by
    intro header extendedOk
    have hneeded : ¬ header.fitsCompact = true ↔
        0xFFFF ≤ header.payloadSize.toNat ∨ 0xFFFF ≤ header.count.toNat := by
      rw [fitsCompact_iff]
      omega
    simp only [encode_eq_error_iff, form_eq_error_iff, hneeded]

end Header

/-! ### Headers in a queue -/

namespace Queue

variable {M S : Type} [Supplier M]

/-- What putting a header into the queue comes to. -/
structure AppendsHeader (q : Queue M S) (header : Header) (extendedOk : Bool) : Prop where
  /-- What has no encoding fails for that reason, and changes nothing. -/
  refused : ∀ fault, header.encode extendedOk = .error fault →
    q.putHeader header extendedOk = (.error fault, q)
  /-- An encoding ends one of the chunks afterwards, the last one, unless the supplier had no chunk
  for it. -/
  stored : ∀ encoded, header.encode extendedOk = .ok encoded →
    (∃ fault supply, Supplier.acquire q.supply = (.error fault, supply) ∧
      q.putHeader header extendedOk = (.error fault, { q with supply })) ∨
    ((q.putHeader header extendedOk).1 = .ok () ∧
      ∃ (front : Chain) (last : Chunk), (last.append encoded).Fits ∧
        (q.putHeader header extendedOk).2.chain = front ++ [last.append encoded] ∧
        (q.chain = front ++ [last] ∨ q.chain = front ∧ last = .empty))
  /-- A supplier that fails for a lack of chunks only leaves no other reason to fail. -/
  failed : Supplier.OnlyExhausts M → ∀ fault, (q.putHeader header extendedOk).1 = .error fault →
    header.encode extendedOk = .error fault ∨ ∃ shortage, fault = .exhausted shortage
  /-- In place, putting the header comes to the same. -/
  inPlace : BufferQueue.putHeader? header extendedOk (BufferQueue.ofQueue q) =
    some ((q.putHeader header extendedOk).1,
      BufferQueue.ofQueue (q.putHeader header extendedOk).2)

theorem appendsHeader {q : Queue M S} (hq : q.WellFormed) (header : Header) (extendedOk : Bool) :
    q.AppendsHeader header extendedOk where
  refused := by
    intro fault hencode
    rw [putHeader_of_form_error (Header.encode_eq_error_iff.mp hencode)]
    rfl
  stored := by
    intro encoded hencode
    obtain ⟨form, hform, rfl⟩ := Header.encode_eq_ok_iff.mp hencode
    have hfilled := (hq.attempt (.header header extendedOk)).filled
    have hplaces := places (header.encodeAs form) q
    simp only [Write.attempt, putHeader, hform, Attempt.counting, Attempt.andThen] at hfilled ⊢
    generalize q.place (header.encodeAs form) = result at hplaces hfilled
    obtain ⟨outcome, q'⟩ := result
    cases hplaces with
    | @inTail front last hchain hroom =>
      have hfits := (hfilled _ (List.mem_append_right front List.mem_cons_self)).2
      exact .inr ⟨rfl, front, last, hfits, rfl, .inl hchain⟩
    | inNewChunk hlacks hacquire =>
      have hfits := (hfilled _ (List.mem_append_right q.chain List.mem_cons_self)).2
      exact .inr ⟨rfl, q.chain, .empty, hfits, rfl, .inr ⟨rfl, rfl⟩⟩
    | nowhere hlacks hacquire => exact .inl ⟨_, _, hacquire, rfl⟩
  failed := by
    intro hsupplier fault herror
    by_cases hrefuses : Supplier.Refuses M fault
    · exact .inr (hsupplier fault hrefuses)
    · left
      change ((Write.header header extendedOk).attempt q).1 = .error fault at herror
      rcases bind_eq_error.mp (Write.eq_of_fault hrefuses herror).1 with hencode | ⟨_, -, hnever⟩
      · exact hencode
      · cases hnever
  inPlace := (BufferQueue.follows_putHeader header extendedOk q hq).1

/-- **Headers, read and stored.** The strict reader is the inverse of the encoder, and every queue
that a caller can bring about stores what the encoder gives, uncut, or fails as the encoder does or
as its supplier does. -/
theorem headerCodec_of_reachable (M S : Type) [Supplier M] [Sink S] :
    Header.Codec Header.decode? ∧
      ∀ q : Queue M S, Reachable q → ∀ (header : Header) (extendedOk : Bool),
        q.AppendsHeader header extendedOk :=
  ⟨Header.codec_decode?, fun _ h => appendsHeader (wellFormed_of_reachable h)⟩

/-- A message is open. The largest compact size, the smallest extended one and the first of 17
bits. -/
theorem headerCodec_of_reachable_open :
    ∃ q : Queue Shelf Transcript, Reachable q ∧ q.cursor = some 0 ∧
      Header.Codec Header.decode? ∧
      (∀ header extendedOk, q.AppendsHeader header extendedOk) ∧
      (∀ header extendedOk fault, (q.putHeader header extendedOk).1 = .error fault →
        header.encode extendedOk = .error fault ∨ ∃ shortage, fault = .exhausted shortage) ∧
      ∀ header : Header,
        (header.payloadSize = 0xFFFE → header.count = 0xFFFE → header.form false = .ok .compact) ∧
        (header.payloadSize = 0xFFFF → header.form true = .ok .extended) ∧
        (header.count = 0x10000 → ∃ fault, header.encode false = .error fault) := by
  have hnew : Reachable (Queue.new ({} : Shelf) ({} : Transcript)) := .new _ _
  have hrun := hnew.run [.write (.word16 1)]
  obtain ⟨hcodec, hreachable⟩ := headerCodec_of_reachable Shelf Transcript
  have happends := hreachable _ hrun
  refine ⟨_, hrun, rfl, hcodec, happends, ?_, ?_⟩
  · intro header extendedOk
    exact (happends header extendedOk).failed Shelf.onlyExhausts
  intro header
  refine ⟨?_, ?_, ?_⟩
  · intro hsize hcount
    exact Header.form_of_fitsCompact (by rw [Header.fitsCompact_iff, hsize, hcount]; decide) false
  · intro hsize
    exact Header.form_of_not_fitsCompact (by rw [Header.fitsCompact_iff, hsize]; simp)
  · intro hcount
    exact (hcodec.fails header false).mpr ⟨rfl, .inr (by rw [hcount]; decide)⟩

end Queue

end WireQueue

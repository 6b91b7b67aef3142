import WireQueue.Frame

/-! # Headers read back

What `Header.encodeAs` writes is found again at the offsets where a reader looks for it, whatever
follows the header.

* `Header.fieldAt_head` and `Header.fieldAt_skip` — a value is read where it was written, behind
  others.
* `Header.read?_encodeAs` — a header in the form chosen for it is read back, and what follows it is
  left over. -/

namespace WireQueue

namespace Header

/-! ### Values behind each other -/

section Offsets

variable {α β : Type} [Element α] [Element β]

theorem fieldAt_head (value : α) (rest : List UInt8) :
    fieldAt α (Element.encode value ++ rest) 0 = value := by
  rw [fieldAt, List.drop_zero, List.take_left' (Element.length_encode value),
    Element.decode_encode]

theorem fieldAt_skip (value : β) (rest : List UInt8) (offset : Nat) :
    fieldAt α (Element.encode value ++ rest) (Element.width β + offset) =
      fieldAt α rest offset := by
  rw [fieldAt, ← Element.length_encode value, List.drop_length_add_append]
  rfl

end Offsets

/-! ### The fields of an encoded header -/

section Fields

variable (header : Header) (form : Form) (rest : List UInt8)

theorem command_encodeAs : fieldAt UInt16 (header.encodeAs form ++ rest) 0 = header.command := by
  simp only [encodeAs, List.append_assoc]
  exact fieldAt_head header.command _

theorem size_encodeAs :
    fieldAt UInt16 (header.encodeAs form ++ rest) 2 = header.sizeField form := by
  simp only [encodeAs, List.append_assoc]
  refine (fieldAt_skip header.command _ 0).trans ?_
  exact fieldAt_head (header.sizeField form) _

theorem dataType_encodeAs : fieldAt UInt16 (header.encodeAs form ++ rest) 4 = header.dataType := by
  simp only [encodeAs, List.append_assoc]
  refine (fieldAt_skip header.command _ 2).trans ?_
  refine (fieldAt_skip (header.sizeField form) _ 0).trans ?_
  exact fieldAt_head header.dataType _

theorem count_encodeAs :
    fieldAt UInt16 (header.encodeAs form ++ rest) 6 = header.countField form := by
  simp only [encodeAs, List.append_assoc]
  refine (fieldAt_skip header.command _ 4).trans ?_
  refine (fieldAt_skip (header.sizeField form) _ 2).trans ?_
  refine (fieldAt_skip header.dataType _ 0).trans ?_
  exact fieldAt_head (header.countField form) _

/-- Behind the four short fields come the long ones. -/
theorem fieldAt_long {α : Type} [Element α] (offset : Nat) :
    fieldAt α (header.encodeAs form ++ rest) (8 + offset) =
      fieldAt α (Element.encode header.channel ++ (Element.encode header.parameter ++
        (header.extension form ++ rest))) offset := by
  simp only [encodeAs, List.append_assoc]
  have hsplit : 8 + offset = 2 + (2 + (2 + (2 + offset))) := by omega
  rw [hsplit]
  refine (fieldAt_skip header.command _ _).trans ?_
  refine (fieldAt_skip (header.sizeField form) _ _).trans ?_
  refine (fieldAt_skip header.dataType _ _).trans ?_
  exact fieldAt_skip (header.countField form) _ _

theorem channel_encodeAs : fieldAt UInt32 (header.encodeAs form ++ rest) 8 = header.channel := by
  refine (header.fieldAt_long form rest 0).trans ?_
  exact fieldAt_head header.channel _

theorem parameter_encodeAs :
    fieldAt UInt32 (header.encodeAs form ++ rest) 12 = header.parameter := by
  refine (header.fieldAt_long form rest 4).trans ?_
  refine (fieldAt_skip header.channel _ 0).trans ?_
  exact fieldAt_head header.parameter _

theorem longSize_encodeAs :
    fieldAt UInt32 (header.encodeAs .extended ++ rest) 16 = header.payloadSize := by
  refine (header.fieldAt_long .extended rest 8).trans ?_
  refine (fieldAt_skip header.channel _ 4).trans ?_
  refine (fieldAt_skip header.parameter _ 0).trans ?_
  rw [extension, List.append_assoc]
  exact fieldAt_head header.payloadSize _

theorem longCount_encodeAs :
    fieldAt UInt32 (header.encodeAs .extended ++ rest) 20 = header.count := by
  refine (header.fieldAt_long .extended rest 12).trans ?_
  refine (fieldAt_skip header.channel _ 8).trans ?_
  refine (fieldAt_skip header.parameter _ 4).trans ?_
  rw [extension, List.append_assoc]
  refine (fieldAt_skip header.payloadSize _ 0).trans ?_
  exact fieldAt_head header.count _

theorem length_encodeAs_append :
    (header.encodeAs form ++ rest).length = form.length + rest.length := by
  rw [List.length_append, length_encodeAs]

theorem drop_encodeAs_append : (header.encodeAs form ++ rest).drop form.length = rest :=
  List.drop_left' (header.length_encodeAs form)

end Fields

/-! ### The form of a header -/

/-- The limit of the compact form, in numbers. -/
theorem fitsCompact_iff {header : Header} :
    header.fitsCompact = true ↔
      header.payloadSize.toNat < 0xFFFF ∧ header.count.toNat < 0xFFFF := by
  simp only [fitsCompact, UInt32.lt_iff_toNat_lt, Bool.and_eq_true, decide_eq_true_eq]
  rfl

/-- The compact form is chosen only where it loses nothing. -/
theorem fitsCompact_of_form {header : Header} {extendedOk : Bool}
    (h : header.form extendedOk = .ok .compact) : header.fitsCompact = true := by
  unfold form at h
  split at h
  · assumption
  · split at h
    · cases h
    · dsimp only at h
      split at h
      · cases h
      · cases h

/-- A number below the limit is read back from its 16-bit field. -/
theorem toUInt32_toUInt16 {value : UInt32} (h : value < compactLimit) :
    value.toUInt16.toUInt32 = value := by
  have hlt : value.toNat < 0xFFFF := UInt32.lt_iff_toNat_lt.mp h
  apply UInt32.toNat_inj.mp
  rw [UInt16.toNat_toUInt32, UInt32.toNat_toUInt16]
  omega

/-- The 16-bit field of a number below the limit is not taken for a mark. -/
theorem toUInt16_ne_mark {value : UInt32} (h : value < compactLimit) :
    value.toUInt16 ≠ extendedSizeMark := by
  have hlt : value.toNat < 0xFFFF := UInt32.lt_iff_toNat_lt.mp h
  intro hmark
  have hnat : value.toUInt16.toNat = 0xFFFF := congrArg UInt16.toNat hmark
  rw [UInt32.toNat_toUInt16] at hnat
  omega

/-- **Headers are read back.** The reader gets the header that was written, and what follows it. -/
theorem read?_encodeAs {header : Header} {extendedOk : Bool} {form : Form}
    (hform : header.form extendedOk = .ok form) (rest : List UInt8) :
    read? (header.encodeAs form ++ rest) = some (header, rest) := by
  have hlength := header.length_encodeAs_append form rest
  simp only [read?, command_encodeAs, size_encodeAs, dataType_encodeAs, count_encodeAs,
    channel_encodeAs, parameter_encodeAs, hlength]
  cases form with
  | compact =>
    have hfits := fitsCompact_of_form hform
    simp only [fitsCompact, Bool.and_eq_true, decide_eq_true_eq] at hfits
    obtain ⟨hsize, hcount⟩ := hfits
    have hmark : header.sizeField .compact ≠ extendedSizeMark := toUInt16_ne_mark hsize
    rw [if_neg (by omega), if_pos hmark, drop_encodeAs_append]
    simp only [sizeField, countField, toUInt32_toUInt16 hsize, toUInt32_toUInt16 hcount]
  | extended =>
    -- The mark sends the reader on to the long fields.
    have hcompact : ¬ Form.extended.length + rest.length < Form.compact.length := by
      rw [Form.length, Form.length]
      omega
    have hmark : ¬ header.sizeField .extended ≠ extendedSizeMark := fun h => h rfl
    rw [if_neg hcompact, if_neg hmark, if_neg (by omega), longSize_encodeAs,
      longCount_encodeAs, drop_encodeAs_append]

end Header

end WireQueue

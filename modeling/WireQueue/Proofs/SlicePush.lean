import WireQueue.Numeral
import WireQueue.Proofs.Bounds

/-! # Pushing several values at once

A buffer counts beforehand how many of several values it has room for, and copies these in one go.
That is as good as pushing them one by one until the buffer refuses one.

* `Buffer.pushSlice?_eq_pushEach?` — both ways give the same count and leave the same buffer.
* `Buffer.Takes` — what this says of the bytes: they are read as the accepted values, and there is
  no room for another value if one was refused.
* `Buffer.pushEach?_append` — where no value is refused, the next ones may be pushed separately. -/

namespace WireQueue

/-! ### Value by value -/

namespace Chunk

variable {α : Type} [Element α] {chunk : Chunk}

/-- A value for which there is room is accepted before the others. -/
theorem accepts_cons_of_room (hroom : Element.width α ≤ chunk.room) (value : α) (rest : List α) :
    chunk.accepts (value :: rest) = (chunk.append (Element.encode value)).accepts rest + 1 := by
  have hmost : chunk.room / Element.width α =
      (chunk.room - Element.width α) / Element.width α + 1 :=
    Nat.div_eq_sub_div Element.width_pos hroom
  rw [accepts, accepts, room_append, Element.length_encode, hmost, List.length_cons]
  omega

/-- A value for which there is room is filled in before the others. -/
theorem fill_cons_of_room (hroom : Element.width α ≤ chunk.room) (value : α) (rest : List α) :
    chunk.fill (value :: rest) = (chunk.append (Element.encode value)).fill rest := by
  rw [fill, fill, accepts_cons_of_room hroom, List.take_succ_cons, Element.encodeAll_cons,
    append_append]

/-- Without room for one value none is accepted. -/
theorem accepts_of_lacks (hlacks : chunk.room < Element.width α) (values : List α) :
    chunk.accepts values = 0 := by
  rw [accepts, Nat.div_eq_of_lt hlacks, Nat.min_zero]

theorem fill_of_lacks (hlacks : chunk.room < Element.width α) (values : List α) :
    chunk.fill values = chunk := by
  rw [fill, accepts_of_lacks hlacks, List.take_zero, Element.encodeAll_nil, append_nil]

end Chunk

namespace Buffer

variable {α : Type} [Element α]

/-- Pushes the values one by one, up to the first that is refused. Gives the number of those that
were accepted. -/
def pushEach? : List α → Buffer → Option (Nat × Buffer)
  | [], buffer => some (0, buffer)
  | value :: rest, buffer => do
    let (accepted, pushed) ← buffer.push? value
    if accepted then
      let (more, final) ← pushEach? rest pushed
      return (more + 1, final)
    else return (0, pushed)

theorem pushEach?_cons_of_accepted {buffer pushed : Buffer} {value : α}
    (h : buffer.push? value = some (true, pushed)) (rest : List α) :
    buffer.pushEach? (value :: rest) = (pushed.pushEach? rest).map (Prod.map (· + 1) id) := by
  simp only [pushEach?, h, Option.bind_eq_bind, Option.bind_some, if_true]
  cases pushed.pushEach? rest with
  | none => rfl
  | some result => rfl

theorem pushEach?_cons_of_refused {buffer pushed : Buffer} {value : α}
    (h : buffer.push? value = some (false, pushed)) (rest : List α) :
    buffer.pushEach? (value :: rest) = some (0, pushed) := by
  simp only [pushEach?, h, Option.bind_eq_bind, Option.bind_some]
  rfl

/-- Where any value is accepted, the first one is. -/
theorem accepted_of_pushEach?_cons {buffer final : Buffer} {value : α} {rest : List α} {count : Nat}
    (h : buffer.pushEach? (value :: rest) = some (count + 1, final)) :
    ∃ pushed, buffer.push? value = some (true, pushed) ∧
      pushed.pushEach? rest = some (count, final) := by
  cases hpush : buffer.push? value with
  | none => simp [pushEach?, hpush] at h
  | some answer =>
    obtain ⟨accepted, pushed⟩ := answer
    cases accepted with
    | false =>
      rw [pushEach?_cons_of_refused hpush] at h
      cases h
    | true =>
      rw [pushEach?_cons_of_accepted hpush] at h
      obtain ⟨result, hrest, hresult⟩ := Option.map_eq_some_iff.mp h
      obtain ⟨hcount, rfl⟩ := Prod.mk.inj hresult
      refine ⟨pushed, rfl, ?_⟩
      rw [hrest, ← Nat.succ.inj hcount]
      rfl

/-- One by one, a chunk takes as many values as it counts beforehand. -/
theorem pushEach?_ofChunk {chunk : Chunk} (h : chunk.Fits) (values : List α) :
    (ofChunk chunk).pushEach? values =
      some (chunk.accepts values, ofChunk (chunk.fill values)) := by
  induction values generalizing chunk with
  | nil =>
    have hzero : chunk.accepts ([] : List α) = 0 := Nat.zero_min _
    rw [Chunk.fill, hzero, List.take_zero, Element.encodeAll_nil, Chunk.append_nil]
    rfl
  | cons value rest ih =>
    rcases Nat.lt_or_ge chunk.room (Element.width α) with hlacks | hroom
    · rw [pushEach?_cons_of_refused (push?_ofChunk_of_lacks h hlacks),
        Chunk.accepts_of_lacks hlacks, Chunk.fill_of_lacks hlacks]
    · have hfits : (chunk.append (Element.encode value)).Fits :=
        Chunk.fits_append h (by rwa [Element.length_encode])
      rw [pushEach?_cons_of_accepted (push?_ofChunk_of_room h hroom), ih hfits,
        Chunk.accepts_cons_of_room hroom, Chunk.fill_cons_of_room hroom]
      rfl

/-- **At once or one by one.** A slice is pushed as its values are in order, until one is
refused. -/
theorem pushSlice?_eq_pushEach? {buffer : Buffer} (h : buffer.Sound) (values : List α) :
    buffer.pushSlice? values = buffer.pushEach? values := by
  obtain ⟨chunk, hfits, rfl⟩ := h.exists_chunk
  rw [pushSlice?_ofChunk hfits, pushEach?_ofChunk hfits]

/-- **Some first, then others.** After values that were all accepted, more of them are pushed as if
they had come together. -/
theorem pushEach?_append {buffer middle : Buffer} {values : List α}
    (h : buffer.pushEach? values = some (values.length, middle)) (more : List α) :
    buffer.pushEach? (values ++ more) =
      (middle.pushEach? more).map (Prod.map (values.length + ·) id) := by
  induction values generalizing buffer with
  | nil =>
    cases h
    rw [List.nil_append]
    cases middle.pushEach? more with
    | none => rfl
    | some result => simp [Prod.map]
  | cons value rest ih =>
    obtain ⟨pushed, hpush, hrest⟩ := accepted_of_pushEach?_cons h
    rw [List.cons_append, pushEach?_cons_of_accepted hpush, ih hrest, Option.map_map]
    congr 1
    funext final
    simp only [Function.comp_apply, Prod.map, List.length_cons, id]
    congr 1
    omega

/-! ### What is accepted -/

variable [Numeral α]

/-- `buffer'` is `buffer` after it took the first `accepted` of the values. -/
structure Takes (buffer : Buffer) (values : List α) (accepted : Nat) (buffer' : Buffer) : Prop where
  /-- One by one, the same values are accepted, and the same buffer is left. -/
  eachAccepted : buffer.pushEach? values = some (accepted, buffer')
  accepted_le : accepted ≤ values.length
  /-- What is added is read as the accepted values, each by the digits of its number. -/
  added : ∃ added, buffer'.bytes = buffer.bytes ++ added ∧
    added.length = accepted * Element.width α ∧
    (cells (Element.width α) accepted added).map Element.decode = values.take accepted ∧
    (cells (Element.width α) accepted added).map ofBigEndian =
      (values.take accepted).map Numeral.number
  mark_eq : buffer'.mark = buffer.mark
  length_le : buffer'.bytes.length ≤ Chunk.capacity
  /-- A value is refused only where there is no room for it. -/
  room_lt : accepted < values.length → Chunk.capacity - buffer'.bytes.length < Element.width α

theorem takes_ofChunk {chunk : Chunk} (h : chunk.Fits) (values : List α) :
    (ofChunk chunk).Takes values (chunk.accepts values) (ofChunk (chunk.fill values)) where
  eachAccepted := pushEach?_ofChunk h values
  accepted_le := chunk.accepts_le_length values
  added := by
    have hlength : (values.take (chunk.accepts values)).length = chunk.accepts values :=
      List.length_take_of_le (chunk.accepts_le_length values)
    have hcells := cells_encodeAll (values.take (chunk.accepts values))
    rw [hlength] at hcells
    refine ⟨Element.encodeAll (values.take (chunk.accepts values)), ?_, ?_, ?_, ?_⟩
    · exact chunk.bytes_append _
    · rw [Element.length_encodeAll, hlength]
    · rw [hcells, List.map_map]
      exact (List.map_congr_left fun value _ => Element.decode_encode value).trans (List.map_id _)
    · rw [hcells, List.map_map]
      exact List.map_congr_left fun value _ => Numeral.ofBigEndian_encode value
  mark_eq := rfl
  length_le := (sound_ofChunk (Chunk.fits_fill h values)).length_le
  room_lt := by
    intro hrefused
    rw [length_bytes_ofChunk]
    exact Queue.room_fill_lt hrefused

/-- The buffer grows by whole values. -/
theorem Takes.length_eq {buffer buffer' : Buffer} {values : List α} {accepted : Nat}
    (h : buffer.Takes values accepted buffer') :
    buffer'.bytes.length = buffer.bytes.length + accepted * Element.width α := by
  obtain ⟨added, hbytes, hlength, -⟩ := h.added
  rw [hbytes, List.length_append, hlength]

/-- **A push of several values.** It comes to pushing them one by one until one is refused, and
after values that were all accepted it can be continued. -/
theorem pushSlice?_takes {buffer : Buffer} (h : buffer.Sound) (values : List α) :
    ∃ accepted buffer', buffer.pushSlice? values = some (accepted, buffer') ∧
      buffer.Takes values accepted buffer' ∧
      (accepted = values.length → ∀ more : List α, ∃ accepted' buffer'',
        buffer'.pushSlice? more = some (accepted', buffer'') ∧
          buffer.pushSlice? (values ++ more) = some (accepted + accepted', buffer'')) := by
  obtain ⟨chunk, hfits, rfl⟩ := h.exists_chunk
  have hfits' := Chunk.fits_fill hfits values
  refine ⟨chunk.accepts values, ofChunk (chunk.fill values), pushSlice?_ofChunk hfits values,
    takes_ofChunk hfits values, ?_⟩
  intro hall more
  have heach := pushEach?_ofChunk hfits values
  have hnext := pushEach?_ofChunk hfits' more
  rw [hall] at heach
  refine ⟨_, _, pushSlice?_ofChunk hfits' more, ?_⟩
  rw [pushSlice?_eq_pushEach? h, pushEach?_append heach, hnext, hall]
  rfl

/-- Three bytes are left of the buffer: enough for one of three 16-bit numbers, or for three of four
bytes. -/
theorem pushSlice?_takes_almostFull :
    ∃ buffer : Buffer, buffer.Sound ∧ buffer.bytes.length = 16381 ∧ buffer.mark = 2 ∧
      (∃ buffer', buffer.pushSlice? [(0xFFFE : UInt16), 1, 2] = some (1, buffer')) ∧
      ∃ buffer', buffer.pushSlice? [(7 : UInt8), 8, 9, 10] = some (3, buffer') := by
  let buffer : Buffer := { bytes := List.replicate 16381 0, mark := 2 }
  have hlength : buffer.bytes.length = 16381 := List.length_replicate
  have hsound : buffer.Sound := ⟨by rw [hlength]; decide, by rw [hlength]; decide⟩
  obtain ⟨accepted, filled, hpush, htakes, -⟩ := pushSlice?_takes hsound [(0xFFFE : UInt16), 1, 2]
  obtain ⟨copied, full, hcopy, htakes', -⟩ := pushSlice?_takes hsound [(7 : UInt8), 8, 9, 10]
  -- The count is the only one for which neither the buffer is overfull nor a value left out.
  have hone : accepted = 1 := by
    have hfilled := htakes.length_eq
    have hle := htakes.length_le
    have hlt := htakes.room_lt
    simp only [hlength, Chunk.capacity, Element.width, List.length_cons, List.length_nil] at *
    omega
  have hthree : copied = 3 := by
    have hfull := htakes'.length_eq
    have hle := htakes'.length_le
    have hlt := htakes'.room_lt
    simp only [hlength, Chunk.capacity, Element.width, List.length_cons, List.length_nil] at *
    omega
  subst hone hthree
  exact ⟨buffer, hsound, hlength, rfl, ⟨filled, hpush⟩, full, hcopy⟩

end Buffer

end WireQueue

import WireQueue.BufferQueue
import WireQueue.Proofs.Invariant
import WireQueue.Supplier.Shelf

/-! # No step is out of bounds

`BufferQueue` goes through every operation step by step and stops at a difference below zero, at a
slice beyond the end, at a product that does not fit or at a chunk that accepts nothing. None of
that happens: as long as the queue is well-formed, each of its operations comes to what `Queue`
says.

* `Buffer.Sound.run?` — a buffer by itself is safe under whatever is pushed.
* `BufferQueue.sweep?_map`, `BufferQueue.flush?_ofQueue` — the loops that take buffers out.
* `BufferQueue.Follows` — writes that stay in bounds and do what the writes of `Queue` do.
* `BufferQueue.perform?_ofQueue`, `BufferQueue.run?_ofQueue` — so does every operation, and every
  run.
* `BufferQueue.inBounds_of_reachable` — the two of them for everything a caller can bring about. -/

namespace WireQueue

/-! ### Buffers -/

namespace Buffer

variable {α : Type} [Element α] {chunk : Chunk}

theorem room?_ofChunk (h : chunk.Fits) : (ofChunk chunk).room? = some chunk.room := by
  rw [room?, length_bytes_ofChunk]
  exact Checked.sub?_of_le h

/-- The mark of a chunk is never behind its end. -/
theorem openBytes?_ofChunk (chunk : Chunk) :
    (ofChunk chunk).openBytes? = some chunk.uncommitted.length := by
  rw [openBytes?, length_bytes_ofChunk]
  show Checked.sub? (chunk.committed.length + chunk.uncommitted.length) chunk.committed.length = _
  rw [Checked.sub?_of_le (Nat.le_add_right _ _), Nat.add_sub_cancel_left]

theorem push?_ofChunk_of_room (h : chunk.Fits) {value : α} (hroom : Element.width α ≤ chunk.room) :
    (ofChunk chunk).push? value = some (true, ofChunk (chunk.append (Element.encode value))) := by
  simp only [push?, room?_ofChunk h, Option.bind_eq_bind, Option.bind_some,
    if_neg (Nat.not_lt.mpr hroom), ofChunk_append]
  rfl

theorem push?_ofChunk_of_lacks (h : chunk.Fits) {value : α} (hroom : chunk.room < Element.width α) :
    (ofChunk chunk).push? value = some (false, ofChunk chunk) := by
  simp only [push?, room?_ofChunk h, Option.bind_eq_bind, Option.bind_some, if_pos hroom]
  rfl

theorem pushSlice?_ofChunk (h : chunk.Fits) (values : List α) :
    (ofChunk chunk).pushSlice? values =
      some (chunk.accepts values, ofChunk (chunk.fill values)) := by
  have hslice : Checked.front? values (chunk.accepts values) =
      some (values.take (chunk.accepts values)) :=
    Checked.front?_of_le (chunk.accepts_le_length values)
  have hmost : Checked.div? chunk.room (Element.width α) = some (chunk.room / Element.width α) :=
    Checked.div?_of_pos Element.width_pos
  rw [Chunk.fill, ofChunk_append]
  simp only [pushSlice?, room?_ofChunk h, hmost, Option.bind_eq_bind, Option.bind_some]
  rw [← Chunk.accepts, hslice]
  rfl

theorem hasRoom?_ofChunk (h : chunk.Fits) (size : Nat) :
    (ofChunk chunk).hasRoom? size = some (decide (size ≤ chunk.room), ofChunk chunk) := by
  rw [hasRoom?, room?_ofChunk h]
  rfl

theorem truncate?_ofChunk (chunk : Chunk) :
    (ofChunk chunk).truncate? = some (chunk.uncommitted.length, ofChunk chunk.rollback) := by
  simp only [truncate?, openBytes?_ofChunk, Option.bind_eq_bind, Option.bind_some]
  simp [ofChunk, Chunk.rollback, Chunk.bytes]

theorem isEmpty_bytes_ofChunk (chunk : Chunk) :
    (ofChunk chunk).bytes.isEmpty = chunk.isEmpty := by
  rw [Bool.eq_iff_iff, List.isEmpty_iff, ← List.length_eq_zero_iff, length_bytes_ofChunk]
  exact beq_iff_eq.symm

/-! A sound buffer is a chunk that fits. -/

theorem Sound.exists_chunk {buffer : Buffer} (h : buffer.Sound) :
    ∃ chunk : Chunk, chunk.Fits ∧ buffer = ofChunk chunk := by
  refine ⟨buffer.toChunk, ?_, ?_⟩
  · have hle := h.length_le
    simp only [Chunk.Fits, Chunk.length, toChunk, List.length_take, List.length_drop]
    omega
  · obtain ⟨bytes, mark⟩ := buffer
    have hmark : min mark bytes.length = mark := Nat.min_eq_left h.mark_le
    simp [ofChunk, toChunk, Chunk.bytes, hmark]

theorem sound_ofChunk (h : chunk.Fits) : (ofChunk chunk).Sound where
  mark_le := by
    rw [length_bytes_ofChunk]
    exact Nat.le_add_right _ _
  length_le := by
    rw [length_bytes_ofChunk]
    exact h

theorem Sound.isSome_room? {buffer : Buffer} (h : buffer.Sound) : buffer.room?.isSome := by
  rw [room?, Checked.sub?_of_le h.length_le]
  rfl

theorem Sound.isSome_openBytes? {buffer : Buffer} (h : buffer.Sound) :
    buffer.openBytes?.isSome := by
  rw [openBytes?, Checked.sub?_of_le h.mark_le]
  rfl

/-- **The step.** No call on a sound buffer is out of bounds, and the buffer stays sound. -/
theorem Sound.perform? {buffer : Buffer} (h : buffer.Sound) (call : Call) :
    ∃ buffer', buffer.perform? call = some buffer' ∧ buffer'.Sound := by
  obtain ⟨chunk, hfits, rfl⟩ := h.exists_chunk
  cases call with
  | @push α _ value =>
    rcases Nat.lt_or_ge chunk.room (Element.width α) with hlacks | hroom
    · refine ⟨ofChunk chunk, ?_, sound_ofChunk hfits⟩
      rw [Buffer.perform?, push?_ofChunk_of_lacks hfits hlacks]
      rfl
    · refine ⟨ofChunk (chunk.append (Element.encode value)), ?_, sound_ofChunk ?_⟩
      · rw [Buffer.perform?, push?_ofChunk_of_room hfits hroom]
        rfl
      · exact Chunk.fits_append hfits (by rwa [Element.length_encode])
  | pushSlice values =>
    refine ⟨ofChunk (chunk.fill values), ?_, sound_ofChunk (Chunk.fits_fill hfits values)⟩
    rw [Buffer.perform?, pushSlice?_ofChunk hfits]
    rfl
  | reset => exact ⟨ofChunk .empty, rfl, sound_ofChunk (Nat.zero_le _)⟩

/-- **The run.** Any calls on a sound buffer go through and leave it sound. -/
theorem Sound.run? {buffer : Buffer} (h : buffer.Sound) (calls : List Call) :
    ∃ buffer', buffer.run? calls = some buffer' ∧ buffer'.Sound := by
  induction calls generalizing buffer with
  | nil => exact ⟨buffer, rfl, h⟩
  | cons call rest ih =>
    obtain ⟨next, hcall, hnext⟩ := h.perform? call
    obtain ⟨final, hrest, hfinal⟩ := ih hnext
    refine ⟨final, ?_, hfinal⟩
    rw [Buffer.run?, hcall]
    exact hrest

end Buffer

namespace BufferQueue

variable {M S : Type}

/-! ### The last buffer -/

theorem markLast?_ofQueue {q : Queue M S} (hne : q.chain ≠ []) :
    (ofQueue q).markLast? =
      some (ofQueue { q with cursor := q.cursor.or (some (q.chain.length - 1)) }) := by
  have hlength : (ofQueue q).buffers.length = q.chain.length := List.length_map _
  rw [markLast?, hlength, Checked.sub?_of_le (List.length_pos_iff.mpr hne)]
  rfl

theorem link?_ofQueue (q : Queue M S) (chunk : Chunk) :
    (ofQueue q).link? (Buffer.ofChunk chunk) =
      some (ofQueue
        { q with chain := q.chain ++ [chunk], cursor := q.cursor.or (some q.chain.length) }) := by
  have hadded : { ofQueue q with buffers := (ofQueue q).buffers ++ [Buffer.ofChunk chunk] } =
      ofQueue { q with chain := q.chain ++ [chunk] } := by
    simp [ofQueue]
  rw [link?, hadded, markLast?_ofQueue (List.append_ne_nil_of_right_ne_nil _ (List.cons_ne_nil _ _))]
  simp

section ChangeLast

variable {α : Type} {change : Buffer → Option (α × Buffer)} {otherwise answer : α} {q : Queue M S}

theorem changeLast?_of_last {last changed : Chunk} (h : q.chain.getLast? = some last)
    (hchange : change (Buffer.ofChunk last) = some (answer, Buffer.ofChunk changed)) :
    (ofQueue q).changeLast? change otherwise =
      some (answer, ofQueue { q with chain := q.chain.replaceLast changed }) := by
  have hlast : (ofQueue q).buffers.getLast? = some (Buffer.ofChunk last) := by
    simp [ofQueue, h]
  simp only [changeLast?, hlast, hchange, Option.bind_eq_bind, Option.bind_some]
  simp [ofQueue, Chain.replaceLast]

/-- Where the last buffer gives an answer and stays as it is, so does the queue. -/
theorem changeLast?_of_look {last : Chunk} (h : q.chain.getLast? = some last)
    (hchange : change (Buffer.ofChunk last) = some (answer, Buffer.ofChunk last)) :
    (ofQueue q).changeLast? change otherwise = some (answer, ofQueue q) := by
  have hsame : q.chain.replaceLast last = q.chain := by
    obtain ⟨front, hchain⟩ := List.getLast?_eq_some_iff.mp h
    rw [hchain, Chain.replaceLast, List.dropLast_concat]
  rw [changeLast?_of_last h hchange, hsame]

/-- A look at the last buffer that can only give the answer for an empty chain changes nothing. -/
theorem changeLast?_of_otherwise
    (h : ∀ last, q.chain.getLast? = some last →
      change (Buffer.ofChunk last) = some (otherwise, Buffer.ofChunk last)) :
    (ofQueue q).changeLast? change otherwise = some (otherwise, ofQueue q) := by
  cases hlast : q.chain.getLast? with
  | none =>
    have hnone : (ofQueue q).buffers.getLast? = none := by
      simp [ofQueue, hlast]
    simp only [changeLast?, hnone]
  | some last => exact changeLast?_of_look hlast (h last hlast)

/-- The cursor is set to a last buffer that has just been changed. -/
theorem markLast?_replaceLast {last : Chunk} (h : q.chain.getLast? = some last) (changed : Chunk) :
    (ofQueue { q with chain := q.chain.replaceLast changed }).markLast? =
      some (ofQueue
        { q with
          chain := q.chain.replaceLast changed
          cursor := q.cursor.or (some (q.chain.length - 1)) }) := by
  obtain ⟨front, hchain⟩ := List.getLast?_eq_some_iff.mp h
  rw [markLast?_ofQueue (List.append_ne_nil_of_right_ne_nil _ (List.cons_ne_nil _ _))]
  simp [Chain.replaceLast, hchain]

end ChangeLast

/-! ### Messages -/

theorem commit?_ofQueue {q : Queue M S} (hq : q.WellFormed) :
    (ofQueue q).commit? = some (ofQueue q.commit) := by
  have hmarked := hq.marked
  unfold commit? Queue.commit
  cases hcursor : q.cursor with
  | none => simp [ofQueue, hcursor]
  | some first =>
    rw [hcursor] at hmarked
    have hrange : first ≤ (ofQueue q).buffers.length := by
      simpa [ofQueue] using Nat.le_of_lt hmarked.cursor_lt
    have hcursor' : (ofQueue q).cursor = some first := hcursor
    simp only [hcursor', Checked.back?_of_le hrange, Option.bind_eq_bind, Option.bind_some]
    simp [ofQueue, Chain.commit, Function.comp_def]

variable [Supplier M]

/-- The loop over the open message is a rollback, taken chunk by chunk. -/
theorem sweep?_map (chain : Chain) (supply : M) :
    sweep? (chain.map Buffer.ofChunk) supply =
      some (chain.uncommitted.length, chain.rollback.map Buffer.ofChunk,
        chain.emptied.foldl Supplier.reclaim supply) := by
  induction chain generalizing supply with
  | nil => rfl
  | cons chunk chain ih =>
    simp only [List.map_cons, sweep?, Buffer.truncate?_ofChunk, Option.bind_eq_bind,
      Option.bind_some, Buffer.isEmpty_bytes_ofChunk, Buffer.toChunk_ofChunk, ih]
    cases hempty : chunk.rollback.isEmpty with
    | true => simp [Chain.rollback, Chain.emptied, hempty]
    | false => simp [Chain.rollback, Chain.emptied, hempty]

/-- No more bytes are dropped than are counted. -/
theorem rollback?_ofQueue {q : Queue M S} (hq : q.WellFormed) :
    (ofQueue q).rollback? = some (ofQueue q.rollback) := by
  have hmarked := hq.marked
  unfold rollback? Queue.rollback
  cases hcursor : q.cursor with
  | none => simp [ofQueue, hcursor]
  | some first =>
    rw [hcursor] at hmarked
    have hcursor' : (ofQueue q).cursor = some first := hcursor
    have hdrop : (ofQueue q).buffers.drop first = (q.chain.drop first).map Buffer.ofChunk :=
      List.map_drop.symm
    have hle : (Chain.uncommitted (q.chain.drop first)).length ≤ q.occupied := by
      rw [hmarked.uncommitted_drop, hq.occupied, Chain.size_eq_add]
      exact Nat.le_add_left _ _
    have hoccupied : (if (Chain.uncommitted (q.chain.drop first)).length = 0
        then some (ofQueue q).occupied
        else Checked.sub? (ofQueue q).occupied (Chain.uncommitted (q.chain.drop first)).length) =
          some (q.occupied - (Chain.uncommitted (q.chain.drop first)).length) := by
      split
      · next hzero =>
        rw [hzero]
        rfl
      · exact Checked.sub?_of_le hle
    simp only [hcursor', hdrop, sweep?_map, Option.bind_eq_bind, Option.bind_some, hoccupied]
    simp [ofQueue]

theorem startMessage?_ofQueue {q : Queue M S} (hq : q.WellFormed) :
    (ofQueue q).startMessage? = some (ofQueue q.startMessage) := by
  have hdropped : (if (ofQueue q).cursor.isSome then (ofQueue q).rollback? else some (ofQueue q)) =
      some (ofQueue q.rollback) := by
    rw [rollback?_ofQueue hq]
    cases hcursor : q.cursor with
    | none =>
      rw [Queue.rollback_of_cursor_eq_none hcursor]
      exact ite_self _
    | some first => exact if_pos (congrArg Option.isSome hcursor)
  have hlast : Checked.sub? (ofQueue q.rollback).buffers.length 1 = q.startMessage.cursor := by
    show Checked.sub? (q.rollback.chain.map Buffer.ofChunk).length 1 =
      if q.rollback.chain.isEmpty then none else some (q.rollback.chain.length - 1)
    rw [List.length_map]
    cases q.rollback.chain with
    | nil => rfl
    | cons chunk rest => exact Checked.sub?_of_le (Nat.succ_le_succ (Nat.zero_le _))
  simp only [startMessage?, hdropped, Option.bind_eq_bind, Option.bind_some, hlast]
  rfl

theorem clear_ofQueue (q : Queue M S) : (ofQueue q).clear = ofQueue q.clear := by
  simp [clear, ofQueue, Queue.clear, List.foldl_map]

/-! ### Writing -/

/-- On a well-formed queue the write stays in bounds and does what `model` does, which leaves the
queue well-formed. -/
def Follows (write : Attempt M S) (model : WireQueue.Attempt M S) : Prop :=
  ∀ q : Queue M S, q.WellFormed →
    write (ofQueue q) = some ((model q).1, ofQueue (model q).2) ∧ (model q).2.WellFormed

namespace Follows

variable {first second : Attempt M S} {model model' : WireQueue.Attempt M S}

omit [Supplier M] in
theorem fail (fault : Fault) :
    Follows (Attempt.fail fault : Attempt M S) (WireQueue.Attempt.fail fault) := by
  intro q hq
  exact ⟨rfl, hq⟩

omit [Supplier M] in
theorem andThen (hfirst : Follows first model) (hsecond : Follows second model') :
    Follows (first.andThen second) (model.andThen model') := by
  intro q hq
  obtain ⟨hstep, hmiddle⟩ := hfirst q hq
  simp only [Attempt.andThen, WireQueue.Attempt.andThen, hstep, Option.bind_eq_bind,
    Option.bind_some]
  generalize model q = result at hmiddle
  obtain ⟨outcome, middle⟩ := result
  cases outcome with
  | ok _ => exact hsecond middle hmiddle
  | error fault => exact ⟨rfl, hmiddle⟩

end Follows

/-! #### New buffers -/

/-- The queue with another chunk, which leaves the supplier as `supply`. -/
def extend (q : Queue M S) (supply : M) (chunk : Chunk) : Queue M S :=
  { q with
    supply
    chain := q.chain ++ [chunk]
    cursor := q.cursor.or (some q.chain.length)
    occupied := q.occupied + chunk.length
    counters := q.counters.countAcquired }

/-- Whatever is supplied, it is emptied. What is then done with the buffer is to come to `fill`, and
to what `model` does with the chunk in place. -/
theorem withNew_ofQueue {q : Queue M S} {next : Buffer → Attempt M S} {fill : Chunk → Chunk}
    {model : WireQueue.Attempt M S}
    (h : ∀ supply,
      next (Buffer.ofChunk .empty)
          (ofQueue { q with supply, counters := q.counters.countAcquired }) =
        some ((model (extend q supply (fill .empty))).1,
          ofQueue (model (extend q supply (fill .empty))).2)) :
    withNew next (ofQueue q) =
      some (((Queue.link fill).andThen model q).1,
        ofQueue ((Queue.link fill).andThen model q).2) := by
  rcases hacquire : Supplier.acquire q.supply with ⟨outcome, supply⟩
  cases outcome with
  | error fault =>
    have hsupply : Supplier.acquire (ofQueue q).supply = (.error fault, supply) := hacquire
    simp only [withNew, allocate, hsupply, WireQueue.Attempt.andThen,
      Queue.link_of_refused hacquire]
    rfl
  | ok supplied =>
    have hsupply : Supplier.acquire (ofQueue q).supply = (.ok supplied, supply) := hacquire
    simp only [withNew, allocate, hsupply, WireQueue.Attempt.andThen,
      Queue.link_of_supplied hacquire]
    exact h supply

section Arrays

variable {α : Type} [Element α]

theorem fits_empty : Chunk.empty.Fits := Nat.zero_le _

omit [Supplier M] in
theorem width_le_room_empty : Element.width α ≤ Chunk.empty.room :=
  Nat.le_trans Element.width_le (by decide)

theorem follows_putScalar (value : α) :
    Follows (putScalar? value : Attempt M S) (Queue.putScalar value) := by
  intro q hq
  have hwell : (q.putScalar value).2.WellFormed :=
    hq.putUnit (sized_valueUnits [value] (.value (Element.encode value)) List.mem_cons_self)
  refine ⟨?_, hwell⟩
  unfold Queue.putScalar putScalar?
  rcases q.room_or_lacksRoom (Element.encode value).length with ⟨last, hlast, hroom⟩ | hlacks
  · have hfits := (hq.filled last (List.mem_of_getLast? hlast)).2
    rw [Queue.place_of_room hlast hroom]
    rw [Element.length_encode] at hroom ⊢
    simp only [changeLast?_of_last hlast (Buffer.push?_ofChunk_of_room hfits hroom),
      Option.bind_eq_bind, Option.bind_some, if_true, markLast?_replaceLast hlast]
    rfl
  · have hno : ∀ last, q.chain.getLast? = some last →
        Buffer.push? value (Buffer.ofChunk last) = some (false, Buffer.ofChunk last) := by
      intro last hlast
      have hfits := (hq.filled last (List.mem_of_getLast? hlast)).2
      have hroom := hlacks last hlast
      rw [Element.length_encode] at hroom
      exact Buffer.push?_ofChunk_of_lacks hfits hroom
    rw [Queue.place_of_lacksRoom hlacks]
    simp only [changeLast?_of_otherwise hno, Option.bind_eq_bind, Option.bind_some]
    rw [← WireQueue.Attempt.andThen_done (Queue.link _)]
    apply withNew_ofQueue
    intro supply
    simp only [Buffer.push?_ofChunk_of_room fits_empty width_le_room_empty, link?_ofQueue,
      Option.bind_some, Checked.require?_true]
    simp [ofQueue, extend, WireQueue.Attempt.done]

omit [Supplier M] in
theorem length_fill_empty (values : List α) :
    (Chunk.empty.fill values).length = Chunk.empty.accepts values * Element.width α := by
  rw [Chunk.fill, Chunk.length_append, Element.length_encodeAll, List.length_take,
    Nat.min_eq_left (Chunk.accepts_le_length _ _), Chunk.length_empty, Nat.zero_add]

/-- **The loop over new buffers.** It slices the values where it should, and every buffer takes some
of them. -/
theorem spill?_ofQueue {values : List α} {copied : Nat} (hcopied : copied ≤ values.length)
    (q : Queue M S) :
    spill? values copied (ofQueue q) =
      some ((q.spill (values.drop copied)).1, ofQueue (q.spill (values.drop copied)).2) := by
  induction hleft : values.length - copied using Nat.strongRecOn generalizing copied q with
  | ind left ih =>
    rw [spill?]
    by_cases hmore : copied < values.length
    · have hne : values.drop copied ≠ [] := by
        rw [← List.length_pos_iff, List.length_drop]
        omega
      have hpos := Chunk.accepts_empty_pos hne
      have hle := Chunk.empty.accepts_le_length (values.drop copied)
      rw [List.length_drop] at hle
      rw [if_pos hmore, Queue.spill_of_ne_nil hne, List.drop_drop]
      apply withNew_ofQueue
      intro supply
      simp only [Checked.back?_of_le hcopied, Buffer.pushSlice?_ofChunk fits_empty,
        Option.bind_eq_bind, Option.bind_some, if_pos hpos]
      -- The bytes are counted before the buffer is linked, which comes to the same.
      let counted : Queue M S :=
        { q with
          supply
          counters := q.counters.countAcquired
          occupied := q.occupied + Chunk.empty.accepts (values.drop copied) * Element.width α }
      have hlinked : link? (Buffer.ofChunk (Chunk.empty.fill (values.drop copied)))
          (ofQueue counted) =
            some (ofQueue (extend q supply (Chunk.empty.fill (values.drop copied)))) := by
        rw [extend, length_fill_empty]
        exact link?_ofQueue counted _
      have hnext : spill? values (copied + Chunk.empty.accepts (values.drop copied))
          (ofQueue (extend q supply (Chunk.empty.fill (values.drop copied)))) = _ :=
        ih _ (by omega) (by omega) _ rfl
      exact (congrArg (Option.bind · _) hlinked).trans hnext
    · have hnil : values.drop copied = [] := List.drop_eq_nil_of_le (Nat.not_lt.mp hmore)
      rw [if_neg hmore, hnil, Queue.spill_nil]
      rfl

theorem follows_spread (values : List α) :
    Follows (spread? values : Attempt M S) (Queue.spread values) := by
  intro q hq
  have hwell : (q.spread values).2.WellFormed := by
    rw [Queue.spread_eq_putUnits]
    refine Queue.putUnits_preserves ?_ hq
    intro unit hunit q hq
    exact hq.putUnit (sized_valueUnits values unit hunit)
  refine ⟨?_, hwell⟩
  unfold Queue.spread spread?
  cases hlast : q.chain.getLast? with
  | none =>
    have hnone : ∀ last, q.chain.getLast? = some last →
        Buffer.pushSlice? values (Buffer.ofChunk last) = some (0, Buffer.ofChunk last) := by
      intro last h
      rw [hlast] at h
      cases h
    simp only [changeLast?_of_otherwise hnone, Option.bind_eq_bind, Option.bind_some,
      Nat.lt_irrefl, if_false]
    exact spill?_ofQueue (Nat.zero_le _) q
  | some last =>
    have hfits := (hq.filled last (List.mem_of_getLast? hlast)).2
    have hle := last.accepts_le_length values
    rcases Nat.eq_zero_or_pos (last.accepts values) with hzero | hpos
    · have hfill : last.fill values = last := by
        rw [Chunk.fill, hzero, List.take_zero, Element.encodeAll_nil, Chunk.append_nil]
      have hlook := Buffer.pushSlice?_ofChunk hfits values
      rw [hzero, hfill] at hlook
      simp only [changeLast?_of_look hlast hlook, Option.bind_eq_bind, Option.bind_some,
        Nat.lt_irrefl, if_false, hzero, if_true]
      exact spill?_ofQueue (Nat.zero_le _) q
    · simp only [changeLast?_of_last hlast (Buffer.pushSlice?_ofChunk hfits values),
        Option.bind_eq_bind, Option.bind_some, if_pos hpos, if_neg (Nat.ne_of_gt hpos),
        markLast?_replaceLast hlast]
      exact spill?_ofQueue hle (q.replaceTail (last.fill values) _)

theorem follows_spreadLeading (values : List α) (needed : Nat) :
    Follows (spreadLeading? values needed : Attempt M S) (Queue.spreadLeading values needed) := by
  unfold spreadLeading? Queue.spreadLeading
  cases leading values needed with
  | ok values => exact follows_spread values
  | error fault => exact .fail fault

end Arrays

/-- No number of elements is too large for the number of their bytes. -/
theorem follows_putElements (payload : Payload) {count : Nat} (hcount : count < UInt32.size) :
    Follows (putElements? payload count : Attempt M S) (Queue.putElements payload count) := by
  cases payload with
  | string bytes =>
    have hfits : count * stringSize < UInt64.size := by
      rw [UInt32.size] at hcount
      rw [stringSize, UInt64.size]
      omega
    intro q hq
    simp only [putElements?, Checked.mul?_of_lt hfits, Option.bind_eq_bind, Option.bind_some]
    exact follows_spreadLeading bytes _ q hq
  | _ values =>
    have hsame : Follows (spreadLeading? values count : Attempt M S) _ :=
      follows_spreadLeading values count
    exact hsame

theorem follows_putValues (type : DataType) (payload : Payload) (count : UInt32) :
    Follows (putValues? type payload count : Attempt M S) (Queue.putValues type payload count) := by
  unfold putValues? Queue.putValues
  cases payload.check type count.toNat with
  | ok _ => exact follows_putElements payload count.toNat_lt
  | error fault => exact .fail fault

/-! #### Headers -/

omit [Supplier M] in
theorem writeHeader?_ofQueue {q : Queue M S} {last : Chunk} (hlast : q.chain.getLast? = some last)
    (header : Header) (form : Header.Form) :
    writeHeader? header form (ofQueue q) =
      some (.ok (), ofQueue
        { q.replaceTail (last.append (header.encodeAs form)) form.length with
          counters := q.counters.countHeader (form == .extended) }) := by
  have hchanged : (ofQueue q).changeLast?
      (fun last => some ((), last.append (header.encodeAs form))) () =
        some ((), ofQueue
          { q with chain := q.chain.replaceLast (last.append (header.encodeAs form)) }) := by
    apply changeLast?_of_last hlast
    rw [Buffer.ofChunk_append]
  simp only [writeHeader?, hchanged, Option.bind_eq_bind, Option.bind_some,
    markLast?_replaceLast hlast]
  rfl

theorem follows_putHeader (header : Header) (extendedOk : Bool) :
    Follows (putHeader? header extendedOk : Attempt M S) (Queue.putHeader header extendedOk) := by
  intro q hq
  refine ⟨?_, hq.attempt (.header header extendedOk)⟩
  unfold Queue.putHeader putHeader?
  cases header.form extendedOk with
  | error fault => rfl
  | ok form =>
    have hlength := header.length_encodeAs form
    simp only [WireQueue.Attempt.counting, WireQueue.Attempt.andThen]
    rcases q.room_or_lacksRoom (header.encodeAs form).length with ⟨last, hlast, hroom⟩ | hlacks
    · have hfits := (hq.filled last (List.mem_of_getLast? hlast)).2
      have hlook := Buffer.hasRoom?_ofChunk hfits form.length
      rw [decide_eq_true (hlength ▸ hroom)] at hlook
      rw [Queue.place_of_room hlast hroom]
      simp only [changeLast?_of_look hlast hlook, Option.bind_eq_bind, Option.bind_some, if_true,
        writeHeader?_ofQueue hlast, hlength]
      rfl
    · have hno : ∀ last, q.chain.getLast? = some last →
          Buffer.hasRoom? form.length (Buffer.ofChunk last) =
            some (false, Buffer.ofChunk last) := by
        intro last hlast
        have hfits := (hq.filled last (List.mem_of_getLast? hlast)).2
        have hroom := hlacks last hlast
        rw [hlength] at hroom
        rw [Buffer.hasRoom?_ofChunk hfits, decide_eq_false (Nat.not_le.mpr hroom)]
      rw [Queue.place_of_lacksRoom hlacks]
      simp only [changeLast?_of_otherwise hno, Option.bind_eq_bind, Option.bind_some]
      apply withNew_ofQueue
      intro supply
      -- The header is written to the empty buffer once that is in place.
      have hlast : (q.chain ++ [Chunk.empty]).getLast? = some Chunk.empty := List.getLast?_concat
      simp only [link?_ofQueue, Option.bind_some]
      refine (writeHeader?_ofQueue hlast header form).trans ?_
      simp [ofQueue, extend, Queue.replaceTail, Chain.replaceLast, hlength]

end BufferQueue

/-! #### Requests

Everything about a request is computed in words of 64 bits before it is written, and none of the
sums, products and differences wraps. -/

namespace Request

variable {request : Request} {type : DataType} {text? : Option (List UInt8)}

/-- A text ends before the first NUL, or where the payload does. -/
theorem take_findIdx_zero (bytes : List UInt8) :
    bytes.take (bytes.findIdx (· == 0)) = bytes.takeWhile (· ≠ 0) := by
  rw [List.takeWhile_eq_take_findIdx_not]
  congr 2
  funext byte
  rw [Bool.eq_iff_iff]
  simp

theorem textSlice?_eq (request : Request) (type : DataType) :
    request.textSlice? type = some (request.text? type) := by
  unfold textSlice? Request.text?
  cases request.payload with
  | string bytes =>
    have hle : bytes.findIdx (· == 0) ≤ bytes.length := List.findIdx_le_length
    have hlength : (bytes.takeWhile (· ≠ 0)).length = bytes.findIdx (· == 0) := by
      rw [← take_findIdx_zero, List.length_take, Nat.min_eq_left hle]
    by_cases hsingle : request.count = 1 ∧ type = .string
    · by_cases hlong : stringSize < bytes.findIdx (· == 0) + 1
      · simp only [if_pos hsingle, hlength, if_pos hlong]
      · simp only [if_pos hsingle, hlength, if_neg hlong, Checked.front?_of_le hle,
          take_findIdx_zero, Option.bind_eq_bind, Option.bind_some]
        rfl
    · simp only [if_neg hsingle]
  | _ => rfl

theorem bodySize?_eq (request : Request) (type : DataType) (text? : Option (List UInt8)) :
    request.bodySize? type text? = some (request.bodySize type text?) := by
  cases text? with
  | some text => rfl
  | none =>
    have hsize : type.kind.size ≤ stringSize := Kind.size_le type.kind
    have hcount := request.count.toNat_lt
    have hword : (UInt64.ofNat type.kind.size).toNat = type.kind.size :=
      UInt64.toNat_ofNat_of_lt' (Nat.lt_of_le_of_lt hsize (by decide))
    have hmul := Nat.mul_le_mul (Nat.le_of_lt hcount) hsize
    have hfits :
        request.count.toUInt64.toNat * (UInt64.ofNat type.kind.size).toNat < UInt64.size := by
      rw [hword, UInt32.toNat_toUInt64]
      exact Nat.lt_of_le_of_lt hmul (by decide)
    exact if_pos hfits

end Request

theorem alignUp?_eq {size : UInt64} (h : size.toNat ≤ UInt64.size - 8) :
    alignUp? size = some (alignUp size) := by
  have hsum : size.toNat + (payloadAlignment - 1).toNat < UInt64.size := by
    rw [show (payloadAlignment - 1).toNat = 7 from rfl]
    rw [UInt64.size] at *
    omega
  have hadd : Checked.addWord? size (payloadAlignment - 1) = some (size + (payloadAlignment - 1)) :=
    if_pos hsum
  rw [alignUp?, hadd]
  rfl

namespace BufferQueue

variable {M S : Type} [Supplier M]

/-- The padding is what is left to the next multiple of eight. -/
theorem follows_putPadding {size : UInt64} (h : size.toNat ≤ UInt64.size - 8) :
    Follows (putPadding? size (alignUp size) : Attempt M S)
      (Queue.putPadding (alignUp size - size).toNat) := by
  have haligned := toNat_alignUp size h
  have hle : size ≤ alignUp size := by
    rw [UInt64.le_iff_toNat_le, haligned]
    omega
  have hdifference : Checked.subWord? (alignUp size) size = some (alignUp size - size) := if_pos hle
  have hnat := UInt64.toNat_sub_of_le _ _ hle
  have hsmall : (alignUp size - size).toNat < 8 := by
    omega
  have hless : alignUp size - size < payloadAlignment := hsmall
  have hslice : Checked.front? zeros (alignUp size - size).toNat =
      some (List.replicate (alignUp size - size).toNat 0) := by
    have hin : (alignUp size - size).toNat ≤ zeros.length := Nat.le_of_lt hsmall
    rw [Checked.front?_of_le hin, zeros, List.take_replicate]
    exact congrArg (fun count => some (List.replicate count 0)) (Nat.min_eq_left hin)
  intro q hq
  simp only [putPadding?, hdifference, Option.bind_eq_bind, Option.bind_some,
    decide_eq_true hless, Checked.require?_true, hslice]
  split
  · exact follows_spread _ q hq
  · next hzero =>
    rw [Nat.eq_zero_of_not_pos hzero, Queue.putPadding, Queue.spread_eq_putUnits]
    exact ⟨rfl, hq⟩

theorem follows_putBody (request : Request) (text? : Option (List UInt8)) :
    Follows (putBody? request text? : Attempt M S)
      (match text? with
        | some text => Queue.putText text
        | none => Queue.putElements request.payload request.count.toNat) := by
  cases text? with
  | some text => exact (follows_spread text).andThen (follows_putScalar 0)
  | none => exact follows_putElements request.payload request.count.toNat_lt

theorem follows_assemble {request : Request} {type : DataType} {text? : Option (List UInt8)}
    (hlayout : request.layout = request.assemble type text?)
    (hsize : (request.bodySize type text?).toNat ≤ UInt64.size - 8) (extendedOk : Bool) :
    Follows (assemble? request type text? extendedOk : Attempt M S)
      (Queue.putRequest request extendedOk) := by
  intro q hq
  simp only [assemble?, Request.bodySize?_eq, alignUp?_eq hsize, Option.bind_eq_bind,
    Option.bind_some, Queue.putRequest, hlayout, Request.assemble]
  by_cases hmax : Request.maxPayloadSize < (alignUp (request.bodySize type text?)).toNat
  · simp only [if_pos hmax]
    exact ⟨rfl, hq⟩
  · simp only [if_neg hmax]
    have hbody : Follows (putBody? request text? : Attempt M S) _ := follows_putBody request text?
    exact (follows_putHeader _ extendedOk).andThen (hbody.andThen (follows_putPadding hsize)) q hq

/-- A request is computed in bounds before it is written, as far as it is found in order. -/
theorem follows_putRequest (request : Request) (extendedOk : Bool) :
    Follows (putRequest? request extendedOk : Attempt M S)
      (Queue.putRequest request extendedOk) := by
  intro q hq
  cases htype : DataType.ofCode request.typeCode with
  | error fault =>
    have hlayout : request.layout = .error fault := by
      simp only [Request.layout, htype, bind, Except.bind]
    simp only [putRequest?, htype, Queue.putRequest, hlayout]
    exact ⟨rfl, hq⟩
  | ok type =>
    cases hcheck : request.payload.check type request.count.toNat with
    | error fault =>
      have hlayout : request.layout = .error fault := by
        simp only [Request.layout, htype, hcheck, bind, Except.bind]
      simp only [putRequest?, htype, hcheck, Queue.putRequest, hlayout]
      exact ⟨rfl, hq⟩
    | ok _ =>
      cases htext : request.text? type with
      | error fault =>
        have hlayout : request.layout = .error fault := by
          simp only [Request.layout, htype, hcheck, htext, bind, Except.bind]
        simp only [putRequest?, htype, hcheck, Request.textSlice?_eq, htext, Option.bind_eq_bind,
          Option.bind_some, Queue.putRequest, hlayout]
        exact ⟨rfl, hq⟩
      | ok text? =>
        have hlayout : request.layout = request.assemble type text? := by
          simp only [Request.layout, htype, hcheck, htext, bind, Except.bind]
        have hsize : (request.bodySize type text?).toNat ≤ UInt64.size - 8 := by
          rw [Request.toNat_bodySize htype hcheck htext]
          exact Nat.le_trans (Request.length_body_le htype hcheck htext) (by decide)
        simp only [putRequest?, htype, hcheck, Request.textSlice?_eq, htext, Option.bind_eq_bind,
          Option.bind_some]
        exact follows_assemble hlayout hsize extendedOk q hq

theorem follows_attempt (write : Write) : Follows (attempt? write : Attempt M S) write.attempt := by
  cases write with
  | word16 value => exact follows_putScalar value
  | word32 value => exact follows_putScalar value
  | real32 value => exact follows_putScalar value
  | bytes added => exact follows_spread added
  | values type payload count => exact follows_putValues type payload count
  | header opening extendedOk => exact follows_putHeader opening extendedOk
  | request whole extendedOk => exact follows_putRequest whole extendedOk

/-! ### Draining -/

section Pop

variable {q : Queue M S}

theorem rollback?_of_closed (hclosed : q.cursor = none) :
    (ofQueue q).rollback? = some (ofQueue q) := by
  unfold rollback?
  have hcursor : (ofQueue q).cursor = none := hclosed
  rw [hcursor]

/-- Only the first of several pops has a message to drop. -/
theorem pop?_rollback (hq : q.WellFormed) : (ofQueue q).pop? = (ofQueue q.rollback).pop? := by
  simp only [pop?, rollback?_ofQueue hq, rollback?_of_closed (Queue.cursor_rollback q)]

theorem pop?_of_nil (hclosed : q.cursor = none) (hchain : q.chain = []) :
    (ofQueue q).pop? = some (none, ofQueue q) := by
  have hbuffers : (ofQueue q).buffers = [] := congrArg (List.map Buffer.ofChunk) hchain
  simp only [pop?, rollback?_of_closed hclosed, Option.bind_eq_bind, Option.bind_some, hbuffers]
  rfl

/-- The bytes of the chunk are among those counted. -/
theorem pop?_of_cons {chunk : Chunk} {rest : Chain} (hclosed : q.cursor = none)
    (hchain : q.chain = chunk :: rest) (hoccupied : q.occupied = q.chain.size) :
    (ofQueue q).pop? =
      some (some (Buffer.ofChunk chunk), ofQueue ({ q with chain := rest }.depart chunk)) := by
  have hbuffers : (ofQueue q).buffers = Buffer.ofChunk chunk :: rest.map Buffer.ofChunk :=
    congrArg (List.map Buffer.ofChunk) hchain
  have hle : (Buffer.ofChunk chunk).bytes.length ≤ (ofQueue q).occupied := by
    show (Buffer.ofChunk chunk).bytes.length ≤ q.occupied
    rw [hoccupied, hchain, Buffer.length_bytes_ofChunk, Chain.size_cons]
    exact Nat.le_add_right _ _
  simp only [pop?, rollback?_of_closed hclosed, Option.bind_eq_bind, Option.bind_some, hbuffers,
    Checked.sub?_of_le hle]
  simp [ofQueue, Queue.depart]

theorem pop?_ofQueue (hq : q.WellFormed) :
    (ofQueue q).pop? = some (q.pop.1.map Buffer.ofChunk, ofQueue q.pop.2) := by
  rw [pop?_rollback hq, Queue.pop_eq]
  cases hchain : q.rollback.chain with
  | nil => exact pop?_of_nil (Queue.cursor_rollback q) hchain
  | cons chunk rest => exact pop?_of_cons (Queue.cursor_rollback q) hchain hq.rollback.occupied

end Pop

/-! #### The loop of a flush -/

section Flush

variable [Sink S]

theorem flush?_of_none {q next : BufferQueue M S} (h : q.pop? = some (none, next)) :
    q.flush? = some (0, next) := by
  rw [flush?]
  split
  · next hstuck => rw [h] at hstuck; cases hstuck
  · next hnone => rw [h] at hnone; cases hnone; rfl
  · next hsome => rw [h] at hsome; cases hsome

theorem flush?_of_some {q next : BufferQueue M S} {buffer : Buffer}
    (h : q.pop? = some (some buffer, next)) :
    q.flush? = (next.dispatch buffer).flush?.map (Prod.map (buffer.bytes.length + ·) id) := by
  rw [flush?]
  split
  · next hstuck => rw [h] at hstuck; cases hstuck
  · next hnone => rw [h] at hnone; cases hnone
  · next hsome =>
    rw [h] at hsome
    cases hsome
    cases (next.dispatch buffer).flush? with
    | none => rfl
    | some result => rfl

theorem dispatch_ofQueue (q : Queue M S) (chunk : Chunk) :
    (ofQueue (q.depart chunk)).dispatch (Buffer.ofChunk chunk) = ofQueue (q.dispatch chunk) := by
  have hsink : (ofQueue (q.depart chunk)).sink = (q.depart chunk).sink := rfl
  simp only [dispatch, Queue.dispatch, hsink, Buffer.toChunk_ofChunk]
  cases (Sink.deliver (q.depart chunk).sink chunk).1 with
  | none => rfl
  | some returned => rfl

/-- What is done to a chunk at the sink leaves the chunks behind it alone. -/
theorem dispatch_with_chain (q : Queue M S) (chunk : Chunk) (chain : Chain) :
    ({ q with chain } : Queue M S).dispatch chunk = { q.dispatch chunk with chain } := by
  simp only [Queue.dispatch, Queue.depart]
  split
  · rfl
  · rfl

/-- **The loop over the chain.** Without an open message, a flush hands over chunk after chunk. -/
theorem flush?_of_closed {chain : Chain} {q : Queue M S} (hclosed : q.cursor = none)
    (hoccupied : q.occupied = chain.size) :
    (ofQueue { q with chain }).flush? =
      some (chain.size, ofQueue (chain.foldl Queue.dispatch { q with chain := [] })) := by
  induction chain generalizing q with
  | nil => exact flush?_of_none (pop?_of_nil hclosed rfl)
  | cons chunk rest ih =>
    have hpop : (ofQueue { q with chain := chunk :: rest }).pop? =
        some (some (Buffer.ofChunk chunk), ofQueue ({ q with chain := rest }.depart chunk)) :=
      pop?_of_cons hclosed rfl hoccupied
    have hclosed' : (q.dispatch chunk).cursor = none := by
      rw [Queue.cursor_dispatch, hclosed]
    have hoccupied' : (q.dispatch chunk).occupied = Chain.size rest := by
      rw [Queue.occupied_dispatch, hoccupied, Chain.size_cons, Nat.add_sub_cancel_left]
    have hfirst := dispatch_with_chain q chunk rest
    have hdone := dispatch_with_chain q chunk []
    rw [flush?_of_some hpop, dispatch_ofQueue, hfirst, ih hclosed' hoccupied', List.foldl_cons,
      hdone, Chain.size_cons, Buffer.length_bytes_ofChunk]
    rfl

theorem flush?_ofQueue {q : Queue M S} (hq : q.WellFormed) :
    (ofQueue q).flush? = some (q.flush.1, ofQueue q.flush.2) := by
  have hloop : (ofQueue q).flush? = (ofQueue q.rollback).flush? := by
    rw [flush?, flush?, pop?_rollback hq]
  rw [hloop, Queue.flush_eq]
  exact flush?_of_closed (Queue.cursor_rollback q) hq.rollback.occupied

end Flush

/-! ### Operations -/

section Operations

variable [Sink S]

/-- **The step.** On a well-formed queue no operation is out of bounds, and each of them does what
it does to the chain. -/
theorem perform?_ofQueue {q : Queue M S} (hq : q.WellFormed) (operation : Operation) :
    (ofQueue q).perform? operation =
      some ((q.perform operation).1, ofQueue (q.perform operation).2) := by
  cases operation with
  | startMessage =>
    rw [perform?, startMessage?_ofQueue hq]
    rfl
  | commit =>
    rw [perform?, commit?_ofQueue hq]
    rfl
  | clear =>
    rw [perform?, clear_ofQueue]
    rfl
  | write write =>
    rw [perform?, (follows_attempt write q hq).1]
    rfl
  | pop =>
    rw [perform?, pop?_ofQueue hq]
    simp [Queue.perform, Function.comp_def]
  | flush =>
    rw [perform?, flush?_ofQueue hq]
    rfl
  | recycle chunk => rfl

/-- **The run.** In place, a run comes to what it comes to on chunks. -/
theorem run?_ofQueue {q : Queue M S} (hq : q.WellFormed) (operations : List Operation) :
    (ofQueue q).run? operations = some ((q.run operations).1, ofQueue (q.run operations).2) := by
  induction operations generalizing q with
  | nil => rfl
  | cons operation rest ih =>
    rw [run?, perform?_ofQueue hq]
    simp only [Option.bind_eq_bind, Option.bind_some, ih (hq.perform operation)]
    rfl

/-- What a caller can bring about in place is a reachable queue with its chunks in buffers. -/
theorem Reachable.exists_queue {q : BufferQueue M S} (h : Reachable q) :
    ∃ model : Queue M S, Queue.Reachable model ∧ q = ofQueue model := by
  induction h with
  | new supply sink => exact ⟨Queue.new supply sink, .new supply sink, rfl⟩
  | @perform q q' operation answer _ hperform ih =>
    obtain ⟨model, hmodel, rfl⟩ := ih
    rw [perform?_ofQueue (Queue.wellFormed_of_reachable hmodel)] at hperform
    cases hperform
    exact ⟨(model.perform operation).2, hmodel.perform operation, rfl⟩
  | @exchange q _ supply sink ih =>
    obtain ⟨model, hmodel, rfl⟩ := ih
    exact ⟨{ model with supply, sink }, hmodel.exchange supply sink, rfl⟩

/-- Nothing that can be brought about is lost in place. -/
theorem reachable_ofQueue {model : Queue M S} (h : Queue.Reachable model) :
    Reachable (ofQueue model) := by
  induction h with
  | new supply sink => exact .new supply sink
  | @perform model hmodel operation ih =>
    exact .perform ih (perform?_ofQueue (Queue.wellFormed_of_reachable hmodel) operation)
  | @exchange model _ supply sink ih => exact .exchange ih supply sink

/-- **Nothing is out of bounds.** Every operation on every queue that a caller can bring about in
place goes through, and comes to what it comes to on chunks. So does whatever is pushed to a sound
buffer by itself, which can then be measured as well. -/
theorem inBounds_of_reachable (M S : Type) [Supplier M] [Sink S] :
    (∀ q : BufferQueue M S, Reachable q →
      ∃ model : Queue M S, Queue.Reachable model ∧ q = ofQueue model ∧
        ∀ operation, q.perform? operation =
          some ((model.perform operation).1, ofQueue (model.perform operation).2)) ∧
    ∀ buffer : Buffer, buffer.Sound → ∀ calls, ∃ buffer', buffer.run? calls = some buffer' ∧
      buffer'.Sound ∧ buffer'.room?.isSome ∧ buffer'.openBytes?.isSome := by
  constructor
  · intro q h
    obtain ⟨model, hmodel, hq⟩ := h.exists_queue
    refine ⟨model, hmodel, hq, ?_⟩
    intro operation
    rw [hq]
    exact perform?_ofQueue (Queue.wellFormed_of_reachable hmodel) operation
  · intro buffer hbuffer calls
    obtain ⟨buffer', hrun, hsound⟩ := hbuffer.run? calls
    exact ⟨buffer', hrun, hsound, hsound.isSome_room?, hsound.isSome_openBytes?⟩

/-- An open message behind a committed one, and a buffer with one byte of each kind. -/
theorem inBounds_of_reachable_open :
    ∃ (q : BufferQueue Shelf Transcript) (buffer : Buffer), Reachable q ∧ buffer.Sound ∧
      q.cursor = some 0 ∧ q.occupied = 4 ∧ buffer.openBytes? = some 1 ∧
      (∀ operation, (q.perform? operation).isSome) ∧ ∀ calls, (buffer.run? calls).isSome := by
  have hmodel : Queue.Reachable (Queue.new ({} : Shelf) ({} : Transcript)) := .new _ _
  have hq := reachable_ofQueue
    (hmodel.run [.write (.word16 1), .commit, .write (.word16 2)])
  have hbuffer : Buffer.Sound { bytes := [1, 2], mark := 1 } := ⟨by decide, by decide⟩
  obtain ⟨hreachable, hsound⟩ := inBounds_of_reachable Shelf Transcript
  obtain ⟨model, -, -, hperform⟩ := hreachable _ hq
  have hcalls := hsound _ hbuffer
  refine ⟨_, _, hq, hbuffer, rfl, rfl, rfl, ?_, ?_⟩
  · intro operation
    rw [hperform operation]
    rfl
  · intro calls
    obtain ⟨buffer', hrun, -⟩ := hcalls calls
    rw [hrun]
    rfl

/-- A counter that has lost a byte is where a rollback would stop. -/
example : rollback?
    ({ supply := {}, sink := {}, buffers := [{ bytes := [1, 2] }], cursor := some 0, occupied := 1 } :
      BufferQueue Shelf Transcript) = none := rfl

end Operations

end BufferQueue

end WireQueue

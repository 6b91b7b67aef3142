import WireQueue.Proofs.Layout

/-! # Writes, unit by unit

A queue adds an array in bulk: it tops up the last chunk and goes on in new chunks. `putUnits` says
the same thing without chunks in view. It places one unit after the other, each uncut, and stops at
the first one for which no chunk is to be had.

* `spread_eq_putUnits` — adding an array is placing its elements one by one.
* `Write.attempt_eq` — every write of the queue is the placing of its units (`Write.units`), or the
  refusal for which it has none.

What a write does to a queue then follows from what one `place` does, by induction on the units. -/

namespace WireQueue

namespace Queue

variable {M S : Type} [Supplier M]

/-- Adds one unit. A header is counted, as an extended one if it has the length of one. -/
def putUnit : WireUnit → Attempt M S
  | .header bytes =>
    (place bytes).counting (Counters.countHeader (bytes.length == Header.Form.extended.length))
  | .value bytes => place bytes

/-- Adds units in order, and stops at the first one that finds no chunk. -/
def putUnits : List WireUnit → Attempt M S
  | [] => .done
  | unit :: units => (putUnit unit).andThen (putUnits units)

/-- Places the units of a write, or reports why it has none. -/
def putOrFail : Except Fault (List WireUnit) → Attempt M S
  | .ok units => putUnits units
  | .error fault => .fail fault

@[simp] theorem putUnits_nil : (putUnits [] : Attempt M S) = .done := rfl

@[simp] theorem putUnits_cons (unit : WireUnit) (units : List WireUnit) :
    (putUnits (unit :: units) : Attempt M S) = (putUnit unit).andThen (putUnits units) := rfl

theorem putUnits_singleton (unit : WireUnit) :
    (putUnits [unit] : Attempt M S) = putUnit unit :=
  Attempt.andThen_done _

/-- Placing two lists of units is placing the second after the first. -/
theorem putUnits_append (first second : List WireUnit) :
    (putUnits (first ++ second) : Attempt M S) = (putUnits first).andThen (putUnits second) := by
  induction first with
  | nil => rfl
  | cons unit units ih =>
    rw [List.cons_append, putUnits_cons, putUnits_cons, ih, Attempt.andThen_assoc]

/-! ### Room in the last chunk -/

/-- The last chunk, if any, has less than `size` bytes of room. -/
def LacksRoom (size : Nat) (q : Queue M S) : Prop :=
  ∀ tail, q.chain.getLast? = some tail → tail.room < size

/-- A unit goes to the last chunk if there is room for all of it. -/
theorem place_of_room {q : Queue M S} {tail : Chunk} {unit : List UInt8}
    (hlast : q.chain.getLast? = some tail) (hroom : unit.length ≤ tail.room) :
    q.place unit = (.ok (), q.replaceTail (tail.append unit) unit.length) := by
  simp only [place, hlast, Option.bind_some, Chunk.push?, if_pos hroom]

/-- A unit that the last chunk has no room for opens a new chunk. -/
theorem place_of_lacksRoom {q : Queue M S} {unit : List UInt8} (h : q.LacksRoom unit.length) :
    q.place unit = q.link (Chunk.append unit) := by
  have hpush : q.chain.getLast?.bind (Chunk.push? unit) = none := by
    rw [Option.bind_eq_none_iff]
    intro tail hlast
    rw [Chunk.push?, if_neg (Nat.not_le.mpr (h tail hlast))]
  simp only [place, hpush]

omit [Supplier M] in
/-- Either the last chunk has the room, or the chain lacks it. -/
theorem room_or_lacksRoom (q : Queue M S) (size : Nat) :
    (∃ tail, q.chain.getLast? = some tail ∧ size ≤ tail.room) ∨ q.LacksRoom size := by
  cases hlast : q.chain.getLast? with
  | none =>
    right
    intro tail h
    rw [hlast] at h
    cases h
  | some tail =>
    by_cases hroom : size ≤ tail.room
    · exact Or.inl ⟨tail, rfl, hroom⟩
    · right
      intro tail' h
      rw [hlast] at h
      cases h
      exact Nat.not_le.mp hroom

/-- A new chunk is told from another by nothing but what is put into it. -/
theorem link_congr {fill fill' : Chunk → Chunk} (h : fill Chunk.empty = fill' Chunk.empty)
    (q : Queue M S) : q.link fill = q.link fill' := by
  simp only [link, Chunk.reset_eq_empty, h]

/-! ### Arrays -/

section Arrays

variable {α : Type} [Element α]

/-- Values that fit the last chunk end up there, whether placed one by one or all at once. -/
theorem putUnits_values_of_room {q : Queue M S} {tail : Chunk} {values : List α}
    (hne : values ≠ []) (hlast : q.chain.getLast? = some tail)
    (hroom : values.length * Element.width α ≤ tail.room) :
    q.putUnits (valueUnits values) =
      (.ok (), q.replaceTail (tail.append (Element.encodeAll values))
        (values.length * Element.width α)) := by
  induction values generalizing q tail with
  | nil => exact absurd rfl hne
  | cons value values ih =>
    rw [List.length_cons, Nat.succ_mul] at hroom
    have hfirst : q.place (Element.encode value) =
        (.ok (), q.replaceTail (tail.append (Element.encode value)) (Element.width α)) := by
      rw [place_of_room hlast (by rw [Element.length_encode]; omega), Element.length_encode]
    show ((place (Element.encode value)).andThen (putUnits (valueUnits values))) q = _
    simp only [Attempt.andThen, hfirst]
    by_cases hnil : values = []
    · subst hnil
      simp [valueUnits, Attempt.done]
    · have hrest : values.length * Element.width α ≤
          (tail.append (Element.encode value)).room := by
        rw [Chunk.room_append, Element.length_encode]
        omega
      rw [ih hnil (getLast?_replaceTail _ _ _) hrest, replaceTail_replaceTail,
        Chunk.append_append, Element.encodeAll_cons, List.length_cons, Nat.succ_mul, Nat.add_comm]

/-- A chunk that did not accept all values has no room for one more. -/
theorem room_fill_lt {values : List α} {chunk : Chunk}
    (h : chunk.accepts values < values.length) : (chunk.fill values).room < Element.width α := by
  have hpos : 0 < Element.width α := Element.width_pos
  have haccepts : chunk.accepts values = chunk.room / Element.width α := by
    rw [Chunk.accepts] at h ⊢
    omega
  have hmod := Nat.mod_lt chunk.room hpos
  have hdiv := Nat.div_add_mod chunk.room (Element.width α)
  rw [Chunk.fill, Chunk.room_append, Element.length_encodeAll, List.length_take,
    Nat.min_eq_left (Nat.le_of_lt h), haccepts, Nat.mul_comm]
  omega

/-- The values that a chunk accepts, and those that are left. -/
theorem valueUnits_split (chunk : Chunk) (values : List α) :
    valueUnits values =
      valueUnits (values.take (chunk.accepts values)) ++
        valueUnits (values.drop (chunk.accepts values)) := by
  rw [valueUnits, valueUnits, valueUnits, ← List.map_append, List.take_append_drop]

/-- A chunk that is filled as far as it accepts is a chunk that takes the accepted values one by
one. -/
theorem putUnits_accepted {q : Queue M S} {tail : Chunk} {values : List α}
    (hpos : 0 < tail.accepts values) (hlast : q.chain.getLast? = some tail) :
    q.putUnits (valueUnits (values.take (tail.accepts values))) =
      (.ok (), q.replaceTail (tail.fill values) (tail.accepts values * Element.width α)) := by
  have hlen : (values.take (tail.accepts values)).length = tail.accepts values := by
    rw [List.length_take, Nat.min_eq_left (Chunk.accepts_le_length _ _)]
  have hne : values.take (tail.accepts values) ≠ [] := by
    rw [← List.length_pos_iff, hlen]
    exact hpos
  have hroom : (values.take (tail.accepts values)).length * Element.width α ≤ tail.room := by
    rw [hlen]
    exact Chunk.accepts_mul_width_le_room _ _
  rw [putUnits_values_of_room hne hlast hroom, hlen, Chunk.fill]

/-- A new chunk that takes a first unit and then `more` is one that takes both. -/
theorem link_append_replaceTail {q linked : Queue M S} {unit : List UInt8}
    (h : q.link (Chunk.append unit) = (.ok (), linked)) (more : List UInt8) :
    q.link (Chunk.append (unit ++ more)) =
      (.ok (), linked.replaceTail (Chunk.empty.append (unit ++ more)) more.length) := by
  rcases hacquire : Supplier.acquire q.supply with ⟨outcome, supply⟩
  cases outcome with
  | error fault =>
    rw [link_of_refused hacquire] at h
    cases h
  | ok supplied =>
    rw [link_of_supplied hacquire] at h
    cases h
    rw [link_of_supplied hacquire]
    simp [replaceTail, Chain.replaceLast, Nat.add_assoc]

/-- A new chunk, filled at once, is a new chunk for the first value that takes further ones as they
come. -/
theorem putUnits_first_chunk {q : Queue M S} {values : List α} (hne : values ≠ [])
    (hlacks : q.LacksRoom (Element.width α)) :
    q.putUnits (valueUnits (values.take (Chunk.empty.accepts values))) =
      q.link (Chunk.fill values) := by
  have hpos := Chunk.accepts_empty_pos hne
  have hlen : (values.take (Chunk.empty.accepts values)).length = Chunk.empty.accepts values := by
    rw [List.length_take, Nat.min_eq_left (Chunk.accepts_le_length _ _)]
  obtain ⟨value, rest, hsplit⟩ : ∃ value rest,
      values.take (Chunk.empty.accepts values) = value :: rest :=
    List.exists_cons_of_ne_nil (List.length_pos_iff.mp (by rw [hlen]; exact hpos))
  have hfill : q.link (Chunk.fill values) =
      q.link (Chunk.append (Element.encode value ++ Element.encodeAll rest)) := by
    apply link_congr
    rw [Chunk.fill, hsplit, Element.encodeAll_cons]
  have hplace : q.place (Element.encode value) = q.link (Chunk.append (Element.encode value)) :=
    place_of_lacksRoom (by rwa [Element.length_encode])
  rw [hfill, hsplit]
  show ((place (Element.encode value)).andThen (putUnits (valueUnits rest))) q = _
  rcases hacquire : Supplier.acquire q.supply with ⟨outcome, supply⟩
  cases outcome with
  | error fault =>
    rw [link_of_refused hacquire] at hplace ⊢
    simp only [Attempt.andThen, hplace]
  | ok supplied =>
    obtain ⟨linked, hlinked⟩ : ∃ linked, q.link (Chunk.append (Element.encode value)) =
        (.ok (), linked) := ⟨_, link_of_supplied hacquire _⟩
    have hlast : linked.chain.getLast? = some (Chunk.empty.append (Element.encode value)) := by
      rw [link_of_supplied hacquire] at hlinked
      cases hlinked
      simp
    rw [link_append_replaceTail hlinked]
    simp only [Attempt.andThen, hplace, hlinked]
    by_cases hnil : rest = []
    · subst hnil
      rw [link_of_supplied hacquire] at hlinked
      cases hlinked
      simp [valueUnits, Attempt.done, replaceTail, Chain.replaceLast]
    · have hroom : rest.length * Element.width α ≤
          (Chunk.empty.append (Element.encode value)).room := by
        have hle := Chunk.accepts_mul_width_le_room values Chunk.empty
        rw [← hlen, hsplit, List.length_cons, Nat.succ_mul] at hle
        rw [Chunk.room_append, Element.length_encode]
        omega
      rw [putUnits_values_of_room hnil hlast hroom, Chunk.append_append, Element.length_encodeAll]

/-- Where the last chunk has no room for one value, going on in new chunks is placing the values one
by one. -/
theorem spill_eq_putUnits {q : Queue M S} {values : List α}
    (hlacks : values ≠ [] → q.LacksRoom (Element.width α)) :
    q.spill values = q.putUnits (valueUnits values) := by
  -- Each new chunk accepts at least one value, so there are fewer and fewer left.
  induction hn : values.length using Nat.strongRecOn generalizing q values with
  | ind n ih =>
    by_cases hne : values = []
    · subst hne
      rw [spill_nil]
      rfl
    rw [spill_of_ne_nil hne, valueUnits_split Chunk.empty values, putUnits_append]
    simp only [Attempt.andThen, putUnits_first_chunk hne (hlacks hne)]
    rcases hacquire : Supplier.acquire q.supply with ⟨outcome, supply⟩
    cases outcome with
    | error fault => simp only [link_of_refused hacquire]
    | ok supplied =>
      simp only [link_of_supplied hacquire]
      refine ih _ ?_ ?_ rfl
      · have hpos := Chunk.accepts_empty_pos hne
        have hlen := List.length_pos_iff.mpr hne
        rw [List.length_drop]
        omega
      · intro hrest tail hlast
        have htail : Chunk.empty.fill values = tail := by
          simpa using hlast
        rw [← htail]
        apply room_fill_lt
        have hlt := List.length_pos_iff.mpr hrest
        rw [List.length_drop] at hlt
        omega

/-- Adding an array is placing its elements one by one. -/
theorem spread_eq_putUnits (values : List α) :
    (spread values : Attempt M S) = putUnits (valueUnits values) := by
  funext q
  cases hlast : q.chain.getLast? with
  | none =>
    simp only [spread, hlast]
    apply spill_eq_putUnits
    intro _ tail h
    rw [hlast] at h
    cases h
  | some tail =>
    simp only [spread, hlast]
    by_cases hzero : tail.accepts values = 0
    -- A chunk that accepts none of the values has no room for one.
    · rw [if_pos hzero]
      apply spill_eq_putUnits
      intro hne tail' h
      rw [hlast] at h
      cases h
      have hlen := List.length_pos_iff.mpr hne
      have hroom : (tail.fill values).room < Element.width α := room_fill_lt (by omega)
      rwa [Chunk.fill, hzero, List.take_zero, Element.encodeAll_nil, Chunk.append_nil] at hroom
    -- Otherwise it takes what it accepts, and has no room for one more.
    · rw [if_neg hzero, valueUnits_split tail values, putUnits_append]
      simp only [Attempt.andThen, putUnits_accepted (Nat.pos_of_ne_zero hzero) hlast]
      apply spill_eq_putUnits
      intro hrest tail' h
      rw [getLast?_replaceTail] at h
      cases h
      apply room_fill_lt
      have hlt := List.length_pos_iff.mpr hrest
      rw [List.length_drop] at hlt
      omega

/-- The first `needed` values are placed one by one, or refused together. -/
theorem spreadLeading_eq (values : List α) (needed : Nat) :
    (spreadLeading values needed : Attempt M S) = putOrFail (leadingUnits values needed) := by
  rw [spreadLeading, leadingUnits]
  cases leading values needed with
  | error fault => rfl
  | ok values => exact spread_eq_putUnits values

end Arrays

/-! ### What callers write -/

theorem putElements_eq (payload : Payload) (count : Nat) :
    (putElements payload count : Attempt M S) = putOrFail (payload.units count) := by
  cases payload <;> exact spreadLeading_eq _ _

theorem putValues_eq (type : DataType) (payload : Payload) (count : UInt32) :
    (putValues type payload count : Attempt M S) =
      putOrFail (Write.values type payload count).units := by
  rw [putValues, putElements_eq, Write.units]
  cases payload.check type count.toNat <;> rfl

/-- A header is extended exactly if it has the length of an extended one. -/
theorem length_encodeAs_beq (header : Header) (form : Header.Form) :
    ((header.encodeAs form).length == Header.Form.extended.length) = (form == .extended) := by
  rw [Header.length_encodeAs]
  cases form <;> rfl

theorem putHeader_of_form {header : Header} {extendedOk : Bool} {form : Header.Form}
    (h : header.form extendedOk = .ok form) :
    (putHeader header extendedOk : Attempt M S) = putUnit (.header (header.encodeAs form)) := by
  simp only [putHeader, h, putUnit, length_encodeAs_beq]

theorem putHeader_of_form_error {header : Header} {extendedOk : Bool} {fault : Fault}
    (h : header.form extendedOk = .error fault) :
    (putHeader header extendedOk : Attempt M S) = .fail fault := by
  simp only [putHeader, h]

theorem putHeader_eq (header : Header) (extendedOk : Bool) :
    (putHeader header extendedOk : Attempt M S) = putOrFail (header.units extendedOk) := by
  rw [Header.units, Header.encode]
  cases h : header.form extendedOk with
  | error fault => exact putHeader_of_form_error h
  | ok form => rw [putHeader_of_form h, ← putUnits_singleton]; rfl

theorem putText_eq (text : List UInt8) :
    (putText text : Attempt M S) = putUnits (valueUnits (text ++ [0])) := by
  have happend : valueUnits (text ++ [(0 : UInt8)]) =
      valueUnits text ++ [.value (Element.encode (0 : UInt8))] := by
    rw [valueUnits, List.map_append]
    rfl
  rw [putText, spread_eq_putUnits, happend, putUnits_append, putUnits_singleton]
  rfl

/-- A request is written header first; of one that is refused nothing is written. -/
theorem putRequest_eq (request : Request) (extendedOk : Bool) :
    (putRequest request extendedOk : Attempt M S) = putOrFail (request.units extendedOk) := by
  cases hlayout : request.layout with
  | error fault =>
    rw [Request.units_of_layout_error hlayout]
    simp only [putRequest, hlayout, putOrFail]
  | ok layout =>
    cases hform : layout.header.form extendedOk with
    | error fault =>
      rw [Request.units_of_form_error hlayout hform]
      simp only [putRequest, hlayout, putHeader_of_form_error hform, putOrFail,
        Attempt.fail_andThen]
    | ok form =>
      obtain ⟨body, hbody, -⟩ := Request.bodyUnits_of_layout hlayout
      rw [Request.units_of_form hlayout hform hbody]
      simp only [putRequest, hlayout, putHeader_of_form hform, putOrFail, List.cons_append,
        putUnits_cons, putUnits_append, putPadding, spread_eq_putUnits]
      congr 2
      -- The body alone is left: a text, or elements that the payload is known to have.
      rw [Request.bodyUnits] at hbody
      cases htext : layout.text? with
      | some text =>
        rw [htext] at hbody
        cases hbody
        exact putText_eq text
      | none =>
        rw [htext] at hbody
        simp only [putElements_eq, hbody, putOrFail]

end Queue

/-- **A write is its units.** It places them in order, or reports why it has none. -/
theorem Write.attempt_eq {M S : Type} [Supplier M] (write : Write) :
    (write.attempt : Attempt M S) = Queue.putOrFail write.units := by
  cases write with
  | word16 value => exact (Attempt.andThen_done _).symm
  | word32 value => exact (Attempt.andThen_done _).symm
  | real32 value => exact (Attempt.andThen_done _).symm
  | bytes added => exact Queue.spread_eq_putUnits added
  | values type payload count => exact Queue.putValues_eq type payload count
  | header opening extendedOk => exact Queue.putHeader_eq opening extendedOk
  | request whole extendedOk => exact Queue.putRequest_eq whole extendedOk

end WireQueue

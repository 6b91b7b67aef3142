import WireQueue.Proofs.Invariant
import WireQueue.Proofs.Refusal

/-! # When the chunks run out

A write that is refused a chunk stops where it is. What it has stored by then is a proper part of it
from the start, made of whole units, and part of the open message; all else is as before.

* `Chain.Laid.extends` — where the stored bytes are: in the last chunk, and in further ones.
* `Write.cutAt_of_units` — where a write of each kind may stop.
* `Queue.Shortfall` — what becomes of the queue, and why the write went no further. -/

namespace WireQueue

/-! ### Chains that grow at the end -/

namespace Chain

/-- `chain'` is `chain` with the bytes `added` behind it, in its last chunk and in `fresh` further
ones. -/
structure Extends (chain : Chain) (added : List UInt8) (fresh : Nat) (chain' : Chain) : Prop where
  bytes : chain'.bytes = chain.bytes ++ added
  uncommitted : chain'.uncommitted = chain.uncommitted ++ added
  length : chain'.length = chain.length + fresh
  /-- Every chunk is still there, and only the last one may hold more, behind its commit mark. -/
  kept : ∀ i chunk, chain[i]? = some chunk → ∃ more, chain'[i]? = some (chunk.append more) ∧
    (i + 1 < chain.length → more = [])
  /-- Nothing is committed in the further chunks. -/
  fresh : ∀ i chunk, chain.length ≤ i → chain'[i]? = some chunk → chunk.committed = []

variable {chain chain' front : Chain} {units : List WireUnit} {fresh : Nat}

theorem getElem?_concat_eq_some {last chunk : Chunk} {i : Nat} :
    (front ++ [last])[i]? = some chunk ↔
      front[i]? = some chunk ∨ i = front.length ∧ last = chunk := by
  rcases Nat.lt_trichotomy i front.length with hlt | rfl | hgt
  · rw [List.getElem?_append_left hlt]
    simp [Nat.ne_of_lt hlt]
  · simp
  · have hout : (front ++ [last]).length ≤ i := by
      rw [List.length_append]
      exact hgt
    rw [List.getElem?_eq_none hout, List.getElem?_eq_none (Nat.le_of_lt hgt)]
    simp [Nat.ne_of_gt hgt]

theorem Laid.kept (h : Laid chain units fresh chain') {i : Nat} {chunk : Chunk}
    (hget : chain[i]? = some chunk) :
    ∃ more, chain'[i]? = some (chunk.append more) ∧ (i + 1 < chain.length → more = []) := by
  have hi : i < chain.length := (List.getElem?_eq_some_iff.mp hget).1
  induction h with
  | refl => exact ⟨[], by rw [Chunk.append_nil, hget], fun _ => rfl⟩
  | @inTail _ unit _ front last h _ ih =>
    obtain ⟨more, hmore, hinner⟩ := ih
    rcases getElem?_concat_eq_some.mp hmore with hfront | ⟨hlast, rfl⟩
    · exact ⟨more, getElem?_concat_eq_some.mpr (Or.inl hfront), hinner⟩
    -- The chunk is the last one, also of the chain at the start.
    · refine ⟨more ++ unit.bytes, ?_, ?_⟩
      · rw [← Chunk.append_append]
        exact getElem?_concat_eq_some.mpr (Or.inr ⟨hlast, rfl⟩)
      · intro hlt
        have hlength := h.length_eq
        rw [List.length_append, List.length_singleton] at hlength
        omega
  | inNewChunk _ _ ih =>
    obtain ⟨more, hmore, hinner⟩ := ih
    exact ⟨more, getElem?_concat_eq_some.mpr (Or.inl hmore), hinner⟩

theorem Laid.fresh_of_le (h : Laid chain units fresh chain') {i : Nat} {chunk : Chunk}
    (hi : chain.length ≤ i) (hget : chain'[i]? = some chunk) : chunk.committed = [] := by
  induction h generalizing chunk with
  | refl =>
    rw [List.getElem?_eq_none hi] at hget
    cases hget
  | @inTail _ _ _ front last _ _ ih =>
    rcases getElem?_concat_eq_some.mp hget with hfront | ⟨hlast, rfl⟩
    · exact ih (getElem?_concat_eq_some.mpr (Or.inl hfront))
    · have hfresh : last.committed = [] :=
        ih (getElem?_concat_eq_some.mpr (Or.inr ⟨hlast, rfl⟩))
      exact hfresh
  | inNewChunk _ _ ih =>
    rcases getElem?_concat_eq_some.mp hget with hold | ⟨-, rfl⟩
    · exact ih hold
    · rfl

theorem Laid.extends (h : Laid chain units fresh chain') :
    chain.Extends (unitBytes units) fresh chain' where
  bytes := h.bytes
  uncommitted := h.uncommitted
  length := h.length_eq
  kept := by
    intro i chunk hget
    exact h.kept hget
  fresh := by
    intro i chunk hi hget
    exact h.fresh_of_le hi hget

end Chain

/-! ### Units that are no headers -/

section Values

variable {units : List WireUnit}

theorem isHeader_valueUnits {α : Type} [Element α] (values : List α) :
    ∀ unit ∈ valueUnits values, unit.isHeader = false := by
  intro unit hunit
  obtain ⟨value, -, rfl⟩ := List.mem_map.mp hunit
  rfl

theorem Payload.isHeader_units {payload : Payload} {count : Nat}
    (h : payload.units count = .ok units) : ∀ unit ∈ units, unit.isHeader = false := by
  cases payload <;> exact leadingUnits_eq_ok h ▸ isHeader_valueUnits _

/-- A request is its header and then values. -/
theorem Request.units_eq_ok {request : Request} {extendedOk : Bool}
    (h : request.units extendedOk = .ok units) :
    ∃ layout form values, request.layout = .ok layout ∧
      layout.header.form extendedOk = .ok form ∧
      units = .header (layout.header.encodeAs form) :: values ∧
      ∀ unit ∈ values, unit.isHeader = false := by
  cases hlayout : request.layout with
  | error fault =>
    rw [units_of_layout_error hlayout] at h
    cases h
  | ok layout =>
    cases hform : layout.header.form extendedOk with
    | error fault =>
      rw [units_of_form_error hlayout hform] at h
      cases h
    | ok form =>
      obtain ⟨body, hbody, -⟩ := bodyUnits_of_layout hlayout
      rw [units_of_form hlayout hform hbody] at h
      refine ⟨layout, form, _, rfl, hform, (Except.ok.inj h).symm, ?_⟩
      refine List.forall_mem_append.mpr ⟨?_, isHeader_valueUnits _⟩
      rw [bodyUnits] at hbody
      split at hbody
      · cases hbody
        exact isHeader_valueUnits _
      · exact Payload.isHeader_units hbody

/-- Values are not counted. -/
theorem countP_values (h : ∀ unit ∈ units, unit.isHeader = false) :
    units.countP WireUnit.isHeader = 0 ∧ units.countP WireUnit.isExtended = 0 := by
  refine ⟨List.countP_eq_zero.mpr ?_, List.countP_eq_zero.mpr ?_⟩
  · intro unit hunit
    rw [h unit hunit]
    decide
  · intro unit hunit
    have hvalue := h unit hunit
    cases unit with
    | header bytes => cases hvalue
    | value bytes => exact Bool.false_ne_true

/-- A header before values is counted. -/
theorem countP_header_cons (header : Header) (form : Header.Form)
    (h : ∀ unit ∈ units, unit.isHeader = false) :
    (WireUnit.header (header.encodeAs form) :: units).countP WireUnit.isHeader = 1 ∧
      (WireUnit.header (header.encodeAs form) :: units).countP WireUnit.isExtended =
        if form = .extended then 1 else 0 := by
  obtain ⟨hheaders, hextended⟩ := countP_values h
  rw [List.countP_cons, List.countP_cons, hheaders, hextended, WireUnit.isExtended,
    Queue.length_encodeAs_beq]
  refine ⟨rfl, ?_⟩
  cases form <;> rfl

end Values

/-! ### Where a write may stop -/

/-- The bytes of the first `n` elements, a string being sent byte by byte. -/
def Payload.frontBytes (payload : Payload) (n : Nat) : List UInt8 :=
  match payload with
  | .string bytes => bytes.take n
  | payload => payload.leadingBytes n

/-- A request stops before its header or behind it. -/
inductive Request.CutAt (request : Request) (extendedOk : Bool) (counters counters' : Counters) :
    List UInt8 → Prop where
  | before (hencoded : counters'.requestsEncoded = counters.requestsEncoded)
      (hextended : counters'.extendedHeaders = counters.extendedHeaders) :
      CutAt request extendedOk counters counters' []
  | behind {layout : Layout} {form : Header.Form} {more : List UInt8}
      (hlayout : request.layout = .ok layout) (hform : layout.header.form extendedOk = .ok form)
      (hencoded : counters'.requestsEncoded = counters.requestsEncoded + 1)
      (hextended : counters'.extendedHeaders =
        counters.extendedHeaders + if form = .extended then 1 else 0) :
      CutAt request extendedOk counters counters' (layout.header.encodeAs form ++ more)

/-- What a write may have stored when it stops, and how the counters show it. -/
def Write.CutAt (stored : List UInt8) (counters counters' : Counters) : Write → Prop
  | .word16 _ | .word32 _ | .real32 _ | .header _ _ => stored = []
  | .bytes added => ∃ n, stored = added.take n
  | .values _ payload _ => ∃ n, stored = payload.frontBytes n
  | .request whole extendedOk => whole.CutAt extendedOk counters counters' stored

section Parts

variable {α : Type} [Element α] {values : List α} {stored rest : List WireUnit}

/-- A part of some values is the first few of them. -/
theorem unitBytes_of_valueUnits (h : valueUnits values = stored ++ rest) :
    ∃ n, unitBytes stored = Element.encodeAll (values.take n) := by
  obtain ⟨front, back, rfl, rfl, -⟩ := List.map_eq_append_iff.mp h
  refine ⟨front.length, ?_⟩
  rw [List.take_left]
  exact flatMap_valueUnits front

theorem unitBytes_of_leadingUnits {needed : Nat}
    (h : leadingUnits values needed = .ok (stored ++ rest)) :
    ∃ n, unitBytes stored = Element.encodeAll (values.take n) := by
  obtain ⟨n, hn⟩ := unitBytes_of_valueUnits (leadingUnits_eq_ok h).symm
  rw [List.take_take] at hn
  exact ⟨_, hn⟩

theorem Payload.unitBytes_of_units {payload : Payload} {count : Nat}
    (h : payload.units count = .ok (stored ++ rest)) :
    ∃ n, unitBytes stored = payload.frontBytes n := by
  cases payload <;> exact unitBytes_of_leadingUnits h

/-- A write of one unit stores nothing if it does not store the unit. -/
theorem eq_nil_of_append_cons {unit next : WireUnit} (h : [unit] = stored ++ next :: rest) :
    stored = [] := by
  cases stored with
  | nil => rfl
  | cons first stored =>
    have hlength := congrArg List.length h
    simp at hlength

theorem Request.cutAt_of_units {request : Request} {extendedOk : Bool}
    (h : request.units extendedOk = .ok (stored ++ rest)) (fresh : Nat) (counters : Counters) :
    request.CutAt extendedOk counters (counters.countUnits stored fresh) (unitBytes stored) := by
  obtain ⟨layout, form, values, hlayout, hform, hunits, hvalues⟩ := units_eq_ok h
  cases stored with
  | nil => exact .before rfl rfl
  | cons first stored =>
    obtain ⟨rfl, rfl⟩ := List.cons.inj hunits
    have hstored := (List.forall_mem_append.mp hvalues).1
    obtain ⟨hheaders, hextended⟩ := countP_header_cons layout.header form hstored
    exact .behind hlayout hform (congrArg _ hheaders) (congrArg _ hextended)

/-- Every write stops at one of the places that there are for it. -/
theorem Write.cutAt_of_units {write : Write} {next : WireUnit}
    (h : write.units = .ok (stored ++ next :: rest)) (fresh : Nat) (counters : Counters) :
    write.CutAt (unitBytes stored) counters (counters.countUnits stored fresh) := by
  cases write with
  | word16 value | word32 value | real32 value =>
    rw [eq_nil_of_append_cons (Except.ok.inj h)]
    rfl
  | bytes added => exact unitBytes_of_valueUnits (Except.ok.inj h)
  | values type payload count =>
    obtain ⟨_, -, h⟩ := bind_eq_ok.mp h
    exact Payload.unitBytes_of_units h
  | header opening extendedOk =>
    obtain ⟨bytes, -, h⟩ := bind_eq_ok.mp h
    rw [eq_nil_of_append_cons (Except.ok.inj h)]
    rfl
  | request whole extendedOk => exact Request.cutAt_of_units h fresh counters

end Parts

/-! ### What is left of a queue -/

namespace Queue

variable {M S : Type} [Supplier M]

/-- `q'` is what a write leaves of `q` if it runs out of chunks behind the units `stored`, for which
`fresh` chunks were drawn. -/
structure Shortfall (write : Write) (stored : List WireUnit) (fresh : Nat) (q q' : Queue M S) :
    Prop where
  /-- There is no room for the next unit. -/
  next : ∃ next rest, write.units = .ok (stored ++ next :: rest) ∧
    ∀ tail, q'.chain.getLast? = some tail → tail.room < next.bytes.length
  /-- Some bytes are missing. -/
  missing : ∃ missing, missing ≠ [] ∧ write.encoding = .ok (unitBytes stored ++ missing)
  chain : q.chain.Extends (unitBytes stored) fresh q'.chain
  occupied : q'.occupied = q.occupied + (unitBytes stored).length
  -- An open message goes on, and what is stored without one opens one.
  cursor : ∀ first, q.cursor = some first → q'.cursor = some first
  opened : unitBytes stored ≠ [] → q'.cursor.isSome
  sink : q'.sink = q.sink
  supply : Supplier.Drawn q.supply fresh q'.supply
  /-- Headers and chunks are counted, and no other counter has moved. -/
  counters : q'.counters = q.counters.countUnits stored fresh
  cut : write.CutAt (unitBytes stored) q.counters q'.counters
  /-- If nothing is stored, only the supplier has seen anything of the write. -/
  unchanged : unitBytes stored = [] → q' = { q with supply := q'.supply }

/-- Where no unit is placed, nothing changes but the supplier. -/
theorem Grows.eq_of_nil {fresh : Nat} {q q' : Queue M S} (h : Grows [] fresh q q') :
    q' = { q with supply := q'.supply } := by
  obtain ⟨rfl, hchain⟩ := h.laid.eq_of_nil
  obtain ⟨_, hcursor⟩ := h.cursor
  have hoccupied := h.occupied
  have hsink := h.sink
  have hcounters := h.counters
  obtain ⟨supply, sink, chain, cursor, occupied, counters⟩ := q'
  cases hchain
  cases hcursor
  cases hoccupied
  cases hsink
  cases hcounters
  rfl

/-- **What a lack of chunks leaves behind.** A write that is refused a chunk has stored a part of
its units, which are in the open message, and changed nothing else. -/
theorem shortfall_of_exhausted {q : Queue M S} {write : Write} {shortage : Shortage}
    (h : (write.attempt q).1 = .error (.exhausted shortage)) :
    ∃ stored fresh, Shortfall write stored fresh q (write.attempt q).2 := by
  rcases Write.attempt_error_cases h with
    ⟨stored, next, rest, fresh, hunits, -, hlacks, hgrows⟩ | ⟨hunits, -⟩
  · have hsized := (List.forall_mem_append.mp (Write.sized_units hunits)).1
    obtain ⟨opening, hcursor⟩ := hgrows.cursor
    refine ⟨stored, fresh, ?_⟩
    exact
      { next := ⟨next, rest, hunits, hlacks⟩
        missing := Write.encoding_of_units hunits
        chain := hgrows.laid.extends
        occupied := hgrows.occupied
        cursor := by
          intro first hfirst
          rw [hcursor, hfirst, Option.some_or, ite_self]
        opened := by
          intro hne
          cases stored with
          | nil => exact absurd rfl hne
          | cons unit stored =>
            rw [hcursor]
            cases q.cursor <;> rfl
        sink := hgrows.sink
        supply := hgrows.supply
        counters := hgrows.counters
        cut := by
          rw [hgrows.counters]
          exact Write.cutAt_of_units hunits fresh q.counters
        unchanged := by
          intro hnil
          cases eq_nil_of_unitBytes_eq_nil hsized hnil
          exact hgrows.eq_of_nil }
  · exact absurd hunits (write.units_ne_exhausted shortage)

/-- There is one chunk to be had, for one byte more than it holds. -/
theorem shortfall_of_exhausted_first :
    ∃ (q : Queue Shelf Transcript) (write : Write) (shortage : Shortage),
      (write.attempt q).1 = .error (.exhausted shortage) ∧ (write.attempt q).2.occupied = 16384 ∧
      ∃ stored fresh, Shortfall write stored fresh q (write.attempt q).2 := by
  obtain ⟨bytes, hbytes⟩ : ∃ bytes : List UInt8, bytes.length = 16385 :=
    ⟨List.replicate 16385 0, List.length_replicate⟩
  let q : Queue Shelf Transcript := new { plan := { calls := [1], shortage := ⟨1, 1⟩ } } {}
  have hne : bytes ≠ [] := List.length_pos_iff.mp (by omega)
  have haccepts : Chunk.empty.accepts bytes = 16384 := by
    rw [Chunk.accepts, hbytes]
    rfl
  have hrest : bytes.drop 16384 ≠ [] := by
    rw [← List.length_pos_iff, List.length_drop]
    omega
  have hfilled : (Chunk.empty.fill bytes).length = 16384 := by
    rw [Chunk.fill, haccepts]
    simp [hbytes, Element.width]
  obtain ⟨linked, hlinked, hrefused, hoccupied⟩ : ∃ linked,
      q.link (Chunk.fill bytes) = (.ok (), linked) ∧
      Supplier.acquire linked.supply =
        (.error (.exhausted ⟨1, 1⟩), { linked.supply with calls := 2 }) ∧
      linked.occupied = 16384 := by
    refine ⟨_, link_of_supplied rfl _, rfl, ?_⟩
    show 0 + (Chunk.empty.fill bytes).length = 16384
    rw [hfilled]
  have hattempt : ((Write.bytes bytes).attempt q).1 = .error (.exhausted ⟨1, 1⟩) ∧
      ((Write.bytes bytes).attempt q).2.occupied = 16384 := by
    show (q.spill bytes).1 = _ ∧ (q.spill bytes).2.occupied = _
    rw [spill_of_ne_nil hne, haccepts, spill_of_ne_nil hrest]
    simp only [Attempt.andThen, hlinked, link_of_refused hrefused, hoccupied, and_self]
  exact ⟨q, .bytes bytes, ⟨1, 1⟩, hattempt.1, hattempt.2, shortfall_of_exhausted hattempt.1⟩

end Queue

end WireQueue

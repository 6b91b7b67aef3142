import WireQueue.Proofs.Laying
import WireQueue.Proofs.Placement

/-! # What a write does to a queue

All that a write does comes from placing units, and a unit is placed in one of three ways:
`Queue.Places` lists them. `Queue.Grows units fresh q q'` is the trace that placed units leave: `q'`
is `q` with the bytes of `units` added to the open message and `fresh` further chunks drawn from the
supplier, and nothing else has changed.

* `Queue.putUnits_grows` — units are placed up to the first one that finds no chunk.
* `Write.attempt_grows` — so a write stores all of its units, or a proper part of them from the
  start, or it is refused and stores none.
* `Write.attempt_error_cases` — and where a write fails, it does so for one of these two reasons.
* `Queue.putUnits_preserves` — what placing one unit preserves, a write preserves. -/

namespace WireQueue

/-- The supplier has handed out `n` chunks on the way from one state to the other, and may have
refused any number of calls. -/
inductive Supplier.Drawn {M : Type} [Supplier M] (supply : M) : Nat → M → Prop where
  | refl : Drawn supply 0 supply
  | granted {n : Nat} {middle final : M} {chunk : Chunk} (h : Drawn supply n middle)
      (hacquire : Supplier.acquire middle = (.ok chunk, final)) : Drawn supply (n + 1) final
  | refused {n : Nat} {middle final : M} {fault : Fault} (h : Drawn supply n middle)
      (hacquire : Supplier.acquire middle = (.error fault, final)) : Drawn supply n final

theorem Supplier.Drawn.trans {M : Type} [Supplier M] {first second third : M} {n m : Nat}
    (h : Supplier.Drawn first n second) (h' : Supplier.Drawn second m third) :
    Supplier.Drawn first (n + m) third := by
  induction h' with
  | refl => exact h
  | granted _ hacquire ih => exact ih.granted hacquire
  | refused _ hacquire ih => exact ih.refused hacquire

/-- The unit is a header. -/
def WireUnit.isHeader : WireUnit → Bool
  | header _ => true
  | value _ => false

/-- The unit is a header in the extended form. -/
def WireUnit.isExtended : WireUnit → Bool
  | header bytes => bytes.length == Header.Form.extended.length
  | value _ => false

/-- The counters after the unit was placed: a header is counted. -/
def WireUnit.count : WireUnit → Counters → Counters
  | header bytes => Counters.countHeader (bytes.length == Header.Form.extended.length)
  | value _ => id

/-- The counters after units were placed, for which `fresh` chunks were drawn. -/
def Counters.countUnits (units : List WireUnit) (fresh : Nat) (counters : Counters) : Counters :=
  { counters with
    requestsEncoded := counters.requestsEncoded + units.countP WireUnit.isHeader
    extendedHeaders := counters.extendedHeaders + units.countP WireUnit.isExtended
    chunksAcquired := counters.chunksAcquired + fresh }

namespace Queue

variable {M S : Type} [Supplier M]

/-! ### One unit -/

/-- A unit is placed by its bytes, and then counted. -/
theorem putUnit_eq (unit : WireUnit) :
    (putUnit unit : Attempt M S) = (place unit.bytes).counting unit.count := by
  cases unit with
  | header bytes => rfl
  | value bytes => exact (Attempt.andThen_done _).symm

/-- The ways of placing a unit. -/
inductive Places (unit : List UInt8) (q : Queue M S) : Except Fault Unit → Queue M S → Prop where
  /-- The last chunk has room for the unit. -/
  | inTail {front : Chain} {last : Chunk} (hchain : q.chain = front ++ [last])
      (hroom : unit.length ≤ last.room) :
      Places unit q (.ok ())
        { q with
          chain := front ++ [last.append unit]
          cursor := q.cursor.or (some front.length)
          occupied := q.occupied + unit.length }
  /-- The unit begins a new chunk. -/
  | inNewChunk {supplied : Chunk} {supply : M} (hlacks : q.LacksRoom unit.length)
      (hacquire : Supplier.acquire q.supply = (.ok supplied, supply)) :
      Places unit q (.ok ())
        { q with
          supply
          chain := q.chain ++ [Chunk.empty.append unit]
          cursor := q.cursor.or (some q.chain.length)
          occupied := q.occupied + unit.length
          counters := q.counters.countAcquired }
  /-- No chunk is to be had for the unit, for a reason that the supplier gives. -/
  | nowhere {fault : Fault} {supply : M} (hlacks : q.LacksRoom unit.length)
      (hacquire : Supplier.acquire q.supply = (.error fault, supply)) :
      Places unit q (.error fault) { q with supply }

theorem places (unit : List UInt8) (q : Queue M S) :
    Places unit q (q.place unit).1 (q.place unit).2 := by
  rcases room_or_lacksRoom q unit.length with ⟨last, hlast, hroom⟩ | hlacks
  · obtain ⟨front, hchain⟩ := List.getLast?_eq_some_iff.mp hlast
    have hplaces := Places.inTail hchain hroom
    rw [place_of_room hlast hroom]
    simpa [replaceTail, Chain.replaceLast, hchain] using hplaces
  · rw [place_of_lacksRoom hlacks]
    rcases hacquire : Supplier.acquire q.supply with ⟨outcome, supply⟩
    cases outcome with
    | error fault =>
      rw [link_of_refused hacquire]
      exact .nowhere hlacks hacquire
    | ok supplied =>
      have hplaces := Places.inNewChunk hlacks hacquire
      rw [link_of_supplied hacquire]
      simpa using hplaces

/-! ### The trace of placed units -/

/-- `q'` is `q` after `units` were placed, with `fresh` chunks drawn for them. -/
structure Grows (units : List WireUnit) (fresh : Nat) (q q' : Queue M S) : Prop where
  laid : q.chain.Laid units fresh q'.chain
  /-- The first unit opens a message, unless one is open. -/
  cursor : ∃ opening, q'.cursor = if units.isEmpty then q.cursor else q.cursor.or (some opening)
  occupied : q'.occupied = q.occupied + (unitBytes units).length
  sink : q'.sink = q.sink
  supply : Supplier.Drawn q.supply fresh q'.supply
  counters : q'.counters = q.counters.countUnits units fresh

theorem Grows.refl (q : Queue M S) : Grows [] 0 q q where
  laid := .refl
  cursor := ⟨0, rfl⟩
  occupied := rfl
  sink := rfl
  supply := .refl
  counters := rfl

theorem Grows.trans {units units' : List WireUnit} {fresh fresh' : Nat} {q q' q'' : Queue M S}
    (h : Grows units fresh q q') (h' : Grows units' fresh' q' q'') :
    Grows (units ++ units') (fresh + fresh') q q'' where
  laid := h.laid.trans h'.laid
  cursor := by
    obtain ⟨opening, hcursor⟩ := h.cursor
    obtain ⟨opening', hcursor'⟩ := h'.cursor
    cases units with
    | nil => exact ⟨opening', by simpa [hcursor] using hcursor'⟩
    | cons unit units =>
      -- The message is open from the first unit on, and further ones leave the cursor alone.
      refine ⟨opening, ?_⟩
      rw [hcursor', hcursor]
      cases q.cursor <;> simp
  occupied := by rw [h'.occupied, h.occupied, unitBytes_append, List.length_append, Nat.add_assoc]
  sink := h'.sink.trans h.sink
  supply := h.supply.trans h'.supply
  counters := by
    rw [h'.counters, h.counters]
    simp [Counters.countUnits, Nat.add_assoc]

/-- A refused call changes nothing but the supplier. -/
theorem Grows.of_refused {q : Queue M S} {fault : Fault} {supply : M}
    (hacquire : Supplier.acquire q.supply = (.error fault, supply)) :
    Grows [] 0 q { q with supply } where
  laid := .refl
  cursor := ⟨0, rfl⟩
  occupied := rfl
  sink := rfl
  supply := .refused .refl hacquire
  counters := rfl

/-- The counters after a placed unit. -/
theorem countUnits_singleton (unit : WireUnit) (fresh : Nat) (counters : Counters) :
    counters.countUnits [unit] fresh =
      unit.count { counters with chunksAcquired := counters.chunksAcquired + fresh } := by
  cases unit with
  | header bytes =>
    cases hextended : bytes.length == Header.Form.extended.length <;>
      simp [Counters.countUnits, WireUnit.count, Counters.countHeader, WireUnit.isHeader,
        WireUnit.isExtended, hextended]
  | value bytes => rfl

/-- A placed unit leaves the trace of one unit, and one that the supplier has no chunk for leaves
none. -/
theorem putUnit_grows (unit : WireUnit) (q : Queue M S) :
    (∃ fresh, (q.putUnit unit).1 = .ok () ∧ Grows [unit] fresh q (q.putUnit unit).2) ∨
      ∃ fault, (q.putUnit unit).1 = .error fault ∧
        Supplier.RefusedWith fault (q.putUnit unit).2.supply ∧
        q.LacksRoom unit.bytes.length ∧ Grows [] 0 q (q.putUnit unit).2 ∧
        (q.putUnit unit).2.chain = q.chain := by
  have hplaces := places unit.bytes q
  rw [putUnit_eq]
  simp only [Attempt.counting, Attempt.andThen]
  generalize q.place unit.bytes = result at hplaces
  obtain ⟨outcome, q'⟩ := result
  cases hplaces with
  | @inTail front last hchain hroom =>
    left
    refine ⟨0, rfl, ?_⟩
    have hlaid : q.chain.Laid [] 0 (front ++ [last]) := hchain ▸ .refl
    exact
      { laid := hlaid.inTail hroom
        cursor := ⟨front.length, rfl⟩
        occupied := by simp
        sink := rfl
        supply := .refl
        counters := (countUnits_singleton unit 0 q.counters).symm }
  | inNewChunk hlacks hacquire =>
    left
    refine ⟨1, rfl, ?_⟩
    exact
      { laid := Chain.Laid.refl.inNewChunk hlacks
        cursor := ⟨q.chain.length, rfl⟩
        occupied := by simp
        sink := rfl
        supply := .granted .refl hacquire
        counters := (countUnits_singleton unit 1 q.counters).symm }
  | @nowhere fault supply hlacks hacquire =>
    right
    exact ⟨fault, rfl, ⟨q.supply, hacquire⟩, hlacks, .of_refused hacquire, rfl⟩

/-! ### Units and writes -/

/-- **Up to the first one that finds no chunk.** Units are placed in order; if any are left over,
the last chunk has no room for the next of them, and the supplier has just refused a further one. -/
theorem putUnits_grows (units : List WireUnit) (q : Queue M S) :
    (∃ fresh, (q.putUnits units).1 = .ok () ∧ Grows units fresh q (q.putUnits units).2) ∨
      ∃ stored next rest fresh fault, units = stored ++ next :: rest ∧
        (q.putUnits units).1 = .error fault ∧
        Supplier.RefusedWith fault (q.putUnits units).2.supply ∧
        (q.putUnits units).2.LacksRoom next.bytes.length ∧
        Grows stored fresh q (q.putUnits units).2 := by
  induction units generalizing q with
  | nil => exact Or.inl ⟨0, rfl, .refl q⟩
  | cons unit units ih =>
    rw [putUnits_cons]
    simp only [Attempt.andThen]
    rcases putUnit_grows unit q with ⟨fresh, hok, hgrows⟩ |
      ⟨fault, herror, hsupplier, hlacks, hgrows, hchain⟩
    -- The first unit is placed, and its trace is followed by that of the others.
    · generalize q.putUnit unit = result at hok hgrows
      obtain ⟨outcome, q'⟩ := result
      cases hok
      rcases ih q' with ⟨fresh', hok', hgrows'⟩ |
        ⟨stored, next, rest, fresh', fault, rfl, herror', hsupplier', hlacks', hgrows'⟩
      · exact Or.inl ⟨fresh + fresh', hok', hgrows.trans hgrows'⟩
      · exact Or.inr ⟨unit :: stored, next, rest, fresh + fresh', fault, rfl, herror', hsupplier',
          hlacks', hgrows.trans hgrows'⟩
    -- There is no chunk for it, and the others are not tried.
    · generalize q.putUnit unit = result at herror hsupplier hgrows hchain
      obtain ⟨outcome, q'⟩ := result
      cases herror
      refine Or.inr ⟨[], unit, units, 0, fault, rfl, rfl, hsupplier, ?_, hgrows⟩
      intro tail hlast
      exact hlacks tail (hchain ▸ hlast)

omit [Supplier M] in
/-- What both of two writes preserve, the one after the other preserves, whether or not the second
one is reached. -/
theorem andThen_preserves {P : Queue M S → Prop} {first second : Attempt M S} {q : Queue M S}
    (hfirst : P (first q).2) (hsecond : ∀ q, P q → P (second q).2) :
    P (first.andThen second q).2 := by
  unfold Attempt.andThen
  generalize first q = result at hfirst
  obtain ⟨outcome, q'⟩ := result
  cases outcome with
  | error fault => exact hfirst
  | ok _ => exact hsecond q' hfirst

/-- What placing one unit preserves is preserved by placing several. -/
theorem putUnits_preserves {P : Queue M S → Prop} {units : List WireUnit}
    (hunit : ∀ unit ∈ units, ∀ q, P q → P (q.putUnit unit).2) {q : Queue M S} (h : P q) :
    P (q.putUnits units).2 := by
  induction units generalizing q with
  | nil => exact h
  | cons unit units ih =>
    obtain ⟨hfirst, hrest⟩ := List.forall_mem_cons.mp hunit
    rw [putUnits_cons]
    apply andThen_preserves (hfirst q h)
    intro q' hq'
    exact ih hrest hq'

end Queue

/-- **What a write leaves.** A write stores all of its units, or the supplier refuses it a chunk
with at least one unit to go, or it is refused itself and stores nothing. -/
theorem Write.attempt_grows {M S : Type} [Supplier M] (write : Write) (q : Queue M S) :
    (∃ units fresh, write.units = .ok units ∧ (write.attempt q).1 = .ok () ∧
        q.Grows units fresh (write.attempt q).2) ∨
      (∃ stored next rest fresh fault, write.units = .ok (stored ++ next :: rest) ∧
        (write.attempt q).1 = .error fault ∧
        Supplier.RefusedWith fault (write.attempt q).2.supply ∧
        (write.attempt q).2.LacksRoom next.bytes.length ∧
        q.Grows stored fresh (write.attempt q).2) ∨
      ∃ fault, write.units = .error fault ∧ write.attempt q = (.error fault, q) := by
  rw [Write.attempt_eq]
  cases hunits : write.units with
  | error fault => exact Or.inr (Or.inr ⟨fault, rfl, rfl⟩)
  | ok units =>
    rcases q.putUnits_grows units with ⟨fresh, hok, hgrows⟩ |
      ⟨stored, next, rest, fresh, fault, rfl, herror, hsupplier, hlacks, hgrows⟩
    · exact Or.inl ⟨units, fresh, rfl, hok, hgrows⟩
    · exact Or.inr (Or.inl
        ⟨stored, next, rest, fresh, fault, rfl, herror, hsupplier, hlacks, hgrows⟩)

/-- **What a failed write leaves.** Either the supplier has just refused it a chunk, or it has no
units and leaves the queue as it was. -/
theorem Write.attempt_error_cases {M S : Type} [Supplier M] {write : Write} {q : Queue M S}
    {fault : Fault} (h : (write.attempt q).1 = .error fault) :
    (∃ stored next rest fresh, write.units = .ok (stored ++ next :: rest) ∧
        Supplier.RefusedWith fault (write.attempt q).2.supply ∧
        (write.attempt q).2.LacksRoom next.bytes.length ∧
        q.Grows stored fresh (write.attempt q).2) ∨
      write.units = .error fault ∧ (write.attempt q).2 = q := by
  rcases write.attempt_grows q with ⟨_, _, -, hok, -⟩ |
    ⟨stored, next, rest, fresh, _, hunits, herror, hsupplier, hlacks, hgrows⟩ |
    ⟨_, hunits, hrefused⟩
  · rw [hok] at h
    cases h
  · cases herror.symm.trans h
    exact Or.inl ⟨stored, next, rest, fresh, hunits, hsupplier, hlacks, hgrows⟩
  · rw [hrefused] at h ⊢
    cases h
    exact Or.inr ⟨hunits, rfl⟩

end WireQueue

import WireQueue.Proofs.Marks
import WireQueue.Proofs.Outflow
import WireQueue.Supplier.Shelf

/-! # The invariant of a queue

Chain, cursor and byte count of a queue are kept separately, and every operation changes some of
them. `Queue.WellFormed` says how they go together.

* `Queue.WellFormed.perform` — every operation keeps the invariant, one that fails included.
* `Queue.wellFormed_of_reachable` — so it holds of every queue a caller can bring about.
* `Queue.WellFormed.rollback_eq` and `Queue.WellFormed.commit_eq` — under the invariant, rollback
  and commit act on the whole chain, whether or not a message is open.
* `Queue.Sound` — what this means for each chunk, for those that leave, and for the counters. -/

namespace WireQueue

/-! ### Chunks that hold bytes -/

namespace Chain

theorem Filled.length_pos {chain : Chain} (h : Filled chain) {chunk : Chunk}
    (hchunk : chunk ∈ chain) : 0 < chunk.length := by
  have hne := (h chunk hchunk).1
  rw [Chunk.isEmpty, beq_eq_false_iff_ne] at hne
  exact Nat.pos_of_ne_zero hne

theorem filled_singleton {chunk : Chunk} (hpos : 0 < chunk.length)
    (hle : chunk.length ≤ Chunk.capacity) : Filled [chunk] :=
  List.forall_mem_singleton.mpr ⟨beq_eq_false_iff_ne.mpr (Nat.ne_of_gt hpos), hle⟩

/-- Chunks that hold bytes have at least one byte and at most `Chunk.capacity` bytes each. -/
theorem Filled.length_le_size {chain : Chain} (h : Filled chain) :
    chain.length ≤ chain.size ∧ chain.size ≤ Chunk.capacity * chain.length := by
  induction chain with
  | nil => exact ⟨Nat.le_refl _, Nat.le_refl _⟩
  | cons chunk chain ih =>
    have hpos := h.length_pos List.mem_cons_self
    have hfits : chunk.length ≤ Chunk.capacity := (h chunk List.mem_cons_self).2
    obtain ⟨hlower, hupper⟩ := ih (List.forall_mem_cons.mp h).2
    rw [size_cons, List.length_cons, Nat.mul_succ]
    omega

/-- Opening a message at the last chunk of a settled chain. -/
theorem Settled.marked_last {chain : Chain} (h : Settled chain) :
    Marked chain (if chain.isEmpty then none else some (chain.length - 1)) := by
  rcases List.eq_nil_or_concat chain with rfl | ⟨front, last, rfl⟩
  · exact .closed h
  · rw [List.concat_eq_append] at h ⊢
    have hmarked : Marked (front ++ [last]) (some front.length) :=
      .opened last (List.forall_mem_append.mp h).1 (List.forall_mem_nil _)
    simpa using hmarked

end Chain

/-! ### The units of a write are small -/

/-- A unit has at least one byte, and no more than an extended header. -/
def WireUnit.Sized (unit : WireUnit) : Prop :=
  0 < unit.bytes.length ∧ unit.bytes.length ≤ Header.Form.extended.length

theorem sized_valueUnits {α : Type} [Element α] (values : List α) :
    ∀ unit ∈ valueUnits values, unit.Sized := by
  intro unit hunit
  obtain ⟨value, -, rfl⟩ := List.mem_map.mp hunit
  have hpos : 0 < Element.width α := Element.width_pos
  have hle : Element.width α ≤ 8 := Element.width_le
  have hlength : (WireUnit.value (Element.encode value)).bytes.length = Element.width α :=
    Element.length_encode value
  rw [WireUnit.Sized, hlength]
  exact ⟨hpos, Nat.le_trans hle (by decide)⟩

theorem sized_leadingUnits {α : Type} [Element α] {values : List α} {needed : Nat}
    {units : List WireUnit} (h : leadingUnits values needed = .ok units) :
    ∀ unit ∈ units, unit.Sized := by
  rw [leadingUnits_eq_ok h]
  exact sized_valueUnits _

theorem Payload.sized_units {payload : Payload} {count : Nat} {units : List WireUnit}
    (h : payload.units count = .ok units) : ∀ unit ∈ units, unit.Sized := by
  cases payload <;> exact sized_leadingUnits h

theorem Header.sized_encodeAs (header : Header) (form : Header.Form) :
    (WireUnit.header (header.encodeAs form)).Sized := by
  rw [WireUnit.Sized, WireUnit.bytes, Header.length_encodeAs]
  cases form <;> decide

theorem Header.sized_units {header : Header} {extendedOk : Bool} {units : List WireUnit}
    (h : header.units extendedOk = .ok units) : ∀ unit ∈ units, unit.Sized := by
  rw [Header.units, Header.encode] at h
  cases hform : header.form extendedOk with
  | error fault =>
    rw [hform] at h
    cases h
  | ok form =>
    rw [hform] at h
    cases h
    intro unit hunit
    cases List.mem_singleton.mp hunit
    exact header.sized_encodeAs form

theorem Request.sized_units {request : Request} {extendedOk : Bool} {units : List WireUnit}
    (h : request.units extendedOk = .ok units) : ∀ unit ∈ units, unit.Sized := by
  obtain ⟨layout, -, h⟩ := bind_eq_ok.mp h
  obtain ⟨opening, hopening, h⟩ := bind_eq_ok.mp h
  obtain ⟨body, hbody, h⟩ := bind_eq_ok.mp h
  cases h
  intro unit hunit
  rcases List.mem_append.mp hunit with hunit | hunit
  · rcases List.mem_append.mp hunit with hunit | hunit
    · exact Header.sized_units hopening unit hunit
    · rw [Request.bodyUnits] at hbody
      split at hbody
      · cases hbody
        exact sized_valueUnits _ unit hunit
      · exact Payload.sized_units hbody unit hunit
  · exact sized_valueUnits _ unit hunit

/-- No unit of a write is empty, and none is longer than an extended header. -/
theorem Write.sized_units {write : Write} {units : List WireUnit} (h : write.units = .ok units) :
    ∀ unit ∈ units, unit.Sized := by
  cases write with
  | values type payload count =>
    obtain ⟨_, -, h⟩ := bind_eq_ok.mp h
    exact Payload.sized_units h
  | header opening extendedOk => exact Header.sized_units h
  | request whole extendedOk => exact Request.sized_units h
  | _ =>
    cases h
    exact sized_valueUnits _

/-- Where there are units, there are bytes. -/
theorem eq_nil_of_unitBytes_eq_nil {units : List WireUnit} (hsized : ∀ unit ∈ units, unit.Sized)
    (h : unitBytes units = []) : units = [] := by
  cases units with
  | nil => rfl
  | cons unit units =>
    rw [unitBytes_cons, List.append_eq_nil_iff] at h
    have hpos := (hsized unit List.mem_cons_self).1
    rw [h.1] at hpos
    cases hpos

/-- As long as a unit is missing, so are some bytes. -/
theorem Write.encoding_of_units {write : Write} {stored rest : List WireUnit} {next : WireUnit}
    (h : write.units = .ok (stored ++ next :: rest)) :
    ∃ missing, missing ≠ [] ∧ write.encoding = .ok (unitBytes stored ++ missing) := by
  refine ⟨unitBytes (next :: rest), ?_, ?_⟩
  · intro hnil
    have hsized := (List.forall_mem_append.mp (Write.sized_units h)).2
    cases eq_nil_of_unitBytes_eq_nil hsized hnil
  · rw [Write.encoding, h, ← unitBytes_append]
    rfl

namespace Queue

variable {M S : Type} [Supplier M]

/-- What holds of a queue between any two operations. -/
structure WellFormed (q : Queue M S) : Prop where
  /-- The bytes are counted right. -/
  occupied : q.occupied = q.chain.size
  /-- No chunk is empty or overfull. -/
  filled : q.chain.Filled
  /-- The cursor tells where the open message begins. -/
  marked : q.chain.Marked q.cursor

/-! ### Rollback and commit -/

/-- **A rollback in full.** It drops what is not committed, wherever it is. -/
theorem WellFormed.rollback_eq {q : Queue M S} (h : q.WellFormed) :
    q.rollback =
      { q with
        supply := q.chain.emptied.foldl Supplier.reclaim q.supply
        chain := q.chain.rollback
        cursor := none
        occupied := q.chain.committed.length
        counters := q.counters.countRollback q.chain.uncommitted.length } := by
  have hoccupied : q.occupied - q.chain.uncommitted.length = q.chain.committed.length := by
    rw [h.occupied, Chain.size_eq_add, Nat.add_sub_cancel]
  rw [← hoccupied]
  have hmarked := h.marked
  cases hcursor : q.cursor with
  | some first =>
    rw [hcursor] at hmarked
    simp only [rollback, hcursor, hmarked.take_append_rollback h.filled,
      hmarked.emptied_drop h.filled, hmarked.uncommitted_drop]
  | none =>
    rw [hcursor] at hmarked
    have hsettled := hmarked.settled
    -- There is nothing to drop, and the right-hand side drops nothing.
    rw [rollback_of_cursor_eq_none hcursor, hsettled.emptied_eq h.filled,
      hsettled.rollback_eq h.filled, hsettled.uncommitted_eq_nil, ← hcursor]
    rfl

omit [Supplier M] in
/-- **A commit in full.** It keeps what is not committed, wherever it is. -/
theorem WellFormed.commit_eq {q : Queue M S} (h : q.WellFormed) :
    q.commit =
      { q with
        chain := q.chain.commit
        cursor := none
        counters := if q.cursor.isSome then q.counters.countCommit else q.counters } := by
  have hmarked := h.marked
  cases hcursor : q.cursor with
  | some first =>
    rw [hcursor] at hmarked
    simp only [commit, hcursor, hmarked.take_append_commit, Option.isSome_some, if_true]
  | none =>
    rw [hcursor] at hmarked
    have hsettled := hmarked.settled
    obtain ⟨supply, sink, chain, cursor, occupied, counters⟩ := q
    cases hcursor
    simp [commit, hsettled.commit_eq]

theorem WellFormed.chain_rollback {q : Queue M S} (h : q.WellFormed) :
    q.rollback.chain = q.chain.rollback := by
  rw [h.rollback_eq]

omit [Supplier M] in
theorem WellFormed.chain_commit {q : Queue M S} (h : q.WellFormed) :
    q.commit.chain = q.chain.commit := by
  rw [h.commit_eq]

theorem WellFormed.settled_rollback {q : Queue M S} (h : q.WellFormed) :
    q.rollback.chain.Settled := by
  rw [h.chain_rollback]
  exact Chain.settled_rollback _

/-! ### The invariant is kept -/

omit [Supplier M] in
theorem wellFormed_new (supply : M) (sink : S) : (new supply sink).WellFormed where
  occupied := rfl
  filled := List.forall_mem_nil _
  marked := .closed (List.forall_mem_nil _)

omit [Supplier M] in
/-- Supplier, sink and counters have no part in the invariant. -/
theorem WellFormed.congr {M' S' : Type} {q : Queue M S} {q' : Queue M' S'} (h : q.WellFormed)
    (hchain : q'.chain = q.chain) (hcursor : q'.cursor = q.cursor)
    (hoccupied : q'.occupied = q.occupied) : q'.WellFormed where
  occupied := by rw [hoccupied, hchain, h.occupied]
  filled := hchain ▸ h.filled
  marked := hchain ▸ hcursor ▸ h.marked

theorem WellFormed.rollback {q : Queue M S} (h : q.WellFormed) : q.rollback.WellFormed := by
  rw [h.rollback_eq]
  exact
    { occupied := by rw [← Chain.length_bytes, Chain.bytes_rollback]
      filled := h.filled.rollback
      marked := .closed (Chain.settled_rollback _) }

theorem WellFormed.startMessage {q : Queue M S} (h : q.WellFormed) : q.startMessage.WellFormed where
  occupied := h.rollback.occupied
  filled := h.rollback.filled
  marked := h.settled_rollback.marked_last

omit [Supplier M] in
theorem WellFormed.commit {q : Queue M S} (h : q.WellFormed) : q.commit.WellFormed := by
  rw [h.commit_eq]
  exact
    { occupied := h.occupied.trans (Chain.size_commit q.chain).symm
      filled := h.filled.commit
      marked := .closed (Chain.settled_commit _) }

theorem wellFormed_clear (q : Queue M S) : q.clear.WellFormed where
  occupied := rfl
  filled := List.forall_mem_nil _
  marked := .closed (List.forall_mem_nil _)

/-- A unit keeps the invariant, in whichever way it is placed. -/
theorem Places.wellFormed {unit : List UInt8} {q q' : Queue M S} {outcome : Except Fault Unit}
    (hplaces : Places unit q outcome q') (hpos : 0 < unit.length)
    (hle : unit.length ≤ Chunk.capacity) (h : q.WellFormed) : q'.WellFormed := by
  cases hplaces with
  | @inTail front last hchain hroom =>
    obtain ⟨hoccupied, hfilled, hmarked⟩ := h
    rw [hchain] at hoccupied hfilled hmarked
    -- Only the last chunk changes, and it had the room.
    obtain ⟨hfront, hlast⟩ := List.forall_mem_append.mp hfilled
    have hfits : last.length ≤ Chunk.capacity := (hlast last List.mem_cons_self).2
    rw [Chunk.room] at hroom
    exact
      { occupied := by
          simp [hoccupied, Nat.add_assoc]
        filled := List.forall_mem_append.mpr ⟨hfront, Chain.filled_singleton
          (by rw [Chunk.length_append]; omega) (by rw [Chunk.length_append]; omega)⟩
        marked := hmarked.append_last unit }
  | inNewChunk hlacks hacquire =>
    exact
      { occupied := by simp [h.occupied]
        filled := List.forall_mem_append.mpr ⟨h.filled, Chain.filled_singleton
          (by simpa using hpos) (by simpa using hle)⟩
        marked := h.marked.append_fresh unit }
  | nowhere hlacks hacquire => exact h.congr rfl rfl rfl

theorem WellFormed.putUnit {q : Queue M S} (h : q.WellFormed) {unit : WireUnit}
    (hsized : unit.Sized) : (q.putUnit unit).2.WellFormed := by
  have hplaced : (q.place unit.bytes).2.WellFormed :=
    (places unit.bytes q).wellFormed hsized.1 (Nat.le_trans hsized.2 (by decide)) h
  rw [putUnit_eq]
  apply andThen_preserves hplaced
  intro q' hq'
  exact hq'.congr rfl rfl rfl

/-- A write keeps the invariant, also one that stops on its way. -/
theorem WellFormed.attempt {q : Queue M S} (h : q.WellFormed) (write : Write) :
    (write.attempt q).2.WellFormed := by
  rw [Write.attempt_eq]
  cases hunits : write.units with
  | error fault => exact h
  | ok units =>
    refine putUnits_preserves ?_ h
    intro unit hunit q hq
    exact hq.putUnit (Write.sized_units hunits unit hunit)

theorem WellFormed.pop {q : Queue M S} (h : q.WellFormed) : q.pop.2.WellFormed := by
  obtain ⟨hoccupied, hfilled, -⟩ := h.rollback
  have hsettled := h.settled_rollback
  rw [pop_eq]
  cases hchain : q.rollback.chain with
  | nil => exact h.rollback
  | cons chunk rest =>
    rw [hchain] at hoccupied hfilled hsettled
    exact
      { occupied := by
          show q.rollback.occupied - chunk.length = Chain.size rest
          rw [hoccupied, Chain.size_cons, Nat.add_sub_cancel_left]
        filled := (List.forall_mem_cons.mp hfilled).2
        marked := by
          show Chain.Marked rest q.rollback.cursor
          rw [cursor_rollback]
          exact .closed (List.forall_mem_cons.mp hsettled).2 }

variable [Sink S]

theorem WellFormed.flush {q : Queue M S} (h : q.WellFormed) : q.flush.2.WellFormed where
  occupied := by
    rw [occupied_flush, chain_flush, h.rollback.occupied, Nat.sub_self]
    rfl
  filled := by
    rw [chain_flush]
    exact List.forall_mem_nil _
  marked := by
    rw [chain_flush, cursor_flush]
    exact .closed (List.forall_mem_nil _)

/-- **The step.** Every operation keeps the invariant. -/
theorem WellFormed.perform {q : Queue M S} (h : q.WellFormed) (operation : Operation) :
    (q.perform operation).2.WellFormed := by
  cases operation with
  | startMessage => exact h.startMessage
  | commit => exact h.commit
  | clear => exact wellFormed_clear q
  | write write => exact h.attempt write
  | pop => exact h.pop
  | flush => exact h.flush
  | recycle chunk => exact h.congr rfl rfl rfl

theorem WellFormed.run {q : Queue M S} (h : q.WellFormed) (operations : List Operation) :
    (q.run operations).2.WellFormed := by
  induction operations generalizing q with
  | nil => exact h
  | cons operation rest ih => exact ih (h.perform operation)

/-- **The run.** The invariant holds of every queue that a caller can bring about. -/
theorem wellFormed_of_reachable {q : Queue M S} (h : Reachable q) : q.WellFormed := by
  induction h with
  | new supply sink => exact wellFormed_new supply sink
  | perform _ operation ih => exact ih.perform operation
  | exchange _ supply sink ih => exact ih.congr rfl rfl rfl

theorem Reachable.run {q : Queue M S} (h : Reachable q) (operations : List Operation) :
    Reachable (q.run operations).2 := by
  induction operations generalizing q with
  | nil => exact h
  | cons operation rest ih => exact ih (h.perform operation)

/-! ### What leaves is committed and not empty -/

theorem mem_rollback_of_mem_leaving {q : Queue M S} {operation : Operation} {chunk : Chunk}
    (h : chunk ∈ q.leaving operation) : chunk ∈ q.rollback.chain := by
  cases operation with
  | pop =>
    rw [leaving_pop, Option.mem_toList] at h
    exact List.mem_of_mem_head? h
  | flush => exact h
  | _ => cases h

theorem WellFormed.filled_leaving {q : Queue M S} (h : q.WellFormed) (operation : Operation) :
    Chain.Filled (q.leaving operation) := by
  intro chunk hchunk
  exact h.rollback.filled chunk (mem_rollback_of_mem_leaving hchunk)

theorem WellFormed.settled_leaving {q : Queue M S} (h : q.WellFormed) (operation : Operation) :
    Chain.Settled (q.leaving operation) := by
  intro chunk hchunk
  exact h.settled_rollback chunk (mem_rollback_of_mem_leaving hchunk)

/-- Since no chunk leaves empty or overfull, the counters of drained chunks and bytes bound each
other. -/
theorem drained_bounds_of_reachable {q : Queue M S} (h : Reachable q) :
    q.counters.chunksDrained ≤ q.counters.bytesDrained ∧
      q.counters.bytesDrained ≤ Chunk.capacity * q.counters.chunksDrained := by
  induction h with
  | new supply sink => exact ⟨Nat.le_refl _, Nat.le_refl _⟩
  | @perform q hreachable operation ih =>
    obtain ⟨hlower, hupper⟩ :=
      ((wellFormed_of_reachable hreachable).filled_leaving operation).length_le_size
    obtain ⟨hchunks, hbytes⟩ := drains_perform q operation
    rw [hchunks, hbytes, Nat.mul_add]
    omega
  | exchange _ supply sink ih => exact ih

end Queue

theorem Counters.meanDrained?_eq_none_iff {counters : Counters} :
    counters.meanDrained? = none ↔ counters.chunksDrained = 0 := by
  unfold meanDrained?
  split
  · next hzero => exact ⟨fun _ => hzero, fun _ => rfl⟩
  · next hpos =>
    constructor
    · intro h
      cases h
    · intro h
      exact absurd h hpos

theorem Counters.meanDrained?_bounds {counters : Counters} {mean : Nat}
    (hlower : counters.chunksDrained ≤ counters.bytesDrained)
    (hupper : counters.bytesDrained ≤ Chunk.capacity * counters.chunksDrained)
    (h : counters.meanDrained? = some mean) : 1 ≤ mean ∧ mean ≤ Chunk.capacity := by
  unfold meanDrained? at h
  split at h
  · cases h
  · next hne =>
    cases h
    have hpos := Nat.pos_of_ne_zero hne
    refine ⟨?_, ?_⟩
    · rw [Nat.le_div_iff_mul_le hpos, Nat.one_mul]
      exact hlower
    · exact Nat.div_le_of_le_mul (by rwa [Nat.mul_comm])

namespace Queue

variable {M S : Type} [Supplier M] [Sink S]

/-- The invariant chunk by chunk, and what follows from it for callers and sinks. -/
structure Sound (q : Queue M S) : Prop where
  occupied_eq : q.occupied = q.chain.size
  bounds : ∀ chunk ∈ q.chain, 0 < chunk.length ∧ chunk.committed.length ≤ chunk.length ∧
    chunk.length ≤ Chunk.capacity
  committed_of_closed : q.cursor = none →
    ∀ chunk ∈ q.chain, chunk.committed.length = chunk.length
  cursor_lt : ∀ first, q.cursor = some first → first < q.chunkCount
  committed_before : ∀ first, q.cursor = some first → ∀ i chunk, i < first →
    q.chain[i]? = some chunk → chunk.committed.length = chunk.length
  fresh_after : ∀ first, q.cursor = some first → ∀ i chunk, first < i →
    q.chain[i]? = some chunk → chunk.committed.length = 0
  closed_of_empty : q.chain = [] → q.cursor = none
  /-- The sink is given the chunks that `Queue.delivered` lists, and no others. -/
  delivered : ∀ operation,
    (q.perform operation).2.sink = Sink.deliverAll q.sink (q.delivered operation)
  /-- What is popped or delivered holds committed bytes and no others. -/
  leaving : ∀ operation, ∀ chunk ∈ q.leaving operation,
    0 < chunk.length ∧ chunk.uncommitted.length = 0
  drains : ∀ operation,
    q.counters.Drains (q.leaving operation) (q.perform operation).2.counters
  chunks_le_bytes : q.counters.chunksDrained ≤ q.counters.bytesDrained
  bytes_le_chunks : q.counters.bytesDrained ≤ Chunk.capacity * q.counters.chunksDrained
  mean_eq_none : q.counters.meanDrained? = none ↔ q.counters.chunksDrained = 0
  mean_bounds : ∀ mean, q.counters.meanDrained? = some mean → 1 ≤ mean ∧ mean ≤ Chunk.capacity

/-- **The representation invariant.** Every queue that a caller can bring about is sound. -/
theorem sound_of_reachable {q : Queue M S} (h : Reachable q) : q.Sound := by
  have hq := wellFormed_of_reachable h
  have hmarked := hq.marked
  obtain ⟨hlower, hupper⟩ := drained_bounds_of_reachable h
  have hsettled {chunk : Chunk} (hnil : chunk.uncommitted = []) :
      chunk.committed.length = chunk.length := by
    rw [Chunk.length, hnil]
    rfl
  exact
    { occupied_eq := hq.occupied
      bounds := by
        intro chunk hchunk
        exact ⟨hq.filled.length_pos hchunk, Nat.le_add_right _ _, (hq.filled chunk hchunk).2⟩
      committed_of_closed := by
        intro hcursor chunk hchunk
        rw [hcursor] at hmarked
        exact hsettled (hmarked.settled chunk hchunk)
      cursor_lt := by
        intro first hcursor
        rw [hcursor] at hmarked
        exact hmarked.cursor_lt
      committed_before := by
        intro first hcursor i chunk hi hget
        rw [hcursor] at hmarked
        exact hsettled (hmarked.uncommitted_of_lt hi hget)
      fresh_after := by
        intro first hcursor i chunk hi hget
        rw [hcursor] at hmarked
        exact congrArg List.length (hmarked.committed_of_gt hi hget)
      closed_of_empty := by
        intro hchain
        rw [hchain] at hmarked
        exact hmarked.cursor_eq_none
      delivered := sink_perform q
      leaving := by
        intro operation chunk hchunk
        have hnil := hq.settled_leaving operation chunk hchunk
        exact ⟨(hq.filled_leaving operation).length_pos hchunk, congrArg List.length hnil⟩
      drains := drains_perform q
      chunks_le_bytes := hlower
      bytes_le_chunks := hupper
      mean_eq_none := Counters.meanDrained?_eq_none_iff
      mean_bounds := fun mean hmean => Counters.meanDrained?_bounds hlower hupper hmean }

/-- Two bytes have left, and a message of four bytes is open. -/
theorem sound_of_reachable_open :
    ∃ q : Queue Shelf Transcript, Reachable q ∧ q.Sound ∧ q.cursor = some 0 ∧ q.occupied = 4 ∧
      q.counters.meanDrained? = some 2 := by
  have hreachable : Reachable (Queue.new ({} : Shelf) ({} : Transcript)) := .new _ _
  have hrun := hreachable.run
    [.write (.word16 1), .commit, .pop, .startMessage, .write (.word32 2)]
  exact ⟨_, hrun, sound_of_reachable hrun, rfl, rfl, rfl⟩

end Queue

end WireQueue

import WireQueue.Proofs.Invariant

/-! # How full the chunks are

A chunk is only left for a new one when it lacks room for the next unit, and a unit has no more
bytes than an extended header. So every chunk but the last is nearly full, and the number of chunks
is bounded by the number of bytes. A rollback may turn any chunk into the last one, and leaves those
before it as they are.

* `Chain.Laid.packed`, `Chain.Packed.rollback` — what is done to a chain keeps its chunks nearly
  full.
* `Queue.WellFormed.size_run_le` — a queue gains no bytes but those that its writes store.
* `Chain.Packed.length_le` — which bounds the number of chunks where a threshold is not reached. -/

namespace WireQueue

/-- The fewest bytes in a chunk that lacks room for some unit. -/
def Chunk.leastFilled : Nat := capacity - (Header.Form.extended.length - 1)

theorem Chunk.leastFilled_le_length {chunk : Chunk} {unit : WireUnit} (hsized : unit.Sized)
    (hlacks : chunk.room < unit.bytes.length) : leastFilled ≤ chunk.length := by
  have hle := hsized.2
  rw [room] at hlacks
  rw [leastFilled]
  omega

namespace Chain

/-- Every chunk but the last is nearly full. -/
def Packed (chain : Chain) : Prop := ∀ chunk ∈ chain.dropLast, Chunk.leastFilled ≤ chunk.length

variable {chain chain' front back : Chain} {units : List WireUnit} {fresh : Nat}

theorem packed_nil : Packed [] := List.forall_mem_nil _

theorem packed_concat_iff {last : Chunk} :
    Packed (front ++ [last]) ↔ ∀ chunk ∈ front, Chunk.leastFilled ≤ chunk.length := by
  rw [Packed, List.dropLast_concat]

/-- Behind nearly full chunks there may be one more, however full. -/
theorem packed_append (hfront : ∀ chunk ∈ front, Chunk.leastFilled ≤ chunk.length)
    (hback : back.length ≤ 1) : Packed (front ++ back) := by
  match back with
  | [] =>
    rw [List.append_nil]
    intro chunk hchunk
    exact hfront chunk ((List.dropLast_sublist _).subset hchunk)
  | [last] => exact packed_concat_iff.mpr hfront

/-- What comes before some chunk is nearly full. -/
theorem Packed.before (h : Packed (front ++ back)) (hback : back ≠ []) :
    ∀ chunk ∈ front, Chunk.leastFilled ≤ chunk.length := by
  intro chunk hchunk
  apply h
  rw [List.dropLast_append_of_ne_nil hback]
  exact List.mem_append_left _ hchunk

theorem Packed.tail (h : Packed chain) : Packed (List.tail chain) := by
  match chain with
  | [] => exact packed_nil
  | [_] => exact packed_nil
  | chunk :: next :: rest => exact (List.forall_mem_cons.mp h).2

/-! ### What is done to a chain -/

/-- A new chunk is begun behind one that lacks room for a unit. -/
theorem Laid.packed (hlaid : chain.Laid units fresh chain') (hsized : ∀ unit ∈ units, unit.Sized)
    (h : Packed chain) : Packed chain' := by
  induction hlaid with
  | refl => exact h
  | inTail _ _ ih =>
    have hfront := packed_concat_iff.mp (ih (List.forall_mem_append.mp hsized).1)
    exact packed_concat_iff.mpr hfront
  | @inNewChunk units unit _ chain' _ hlacks ih =>
    obtain ⟨hunits, hunit⟩ := List.forall_mem_append.mp hsized
    have hunit := List.forall_mem_singleton.mp hunit
    apply packed_concat_iff.mpr
    rcases List.eq_nil_or_concat chain' with rfl | ⟨front, last, rfl⟩
    · exact List.forall_mem_nil _
    · rw [List.concat_eq_append] at hlacks ih ⊢
      have hlast := Chunk.leastFilled_le_length hunit (hlacks last List.getLast?_concat)
      exact List.forall_mem_append.mpr
        ⟨packed_concat_iff.mp (ih hunits), List.forall_mem_singleton.mpr hlast⟩

/-- Nothing is left of a chain without committed bytes. -/
theorem Fresh.rollback_eq_nil (h : Fresh chain) : chain.rollback = [] := by
  rw [rollback, List.filter_eq_nil_iff]
  intro chunk hchunk
  obtain ⟨original, horiginal, rfl⟩ := List.mem_map.mp hchunk
  rw [Chunk.isEmpty, Chunk.length_rollback, h original horiginal]
  decide

/-- A rollback cuts the chain off in the chunk under the cursor, or before it. -/
theorem Packed.rollback {cursor : Option Nat} (h : Packed chain) (hfilled : Filled chain)
    (hmarked : Marked chain cursor) : Packed chain.rollback := by
  cases hmarked with
  | closed hsettled =>
    rw [hsettled.rollback_eq hfilled]
    exact h
  | @opened front back chunk hfront hback =>
    have hkept : front.rollback = front :=
      hfront.rollback_eq (List.forall_mem_append.mp hfilled).1
    have hcut : Chain.rollback (chunk :: back) = Chain.rollback [chunk] := by
      rw [← List.singleton_append, rollback_append, hback.rollback_eq_nil, List.append_nil]
    rw [rollback_append, hkept, hcut]
    exact packed_append (h.before (List.cons_ne_nil _ _)) (List.length_filter_le _ _)

theorem Packed.commit (h : Packed chain) : Packed chain.commit := by
  intro chunk hchunk
  rw [Chain.commit, ← List.map_dropLast] at hchunk
  obtain ⟨original, horiginal, rfl⟩ := List.mem_map.mp hchunk
  rw [Chunk.length_commit]
  exact h original horiginal

/-! ### Chunks and bytes -/

theorem length_mul_le_size {least : Nat} (h : ∀ chunk ∈ chain, least ≤ chunk.length) :
    chain.length * least ≤ chain.size := by
  induction chain with
  | nil =>
    rw [List.length_nil, Nat.zero_mul]
    exact Nat.zero_le _
  | cons chunk chain ih =>
    obtain ⟨hchunk, hchain⟩ := List.forall_mem_cons.mp h
    have hrest := ih hchain
    rw [List.length_cons, Nat.succ_mul, size_cons]
    omega

theorem size_tail_le (chain : Chain) : size chain.tail ≤ size chain := by
  cases chain with
  | nil => exact Nat.le_refl _
  | cons chunk chain => exact Nat.le_add_left _ _

/-- Even a last chunk of one byte goes beyond what the others hold at least. -/
theorem Packed.lt_size (h : Packed chain) (hfilled : Filled chain) (hne : chain ≠ []) :
    (chain.length - 1) * Chunk.leastFilled < chain.size := by
  rcases List.eq_nil_or_concat chain with rfl | ⟨front, last, rfl⟩
  · exact absurd rfl hne
  · rw [List.concat_eq_append] at h hfilled ⊢
    have hfront := length_mul_le_size (packed_concat_iff.mp h)
    have hlast := hfilled.length_pos (List.mem_append_right front List.mem_cons_self)
    rw [List.length_append, List.length_singleton, Nat.add_sub_cancel, size_append, size_cons,
      size_nil]
    omega

/-- A chain of no more bytes than `chunks` full chunks has at most one chunk more than that, unless
there are so many that the gaps add up to a chunk. -/
theorem Packed.length_le {chunks : Nat} (h : Packed chain) (hfilled : Filled chain)
    (hfew : chunks * Chunk.capacity ≤ (chunks + 1) * Chunk.leastFilled)
    (hsize : chain.size ≤ chunks * Chunk.capacity) : chain.length ≤ chunks + 1 := by
  by_cases hne : chain = []
  · rw [hne]
    exact Nat.zero_le _
  · have hlt := h.lt_size hfilled hne
    have hmul : (chain.length - 1) * Chunk.leastFilled < (chunks + 1) * Chunk.leastFilled :=
      Nat.lt_of_lt_of_le hlt (Nat.le_trans hsize hfew)
    have hcount := Nat.lt_of_mul_lt_mul_right hmul
    omega

end Chain

namespace Queue

variable {M S : Type} [Supplier M]

/-! ### The chunks of a queue -/

theorem packed_attempt {q : Queue M S} (h : q.chain.Packed) (write : Write) :
    (write.attempt q).2.chain.Packed := by
  rcases write.attempt_grows q with ⟨units, fresh, hunits, -, hgrows⟩ |
    ⟨stored, next, rest, fresh, fault, hunits, -, -, -, hgrows⟩ | ⟨fault, -, hrefused⟩
  · exact hgrows.laid.packed (Write.sized_units hunits) h
  · exact hgrows.laid.packed (List.forall_mem_append.mp (Write.sized_units hunits)).1 h
  · rw [hrefused]
    exact h

theorem WellFormed.packed_rollback {q : Queue M S} (hq : q.WellFormed) (h : q.chain.Packed) :
    q.rollback.chain.Packed := by
  rw [hq.chain_rollback]
  exact h.rollback hq.filled hq.marked

variable [Sink S]

theorem WellFormed.packed_perform {q : Queue M S} (hq : q.WellFormed) (h : q.chain.Packed)
    (operation : Operation) : (q.perform operation).2.chain.Packed := by
  cases operation with
  | startMessage => exact hq.packed_rollback h
  | commit =>
    show q.commit.chain.Packed
    rw [hq.chain_commit]
    exact h.commit
  | clear => exact Chain.packed_nil
  | write write => exact packed_attempt h write
  | pop =>
    show q.pop.2.chain.Packed
    rw [chain_pop]
    exact (hq.packed_rollback h).tail
  | flush =>
    show q.flush.2.chain.Packed
    rw [chain_flush]
    exact Chain.packed_nil
  | recycle chunk => exact h

/-- In every queue that a caller can bring about, the chunks but for the last are nearly full. -/
theorem packed_of_reachable {q : Queue M S} (h : Reachable q) : q.chain.Packed := by
  induction h with
  | new supply sink => exact Chain.packed_nil
  | perform hreachable operation ih =>
    exact (wellFormed_of_reachable hreachable).packed_perform ih operation
  | exchange _ supply sink ih => exact ih

/-! ### The bytes of a queue -/

/-- The number of bytes that an operation stores. -/
def gain (q : Queue M S) : Operation → Nat
  | .write write => (write.attempt q).2.chain.size - q.chain.size
  | _ => 0

/-- The number of bytes that the writes of a run store. -/
def intake (q : Queue M S) : List Operation → Nat
  | [] => 0
  | operation :: rest => q.gain operation + (q.perform operation).2.intake rest

theorem intake_append (q : Queue M S) (before after : List Operation) :
    q.intake (before ++ after) = q.intake before + (q.run before).2.intake after := by
  induction before generalizing q with
  | nil => exact (Nat.zero_add _).symm
  | cons operation before ih =>
    rw [List.cons_append, intake, intake, ih, Nat.add_assoc]
    rfl

omit [Sink S] in
theorem WellFormed.size_rollback_le {q : Queue M S} (h : q.WellFormed) :
    q.rollback.chain.size ≤ q.chain.size := by
  rw [h.chain_rollback, ← Chain.length_bytes, Chain.bytes_rollback, Chain.size_eq_add]
  exact Nat.le_add_right _ _

theorem WellFormed.size_perform_le {q : Queue M S} (h : q.WellFormed) (operation : Operation) :
    (q.perform operation).2.chain.size ≤ q.chain.size + q.gain operation := by
  cases operation with
  | startMessage => exact h.size_rollback_le
  | commit =>
    have hsize : q.commit.chain.size = q.chain.size := by
      rw [h.chain_commit, Chain.size_commit]
    exact Nat.le_of_eq hsize
  | clear => exact Nat.zero_le _
  | write write =>
    show (write.attempt q).2.chain.size ≤
      q.chain.size + ((write.attempt q).2.chain.size - q.chain.size)
    omega
  | pop =>
    show q.pop.2.chain.size ≤ q.chain.size
    rw [chain_pop]
    exact Nat.le_trans (Chain.size_tail_le _) h.size_rollback_le
  | flush =>
    show q.flush.2.chain.size ≤ q.chain.size
    rw [chain_flush]
    exact Nat.zero_le _
  | recycle chunk => exact Nat.le_refl _

/-- A run adds no bytes but those that its writes store. -/
theorem WellFormed.size_run_le {q : Queue M S} (h : q.WellFormed) (operations : List Operation) :
    (q.run operations).2.chain.size ≤ q.chain.size + q.intake operations := by
  induction operations generalizing q with
  | nil => exact Nat.le_refl _
  | cons operation rest ih =>
    have hstep := h.size_perform_le operation
    have hrest := ih (h.perform operation)
    show ((q.perform operation).2.run rest).2.chain.size ≤ _
    rw [intake]
    omega

/-! ### The thresholds -/

omit [Supplier M] [Sink S] in
/-- Counting stops at the top of 64 bits, where every threshold is long exceeded. -/
theorem lt_projected_iff {q : Queue M S} {limit : Nat} (hlimit : limit < UInt64.size - 1)
    (more : UInt64) : limit < q.projected more ↔ limit < q.occupied + more.toNat := by
  rw [projected]
  omega

/-- As long as a run stores no more bytes than there are up to the threshold, the chunks stay few.
-/
theorem chunkCount_run_le {q : Queue M S} (h : Reachable q) {chunks more : Nat}
    (hfew : chunks * Chunk.capacity ≤ (chunks + 1) * Chunk.leastFilled)
    (hbelow : q.chain.size + more ≤ chunks * Chunk.capacity) {operations before : List Operation}
    (hintake : q.intake operations ≤ more) (hbefore : before <+: operations) :
    (q.run before).2.chunkCount ≤ chunks + 1 := by
  obtain ⟨after, rfl⟩ := hbefore
  have hq := wellFormed_of_reachable h
  have hsize := hq.size_run_le before
  rw [intake_append] at hintake
  have hpacked := packed_of_reachable (h.run before)
  exact hpacked.length_le (hq.run before).filled hfew (by omega)

/-- How full the chunks are, and what the thresholds then say about their number. -/
structure Compact (q : Queue M S) : Prop where
  filled : ∀ chunk ∈ q.chain.dropLast, 16361 ≤ chunk.length
  count_lt : q.chain ≠ [] → (q.chunkCount - 1) * 16361 < q.occupied
  -- The thresholds compare exact sums.
  early_iff : ∀ more, q.flushesEarly more = true ↔ 65536 < q.chain.size + more.toNat
  block_iff : ∀ more, q.flushBlocks more = true ↔ 262144 < q.chain.size + more.toNat
  -- Below them the chunks stay few, at every point of a run that stores no more than announced.
  early_count : ∀ more, q.flushesEarly more = false → ∀ operations,
    q.intake operations ≤ more.toNat → ∀ before, before <+: operations →
      (q.run before).2.chunkCount ≤ 5
  block_count : ∀ more, q.flushBlocks more = false → ∀ operations,
    q.intake operations ≤ more.toNat → ∀ before, before <+: operations →
      (q.run before).2.chunkCount ≤ 17

/-- **Bounded waste.** In every queue that a caller can bring about, the chunks but for the last are
nearly full, so that the thresholds on bytes bound the number of chunks. -/
theorem compact_of_reachable {q : Queue M S} (h : Reachable q) : q.Compact := by
  have hq := wellFormed_of_reachable h
  have hpacked := packed_of_reachable h
  have hearly : ∀ more, q.flushesEarly more = true ↔ 65536 < q.chain.size + more.toNat := by
    intro more
    rw [← hq.occupied, ← lt_projected_iff (by decide)]
    exact decide_eq_true_iff
  have hblock : ∀ more, q.flushBlocks more = true ↔ 262144 < q.chain.size + more.toNat := by
    intro more
    rw [← hq.occupied, ← lt_projected_iff (by decide)]
    exact decide_eq_true_iff
  exact
    { filled := hpacked
      count_lt := by
        intro hne
        rw [hq.occupied]
        exact hpacked.lt_size hq.filled hne
      early_iff := hearly
      block_iff := hblock
      early_count := by
        intro more hfalse operations hintake before hbefore
        have hbelow := Nat.not_lt.mp (mt (hearly more).mpr (Bool.eq_false_iff.mp hfalse))
        exact chunkCount_run_le h (by decide) hbelow hintake hbefore
      block_count := by
        intro more hfalse operations hintake before hbefore
        have hbelow := Nat.not_lt.mp (mt (hblock more).mpr (Bool.eq_false_iff.mp hfalse))
        exact chunkCount_run_le h (by decide) hbelow hintake hbefore }

/-! ### A gap -/

omit [Sink S] in
/-- Bytes that fit one chunk make one chunk of a new queue. -/
theorem putBytes_new {supply supply' : M} {sink : S} {supplied : Chunk} {bytes : List UInt8}
    (hacquire : Supplier.acquire supply = (.ok supplied, supply')) (hne : bytes ≠ [])
    (hfits : bytes.length ≤ Chunk.capacity) :
    (new supply sink).putBytes bytes =
      (.ok (),
        { new supply' sink with
          chain := [Chunk.empty.append bytes]
          cursor := some 0
          occupied := bytes.length
          counters := { chunksAcquired := 1 } }) := by
  have haccepts : Chunk.empty.accepts bytes = bytes.length := by
    rw [Chunk.accepts, Chunk.room_empty]
    exact Nat.min_eq_left (by rwa [show Element.width UInt8 = 1 from rfl, Nat.div_one])
  have hfill : Chunk.empty.fill bytes = Chunk.empty.append bytes := by
    rw [Chunk.fill, haccepts, List.take_length]
    rfl
  show (new supply sink).spill bytes = _
  rw [spill_of_ne_nil hne, haccepts, List.drop_length, spill_nil, Attempt.andThen_done,
    link_of_supplied hacquire, hfill]
  simp [new, Counters.countAcquired]

/-- Announces more than a compact header can. -/
def longHeader : Header where
  command := 4
  payloadSize := 0x10000
  dataType := 0
  count := 1
  channel := 0
  parameter := 0

/-- Behind 16361 bytes there is no room for an extended header. -/
theorem compact_of_reachable_gap :
    ∃ q : Queue Shelf Transcript, Reachable q ∧ q.Compact ∧
      q.chain.map Chunk.length = [16361, 24] := by
  obtain ⟨bytes, hbytes⟩ : ∃ bytes : List UInt8, bytes.length = 16361 :=
    ⟨List.replicate 16361 0, List.length_replicate⟩
  have hne : bytes ≠ [] := List.length_pos_iff.mp (by omega)
  have hfits : bytes.length ≤ Chunk.capacity := by
    rw [hbytes]
    decide
  have hreachable : Reachable (new ({} : Shelf) ({} : Transcript)) := .new _ _
  have hq := hreachable.run [.write (.bytes bytes), .write (.header longHeader true)]
  refine ⟨_, hq, compact_of_reachable hq, ?_⟩
  have hacquire : Supplier.acquire ({} : Shelf) = (.ok .empty, { calls := 1 }) := rfl
  have hform : longHeader.form true = .ok .extended := rfl
  simp only [run, perform, Write.attempt, putBytes_new hacquire hne hfits,
    putHeader_of_form hform, putUnit, Attempt.counting, Attempt.andThen]
  rw [place_of_lacksRoom, link_of_supplied rfl]
  · simp [hbytes, Header.Form.length]
  · intro tail hlast
    cases hlast
    simp [Chunk.room, hbytes, Header.Form.length, Chunk.capacity]

end Queue

end WireQueue

import WireQueue.Proofs.Bounds

/-! # How an array is cut into chunks

An array tops up the last chunk and goes on in new ones. Where the width of its elements divides the
capacity of a chunk, no byte of a chunk is left over when the next one is begun, and the number of
new chunks follows from the number of bytes alone.

* `chunksOf` — the new chunks that an array takes by itself, and what is in them.
* `Queue.spill_of_granted` — going on in new chunks adds exactly these, if there are as many to be
  had.
* `Queue.Chunked` — all that becomes of the queue. -/

namespace WireQueue

/-- The fewest chunks that hold so many bytes. -/
def Chunk.countFor (bytes : Nat) : Nat := (bytes + (capacity - 1)) / capacity

/-- Bytes fit into a number of chunks if and only if it is not below `Chunk.countFor`. -/
theorem Chunk.countFor_le_iff {bytes chunks : Nat} :
    countFor bytes ≤ chunks ↔ bytes ≤ chunks * capacity := by
  rw [countFor, capacity]
  omega

/-- The supplier after `n` further calls for a chunk, if all of them are granted. It makes no
difference what the chunks hold. -/
def Supplier.granted? {M : Type} [Supplier M] (supply : M) : Nat → Option M
  | 0 => some supply
  | n + 1 =>
    match Supplier.acquire supply with
    | (.ok _, supply) => Supplier.granted? supply n
    | (.error _, _) => none

/-- The chain with more bytes in its last chunk. -/
def Chain.growLast (added : List UInt8) (chain : Chain) : Chain :=
  chain.dropLast ++ (chain.getLast?.map (Chunk.append added)).toList

@[simp] theorem Chain.growLast_nil (chain : Chain) : chain.growLast [] = chain := by
  rcases List.eq_nil_or_concat chain with rfl | ⟨front, last, rfl⟩
  · rfl
  · simp [growLast]

section Chunks

variable {α : Type} [Element α]

/-! ### The chunks of an array -/

/-- Chunks that hold the values, each of them as many as it accepts. -/
def chunksOf (values : List α) : Chain :=
  if _ : values = [] then []
  else Chunk.empty.fill values :: chunksOf (values.drop (Chunk.empty.accepts values))
termination_by values.length
decreasing_by
  next hne =>
    have haccepts := Chunk.accepts_empty_pos hne
    have hlength := List.length_pos_iff.mpr hne
    rw [List.length_drop]
    omega

@[simp] theorem chunksOf_nil : chunksOf ([] : List α) = [] := by
  rw [chunksOf, dif_pos rfl]

theorem chunksOf_of_ne_nil {values : List α} (h : values ≠ []) :
    chunksOf values =
      Chunk.empty.fill values :: chunksOf (values.drop (Chunk.empty.accepts values)) := by
  rw [chunksOf, dif_neg h]

/-- No value is lost or put elsewhere. -/
theorem bytes_chunksOf (values : List α) : (chunksOf values).bytes = Element.encodeAll values := by
  induction values using chunksOf.induct with
  | case1 => simp
  | case2 values hne ih =>
    rw [chunksOf_of_ne_nil hne, Chain.bytes_cons, ih, Chunk.fill, Chunk.bytes_append,
      Chunk.bytes_empty, List.nil_append, ← Element.encodeAll_append, List.take_append_drop]

/-- Nothing is committed in new chunks. -/
theorem committed_of_mem_chunksOf {values : List α} :
    ∀ chunk ∈ chunksOf values, chunk.committed = [] := by
  induction values using chunksOf.induct with
  | case1 => simp
  | case2 values hne ih =>
    rw [chunksOf_of_ne_nil hne]
    exact List.forall_mem_cons.mpr ⟨rfl, ih⟩

theorem size_chunksOf (values : List α) :
    (chunksOf values).size = values.length * Element.width α := by
  rw [← Chain.length_bytes, bytes_chunksOf, Element.length_encodeAll]

/-- A new chunk takes all of the bytes, or as many as it has room for. -/
theorem length_fill_of_dvd (hdvd : Element.width α ∣ Chunk.capacity) (values : List α) :
    (Chunk.empty.fill values).length = min (values.length * Element.width α) Chunk.capacity := by
  rw [BufferQueue.length_fill_empty, Chunk.accepts, Chunk.room_empty, ← Nat.mul_min_mul_right,
    Nat.div_mul_cancel hdvd]

theorem length_drop_accepts (hdvd : Element.width α ∣ Chunk.capacity) (values : List α) :
    (values.drop (Chunk.empty.accepts values)).length * Element.width α =
      values.length * Element.width α - Chunk.capacity := by
  rw [List.length_drop, Nat.sub_mul, ← BufferQueue.length_fill_empty, length_fill_of_dvd hdvd]
  omega

/-- **The number of chunks.** There are no more of them than the bytes need. -/
theorem length_chunksOf (hdvd : Element.width α ∣ Chunk.capacity) (values : List α) :
    (chunksOf values).length = Chunk.countFor (values.length * Element.width α) := by
  induction values using chunksOf.induct with
  | case1 => simp [Chunk.countFor, Chunk.capacity]
  | case2 values hne ih =>
    have hpos : 0 < values.length * Element.width α :=
      Nat.mul_pos (List.length_pos_iff.mpr hne) Element.width_pos
    rw [chunksOf_of_ne_nil hne, List.length_cons, ih, length_drop_accepts hdvd]
    rw [Chunk.countFor, Chunk.countFor, Chunk.capacity]
    omega

theorem length_of_mem_chunksOf (hdvd : Element.width α ∣ Chunk.capacity) {values : List α} :
    ∀ chunk ∈ chunksOf values, 0 < chunk.length ∧ chunk.length ≤ Chunk.capacity := by
  induction values using chunksOf.induct with
  | case1 => simp
  | case2 values hne ih =>
    have hpos : 0 < values.length * Element.width α :=
      Nat.mul_pos (List.length_pos_iff.mpr hne) Element.width_pos
    rw [chunksOf_of_ne_nil hne]
    refine List.forall_mem_cons.mpr ⟨?_, ih⟩
    rw [length_fill_of_dvd hdvd, Chunk.capacity]
    omega

/-- **All chunks but the last are full.** There is another chunk only behind a full one. -/
theorem length_of_mem_dropLast_chunksOf (hdvd : Element.width α ∣ Chunk.capacity)
    {values : List α} : ∀ chunk ∈ (chunksOf values).dropLast, chunk.length = Chunk.capacity := by
  induction values using chunksOf.induct with
  | case1 => simp
  | case2 values hne ih =>
    rw [chunksOf_of_ne_nil hne]
    by_cases hrest : values.drop (Chunk.empty.accepts values) = []
    · simp [hrest]
    · have hmore : 0 < values.length * Element.width α - Chunk.capacity := by
        rw [← length_drop_accepts hdvd]
        exact Nat.mul_pos (List.length_pos_iff.mpr hrest) Element.width_pos
      have hnext : chunksOf (values.drop (Chunk.empty.accepts values)) ≠ [] := by
        rw [chunksOf_of_ne_nil hrest]
        exact List.cons_ne_nil _ _
      rw [List.dropLast_cons_of_ne_nil hnext]
      refine List.forall_mem_cons.mpr ⟨?_, ih⟩
      rw [length_fill_of_dvd hdvd]
      omega

end Chunks

namespace Queue

variable {M S : Type} [Supplier M] {α : Type} [Element α]

/-! ### Going on in new chunks -/

/-- The queue with further chunks, which leave the supplier as `supply`. -/
def linkAll (fresh : Chain) (supply : M) (q : Queue M S) : Queue M S :=
  { q with
    supply
    chain := q.chain ++ fresh
    cursor := if fresh.isEmpty then q.cursor else q.cursor.or (some q.chain.length)
    occupied := q.occupied + fresh.size
    counters := { q.counters with chunksAcquired := q.counters.chunksAcquired + fresh.length } }

omit [Supplier M] in
theorem linkAll_nil (q : Queue M S) : q.linkAll [] q.supply = q := by
  simp [linkAll]

/-- Where as many chunks are to be had, they are all that is added. -/
theorem spill_of_granted {q : Queue M S} {values : List α} {supply : M}
    (hgranted : Supplier.granted? q.supply (chunksOf values).length = some supply) :
    q.spill values = (.ok (), q.linkAll (chunksOf values) supply) := by
  induction values using chunksOf.induct generalizing q with
  | case1 =>
    rw [chunksOf_nil] at hgranted ⊢
    cases hgranted
    rw [spill_nil, linkAll_nil]
    rfl
  | case2 values hne ih =>
    rw [chunksOf_of_ne_nil hne] at hgranted ⊢
    rw [spill_of_ne_nil hne]
    rcases hacquire : Supplier.acquire q.supply with ⟨outcome, next⟩
    cases outcome with
    | error fault =>
      simp only [List.length_cons, Supplier.granted?, hacquire] at hgranted
      cases hgranted
    | ok supplied =>
      simp only [List.length_cons, Supplier.granted?, hacquire] at hgranted
      simp only [Attempt.andThen, link_of_supplied hacquire]
      rw [ih hgranted]
      -- The first chunk has opened a message, if none was open.
      cases hcursor : q.cursor <;>
        simp [linkAll, hcursor, Counters.countAcquired, Nat.add_assoc, Nat.add_comm 1]

/-! ### Topping up the last chunk -/

/-- Room in the last chunk. An empty chain has none. -/
def tailRoom (q : Queue M S) : Nat := (q.chain.getLast?.map Chunk.room).getD 0

/-- How many of the values there is room for in the last chunk. -/
def topping (values : List α) (q : Queue M S) : Nat :=
  min values.length (q.tailRoom / Element.width α)

/-- The queue with as many of the values in its last chunk as there is room for. -/
def topUp (values : List α) (q : Queue M S) : Queue M S :=
  { q with
    chain := q.chain.growLast (Element.encodeAll (values.take (q.topping values)))
    cursor :=
      if q.topping values = 0 then q.cursor else q.cursor.or (some (q.chain.length - 1))
    occupied := q.occupied + q.topping values * Element.width α }

omit [Supplier M] in
theorem topping_of_last {q : Queue M S} {last : Chunk} (hlast : q.chain.getLast? = some last)
    (values : List α) : q.topping values = last.accepts values := by
  rw [topping, tailRoom, hlast]
  rfl

omit [Supplier M] in
theorem topping_of_nil {q : Queue M S} (hchain : q.chain = []) (values : List α) :
    q.topping values = 0 := by
  rw [topping, tailRoom, hchain]
  simp

omit [Supplier M] in
/-- Where there is no room for a value, the last chunk stays as it is. -/
theorem topUp_of_topping_eq_zero {q : Queue M S} {values : List α} (hzero : q.topping values = 0) :
    q.topUp values = q := by
  simp [topUp, hzero, Chain.growLast_nil]

omit [Supplier M] in
theorem topUp_of_last {q : Queue M S} {last : Chunk} {values : List α}
    (hlast : q.chain.getLast? = some last) (hsome : last.accepts values ≠ 0) :
    q.topUp values =
      q.replaceTail (last.fill values) (last.accepts values * Element.width α) := by
  have hgrown : q.chain.growLast (Element.encodeAll (values.take (last.accepts values))) =
      q.chain.replaceLast (last.fill values) := by
    rw [Chain.growLast, hlast]
    rfl
  simp only [topUp, topping_of_last hlast, hgrown, if_neg hsome]
  rfl

/-- An array tops up the last chunk, and the rest of it goes on in new ones. -/
theorem spread_eq_spill (values : List α) (q : Queue M S) :
    q.spread values = (q.topUp values).spill (values.drop (q.topping values)) := by
  cases hlast : q.chain.getLast? with
  | none =>
    have hzero := topping_of_nil (List.getLast?_eq_none_iff.mp hlast) values
    rw [topUp_of_topping_eq_zero hzero, hzero]
    simp only [spread, hlast, List.drop_zero]
  | some last =>
    by_cases hzero : last.accepts values = 0
    · rw [topUp_of_topping_eq_zero ((topping_of_last hlast values).trans hzero),
        topping_of_last hlast, hzero]
      simp only [spread, hlast, if_pos hzero, List.drop_zero]
    · rw [topUp_of_last hlast hzero, topping_of_last hlast]
      simp only [spread, hlast, if_neg hzero]

/-! ### The whole array -/

/-- `q'` is `q` with the values in its last chunk, as far as there is room, and then in the chunks
`fresh`. -/
structure Chunked (values : List α) (fresh : Chain) (supply : M) (q q' : Queue M S) : Prop where
  chain : q'.chain =
    q.chain.growLast (Element.encodeAll (values.take (q.topping values))) ++ fresh
  /-- As many chunks as the rest of the bytes need. -/
  count : fresh.length =
    Chunk.countFor ((values.length - q.topping values) * Element.width α)
  bytes : fresh.bytes = Element.encodeAll (values.drop (q.topping values))
  full : ∀ chunk ∈ fresh.dropLast, chunk.length = 16384
  bounds : ∀ chunk ∈ fresh, 0 < chunk.length ∧ chunk.length ≤ 16384
  committed : ∀ chunk ∈ fresh, chunk.committed = []
  /-- The first value opens a message where it is stored, unless one is open. -/
  cursor : q'.cursor =
    if values = [] then q.cursor
    else q.cursor.or (some (if q.topping values = 0 then q.chain.length else q.chain.length - 1))
  occupied : q'.occupied = q.occupied + values.length * Element.width α
  supply : q'.supply = supply
  sink : q'.sink = q.sink
  counters : q'.counters =
    { q.counters with chunksAcquired := q.counters.chunksAcquired + fresh.length }

omit [Supplier M] in
theorem topping_le_length (values : List α) (q : Queue M S) : q.topping values ≤ values.length :=
  Nat.min_le_left _ _

omit [Supplier M] in
/-- Where the last chunk takes a value, the message is open already when the first new chunk is
linked. -/
theorem cursor_topUp_linkAll (values : List α) (supply : M) (q : Queue M S) :
    ((q.topUp values).linkAll (chunksOf (values.drop (q.topping values))) supply).cursor =
      if values = [] then q.cursor
      else
        q.cursor.or
          (some (if q.topping values = 0 then q.chain.length else q.chain.length - 1)) := by
  by_cases hnil : values = []
  · subst hnil
    have hzero : q.topping ([] : List α) = 0 := Nat.zero_min _
    simp [linkAll, topUp_of_topping_eq_zero hzero]
  · rw [if_neg hnil]
    by_cases hzero : q.topping values = 0
    · have hfresh : (chunksOf values).isEmpty = false := by
        rw [chunksOf_of_ne_nil hnil]
        rfl
      simp [linkAll, topUp_of_topping_eq_zero hzero, hzero, hfresh]
    · have hopen : (q.topUp values).cursor = q.cursor.or (some (q.chain.length - 1)) :=
        if_neg hzero
      rw [linkAll, if_neg hzero]
      cases hcursor : q.cursor <;> simp [hopen, hcursor]

omit [Supplier M] in
theorem chunked_topUp_linkAll (hdvd : Element.width α ∣ Chunk.capacity) (values : List α)
    (supply : M) (q : Queue M S) :
    Chunked values (chunksOf (values.drop (q.topping values))) supply q
      ((q.topUp values).linkAll (chunksOf (values.drop (q.topping values))) supply) where
  chain := rfl
  count := by rw [length_chunksOf hdvd, List.length_drop]
  bytes := bytes_chunksOf _
  full := length_of_mem_dropLast_chunksOf hdvd
  bounds := length_of_mem_chunksOf hdvd
  committed := committed_of_mem_chunksOf
  cursor := cursor_topUp_linkAll values supply q
  occupied := by
    have hsum : q.topping values + (values.length - q.topping values) = values.length :=
      Nat.add_sub_cancel' (topping_le_length values q)
    simp only [linkAll, topUp, size_chunksOf, List.length_drop]
    rw [Nat.add_assoc, ← Nat.add_mul, hsum]
  supply := rfl
  sink := rfl
  counters := rfl

theorem width_dvd_capacity : ∀ width ∈ [1, 2, 4, 8], width ∣ Chunk.capacity := by
  decide

variable [Sink S]

/-- **An array in chunks.** The last chunk takes as many of the values as there is room for, and the
rest goes into the fewest chunks that hold it, all of them full but the last one. It is enough that
so many chunks are to be had; what they hold makes no difference. The loop that does this in place
comes to its end. An empty chain takes the fewest chunks for the whole array, and no value leaves
the queue as it was. -/
theorem spread_chunked {q : Queue M S} (h : Reachable q) (hwidth : Element.width α ∈ [1, 2, 4, 8])
    (values : List α) {supply : M}
    (hgranted : Supplier.granted? q.supply
      (Chunk.countFor ((values.length - q.topping values) * Element.width α)) = some supply) :
    ∃ (fresh : Chain) (q' : Queue M S),
      q.spread values = (.ok (), q') ∧
      BufferQueue.spread? values (BufferQueue.ofQueue q) = some (.ok (), BufferQueue.ofQueue q') ∧
      Chunked values fresh supply q q' ∧
      (q.chain = [] → q'.chunkCount = Chunk.countFor (values.length * Element.width α)) ∧
      (values = [] → q' = q) := by
  have hdvd := width_dvd_capacity _ hwidth
  let fresh := chunksOf (values.drop (q.topping values))
  let q' := (q.topUp values).linkAll fresh supply
  have hchunked : Chunked values fresh supply q q' := chunked_topUp_linkAll hdvd values supply q
  rw [← hchunked.count] at hgranted
  have hspread : q.spread values = (.ok (), q') := by
    rw [spread_eq_spill]
    exact spill_of_granted hgranted
  refine ⟨fresh, q', hspread, ?_, hchunked, ?_, ?_⟩
  · have hplace := (BufferQueue.follows_spread values q (wellFormed_of_reachable h)).1
    rwa [hspread] at hplace
  · intro hchain
    have hzero := topping_of_nil hchain values
    rw [chunkCount, hchunked.chain, hchain, hzero, List.take_zero, Element.encodeAll_nil,
      Chain.growLast_nil, List.nil_append, hchunked.count, hzero, Nat.sub_zero]
  · intro hnil
    subst hnil
    have hdone : q.spread ([] : List α) = (.ok (), q) := by
      rw [spread_eq_putUnits]
      rfl
    exact (congrArg Prod.snd (hspread.symm.trans hdone))

/-- A last chunk with room for 2047 of 4096 numbers, and two further chunks, which come full. -/
theorem spread_chunked_dirty :
    ∃ (q : Queue Shelf Transcript) (values : List Binary64) (fresh : Chain)
      (q' : Queue Shelf Transcript),
      Reachable q ∧ q.tailRoom = 16382 ∧ values.length = 4096 ∧ q.topping values = 2047 ∧
      q.supply.chunks.map Chunk.length = [16384, 16384] ∧
      q.spread values = (.ok (), q') ∧ fresh.length = 2 ∧ Chunked values fresh q'.supply q q' := by
  obtain ⟨old, hold⟩ : ∃ bytes : List UInt8, bytes.length = 16384 :=
    ⟨List.replicate 16384 1, List.length_replicate⟩
  obtain ⟨values, hvalues⟩ : ∃ values : List Binary64, values.length = 4096 :=
    ⟨List.replicate 4096 ⟨0⟩, List.length_replicate⟩
  let shelf : Shelf := { chunks := [⟨old, []⟩, ⟨[], old⟩] }
  let short : Queue Shelf Transcript :=
    ((Queue.new ({} : Shelf) ({} : Transcript)).perform (.write (.word16 5))).2
  let q : Queue Shelf Transcript := { short with supply := shelf }
  have hreachable : Reachable q :=
    Reachable.exchange (.perform (.new _ _) (.write (.word16 5))) shelf short.sink
  have hroom : q.tailRoom = 16382 := rfl
  have htopping : q.topping values = 2047 := by
    rw [topping, hroom, hvalues]
    rfl
  have hcount :
      Chunk.countFor ((values.length - q.topping values) * Element.width Binary64) = 2 := by
    rw [htopping, hvalues]
    rfl
  have hgranted : Supplier.granted? q.supply
      (Chunk.countFor ((values.length - q.topping values) * Element.width Binary64)) =
        some { shelf with calls := 2, chunks := [] } := by
    rw [hcount]
    rfl
  obtain ⟨fresh, q', hspread, -, hchunked, -, -⟩ :=
    spread_chunked hreachable (by decide) values hgranted
  have hlengths : q.supply.chunks.map Chunk.length = [16384, 16384] := by
    simp [q, shelf, Chunk.length, hold]
  rw [← hchunked.supply] at hchunked
  exact ⟨q, values, fresh, q', hreachable, hroom, hvalues, htopping, hlengths, hspread,
    hchunked.count.trans hcount, hchunked⟩

end Queue

end WireQueue

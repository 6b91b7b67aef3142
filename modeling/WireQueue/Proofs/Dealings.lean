import WireQueue.Proofs.Outflow
import WireQueue.Proofs.Refusal

/-! # What passes between a queue and its supplier

A write may ask the supplier for chunks and gives none back. Every other operation asks for none and
gives back the chunks that it has emptied, and those that come in from outside: recycled by the
caller, or returned by the sink. `Queue.GivesBack` says what this does to the chain and to the
counters.

* `Queue.deals_perform` — in one operation a queue asks for chunks or gives chunks back.
* `Queue.supply_perform` — what the supplier preserves in each call, it preserves in each operation.
* `Write.refused_of_exhausted` — a write that runs out of chunks has just been refused one. -/

namespace WireQueue

/-! ### What a sink does with chunks -/

namespace Sink

variable {S : Type} [Sink S]

/-- The chunks that the sink keeps, of those that it is given. -/
def kept (sink : S) : List Chunk → List Chunk
  | [] => []
  | chunk :: chunks =>
    match Sink.deliver sink chunk with
    | (none, sink) => chunk :: kept sink chunks
    | (some _, sink) => kept sink chunks

/-- The chunks that the sink gives back, for those that it is given. -/
def givenBack (sink : S) : List Chunk → List Chunk
  | [] => []
  | chunk :: chunks =>
    match Sink.deliver sink chunk with
    | (none, sink) => givenBack sink chunks
    | (some returned, sink) => returned :: givenBack sink chunks

theorem givenBack_cons (sink : S) (chunk : Chunk) (chunks : List Chunk) :
    givenBack sink (chunk :: chunks) =
      (Sink.deliver sink chunk).1.toList ++ givenBack (Sink.deliver sink chunk).2 chunks := by
  rcases hdeliver : Sink.deliver sink chunk with ⟨returned, next⟩
  cases returned <;> simp [givenBack, hdeliver]

/-- For each chunk the sink either keeps it or gives one back. -/
theorem length_kept_add_length_givenBack (sink : S) (chunks : List Chunk) :
    (kept sink chunks).length + (givenBack sink chunks).length = chunks.length := by
  induction chunks generalizing sink with
  | nil => rfl
  | cons chunk chunks ih =>
    rcases hdeliver : Sink.deliver sink chunk with ⟨returned, next⟩
    have hrest := ih next
    cases returned <;> simp only [kept, givenBack, hdeliver, List.length_cons] <;> omega

end Sink

/-! ### What a supplier preserves -/

namespace Supplier

variable {M : Type} [Supplier M] {P : M → Prop}

theorem Drawn.preserves (hacquire : ∀ supply, P supply → P (Supplier.acquire supply).2)
    {supply supply' : M} {n : Nat} (hdrawn : Drawn supply n supply') (h : P supply) :
    P supply' := by
  induction hdrawn with
  | refl => exact h
  | granted _ hcall ih | refused _ hcall ih =>
    have hnext := hacquire _ ih
    rwa [hcall] at hnext

theorem reclaimAll_preserves
    (hreclaim : ∀ supply chunk, P supply → P (Supplier.reclaim supply chunk))
    {supply : M} (chunks : List Chunk) (h : P supply) :
    P (chunks.foldl Supplier.reclaim supply) := by
  induction chunks generalizing supply with
  | nil => exact h
  | cons chunk chunks ih => exact ih (hreclaim supply chunk h)

end Supplier

theorem Chain.length_rollback_add_length_emptied (chain : Chain) :
    chain.rollback.length + chain.emptied.length = chain.length := by
  induction chain with
  | nil => rfl
  | cons chunk chain ih =>
    simp only [Chain.rollback, Chain.emptied, List.map_cons, List.filter_cons] at *
    cases chunk.rollback.isEmpty <;> simp <;> omega

/-- A rollback is counted in messages and bytes, not in chunks. -/
theorem Counters.chunks_countRollback (dropped : Nat) (counters : Counters) :
    (counters.countRollback dropped).chunksAcquired = counters.chunksAcquired ∧
      (counters.countRollback dropped).chunksDrained = counters.chunksDrained ∧
      (counters.countRollback dropped).chunksRecycled = counters.chunksRecycled := by
  unfold countRollback
  split
  · exact ⟨rfl, rfl, rfl⟩
  · exact ⟨rfl, rfl, rfl⟩

namespace Queue

variable {M S : Type} [Supplier M]

/-! ### Operations that give chunks back -/

/-- `q'` is `q` after `drained` chunks were taken off the chain, `released` more went back from the
chain to the supplier, and `recycled` came back to it from outside. -/
structure GivesBack (drained released recycled : Nat) (q q' : Queue M S) : Prop where
  supply : ∃ chunks : List Chunk, chunks.length = released + recycled ∧
    q'.supply = chunks.foldl Supplier.reclaim q.supply
  chunkCount : q.chunkCount = q'.chunkCount + drained + released
  acquired : q'.counters.chunksAcquired = q.counters.chunksAcquired
  drained : q'.counters.chunksDrained = q.counters.chunksDrained + drained
  recycled : q'.counters.chunksRecycled = q.counters.chunksRecycled + recycled

/-- A rollback is followed by something that gives no more of the chain back. -/
theorem GivesBack.trans {released drained recycled : Nat} {q q' q'' : Queue M S}
    (h : GivesBack 0 released 0 q q') (h' : GivesBack drained 0 recycled q' q'') :
    GivesBack drained released recycled q q'' where
  supply := by
    obtain ⟨chunks, hlength, hsupply⟩ := h.supply
    obtain ⟨chunks', hlength', hsupply'⟩ := h'.supply
    refine ⟨chunks ++ chunks', ?_, ?_⟩
    · rw [List.length_append]
      omega
    · rw [List.foldl_append, ← hsupply, hsupply']
  chunkCount := by
    have hfirst := h.chunkCount
    have hrest := h'.chunkCount
    omega
  acquired := h'.acquired.trans h.acquired
  drained := by rw [h'.drained, h.drained, Nat.add_zero]
  recycled := by rw [h'.recycled, h.recycled, Nat.add_zero]

theorem givesBack_rollback (q : Queue M S) : ∃ released, GivesBack 0 released 0 q q.rollback := by
  cases hcursor : q.cursor with
  | none =>
    rw [rollback_of_cursor_eq_none hcursor]
    exact ⟨0, ⟨[], rfl, rfl⟩, rfl, rfl, rfl, rfl⟩
  | some first =>
    let touched := q.chain.drop first
    have htouched := Chain.length_rollback_add_length_emptied touched
    obtain ⟨hacquired, hdrained, hrecycled⟩ :=
      Counters.chunks_countRollback (Chain.uncommitted touched).length q.counters
    refine ⟨(Chain.emptied touched).length, ?_⟩
    simp only [rollback, hcursor]
    exact
      { supply := ⟨Chain.emptied touched, rfl, rfl⟩
        chunkCount := by
          show q.chain.length =
            (q.chain.take first ++ Chain.rollback touched).length + 0 +
              (Chain.emptied touched).length
          rw [List.length_append, Nat.add_zero, Nat.add_assoc, htouched, ← List.length_append,
            List.take_append_drop]
        acquired := hacquired
        drained := hdrained
        recycled := hrecycled }

theorem givesBack_startMessage (q : Queue M S) :
    ∃ released, GivesBack 0 released 0 q q.startMessage := by
  obtain ⟨released, h⟩ := givesBack_rollback q
  exact ⟨released, h.supply, h.chunkCount, h.acquired, h.drained, h.recycled⟩

omit [Supplier M] in
theorem chunkCount_commit (q : Queue M S) : q.commit.chunkCount = q.chunkCount := by
  cases hcursor : q.cursor with
  | none => simp only [commit, hcursor]
  | some first =>
    simp only [commit, hcursor, chunkCount, Chain.commit, List.length_append, List.length_map]
    rw [← List.length_append, List.take_append_drop]

theorem givesBack_commit (q : Queue M S) : GivesBack 0 0 0 q q.commit where
  supply := by
    refine ⟨[], rfl, ?_⟩
    cases hcursor : q.cursor <;> simp [commit, hcursor]
  chunkCount := (chunkCount_commit q).symm
  acquired := by cases hcursor : q.cursor <;> simp [commit, hcursor, Counters.countCommit]
  drained := by cases hcursor : q.cursor <;> simp [commit, hcursor, Counters.countCommit]
  recycled := by cases hcursor : q.cursor <;> simp [commit, hcursor, Counters.countCommit]

theorem givesBack_clear (q : Queue M S) : GivesBack 0 q.chunkCount 0 q q.clear where
  supply := ⟨q.chain, rfl, rfl⟩
  chunkCount := (Nat.zero_add _).symm
  acquired := rfl
  drained := rfl
  recycled := rfl

theorem givesBack_recycle (q : Queue M S) (chunk : Chunk) :
    GivesBack 0 0 1 q (q.recycle chunk) where
  supply := ⟨[chunk], rfl, rfl⟩
  chunkCount := rfl
  acquired := rfl
  drained := rfl
  recycled := rfl

variable [Sink S]

theorem givesBack_pop (q : Queue M S) :
    ∃ released, GivesBack (q.leaving .pop).length released 0 q q.pop.2 := by
  obtain ⟨released, hrollback⟩ := givesBack_rollback q
  refine ⟨released, hrollback.trans ?_⟩
  rw [leaving_pop, pop_eq]
  cases hchain : q.rollback.chain with
  | nil => exact ⟨⟨[], rfl, rfl⟩, rfl, rfl, rfl, rfl⟩
  | cons chunk rest =>
    refine ⟨⟨[], rfl, rfl⟩, ?_, rfl, rfl, rfl⟩
    rw [chunkCount, hchain]
    rfl

/-! ### Chunks that come back from the sink -/

theorem supply_dispatch (q : Queue M S) (chunk : Chunk) :
    (q.dispatch chunk).supply =
      (Sink.deliver q.sink chunk).1.toList.foldl Supplier.reclaim q.supply := by
  rcases hdeliver : Sink.deliver q.sink chunk with ⟨returned, sink⟩
  cases returned with
  | none => simp only [dispatch, depart, hdeliver]; rfl
  | some returned => simp only [dispatch, depart, hdeliver]; rfl

theorem recycled_dispatch (q : Queue M S) (chunk : Chunk) :
    (q.dispatch chunk).counters.chunksRecycled =
      q.counters.chunksRecycled + (Sink.deliver q.sink chunk).1.toList.length := by
  rcases hdeliver : Sink.deliver q.sink chunk with ⟨returned, sink⟩
  cases returned with
  | none => simp only [dispatch, depart, hdeliver]; rfl
  | some returned => simp only [dispatch, depart, hdeliver]; rfl

theorem supply_dispatchAll (q : Queue M S) (chunks : Chain) :
    (chunks.foldl dispatch q).supply =
      (Sink.givenBack q.sink chunks).foldl Supplier.reclaim q.supply := by
  induction chunks generalizing q with
  | nil => rfl
  | cons chunk chunks ih =>
    rw [List.foldl_cons, ih, supply_dispatch, sink_dispatch, Sink.givenBack_cons,
      List.foldl_append]

theorem recycled_dispatchAll (q : Queue M S) (chunks : Chain) :
    (chunks.foldl dispatch q).counters.chunksRecycled =
      q.counters.chunksRecycled + (Sink.givenBack q.sink chunks).length := by
  induction chunks generalizing q with
  | nil => rfl
  | cons chunk chunks ih =>
    rw [List.foldl_cons, ih, recycled_dispatch, sink_dispatch, Sink.givenBack_cons,
      List.length_append, Nat.add_assoc]

/-- What neither a drained nor a recycled chunk changes in the counters stays as it is. -/
theorem counters_dispatchAll {α : Type} {view : Counters → α}
    (hdrained : ∀ bytes counters, view (Counters.countDrained bytes counters) = view counters)
    (hrecycled : ∀ counters, view (Counters.countRecycled counters) = view counters)
    (q : Queue M S) (chunks : Chain) :
    view (chunks.foldl dispatch q).counters = view q.counters := by
  induction chunks generalizing q with
  | nil => rfl
  | cons chunk chunks ih =>
    have hdepart : view (q.depart chunk).counters = view q.counters := hdrained _ _
    rw [List.foldl_cons, ih, ← hdepart]
    simp only [dispatch]
    split
    · rfl
    · exact hrecycled _

theorem givesBack_flush (q : Queue M S) :
    ∃ released, GivesBack (q.leaving .flush).length released
      (Sink.givenBack q.sink q.rollback.chain).length q q.flush.2 := by
  obtain ⟨released, hrollback⟩ := givesBack_rollback q
  refine ⟨released, hrollback.trans ?_⟩
  have hdrains := drains_dispatchAll { q.rollback with chain := [] } q.rollback.chain
  rw [leaving_flush, flush_eq, ← sink_rollback q]
  exact
    { supply := ⟨_, (Nat.zero_add _).symm, supply_dispatchAll _ _⟩
      chunkCount := by rw [chunkCount, chunkCount, chain_dispatchAll]; simp
      acquired := counters_dispatchAll (fun _ _ => rfl) (fun _ => rfl) _ _
      drained := hdrains.chunks
      recycled := recycled_dispatchAll _ _ }

/-! ### One operation -/

/-- The chunks that come back from outside in an operation. -/
def returned (q : Queue M S) : Operation → List Chunk
  | .recycle chunk => [chunk]
  | .flush => Sink.givenBack q.sink q.rollback.chain
  | _ => []

/-- **One or the other.** In one operation a queue asks for chunks or gives chunks back. -/
theorem deals_perform (q : Queue M S) (operation : Operation) :
    (∃ write units fresh, operation = .write write ∧
        q.Grows units fresh (q.perform operation).2) ∨
      ∃ released, GivesBack (q.leaving operation).length released (q.returned operation).length q
        (q.perform operation).2 := by
  cases operation with
  | write write =>
    obtain ⟨units, fresh, hgrows⟩ := grows_attempt write q
    exact Or.inl ⟨write, units, fresh, rfl, hgrows⟩
  | startMessage => exact Or.inr (givesBack_startMessage q)
  | commit => exact Or.inr ⟨0, givesBack_commit q⟩
  | clear => exact Or.inr ⟨q.chunkCount, givesBack_clear q⟩
  | pop => exact Or.inr (givesBack_pop q)
  | flush => exact Or.inr (givesBack_flush q)
  | recycle chunk => exact Or.inr ⟨0, givesBack_recycle q chunk⟩

/-- What the supplier preserves in each call, it preserves in each operation. -/
theorem supply_perform {P : M → Prop}
    (hacquire : ∀ supply, P supply → P (Supplier.acquire supply).2)
    (hreclaim : ∀ supply chunk, P supply → P (Supplier.reclaim supply chunk)) {q : Queue M S}
    (h : P q.supply) (operation : Operation) : P (q.perform operation).2.supply := by
  rcases q.deals_perform operation with ⟨_, _, _, -, hgrows⟩ | ⟨_, hback⟩
  · exact hgrows.supply.preserves hacquire h
  · obtain ⟨chunks, -, hsupply⟩ := hback.supply
    rw [hsupply]
    exact Supplier.reclaimAll_preserves hreclaim chunks h

/-! ### The call that failed -/

end Queue

/-- A write that runs out of chunks has just been refused one, with the same words. -/
theorem Write.refused_of_exhausted {M S : Type} [Supplier M] {write : Write} {q : Queue M S}
    {shortage : Shortage} (h : (write.attempt q).1 = .error (.exhausted shortage)) :
    Supplier.RefusedWith (.exhausted shortage) (write.attempt q).2.supply := by
  rcases Write.attempt_error_cases h with ⟨_, _, _, _, -, hsupplier, -, -⟩ | ⟨hunits, -⟩
  · exact hsupplier
  · exact absurd hunits (write.units_ne_exhausted shortage)

end WireQueue

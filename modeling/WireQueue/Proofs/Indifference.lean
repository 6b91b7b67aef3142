import WireQueue.Proofs.Logging
import WireQueue.Supplier.Pool
import WireQueue.Supplier.Shelf

/-! # What a supplier and a sink cannot change

A supplier may hand out chunks full of old bytes, and a sink may keep chunks or give others back.
Two queues over different suppliers and different sinks still do the same, as long as the one
supplier refuses a chunk where the other one does. Each of them is followed with a log: `InStep`
says that both queues look the same and that their suppliers have granted and refused the same calls
so far.

* `Queue.Parallel` — writes that keep two queues in step. Only here chunks are asked for: a supplied
  chunk is wiped, so that what decides is whether there is one.
* `Queue.Alike.perform` — every other operation does the same to queues that look the same.
* `Queue.InStep.run` — so two runs stay in step for as long as the outcomes of the calls concur. -/

namespace WireQueue

/-! ### Outcomes that concur -/

/-- As far as both lists go, they say the same. -/
def Concur {α : Type} (first second : List α) : Prop :=
  ∀ (i : Nat) (a b : α), first[i]? = some a → second[i]? = some b → a = b

namespace Concur

variable {α : Type} {first second : List α}

theorem refl (list : List α) : Concur list list := by
  intro i a b ha hb
  rw [ha] at hb
  exact Option.some.inj hb

/-- Lists that concur do so in their beginnings. -/
theorem of_isPrefix {first' second' : List α} (h : Concur first second) (hfirst : first' <+: first)
    (hsecond : second' <+: second) : Concur first' second' := by
  obtain ⟨_, rfl⟩ := hfirst
  obtain ⟨_, rfl⟩ := hsecond
  intro i a b ha hb
  apply h i a b
  · rw [List.getElem?_append_left (List.getElem?_eq_some_iff.mp ha).1, ha]
  · rw [List.getElem?_append_left (List.getElem?_eq_some_iff.mp hb).1, hb]

/-- After a common beginning, what comes next is the same. -/
theorem next_eq {a b : α} (h : Concur (first ++ [a]) (first ++ [b])) : a = b :=
  h first.length a b List.getElem?_concat_length List.getElem?_concat_length

end Concur

/-! ### Queues that look the same -/

/-- The counters without the count of recycled chunks, the only one that depends on what a sink
returns. -/
def Counters.unrecycled (counters : Counters) : Counters := { counters with chunksRecycled := 0 }

theorem Counters.unrecycled_countRollback (dropped : Nat) (counters : Counters) :
    (counters.countRollback dropped).unrecycled = counters.unrecycled.countRollback dropped := by
  unfold countRollback
  split <;> rfl

theorem WireUnit.unrecycled_count (unit : WireUnit) (counters : Counters) :
    (unit.count counters).unrecycled = unit.count counters.unrecycled := by
  cases unit <;> rfl

namespace Queue

variable {M M' S S' : Type}

/-- The queues agree in all but the supplier, the sink and the count of recycled chunks. -/
structure Alike (q : Queue M S) (q' : Queue M' S') : Prop where
  chain : q'.chain = q.chain
  cursor : q'.cursor = q.cursor
  occupied : q'.occupied = q.occupied
  counters : q'.counters.unrecycled = q.counters.unrecycled

namespace Alike

variable {q : Queue M S} {q' : Queue M' S'}

theorem replaceTail (h : q.Alike q') (tail : Chunk) (added : Nat) :
    (q.replaceTail tail added).Alike (q'.replaceTail tail added) where
  chain := by rw [Queue.replaceTail, Queue.replaceTail, h.chain]
  cursor := by rw [Queue.replaceTail, Queue.replaceTail, h.chain, h.cursor]
  occupied := by rw [Queue.replaceTail, Queue.replaceTail, h.occupied]
  counters := h.counters

theorem commit (h : q.Alike q') : q.commit.Alike q'.commit := by
  cases hcursor : q.cursor with
  | none =>
    simp only [Queue.commit, hcursor, h.cursor.trans hcursor]
    exact h
  | some first =>
    simp only [Queue.commit, hcursor, h.cursor.trans hcursor]
    exact
      { chain := by rw [h.chain]
        cursor := rfl
        occupied := h.occupied
        counters := congrArg Counters.countCommit h.counters }

theorem depart (h : q.Alike q') (chunk : Chunk) : (q.depart chunk).Alike (q'.depart chunk) where
  chain := h.chain
  cursor := h.cursor
  occupied := congrArg (· - chunk.length) h.occupied
  counters := congrArg (Counters.countDrained chunk.length) h.counters

variable [Supplier M] [Supplier M']

theorem rollback (h : q.Alike q') : q.rollback.Alike q'.rollback := by
  cases hcursor : q.cursor with
  | none =>
    rw [rollback_of_cursor_eq_none hcursor, rollback_of_cursor_eq_none (h.cursor.trans hcursor)]
    exact h
  | some first =>
    simp only [Queue.rollback, hcursor, h.cursor.trans hcursor]
    exact
      { chain := by rw [h.chain]
        cursor := rfl
        occupied := by rw [h.chain, h.occupied]
        counters := by
          rw [Counters.unrecycled_countRollback, Counters.unrecycled_countRollback, h.counters,
            h.chain] }

theorem startMessage (h : q.Alike q') : q.startMessage.Alike q'.startMessage where
  chain := h.rollback.chain
  cursor := by rw [Queue.startMessage, Queue.startMessage, h.rollback.chain]
  occupied := h.rollback.occupied
  counters := h.rollback.counters

theorem pop (h : q.Alike q') : q'.pop.1 = q.pop.1 ∧ q.pop.2.Alike q'.pop.2 := by
  have hrollback := h.rollback
  rw [pop_eq, pop_eq, hrollback.chain]
  refine ⟨rfl, ?_⟩
  cases q.rollback.chain with
  | nil => exact hrollback
  | cons chunk rest =>
    have hrest : Alike { q.rollback with chain := rest } { q'.rollback with chain := rest } :=
      { hrollback with chain := rfl }
    exact hrest.depart chunk

variable [Sink S] [Sink S']

/-- Whatever becomes of a chunk at the sink, the queue only counts it. -/
theorem dispatch (h : q.Alike q') (chunk : Chunk) :
    (q.dispatch chunk).Alike (q'.dispatch chunk) := by
  have hdepart := h.depart chunk
  simp only [Queue.dispatch]
  split <;> split <;> exact ⟨hdepart.chain, hdepart.cursor, hdepart.occupied, hdepart.counters⟩

theorem dispatchAll (h : q.Alike q') (chunks : Chain) :
    (chunks.foldl Queue.dispatch q).Alike (chunks.foldl Queue.dispatch q') := by
  induction chunks generalizing q q' with
  | nil => exact h
  | cons chunk chunks ih => exact ih (h.dispatch chunk)

theorem flush (h : q.Alike q') : q'.flush.1 = q.flush.1 ∧ q.flush.2.Alike q'.flush.2 := by
  have hrollback := h.rollback
  have hemptied : Alike { q.rollback with chain := [] } { q'.rollback with chain := [] } :=
    { hrollback with chain := rfl }
  rw [flush_eq, flush_eq, hrollback.chain]
  exact ⟨rfl, hemptied.dispatchAll _⟩

/-- An operation that asks for no chunk does the same to both queues. -/
theorem perform (h : q.Alike q') {operation : Operation}
    (hwrite : ∀ write, operation ≠ .write write) :
    (q'.perform operation).1 = (q.perform operation).1 ∧
      (q.perform operation).2.Alike (q'.perform operation).2 := by
  cases operation with
  | startMessage => exact ⟨rfl, h.startMessage⟩
  | commit => exact ⟨rfl, h.commit⟩
  | clear => exact ⟨rfl, rfl, rfl, rfl, h.counters⟩
  | write write => exact absurd rfl (hwrite write)
  | pop => exact ⟨congrArg Answer.popped h.pop.1, h.pop.2⟩
  | flush => exact ⟨congrArg Answer.flushed h.flush.1, h.flush.2⟩
  | recycle chunk => exact ⟨rfl, h.chain, h.cursor, h.occupied, h.counters⟩

omit [Sink S] [Sink S'] in
theorem delivered (h : q.Alike q') (operation : Operation) :
    q'.delivered operation = q.delivered operation := by
  cases operation with
  | flush => exact h.rollback.chain
  | _ => rfl

end Alike

/-! ### Outcomes in the log -/

variable [Supplier M] [Supplier M']

/-- Chunks given back leave no outcome. -/
theorem GivesBack.outcomes {drained released recycled : Nat} {q q' : Queue (Logged M) S}
    (h : GivesBack drained released recycled q q') : q'.supply.outcomes = q.supply.outcomes := by
  obtain ⟨chunks, -, hsupply⟩ := h.supply
  rw [hsupply, Logged.outcomes_reclaimAll]

/-- Outcomes are added at the end. -/
theorem outcomes_isPrefix_acquire (outcomes : List (Except Fault Unit)) (logged : Logged M)
    (h : outcomes <+: logged.outcomes) : outcomes <+: (Supplier.acquire logged).2.outcomes := by
  rw [Logged.outcomes_acquire]
  exact h.trans (List.prefix_append _ _)

theorem outcomes_isPrefix_putUnits (units : List WireUnit) (q : Queue (Logged M) S) :
    q.supply.outcomes <+: (q.putUnits units).2.supply.outcomes := by
  have hdrawn : ∃ fresh, Supplier.Drawn q.supply fresh (q.putUnits units).2.supply := by
    rcases putUnits_grows units q with ⟨fresh, -, hgrows⟩ |
      ⟨_, _, _, fresh, _, -, -, -, -, hgrows⟩
    · exact ⟨fresh, hgrows.supply⟩
    · exact ⟨fresh, hgrows.supply⟩
  obtain ⟨fresh, hdrawn⟩ := hdrawn
  exact hdrawn.preserves (outcomes_isPrefix_acquire _) (List.prefix_refl _)

section Runs

variable [Sink S]

theorem outcomes_isPrefix_run (q : Queue (Logged M) S) (operations : List Operation) :
    q.supply.outcomes <+: (q.run operations).2.supply.outcomes := by
  induction operations generalizing q with
  | nil => exact List.prefix_refl _
  | cons operation rest ih =>
    refine List.IsPrefix.trans ?_ (ih (q.perform operation).2)
    apply supply_perform (outcomes_isPrefix_acquire _) ?_ (List.prefix_refl _) operation
    intro logged chunk h
    have hsame : (Supplier.reclaim logged chunk).outcomes = logged.outcomes :=
      Logged.outcomes_reclaimAll logged [chunk]
    rwa [hsame]

theorem run_append (q : Queue M S) (before after : List Operation) :
    (q.run (before ++ after)).2 = ((q.run before).2.run after).2 := by
  induction before generalizing q with
  | nil => rfl
  | cons operation before ih => exact ih (q.perform operation).2

end Runs

/-! ### Writes in step -/

/-- The queues look the same, and their suppliers have granted and refused the same calls. -/
structure InStep (q : Queue (Logged M) S) (q' : Queue (Logged M') S') : Prop
    extends q.Alike q' where
  outcomes : q'.supply.outcomes = q.supply.outcomes

/-- The writes come to the same on queues in step, if the outcomes of their calls concur. -/
def Parallel (write : Attempt (Logged M) S) (write' : Attempt (Logged M') S') : Prop :=
  ∀ (q : Queue (Logged M) S) (q' : Queue (Logged M') S'), q.InStep q' →
    Concur (write q).2.supply.outcomes (write' q').2.supply.outcomes →
      (write' q').1 = (write q).1 ∧ (write q).2.InStep (write' q').2

omit [Supplier M] [Supplier M'] in
theorem Parallel.andThen {first second : Attempt (Logged M) S}
    {first' second' : Attempt (Logged M') S'} (hfirst : Parallel first first')
    (hsecond : Parallel second second')
    (hadds : ∀ q, q.supply.outcomes <+: (second q).2.supply.outcomes)
    (hadds' : ∀ q, q.supply.outcomes <+: (second' q).2.supply.outcomes) :
    Parallel (first.andThen second) (first'.andThen second') := by
  intro q q' hq hconcur
  have hstep := hfirst q q' hq
  unfold Attempt.andThen at hconcur ⊢
  generalize first q = result at hstep hconcur ⊢
  generalize first' q' = result' at hstep hconcur ⊢
  obtain ⟨outcome, middle⟩ := result
  obtain ⟨outcome', middle'⟩ := result'
  have hmiddle : Concur middle.supply.outcomes middle'.supply.outcomes := by
    apply hconcur.of_isPrefix
    · cases outcome with
      | ok _ => exact hadds middle
      | error fault => exact List.prefix_refl _
    · cases outcome' with
      | ok _ => exact hadds' middle'
      | error fault => exact List.prefix_refl _
  obtain ⟨hsame, hinStep⟩ := hstep hmiddle
  cases hsame
  cases outcome with
  | ok _ => exact hsecond middle middle' hinStep hconcur
  | error fault => exact ⟨rfl, hinStep⟩

theorem supply_link (fill : Chunk → Chunk) (q : Queue M S) :
    (q.link fill).2.supply = (Supplier.acquire q.supply).2 := by
  simp only [link]
  split
  · rename_i h
    rw [h]
  · rename_i h
    rw [h]

/-- Of a supplied chunk only counts that there is one. -/
theorem parallel_link (fill : Chunk → Chunk) :
    Parallel (link fill : Attempt (Logged M) S) (link fill : Attempt (Logged M') S') := by
  intro q q' hq hconcur
  rw [supply_link, supply_link, Logged.outcomes_acquire, Logged.outcomes_acquire,
    hq.outcomes] at hconcur
  -- Both logs had the same outcomes so far, so that these two calls have the same index.
  have hsame := hconcur.next_eq
  have houtcomes := Logged.outcomes_acquire q.supply
  have houtcomes' := Logged.outcomes_acquire q'.supply
  rcases hcall : Supplier.acquire q.supply with ⟨outcome, supply⟩
  rcases hcall' : Supplier.acquire q'.supply with ⟨outcome', supply'⟩
  rw [hcall] at hsame houtcomes
  rw [hcall'] at hsame houtcomes'
  have hsupply : supply'.outcomes = supply.outcomes := by
    rw [houtcomes, houtcomes', hq.outcomes, hsame]
  cases outcome with
  | ok supplied =>
    cases outcome' with
    | error fault => cases hsame
    | ok supplied' =>
      rw [link_of_supplied hcall, link_of_supplied hcall']
      refine ⟨rfl, ?_⟩
      exact
        { chain := by rw [hq.chain]
          cursor := by rw [hq.chain, hq.cursor]
          occupied := by rw [hq.occupied]
          counters := congrArg Counters.countAcquired hq.counters
          outcomes := hsupply }
  | error fault =>
    cases outcome' with
    | ok supplied' => cases hsame
    | error fault' =>
      cases hsame
      rw [link_of_refused hcall, link_of_refused hcall']
      exact ⟨rfl, { hq with outcomes := hsupply }⟩

theorem parallel_place (unit : List UInt8) :
    Parallel (place unit : Attempt (Logged M) S) (place unit : Attempt (Logged M') S') := by
  intro q q' hq hconcur
  -- Whether there is room is up to the chains, and these are the same.
  rcases room_or_lacksRoom q unit.length with ⟨tail, hlast, hroom⟩ | hlacks
  · have hlast' : q'.chain.getLast? = some tail := by rw [hq.chain, hlast]
    rw [place_of_room hlast hroom, place_of_room hlast' hroom]
    exact ⟨rfl, hq.toAlike.replaceTail _ _, hq.outcomes⟩
  · have hlacks' : q'.LacksRoom unit.length := by
      intro tail hlast'
      rw [hq.chain] at hlast'
      exact hlacks tail hlast'
    rw [place_of_lacksRoom hlacks, place_of_lacksRoom hlacks'] at hconcur ⊢
    exact parallel_link _ q q' hq hconcur

theorem parallel_putUnit (unit : WireUnit) :
    Parallel (putUnit unit : Attempt (Logged M) S) (putUnit unit : Attempt (Logged M') S') := by
  rw [putUnit_eq, putUnit_eq]
  apply (parallel_place unit.bytes).andThen
  · intro q q' hq _
    refine ⟨rfl, { hq with counters := ?_ }⟩
    rw [WireUnit.unrecycled_count, WireUnit.unrecycled_count, hq.counters]
  · exact fun _ => List.prefix_refl _
  · exact fun _ => List.prefix_refl _

theorem parallel_putUnits (units : List WireUnit) :
    Parallel (putUnits units : Attempt (Logged M) S) (putUnits units : Attempt (Logged M') S') := by
  induction units with
  | nil => exact fun _ _ hq _ => ⟨rfl, hq⟩
  | cons unit units ih =>
    rw [putUnits_cons, putUnits_cons]
    apply (parallel_putUnit unit).andThen ih
    · exact outcomes_isPrefix_putUnits units
    · exact outcomes_isPrefix_putUnits units

theorem parallel_attempt (write : Write) :
    Parallel (write.attempt : Attempt (Logged M) S) (write.attempt : Attempt (Logged M') S') := by
  rw [Write.attempt_eq, Write.attempt_eq]
  cases write.units with
  | ok units => exact parallel_putUnits units
  | error fault => exact fun _ _ hq _ => ⟨rfl, hq⟩

/-! ### Runs in step -/

/-- What the calls for a chunk come to in a run, in order. -/
def outcomes [Sink S] (q : Queue M S) (operations : List Operation) :
    List (Except Fault Unit) :=
  (q.logged.run operations).2.supply.outcomes

section Runs

variable [Sink S]

theorem outcomes_perform (q : Queue (Logged M) S) {operation : Operation}
    (hwrite : ∀ write, operation ≠ .write write) :
    (q.perform operation).2.supply.outcomes = q.supply.outcomes := by
  rcases q.deals_perform operation with ⟨write, _, _, hop, -⟩ | ⟨released, hback⟩
  · exact absurd hop (hwrite write)
  · exact hback.outcomes

/-- The chunks that a run hands to the sink, in order. -/
def deliveries (q : Queue M S) : List Operation → List Chunk
  | [] => []
  | operation :: rest => q.delivered operation ++ (q.perform operation).2.deliveries rest

/-- The sink sees the chunks that `Queue.deliveries` lists, and no others. -/
theorem sink_run (q : Queue M S) (operations : List Operation) :
    (q.run operations).2.sink = Sink.deliverAll q.sink (q.deliveries operations) := by
  induction operations generalizing q with
  | nil => rfl
  | cons operation rest ih =>
    show ((q.perform operation).2.run rest).2.sink = _
    rw [ih, sink_perform, deliveries, Sink.deliverAll, Sink.deliverAll, Sink.deliverAll,
      List.foldl_append]

theorem deliveries_unlogged (q : Queue (Logged M) S) (operations : List Operation) :
    q.unlogged.deliveries operations = q.deliveries operations := by
  induction operations generalizing q with
  | nil => rfl
  | cons operation rest ih =>
    have hfirst : q.unlogged.delivered operation = q.delivered operation := by
      cases operation with
      | flush => exact congrArg Queue.chain (rollback_unlogged q)
      | _ => rfl
    rw [deliveries, deliveries, hfirst, perform_unlogged, ih]

variable [Sink S']

/-- **The step.** Queues in step answer alike and stay in step, if their suppliers concur. -/
theorem InStep.perform {q : Queue (Logged M) S} {q' : Queue (Logged M') S'} (h : q.InStep q')
    {operation : Operation}
    (hconcur : Concur (q.perform operation).2.supply.outcomes
      (q'.perform operation).2.supply.outcomes) :
    (q'.perform operation).1 = (q.perform operation).1 ∧
      (q.perform operation).2.InStep (q'.perform operation).2 := by
  by_cases hwrite : ∀ write, operation ≠ .write write
  · obtain ⟨hsame, halike⟩ := h.toAlike.perform hwrite
    refine ⟨hsame, halike, ?_⟩
    rw [outcomes_perform q hwrite, outcomes_perform q' hwrite, h.outcomes]
  · obtain ⟨write, rfl⟩ : ∃ write, operation = .write write := by simpa using hwrite
    obtain ⟨hsame, hinStep⟩ := parallel_attempt write q q' h hconcur
    exact ⟨congrArg Answer.written hsame, hinStep⟩

/-- **The run.** Queues in step answer alike all along a run in which their suppliers concur. -/
theorem InStep.run {q : Queue (Logged M) S} {q' : Queue (Logged M') S'} (h : q.InStep q')
    {operations : List Operation}
    (hconcur : Concur (q.run operations).2.supply.outcomes
      (q'.run operations).2.supply.outcomes) :
    (q'.run operations).1 = (q.run operations).1 ∧
      q'.deliveries operations = q.deliveries operations ∧
      (q.run operations).2.InStep (q'.run operations).2 := by
  induction operations generalizing q q' with
  | nil => exact ⟨rfl, rfl, h⟩
  | cons operation rest ih =>
    have hfirst : Concur (q.perform operation).2.supply.outcomes
        (q'.perform operation).2.supply.outcomes :=
      hconcur.of_isPrefix (outcomes_isPrefix_run _ rest) (outcomes_isPrefix_run _ rest)
    obtain ⟨hanswer, hnext⟩ := h.perform hfirst
    obtain ⟨hanswers, hdeliveries, hfinal⟩ := ih hnext hconcur
    refine ⟨?_, ?_, hfinal⟩
    · simp only [Queue.run, hanswer, hanswers]
    · rw [deliveries, deliveries, h.toAlike.delivered, hdeliveries]

/-! ### What nobody can tell apart -/

/-- Runs of the same operations from `q` and from `q'` that differ in nothing but what suppliers and
sinks keep to themselves. -/
structure Indistinct (operations : List Operation) (q : Queue M S) (q' : Queue M' S') : Prop where
  /-- Outcomes of writes, popped chunks and sizes of flushes. -/
  answers : (q'.run operations).1 = (q.run operations).1
  /-- The sinks are given the same chunks, bytes and marks. -/
  deliveries : q'.deliveries operations = q.deliveries operations
  /-- Nothing else happens to the one sink or to the other. -/
  sink : (q.run operations).2.sink = Sink.deliverAll q.sink (q.deliveries operations)
  sink' : (q'.run operations).2.sink = Sink.deliverAll q'.sink (q.deliveries operations)
  /-- The suppliers are asked equally often, to the same effect. -/
  outcomes : q'.outcomes operations = q.outcomes operations
  alike : (q.run operations).2.Alike (q'.run operations).2

/-- Queues that look the same stay so, as long as the outcomes of their calls concur. -/
theorem Alike.indistinct {q : Queue M S} {q' : Queue M' S'} (h : q.Alike q')
    {operations : List Operation}
    (hconcur : Concur (q.outcomes operations) (q'.outcomes operations)) :
    Indistinct operations q q' := by
  have hstart : q.logged.InStep q'.logged := ⟨⟨h.chain, h.cursor, h.occupied, h.counters⟩, rfl⟩
  obtain ⟨hanswers, hdeliveries, hfinal⟩ := hstart.run hconcur
  obtain ⟨hlogged, hqueue⟩ := run_logged q operations
  obtain ⟨hlogged', hqueue'⟩ := run_logged q' operations
  rw [← deliveries_unlogged, ← deliveries_unlogged q.logged] at hdeliveries
  have hsame : q'.deliveries operations = q.deliveries operations := hdeliveries
  exact
    { answers := by rw [← hlogged, ← hlogged', hanswers]
      deliveries := hsame
      sink := sink_run q operations
      sink' := by rw [sink_run, hsame]
      outcomes := hfinal.outcomes
      alike := by
        rw [← hqueue, ← hqueue']
        exact ⟨hfinal.chain, hfinal.cursor, hfinal.occupied, hfinal.counters⟩ }

theorem outcomes_isPrefix (q : Queue M S) {before operations : List Operation}
    (h : before <+: operations) : q.outcomes before <+: q.outcomes operations := by
  obtain ⟨after, rfl⟩ := h
  rw [outcomes, outcomes, run_append]
  exact outcomes_isPrefix_run _ after

/-- **Indifference.** Two new queues, each with a supplier and a sink of its own, are put through
the same operations. As long as their suppliers grant and refuse alike, both do the same at every
step. -/
theorem indistinct_of_concur (supply : M) (sink : S) (supply' : M') (sink' : S')
    (operations : List Operation)
    (h : Concur ((Queue.new supply sink).outcomes operations)
      ((Queue.new supply' sink').outcomes operations)) :
    ∀ before, before <+: operations →
      Indistinct before (Queue.new supply sink) (Queue.new supply' sink') := by
  intro before hbefore
  have hnew : (Queue.new supply sink).Alike (Queue.new supply' sink') := ⟨rfl, rfl, rfl, rfl⟩
  apply hnew.indistinct
  exact h.of_isPrefix (outcomes_isPrefix _ hbefore) (outcomes_isPrefix _ hbefore)

end Runs

/-- A shelf with a chunk full of old bytes and a sink that keeps everything, an empty pool and a
sink that keeps nothing: both suppliers grant two chunks and refuse the third. -/
theorem indistinct_of_concur_dirty :
    ∃ (shelf : Shelf) (pool : Pool) (operations : List Operation),
      shelf.chunks = [⟨[1, 2, 3], [4]⟩] ∧ pool.free = [] ∧
      (Queue.new shelf ({} : Keeper)).outcomes operations =
        [.ok (), .ok (), .error (.exhausted ⟨1, 1⟩)] ∧
      Concur ((Queue.new shelf ({} : Keeper)).outcomes operations)
        ((Queue.new pool ({} : Transcript)).outcomes operations) ∧
      ∀ before, before <+: operations →
        Indistinct before (Queue.new shelf ({} : Keeper)) (Queue.new pool ({} : Transcript)) := by
  let shelf : Shelf :=
    { plan := { calls := [2], shortage := ⟨1, 1⟩ }, chunks := [⟨[1, 2, 3], [4]⟩] }
  let pool : Pool := { maxPooled := 1, maxOutstanding := some 1 }
  let operations : List Operation :=
    [.write (.word16 5), .commit, .flush, .write (.word16 6), .commit, .pop, .write (.word16 7)]
  have hshelf : (Queue.new shelf ({} : Keeper)).outcomes operations =
      [.ok (), .ok (), .error (.exhausted ⟨1, 1⟩)] := by
    simp only [shelf, operations, outcomes, run, perform]
    rfl
  have hpool : (Queue.new pool ({} : Transcript)).outcomes operations =
      [.ok (), .ok (), .error (.exhausted ⟨1, 1⟩)] := by
    simp only [pool, operations, outcomes, run, perform]
    rfl
  have hconcur : Concur ((Queue.new shelf ({} : Keeper)).outcomes operations)
      ((Queue.new pool ({} : Transcript)).outcomes operations) := by
    rw [hshelf, hpool]
    exact .refl _
  have hindistinct :=
    indistinct_of_concur shelf ({} : Keeper) pool ({} : Transcript) operations hconcur
  exact ⟨shelf, pool, operations, rfl, rfl, hshelf, hconcur, hindistinct⟩

end Queue

end WireQueue

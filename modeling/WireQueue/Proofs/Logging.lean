import WireQueue.Proofs.Dealings
import WireQueue.Supplier.Logged

/-! # Queues over a logged supplier

A log changes nothing for the queue above it. `Queue.unlogged` forgets the log, and it makes no
difference whether that is done before a run or after it. So what is in the log after a run,
`Queue.calls`, is what any supplier sees of that run.

* `Queue.run_unlogged` — a run with a log is the run without it.
* `Logged.counts_of_drawn`, `Logged.calls_reclaimAll` — what chunks handed out and taken back leave
  in the log.
* `Logged.outcomes_acquire`, `Logged.outcomes_reclaimAll` — and what of it is an outcome. -/

namespace WireQueue

/-! ### The log -/

namespace Logged

variable {M : Type} [Supplier M] {logged final : Logged M}

theorem acquire_of_ok {supplier : M} {chunk : Chunk}
    (h : Supplier.acquire logged.supplier = (.ok chunk, supplier)) :
    Supplier.acquire logged = (.ok chunk, ⟨supplier, logged.calls ++ [.granted chunk]⟩) := by
  show logged.acquire = _
  rw [acquire, h]

theorem acquire_of_error {supplier : M} {fault : Fault}
    (h : Supplier.acquire logged.supplier = (.error fault, supplier)) :
    Supplier.acquire logged = (.error fault, ⟨supplier, logged.calls ++ [.refused fault]⟩) := by
  show logged.acquire = _
  rw [acquire, h]

theorem calls_of_acquire_ok {chunk : Chunk} (h : Supplier.acquire logged = (.ok chunk, final)) :
    final.calls = logged.calls ++ [.granted chunk] := by
  rcases hcall : Supplier.acquire logged.supplier with ⟨outcome, supplier⟩
  cases outcome with
  | ok chunk' =>
    rw [acquire_of_ok hcall] at h
    cases h
    rfl
  | error fault =>
    rw [acquire_of_error hcall] at h
    cases h

theorem calls_of_acquire_error {fault : Fault}
    (h : Supplier.acquire logged = (.error fault, final)) :
    final.calls = logged.calls ++ [.refused fault] := by
  rcases hcall : Supplier.acquire logged.supplier with ⟨outcome, supplier⟩
  cases outcome with
  | ok chunk =>
    rw [acquire_of_ok hcall] at h
    cases h
  | error fault' =>
    rw [acquire_of_error hcall] at h
    cases h
    rfl

/-- Chunks drawn are noted one by one, and nothing is taken back meanwhile. -/
theorem counts_of_drawn {n : Nat} (h : Supplier.Drawn logged n final) :
    final.calls.countP Supplier.Call.isGranted =
        logged.calls.countP Supplier.Call.isGranted + n ∧
      final.calls.countP Supplier.Call.isReclaimed =
        logged.calls.countP Supplier.Call.isReclaimed := by
  induction h with
  | refl => exact ⟨rfl, rfl⟩
  | granted _ hacquire ih =>
    rw [calls_of_acquire_ok hacquire, List.countP_append, List.countP_append, ih.1, ih.2]
    exact ⟨rfl, rfl⟩
  | refused _ hacquire ih =>
    rw [calls_of_acquire_error hacquire, List.countP_append, List.countP_append, ih.1, ih.2]
    exact ⟨rfl, rfl⟩

/-- Chunks taken back are noted in order. -/
theorem calls_reclaimAll (logged : Logged M) (chunks : List Chunk) :
    (chunks.foldl Supplier.reclaim logged).calls =
      logged.calls ++ chunks.map Supplier.Call.reclaimed := by
  induction chunks generalizing logged with
  | nil => exact (List.append_nil _).symm
  | cons chunk chunks ih =>
    have hfirst : (Supplier.reclaim logged chunk).calls = logged.calls ++ [.reclaimed chunk] := rfl
    rw [List.foldl_cons, ih, hfirst, List.append_assoc]
    rfl

theorem counts_reclaimAll (logged : Logged M) (chunks : List Chunk) :
    (chunks.foldl Supplier.reclaim logged).calls.countP Supplier.Call.isGranted =
        logged.calls.countP Supplier.Call.isGranted ∧
      (chunks.foldl Supplier.reclaim logged).calls.countP Supplier.Call.isReclaimed =
        logged.calls.countP Supplier.Call.isReclaimed + chunks.length := by
  rw [calls_reclaimAll, List.countP_append, List.countP_append]
  refine ⟨?_, ?_⟩
  · rw [Nat.add_eq_left, List.countP_eq_zero]
    intro call hcall
    obtain ⟨chunk, -, rfl⟩ := List.mem_map.mp hcall
    exact Bool.false_ne_true
  · congr 1
    rw [← List.length_map (f := Supplier.Call.reclaimed), List.countP_eq_length]
    intro call hcall
    obtain ⟨chunk, -, rfl⟩ := List.mem_map.mp hcall
    rfl

theorem supplier_reclaimAll (logged : Logged M) (chunks : List Chunk) :
    (chunks.foldl Supplier.reclaim logged).supplier =
      chunks.foldl Supplier.reclaim logged.supplier := by
  induction chunks generalizing logged with
  | nil => rfl
  | cons chunk chunks ih => exact ih (Supplier.reclaim logged chunk)

/-- A chunk taken back is no outcome. -/
theorem outcomes_reclaimAll (logged : Logged M) (chunks : List Chunk) :
    (chunks.foldl Supplier.reclaim logged).outcomes = logged.outcomes := by
  rw [outcomes, calls_reclaimAll, List.filterMap_append, List.filterMap_map]
  simp [outcomes, Function.comp_def, Supplier.Call.outcome?]

/-- Each call for a chunk adds its outcome. -/
theorem outcomes_acquire (logged : Logged M) :
    (Supplier.acquire logged).2.outcomes =
      logged.outcomes ++ [(Supplier.acquire logged).1.map fun _ => ()] := by
  rcases hcall : Supplier.acquire logged with ⟨outcome, final⟩
  cases outcome with
  | ok chunk =>
    rw [outcomes, calls_of_acquire_ok hcall, List.filterMap_append]
    rfl
  | error fault =>
    rw [outcomes, calls_of_acquire_error hcall, List.filterMap_append]
    rfl

end Logged

/-! ### A log makes no difference -/

namespace Queue

variable {M S : Type}

/-- The queue over a supplier that starts a log. -/
def logged (q : Queue M S) : Queue (Logged M) S := { q with supply := { supplier := q.supply } }

/-- The queue over the supplier without its log. -/
def unlogged (q : Queue (Logged M) S) : Queue M S := { q with supply := q.supply.supplier }

variable [Supplier M]

/-- The one write does without a log what the other does with it. -/
def Unlogs (write : Attempt (Logged M) S) (write' : Attempt M S) : Prop :=
  ∀ q : Queue (Logged M) S, write' q.unlogged = ((write q).1, (write q).2.unlogged)

omit [Supplier M] in
theorem Unlogs.andThen {first second : Attempt (Logged M) S} {first' second' : Attempt M S}
    (hfirst : Unlogs first first') (hsecond : Unlogs second second') :
    Unlogs (first.andThen second) (first'.andThen second') := by
  intro q
  unfold Attempt.andThen
  rw [hfirst q]
  obtain ⟨outcome, middle⟩ := first q
  cases outcome with
  | ok _ => exact hsecond middle
  | error fault => rfl

/-! ### Writes -/

theorem unlogs_link (fill : Chunk → Chunk) :
    Unlogs (link fill) (link fill : Attempt M S) := by
  intro q
  rcases hcall : Supplier.acquire q.supply.supplier with ⟨outcome, supplier⟩
  cases outcome with
  | ok chunk =>
    rw [link_of_supplied (Logged.acquire_of_ok hcall), link_of_supplied (q := q.unlogged) hcall]
    rfl
  | error fault =>
    rw [link_of_refused (Logged.acquire_of_error hcall), link_of_refused (q := q.unlogged) hcall]
    rfl

theorem unlogs_place (unit : List UInt8) : Unlogs (place unit) (place unit : Attempt M S) := by
  intro q
  rcases room_or_lacksRoom q unit.length with ⟨tail, hlast, hroom⟩ | hlacks
  · rw [place_of_room hlast hroom, place_of_room (q := q.unlogged) hlast hroom]
    rfl
  · rw [place_of_lacksRoom hlacks, place_of_lacksRoom (q := q.unlogged) hlacks]
    exact unlogs_link (Chunk.append unit) q

theorem unlogs_putUnits (units : List WireUnit) :
    Unlogs (putUnits units) (putUnits units : Attempt M S) := by
  induction units with
  | nil =>
    intro q
    rfl
  | cons unit units ih =>
    rw [putUnits_cons, putUnits_cons, putUnit_eq, putUnit_eq]
    have hcounted : Unlogs ((place unit.bytes).counting unit.count)
        ((place unit.bytes).counting unit.count : Attempt M S) :=
      (unlogs_place unit.bytes).andThen fun q => rfl
    exact hcounted.andThen ih

theorem unlogs_attempt (write : Write) : Unlogs write.attempt (write.attempt : Attempt M S) := by
  rw [Write.attempt_eq, Write.attempt_eq]
  cases write.units with
  | ok units => exact unlogs_putUnits units
  | error fault =>
    intro q
    rfl

/-! ### Operations and runs -/

theorem rollback_unlogged (q : Queue (Logged M) S) :
    q.unlogged.rollback = q.rollback.unlogged := by
  cases hcursor : q.cursor with
  | none =>
    rw [rollback_of_cursor_eq_none hcursor]
    exact rollback_of_cursor_eq_none hcursor
  | some first => simp [rollback, unlogged, hcursor, Logged.supplier_reclaimAll]

omit [Supplier M] in
theorem commit_unlogged (q : Queue (Logged M) S) : q.unlogged.commit = q.commit.unlogged := by
  cases hcursor : q.cursor <;> simp [commit, unlogged, hcursor]

theorem pop_unlogged (q : Queue (Logged M) S) :
    q.unlogged.pop = (q.pop.1, q.pop.2.unlogged) := by
  have hchain : q.rollback.unlogged.chain = q.rollback.chain := rfl
  rw [pop_eq, pop_eq, rollback_unlogged, hchain]
  cases q.rollback.chain <;> rfl

variable [Sink S]

theorem dispatch_unlogged (q : Queue (Logged M) S) (chunk : Chunk) :
    q.unlogged.dispatch chunk = (q.dispatch chunk).unlogged := by
  rcases hdeliver : Sink.deliver q.sink chunk with ⟨returned, sink⟩
  cases returned with
  | none => simp only [dispatch, depart, unlogged, hdeliver]
  | some returned => simp only [dispatch, depart, unlogged, hdeliver]; rfl

theorem dispatchAll_unlogged (q : Queue (Logged M) S) (chunks : Chain) :
    chunks.foldl dispatch q.unlogged = (chunks.foldl dispatch q).unlogged := by
  induction chunks generalizing q with
  | nil => rfl
  | cons chunk chunks ih =>
    rw [List.foldl_cons, List.foldl_cons, dispatch_unlogged, ih]

/-- One operation with a log is the operation without it. -/
theorem perform_unlogged (q : Queue (Logged M) S) (operation : Operation) :
    q.unlogged.perform operation =
      ((q.perform operation).1, (q.perform operation).2.unlogged) := by
  cases operation with
  | startMessage =>
    simp only [perform, startMessage, rollback_unlogged]
    rfl
  | commit => simp only [perform, commit_unlogged]
  | clear => simp [perform, clear, unlogged, Logged.supplier_reclaimAll]
  | write write => simp only [perform, unlogs_attempt write q]
  | pop => simp only [perform, pop_unlogged]
  | flush =>
    simp only [perform, flush_eq, rollback_unlogged]
    rw [← dispatchAll_unlogged]
    rfl
  | recycle chunk => rfl

/-- **A log makes no difference.** A run with a log is the run without it. -/
theorem run_unlogged (q : Queue (Logged M) S) (operations : List Operation) :
    q.unlogged.run operations = ((q.run operations).1, (q.run operations).2.unlogged) := by
  induction operations generalizing q with
  | nil => rfl
  | cons operation rest ih => simp only [run, perform_unlogged, ih]

/-- The calls that the supplier sees in a run. -/
def calls (q : Queue M S) (operations : List Operation) : List Supplier.Call :=
  (q.logged.run operations).2.supply.calls

theorem run_logged (q : Queue M S) (operations : List Operation) :
    (q.logged.run operations).1 = (q.run operations).1 ∧
      (q.logged.run operations).2.unlogged = (q.run operations).2 := by
  have hrun := run_unlogged q.logged operations
  have hsame : q.logged.unlogged = q := rfl
  rw [hsame] at hrun
  rw [hrun]
  exact ⟨rfl, rfl⟩

end Queue

end WireQueue

import WireQueue.Proofs.Commits

/-! # The cursor decides nothing but a count

Two queues with the same chunks may have different cursors: a message that was started on a settled
chain has one, and without a start there is none before the first byte; a first byte in a new chunk
then sets it there, and a start had set it to the chunk before. `Queue.Twins` relates queues that
differ in the cursor, and in the number of commits they have counted. Rollback and commit look for
uncommitted bytes from the cursor on, and in a well-formed queue they find all of them from either
cursor.

* `Queue.Twins.perform`, `Queue.Twins.run` — twins give the same answers and stay twins.
* `Queue.openCommits_true` — an open message counts for one commit more at most.
* `Queue.redundant_of_reachable` — so a start is redundant where no message is open. -/

namespace WireQueue

/-- The counters without the count of commits. -/
def Counters.withoutCommits (counters : Counters) : Counters :=
  { counters with messagesCommitted := 0 }

theorem Counters.withoutCommits_countRollback (dropped : Nat) (counters : Counters) :
    (counters.countRollback dropped).withoutCommits =
      counters.withoutCommits.countRollback dropped := by
  unfold countRollback
  split
  · rfl
  · rfl

theorem WireUnit.withoutCommits_count (unit : WireUnit) (counters : Counters) :
    (unit.count counters).withoutCommits = unit.count counters.withoutCommits := by
  cases unit with
  | header bytes => rfl
  | value bytes => rfl

namespace Queue

variable {M S : Type}

/-- The queues agree in all but the cursor and the count of commits. -/
structure Twins (q q' : Queue M S) : Prop where
  supply : q'.supply = q.supply
  sink : q'.sink = q.sink
  chain : q'.chain = q.chain
  occupied : q'.occupied = q.occupied
  counters : q'.counters.withoutCommits = q.counters.withoutCommits

namespace Twins

variable {q q' : Queue M S}

theorem commit (h : q.Twins q') (hq : q.WellFormed) (hq' : q'.WellFormed) :
    q.commit.Twins q'.commit := by
  have hcounted (queue : Queue M S) :
      (if queue.cursor.isSome then queue.counters.countCommit else queue.counters).withoutCommits =
        queue.counters.withoutCommits := by
    split
    · rfl
    · rfl
  rw [hq.commit_eq, hq'.commit_eq]
  exact
    { supply := h.supply
      sink := h.sink
      chain := congrArg Chain.commit h.chain
      occupied := h.occupied
      counters := ((hcounted q').trans h.counters).trans (hcounted q).symm }

theorem depart (h : q.Twins q') (chunk : Chunk) : (q.depart chunk).Twins (q'.depart chunk) where
  supply := h.supply
  sink := h.sink
  chain := h.chain
  occupied := congrArg (· - chunk.length) h.occupied
  counters := congrArg (Counters.countDrained chunk.length) h.counters

theorem replaceTail (h : q.Twins q') (tail : Chunk) (added : Nat) :
    (q.replaceTail tail added).Twins (q'.replaceTail tail added) where
  supply := h.supply
  sink := h.sink
  chain := congrArg (Chain.replaceLast · tail) h.chain
  occupied := congrArg (· + added) h.occupied
  counters := h.counters

variable [Supplier M]

/-! ### Where the open message is dropped -/

/-- A rollback drops the same from both, wherever their cursors are. -/
theorem rollback (h : q.Twins q') (hq : q.WellFormed) (hq' : q'.WellFormed) :
    q.rollback.Twins q'.rollback := by
  rw [hq.rollback_eq, hq'.rollback_eq, h.chain, h.supply]
  exact
    { supply := rfl
      sink := h.sink
      chain := rfl
      occupied := rfl
      counters := by
        rw [Counters.withoutCommits_countRollback, Counters.withoutCommits_countRollback,
          h.counters] }

theorem startMessage (h : q.Twins q') (hq : q.WellFormed) (hq' : q'.WellFormed) :
    q.startMessage.Twins q'.startMessage :=
  let hrollback := h.rollback hq hq'
  ⟨hrollback.supply, hrollback.sink, hrollback.chain, hrollback.occupied, hrollback.counters⟩

theorem clear (h : q.Twins q') : q.clear.Twins q'.clear where
  supply := by rw [Queue.clear, Queue.clear, h.chain, h.supply]
  sink := h.sink
  chain := rfl
  occupied := rfl
  counters := h.counters

theorem recycle (h : q.Twins q') (chunk : Chunk) :
    (q.recycle chunk).Twins (q'.recycle chunk) where
  supply := congrArg (Supplier.reclaim · chunk) h.supply
  sink := h.sink
  chain := h.chain
  occupied := h.occupied
  counters := congrArg Counters.countRecycled h.counters

theorem pop (h : q.Twins q') (hq : q.WellFormed) (hq' : q'.WellFormed) :
    q'.pop.1 = q.pop.1 ∧ q.pop.2.Twins q'.pop.2 := by
  have hrollback := h.rollback hq hq'
  rw [pop_eq, pop_eq, hrollback.chain]
  refine ⟨rfl, ?_⟩
  cases q.rollback.chain with
  | nil => exact hrollback
  | cons chunk rest =>
    have hrest : Twins { q.rollback with chain := rest } { q'.rollback with chain := rest } :=
      { hrollback with chain := rfl }
    exact hrest.depart chunk

variable [Sink S]

/-- The sink does the same with a chunk of either queue. -/
theorem dispatch (h : q.Twins q') (chunk : Chunk) :
    (q.dispatch chunk).Twins (q'.dispatch chunk) := by
  have hdepart := h.depart chunk
  have hsink : (q'.depart chunk).sink = (q.depart chunk).sink := hdepart.sink
  simp only [Queue.dispatch, hsink]
  split
  · exact { hdepart with sink := rfl }
  · next returned _ =>
    have hsent : Twins
        { q.depart chunk with sink := (Sink.deliver (q.depart chunk).sink chunk).2 }
        { q'.depart chunk with sink := (Sink.deliver (q.depart chunk).sink chunk).2 } :=
      { hdepart with sink := rfl }
    exact hsent.recycle returned

theorem dispatchAll (h : q.Twins q') (chunks : Chain) :
    (chunks.foldl Queue.dispatch q).Twins (chunks.foldl Queue.dispatch q') := by
  induction chunks generalizing q q' with
  | nil => exact h
  | cons chunk chunks ih => exact ih (h.dispatch chunk)

theorem flush (h : q.Twins q') (hq : q.WellFormed) (hq' : q'.WellFormed) :
    q'.flush.1 = q.flush.1 ∧ q.flush.2.Twins q'.flush.2 := by
  have hrollback := h.rollback hq hq'
  have hemptied : Twins { q.rollback with chain := [] } { q'.rollback with chain := [] } :=
    { hrollback with chain := rfl }
  rw [flush_eq, flush_eq, hrollback.chain]
  exact ⟨rfl, hemptied.dispatchAll _⟩

end Twins

/-! ### Where the message grows -/

/-- The write does the same to twins. -/
def Impartial (write : Attempt M S) : Prop :=
  ∀ q q' : Queue M S, q.Twins q' → (write q').1 = (write q).1 ∧ (write q).2.Twins (write q').2

theorem Impartial.andThen {first second : Attempt M S} (hfirst : Impartial first)
    (hsecond : Impartial second) : Impartial (first.andThen second) := by
  intro q q' h
  have hstep := hfirst q q' h
  unfold Attempt.andThen
  generalize first q = result at hstep
  generalize first q' = result' at hstep
  obtain ⟨outcome, middle⟩ := result
  obtain ⟨outcome', middle'⟩ := result'
  obtain ⟨hsame, htwins⟩ := hstep
  cases hsame
  cases outcome with
  | ok _ => exact hsecond middle middle' htwins
  | error fault => exact ⟨rfl, htwins⟩

variable [Supplier M]

theorem impartial_link (fill : Chunk → Chunk) : Impartial (link fill : Attempt M S) := by
  intro q q' h
  rcases hacquire : Supplier.acquire q.supply with ⟨outcome, supply⟩
  have hacquire' : Supplier.acquire q'.supply = (outcome, supply) := h.supply ▸ hacquire
  cases outcome with
  | error fault =>
    rw [link_of_refused hacquire, link_of_refused hacquire']
    exact ⟨rfl, { h with supply := rfl }⟩
  | ok supplied =>
    rw [link_of_supplied hacquire, link_of_supplied hacquire']
    refine ⟨rfl, ?_⟩
    exact
      { supply := rfl
        sink := h.sink
        chain := congrArg (· ++ [fill Chunk.empty]) h.chain
        occupied := congrArg (· + (fill Chunk.empty).length) h.occupied
        counters := congrArg Counters.countAcquired h.counters }

/-- Where a unit goes is up to the last chunk, and not to the cursor. -/
theorem impartial_place (unit : List UInt8) : Impartial (place unit : Attempt M S) := by
  intro q q' h
  rcases room_or_lacksRoom q unit.length with ⟨tail, hlast, hroom⟩ | hlacks
  · have hlast' : q'.chain.getLast? = some tail := by rw [h.chain, hlast]
    rw [place_of_room hlast hroom, place_of_room hlast' hroom]
    exact ⟨rfl, h.replaceTail _ _⟩
  · have hlacks' : q'.LacksRoom unit.length := by
      intro tail hlast'
      rw [h.chain] at hlast'
      exact hlacks tail hlast'
    rw [place_of_lacksRoom hlacks, place_of_lacksRoom hlacks']
    exact impartial_link _ q q' h

theorem impartial_putUnit (unit : WireUnit) : Impartial (putUnit unit : Attempt M S) := by
  rw [putUnit_eq]
  apply (impartial_place unit.bytes).andThen
  intro q q' h
  refine ⟨rfl, { h with counters := ?_ }⟩
  rw [WireUnit.withoutCommits_count, WireUnit.withoutCommits_count, h.counters]

theorem impartial_putUnits (units : List WireUnit) : Impartial (putUnits units : Attempt M S) := by
  induction units with
  | nil =>
    intro q q' h
    exact ⟨rfl, h⟩
  | cons unit units ih => exact (impartial_putUnit unit).andThen ih

theorem impartial_attempt (write : Write) : Impartial (write.attempt : Attempt M S) := by
  rw [Write.attempt_eq]
  cases write.units with
  | ok units => exact impartial_putUnits units
  | error fault =>
    intro q q' h
    exact ⟨rfl, h⟩

/-! ### Operations and runs -/

variable [Sink S]

/-- **The step.** Twins give the same answer and stay twins. -/
theorem Twins.perform {q q' : Queue M S} (h : q.Twins q') (hq : q.WellFormed)
    (hq' : q'.WellFormed) (operation : Operation) :
    (q'.perform operation).1 = (q.perform operation).1 ∧
      (q.perform operation).2.Twins (q'.perform operation).2 := by
  cases operation with
  | startMessage => exact ⟨rfl, h.startMessage hq hq'⟩
  | commit => exact ⟨rfl, h.commit hq hq'⟩
  | clear => exact ⟨rfl, h.clear⟩
  | write write =>
    obtain ⟨hsame, htwins⟩ := impartial_attempt write q q' h
    exact ⟨congrArg Answer.written hsame, htwins⟩
  | pop => exact ⟨congrArg Answer.popped (h.pop hq hq').1, (h.pop hq hq').2⟩
  | flush => exact ⟨congrArg Answer.flushed (h.flush hq hq').1, (h.flush hq hq').2⟩
  | recycle chunk => exact ⟨rfl, h.recycle chunk⟩

/-- **The run.** Twins answer alike all along a run, and stay twins. -/
theorem Twins.run {q q' : Queue M S} (h : q.Twins q') (hq : q.WellFormed) (hq' : q'.WellFormed)
    (operations : List Operation) :
    (q'.run operations).1 = (q.run operations).1 ∧
      (q.run operations).2.Twins (q'.run operations).2 := by
  induction operations generalizing q q' with
  | nil => exact ⟨rfl, h⟩
  | cons operation rest ih =>
    obtain ⟨hsame, htwins⟩ := h.perform hq hq' operation
    obtain ⟨hanswers, hfinal⟩ := ih htwins (hq.perform operation) (hq'.perform operation)
    exact ⟨congrArg₂ List.cons hsame hanswers, hfinal⟩

/-! ### The count of commits -/

omit [Sink S] in
/-- A write stores as much on either of two twins. -/
theorem Twins.gain_eq {q q' : Queue M S} (h : q.Twins q') (operation : Operation) :
    q'.gain operation = q.gain operation := by
  cases operation with
  | write write =>
    have htwins := (impartial_attempt write q q' h).2
    rw [gain, gain, htwins.chain, h.chain]
  | _ => rfl

omit [Sink S] in
/-- After an operation a message is open on both twins, if it is on one. -/
theorem Twins.isOpenAfter_eq {q q' : Queue M S} (h : q.Twins q') (hq : q.WellFormed)
    (hq' : q'.WellFormed) (isOpen : Bool) (operation : Operation) :
    q'.isOpenAfter keepsChunks isOpen operation = q.isOpenAfter keepsChunks isOpen operation := by
  cases operation with
  | startMessage =>
    show (!q'.rollback.chain.isEmpty) = !q.rollback.chain.isEmpty
    rw [(h.rollback hq hq').chain]
  | write write =>
    show (isOpen || 0 < q'.gain (.write write)) = (isOpen || 0 < q.gain (.write write))
    rw [h.gain_eq]
  | _ => rfl

theorem Twins.openCommits_eq {q q' : Queue M S} (h : q.Twins q') (hq : q.WellFormed)
    (hq' : q'.WellFormed) (isOpen : Bool) (operations : List Operation) :
    q'.openCommits keepsChunks isOpen operations = q.openCommits keepsChunks isOpen operations := by
  induction operations generalizing q q' isOpen with
  | nil => rfl
  | cons operation rest ih =>
    have hnext := (h.perform hq hq' operation).2
    rw [openCommits, openCommits, h.isOpenAfter_eq hq hq',
      ih hnext (hq.perform operation) (hq'.perform operation)]

end Queue

/-- The operation neither starts a message nor ends one. -/
def Operation.goesOn : Operation → Bool
  | write _ | recycle _ => true
  | _ => false

namespace Queue

variable {M S : Type} [Supplier M] [Sink S]

/-- The run comes to a commit before anything is stored and before a message is started or ended. -/
def CommitsIdly (q : Queue M S) (operations : List Operation) : Prop :=
  ∃ before after, operations = before ++ .commit :: after ∧
    (∀ operation ∈ before, operation.goesOn) ∧ q.intake before = 0

theorem commitsIdly_cons_iff {q : Queue M S} {operation : Operation} {rest : List Operation} :
    q.CommitsIdly (operation :: rest) ↔
      operation.isCommit ∨
        operation.goesOn ∧ q.gain operation = 0 ∧ (q.perform operation).2.CommitsIdly rest := by
  constructor
  · rintro ⟨before, after, hsplit, hgoesOn, hintake⟩
    cases before with
    | nil =>
      obtain ⟨rfl, -⟩ := List.cons.inj hsplit
      exact Or.inl rfl
    | cons first before =>
      obtain ⟨rfl, hrest⟩ := List.cons.inj hsplit
      obtain ⟨hfirst, hgoesOn⟩ := List.forall_mem_cons.mp hgoesOn
      obtain ⟨hgain, hintake⟩ := Nat.add_eq_zero_iff.mp hintake
      exact Or.inr ⟨hfirst, hgain, before, after, hrest, hgoesOn, hintake⟩
  · rintro (hcommit | ⟨hfirst, hgain, before, after, rfl, hgoesOn, hintake⟩)
    · cases operation with
      | commit => exact ⟨[], rest, rfl, List.forall_mem_nil _, rfl⟩
      | _ => cases hcommit
    · refine ⟨operation :: before, after, rfl, List.forall_mem_cons.mpr ⟨hfirst, hgoesOn⟩, ?_⟩
      exact Nat.add_eq_zero_iff.mpr ⟨hgain, hintake⟩

omit [Sink S] in
/-- Whether a message was open before an operation makes no difference after it, unless the
operation goes on without storing anything. -/
theorem isOpenAfter_true_eq_or (opens : Queue M S → Bool) (q : Queue M S) (operation : Operation) :
    q.isOpenAfter opens true operation = q.isOpenAfter opens false operation ∧
        ¬ (operation.goesOn ∧ q.gain operation = 0) ∨
      (operation.goesOn ∧ q.gain operation = 0) ∧
        ∀ isOpen, q.isOpenAfter opens isOpen operation = isOpen := by
  cases operation with
  | write write =>
    rcases Nat.eq_zero_or_pos (q.gain (.write write)) with hzero | hpos
    · right
      refine ⟨⟨rfl, hzero⟩, ?_⟩
      intro isOpen
      simp [isOpenAfter, hzero]
    · left
      refine ⟨?_, fun h => Nat.ne_of_gt hpos h.2⟩
      simp [isOpenAfter, hpos]
  | recycle chunk => exact Or.inr ⟨⟨rfl, rfl⟩, fun _ => rfl⟩
  | _ => exact Or.inl ⟨rfl, fun h => Bool.false_ne_true h.1⟩

/-- **One commit more at most.** An open message with nothing in it is counted if the run commits it
as it is, and makes no difference otherwise. -/
theorem openCommits_true (opens : Queue M S → Bool) (q : Queue M S) (operations : List Operation) :
    q.CommitsIdly operations ∧
        q.openCommits opens true operations = q.openCommits opens false operations + 1 ∨
      ¬ q.CommitsIdly operations ∧
        q.openCommits opens true operations = q.openCommits opens false operations := by
  induction operations generalizing q with
  | nil =>
    right
    refine ⟨?_, rfl⟩
    rintro ⟨before, after, hsplit, -, -⟩
    exact absurd hsplit.symm (List.append_ne_nil_of_right_ne_nil _ (List.cons_ne_nil _ _))
  | cons operation rest ih =>
    rw [commitsIdly_cons_iff, openCommits, openCommits, Bool.and_true, Bool.and_false]
    cases hcommit : operation.isCommit with
    | true =>
      left
      cases operation with
      | commit =>
        refine ⟨Or.inl rfl, ?_⟩
        show 1 + q.commit.openCommits opens false rest =
          0 + q.commit.openCommits opens false rest + 1
        omega
      | _ => cases hcommit
    | false =>
      rcases isOpenAfter_true_eq_or opens q operation with ⟨hsame, hends⟩ | ⟨hgoesOn, hsame⟩
      · right
        rw [hsame]
        refine ⟨?_, rfl⟩
        rintro (hfalse | ⟨hgoesOn, hgain, -⟩)
        · cases hfalse
        · exact hends ⟨hgoesOn, hgain⟩
      · rw [hsame, hsame]
        rcases ih (q.perform operation).2 with ⟨hidle, hone⟩ | ⟨hbusy, hsame'⟩
        · left
          refine ⟨Or.inr ⟨hgoesOn.1, hgoesOn.2, hidle⟩, ?_⟩
          rw [hone]
          rfl
        · right
          refine ⟨?_, by rw [hsame']⟩
          rintro (hfalse | ⟨-, -, hidle⟩)
          · cases hfalse
          · exact hbusy hidle

/-- What a start before a run changes where no message is open. -/
structure Redundant (q : Queue M S) (operations : List Operation) : Prop where
  /-- The caller gets to see the same answers. -/
  answers : (q.startMessage.run operations).1 = (q.run operations).1
  /-- Chunks, supplier, sink and all counts but one are the same. -/
  twins : (q.run operations).2.Twins (q.startMessage.run operations).2
  /-- The count of commits is the same or higher by one. -/
  commits : (q.startMessage.run operations).2.counters.messagesCommitted =
      (q.run operations).2.counters.messagesCommitted ∨
    (q.startMessage.run operations).2.counters.messagesCommitted =
      (q.run operations).2.counters.messagesCommitted + 1
  /-- The count is higher where there are chunks, and the run commits the message that was started
  as it is. -/
  ahead_iff : (q.startMessage.run operations).2.counters.messagesCommitted =
      (q.run operations).2.counters.messagesCommitted + 1 ↔
    q.chain ≠ [] ∧ q.CommitsIdly operations

omit [Sink S] in
theorem twins_startMessage {q : Queue M S} (hclosed : q.cursor = none) :
    q.Twins q.startMessage := by
  unfold startMessage
  rw [rollback_of_cursor_eq_none hclosed]
  exact ⟨rfl, rfl, rfl, rfl, rfl⟩

/-- After a start, the first commits are those of the message that was started, if there is a chunk
for it to begin in. -/
theorem messagesCommitted_run_startMessage {q : Queue M S} (hq : q.WellFormed)
    (hclosed : q.cursor = none) (operations : List Operation) :
    (q.startMessage.run operations).2.counters.messagesCommitted =
      q.counters.messagesCommitted +
        q.openCommits keepsChunks (!q.chain.isEmpty) operations := by
  have htwins := twins_startMessage hclosed
  have hopen : q.startMessage.cursor.isSome = !q.chain.isEmpty := by
    have hstarted := q.isSome_cursor_perform .startMessage
    rwa [isOpenAfter, keepsChunks, rollback_of_cursor_eq_none hclosed] at hstarted
  have hcounted : q.startMessage.counters.messagesCommitted = q.counters.messagesCommitted :=
    messagesCommitted_rollback q
  rw [messagesCommitted_run, hopen, hcounted, htwins.openCommits_eq hq hq.startMessage]

/-- Either the run commits the message that was started as it is, or the count is the same. -/
theorem messagesCommitted_startMessage_or {q : Queue M S} (hq : q.WellFormed)
    (hclosed : q.cursor = none) (operations : List Operation) :
    (q.chain ≠ [] ∧ q.CommitsIdly operations) ∧
        (q.startMessage.run operations).2.counters.messagesCommitted =
          (q.run operations).2.counters.messagesCommitted + 1 ∨
      ¬ (q.chain ≠ [] ∧ q.CommitsIdly operations) ∧
        (q.startMessage.run operations).2.counters.messagesCommitted =
          (q.run operations).2.counters.messagesCommitted := by
  have hplain := messagesCommitted_run q operations
  rw [hclosed, Option.isSome_none] at hplain
  rw [messagesCommitted_run_startMessage hq hclosed, hplain]
  cases q.chain with
  | nil => exact Or.inr ⟨fun h => h.1 rfl, rfl⟩
  | cons chunk rest =>
    rw [List.isEmpty_cons, Bool.not_false]
    rcases openCommits_true keepsChunks q operations with ⟨hidly, hone⟩ | ⟨hbusy, hsame⟩
    · left
      refine ⟨⟨List.cons_ne_nil _ _, hidly⟩, ?_⟩
      rw [hone, Nat.add_assoc]
    · right
      refine ⟨fun h => hbusy h.2, ?_⟩
      rw [hsame]

/-- **A redundant start.** In every queue that a caller can bring about, if no message is open, a
run does the same whether or not a message is started first. So does every beginning of the run,
which is a run itself. -/
theorem redundant_of_reachable {q : Queue M S} (h : Reachable q) (hclosed : q.cursor = none)
    (operations : List Operation) : q.Redundant operations := by
  have hq := wellFormed_of_reachable h
  obtain ⟨hanswers, htwins⟩ :=
    (twins_startMessage hclosed).run hq hq.startMessage operations
  rcases messagesCommitted_startMessage_or hq hclosed operations with
    ⟨hidly, hahead⟩ | ⟨hbusy, hsame⟩
  · exact ⟨hanswers, htwins, Or.inr hahead, ⟨fun _ => hidly, fun _ => hahead⟩⟩
  · refine ⟨hanswers, htwins, Or.inl hsame, ?_⟩
    constructor
    · intro hahead
      omega
    · intro hidly
      exact absurd hidly hbusy

/-- Behind one committed chunk, a commit that finds nothing to commit is counted after a start, and
not without it. -/
theorem redundant_of_reachable_idle :
    ∃ q : Queue Shelf Transcript, Reachable q ∧ q.cursor = none ∧
      q.Redundant [.recycle .empty, .commit, .pop] ∧
      (q.run [.recycle .empty, .commit, .pop]).2.counters.messagesCommitted = 1 ∧
      (q.startMessage.run [.recycle .empty, .commit, .pop]).2.counters.messagesCommitted = 2 := by
  have hreachable : Reachable (Queue.new ({} : Shelf) ({} : Transcript)) := .new _ _
  have hq := hreachable.run [.write (.word16 1), .commit]
  exact ⟨_, hq, rfl, redundant_of_reachable hq rfl _, rfl, rfl⟩

end Queue

end WireQueue

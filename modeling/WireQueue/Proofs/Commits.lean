import WireQueue.Proofs.Dealings
import WireQueue.Proofs.Framing
import WireQueue.Proofs.Packing

/-! # Which commits are counted

A queue has no flag for an open message. It has a cursor, and a commit is counted if the cursor is
set. `Queue.isOpenAfter` follows a message through a run without it: a write that stores something
opens one, a commit or anything that takes chunks off the chain closes it. When a start opens one is
left open there.

A start sets the cursor to the last chunk. Where no chunk is left there is nothing to set it to, so
that a start opens a message only on a chain that holds some, and committing an empty message to an
empty chain counts nothing.

* `Queue.isSome_cursor_perform` — the cursor is set as long as a message is open.
* `Queue.messagesCommitted_run` — so the commits counted are those of an open message. -/

namespace WireQueue

theorem Counters.messagesCommitted_countRollback (dropped : Nat) (counters : Counters) :
    (counters.countRollback dropped).messagesCommitted = counters.messagesCommitted := by
  unfold countRollback
  split
  · rfl
  · rfl

namespace Queue

variable {M S : Type} [Supplier M]

/-! ### A message in view of a run -/

/-- A start would find a chunk on the chain, behind what it drops. -/
def keepsChunks (q : Queue M S) : Bool := !q.rollback.chain.isEmpty

variable [Sink S]

/-- Whether a message is open after an operation, if `isOpen` says so of the time before it and
`opens` of every start. -/
def isOpenAfter (opens : Queue M S → Bool) (q : Queue M S) (isOpen : Bool) : Operation → Bool
  | .startMessage => opens q
  | .write write => isOpen || 0 < q.gain (.write write)
  | .commit | .clear | .pop | .flush => false
  | .recycle _ => isOpen

/-- The number of commits in a run that find a message open. -/
def openCommits (opens : Queue M S → Bool) (q : Queue M S) (isOpen : Bool) : List Operation → Nat
  | [] => 0
  | operation :: rest =>
    (operation.isCommit && isOpen).toNat +
      (q.perform operation).2.openCommits opens (q.isOpenAfter opens isOpen operation) rest

/-! ### The cursor is set as long as a message is open -/

omit [Sink S] in
/-- What a write stores, and that none of it is empty. -/
theorem grows_attempt_sized (write : Write) (q : Queue M S) :
    ∃ stored fresh, q.Grows stored fresh (write.attempt q).2 ∧ ∀ unit ∈ stored, unit.Sized := by
  rcases write.attempt_grows q with ⟨units, fresh, hunits, -, hgrows⟩ |
    ⟨stored, next, rest, fresh, fault, hunits, -, -, -, hgrows⟩ | ⟨fault, -, hrefused⟩
  · exact ⟨units, fresh, hgrows, Write.sized_units hunits⟩
  · exact ⟨stored, fresh, hgrows, (List.forall_mem_append.mp (Write.sized_units hunits)).1⟩
  · rw [hrefused]
    exact ⟨[], 0, .refl q, List.forall_mem_nil _⟩

omit [Sink S] in
theorem gain_of_grows {write : Write} {q : Queue M S} {stored : List WireUnit} {fresh : Nat}
    (hgrows : q.Grows stored fresh (write.attempt q).2) :
    q.gain (.write write) = (unitBytes stored).length := by
  rw [gain, ← Chain.length_bytes, hgrows.laid.bytes, List.length_append, Chain.length_bytes,
    Nat.add_sub_cancel_left]

omit [Sink S] in
/-- A write leaves an open message open, and opens one if it stores anything. -/
theorem isSome_cursor_attempt (write : Write) (q : Queue M S) :
    (write.attempt q).2.cursor.isSome = (q.cursor.isSome || 0 < q.gain (.write write)) := by
  obtain ⟨stored, fresh, hgrows, hsized⟩ := grows_attempt_sized write q
  obtain ⟨opening, hcursor⟩ := hgrows.cursor
  rw [hcursor, gain_of_grows hgrows]
  cases stored with
  | nil => simp
  | cons unit stored =>
    have hpos := (hsized unit List.mem_cons_self).1
    have hgain : 0 < (unitBytes (unit :: stored)).length := by
      rw [unitBytes_cons, List.length_append]
      omega
    rw [decide_eq_true hgain, Bool.or_true]
    cases q.cursor <;> rfl

omit [Sink S] in
theorem cursor_pop (q : Queue M S) : q.pop.2.cursor = none := by
  rw [pop_eq]
  cases q.rollback.chain with
  | nil => exact cursor_rollback q
  | cons chunk rest => exact cursor_rollback q

/-- **The cursor is the open message.** An operation leaves it set if and only if it leaves a
message open. -/
theorem isSome_cursor_perform (q : Queue M S) (operation : Operation) :
    (q.perform operation).2.cursor.isSome =
      q.isOpenAfter keepsChunks q.cursor.isSome operation := by
  cases operation with
  | startMessage =>
    show (if q.rollback.chain.isEmpty then none else some _).isSome = !q.rollback.chain.isEmpty
    cases q.rollback.chain.isEmpty <;> rfl
  | commit =>
    show q.commit.cursor.isSome = false
    rw [cursor_commit]
    rfl
  | clear => rfl
  | write write => exact isSome_cursor_attempt write q
  | pop =>
    show q.pop.2.cursor.isSome = false
    rw [cursor_pop]
    rfl
  | flush =>
    show q.flush.2.cursor.isSome = false
    rw [cursor_flush]
    rfl
  | recycle chunk => rfl

/-! ### The count -/

omit [Sink S] in
theorem messagesCommitted_rollback (q : Queue M S) :
    q.rollback.counters.messagesCommitted = q.counters.messagesCommitted := by
  cases hcursor : q.cursor with
  | none => rw [rollback_of_cursor_eq_none hcursor]
  | some first =>
    simp only [rollback, hcursor]
    exact Counters.messagesCommitted_countRollback _ _

/-- Only a commit is counted as one, and only if the cursor is set. -/
theorem messagesCommitted_perform (q : Queue M S) (operation : Operation) :
    (q.perform operation).2.counters.messagesCommitted =
      q.counters.messagesCommitted + (operation.isCommit && q.cursor.isSome).toNat := by
  cases operation with
  | startMessage => exact messagesCommitted_rollback q
  | commit =>
    show q.commit.counters.messagesCommitted = _
    cases hcursor : q.cursor with
    | none => simp only [commit, hcursor]; rfl
    | some first => simp only [commit, hcursor]; rfl
  | clear => rfl
  | write write =>
    obtain ⟨stored, fresh, hgrows⟩ := grows_attempt write q
    show (write.attempt q).2.counters.messagesCommitted = q.counters.messagesCommitted
    rw [hgrows.counters]
    rfl
  | pop =>
    show q.pop.2.counters.messagesCommitted = q.counters.messagesCommitted
    rw [pop_eq, ← messagesCommitted_rollback q]
    cases q.rollback.chain <;> rfl
  | flush =>
    show q.flush.2.counters.messagesCommitted = q.counters.messagesCommitted
    rw [flush_eq, ← messagesCommitted_rollback q]
    exact counters_dispatchAll (fun _ _ => rfl) (fun _ => rfl) { q.rollback with chain := [] } _
  | recycle chunk => rfl

/-- Along a run, the commits counted are those that find a message open. -/
theorem messagesCommitted_run (q : Queue M S) (operations : List Operation) :
    (q.run operations).2.counters.messagesCommitted =
      q.counters.messagesCommitted + q.openCommits keepsChunks q.cursor.isSome operations := by
  induction operations generalizing q with
  | nil => rfl
  | cons operation rest ih =>
    show ((q.perform operation).2.run rest).2.counters.messagesCommitted = _
    rw [ih, messagesCommitted_perform, isSome_cursor_perform, openCommits, Nat.add_assoc]

/-- **Commits of open messages.** In a run of a new queue, over any supplier and any sink, the
commits counted are those of open messages, where a start opens one unless it finds no chunk. -/
theorem messagesCommitted_run_new (supply : M) (sink : S) (operations : List Operation) :
    ((Queue.new supply sink).run operations).2.counters.messagesCommitted =
      (Queue.new supply sink).openCommits keepsChunks false operations := by
  rw [messagesCommitted_run]
  exact Nat.zero_add _

/-- Not every start opens a message: one on an empty chain is committed without being counted. -/
theorem messagesCommitted_run_new_empty :
    ¬ ∀ operations : List Operation,
      ((Queue.new ({} : Shelf) ({} : Transcript)).run operations).2.counters.messagesCommitted =
        (Queue.new ({} : Shelf) ({} : Transcript)).openCommits (fun _ => true) false operations := by
  intro h
  have hcounted := h [.startMessage, .commit]
  cases hcounted

end Queue

end WireQueue

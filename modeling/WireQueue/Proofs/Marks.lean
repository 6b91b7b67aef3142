import WireQueue.Chain

/-! # Commit marks along a chain

The cursor of a queue says where in the chain the open message begins. `Chain.Marked` states what
that means for the marks of the chunks: before the cursor everything is committed, after it nothing
is, and without a cursor there is no open message at all.

* `Chain.Marked.bytes_eq` — the bytes of a marked chain are the committed ones and then those of the
  open message, although each chunk keeps the two apart for itself.
* `Chain.Marked.take_append_rollback` and its siblings — rolling back or committing from the cursor
  on is rolling back or committing the whole chain, so that the cursor saves work and decides
  nothing. -/

namespace WireQueue

/-- A chunk with nothing in it is the empty chunk. -/
theorem Chunk.eq_empty_of_isEmpty {chunk : Chunk} (h : chunk.isEmpty = true) :
    chunk = Chunk.empty := by
  obtain ⟨committed, uncommitted⟩ := chunk
  simp only [Chunk.isEmpty, Chunk.length, beq_iff_eq, Nat.add_eq_zero_iff,
    List.length_eq_zero_iff] at h
  obtain ⟨rfl, rfl⟩ := h
  rfl

theorem Chunk.rollback_of_uncommitted_eq_nil {chunk : Chunk} (h : chunk.uncommitted = []) :
    chunk.rollback = chunk := by
  rw [Chunk.rollback, ← h]

theorem Chunk.commit_of_uncommitted_eq_nil {chunk : Chunk} (h : chunk.uncommitted = []) :
    chunk.commit = chunk := by
  obtain ⟨committed, uncommitted⟩ := chunk
  cases h
  simp [Chunk.commit, Chunk.bytes]

theorem Chunk.length_commit (chunk : Chunk) : chunk.commit.length = chunk.length := by
  rw [← length_bytes, bytes_commit, length_bytes]

namespace Chain

/-- Every byte is committed. -/
def Settled (chain : Chain) : Prop := ∀ chunk ∈ chain, chunk.uncommitted = []

/-- No byte is committed. -/
def Fresh (chain : Chain) : Prop := ∀ chunk ∈ chain, chunk.committed = []

/-- The chunks hold bytes, and no more than their capacity. -/
def Filled (chain : Chain) : Prop := ∀ chunk ∈ chain, chunk.isEmpty = false ∧ chunk.Fits

/-- What the cursor says about the marks of the chunks. -/
inductive Marked : Chain → Option Nat → Prop where
  /-- No message is open. -/
  | closed {chain : Chain} (h : Settled chain) : Marked chain none
  /-- The open message begins in `chunk`, behind bytes that may be committed. -/
  | opened {front back : Chain} (chunk : Chunk) (hfront : Settled front) (hback : Fresh back) :
      Marked (front ++ chunk :: back) (some front.length)

/-! ### Settled and fresh chains -/

theorem Settled.uncommitted_eq_nil {chain : Chain} (h : Settled chain) : chain.uncommitted = [] :=
  List.flatMap_eq_nil_iff.mpr h

theorem Settled.bytes_eq {chain : Chain} (h : Settled chain) : chain.bytes = chain.committed := by
  rw [bytes, committed, List.flatMap_def, List.flatMap_def]
  apply congrArg List.flatten
  apply List.map_congr_left
  intro chunk hchunk
  rw [Chunk.bytes, h chunk hchunk, List.append_nil]

theorem Fresh.committed_eq_nil {chain : Chain} (h : Fresh chain) : chain.committed = [] :=
  List.flatMap_eq_nil_iff.mpr h

theorem Fresh.bytes_eq {chain : Chain} (h : Fresh chain) : chain.bytes = chain.uncommitted := by
  rw [bytes, uncommitted, List.flatMap_def, List.flatMap_def]
  apply congrArg List.flatten
  apply List.map_congr_left
  intro chunk hchunk
  rw [Chunk.bytes, h chunk hchunk, List.nil_append]

theorem rollback_append (front back : Chain) :
    rollback (front ++ back) = rollback front ++ rollback back := by
  rw [rollback, List.map_append, List.filter_append]
  rfl

theorem emptied_append (front back : Chain) :
    emptied (front ++ back) = emptied front ++ emptied back := by
  rw [emptied, List.map_append, List.filter_append]
  rfl

theorem commit_append (front back : Chain) : commit (front ++ back) = commit front ++ commit back :=
  List.map_append

/-- A rollback leaves only committed bytes. -/
theorem settled_rollback (chain : Chain) : Settled chain.rollback := by
  intro chunk hchunk
  obtain ⟨hmem, -⟩ := List.mem_filter.mp hchunk
  obtain ⟨original, -, rfl⟩ := List.mem_map.mp hmem
  rfl

theorem size_commit (chain : Chain) : chain.commit.size = chain.size := by
  rw [← length_bytes, bytes_commit, length_bytes]

theorem settled_commit (chain : Chain) : Settled chain.commit := by
  intro chunk hchunk
  obtain ⟨original, -, rfl⟩ := List.mem_map.mp hchunk
  rfl

/-- The chunks that a rollback takes out are all alike. -/
theorem emptied_eq_replicate (chain : Chain) :
    chain.emptied = List.replicate chain.emptied.length Chunk.empty := by
  rw [List.eq_replicate_iff]
  refine ⟨rfl, ?_⟩
  intro chunk hchunk
  exact Chunk.eq_empty_of_isEmpty (List.mem_filter.mp hchunk).2

theorem Settled.map_rollback {chain : Chain} (h : Settled chain) :
    chain.map Chunk.rollback = chain := by
  rw [List.map_congr_left fun chunk hchunk => Chunk.rollback_of_uncommitted_eq_nil (h chunk hchunk),
    List.map_id']

/-- There is nothing to roll back in a settled chain. -/
theorem Settled.rollback_eq {chain : Chain} (h : Settled chain) (hfilled : Filled chain) :
    chain.rollback = chain := by
  rw [rollback, h.map_rollback, List.filter_eq_self]
  intro chunk hchunk
  rw [(hfilled chunk hchunk).1]
  rfl

/-- A rollback leaves no chunk of a settled chain empty. -/
theorem Settled.emptied_eq {chain : Chain} (h : Settled chain) (hfilled : Filled chain) :
    chain.emptied = [] := by
  rw [emptied, h.map_rollback, List.filter_eq_nil_iff]
  intro chunk hchunk
  rw [(hfilled chunk hchunk).1]
  decide

/-- There is nothing to commit in a settled chain. -/
theorem Settled.commit_eq {chain : Chain} (h : Settled chain) : chain.commit = chain := by
  rw [commit, List.map_congr_left fun chunk hchunk =>
    Chunk.commit_of_uncommitted_eq_nil (h chunk hchunk), List.map_id']

/-! ### Filled chains -/

theorem Filled.rollback {chain : Chain} (h : Filled chain) : Filled chain.rollback := by
  intro chunk hchunk
  obtain ⟨hmem, hne⟩ := List.mem_filter.mp hchunk
  obtain ⟨original, horiginal, rfl⟩ := List.mem_map.mp hmem
  refine ⟨by simpa using hne, ?_⟩
  have hfits := (h original horiginal).2
  rw [Chunk.Fits, Chunk.length_rollback]
  exact Nat.le_trans (Nat.le_add_right _ _) hfits

theorem Filled.commit {chain : Chain} (h : Filled chain) : Filled chain.commit := by
  intro chunk hchunk
  obtain ⟨original, horiginal, rfl⟩ := List.mem_map.mp hchunk
  rw [Chunk.isEmpty, Chunk.Fits, Chunk.length_commit]
  exact h original horiginal

/-! ### Marked chains -/

/-- **Committed first.** In a marked chain all committed bytes come before those of the open
message. -/
theorem Marked.bytes_eq {chain : Chain} {cursor : Option Nat} (h : Marked chain cursor) :
    chain.bytes = chain.committed ++ chain.uncommitted := by
  cases h with
  | closed h => rw [h.bytes_eq, h.uncommitted_eq_nil, List.append_nil]
  | opened chunk hfront hback =>
    rw [bytes_append, bytes_cons, committed_append, committed_cons, uncommitted_append,
      uncommitted_cons, hfront.bytes_eq, hback.bytes_eq, hfront.uncommitted_eq_nil,
      hback.committed_eq_nil, Chunk.bytes]
    simp

/-- Without a cursor there is no open message. -/
theorem Marked.settled {chain : Chain} (h : Marked chain none) : Settled chain := by
  generalize hcursor : (none : Option Nat) = cursor at h
  cases h with
  | closed h => exact h
  | opened chunk hfront hback => cases hcursor

/-- The cursor points at a chunk of the chain. -/
theorem Marked.cursor_lt {chain : Chain} {first : Nat} (h : Marked chain (some first)) :
    first < chain.length := by
  cases h
  rw [List.length_append, List.length_cons]
  omega

/-- The chunks before the cursor are settled. -/
theorem Marked.settled_take {chain : Chain} {first : Nat} (h : Marked chain (some first)) :
    Settled (chain.take first) := by
  cases h with
  | opened chunk hfront hback => rwa [List.take_left]

/-- The chunks after the cursor are fresh. -/
theorem Marked.fresh_drop {chain : Chain} {first : Nat} (h : Marked chain (some first)) :
    Fresh (chain.drop (first + 1)) := by
  cases h with
  | opened chunk hfront hback =>
    rw [List.drop_append, List.drop_eq_nil_of_le (Nat.le_succ _), Nat.add_sub_cancel_left]
    exact hback

theorem Marked.uncommitted_of_lt {chain : Chain} {first i : Nat} {chunk : Chunk}
    (h : Marked chain (some first)) (hi : i < first) (hget : chain[i]? = some chunk) :
    chunk.uncommitted = [] := by
  apply h.settled_take
  apply List.mem_of_getElem?
  rwa [List.getElem?_take_of_lt hi]

theorem Marked.committed_of_gt {chain : Chain} {first i : Nat} {chunk : Chunk}
    (h : Marked chain (some first)) (hi : first < i) (hget : chain[i]? = some chunk) :
    chunk.committed = [] := by
  apply h.fresh_drop
  apply List.mem_of_getElem? (i := i - (first + 1))
  rwa [List.getElem?_drop, Nat.add_sub_cancel' hi]

/-- No message is open in a chain without chunks. -/
theorem Marked.cursor_eq_none {cursor : Option Nat} (h : Marked [] cursor) : cursor = none := by
  cases cursor with
  | none => rfl
  | some first =>
    have hlt := h.cursor_lt
    cases hlt

/-- Rolling back from the cursor on is rolling back the whole chain. -/
theorem Marked.take_append_rollback {chain : Chain} {first : Nat} (h : Marked chain (some first))
    (hfilled : Filled chain) :
    chain.take first ++ rollback (chain.drop first) = chain.rollback := by
  have hfront := h.settled_take.rollback_eq (fun chunk hchunk =>
    hfilled chunk (List.mem_of_mem_take hchunk))
  calc chain.take first ++ rollback (chain.drop first)
      = rollback (chain.take first) ++ rollback (chain.drop first) := by rw [hfront]
    _ = chain.rollback := by rw [← rollback_append, List.take_append_drop]

/-- Rolling back from the cursor on takes out the same chunks as rolling back the whole chain. -/
theorem Marked.emptied_drop {chain : Chain} {first : Nat} (h : Marked chain (some first))
    (hfilled : Filled chain) : emptied (chain.drop first) = chain.emptied := by
  have hfront := h.settled_take.emptied_eq (fun chunk hchunk =>
    hfilled chunk (List.mem_of_mem_take hchunk))
  calc emptied (chain.drop first)
      = emptied (chain.take first) ++ emptied (chain.drop first) := by rw [hfront, List.nil_append]
    _ = chain.emptied := by rw [← emptied_append, List.take_append_drop]

/-- All bytes of the open message lie from the cursor on. -/
theorem Marked.uncommitted_drop {chain : Chain} {first : Nat} (h : Marked chain (some first)) :
    uncommitted (chain.drop first) = chain.uncommitted := by
  calc uncommitted (chain.drop first)
      = uncommitted (chain.take first) ++ uncommitted (chain.drop first) := by
        rw [h.settled_take.uncommitted_eq_nil, List.nil_append]
    _ = chain.uncommitted := by rw [← uncommitted_append, List.take_append_drop]

/-- Committing from the cursor on is committing the whole chain. -/
theorem Marked.take_append_commit {chain : Chain} {first : Nat} (h : Marked chain (some first)) :
    chain.take first ++ commit (chain.drop first) = chain.commit := by
  calc chain.take first ++ commit (chain.drop first)
      = commit (chain.take first) ++ commit (chain.drop first) := by rw [h.settled_take.commit_eq]
    _ = chain.commit := by rw [← commit_append, List.take_append_drop]

/-! ### How marked chains grow -/

/-- Adding to the last chunk opens a message there, unless one is open. -/
theorem Marked.append_last {front : Chain} {last : Chunk} {cursor : Option Nat}
    (h : Marked (front ++ [last]) cursor) (added : List UInt8) :
    Marked (front ++ [last.append added]) (cursor.or (some front.length)) := by
  generalize hchain : front ++ [last] = chain at h
  cases h with
  | closed h =>
    subst hchain
    exact .opened _ (List.forall_mem_append.mp h).1 (List.forall_mem_nil _)
  | @opened front' back chunk hfront hback =>
    -- The last chunk is either the one under the cursor or one of the fresh ones behind it.
    rcases List.eq_nil_or_concat back with rfl | ⟨back, last', rfl⟩
    · obtain ⟨rfl, -⟩ := List.append_inj' hchain rfl
      exact .opened _ hfront (List.forall_mem_nil _)
    · rw [List.concat_eq_append] at hback hchain
      rw [← List.cons_append, ← List.append_assoc] at hchain
      obtain ⟨rfl, hlast⟩ := List.append_inj' hchain rfl
      cases hlast
      rw [List.append_assoc, List.cons_append]
      obtain ⟨hback, hlast⟩ := List.forall_mem_append.mp hback
      refine .opened chunk hfront (List.forall_mem_append.mpr ⟨hback, ?_⟩)
      -- What is added to the last chunk is not committed, so that it stays fresh.
      refine List.forall_mem_singleton.mpr ?_
      exact hlast last List.mem_cons_self

/-- A further chunk with no committed bytes opens a message there, unless one is open. -/
theorem Marked.append_fresh {chain : Chain} {cursor : Option Nat} (h : Marked chain cursor)
    (added : List UInt8) :
    Marked (chain ++ [Chunk.empty.append added]) (cursor.or (some chain.length)) := by
  cases h with
  | closed h => exact .opened _ h (List.forall_mem_nil _)
  | opened chunk hfront hback =>
    rw [List.append_assoc, List.cons_append]
    refine .opened chunk hfront (List.forall_mem_append.mpr ⟨hback, ?_⟩)
    exact List.forall_mem_singleton.mpr rfl

end Chain

end WireQueue

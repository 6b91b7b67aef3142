import WireQueue.Proofs.Dealings
import WireQueue.Proofs.Packing
import WireQueue.Proofs.Rollback

/-! # Chunks in custody

A chunk that has left a queue is in somebody's custody: the caller has popped it, or the sink has
kept it. It stays in circulation until it is recycled. `Queue.Custody` describes the queues over a
pool whose callers keep to that: they recycle what is in custody, each chunk once, and leave the
pool itself alone.

* `Queue.Balanced.perform` — what is in circulation is in the chain or in custody, and every
  operation keeps it so.
* `Pool.Within.acquire`, `Pool.Within.reclaim` — a pool stays within its limits.
* `Queue.Custody.outstanding_of_refused` — a write runs out of chunks where all that the pool may
  hand out are in circulation.
* `Queue.LacksRoom.length_mul_le_size` — and where those in the chain are nearly full. -/

namespace WireQueue

/-! ### The pool and its limits -/

namespace Pool

/-- A pool of which nothing has been asked yet. -/
def fresh (maxPooled : Nat) (maxOutstanding : Option Nat) : Pool := { maxPooled, maxOutstanding }

/-- The pool has these limits and is within them. -/
structure Within (maxPooled : Nat) (maxOutstanding : Option Nat) (pool : Pool) : Prop where
  maxPooled_eq : pool.maxPooled = maxPooled
  maxOutstanding_eq : pool.maxOutstanding = maxOutstanding
  outstanding_le : ∀ limit, maxOutstanding = some limit → pool.outstanding ≤ limit
  pooled_le : pool.free.length ≤ maxPooled
  /-- What is kept for reuse is wiped. -/
  wiped : ∀ chunk ∈ pool.free, chunk = Chunk.empty

variable {maxPooled : Nat} {maxOutstanding : Option Nat} {pool : Pool}

theorem within_fresh (maxPooled : Nat) (maxOutstanding : Option Nat) :
    (fresh maxPooled maxOutstanding).Within maxPooled maxOutstanding where
  maxPooled_eq := rfl
  maxOutstanding_eq := rfl
  outstanding_le _ _ := Nat.zero_le _
  pooled_le := Nat.zero_le _
  wiped := List.forall_mem_nil _

/-- The pool refuses a chunk at its limit, and hands one out below it. -/
theorem acquire_cases (pool : Pool) :
    (∃ limit, pool.maxOutstanding = some limit ∧ limit ≤ pool.outstanding ∧
        Supplier.acquire pool = (.error (.exhausted ⟨pool.outstanding, limit⟩), pool)) ∨
      (∀ limit, pool.maxOutstanding = some limit → pool.outstanding < limit) ∧
        Supplier.acquire pool =
          (.ok (pool.free.headD .empty),
            { pool with free := pool.free.tail, outstanding := pool.outstanding + 1 }) := by
  have hacquire : Supplier.acquire pool = pool.acquire := rfl
  rw [hacquire, acquire, shortage?]
  cases hlimit : pool.maxOutstanding with
  | none =>
    right
    refine ⟨?_, rfl⟩
    intro limit h
    cases h
  | some limit =>
    by_cases hreached : limit ≤ pool.outstanding
    · left
      refine ⟨limit, rfl, hreached, ?_⟩
      simp only [if_pos hreached]
    · right
      refine ⟨?_, ?_⟩
      · intro limit' h
        cases h
        exact Nat.not_le.mp hreached
      · simp only [if_neg hreached]

theorem Within.acquire (h : pool.Within maxPooled maxOutstanding) :
    (Supplier.acquire pool).2.Within maxPooled maxOutstanding := by
  rcases acquire_cases pool with ⟨limit, -, -, hrefused⟩ | ⟨hbelow, hgranted⟩
  · rw [hrefused]
    exact h
  · rw [hgranted]
    exact
      { h with
        outstanding_le := by
          intro limit hlimit
          exact hbelow limit (h.maxOutstanding_eq.trans hlimit)
        pooled_le := by
          apply Nat.le_trans _ h.pooled_le
          exact (List.tail_sublist pool.free).length_le
        wiped := by
          intro chunk hchunk
          exact h.wiped chunk (List.mem_of_mem_tail hchunk) }

theorem Within.reclaim (h : pool.Within maxPooled maxOutstanding) (chunk : Chunk) :
    (Supplier.reclaim pool chunk).Within maxPooled maxOutstanding := by
  have hreclaim : Supplier.reclaim pool chunk = pool.reclaim chunk := rfl
  have hlower : ∀ limit, maxOutstanding = some limit → pool.outstanding - 1 ≤ limit := by
    intro limit hlimit
    exact Nat.le_trans (Nat.sub_le _ _) (h.outstanding_le limit hlimit)
  rw [hreclaim, Pool.reclaim]
  by_cases hspace : pool.free.length < pool.maxPooled
  · simp only [if_pos hspace]
    exact
      { h with
        outstanding_le := hlower
        pooled_le := by
          rw [← h.maxPooled_eq]
          exact hspace
        wiped := List.forall_mem_cons.mpr ⟨rfl, h.wiped⟩ }
  · simp only [if_neg hspace]
    exact { h with outstanding_le := hlower }

end Pool

def Operation.isRecycle : Operation → Bool
  | recycle _ => true
  | _ => false

namespace Queue

variable {S : Type} [Sink S]

/-! ### Callers that recycle what is in custody -/

/-- The chunks that come into custody in an operation: what is popped, and what the sink keeps. -/
def takenOut {M : Type} [Supplier M] (q : Queue M S) (operation : Operation) : List Chunk :=
  (q.perform operation).1.chunks ++ Sink.kept q.sink (q.delivered operation)

/-- `pool.Custody held q`: over the pool, a caller may have brought about the queue, with the chunks
`held` in its own custody or in that of the sink. -/
inductive Custody (pool : Pool) : List Chunk → Queue Pool S → Prop where
  | new (sink : S) : Custody pool [] (Queue.new pool sink)
  | perform {held : List Chunk} {q : Queue Pool S} (h : Custody pool held q)
      (operation : Operation) (hother : operation.isRecycle = false) :
      Custody pool (held ++ q.takenOut operation) (q.perform operation).2
  /-- A chunk in custody is recycled. Whoever has had it may have put something else into it. -/
  | recycle {held : List Chunk} {q : Queue Pool S} (h : Custody pool held q) {taken : Chunk}
      (htaken : taken ∈ held) (chunk : Chunk) :
      Custody pool (held.erase taken) (q.perform (.recycle chunk)).2
  /-- The caller does something to the sink, such as taking from it what it has kept. -/
  | tend {held : List Chunk} {q : Queue Pool S} (h : Custody pool held q) (sink : S) :
      Custody pool held { q with sink }

variable {pool : Pool} {held : List Chunk} {q : Queue Pool S}

theorem Custody.reachable (h : Custody pool held q) : Reachable q := by
  induction h with
  | new sink => exact .new pool sink
  | perform _ operation _ ih => exact ih.perform operation
  | recycle _ _ chunk ih => exact ih.perform (.recycle chunk)
  | @tend _ q _ sink ih => exact ih.exchange q.supply sink

/-! ### What is in circulation -/

/-- A chunk in circulation is in the chain or in custody, and a drained chunk is in custody or has
been recycled. -/
structure Balanced (held : List Chunk) (q : Queue Pool S) : Prop where
  outstanding : q.supply.outstanding = q.chunkCount + held.length
  drained : q.counters.chunksDrained = held.length + q.counters.chunksRecycled

/-- Chunks come into custody as they leave, unless the sink gives one back at once. -/
theorem length_takenOut {M : Type} [Supplier M] (q : Queue M S) {operation : Operation}
    (hother : operation.isRecycle = false) :
    (q.takenOut operation).length + (q.returned operation).length =
      (q.leaving operation).length := by
  cases operation with
  | flush => exact Sink.length_kept_add_length_givenBack q.sink q.rollback.chain
  | recycle chunk => cases hother
  | _ => rfl

/-- **The step.** The balance is kept, if custody is kept of what leaves and given up of what comes
back. -/
theorem Balanced.perform {held' : List Chunk} (h : Balanced held q) (operation : Operation)
    (hheld : held'.length + (q.returned operation).length =
      held.length + (q.leaving operation).length) :
    Balanced held' (q.perform operation).2 := by
  obtain ⟨houtstanding, hdrained⟩ := h
  rcases q.deals_perform operation with ⟨write, units, fresh, rfl, hgrows⟩ | ⟨released, hback⟩
  · have hlength : held'.length = held.length := hheld
    have hchain := hgrows.laid.length_eq
    exact
      { outstanding := by
          rw [Pool.outstanding_of_drawn hgrows.supply, chunkCount, hchain, houtstanding, chunkCount,
            hlength]
          omega
        drained := by
          rw [hgrows.counters, hlength]
          exact hdrained }
  · obtain ⟨chunks, hlength, hsupply⟩ := hback.supply
    have hcount := hback.chunkCount
    exact
      { outstanding := by
          rw [hsupply, Pool.outstanding_reclaimAll]
          omega
        drained := by
          rw [hback.drained, hback.recycled]
          omega }

/-- **The run.** As long as nothing is recycled but what is in custody, the pool is in balance. -/
theorem Custody.balanced {maxPooled : Nat} {maxOutstanding : Option Nat}
    (h : Custody (Pool.fresh maxPooled maxOutstanding) held q) : Balanced held q := by
  induction h with
  | new sink => exact ⟨rfl, rfl⟩
  | @perform held q _ operation hother ih =>
    apply ih.perform operation
    have htaken := length_takenOut q hother
    rw [List.length_append]
    omega
  | @recycle held q _ taken htaken chunk ih =>
    apply ih.perform (.recycle chunk)
    have hpos := List.length_pos_of_mem htaken
    show (held.erase taken).length + 1 = held.length + 0
    rw [List.length_erase_of_mem htaken]
    omega
  | tend _ sink ih => exact ⟨ih.outstanding, ih.drained⟩

theorem Custody.within {maxPooled : Nat} {maxOutstanding : Option Nat}
    (h : Custody (Pool.fresh maxPooled maxOutstanding) held q) :
    q.supply.Within maxPooled maxOutstanding := by
  have hacquire : ∀ pool : Pool, pool.Within maxPooled maxOutstanding →
      (Supplier.acquire pool).2.Within maxPooled maxOutstanding := fun _ h => h.acquire
  have hreclaim : ∀ (pool : Pool) (chunk : Chunk), pool.Within maxPooled maxOutstanding →
      (Supplier.reclaim pool chunk).Within maxPooled maxOutstanding := fun _ chunk h =>
    h.reclaim chunk
  induction h with
  | new sink => exact Pool.within_fresh maxPooled maxOutstanding
  | perform _ operation _ ih => exact supply_perform hacquire hreclaim ih operation
  | recycle _ _ chunk ih => exact supply_perform hacquire hreclaim ih (.recycle chunk)
  | tend _ sink ih => exact ih

/-- Where the pool has refused a write a chunk, all that it may hand out are in circulation, and it
has said so. -/
theorem Custody.outstanding_of_refused {maxPooled : Nat} {maxOutstanding : Option Nat}
    (h : Custody (Pool.fresh maxPooled maxOutstanding) held q) {write : Write} {fault : Fault}
    (hsupplier : Supplier.RefusedWith fault (write.attempt q).2.supply) :
    ∃ limit, maxOutstanding = some limit ∧ (write.attempt q).2.supply.outstanding = limit ∧
      fault = .exhausted ⟨limit, limit⟩ := by
  have hwithin : (write.attempt q).2.supply.Within maxPooled maxOutstanding :=
    (h.perform (.write write) rfl).within
  obtain ⟨pool', hrefused⟩ := hsupplier
  rcases Pool.acquire_cases pool' with ⟨limit, hlimit, hreached, hcall⟩ | ⟨-, hcall⟩
  · rw [hcall] at hrefused
    obtain ⟨hfault, hsame⟩ := Prod.mk.inj hrefused
    cases hfault
    subst hsame
    have hlimit' := hwithin.maxOutstanding_eq.symm.trans hlimit
    have heq := Nat.le_antisymm (hwithin.outstanding_le limit hlimit') hreached
    exact ⟨limit, hlimit', heq, by rw [heq]⟩
  · rw [hcall] at hrefused
    cases (Prod.mk.inj hrefused).1

/-! ### The accounts of a pool -/

/-- What can be said at any time of a queue over a pool that has these limits. -/
structure Accounted (maxPooled : Nat) (maxOutstanding : Option Nat) (q : Queue Pool S) : Prop where
  recycled_le : q.counters.chunksRecycled ≤ q.counters.chunksDrained
  /-- What is in circulation is in the chain, or has been drained and not recycled. -/
  outstanding : q.supply.outstanding =
    q.chunkCount + q.counters.chunksDrained - q.counters.chunksRecycled
  outstanding_le : ∀ limit, maxOutstanding = some limit → q.supply.outstanding ≤ limit
  pooled_le : q.supply.free.length ≤ maxPooled
  pooled_empty : ∀ chunk ∈ q.supply.free, chunk.length = 0 ∧ chunk.committed.length = 0
  /-- A write that runs out of chunks has no room for its next unit, and has got all the chunks that
  there are. -/
  exhausted : ∀ (write : Write) (shortage : Shortage),
    (write.attempt q).1 = .error (.exhausted shortage) →
    ∃ limit, maxOutstanding = some limit ∧ (write.attempt q).2.supply.outstanding = limit ∧
      shortage = ⟨limit, limit⟩ ∧
      ∃ stored next rest, write.units = .ok (stored ++ next :: rest) ∧
        (write.attempt q).2.bytes = q.bytes ++ unitBytes stored ∧
        (write.attempt q).2.LacksRoom next.bytes.length
  /-- The chunks of the chain go back when the queue is closed, and those in custody do not. -/
  close : q.close.1.outstanding + q.chunkCount = q.supply.outstanding

/-- **The pool keeps count.** As long as nothing is recycled but what is in custody, chunk by chunk,
the accounts of the pool are in order. -/
theorem accounted_of_custody {maxPooled : Nat} {maxOutstanding : Option Nat}
    (h : Custody (Pool.fresh maxPooled maxOutstanding) held q) :
    q.Accounted maxPooled maxOutstanding := by
  obtain ⟨houtstanding, hdrained⟩ := h.balanced
  have hwithin := h.within
  exact
    { recycled_le := by omega
      outstanding := by omega
      outstanding_le := hwithin.outstanding_le
      pooled_le := hwithin.pooled_le
      pooled_empty := by
        intro chunk hchunk
        rw [hwithin.wiped chunk hchunk]
        exact ⟨rfl, rfl⟩
      exhausted := by
        intro write shortage hexhausted
        obtain ⟨limit, hlimit, hreached, hfault⟩ :=
          h.outstanding_of_refused (Write.refused_of_exhausted hexhausted)
        refine ⟨limit, hlimit, hreached, Fault.exhausted.inj hfault, ?_⟩
        rcases Write.attempt_error_cases hexhausted with
          ⟨stored, next, rest, _, hunits, -, hlacks, hgrows⟩ | ⟨hunits, -⟩
        · exact ⟨stored, next, rest, hunits, hgrows.laid.bytes, hlacks⟩
        · exact absurd hunits (write.units_ne_exhausted shortage)
      close := by
        show (q.chain.foldl Supplier.reclaim q.supply).outstanding + q.chunkCount = _
        rw [Pool.outstanding_reclaimAll, houtstanding, chunkCount]
        omega }

/-- One chunk is popped and another one kept by the sink, and the first one is recycled after
somebody has wiped it. -/
theorem accounted_of_custody_wiped :
    ∃ (held : List Chunk) (q : Queue Pool Keeper), Custody (Pool.fresh 1 (some 2)) held q ∧
      q.Accounted 1 (some 2) ∧ held = [⟨[0, 2], []⟩] ∧ q.supply.outstanding = 1 ∧
      q.supply.free = [Chunk.empty] := by
  have hnew : Custody (Pool.fresh 1 (some 2)) [] (Queue.new _ ({} : Keeper)) := .new _
  have hpopped := ((hnew.perform (.write (.word16 1)) rfl).perform .commit rfl).perform .pop rfl
  have hkept :=
    ((hpopped.perform (.write (.word16 2)) rfl).perform .commit rfl).perform .flush rfl
  have hrecycled := hkept.recycle List.mem_cons_self Chunk.empty
  exact ⟨_, _, hrecycled, accounted_of_custody hrecycled, rfl, rfl, rfl⟩

/-! ### Enough chunks -/

omit [Sink S] in
/-- Where there is no room for a further unit, every chunk is nearly full. -/
theorem LacksRoom.length_mul_le_size {M : Type} {q : Queue M S} {unit : WireUnit}
    (hlacks : q.LacksRoom unit.bytes.length) (hsized : unit.Sized) (hpacked : q.chain.Packed) :
    q.chain.length * Chunk.leastFilled ≤ q.chain.size := by
  apply Chain.length_mul_le_size
  intro chunk hchunk
  rcases List.eq_nil_or_concat q.chain with hnil | ⟨front, last, hchain⟩
  · rw [hnil] at hchunk
    cases hchunk
  · rw [hchain, List.concat_eq_append] at hchunk hpacked
    rcases List.mem_append.mp hchunk with hfront | hlast
    · exact Chain.packed_concat_iff.mp hpacked chunk hfront
    · cases List.mem_singleton.mp hlast
      apply Chunk.leastFilled_le_length hsized
      apply hlacks
      rw [hchain, List.concat_eq_append, List.getLast?_concat]

/-- **Enough chunks.** Every chunk that a pool may still hand out stands for a number of bytes that
can be written, however the bytes are spread over the chunks. -/
theorem attempt_eq_ok_of_custody {maxPooled limit : Nat}
    (h : Custody (Pool.fresh maxPooled (some limit)) held q) {write : Write} {bytes : List UInt8}
    (hencoding : write.encoding = .ok bytes)
    (hfits : q.occupied + bytes.length ≤
      (limit - (q.counters.chunksDrained - q.counters.chunksRecycled)) * 16361) :
    (write.attempt q).1 = .ok () := by
  rcases write.attempt_grows q with ⟨_, _, -, hok, -⟩ |
    ⟨stored, next, rest, fresh, fault, hunits, -, hsupplier, hlacks, hgrows⟩ |
    ⟨fault, hunits, -⟩
  · exact hok
  · exfalso
    have hafter := h.perform (.write write) rfl
    have hreachable := hafter.reachable
    -- All chunks are in circulation, and those that are not in custody are nearly full.
    obtain ⟨_, hlimit, houtstanding, -⟩ := h.outstanding_of_refused hsupplier
    cases hlimit
    have hbalance : (write.attempt q).2.supply.outstanding =
        (write.attempt q).2.chain.length + (held ++ []).length := hafter.balanced.outstanding
    have hdrained := h.balanced.drained
    have hnext : next.Sized :=
      (List.forall_mem_append.mp (Write.sized_units hunits)).2 next List.mem_cons_self
    have hfull := hlacks.length_mul_le_size hnext (packed_of_reachable hreachable)
    -- But less than the whole write is stored.
    have hsize : (write.attempt q).2.chain.size = q.occupied + (unitBytes stored).length :=
      (wellFormed_of_reachable hreachable).occupied.symm.trans hgrows.occupied
    obtain ⟨missing, hmissing, hwhole⟩ := Write.encoding_of_units hunits
    rw [hencoding] at hwhole
    cases hwhole
    have hpos := List.length_pos_iff.mpr hmissing
    rw [List.length_append] at hfits
    rw [List.append_nil] at hbalance
    have hheld : q.counters.chunksDrained - q.counters.chunksRecycled = held.length := by omega
    rw [hheld] at hfits
    have hmul : (write.attempt q).2.chain.length * Chunk.leastFilled <
        (limit - held.length) * Chunk.leastFilled := by
      refine Nat.lt_of_le_of_lt hfull (Nat.lt_of_lt_of_le ?_ hfits)
      omega
    have hlt := Nat.lt_of_mul_lt_mul_right hmul
    omega
  · rw [Write.encoding, hunits] at hencoding
    cases hencoding

/-- With one of two chunks in custody, there is one for 16361 bytes. -/
theorem attempt_eq_ok_of_custody_popped :
    ∃ (held : List Chunk) (q : Queue Pool Transcript) (bytes : List UInt8),
      Custody (Pool.fresh 0 (some 2)) held q ∧ held.length = 1 ∧
      (Write.bytes bytes).encoding = .ok bytes ∧
      q.occupied + bytes.length =
        (2 - (q.counters.chunksDrained - q.counters.chunksRecycled)) * 16361 ∧
      ((Write.bytes bytes).attempt q).1 = .ok () := by
  obtain ⟨bytes, hbytes⟩ : ∃ bytes : List UInt8, bytes.length = 16361 :=
    ⟨List.replicate 16361 0, List.length_replicate⟩
  have hnew : Custody (Pool.fresh 0 (some 2)) [] (Queue.new _ ({} : Transcript)) := .new _
  have hpopped := ((hnew.perform (.write (.word16 1)) rfl).perform .commit rfl).perform .pop rfl
  have hencoding : (Write.bytes bytes).encoding = .ok bytes :=
    congrArg Except.ok (flatMap_valueUnits bytes)
  have hfits : 0 + bytes.length = (2 - (1 - 0)) * 16361 := by omega
  exact ⟨_, _, bytes, hpopped, rfl, hencoding, hfits,
    attempt_eq_ok_of_custody hpopped hencoding (Nat.le_of_eq hfits)⟩

end Queue

end WireQueue

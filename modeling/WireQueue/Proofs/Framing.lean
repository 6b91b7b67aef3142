import WireQueue.Proofs.HeaderCodec
import WireQueue.Proofs.Streams
import WireQueue.Supplier.Shelf
import Mathlib.Data.List.Forall2

/-! # Requests arrive whole

A caller that writes nothing but requests, and commits no message in which a request ran out of
chunks, makes a stream that the receiver splits into exactly these requests. The supplier must have
no other fault than that, or the caller could not tell a request that was cut short from one that
was refused.

`Frame.Carries` says what it is for a frame to bring a request across. A `Journal` is what the
caller can write down from the answers alone: which requests were accepted, and which of them belong
to committed messages.

* `Write.read?_encoding` — the encoding of a request is one frame, whatever follows it.
* `Journal.Tallies.step` — each step of a queue's byte strings keeps them in line with the journal.
* `Queue.WellFormed.tallies_run` — so does a whole run, and its stream reads back as the requests in
  the journal. -/

namespace WireQueue

/-! ### The receiver -/

namespace Frame

/-- A header and the payload that it announces are one frame. -/
theorem read?_encodeAs {header : Header} {extendedOk : Bool} {form : Header.Form}
    (hform : header.form extendedOk = .ok form) {payload : List UInt8}
    (hpayload : payload.length = header.payloadSize.toNat) (rest : List UInt8) :
    read? (header.encodeAs form ++ (payload ++ rest)) = some (⟨header, payload⟩, rest) := by
  have hlength : ¬ (payload ++ rest).length < header.payloadSize.toNat := by
    rw [List.length_append]
    omega
  simp only [read?, Header.read?_encodeAs hform, Option.bind_eq_bind, Option.bind_some]
  rw [if_neg hlength, ← hpayload, List.take_left, List.drop_left]

theorem readAll?_nil : readAll? [] = some [] := by
  rw [readAll?]
  rfl

/-- The frames of a stream are its first frame and those of the rest. -/
theorem readAll?_of_read? {bytes rest : List UInt8} {frame : Frame}
    (h : read? bytes = some (frame, rest)) :
    readAll? bytes = (readAll? rest).map (frame :: ·) := by
  have hne : ¬ bytes.isEmpty = true := by
    intro hempty
    rw [List.isEmpty_iff.mp hempty] at h
    cases h
  rw [readAll?, if_neg hne]
  split
  · next hnone =>
    rw [h] at hnone
    cases hnone
  · next hsome =>
    rw [h] at hsome
    cases hsome
    rfl

/-- The frame brings across what the write asked for. -/
inductive Carries : Frame → Write → Prop where
  | header {opening : Header} {extendedOk : Bool} (hsize : opening.payloadSize = 0) :
      Carries ⟨opening, []⟩ (.header opening extendedOk)
  | request {frame : Frame} {request : Request} {extendedOk : Bool} {padding : Nat}
      (hcommand : frame.header.command = request.command)
      (htype : frame.header.dataType.toUInt32 = request.typeCode)
      (hcount : frame.header.count = request.count)
      (hchannel : frame.header.channel = request.channel)
      (hparameter : frame.header.parameter = request.parameter)
      (hsize : frame.payload.length = frame.header.payloadSize.toNat)
      (haligned : 8 ∣ frame.header.payloadSize.toNat) (hpadding : padding < 8)
      (hpayload : frame.payload = request.body ++ List.replicate padding 0) :
      Carries frame (.request request extendedOk)

end Frame

/-! ### Callers that send requests -/

/-- A whole request, or a header that announces no payload. -/
def Write.isFramed : Write → Bool
  | header opening _ => opening.payloadSize == 0
  | request _ _ => true
  | _ => false

def Operation.isFramed : Operation → Bool
  | write content => content.isFramed
  | clear => false
  | _ => true

def Operation.isCommit : Operation → Bool
  | commit => true
  | _ => false

namespace Write

theorem encoding_header {opening : Header} {extendedOk : Bool} {bytes : List UInt8}
    (h : (header opening extendedOk).encoding = .ok bytes) :
    ∃ form, opening.form extendedOk = .ok form ∧ bytes = opening.encodeAs form := by
  simp only [encoding, units, Header.units, Header.encode] at h
  cases hform : opening.form extendedOk with
  | error fault =>
    rw [hform] at h
    cases h
  | ok form =>
    rw [hform] at h
    cases h
    exact ⟨form, rfl, List.append_nil _⟩

theorem encoding_request {whole : Request} {extendedOk : Bool} {bytes : List UInt8}
    (h : (request whole extendedOk).encoding = .ok bytes) :
    ∃ layout form, whole.layout = .ok layout ∧ layout.header.form extendedOk = .ok form ∧
      bytes = layout.header.encodeAs form ++ (whole.body ++ List.replicate layout.padding 0) := by
  simp only [encoding, units] at h
  cases hlayout : whole.layout with
  | error fault =>
    rw [Request.units_of_layout_error hlayout] at h
    cases h
  | ok layout =>
    cases hform : layout.header.form extendedOk with
    | error fault =>
      rw [Request.units_of_form_error hlayout hform] at h
      cases h
    | ok form =>
      obtain ⟨body, hbody, hbytes⟩ := Request.bodyUnits_of_layout hlayout
      rw [Request.units_of_form hlayout hform hbody] at h
      cases h
      refine ⟨layout, form, rfl, hform, ?_⟩
      rw [List.cons_append, List.flatMap_cons, List.flatMap_append, hbytes, flatMap_valueUnits]
      rfl

/-- **One request, one frame.** The receiver reads the encoding of a request as a frame that carries
it, and stops where it ends. -/
theorem read?_encoding {write : Write} (hframed : write.isFramed = true) {bytes : List UInt8}
    (h : write.encoding = .ok bytes) (rest : List UInt8) :
    ∃ frame, Frame.read? (bytes ++ rest) = some (frame, rest) ∧ frame.Carries write := by
  cases write with
  | header opening extendedOk =>
    have hsize : opening.payloadSize = 0 := beq_iff_eq.mp hframed
    obtain ⟨form, hform, rfl⟩ := encoding_header h
    have hnone : ([] : List UInt8).length = opening.payloadSize.toNat := by
      rw [hsize]
      rfl
    exact ⟨_, Frame.read?_encodeAs hform hnone rest, .header hsize⟩
  | request whole extendedOk =>
    obtain ⟨layout, form, hlayout, hform, rfl⟩ := encoding_request h
    obtain ⟨type, htype, -, -, hassemble⟩ := Request.layout_eq_ok hlayout
    have hsize : (whole.body ++ List.replicate layout.padding 0).length =
        layout.header.payloadSize.toNat := by
      rw [List.length_append, List.length_replicate, Request.length_body_add_padding hlayout]
    refine ⟨⟨layout.header, whole.body ++ List.replicate layout.padding 0⟩, ?_, ?_⟩
    · rw [List.append_assoc]
      exact Frame.read?_encodeAs hform hsize rest
    · have heq := (Request.eq_of_assemble hassemble).2
      refine .request ?_ ?_ ?_ ?_ ?_ hsize (Request.eight_dvd_payloadSize hlayout)
        (Request.padding_lt hlayout) rfl
      · rw [heq]
      · rw [heq]
        exact (Request.typeCode_of_ofCode htype).symm
      · rw [heq]
      · rw [heq]
      · rw [heq]
  | _ => cases hframed

/-- The bytes of a write that can be encoded. -/
def wire (write : Write) : List UInt8 :=
  match write.encoding with
  | .ok encoded => encoded
  | .error _ => []

theorem wire_of_encoding {write : Write} {bytes : List UInt8} (h : write.encoding = .ok bytes) :
    write.wire = bytes := by
  rw [wire, h]

/-- The write is one that a receiver can read. -/
def Readable (write : Write) : Prop :=
  write.isFramed = true ∧ ∃ bytes, write.encoding = .ok bytes

/-- Requests one after the other are read one after the other. -/
theorem readAll?_wire {writes : List Write} (h : ∀ write ∈ writes, write.Readable) :
    ∃ frames, Frame.readAll? (writes.flatMap wire) = some frames ∧
      List.Forall₂ Frame.Carries frames writes := by
  induction writes with
  | nil => exact ⟨[], Frame.readAll?_nil, .nil⟩
  | cons write writes ih =>
    obtain ⟨⟨hframed, bytes, hbytes⟩, hrest⟩ := List.forall_mem_cons.mp h
    obtain ⟨frames, hframes, hcarries⟩ := ih hrest
    obtain ⟨frame, hread, hcarried⟩ := read?_encoding hframed hbytes (writes.flatMap wire)
    refine ⟨frame :: frames, ?_, .cons hcarried hcarries⟩
    rw [List.flatMap_cons, wire_of_encoding hbytes, Frame.readAll?_of_read? hread, hframes]
    rfl

end Write

/-! ### The caller's journal -/

structure Journal where
  /-- Accepted writes of committed messages, in order. -/
  sent : List Write := []
  /-- Accepted writes of the open message. -/
  opened : List Write := []
  /-- A write of the open message ran out of chunks. -/
  spoiled : Bool := false

namespace Journal

/-- The journal after an operation and its answer. -/
def note (journal : Journal) : Operation × Answer → Journal
  | (.startMessage, _) | (.pop, _) | (.flush, _) =>
    { journal with opened := [], spoiled := false }
  | (.commit, _) => { sent := journal.sent ++ journal.opened }
  | (.write write, .written (.ok ())) => { journal with opened := journal.opened ++ [write] }
  | (.write _, .written (.error (.exhausted _))) => { journal with spoiled := true }
  | _ => journal

def record (journal : Journal) (history : List (Operation × Answer)) : Journal :=
  history.foldl note journal

/-- No message is committed in which a write ran out of chunks. -/
def commitsClean (journal : Journal) : List (Operation × Answer) → Bool
  | [] => true
  | event :: rest =>
    !(event.1.isCommit && journal.spoiled) && (journal.note event).commitsClean rest

/-- The byte strings of a queue are what the journal says. Of a spoiled message nothing is said: it
will be dropped. -/
structure Tallies (s : Streams) (journal : Journal) : Prop where
  sent : s.drained ++ s.committed = journal.sent.flatMap Write.wire
  opened : journal.spoiled = false → s.opened = journal.opened.flatMap Write.wire
  readable_sent : ∀ write ∈ journal.sent, write.Readable
  readable_opened : ∀ write ∈ journal.opened, write.Readable

theorem tallies_new : Tallies {} {} where
  sent := rfl
  opened := fun _ => rfl
  readable_sent := List.forall_mem_nil _
  readable_opened := List.forall_mem_nil _

variable {s s' : Streams} {journal : Journal}

/-- A message that is dropped is struck out, and no byte of a committed one is lost or added. -/
theorem Tallies.drop (h : Tallies s journal) {drained committed : List UInt8}
    (hsame : drained ++ committed = s.drained ++ s.committed) :
    Tallies ⟨drained, committed, []⟩ { journal with opened := [], spoiled := false } where
  sent := hsame.trans h.sent
  opened := fun _ => rfl
  readable_sent := h.readable_sent
  readable_opened := List.forall_mem_nil _

/-- A spoiled message may hold anything. -/
theorem Tallies.spoil (h : Tallies s journal) (opened : List UInt8) :
    Tallies { s with opened := opened } { journal with spoiled := true } where
  sent := h.sent
  opened := by
    intro hclean
    cases hclean
  readable_sent := h.readable_sent
  readable_opened := h.readable_opened

/-- **The step.** Whatever is done, the strings stay in line with the journal. -/
theorem Tallies.step {M : Type} [Supplier M] (hsupplier : Supplier.OnlyExhausts M)
    (h : Tallies s journal) {operation : Operation} {answer : Answer} {delivered : List Chunk}
    (hstep : Streams.Step M operation answer delivered s s')
    (hframed : operation.isFramed = true)
    (hclean : operation.isCommit = true → journal.spoiled = false) :
    Tallies s' (journal.note (operation, answer)) := by
  cases hstep with
  | startMessage => exact h.drop rfl
  | clear => cases hframed
  | recycle => exact h
  | commit =>
    exact
      { sent := by
          show s.drained ++ (s.committed ++ s.opened) =
            (journal.sent ++ journal.opened).flatMap Write.wire
          -- A message that is committed is not spoiled.
          rw [List.flatMap_append, ← h.sent, ← h.opened (hclean rfl), List.append_assoc]
        opened := fun _ => rfl
        readable_sent := List.forall_mem_append.mpr ⟨h.readable_sent, h.readable_opened⟩
        readable_opened := List.forall_mem_nil _ }
  | @written _ write bytes hencoding =>
    exact
      { sent := h.sent
        opened := by
          intro hspoiled
          show s.opened ++ bytes = (journal.opened ++ [write]).flatMap Write.wire
          rw [List.flatMap_append, ← h.opened hspoiled, List.flatMap_singleton,
            Write.wire_of_encoding hencoding]
        readable_sent := h.readable_sent
        readable_opened := by
          refine List.forall_mem_append.mpr ⟨h.readable_opened, ?_⟩
          exact List.forall_mem_singleton.mpr ⟨hframed, bytes, hencoding⟩ }
  | cut _ _ hrefuses =>
    obtain ⟨shortage, rfl⟩ := hsupplier _ hrefuses
    exact h.spoil _
  | @refused _ _ fault _ =>
    cases fault with
    | exhausted shortage => exact h.spoil _
    | _ => exact h
  | popNothing => exact h.drop rfl
  | @pop _ chunk rest hcommitted =>
    refine h.drop ?_
    rw [hcommitted, List.append_assoc]
  | flush =>
    refine h.drop ?_
    rw [List.append_nil]

end Journal

/-! ### The stream of a run -/

namespace Queue

variable {M S : Type} [Supplier M] [Sink S]

/-- The operations of a run, each with its answer. -/
def history (q : Queue M S) (operations : List Operation) : List (Operation × Answer) :=
  operations.zip (q.run operations).1

/-- Over a run, too, the strings stay in line with the journal. -/
theorem WellFormed.tallies_run (hsupplier : Supplier.OnlyExhausts M) {q : Queue M S}
    (h : q.WellFormed) {drained : List UInt8} {journal : Journal}
    (htallies : journal.Tallies (q.streams drained)) {operations : List Operation}
    (hframed : ∀ operation ∈ operations, operation.isFramed = true)
    (hclean : journal.commitsClean (q.history operations) = true) :
    (journal.record (q.history operations)).Tallies
      ((q.run operations).2.streams (drained ++ Chain.bytes (q.outflow operations))) := by
  induction operations generalizing q drained journal with
  | nil =>
    show Journal.Tallies (q.streams (drained ++ [])) journal
    rwa [List.append_nil]
  | cons operation rest ih =>
    have hclean' : (!(operation.isCommit && journal.spoiled) &&
        (journal.note (operation, (q.perform operation).1)).commitsClean
          ((q.perform operation).2.history rest)) = true := hclean
    rw [Bool.and_eq_true, Bool.not_eq_true', Bool.and_eq_false_imp] at hclean'
    obtain ⟨hfirst, hrest⟩ := List.forall_mem_cons.mp hframed
    have hnext := htallies.step hsupplier (h.step operation drained) hfirst hclean'.1
    have hrest := ih (h.perform operation) hnext hrest hclean'.2
    rw [List.append_assoc, ← Chain.bytes_append] at hrest
    exact hrest

/-- **Framing.** With a supplier that fails for a lack of chunks only, what has left the queue and
what is committed and waits make a stream that the receiver splits into the accepted requests of
committed messages, in order and with nothing left over. -/
theorem readAll?_run (hsupplier : Supplier.OnlyExhausts M) (supply : M) (sink : S)
    {operations : List Operation}
    (hframed : ∀ operation ∈ operations, operation.isFramed = true)
    (hclean : Journal.commitsClean {} ((Queue.new supply sink).history operations) = true) :
    ∃ frames,
      Frame.readAll? (((Queue.new supply sink).outflow operations).flatMap Chunk.bytes ++
        ((Queue.new supply sink).run operations).2.chain.committed) = some frames ∧
      List.Forall₂ Frame.Carries frames
        (Journal.record {} ((Queue.new supply sink).history operations)).sent := by
  have htallies :=
    (wellFormed_new supply sink).tallies_run hsupplier Journal.tallies_new hframed hclean
  obtain ⟨frames, hframes, hcarries⟩ := Write.readAll?_wire htallies.readable_sent
  refine ⟨frames, ?_, hcarries⟩
  rw [← hframes, ← htallies.sent]
  rfl

/-- A header that is written again after it found no chunk, and a text that follows it in a message
of its own. -/
def resent : List Operation :=
  [.write (.header ⟨0, 0, 0, 13, 0, 0⟩ false), .startMessage,
    .write (.header ⟨0, 0, 0, 13, 0, 0⟩ false), .commit, .pop,
    .write (.request ⟨4, 0, 1, 2, 3, .string [65]⟩ false), .commit]

/-- A new queue whose supplier refuses the first chunk. The receiver gets the header and the text,
one of which was popped while the other one waits. -/
theorem readAll?_run_resent :
    ∃ (q : Queue Shelf Transcript) (frames : List Frame),
      q = Queue.new { plan := { calls := [0] } } {} ∧
      Frame.readAll? ((q.outflow resent).flatMap Chunk.bytes ++
        (q.run resent).2.chain.committed) = some frames ∧
      List.Forall₂ Frame.Carries frames (Journal.record {} (q.history resent)).sent ∧
      frames.length = 2 := by
  have hframed : ∀ operation ∈ resent, operation.isFramed = true := List.all_eq_true.mp rfl
  -- A write is evaluated unit by unit.
  have hclean : Journal.commitsClean {}
      ((Queue.new ({ plan := { calls := [0] } } : Shelf) ({} : Transcript)).history resent) =
        true := by
    simp only [resent, history, run, perform, Write.attempt_eq]
    rfl
  obtain ⟨frames, hframes, hcarries⟩ := readAll?_run Shelf.onlyExhausts _ _ hframed hclean
  refine ⟨_, frames, rfl, hframes, hcarries, hcarries.length_eq.trans ?_⟩
  simp only [resent, history, run, perform, Write.attempt_eq]
  rfl

end Queue

end WireQueue

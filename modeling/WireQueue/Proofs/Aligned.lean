import WireQueue.Proofs.Boundaries
import WireQueue.Proofs.Packing
import WireQueue.Proofs.Shortfall

/-! # Requests keep to words of eight bytes

A whole request takes a multiple of eight bytes: a header of two or three words, and a payload that
is padded to a word. In the middle of a request that is not so, and a request may be cut short
there. What saves the alignment is that the units of a request get no wider from its header to its
padding. The room in a chunk is then always a multiple of the unit to come, and a chunk that lacks
room for one more value has no room at all.

* `Chain.Laid.eight_dvd_room_of_lacks`, `Chain.Laid.inWords_of_whole`, `Chain.Laid.inWords_of_cut` —
  where a request ends, or is cut short, every chunk holds whole words.
* `Chain.Stows.seats` — so every header starts at a word of its chunk.
* `Queue.InWords.step`, `Queue.InWords.keepsAligned` — headers and requests, mixed with everything
  that does not write, keep a queue aligned. -/

namespace WireQueue

/-! ### The units of a request -/

/-- Units that get no wider: each length divides those before it, and a word of eight bytes is a
multiple of it or the other way round. -/
structure Narrows (units : List WireUnit) : Prop where
  widths : ∀ unit ∈ units, unit.bytes.length ∣ 8 ∨ 8 ∣ unit.bytes.length
  order : units.Pairwise fun earlier later => later.bytes.length ∣ earlier.bytes.length

namespace Narrows

variable {units rest : List WireUnit} {next : WireUnit}

theorem left (h : Narrows (units ++ rest)) : Narrows units where
  widths := (List.forall_mem_append.mp h.widths).1
  order := (List.pairwise_append.mp h.order).1

theorem dvd_of_next (h : Narrows (units ++ next :: rest)) :
    ∀ unit ∈ units, next.bytes.length ∣ unit.bytes.length := by
  obtain ⟨-, -, hcross⟩ := List.pairwise_append.mp h.order
  intro unit hunit
  exact hcross unit hunit next List.mem_cons_self

theorem width_of_next (h : Narrows (units ++ next :: rest)) :
    next.bytes.length ∣ 8 ∨ 8 ∣ next.bytes.length :=
  h.widths next (List.mem_append_right units List.mem_cons_self)

theorem pairwise_of_width {width : Nat} (h : ∀ unit ∈ units, unit.bytes.length = width) :
    units.Pairwise fun earlier later => later.bytes.length ∣ earlier.bytes.length := by
  apply List.pairwise_of_forall_mem_list
  intro earlier hearlier later hlater
  have hsame : earlier.bytes.length = later.bytes.length :=
    (h earlier hearlier).trans (h later hlater).symm
  exact hsame ▸ Nat.dvd_refl _

/-- Values of one width, and then single bytes. -/
theorem of_widths {width : Nat} (hwidth : width ∣ 8)
    (hunits : ∀ unit ∈ units, unit.bytes.length = width)
    (hrest : ∀ unit ∈ rest, unit.bytes.length = 1) : Narrows (units ++ rest) where
  widths := by
    intro unit hunit
    rcases List.mem_append.mp hunit with hunit | hunit
    · exact Or.inl (hunits unit hunit ▸ hwidth)
    · exact Or.inl (hrest unit hunit ▸ Nat.one_dvd 8)
  order := by
    apply List.pairwise_append.mpr
    refine ⟨pairwise_of_width hunits, pairwise_of_width hrest, ?_⟩
    intro earlier _ later hlater
    rw [hrest later hlater]
    exact Nat.one_dvd _

/-- A header of whole words before values that fit into one. -/
theorem cons_header {opening : List UInt8} (hopening : 8 ∣ opening.length) (h : Narrows units)
    (hunits : ∀ unit ∈ units, unit.bytes.length ∣ 8) : Narrows (.header opening :: units) where
  widths := List.forall_mem_cons.mpr ⟨Or.inr hopening, h.widths⟩
  order := by
    apply List.pairwise_cons.mpr
    refine ⟨?_, h.order⟩
    intro unit hunit
    exact Nat.dvd_trans (hunits unit hunit) hopening

end Narrows

/-- A header and the values that follow it, whole words all in all. -/
inductive RequestUnits : List WireUnit → Prop where
  | intro {opening : List UInt8} {values : List WireUnit} (hopening : 8 ∣ opening.length)
      (hvalues : ∀ unit ∈ values, unit.isHeader = false ∧ unit.bytes.length ∣ 8)
      (hnarrows : Narrows values) (hsize : 8 ∣ (unitBytes values).length) :
      RequestUnits (.header opening :: values)

namespace RequestUnits

variable {units stored rest : List WireUnit} {next : WireUnit}

theorem narrows (h : RequestUnits units) : Narrows units := by
  obtain ⟨hopening, hvalues, hnarrows, -⟩ := h
  exact hnarrows.cons_header hopening fun unit hunit => (hvalues unit hunit).2

theorem eight_dvd_length (h : RequestUnits units) : 8 ∣ (unitBytes units).length := by
  obtain ⟨hopening, -, -, hsize⟩ := h
  rw [unitBytes_cons, List.length_append]
  exact Nat.dvd_add hopening hsize

/-- Behind the header there are values only. -/
theorem dvd_eight_of_next (h : RequestUnits (stored ++ next :: rest)) (hstored : stored ≠ []) :
    next.bytes.length ∣ 8 := by
  generalize hunits : stored ++ next :: rest = units at h
  obtain ⟨-, hvalues, -, -⟩ := h
  cases stored with
  | nil => exact absurd rfl hstored
  | cons opening stored =>
    obtain ⟨-, rfl⟩ := List.cons.inj hunits
    exact (hvalues next (List.mem_append_right stored List.mem_cons_self)).2

end RequestUnits

/-! ### Requests are such units -/

theorem Header.eight_dvd_length_encodeAs (header : Header) (form : Header.Form) :
    8 ∣ (header.encodeAs form).length := by
  rw [Header.length_encodeAs]
  cases form <;> decide

theorem length_of_mem_valueUnits {α : Type} [Element α] {values : List α} :
    ∀ unit ∈ valueUnits values, unit.bytes.length = Element.width α := by
  intro unit hunit
  obtain ⟨value, -, rfl⟩ := List.mem_map.mp hunit
  exact Element.length_encode value

theorem length_of_mem_leadingUnits {α : Type} [Element α] {values : List α} {needed : Nat}
    {units : List WireUnit} (h : leadingUnits values needed = .ok units) :
    ∀ unit ∈ units, unit.bytes.length = Element.width α := by
  rw [leadingUnits_eq_ok h]
  exact length_of_mem_valueUnits

/-- The elements of a payload have one width, which goes into a word. -/
theorem Payload.width_units {payload : Payload} {count : Nat} {units : List WireUnit}
    (h : payload.units count = .ok units) :
    ∃ width, width ∣ 8 ∧ ∀ unit ∈ units, unit.bytes.length = width := by
  cases payload with
  | string bytes | char bytes =>
    exact ⟨Element.width UInt8, by decide, length_of_mem_leadingUnits h⟩
  | short values => exact ⟨Element.width Int16, by decide, length_of_mem_leadingUnits h⟩
  | enum values => exact ⟨Element.width UInt16, by decide, length_of_mem_leadingUnits h⟩
  | float values => exact ⟨Element.width Binary32, by decide, length_of_mem_leadingUnits h⟩
  | long values => exact ⟨Element.width Int32, by decide, length_of_mem_leadingUnits h⟩
  | double values => exact ⟨Element.width Binary64, by decide, length_of_mem_leadingUnits h⟩

namespace Request

variable {request : Request} {layout : Layout} {body : List WireUnit}

theorem width_bodyUnits (h : request.bodyUnits layout = .ok body) :
    ∃ width, width ∣ 8 ∧ ∀ unit ∈ body, unit.bytes.length = width := by
  rw [bodyUnits] at h
  split at h
  · cases h
    exact ⟨Element.width UInt8, by decide, length_of_mem_valueUnits⟩
  · exact Payload.width_units h

theorem isHeader_bodyUnits (h : request.bodyUnits layout = .ok body) :
    ∀ unit ∈ body, unit.isHeader = false := by
  rw [bodyUnits] at h
  split at h
  · cases h
    exact isHeader_valueUnits _
  · exact Payload.isHeader_units h

theorem requestUnits {extendedOk : Bool} {units : List WireUnit}
    (h : request.units extendedOk = .ok units) : RequestUnits units := by
  obtain ⟨layout, form, -, hlayout, hform, -, -⟩ := units_eq_ok h
  obtain ⟨body, hbody, hbytes⟩ := bodyUnits_of_layout hlayout
  rw [units_of_form hlayout hform hbody] at h
  obtain rfl := Except.ok.inj h
  obtain ⟨width, hwidth, hlengths⟩ := width_bodyUnits hbody
  let padding := valueUnits (List.replicate layout.padding (0 : UInt8))
  have hpadding : ∀ unit ∈ padding, unit.bytes.length = 1 := length_of_mem_valueUnits
  refine .intro (Header.eight_dvd_length_encodeAs _ form) ?_ (.of_widths hwidth hlengths hpadding) ?_
  · intro unit hunit
    rcases List.mem_append.mp hunit with hunit | hunit
    · exact ⟨isHeader_bodyUnits hbody unit hunit, hlengths unit hunit ▸ hwidth⟩
    · exact ⟨isHeader_valueUnits _ unit hunit, hpadding unit hunit ▸ Nat.one_dvd 8⟩
  · have hzeros : unitBytes padding = List.replicate layout.padding 0 := flatMap_valueUnits _
    have hsize : (unitBytes (body ++ padding)).length = layout.header.payloadSize.toNat := by
      rw [unitBytes_append, List.length_append, hzeros, List.length_replicate,
        ← length_body_add_padding hlayout, ← hbytes]
      rfl
    show 8 ∣ (unitBytes (body ++ padding)).length
    rw [hsize]
    exact eight_dvd_payloadSize hlayout

end Request

/-- Writes a header, with or without a payload. -/
def Write.isRequest : Write → Bool
  | .header _ _ | .request _ _ => true
  | _ => false

/-- Writes nothing but headers and requests. -/
def Operation.keepsToRequests : Operation → Bool
  | .write put => put.isRequest
  | _ => true

theorem Header.requestUnits {header : Header} {extendedOk : Bool} {units : List WireUnit}
    (h : header.units extendedOk = .ok units) : RequestUnits units := by
  rw [Header.units, Header.encode] at h
  cases hform : header.form extendedOk with
  | error fault =>
    rw [hform] at h
    cases h
  | ok form =>
    rw [hform] at h
    cases h
    exact .intro (header.eight_dvd_length_encodeAs form) (List.forall_mem_nil _)
      ⟨List.forall_mem_nil _, .nil⟩ (Nat.dvd_zero 8)

theorem Write.requestUnits {write : Write} (hrequest : write.isRequest) {units : List WireUnit}
    (h : write.units = .ok units) : RequestUnits units := by
  cases write with
  | header opening extendedOk => exact Header.requestUnits h
  | request whole extendedOk => exact Request.requestUnits h
  | _ => cases hrequest

/-! ### Whole words in a chain -/

/-- Whether room or bytes are counted in words is the same. -/
theorem Chunk.eight_dvd_room_iff {chunk : Chunk} (h : chunk.Fits) :
    8 ∣ chunk.room ↔ 8 ∣ chunk.length := by
  simp only [Fits, room, capacity] at *
  omega

namespace Chain

/-- Lengths and commit marks are multiples of eight. -/
def InWords (chain : Chain) : Prop :=
  ∀ chunk ∈ chain, 8 ∣ chunk.length ∧ 8 ∣ chunk.committed.length

variable {chain chain' : Chain} {units : List WireUnit} {next : WireUnit} {fresh : Nat}

theorem eight_dvd_size (h : ∀ chunk ∈ chain, 8 ∣ chunk.length) : 8 ∣ chain.size := by
  induction chain with
  | nil => exact Nat.dvd_zero 8
  | cons chunk chain ih =>
    obtain ⟨hchunk, hchain⟩ := List.forall_mem_cons.mp h
    rw [size_cons]
    exact Nat.dvd_add hchunk (ih hchain)

/-- If all chunks together hold whole words, the last one does where the others do. -/
theorem eight_dvd_length_of_size (hfront : ∀ chunk ∈ chain.dropLast, 8 ∣ chunk.length)
    (hsize : 8 ∣ chain.size) : ∀ chunk ∈ chain, 8 ∣ chunk.length := by
  rcases List.eq_nil_or_concat chain with rfl | ⟨front, last, rfl⟩
  · exact List.forall_mem_nil _
  · rw [List.concat_eq_append] at hfront hsize ⊢
    rw [List.dropLast_concat] at hfront
    rw [size_append, size_cons, size_nil, Nat.add_zero] at hsize
    have hlast : 8 ∣ last.length := (Nat.dvd_add_right (eight_dvd_size hfront)).mp hsize
    exact List.forall_mem_append.mpr ⟨hfront, List.forall_mem_singleton.mpr hlast⟩

theorem InWords.eight_dvd_room (h : InWords chain) (hfilled : Filled chain) :
    ∀ chunk ∈ chain, 8 ∣ chunk.room := by
  intro chunk hchunk
  exact (Chunk.eight_dvd_room_iff (hfilled chunk hchunk).2).mpr (h chunk hchunk).1

theorem InWords.rollback (h : InWords chain) : InWords chain.rollback := by
  intro chunk hchunk
  obtain ⟨hmem, -⟩ := List.mem_filter.mp hchunk
  obtain ⟨original, horiginal, rfl⟩ := List.mem_map.mp hmem
  rw [Chunk.length_rollback]
  exact ⟨(h original horiginal).2, (h original horiginal).2⟩

theorem InWords.commit (h : InWords chain) : InWords chain.commit := by
  intro chunk hchunk
  obtain ⟨original, horiginal, rfl⟩ := List.mem_map.mp hchunk
  have hmark : original.commit.committed.length = original.length := original.length_bytes
  rw [Chunk.length_commit, hmark]
  exact ⟨(h original horiginal).1, (h original horiginal).1⟩

/-! ### Units laid down -/

/-- Whatever divides all units divides the room that they leave. -/
theorem Laid.dvd_room {width : Nat} (hlaid : chain.Laid units fresh chain')
    (hwidth : width ∣ Chunk.capacity) (hunits : ∀ unit ∈ units, width ∣ unit.bytes.length)
    (h : ∀ chunk ∈ chain, width ∣ chunk.room) : ∀ chunk ∈ chain', width ∣ chunk.room := by
  induction hlaid with
  | refl => exact h
  | inTail _ _ ih =>
    obtain ⟨hunits, hunit⟩ := List.forall_mem_append.mp hunits
    obtain ⟨hfront, hlast⟩ := List.forall_mem_append.mp (ih hunits)
    refine List.forall_mem_append.mpr ⟨hfront, List.forall_mem_singleton.mpr ?_⟩
    rw [Chunk.room_append]
    exact Nat.dvd_sub (hlast _ List.mem_cons_self) (hunit _ List.mem_cons_self)
  | inNewChunk _ _ ih =>
    obtain ⟨hunits, hunit⟩ := List.forall_mem_append.mp hunits
    refine List.forall_mem_append.mpr ⟨ih hunits, List.forall_mem_singleton.mpr ?_⟩
    rw [Chunk.room_append, Chunk.room_empty]
    exact Nat.dvd_sub hwidth (hunit _ List.mem_cons_self)

/-- **No room at all.** Where a value lacks room, behind units that are no narrower, the chunk is
full. -/
theorem Laid.room_eq_zero_of_lacks {rest : List WireUnit} {tail : Chunk}
    (hlaid : chain.Laid units fresh chain') (hnarrows : Narrows (units ++ next :: rest))
    (hrooms : ∀ chunk ∈ chain, 8 ∣ chunk.room) (htail : chain'.getLast? = some tail)
    (hlacks : tail.room < next.bytes.length) (hvalue : next.bytes.length ∣ 8) : tail.room = 0 := by
  have hcapacity : next.bytes.length ∣ Chunk.capacity := Nat.dvd_trans hvalue (by decide)
  have hdvd := hlaid.dvd_room hcapacity hnarrows.dvd_of_next
    (fun chunk hchunk => Nat.dvd_trans hvalue (hrooms chunk hchunk))
  exact Nat.eq_zero_of_dvd_of_lt (hdvd tail (List.mem_of_getLast? htail)) hlacks

/-- Where any unit lacks room, whole words are left. -/
theorem Laid.eight_dvd_room_of_lacks {rest : List WireUnit} {tail : Chunk}
    (hlaid : chain.Laid units fresh chain') (hnarrows : Narrows (units ++ next :: rest))
    (hrooms : ∀ chunk ∈ chain, 8 ∣ chunk.room) (htail : chain'.getLast? = some tail)
    (hlacks : tail.room < next.bytes.length) : 8 ∣ tail.room := by
  rcases hnarrows.width_of_next with hvalue | hheader
  · rw [hlaid.room_eq_zero_of_lacks hnarrows hrooms htail hlacks hvalue]
    exact Nat.dvd_zero 8
  · have hwords : ∀ unit ∈ units, 8 ∣ unit.bytes.length := fun unit hunit =>
      Nat.dvd_trans hheader (hnarrows.dvd_of_next unit hunit)
    exact hlaid.dvd_room (by decide) hwords hrooms tail (List.mem_of_getLast? htail)

/-- Where a unit found no room, the last chunk has room for whole words if the others have. -/
theorem Laid.eight_dvd_room_of_cut {rest : List WireUnit} (hlaid : chain.Laid units fresh chain')
    (hnarrows : Narrows (units ++ next :: rest)) (hrooms : ∀ chunk ∈ chain, 8 ∣ chunk.room)
    (hlacks : ∀ tail, chain'.getLast? = some tail → tail.room < next.bytes.length)
    (hfront : ∀ chunk ∈ chain'.dropLast, 8 ∣ chunk.room) : ∀ chunk ∈ chain', 8 ∣ chunk.room := by
  rcases List.eq_nil_or_concat chain' with rfl | ⟨front, last, rfl⟩
  · exact List.forall_mem_nil _
  · rw [List.concat_eq_append] at hlaid hlacks hfront ⊢
    rw [List.dropLast_concat] at hfront
    have hlast : 8 ∣ last.room := hlaid.eight_dvd_room_of_lacks hnarrows hrooms
      List.getLast?_concat (hlacks last List.getLast?_concat)
    exact List.forall_mem_append.mpr ⟨hfront, List.forall_mem_singleton.mpr hlast⟩

/-- The chunks before the last were left because some unit lacked room. -/
theorem Laid.eight_dvd_room_dropLast (hlaid : chain.Laid units fresh chain')
    (hnarrows : Narrows units) (hrooms : ∀ chunk ∈ chain, 8 ∣ chunk.room) :
    ∀ chunk ∈ chain'.dropLast, 8 ∣ chunk.room := by
  induction hlaid with
  | refl =>
    intro chunk hchunk
    exact hrooms chunk ((List.dropLast_sublist _).subset hchunk)
  | inTail _ _ ih =>
    have hfront := ih hnarrows.left
    rwa [List.dropLast_concat] at hfront ⊢
  | inNewChunk hlaid hlacks ih =>
    rw [List.dropLast_concat]
    exact hlaid.eight_dvd_room_of_cut hnarrows hrooms hlacks (ih hnarrows.left)

theorem Laid.exists_getLast? (hlaid : chain.Laid units fresh chain') (hne : units ≠ []) :
    ∃ tail, chain'.getLast? = some tail := by
  cases hlaid with
  | refl => exact absurd rfl hne
  | inTail _ _ => exact ⟨_, List.getLast?_concat⟩
  | inNewChunk _ _ => exact ⟨_, List.getLast?_concat⟩

/-- Commit marks stay where they are, and are zero in further chunks. -/
theorem Laid.eight_dvd_committed (hlaid : chain.Laid units fresh chain')
    (h : ∀ chunk ∈ chain, 8 ∣ chunk.committed.length) :
    ∀ chunk ∈ chain', 8 ∣ chunk.committed.length := by
  induction hlaid with
  | refl => exact h
  | inTail _ _ ih =>
    obtain ⟨hfront, hlast⟩ := List.forall_mem_append.mp ih
    have hmark := hlast _ List.mem_cons_self
    exact List.forall_mem_append.mpr ⟨hfront, List.forall_mem_singleton.mpr hmark⟩
  | inNewChunk _ _ ih =>
    exact List.forall_mem_append.mpr ⟨ih, List.forall_mem_singleton.mpr (Nat.dvd_zero 8)⟩

/-- Laying whole words down keeps a chain in words. -/
theorem Laid.inWords_of_whole (hlaid : chain.Laid units fresh chain') (hnarrows : Narrows units)
    (hsize : 8 ∣ (unitBytes units).length) (hfilled : Filled chain) (hfilled' : Filled chain')
    (h : InWords chain) : InWords chain' := by
  have hrooms := h.eight_dvd_room hfilled
  have hfront : ∀ chunk ∈ chain'.dropLast, 8 ∣ chunk.length := by
    intro chunk hchunk
    have hfits := (hfilled' chunk ((List.dropLast_sublist _).subset hchunk)).2
    exact (Chunk.eight_dvd_room_iff hfits).mp
      (hlaid.eight_dvd_room_dropLast hnarrows hrooms chunk hchunk)
  have hall : 8 ∣ chain'.size := by
    rw [← length_bytes, hlaid.bytes, List.length_append, length_bytes]
    exact Nat.dvd_add (eight_dvd_size fun chunk hchunk => (h chunk hchunk).1) hsize
  have hmarks := hlaid.eight_dvd_committed fun chunk hchunk => (h chunk hchunk).2
  intro chunk hchunk
  exact ⟨eight_dvd_length_of_size hfront hall chunk hchunk, hmarks chunk hchunk⟩

/-- Laying units down keeps a chain in words also where there was no room for the next unit. -/
theorem Laid.inWords_of_cut {rest : List WireUnit} (hlaid : chain.Laid units fresh chain')
    (hnarrows : Narrows (units ++ next :: rest))
    (hlacks : ∀ tail, chain'.getLast? = some tail → tail.room < next.bytes.length)
    (hfilled : Filled chain) (hfilled' : Filled chain') (h : InWords chain) : InWords chain' := by
  have hrooms := h.eight_dvd_room hfilled
  have hfront := hlaid.eight_dvd_room_dropLast hnarrows.left hrooms
  have hrooms' := hlaid.eight_dvd_room_of_cut hnarrows hrooms hlacks hfront
  have hmarks := hlaid.eight_dvd_committed fun chunk hchunk => (h chunk hchunk).2
  intro chunk hchunk
  exact ⟨(Chunk.eight_dvd_room_iff (hfilled' chunk hchunk).2).mp (hrooms' chunk hchunk),
    hmarks chunk hchunk⟩

end Chain

/-! ### Where headers start -/

/-- Each header starts a multiple of eight bytes behind the start of the first unit. -/
def HeadersAligned (units : List WireUnit) : Prop :=
  ∀ before opening after, units = before ++ .header opening :: after →
    8 ∣ (unitBytes before).length

namespace HeadersAligned

variable {units units' : List WireUnit}

theorem nil : HeadersAligned [] := by
  intro before opening after h
  exact absurd h.symm (List.append_ne_nil_of_right_ne_nil _ (List.cons_ne_nil _ _))

theorem left (h : HeadersAligned (units ++ units')) : HeadersAligned units := by
  rintro before opening after rfl
  apply h before opening (after ++ units')
  rw [List.append_assoc, List.cons_append]

/-- Headers that are aligned in the whole are aligned in a part that starts at a word. -/
theorem right (h : HeadersAligned (units ++ units')) (hsize : 8 ∣ (unitBytes units).length) :
    HeadersAligned units' := by
  rintro before opening after rfl
  have hall := h (units ++ before) opening after (List.append_assoc _ _ _).symm
  rw [unitBytes_append, List.length_append] at hall
  exact (Nat.dvd_add_right hsize).mp hall

/-- Aligned headers stay so behind units that end at a word. -/
theorem append (h : HeadersAligned units) (hsize : 8 ∣ (unitBytes units).length)
    (h' : HeadersAligned units') : HeadersAligned (units ++ units') := by
  intro before opening after hsplit
  rcases List.append_eq_append_iff.mp hsplit with ⟨more, rfl, hunits'⟩ | ⟨more, rfl, hafter⟩
  · rw [unitBytes_append, List.length_append]
    exact Nat.dvd_add hsize (h' more opening after hunits')
  · -- The header is one of the first units, or the first one behind them.
    cases more with
    | nil => rwa [List.append_nil] at hsize
    | cons first more =>
      obtain ⟨rfl, -⟩ := List.cons.inj hafter
      exact h before opening more rfl

end HeadersAligned

/-- A request has one header, and begins with it. -/
theorem RequestUnits.headersAligned {units : List WireUnit} (h : RequestUnits units) :
    HeadersAligned units := by
  obtain ⟨-, hvalues, -, -⟩ := h
  intro before opening after hsplit
  cases before with
  | nil => exact Nat.dvd_zero 8
  | cons first before =>
    obtain ⟨-, rfl⟩ := List.cons.inj hsplit
    have hvalue := (hvalues _ (List.mem_append_right before List.mem_cons_self)).1
    cases hvalue

namespace Chain

/-- As `Stows`, and every header starts at a word of its chunk. -/
inductive Seats : Chain → List WireUnit → List WireUnit → Prop where
  | nil : Seats [] [] []
  | cons {chunk : Chunk} {chain : Chain} {kept opened kept' opened' : List WireUnit}
      (hchunk : chunk.Holds kept opened) (haligned : HeadersAligned (kept ++ opened))
      (hchain : Seats chain kept' opened') :
      Seats (chunk :: chain) (kept ++ kept') (opened ++ opened')

/-- Where chunks hold whole words, what is aligned in the chain is aligned in its chunk. -/
theorem Stows.seats {chain : Chain} {kept opened : List WireUnit} (h : Stows chain kept opened)
    (hwords : InWords chain) (hkept : HeadersAligned kept) (hopened : HeadersAligned opened) :
    Seats chain kept opened := by
  induction h with
  | nil => exact .nil
  | @cons chunk chain kept opened _ _ hchunk _ ih =>
    obtain ⟨⟨hlength, hmark⟩, hwords⟩ := List.forall_mem_cons.mp hwords
    have hsize : 8 ∣ (unitBytes kept).length := hchunk.committed ▸ hmark
    have hsize' : 8 ∣ (unitBytes opened).length := by
      rw [← hchunk.uncommitted]
      exact (Nat.dvd_add_right hmark).mp hlength
    exact .cons hchunk (hkept.left.append hsize hopened.left)
      (ih hwords (hkept.right hsize) (hopened.right hsize'))

/-- The committed bytes are whole words, and so are those of the open message. -/
theorem InWords.eight_dvd_streams {chain : Chain} (h : InWords chain) :
    8 ∣ chain.committed.length ∧ 8 ∣ chain.uncommitted.length := by
  induction chain with
  | nil => exact ⟨Nat.dvd_zero 8, Nat.dvd_zero 8⟩
  | cons chunk chain ih =>
    obtain ⟨⟨hlength, hmark⟩, hwords⟩ := List.forall_mem_cons.mp h
    obtain ⟨hcommitted, huncommitted⟩ := ih hwords
    rw [committed_cons, uncommitted_cons, List.length_append, List.length_append]
    exact ⟨Nat.dvd_add hmark hcommitted,
      Nat.dvd_add ((Nat.dvd_add_right hmark).mp hlength) huncommitted⟩

end Chain

/-- The headers of the books are aligned, those of the open message from where it begins. -/
structure UnitStreams.Aligned (s : UnitStreams) : Prop where
  committed : HeadersAligned s.committed
  opened : HeadersAligned s.opened

/-- What is stored of a request is aligned by itself. -/
theorem Write.Stores.headersAligned {M : Type} [Supplier M] {write : Write}
    {outcome : Except Fault Unit} {stored : List WireUnit} (h : write.Stores M outcome stored)
    (hrequest : write.isRequest) : HeadersAligned stored := by
  cases h with
  | whole h => exact (Write.requestUnits hrequest h).headersAligned
  | cut h _ => exact (Write.requestUnits hrequest h).headersAligned.left
  | refused h => exact .nil

/-- What leaves is aligned by itself, since it leaves from the front. -/
theorem UnitStreams.Step.aligned_left {M : Type} [Supplier M] {operation : Operation}
    {answer : Answer} {left : List WireUnit} {s s' : UnitStreams}
    (h : Step M operation answer left s s') (haligned : s.Aligned) : HeadersAligned left := by
  cases h with
  | pop hsplit _ =>
    have hall := haligned.committed
    rw [hsplit] at hall
    exact hall.left
  | flush => exact haligned.committed
  | _ => exact .nil

/-- Between whole words the books stay aligned. -/
theorem UnitStreams.Step.aligned {M : Type} [Supplier M] {operation : Operation} {answer : Answer}
    {left : List WireUnit} {s s' : UnitStreams} (h : Step M operation answer left s s')
    (hkeeps : operation.keepsToRequests)
    (hcommitted : 8 ∣ (unitBytes s.committed).length) (hopened : 8 ∣ (unitBytes s.opened).length)
    (hleft : 8 ∣ (unitBytes left).length) (haligned : s.Aligned) : s'.Aligned := by
  cases h with
  | startMessage | popNothing _ => exact ⟨haligned.committed, .nil⟩
  | commit => exact ⟨haligned.committed.append hcommitted haligned.opened, .nil⟩
  | clear | flush => exact ⟨.nil, .nil⟩
  | write hstores =>
    exact ⟨haligned.committed, haligned.opened.append hopened (hstores.headersAligned hkeeps)⟩
  | pop hsplit _ =>
    have hall := haligned.committed
    rw [hsplit] at hall
    exact ⟨hall.right hleft, .nil⟩
  | recycle => exact haligned

namespace Queue

variable {M S : Type}

/-- What is claimed of a queue at one moment, with the units it holds. -/
structure Aligned (q : Queue M S) (s : UnitStreams) : Prop where
  /-- Chunks are filled and committed in words. -/
  words : ∀ chunk ∈ q.chain, chunk.Fits ∧ 8 ∣ chunk.length ∧ 8 ∣ chunk.committed.length
  /-- Chunks before the last have room for two words at most. -/
  rooms : ∀ chunk ∈ q.chain.dropLast, chunk.room ∈ [0, 8, 16]
  /-- Headers start at a word. -/
  seats : q.chain.Seats s.committed s.opened

/-- What is kept from one operation to the next, so that the queue is aligned at every moment. -/
structure InWords (q : Queue M S) (s : UnitStreams) : Prop where
  wellFormed : q.WellFormed
  packed : q.chain.Packed
  stows : q.chain.Stows s.committed s.opened
  words : q.chain.InWords
  headers : s.Aligned

namespace InWords

variable {q : Queue M S} {s : UnitStreams}

theorem new (supply : M) (sink : S) : (Queue.new supply sink).InWords {} where
  wellFormed := wellFormed_new supply sink
  packed := Chain.packed_nil
  stows := .nil
  words := List.forall_mem_nil _
  headers := ⟨.nil, .nil⟩

/-- Supplier and sink have no part in it. -/
theorem exchange (h : q.InWords s) (supply : M) (sink : S) :
    ({ q with supply, sink } : Queue M S).InWords s where
  wellFormed := h.wellFormed.congr rfl rfl rfl
  packed := h.packed
  stows := h.stows
  words := h.words
  headers := h.headers

/-- A chunk that is nearly full and holds whole words lacks two words at most. -/
theorem aligned (h : q.InWords s) : q.Aligned s where
  words := by
    intro chunk hchunk
    exact ⟨(h.wellFormed.filled chunk hchunk).2, h.words chunk hchunk⟩
  rooms := by
    intro chunk hchunk
    have hpacked := h.packed chunk hchunk
    have hmem := (List.dropLast_sublist _).subset hchunk
    have hfits := (h.wellFormed.filled chunk hmem).2
    have hlength := (h.words chunk hmem).1
    simp only [Chunk.leastFilled, Chunk.Fits, Chunk.room, Chunk.capacity, Header.Form.length] at *
    have hrooms : 0x4000 - chunk.length = 0 ∨ 0x4000 - chunk.length = 8 ∨
        0x4000 - chunk.length = 16 := by
      omega
    simpa using hrooms
  seats := h.stows.seats h.words h.headers.committed h.headers.opened

variable [Supplier M]

/-- A request keeps to words, also one that is cut short or refused. -/
theorem attempt (h : q.InWords s) {write : Write} (hrequest : write.isRequest) :
    (write.attempt q).2.chain.InWords := by
  have hfilled := h.wellFormed.filled
  have hfilled' := (h.wellFormed.attempt write).filled
  rcases write.attempt_grows q with ⟨units, fresh, hunits, -, hgrows⟩ |
    ⟨stored, next, rest, fresh, fault, hunits, -, -, hlacks, hgrows⟩ | ⟨fault, -, hrefused⟩
  · have hrequest := Write.requestUnits hrequest hunits
    exact hgrows.laid.inWords_of_whole hrequest.narrows hrequest.eight_dvd_length hfilled hfilled'
      h.words
  · have hrequest := Write.requestUnits hrequest hunits
    exact hgrows.laid.inWords_of_cut hrequest.narrows hlacks hfilled hfilled' h.words
  · rw [hrefused]
    exact h.words

theorem rollback (h : q.InWords s) : q.rollback.chain.InWords := by
  rw [h.wellFormed.chain_rollback]
  exact h.words.rollback

/-- **Cut short, and full.** A request that stops behind its header leaves a last chunk without any
room. -/
theorem full_of_error (h : q.InWords s) {write : Write} (hrequest : write.isRequest)
    {fault : Fault} (herror : (write.attempt q).1 = .error fault)
    (hstored : (write.attempt q).2.chain ≠ q.chain) :
    ∃ tail, (write.attempt q).2.chain.getLast? = some tail ∧ tail.length = Chunk.capacity := by
  rcases Write.attempt_error_cases herror with
    ⟨stored, next, rest, fresh, hunits, -, hlacks, hgrows⟩ | ⟨-, hsame⟩
  · have hrequest := Write.requestUnits hrequest hunits
    have hne : stored ≠ [] := by
      rintro rfl
      exact hstored hgrows.laid.eq_of_nil.2
    obtain ⟨tail, htail⟩ := hgrows.laid.exists_getLast? hne
    have hrooms := h.words.eight_dvd_room h.wellFormed.filled
    have hfull := hgrows.laid.room_eq_zero_of_lacks hrequest.narrows hrooms htail
      (hlacks tail htail) (hrequest.dvd_eight_of_next hne)
    have hfits := ((h.wellFormed.attempt write).filled tail (List.mem_of_getLast? htail)).2
    refine ⟨tail, htail, ?_⟩
    simp only [Chunk.room, Chunk.Fits] at hfull hfits
    omega
  · rw [hsame] at hstored
    exact absurd rfl hstored

variable [Sink S]

theorem perform (h : q.InWords s) {operation : Operation} (hkeeps : operation.keepsToRequests) :
    (q.perform operation).2.chain.InWords := by
  cases operation with
  | startMessage => exact h.rollback
  | commit =>
    show q.commit.chain.InWords
    rw [h.wellFormed.chain_commit]
    exact h.words.commit
  | clear => exact List.forall_mem_nil _
  | write write => exact h.attempt hkeeps
  | pop =>
    show q.pop.2.chain.InWords
    rw [chain_pop]
    intro chunk hchunk
    exact h.rollback chunk (List.mem_of_mem_tail hchunk)
  | flush =>
    show q.flush.2.chain.InWords
    rw [chain_flush]
    exact List.forall_mem_nil _
  | recycle chunk => exact h.words

/-- What leaves has been through a rollback. -/
theorem leaving (h : q.InWords s) (operation : Operation) :
    Chain.InWords (q.leaving operation) := by
  intro chunk hchunk
  exact h.rollback chunk (mem_rollback_of_mem_leaving hchunk)

/-- **The step.** Where only requests are written, whole words stay and whole words leave. -/
theorem step (h : q.InWords s) {operation : Operation} (hkeeps : operation.keepsToRequests) :
    ∃ left s', UnitStreams.Step M operation (q.perform operation).1 left s s' ∧
      Chain.Seats (q.leaving operation) left [] ∧ (q.perform operation).2.InWords s' := by
  obtain ⟨left, s', hstep, hleft, hstows⟩ := h.wellFormed.step_units h.stows operation
  obtain ⟨hcommitted, hopened⟩ := h.words.eight_dvd_streams
  rw [h.stows.committed_eq] at hcommitted
  rw [h.stows.uncommitted_eq] at hopened
  have hleaving := h.leaving operation
  have hsize := hleaving.eight_dvd_streams.1
  rw [hleft.committed_eq] at hsize
  refine ⟨left, s', hstep, hleft.seats hleaving ?_ .nil, ?_⟩
  · exact hstep.aligned_left h.headers
  · exact
      { wellFormed := h.wellFormed.perform operation
        packed := h.wellFormed.packed_perform h.packed operation
        stows := hstows
        words := h.perform hkeeps
        headers := hstep.aligned hkeeps hcommitted hopened hsize h.headers }

end InWords

variable [Supplier M] [Sink S]

/-- Along a run, whatever is done to supplier and sink in between, the queue is aligned at every
moment and what leaves it is aligned. -/
inductive KeepsAligned : Queue M S → UnitStreams → List Operation → Prop where
  | nil {q : Queue M S} {s : UnitStreams} (h : q.Aligned s) : KeepsAligned q s []
  | cons {q : Queue M S} {s s' : UnitStreams} {operation : Operation} {left : List WireUnit}
      {rest : List Operation} (h : q.Aligned s)
      (hstep : UnitStreams.Step M operation (q.perform operation).1 left s s')
      (hleft : Chain.Seats (q.leaving operation) left [])
      (hlengths : ∀ chunk ∈ q.leaving operation, 8 ∣ chunk.length)
      (hsink : (q.perform operation).2.sink = Sink.deliverAll q.sink (q.delivered operation))
      -- A write that fails although it has stored something leaves the last chunk full.
      (hfull : ∀ fault, (q.perform operation).1 = .written (.error fault) →
        (q.perform operation).2.chain ≠ q.chain →
          ∃ tail, (q.perform operation).2.chain.getLast? = some tail ∧
            tail.length = Chunk.capacity)
      (hrest : ∀ supply sink,
        KeepsAligned { (q.perform operation).2 with supply, sink } s' rest) :
      KeepsAligned q s (operation :: rest)

/-- **The run.** A queue in words is aligned all along a run of headers and requests. -/
theorem InWords.keepsAligned {q : Queue M S} {s : UnitStreams} (h : q.InWords s)
    {operations : List Operation} (hkeeps : ∀ operation ∈ operations, operation.keepsToRequests) :
    q.KeepsAligned s operations := by
  induction operations generalizing q s with
  | nil => exact .nil h.aligned
  | cons operation rest ih =>
    obtain ⟨hfirst, hrest⟩ := List.forall_mem_cons.mp hkeeps
    obtain ⟨left, s', hstep, hleft, hnext⟩ := h.step hfirst
    refine .cons h.aligned hstep hleft ?_ (sink_perform q operation) ?_ ?_
    · intro chunk hchunk
      exact (h.leaving operation chunk hchunk).1
    · intro fault herror hstored
      cases operation with
      | write write =>
        exact h.full_of_error hfirst (Answer.written.inj herror) hstored
      | _ => cases herror
    · intro supply sink
      exact ih (hnext.exchange supply sink) hrest

/-- **Eight-byte alignment.** Where nothing but headers and requests is written to a new queue, over
any supplier and any sink, lengths, commit marks and headers keep to words of eight bytes in every
chunk, in the queue and on its way out, also after a request that was cut short. -/
theorem keepsAligned_new (supply : M) (sink : S) {operations : List Operation}
    (hkeeps : ∀ operation ∈ operations, operation.keepsToRequests) :
    (Queue.new supply sink).KeepsAligned {} operations :=
  (InWords.new supply sink).keepsAligned hkeeps

/-- A text of two bytes is sent at the second try, and with it a header that is popped together with
it. -/
def sentTwice : List Operation :=
  [.write (.request ⟨4, 0, 1, 2, 3, .string [65, 66]⟩ false), .startMessage,
    .write (.request ⟨4, 0, 1, 2, 3, .string [65, 66]⟩ false), .write (.header longHeader true),
    .commit, .pop]

/-- Text, terminator and padding take one word, behind a header of two words; three more words are
those of the extended header. -/
theorem keepsAligned_new_sentTwice :
    ∃ q : Queue Shelf Transcript, (∀ operation ∈ sentTwice, operation.keepsToRequests = true) ∧
      q.KeepsAligned {} sentTwice ∧ (q.outflow sentTwice).map Chunk.length = [48] := by
  have hkeeps : ∀ operation ∈ sentTwice, operation.keepsToRequests = true :=
    List.all_eq_true.mp rfl
  refine ⟨_, hkeeps, keepsAligned_new ({ plan := { calls := [0] } } : Shelf) {} hkeeps, ?_⟩
  simp only [sentTwice, outflow, leaving, delivered, perform, Write.attempt_eq]
  rfl

end Queue

end WireQueue

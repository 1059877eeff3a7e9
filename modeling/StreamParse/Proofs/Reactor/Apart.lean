import StreamParse.Proofs.Reactor.Places
import StreamParse.Reactor.Request

/-!
# Places apart

A place is made of a few cells of the reactor: a listed source and a listed buffer, or a seat and the
source that the seat borrows.  Two reactors whose cells at a place are equal cannot be told apart
there, and what is put there makes them equal again.  Places apart have no cell in common, so what is
put at the one is not seen at the other.
-/

namespace StreamParse

theorem getD_congr {α : Type} {entries others : List α} {index : Nat} (default : α)
    (hsame : entries[index]? = others[index]?) :
    entries.getD index default = others.getD index default := by
  rw [List.getD_eq_getElem?_getD, List.getD_eq_getElem?_getD, hsame]

theorem lt_length_iff_of_getElem?_eq {α : Type} {entries others : List α} {index : Nat}
    (hsame : entries[index]? = others[index]?) :
    index < entries.length ↔ index < others.length := by
  rw [← Nat.not_le, ← Nat.not_le, ← List.getElem?_eq_none_iff, ← List.getElem?_eq_none_iff, hsame]

/-- Names a buffer, wherever it is. -/
inductive BufferId where
  | listed (index : Nat)
  | owned (seat : Nat)
  deriving DecidableEq, Repr

def Place.bufferId : Place → BufferId
  | listed _ buffer => .listed buffer
  | seat index => .owned index

/-- What a place is made of, as far as its indices stand for something. -/
structure Cells where
  seat : Option Seat := none
  source : Option Source := none
  buffer : Option Buffer := none

namespace Reactor

variable {ν ε : Type}

/-- The listed source that a layer borrows. -/
def borrowed? (reactor : Reactor ν ε) : Layer → Option Source
  | .borrowed source => reactor.sources[source]?
  | _ => none

def cells (reactor : Reactor ν ε) : Place → Cells
  | .listed source buffer =>
      { source := reactor.sources[source]?, buffer := reactor.buffers[buffer]? }
  | .seat index =>
      { seat := reactor.seats[index]?, source := reactor.borrowed? (reactor.seatAt index).layer }

/-- Places without a common source or buffer. -/
def Apart (reactor : Reactor ν ε) (place other : Place) : Prop :=
  place.bufferId ≠ other.bufferId ∧
    ∀ source ∈ reactor.sourceId? place, source ∉ reactor.sourceId? other

instance (reactor : Reactor ν ε) (place other : Place) : Decidable (reactor.Apart place other) :=
  inferInstanceAs (Decidable (_ ∧ _))

/-- What a place reads from when nothing else is said. -/
def readSizeAt (reactor : Reactor ν ε) : Place → UInt64
  | .listed _ _ => defaultReadSize
  | .seat index => (reactor.seatAt index).readSize

variable {reactor other : Reactor ν ε} {place place' : Place}

/-! ## Equal cells -/

theorem seatAt_congr {index : Nat}
    (hsame : reactor.cells (.seat index) = other.cells (.seat index)) :
    reactor.seatAt index = other.seatAt index :=
  getD_congr _ (congrArg Cells.seat hsame)

theorem feedAt_congr (hsame : reactor.cells place = other.cells place) :
    reactor.feedAt place = other.feedAt place := by
  cases place with
  | listed source buffer =>
      have hsource : reactor.sources[source]? = other.sources[source]? :=
        congrArg Cells.source hsame
      have hbuffer : reactor.buffers[buffer]? = other.buffers[buffer]? :=
        congrArg Cells.buffer hsame
      simp only [feedAt, getD_congr .closed hsource, getD_congr .unlimited hbuffer]
  | seat index =>
      have hseat := seatAt_congr hsame
      have hsource : reactor.borrowed? (reactor.seatAt index).layer =
          other.borrowed? (other.seatAt index).layer :=
        congrArg Cells.source hsame
      rw [hseat] at hsource
      rw [feedAt, feedAt, hseat]
      cases hkind : (other.seatAt index).layer with
      | borrowed source =>
          rw [hkind] at hsource
          simp only [Layer.source, getD_congr .closed hsource]
      | _ => rfl

theorem readSizeAt_congr (hsame : reactor.cells place = other.cells place) :
    reactor.readSizeAt place = other.readSizeAt place := by
  cases place with
  | listed source buffer => rfl
  | seat index => exact congrArg Seat.readSize (seatAt_congr hsame)

theorem sourceId?_congr (hsame : reactor.cells place = other.cells place) :
    reactor.sourceId? place = other.sourceId? place := by
  cases place with
  | listed source buffer => rfl
  | seat index => rw [sourceId?_seat, sourceId?_seat, seatAt_congr hsame]

theorem stands_congr (hsame : reactor.cells place = other.cells place) :
    reactor.Stands place ↔ other.Stands place := by
  cases place with
  | listed source buffer =>
      exact and_congr (lt_length_iff_of_getElem?_eq (congrArg Cells.source hsame))
        (lt_length_iff_of_getElem?_eq (congrArg Cells.buffer hsame))
  | seat index => exact lt_length_iff_of_getElem?_eq (congrArg Cells.seat hsame)

theorem hosts_congr (hsame : reactor.cells place = other.cells place) :
    reactor.Hosts place ↔ other.Hosts place := by
  cases place with
  | listed source buffer => exact stands_congr hsame
  | seat index =>
      have hseat := seatAt_congr hsame
      have hsource : reactor.borrowed? (reactor.seatAt index).layer =
          other.borrowed? (other.seatAt index).layer :=
        congrArg Cells.source hsame
      rw [hseat] at hsource
      refine and_congr (stands_congr hsame) ?_
      rw [hseat]
      cases hkind : (other.seatAt index).layer with
      | borrowed source =>
          rw [hkind] at hsource
          exact lt_length_iff_of_getElem?_eq hsource
      | _ => exact Iff.rfl

/-- What is put at a place makes its cells equal again. -/
theorem cells_putFeed (hsame : reactor.cells place = other.cells place)
    (stands : reactor.Stands place) (feed : Feed) :
    (reactor.putFeed place feed).cells place = (other.putFeed place feed).cells place := by
  cases place with
  | listed source buffer =>
      have hsource : reactor.sources[source]? = other.sources[source]? :=
        congrArg Cells.source hsame
      have hbuffer : reactor.buffers[buffer]? = other.buffers[buffer]? :=
        congrArg Cells.buffer hsame
      simp only [cells, putFeed, setSource, setBuffer, List.getElem?_set_self', hsource, hbuffer]
  | seat index =>
      have hcell : reactor.seats[index]? = other.seats[index]? := congrArg Cells.seat hsame
      have hseat := seatAt_congr hsame
      have hsource : reactor.borrowed? (reactor.seatAt index).layer =
          other.borrowed? (other.seatAt index).layer :=
        congrArg Cells.source hsame
      have hself := seatAt_putFeed_self feed stands
      have hself' := seatAt_putFeed_self feed ((stands_congr hsame).mp stands)
      simp only [cells, hself, hself']
      rw [hseat] at hsource ⊢
      rw [putFeed_seat, putFeed_seat, hseat]
      simp only [setSeat, seats_putSource, List.getElem?_set_self', hcell]
      cases hkind : (other.seatAt index).layer with
      | borrowed source =>
          rw [hkind] at hsource
          have hsource' : reactor.sources[source]? = other.sources[source]? := hsource
          simp only [borrowed?, Seat.withFeed, hkind, Layer.withSource, putSource, setSource,
            List.getElem?_set_self', hsource']
      | _ => simp only [borrowed?, Seat.withFeed, hkind, Layer.withSource]

/-! ## Nothing in common -/

/-- A place is the same where its source and its buffer are. -/
theorem cells_eq_of_getElem?_eq
    (hsource : ∀ source, .listed source ∈ reactor.sourceId? place →
      other.sources[source]? = reactor.sources[source]?)
    (hbuffer : ∀ buffer, place.bufferId = .listed buffer →
      other.buffers[buffer]? = reactor.buffers[buffer]?)
    (hseat : ∀ index, place.bufferId = .owned index →
      other.seats[index]? = reactor.seats[index]?) :
    other.cells place = reactor.cells place := by
  cases place with
  | listed source buffer => simp only [cells, hsource source rfl, hbuffer buffer rfl]
  | seat index =>
      have hsame : other.seatAt index = reactor.seatAt index := getD_congr _ (hseat index rfl)
      simp only [cells, hseat index rfl, hsame]
      rw [sourceId?_seat] at hsource
      cases hkind : (reactor.seatAt index).layer with
      | borrowed source =>
          rw [hkind] at hsource
          simp only [borrowed?, hsource source rfl]
      | _ => rfl

section Put

variable (feed : Feed)

theorem getElem?_sources_putFeed {source : Nat}
    (hother : .listed source ∉ reactor.sourceId? place) :
    (reactor.putFeed place feed).sources[source]? = reactor.sources[source]? := by
  cases place with
  | listed source' buffer =>
      have hne : source' ≠ source := by
        rintro rfl
        exact hother rfl
      simp only [putFeed, setSource, setBuffer, List.getElem?_set_ne hne]
  | seat index =>
      rw [sourceId?_seat] at hother
      rw [putFeed_seat]
      cases hkind : (reactor.seatAt index).layer with
      | borrowed source' =>
          have hne : source' ≠ source := by
            rintro rfl
            rw [hkind] at hother
            exact hother rfl
          simp only [putSource, setSeat, setSource, List.getElem?_set_ne hne]
      | _ => rfl

theorem getElem?_buffers_putFeed {buffer : Nat} (hother : place.bufferId ≠ .listed buffer) :
    (reactor.putFeed place feed).buffers[buffer]? = reactor.buffers[buffer]? := by
  cases place with
  | listed source buffer' =>
      have hne : buffer' ≠ buffer := by
        rintro rfl
        exact hother rfl
      simp only [putFeed, setSource, setBuffer, List.getElem?_set_ne hne]
  | seat index => rw [putFeed_seat, setSeat, buffers_putSource]

theorem getElem?_seats_putFeed {index : Nat} (hother : place.bufferId ≠ .owned index) :
    (reactor.putFeed place feed).seats[index]? = reactor.seats[index]? := by
  cases place with
  | listed source buffer => rfl
  | seat index' =>
      have hne : index' ≠ index := by
        rintro rfl
        exact hother rfl
      rw [putFeed_seat]
      simp only [setSeat, seats_putSource, List.getElem?_set_ne hne]

/-- What is put at a place apart is not seen. -/
theorem cells_putFeed_of_apart (apart : reactor.Apart place place') :
    (reactor.putFeed place' feed).cells place = reactor.cells place := by
  obtain ⟨hbuffer, hsource⟩ := apart
  apply cells_eq_of_getElem?_eq
  · intro source hmem
    exact getElem?_sources_putFeed feed (hsource _ hmem)
  · intro buffer hown
    exact getElem?_buffers_putFeed feed (hown ▸ hbuffer.symm)
  · intro index hown
    exact getElem?_seats_putFeed feed (hown ▸ hbuffer.symm)

end Put

end Reactor

end StreamParse

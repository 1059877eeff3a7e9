import StreamParse.Reactor.Operation

/-!
# Places

A place of a reactor that hosts a feed behaves like a cell: the feed that was put there is found
there, a second one takes the place of the first, and putting back what was found changes nothing.
The rest of the reactor goes on as before: whatever hosts a feed still does, no source ends in
another way, and the queue is not touched.
-/

namespace StreamParse

/-- What a property does not tell from the entry in its place may replace it. -/
theorem apply_getD_set {α β : Type} (property : α → β) {entries : List α} {index : Nat}
    {entry default : α} (hsame : property entry = property (entries.getD index default))
    (other : Nat) :
    property ((entries.set index entry).getD other default) =
      property (entries.getD other default) := by
  by_cases hother : index = other
  · subst hother
    by_cases hindex : index < entries.length
    · rw [List.getD_eq_getElem?_getD, List.getElem?_set_self hindex, Option.getD_some, hsame]
    · rw [List.set_eq_of_length_le (Nat.le_of_not_lt hindex)]
  · rw [List.getD_eq_getElem?_getD, List.getElem?_set_ne hother, ← List.getD_eq_getElem?_getD]

theorem getD_set_self {α : Type} {entries : List α} {index : Nat} (entry default : α)
    (hindex : index < entries.length) : (entries.set index entry).getD index default = entry := by
  rw [List.getD_eq_getElem?_getD, List.getElem?_set_self hindex, Option.getD_some]

theorem getElem?_eq_some_getD {α : Type} {entries : List α} {index : Nat} (default : α)
    (hindex : index < entries.length) : entries[index]? = some (entries.getD index default) := by
  rw [List.getD_eq_getElem?_getD, List.getElem?_eq_getElem hindex, Option.getD_some]

theorem set_getD_self {α : Type} (entries : List α) (index : Nat) (default : α) :
    entries.set index (entries.getD index default) = entries := by
  by_cases hindex : index < entries.length
  · rw [List.getD_eq_getElem?_getD, List.getElem?_eq_getElem hindex, Option.getD_some,
      List.set_getElem_self]
  · exact List.set_eq_of_length_le (Nat.le_of_not_lt hindex)

theorem getD_le_foldr {α : Type} (measure : α → Nat) {entries : List α} {index : Nat} (default : α)
    (hindex : index < entries.length) :
    measure (entries.getD index default) ≤
      entries.foldr (fun entry sum => measure entry + sum) 0 := by
  induction entries generalizing index with
  | nil => exact absurd hindex (Nat.not_lt_zero _)
  | cons entry entries ih =>
      rw [List.foldr_cons]
      cases index with
      | zero => exact Nat.le_add_right _ _
      | succ index =>
          exact Nat.le_trans (ih (Nat.lt_of_succ_lt_succ hindex)) (Nat.le_add_left _ _)

/-- Whether a layer has a source, when there are `count` to borrow from. -/
def Layer.HasSource (count : Nat) : Layer → Prop
  | owned _ => True
  | borrowed index => index < count
  | released => False

namespace Layer

/-- The layer when its source, if it owns one, is in this state. -/
def withSource (source : Source) : Layer → Layer
  | owned _ => owned source
  | layer => layer

@[simp]
theorem withSource_withSource (first second : Source) (layer : Layer) :
    (layer.withSource first).withSource second = layer.withSource second := by
  cases layer <;> rfl

@[simp]
theorem hasSource_withSource (count : Nat) (source : Source) (layer : Layer) :
    (layer.withSource source).HasSource count ↔ layer.HasSource count := by
  cases layer <;> rfl

@[simp]
theorem withSource_source (sources : List Source) (layer : Layer) :
    layer.withSource (layer.source sources) = layer := by
  cases layer <;> rfl

end Layer

namespace Seat

/-- A seat after its feed went through something. -/
def withFeed (seat : Seat) (feed : Feed) : Seat :=
  { seat with layer := seat.layer.withSource feed.source, buffer := feed.buffer }

@[simp]
theorem withFeed_withFeed (seat : Seat) (first second : Feed) :
    (seat.withFeed first).withFeed second = seat.withFeed second := by
  simp [withFeed]

end Seat

namespace Reactor

variable {ν ε : Type}

/-- A place whose indices stand for something and whose source was not moved away. -/
def Hosts (reactor : Reactor ν ε) : Place → Prop
  | .listed source buffer => source < reactor.sources.length ∧ buffer < reactor.buffers.length
  | .seat index =>
      index < reactor.seats.length ∧
        (reactor.seatAt index).layer.HasSource reactor.sources.length

/-- A place whose indices stand for something, whatever became of its source. -/
def Stands (reactor : Reactor ν ε) : Place → Prop
  | .listed source buffer => source < reactor.sources.length ∧ buffer < reactor.buffers.length
  | .seat index => index < reactor.seats.length

theorem Hosts.stands {reactor : Reactor ν ε} {place : Place} (hosts : reactor.Hosts place) :
    reactor.Stands place := by
  cases place with
  | listed source buffer => exact hosts
  | seat index => exact hosts.1

/-- Puts the source of a layer back, if it is not the layer's own. -/
def putSource (reactor : Reactor ν ε) (source : Source) : Layer → Reactor ν ε
  | .borrowed index => reactor.setSource index source
  | _ => reactor

theorem putFeed_seat (reactor : Reactor ν ε) (index : Nat) (feed : Feed) :
    reactor.putFeed (.seat index) feed =
      (reactor.putSource feed.source (reactor.seatAt index).layer).setSeat index
        ((reactor.seatAt index).withFeed feed) := by
  cases hlayer : (reactor.seatAt index).layer <;>
    simp [putFeed, putSource, Seat.withFeed, Layer.withSource, hlayer]

@[simp]
theorem seats_putSource (reactor : Reactor ν ε) (source : Source) (layer : Layer) :
    (reactor.putSource source layer).seats = reactor.seats := by
  cases layer <;> rfl

@[simp]
theorem buffers_putSource (reactor : Reactor ν ε) (source : Source) (layer : Layer) :
    (reactor.putSource source layer).buffers = reactor.buffers := by
  cases layer <;> rfl

@[simp]
theorem length_sources_putSource (reactor : Reactor ν ε) (source : Source) (layer : Layer) :
    (reactor.putSource source layer).sources.length = reactor.sources.length := by
  cases layer <;> simp [putSource, setSource]

/-! ## One place -/

variable {reactor : Reactor ν ε} {place : Place}

theorem seatAt_putFeed_self {index : Nat} (feed : Feed) (hindex : index < reactor.seats.length) :
    (reactor.putFeed (.seat index) feed).seatAt index = (reactor.seatAt index).withFeed feed := by
  rw [putFeed_seat, setSeat, seatAt, seats_putSource, getD_set_self _ _ hindex]

/-- What was put somewhere is found there. -/
theorem feedAt_putFeed (hosts : reactor.Hosts place) (feed : Feed) :
    (reactor.putFeed place feed).feedAt place = feed := by
  cases place with
  | listed source buffer =>
      obtain ⟨hsource, hbuffer⟩ := hosts
      exact congr (congrArg Feed.mk (getD_set_self feed.source .closed hsource))
        (getD_set_self feed.buffer .unlimited hbuffer)
  | seat index =>
      obtain ⟨hindex, hlayer⟩ := hosts
      have hsource : ((reactor.seatAt index).withFeed feed).layer.source
          (reactor.putFeed (.seat index) feed).sources = feed.source := by
        rw [putFeed_seat]
        cases hkind : (reactor.seatAt index).layer with
        | owned source => simp [Seat.withFeed, hkind, Layer.withSource, Layer.source]
        | borrowed source =>
            rw [hkind] at hlayer
            simp only [Seat.withFeed, hkind, Layer.withSource, Layer.source]
            exact getD_set_self feed.source .closed hlayer
        | released =>
            rw [hkind] at hlayer
            exact hlayer.elim
      rw [feedAt, seatAt_putFeed_self feed hindex, hsource]
      rfl

/-- A buffer that was put somewhere is found there, with the source that was there before. -/
theorem feedAt_putFeed_buffer (stands : reactor.Stands place) (buffer : Buffer) :
    (reactor.putFeed place { reactor.feedAt place with buffer }).feedAt place =
      { reactor.feedAt place with buffer } := by
  cases place with
  | listed source index =>
      have hosts : reactor.Hosts (.listed source index) := stands
      exact feedAt_putFeed hosts _
  | seat index =>
      have hseat := seatAt_putFeed_self { reactor.feedAt (.seat index) with buffer } stands
      have hsource : ((reactor.seatAt index).layer.withSource
          (reactor.feedAt (.seat index)).source).source
          (reactor.putFeed (.seat index) { reactor.feedAt (.seat index) with buffer }).sources =
          (reactor.feedAt (.seat index)).source := by
        rw [putFeed_seat, feedAt]
        cases hkind : (reactor.seatAt index).layer with
        | borrowed source =>
            have hsources := set_getD_self reactor.sources source .closed
            simp only [Layer.withSource, Layer.source, putSource, setSeat, setSource, hsources]
        | _ => rfl
      rw [feedAt, hseat, Seat.withFeed, hsource]

/-- The second of two feeds takes the place of the first. -/
theorem putFeed_putFeed (stands : reactor.Stands place) (first second : Feed) :
    (reactor.putFeed place first).putFeed place second = reactor.putFeed place second := by
  cases place with
  | listed source buffer => simp [putFeed, setSource, setBuffer]
  | seat index =>
      rw [putFeed_seat, seatAt_putFeed_self first stands, putFeed_seat, putFeed_seat,
        Seat.withFeed_withFeed]
      cases hkind : (reactor.seatAt index).layer <;>
        simp [putSource, setSeat, setSource, Seat.withFeed, Layer.withSource, hkind]

/-- To put back what was found changes nothing. -/
theorem putFeed_feedAt (reactor : Reactor ν ε) (place : Place) :
    reactor.putFeed place (reactor.feedAt place) = reactor := by
  cases place with
  | listed source buffer =>
      have hsources := set_getD_self reactor.sources source .closed
      have hbuffers := set_getD_self reactor.buffers buffer .unlimited
      simp only [putFeed, feedAt, setSource, setBuffer, hsources, hbuffers]
  | seat index =>
      have hseat : (reactor.seatAt index).withFeed (reactor.feedAt (.seat index)) =
          reactor.seatAt index := by
        simp [Seat.withFeed, feedAt]
      have hsource : reactor.putSource (reactor.feedAt (.seat index)).source
          (reactor.seatAt index).layer = reactor := by
        cases hkind : (reactor.seatAt index).layer with
        | borrowed source =>
            have hsources := set_getD_self reactor.sources source .closed
            simp only [putSource, setSource, feedAt, hkind, Layer.source, hsources]
        | _ => rfl
      rw [putFeed_seat, hseat, hsource, setSeat, seatAt, set_getD_self]

/-! ## The rest of the reactor -/

@[simp]
theorem queue_putFeed (reactor : Reactor ν ε) (place : Place) (feed : Feed) :
    (reactor.putFeed place feed).queue = reactor.queue := by
  cases place with
  | listed source buffer => rfl
  | seat index =>
      rw [putFeed_seat]
      cases (reactor.seatAt index).layer <;> rfl

@[simp]
theorem held_putFeed (reactor : Reactor ν ε) (place : Place) (feed : Feed) :
    (reactor.putFeed place feed).held = reactor.held := by
  cases place with
  | listed source buffer => rfl
  | seat index =>
      rw [putFeed_seat]
      cases (reactor.seatAt index).layer <;> rfl

/-- A feed that is put somewhere changes neither what is listed nor what is a seat. -/
@[simp]
theorem stands_putFeed (reactor : Reactor ν ε) (place : Place) (feed : Feed) (other : Place) :
    (reactor.putFeed place feed).Stands other ↔ reactor.Stands other := by
  cases place with
  | listed source buffer => cases other <;> simp [Stands, putFeed, setSource, setBuffer]
  | seat index => rw [putFeed_seat]; cases other <;> simp [Stands, setSeat]

/-- The source that a seat reads from, if it has one. -/
def sourceIdOf (index : Nat) : Layer → Option SourceId
  | .owned _ => some (.owned index)
  | .borrowed source => some (.listed source)
  | .released => none

theorem sourceId?_seat (reactor : Reactor ν ε) (index : Nat) :
    reactor.sourceId? (.seat index) = sourceIdOf index (reactor.seatAt index).layer := by
  rw [sourceId?]
  cases (reactor.seatAt index).layer <;> rfl

/-- Every place reads from the source that it read from before. -/
@[simp]
theorem sourceId?_putFeed (reactor : Reactor ν ε) (place : Place) (feed : Feed) (other : Place) :
    (reactor.putFeed place feed).sourceId? other = reactor.sourceId? other := by
  cases other with
  | listed source buffer => rfl
  | seat other =>
      rw [sourceId?_seat, sourceId?_seat]
      cases place with
      | listed source buffer => rfl
      | seat index =>
          have hkind : ∀ (layer : Layer) (source : Source),
              sourceIdOf other (layer.withSource source) = sourceIdOf other layer := by
            intro layer source
            cases layer <;> rfl
          have hseat : sourceIdOf other ((reactor.seatAt index).withFeed feed).layer =
              sourceIdOf other (reactor.seatAt index).layer :=
            hkind _ _
          have hsame := apply_getD_set (fun seat : Seat => sourceIdOf other seat.layer) hseat other
          rw [putFeed_seat]
          simp only [setSeat, seatAt, seats_putSource]
          exact hsame

/-- Only a source that a place still has holds a read. -/
theorem isSome_sourceId?_of_holdsNext
    (holds : (reactor.feedAt place).source.holdsNext = true) :
    (reactor.sourceId? place).isSome = true := by
  cases place with
  | listed source buffer => rfl
  | seat index =>
      rw [sourceId?_seat]
      rw [feedAt] at holds
      cases hkind : (reactor.seatAt index).layer with
      | released =>
          rw [hkind] at holds
          exact absurd holds Bool.false_ne_true
      | _ => rfl

theorem hosts_putFeed (reactor : Reactor ν ε) (place : Place) (feed : Feed) (other : Place) :
    (reactor.putFeed place feed).Hosts other ↔ reactor.Hosts other := by
  cases place with
  | listed source buffer =>
      cases other <;> simp [Hosts, putFeed, setSource, setBuffer, seatAt]
  | seat index =>
      rw [putFeed_seat]
      cases other with
      | listed source buffer => simp [Hosts, setSeat]
      | seat other =>
          have hseat : ((reactor.seatAt index).withFeed feed).layer.HasSource
              reactor.sources.length = (reactor.seatAt index).layer.HasSource
                reactor.sources.length :=
            propext (Layer.hasSource_withSource _ _ _)
          have hsame := apply_getD_set
            (fun seat : Seat => seat.layer.HasSource reactor.sources.length) hseat other
          simp only [Hosts, setSeat, seatAt, seats_putSource, length_sources_putSource,
            List.length_set]
          exact and_congr_right fun _ => iff_of_eq hsame

theorem atEnd_putSource {source : Source} {layer : Layer}
    (hend : source.atEnd = (layer.source reactor.sources).atEnd) (other : Layer) :
    (other.source (reactor.putSource source layer).sources).atEnd =
      (other.source reactor.sources).atEnd := by
  cases layer with
  | borrowed index =>
      cases other with
      | borrowed other => exact apply_getD_set Source.atEnd hend other
      | _ => rfl
  | _ => rfl

/-- No source ends otherwise than before, if the one that was put back does not. -/
theorem atEnd_putFeed {feed : Feed}
    (hend : feed.source.atEnd = (reactor.feedAt place).source.atEnd) (other : Place) :
    ((reactor.putFeed place feed).feedAt other).source.atEnd =
      (reactor.feedAt other).source.atEnd := by
  cases place with
  | listed source buffer =>
      have hsame := @atEnd_putSource ν ε reactor feed.source (.borrowed source) hend
      cases other with
      | listed other _ => exact hsame (.borrowed other)
      | seat other => exact hsame (reactor.seatAt other).layer
  | seat index =>
      have hsame := @atEnd_putSource ν ε reactor feed.source (reactor.seatAt index).layer hend
      rw [putFeed_seat]
      cases other with
      | listed other _ => exact hsame (.borrowed other)
      | seat other =>
          have hseat : (((reactor.seatAt index).withFeed feed).layer.source reactor.sources).atEnd =
              ((reactor.seatAt index).layer.source reactor.sources).atEnd := by
            simp only [feedAt] at hend
            cases hkind : (reactor.seatAt index).layer <;> rw [hkind] at hend <;>
              simp_all [Seat.withFeed, Layer.withSource, Layer.source]
          have hsame' := apply_getD_set
            (fun seat : Seat => (seat.layer.source reactor.sources).atEnd) hseat other
          simp only [feedAt, setSeat, seatAt, seats_putSource]
          exact (hsame _).trans hsame'

/-- The turns of a source that is hosted are among those of the reactor. -/
theorem turns_feedAt_le (hosts : reactor.Hosts place) :
    (reactor.feedAt place).source.turns ≤ reactor.turns := by
  have hlisted : ∀ {index}, index < reactor.sources.length →
      (reactor.sources.getD index .closed).turns ≤
        reactor.sources.foldr (fun source sum => source.turns + sum) 0 := by
    intro index hindex
    exact getD_le_foldr Source.turns _ hindex
  cases place with
  | listed source buffer =>
      exact Nat.le_trans (hlisted hosts.1) (Nat.le_add_right _ _)
  | seat index =>
      obtain ⟨hindex, hlayer⟩ := hosts
      cases hkind : (reactor.seatAt index).layer with
      | owned source =>
          have hseat := getD_le_foldr (fun seat : Seat => seat.layer.turns)
            { layer := .released } hindex
          rw [← seatAt, hkind] at hseat
          rw [feedAt, hkind]
          exact Nat.le_trans hseat (Nat.le_add_left _ _)
      | borrowed source =>
          rw [hkind] at hlayer
          rw [feedAt, hkind]
          exact Nat.le_trans (hlisted hlayer) (Nat.le_add_right _ _)
      | released =>
          rw [hkind] at hlayer
          exact hlayer.elim

/-- What a job at one place leaves as it was everywhere: the queue, the places that host a feed,
and the ends of their sources. -/
structure Alike (reactor next : Reactor ν ε) : Prop where
  queue : next.queue = reactor.queue
  hosts : ∀ place, next.Hosts place ↔ reactor.Hosts place
  atEnd : ∀ place, (next.feedAt place).source.atEnd = (reactor.feedAt place).source.atEnd

theorem Alike.trans {reactor next last : Reactor ν ε} (first : reactor.Alike next)
    (second : next.Alike last) : reactor.Alike last where
  queue := second.queue.trans first.queue
  hosts place := (second.hosts place).trans (first.hosts place)
  atEnd place := (second.atEnd place).trans (first.atEnd place)

theorem alike_putFeed {feed : Feed}
    (hend : feed.source.atEnd = (reactor.feedAt place).source.atEnd) :
    reactor.Alike (reactor.putFeed place feed) where
  queue := queue_putFeed reactor place feed
  hosts := hosts_putFeed reactor place feed
  atEnd := atEnd_putFeed hend

/-- Settings of a seat are nothing that a place is told apart by. -/
theorem alike_setSeat {index : Nat} {seat : Seat}
    (hlayer : seat.layer = (reactor.seatAt index).layer) :
    reactor.Alike (reactor.setSeat index seat) where
  queue := rfl
  hosts place := by
    cases place with
    | listed source buffer => exact Iff.rfl
    | seat other =>
        have hsame := apply_getD_set Seat.layer hlayer other
        simp only [Hosts, setSeat, seatAt, List.length_set, hsame]
  atEnd place := by
    cases place with
    | listed source buffer => rfl
    | seat other =>
        have hsame := apply_getD_set Seat.layer hlayer other
        simp only [feedAt, setSeat, seatAt, hsame]

theorem alike_putSession {index : Nat} {session : Session}
    (hend : session.feed.source.atEnd = (reactor.feedAt (.seat index)).source.atEnd) :
    reactor.Alike (reactor.putSession index session) :=
  (alike_putFeed hend).trans (alike_setSeat rfl)

end Reactor

end StreamParse

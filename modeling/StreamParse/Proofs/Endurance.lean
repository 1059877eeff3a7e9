import StreamParse.Source

/-!
# How long a source lasts

A live source offers at least one byte to every read that has room for one, and it fails once its
chunks are gone.  What such a source has left is counted here in units that every successful read
uses up: its unread bytes, its empty chunks, and the injections that no read has met yet.  A read
that fails was injected, or has found the end of the source.
-/

namespace StreamParse.Source

/-- Every read may take a byte, and the end of the source is a failure. -/
structure Live (source : Source) : Prop where
  cap_pos : ∀ {most : Nat}, source.cap = some most → 0 < most
  ends : source.atEnd.code.failed = true

/-- The injections that no read has met yet. -/
def upcoming (source : Source) : Nat :=
  source.injections.countP fun injection => source.reads < injection.turn

/-- The bytes and empty chunks that are left. -/
def supply (source : Source) : Nat :=
  source.unread.length + source.chunks.countP List.isEmpty

/-- The number of reads that can still succeed. -/
def endurance (source : Source) : Nat := source.supply + source.upcoming

/-! ## What a read leaves alone -/

theorem draw_eq (source : Source) (room : Nat) :
    (source.draw room).2 = { source with chunks := (source.draw room).2.chunks } := by
  rw [draw]
  split <;> rfl

/-- A read without an injection takes from the first chunk. -/
theorem read_of_none {source : Source} (room : Nat)
    (hnone : source.injection? (source.reads + 1) = none) :
    source.read room = draw { source with reads := source.reads + 1 } room := by
  have hnone' : injection? { source with reads := source.reads + 1 } (source.reads + 1) = none :=
    hnone
  simp [read, hnone']

/-- An injected read that keeps its bytes takes them like any other. -/
theorem read_of_keeps {source : Source} (room : Nat) {injection : Injection}
    (hsome : source.injection? (source.reads + 1) = some injection)
    (hkeeps : injection.keepsBytes = true) :
    source.read room =
      ({ (draw { source with reads := source.reads + 1 } room).1 with code := injection.code },
        (draw { source with reads := source.reads + 1 } room).2) := by
  have hsome' : injection? { source with reads := source.reads + 1 } (source.reads + 1) =
      some injection := hsome
  simp [read, hsome', hkeeps]

/-- An injected read that does not keep its bytes takes none. -/
theorem read_of_drops {source : Source} (room : Nat) {injection : Injection}
    (hsome : source.injection? (source.reads + 1) = some injection)
    (hdrops : injection.keepsBytes = false) :
    source.read room =
      ({ code := injection.code }, { source with reads := source.reads + 1 }) := by
  have hsome' : injection? { source with reads := source.reads + 1 } (source.reads + 1) =
      some injection := hsome
  simp [read, hsome', hdrops]

/-- A read changes the chunks, and counts itself. -/
theorem read_eq (source : Source) (room : Nat) :
    (source.read room).2 =
      { source with chunks := (source.read room).2.chunks, reads := source.reads + 1 } := by
  cases hinjection : source.injection? (source.reads + 1) with
  | none =>
      rw [read_of_none room hinjection]
      exact draw_eq { source with reads := source.reads + 1 } room
  | some injection =>
      cases hkeeps : injection.keepsBytes with
      | true =>
          rw [read_of_keeps room hinjection hkeeps]
          exact draw_eq { source with reads := source.reads + 1 } room
      | false => rw [read_of_drops room hinjection hkeeps]

@[simp]
theorem atEnd_read (source : Source) (room : Nat) :
    (source.read room).2.atEnd = source.atEnd := by
  rw [read_eq]

@[simp]
theorem cap_read (source : Source) (room : Nat) : (source.read room).2.cap = source.cap := by
  rw [read_eq]

@[simp]
theorem injections_read (source : Source) (room : Nat) :
    (source.read room).2.injections = source.injections := by
  rw [read_eq]

theorem Live.read {source : Source} (live : source.Live) (room : Nat) :
    (source.read room).2.Live where
  cap_pos := by
    intro most hcap
    rw [cap_read] at hcap
    exact live.cap_pos hcap
  ends := by
    rw [atEnd_read]
    exact live.ends

theorem Live.allowance_pos {source : Source} (live : source.Live) {room : Nat}
    (hroom : 0 < room) : 0 < source.allowance room := by
  rw [allowance]
  split
  · exact hroom
  · next most hcap => exact Nat.lt_min.mpr ⟨hroom, live.cap_pos hcap⟩

/-! ## Every successful read uses something up -/

/-- Among the injections ahead, those of the very next read are met by it. -/
theorem upcoming_eq (source : Source) :
    source.upcoming =
      source.injections.countP (fun injection => source.reads + 1 < injection.turn) +
        source.injections.countP (fun injection => injection.turn == source.reads + 1) := by
  rw [upcoming]
  induction source.injections with
  | nil => rfl
  | cons injection injections ih =>
      simp only [List.countP_cons, ih, decide_eq_true_eq, beq_iff_eq]
      split <;> split <;> split <;> omega

theorem upcoming_read_le (source : Source) (room : Nat) :
    (source.read room).2.upcoming ≤ source.upcoming := by
  rw [upcoming_eq source, upcoming, injections_read, reads_read]
  exact Nat.le_add_right _ _

/-- An injection that was met is not ahead any more. -/
theorem upcoming_read_lt {source : Source} (room : Nat) {injection : Injection}
    (hsome : source.injection? (source.reads + 1) = some injection) :
    (source.read room).2.upcoming < source.upcoming := by
  have hfind := hsome
  rw [injection?] at hfind
  have hmem : injection ∈ source.injections := List.mem_of_find?_eq_some hfind
  have hturn := List.find?_some hfind
  have hpos : 0 < source.injections.countP
      (fun injection => injection.turn == source.reads + 1) :=
    List.countP_pos_iff.mpr ⟨injection, hmem, hturn⟩
  rw [upcoming_eq source, upcoming, injections_read, reads_read]
  exact Nat.lt_add_of_pos_right hpos

theorem supply_draw_le (source : Source) (room : Nat) :
    (source.draw room).2.supply ≤ source.supply := by
  cases hchunks : source.chunks with
  | nil => simp [draw, hchunks]
  | cons chunk chunks =>
      simp only [supply, unread, draw, hchunks, List.flatten_cons, List.length_append,
        List.countP_cons]
      split
      · omega
      · next hleft =>
        simp [hleft]
        omega

/-- A chunk gives up a byte, or itself when it is empty. -/
theorem supply_draw_lt {source : Source} {room : Nat} (hchunks : source.chunks ≠ [])
    (hallowance : 0 < source.allowance room) :
    (source.draw room).2.supply < source.supply := by
  obtain ⟨chunk, chunks, heq⟩ := List.exists_cons_of_ne_nil hchunks
  simp only [supply, unread, draw, heq, List.flatten_cons, List.length_append,
    List.countP_cons]
  cases chunk with
  | nil => simp
  | cons byte bytes =>
      split
      · simp
      · next hleft =>
        simp [hleft]
        omega

theorem supply_read_le (source : Source) (room : Nat) :
    (source.read room).2.supply ≤ source.supply := by
  cases hinjection : source.injection? (source.reads + 1) with
  | none =>
      rw [read_of_none room hinjection]
      exact supply_draw_le { source with reads := source.reads + 1 } room
  | some injection =>
      cases hkeeps : injection.keepsBytes with
      | true =>
          rw [read_of_keeps room hinjection hkeeps]
          exact supply_draw_le { source with reads := source.reads + 1 } room
      | false =>
          rw [read_of_drops room hinjection hkeeps]
          exact Nat.le_refl _

/-- A live source cannot go on succeeding for ever. -/
theorem Live.endurance_read_lt {source : Source} (live : source.Live) {room : Nat}
    (hroom : 0 < room) (hsucceeds : (source.read room).1.code.failed = false) :
    (source.read room).2.endurance < source.endurance := by
  have hsupply := source.supply_read_le room
  have hupcoming := source.upcoming_read_le room
  rw [endurance, endurance]
  cases hinjection : source.injection? (source.reads + 1) with
  | some injection =>
      have hmet := upcoming_read_lt room hinjection
      exact Nat.add_lt_add_of_le_of_lt hsupply hmet
  | none =>
      have hchunks : source.chunks ≠ [] := by
        intro hnil
        rw [read_of_none room hinjection] at hsucceeds
        simp [draw, hnil, live.ends] at hsucceeds
      have hallowance := live.allowance_pos hroom
      have hdrawn : (source.read room).2.supply < source.supply := by
        rw [read_of_none room hinjection]
        exact @supply_draw_lt { source with reads := source.reads + 1 } room hchunks hallowance
      exact Nat.add_lt_add_of_lt_of_le hdrawn hupcoming

/-- Only a source that is used up fails a read that was not injected, and then it says how it
ended. -/
theorem read_failed {source : Source} {room : Nat}
    (hnone : source.injection? (source.reads + 1) = none)
    (hfailed : (source.read room).1.code.failed = true) :
    source.unread = [] ∧ (source.read room).1 = { code := source.atEnd.code } := by
  rw [read_of_none room hnone] at hfailed ⊢
  cases hchunks : source.chunks with
  | nil => simp [unread, draw, hchunks]
  | cons chunk chunks => simp [draw, hchunks] at hfailed

/-- A source lasts no longer than its patience says. -/
theorem endurance_lt_patience (source : Source) : source.endurance < source.patience := by
  have hupcoming : source.upcoming ≤ source.injections.length := List.countP_le_length
  have hsupply : source.supply =
      source.unread.length + (source.chunks.filter List.isEmpty).length := by
    rw [supply, List.countP_eq_length_filter]
  calc
    source.endurance ≤ source.supply + source.injections.length :=
      Nat.add_le_add_left hupcoming _
    _ < source.supply + source.injections.length + 1 := Nat.lt_succ_self _
    _ = source.patience := by rw [hsupply, patience]

end StreamParse.Source

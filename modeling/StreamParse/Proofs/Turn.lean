import StreamParse.Buffer.Valid
import StreamParse.Run

/-!
# One turn of a parse

A look at a buffer goes on in one of seven ways, and which one is decided by the outcome of the
look and by the room that the limit leaves.  Every later statement about a parse starts from this
list: it says once what a turn can do.
-/

namespace StreamParse.Buffer

variable {ν ε : Type}

/-! ## The amount of the next read -/

theorem readSize_le_appetite (b : Buffer) (hint : Option Nat) (readSize : UInt64) :
    readSize.toNat ≤ (b.appetite hint readSize).toNat := by
  cases hint with
  | none => exact Nat.le_refl _
  | some missing =>
      change readSize.toNat ≤ (max readSize _).toNat
      rw [Word.toNat_max]
      exact Nat.le_max_left _ _

theorem toNat_nextRead (b : Buffer) (hint : Option Nat) (readSize : UInt64) :
    (b.nextRead hint readSize).toNat =
      min (b.appetite hint readSize).toNat b.headroom.toNat :=
  Word.toNat_min _ _

theorem headroom_eq_zero_iff {b : Buffer} : b.headroom = 0 ↔ b.size = b.limit := by
  rw [headroom, UInt64.sub_eq_iff_eq_add, UInt64.zero_add]
  exact eq_comm

/-- A parse that may read something at all is refused a read only by a full window. -/
theorem nextRead_eq_zero_iff {b : Buffer} {hint : Option Nat} {readSize : UInt64}
    (hread : readSize ≠ 0) : b.nextRead hint readSize = 0 ↔ b.size = b.limit := by
  rw [← headroom_eq_zero_iff, ← UInt64.toNat_inj, ← UInt64.toNat_inj, toNat_nextRead]
  have happetite := b.readSize_le_appetite hint readSize
  have hpos : readSize.toNat ≠ 0 := fun hzero => hread (UInt64.toNat_inj.mp hzero)
  change min _ _ = 0 ↔ _ = 0
  omega

/-- A window within its limit is never asked to take more than the limit leaves. -/
theorem size_add_nextRead_le (b : Buffer) (hint : Option Nat) (readSize : UInt64)
    (hsize : b.size.toNat ≤ b.limit.toNat) :
    b.size.toNat + (b.nextRead hint readSize).toNat ≤ b.limit.toNat := by
  have hheadroom : b.headroom.toNat = b.limit.toNat - b.size.toNat := Word.toNat_sub hsize
  rw [toNat_nextRead, hheadroom]
  omega

/-! ## New allocations -/

theorem half_limit_lt_iff {b : Buffer} :
    b.capacity > b.limit / 2 ↔ b.limit.toNat / 2 < b.capacity.toNat := by
  change b.limit / 2 < b.capacity ↔ _
  rw [UInt64.lt_iff_toNat_lt, UInt64.toNat_div]
  rfl

/-- A new allocation has the size that its numbers say: doubling never leaves the machine word, because
the old one is then at most half of the limit. -/
theorem grownCapacity_eq {b : Buffer} {n : UInt64}
    (hlimit : b.size.toNat + n.toNat ≤ b.limit.toNat) :
    (b.grownCapacity n).toNat =
      if b.limit.toNat / 2 < b.capacity.toNat then b.limit.toNat
      else max (b.size.toNat + n.toNat) (2 * b.capacity.toNat) := by
  have hbound := b.limit.toNat_lt
  rw [grownCapacity]
  by_cases hhalf : b.limit.toNat / 2 < b.capacity.toNat
  · rw [if_pos hhalf, if_pos (half_limit_lt_iff.mpr hhalf)]
  · have hdouble : (2 * b.capacity).toNat = 2 * b.capacity.toNat := by
      rw [UInt64.toNat_mul]
      change 2 * b.capacity.toNat % 2 ^ 64 = _
      omega
    rw [if_neg hhalf, if_neg (mt half_limit_lt_iff.mp hhalf), Word.toNat_max,
      Word.toNat_add (by omega), hdouble]

/-! ## What is discarded -/

@[simp]
theorem limit_discard (b : Buffer) (n : UInt64) : (b.discard n).limit = b.limit := by
  rw [discard]
  split <;> rfl

@[simp]
theorem capacity_discard (b : Buffer) (n : UInt64) : (b.discard n).capacity = b.capacity := by
  rw [discard]
  split <;> rfl

theorem size_discard_le (b : Buffer) (n : UInt64) :
    (b.discard n).size.toNat ≤ b.size.toNat := by
  rw [discard]
  split
  · next hlt =>
    change (b.size - n).toNat ≤ _
    rw [Word.toNat_sub (Nat.le_of_lt (UInt64.lt_iff_toNat_lt.mp hlt))]
    exact Nat.sub_le _ _
  · exact Nat.zero_le _

variable [Allocator]

/-! ## Room that was reserved -/

theorem placement_eq_error {b : Buffer} {n : UInt64} {fault : Fault}
    (h : b.placement n = .error fault) :
    fault = .overLimit ∧ b.limit.toNat < b.size.toNat + n.toNat ∨
      fault = .outOfMemory ∧ b.size.toNat + n.toNat ≤ b.limit.toNat := by
  rw [placement] at h
  split at h
  · next hlimit =>
    cases h
    refine .inl ⟨rfl, ?_⟩
    rcases hlimit with hn | hsize
    · exact Nat.lt_of_lt_of_le (UInt64.lt_iff_toNat_lt.mp hn) (Nat.le_add_left _ _)
    · by_cases hn : n.toNat ≤ b.limit.toNat
      · have hsize := UInt64.lt_iff_toNat_lt.mp hsize
        rw [Word.toNat_sub hn] at hsize
        omega
      · omega
  · next hlimit =>
    have hlimits := not_or.mp hlimit
    have hn : n.toNat ≤ b.limit.toNat := UInt64.le_iff_toNat_le.mp (UInt64.not_lt.mp hlimits.1)
    have hsize : b.size.toNat ≤ (b.limit - n).toNat :=
      UInt64.le_iff_toNat_le.mp (UInt64.not_lt.mp hlimits.2)
    rw [Word.toNat_sub hn] at hsize
    split at h
    · cases h
    · split at h
      · cases h
      · split at h
        · cases h
        · cases h
          exact .inr ⟨rfl, by omega⟩

theorem reserve_eq_error {b : Buffer} {n : UInt64} {fault : Fault}
    (h : b.reserve n = .error fault) : b.placement (max n 1) = .error fault := by
  rw [reserve] at h
  cases hplacement : b.placement (max n 1) with
  | error other =>
      simp only [hplacement, bind, Except.bind, Except.error.injEq] at h
      rw [h]
  | ok placement => simp [hplacement, bind, Except.bind, pure, Except.pure] at h

theorem limit_reserve {b b' : Buffer} {n : UInt64} {area : Area}
    (h : b.reserve n = .ok (area, b')) : b'.limit = b.limit := by
  obtain ⟨placement, _, rfl, _⟩ := reserve_eq_ok h
  exact limit_place b placement

theorem size_reserve {b b' : Buffer} {n : UInt64} {area : Area}
    (h : b.reserve n = .ok (area, b')) : b'.size = b.size := by
  obtain ⟨placement, _, rfl, _⟩ := reserve_eq_ok h
  exact size_place b placement

/-- An allocation is never larger than the limit. -/
theorem capacity_reserve_le {b b' : Buffer} {n : UInt64} {area : Area}
    (h : b.reserve n = .ok (area, b')) :
    b'.capacity.toNat ≤ max b.capacity.toNat b.limit.toNat := by
  obtain ⟨placement, hplacement, rfl, _⟩ := reserve_eq_ok h
  obtain ⟨hlimit, hplaced⟩ := placement_eq_ok hplacement
  cases placement with
  | behind => exact Nat.le_max_left _ _
  | front => exact Nat.le_max_left _ _
  | fresh capacity =>
      obtain ⟨rfl, _⟩ := hplaced
      refine Nat.le_trans ?_ (Nat.le_max_right _ _)
      change (b.grownCapacity (max n 1)).toNat ≤ b.limit.toNat
      rw [grownCapacity_eq hlimit]
      split <;> omega

/-- The area that was reserved leaves the window within the limit even when it is filled. -/
theorem size_add_area_le {b b' : Buffer} {n : UInt64} {area : Area}
    (h : b.reserve n = .ok (area, b')) :
    b.size.toNat + area.size.toNat ≤ b.limit.toNat := by
  rw [size_of_reserve h]
  obtain ⟨placement, hplacement, _, _⟩ := reserve_eq_ok h
  exact (placement_eq_ok hplacement).1

theorem area_size_pos {b b' : Buffer} {n : UInt64} {area : Area}
    (h : b.reserve n = .ok (area, b')) : 0 < area.size.toNat := by
  rw [size_of_reserve h, Word.toNat_max]
  exact Nat.lt_of_lt_of_le (by decide) (Nat.le_max_right _ _)

/-! ## The seven ways -/

/-- How a look at the window of `b` goes on: the outcome of the look, the turn that follows, and the
buffer after it. -/
inductive Leads (b : Buffer) (readSize : UInt64) : Outcome ν ε → Turn ν ε → Buffer → Prop
  | value {value : ν} {used : Nat} (hused : used ≤ b.size.toNat) :
      Leads b readSize (.done value used) (.ended (.ok (.value value)))
        (b.discard used.toUInt64)
  | overuse {value : ν} {used : Nat} (hused : b.size.toNat < used) :
      Leads b readSize (.done value used) (.ended (.error .overuse)) b
  | rejection {error : ε} :
      Leads b readSize (.reject error) (.ended (.ok (.failed (.rejection error)))) b
  | overflow {hint : Option Nat} (hfull : b.size = b.limit) :
      Leads b readSize (.more hint) (.ended (.ok (.failed .overflow))) b
  | overLimit {hint : Option Nat} (hover : b.limit.toNat < b.size.toNat) :
      Leads b readSize (.more hint) (.ended (.error .overLimit)) b
  | outOfMemory {hint : Option Nat} (hroom : b.size.toNat < b.limit.toNat)
      (hreserve : b.reserve (b.nextRead hint readSize) = .error .outOfMemory) :
      Leads b readSize (.more hint) (.ended (.error .outOfMemory)) b
  | reads {hint : Option Nat} {area : Area} {b' : Buffer} (hroom : b.size.toNat < b.limit.toNat)
      (hreserve : b.reserve (b.nextRead hint readSize) = .ok (area, b')) :
      Leads b readSize (.more hint) (.reads area) b'

/-- Every look goes on in one of the seven ways. -/
theorem leads (b : Buffer) {readSize : UInt64} (hread : readSize ≠ 0) (outcome : Outcome ν ε) :
    b.Leads readSize outcome (b.turn readSize outcome).1 (b.turn readSize outcome).2 := by
  cases outcome with
  | done value used =>
      by_cases hused : b.size.toNat < used
      · simp only [turn_eq, judge, if_pos hused]
        exact .overuse hused
      · simp only [turn_eq, judge, if_neg hused]
        exact .value (Nat.le_of_not_lt hused)
  | reject error =>
      rw [turn_eq]
      exact .rejection
  | more hint =>
      by_cases hfull : b.size = b.limit
      · simp only [turn_eq, judge, if_pos ((nextRead_eq_zero_iff hread).mpr hfull)]
        exact .overflow hfull
      have hnonzero : b.nextRead hint readSize ≠ 0 := fun hzero =>
        hfull ((nextRead_eq_zero_iff hread).mp hzero)
      have hne : b.size.toNat ≠ b.limit.toNat := fun heq => hfull (UInt64.toNat_inj.mp heq)
      simp only [turn_eq, judge, if_neg hnonzero]
      cases hreserve : b.reserve (b.nextRead hint readSize) with
      | error fault =>
          rcases placement_eq_error (reserve_eq_error hreserve) with
            ⟨rfl, hover⟩ | ⟨rfl, hwithin⟩
          · -- The next read fits whenever the window does, so the window itself is too large.
            refine .overLimit (Nat.lt_of_not_le fun hle => ?_)
            have hfits := b.size_add_nextRead_le hint readSize hle
            rw [Word.toNat_max] at hover
            have hpos : (b.nextRead hint readSize).toNat ≠ 0 := fun hzero =>
              hnonzero (UInt64.toNat_inj.mp hzero)
            change _ < _ + max _ 1 at hover
            omega
          · exact .outOfMemory (by omega) hreserve
      | ok reserved =>
          have harea := size_add_area_le hreserve
          have hpos := area_size_pos hreserve
          exact .reads (by omega) hreserve

theorem leads_of_turn {b b' : Buffer} {readSize : UInt64} {outcome : Outcome ν ε}
    {turn : Turn ν ε} (hread : readSize ≠ 0) (hturn : b.turn readSize outcome = (turn, b')) :
    b.Leads readSize outcome turn b' := by
  have hleads := b.leads hread outcome
  rw [hturn] at hleads
  exact hleads

/-- A turn that reads has a parser that asks for more, a window below its limit, and the room that it
has reserved. -/
theorem starves_of_reads {b b' : Buffer} {readSize : UInt64} {outcome : Outcome ν ε} {area : Area}
    (hread : readSize ≠ 0) (hturn : b.turn readSize outcome = (.reads area, b')) :
    ∃ hint, outcome = .more hint ∧ b.size.toNat < b.limit.toNat ∧
      b.reserve (b.nextRead hint readSize) = .ok (area, b') := by
  cases leads_of_turn hread hturn with
  | reads hroom hreserve => exact ⟨_, rfl, hroom, hreserve⟩

end StreamParse.Buffer

import StreamParse.Parser.Sized
import StreamParse.Proofs.Parser.Format

/-!
# Values of a fixed length

The bytes of a value are there or they are missing, and how many are missing is known.  Only a
forbidden byte among them decides earlier.  So while a window is open its hint is exact: that many
more bytes without the forbidden one complete the value, and fewer never do.
-/

namespace StreamParse.Parser

variable {window front rest : List UInt8} {length missing : Nat}

/-- So many bytes, and none of them the forbidden one. -/
def fixedFormat (length : Nat) : Format (List UInt8) BadByte where
  Accepts window value used :=
    value <+: window ∧ value.length = length ∧ forbidden ∉ value ∧ used = length
  Refuses window error :=
    ∃ front rest, window = front ++ forbidden :: rest ∧ forbidden ∉ front ∧
      front.length < length ∧ error = { offset := front.length, byte := forbidden }
  missing window := some (length - window.length)

theorem lasts_fixedFormat (length : Nat) : (fixedFormat length).Lasts where
  used_le := by
    rintro window value used ⟨hfront, rfl, -, rfl⟩
    exact hfront.length_le
  accepts := by
    rintro window value used ⟨hfront, hvalue⟩ rest
    exact ⟨List.prefix_append_of_prefix hfront, hvalue⟩
  refuses := by
    rintro window error ⟨front, behind, rfl, hflaw⟩ rest
    exact ⟨front, behind ++ rest, by rw [List.append_assoc, List.cons_append], hflaw⟩

theorem findIdx?_forbidden (hfree : forbidden ∉ window) :
    window.findIdx? (· == forbidden) = none := by
  rw [List.findIdx?_eq_none_iff]
  intro byte hmem
  rw [beq_eq_false_iff_ne]
  exact fun heq => hfree (heq ▸ hmem)

/-- A parser of a fixed length hints at exactly the bytes that it is missing. -/
theorem fixed_of_lt (hfree : forbidden ∉ window.take length) (hshort : window.length < length) :
    fixed length window = .more (some (length - window.length)) := by
  rw [fixed, findIdx?_forbidden hfree]
  exact if_pos hshort

theorem fixed_of_le (hfree : forbidden ∉ window.take length) (hlong : length ≤ window.length) :
    fixed length window = .done (window.take length) length := by
  rw [fixed, findIdx?_forbidden hfree]
  exact if_neg (Nat.not_lt.mpr hlong)

/-- The first forbidden byte decides if it is one of the first `length` bytes. -/
theorem fixed_append_cons (hfree : forbidden ∉ front) (hlt : front.length < length)
    (rest : List UInt8) :
    fixed length (front ++ forbidden :: rest) =
      .reject { offset := front.length, byte := forbidden } := by
  have htake : (front ++ forbidden :: rest).take length =
      front ++ forbidden :: rest.take (length - front.length - 1) := by
    rw [List.take_append, List.take_of_length_le (Nat.le_of_lt hlt),
      List.take_cons (Nat.sub_pos_of_lt hlt)]
  have hfirst : (front ++ forbidden :: rest.take (length - front.length - 1)).findIdx?
      (· == forbidden) = some front.length := by
    rw [List.findIdx?_append, findIdx?_forbidden hfree, List.findIdx?_cons]
    simp
  simp only [fixed, htake, hfirst]

/-- The first `length` bytes are free of the forbidden one, or there is a first one among them. -/
theorem free_or_forbidden (length : Nat) (window : List UInt8) :
    forbidden ∉ window.take length ∨
      ∃ front rest, window = front ++ forbidden :: rest ∧ forbidden ∉ front ∧
        front.length < length := by
  by_cases hmem : forbidden ∈ window.take length
  · obtain ⟨front, rest, htake, hfree⟩ := List.eq_append_cons_of_mem hmem
    refine .inr ⟨front, rest ++ window.drop length, ?_, hfree, ?_⟩
    · rw [← List.cons_append, ← List.append_assoc, ← htake, List.take_append_drop]
    · have hle := List.length_take_le length window
      rw [htake, List.length_append, List.length_cons] at hle
      omega
  · exact .inl hmem

/-- A window is open exactly if it is too short and free of the forbidden byte. -/
theorem open_fixedFormat_iff :
    (fixedFormat length).Open window ↔ forbidden ∉ window ∧ window.length < length := by
  constructor
  · rintro ⟨haccepts, hrefuses⟩
    rcases free_or_forbidden length window with hfree | ⟨front, rest, hwindow, hfree, hlt⟩
    · rcases Nat.lt_or_ge window.length length with hshort | hlong
      · rw [List.take_of_length_le (Nat.le_of_lt hshort)] at hfree
        exact ⟨hfree, hshort⟩
      · exact absurd ⟨List.take_prefix _ _, List.length_take_of_le hlong, hfree, rfl⟩
          (haccepts (window.take length) length)
    · exact absurd ⟨front, rest, hwindow, hfree, hlt, rfl⟩ (hrefuses _)
  · rintro ⟨hfree, hshort⟩
    constructor
    · rintro value used ⟨hfront, rfl, -⟩
      exact absurd hfront.length_le (Nat.not_le.mpr hshort)
    · rintro error ⟨front, rest, rfl, -⟩
      exact hfree (List.mem_append_right front List.mem_cons_self)

theorem recognises_fixed (length : Nat) : (fixed length).Recognises (fixedFormat length) := by
  refine recognises_of_callsFor ?_
  rintro window (⟨value, used⟩ | hint | error)
  · rintro ⟨⟨rest, rfl⟩, rfl, hfree, rfl⟩
    have htake : (value ++ rest).take value.length = value := List.take_left
    rw [fixed_of_le (htake.symm ▸ hfree) (by rw [List.length_append]; omega), htake]
  · rintro ⟨hopen, rfl⟩
    obtain ⟨hfree, hshort⟩ := open_fixedFormat_iff.mp hopen
    exact fixed_of_lt (fun hmem => hfree (List.mem_of_mem_take hmem)) hshort
  · rintro ⟨front, rest, rfl, hfree, hlt, rfl⟩
    exact fixed_append_cons hfree hlt rest

theorem stable_fixed (length : Nat) : (fixed length).Stable :=
  (recognises_fixed length).stable (lasts_fixedFormat length)

theorem fixed_eq_more_iff {hint : Option Nat} :
    fixed length window = .more hint ↔
      (forbidden ∉ window ∧ window.length < length) ∧ hint = some (length - window.length) := by
  rw [recognises_fixed length, ← open_fixedFormat_iff]
  rfl

/-- The hint of an open window tells what is missing, and nothing besides. -/
theorem length_add_missing (hmore : fixed length window = .more (some missing)) :
    window.length + missing = length := by
  obtain ⟨⟨-, hshort⟩, hmissing⟩ := fixed_eq_more_iff.mp hmore
  obtain rfl := Option.some.inj hmissing
  exact Nat.add_sub_cancel' (Nat.le_of_lt hshort)

/-- As many bytes as are missing complete the value, unless the forbidden one is among them. -/
theorem fixed_append_of_missing (hmore : fixed length window = .more (some missing))
    (hfree : forbidden ∉ rest) (hrest : rest.length = missing) :
    fixed length (window ++ rest) = .done (window ++ rest) length := by
  obtain ⟨⟨hwindow, -⟩, -⟩ := fixed_eq_more_iff.mp hmore
  refine (recognises_fixed length _ _).mpr ⟨List.prefix_refl _, ?_, ?_, rfl⟩
  · rw [List.length_append, hrest, length_add_missing hmore]
  · rw [List.mem_append]
    exact not_or.mpr ⟨hwindow, hfree⟩

/-- Fewer bytes complete nothing. -/
theorem isDone_fixed_append_of_lt (hmore : fixed length window = .more (some missing))
    (hrest : rest.length < missing) : (fixed length (window ++ rest)).isDone = false := by
  have hmissing := length_add_missing hmore
  cases houtcome : fixed length (window ++ rest) with
  | done value used =>
      obtain ⟨hfront, hvalue, -, -⟩ := (recognises_fixed length _ _).mp houtcome
      have hle := hfront.length_le
      rw [List.length_append] at hle
      omega
  | more hint => rfl
  | reject error => rfl

end StreamParse.Parser

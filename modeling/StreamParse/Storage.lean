/-!
# Storage

Storage is the memory of one allocation.  Only the part up to the last byte ever written is kept, and
a byte that was never written reads as zero.  Reading a stretch that was just written gives the bytes
back, and reading a stretch that ends before the written one is not affected.
-/

namespace StreamParse

structure Storage where
  cells : List UInt8 := []
  deriving DecidableEq, Repr

namespace Storage

/-- Storage in which nothing has been written. -/
def blank : Storage := {}

/-- The byte at one place. -/
def get (storage : Storage) (index : Nat) : UInt8 := storage.cells.getD index 0

/-- The `count` bytes that start at `offset`. -/
def read (storage : Storage) (offset count : Nat) : List UInt8 :=
  ((storage.cells.drop offset).take count).rightpad count 0

/-- Puts `bytes` at `offset` and leaves all other bytes as they are. -/
def write (storage : Storage) (offset : Nat) (bytes : List UInt8) : Storage :=
  { cells := (storage.cells.take offset).rightpad offset 0 ++ bytes ++
      storage.cells.drop (offset + bytes.length) }

/-- Storage that begins with `bytes` and holds nothing else. -/
def ofList (bytes : List UInt8) : Storage := { cells := bytes }

@[simp]
theorem length_read (storage : Storage) (offset count : Nat) :
    (storage.read offset count).length = count := by
  simp only [read, List.rightpad, List.length_append, List.length_replicate, List.length_take]
  omega

theorem getElem?_read (storage : Storage) (offset count index : Nat) :
    (storage.read offset count)[index]? =
      if index < count then some (storage.get (offset + index)) else none := by
  simp only [read, List.rightpad, get, List.getD_eq_getElem?_getD, List.getElem?_append,
    List.length_take, List.length_drop, List.getElem?_take, List.getElem?_drop,
    List.getElem?_replicate]
  by_cases hindex : index < count
  · by_cases hcell : offset + index < storage.cells.length
    · have hleft : index < min count (storage.cells.length - offset) := by omega
      simp [hindex, hleft, hcell]
    · have hright : ¬ index < min count (storage.cells.length - offset) := by omega
      have hpad : index - min count (storage.cells.length - offset) <
          count - min count (storage.cells.length - offset) := by omega
      have hnone : storage.cells[offset + index]? = none := by
        simpa using Nat.le_of_not_lt hcell
      simp [hindex, hright, hpad, hnone]
  · have hright : ¬ index < min count (storage.cells.length - offset) := by omega
    have hpad : ¬ index - min count (storage.cells.length - offset) <
        count - min count (storage.cells.length - offset) := by omega
    simp [hindex, hright, hpad]

theorem get_write (storage : Storage) (offset : Nat) (bytes : List UInt8) (index : Nat) :
    (storage.write offset bytes).get index =
      if offset ≤ index ∧ index < offset + bytes.length then bytes.getD (index - offset) 0
      else storage.get index := by
  simp only [write, get, List.rightpad, List.getD_eq_getElem?_getD, List.getElem?_append,
    List.length_append, List.length_take, List.length_replicate, List.getElem?_take,
    List.getElem?_drop, List.getElem?_replicate]
  have hpad : min offset storage.cells.length + (offset - min offset storage.cells.length) =
      offset := by omega
  rw [hpad]
  by_cases hbefore : index < offset
  · have hnot : ¬ offset ≤ index := by omega
    by_cases hcell : index < storage.cells.length
    · have hleft : index < min offset storage.cells.length := by omega
      simp [hbefore, hnot, hleft, show index < offset + bytes.length by omega]
    · have hright : ¬ index < min offset storage.cells.length := by omega
      have hnone : storage.cells[index]? = none := by simpa using Nat.le_of_not_lt hcell
      by_cases hfill : index - min offset storage.cells.length <
          offset - min offset storage.cells.length
      · simp [hbefore, hnot, hright, hfill, hnone, show index < offset + bytes.length by omega]
      · omega
  · by_cases hwithin : index < offset + bytes.length
    · simp [hbefore, hwithin, Nat.le_of_not_lt hbefore]
    · have hindex : offset + bytes.length + (index - (offset + bytes.length)) = index := by omega
      simp [hwithin, hindex]

theorem read_congr {left right : Storage} {offset offset' count : Nat}
    (hget : ∀ index, index < count → left.get (offset + index) = right.get (offset' + index)) :
    left.read offset count = right.read offset' count := by
  apply List.ext_getElem?
  intro index
  rw [getElem?_read, getElem?_read]
  split
  · next hindex => rw [hget index hindex]
  · rfl

/-- Bytes that were just written are read back. -/
@[simp]
theorem read_write_self (storage : Storage) (offset : Nat) (bytes : List UInt8) :
    (storage.write offset bytes).read offset bytes.length = bytes := by
  apply List.ext_getElem?
  intro index
  rw [getElem?_read, get_write]
  by_cases hindex : index < bytes.length
  · simp [hindex]
  · simp [hindex]

/-- A stretch that ends before the written bytes is not affected. -/
theorem read_write_of_le {storage : Storage} {offset count place : Nat} {bytes : List UInt8}
    (hle : offset + count ≤ place) :
    (storage.write place bytes).read offset count = storage.read offset count := by
  apply read_congr
  intro index hindex
  rw [get_write]
  have hnot : ¬ (place ≤ offset + index ∧ offset + index < place + bytes.length) := by omega
  simp [hnot]

/-- Neighbouring stretches join. -/
theorem read_add (storage : Storage) (offset left right : Nat) :
    storage.read offset (left + right) =
      storage.read offset left ++ storage.read (offset + left) right := by
  apply List.ext_getElem?
  intro index
  rw [List.getElem?_append, getElem?_read, getElem?_read, getElem?_read, length_read]
  by_cases hleft : index < left
  · simp [hleft, show index < left + right by omega]
  · by_cases hright : index < left + right
    · simp [hleft, hright, show index - left < right by omega,
        show offset + left + (index - left) = offset + index by omega]
    · simp [hleft, hright, show ¬ index - left < right by omega]

@[simp]
theorem read_zero (storage : Storage) (offset : Nat) : storage.read offset 0 = [] := by
  simp [read, List.rightpad]

theorem take_read (storage : Storage) {offset count fewer : Nat} (hle : fewer ≤ count) :
    (storage.read offset count).take fewer = storage.read offset fewer := by
  obtain ⟨rest, rfl⟩ := Nat.exists_eq_add_of_le hle
  rw [read_add, List.take_append_of_le_length (by simp), List.take_of_length_le (by simp)]

theorem drop_read (storage : Storage) {offset count skipped : Nat} (hle : skipped ≤ count) :
    (storage.read offset count).drop skipped =
      storage.read (offset + skipped) (count - skipped) := by
  obtain ⟨rest, rfl⟩ := Nat.exists_eq_add_of_le hle
  rw [read_add, List.drop_append_of_le_length (by simp), List.drop_of_length_le (by simp)]
  simp

@[simp]
theorem read_ofList (bytes : List UInt8) : (ofList bytes).read 0 bytes.length = bytes := by
  simp [ofList, read, List.rightpad]

end Storage

end StreamParse

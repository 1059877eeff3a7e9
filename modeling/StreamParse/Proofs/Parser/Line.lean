import StreamParse.Parser.Text
import StreamParse.Proofs.Parser.Format

/-!
# Lines

A line ends where a carriage return has a line feed right behind it for the first time.  Bytes that
come later do not move that place, so the parser of lines keeps each of its decisions.  Of a
carriage return that the window ends with it can not be told yet whether it ends the line: such a
window decides nothing.

Any bytes that do not have an end of line among them are a line when an end of line is put behind
them, also where they end with a carriage return of their own.
-/

namespace StreamParse.Parser

/-- What a line ends with. -/
def endOfLine : List UInt8 := [carriageReturn, lineFeed]

/-- There is no end of line in these bytes. -/
def Unbroken (bytes : List UInt8) : Prop := ¬ endOfLine <:+: bytes

instance (bytes : List UInt8) : Decidable (Unbroken bytes) := inferInstanceAs (Decidable (¬ _))

variable {window : List UInt8} {length : Nat}

/-- The first byte begins an end of line, or one is found behind it, or none. -/
theorem lineEnd?_cons (byte : UInt8) (rest : List UInt8) :
    lineEnd? (byte :: rest) =
      if byte = carriageReturn ∧ rest.head? = some lineFeed then some 0
      else (lineEnd? rest).map (· + 1) := by
  cases rest with
  | nil => simp [lineEnd?]
  | cons next rest => simp [lineEnd?, List.findIdx?_cons]

/-- The end of a line is part of the window. -/
theorem length_of_lineEnd? (hend : lineEnd? window = some length) : length + 2 ≤ window.length := by
  induction window generalizing length with
  | nil => cases hend
  | cons byte rest ih =>
      rw [lineEnd?_cons] at hend
      split at hend
      · next hbegins =>
        cases hend
        have hrest : rest ≠ [] := by
          rintro rfl
          cases hbegins.2
        have hpos := List.length_pos_iff.mpr hrest
        rw [List.length_cons]
        omega
      · obtain ⟨later, hlater, rfl⟩ := Option.map_eq_some_iff.mp hend
        have hle := ih hlater
        rw [List.length_cons]
        omega

/-- An end of line stays where it is, whatever comes behind. -/
theorem lineEnd?_append (hend : lineEnd? window = some length) (more : List UInt8) :
    lineEnd? (window ++ more) = some length := by
  induction window generalizing length with
  | nil => cases hend
  | cons byte rest ih =>
      have hrest : rest ≠ [] := by
        rintro rfl
        have hle := length_of_lineEnd? hend
        rw [List.length_singleton] at hle
        omega
      have hhead : (rest ++ more).head? = rest.head? := by
        obtain ⟨next, others, rfl⟩ := List.exists_cons_of_ne_nil hrest
        rfl
      rw [lineEnd?_cons] at hend
      rw [List.cons_append, lineEnd?_cons, hhead]
      split at hend
      · next hbegins =>
        rw [if_pos hbegins]
        exact hend
      · next hlater =>
        obtain ⟨later, hfound, rfl⟩ := Option.map_eq_some_iff.mp hend
        rw [if_neg hlater, ih hfound, Option.map_some]

/-- The first end of line behind unbroken bytes is the one that was put there. -/
theorem Unbroken.lineEnd? {bytes : List UInt8} (unbroken : Unbroken bytes) :
    Parser.lineEnd? (bytes ++ endOfLine) = some bytes.length := by
  induction bytes with
  | nil => rfl
  | cons byte rest ih =>
      have hrest : Unbroken rest := fun hbroken => unbroken (List.infix_cons hbroken)
      rw [List.cons_append, lineEnd?_cons, if_neg, ih hrest, Option.map_some, List.length_cons]
      rintro ⟨rfl, hfeed⟩
      cases rest with
      | nil => cases hfeed
      | cons next rest =>
          obtain rfl : next = lineFeed := Option.some.inj hfeed
          exact unbroken (List.prefix_append endOfLine rest).isInfix

/-- What comes before the first end of line is unbroken. -/
theorem exists_unbroken_of_lineEnd? (hend : lineEnd? window = some length) :
    ∃ bytes, Unbroken bytes ∧ bytes ++ endOfLine <+: window := by
  induction window generalizing length with
  | nil => cases hend
  | cons byte rest ih =>
      rw [lineEnd?_cons] at hend
      split at hend
      · next hbegins =>
        obtain ⟨rfl, hfeed⟩ := hbegins
        obtain ⟨others, rfl⟩ := List.head?_eq_some_iff.mp hfeed
        exact ⟨[], by decide, List.prefix_append endOfLine others⟩
      · next hlater =>
        obtain ⟨later, hfound, -⟩ := Option.map_eq_some_iff.mp hend
        obtain ⟨bytes, unbroken, hfront⟩ := ih hfound
        refine ⟨byte :: bytes, fun hbroken => ?_, (List.prefix_cons_inj byte).mpr hfront⟩
        rcases List.infix_cons_iff.mp hbroken with hstarts | hinside
        · obtain ⟨rfl, hfeed⟩ := List.cons_prefix_cons.mp hstarts
          obtain ⟨others, rfl⟩ := hfeed.trans (List.prefix_append bytes endOfLine) |>.trans hfront
          exact hlater ⟨rfl, rfl⟩
        · exact unbroken hinside

/-- Unbroken bytes, and an end of line behind them. -/
def lineFormat : Format (List UInt8) BadByte where
  Accepts window value used :=
    Unbroken value ∧ value ++ endOfLine <+: window ∧ used = value.length + 2
  Refuses _ _ := False
  missing _ := none

theorem lasts_lineFormat : lineFormat.Lasts where
  used_le := by
    rintro window value used ⟨-, hfront, rfl⟩
    have hle := hfront.length_le
    rw [List.length_append] at hle
    exact hle
  accepts := by
    rintro window value used ⟨unbroken, hfront, hused⟩ rest
    exact ⟨unbroken, List.prefix_append_of_prefix hfront, hused⟩
  refuses := by
    rintro window error ⟨⟩

theorem recognises_line : line.Recognises lineFormat := by
  refine recognises_of_callsFor ?_
  rintro window (⟨value, used⟩ | hint | error)
  · rintro ⟨unbroken, ⟨rest, rfl⟩, rfl⟩
    rw [line, lineEnd?_append unbroken.lineEnd?, List.append_assoc]
    simp only [List.take_left]
  · rintro ⟨⟨haccepts, -⟩, rfl⟩
    cases hend : lineEnd? window with
    | none => rw [line, hend]; rfl
    | some length =>
        obtain ⟨bytes, unbroken, hfront⟩ := exists_unbroken_of_lineEnd? hend
        exact absurd ⟨unbroken, hfront, rfl⟩ (haccepts bytes _)
  · rintro ⟨⟩

/-- A carriage return at the end of the window decides nothing. -/
example : line [0x41, carriageReturn] = .more none := by decide

theorem stable_line : line.Stable := recognises_line.stable lasts_lineFormat

/-- A line and its end are parsed as that line, and are used up. -/
theorem Unbroken.line {bytes : List UInt8} (unbroken : Unbroken bytes) :
    Parser.line (bytes ++ endOfLine) = .done bytes (bytes ++ endOfLine).length := by
  refine (recognises_line _ _).mpr ⟨unbroken, List.prefix_refl _, ?_⟩
  rw [List.length_append]
  rfl

end StreamParse.Parser

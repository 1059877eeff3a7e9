import StreamParse.Parser.Basic

/-!
# Formats

A format says what a window may begin with, whatever a parser does about it: a value that takes up
so many bytes, or a flaw that no continuation can mend.  A window with neither is open.  A parser
recognises a format when it is done with the values, rejects the flaws, and asks for more of the
open windows, and all of this exactly.

A format lasts when bytes that come later undo neither a value nor a flaw.  That says nothing about
parsers, and it is all that makes a parser stable which recognises the format.
-/

namespace StreamParse

variable {ν ε : Type}

structure Format (ν ε : Type) where
  /-- The window begins with this value, which takes up so many bytes. -/
  Accepts : List UInt8 → ν → Nat → Prop
  /-- The window cannot be the beginning of anything, for this reason. -/
  Refuses : List UInt8 → ε → Prop
  /-- How many bytes are missing from an open window, where that is known. -/
  missing : List UInt8 → Option Nat

namespace Format

/-- The window holds neither a value nor a flaw. -/
def Open (format : Format ν ε) (window : List UInt8) : Prop :=
  (∀ value used, ¬ format.Accepts window value used) ∧ ∀ error, ¬ format.Refuses window error

/-- The outcome that the format calls for at the window. -/
def CallsFor (format : Format ν ε) (window : List UInt8) : Outcome ν ε → Prop
  | .done value used => format.Accepts window value used
  | .reject error => format.Refuses window error
  | .more hint => format.Open window ∧ hint = format.missing window

/-- A value is part of its window, and values and flaws stay what they are in longer windows. -/
structure Lasts (format : Format ν ε) : Prop where
  used_le : ∀ {window value used}, format.Accepts window value used → used ≤ window.length
  accepts : ∀ {window value used}, format.Accepts window value used →
    ∀ rest, format.Accepts (window ++ rest) value used
  refuses : ∀ {window error}, format.Refuses window error →
    ∀ rest, format.Refuses (window ++ rest) error

theorem exists_callsFor (format : Format ν ε) (window : List UInt8) :
    ∃ outcome, format.CallsFor window outcome := by
  by_cases haccepts : ∃ value used, format.Accepts window value used
  · obtain ⟨value, used, haccepts⟩ := haccepts
    exact ⟨.done value used, haccepts⟩
  by_cases hrefuses : ∃ error, format.Refuses window error
  · obtain ⟨error, hrefuses⟩ := hrefuses
    exact ⟨.reject error, hrefuses⟩
  · refine ⟨.more (format.missing window), ⟨?_, not_exists.mp hrefuses⟩, rfl⟩
    exact fun value used hvalue => haccepts ⟨value, used, hvalue⟩

/-- Decided outcomes are called for at every longer window too. -/
theorem Lasts.callsFor {format : Format ν ε} (lasts : format.Lasts) {window : List UInt8}
    {outcome : Outcome ν ε} (hcalls : format.CallsFor window outcome)
    (hdecided : outcome.isDecided = true) (rest : List UInt8) :
    format.CallsFor (window ++ rest) outcome := by
  cases outcome with
  | done value used => exact lasts.accepts hcalls rest
  | reject error => exact lasts.refuses hcalls rest
  | more hint => cases hdecided

end Format

namespace Parser

/-- The parser has the outcomes that the format calls for, and no others. -/
def Recognises (parser : Parser ν ε) (format : Format ν ε) : Prop :=
  ∀ window outcome, parser window = outcome ↔ format.CallsFor window outcome

variable {parser : Parser ν ε} {format : Format ν ε}

/-- A format calls for an outcome at every window, and the parser has one there.  So it is enough
that no other is called for. -/
theorem recognises_of_callsFor
    (hcalls : ∀ {window outcome}, format.CallsFor window outcome → parser window = outcome) :
    parser.Recognises format := by
  intro window outcome
  refine ⟨?_, hcalls⟩
  rintro rfl
  obtain ⟨other, hother⟩ := format.exists_callsFor window
  rw [hcalls hother]
  exact hother

theorem Recognises.stable (recognises : parser.Recognises format) (lasts : format.Lasts) :
    parser.Stable where
  used_le := fun hdone => lasts.used_le ((recognises _ _).mp hdone)
  keeps := by
    intro window hdecided rest
    have hcalls : format.CallsFor window (parser window) := (recognises window _).mp rfl
    exact (recognises _ _).mpr (lasts.callsFor hcalls hdecided rest)

end Parser

end StreamParse

import StreamParse.Outcome

/-!
# Parsers

A parser looks at a window of bytes and gives an outcome.  It is stable when more bytes never change
an outcome that is already decided; the result of a stable parser does not depend on how its bytes
arrive.
-/

namespace StreamParse

/-- A parser is a function of the window: it keeps nothing between two looks. -/
abbrev Parser (ν ε : Type) := List UInt8 → Outcome ν ε

namespace Parser

variable {ν ε : Type}

def map {ν' ε' : Type} (onValue : ν → ν') (onError : ε → ε') (parser : Parser ν ε) :
    Parser ν' ε' :=
  fun window => (parser window).map onValue onError

/-- A stable parser uses no more bytes than it is shown, and keeps each decision on every longer
window.  What it hints at while undecided is free. -/
structure Stable (parser : Parser ν ε) : Prop where
  used_le : ∀ {window value used}, parser window = .done value used → used ≤ window.length
  keeps : ∀ {window}, (parser window).isDecided → ∀ rest, parser (window ++ rest) = parser window

theorem Stable.done_append {parser : Parser ν ε} (stable : parser.Stable) {window : List UInt8}
    {value : ν} {used : Nat} (hdone : parser window = .done value used) (rest : List UInt8) :
    parser (window ++ rest) = .done value used := by
  rw [stable.keeps (by simp [hdone, Outcome.isDecided, Outcome.isMore]) rest, hdone]

theorem Stable.reject_append {parser : Parser ν ε} (stable : parser.Stable) {window : List UInt8}
    {error : ε} (hreject : parser window = .reject error) (rest : List UInt8) :
    parser (window ++ rest) = .reject error := by
  rw [stable.keeps (by simp [hreject, Outcome.isDecided, Outcome.isMore]) rest, hreject]

/-- Renaming values and errors keeps a parser stable. -/
theorem Stable.map {ν' ε' : Type} {onValue : ν → ν'} {onError : ε → ε'} {parser : Parser ν ε}
    (stable : parser.Stable) : (parser.map onValue onError).Stable where
  used_le := by
    intro window value used h
    simp only [Parser.map, Outcome.map] at h
    split at h
    · next hdone => cases h; exact stable.used_le hdone
    · cases h
    · cases h
  keeps := by
    intro window h rest
    have hdecided : (parser window).isDecided := by simpa [Parser.map] using h
    simp [Parser.map, stable.keeps hdecided rest]

end Parser

end StreamParse

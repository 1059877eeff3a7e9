import StreamParse.Proofs.Parser.Line
import StreamParse.Proofs.Parser.Sized
import StreamParse.Proofs.Parser.Text

/-!
# What the parsers of bytes recognise

The parsers of words, of lines and of values of a fixed length do exactly what their formats say,
and all three formats last.  So each of these parsers is stable, and what is said of stable parsers
holds of them: however their bytes arrive, a parse comes to the same.

A line ends with two bytes, and a window may end between them.  A carriage return at the very end is
therefore neither a line's end nor known to be part of the line.
-/

namespace StreamParse.Parser

/-- The three parsers recognise their formats, and no later byte changes what they have decided.
What the parser of a fixed length says that it is missing is exact: so many more bytes complete the
value if none of them is forbidden, and fewer do not. -/
theorem parsers_recognise_their_formats :
    (token.Recognises tokenFormat ∧ token.Stable) ∧
    (∀ length, (fixed length).Recognises (fixedFormat length) ∧ (fixed length).Stable) ∧
    (line.Recognises lineFormat ∧ line.Stable) ∧
    ∀ {length missing : Nat} {window : List UInt8},
      fixed length window = .more (some missing) →
      window.length + missing = length ∧
      (∀ rest, forbidden ∉ rest → rest.length = missing →
        fixed length (window ++ rest) = .done (window ++ rest) length) ∧
      ∀ rest : List UInt8, rest.length < missing →
        (fixed length (window ++ rest)).isDone = false := by
  refine ⟨⟨recognises_token, stable_token⟩,
    fun length => ⟨recognises_fixed length, stable_fixed length⟩,
    ⟨recognises_line, stable_line⟩, fun {length missing window} hmore => ?_⟩
  have hmissing := length_add_missing hmore
  refine ⟨hmissing, fun rest hfree hrest => ?_, fun rest hrest => ?_⟩
  · exact fixed_append_of_missing hmore hfree hrest
  · exact isDone_fixed_append_of_lt hmore hrest

/-- Two bytes of four ask for two more.  One more is too few, and with the second the value is
complete. -/
theorem four_bytes_completed_by_two :
    fixed 4 [0x61, 0x62] = .more (some 2) ∧
      fixed 4 [0x61, 0x62, 0x63, 0x64] = .done [0x61, 0x62, 0x63, 0x64] 4 ∧
      (fixed 4 [0x61, 0x62, 0x63]).isDone = false := by
  have hmore : fixed 4 [0x61, 0x62] = .more (some 2) := by decide
  obtain ⟨-, -, -, exactly⟩ := parsers_recognise_their_formats
  obtain ⟨-, completes, tooFew⟩ := exactly hmore
  exact ⟨hmore, completes [0x63, 0x64] (by decide) rfl, tooFew [0x63] (by decide)⟩

end StreamParse.Parser

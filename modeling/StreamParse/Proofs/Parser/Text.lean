import Mathlib.Data.List.TakeWhile
import StreamParse.Parser.Text
import StreamParse.Proofs.Parser.Format

/-!
# Words

A word ends at the first byte that is not a capital letter, and so a window is all letters, or there
is one first byte that is none.  That byte decides: a space behind at least one letter ends a word,
and anything else is a flaw.  What comes behind the byte changes nothing of it.
-/

namespace StreamParse.Parser

variable {window letters : List UInt8} {byte : UInt8}

/-- A capital letter or more, and a space behind them. -/
def tokenFormat : Format (List UInt8) BadByte where
  Accepts window value used :=
    value ≠ [] ∧ (∀ byte ∈ value, isCapital byte = true) ∧ value ++ [space] <+: window ∧
      used = value.length + 1
  -- The window begins with no more letters than these, for the flaw is none.  A space is a flaw
  -- only where it comes first.
  Refuses window error :=
    ∃ letters rest, window = letters ++ error.byte :: rest ∧
      (∀ byte ∈ letters, isCapital byte = true) ∧ isCapital error.byte = false ∧
      (error.byte = space → letters = []) ∧ error.offset = letters.length
  missing _ := none

theorem lasts_tokenFormat : tokenFormat.Lasts where
  used_le := by
    rintro window value used ⟨-, -, hfront, rfl⟩
    simpa using hfront.length_le
  accepts := by
    rintro window value used ⟨hne, hletters, hfront, hused⟩ rest
    exact ⟨hne, hletters, List.prefix_append_of_prefix hfront, hused⟩
  refuses := by
    rintro window error ⟨letters, behind, rfl, hflaw⟩ rest
    exact ⟨letters, behind ++ rest, by rw [List.append_assoc, List.cons_append], hflaw⟩

/-- Letters alone may be the beginning of a longer word. -/
theorem token_of_letters (hletters : ∀ byte ∈ window, isCapital byte = true) :
    token window = .more none := by
  rw [token, List.dropWhile_eq_nil_iff.mpr hletters]

/-- The first byte that is not a letter decides, whatever comes behind it. -/
theorem token_append_cons (hletters : ∀ byte ∈ letters, isCapital byte = true)
    (hbyte : isCapital byte = false) (rest : List UInt8) :
    token (letters ++ byte :: rest) =
      if byte = space ∧ letters ≠ [] then .done letters (letters.length + 1)
      else .reject { offset := letters.length, byte } := by
  have hword : word (letters ++ byte :: rest) = letters := by
    rw [word, List.takeWhile_append_of_pos hletters, List.takeWhile_cons_of_neg (by simp [hbyte]),
      List.append_nil]
  have hend : (letters ++ byte :: rest).dropWhile isCapital = byte :: rest := by
    rw [List.dropWhile_append_of_pos hletters, List.dropWhile_cons_of_neg (by simp [hbyte])]
  simp only [token, hword, hend]

/-- A window is all letters, or has a first byte that is none. -/
theorem letters_or_end (window : List UInt8) :
    (∀ byte ∈ window, isCapital byte = true) ∨
      ∃ letters byte rest, window = letters ++ byte :: rest ∧
        (∀ byte ∈ letters, isCapital byte = true) ∧ isCapital byte = false := by
  have hsplit := List.takeWhile_append_dropWhile (p := isCapital) (l := window)
  have hhead := List.head?_dropWhile_not isCapital window
  cases hend : window.dropWhile isCapital with
  | nil => exact .inl (List.dropWhile_eq_nil_iff.mp hend)
  | cons byte rest =>
      rw [hend] at hsplit hhead
      exact .inr ⟨_, byte, rest, hsplit.symm, fun _ => List.mem_takeWhile_imp, hhead⟩

/-- A window without an end of its letters is the only open one. -/
theorem letters_of_open (hopen : tokenFormat.Open window) :
    ∀ byte ∈ window, isCapital byte = true := by
  obtain ⟨haccepts, hrefuses⟩ := hopen
  rcases letters_or_end window with hletters | ⟨letters, byte, rest, rfl, hletters, hbyte⟩
  · exact hletters
  · exfalso
    by_cases hends : byte = space ∧ letters ≠ []
    · obtain ⟨rfl, hne⟩ := hends
      refine haccepts letters _ ⟨hne, hletters, ⟨rest, ?_⟩, rfl⟩
      rw [List.append_assoc, List.singleton_append]
    · refine hrefuses { offset := letters.length, byte }
        ⟨letters, rest, rfl, hletters, hbyte, fun hspace => ?_, rfl⟩
      exact not_not.mp fun hne => hends ⟨hspace, hne⟩

theorem recognises_token : token.Recognises tokenFormat := by
  refine recognises_of_callsFor ?_
  rintro window (⟨value, used⟩ | hint | error)
  · rintro ⟨hne, hletters, ⟨rest, rfl⟩, rfl⟩
    rw [List.append_assoc, List.singleton_append, token_append_cons hletters rfl, if_pos ⟨rfl, hne⟩]
  · rintro ⟨hopen, rfl⟩
    exact token_of_letters (letters_of_open hopen)
  · rintro ⟨letters, rest, rfl, hletters, hbyte, hspace, hoffset⟩
    rw [token_append_cons hletters hbyte, if_neg fun hends => hends.2 (hspace hends.1), ← hoffset]

theorem stable_token : token.Stable := recognises_token.stable lasts_tokenFormat

end StreamParse.Parser

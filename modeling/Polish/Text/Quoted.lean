import Polish.Text.Combining
import Polish.Text.Unprintable

/-!
Text in double quotes, on one line and with every character visible: a character that is not, or that
would attach to the quote or the character before it, is written as an escape. Main statement:
`newline_not_mem_quoted`, the line is never broken.
-/

namespace Polish.Text

/-- A code point in lower-case hexadecimal digits between braces. -/
def codePointEscape (c : Char) : List Char :=
  ['\\', 'u', '\x7b'] ++ Nat.toDigits 16 c.toNat ++ ['\x7d']

/-- How a character is written between double quotes. -/
def escape (c : Char) : List Char :=
  if c = '\x00' then ['\\', '0']
  else if c = '\t' then ['\\', 't']
  else if c = '\r' then ['\\', 'r']
  else if c = '\n' then ['\\', 'n']
  else if c = '"' then ['\\', '"']
  else if c = '\\' then ['\\', '\\']
  else if isCombining c || isUnprintable c then codePointEscape c
  else [c]

/-- The text in double quotes. -/
def quoted (text : String) : String := String.ofList ('"' :: text.toList.flatMap escape ++ ['"'])

theorem newline_not_mem_toDigits (n : Nat) : '\n' ∉ Nat.toDigits 16 n := by
  induction n using Nat.strongRecOn with
  | ind n ih =>
    by_cases hn : n < 16
    · rw [Nat.toDigits_of_lt_base hn]
      have : ∀ m < 16, '\n' ∉ [m.digitChar] := by decide
      exact this n hn
    · rw [Nat.toDigits_of_base_le (by decide) (by omega)]
      have hlast : ∀ m < 16, '\n' ∉ [m.digitChar] := by decide
      intro h
      rcases List.mem_append.1 h with h | h
      · exact ih (n / 16) (by omega) h
      · exact hlast (n % 16) (Nat.mod_lt _ (by decide)) h

theorem newline_not_mem_escape (c : Char) : '\n' ∉ escape c := by
  by_cases hn : c = '\n'
  · subst hn
    decide
  · have hne : '\n' ≠ c := fun h => hn h.symm
    unfold escape
    repeat' split
    all_goals simp [codePointEscape, newline_not_mem_toDigits, hne]

/-- A text in quotes is on one line. -/
theorem newline_not_mem_quoted (text : String) : '\n' ∉ (quoted text).toList := by
  have hescape : '\n' ∉ text.toList.flatMap escape := by
    rw [List.mem_flatMap]
    rintro ⟨c, -, hc⟩
    exact newline_not_mem_escape c hc
  simp [quoted, hescape]

end Polish.Text

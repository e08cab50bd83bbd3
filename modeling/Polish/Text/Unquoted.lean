import Polish.Text.Quoted

/-!
Quoted text read back. A reader goes over the text once and remembers how far into an escape it is.
Main statement: `unquoted?_quoted`, a text that is put in quotes is got back from them.

    plain ── \ ──▶ escaped ── u ──▶ named ── { ──▶ code 0 ── hexadecimal digits ──▶ code n
      ▲               │                                                               │
      └── t, n, … ────┴──────────────────────────── } ────────────────────────────────┘
-/

namespace Polish.Text

/-- How far into an escape a reader of quoted text is. -/
inductive Reading where
  | plain
  /-- Behind a backslash. -/
  | escaped
  /-- Behind a backslash and a `u`. -/
  | named
  /-- Between the braces, with the number that the digits make so far. -/
  | code (n : Nat)

/-- The character that a letter behind a backslash stands for. -/
def unescaped? : Char → Option Char
  | '0' => some '\x00'
  | 't' => some '\t'
  | 'r' => some '\r'
  | 'n' => some '\n'
  | '"' => some '"'
  | '\\' => some '\\'
  | _ => none

/-- The value of a lower-case hexadecimal digit. -/
def hexadecimal? (c : Char) : Option Nat :=
  if c.isDigit then some (c.toNat - '0'.toNat)
  else if 'a' ≤ c ∧ c ≤ 'f' then some (c.toNat - 'a'.toNat + 10)
  else none

/-- The text up to the closing quote, which has to be the last character. -/
def readQuoted? : Reading → List Char → Option (List Char)
  | _, [] => none
  | .plain, c :: cs =>
    if c = '\\' then readQuoted? .escaped cs
    else if c = '"' then if cs = [] then some [] else none
    else (readQuoted? .plain cs).map (c :: ·)
  | .escaped, c :: cs =>
    if c = 'u' then readQuoted? .named cs
    else (unescaped? c).bind fun d => (readQuoted? .plain cs).map (d :: ·)
  | .named, c :: cs => if c = '\x7b' then readQuoted? (.code 0) cs else none
  | .code n, c :: cs =>
    if c = '\x7d' then (readQuoted? .plain cs).map (Char.ofNat n :: ·)
    else (hexadecimal? c).bind fun d => readQuoted? (.code (16 * n + d)) cs

/-- The text that stands in double quotes. -/
def unquoted? (text : String) : Option String :=
  match text.toList with
  | '"' :: cs => (readQuoted? .plain cs).map String.ofList
  | _ => none

variable (cs : List Char)

theorem hexadecimal?_digitChar {d : Nat} (h : d < 16) :
    hexadecimal? d.digitChar = some d ∧ d.digitChar ≠ '\x7d' := by
  have hdigits : ∀ d < 16, hexadecimal? d.digitChar = some d ∧ d.digitChar ≠ '\x7d' := by decide
  exact hdigits d h

theorem readQuoted?_digit (n : Nat) {d : Nat} (h : d < 16) :
    readQuoted? (.code n) (d.digitChar :: cs) = readQuoted? (.code (16 * n + d)) cs := by
  obtain ⟨hvalue, hbrace⟩ := hexadecimal?_digitChar h
  rw [readQuoted?, if_neg hbrace, hvalue, Option.bind_some]

/-- The digits of a number make the number. -/
theorem readQuoted?_toDigits (n : Nat) (cs : List Char) :
    readQuoted? (.code 0) (Nat.toDigits 16 n ++ cs) = readQuoted? (.code n) cs := by
  induction n using Nat.strongRecOn generalizing cs with
  | ind n ih =>
    by_cases hn : n < 16
    · rw [Nat.toDigits_of_lt_base hn, List.singleton_append, readQuoted?_digit cs 0 hn, Nat.mul_zero,
        Nat.zero_add]
    · rw [Nat.toDigits_of_base_le (by decide) (by omega), List.append_assoc, List.singleton_append,
        ih (n / 16) (by omega), readQuoted?_digit cs (n / 16) (Nat.mod_lt n (by decide)),
        Nat.div_add_mod]

theorem readQuoted?_letter {letter c : Char} (hletter : letter ≠ 'u') (h : unescaped? letter = some c) :
    readQuoted? .plain ('\\' :: letter :: cs) = (readQuoted? .plain cs).map (c :: ·) := by
  rw [readQuoted?, if_pos rfl, readQuoted?, if_neg hletter, h, Option.bind_some]

theorem readQuoted?_codePointEscape (c : Char) :
    readQuoted? .plain (codePointEscape c ++ cs) = (readQuoted? .plain cs).map (c :: ·) := by
  have hcode : codePointEscape c ++ cs =
      '\\' :: 'u' :: '\x7b' :: (Nat.toDigits 16 c.toNat ++ '\x7d' :: cs) := by
    simp [codePointEscape]
  rw [hcode, readQuoted?, if_pos rfl, readQuoted?, if_pos rfl, readQuoted?, if_pos rfl,
    readQuoted?_toDigits, readQuoted?, if_pos rfl, Char.ofNat_toNat]

/-- A character that is written is read as itself. -/
theorem readQuoted?_escape (c : Char) :
    readQuoted? .plain (escape c ++ cs) = (readQuoted? .plain cs).map (c :: ·) := by
  fun_cases escape c with
  | case7 => exact readQuoted?_codePointEscape cs c
  | case8 _ _ _ _ hquote hbackslash _ =>
    rw [List.singleton_append, readQuoted?, if_neg hbackslash, if_neg hquote]
  | _ =>
    subst_vars
    exact readQuoted?_letter cs (by decide) rfl

theorem readQuoted?_flatMap_escape :
    (ds : List Char) → readQuoted? .plain (ds.flatMap escape ++ ['"']) = some ds
  | [] => rfl
  | d :: ds => by
    rw [List.flatMap_cons, List.append_assoc, readQuoted?_escape, readQuoted?_flatMap_escape ds,
      Option.map_some]

/-- A text that is put in quotes is got back from them, and so no other text is written so. -/
theorem unquoted?_quoted (text : String) : unquoted? (quoted text) = some text := by
  have hread := readQuoted?_flatMap_escape text.toList
  simp [unquoted?, quoted, hread]

end Polish.Text

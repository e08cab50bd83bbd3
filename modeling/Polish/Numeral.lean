/-!
Decimal numerals of the signed 64-bit integers. A numeral is an optional `-` before decimal digits;
an integer has many numerals (leading zeros, `-0`), of which `ofInt64` writes the shortest. Main
statement: `read?_ofInt64`, what is written reads back.
-/

namespace Polish.Numeral

/-- The shortest decimal digits of a natural number. -/
def ofNat (n : Nat) : List Char := Nat.toDigits 10 n

/-- The natural number that a non-empty row of decimal digits denotes. -/
def readNat? (cs : List Char) : Option Nat :=
  if cs ≠ [] ∧ cs.all Char.isDigit then some (Nat.ofDigitChars 10 cs 0) else none

/-- The integer that an optional `-` and decimal digits denote. -/
def readInt? : List Char → Option Int
  | '-' :: cs => (readNat? cs).map fun n : Nat => -(n : Int)
  | cs => (readNat? cs).map fun n : Nat => (n : Int)

/-- The integer as a signed 64-bit word, if it is one. -/
def toInt64? (v : Int) : Option Int64 :=
  if Int64.minValue.toInt ≤ v ∧ v ≤ Int64.maxValue.toInt then some (Int64.ofInt v) else none

/-- The signed 64-bit integer that a numeral denotes: none for other text and out of range. -/
def read? (cs : List Char) : Option Int64 := (readInt? cs).bind toInt64?

/-- The shortest numeral of an integer. -/
def ofInt : Int → List Char
  | .ofNat n => ofNat n
  | .negSucc n => '-' :: ofNat (n + 1)

/-- The shortest numeral of a signed 64-bit integer. -/
def ofInt64 (v : Int64) : List Char := ofInt v.toInt

/-- The text of a natural number. -/
def natText (n : Nat) : String := String.ofList (ofNat n)

/-- The text of a signed 64-bit integer. -/
def text (v : Int64) : String := String.ofList (ofInt64 v)

theorem isDigit_of_mem_ofNat {n : Nat} {c : Char} (h : c ∈ ofNat n) : c.isDigit :=
  Nat.isDigit_of_mem_toDigits (by decide) (by decide) h

theorem ofNat_ne_nil (n : Nat) : ofNat n ≠ [] := Nat.toDigits_ne_nil

@[simp] theorem readNat?_ofNat (n : Nat) : readNat? (ofNat n) = some n := by
  have hd : (ofNat n).all Char.isDigit = true :=
    List.all_eq_true.2 fun c hc => isDigit_of_mem_ofNat hc
  simp only [readNat?, hd, ofNat_ne_nil, ne_eq, not_false_eq_true, and_self, if_true]
  exact congrArg some Nat.ofDigitChars_ten_toDigits

/-- No numeral of a natural number begins with a sign. -/
theorem ofNat_ne_minus (n : Nat) (cs : List Char) : ofNat n ≠ '-' :: cs := fun h => by
  have hd := isDigit_of_mem_ofNat (n := n) (c := '-') (by simp [h])
  exact absurd hd (by decide)

theorem readInt?_of_ne_minus {cs : List Char} (h : ∀ ds, cs ≠ '-' :: ds) :
    readInt? cs = (readNat? cs).map fun n : Nat => (n : Int) := by
  unfold readInt?
  split
  · exact absurd rfl (h _)
  · rfl

@[simp] theorem readInt?_ofInt (v : Int) : readInt? (ofInt v) = some v := by
  cases v with
  | ofNat n => simp [ofInt, readInt?_of_ne_minus (ofNat_ne_minus n)]
  | negSucc n => simp [ofInt, readInt?, Int.negSucc_eq]

theorem toInt64?_toInt (v : Int64) : toInt64? v.toInt = some v := by
  rw [toInt64?, if_pos ⟨v.minValue_le_toInt, v.toInt_le⟩, Int64.ofInt_toInt]

@[simp] theorem read?_ofInt64 (v : Int64) : read? (ofInt64 v) = some v := by
  simp [read?, ofInt64, toInt64?_toInt]

end Polish.Numeral

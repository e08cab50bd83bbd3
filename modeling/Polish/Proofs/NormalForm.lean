import Mathlib.Data.List.Induction
import Polish.Proofs.RoundTrip

/-!
Prefix text as a normal form. A numeral has one canonical spelling, the shortest; an expression is
spelled in many ways, and its prefix text is the one in which every numeral is canonical and the
blanks are as few as can be. Main statement: `normal_form`, reading a text and writing the expression
keeps the pieces of the text but for its numerals, which become canonical, and two texts are of one
expression exactly if this makes their pieces the same.

    (+(negate x)007)         ( + ( negate x ) 7 )
            └────▶ (+ (negate x) 7) ◀────┘
-/

namespace Polish

open Text

/-! ### Canonical numerals -/

namespace Numeral

/-- Digits without the zeros in front; where there are only zeros, one is left. -/
def shorten (ds : List Char) : List Char :=
  match ds.dropWhile (· == '0') with
  | [] => ['0']
  | c :: cs => c :: cs

/-- The canonical spelling of a numeral: no zeros in front, and no sign before zero. -/
def canonical : List Char → List Char
  | '-' :: ds => if shorten ds = ['0'] then ['0'] else '-' :: shorten ds
  | ds => shorten ds

theorem digitValue_lt {c : Char} (h : c.isDigit = true) : c.toNat - '0'.toNat < 10 := by
  obtain ⟨-, hhi⟩ := Char.isDigit_iff_toNat.1 h
  have hnine : '9'.toNat = '0'.toNat + 9 := rfl
  omega

theorem digitChar_digitValue {c : Char} (h : c.isDigit = true) :
    Nat.digitChar (c.toNat - '0'.toNat) = c := by
  have hten : ∀ n < 10, Nat.digitChar n = Char.ofNat ('0'.toNat + n) := by decide
  rw [hten _ (digitValue_lt h), Nat.add_sub_cancel' (Char.isDigit_iff_toNat.1 h).1, Char.ofNat_toNat]

theorem ofDigitChars_concat (cs : List Char) (d : Char) :
    Nat.ofDigitChars 10 (cs ++ [d]) 0 = 10 * Nat.ofDigitChars 10 cs 0 + (d.toNat - '0'.toNat) := by
  rw [Nat.ofDigitChars_append, Nat.ofDigitChars_cons, Nat.ofDigitChars_nil]

/-- Digits that do not begin with a zero are those of the number that they denote. -/
theorem ofNat_of_ne_zero {c : Char} (hc : c ≠ '0') {cs : List Char}
    (h : ∀ d ∈ c :: cs, d.isDigit = true) :
    0 < Nat.ofDigitChars 10 (c :: cs) 0 ∧ ofNat (Nat.ofDigitChars 10 (c :: cs) 0) = c :: cs := by
  -- from the back, since the digits of a number are its last digit behind those of its tenth
  induction cs using List.reverseRecOn with
  | nil =>
    have hdigit := h c List.mem_cons_self
    have hchar := digitChar_digitValue hdigit
    rw [← List.nil_append [c], ofDigitChars_concat, Nat.ofDigitChars_nil, Nat.mul_zero, Nat.zero_add,
      ofNat, Nat.toDigits_of_lt_base (digitValue_lt hdigit), hchar]
    refine ⟨Nat.pos_of_ne_zero fun hzero => hc ?_, rfl⟩
    rw [← hchar]
    exact Nat.digitChar_eq_zero.2 hzero
  | append_singleton cs d ih =>
    rw [← List.cons_append] at h ⊢
    have hd : d.isDigit = true := h d (List.mem_append_right _ List.mem_cons_self)
    obtain ⟨hpos, hcs⟩ := ih fun e he => h e (List.mem_append_left _ he)
    rw [ofDigitChars_concat]
    refine ⟨by omega, ?_⟩
    rw [ofNat, ← Nat.toDigits_append_toDigits (by decide) hpos (digitValue_lt hd), ← ofNat, hcs,
      Nat.toDigits_of_lt_base (digitValue_lt hd), digitChar_digitValue hd]

theorem shorten_eq_ofNat {ds : List Char} (h : ∀ d ∈ ds, d.isDigit = true) :
    shorten ds = ofNat (Nat.ofDigitChars 10 ds 0) := by
  induction ds with
  | nil => rfl
  | cons c ds ih =>
    by_cases hc : c = '0'
    · subst hc
      exact ih (List.forall_mem_cons.1 h).2
    · have hdrop : (c :: ds).dropWhile (· == '0') = c :: ds :=
        List.dropWhile_cons_of_neg (by simpa using hc)
      rw [shorten, hdrop, (ofNat_of_ne_zero hc h).2]

theorem canonical_of_ne_minus {cs : List Char} (h : ∀ ds, cs ≠ '-' :: ds) :
    canonical cs = shorten cs := by
  unfold canonical
  split
  · exact absurd rfl (h _)
  · rfl

theorem Denotes.any_isDigit {cs : List Char} {w : Int} (h : Denotes cs w) :
    cs.any Char.isDigit = true := by
  rw [List.any_eq_true]
  cases h with
  | nonnegative hne hdigits =>
    obtain ⟨c, hc⟩ := List.exists_mem_of_ne_nil _ hne
    exact ⟨c, hc, hdigits c hc⟩
  | negative hne hdigits =>
    obtain ⟨c, hc⟩ := List.exists_mem_of_ne_nil _ hne
    exact ⟨c, List.mem_cons_of_mem _ hc, hdigits c hc⟩

/-- The canonical spelling of a numeral is the one that its integer is written with. -/
theorem Denotes.canonical_eq {cs : List Char} {w : Int} (h : Denotes cs w) :
    canonical cs = ofInt w := by
  cases h with
  | nonnegative hne hdigits =>
    rw [canonical_of_ne_minus fun _ => not_digits_minus hdigits, shorten_eq_ofNat hdigits]
    rfl
  | @negative ds hne hdigits =>
    rw [canonical, shorten_eq_ofNat hdigits]
    rcases hn : Nat.ofDigitChars 10 ds 0 with - | n
    · rfl
    · -- a positive number is not written as zero, since it is read back
      have hzero : ofNat (n + 1) ≠ ['0'] := by
        intro heq
        have hread := readNat?_ofNat (n + 1)
        rw [heq] at hread
        cases hread
      rw [if_neg hzero]
      rfl

end Numeral

/-- A piece with its numeral made canonical: an integer-shaped piece with at least one digit gets its
canonical spelling, and any other piece stays. -/
def Text.canonical (t : String) : String :=
  if integerShaped t.toList && t.toList.any Char.isDigit then
    String.ofList (Numeral.canonical t.toList)
  else t

theorem Text.canonical_of_denotes {t : String} {v : Int64} (h : Numeral.Denotes t.toList v.toInt) :
    canonical t = Numeral.text v := by
  rw [canonical, h.integerShaped, h.any_isDigit, Bool.and_self, if_pos rfl, h.canonical_eq]
  rfl

theorem Text.canonical_name (v : Variable) : canonical v.name = v.name := by
  cases v <;> decide

theorem Text.canonical_symbol (o : Operator) : canonical o.symbol = o.symbol := by
  cases o <;> decide

/-! ### The pieces of an expression -/

namespace Expr

mutual

/-- However an expression is spelled, canonical numerals make of it the spelling of its prefix text. -/
theorem spelling_of_derives {ts : List String} {e : Expr} :
    Derives ts e → spelling e = ts.map canonical
  | .var v => by rw [spelling, List.map_singleton, canonical_name]
  | .integer value => by rw [spelling, List.map_singleton, canonical_of_denotes value]
  | @Derives.operation o ts es fits operands => by
    rw [spelling, spellingAll_of_derivesAll operands, List.map_append, List.map_cons, List.map_cons,
      canonical_symbol, List.map_singleton]
    rfl

theorem spellingAll_of_derivesAll {ts : List String} {es : List Expr} :
    DerivesAll ts es → spellingAll es = ts.map canonical
  | .nil => rfl
  | .cons first others => by
    rw [spellingAll, spelling_of_derives first, spellingAll_of_derivesAll others, List.map_append]

end

theorem pieces_prefixText_of_parse {source : String} {e : Expr} (h : parse source = .ok e) :
    pieces e.prefixText.toList = (pieces source.toList).map canonical := by
  rw [pieces_prefixText_eq_spelling, spelling_of_derives (derives_of_parse h)]

/-- Expressions that are spelled with the same pieces are the same. -/
theorem eq_of_spelling_eq {e f : Expr} (he : e.WellFormed) (hf : f.WellFormed)
    (h : spelling e = spelling f) : e = f :=
  derives_unique he.derives (h ▸ hf.derives)

/-- Prefix text is a normal form of the texts of an expression. It has the pieces of any such text, with
the numerals made canonical; two texts are of one expression exactly if their pieces become the same
in this way; and it is its own normal form, whatever blanks the text had. -/
theorem normal_form {source source' : String} {e f : Expr} (h : parse source = .ok e)
    (h' : parse source' = .ok f) :
    pieces e.prefixText.toList = (pieces source.toList).map canonical ∧
      (e = f ↔ (pieces source.toList).map canonical = (pieces source'.toList).map canonical) ∧
      parse e.prefixText = .ok e ∧
      (pieces source.toList = pieces source'.toList → e.prefixText = f.prefixText) := by
  have hpieces := pieces_prefixText_of_parse h
  have hpieces' := pieces_prefixText_of_parse h'
  have hsame : e = f ↔ (pieces source.toList).map canonical = (pieces source'.toList).map canonical := by
    rw [← hpieces, ← hpieces']
    constructor
    · rintro rfl
      rfl
    · intro hrow
      rw [pieces_prefixText_eq_spelling, pieces_prefixText_eq_spelling] at hrow
      exact eq_of_spelling_eq (wellFormed_of_parse h) (wellFormed_of_parse h') hrow
  refine ⟨hpieces, hsame, parse_of_derives ?_, fun hrow => ?_⟩
  · rw [pieces_prefixText_eq_spelling]
    exact (wellFormed_of_parse h).derives
  · rw [hsame.2 (congrArg (List.map canonical) hrow)]

/-- Two texts of one sum, in which blanks and zeros differ. -/
theorem normal_form_of_sum :
    let e : Expr := .operation .add [.operation .negate [.var .x], .integer (-7)]
    parse "(+(negate x)-007)" = .ok e ∧ parse " ( + ( negate x ) -7 ) " = .ok e ∧
      pieces e.prefixText.toList = (pieces "(+(negate x)-007)".toList).map canonical ∧
      (pieces "(+(negate x)-007)".toList).map canonical =
        (pieces " ( + ( negate x ) -7 ) ".toList).map canonical := by
  intro e
  have hrow : pieces "(+(negate x)-007)".toList =
      ["(", "+", "(", "negate", "x", ")", "-007", ")"] := by decide +kernel
  have hrow' : pieces " ( + ( negate x ) -7 ) ".toList =
      ["(", "+", "(", "negate", "x", ")", "-7", ")"] := by decide +kernel
  have h : parse "(+(negate x)-007)" = .ok e := parse_of_pieces hrow rfl
  have h' : parse " ( + ( negate x ) -7 ) " = .ok e := parse_of_pieces hrow' rfl
  obtain ⟨hpieces, hsame, -, -⟩ := normal_form h h'
  exact ⟨h, h', hpieces, hsame.1 rfl⟩

end Expr

end Polish

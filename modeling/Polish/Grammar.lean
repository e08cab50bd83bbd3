import Polish.Expr

/-!
The grammar of prefix notation, on the texts of tokens. An expression is a variable, an integer that
64 bits can hold, or an operation in parentheses: an operator's symbol and then as many expressions as
the operator accepts. Main statement: `wellFormed_of_derives`, all that is derived is well-formed.
-/

namespace Polish

/-- The integer that a text denotes: decimal digits with place value, and a `-` for the negative. -/
inductive Numeral.Denotes : List Char → Int → Prop where
  | nonnegative {cs : List Char} (some_ : cs ≠ []) (digits : ∀ c ∈ cs, c.isDigit) :
      Denotes cs (Nat.ofDigitChars 10 cs 0)
  | negative {cs : List Char} (some_ : cs ≠ []) (digits : ∀ c ∈ cs, c.isDigit) :
      Denotes ('-' :: cs) (-(Nat.ofDigitChars 10 cs 0))

mutual

/-- `Derives ts e`: the token texts `ts` spell the expression `e`. -/
inductive Derives : List String → Expr → Prop where
  | var (v : Variable) : Derives [v.name] (.var v)
  | integer {text : String} {v : Int64} (value : Numeral.Denotes text.toList v.toInt) :
      Derives [text] (.integer v)
  | operation {o : Operator} {ts : List String} {es : List Expr}
      (fits : o.arity.Accepts es.length) (operands : DerivesAll ts es) :
      Derives ("(" :: o.symbol :: ts ++ [")"]) (.operation o es)

/-- `DerivesAll ts es`: the token texts `ts` spell the expressions `es` one after another. -/
inductive DerivesAll : List String → List Expr → Prop where
  | nil : DerivesAll [] []
  | cons {ts us : List String} {e : Expr} {es : List Expr} (first : Derives ts e)
      (others : DerivesAll us es) : DerivesAll (ts ++ us) (e :: es)

end

mutual

theorem wellFormed_of_derives {ts : List String} {e : Expr} : Derives ts e → e.WellFormed
  | .var v => .var v
  | .integer _ => .integer _
  | .operation fits operands => .operation fits (wellFormed_of_derivesAll operands)

theorem wellFormed_of_derivesAll {ts : List String} {es : List Expr} :
    DerivesAll ts es → ∀ e ∈ es, e.WellFormed
  | .nil => nofun
  | .cons first others => List.forall_mem_cons.2
      ⟨wellFormed_of_derives first, wellFormed_of_derivesAll others⟩

end

end Polish

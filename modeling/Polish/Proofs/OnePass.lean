import Polish.Expr.Parse
import Polish.Proofs.Descent

/-!
Reading a text in one pass. Main statement: `parse_eq_read`, the descent, which goes back in front of
a closing parenthesis, gives the expression or the cause that the machine gives, which takes every
token once.
-/

namespace Polish

open Text Machine

theorem mapError_eq_ok {ε δ α : Type} {x : Except ε α} {f : ε → δ} {a : α} :
    x.mapError f = .ok a ↔ x = .ok a := by
  cases x <;> simp [Except.mapError]

namespace Machine

theorem finish_eq_ok {state : State} {e : Expr} : finish state = .ok e ↔ state = .complete e := by
  constructor
  · intro h
    rcases state with - | outer | ⟨p, outer⟩ | f
    · cases h
    · cases h
    · rcases harity : p.operator.arity with count | -
      · rcases hlacking : p.lacking with - | - <;> simp [finish, harity, hlacking] at h
      · simp [finish, harity] at h
    · cases h
      rfl
  · rintro rfl
    rfl

theorem bind_finish_eq_ok {x : Except ParseError.Cause State} {e : Expr} :
    x >>= finish = .ok e ↔ x = .ok (.complete e) := by
  rcases x with cause | state
  · constructor <;> nofun
  · rw [Except.ok.injEq, ← finish_eq_ok]
    rfl

end Machine

namespace Expr

theorem parse_of_gap {source : String} (h : Gap source.toList) :
    parse source = .error ⟨.emptyExpression, none, []⟩ := by
  rw [parse, if_pos (trim_eq_nil.2 h)]

/-- A text with a piece is read as the machine on a scan reads it. -/
theorem parse_of_not_gap {source : String} (h : ¬Gap source.toList) :
    parse source = (readScan .start (.start (trim source.toList))).outcome.mapError fun fault =>
      ⟨fault.cause, some fault.position, trim source.toList⟩ := by
  rw [parse, if_neg (mt trim_eq_nil.1 h), readTrimmed, readRoot_eq_readScan]
  rcases (readScan .start (.start (trim source.toList))).outcome with fault | e <;> rfl

theorem mapError_cause_parse (source : String) :
    (parse source).mapError ParseError.cause = run .start (tokensOf source.toList) >>= finish := by
  by_cases h : Gap source.toList
  · rw [parse_of_gap h, tokensOf_of_gap h]
    rfl
  · rw [parse_of_not_gap h, ← tokensOf_trim]
    refine Eq.trans ?_ (outcome_readScan .start (.start (trim source.toList)))
    rcases (readScan .start (.start (trim source.toList))).outcome with fault | e <;> rfl

theorem parse_eq_ok {source : String} {e : Expr} :
    parse source = .ok e ↔ run .start (tokensOf source.toList) = .ok (.complete e) := by
  rw [← mapError_eq_ok (f := ParseError.cause), mapError_cause_parse, bind_finish_eq_ok]

/-- A text with known pieces is read by running the machine on them. -/
theorem parse_of_pieces {source : String} {ts : List String} {e : Expr}
    (h : pieces source.toList = ts) (hrun : run .start (ts.map Token.classify) = .ok (.complete e)) :
    parse source = .ok e := by
  rw [parse_eq_ok, tokensOf, h]
  exact hrun

/-- Reading a text by descent gives the expression, or the cause of failure with the text it carries,
that the machine gives on the tokens of the trimmed text, which are those of the text as it is. -/
theorem parse_eq_read (source : String) :
    (parse source).mapError ParseError.cause = Machine.read (tokensOf (trim source.toList)) ∧
      (parse source).mapError ParseError.cause = Machine.read (tokensOf source.toList) := by
  have hread : (parse source).mapError ParseError.cause = Machine.read (tokensOf source.toList) :=
    mapError_cause_parse source
  exact ⟨by rw [hread, tokensOf_trim], hread⟩

end Expr

end Polish

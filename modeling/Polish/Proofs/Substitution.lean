import Polish.Expr.Report
import Polish.Proofs.RoundTrip
import Polish.Proofs.Segmentation

/-!
Substitution in a text. The text of an expression can be put in place of a variable wherever the
variable stands as a token, and this is what putting the expression's value in the variable's
coordinate would do. Main statement: `evaluate_replacePieces`, the text with the replacements is read
as an expression, its value is that of the text at the changed point, and a variable that is no token
of a text does not matter for its value.

    source ──── replace v by text of r ────▶ source'
      │ parse                                   │ parse
      ▼                                         ▼
      e ─────────── substitute v r ───────────▶ e'      value at p = value of e at p[v := r at p]
-/

namespace Polish

open Text

/-! ### Replacing pieces of a text -/

namespace Text

/-- The layout with other text in place of every piece that is a given one. -/
def Layout.replace (old new : List Char) (l : Layout) : Layout :=
  { l with segments := l.segments.map fun s => if s.piece = old then { s with piece := new } else s }

/-- The text with other text in place of every piece that is a given one. All other characters stay as
they are. -/
def replacePieces (old new source : String) : String :=
  String.ofList ((Layout.ofText source.toList).replace old.toList new.toList).text

section

variable {old new : List Char}

theorem Layout.text_replace_gap {gap : List Char} (h : Gap gap) :
    ((ofText gap).replace old new).text = gap := by
  rw [ofText_gap h]
  rfl

theorem Layout.text_replace_piece {gap p rest : List Char} (hgap : Gap gap) (hp : Piece p rest) :
    ((ofText (gap ++ (p ++ rest))).replace old new).text =
      gap ++ ((if p = old then new else p) ++ ((ofText rest).replace old new).text) := by
  rw [ofText_piece hgap hp]
  simp only [replace, text, List.map_cons, Segment.join_cons, List.append_assoc]
  split <;> rfl

/-- What ends a word still ends it when words behind it are replaced. -/
theorem Layout.ending_replace (hold : Word old) {cs : List Char} (h : Ending cs) :
    Ending ((ofText cs).replace old new).text := by
  rcases gap_or_piece cs with hgap | ⟨gap, p, rest, rfl, hgap, hp⟩
  · rwa [text_replace_gap hgap]
  · rw [text_replace_piece hgap hp]
    cases gap with
    | cons b gap => exact ending_of_isDelimiter (isDelimiter_of_isBlank (hgap b List.mem_cons_self)) _
    | nil =>
      obtain ⟨c, w, rfl⟩ := List.exists_cons_of_ne_nil hp.ne_nil
      have hc : isDelimiter c = true := h c rfl
      -- the piece is a parenthesis, which is not replaced
      have hne : c :: w ≠ old := by
        rintro rfl
        rw [hold.2 c List.mem_cons_self] at hc
        cases hc
      rw [if_neg hne]
      exact ending_of_isDelimiter hc _

/-- The pieces of the text with the replacements: those of the new text in place of the old piece. -/
theorem Layout.pieces_replace (hold : Word old) (new cs : List Char) :
    pieces ((ofText cs).replace old new).text =
      (pieces cs).flatMap fun t => if t = String.ofList old then pieces new else [t] := by
  induction cs using text_induction with
  | blank gap hgap => rw [text_replace_gap hgap, pieces_of_gap hgap, List.flatMap_nil]
  | piece gap p rest hgap hp ih =>
    rw [text_replace_piece hgap hp, pieces_gap hgap, pieces_gap hgap, pieces_piece hp,
      List.flatMap_cons, ← ih]
    by_cases heq : p = old
    · subst heq
      cases hp with
      | parenthesis _ isParen =>
        have hplain := hold.2 _ List.mem_cons_self
        rw [isDelimiter, isParen, Bool.or_true] at hplain
        cases hplain
      | word _ _ ends =>
        rw [if_pos rfl, if_pos rfl, pieces_append (.inl (ending_replace hold ends))]
    · have hne : String.ofList p ≠ String.ofList old := fun h => heq (String.ofList_injective h)
      rw [if_neg heq, if_neg hne]
      cases hp with
      | parenthesis _ isParen => exact pieces_parenthesis isParen _
      | word nonempty plain ends =>
        exact pieces_piece (.word nonempty plain (ending_replace hold ends))

end

end Text

/-! ### Substituting in an expression -/

/-- The point with another value for a variable. -/
def Point.set (p : Point) (v : Variable) (value : Float) : Point :=
  match v with
  | .x => { p with x := value }
  | .y => { p with y := value }
  | .z => { p with z := value }

theorem Point.value_set (p : Point) (v w : Variable) (value : Float) :
    (p.set v value).value w = if w = v then value else p.value w := by
  cases v <;> cases w <;> rfl

namespace Expr

mutual

/-- The expression with another in place of a variable. -/
def substitute (v : Variable) (r : Expr) : Expr → Expr
  | integer n => integer n
  | .var w => if w = v then r else .var w
  | operation o es => operation o (substituteAll v r es)

def substituteAll (v : Variable) (r : Expr) : List Expr → List Expr
  | [] => []
  | e :: es => substitute v r e :: substituteAll v r es

end

theorem length_substituteAll (v : Variable) (r : Expr) (es : List Expr) :
    (substituteAll v r es).length = es.length := by
  induction es with
  | nil => rfl
  | cons e es ih => rw [substituteAll, List.length_cons, List.length_cons, ih]

mutual

/-- Substituting is the same as changing the point. -/
theorem value?_substitute {v : Variable} {r : Expr} {p : Point} {value : Float}
    (h : r.value? p = some value) :
    (e : Expr) → (substitute v r e).value? p = e.value? (p.set v value)
  | integer _ => rfl
  | .var w => by
    rw [substitute, value?, Point.value_set]
    by_cases hw : w = v
    · rw [if_pos hw, if_pos hw, h]
    · rw [if_neg hw, if_neg hw, value?]
  | operation o es => by rw [substitute, value?, value?, values?_substituteAll h es]

theorem values?_substituteAll {v : Variable} {r : Expr} {p : Point} {value : Float}
    (h : r.value? p = some value) :
    (es : List Expr) → values? p (substituteAll v r es) = values? (p.set v value) es
  | [] => rfl
  | e :: es => by
    rw [substituteAll, values?, values?, value?_substitute h e, values?_substituteAll h es]

end

/-! ### Substituting in a derivation -/

/-- The token texts with the pieces of an expression in place of a variable. -/
def putIn (v : Variable) (r : Expr) (t : String) : List String := if t = v.name then spelling r else [t]

theorem putIn_of_classify_ne {v : Variable} {r : Expr} {t : String}
    (h : Token.classify t ≠ .var v) : putIn v r t = [t] := by
  refine if_neg ?_
  rintro rfl
  exact h (Token.classify_name v)

theorem putIn_symbol (v : Variable) (r : Expr) (o : Operator) : putIn v r o.symbol = [o.symbol] := by
  refine if_neg ?_
  cases o <;> cases v <;> decide

mutual

/-- A derivation stays one when the expression is substituted and its pieces are put in. -/
theorem derives_substitute {v : Variable} {r : Expr} (hr : r.WellFormed) {ts : List String} {e : Expr} :
    Derives ts e → Derives (ts.flatMap (putIn v r)) (substitute v r e)
  | .var w => by
    rw [List.flatMap_singleton, substitute]
    by_cases hw : w = v
    · rw [hw, if_pos rfl, putIn, if_pos rfl]
      exact hr.derives
    · rw [if_neg hw, putIn_of_classify_ne (by simpa using hw)]
      exact .var w
  | @Derives.integer text n value => by
    have hne : Token.classify text ≠ .var v := by
      rw [Token.classify_of_denotes value]
      exact nofun
    rw [List.flatMap_singleton, putIn_of_classify_ne hne]
    exact .integer value
  | @Derives.operation o ts es fits operands => by
    have hfits : o.arity.Accepts (substituteAll v r es).length := by
      rwa [length_substituteAll]
    have hopen : putIn v r "(" = ["("] := putIn_of_classify_ne nofun
    have hclose : putIn v r ")" = [")"] := putIn_of_classify_ne nofun
    have hrow := Derives.operation hfits (derivesAll_substituteAll hr operands)
    rw [List.flatMap_append, List.flatMap_cons, List.flatMap_cons, List.flatMap_singleton, hopen,
      hclose, putIn_symbol]
    exact hrow

theorem derivesAll_substituteAll {v : Variable} {r : Expr} (hr : r.WellFormed) {ts : List String}
    {es : List Expr} :
    DerivesAll ts es → DerivesAll (ts.flatMap (putIn v r)) (substituteAll v r es)
  | .nil => .nil
  | .cons first others => by
    rw [List.flatMap_append]
    exact .cons (derives_substitute hr first) (derivesAll_substituteAll hr others)

end

mutual

/-- Only the variables that are spelled matter for the value. -/
theorem value?_congr_of_derives {p q : Point} {ts : List String} {e : Expr} :
    Derives ts e → (∀ v : Variable, v.name ∈ ts → p.value v = q.value v) → e.value? p = e.value? q
  | .var v, h => congrArg some (h v List.mem_cons_self)
  | .integer _, _ => rfl
  | @Derives.operation o ts es fits operands, h => by
    have hoperands := values?_congr_of_derivesAll operands fun v hv => h v (by simp [hv])
    rw [value?, value?, hoperands]

theorem values?_congr_of_derivesAll {p q : Point} {ts : List String} {es : List Expr} :
    DerivesAll ts es → (∀ v : Variable, v.name ∈ ts → p.value v = q.value v) →
      values? p es = values? q es
  | .nil, _ => rfl
  | .cons first others, h => by
    rw [values?, values?,
      value?_congr_of_derives first fun v hv => h v (List.mem_append_left _ hv),
      values?_congr_of_derivesAll others fun v hv => h v (List.mem_append_right _ hv)]

end

/-! ### Substituting in a text -/

theorem parse_replacePieces {source : String} {e r : Expr} (h : parse source = .ok e)
    (hr : r.WellFormed) (v : Variable) :
    parse (replacePieces v.name r.prefixText source) = .ok (substitute v r e) := by
  refine parse_of_derives ?_
  have hputIn : putIn v r = fun t => if t = v.name then spelling r else [t] := rfl
  have hpieces := Layout.pieces_replace v.word_name r.prefixText.toList source.toList
  rw [String.ofList_toList, pieces_prefixText_eq_spelling, ← hputIn] at hpieces
  rw [replacePieces, String.toList_ofList, hpieces]
  exact derives_substitute hr (derives_of_parse h)

theorem evaluate_of_parse {source : String} {e : Expr} (h : parse source = .ok e) (p : Point) :
    evaluate source p = .ok (e.value? p) := by
  rw [evaluate, read, h]
  rfl

/-- Putting the text of a well-formed expression in place of a variable, wherever the variable stands as
a token, makes a text that is read as an expression. Its value at a point is the value of the first text
at the point where the variable has the value of what was put in its place. A variable that is no token
of a text does not matter for the value of the text. -/
theorem evaluate_replacePieces {source : String} {e r : Expr} (h : parse source = .ok e)
    (hr : r.WellFormed) (v : Variable) (p : Point) :
    (∃ e' value result, parse (replacePieces v.name r.prefixText source) = .ok e' ∧
      r.value? p = some value ∧
      evaluate (replacePieces v.name r.prefixText source) p = .ok (some result) ∧
      evaluate source (p.set v value) = .ok (some result)) ∧
    (v.name ∉ pieces source.toList →
      ∀ value, evaluate source (p.set v value) = evaluate source p) := by
  constructor
  · obtain ⟨value, hvalue⟩ := Option.isSome_iff_exists.1 (isSome_value? hr p)
    obtain ⟨result, hresult⟩ :=
      Option.isSome_iff_exists.1 (isSome_value? (wellFormed_of_parse h) (p.set v value))
    have hparse := parse_replacePieces h hr v
    refine ⟨_, value, result, hparse, hvalue, ?_, ?_⟩
    · rw [evaluate_of_parse hparse, value?_substitute hvalue, hresult]
    · rw [evaluate_of_parse h, hresult]
  · intro hv value
    rw [evaluate_of_parse h, evaluate_of_parse h]
    refine congrArg Except.ok (value?_congr_of_derives (derives_of_parse h) fun w hw => ?_)
    rw [Point.value_set, if_neg]
    rintro rfl
    exact hv hw

/-- A variable at both ends of words and next to a parenthesis, replaced by a sum of another; the third
variable is no token of the text. -/
theorem evaluate_replacePieces_of_difference :
    let r : Expr := .operation .add [.var .y, .integer (-1)]
    let p : Point := ⟨2, 3, 5⟩
    replacePieces "x" r.prefixText "(- x(negate x))" = "(- (+ y -1)(negate (+ y -1)))" ∧
      (∃ value result, r.value? p = some value ∧
        evaluate "(- (+ y -1)(negate (+ y -1)))" p = .ok (some result) ∧
        evaluate "(- x(negate x))" (p.set .x value) = .ok (some result)) ∧
      ∀ value, evaluate "(- x(negate x))" (p.set .z value) = evaluate "(- x(negate x))" p := by
  intro r p
  have hrow : pieces "(- x(negate x))".toList = ["(", "-", "x", "(", "negate", "x", ")", ")"] := by
    decide +kernel
  have hparse : parse "(- x(negate x))" =
      .ok (.operation .subtract [.var .x, .operation .negate [.var .x]]) := parse_of_pieces hrow rfl
  have hr : r.WellFormed := .operation (by decide)
    (List.forall_mem_cons.2 ⟨.var _, List.forall_mem_singleton.2 (.integer _)⟩)
  have htext : replacePieces "x" r.prefixText "(- x(negate x))" = "(- (+ y -1)(negate (+ y -1)))" := by
    decide +kernel
  obtain ⟨⟨_, value, result, -, hvalue, hnew, hold⟩, -⟩ := evaluate_replacePieces hparse hr .x p
  obtain ⟨-, hunused⟩ := evaluate_replacePieces hparse hr .z p
  refine ⟨htext, ⟨value, result, hvalue, htext ▸ hnew, hold⟩, hunused ?_⟩
  rw [hrow]
  decide

end Expr

end Polish

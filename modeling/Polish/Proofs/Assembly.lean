import Mathlib.Data.List.Forall2
import Polish.Proofs.RoundTrip
import Polish.Proofs.Stops
import Polish.Proofs.Transitions

/-!
Operations assembled from texts. Texts that are read as expressions are put in a row behind an
operator, and it is the number of them alone that decides whether the whole is read. Main statement:
`parse_operationText`, the reader accepts the whole exactly if the checked constructor accepts the
expressions, and otherwise it says whether there are too few, too many or none, and where.

    (- x (negate y))      (- x)      (- x y (negate z))      (harm-mean )
                              ▲             ▲                         ▲
                           too few       too many                    none
-/

namespace Polish

open Text Machine

/-! ### Texts in a row -/

namespace Text

theorem toList_spaced_cons (s : String) (ss : List String) :
    (spaced (s :: ss)).toList = ' ' :: (s.toList ++ (spaced ss).toList) := by
  simp [spaced]

theorem toList_spaced_append (ss ts : List String) :
    (spaced (ss ++ ts)).toList = (spaced ss).toList ++ (spaced ts).toList := by
  simp [spaced]

/-- With a space in front, texts with a space between each two have a space before each. -/
theorem toList_intercalate_cons (s : String) (ss : List String) :
    ' ' :: (" ".intercalate (s :: ss)).toList = (spaced (s :: ss)).toList := by
  induction ss generalizing s with
  | nil => simp [spaced]
  | cons t ss ih =>
    rw [String.intercalate_cons_cons, toList_spaced_cons, ← ih]
    simp

theorem ending_spaced (ss : List String) {rest : List Char} (hrest : Ending rest) :
    Ending ((spaced ss).toList ++ rest) := by
  cases ss with
  | nil => exact hrest
  | cons s ss =>
    rw [toList_spaced_cons]
    exact ending_of_isDelimiter (by decide) _

theorem pieces_spaced_texts (ss : List String) {rest : List Char} (hrest : Ending rest) :
    pieces ((spaced ss).toList ++ rest) = (ss.flatMap fun s => pieces s.toList) ++ pieces rest := by
  induction ss with
  | nil => rfl
  | cons s ss ih =>
    have hspaced := ending_spaced ss hrest
    rw [toList_spaced_cons, List.cons_append, ← List.singleton_append, pieces_gap gap_space,
      List.append_assoc, pieces_append (.inl hspaced), ih, List.flatMap_cons, List.append_assoc]

/-- A text that neither begins nor ends with a blank is trimmed already. -/
theorem trim_eq_self {cs : List Char} (hfirst : ∀ c ∈ cs.head?, isBlank c = false)
    (hlast : Tight cs) : trim cs = cs := by
  have hdrop : cs.dropWhile isBlank = cs := by
    cases cs with
    | nil => rfl
    | cons c cs => exact List.dropWhile_cons_of_neg (by simp [hfirst c rfl])
  rw [trim_eq, hdrop, hlast.rdropWhile]

end Text

namespace Expr

/-! ### The text of an operation -/

/-- An operation that is not closed: its operator, and texts for its operands. -/
def operationOpen (o : Operator) (ss : List String) : String :=
  "(" ++ o.symbol ++ " " ++ " ".intercalate ss

/-- An operator and texts for its operands, in parentheses. -/
def operationText (o : Operator) (ss : List String) : String := operationOpen o ss ++ ")"

/-- The text of an operation as far as a further operand. -/
def operationFront (o : Operator) (ss : List String) : String := "(" ++ o.symbol ++ spaced ss ++ " "

theorem toList_operationText (o : Operator) (ss : List String) :
    (operationText o ss).toList = (operationOpen o ss).toList ++ [')'] := by
  rw [operationText, String.toList_append]
  rfl

theorem toList_operationOpen_cons (o : Operator) (s : String) (ss : List String) :
    (operationOpen o (s :: ss)).toList =
      '(' :: (o.symbol.toList ++ (spaced (s :: ss)).toList) := by
  rw [← toList_intercalate_cons]
  simp [operationOpen]

theorem toList_operationFront (o : Operator) (ss : List String) :
    (operationFront o ss).toList = '(' :: (o.symbol.toList ++ ((spaced ss).toList ++ [' '])) := by
  simp [operationFront]

/-- The text of an operation goes on behind its front with a further operand. -/
theorem toList_operationText_append (o : Operator) (ss : List String) (t : String)
    (ts : List String) : (operationText o (ss ++ t :: ts)).toList =
      (operationFront o ss).toList ++ (t.toList ++ ((spaced ts).toList ++ [')'])) := by
  have hne : ss ++ t :: ts ≠ [] := List.append_ne_nil_of_right_ne_nil ss (List.cons_ne_nil t ts)
  obtain ⟨u, us, hus⟩ := List.exists_cons_of_ne_nil hne
  rw [toList_operationText, hus, toList_operationOpen_cons, ← hus, toList_spaced_append,
    toList_spaced_cons, toList_operationFront]
  simp

theorem trim_operationText (o : Operator) (ss : List String) :
    trim (operationText o ss).toList = (operationText o ss).toList := by
  rw [toList_operationText]
  refine trim_eq_self (fun c hc => ?_) ((Piece.parenthesis [] (by decide)).tight _)
  simp only [operationOpen, String.toList_append] at hc
  cases hc
  decide

theorem pieces_operation (o : Operator) {cs : List Char} (hcs : Ending cs) :
    pieces ('(' :: (o.symbol.toList ++ cs)) = "(" :: o.symbol :: pieces cs := by
  rw [pieces_parenthesis (by decide), pieces_word o.word_symbol hcs]
  rfl

theorem pieces_operationOpen (o : Operator) (ss : List String) :
    pieces (operationOpen o ss).toList = "(" :: o.symbol :: ss.flatMap fun s => pieces s.toList := by
  cases ss with
  | nil =>
    have htext : (operationOpen o []).toList = '(' :: (o.symbol.toList ++ [' ']) := by
      simp [operationOpen]
    rw [htext, pieces_operation o gap_space.ending, pieces_of_gap gap_space]
    rfl
  | cons s ss =>
    have hending := ending_spaced (s :: ss) ending_nil
    have hpieces := pieces_spaced_texts (s :: ss) ending_nil
    rw [List.append_nil] at hending hpieces
    rw [toList_operationOpen_cons, pieces_operation o hending, hpieces, pieces_nil, List.append_nil]

theorem pieces_operationFront (o : Operator) (ss : List String) :
    pieces (operationFront o ss).toList =
      "(" :: o.symbol :: ss.flatMap fun s => pieces s.toList := by
  rw [toList_operationFront, pieces_operation o (ending_spaced ss gap_space.ending),
    pieces_spaced_texts ss gap_space.ending, pieces_of_gap gap_space, List.append_nil]

/-! ### Reading the text of an operation -/

variable {o : Operator} {ss : List String} {es : List Expr}

theorem derivesAll_of_parse (h : List.Forall₂ (fun s e => parse s = .ok e) ss es) :
    DerivesAll (ss.flatMap fun s => pieces s.toList) es := by
  induction h with
  | nil => exact .nil
  | cons hs _ ih => exact .cons (derives_of_parse hs) ih

/-- Behind an operator the machine takes the operands up to as many as the operator accepts. -/
theorem run_operands {cs : List Char}
    (hcs : pieces cs = "(" :: o.symbol :: ss.flatMap fun s => pieces s.toList)
    (h : List.Forall₂ (fun s e => parse s = .ok e) ss es)
    (hroom : ∀ count, o.arity = .fixed count → es.length ≤ count) :
    run .start (tokensOf cs) = .ok (.within ⟨o, es.reverse⟩ []) := by
  have hrow : run (.within ⟨o, []⟩ []) ((ss.flatMap fun s => pieces s.toList).map Token.classify) =
      .ok (.within ⟨o, es.reverse ++ []⟩ []) :=
    run_of_derivesAll (derivesAll_of_parse h) fun count harity =>
      (Nat.zero_add _).trans_le (hroom count harity)
  rw [List.append_nil] at hrow
  rw [tokensOf, hcs, List.map_cons, List.map_cons,
    run_cons_of_ok (show step .start (.classify "(") = .ok (.begun []) from rfl),
    run_cons_of_ok (step_symbol o []), hrow]

theorem parse_of_accepts (h : List.Forall₂ (fun s e => parse s = .ok e) ss es)
    (fits : o.arity.Accepts es.length) : parse (operationText o ss) = .ok (.operation o es) := by
  have hclose : Apart (operationOpen o ss).toList [')'] := .inl (ending_of_isDelimiter (by decide) [])
  have hparen : pieces [')'] = [")"] := by decide +kernel
  refine parse_of_derives ?_
  rw [toList_operationText, pieces_append hclose, pieces_operationOpen, hparen]
  exact .operation fits (derivesAll_of_parse h)

/-- With too few operands it is the closing parenthesis that is refused. -/
theorem stop_of_lacking (h : List.Forall₂ (fun s e => parse s = .ok e) ss es)
    (hlacking : Pending.lacking ⟨o, es.reverse⟩ = true)
    (hroom : ∀ count, o.arity = .fixed count → es.length ≤ count) :
    Stop (trim (operationText o ss).toList) (operationOpen o ss).toList [')'] []
      (.within ⟨o, es.reverse⟩ []) (Pending.complaint ⟨o, es.reverse⟩) where
  text := by
    rw [trim_operationText, toList_operationText]
    rfl
  seam := .inl (ending_of_isDelimiter (by decide) [])
  piece := .parenthesis [] (by decide)
  taken := run_operands (pieces_operationOpen o ss) h hroom
  refused := (Refuses.lacking [] hlacking).step

/-- The first token of an expression is no closing parenthesis. -/
theorem exists_first_piece {s : String} {e : Expr} (h : parse s = .ok e) :
    ∃ gap p rest, s.toList = gap ++ (p ++ rest) ∧ Gap gap ∧ Piece p rest ∧
      Token.classify (String.ofList p) ≠ .closeParenthesis := by
  have hrun := parse_eq_ok.1 h
  rcases gap_or_piece s.toList with hgap | ⟨gap, p, rest, hs, hgap, hp⟩
  · rw [tokensOf_of_gap hgap] at hrun
    cases hrun
  · refine ⟨gap, p, rest, hs, hgap, hp, fun hclose => ?_⟩
    rw [hs, tokensOf_gap hgap, tokensOf_piece hp, hclose, run_cons] at hrun
    cases hrun

/-- With too many operands it is the first token of the first one too many that is refused. -/
theorem stop_of_full {count : Nat} {s : String} {gap p rest : List Char} (ts : List String)
    (h : List.Forall₂ (fun s e => parse s = .ok e) ss es) (harity : o.arity = .fixed count)
    (hcount : es.length = count) (hs : s.toList = gap ++ (p ++ rest)) (hgap : Gap gap)
    (hp : Piece p rest) (hclose : Token.classify (String.ofList p) ≠ .closeParenthesis) :
    Stop (trim (operationText o (ss ++ s :: ts)).toList) ((operationFront o ss).toList ++ gap) p
      (rest ++ ((spaced ts).toList ++ [')'])) (.within ⟨o, es.reverse⟩ []) .incorrectOperatorCall where
  text := by
    rw [trim_operationText, toList_operationText_append, hs]
    simp only [List.append_assoc]
  seam := by
    refine Apart.append (.inr fun c hc => ?_) (hgap.apart _)
    rw [toList_operationFront, ← List.append_assoc, ← List.cons_append, List.getLast?_concat,
      Option.mem_some] at hc
    rw [← hc]
    decide
  piece := by
    have hending : Ending ((spaced ts).toList ++ [')']) :=
      ending_spaced ts (ending_of_isDelimiter (by decide) [])
    have hapart : Apart (gap ++ (p ++ rest)) ((spaced ts).toList ++ [')']) := .inl hending
    exact hp.append hapart
  taken := by
    refine run_operands ?_ h fun n hn => ?_
    · have hapart : Apart (operationFront o ss).toList gap := .inl hgap.ending
      rw [pieces_append hapart, pieces_operationFront, pieces_of_gap hgap, List.append_nil]
    · rw [harity] at hn
      exact hcount.trans_le (Nat.le_of_eq (Arity.fixed.inj hn))
  refused := by
    refine (Refuses.full [] ?_ hclose).step
    simp [Pending.hungry, harity, hcount]

/-! ### Too few, too many and none -/

section

variable {count : Nat}

theorem parse_of_few (h : List.Forall₂ (fun s e => parse s = .ok e) ss es)
    (harity : o.arity = .fixed count) (hcount : ss.length < count) :
    parse (operationText o ss) = .error ⟨.missingArgument o.symbol,
      some (operationText o ss).length, (operationText o ss).toList⟩ := by
  have hlength := h.length_eq
  have hlacking : Pending.lacking ⟨o, es.reverse⟩ = true := by
    simp only [Pending.lacking, harity, List.length_reverse, decide_eq_true_eq]
    omega
  have hcomplaint : Pending.complaint ⟨o, es.reverse⟩ = .missingArgument o.symbol := by
    simp only [Pending.complaint, harity]
  have hstop := stop_of_lacking h hlacking fun n hn => by
    rw [harity] at hn
    have heq := Arity.fixed.inj hn
    omega
  rw [hcomplaint] at hstop
  rw [parse_of_stop hstop, trim_operationText, blamed_of_ne (by simp), ← toList_operationText,
    String.length_toList]

theorem parse_of_many (h : List.Forall₂ (fun s e => parse s = .ok e) ss es)
    (harity : o.arity = .fixed count) (hcount : count < ss.length) :
    ∃ s gap p rest more, ss[count]? = some s ∧ s.toList = gap ++ (p ++ rest) ∧ Gap gap ∧
      Piece p rest ∧
      (operationText o ss).toList = (operationFront o (ss.take count)).toList ++ (s.toList ++ more) ∧
      parse (operationText o ss) = .error ⟨.incorrectOperatorCall,
        some ((operationFront o (ss.take count)).toList ++ (gap ++ p)).length,
        (operationText o ss).toList⟩ := by
  have hlength := h.length_eq
  have hs := h.get hcount (hlength ▸ hcount)
  obtain ⟨gap, p, rest, htext, hgap, hp, hclose⟩ := exists_first_piece hs
  have hcut : ss.take count ++ ss[count] :: ss.drop (count + 1) = ss := by
    rw [← List.drop_eq_getElem_cons hcount, List.take_append_drop]
  have htaken : (es.take count).length = count := by
    rw [List.length_take]
    omega
  have hstop := stop_of_full (ss.drop (count + 1)) (List.forall₂_take count h) harity htaken htext
    hgap hp hclose
  have hwhole := toList_operationText_append o (ss.take count) ss[count] (ss.drop (count + 1))
  rw [hcut] at hwhole
  refine ⟨ss[count], gap, p, rest, _, List.getElem?_eq_getElem hcount, htext, hgap, hp, hwhole, ?_⟩
  rw [List.get_eq_getElem, hcut] at hstop
  rw [parse_of_stop hstop, trim_operationText, blamed_of_ne (by simp), List.append_assoc]

theorem parse_of_none (harity : o.arity = .variadic) :
    parse (operationText o []) =
      .error ⟨.noArguments o.symbol, some ("(" ++ o.symbol).length, (operationText o []).toList⟩ := by
  have hlacking : Pending.lacking ⟨o, [].reverse⟩ = true := by
    simp [Pending.lacking, harity]
  have hcomplaint : Pending.complaint ⟨o, [].reverse⟩ = .noArguments o.symbol := by
    simp only [Pending.complaint, harity]
  have hstop := stop_of_lacking .nil hlacking fun n hn => by
    rw [harity] at hn
    cases hn
  have hfront : (operationOpen o []).toList = ("(" ++ o.symbol).toList ++ [' '] := by
    simp [operationOpen]
  have htight : Tight ("(" ++ o.symbol).toList := by
    rw [String.toList_append]
    exact (o.word_symbol.piece ending_nil).tight _
  rw [hcomplaint] at hstop
  rw [parse_of_stop hstop, trim_operationText, blamed, hfront, rdropWhile_append_gap _ gap_space,
    htight.rdropWhile, String.length_toList]

end

/-- Reading the text of an operation, whose operands are texts of expressions. It is read as an
operation exactly if the checked constructor makes one of the expressions. If the operator wants more
operands, the closing parenthesis is at fault, which is the last character; if it wants fewer, the
first token of the first operand too many is; and if it wants any operand and there is none, the
operator's symbol is. -/
theorem parse_operationText (o : Operator) {ss : List String} {es : List Expr}
    (h : List.Forall₂ (fun s e => parse s = .ok e) ss es) :
    (∀ e, parse (operationText o ss) = .ok e ↔ operation? o es = .ok e) ∧
      (∀ count, o.arity = .fixed count → ss.length < count → parse (operationText o ss) =
        .error ⟨.missingArgument o.symbol, some (operationText o ss).length,
          (operationText o ss).toList⟩) ∧
      (∀ count, o.arity = .fixed count → count < ss.length → ∃ s gap p rest more,
        ss[count]? = some s ∧ s.toList = gap ++ (p ++ rest) ∧ Gap gap ∧ Piece p rest ∧
        (operationText o ss).toList =
          (operationFront o (ss.take count)).toList ++ (s.toList ++ more) ∧
        parse (operationText o ss) = .error ⟨.incorrectOperatorCall,
          some ((operationFront o (ss.take count)).toList ++ (gap ++ p)).length,
          (operationText o ss).toList⟩) ∧
      (o.arity = .variadic → ss = [] → parse (operationText o ss) =
        .error ⟨.noArguments o.symbol, some ("(" ++ o.symbol).length,
          (operationText o ss).toList⟩) := by
  have hnone (harity : o.arity = .variadic) (hss : ss = []) := hss ▸ parse_of_none (o := o) harity
  refine ⟨fun e => ?_, fun _ => parse_of_few h, fun _ => parse_of_many h, hnone⟩
  rw [operation?_eq_ok]
  by_cases fits : o.arity.Accepts es.length
  · rw [parse_of_accepts h fits, Except.ok.injEq, eq_comm]
    exact ⟨fun he => ⟨fits, he⟩, fun he => he.2⟩
  · -- a number of operands that does not fit is too small, too large or zero
    have hlength := h.length_eq
    suffices herror : ∃ err, parse (operationText o ss) = .error err by
      obtain ⟨err, herror⟩ := herror
      rw [herror]
      exact ⟨nofun, fun he => absurd he.1 fits⟩
    rcases harity : o.arity with count | -
    · rw [harity] at fits
      rcases Nat.lt_or_gt_of_ne (hlength ▸ fits : ss.length ≠ count) with hfew | hmany
      · exact ⟨_, parse_of_few h harity hfew⟩
      · obtain ⟨s, gap, p, rest, -, -, -, -, -, -, herror⟩ := parse_of_many h harity hmany
        exact ⟨_, herror⟩
    · rw [harity] at fits
      have hzero : es.length = 0 := Nat.eq_zero_of_not_pos fits
      exact ⟨_, hnone harity (List.eq_nil_of_length_eq_zero (hlength.trans hzero))⟩

/-- Subtractions of one to three expressions, of which one has its own parentheses and blanks, and a
mean of none. -/
theorem parse_operationText_counts :
    let y : Expr := .operation .negate [.var .y]
    (parse (operationText .subtract ["x", " ( negate y)"]) =
        .ok (.operation .subtract [.var .x, y])) ∧
      parse "(- x)" = .error ⟨.missingArgument "-", some 5, "(- x)".toList⟩ ∧
      (∃ gap p rest, " ( negate y)".toList = gap ++ (p ++ rest) ∧ Piece p rest ∧
        parse "(- x 1  ( negate y))" = .error ⟨.incorrectOperatorCall,
          some ("(- x 1 ".toList ++ (gap ++ p)).length, "(- x 1  ( negate y))".toList⟩) ∧
      parse "(harm-mean )" =
        .error ⟨.noArguments "harm-mean", some 10, "(harm-mean )".toList⟩ := by
  intro y
  have hx : parse "x" = .ok (.var .x) := by decide +kernel
  have hy : parse " ( negate y)" = .ok y := by decide +kernel
  have hone : parse "1" = .ok (.integer 1) := by decide +kernel
  obtain ⟨htwo, -, -, -⟩ := parse_operationText .subtract (.cons hx (.cons hy .nil))
  obtain ⟨-, hfew, -, -⟩ := parse_operationText .subtract (.cons hx .nil)
  obtain ⟨-, -, hmany, -⟩ := parse_operationText .subtract (.cons hx (.cons hone (.cons hy .nil)))
  obtain ⟨-, -, -, hnone⟩ := parse_operationText .harmonicMean .nil
  obtain ⟨s, gap, p, rest, more, hs, htext, -, hp, -, herror⟩ := hmany 2 rfl (by decide)
  cases hs
  exact ⟨(htwo _).2 rfl, hfew 2 rfl (by decide), ⟨gap, p, rest, htext, hp, herror⟩, hnone rfl rfl⟩

end Expr

end Polish

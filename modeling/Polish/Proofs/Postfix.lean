import Polish.Calculator
import Polish.Proofs.Labels

/-!
Postfix text as a program. The words of the text are the nodes in post-order, and the calculator takes
those of an expression from any stack to the same stack with the expression's value on top. With
expressions for values it puts the tree together again, so the text and the numbers of operands tell
the tree. Main statement: `postfix_program`, the calculator ends with the expression's value and nothing
else, and no other expression has the same postfix text with the same numbers of operands, or with
operators of fixed arity only.

    stack ── words of e ──▶ value of e :: stack
-/

namespace Polish

open Text Calculator

namespace Expr

/-! ### The words of postfix text -/

mutual

theorem fields_postfixText_append : (e : Expr) → ∀ rest : String,
    fields ' ' (e.postfixText ++ " " ++ rest) = e.postorder.map Label.text ++ fields ' ' rest
  | integer v, rest => fields_append (Label.space_not_mem (.integer v)) rest
  | .var v, rest => fields_append (Label.space_not_mem (.var v)) rest
  | operation o es, rest => by
    have hsymbol := fields_append (Label.space_not_mem (.operation o es.length)) rest
    rw [postfixText, String.append_assoc, String.append_assoc, fields_argumentsText_append es,
      ← String.append_assoc, postorder, List.map_append, List.append_assoc]
    exact congrArg ((postorderAll es).map Label.text ++ ·) hsymbol

theorem fields_argumentsText_append : (es : List Expr) → ∀ rest : String,
    fields ' ' (argumentsText es ++ rest) = (postorderAll es).map Label.text ++ fields ' ' rest
  | [], rest => by rw [argumentsText, String.empty_append, postorderAll, List.map_nil,
      List.nil_append]
  | e :: es, rest => by
    rw [argumentsText, String.append_assoc, fields_postfixText_append e,
      fields_argumentsText_append es, postorderAll, List.map_append, List.append_assoc]

end

/-- The words of postfix text are what is written for the nodes in post-order. -/
theorem fields_postfixText (e : Expr) : fields ' ' e.postfixText = e.postorder.map Label.text := by
  cases e with
  | integer v => exact fields_of_not_mem (Label.space_not_mem (.integer v))
  | var v => exact fields_of_not_mem (Label.space_not_mem (.var v))
  | operation o es =>
    have hsymbol := fields_of_not_mem (Label.space_not_mem (.operation o es.length))
    rw [postfixText, fields_argumentsText_append, postorder, List.map_append]
    exact congrArg ((postorderAll es).map Label.text ++ ·) hsymbol

/-! ### Running the words -/

variable {α : Type} (m : Meaning α)

/-- The numbers of operands of the operations in a row of expressions. -/
def countsAll (es : List Expr) : List Nat := es.flatMap counts

theorem counts_operation (o : Operator) (es : List Expr) :
    (operation o es).counts = countsAll es ++ [es.length] := by
  have hall : ∀ fs : List Expr, (postorderAll fs).filterMap Label.count? = countsAll fs := by
    intro fs
    induction fs with
    | nil => rfl
    | cons f fs ih => rw [postorderAll, List.filterMap_append, ih]; rfl
  rw [counts, postorder, List.filterMap_append, hall]
  rfl

end Expr

namespace Calculator

variable {α : Type} (m : Meaning α)

@[simp] theorem run_nil (s : State α) : run m s [] = some s := rfl

theorem run_cons (s : State α) (w : String) (ws : List String) :
    run m s (w :: ws) = (step m s w).bind fun s' => run m s' ws := rfl

/-- An operator takes off the stack the values of its operands, the last of them on top. -/
theorem step_operator (o : Operator) (vs stack : List α) (counts : List Nat) :
    step m ⟨vs.reverse ++ stack, vs.length :: counts⟩ o.symbol =
      (m.apply o vs).map fun v => ⟨v :: stack, counts⟩ := by
  have hmark : Mark.ofText? o.symbol = some (.operator o) := Mark.ofText?_text (.operator o)
  have hroom : vs.length ≤ (vs.reverse ++ stack).length := by
    rw [List.length_append, List.length_reverse]
    exact Nat.le_add_right _ _
  have htake : (vs.reverse ++ stack).take vs.length = vs.reverse :=
    List.take_left' List.length_reverse
  have hdrop : (vs.reverse ++ stack).drop vs.length = stack :=
    List.drop_left' List.length_reverse
  simp only [step, hmark, if_pos hroom, htake, hdrop, List.reverse_reverse]

end Calculator

namespace Expr

variable {α : Type} (m : Meaning α)

theorem length_meanings? {es : List Expr} {vs : List α} (h : meanings? m es = some vs) :
    vs.length = es.length := by
  induction es generalizing vs with
  | nil => cases h; rfl
  | cons e es ih =>
    obtain ⟨v, -, h⟩ := Option.bind_eq_some_iff.1 h
    obtain ⟨ws, hws, rfl⟩ := Option.map_eq_some_iff.1 h
    exact congrArg Nat.succ (ih hws)

mutual

/-- The words of an expression put its value on any stack, whatever words and counts are to come. -/
theorem run_postorder : (e : Expr) → ∀ (stack : List α) (counts : List Nat) (ws : List String),
    run m ⟨stack, e.counts ++ counts⟩ (e.postorder.map Label.text ++ ws) =
      (meaning? m e).bind fun v => run m ⟨v :: stack, counts⟩ ws
  | integer v, stack, counts, ws => by
    have hmark : Mark.ofText? (Label.integer v).text = some (.integer v) :=
      Mark.ofText?_text (.integer v)
    rw [postorder, List.map_singleton, List.singleton_append, run_cons, step, hmark]
    rfl
  | .var v, stack, counts, ws => by
    have hmark : Mark.ofText? (Label.var v).text = some (.var v) := Mark.ofText?_text (.var v)
    rw [postorder, List.map_singleton, List.singleton_append, run_cons, step, hmark]
    rfl
  | operation o es, stack, counts, ws => by
    rw [counts_operation, postorder, List.map_append, List.append_assoc, List.append_assoc,
      run_postorderAll es, meaning?, Option.bind_assoc]
    refine Option.bind_congr fun vs hvs => ?_
    rw [List.map_singleton, List.singleton_append, List.singleton_append, run_cons,
      ← length_meanings? m hvs]
    show (step m _ o.symbol).bind _ = _
    rw [step_operator, Option.bind_map]
    rfl

/-- The words of operands put their values on the stack, the last one on top. -/
theorem run_postorderAll : (es : List Expr) → ∀ (stack : List α) (counts : List Nat)
    (ws : List String),
    run m ⟨stack, countsAll es ++ counts⟩ ((postorderAll es).map Label.text ++ ws) =
      (meanings? m es).bind fun vs => run m ⟨vs.reverse ++ stack, counts⟩ ws
  | [], _, _, _ => rfl
  | e :: es, stack, counts, ws => by
    rw [countsAll, List.flatMap_cons, ← countsAll, postorderAll, List.map_append, List.append_assoc,
      List.append_assoc, run_postorder e, meanings?, Option.bind_assoc]
    refine Option.bind_congr fun v _ => ?_
    rw [run_postorderAll es, Option.bind_map]
    refine Option.bind_congr fun vs _ => ?_
    rw [Function.comp_apply, List.reverse_cons, List.append_assoc]
    rfl

end

/-- The calculator makes of a postfix text what the expression means, and ends with an empty stack
below it and no count left. -/
theorem run_postfixText (e : Expr) :
    run m ⟨[], e.counts⟩ (fields ' ' e.postfixText) = (meaning? m e).map fun v => ⟨[v], []⟩ := by
  have hrun := run_postorder m e [] [] []
  rw [List.append_nil, List.append_nil] at hrun
  rw [fields_postfixText, hrun, Option.map_eq_bind]
  rfl

mutual

theorem meaning?_atPoint (p : Point) : (e : Expr) → meaning? (.atPoint p) e = e.value? p
  | integer _ => rfl
  | .var _ => rfl
  | operation o es => by rw [meaning?, value?, meanings?_atPoint p es]; rfl

theorem meanings?_atPoint (p : Point) : (es : List Expr) →
    meanings? (.atPoint p) es = values? p es
  | [] => rfl
  | e :: es => by rw [meanings?, values?, meaning?_atPoint p e, meanings?_atPoint p es]

end

mutual

theorem meaning?_tree : (e : Expr) → meaning? .tree e = some e
  | integer _ => rfl
  | .var _ => rfl
  | operation o es => by rw [meaning?, meanings?_tree es]; rfl

theorem meanings?_tree : (es : List Expr) → meanings? .tree es = some es
  | [] => rfl
  | e :: es => by rw [meanings?, meaning?_tree e, meanings?_tree es]; rfl

end

/-! ### What postfix text tells -/

/-- The marks of the nodes in post-order. -/
def marks (e : Expr) : List Mark := e.postorder.map Label.mark

/-- No operator of the expression takes any number of operands. -/
def FixedArity (e : Expr) : Prop := ∀ o, Mark.operator o ∈ e.marks → o.arity ≠ .variadic

theorem marks_eq_of_postfixText {e f : Expr} (h : e.postfixText = f.postfixText) :
    e.marks = f.marks := by
  have hwords : ∀ g : Expr, fields ' ' g.postfixText = g.marks.map Mark.text := by
    intro g
    rw [fields_postfixText, marks, List.map_map]
    exact List.map_congr_left fun l _ => l.text_eq_text_mark
  refine List.map_injective_iff.2 (fun _ _ => Mark.text_injective) ?_
  rw [← hwords, ← hwords, h]

/-- The operand counts of a well-formed expression fit its operators. -/
theorem WellFormed.accepts_of_mem_postorder {e : Expr} (h : e.WellFormed) {o : Operator}
    {count : Nat} : Label.operation o count ∈ e.postorder → o.arity.Accepts count := by
  induction h with
  | integer v => simp [postorder]
  | var v => simp [postorder]
  | @operation p es fits _ ih =>
    rw [postorder, List.mem_append, List.mem_singleton]
    rintro (hmem | hroot)
    · have hall : ∀ fs : List Expr, (∀ f ∈ fs, f ∈ es) →
          Label.operation o count ∈ postorderAll fs → o.arity.Accepts count := by
        intro fs
        induction fs with
        | nil => exact fun _ h => absurd h List.not_mem_nil
        | cons f fs ihfs =>
          intro hfs h
          obtain ⟨hf, hfs⟩ := List.forall_mem_cons.1 hfs
          rw [postorderAll, List.mem_append] at h
          exact h.elim (ih f hf) (ihfs hfs)
      exact hall es (fun _ hf => hf) hmem
    · obtain ⟨rfl, rfl⟩ := Label.operation.inj hroot
      exact fits

/-- Where no operator takes any number of operands, the operators tell all counts. -/
theorem counts_of_fixedArity {e : Expr} (h : e.WellFormed) (hfixed : e.FixedArity) :
    e.counts = e.marks.filterMap Mark.count? := by
  rw [counts, marks, List.filterMap_map]
  refine List.filterMap_congr fun l hl => ?_
  cases l with
  | integer v => rfl
  | var v => rfl
  | operation o count =>
    have haccepts := h.accepts_of_mem_postorder hl
    have hnot := hfixed o (List.mem_map_of_mem hl)
    rw [Function.comp_apply, Label.mark, Mark.count?, Label.count?]
    cases harity : o.arity with
    | fixed n =>
      rw [harity] at haccepts
      exact congrArg some haccepts
    | variadic => exact absurd harity hnot

/-- The expression is put together again from its postfix text and its counts. -/
theorem eq_of_postfixText {e f : Expr} (htext : e.postfixText = f.postfixText)
    (hcounts : e.counts = f.counts) : e = f := by
  have he := run_postfixText .tree e
  have hf := run_postfixText .tree f
  rw [htext, hcounts, hf, meaning?_tree, meaning?_tree] at he
  injection he with he
  injection he with hstack
  exact (List.cons.inj hstack).1.symm

/-- Postfix text is a program for a stack, in which each operator takes as many values as the operation
has operands, the operations being counted in post-order. No word of a well-formed expression's text
lacks values, and in the end the expression's value is all there is. The text with the counts is of this
expression only; and if no operator takes any number of operands, the text alone is. -/
theorem postfix_program {e : Expr} (h : e.WellFormed) :
    (∀ p, ∃ v, e.value? p = some v ∧
      run (.atPoint p) ⟨[], e.counts⟩ (fields ' ' e.postfixText) = some ⟨[v], []⟩) ∧
      (∀ f : Expr, e.postfixText = f.postfixText ∧ e.counts = f.counts ↔ e = f) ∧
      (e.FixedArity → ∀ f : Expr, f.WellFormed → (e.postfixText = f.postfixText ↔ e = f)) := by
  refine ⟨fun p => ?_, fun f => ?_, fun hfixed f hf => ?_⟩
  · obtain ⟨v, hv⟩ := Option.isSome_iff_exists.1 (isSome_value? h p)
    refine ⟨v, hv, ?_⟩
    rw [run_postfixText, meaning?_atPoint, hv]
    rfl
  · constructor
    · exact fun ⟨htext, hcounts⟩ => eq_of_postfixText htext hcounts
    · rintro rfl
      exact ⟨rfl, rfl⟩
  · constructor
    · intro htext
      have hmarks := marks_eq_of_postfixText htext
      -- the operators are the same, so those of the other expression take fixed numbers too
      have hfixed' : f.FixedArity := by
        rw [FixedArity, ← hmarks]
        exact hfixed
      refine eq_of_postfixText htext ?_
      rw [counts_of_fixedArity h hfixed, counts_of_fixedArity hf hfixed', hmarks]
    · rintro rfl
      rfl

/-- A negated quotient of a mean of four, and a difference, whose operator takes two operands always. -/
theorem postfix_program_of_quotient :
    let mean : Expr := .operation .harmonicMean [.var .x, .var .y, .integer (-3), .var .z]
    let e : Expr := .operation .negate [.operation .divide [mean, .integer 2]]
    let d : Expr := .operation .subtract [.var .x, .integer (-3)]
    (e.WellFormed ∧ fields ' ' e.postfixText = ["x", "y", "-3", "z", "harm-mean", "2", "/", "negate"] ∧
      e.counts = [4, 2, 1] ∧ ∃ v, e.value? ⟨1, 2, 4⟩ = some v ∧
        run (.atPoint ⟨1, 2, 4⟩) ⟨[], e.counts⟩ (fields ' ' e.postfixText) = some ⟨[v], []⟩) ∧
      d.WellFormed ∧ d.FixedArity ∧
        ∀ f : Expr, f.WellFormed → (d.postfixText = f.postfixText ↔ d = f) := by
  intro mean e d
  have hmean : mean.WellFormed := by
    refine .operation (by decide) (List.forall_mem_cons.2 ⟨.var _, List.forall_mem_cons.2 ⟨.var _, ?_⟩⟩)
    exact List.forall_mem_cons.2 ⟨.integer _, List.forall_mem_singleton.2 (.var _)⟩
  have he : e.WellFormed := by
    refine .operation (by decide) (List.forall_mem_singleton.2 (.operation (by decide) ?_))
    exact List.forall_mem_cons.2 ⟨hmean, List.forall_mem_singleton.2 (.integer _)⟩
  have hd : d.WellFormed := .operation (by decide)
    (List.forall_mem_cons.2 ⟨.var _, List.forall_mem_singleton.2 (.integer _)⟩)
  have hfixed : d.FixedArity := by
    intro o ho
    have hsubtract : o = .subtract := by simpa [d, marks, postorder, postorderAll, Label.mark] using ho
    rw [hsubtract]
    decide
  exact ⟨⟨he, by decide +kernel, rfl, (postfix_program he).1 _⟩, hd, hfixed,
    (postfix_program hd).2.2 hfixed⟩

/-- Two means of one text, which only the counts tell apart. -/
example :
    let inner : Expr := .operation .arithmeticMean [.var .x, .operation .arithmeticMean [.var .y]]
    let outer : Expr := .operation .arithmeticMean [.operation .arithmeticMean [.var .x, .var .y]]
    inner.postfixText = outer.postfixText ∧ inner.counts = [1, 2] ∧ outer.counts = [2, 1] := by
  decide

end Expr

end Polish

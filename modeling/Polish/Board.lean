import Polish.Expr.Drawing

/-!
A board for drawing trees. Strokes begin a node, add a node without children and end the node begun
last, which becomes a child of the one begun before it; the board is begun with a title, below which all
else is drawn. Main statement: `text?_strokes`, a walk over an expression begins and ends nodes in
balance, and what is on the board in the end is the expression's drawing.

    begin "negate"   expression ▸ negate
    leaf "x"         expression ▸ negate ▸ x
    finish           expression ▸ negate
-/

namespace Polish

/-- A tree of texts. -/
inductive Outline where
  | node (text : String) (children : List Outline)

namespace Outline

open Expr.Row

mutual

/-- The lines of a tree: its own behind the indent, those below it behind an indent that has grown. -/
def textBelow (indent : String) (follows : Bool) : Outline → String
  | node text children =>
    indent ++ branchCell follows ++ text ++ "\n" ++
      textBelowAll (indent ++ ancestorCell follows) children

/-- The lines of siblings, of which the last is followed by none. -/
def textBelowAll (indent : String) : List Outline → String
  | [] => ""
  | o :: os => textBelow indent (!os.isEmpty) o ++ textBelowAll indent os

end

/-- The lines of a tree with its root for a title. -/
def text : Outline → String
  | node title children => title ++ "\n" ++ textBelowAll "" children

end Outline

/-- What is done to a board. -/
inductive Stroke where
  | begin (text : String)
  | leaf (text : String)
  | finish

/-- The node begun last, with its children so far, and those begun before it, the last one first. -/
structure Board where
  inner : Outline
  outer : List Outline

namespace Board

/-- A board with nothing on it but a title. -/
def titled (title : String) : Board := ⟨.node title [], []⟩

/-- Adds a child to the node begun last. -/
def add (b : Board) (child : Outline) : Board :=
  match b.inner with
  | .node text children => ⟨.node text (children ++ [child]), b.outer⟩

/-- The board after a stroke: none if the title itself were to be ended. -/
def stroke (b : Board) : Stroke → Option Board
  | .begin text => some ⟨.node text [], b.inner :: b.outer⟩
  | .leaf text => some (b.add (.node text []))
  | .finish =>
    match b.outer with
    | [] => none
    | o :: outer => some (add ⟨o, outer⟩ b.inner)

/-- The board after a row of strokes. -/
def run (b : Board) (strokes : List Stroke) : Option Board := strokes.foldlM stroke b

/-- What is drawn on the board: none while a node is begun and not ended. -/
def text? (b : Board) : Option String :=
  match b.outer with
  | [] => some b.inner.text
  | _ :: _ => none

theorem run_nil (b : Board) : b.run [] = some b := rfl

theorem run_cons (b : Board) (s : Stroke) (ss : List Stroke) :
    b.run (s :: ss) = (b.stroke s).bind fun b' => b'.run ss := rfl

end Board

namespace Expr

mutual

/-- The strokes of a walk over an expression: an operation is begun, its operands are walked over one
after another, and it is ended. -/
def strokes : Expr → List Stroke
  | integer v => [.leaf (Numeral.text v)]
  | .var v => [.leaf v.name]
  | operation o es => .begin o.symbol :: strokesAll es ++ [.finish]

def strokesAll : List Expr → List Stroke
  | [] => []
  | e :: es => strokes e ++ strokesAll es

end

mutual

/-- What the walk over an expression draws. -/
def outline : Expr → Outline
  | integer v => .node (Numeral.text v) []
  | .var v => .node v.name []
  | operation o es => .node o.symbol (outlines es)

def outlines : List Expr → List Outline
  | [] => []
  | e :: es => outline e :: outlines es

end

/-- Adding several children. -/
theorem foldl_add (text : String) (children os : List Outline) (outer : List Outline) :
    os.foldl Board.add ⟨.node text children, outer⟩ = ⟨.node text (children ++ os), outer⟩ := by
  induction os generalizing children with
  | nil => rw [List.foldl_nil, List.append_nil]
  | cons o os ih =>
    rw [List.foldl_cons, Board.add, ih, List.append_assoc, List.singleton_append]

mutual

/-- The strokes of an expression add one child, whatever strokes are to come. -/
theorem run_strokes : (e : Expr) → ∀ (b : Board) (more : List Stroke),
    b.run (e.strokes ++ more) = (b.add e.outline).run more
  | integer _, _, _ => rfl
  | .var _, _, _ => rfl
  | operation o es, b, more => by
    have hstrokes : (operation o es).strokes ++ more =
        .begin o.symbol :: (strokesAll es ++ .finish :: more) := by
      rw [strokes, List.cons_append, List.cons_append, List.append_assoc, List.singleton_append]
    rw [hstrokes, Board.run_cons, Board.stroke, Option.bind_some, run_strokesAll es, foldl_add,
      List.nil_append]
    rfl

/-- The strokes of operands add a child each. -/
theorem run_strokesAll : (es : List Expr) → ∀ (b : Board) (more : List Stroke),
    b.run (strokesAll es ++ more) = ((outlines es).foldl Board.add b).run more
  | [], _, _ => rfl
  | e :: es, b, more => by
    rw [strokesAll, List.append_assoc, run_strokes e, run_strokesAll es]
    rfl

end

theorem isEmpty_outlines (es : List Expr) : (outlines es).isEmpty = es.isEmpty := by
  cases es <;> rfl

/-- What stands in front of the cell of a node: a cell for each ancestor. -/
def indent (ancestors : List Bool) : String := String.join (ancestors.map Row.ancestorCell)

theorem join_singleton (text : String) : String.join [text] = text := by
  rw [String.join_cons, String.join_nil, String.append_empty]

theorem indent_append (ancestors : List Bool) (follows : Bool) :
    indent (ancestors ++ [follows]) = indent ancestors ++ Row.ancestorCell follows := by
  rw [indent, List.map_append, String.join_append, List.map_singleton, join_singleton, indent]

mutual

theorem textBelow_outline : (e : Expr) → ∀ (ancestors : List Bool) (follows : Bool),
    e.outline.textBelow (indent ancestors) follows =
      String.join ((rowsBelow ancestors follows e).map fun r => r.text ++ "\n")
  | integer v, _, _ => by
    rw [outline, Outline.textBelow, Outline.textBelowAll, rowsBelow, List.map_singleton,
      join_singleton, String.append_empty]
    rfl
  | .var v, _, _ => by
    rw [outline, Outline.textBelow, Outline.textBelowAll, rowsBelow, List.map_singleton,
      join_singleton, String.append_empty]
    rfl
  | operation o es, ancestors, follows => by
    rw [outline, Outline.textBelow, ← indent_append, textBelowAll_outlines es, rowsBelow,
      List.map_cons, String.join_cons]
    rfl

theorem textBelowAll_outlines : (es : List Expr) → ∀ ancestors : List Bool,
    Outline.textBelowAll (indent ancestors) (outlines es) =
      String.join ((rowsBelowAll ancestors es).map fun r => r.text ++ "\n")
  | [], _ => rfl
  | e :: es, ancestors => by
    rw [outlines, Outline.textBelowAll, isEmpty_outlines, textBelow_outline e,
      textBelowAll_outlines es, rowsBelowAll, List.map_append, String.join_append]

end

theorem text?_strokes (e : Expr) :
    ((Board.titled "expression").run e.strokes).bind Board.text? = some e.drawing := by
  have hrun := run_strokes e (.titled "expression") []
  rw [List.append_nil, Board.run_nil] at hrun
  have hbelow : e.outline.textBelow "" false = String.join (e.rows.map fun r => r.text ++ "\n") :=
    textBelow_outline e [] false
  rw [hrun, Option.bind_some]
  show some ("expression" ++ "\n" ++ (e.outline.textBelow "" false ++ "")) = _
  rw [hbelow, String.append_empty, drawing]
  rfl

end Expr

end Polish

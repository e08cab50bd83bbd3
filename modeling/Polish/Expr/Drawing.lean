import Polish.Expr

/-!
Drawing an expression as an indented tree: a title line, then one line for each node in pre-order. In
front of a label stands a cell of three characters for each ancestor and one for the node itself,
which say whether that ancestor, or the node, has a sibling further down. Main statement:
`map_label_rows`, the lines carry the labels of the nodes in pre-order.
-/

namespace Polish.Expr

/-- A line of a drawing: for each ancestor, the root first, and for the node itself whether a sibling
follows below, and the node's label. -/
structure Row where
  ancestors : List Bool
  follows : Bool
  label : Label
  deriving DecidableEq

namespace Row

/-- A line runs on down to an ancestor's next sibling. -/
def ancestorCell (follows : Bool) : String := if follows then "│  " else "   "

/-- A branch to a node ends the line unless a sibling follows. -/
def branchCell (follows : Bool) : String := if follows then "├─ " else "└─ "

def text (r : Row) : String :=
  String.join (r.ancestors.map ancestorCell) ++ branchCell r.follows ++ r.label.text

end Row

mutual

/-- The lines of a tree below the given ancestors. -/
def rowsBelow (ancestors : List Bool) (follows : Bool) : Expr → List Row
  | integer v => [⟨ancestors, follows, .integer v⟩]
  | .var v => [⟨ancestors, follows, .var v⟩]
  | operation o es =>
    ⟨ancestors, follows, .operation o es.length⟩ :: rowsBelowAll (ancestors ++ [follows]) es

/-- The lines of siblings, of which the last is followed by none. -/
def rowsBelowAll (ancestors : List Bool) : List Expr → List Row
  | [] => []
  | e :: es => rowsBelow ancestors (!es.isEmpty) e ++ rowsBelowAll ancestors es

end

/-- The lines of a whole drawing: the root is the only child of the title. -/
def rows (e : Expr) : List Row := rowsBelow [] false e

/-- The drawing, each line ended by a line feed. -/
def drawing (e : Expr) : String :=
  "expression\n" ++ String.join (e.rows.map fun r => r.text ++ "\n")

theorem map_label_rowsBelow (e : Expr) : ∀ (ancestors : List Bool) (follows : Bool) (depth : Nat),
    (rowsBelow ancestors follows e).map Row.label = (preorder depth e).map Prod.snd := by
  induction e using recOperands with
  | integer => intros; rfl
  | var => intros; rfl
  | operation o es ih =>
    intro ancestors follows depth
    suffices h : ∀ ancestors, (rowsBelowAll ancestors es).map Row.label
        = (preorderAll (depth + 1) es).map Prod.snd by
      simp [rowsBelow, preorder, h]
    induction es with
    | nil => intro; rfl
    | cons e es ihs =>
      intro ancestors
      simp [rowsBelowAll, preorderAll, ih e List.mem_cons_self ancestors (!es.isEmpty) (depth + 1),
        ihs fun f hf => ih f (List.mem_cons_of_mem e hf)]

theorem map_label_rows (e : Expr) : e.rows.map Row.label = (e.preorder 0).map Prod.snd :=
  map_label_rowsBelow e [] false 0

end Polish.Expr

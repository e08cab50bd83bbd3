import Polish.Board
import Polish.Expr.Path
import Polish.Proofs.Labels
import Polish.Text.Fields

/-!
Drawings tell the expression. The lines of a drawing are those of the nodes, each told by the path to
the node; a line can be taken apart into its cells and its label, and the depths and labels of the
nodes in pre-order leave no choice of the tree. Main statement: `drawing_faithful`, what the walk over
an expression draws, line by line, and that no other expression has the same drawing.

    "│  └─ x"   cells "│  " "└─ "   label "x"   depth 1
-/

namespace Polish

open Text

namespace Expr

/-! ### Lines and nodes -/

/-- The line of a node below an expression that stands below the given ancestors. -/
def rowAt (ancestors : List Bool) (follows : Bool) (e : Expr) (n : List Nat × Expr) : Row where
  ancestors := ancestors ++ (List.range n.1.length).map fun j => e.followed follows (n.1.take j)
  follows := e.followed follows n.1
  label := n.2.label

theorem rowAt_root (ancestors : List Bool) (follows : Bool) (e : Expr) :
    rowAt ancestors follows e ([], e) = ⟨ancestors, follows, e.label⟩ := by
  rw [rowAt, List.length_nil, List.range_zero, List.map_nil, List.append_nil]
  rfl

/-- Seen from an operand, the operation is one more ancestor. -/
theorem rowAt_operand (ancestors : List Bool) (follows : Bool) {e f : Expr} {i : Nat}
    (h : e.operands[i]? = some f) (n : List Nat × Expr) :
    rowAt ancestors follows e (i :: n.1, n.2) =
      rowAt (ancestors ++ [follows]) (i + 1 < e.operands.length) f n := by
  have hfollowed (path : List Nat) :
      e.followed follows (i :: path) = f.followed (i + 1 < e.operands.length) path := by
    rw [followed, h]
  rw [rowAt, rowAt, List.length_cons, List.range_succ_eq_map, List.map_cons, List.map_map,
    List.append_assoc, List.singleton_append, List.take_zero, followed, hfollowed]
  simp only [Function.comp_def, Nat.succ_eq_add_one, List.take_succ_cons, hfollowed]

mutual

theorem rowsBelow_eq : (e : Expr) → ∀ (ancestors : List Bool) (follows : Bool),
    rowsBelow ancestors follows e = e.nodes.map (rowAt ancestors follows e)
  | integer v, ancestors, follows => by
    rw [nodes, List.map_singleton, rowAt_root]
    rfl
  | .var v, ancestors, follows => by
    rw [nodes, List.map_singleton, rowAt_root]
    rfl
  | operation o es, ancestors, follows => by
    rw [rowsBelow, nodes, List.map_cons, rowAt_root]
    exact congrArg _ (rowsBelowAll_eq es ancestors follows o [])

theorem rowsBelowAll_eq : (es : List Expr) → ∀ (ancestors : List Bool) (follows : Bool)
    (o : Operator) (front : List Expr),
    rowsBelowAll (ancestors ++ [follows]) es =
      (nodesFrom front.length es).map (rowAt ancestors follows (operation o (front ++ es)))
  | [], _, _, _, _ => rfl
  | e :: es, ancestors, follows, o, front => by
    -- the operands passed stay in the tree, so that the numbers of the others are their places in it
    have hrest := rowsBelowAll_eq es ancestors follows o (front ++ [e])
    have hlast : (!es.isEmpty) = decide (front.length + 1 < (front ++ e :: es).length) := by
      cases es <;> simp
    have hoperand : (operation o (front ++ e :: es)).operands[front.length]? = some e :=
      (List.getElem?_append_right (Nat.le_refl _)).trans (by rw [Nat.sub_self]; rfl)
    rw [List.append_assoc, List.singleton_append, List.length_append, List.length_singleton] at hrest
    rw [rowsBelowAll, rowsBelow_eq e, hrest, nodesFrom, List.map_append, List.map_map, hlast]
    congr 1
    exact List.map_congr_left fun n _ => (rowAt_operand ancestors follows hoperand n).symm

end

theorem text_rowAt (e : Expr) (n : List Nat × Expr) :
    (rowAt [] false e n).text = e.line n.1 n.2 := by
  rw [Row.text, rowAt, List.nil_append, List.map_map, line, followed_false]
  simp only [Function.comp_def, followed_false, Row.ancestorCell, Row.branchCell, decide_eq_true_eq]

theorem map_text_rows (e : Expr) : e.rows.map Row.text = e.nodes.map fun n => e.line n.1 n.2 := by
  rw [rows, rowsBelow_eq, List.map_map]
  exact List.map_congr_left fun n _ => text_rowAt e n

theorem map_label_text_nodes (e : Expr) :
    e.nodes.map (fun n => n.2.label.text) = (e.preorder 0).map fun n => n.2.text := by
  have hlabels : e.nodes.map (fun n => n.2.label) = (e.preorder 0).map Prod.snd := by
    rw [← map_label_rows, rows, rowsBelow_eq, List.map_map]
    rfl
  have htexts := congrArg (List.map Label.text) hlabels
  rwa [List.map_map, List.map_map] at htexts

/-! ### The lines of the text -/

theorem newline_not_mem_text (r : Row) : '\n' ∉ r.text.toList := by
  have hcells (follows : Bool) : '\n' ∉ (Row.ancestorCell follows).toList ∧
      '\n' ∉ (Row.branchCell follows).toList := by cases follows <;> decide
  have hindent : '\n' ∉ (String.join (r.ancestors.map Row.ancestorCell)).toList := by
    rw [String.toList_join, List.flatMap_map]
    intro h
    obtain ⟨follows, -, hmem⟩ := List.mem_flatMap.1 h
    exact (hcells follows).1 hmem
  rw [Row.text, String.toList_append, String.toList_append, List.mem_append, List.mem_append]
  exact not_or_intro (not_or_intro hindent (hcells r.follows).2) (r.label.word_text.not_mem rfl)

theorem fields_drawing (e : Expr) :
    fields '\n' e.drawing = "expression" :: e.rows.map Row.text ++ [""] := by
  have hlines : ∀ t ∈ e.rows.map Row.text, '\n' ∉ t.toList := by
    intro t ht
    obtain ⟨r, -, rfl⟩ := List.mem_map.1 ht
    exact newline_not_mem_text r
  have hend : fields '\n' "" = [""] := fields_of_not_mem (by decide)
  have hjoined := fields_joined hlines ""
  rw [List.map_map, String.append_empty, hend] at hjoined
  have htitle : "expression\n" = "expression" ++ String.singleton '\n' := by decide
  rw [drawing, htitle, fields_append (by decide)]
  exact congrArg _ hjoined

/-! ### Taking a line apart -/

theorem append_inj_of_length {c d s t : String} (h : c ++ s = d ++ t)
    (hlength : c.toList.length = d.toList.length) : c = d ∧ s = t := by
  have hlists := congrArg String.toList h
  rw [String.toList_append, String.toList_append] at hlists
  obtain ⟨hcell, hrest⟩ := List.append_inj hlists hlength
  exact ⟨String.toList_injective hcell, String.toList_injective hrest⟩

theorem length_ancestorCell (follows : Bool) : (Row.ancestorCell follows).toList.length = 3 := by
  cases follows <;> decide

theorem length_branchCell (follows : Bool) : (Row.branchCell follows).toList.length = 3 := by
  cases follows <;> decide

theorem ancestorCell_injective {a b : Bool} (h : Row.ancestorCell a = Row.ancestorCell b) : a = b := by
  revert a b
  decide

theorem branchCell_injective {a b : Bool} (h : Row.branchCell a = Row.branchCell b) : a = b := by
  revert a b
  decide

/-- A cell of an ancestor does not end the cells. -/
theorem ancestorCell_ne_branchCell (a b : Bool) : Row.ancestorCell a ≠ Row.branchCell b := by
  revert a b
  decide

theorem indent_cons (follows : Bool) (ancestors : List Bool) :
    indent (follows :: ancestors) = Row.ancestorCell follows ++ indent ancestors := by
  rw [indent, List.map_cons, String.join_cons, indent]

/-- A line shows for each ancestor and for the node whether a sibling follows, and the label. -/
theorem cells_inj {as bs : List Bool} {a b : Bool} {s t : String}
    (h : indent as ++ (Row.branchCell a ++ s) = indent bs ++ (Row.branchCell b ++ t)) :
    as = bs ∧ a = b ∧ s = t := by
  have hnil : indent [] = "" := String.join_nil
  induction as generalizing bs with
  | nil =>
    cases bs with
    | nil =>
      rw [hnil, String.empty_append, String.empty_append] at h
      obtain ⟨hcell, hrest⟩ :=
        append_inj_of_length h ((length_branchCell a).trans (length_branchCell b).symm)
      exact ⟨rfl, branchCell_injective hcell, hrest⟩
    | cons c bs =>
      rw [hnil, String.empty_append, indent_cons, String.append_assoc] at h
      have hcell :=
        (append_inj_of_length h ((length_branchCell a).trans (length_ancestorCell c).symm)).1
      exact absurd hcell.symm (ancestorCell_ne_branchCell c a)
  | cons c as ih =>
    cases bs with
    | nil =>
      rw [hnil, String.empty_append, indent_cons, String.append_assoc] at h
      have hcell :=
        (append_inj_of_length h ((length_ancestorCell c).trans (length_branchCell b).symm)).1
      exact absurd hcell (ancestorCell_ne_branchCell c b)
    | cons d bs =>
      rw [indent_cons, indent_cons, String.append_assoc, String.append_assoc] at h
      obtain ⟨hcell, hrest⟩ :=
        append_inj_of_length h ((length_ancestorCell c).trans (length_ancestorCell d).symm)
      obtain ⟨rfl, hab, hst⟩ := ih hrest
      exact ⟨by rw [ancestorCell_injective hcell], hab, hst⟩

/-- What a line tells of its node: the depth and the mark. -/
def Row.told (r : Row) : Nat × Mark := (r.ancestors.length, r.label.mark)

theorem Row.told_eq_of_text {r r' : Row} (h : r.text = r'.text) : r.told = r'.told := by
  rw [Row.text, Row.text, String.append_assoc, String.append_assoc] at h
  obtain ⟨hancestors, -, hlabel⟩ := cells_inj h
  rw [Label.text_eq_text_mark, Label.text_eq_text_mark] at hlabel
  rw [Row.told, Row.told, hancestors, Mark.text_injective hlabel]

theorem map_told_of_text : ∀ {rs ss : List Row}, rs.map Row.text = ss.map Row.text →
    rs.map Row.told = ss.map Row.told
  | [], [], _ => rfl
  | r :: rs, s :: ss, h => by
    obtain ⟨hr, hrs⟩ := List.cons.inj h
    rw [List.map_cons, List.map_cons, Row.told_eq_of_text hr, map_told_of_text hrs]

/-! ### Depths and marks in pre-order -/

/-- The nodes in pre-order, each with its depth and its mark. -/
def told (depth : Nat) (e : Expr) : List (Nat × Mark) :=
  (e.preorder depth).map fun n => (n.1, n.2.mark)

/-- The nodes of siblings. -/
def toldAll (depth : Nat) (es : List Expr) : List (Nat × Mark) := es.flatMap (told depth)

theorem toldAll_cons (depth : Nat) (e : Expr) (es : List Expr) :
    toldAll depth (e :: es) = e.told depth ++ toldAll depth es := List.flatMap_cons

theorem told_eq (depth : Nat) (e : Expr) :
    e.told depth = (depth, e.label.mark) :: toldAll (depth + 1) e.operands := by
  have hall (es : List Expr) : (preorderAll (depth + 1) es).map (fun n => (n.1, n.2.mark)) =
      toldAll (depth + 1) es := by
    induction es with
    | nil => rfl
    | cons e es ih => rw [preorderAll, List.map_append, ih]; rfl
  cases e with
  | integer v => rfl
  | var v => rfl
  | operation o es => rw [told, preorder, List.map_cons, hall]; rfl

mutual

theorem map_told_rowsBelow : (e : Expr) → ∀ (ancestors : List Bool) (follows : Bool),
    (rowsBelow ancestors follows e).map Row.told = e.told ancestors.length
  | integer v, _, _ => rfl
  | .var v, _, _ => rfl
  | operation o es, ancestors, follows => by
    rw [rowsBelow, List.map_cons, map_told_rowsBelowAll es, told_eq, List.length_append]
    rfl

theorem map_told_rowsBelowAll : (es : List Expr) → ∀ ancestors : List Bool,
    (rowsBelowAll ancestors es).map Row.told = toldAll ancestors.length es
  | [], _ => rfl
  | e :: es, ancestors => by
    rw [rowsBelowAll, List.map_append, map_told_rowsBelow e, map_told_rowsBelowAll es]
    rfl

end

/-- Whether a row of nodes, if it goes on, goes on above the given depth. -/
def Above (depth : Nat) (more : List (Nat × Mark)) : Prop := ∀ n ∈ more.head?, n.1 < depth

theorem above_nil (depth : Nat) : Above depth [] := fun _ h => absurd h (Option.not_mem_none _)

theorem above_told {depth bound : Nat} {e : Expr} {more : List (Nat × Mark)} :
    Above bound (e.told depth ++ more) ↔ depth < bound := by
  rw [Above, told_eq, List.cons_append, List.head?_cons]
  simp only [Option.mem_some_iff, forall_eq']

theorem above_toldAll {depth : Nat} {more : List (Nat × Mark)} (h : Above depth more)
    (es : List Expr) : Above (depth + 1) (toldAll depth es ++ more) := by
  cases es with
  | nil => exact fun n hn => Nat.lt_succ_of_lt (h n hn)
  | cons e es =>
    rw [toldAll_cons, List.append_assoc]
    exact above_told.2 (Nat.lt_succ_self depth)

theorem not_above_toldAll {depth : Nat} {e : Expr} {es : List Expr} {more : List (Nat × Mark)} :
    ¬Above depth (toldAll depth (e :: es) ++ more) := by
  rw [toldAll_cons, List.append_assoc, above_told]
  exact Nat.lt_irrefl depth

/-- No other expression has the same nodes, whatever nodes of no greater depth than its root follow. -/
def Recovered (e : Expr) : Prop := ∀ (f : Expr) (depth : Nat) (more more' : List (Nat × Mark)),
  Above (depth + 1) more → Above (depth + 1) more' →
    e.told depth ++ more = f.told depth ++ more' → e = f ∧ more = more'

theorem recovered_operands {es : List Expr} (h : ∀ e ∈ es, Recovered e) :
    ∀ (fs : List Expr) (depth : Nat) (more more' : List (Nat × Mark)),
      Above depth more → Above depth more' →
        toldAll depth es ++ more = toldAll depth fs ++ more' → es = fs ∧ more = more' := by
  induction es with
  | nil =>
    intro fs depth more more' hmore _ heq
    cases fs with
    | nil => exact ⟨rfl, heq⟩
    -- a further operand would begin at the depth that the rest stays above
    | cons f fs => exact absurd (heq.subst (motive := Above depth) hmore) not_above_toldAll
  | cons e es ih =>
    obtain ⟨he, hes⟩ := List.forall_mem_cons.1 h
    intro fs depth more more' hmore hmore' heq
    cases fs with
    | nil => exact absurd (heq.symm.subst (motive := Above depth) hmore') not_above_toldAll
    | cons f fs =>
      rw [toldAll_cons, toldAll_cons, List.append_assoc, List.append_assoc] at heq
      obtain ⟨rfl, hrest⟩ := he f depth _ _ (above_toldAll hmore es) (above_toldAll hmore' fs) heq
      obtain ⟨rfl, rfl⟩ := ih hes fs depth more more' hmore hmore' hrest
      exact ⟨rfl, rfl⟩

/-- A mark and operands make a tree. -/
theorem eq_of_mark_of_operands {e f : Expr} (hmark : e.label.mark = f.label.mark)
    (hoperands : e.operands = f.operands) : e = f := by
  cases e <;> cases f <;> simp_all [label, Label.mark, operands]

theorem recovered_of_operands {e : Expr} (h : ∀ f ∈ e.operands, Recovered f) : Recovered e := by
  intro f depth more more' hmore hmore' heq
  rw [told_eq, told_eq, List.cons_append, List.cons_append] at heq
  obtain ⟨hroot, hrest⟩ := List.cons.inj heq
  obtain ⟨hoperands, rfl⟩ := recovered_operands h f.operands _ _ _ hmore hmore' hrest
  exact ⟨eq_of_mark_of_operands (Prod.mk.inj hroot).2 hoperands, rfl⟩

theorem recovered (e : Expr) : Recovered e := by
  induction e using recOperands with
  | integer v => exact recovered_of_operands fun _ h => absurd h List.not_mem_nil
  | var v => exact recovered_of_operands fun _ h => absurd h List.not_mem_nil
  | operation o es ih => exact recovered_of_operands ih

theorem eq_of_drawing {e f : Expr} (h : e.drawing = f.drawing) : e = f := by
  have hfields := fields_drawing e
  rw [h, fields_drawing f] at hfields
  have hrows := map_told_of_text (List.append_cancel_right (List.cons.inj hfields).2)
  have htold : f.told 0 = e.told 0 := by
    rw [← List.length_nil (α := Bool), ← map_told_rowsBelow f [] false,
      ← map_told_rowsBelow e [] false]
    exact hrows
  refine (recovered e f 0 [] [] (above_nil 1) (above_nil 1) ?_).1
  rw [htold]

/-- The walk over an expression begins and ends nodes in balance, and the drawing made is a title and
one line for each node in pre-order: a cell for each ancestor, a bar if it has a later sibling; a cell
for the node itself, a corner unless it has one; and the label. The labels are the prefix text without
its parentheses. No other expression has this drawing. -/
theorem drawing_faithful (e : Expr) :
    ((Board.titled "expression").run e.strokes).bind Board.text? = some e.drawing ∧
      fields '\n' e.drawing = "expression" :: e.nodes.map (fun n => e.line n.1 n.2) ++ [""] ∧
      (∀ path f, (path, f) ∈ e.nodes ↔ e.at? path = some f) ∧
      e.nodes.Pairwise (fun m n => m.1 < n.1) ∧
      e.nodes.map (fun n => n.2.label.text) =
        (pieces e.prefixText.toList).filter (fun p => p ≠ "(" ∧ p ≠ ")") ∧
      ∀ f : Expr, e.drawing = f.drawing ↔ e = f := by
  refine ⟨text?_strokes e, ?_, fun _ _ => mem_nodes e, pairwise_nodes e, ?_, fun f => ?_⟩
  · rw [fields_drawing, map_text_rows]
  · rw [pieces_prefixText_eq_spelling]
    exact (map_label_text_nodes e).trans (filter_spelling e 0).symm
  · exact ⟨eq_of_drawing, congrArg drawing⟩

/-- The bar beside `x` leads down to `-3`. -/
example : (Expr.operation .subtract [.operation .negate [.var .x], .integer (-3)]).drawing =
    "expression\n└─ -\n   ├─ negate\n   │  └─ x\n   └─ -3\n" := by decide +kernel

end Expr

end Polish

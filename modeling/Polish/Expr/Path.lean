import Polish.Expr.Drawing

/-!
Nodes by their paths. A path from the root takes, at each operation it comes to, the operand with the
number it says. Main statements: `mem_nodes`, the nodes in pre-order are what stands at the paths;
`pairwise_nodes`, in pre-order the paths are in alphabetical order, a node in front of those below it
and the nodes below an operand in front of those below the next.

    subtract  []
    ├─ negate  [0]
    │  └─ x    [0, 0]
    └─ y       [1]
-/

namespace Polish.Expr

/-- The expression at a path. -/
def at? (e : Expr) : List Nat → Option Expr
  | [] => some e
  | i :: path => (e.operands[i]?).bind fun f => f.at? path

/-- Whether a sibling of the node at a path comes after it. -/
def HasLater (e : Expr) (path : List Nat) : Prop :=
  ∃ parent i j, path = parent ++ [i] ∧ i < j ∧ (e.at? (parent ++ [j])).isSome

mutual

/-- The nodes in pre-order: the path to each, and the expression that begins there. -/
def nodes : Expr → List (List Nat × Expr)
  | integer v => [([], integer v)]
  | .var v => [([], .var v)]
  | operation o es => ([], operation o es) :: nodesFrom 0 es

/-- The nodes below operands that are numbered from the given number on. -/
def nodesFrom (i : Nat) : List Expr → List (List Nat × Expr)
  | [] => []
  | e :: es => (nodes e).map (fun n => (i :: n.1, n.2)) ++ nodesFrom (i + 1) es

end

/-! ### Siblings -/

/-- Whether the node at a path has a later sibling, where that is told for the root. -/
def followed (follows : Bool) (e : Expr) : List Nat → Bool
  | [] => follows
  | i :: path =>
    match e.operands[i]? with
    | some f => f.followed (i + 1 < e.operands.length) path
    | none => false

theorem not_hasLater_nil (e : Expr) : ¬e.HasLater [] := by
  rintro ⟨parent, i, _, h, -⟩
  exact List.cons_ne_nil i [] (List.append_eq_nil_iff.1 h.symm).2

theorem hasLater_singleton {e : Expr} {i : Nat} :
    e.HasLater [i] ↔ i + 1 < e.operands.length := by
  have hat (j : Nat) : (e.at? [j]).isSome ↔ j < e.operands.length := by
    have hat : e.at? [j] = e.operands[j]? := Option.bind_fun_some _
    rw [hat, isSome_getElem?]
  constructor
  · rintro ⟨parent, k, j, hpath, hj, hsome⟩
    obtain ⟨rfl, hk⟩ : [] = parent ∧ [i] = [k] := List.append_inj' hpath rfl
    obtain rfl := List.singleton_inj.1 hk
    exact Nat.lt_of_le_of_lt hj ((hat j).1 hsome)
  · exact fun h => ⟨[], i, i + 1, rfl, Nat.lt_succ_self i, (hat (i + 1)).2 h⟩

theorem hasLater_cons {e : Expr} {i : Nat} {path : List Nat} (h : path ≠ []) :
    e.HasLater (i :: path) ↔ ∃ f, e.operands[i]? = some f ∧ f.HasLater path := by
  constructor
  · rintro ⟨_ | ⟨k, parent⟩, l, j, hpath, hj, hsome⟩
    · exact absurd (List.cons.inj hpath).2 h
    · obtain ⟨rfl, rfl⟩ := List.cons.inj hpath
      obtain ⟨g, hg⟩ := Option.isSome_iff_exists.1 hsome
      obtain ⟨f, hf, hat⟩ := Option.bind_eq_some_iff.1 hg
      exact ⟨f, hf, parent, l, j, rfl, hj, Option.isSome_of_eq_some hat⟩
  · rintro ⟨f, hf, parent, l, j, rfl, hj, hsome⟩
    refine ⟨i :: parent, l, j, rfl, hj, ?_⟩
    rw [List.cons_append, at?, hf]
    exact hsome

theorem followed_eq_true {e : Expr} {path : List Nat} (h : path ≠ []) (follows : Bool) :
    e.followed follows path = true ↔ e.HasLater path := by
  induction path generalizing e follows with
  | nil => exact absurd rfl h
  | cons i path ih =>
    rw [followed]
    cases path with
    | nil =>
      rw [hasLater_singleton]
      split
      · exact decide_eq_true_iff
      · rename_i hnone
        have hlong := List.getElem?_eq_none_iff.1 hnone
        exact iff_of_false Bool.false_ne_true (by omega)
    | cons k path =>
      rw [hasLater_cons (List.cons_ne_nil k path)]
      split
      · rename_i f hf
        rw [ih (List.cons_ne_nil k path)]
        simp only [hf, Option.some.injEq, exists_eq_left']
      · rename_i hnone
        simp only [hnone, Bool.false_eq_true, reduceCtorEq, false_and, exists_false]

theorem followed_false_eq_true {e : Expr} {path : List Nat} :
    e.followed false path = true ↔ e.HasLater path := by
  cases path with
  | nil => exact iff_of_false Bool.false_ne_true e.not_hasLater_nil
  | cons i path => exact followed_eq_true (List.cons_ne_nil i path) false

instance (e : Expr) (path : List Nat) : Decidable (e.HasLater path) :=
  decidable_of_iff _ followed_false_eq_true

theorem followed_false (e : Expr) (path : List Nat) :
    e.followed false path = decide (e.HasLater path) :=
  Bool.eq_iff_iff.2 (followed_false_eq_true.trans decide_eq_true_iff.symm)

/-- What is drawn for the node at a path, if this is the expression that begins there: for each node
above, a bar if it has a later sibling and a blank cell if not, then a branch to the node itself, and its
label. -/
def line (e : Expr) (path : List Nat) (f : Expr) : String :=
  String.join ((List.range path.length).map fun j =>
      if e.HasLater (path.take j) then "│  " else "   ") ++
    (if e.HasLater path then "├─ " else "└─ ") ++ f.label.text

/-! ### Pre-order -/

mutual

theorem mem_nodes : (e : Expr) → ∀ {path : List Nat} {f : Expr},
    (path, f) ∈ e.nodes ↔ e.at? path = some f
  | integer v, path, f => by
    cases path <;> simp [nodes, at?, operands, eq_comm]
  | .var v, path, f => by
    cases path <;> simp [nodes, at?, operands, eq_comm]
  | operation o es, [], f => by
    rw [nodes, List.mem_cons, mem_nodesFrom es]
    simp [at?, eq_comm]
  | operation o es, i :: path, f => by
    rw [nodes, List.mem_cons, mem_nodesFrom es, at?, Option.bind_eq_some_iff]
    constructor
    · rintro (hroot | ⟨k, below, g, hpath, hg, hat⟩)
      · cases hroot
      · rw [Nat.zero_add] at hpath
        cases hpath
        exact ⟨g, hg, hat⟩
    · rintro ⟨g, hg, hat⟩
      exact .inr ⟨i, path, g, by rw [Nat.zero_add], hg, hat⟩

theorem mem_nodesFrom : (es : List Expr) → ∀ {i : Nat} {path : List Nat} {f : Expr},
    (path, f) ∈ nodesFrom i es ↔
      ∃ k below g, path = (i + k) :: below ∧ es[k]? = some g ∧ g.at? below = some f
  | [], _, _, _ => by simp [nodesFrom]
  | e :: es, i, path, f => by
    rw [nodesFrom, List.mem_append, List.mem_map, mem_nodesFrom es]
    constructor
    · rintro (⟨⟨below, g⟩, hmem, heq⟩ | ⟨k, below, g, rfl, hg, hat⟩)
      · obtain ⟨rfl, rfl⟩ := Prod.mk.inj heq
        exact ⟨0, below, e, rfl, rfl, (mem_nodes e).1 hmem⟩
      · exact ⟨k + 1, below, g, by rw [Nat.add_right_comm]; rfl, hg, hat⟩
    · rintro ⟨k, below, g, rfl, hg, hat⟩
      cases k with
      | zero =>
        obtain rfl := Option.some.inj hg
        exact .inl ⟨(below, f), (mem_nodes e).2 hat, rfl⟩
      | succ k => exact .inr ⟨k, below, g, by rw [Nat.add_right_comm]; rfl, hg, hat⟩

end

/-- A path below operands that are numbered from some number on begins with a number from there on. -/
theorem le_of_mem_nodesFrom {es : List Expr} {i : Nat} {n : List Nat × Expr}
    (h : n ∈ nodesFrom i es) : ∃ k below, n.1 = k :: below ∧ i ≤ k := by
  obtain ⟨k, below, _, hpath, -⟩ := (mem_nodesFrom es).1 h
  exact ⟨i + k, below, hpath, Nat.le_add_right i k⟩

mutual

theorem pairwise_nodes : (e : Expr) → e.nodes.Pairwise fun m n => m.1 < n.1
  | integer _ => List.pairwise_singleton _ _
  | .var _ => List.pairwise_singleton _ _
  | operation o es => by
    rw [nodes, List.pairwise_cons]
    refine ⟨fun n hn => ?_, pairwise_nodesFrom 0 es⟩
    obtain ⟨k, below, hpath, -⟩ := le_of_mem_nodesFrom hn
    rw [hpath]
    exact List.nil_lt_cons k below

theorem pairwise_nodesFrom (i : Nat) :
    (es : List Expr) → (nodesFrom i es).Pairwise fun m n => m.1 < n.1
  | [] => .nil
  | e :: es => by
    rw [nodesFrom, List.pairwise_append, List.pairwise_map]
    refine ⟨?_, pairwise_nodesFrom (i + 1) es, ?_⟩
    · exact (pairwise_nodes e).imp fun h => List.cons_lt_cons_iff.2 (.inr ⟨rfl, h⟩)
    · intro m hm n hn
      obtain ⟨m, -, rfl⟩ := List.mem_map.1 hm
      obtain ⟨k, below, hpath, hk⟩ := le_of_mem_nodesFrom hn
      rw [hpath]
      exact List.cons_lt_cons_iff.2 (.inl hk)

end

end Polish.Expr

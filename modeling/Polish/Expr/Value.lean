import Polish.Expr
import Polish.Operator.Reduction

/-!
The value of an expression at a point. Main statement: `isSome_value?`, a well-formed expression has a
value everywhere.
-/

namespace Polish.Expr

mutual

/-- The value at a point: none if an operation in the tree lacks operands. -/
def value? (p : Point) : Expr → Option Float
  | integer v => some (Float.ofInt v.toInt)
  | .var v => some (p.value v)
  | operation o es => (values? p es).bind o.reduce?

/-- The values of operands in order, if all have one. -/
def values? (p : Point) : List Expr → Option (List Float)
  | [] => some []
  | e :: es => (value? p e).bind fun v => (values? p es).map (v :: ·)

end

theorem values?_eq_some {p : Point} {es : List Expr} (h : ∀ e ∈ es, (e.value? p).isSome) :
    ∃ vs, values? p es = some vs ∧ vs.length = es.length := by
  induction es with
  | nil => exact ⟨[], rfl, rfl⟩
  | cons e es ih =>
    obtain ⟨v, hv⟩ := Option.isSome_iff_exists.1 (h e List.mem_cons_self)
    obtain ⟨vs, hvs, hlen⟩ := ih fun f hf => h f (List.mem_cons_of_mem e hf)
    exact ⟨v :: vs, by simp [values?, hv, hvs], by simp [hlen]⟩

theorem isSome_value? {e : Expr} (h : e.WellFormed) (p : Point) : (e.value? p).isSome := by
  induction h with
  | integer => rfl
  | var => rfl
  | operation fits _ ih =>
    obtain ⟨vs, hvs, hlen⟩ := values?_eq_some ih
    simp only [value?, hvs, Option.bind_some]
    exact Operator.reduce?_isSome_of_accepts (hlen ▸ fits)

end Polish.Expr

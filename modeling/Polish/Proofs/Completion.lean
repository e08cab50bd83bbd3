import Polish.Proofs.Recognition

/-!
Whatever the machine has taken can be completed. An operation that was just begun gets an operator,
the innermost open one gets the operands it lacks and is closed, and so on outward. Main statement:
`Reached.exists_text`, behind every state but a complete one some text makes the whole an expression.
-/

namespace Polish

open Text

/-! ### Writing a row of pieces -/

/-- The texts in a row, a space before each. -/
def Text.spaced (ts : List String) : String := String.ofList (ts.flatMap fun t => ' ' :: t.toList)

theorem Text.pieces_spaced {ts : List String}
    (h : ∀ t ∈ ts, ∀ rest, Ending rest → Piece t.toList rest) : pieces (spaced ts).toList = ts := by
  rw [spaced, String.toList_ofList]
  induction ts with
  | nil => exact pieces_nil
  | cons t ts ih =>
    obtain ⟨ht, hts⟩ := List.forall_mem_cons.1 h
    have hrest : Ending (ts.flatMap fun t => ' ' :: t.toList) := by
      cases ts with
      | nil => exact ending_nil
      | cons u us => exact ending_of_isDelimiter (by decide) _
    rw [List.flatMap_cons, List.cons_append, ← List.singleton_append, pieces_gap gap_space,
      pieces_piece (ht _ hrest), ih hts, String.ofList_toList]

namespace Machine

/-- What a state is completed with: operands, an operator and closing parentheses. -/
def fillers : List String := ["x", "negate", ")"]

theorem piece_of_mem_fillers {t : String} (h : t ∈ fillers) {rest : List Char} (hrest : Ending rest) :
    Piece t.toList rest := by
  simp only [fillers, List.mem_cons, List.not_mem_nil, or_false] at h
  rcases h with rfl | rfl | rfl
  · exact Word.piece (by decide) hrest
  · exact Word.piece (by decide) hrest
  · exact .parenthesis rest (by decide)

/-! ### Completing the open operations -/

/-- How many operands complete an open operation. -/
def Pending.missing (p : Pending) : Nat :=
  match p.operator.arity with
  | .fixed count => count - p.operands.length
  | .variadic => 1

/-- An open operation with the operands that complete it. -/
def Pending.filled (p : Pending) : Pending :=
  { p with operands := List.replicate p.missing (.var .x) ++ p.operands }

theorem Pending.Fits.missing_le {p : Pending} (h : p.Fits) (count : Nat)
    (harity : p.operator.arity = .fixed count) : p.operands.length + p.missing ≤ count := by
  have hle := h count harity
  rw [missing, harity]
  show p.operands.length + (count - p.operands.length) ≤ count
  omega

theorem Pending.lacking_filled {p : Pending} (h : p.Fits) : p.filled.lacking = false := by
  apply lacking_of_accepts
  rw [filled, List.length_append, List.length_replicate, missing]
  rcases harity : p.operator.arity with count | -
  · have hle := h count harity
    show count - p.operands.length + p.operands.length = count
    omega
  · show 1 ≤ 1 + p.operands.length
    omega

theorem derivesAll_replicate (n : Nat) :
    DerivesAll (List.replicate n "x") (List.replicate n (.var .x)) := by
  induction n with
  | zero => exact .nil
  | succ n ih => exact .cons (.var .x) ih

theorem run_filled {p : Pending} (h : p.Fits) (outer : List Pending) :
    run (.within p outer) ((List.replicate p.missing "x").map Token.classify) =
      .ok (.within p.filled outer) := by
  rw [run_of_derivesAll (derivesAll_replicate p.missing) fun count harity => by
    rw [List.length_replicate]
    exact h.missing_le count harity]
  rw [List.reverse_replicate]
  rfl

theorem Spelled.fits {p : Pending} {outer : List Pending} {ts : List String}
    (h : Spelled (p :: outer) ts) : p.Fits := by
  cases h with
  | cons _ _ fits _ => exact fits

theorem empty_not_mem_fillers {us : List String} (h : us ⊆ fillers) : "" ∉ us := fun hmem =>
  absurd (h hmem) (by decide)

/-- The open operations are completed from inside to outside. -/
theorem Spelled.exists_completion : (outer : List Pending) → ∀ {p : Pending} {ts : List String},
    Spelled (p :: outer) ts → ∃ us e, us ⊆ fillers ∧
      run (.within p outer) (us.map Token.classify) = .ok (.complete e)
  | outer, p, ts, h => by
    have hfill := run_filled h.fits outer
    have hsub : List.replicate p.missing "x" ⊆ fillers := fun t ht => by
      rw [List.eq_of_mem_replicate ht]
      decide
    have hclose := step_close outer (Pending.lacking_filled h.fits)
    -- the operands and the closing parenthesis, then what completes the operations around
    suffices hrest : ∃ us e, us ⊆ fillers ∧
        run (.place p.filled.close outer) (us.map Token.classify) = .ok (.complete e) by
      obtain ⟨us, e, hus, hrun⟩ := hrest
      refine ⟨List.replicate p.missing "x" ++ ")" :: us, e, ?_, ?_⟩
      · exact List.append_subset.2 ⟨hsub, List.cons_subset.2 ⟨by decide, hus⟩⟩
      · rw [List.map_append, List.map_cons, run_append_of_ok hfill]
        exact (run_cons_of_ok hclose _).trans hrun
    cases outer with
    | nil => exact ⟨[], _, List.nil_subset _, rfl⟩
    | cons q outer =>
      have hreached := (Reached.within h).run (empty_not_mem_fillers hsub) hfill
      cases hreached with
      | within around =>
        have hplace := around.close (Pending.lacking_filled h.fits)
        cases hplace with
        | within around => exact exists_completion outer around

theorem Reached.exists_completion {state : State} {ts : List String} (h : Reached state ts)
    (hstate : ∀ e, state ≠ .complete e) :
    ∃ us e, us ⊆ fillers ∧ Machine.run state (us.map Token.classify) = .ok (.complete e) := by
  cases h with
  | start => exact ⟨["x"], .var .x, by decide, rfl⟩
  | begun around room =>
    have hstep := step_symbol .negate
    obtain ⟨us, e, hus, hrun⟩ := Spelled.exists_completion _
      (.cons (p := ⟨.negate, []⟩) around room (fun _ _ => Nat.zero_le _) .nil)
    refine ⟨"negate" :: us, e, List.cons_subset.2 ⟨by decide, hus⟩, ?_⟩
    exact (run_cons_of_ok (hstep _) _).trans hrun
  | within around => exact around.exists_completion _
  | complete _ => exact absurd rfl (hstate _)

/-- Some text completes what has been taken. -/
theorem Reached.exists_text {state : State} {ts : List String} (h : Reached state ts)
    (hstate : ∀ e, state ≠ .complete e) :
    ∃ (more : String) (e : Expr), Machine.run state (tokensOf more.toList) = .ok (.complete e) := by
  obtain ⟨us, e, hus, hrun⟩ := h.exists_completion hstate
  refine ⟨spaced us, e, ?_⟩
  rw [tokensOf, pieces_spaced fun t ht _ => piece_of_mem_fillers (hus ht)]
  exact hrun

end Machine

end Polish

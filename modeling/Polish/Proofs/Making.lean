import Polish.Proofs.Readers
import Polish.Proofs.Recognition
import Polish.Workbench

/-!
Expressions in the making. However an expression comes about, from text, from leaves or from earlier
expressions, every operation in it has as many operands as its operator accepts. The reader makes
operations without asking, since its two ways of reading operands give fitting numbers only. Main
statement: `operands_fit_throughout`, all that any row of acts makes and all that ever stands on a
workbench is well-formed and has a value everywhere, and so does every operation that the reader makes.

    text ── parse ──▶ expression ◀── checked constructor ── earlier expressions
                          │ ▲
                  operand ▼ │ copy
-/

namespace Polish

open Text

namespace Expr

/-! ### Rows of acts -/

/-- What makes an expression. Expressions made earlier are given by their places in the row of all that
was made, from zero. -/
inductive Act where
  | integer (value : Int64)
  | var (v : Variable)
  | parse (text : String)
  | operation (o : Operator) (places : List Nat)
  | copy (place : Nat)
  | operand (place index : Nat)

/-- The expression that an act makes: none if a place is empty, a text is no expression or an operator
does not accept as many operands. -/
def Act.make? (made : List Expr) : Act → Option Expr
  | integer value => some (.integer value)
  | .var v => some (.var v)
  | parse text => (Expr.parse text).toOption
  | operation o places =>
    (places.mapM fun place => made[place]?).bind fun es => (operation? o es).toOption
  | copy place => made[place]?
  | operand place index => made[place]?.bind fun e => e.operands[index]?

/-- An act adds what it makes to what was made earlier. -/
def Act.perform (made : List Expr) (a : Act) : List Expr := made ++ (a.make? made).toList

/-- All that the acts make, one after the other. -/
def produce (acts : List Act) : List Expr := acts.foldl Act.perform []

theorem mem_of_mapM_getElem? {made : List Expr} {places : List Nat} {es : List Expr}
    (h : (places.mapM fun place => made[place]?) = some es) : ∀ e ∈ es, e ∈ made := by
  induction places generalizing es with
  | nil =>
    rw [List.mapM_nil] at h
    cases h
    exact fun e he => absurd he List.not_mem_nil
  | cons place places ih =>
    rw [List.mapM_cons] at h
    obtain ⟨e, he, h⟩ := Option.bind_eq_some_iff.1 h
    obtain ⟨fs, hfs, h⟩ := Option.bind_eq_some_iff.1 h
    cases h
    exact List.forall_mem_cons.2 ⟨List.mem_of_getElem? he, ih hfs⟩

theorem WellFormed.of_mem_operands {e f : Expr} (h : e.WellFormed) (hf : f ∈ e.operands) :
    f.WellFormed := by
  cases h with
  | integer v => exact absurd hf List.not_mem_nil
  | var v => exact absurd hf List.not_mem_nil
  | operation _ operands => exact operands f hf

theorem toOption_eq_some {ε α : Type} {x : Except ε α} {a : α} (h : x.toOption = some a) :
    x = .ok a := by
  cases x with
  | error _ => cases h
  | ok b => cases h; rfl

/-- What an act makes of well-formed expressions is well-formed. -/
theorem Act.wellFormed_make? {made : List Expr} {a : Act} {e : Expr}
    (h : ∀ f ∈ made, f.WellFormed) (hmake : a.make? made = some e) : e.WellFormed := by
  cases a with
  | integer value => cases hmake; exact .integer value
  | var v => cases hmake; exact .var v
  | parse text => exact wellFormed_of_parse (toOption_eq_some hmake)
  | operation o places =>
    obtain ⟨es, hes, hmake⟩ := Option.bind_eq_some_iff.1 hmake
    exact Workbench.wellFormed_operation? (fun f hf => h f (mem_of_mapM_getElem? hes f hf))
      (toOption_eq_some hmake)
  | copy place => exact h e (List.mem_of_getElem? hmake)
  | operand place index =>
    obtain ⟨f, hf, hmake⟩ := Option.bind_eq_some_iff.1 hmake
    exact (h f (List.mem_of_getElem? hf)).of_mem_operands (List.mem_of_getElem? hmake)

theorem Act.wellFormed_perform {made : List Expr} (a : Act) (h : ∀ f ∈ made, f.WellFormed) :
    ∀ e ∈ a.perform made, e.WellFormed := by
  intro e he
  rcases List.mem_append.1 he with he | he
  · exact h e he
  · exact a.wellFormed_make? h (Option.mem_toList.1 he)

theorem wellFormed_foldl_perform {made : List Expr} (acts : List Act)
    (h : ∀ f ∈ made, f.WellFormed) : ∀ e ∈ acts.foldl Act.perform made, e.WellFormed := by
  induction acts generalizing made with
  | nil => exact h
  | cons a acts ih => exact ih (a.wellFormed_perform h)

/-! ### The reader -/

/-- Reading a fixed number of operands gives that number. -/
theorem length_of_takes_readFixed {o : Operator} {n : Nat} {s after : Scan} {es : List Expr}
    (h : Takes (readFixed o n s) es after) : es.length = n := by
  induction n generalizing s es with
  | zero =>
    obtain ⟨rfl, -⟩ := takes_readFixed_zero.1 h
    rfl
  | succ n ih =>
    obtain ⟨e, between, fs, rfl, -, hfs⟩ := takes_readFixed_succ.1 h
    simp [ih hfs]

theorem TakesOperands.accepts {o : Operator} {s after : Scan} {es : List Expr}
    (h : TakesOperands o s es after) : o.arity.Accepts es.length := by
  unfold TakesOperands at h
  cases harity : o.arity with
  | fixed n =>
    rw [harity] at h
    exact length_of_takes_readFixed h
  | variadic =>
    rw [harity] at h
    exact List.length_pos_iff.2 h.2

/-- The reader makes an operation with as many operands as its operator accepts. -/
theorem accepts_of_readOperation {s : Scan} {t : Taken s Expr}
    (h : (readOperation s).outcome = .ok t) :
    ∃ o es, t.value = .operation o es ∧ o.arity.Accepts es.length := by
  obtain ⟨-, o, es, -, hvalue, hes⟩ := takes_readOperation.1 (takes_of_outcome h)
  exact ⟨o, es, hvalue, hes.accepts⟩

end Expr

/-! ### The workbench -/

namespace Workbench

/-- An answer that tells of no expression that lacked operands. -/
def Answer.Complete : Answer → Prop
  | value none => False
  | text none => False
  | _ => True

/-- What an instruction leaves behind: an answer, and a stack of well-formed expressions. -/
structure Sound (result : Answer × Stack) : Prop where
  answer : result.1.Complete
  stack : ∀ e ∈ result.2, e.WellFormed

theorem Sound.push {e : Expr} {stack : Stack} (he : e.WellFormed) (h : ∀ f ∈ stack, f.WellFormed) :
    Sound (push e stack) :=
  ⟨trivial, List.forall_mem_cons.2 ⟨he, h⟩⟩

theorem Sound.inspect {look : Expr → Answer} {stack : Stack} (h : ∀ f ∈ stack, f.WellFormed)
    (hlook : ∀ e : Expr, e.WellFormed → (look e).Complete) : Sound (inspect look stack) := by
  cases stack with
  | nil => exact ⟨trivial, h⟩
  | cons e rest => exact ⟨hlook e (h e List.mem_cons_self), h⟩

theorem Answer.complete_value {e : Expr} (h : e.WellFormed) (p : Point) :
    (Answer.value (e.value? p)).Complete := by
  obtain ⟨v, hv⟩ := Option.isSome_iff_exists.1 (Expr.isSome_value? h p)
  rw [hv]
  trivial

theorem Answer.complete_describe {e : Expr} (h : e.WellFormed) (p : Point) :
    (Answer.text (e.describe? p)).Complete := by
  obtain ⟨v, hv⟩ := Option.isSome_iff_exists.1 (Expr.isSome_value? h p)
  rw [Expr.describe?, hv]
  trivial

theorem sound_perform {stack : Stack} (h : ∀ e ∈ stack, e.WellFormed) (i : Instruction) :
    Sound (perform stack i) := by
  cases i with
  | integer value => exact .push (.integer value) h
  | var name =>
    rw [perform]
    split
    · exact .push (.var _) h
    · exact ⟨trivial, h⟩
  | parse text =>
    rw [perform]
    split
    · rename_i hparse
      exact .push (Expr.wellFormed_of_parse hparse) h
    · exact ⟨trivial, h⟩
  | operation symbol count =>
    have hdrop : ∀ e ∈ stack.drop count, e.WellFormed := fun e he => h e (List.mem_of_mem_drop he)
    have htake : ∀ e ∈ (stack.take count).reverse, e.WellFormed := fun e he =>
      h e (List.mem_of_mem_take (List.mem_reverse.1 he))
    rw [perform]
    split
    · exact ⟨trivial, h⟩
    · split
      · rename_i hmade
        exact .push (wellFormed_operation? htake hmade) hdrop
      · exact ⟨trivial, hdrop⟩
  | swap =>
    rcases stack with - | ⟨e, - | ⟨f, rest⟩⟩
    · exact ⟨trivial, h⟩
    · exact ⟨trivial, h⟩
    · obtain ⟨he, hrest⟩ := List.forall_mem_cons.1 h
      obtain ⟨hf, hrest⟩ := List.forall_mem_cons.1 hrest
      exact ⟨trivial, List.forall_mem_cons.2 ⟨hf, List.forall_mem_cons.2 ⟨he, hrest⟩⟩⟩
  | equal =>
    rcases stack with - | ⟨e, - | ⟨f, rest⟩⟩ <;> exact ⟨trivial, h⟩
  | drop => exact ⟨trivial, fun e he => h e (List.mem_of_mem_drop he)⟩
  | duplicate =>
    cases stack with
    | nil => exact ⟨trivial, h⟩
    | cons e rest => exact .push (h e List.mem_cons_self) h
  | child index =>
    cases stack with
    | nil => exact ⟨trivial, h⟩
    | cons e rest =>
      obtain ⟨he, hrest⟩ := List.forall_mem_cons.1 h
      rw [perform]
      split
      · rename_i hf
        exact .push (he.of_mem_operands (List.mem_of_getElem? hf)) hrest
      · exact ⟨trivial, h⟩
  | evaluate p => exact .inspect h fun e he => Answer.complete_value he p
  | describe p => exact .inspect h fun e he => Answer.complete_describe he p
  | prefixText | postfixText | drawing | isValue | operator | readsBack =>
    exact .inspect h fun _ _ => trivial

theorem sound_step {stack : Stack} (h : ∀ e ∈ stack, e.WellFormed) (i : Instruction) :
    Sound (step stack i) := by
  rw [step]
  split
  · exact ⟨trivial, h⟩
  · exact sound_perform h i

theorem sound_of_mem_run {stack : Stack} (h : ∀ e ∈ stack, e.WellFormed) (is : List Instruction) :
    ∀ r ∈ run stack is, Sound r := by
  induction is generalizing stack with
  | nil => exact fun r hr => absurd hr List.not_mem_nil
  | cons i is ih => exact List.forall_mem_cons.2 ⟨sound_step h i, ih (sound_step h i).stack⟩

end Workbench

namespace Expr

/-- Every operation has as many operands as its operator accepts, and no evaluation lacks one. This is
so for all that a row of acts makes, and for all that stands on a workbench while a row of instructions
is carried out on it, of which none answers that operands are lacking; and it is so for each operation
that the reader makes, wherever in a text it is reading and whether or not the text is an expression. -/
theorem operands_fit_throughout :
    (∀ (acts : List Act), ∀ e ∈ produce acts, e.WellFormed ∧ ∀ p, (e.value? p).isSome) ∧
      (∀ (instructions : List Workbench.Instruction),
        ∀ r ∈ Workbench.run [] instructions, Workbench.Sound r) ∧
      ∀ (s : Scan) (t : Taken s Expr), (readOperation s).outcome = .ok t →
        ∃ o es, t.value = .operation o es ∧ o.arity.Accepts es.length := by
  have hnone : ∀ e ∈ ([] : List Expr), e.WellFormed := fun e he => absurd he List.not_mem_nil
  refine ⟨fun acts e he => ?_, Workbench.sound_of_mem_run hnone, fun s t => accepts_of_readOperation⟩
  have hwf : e.WellFormed := wellFormed_foldl_perform acts hnone e he
  exact ⟨hwf, isSome_value? hwf⟩

/-- A difference that is read, one of its operands, a mean of three earlier expressions, a negation that
is refused, and a copy. -/
theorem operands_fit_throughout_of_mean :
    let d : Expr := .operation .subtract [.var .x, .integer 1]
    let mean : Expr := .operation .harmonicMean [d, .integer 1, d]
    let acts : List Act :=
      [.parse "(- x 1)", .operand 0 1, .operation .harmonicMean [0, 1, 0], .operation .negate [0, 1],
        .copy 2]
    produce acts = [d, .integer 1, mean, mean] ∧ mean.WellFormed ∧ ∀ p, (mean.value? p).isSome := by
  intro d mean acts
  have hrow : pieces "(- x 1)".toList = ["(", "-", "x", "1", ")"] := by decide +kernel
  have hparse : parse "(- x 1)" = .ok d := parse_of_pieces hrow rfl
  have hacts : produce acts = [d, .integer 1, mean, mean] := by
    rw [produce, List.foldl_cons, Act.perform, Act.make?, hparse]
    rfl
  obtain ⟨hmade, -, -⟩ := operands_fit_throughout
  exact ⟨hacts, hmade acts mean (by rw [hacts]; simp)⟩

end Expr

end Polish

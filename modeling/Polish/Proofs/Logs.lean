import Polish.Expr.Walk
import Polish.Proofs.Pieces

/-!
Logs of a cursor. What is logged of an operator comes behind its start and in front of its return, if
there is one; the operators that are still to return are nested, the innermost one taken up last. Main
statements: `Tidy.operand`, `Tidy.began`, `Tidy.continued` and `Tidy.returned`, each motion that a
reader logs keeps the log tidy.

    log                 began +, operand, began mean, operand, continued mean ┊ returned mean
    opened operators    [mean, +]                                             ┊ [+]
-/

namespace Polish

open Text

namespace Motion

/-- The operator that a motion takes up. -/
def begun? : Motion → Option Dispatch
  | began d => some d
  | _ => none

/-- The operator that a motion is about. -/
def dispatch? : Motion → Option Dispatch
  | operand _ _ => none
  | began d | continued d _ _ | returned d _ _ => some d

/-- What is read takes the cursor on. It is set back for operators of any number of operands only, not
in front of the end of the operator's symbol, and over nothing but blanks and one closing parenthesis. -/
def Sound (text : List Char) : Motion → Prop
  | began _ => True
  | operand start stop | continued _ start stop => start < stop
  | returned d start stop => d.operator.arity = .variadic ∧ d.offset ≤ stop ∧
      ∃ before gap after, text = before ++ (gap ++ ')' :: after) ∧ Gap gap ∧
        byteLength before = stop ∧ byteLength (before ++ gap) + 1 = start

/-- Once the cursor is set back for an operator, nothing more happens for this operator. -/
def Precedes (m m' : Motion) : Prop :=
  ∀ d start stop, m = returned d start stop → m'.dispatch? ≠ some d

end Motion

/-- A log of a cursor that stands at a position: each motion is sound, about an operator that was taken
up before that position, and not behind the return of that operator. -/
structure Orderly (text : List Char) (position : Nat) (log : List Motion) : Prop where
  sound : ∀ m ∈ log, m.Sound text
  ended : log.Pairwise Motion.Precedes
  begun : ∀ m ∈ log, ∀ d, m.dispatch? = some d → .began d ∈ log
  behind : ∀ m ∈ log, ∀ d, m.dispatch? = some d → d.offset ≤ position

/-- An orderly log in which the opened operators, the innermost first, have begun and not returned. -/
structure Tidy (text : List Char) (opened : List Dispatch) (position : Nat) (log : List Motion) : Prop
    extends Orderly text position log where
  running : ∀ d ∈ opened, .began d ∈ log ∧ ∀ start stop, .returned d start stop ∉ log
  nested : opened.Pairwise fun d d' => d'.offset < d.offset

variable {text : List Char} {opened : List Dispatch} {position : Nat} {log : List Motion}

theorem tidy_nil : Tidy text [] 0 [] where
  sound := fun _ h => absurd h List.not_mem_nil
  ended := .nil
  begun := fun _ h => absurd h List.not_mem_nil
  behind := fun _ h => absurd h List.not_mem_nil
  running := fun _ h => absurd h List.not_mem_nil
  nested := .nil

/-- A motion may be added if its operator, if it has one, has begun and not returned. -/
theorem Orderly.add (h : Orderly text position log) {m : Motion} {stop : Nat}
    (hstop : position ≤ stop) (hsound : m.Sound text)
    (hdispatch : ∀ d, m.dispatch? = some d → d.offset ≤ stop ∧ .began d ∈ log ++ [m] ∧
      ∀ a b, .returned d a b ∉ log) : Orderly text stop (log ++ [m]) where
  sound := List.forall_mem_append.2 ⟨h.sound, List.forall_mem_singleton.2 hsound⟩
  ended := by
    refine List.pairwise_append.2 ⟨h.ended, List.pairwise_singleton _ _, ?_⟩
    rintro _ hmem n hn d a b rfl hd
    rw [List.mem_singleton.1 hn] at hd
    exact (hdispatch d hd).2.2 a b hmem
  begun := by
    refine List.forall_mem_append.2 ⟨fun n hn d hd => ?_, List.forall_mem_singleton.2 ?_⟩
    · exact List.mem_append_left _ (h.begun n hn d hd)
    · exact fun d hd => (hdispatch d hd).2.1
  behind := by
    refine List.forall_mem_append.2 ⟨fun n hn d hd => ?_, List.forall_mem_singleton.2 ?_⟩
    · exact Nat.le_trans (h.behind n hn d hd) hstop
    · exact fun d hd => (hdispatch d hd).1

namespace Tidy

theorem offset_le (h : Tidy text opened position log) {d : Dispatch} (hd : d ∈ opened) :
    d.offset ≤ position :=
  h.behind _ (h.running d hd).1 d rfl

theorem add (h : Tidy text opened position log) {m : Motion} {stop : Nat}
    (hstop : position ≤ stop) (hsound : m.Sound text)
    (hdispatch : ∀ d, m.dispatch? = some d → d.offset ≤ stop ∧ .began d ∈ log ++ [m] ∧
      ∀ a b, .returned d a b ∉ log)
    (hopened : ∀ d ∈ opened, ∀ a b, m ≠ .returned d a b) : Tidy text opened stop (log ++ [m]) where
  toOrderly := h.toOrderly.add hstop hsound hdispatch
  running d hd := by
    obtain ⟨hbegun, hreturned⟩ := h.running d hd
    refine ⟨List.mem_append_left _ hbegun, fun a b hmem => ?_⟩
    rcases List.mem_append.1 hmem with hlog | hm
    · exact hreturned a b hlog
    · exact hopened d hd a b (List.mem_singleton.1 hm).symm
  nested := h.nested

theorem operand (h : Tidy text opened position log) {start stop : Nat} (hstop : position ≤ stop)
    (hstart : start < stop) : Tidy text opened stop (log ++ [.operand start stop]) :=
  h.add hstop hstart nofun nofun

theorem began (h : Tidy text opened position log) {d : Dispatch} (hd : position < d.offset) :
    Tidy text (d :: opened) d.offset (log ++ [.began d]) := by
  have hfresh (a b : Nat) : .returned d a b ∉ log := fun hmem =>
    Nat.not_le_of_lt hd (h.behind _ hmem d rfl)
  have hbegun : .began d ∈ log ++ [.began d] := List.mem_append_right _ (List.mem_singleton.2 rfl)
  have hadd : Tidy text opened d.offset (log ++ [.began d]) := by
    refine h.add (Nat.le_of_lt hd) trivial ?_ nofun
    rintro _ ⟨⟩
    exact ⟨Nat.le_refl _, hbegun, hfresh⟩
  refine { hadd with running := List.forall_mem_cons.2 ⟨⟨hbegun, ?_⟩, hadd.running⟩
                     nested := List.pairwise_cons.2 ⟨?_, h.nested⟩ }
  · intro a b hmem
    rcases List.mem_append.1 hmem with hlog | hm
    · exact hfresh a b hlog
    · cases List.mem_singleton.1 hm
  · exact fun d' hd' => Nat.lt_of_le_of_lt (h.offset_le hd') hd

theorem continued {d : Dispatch} (h : Tidy text (d :: opened) position log) {start : Nat}
    (hstart : start < position) :
    Tidy text (d :: opened) position (log ++ [.continued d start position]) := by
  refine h.add (Nat.le_refl _) hstart ?_ nofun
  rintro _ ⟨⟩
  obtain ⟨hbegun, hreturned⟩ := h.running d List.mem_cons_self
  exact ⟨h.offset_le List.mem_cons_self, List.mem_append_left _ hbegun, hreturned⟩

/-- The innermost operator ends. -/
theorem close {d : Dispatch} (h : Tidy text (d :: opened) position log) :
    Tidy text opened position log where
  toOrderly := h.toOrderly
  running := (List.forall_mem_cons.1 h.running).2
  nested := (List.pairwise_cons.1 h.nested).2

theorem returned {d : Dispatch} (h : Tidy text (d :: opened) position log) {start stop : Nat}
    (hsound : (Motion.returned d start stop).Sound text) :
    Tidy text opened position (log ++ [.returned d start stop]) := by
  refine h.close.add (Nat.le_refl _) hsound ?_ ?_
  · rintro _ ⟨⟩
    obtain ⟨hbegun, hreturned⟩ := h.running d List.mem_cons_self
    exact ⟨h.offset_le List.mem_cons_self, List.mem_append_left _ hbegun, hreturned⟩
  · rintro d' hd' a b ⟨⟩
    exact Nat.lt_irrefl _ ((List.pairwise_cons.1 h.nested).1 d hd')

theorem mono (h : Tidy text opened position log) {stop : Nat} (hstop : position ≤ stop) :
    Tidy text opened stop log :=
  { h with behind := fun m hm d hd => Nat.le_trans (h.behind m hm d hd) hstop }

end Tidy

end Polish

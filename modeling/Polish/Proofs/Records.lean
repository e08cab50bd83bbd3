import Polish.Expr.Drawing
import Polish.Expr.Journal
import Polish.Proofs.EarlyFailure
import Polish.Proofs.Segmentation
import Polish.Proofs.Transitions
import Polish.Text.Unquoted

/-!
What the journal of a reading says. The machine takes up an operator at each symbol directly behind an
opening parenthesis, so the operators taken up are the heads in the row of tokens taken, and the
machine's state remembers them all. Main statement: `journal_of_reading`, the records of an expression
name its operators in pre-order and each stands at the end of its symbol, and those of any other text
name the heads in front of the token at which reading stops.

    ( + 1 ( negate x ) )
      ▲     ▲               the heads
-/

namespace Polish

open Text Machine

/-! ### The heads in a row of tokens -/

namespace Dispatch

/-- The operator that a token names if an opening parenthesis is directly in front of it. -/
def head? (behind : Bool) (t : Token × Nat) : Option Dispatch :=
  if behind then (Operator.ofSymbol? t.1.text).map (⟨·, t.2⟩) else none

/-- The operators that the tokens of a row name directly behind an opening parenthesis, each with the
position of its token; whether the row itself is behind one is given. -/
def heads (behind : Bool) : List (Token × Nat) → List Dispatch
  | [] => []
  | t :: row => (head? behind t).toList ++ heads (t.1 = .openParenthesis) row

/-- `d.StandsIn text`: in the text, the operator's symbol is a whole token directly behind an opening
parenthesis, and its end is as many bytes from the start as the offset says. -/
def StandsIn (d : Dispatch) (text : List Char) : Prop :=
  ∃ before gap after, text = before ++ '(' :: (gap ++ (d.operator.symbol.toList ++ after)) ∧ Gap gap ∧
    Standing (before ++ '(' :: gap) d.operator.symbol.toList after ∧
    d.offset = byteLength (before ++ '(' :: (gap ++ d.operator.symbol.toList))

theorem record_of_fixed {d : Dispatch} {count : Nat} (h : d.operator.arity = .fixed count) :
    d.record = ⟨.trace, "Parsing operands of " ++ d.operator.symbol ++ " (Fixed(" ++ toString count ++
      ")) at " ++ toString d.offset⟩ := by
  rw [record, h]
  refine congrArg (Record.mk .trace) (String.toList_inj.1 ?_)
  simp [Arity.text, Numeral.natText, Numeral.ofNat, Nat.repr]

theorem record_of_variadic {d : Dispatch} (h : d.operator.arity = .variadic) :
    d.record = ⟨.trace, "Parsing operands of " ++ d.operator.symbol ++ " (Variadic) at " ++
      toString d.offset⟩ := by
  rw [record, h]
  refine congrArg (Record.mk .trace) (String.toList_inj.1 ?_)
  simp [Arity.text, Numeral.natText, Numeral.ofNat, Nat.repr]

theorem head?_eq_some {behind : Bool} {t : Token × Nat} {d : Dispatch} :
    head? behind t = some d ↔ behind = true ∧ t.1.text = d.operator.symbol ∧ t.2 = d.offset := by
  rw [head?]
  split
  · rename_i h
    rw [Option.map_eq_some_iff]
    constructor
    · rintro ⟨o, ho, rfl⟩
      exact ⟨h, Operator.ofSymbol?_eq_some.1 ho, rfl⟩
    · rintro ⟨-, htext, hoffset⟩
      exact ⟨d.operator, Operator.ofSymbol?_eq_some.2 htext, by rw [hoffset]⟩
  · rename_i h
    constructor
    · nofun
    · rintro ⟨hbehind, -⟩
      exact absurd hbehind h

theorem sublist_offset_heads (behind : Bool) (row : List (Token × Nat)) :
    ((heads behind row).map Dispatch.offset).Sublist (row.map Prod.snd) := by
  induction row generalizing behind with
  | nil => exact .slnil
  | cons t row ih =>
    rw [heads, List.map_append, List.map_cons]
    rcases hhead : head? behind t with - | d
    · exact (ih _).cons _
    · obtain ⟨-, -, hoffset⟩ := head?_eq_some.1 hhead
      rw [hoffset]
      exact (ih _).cons_cons _

theorem prefix_heads {behind : Bool} {row row' : List (Token × Nat)} (h : row <+: row') :
    heads behind row <+: heads behind row' := by
  obtain ⟨more, rfl⟩ := h
  induction row generalizing behind with
  | nil => exact List.nil_prefix
  | cons t row ih =>
    rw [List.cons_append, heads, heads]
    exact (List.prefix_append_right_inj _).2 ih

/-- Every head of a text stands where it says. -/
theorem standsIn_of_mem_heads {before cs : List Char} {behind : Bool} (hapart : Apart before cs)
    (hbehind : behind = true → ∃ front, before = front ++ ['(']) {d : Dispatch}
    (h : d ∈ heads behind (Segment.tokens (byteLength before) (Layout.ofText cs).segments)) :
    d.StandsIn (before ++ cs) := by
  induction cs using text_induction generalizing before behind with
  | blank gap hgap =>
    rw [Layout.ofText_gap hgap] at h
    cases h
  | piece gap p rest hgap hp ih =>
    have htext := hp.toList_text_classify
    rw [Layout.ofText_piece hgap hp, Segment.tokens, ← byteLength_append, heads, List.mem_append,
      Option.mem_toList, head?_eq_some] at h
    rcases h with ⟨htrue, hsymbol, hoffset⟩ | h
    · obtain ⟨front, rfl⟩ := hbehind htrue
      obtain rfl := htext.symm.trans (congrArg String.toList hsymbol)
      have hstanding := hp.standing hgap hapart
      rw [List.append_assoc, List.singleton_append] at hstanding hoffset
      exact ⟨front, gap, rest, List.append_assoc .., hgap, hstanding, hoffset.symm⟩
    · have hbefore : before ++ (gap ++ (p ++ rest)) = before ++ (gap ++ p) ++ rest := by
        simp only [List.append_assoc]
      have hrest : Apart (before ++ (gap ++ p)) rest := by
        rw [← List.append_assoc]
        exact (hapart.append (hgap.apart _)).append hp.apart
      rw [hbefore]
      refine ih hrest (fun hopen => ⟨before ++ gap, ?_⟩) h
      have hopening : Token.classify (String.ofList p) = .openParenthesis := of_decide_eq_true hopen
      rw [hopening] at htext
      rw [← htext, List.append_assoc]
      rfl

end Dispatch

/-! ### The operators that a state remembers -/

/-- The operator at a node that is no leaf. -/
def Expr.Label.operator? : Expr.Label → Option Operator
  | .operation o _ => some o
  | _ => none

/-- The operators of an expression in pre-order. -/
def Expr.operators (e : Expr) : List Operator :=
  ((e.preorder 0).map Prod.snd).filterMap Label.operator?

theorem Expr.operators_operation (o : Operator) (es : List Expr) :
    (Expr.operation o es).operators = o :: es.flatMap operators := by
  suffices h : ((preorderAll 1 es).map Prod.snd).filterMap Label.operator? = es.flatMap operators from
    congrArg (o :: ·) h
  induction es with
  | nil => rfl
  | cons e es ih =>
    -- the labels are the same at every depth
    have hdepth : (preorder 1 e).map Prod.snd = (preorder 0 e).map Prod.snd :=
      (map_label_rowsBelow e [] false 1).symm.trans (map_label_rowsBelow e [] false 0)
    rw [preorderAll, List.map_append, List.filterMap_append, hdepth, ih]
    rfl

namespace Machine

/-- The operators of an open operation, its operands' behind its own. -/
def Pending.operators (p : Pending) : List Operator :=
  p.operator :: p.operands.reverse.flatMap Expr.operators

/-- The operators of open operations, from outside to inside. -/
def openOperators (opened : List Pending) : List Operator :=
  opened.reverse.flatMap Pending.operators

/-- The operators of all that has been taken. -/
def State.operators : State → List Operator
  | .start => []
  | .begun outer => openOperators outer
  | .within inner outer => openOperators (inner :: outer)
  | .complete e => e.operators

/-- Whether the machine is directly behind an opening parenthesis. -/
def State.awaits : State → Bool
  | .begun _ => true
  | _ => false

theorem openOperators_cons (p : Pending) (outer : List Pending) :
    openOperators (p :: outer) = openOperators outer ++ p.operators := by
  rw [openOperators, List.reverse_cons, List.flatMap_append, List.flatMap_singleton, ← openOperators]

theorem operators_seeking (opened : List Pending) :
    (seeking opened).operators = openOperators opened := by
  cases opened <;> rfl

theorem awaits_seeking (opened : List Pending) : (seeking opened).awaits = false := by
  cases opened <;> rfl

theorem awaits_place (e : Expr) (opened : List Pending) : (State.place e opened).awaits = false := by
  cases opened <;> rfl

theorem operators_place (e : Expr) (opened : List Pending) :
    (State.place e opened).operators = openOperators opened ++ e.operators := by
  cases opened with
  | nil => rfl
  | cons p outer =>
    show openOperators ({ p with operands := e :: p.operands } :: outer) = _
    rw [openOperators_cons, openOperators_cons, List.append_assoc]
    simp [Pending.operators]

theorem Pending.operators_close (p : Pending) : p.close.operators = p.operators :=
  Expr.operators_operation _ _

theorem Leaf.operators {t : Token} {e : Expr} (h : Leaf t e) : e.operators = [] := by
  cases h <;> rfl

theorem Moves.awaits {state state' : State} {t : Token} (h : Moves state t state') :
    state'.awaits = decide (t = .openParenthesis) := by
  cases h with
  | opening room => rfl
  | leaf room single => rw [awaits_place]; cases single <;> rfl
  | @operator outer t o symbol =>
    have hne : t ≠ .openParenthesis := by
      rintro rfl
      cases symbol
    exact (decide_eq_false hne).symm
  | closing filled => rw [awaits_place]; rfl

/-- A step remembers the operator that its token names, and forgets none. -/
theorem Moves.operators {state state' : State} {t : Token} (h : Moves state t state') (n : Nat) :
    state'.operators =
      state.operators ++ (Dispatch.head? state.awaits (t, n)).toList.map Dispatch.operator := by
  cases h with
  | opening room =>
    rw [operators_seeking, awaits_seeking]
    exact (List.append_nil _).symm
  | leaf room single =>
    rw [operators_place, operators_seeking, awaits_seeking, single.operators]
    rfl
  | @operator outer t o symbol =>
    have hhead : Dispatch.head? true (t, n) = some ⟨o, n⟩ :=
      Dispatch.head?_eq_some.2 ⟨rfl, Operator.ofSymbol?_eq_some.1 symbol, rfl⟩
    rw [State.awaits, hhead]
    exact openOperators_cons ⟨o, []⟩ outer
  | @closing p outer filled =>
    rw [operators_place, p.operators_close]
    exact (openOperators_cons p outer).symm.trans (List.append_nil _).symm

theorem operators_of_run {state state' : State} {row : List (Token × Nat)}
    (h : run state (row.map Prod.fst) = .ok state') : state'.operators =
      state.operators ++ (Dispatch.heads state.awaits row).map Dispatch.operator := by
  induction row generalizing state with
  | nil =>
    cases h
    exact (List.append_nil _).symm
  | cons t row ih =>
    rw [List.map_cons, run_cons_eq_ok] at h
    obtain ⟨next, hstep, hrest⟩ := h
    have hmoves := step_eq_ok.1 hstep
    rw [ih hrest, hmoves.operators t.2, hmoves.awaits, Dispatch.heads, List.map_append,
      List.append_assoc]

/-! ### The operators that a scan takes up -/

/-- The tokens of a row that the machine takes, those in front of the first that it refuses. -/
def takenRow (state : State) : List (Token × Nat) → List (Token × Nat)
  | [] => []
  | t :: row =>
    match step state t.1 with
    | .ok state' => t :: takenRow state' row
    | .error _ => []

theorem takenRow_append {state state' : State} {row : List (Token × Nat)}
    (h : run state (row.map Prod.fst) = .ok state') (more : List (Token × Nat)) :
    takenRow state (row ++ more) = row ++ takenRow state' more := by
  induction row generalizing state with
  | nil =>
    cases h
    rfl
  | cons t row ih =>
    rw [List.map_cons, run_cons_eq_ok] at h
    obtain ⟨next, hstep, hrest⟩ := h
    simp only [List.cons_append, takenRow, hstep, ih hrest]

theorem takenRow_of_run {state state' : State} {row : List (Token × Nat)}
    (h : run state (row.map Prod.fst) = .ok state') : takenRow state row = row := by
  have happend := takenRow_append h []
  rwa [takenRow, List.append_nil] at happend

theorem prefix_takenRow {state : State} {row row' : List (Token × Nat)} (h : row <+: row') :
    takenRow state row <+: takenRow state row' := by
  obtain ⟨more, rfl⟩ := h
  induction row generalizing state with
  | nil => exact List.nil_prefix
  | cons t row ih =>
    rw [List.cons_append, takenRow, takenRow]
    rcases step state t.1 with cause | next
    · exact List.prefix_rfl
    · exact (List.prefix_cons_inj t).2 ih

theorem takenRow_isPrefix (state : State) (row : List (Token × Nat)) : takenRow state row <+: row := by
  induction row generalizing state with
  | nil => exact List.nil_prefix
  | cons t row ih =>
    rw [takenRow]
    rcases step state t.1 with cause | next
    · exact List.nil_prefix
    · exact (List.prefix_cons_inj t).2 (ih next)

theorem takenUp_eq_head? (s : Scan) (state : State) :
    takenUp s state =
      (Dispatch.head? state.awaits (s.next.token, s.next.after.offset)).toList := by
  cases state <;> rfl

/-- On a text the machine takes up the heads in the row of tokens that it takes. -/
theorem dispatches_readScan (state : State) (passed cs : List Char) :
    (readScan state ⟨passed, cs⟩).dispatches = Dispatch.heads state.awaits
      (takenRow state (Segment.tokens (byteLength passed) (Layout.ofText cs).segments)) := by
  induction cs using text_induction generalizing state passed with
  | blank gap hgap =>
    have hend : (⟨passed, gap⟩ : Scan).next.token = .endOfInput := by
      rw [Scan.token_next_eq_endOfInput, takePiece_of_gap hgap]
    rw [readScan_of_end hend, Layout.ofText_gap hgap]
    rfl
  | piece gap p rest hgap hp ih =>
    obtain ⟨htoken, hafter⟩ :=
      Scan.next_of_piece (s := ⟨passed, gap ++ (p ++ rest)⟩) rfl hgap hp
    have hgoes := htoken ▸ hp.classify_ne_endOfInput
    have hlength : byteLength (p.reverse ++ (gap.reverse ++ passed)) =
        byteLength passed + byteLength (gap ++ p) := by
      simp only [byteLength_append, byteLength_reverse]
      omega
    rw [Layout.ofText_piece hgap hp, Segment.tokens, takenRow]
    rcases hstep : step state (.classify (String.ofList p)) with cause | next
    · rw [readScan_of_error hgoes (htoken ▸ hstep)]
      rfl
    · rw [readScan_of_ok hgoes (htoken ▸ hstep), takenUp_eq_head?, htoken, hafter, Attempt.ok_bind,
        Scan.offset, hlength, ih, (step_eq_ok.1 hstep).awaits, hlength]
      rfl

end Machine

/-! ### The row of tokens of a text -/

namespace Text

theorem Segment.map_fst_tokens (position : Nat) (cs : List Char) :
    (tokens position (Layout.ofText cs).segments).map Prod.fst = tokensOf cs := by
  induction cs using text_induction generalizing position with
  | blank gap hgap =>
    rw [Layout.ofText_gap hgap, tokensOf_of_gap hgap]
    rfl
  | piece gap p rest hgap hp ih =>
    rw [Layout.ofText_piece hgap hp, tokens, List.map_cons, ih, tokensOf_gap hgap, tokensOf_piece hp]

/-- More text at the end of a text comes behind its tokens. -/
theorem Segment.prefix_tokens {cs ds : List Char} (hapart : Apart cs ds) (position : Nat) :
    tokens position (Layout.ofText cs).segments <+:
      tokens position (Layout.ofText (cs ++ ds)).segments := by
  induction cs using text_induction generalizing position with
  | blank gap hgap =>
    rw [Layout.ofText_gap hgap]
    exact List.nil_prefix
  | piece gap p rest hgap hp ih =>
    have htext : gap ++ (p ++ rest) ++ ds = gap ++ (p ++ (rest ++ ds)) := by
      simp only [List.append_assoc]
    rw [htext, Layout.ofText_piece hgap hp, Layout.ofText_piece hgap (hp.append hapart)]
    exact (List.prefix_cons_inj _).2 (ih hapart.rest.rest _)

end Text

namespace Expr

/-- The tokens of a text, blanks around it dropped, each with the byte position behind it. -/
def tokenRow (source : String) : List (Token × Nat) :=
  Segment.tokens 0 (Layout.ofText (trim source.toList)).segments

/-- The heads among the tokens of a text. -/
def heads (source : String) : List Dispatch := Dispatch.heads false (tokenRow source)

/-- The records of operators taken up. -/
def traces (source : String) : List Record := (journal source).filter (·.level = .trace)

theorem map_fst_tokenRow (source : String) :
    (tokenRow source).map Prod.fst = tokensOf source.toList := by
  rw [tokenRow, Segment.map_fst_tokens, tokensOf_trim]

theorem dispatches_readTrimmed (source : String) :
    (readTrimmed source).dispatches = Dispatch.heads false (takenRow .start (tokenRow source)) := by
  rw [readTrimmed, readRoot_eq_readScan]
  exact dispatches_readScan .start [] (trim source.toList)

theorem dispatches_prefix_heads (source : String) : (readTrimmed source).dispatches <+: heads source := by
  rw [dispatches_readTrimmed]
  exact Dispatch.prefix_heads (takenRow_isPrefix .start (tokenRow source))

theorem journal_of_ok {source : String} {e : Expr} (h : parse source = .ok e) :
    journal source =
      (readTrimmed source).dispatches.map Dispatch.record ++ [parsedRecord source e] := by
  rw [journal, h]

theorem journal_of_error {source : String} {err : ParseError} (h : parse source = .error err) :
    journal source = (readTrimmed source).dispatches.map Dispatch.record := by
  rw [journal, h, List.append_nil]

theorem traces_eq (source : String) :
    traces source = (readTrimmed source).dispatches.map Dispatch.record := by
  have hkept : ((readTrimmed source).dispatches.map Dispatch.record).filter (·.level = .trace) =
      (readTrimmed source).dispatches.map Dispatch.record := by
    simp [Dispatch.record]
  rw [traces]
  rcases hparse : parse source with err | e
  · rw [journal_of_error hparse, hkept]
  · rw [journal_of_ok hparse, List.filter_append, hkept]
    exact List.append_nil _

/-- If all tokens of a text are taken, then all its heads are. -/
theorem dispatches_of_run {source : String} {state : State}
    (h : run .start (tokensOf source.toList) = .ok state) :
    (readTrimmed source).dispatches = heads source := by
  rw [← map_fst_tokenRow] at h
  rw [dispatches_readTrimmed, takenRow_of_run h, heads]

/-- Up to the offending token the heads are taken up. -/
theorem exists_dispatches_of_refused {source : String} {cause : ParseError.Cause}
    (h : run .start (tokensOf source.toList) = .error cause) :
    ∃ front token back, Offending source front token back ∧ (readTrimmed source).dispatches =
      Dispatch.heads false ((tokenRow source).take (pieces front.toList).length) := by
  obtain ⟨front, p, back, state, hstop⟩ := exists_stop_of_run h
  refine ⟨_, _, _, offending_of_stop hstop, ?_⟩
  rw [String.toList_ofList]
  -- the row is cut where its tokens are
  have hrow : (tokenRow source).map Prod.fst =
      tokensOf front ++ .classify (String.ofList p) :: tokensOf back := by
    rw [map_fst_tokenRow, hstop.text, tokensOf_append hstop.seam, tokensOf_piece hstop.piece]
  obtain ⟨row, more, hsplit, hfront, hmore⟩ := List.map_eq_append_iff.1 hrow
  obtain ⟨t, rest, rfl, hfirst, -⟩ := List.map_eq_cons_iff.1 hmore
  have hlength := congrArg List.length hfront
  rw [tokensOf, List.length_map, List.length_map] at hlength
  have htaken := hstop.taken
  rw [← hfront] at htaken
  have hstuck : takenRow state (t :: rest) = [] := by
    rw [takenRow, hfirst, hstop.refused]
  rw [dispatches_readTrimmed, hsplit, ← hlength, List.take_left, takenRow_append htaken, hstuck,
    List.append_nil]

theorem prefix_traces (source more : String) : traces source <+: traces (source ++ " " ++ more) := by
  have hrow : tokenRow source <+: tokenRow (source ++ " " ++ more) := by
    by_cases hgap : Gap source.toList
    · rw [tokenRow, trim_eq_nil.2 hgap, Layout.ofText_gap gap_nil]
      exact List.nil_prefix
    · have hmore : Apart source.toList ([' '] ++ more.toList) :=
        .inl (ending_of_isDelimiter (by decide) _)
      obtain ⟨ws, htrim, hws⟩ := trim_append hgap hmore
      rw [tokenRow, tokenRow, toList_spaced, htrim]
      exact Segment.prefix_tokens hws 0
  rw [traces_eq, traces_eq, dispatches_readTrimmed, dispatches_readTrimmed]
  exact (Dispatch.prefix_heads (prefix_takenRow hrow)).map Dispatch.record

/-- The journal follows the reading. The heads of a text stand where they say, further and further on,
and the record of a head tells the operator's symbol, its arity and the position. If the text is read as
an expression, the heads are its operators in pre-order, and the journal has a record for each and then
one of the whole, with the text as it was given, which can be got back from its quotes, and the prefix
text of the expression. If reading fails, the journal has a record for each head among the tokens in front
of the offending one, or for each head at all if it is a further token that is wanted, and no other. And
what is recorded of the operators of a text is recorded first of every text that goes on behind it. -/
theorem journal_of_reading (source : String) :
    (∀ d ∈ heads source, d.StandsIn (trim source.toList)) ∧
    ((heads source).map Dispatch.offset).Pairwise (· < ·) ∧
    (∀ d : Dispatch,
      (∀ count, d.operator.arity = .fixed count → d.record = ⟨.trace, "Parsing operands of " ++
        d.operator.symbol ++ " (Fixed(" ++ toString count ++ ")) at " ++ toString d.offset⟩) ∧
      (d.operator.arity = .variadic → d.record = ⟨.trace, "Parsing operands of " ++
        d.operator.symbol ++ " (Variadic) at " ++ toString d.offset⟩)) ∧
    (∀ e, parse source = .ok e → (heads source).map Dispatch.operator = e.operators ∧
      journal source = (heads source).map Dispatch.record ++
        [⟨.debug, "Parsed " ++ quoted source ++ " into " ++ e.prefixText⟩] ∧
      unquoted? (quoted source) = some source) ∧
    (∀ err, parse source = .error err → (∀ r ∈ journal source, r.level = .trace) ∧
      ((Wanting source ∧ journal source = (heads source).map Dispatch.record) ∨
        ∃ front token back, Offending source front token back ∧ journal source =
          (Dispatch.heads false ((tokenRow source).take (pieces front.toList).length)).map
            Dispatch.record)) ∧
    ∀ more, traces source <+: traces (source ++ " " ++ more) := by
  refine ⟨fun d hd => ?_, ?_, fun d => ⟨fun count h => ?_, fun h => ?_⟩, fun e h => ?_,
    fun err h => ⟨?_, ?_⟩, prefix_traces source⟩
  · have hapart : Apart [] (trim source.toList) := .inr nofun
    exact Dispatch.standsIn_of_mem_heads hapart (fun h => Bool.noConfusion h) hd
  · have hpieces := (Layout.describes_ofText (trim source.toList)).piece_ne_nil
    exact (List.pairwise_cons.1 (Segment.pairwise_lt_tokens hpieces 0)).2.sublist
      (Dispatch.sublist_offset_heads false _)
  · exact Dispatch.record_of_fixed h
  · exact Dispatch.record_of_variadic h
  · have hrun := parse_eq_ok.1 h
    refine ⟨?_, by rw [journal_of_ok h, dispatches_of_run hrun, parsedRecord], unquoted?_quoted source⟩
    rw [← map_fst_tokenRow] at hrun
    exact (operators_of_run hrun).symm
  · rw [journal_of_error h]
    intro r hr
    obtain ⟨d, -, rfl⟩ := List.mem_map.1 hr
    rfl
  · rw [journal_of_error h]
    rcases hrun : run .start (tokensOf source.toList) with cause | state
    · obtain ⟨front, token, back, hoffending, hdispatches⟩ := exists_dispatches_of_refused hrun
      exact .inr ⟨front, token, back, hoffending, by rw [hdispatches]⟩
    · refine .inl ⟨wanting_iff.2 ⟨state, hrun, ?_⟩, by rw [dispatches_of_run hrun]⟩
      rintro e rfl
      cases h.symm.trans (parse_eq_ok.2 hrun)

/-- A sum with a mean inside, behind a tab, a sum with an operand too many, and a sum cut off. -/
theorem journal_of_reading_of_sum :
    (∃ e, parse "\t(+ 1 (harm-mean x))" = .ok e ∧ e.operators = [.add, .harmonicMean] ∧
      journal "\t(+ 1 (harm-mean x))" =
        [⟨.trace, "Parsing operands of + (Fixed(2)) at 2"⟩,
          ⟨.trace, "Parsing operands of harm-mean (Variadic) at 15"⟩,
          ⟨.debug, "Parsed \"\\t(+ 1 (harm-mean x))\" into (+ 1 (harm-mean x))"⟩]) ∧
      (∃ err, parse "(+ 1 (negate x) (* 2 y))" = .error err ∧
        ∀ r ∈ journal "(+ 1 (negate x) (* 2 y))", r.level = .trace) ∧
      traces "(+ 1" <+: traces ("(+ 1" ++ " " ++ "(negate x))") := by
  have hsum : parse "\t(+ 1 (harm-mean x))" =
      .ok (.operation .add [.integer 1, .operation .harmonicMean [.var .x]]) := by
    decide +kernel
  have hmany : parse "(+ 1 (negate x) (* 2 y))" =
      .error ⟨.incorrectOperatorCall, some 17, "(+ 1 (negate x) (* 2 y))".toList⟩ := by
    decide +kernel
  have hheads : heads "\t(+ 1 (harm-mean x))" = [⟨.add, 2⟩, ⟨.harmonicMean, 15⟩] := by decide +kernel
  have hparsed : "Parsed " ++ quoted "\t(+ 1 (harm-mean x))" ++ " into " ++
      prefixText (.operation .add [.integer 1, .operation .harmonicMean [.var .x]]) =
        "Parsed \"\\t(+ 1 (harm-mean x))\" into (+ 1 (harm-mean x))" := by
    decide +kernel
  obtain ⟨-, -, hrecord, hread, -⟩ := journal_of_reading "\t(+ 1 (harm-mean x))"
  obtain ⟨-, -, -, -, hfails, -⟩ := journal_of_reading "(+ 1 (negate x) (* 2 y))"
  obtain ⟨-, -, -, -, -, hfront⟩ := journal_of_reading "(+ 1"
  obtain ⟨hoperators, hjournal, -⟩ := hread _ hsum
  have hadd : Dispatch.record ⟨.add, 2⟩ = ⟨.trace, "Parsing operands of + (Fixed(2)) at 2"⟩ :=
    (hrecord ⟨.add, 2⟩).1 2 rfl
  have hmean : Dispatch.record ⟨.harmonicMean, 15⟩ =
      ⟨.trace, "Parsing operands of harm-mean (Variadic) at 15"⟩ :=
    (hrecord ⟨.harmonicMean, 15⟩).2 rfl
  rw [hheads] at hoperators hjournal
  rw [List.map_cons, List.map_cons, List.map_nil, hadd, hmean, hparsed] at hjournal
  exact ⟨⟨_, hsum, hoperators.symm, hjournal⟩, ⟨_, hmany, (hfails _ hmany).1⟩, hfront "(negate x))"⟩

end Expr

end Polish

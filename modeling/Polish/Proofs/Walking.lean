import Polish.Proofs.Descent
import Polish.Proofs.Logs
import Polish.Proofs.Moving
import Polish.Proofs.Records

/-!
Reading with one cursor ends. The cursor is moved as the descent moves a scan, fuel goes down by one at
each call and the text ahead by a piece at every second call, and the log is kept tidy. Main statement:
`walk_ends`, fuel of twice the length of the text is enough for the walk to end as reading does, each
operand takes the cursor on, and the cursor is set back at most once for each operator, over blanks and
one closing parenthesis.

    descent   slot s ─▶ operand e, s'          walk   log ── slot ─▶ log ++ motions
    walk      ofScan s ─▶ operand e, ofScan s'        tidy           tidy
-/

namespace Polish

open Text

/-! ### Walks beside attempts -/

variable {α β γ δ : Type}

/-- A walk that ended, behind a log, as an attempt did: in what it found, or with the same fault. -/
inductive Walk.Ends (text : List Char) (log : List Motion) (good : α → β → List Motion → Prop) :
    Except Fault α → Trip β → Prop where
  | ok {a : α} {b : β} {motions : List Motion} (found : good a b (log ++ motions)) :
      Ends text log good (.ok a) ⟨motions, .ok b⟩
  | error {fault : Fault} {motions : List Motion} {position : Nat}
      (orderly : Orderly text position (log ++ motions)) :
      Ends text log good (.error fault) ⟨motions, .error fault⟩

/-- A walk, made behind a log, ends as an attempt does and takes up the same operators. -/
def Follows (text : List Char) (log : List Motion) (x : Attempt α) (w : Walk β)
    (good : α → β → List Motion → Prop) : Prop :=
  ∃ t : Trip β, w = some t ∧ t.motions.filterMap Motion.begun? = x.dispatches ∧
    Walk.Ends text log good x.outcome t

namespace Follows

variable {text : List Char} {log : List Motion} {x : Attempt α} {w : Walk β}
  {good : α → β → List Motion → Prop} {good' : γ → δ → List Motion → Prop}

theorem bind {f : α → Attempt γ} {g : β → Walk δ} (h : Follows text log x w good)
    (hgo : ∀ a b log', good a b log' → Follows text log' (f a) (g b) good') :
    Follows text log (x >>= f) (w >>= g) good' := by
  obtain ⟨t, rfl, hbegun, hends⟩ := h
  obtain ⟨dispatches, outcome⟩ := x
  cases hends with
  | @ok a b motions hgood =>
    obtain ⟨⟨motions', out⟩, hw, hbegun', hends'⟩ := hgo a b _ hgood
    refine ⟨⟨motions ++ motions', out⟩, ?_, ?_, ?_⟩
    · show Option.map _ (g b) = _
      rw [hw]
      rfl
    · rw [List.filterMap_append, hbegun, hbegun']
      rfl
    · show Walk.Ends text log good' (f a).outcome _
      generalize (f a).outcome = outcome at hends'
      cases hends' with
      | ok hfound => exact .ok (by rwa [← List.append_assoc])
      | error horderly => exact .error (by rwa [← List.append_assoc])
  | error horderly => exact ⟨_, rfl, hbegun, .error horderly⟩

theorem pure {a : α} {b : β} (h : good a b log) : Follows text log (pure a) (pure b) good :=
  ⟨_, rfl, rfl, .ok (by rwa [List.append_nil])⟩

theorem fail {position : Nat} (h : Orderly text position log) (cause : ParseError.Cause) (s : Scan) :
    Follows text log (.fail cause s) (Walk.fail cause (.ofScan s)) good := by
  refine ⟨⟨[], .error ⟨cause, s.column⟩⟩, ?_, rfl, .error (by rwa [List.append_nil])⟩
  rw [Walk.fail, Cursor.column?_ofScan]
  rfl

/-- Only the walk logs what is no start of an operator. -/
theorem logged {m : Motion} (hm : m.begun? = none) (h : Follows text (log ++ [m]) x w good) :
    Follows text log x (Walk.log m >>= fun _ => w) good := by
  have hlog : Follows text log (Pure.pure ()) (Walk.log m) fun _ _ log' => log' = log ++ [m] := by
    refine ⟨_, rfl, ?_, .ok rfl⟩
    rw [List.filterMap_cons_none hm]
    rfl
  exact hlog.bind fun _ _ _ heq => heq ▸ h

theorem dispatched {o : Operator} {s : Scan}
    (h : Follows text (log ++ [.began ⟨o, s.offset⟩]) x w good) :
    Follows text log (Attempt.dispatch o s >>= fun _ => x)
      (Walk.log (.began ⟨o, s.offset⟩) >>= fun _ => w) good := by
  have hlog : Follows text log (Attempt.dispatch o s) (Walk.log (.began ⟨o, s.offset⟩))
      fun _ _ log' => log' = log ++ [.began ⟨o, s.offset⟩] := ⟨_, rfl, rfl, .ok rfl⟩
  exact hlog.bind fun _ _ _ heq => heq ▸ h

end Follows

namespace Scan

/-- A scan that has no more ahead of the same text has passed all that the other has passed. -/
theorem exists_between {s s' : Scan} (hsource : s'.source = s.source)
    (h : s'.ahead.length ≤ s.ahead.length) :
    ∃ between, s.ahead = between ++ s'.ahead ∧ s'.offset = s.offset + byteLength between := by
  rcases List.append_eq_append_iff.1 hsource with ⟨middle, hpassed, hahead⟩ | ⟨middle, hpassed, hahead⟩
  · rw [hahead, List.length_append] at h
    obtain rfl : middle = [] := List.length_eq_zero_iff.1 (by omega)
    rw [List.append_nil, List.reverse_inj] at hpassed
    refine ⟨[], hahead.symm, ?_⟩
    rw [offset, offset, hpassed]
    rfl
  · refine ⟨middle, hahead, ?_⟩
    rw [offset, offset, ← byteLength_reverse, hpassed, byteLength_append, byteLength_reverse]

theorem offset_le {s s' : Scan} (hsource : s'.source = s.source)
    (h : s'.ahead.length ≤ s.ahead.length) : s.offset ≤ s'.offset := by
  obtain ⟨between, -, hoffset⟩ := exists_between hsource h
  exact hoffset ▸ Nat.le_add_right ..

theorem offset_lt {s s' : Scan} (hsource : s'.source = s.source)
    (h : s'.ahead.length < s.ahead.length) : s.offset < s'.offset := by
  obtain ⟨between, hahead, hoffset⟩ := exists_between hsource (Nat.le_of_lt h)
  rw [hahead, List.length_append] at h
  have hlength := length_le_byteLength between
  omega

/-- The token that stands next is what the piece that stands next is classified as. -/
theorem classify_piece (s : Scan) :
    Token.classify (String.ofList s.skipBlanks.readPiece.1) = s.next.token := rfl

theorem text_next {s : Scan} (h : s.next.token ≠ .endOfInput) :
    s.next.token.text = String.ofList s.skipBlanks.readPiece.1 :=
  Token.text_classify (mt Token.classify_eq_endOfInput.2 h)

theorem isAtEnd_skipBlanks {s : Scan} :
    (Cursor.ofScan s.skipBlanks).isAtEnd = true ↔ s.next.token = .endOfInput := by
  rw [Cursor.isAtEnd_iff (Cursor.ahead?_ofScan s.skipBlanks), token_next_eq_endOfInput,
    takePiece_fst_eq_nil]
  rfl

end Scan

theorem Walk.pure_bind (a : α) (f : α → Walk β) : (pure a : Walk α) >>= f = f a := by
  show Option.map _ (f a) = f a
  cases f a <;> rfl

theorem Walk.next_ofScan (s : Scan) : Walk.next (.ofScan s) =
    pure (String.ofList s.skipBlanks.readPiece.1, Cursor.ofScan s.next.after) := by
  rw [next, Cursor.nextPiece?_ofScan]
  rfl

/-- The cursor is set back over blanks and a closing parenthesis. -/
theorem Motion.sound_returned {s : Scan} {d : Dispatch} (harity : d.operator.arity = .variadic)
    (hoffset : d.offset ≤ s.offset) (htoken : s.next.token = .closeParenthesis) :
    (Motion.returned d s.next.after.offset s.offset).Sound s.source := by
  rcases gap_or_piece s.ahead with hgap | ⟨gap, p, rest, hahead, hgap, hp⟩
  · rw [Scan.token_next, takePiece_of_gap hgap] at htoken
    cases htoken
  · obtain ⟨hpiece, hafter⟩ := Scan.next_of_piece hahead hgap hp
    have hclosing : Token.text .closeParenthesis = String.ofList p := by
      rw [← htoken, hpiece, Token.text_classify hp.ofList_ne_empty]
    obtain rfl : p = [')'] := by
      rw [← String.toList_ofList (l := p), ← hclosing]
      rfl
    refine ⟨harity, hoffset, s.passed.reverse, gap, rest, ?_, hgap, byteLength_reverse _, ?_⟩
    · rw [Scan.source, hahead]
      rfl
    · have hparenthesis : byteLength [')'] = 1 := rfl
      simp only [hafter, Scan.offset, byteLength_append, byteLength_reverse, hparenthesis]
      omega

namespace Expr

/-! ### The readers -/

/-- What the walk finds at a slot, behind a log, is what the descent finds there. -/
inductive Slot.Walked (text : List Char) (opened : List Dispatch) (log : List Motion) {s : Scan} :
    Slot s → Found × Cursor → List Motion → Prop where
  | operand {e : Expr} {after : Scan} {shorter : after.ahead.length < s.ahead.length}
      {log' : List Motion} (source : after.source = text)
      (tidy : Tidy text opened after.offset log') :
      Walked text opened log (.operand e after shorter) (.operand e, .ofScan after) log'
  | closing {after : Scan} {shorter : _} (next : s.next = ⟨.closeParenthesis, after, shorter⟩) :
      Walked text opened log (.closing after) (.closing, .ofScan after) log
  | nothing {after : Scan} : Walked text opened log (.nothing after) (.nothing, .ofScan after) log

/-- What the walk takes from a scan is what the descent takes, and the log is tidy behind it. -/
structure Taken.Walked {s : Scan} (text : List Char) (opened : List Dispatch) (t : Taken s α)
    (found : α × Cursor) (log : List Motion) : Prop where
  found_eq : found = (t.value, .ofScan t.after)
  source : t.after.source = text
  tidy : Tidy text opened t.after.offset log

variable {text : List Char} {opened : List Dispatch} {log : List Motion} {s : Scan}

theorem follows_operand {log' : List Motion} {e : Expr} {after : Scan} (hs : s.source = text)
    (shorter : after.ahead.length < s.ahead.length) (source : after.source = text)
    {position : Nat} (hposition : position ≤ after.offset) (h : Tidy text opened position log') :
    Follows text log' (pure (.operand e after shorter) : Attempt (Slot s))
      (walkOperand e (.ofScan s) (.ofScan after)) (Slot.Walked text opened log) := by
  have htidy := h.operand hposition (Scan.offset_lt (source.trans hs.symm) shorter)
  exact .logged rfl (.pure (.operand source htidy))

theorem follows_closing (hs : s.source = text) {position : Nat} (h : Orderly text position log) :
    Follows text log (closeOperation s) (walkClosing (.ofScan s)) fun u c log' =>
      c = .ofScan u.after ∧ u.after.source = text ∧ log' = log := by
  have hsource := s.source_next.trans hs
  rw [walkClosing, Walk.next_ofScan, Walk.pure_bind, closeOperation]
  dsimp only
  rw [s.classify_piece]
  generalize s.next = l at hsource ⊢
  obtain ⟨token, after, shorter⟩ := l
  cases token with
  | closeParenthesis => exact .pure ⟨rfl, hsource, rfl⟩
  | endOfInput => exact .fail h ..
  | _ => exact .fail h ..

mutual

theorem follows_slot : (fuel : Nat) → {s : Scan} → {opened : List Dispatch} → {log : List Motion} →
    s.source = text → 2 * s.ahead.length < fuel → Tidy text opened s.offset log →
    Follows text log (slot s) (walkSlot fuel (.ofScan s)) (Slot.Walked text opened log)
  | 0, _, _, _, _, hfuel, _ => absurd hfuel (Nat.not_lt_zero _)
  | fuel + 1, s, opened, log, hs, hfuel, h => by
    have hsource := s.source_next.trans hs
    have hoffset (hshorter : s.next.after.ahead.length < s.ahead.length) :=
      Nat.le_of_lt (Scan.offset_lt s.source_next hshorter)
    rw [walkSlot, Walk.next_ofScan, Walk.pure_bind, slot]
    dsimp only
    rw [s.classify_piece]
    -- the proof in the lexeme speaks of its token, so the token cannot be rewritten by itself
    generalize hl : s.next = l at hsource hoffset ⊢
    obtain ⟨token, after, shorter⟩ := l
    cases token with
    | endOfInput => exact .pure .nothing
    | closeParenthesis => exact .pure (.closing hl)
    | symbol text => exact .fail h.toOrderly ..
    | var v =>
      have hshorter : after.ahead.length < s.ahead.length := shorter nofun
      exact follows_operand hs hshorter hsource (hoffset hshorter) h
    | integer text =>
      have hshorter : after.ahead.length < s.ahead.length := shorter nofun
      dsimp only
      cases Numeral.read? text.toList with
      | none => exact .fail h.toOrderly ..
      | some v => exact follows_operand hs hshorter hsource (hoffset hshorter) h
    | openParenthesis =>
      have hshorter : after.ahead.length < s.ahead.length := shorter nofun
      have hless : 2 * after.ahead.length < fuel := by omega
      have hinner := h.mono (hoffset hshorter)
      refine (follows_operation fuel hsource hless hinner).bind fun t found log' ht => ?_
      obtain ⟨rfl, htsource, httidy⟩ := ht
      refine (follows_closing htsource httidy.toOrderly).bind fun u c log'' hu => ?_
      obtain ⟨rfl, husource, rfl⟩ := hu
      exact follows_operand hs _ husource
        (Scan.offset_le (husource.trans htsource.symm) u.notLonger) httidy

theorem follows_operation : (fuel : Nat) → {s : Scan} → {opened : List Dispatch} →
    {log : List Motion} → s.source = text → 2 * s.ahead.length < fuel →
    Tidy text opened s.offset log →
    Follows text log (readOperation s) (walkOperation fuel (.ofScan s)) (Taken.Walked text opened)
  | 0, _, _, _, _, hfuel, _ => absurd hfuel (Nat.not_lt_zero _)
  | fuel + 1, s, opened, log, hs, hfuel, h => by
    have hsource := s.source_next.trans hs
    rw [walkOperation, Walk.next_ofScan, Walk.pure_bind, readOperation]
    dsimp only
    by_cases hend : s.next.token = .endOfInput
    · have hempty : String.ofList s.skipBlanks.readPiece.1 = "" := Token.classify_eq_endOfInput.1 hend
      rw [dif_pos hend, if_pos hempty]
      exact .fail h.toOrderly ..
    · have hne : String.ofList s.skipBlanks.readPiece.1 ≠ "" := mt Token.classify_eq_endOfInput.2 hend
      have hshorter := s.next.shorter hend
      rw [dif_neg hend, if_neg hne, Scan.text_next hend]
      cases Operator.ofSymbol? (String.ofList s.skipBlanks.readPiece.1) with
      | none => exact .fail h.toOrderly ..
      | some o =>
        have hbegan := h.began (d := ⟨o, s.next.after.offset⟩) (Scan.offset_lt s.source_next hshorter)
        refine .dispatched ?_
        cases harity : o.arity with
        | fixed n =>
          refine (follows_fixed fuel o n hsource (by omega) hbegan.close).bind
            fun t found log' ht => ?_
          obtain ⟨rfl, htsource, httidy⟩ := ht
          exact .pure ⟨rfl, htsource, httidy⟩
        | variadic =>
          refine (follows_variadic fuel harity hsource (by omega) hbegan).bind
            fun t found log' ht => ?_
          obtain ⟨rfl, htsource, httidy⟩ := ht
          dsimp only
          split
          · exact .fail httidy.toOrderly ..
          · exact .pure ⟨rfl, htsource, httidy⟩

theorem follows_fixed : (fuel : Nat) → (o : Operator) → (n : Nat) → {s : Scan} →
    {opened : List Dispatch} → {log : List Motion} → s.source = text →
    2 * s.ahead.length + 1 < fuel → Tidy text opened s.offset log →
    Follows text log (readFixed o n s) (walkFixed fuel o n (.ofScan s)) (Taken.Walked text opened)
  | 0, _, _, _, _, _, _, hfuel, _ => absurd hfuel (Nat.not_lt_zero _)
  | fuel + 1, o, 0, s, opened, log, hs, _, h => by
    rw [readFixed, walkFixed]
    exact .pure ⟨rfl, hs, h⟩
  | fuel + 1, o, n + 1, s, opened, log, hs, hfuel, h => by
    rw [readFixed, walkFixed]
    refine (follows_slot fuel hs (by omega) h).bind fun x found log' hx => ?_
    cases hx with
    | @operand e after shorter _ source tidy =>
      refine (follows_fixed fuel o n source (by omega) tidy).bind fun t found log'' ht => ?_
      obtain ⟨rfl, hsource, htidy⟩ := ht
      exact .pure ⟨rfl, hsource, htidy⟩
    | closing => exact .fail h.toOrderly ..
    | nothing => exact .fail h.toOrderly ..

theorem follows_variadic : (fuel : Nat) → {d : Dispatch} → {s : Scan} → {opened : List Dispatch} →
    {log : List Motion} → d.operator.arity = .variadic → s.source = text →
    2 * s.ahead.length + 1 < fuel → Tidy text (d :: opened) s.offset log →
    Follows text log (readVariadic s) (walkVariadic fuel d (.ofScan s)) (Taken.Walked text opened)
  | 0, _, _, _, _, _, _, hfuel, _ => absurd hfuel (Nat.not_lt_zero _)
  | fuel + 1, d, s, opened, log, harity, hs, hfuel, h => by
    rw [readVariadic, walkVariadic]
    refine (follows_slot fuel hs (by omega) h).bind fun x found log' hx => ?_
    cases hx with
    | @operand e after shorter _ source tidy =>
      have htidy := tidy.continued (Scan.offset_lt (source.trans hs.symm) shorter)
      refine .logged rfl ?_
      refine (follows_variadic fuel harity source (by omega) htidy).bind fun t found log'' ht => ?_
      obtain ⟨rfl, hsource, htidy⟩ := ht
      exact .pure ⟨rfl, hsource, htidy⟩
    | @closing after _ hnext =>
      have htoken : s.next.token = .closeParenthesis := by rw [hnext]
      have hsound := Motion.sound_returned harity (h.offset_le List.mem_cons_self) htoken
      rw [hs, hnext] at hsound
      -- the slot was empty, so nothing was logged since the cursor stood here
      have hback : (Cursor.ofScan after).rewind s.offset = .ofScan s := by
        have hsource := s.source_next
        rw [hnext] at hsource
        rw [Cursor.rewind, Cursor.ofScan, Cursor.ofScan, hsource]
      refine .logged rfl ?_
      exact .pure ⟨congrArg (Prod.mk []) hback, hs, h.returned hsound⟩
    | nothing => exact .fail h.toOrderly ..

end

theorem follows_root {fuel : Nat} (hs : s.source = text) (hfuel : 2 * s.ahead.length < fuel)
    (h : Tidy text [] s.offset []) :
    Follows text [] (readRoot s) (walkRoot fuel (.ofScan s)) fun e f log =>
      f = e ∧ ∃ position, Orderly text position log := by
  refine (follows_slot fuel hs hfuel h).bind fun x found log hx => ?_
  cases hx with
  | @operand e after shorter _ source tidy =>
    have hpiece := Cursor.readPiece?_ofScan after.skipBlanks
    dsimp only
    rw [Cursor.skipBlanks?_ofScan]
    show Follows _ _ _ (pure (Cursor.ofScan after.skipBlanks) >>= _) _
    rw [Walk.pure_bind, hpiece]
    by_cases hend : after.next.token = .endOfInput
    · rw [if_pos hend, if_pos (Scan.isAtEnd_skipBlanks.2 hend)]
      exact .pure ⟨rfl, _, tidy.toOrderly⟩
    · rw [if_neg hend, if_neg (mt Scan.isAtEnd_skipBlanks.1 hend), Scan.text_next hend]
      show Follows _ _ _ (pure (String.ofList _, Cursor.ofScan after.next.after) >>= _) _
      rw [Walk.pure_bind]
      exact .fail tidy.toOrderly ..
  | closing => exact .fail h.toOrderly ..
  | nothing => exact .fail h.toOrderly ..

/-! ### Texts -/

/-- The operators taken up stand where they say. -/
theorem standsIn_of_mem_dispatches {source : String} {d : Dispatch}
    (h : d ∈ (readTrimmed source).dispatches) : d.StandsIn (trim source.toList) := by
  have hapart : Apart [] (trim source.toList) := .inr nofun
  exact Dispatch.standsIn_of_mem_heads hapart (fun h => Bool.noConfusion h)
    ((dispatches_prefix_heads source).subset h)

/-- Each operator taken up stands further on than those before. -/
theorem pairwise_offset_dispatches (source : String) :
    ((readTrimmed source).dispatches.map Dispatch.offset).Pairwise (· < ·) := by
  have hpieces := (Layout.describes_ofText (trim source.toList)).piece_ne_nil
  have hheads : ((heads source).map Dispatch.offset).Pairwise (· < ·) :=
    (List.pairwise_cons.1 (Segment.pairwise_lt_tokens hpieces 0)).2.sublist
      (Dispatch.sublist_offset_heads false _)
  exact hheads.sublist ((dispatches_prefix_heads source).sublist.map _)

theorem length_trim_le (source : String) : (trim source.toList).length ≤ source.utf8ByteSize := by
  have htrim : (trim source.toList).length ≤ source.toList.length := by
    rw [trim, List.length_reverse]
    refine (List.dropWhile_sublist isBlank).length_le.trans ?_
    rw [List.length_reverse]
    exact (List.dropWhile_sublist isBlank).length_le
  exact htrim.trans ((length_le_byteLength _).trans_eq (byteLength_toList source))

theorem dispatches_of_trim_eq_nil {source : String} (h : trim source.toList = []) :
    (readTrimmed source).dispatches = [] := by
  have hprefix := dispatches_prefix_heads source
  rw [heads, tokenRow, h, Layout.ofText_gap gap_nil] at hprefix
  exact List.prefix_nil.1 hprefix

/-- A walk that ended as reading did gives what is parsed. -/
theorem mapError_eq_parse {source : String} (h : trim source.toList ≠ []) {t : Trip Expr}
    (hends : Walk.Ends text [] (fun e f log => f = e ∧ ∃ position, Orderly text position log)
      (readTrimmed source).outcome t) :
    (t.outcome.mapError fun fault =>
      (⟨fault.cause, some fault.position, trim source.toList⟩ : ParseError)) = parse source ∧
      ∃ position, Orderly text position t.motions := by
  rw [parse, if_neg h]
  generalize (readTrimmed source).outcome = outcome at hends ⊢
  cases hends with
  | ok hfound =>
    obtain ⟨rfl, horderly⟩ := hfound
    exact ⟨rfl, horderly⟩
  | error horderly => exact ⟨rfl, _, horderly⟩

/-- Fuel of twice the length of the text in bytes is enough for the walk to end, and it ends as reading
does. What is read takes the cursor on; the cursor is set back over blanks and a closing parenthesis
only, for an operator of any number of operands, not in front of the end of that operator's symbol; and
once it is set back for an operator nothing more happens for it. The operators taken up are those that
reading takes up, each at the end of its symbol and further on than those before. -/
theorem walk_ends (source : String) {fuel : Nat} (hfuel : 2 * source.utf8ByteSize < fuel) :
    ∃ motions : List Motion, walk? fuel source = some (motions, parse source) ∧
      (∀ m ∈ motions, m.Sound (trim source.toList)) ∧
      motions.Pairwise Motion.Precedes ∧
      (∀ m ∈ motions, ∀ d, m.dispatch? = some d → .began d ∈ motions) ∧
      motions.filterMap Motion.begun? = (readTrimmed source).dispatches ∧
      (∀ d ∈ (readTrimmed source).dispatches, d.StandsIn (trim source.toList)) ∧
      ((readTrimmed source).dispatches.map Dispatch.offset).Pairwise (· < ·) := by
  have hdispatches : ∀ d ∈ (readTrimmed source).dispatches, d.StandsIn (trim source.toList) :=
    fun _ => standsIn_of_mem_dispatches
  have hpairwise := pairwise_offset_dispatches source
  by_cases htrim : trim source.toList = []
  · have hnone := dispatches_of_trim_eq_nil htrim
    refine ⟨[], ?_, fun _ h => absurd h List.not_mem_nil, .nil, fun _ h => absurd h List.not_mem_nil,
      hnone.symm, hdispatches, hpairwise⟩
    rw [walk?, parse, if_pos htrim, if_pos htrim]
  · have hless : 2 * (trim source.toList).length < fuel := by
      have hle := length_trim_le source
      omega
    obtain ⟨t, hwalk, hbegun, hends⟩ :=
      follows_root (s := .start (trim source.toList)) rfl hless tidy_nil
    obtain ⟨hparse, position, horderly⟩ := mapError_eq_parse htrim hends
    refine ⟨t.motions, ?_, horderly.sound, horderly.ended, horderly.begun, hbegun, hdispatches,
      hpairwise⟩
    have hstart : walkRoot fuel (.start (trim source.toList)) = some t := hwalk
    rw [walk?, if_neg htrim, hstart, Option.map_some, hparse]

/-- A mean in a mean: the cursor is set back twice, from behind the first parenthesis for the inner mean
and from behind the second for the outer. -/
theorem walk_ends_of_mean :
    let source := " (harm-mean (arith-mean x )\t)"
    let outer : Dispatch := ⟨.harmonicMean, 10⟩
    let inner : Dispatch := ⟨.arithmeticMean, 22⟩
    2 * source.utf8ByteSize < 64 ∧ ∃ motions, walk? 64 source = some (motions, parse source) ∧
      motions.Pairwise Motion.Precedes ∧ motions =
        [.began outer, .began inner, .operand 22 24, .continued inner 22 24, .returned inner 26 24,
          .operand 10 26, .continued outer 10 26, .returned outer 28 26, .operand 0 28] := by
  intro source outer inner
  have hfuel : 2 * source.utf8ByteSize < 64 := by decide +kernel
  obtain ⟨motions, hwalk, -, hended, -⟩ := walk_ends source hfuel
  have hlog : (walk? 64 source).map Prod.fst = some
      [.began outer, .began inner, .operand 22 24, .continued inner 22 24, .returned inner 26 24,
        .operand 10 26, .continued outer 10 26, .returned outer 28 26, .operand 0 28] := by
    decide +kernel
  rw [hwalk] at hlog
  exact ⟨hfuel, motions, hwalk, hended, Option.some.inj hlog⟩

end Expr

end Polish

import Polish.Proofs.Scanning
import Polish.Cursor

/-!
Cursors under any moves. A cursor can be set to any byte offset; it passes blanks and reads exactly
where a character begins or the text ends, and from there it does what a new cursor does on the rest of
the text. A move that succeeds ends where a character begins, so a cursor that is only ever set back to
where it has stood is never stranded. Main statement: `moves_anywhere`, this is so after any row of
moves.

    text = skipped ++ portion ++ …
                  ▲          ▲
               position   position + byteLength portion
-/

namespace Polish

open Text

/-- Bytes cannot be dropped if there are too few of them, or if a character would be cut. -/
theorem dropBytes?_eq_none {n : Nat} {cs : List Char} :
    dropBytes? n cs = none ↔ byteLength cs < n ∨ ∃ before d after, cs = before ++ d :: after ∧
      byteLength before < n ∧ n < byteLength before + d.utf8Size := by
  induction cs generalizing n with
  | nil =>
    cases n with
    | zero => simp [dropBytes?]
    | succ n => simp [dropBytes?]
  | cons c cs ih =>
    have hc := c.utf8Size_pos
    cases n with
    | zero => simp [dropBytes?]
    | succ n =>
      rw [dropBytes?]
      split
      · rename_i hfits
        rw [ih, byteLength_cons]
        constructor
        · rintro (hlong | ⟨before, d, after, rfl, hlow, hhigh⟩)
          · exact .inl (by omega)
          · exact .inr ⟨c :: before, d, after, rfl, by rw [byteLength_cons]; omega,
              by rw [byteLength_cons]; omega⟩
        · rintro (hlong | ⟨before, d, after, hcs, hlow, hhigh⟩)
          · exact .inl (by omega)
          · cases before with
            | nil =>
              -- the first character is not the one that is cut
              obtain ⟨rfl, -⟩ := List.cons.inj hcs
              rw [byteLength_nil] at hhigh
              omega
            | cons e before =>
              obtain ⟨rfl, rfl⟩ := List.cons.inj hcs
              rw [byteLength_cons] at hlow hhigh
              exact .inr ⟨before, d, after, rfl, by omega, by omega⟩
      · rename_i hcut
        refine iff_of_true rfl (.inr ⟨[], c, cs, rfl, ?_, ?_⟩)
        · exact Nat.succ_pos n
        · rw [byteLength_nil]
          omega

namespace Cursor

/-! ### Where a cursor can read -/

/-- A character begins where the cursor stands, or the text ends there. -/
def OnBoundary (c : Cursor) : Prop :=
  ∃ skipped rest, c.text = skipped ++ rest ∧ byteLength skipped = c.position

/-- The cursor stands between the bytes of a character. -/
def InsideCharacter (c : Cursor) : Prop :=
  ∃ before d after, c.text = before ++ d :: after ∧ byteLength before < c.position ∧
    c.position < byteLength before + d.utf8Size

theorem onBoundary_iff {c : Cursor} : c.OnBoundary ↔ ∃ rest, c.ahead? = some rest := by
  simp only [ahead?, dropBytes?_eq_some]
  exact exists_comm

theorem ahead?_eq_none {c : Cursor} :
    c.ahead? = none ↔ byteLength c.text < c.position ∨ c.InsideCharacter :=
  dropBytes?_eq_none

/-- A cursor at the end of its text or beyond has nothing ahead. -/
theorem isAtEnd_iff {c : Cursor} {rest : List Char} (h : c.ahead? = some rest) :
    c.isAtEnd = true ↔ rest = [] := by
  obtain ⟨skipped, htext, hposition⟩ := dropBytes?_eq_some.1 h
  rw [isAtEnd, decide_eq_true_iff, htext, byteLength_append, hposition]
  constructor
  · intro hle
    cases rest with
    | nil => rfl
    | cons d rest =>
      have hd := d.utf8Size_pos
      rw [byteLength_cons] at hle
      omega
  · rintro rfl
    rw [byteLength_nil]
    omega

/-! ### One move -/

/-- The moves that look at the text: all but setting the cursor. -/
inductive Move.Looking : Move → Prop where
  | skipBlanks : Looking .skipBlanks
  | readPiece : Looking .readPiece

/-- The characters that a move passes, of those ahead. -/
def Move.portion (cs : List Char) : Move → List Char
  | .skipBlanks => (cut isBlank cs).1
  | .readPiece => (splitPiece cs).1
  | .rewind _ => []

/-- What a move answers in front of characters. -/
def Move.reply (cs : List Char) : Move → Reply
  | .readPiece => .piece (splitPiece cs).1
  | _ => .moved

theorem Move.exists_append_portion (m : Move) (cs : List Char) :
    ∃ rest, cs = m.portion cs ++ rest := by
  cases m with
  | skipBlanks => exact ⟨_, (cut_append isBlank cs).symm⟩
  | readPiece => exact ⟨_, (splitPiece_append cs).symm⟩
  | rewind position => exact ⟨cs, rfl⟩

theorem Move.reply_ne_stranded (m : Move) (cs : List Char) : m.reply cs ≠ .stranded := by
  cases m <;> exact nofun

variable {c : Cursor} {m : Move}

theorem step_of_ahead (hm : m.Looking) {rest : List Char} (h : c.ahead? = some rest) :
    c.step m = (m.reply rest, c.advance (m.portion rest)) := by
  cases hm with
  | skipBlanks => simp only [step, skipBlanks?, h, Option.map_some]; rfl
  | readPiece => simp only [step, readPiece?, h, Option.map_some]; rfl

theorem step_of_none (hm : m.Looking) (h : c.ahead? = none) : c.step m = (.stranded, c) := by
  cases hm with
  | skipBlanks => simp only [step, skipBlanks?, h, Option.map_none]
  | readPiece => simp only [step, readPiece?, h, Option.map_none]

theorem stranded_iff (hm : m.Looking) : (c.step m).1 = .stranded ↔ c.ahead? = none := by
  cases h : c.ahead? with
  | none => simp [step_of_none hm h]
  | some rest =>
    rw [step_of_ahead hm h]
    exact iff_of_false (m.reply_ne_stranded rest) nofun

/-- A move that looks at the text and succeeds finds a place where a character begins. -/
theorem exists_ahead (hm : m.Looking) (h : (c.step m).1 ≠ .stranded) :
    ∃ rest, c.ahead? = some rest :=
  Option.ne_none_iff_exists'.1 (mt (stranded_iff hm).2 h)

/-- Behind what a move has passed, the rest of the characters ahead is still ahead. -/
theorem ahead?_advance {portion rest : List Char} (h : c.ahead? = some (portion ++ rest)) :
    (c.advance portion).ahead? = some rest := by
  obtain ⟨skipped, htext, hposition⟩ := dropBytes?_eq_some.1 h
  refine dropBytes?_eq_some.2 ⟨skipped ++ portion, ?_, ?_⟩
  · rw [List.append_assoc]
    exact htext
  · rw [byteLength_append, hposition]
    rfl

/-- A move that looks at the text and succeeds ends where a character begins. -/
theorem onBoundary_step (hm : m.Looking) (h : (c.step m).1 ≠ .stranded) :
    (c.step m).2.OnBoundary := by
  obtain ⟨rest, hrest⟩ := exists_ahead hm h
  obtain ⟨tail, htail⟩ := m.exists_append_portion rest
  rw [step_of_ahead hm hrest, onBoundary_iff]
  rw [htail] at hrest
  exact ⟨tail, ahead?_advance hrest⟩

theorem ahead?_start (cs : List Char) : (start cs).ahead? = some cs :=
  dropBytes?_eq_some.2 ⟨[], rfl, rfl⟩

/-- Behind blanks passed, nothing is read exactly at the end of the text. -/
theorem readPiece_of_skipBlanks (h : (c.step .skipBlanks).1 ≠ .stranded) :
    ((c.step .skipBlanks).2.step .readPiece).1 = .piece [] ↔
      (c.step .skipBlanks).2.isAtEnd = true := by
  obtain ⟨rest, hrest⟩ := exists_ahead .skipBlanks h
  have hbehind : (c.step .skipBlanks).2.ahead? = some (rest.dropWhile isBlank) := by
    rw [step_of_ahead .skipBlanks hrest]
    rw [← cut_append isBlank rest] at hrest
    exact ahead?_advance hrest
  rw [isAtEnd_iff hbehind, step_of_ahead .readPiece hbehind]
  show Reply.piece (takePiece rest).1 = .piece [] ↔ rest.dropWhile isBlank = []
  rw [Reply.piece.injEq, takePiece_fst_eq_nil]

/-! ### Rows of moves -/

/-- The cursor after a row of moves. -/
def after (c : Cursor) (moves : List Move) : Cursor := moves.foldl (fun c m => (c.step m).2) c

/-- Where the cursor stands, in front of a row of moves and after each of them. -/
def positions (c : Cursor) (moves : List Move) : List Nat :=
  c.position :: (c.run moves).map fun r => r.2.position

/-- Whenever one of the moves sets the cursor, it is to where the cursor has stood before. -/
def Returning (c : Cursor) (moves : List Move) : Prop :=
  ∀ front n back, moves = front ++ .rewind n :: back → n ∈ c.positions front

theorem text_step (c : Cursor) (m : Move) : (c.step m).2.text = c.text := by
  cases m <;> cases h : c.ahead? <;> simp [step, skipBlanks?, readPiece?, h, advance, rewind]

theorem text_after (c : Cursor) (moves : List Move) : (c.after moves).text = c.text := by
  induction moves generalizing c with
  | nil => rfl
  | cons m moves ih => exact (ih _).trans (c.text_step m)

/-- A move from where a character begins succeeds and ends where one begins, if setting the cursor is
to such a place. -/
theorem step_returning (h : c.OnBoundary)
    (hset : ∀ n, m = .rewind n → (c.rewind n).OnBoundary) :
    (c.step m).1 ≠ .stranded ∧ (c.step m).2.OnBoundary := by
  obtain ⟨rest, hrest⟩ := onBoundary_iff.1 h
  have hlooking (hm : m.Looking) : (c.step m).1 ≠ .stranded := by
    rw [step_of_ahead hm hrest]
    exact m.reply_ne_stranded rest
  cases m with
  | skipBlanks =>
    exact ⟨hlooking .skipBlanks, onBoundary_step .skipBlanks (hlooking .skipBlanks)⟩
  | readPiece => exact ⟨hlooking .readPiece, onBoundary_step .readPiece (hlooking .readPiece)⟩
  | rewind n => exact ⟨nofun, hset n rfl⟩

/-- A row of moves is never stranded if each setting is to a known place where a character begins, or
to where the cursor has stood since. -/
theorem run_of_known (known : List Nat) {moves : List Move} (h : c.OnBoundary)
    (hknown : ∀ n ∈ known, (c.rewind n).OnBoundary)
    (hmoves : ∀ front n back, moves = front ++ .rewind n :: back →
      n ∈ known ∨ n ∈ c.positions front) :
    ∀ r ∈ c.run moves, r.1 ≠ .stranded := by
  induction moves generalizing c known with
  | nil => exact fun r hr => absurd hr List.not_mem_nil
  | cons m moves ih =>
    have hset : ∀ n, m = .rewind n → (c.rewind n).OnBoundary := by
      rintro n rfl
      rcases hmoves [] n moves rfl with hn | hn
      · exact hknown n hn
      · rw [List.mem_singleton.1 hn]
        exact h
    obtain ⟨hanswer, hnext⟩ := step_returning h hset
    have htext := c.text_step m
    -- the place that is left now is known from here on
    refine List.forall_mem_cons.2 ⟨hanswer, ih (c.position :: known) hnext ?_ ?_⟩
    · rw [OnBoundary] at h
      simp only [OnBoundary, rewind, htext] at hknown ⊢
      exact List.forall_mem_cons.2 ⟨h, hknown⟩
    · intro front n back hrow
      rcases hmoves (m :: front) n back (by rw [hrow]; rfl) with hn | hn
      · exact .inl (List.mem_cons_of_mem _ hn)
      · rcases List.mem_cons.1 hn with rfl | hn
        · exact .inl List.mem_cons_self
        · exact .inr hn

theorem run_of_returning {moves : List Move} (h : c.OnBoundary) (hmoves : c.Returning moves) :
    ∀ r ∈ c.run moves, r.1 ≠ .stranded :=
  run_of_known [] h (fun _ hn => absurd hn List.not_mem_nil)
    fun front n back hrow => .inr (hmoves front n back hrow)

/-- A cursor after any moves. Passing blanks and reading are impossible exactly beyond the end of the
text and inside a character. If possible they do not move back and end where a character begins, and
they answer and advance as a new cursor does on the rest of the text. Directly behind blanks passed the
empty piece is read exactly at the end. And if each move that set the cursor was to where it had stood
before, none of the moves was impossible. -/
theorem moves_anywhere (source : String) (moves : List Move) :
    let c := (start source.toList).after moves
    c.text = source.toList ∧
      (∀ m : Move, m.Looking →
        ((c.step m).1 = .stranded ↔ source.utf8ByteSize < c.position ∨ c.InsideCharacter)) ∧
      (∀ m : Move, m.Looking → (c.step m).1 ≠ .stranded →
        c.position ≤ (c.step m).2.position ∧ (c.step m).2.OnBoundary ∧
          ∃ skipped rest length, source.toList = skipped ++ rest ∧
            byteLength skipped = c.position ∧
            (start rest).step m = ((c.step m).1, ⟨rest, length⟩) ∧
            (c.step m).2 = ⟨source.toList, c.position + length⟩) ∧
      ((c.step .skipBlanks).1 ≠ .stranded →
        (((c.step .skipBlanks).2.step .readPiece).1 = .piece [] ↔
          (c.step .skipBlanks).2.isAtEnd = true)) ∧
      ((start source.toList).Returning moves →
        ∀ r ∈ (start source.toList).run moves, r.1 ≠ .stranded) := by
  intro c
  have htext : c.text = source.toList := text_after _ moves
  have hlength : source.utf8ByteSize = byteLength c.text := by
    rw [htext, byteLength_toList]
  refine ⟨htext, fun m hm => ?_, fun m hm h => ?_, readPiece_of_skipBlanks,
    run_of_returning ⟨[], source.toList, rfl, rfl⟩⟩
  · rw [stranded_iff hm, ahead?_eq_none, hlength]
  · obtain ⟨rest, hahead⟩ := exists_ahead hm h
    obtain ⟨skipped, hskipped, hposition⟩ := dropBytes?_eq_some.1 hahead
    rw [htext] at hskipped
    have hstep := step_of_ahead hm hahead
    refine ⟨?_, onBoundary_step hm h, skipped, rest, byteLength (m.portion rest), hskipped,
      hposition, ?_, ?_⟩
    · rw [hstep]
      exact Nat.le_add_right _ _
    · rw [hstep, step_of_ahead hm (ahead?_start rest), advance, start, Nat.zero_add]
    · rw [hstep, advance, htext]

/-- A cursor set between the two bytes of the first character, and a row of moves that goes back to the
end of that character. -/
theorem moves_anywhere_of_accent :
    let c := (start "é x".toList).after [.readPiece, .rewind 1]
    let moves : List Move := [.readPiece, .skipBlanks, .rewind 2, .skipBlanks, .readPiece]
    c.InsideCharacter ∧ (c.step .readPiece).1 = .stranded ∧
      (start "é x".toList).Returning moves ∧
      ∀ r ∈ (start "é x".toList).run moves, r.1 ≠ .stranded := by
  intro c moves
  have hinside : c.InsideCharacter := ⟨[], 'é', [' ', 'x'], by decide, by decide, by decide⟩
  have hreturning : (start "é x".toList).Returning moves := by
    intro front n back hrow
    have hfront : front = [.readPiece, .skipBlanks] ∧ n = 2 ∧ back = [.skipBlanks, .readPiece] := by
      simpa [moves, List.cons_eq_append_iff] using hrow
    obtain ⟨rfl, rfl, -⟩ := hfront
    decide +kernel
  obtain ⟨-, hstranded, -⟩ := moves_anywhere "é x" [.readPiece, .rewind 1]
  obtain ⟨-, -, -, -, hrun⟩ := moves_anywhere "é x" moves
  exact ⟨hinside, (hstranded .readPiece .readPiece).2 (.inr hinside), hreturning, hrun hreturning⟩

end Cursor

end Polish

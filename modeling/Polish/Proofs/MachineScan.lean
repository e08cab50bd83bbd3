import Polish.Attempt
import Polish.Machine
import Polish.Proofs.Scanning

/-!
The machine on a scan. It takes the tokens as the scan finds them, and so it can tell where it stops
and which operators it took up before. Main statements: `outcome_readScan`, the place apart it ends as
the machine on the row of tokens does, and `readScan_extend`, once it has refused a token, more text
at the end changes nothing.
-/

namespace Polish.Machine

open Text

/-- Where a cause noticed at the next token of a scan is placed: behind the token. An operation closed
without any operand is blamed on its operator, and the closing parenthesis is not counted. -/
def blame (s : Scan) : ParseError.Cause → Fault
  | .noArguments operator => ⟨.noArguments operator, s.column⟩
  | cause => ⟨cause, s.next.after.column⟩

@[simp] theorem cause_blame (s : Scan) (cause : ParseError.Cause) :
    (blame s cause).cause = cause := by
  cases cause <;> rfl

/-- The operators that taking the next token of a scan takes up. -/
def takenUp (s : Scan) : State → List Dispatch
  | .begun _ =>
    ((Operator.ofSymbol? s.next.token.text).map fun o => ⟨o, s.next.after.offset⟩).toList
  | _ => []

/-- Reads the text ahead of a scan, one token after the other. -/
def readScan (state : State) (s : Scan) : Attempt Expr :=
  if h : s.next.token = .endOfInput then ⟨[], (finish state).mapError (blame s)⟩
  else
    match step state s.next.token with
    | .error cause => ⟨[], .error (blame s cause)⟩
    | .ok state' => do
      have := s.next.shorter h
      (⟨takenUp s state, .ok ()⟩ : Attempt Unit)
      readScan state' s.next.after
  termination_by s.ahead.length

theorem readScan_of_end {s : Scan} (h : s.next.token = .endOfInput) (state : State) :
    readScan state s = ⟨[], (finish state).mapError (blame s)⟩ := by
  rw [readScan, dif_pos h]

theorem readScan_of_error {s : Scan} {state : State} {cause : ParseError.Cause}
    (h : s.next.token ≠ .endOfInput) (hstep : step state s.next.token = .error cause) :
    readScan state s = ⟨[], .error (blame s cause)⟩ := by
  rw [readScan, dif_neg h, hstep]

theorem readScan_of_ok {s : Scan} {state state' : State} (h : s.next.token ≠ .endOfInput)
    (hstep : step state s.next.token = .ok state') :
    readScan state s = (⟨takenUp s state, .ok ()⟩ : Attempt Unit) >>= fun _ =>
      readScan state' s.next.after := by
  rw [readScan, dif_neg h, hstep]

theorem run_cons (state : State) (t : Token) (ts : List Token) :
    run state (t :: ts) = step state t >>= fun state' => run state' ts := rfl

/-- The tokens of a row are taken if the first is and then the rest are. -/
theorem run_cons_eq_ok {state state' : State} {t : Token} {ts : List Token} :
    run state (t :: ts) = .ok state' ↔ ∃ next, step state t = .ok next ∧ run next ts = .ok state' := by
  rw [run_cons]
  cases hstep : step state t with
  | error cause => exact ⟨nofun, fun ⟨_, h, _⟩ => nomatch h⟩
  | ok next => simp [bind, Except.bind]

/-- The place apart, the machine on a scan ends as it does on the tokens of the text ahead. -/
theorem outcome_readScan (state : State) (s : Scan) :
    (readScan state s).outcome.mapError Fault.cause = run state (tokensOf s.ahead) >>= finish := by
  induction s using Scan.next_induction generalizing state with
  | last s h =>
    rw [readScan_of_end h, Scan.tokensOf_ahead_of_end h]
    show _ = finish state
    rcases finish state with cause | e
    · exact congrArg Except.error (cause_blame s cause)
    · rfl
  | token s h ih =>
    rw [Scan.tokensOf_ahead h, run_cons]
    rcases hstep : step state s.next.token with cause | state'
    · rw [readScan_of_error h hstep]
      exact congrArg Except.error (cause_blame s cause)
    · rw [readScan_of_ok h hstep]
      exact ih state'

/-- A refused token is refused whatever text follows at the end, and at the same place. -/
theorem readScan_extend {s : Scan} {state : State} {cause : ParseError.Cause} {ws : List Char}
    (hapart : Apart s.ahead ws) (hrun : run state (tokensOf s.ahead) = .error cause) :
    readScan state (s.extend ws) = readScan state s := by
  induction s using Scan.next_induction generalizing state with
  | last s h =>
    rw [Scan.tokensOf_ahead_of_end h] at hrun
    cases hrun
  | token s h ih =>
    obtain ⟨htoken, hafter⟩ := Scan.next_extend h hapart
    have h' : (s.extend ws).next.token ≠ .endOfInput := htoken ▸ h
    rw [Scan.tokensOf_ahead h, run_cons] at hrun
    have hblame : blame (s.extend ws) = blame s := by
      funext c
      cases c <;> simp only [blame, hafter] <;> rfl
    have htaken : takenUp (s.extend ws) state = takenUp s state := by
      cases state <;> simp only [takenUp, htoken, hafter]
      rfl
    rcases hstep : step state s.next.token with cause' | state'
    · rw [readScan_of_error h hstep, readScan_of_error h' (htoken ▸ hstep), hblame]
    · rw [hstep] at hrun
      rw [readScan_of_ok h hstep, readScan_of_ok h' (htoken ▸ hstep), hafter, htaken,
        ih (Scan.apart_next hapart) hrun]

end Polish.Machine

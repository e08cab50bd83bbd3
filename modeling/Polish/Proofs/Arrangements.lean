import Polish.Proofs.Decimals
import Polish.Proofs.Outcomes
import Polish.Proofs.Requests

/-!
Arguments that ask for an evaluation: an expression, values for some of the variables, perhaps a drawing,
each written in one of its ways and in any order. Main statement: `run_of_arrangement`, the outcome is
the description of the expression at its point or the report on what is wrong with it, however the
arguments are arranged.

    options … expression … options          plain
    options … -- expression                 marked
-/

namespace Polish.CommandLine

open Text

/-- The ways to write a variable's option and its value. -/
inductive Style where
  /-- The option by one letter, the value behind it: `-x 1`. -/
  | short
  /-- The value written on to the letter: `-x1`. -/
  | joined
  /-- The same with an equals sign: `-x=1`. -/
  | shortEquals
  /-- The option by its name, the value behind it: `--x 1`. -/
  | long
  /-- The name, an equals sign and the value: `--x=1`. -/
  | longEquals
  deriving DecidableEq

/-- The arguments that give a variable the value of a text. -/
def Style.arguments (v : Variable) (text : String) : Style → List String
  | short => ["-" ++ v.name, text]
  | joined => ["-" ++ v.name ++ text]
  | shortEquals => ["-" ++ v.name ++ "=" ++ text]
  | long => ["--" ++ v.name, text]
  | longEquals => ["--" ++ v.name ++ "=" ++ text]

/-- An option and the way it is written. -/
inductive Choice where
  | value (v : Variable) (style : Style) (text : String)
  | drawing
  | quiet
  deriving DecidableEq

namespace Choice

def arguments : Choice → List String
  | value v style text => style.arguments v text
  | drawing => ["--tree"]
  | quiet => ["-q"]

/-- The variable that an option is about. -/
def assigned? : Choice → Option Variable
  | value v _ _ => some v
  | _ => none

/-- The value of an option is a number. -/
def Readable : Choice → Prop
  | value _ _ text => ∃ number, Decimal.Denotes text.toList number
  | _ => True

instance : DecidablePred Readable
  | value _ _ text => decidable_of_iff _ (Decimal.isSome_read? text)
  | drawing => .isTrue trivial
  | quiet => .isTrue trivial

/-- The value that is read for a variable from an option. -/
def value? (v : Variable) : Choice → Option Float
  | value w _ text => if w = v then Decimal.read? text else none
  | _ => none

/-- What an option requests, however it is written. -/
def request : Choice → Request
  | value v _ text => .assign v text.toList
  | drawing => .drawing
  | quiet => .quiet

end Choice

/-- Options on both sides of an expression, or options, the terminator and the expression. -/
inductive Arrangement where
  | plain (before : List Choice) (expression : String) (after : List Choice)
  | marked (choices : List Choice) (expression : String)

namespace Arrangement

def expression : Arrangement → String
  | plain _ expression _ => expression
  | marked _ expression => expression

/-- The options from the first to the last. -/
def choices : Arrangement → List Choice
  | plain before _ after => before ++ after
  | marked choices _ => choices

def arguments : Arrangement → List String
  | plain before expression after =>
    before.flatMap Choice.arguments ++ expression :: after.flatMap Choice.arguments
  | marked choices expression => choices.flatMap Choice.arguments ++ ["--", expression]

/-- `a.Gives p`: the options give the variables the coordinates of the point. A variable that has an
option has the number that the text of its option denotes, and any other has zero. -/
structure Gives (a : Arrangement) (p : Point) : Prop where
  assigned : ∀ v style text, .value v style text ∈ a.choices → Decimal.Denotes text.toList (p.value v)
  unassigned : ∀ v, (∀ style text, .value v style text ∉ a.choices) → p.value v = 0

/-- The values that are read for the variables, and zero for the others. -/
def point (a : Arrangement) : Point := pointAt fun v => a.choices.findSome? (Choice.value? v)

/-- Whether the drawing is asked for. -/
def draws (a : Arrangement) : Bool := a.choices.contains .drawing

/-- In front of the terminator an expression that begins with a dash would be taken for an option. -/
def Unmistakable : Arrangement → Prop
  | plain _ expression _ => expression.toList.head? ≠ some '-'
  | marked _ _ => True

instance : DecidablePred Unmistakable
  | plain _ expression _ => inferInstanceAs (Decidable (expression.toList.head? ≠ some '-'))
  | marked _ _ => .isTrue trivial

/-- The arguments are in order: every value is a number, and no option but quiet comes twice. -/
structure Valid (a : Arrangement) : Prop where
  unmistakable : a.Unmistakable
  readable : ∀ c ∈ a.choices, c.Readable
  nodup : (a.choices.filterMap Choice.assigned?).Nodup
  drawing : a.choices.count .drawing ≤ 1

instance (a : Arrangement) : Decidable a.Valid :=
  decidable_of_iff (a.Unmistakable ∧ (∀ c ∈ a.choices, c.Readable) ∧
      (a.choices.filterMap Choice.assigned?).Nodup ∧ a.choices.count .drawing ≤ 1)
    ⟨fun h => ⟨h.1, h.2.1, h.2.2.1, h.2.2.2⟩, fun h => ⟨h.1, h.2, h.3, h.4⟩⟩

end Arrangement

/-! ### Arguments spelled out -/

theorem named?_name (v : Variable) : named? v.name.toList = some v := by
  rw [named?, String.ofList_toList, Variable.ofName?_eq_some]

theorem spell_short (v : Variable) (cs : List Char) : spell ('-' :: (v.name.toList ++ cs)) =
    if cs = [] then ⟨[], some v⟩ else ⟨[.assign v (attached cs)], none⟩ := by
  have hname := named?_name v
  cases v <;> simp_all [spell, spellShort, Variable.name]

theorem spell_long (v : Variable) : spell ('-' :: '-' :: v.name.toList) = ⟨[], some v⟩ := by
  have hname := named?_name v
  cases v <;> simp_all [spell, spellLong, splitName, Variable.name]

theorem spell_long_equals (v : Variable) (cs : List Char) :
    spell ('-' :: '-' :: (v.name.toList ++ '=' :: cs)) = ⟨[.assign v cs], none⟩ := by
  have hname := named?_name v
  cases v <;> simp_all [spell, spellLong, splitName, Variable.name]

theorem spell_expression {cs : List Char} (h : cs.head? ≠ some '-') :
    spell cs = ⟨[.expression cs], none⟩ := by
  cases cs with
  | nil => rfl
  | cons c cs =>
    have hc : c ≠ '-' := fun he => h (congrArg some he)
    rw [spell]
    · simp [hc]
    · simp [hc]

/-- A number is not empty and does not begin with an equals sign, so it can be written on to a letter. -/
theorem attached_of_denotes {cs : List Char} {number : Float} (h : Decimal.Denotes cs number) :
    cs ≠ [] ∧ attached cs = cs := by
  obtain ⟨c, rest, rfl, hc⟩ := h.head
  refine ⟨List.cons_ne_nil c rest, ?_⟩
  unfold attached
  split
  · rename_i heq
    exact absurd (List.cons.inj heq).1 hc
  · rfl

variable {arg : List Char}

theorem requests_cons_of_complete {rs : List Request} (hne : arg ≠ ['-', '-'])
    (h : spell arg = ⟨rs, none⟩) (rest : List (List Char)) :
    requests (arg :: rest) = rs ++ requests rest := by
  simp [requests, hne, h]

theorem requests_cons_of_pending {v : Variable} (hne : arg ≠ ['-', '-'])
    (h : spell arg = ⟨[], some v⟩) (value : List Char) (rest : List (List Char)) :
    requests (arg :: value :: rest) = .assign v value :: requests rest := by
  simp [requests, hne, h]

theorem short_ne_terminator (v : Variable) (cs : List Char) :
    '-' :: (v.name.toList ++ cs) ≠ ['-', '-'] := by
  cases v <;> simp [Variable.name]

theorem long_ne_terminator (v : Variable) (cs : List Char) :
    '-' :: '-' :: (v.name.toList ++ cs) ≠ ['-', '-'] := by
  cases v <;> simp [Variable.name]

/-- All ways to write a variable's option are one request. -/
theorem requests_style (v : Variable) {text : String} {number : Float}
    (h : Decimal.Denotes text.toList number) (rest : List (List Char)) : (style : Style) →
    requests ((style.arguments v text).map String.toList ++ rest) =
      .assign v text.toList :: requests rest
  | .short => by
    have hspell := spell_short v []
    rw [if_pos rfl] at hspell
    have hrequests := requests_cons_of_pending (short_ne_terminator v []) hspell text.toList rest
    simpa [Style.arguments] using hrequests
  | .joined => by
    obtain ⟨hne, hattached⟩ := attached_of_denotes h
    have hspell := spell_short v text.toList
    rw [if_neg hne, hattached] at hspell
    have hrequests := requests_cons_of_complete (short_ne_terminator v text.toList) hspell rest
    simpa [Style.arguments] using hrequests
  | .shortEquals => by
    have hspell := spell_short v ('=' :: text.toList)
    rw [if_neg (List.cons_ne_nil _ _)] at hspell
    have hrequests := requests_cons_of_complete (short_ne_terminator v _) hspell rest
    simpa [Style.arguments, attached] using hrequests
  | .long => by
    have hne := long_ne_terminator v []
    rw [List.append_nil] at hne
    have hrequests := requests_cons_of_pending hne (spell_long v) text.toList rest
    simpa [Style.arguments] using hrequests
  | .longEquals => by
    have hspell := spell_long_equals v text.toList
    have hrequests := requests_cons_of_complete (long_ne_terminator v _) hspell rest
    simpa [Style.arguments] using hrequests

theorem requests_choice {c : Choice} (h : c.Readable) (rest : List (List Char)) :
    requests (c.arguments.map String.toList ++ rest) = c.request :: requests rest := by
  cases c with
  | value v style text =>
    obtain ⟨number, hnumber⟩ := h
    exact requests_style v hnumber rest style
  | drawing =>
    have hspell : spell "--tree".toList = ⟨[.drawing], none⟩ := by decide
    exact requests_cons_of_complete (by decide) hspell rest
  | quiet =>
    have hspell : spell "-q".toList = ⟨[.quiet], none⟩ := by decide
    exact requests_cons_of_complete (by decide) hspell rest

theorem requests_choices : {cs : List Choice} → (∀ c ∈ cs, c.Readable) →
    ∀ rest : List (List Char),
      requests ((cs.flatMap Choice.arguments).map String.toList ++ rest) =
        cs.map Choice.request ++ requests rest
  | [], _, _ => rfl
  | c :: cs, h, rest => by
    obtain ⟨hc, hcs⟩ := List.forall_mem_cons.1 h
    rw [List.flatMap_cons, List.map_append, List.append_assoc, requests_choice hc,
      requests_choices hcs rest, List.map_cons, List.cons_append]

namespace Arrangement

/-- What an arrangement requests: the expression between the options on its two sides. -/
theorem requests_arguments {a : Arrangement} (h : a.Valid) :
    ∃ before after, a.choices = before ++ after ∧ requests (a.arguments.map String.toList) =
      before.map Choice.request ++ .expression a.expression.toList :: after.map Choice.request := by
  have hreadable := h.readable
  cases a with
  | plain before expression after =>
    have hexpression := spell_expression h.unmistakable
    obtain ⟨hbefore, hafter⟩ := List.forall_mem_append.1 hreadable
    have hne : expression.toList ≠ ['-', '-'] := fun he => h.unmistakable (congrArg List.head? he)
    refine ⟨before, after, rfl, ?_⟩
    have hrest := requests_choices hafter []
    rw [List.append_nil, requests, List.append_nil] at hrest
    rw [arguments, List.map_append, requests_choices hbefore, List.map_cons,
      requests_cons_of_complete hne hexpression, hrest]
    rfl
  | marked choices expression =>
    have hchoices : ∀ c ∈ choices, c.Readable := hreadable
    refine ⟨choices, [], (List.append_nil choices).symm, ?_⟩
    rw [arguments, List.map_append, requests_choices hchoices]
    rfl

end Arrangement

/-! ### Requests settled -/

namespace Choice

theorem text?_request (c : Choice) : c.request.text? = none := by cases c <;> rfl

theorem assigned?_request (c : Choice) : c.request.assigned? = c.assigned? := by cases c <;> rfl

theorem value?_request (v : Variable) (c : Choice) : c.request.value? v = c.value? v := by
  cases c with
  | value w style text => rw [request, Request.value?, value?, String.ofList_toList]
  | drawing => rfl
  | quiet => rfl

theorem request_eq_drawing {c : Choice} : c.request = .drawing ↔ c = .drawing := by
  cases c <;> simp [request]

theorem Readable.sound {c : Choice} (h : c.Readable) : c.request.Sound := by
  cases c with
  | value v style text =>
    obtain ⟨number, hnumber⟩ := h
    exact .assign v (by rwa [String.ofList_toList, Decimal.read?_eq_some])
  | drawing => exact .drawing
  | quiet => exact .quiet

theorem filterMap_text? (cs : List Choice) : (cs.map request).filterMap Request.text? = [] := by
  rw [List.filterMap_map, List.filterMap_eq_nil_iff]
  exact fun c _ => c.text?_request

theorem filterMap_assigned? (cs : List Choice) :
    (cs.map request).filterMap Request.assigned? = cs.filterMap assigned? := by
  rw [List.filterMap_map]
  exact List.filterMap_congr fun c _ => c.assigned?_request

theorem findSome?_value? (v : Variable) (cs : List Choice) :
    (cs.map request).findSome? (Request.value? v) = cs.findSome? (value? v) := by
  rw [List.findSome?_map]
  exact congrArg (cs.findSome? ·) (funext (value?_request v))

theorem count_drawing (cs : List Choice) :
    (cs.map request).count .drawing = cs.count .drawing := by
  induction cs with
  | nil => rfl
  | cons c cs ih => simp only [List.map_cons, List.count_cons, ih, beq_iff_eq, request_eq_drawing]

end Choice

namespace Arrangement

variable {a : Arrangement}

/-- The options of valid arguments, on whichever sides of the expression, fit together. -/
theorem Valid.fits (h : a.Valid) {before after : List Choice} (hchoices : a.choices = before ++ after)
    (text : List Char) :
    Fits {} (before.map Choice.request ++ .expression text :: after.map Choice.request) text := by
  have hreadable := h.readable
  have hnodup := h.nodup
  have hdrawing := h.drawing
  rw [hchoices] at hreadable hnodup hdrawing
  obtain ⟨hbefore, hafter⟩ := List.forall_mem_append.1 hreadable
  constructor
  · simp only [List.forall_mem_append, List.forall_mem_cons, List.forall_mem_map]
    exact ⟨fun c hc => (hbefore c hc).sound, .expression _, fun c hc => (hafter c hc).sound⟩
  · have htext : Request.text? (.expression text) = some text := rfl
    rw [List.filterMap_append, List.filterMap_cons_some htext, Choice.filterMap_text?,
      Choice.filterMap_text?]
    rfl
  · rw [List.filterMap_append, List.filterMap_cons_none rfl, Choice.filterMap_assigned?,
      Choice.filterMap_assigned?, ← List.filterMap_append]
    exact hnodup
  · exact fun v _ => rfl
  · rw [List.count_append, List.count_cons_of_ne (by simp), Choice.count_drawing,
      Choice.count_drawing, ← List.count_append, Bool.toNat_false, Nat.zero_add]
    exact hdrawing

/-! ### The point that is given -/

/-- If each variable has one option at most, its option is the one that is found. -/
theorem findSome?_value?_of_mem {v : Variable} {style : Style} {text : String} {number : Float}
    (hnumber : Decimal.read? text = some number) : {cs : List Choice} →
    (cs.filterMap Choice.assigned?).Nodup → .value v style text ∈ cs →
    cs.findSome? (Choice.value? v) = some number
  | [], _, hmem => absurd hmem List.not_mem_nil
  | c :: cs, hnodup, hmem => by
    have hthis : Choice.value? v (.value v style text) = some number := (if_pos rfl).trans hnumber
    rcases List.mem_cons.1 hmem with rfl | hmem
    · rw [List.findSome?_cons, hthis]
    · have hbelow : v ∈ cs.filterMap Choice.assigned? := List.mem_filterMap.2 ⟨_, hmem, rfl⟩
      have hother : c.assigned? ≠ some v := by
        intro hc
        rw [List.filterMap_cons_some hc] at hnodup
        exact (List.nodup_cons.1 hnodup).1 hbelow
      rw [List.findSome?_cons, ← c.value?_request, Request.value?_eq_none (c.assigned?_request ▸ hother)]
      exact findSome?_value?_of_mem hnumber
        (hnodup.sublist ((List.sublist_cons_self c cs).filterMap _)) hmem

theorem value_pointAt (value : Variable → Option Float) (v : Variable) :
    (pointAt value).value v = (value v).getD 0 := by
  cases v <;> rfl

theorem Valid.gives_point (h : a.Valid) : a.Gives a.point where
  assigned := by
    intro v style text hmem
    obtain ⟨number, hnumber⟩ := h.readable _ hmem
    have hfound := findSome?_value?_of_mem (Decimal.read?_eq_some.2 hnumber) h.nodup hmem
    rw [point, value_pointAt, hfound]
    exact hnumber
  unassigned := by
    intro v hnone
    have hfound : a.choices.findSome? (Choice.value? v) = none := by
      rw [List.findSome?_eq_none_iff]
      intro c hc
      cases c with
      | value w style text => exact if_neg fun hw : w = v => hnone style text (hw ▸ hc)
      | drawing => rfl
      | quiet => rfl
    rw [point, value_pointAt, hfound]
    rfl

/-- Arguments give one point at most. -/
theorem Gives.unique {p q : Point} (hp : a.Gives p) (hq : a.Gives q) : p = q := by
  have hvalue (v : Variable) : p.value v = q.value v := by
    by_cases hv : ∃ style text, .value v style text ∈ a.choices
    · obtain ⟨style, text, hmem⟩ := hv
      exact (hp.assigned v style text hmem).unique (hq.assigned v style text hmem)
    · have hnone : ∀ style text, .value v style text ∉ a.choices :=
        fun style text hmem => hv ⟨style, text, hmem⟩
      rw [hp.unassigned v hnone, hq.unassigned v hnone]
  obtain ⟨x, y, z⟩ := p
  exact congr (congr (congrArg Point.mk (hvalue .x)) (hvalue .y)) (hvalue .z)

theorem Valid.gives_iff (h : a.Valid) {p : Point} : a.Gives p ↔ p = a.point :=
  ⟨fun hp => hp.unique h.gives_point, fun hp => hp ▸ h.gives_point⟩

/-! ### The run -/

/-- Valid arguments come to one job, told by what is among them. -/
theorem run_arguments (h : a.Valid) :
    run a.arguments = Job.outcome ⟨a.expression, a.point, a.draws⟩ := by
  obtain ⟨before, after, hchoices, hrequests⟩ := requests_arguments h
  have hvalue : ∀ v : Variable, (before.map Choice.request ++ .expression a.expression.toList ::
      after.map Choice.request).findSome? (Request.value? v) =
        a.choices.findSome? (Choice.value? v) := by
    intro v
    rw [hchoices, List.findSome?_append, List.findSome?_append, List.findSome?_cons,
      Choice.findSome?_value?, Choice.findSome?_value?]
    rfl
  have hdraws : (before.map Choice.request ++ .expression a.expression.toList ::
      after.map Choice.request).contains .drawing = a.draws := by
    rw [draws, hchoices, Bool.eq_iff_iff]
    simp [Choice.request_eq_drawing]
  rw [run, hrequests, settle_of_fits _ (h.fits hchoices _), String.ofList_toList, hdraws]
  simp only [hvalue]
  rfl

/-- The same options, and another expression behind the terminator. -/
theorem Valid.marked (h : a.Valid) (expression : String) :
    (Arrangement.marked a.choices expression).Valid :=
  ⟨trivial, h.readable, h.nodup, h.drawing⟩

/-- Valid arguments are carried out, and in what order and how they are written does not matter: the
outcome depends on the expression, on the point that is given, with zero where no value is, and on whether
the drawing is asked for. A text that is read gets its description at the point, and the drawing below it;
the first line names a text that has the same outcome behind the terminator, after the same options. A text
that is refused gets a report with code 1, and the lines of the report below the third are the message with
four spaces in front of each line. -/
theorem run_of_arrangement (h : a.Valid) :
    ∃ p, (∀ q, a.Gives q ↔ q = p) ∧
    (∀ b : Arrangement, b.Valid → b.expression = a.expression → b.Gives p →
      b.draws = a.draws → run b.arguments = run a.arguments) ∧
    (∀ e, Expr.parse a.expression = .ok e →
      ∃ value text line, e.value? p = some value ∧ e.describe? p = some text ∧
        text = "prefix:  " ++ e.prefixText ++ "\npostfix: " ++ e.postfixText ++
          "\nvalue:   " ++ Decimal.text value ∧
        run a.arguments = ⟨0, text ++ "\n" ++ (if a.draws then e.drawing else ""), ""⟩ ∧
        (fields '\n' (run a.arguments).stdout).head? = some ("prefix:  " ++ line) ∧
        run (Arrangement.marked a.choices line).arguments = run a.arguments) ∧
    ∀ err, Expr.parse a.expression = .error err →
      (run a.arguments).code = 1 ∧ (run a.arguments).stdout = "" ∧
      ∃ first rest,
        fields '\n' (run a.arguments).stderr = first :: "" :: "Caused by:" :: rest ∧
        rest = (fields '\n' err.message).map ("    " ++ ·) ++ [""] ∧
        "\n".intercalate (rest.map outdent) = err.message ++ "\n" := by
  rw [run_arguments h]
  refine ⟨a.point, fun q => h.gives_iff, fun b hb hexpression hpoint hdraws => ?_, fun e he => ?_,
    fun err herr => ?_⟩
  · rw [run_arguments hb, hexpression, hb.gives_iff.1 hpoint, hdraws]
  · obtain ⟨text, htext, houtcome⟩ := outcome_of_ok he a.point a.draws
    obtain ⟨value, hvalue, hdescription⟩ := Option.map_eq_some_iff.1 htext
    refine ⟨value, text, e.prefixText, hvalue, htext, hdescription.symm, houtcome, ?_, ?_⟩
    · rw [houtcome, String.append_assoc]
      exact head?_fields_describe? htext _
    · rw [run_arguments (h.marked e.prefixText)]
      exact outcome_congr (parse_prefixText_of_parse he) he
  · rw [outcome_of_error herr]
    exact ⟨rfl, rfl, _, _, fields_failure _, rfl, intercalate_outdent _⟩

/-- An evaluation asked for in three ways, one without values, and a text of two lines that is refused. -/
theorem run_of_arrangement_of_sum :
    run ["-x-2.5", "(+ x 1)", "--tree"] = ⟨0, "prefix:  (+ x 1)\npostfix: x 1 +\nvalue:   -1.5\n" ++
        "expression\n└─ +\n   ├─ x\n   └─ 1\n", ""⟩ ∧
      run ["--tree", "-q", "--x=-25e-1", "--", "(+ x 1)"] = run ["-x-2.5", "(+ x 1)", "--tree"] ∧
      (∃ line, run ["-x-2.5", "--tree", "--", line] = run ["-x-2.5", "(+ x 1)", "--tree"]) ∧
      run ["(+ x 1)"] = ⟨0, "prefix:  (+ x 1)\npostfix: x 1 +\nvalue:   1\n", ""⟩ ∧
      run ["-y", "inf", "(+ x\nq)"] = ⟨1, "", "Error: Could not parse expression \"(+ x\\nq)\"\n\n" ++
        "Caused by:\n    Incorrect expression - unknown symbol: q\n    (+ x\n    q)\n         ^\n"⟩ ∧
      ∃ rest, (fields '\n' (run ["-y", "inf", "(+ x\nq)"]).stderr).drop 3 = rest ∧
        "\n".intercalate (rest.map outdent) =
          "Incorrect expression - unknown symbol: q\n(+ x\nq)\n     ^\n" := by
  have hplain : Valid (.plain [.value .x .joined "-2.5"] "(+ x 1)" [.drawing]) := by
    decide +kernel
  have hmarked : Valid (.marked [.drawing, .quiet, .value .x .longEquals "-25e-1"] "(+ x 1)") := by
    decide +kernel
  have hrefused : Valid (.plain [.value .y .short "inf"] "(+ x\nq)" []) := by decide +kernel
  have hnumber : Decimal.read? "-25e-1" = Decimal.read? "-2.5" := by decide +kernel
  have hpoint : point (.marked [.drawing, .quiet, .value .x .longEquals "-25e-1"] "(+ x 1)") =
      point (.plain [.value .x .joined "-2.5"] "(+ x 1)" [.drawing]) := by
    simp [point, choices, Choice.value?, List.findSome?_cons, hnumber]
  have hread : Expr.parse "(+ x 1)" = .ok (.operation .add [.var .x, .integer 1]) := by
    decide +kernel
  have herror : Expr.parse "(+ x\nq)" =
      .error ⟨.unknownSymbol "q", some 6, "(+ x\nq)".toList⟩ := by
    decide +kernel
  have hmessage : ParseError.message ⟨.unknownSymbol "q", some 6, "(+ x\nq)".toList⟩ ++ "\n" =
      "Incorrect expression - unknown symbol: q\n(+ x\nq)\n     ^\n" := by
    decide +kernel
  obtain ⟨p, hgives, hsame, hok, -⟩ := run_of_arrangement hplain
  obtain ⟨-, -, line, -, -, -, -, -, hline⟩ := hok _ hread
  obtain ⟨-, -, -, -, hrefusal⟩ := run_of_arrangement hrefused
  obtain ⟨-, -, _, rest, hfields, -, hrest⟩ := hrefusal _ herror
  have hp : Gives (.marked [.drawing, .quiet, .value .x .longEquals "-25e-1"] "(+ x 1)") p :=
    hmarked.gives_iff.2 (hpoint ▸ ((hgives _).1 hplain.gives_point).symm)
  exact ⟨by decide +kernel, hsame _ hmarked rfl hp (by decide), ⟨line, hline⟩, by decide +kernel,
    by decide +kernel, rest, congrArg (List.drop 3) hfields, hrest.trans hmessage⟩

end Arrangement

end Polish.CommandLine

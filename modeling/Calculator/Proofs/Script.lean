import Mathlib.Data.List.DropRight
import Calculator.CommandLine
import Calculator.Proofs.OneLine

/-!
# Scripts, line by line

A script is the same as its lines, each evaluated by itself. A line feed therefore joins the outputs
of what stands before and behind it. Every line that is not blank has one line of output, since no
value, no tree and no message takes up more than one; it is printed if the line can be read and goes
to the failures if it cannot, whatever comes of the other lines. Whether values or trees are asked
for makes no difference to what fails.

## Main definitions

* `Calculator.Holds`: a text stands in a line, with nothing but blanks around it.
* `Calculator.CommandLine.Task.arguments`: arguments that ask for a task.
* `Calculator.CommandLine.Output.concat`: one output after another.
* `Calculator.CommandLine.IsAnswer`: an output is one line, for an expression.
* `Calculator.CommandLine.IsLineOutput`: an output is that for a line of a script.

## Main results

* `Calculator.lines_eq_splitOn`, `Calculator.holds_iff`: what the lines of a text are, and what
  trimming leaves of them.
* `Calculator.CommandLine.runScript_append_newline`: a line feed joins the outputs of two scripts.
* `Calculator.CommandLine.isAnswer_answer`: every expression has one line of output.
* `Calculator.CommandLine.run_script`: what a script prints, over all contents of its file.
-/

namespace Calculator

/-! ### Lines and blanks at their ends -/

/-- The lines of a text are its pieces between the line feeds. -/
theorem lines_eq_splitOn : (cs : List Char) → lines cs = cs.splitOn '\n'
  | [] => (List.splitOn_nil '\n').symm
  | c :: cs => by
      obtain ⟨l, ls, h⟩ := List.exists_cons_of_ne_nil (List.splitOnP_ne_nil (· == '\n') cs)
      rw [lines_cons, lines_eq_splitOn cs, List.splitOn, List.splitOn,
        List.splitOnP_cons_eq_if_modifyHead, h, consLine]
      by_cases hc : c = '\n'
      · rw [if_pos hc, if_pos (beq_iff_eq.2 hc)]
      · rw [if_neg hc, if_neg (mt beq_iff_eq.1 hc)]
        rfl

/-- The text `ts` stands in the line `l`: it begins and ends with no blank, and around it there is
nothing but blanks. -/
structure Holds (l ts : List Char) : Prop where
  ne_nil : ts ≠ []
  gaps : ∃ gap gap', IsGap gap ∧ IsGap gap' ∧ l = gap ++ (ts ++ gap')
  head : ∀ c ∈ ts.head?, isBlank c = false
  last : ∀ c ∈ ts.getLast?, isBlank c = false

/-- Trimming takes blanks away at both ends, and leaves none there. -/
theorem trim_spec (cs : List Char) :
    (∃ gap gap', IsGap gap ∧ IsGap gap' ∧ cs = gap ++ (trim cs ++ gap')) ∧
      (∀ c ∈ (trim cs).head?, isBlank c = false) ∧
      ∀ c ∈ (trim cs).getLast?, isBlank c = false := by
  have hback : trim cs ++ (cs.dropWhile isBlank).rtakeWhile isBlank = cs.dropWhile isBlank :=
    List.rdropWhile_append_rtakeWhile
  refine ⟨⟨cs.takeWhile isBlank, (cs.dropWhile isBlank).rtakeWhile isBlank, ?_, ?_, ?_⟩, ?_, ?_⟩
  · exact List.all_eq_true.1 List.all_takeWhile
  · exact fun c hc => List.mem_rtakeWhile_imp hc
  · rw [hback, List.takeWhile_append_dropWhile]
  · intro c hc
    have hfirst : c ∈ (cs.dropWhile isBlank).head? := by
      rw [← hback, List.head?_append, hc]
      rfl
    exact Token.eq_false_of_head?_dropWhile c hfirst
  · intro c hc
    rw [trim, List.getLast?_reverse] at hc
    exact Token.eq_false_of_head?_dropWhile c hc

/-- Trimming leaves nothing of a line exactly if the line is blank. -/
theorem trim_eq_nil_iff {l : List Char} : trim l = [] ↔ IsGap l := by
  constructor
  · intro h
    obtain ⟨⟨gap, gap', hgap, hgap', hl⟩, _⟩ := trim_spec l
    rw [hl, h]
    exact List.forall_mem_append.2 ⟨hgap, hgap'⟩
  · intro h
    rw [trim, List.dropWhile_eq_nil_iff.2 h]
    rfl

/-- What stands in a line is what trimming leaves of it. -/
theorem holds_iff {l ts : List Char} : Holds l ts ↔ trim l = ts ∧ ts ≠ [] := by
  constructor
  · rintro ⟨hne, ⟨gap, gap', hgap, hgap', rfl⟩, hhead, hlast⟩
    refine ⟨?_, hne⟩
    have hfirst : ∀ c ∈ (ts ++ gap').head?, isBlank c = false := by
      rwa [List.head?_append_of_ne_nil _ hne]
    have hback : ∀ c ∈ ts.reverse.head?, isBlank c = false := by
      rwa [List.head?_reverse]
    have hgap'' : ∀ c ∈ gap'.reverse, isBlank c = true :=
      fun c hc => hgap' c (List.mem_reverse.1 hc)
    rw [trim, (Token.takeWhile_append_of_stop hgap hfirst).2, List.reverse_append,
      (Token.takeWhile_append_of_stop hgap'' hback).2, List.reverse_reverse]
  · rintro ⟨rfl, hne⟩
    obtain ⟨hgaps, hhead, hlast⟩ := trim_spec l
    exact ⟨hne, hgaps, hhead, hlast⟩

namespace CommandLine

/-! ### Outputs -/

namespace Output

@[simp] theorem stdout_append (a b : Output) : (a ++ b).stdout = a.stdout ++ b.stdout := rfl

@[simp] theorem stderr_append (a b : Output) : (a ++ b).stderr = a.stderr ++ b.stderr := rfl

@[simp] theorem exitCode_append (a b : Output) :
    (a ++ b).exitCode = max a.exitCode b.exitCode := rfl

theorem empty_append (a : Output) : empty ++ a = a := by
  show append empty a = a
  simp [append, empty]

theorem append_empty (a : Output) : a ++ empty = a := by
  show append a empty = a
  simp [append, empty]

theorem append_assoc (a b c : Output) : a ++ b ++ c = a ++ (b ++ c) := by
  show append (append a b) c = append a (append b c)
  simp [append, String.append_assoc, Nat.max_assoc]

/-- One output after another. -/
def concat (outputs : List Output) : Output := outputs.foldr append empty

@[simp] theorem concat_nil : concat [] = empty := rfl

@[simp] theorem concat_cons (a : Output) (outputs : List Output) :
    concat (a :: outputs) = a ++ concat outputs := rfl

theorem concat_append (outputs' : List Output) : (outputs : List Output) →
    concat (outputs ++ outputs') = concat outputs ++ concat outputs'
  | [] => (empty_append _).symm
  | a :: outputs => by
      rw [List.cons_append, concat_cons, concat_cons, concat_append outputs' outputs, append_assoc]

/-- What is printed by all outputs is what is printed by each of them. -/
theorem concat_eq_join : (outputs : List Output) →
    (concat outputs).stdout = String.join (outputs.map Output.stdout) ∧
      (concat outputs).stderr = String.join (outputs.map Output.stderr)
  | [] => ⟨String.join_nil.symm, String.join_nil.symm⟩
  | a :: outputs => by
      obtain ⟨hstdout, hstderr⟩ := concat_eq_join outputs
      rw [concat_cons, stdout_append, stderr_append, hstdout, hstderr]
      exact ⟨String.join_cons.symm, String.join_cons.symm⟩

/-- If no exit code is greater than one, then that of all outputs is one if one of them is. -/
theorem exitCode_concat : {outputs : List Output} → (∀ a ∈ outputs, a.exitCode ≤ 1) →
    (concat outputs).exitCode ≤ 1 ∧
      ((concat outputs).exitCode = 1 ↔ ∃ a ∈ outputs, a.exitCode = 1)
  | [], _ => by simp [empty]
  | a :: outputs, h => by
      obtain ⟨ha, houtputs⟩ := List.forall_mem_cons.1 h
      obtain ⟨hle, hiff⟩ := exitCode_concat houtputs
      rw [concat_cons, exitCode_append, List.exists_mem_cons_iff, ← hiff]
      omega

end Output

/-! ### The output for one expression -/

/-- `IsAnswer ast expression output`: the output is one line. If the expression can be read, it is
printed and shows the value or, if trees are asked for, the tree. If the expression cannot be read,
it is the message of the error, with a failure. -/
inductive IsAnswer (ast : Bool) (expression : String) : Output → Prop
  | printed {e : Expr} {text : String} (h : parse expression = .ok e)
      (htext : text = if ast then e.text else Number.text e.value) (hline : IsOneLine text) :
      IsAnswer ast expression ⟨text ++ "\n", "", 0⟩
  | refused {cause : InputError} (h : parse expression = .error cause)
      (hline : IsOneLine cause.message) : IsAnswer ast expression ⟨"", cause.message ++ "\n", 1⟩

/-- Every expression has one line of output. -/
theorem isAnswer_answer (ast : Bool) (expression : String) :
    IsAnswer ast expression (answer ast expression) := by
  cases hparse : parse expression with
  | error cause =>
    have hfailure : answer ast expression = .failure cause.message := by
      cases ast <;> simp [answer, evaluate_eq_error_iff.2 hparse, hparse, Except.map]
    rw [hfailure]
    exact .refused hparse (isOneLine_message_of_parse hparse)
  | ok e =>
    have hline : answer ast expression = .line (if ast then e.text else Number.text e.value) := by
      cases ast <;> simp [answer, evaluate_of_parse hparse, hparse, Except.map]
    rw [hline]
    refine .printed hparse rfl ?_
    split
    · exact isOneLine_text_of_parse hparse
    · exact Number.isOneLine_text e.value

namespace IsAnswer

variable {ast : Bool} {expression : String} {output : Output}

theorem exitCode_le (h : IsAnswer ast expression output) : output.exitCode ≤ 1 := by
  cases h with
  | printed => exact Nat.zero_le 1
  | refused => exact Nat.le_refl 1

/-- The exit code tells whether the expression can be read. -/
theorem exitCode_eq_one_iff (h : IsAnswer ast expression output) :
    output.exitCode = 1 ↔ ∃ cause, parse expression = .error cause := by
  cases h with
  | printed hparse => simp [hparse]
  | refused hparse => simp [hparse]

end IsAnswer

/-- How many lines are printed. -/
def Output.lineCount (output : Output) : Nat := output.stdout.toList.count '\n'

/-- The outputs have the same failures and the same exit code, and as many lines are printed. -/
structure Output.FailsLike (a b : Output) : Prop where
  stderr : a.stderr = b.stderr
  exitCode : a.exitCode = b.exitCode
  lineCount : a.lineCount = b.lineCount

theorem Output.FailsLike.append {a a' b b' : Output} (h : a.FailsLike b) (h' : a'.FailsLike b') :
    (a ++ a').FailsLike (b ++ b') where
  stderr := by rw [stderr_append, stderr_append, h.stderr, h'.stderr]
  exitCode := by rw [exitCode_append, exitCode_append, h.exitCode, h'.exitCode]
  lineCount := by
    have hcount := h.lineCount
    have hcount' := h'.lineCount
    rw [Output.lineCount, Output.lineCount] at hcount hcount' ⊢
    simp only [stdout_append, String.toList_append, List.count_append, hcount, hcount']

theorem lineCount_line {text : String} (h : IsOneLine text) :
    (⟨text ++ "\n", "", 0⟩ : Output).lineCount = 1 := by
  rw [Output.lineCount, String.toList_append, List.count_append, List.count_eq_zero.2 h]
  rfl

/-- Values and trees are asked for alike. -/
theorem IsAnswer.failsLike {ast ast' : Bool} {expression : String} {a b : Output}
    (h : IsAnswer ast expression a) (h' : IsAnswer ast' expression b) : a.FailsLike b := by
  cases h with
  | printed hparse _ hline =>
    cases h' with
    | printed _ _ hline' => exact ⟨rfl, rfl, by rw [lineCount_line hline, lineCount_line hline']⟩
    | refused hparse' => simp [hparse] at hparse'
  | refused hparse =>
    cases h' with
    | printed hparse' => simp [hparse] at hparse'
    | refused hparse' =>
      obtain rfl := Except.error.inj (hparse.symm.trans hparse')
      exact ⟨rfl, rfl, rfl⟩

/-! ### The output for a script -/

/-- The output for a script is that of its expressions. -/
theorem runScript_eq_concat (ast : Bool) (script : String) :
    runScript ast script = .concat ((expressions script).map (answer ast)) := by
  have hfold : ∀ (es : List String) (output : Output),
      es.foldl (fun output expression => output ++ answer ast expression) output =
        output ++ .concat (es.map (answer ast)) := by
    intro es
    induction es with
    | nil => exact fun output => output.append_empty.symm
    | cons e es ih =>
      intro output
      rw [List.foldl_cons, ih, List.map_cons, Output.concat_cons, Output.append_assoc]
  rw [runScript, hfold, Output.empty_append]

/-- A line feed separates the expressions before it from those behind it. -/
theorem expressions_append_newline (a b : String) :
    expressions (a ++ "\n" ++ b) = expressions a ++ expressions b := by
  have htext : (a ++ "\n" ++ b).toList = a.toList ++ '\n' :: b.toList := by simp
  rw [expressions, htext, lines_append_newline, List.map_append, List.filterMap_append]
  rfl

/-- A line feed joins the outputs of two scripts. -/
theorem runScript_append_newline (ast : Bool) (a b : String) :
    runScript ast (a ++ "\n" ++ b) = runScript ast a ++ runScript ast b := by
  rw [runScript_eq_concat, expressions_append_newline, List.map_append, Output.concat_append,
    ← runScript_eq_concat, ← runScript_eq_concat]

/-- The output for a line of a script: none if it is blank, and otherwise that for the expression in
it. -/
def lineOutput (ast : Bool) (l : List Char) : Output :=
  if trim l = [] then .empty else answer ast (String.ofList (trim l))

/-- The output for a script is that of its lines. -/
theorem runScript_eq_concat_lines (ast : Bool) (script : String) :
    runScript ast script = .concat ((lines script.toList).map (lineOutput ast)) := by
  rw [runScript_eq_concat, expressions]
  induction lines script.toList with
  | nil => rfl
  | cons l ls ih =>
    rw [List.map_cons, List.map_cons, Output.concat_cons, ← ih, lineOutput]
    by_cases hblank : trim l = []
    · simp only [List.filterMap_cons, if_pos hblank, Output.empty_append]
    · simp only [List.filterMap_cons, if_neg hblank]
      rfl

/-- The exit code tells whether there is an expression in the line that cannot be read. -/
theorem exitCode_lineOutput (ast : Bool) (l : List Char) :
    (lineOutput ast l).exitCode ≤ 1 ∧ ((lineOutput ast l).exitCode = 1 ↔
      ∃ ts, Holds l ts ∧ ∃ cause, parse (String.ofList ts) = .error cause) := by
  by_cases hblank : trim l = []
  · rw [lineOutput, if_pos hblank]
    refine ⟨Nat.zero_le 1, iff_of_false Nat.zero_ne_one ?_⟩
    rintro ⟨ts, hts, _⟩
    exact (holds_iff.1 hts).2 ((holds_iff.1 hts).1.symm.trans hblank)
  · rw [lineOutput, if_neg hblank]
    have hanswer := isAnswer_answer ast (String.ofList (trim l))
    refine ⟨hanswer.exitCode_le, hanswer.exitCode_eq_one_iff.trans ⟨fun h => ?_, ?_⟩⟩
    · exact ⟨_, holds_iff.2 ⟨rfl, hblank⟩, h⟩
    · rintro ⟨ts, hts, h⟩
      rwa [(holds_iff.1 hts).1]

/-- What fails in a script does not depend on whether values or trees are asked for. -/
theorem failsLike_runScript (ast ast' : Bool) (script : String) :
    (runScript ast script).FailsLike (runScript ast' script) := by
  rw [runScript_eq_concat, runScript_eq_concat]
  induction expressions script with
  | nil => exact ⟨rfl, rfl, rfl⟩
  | cons e es ih => exact ((isAnswer_answer ast e).failsLike (isAnswer_answer ast' e)).append ih

/-! ### The program -/

/-- Arguments that ask for a task. Behind the lone pair of dashes no contents are an option. -/
def Task.arguments (task : Task) : List String :=
  (if task.file then [Flag.file.text] else []) ++ (if task.ast then [Flag.ast.text] else []) ++
    ["--", task.contents]

theorem request_arguments (task : Task) : request task.arguments = .ok (.task task) := by
  obtain ⟨file, ast, contents⟩ := task
  cases file <;> cases ast <;> rfl

section

variable (read : String → Except ReadError String) (ast : Bool)

/-- The output of the program for the file at a path. -/
def runFile (path : String) : Output := run read (Task.mk true ast path).arguments

/-- The output of the program for an expression. -/
def runExpression (expression : String) : Output :=
  run read (Task.mk false ast expression).arguments

/-- The output is that for a line of a script: none if it is blank, and otherwise that of the
program for the expression in it. -/
inductive IsLineOutput (l : List Char) : Output → Prop
  | blank (h : IsGap l) : IsLineOutput l ⟨"", "", 0⟩
  | expression {ts : List Char} (h : Holds l ts) :
      IsLineOutput l (runExpression read ast (String.ofList ts))

theorem runExpression_eq_answer (expression : String) :
    runExpression read ast expression = answer ast expression := by
  rw [runExpression, run, request_arguments]
  rfl

/-- The output for a file that can be read is that for its contents. -/
theorem runFile_eq_runScript {path script : String} (h : read path = .ok script) :
    runFile read ast path = runScript ast script := by
  rw [runFile, run, request_arguments]
  simp [runRequest, runTask, h]

theorem isLineOutput_lineOutput (l : List Char) :
    IsLineOutput read ast l (lineOutput ast l) := by
  rw [lineOutput]
  split
  next hblank => exact .blank (trim_eq_nil_iff.1 hblank)
  next hblank =>
    rw [← runExpression_eq_answer read]
    exact .expression (holds_iff.2 ⟨rfl, hblank⟩)

/-- The output for a file is that of its lines. -/
theorem runFile_eq_concat {path script : String} (h : read path = .ok script) :
    runFile read ast path = .concat ((script.toList.splitOn '\n').map (lineOutput ast)) := by
  rw [runFile_eq_runScript read ast h, runScript_eq_concat_lines, lines_eq_splitOn]

/-- What is printed for a file is what is printed for its lines, in order. -/
theorem exists_outputs {path script : String} (h : read path = .ok script) :
    ∃ outputs, List.Forall₂ (IsLineOutput read ast) (script.toList.splitOn '\n') outputs ∧
      (runFile read ast path).stdout = String.join (outputs.map Output.stdout) ∧
      (runFile read ast path).stderr = String.join (outputs.map Output.stderr) := by
  refine ⟨(script.toList.splitOn '\n').map (lineOutput ast), ?_, ?_⟩
  · rw [List.forall₂_map_right_iff, List.forall₂_same]
    exact fun l _ => isLineOutput_lineOutput read ast l
  · rw [runFile_eq_concat read ast h]
    exact Output.concat_eq_join _

/-- The exit code of a file that can be read is one if a line holds an expression that cannot be
read, and zero otherwise. -/
theorem exitCode_runFile {path script : String} (h : read path = .ok script) :
    (runFile read ast path).exitCode ≤ 1 ∧ ((runFile read ast path).exitCode = 1 ↔
      ∃ l ∈ script.toList.splitOn '\n', ∃ ts, Holds l ts ∧
        ∃ cause, parse (String.ofList ts) = .error cause) := by
  obtain ⟨hle, hiff⟩ := Output.exitCode_concat (List.forall_mem_map.2
    fun l (_ : l ∈ script.toList.splitOn '\n') => (exitCode_lineOutput ast l).1)
  rw [runFile_eq_concat read ast h]
  refine ⟨hle, hiff.trans ?_⟩
  simp only [List.mem_map, exists_exists_and_eq_and, (exitCode_lineOutput ast _).2]

/-- A file that can be read is split at its line feeds. A blank line has no output, and every other
line has the output of the program for the expression in it, which is the line without the blanks at
its ends; what is printed for the file is what is printed for its lines, in their order. Every
expression has one line of output, which shows its value or its tree, or the message if it cannot be
read. The exit code is one if the expression in some line cannot be read, and zero otherwise. Values
and trees fail alike. If the file consists of the contents of two others with a line feed between
them, its output consists of theirs. -/
theorem run_script {path script : String} (h : read path = .ok script) :
    (∃ outputs, List.Forall₂ (IsLineOutput read ast) (script.toList.splitOn '\n') outputs ∧
      (runFile read ast path).stdout = String.join (outputs.map Output.stdout) ∧
      (runFile read ast path).stderr = String.join (outputs.map Output.stderr)) ∧
    (∀ expression, IsAnswer ast expression (runExpression read ast expression)) ∧
    ((runFile read ast path).exitCode ≤ 1 ∧ ((runFile read ast path).exitCode = 1 ↔
      ∃ l ∈ script.toList.splitOn '\n', ∃ ts, Holds l ts ∧
        ∃ cause, parse (String.ofList ts) = .error cause)) ∧
    (∀ ast', (runFile read ast path).FailsLike (runFile read ast' path)) ∧
    ∀ {pathA pathB a b : String}, script = a ++ "\n" ++ b → read pathA = .ok a →
      read pathB = .ok b →
        (runFile read ast path).stdout =
          (runFile read ast pathA).stdout ++ (runFile read ast pathB).stdout ∧
        (runFile read ast path).stderr =
          (runFile read ast pathA).stderr ++ (runFile read ast pathB).stderr ∧
        ((runFile read ast path).exitCode = 1 ↔
          (runFile read ast pathA).exitCode = 1 ∨ (runFile read ast pathB).exitCode = 1) := by
  refine ⟨exists_outputs read ast h, fun expression => ?_, exitCode_runFile read ast h,
    fun ast' => ?_, fun {pathA pathB a b} hscript hA hB => ?_⟩
  · rw [runExpression_eq_answer]
    exact isAnswer_answer ast expression
  · rw [runFile_eq_runScript read ast h, runFile_eq_runScript read ast' h]
    exact failsLike_runScript ast ast' script
  · have hleA := (exitCode_runFile read ast hA).1
    have hleB := (exitCode_runFile read ast hB).1
    have hjoin : runFile read ast path = runFile read ast pathA ++ runFile read ast pathB := by
      rw [runFile_eq_runScript read ast h, hscript, runScript_append_newline,
        runFile_eq_runScript read ast hA, runFile_eq_runScript read ast hB]
    rw [hjoin]
    refine ⟨rfl, rfl, ?_⟩
    rw [Output.exitCode_append]
    omega

end

/-- Three files, of which the third one has the contents of the other two as its lines. -/
def threeFiles : String → Except ReadError String
  | "first" => .ok "1"
  | "second" => .ok "\t*\r"
  | "both" => .ok "1\n\t*\r"
  | _ => .error .notFound

/-- A line that fails does not keep the other line from its output. -/
theorem run_script_failing_line :
    threeFiles "both" = .ok "1\n\t*\r" ∧
      (runFile threeFiles false "both").stdout =
        (runFile threeFiles false "first").stdout ++ (runFile threeFiles false "second").stdout ∧
      (runFile threeFiles false "both").exitCode = 1 := by
  have hboth : threeFiles "both" = .ok "1\n\t*\r" := rfl
  have hfirst : threeFiles "first" = .ok "1" := rfl
  have hsecond : threeFiles "second" = .ok "\t*\r" := rfl
  have hstar : parse (String.ofList ['*']) = .error (.grammatical (.unexpectedToken .star 0)) :=
    evaluate_eq_error_iff.1 (by decide +kernel)
  have hline : Holds ['\t', '*', '\r'] ['*'] := holds_iff.2 (by decide)
  obtain ⟨_, _, ⟨_, hexit⟩, _, hjoin⟩ := run_script threeFiles false hboth
  exact ⟨hboth, (hjoin rfl hfirst hsecond).1,
    hexit.2 ⟨['\t', '*', '\r'], by decide +kernel, _, hline, _, hstar⟩⟩

end CommandLine

end Calculator

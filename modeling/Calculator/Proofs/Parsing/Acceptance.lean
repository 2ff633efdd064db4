import Calculator.Proofs.Parsing.Completeness

/-!
# The rows of lexemes that are accepted

A row of lexemes is read up to its first end of input, or as a whole if it has none. It is accepted
with a certain tree exactly if that part of it is an expression of the grammar with that tree, and
keeps all limits.

## Main definitions

* `Calculator.beforeEnd`: the part of a row that is read.

## Main results

* `Calculator.ofLexemes_eq_ok_iff`: the rows that are accepted, and their trees.
* `Calculator.ofLexemes_eq_error_of_derives`: the causes for which an expression is refused.
-/

namespace Calculator

open Calculator.Parser

/-- The lexemes in front of the first end of input. -/
def beforeEnd (ls : List Lexeme) : List Lexeme := ls.takeWhile fun l => l.token ≠ .endOfInput

theorem beforeEnd_append {ls rest : List Lexeme} (hls : .endOfInput ∉ ls.map Lexeme.token) :
    beforeEnd (ls ++ rest) = ls ++ beforeEnd rest := by
  refine List.takeWhile_append_of_pos fun l hl => ?_
  have hmem : l.token ∈ ls.map Lexeme.token := List.mem_map_of_mem hl
  simp only [ne_eq, decide_not, Bool.not_eq_true', decide_eq_false_iff_not]
  rintro hend
  exact hls (hend ▸ hmem)

/-- A row without an end of input is read as a whole. -/
theorem beforeEnd_eq_self {ls : List Lexeme} (hls : .endOfInput ∉ ls.map Lexeme.token) :
    beforeEnd ls = ls := by
  have happend : beforeEnd (ls ++ []) = ls ++ beforeEnd [] := beforeEnd_append hls
  simpa [beforeEnd] using happend

theorem beforeEnd_cons_of_eq {l : Lexeme} (hl : l.token = .endOfInput) (ls : List Lexeme) :
    beforeEnd (l :: ls) = [] := by
  simp [beforeEnd, hl]

/-- Behind the part that is read, the row ends or an end of input follows. -/
theorem exists_eq_beforeEnd_append (ls : List Lexeme) :
    ∃ rest, ls = beforeEnd ls ++ rest ∧ ∀ l ∈ rest.head?, l.token = .endOfInput := by
  refine ⟨ls.dropWhile fun l => l.token ≠ .endOfInput, ?_, fun l hl => ?_⟩
  · exact List.takeWhile_append_dropWhile.symm
  · have hnot := List.head?_dropWhile_not (fun l : Lexeme => decide (l.token ≠ .endOfInput)) ls
    rw [Option.mem_def.1 hl] at hnot
    simpa using hnot

/-- In front of an end of input, and where the row ends, an expression is complete. -/
theorem ofLexemes_of_run_eq_ok {ls rest : List Lexeme} {s : Subtree}
    (hrun : Nonterminal.expression.run .outermost ls = .ok s rest)
    (hrest : ∀ l ∈ rest.head?, l.token = .endOfInput) : Expr.ofLexemes ls = .ok s := by
  have hexpression : (expression .outermost).run ls = .ok s rest := hrun
  rw [Expr.ofLexemes, hexpression]
  cases rest with
  | nil => rfl
  | cons l rest =>
    have hl := hrest l rfl
    simp only [hl]

theorem ofLexemes_of_run_eq_error {ls rest : List Lexeme} {cause : ParseError}
    (hrun : Nonterminal.expression.run .outermost ls = .error cause rest) :
    Expr.ofLexemes ls = .error cause := by
  have hexpression : (expression .outermost).run ls = .error cause rest := hrun
  rw [Expr.ofLexemes, hexpression]

/-- Behind an accepted expression the row ends or an end of input follows. -/
theorem run_of_ofLexemes_eq_ok {ls : List Lexeme} {s : Subtree} (h : Expr.ofLexemes ls = .ok s) :
    ∃ rest, Nonterminal.expression.run .outermost ls = .ok s rest ∧
      ∀ l ∈ rest.head?, l.token = .endOfInput := by
  cases hrun : (expression .outermost).run ls with
  | error cause rest =>
    rw [Expr.ofLexemes, hrun] at h
    cases h
  | ok s' rest =>
    rw [Expr.ofLexemes, hrun] at h
    cases rest with
    | nil =>
      obtain rfl := Except.ok.inj h
      exact ⟨[], hrun, nofun⟩
    | cons l rest =>
      simp only at h
      split at h
      · obtain rfl := Except.ok.inj h
        refine ⟨l :: rest, hrun, fun l' hl' => ?_⟩
        obtain rfl := Option.some.inj hl'
        assumption
      · cases h
      · cases h

/-- An expression is accepted if it keeps the limits and refused for them otherwise. -/
theorem settles_of_derives {ls : List Lexeme} {d : Nat} {e : Expr}
    (h : Derives .expression d ((beforeEnd ls).map Lexeme.token) e) :
    ∃ rest, (∀ l ∈ rest.head?, l.token = .endOfInput) ∧
      (Nonterminal.expression.run .outermost ls).Settles
        (Fits .outermost d e) e.HasValidCalls (.ok e.measured rest) := by
  obtain ⟨rest, hls, hrest⟩ := exists_eq_beforeEnd_append ls
  refine ⟨rest, hrest, ?_⟩
  have hstops : Nonterminal.expression.StopsAt rest := by
    cases rest with
    | nil => exact Nonterminal.stopsAt_nil _
    | cons l rest => exact Nonterminal.stopsAt_of_token (.inr (.inr (hrest l rfl))) _ rest
  have hsettles := h.isSettled.stopsAt .outermost rfl hstops
  rwa [← hls] at hsettles

/-- What is accepted is an expression that keeps the limits. -/
theorem derives_of_ofLexemes_eq_ok {ls : List Lexeme} {s : Subtree}
    (h : Expr.ofLexemes ls = .ok s) :
    ∃ d ≤ nestingLimit, Derives .expression d ((beforeEnd ls).map Lexeme.token) s.expr ∧
      s.expr.HasValidCalls ∧ s.expr.height ≤ heightLimit := by
  obtain ⟨rest, hrun, hrest⟩ := run_of_ofLexemes_eq_ok h
  obtain ⟨taken, rfl, hreads⟩ := reads_of_run hrun
  have hend : beforeEnd rest = [] := by
    cases rest with
    | nil => rfl
    | cons l rest => exact beforeEnd_cons_of_eq (hrest l rfl) rest
  have hbefore : beforeEnd (taken ++ rest) = taken := by
    rw [beforeEnd_append hreads.endOfInput_notMem, hend, List.append_nil]
  obtain ⟨d, hroom, hd⟩ := hreads.derives
  rw [hbefore]
  exact ⟨d, hroom, hd, hreads.hasValidCalls, hreads.height_eq ▸ hreads.height_le⟩

/-- An expression that keeps the limits is accepted. -/
theorem ofLexemes_eq_ok_of_derives {ls : List Lexeme} {d : Nat} {e : Expr}
    (h : Derives .expression d ((beforeEnd ls).map Lexeme.token) e) (hfits : Fits .outermost d e) :
    Expr.ofLexemes ls = .ok e.measured := by
  obtain ⟨rest, hrest, hsettles⟩ := settles_of_derives h
  exact ofLexemes_of_run_eq_ok (hsettles.1 hfits) hrest

/-- The height that is handed back with a tree is its height. -/
theorem eq_measured_of_ofLexemes {ls : List Lexeme} {s : Subtree}
    (h : Expr.ofLexemes ls = .ok s) : s = s.expr.measured := by
  obtain ⟨d, hdepth, hd, hvalid, hheight⟩ := derives_of_ofLexemes_eq_ok h
  have hread := ofLexemes_eq_ok_of_derives hd ⟨hdepth, hheight, hvalid⟩
  exact Except.ok.inj (h.symm.trans hread)

/-- An expression is refused only because a limit is not kept or a call has a wrong number of
arguments. -/
theorem ofLexemes_eq_error_of_derives {ls : List Lexeme} {d : Nat} {e : Expr}
    (h : Derives .expression d ((beforeEnd ls).map Lexeme.token) e)
    (hfits : ¬Fits .outermost d e) :
    ∃ cause, Expr.ofLexemes ls = .error cause ∧ cause.Refuses e.HasValidCalls := by
  obtain ⟨rest, hrest, hsettles⟩ := settles_of_derives h
  obtain ⟨cause, rest', hrun, hcause⟩ := hsettles.2 hfits
  exact ⟨cause, ofLexemes_of_run_eq_error hrun, hcause⟩

/-- An expression whose calls are valid is refused only for a limit. -/
theorem ofLexemes_eq_tooDeep_of_derives {ls : List Lexeme} {d : Nat} {e : Expr}
    (h : Derives .expression d ((beforeEnd ls).map Lexeme.token) e) (hvalid : e.HasValidCalls)
    (hfits : ¬Fits .outermost d e) :
    ∃ position, Expr.ofLexemes ls = .error (.tooDeep position) := by
  obtain ⟨cause, hrefused, hcause⟩ := ofLexemes_eq_error_of_derives h hfits
  cases cause with
  | tooDeep position => exact ⟨position, hrefused⟩
  | arityMismatch => exact absurd hvalid hcause
  | _ => cases hcause

/-- A row is accepted with a tree exactly if the part in front of its first end of input is an
expression with that tree, every call has the right number of arguments, and both the nesting and
the height are within their limits. -/
theorem ofLexemes_eq_ok_iff (ls : List Lexeme) (e : Expr) :
    (Expr.ofLexemes ls).map Subtree.expr = .ok e ↔
      ∃ d ≤ nestingLimit, Derives .expression d ((beforeEnd ls).map Lexeme.token) e ∧
        e.HasValidCalls ∧ e.height ≤ heightLimit := by
  constructor
  · intro h
    cases hs : Expr.ofLexemes ls with
    | error cause =>
      rw [hs] at h
      cases h
    | ok s =>
      rw [hs] at h
      obtain rfl : s.expr = e := Except.ok.inj h
      exact derives_of_ofLexemes_eq_ok hs
  · rintro ⟨d, hroom, hd, hvalid, hheight⟩
    rw [ofLexemes_eq_ok_of_derives hd ⟨hroom, hheight, hvalid⟩]
    rfl

end Calculator

import Calculator.Proofs.Parsing.Grouping
import Calculator.Proofs.Parsing.Report

/-!
# Where a limit is crossed

A row is refused as too deep at a place for one of two reasons. Either a parenthesis or a minus sign
stands there, and as many groups, argument lists and negations enclose it as the limit allows. Or
the root of a tree stands there whose operands have all been read to their ends, and the tree is
one level higher than the limit allows. Conversely the parser gets to every such place if nothing
is wrong in front of it, since an operand that has been read to its end is read so wherever it
stands; and then the row is refused there.

## Main definitions

* `Calculator.Nonterminal.MayBeginAt`: what a phrase of a certain kind does not begin with.
* `Calculator.IsEnclosed`: a phrase at a place can be completed to an expression in which a number
  of levels enclose it.
* `Calculator.Expr.rootToken?`: the token at the root of a tree.

## Main results

* `Calculator.Expects.run_eq_error`: what cannot be read where it is expected makes the whole row
  fail.
* `Calculator.Expects.isEnclosed`: the nesting at a place is the number of levels that enclose it.
* `Calculator.parse_eq_tooDeep_iff`: the texts that are refused as too deep, and where.
-/

namespace Calculator

open Calculator.Parser

/-! ### Phrases within the limits are read wherever they stand -/

section

variable {x : Nonterminal} {n m : Nesting} {ls us rest : List Lexeme} {l : Lexeme} {s : Subtree}
  {ss : List Subtree}

theorem Reads.fits (h : Reads x n ls s) :
    s = s.expr.measured ∧ ∃ d, Derives x d (ls.map Lexeme.token) s.expr ∧ Fits n d s.expr := by
  obtain ⟨d, hroom, hd⟩ := h.derives
  refine ⟨?_, d, hd, hroom, h.height_eq ▸ h.height_le, h.hasValidCalls⟩
  rw [Expr.measured, ← h.height_eq]

/-- A phrase of the grammar that keeps the limits is a phrase within them. -/
theorem Fits.reads {d : Nat} {e : Expr} (hfits : Fits n d e)
    (h : Derives x d (ls.map Lexeme.token) e) : Reads x n ls e.measured :=
  ⟨⟨d, hfits.1, h⟩, hfits.2.2, rfl, hfits.2.1⟩

/-- A phrase within the limits is read in front of everything with which it cannot go on. -/
theorem ReadsUpTo.run_eq_ok (h : ReadsUpTo x n ls s rest) : x.run n (ls ++ rest) = .ok s rest := by
  obtain ⟨hs, d, hd, hfits⟩ := h.reads.fits
  rw [hs]
  exact (hd.isSettled.endsAt n rfl h.ends).1 hfits

/-- A chain within the limits goes on in front of the sign of an operation. -/
theorem Reads.run_chain {tier : Tier} {op : BinaryOperator} (h : Reads (.chain tier) n us s)
    (hop : tier.operator? l.token = some op) :
    (Nonterminal.chain tier).run n (us ++ l :: ls) =
      chainFrom tier.operator? (operandOf n tier) s (l :: ls) := by
  obtain ⟨hs, d, hd, hfits⟩ := h.fits
  obtain ⟨hsign, hcontains⟩ := (tier.operator?_eq_some_iff).1 hop
  have hends := (Nonterminal.stopsAt_sign hcontains hsign ls).endsAt (us.map Lexeme.token)
  rw [hs]
  exact (hd.isSettled n us (l :: ls) rfl hends).1 hfits

theorem ReadsAll.fits (h : ReadsAll n ls ss) :
    ss = (ss.map Subtree.expr).map Expr.measured ∧
      ∃ d, DerivesAll d (ls.map Lexeme.token) (ss.map Subtree.expr) ∧
        FitsAll n d (ss.map Subtree.expr) := by
  obtain ⟨d, hroom, hd⟩ := h.derives
  refine ⟨?_, d, hd, hroom, List.forall_mem_map.2 fun s hs => ?_⟩
  · rw [List.map_map]
    refine (List.map_id ss).symm.trans (List.map_congr_left fun s hs => ?_)
    rw [Function.comp_apply, Expr.measured, ← h.height_eq s hs, id_eq]
  · exact ⟨h.height_eq s hs ▸ h.height_le s hs, h.hasValidCalls s hs⟩

/-- An argument within the limits is read in front of a comma, behind which further ones follow. -/
theorem argumentsFrom_of_derives {d : Nat} {ts : List Token} {e : Expr}
    (h : Derives .expression d ts e) (hfits : Fits n d e) (hl : l.token = .comma)
    (hus : us.map Lexeme.token = ts) (opening : Nat) (read : List Subtree) :
    argumentsFrom (expression n) opening read (us ++ l :: ls) =
      argumentsFrom (expression n) opening (e.measured :: read) ls := by
  have hstops := Nonterminal.stopsAt_of_token (.inr (.inl hl)) .expression ls
  have hitem : (expression n).run (us ++ l :: ls) = .ok e.measured (l :: ls) :=
    (h.isSettled.stopsAt n hus hstops).1 hfits
  rw [argumentsFrom_eq, hitem, Outcome.andThen_ok, argumentsBehind]
  simp [hl]

/-- Arguments within the limits are read in front of a comma, behind which further ones follow. -/
theorem DerivesAll.argumentsFrom_eq {d : Nat} {ts : List Token} {es : List Expr}
    (hl : l.token = .comma) (opening : Nat) : DerivesAll d ts es → FitsAll n d es →
      ∀ (us : List Lexeme) (read : List Subtree), us.map Lexeme.token = ts →
        argumentsFrom (expression n) opening read (us ++ l :: ls) =
          argumentsFrom (expression n) opening ((es.map Expr.measured).reverse ++ read) ls
  | .one h, hfits, us, read, hus =>
      argumentsFrom_of_derives h ⟨hfits.1, hfits.2 _ List.mem_cons_self⟩ hl hus opening read
  | .cons h hs, hfits, us, read, hus => by
      obtain ⟨us, vs, l', rfl, hus, hl', hvs⟩ := exists_of_map_token_eq hus
      have hroom := Nat.max_le.1 hfits.1
      have hall := List.forall_mem_cons.1 hfits.2
      rw [List.append_assoc, List.cons_append,
        argumentsFrom_of_derives h ⟨hroom.1, hall.1⟩ hl' hus opening read,
        hs.argumentsFrom_eq hl opening ⟨hroom.2, hall.2⟩ vs _ hvs,
        List.map_cons, List.reverse_cons, List.append_assoc, List.singleton_append]

end

/-! ### Reading behind what leads further in -/

section

variable {n m : Nesting} {l l' : Lexeme} {builtin : Builtin}

theorem Lexeme.Negates.run_factor (hl : l.Negates n m) (ls : List Lexeme) :
    Nonterminal.factor.run n (l :: ls) =
      (Nonterminal.factor.run m ls).andThen fun s rest => .ofExcept (s.negate l.position) rest := by
  have hnegated : negated n l.position = .ok (unary m) := negated_eq_ok_iff.2 ⟨m, hl.2, rfl⟩
  rw [Nonterminal.run, run_unary, readFactor, if_pos hl.1, hnegated]
  rfl

theorem Lexeme.Opens.run_primary (hl : l.Opens n m) (ls : List Lexeme) :
    Nonterminal.primary.run n (l :: ls) =
      (Nonterminal.expression.run m ls).andThen (closing l.position) := by
  have henclosed : enclosed n l.position = .ok (expression m) :=
    enclosed_eq_ok_iff.2 ⟨m, hl.2, rfl⟩
  simp only [Nonterminal.run, Parser.primary, hl.1, group.eq_def, henclosed]
  rfl

theorem Lexeme.Names.run_primary (hl : l.Names builtin) (hl' : l'.Opens n m) (ls : List Lexeme) :
    Nonterminal.primary.run n (l :: l' :: ls) =
      (argumentsFrom (expression m) l'.position [] ls).andThen fun args rest =>
        if args.length = builtin.arity then
          .ofExcept (Subtree.call builtin.name args l.position) rest
        else .error (.arityMismatch builtin.name builtin.arity args.length l.position) rest := by
  have henclosed : enclosed n l'.position = .ok (expression m) :=
    enclosed_eq_ok_iff.2 ⟨m, hl'.2, rfl⟩
  simp only [Nonterminal.run, Parser.primary, hl.1, call.eq_def, hl.2, hl'.1, henclosed, if_true]
  rfl

end

/-! ### The parser gets to where a phrase is expected -/

/-- What a phrase of a certain kind may begin at: only factors and chains begin with a minus sign.
-/
def Nonterminal.MayBeginAt (ls : List Lexeme) : Nonterminal → Prop
  | chain _ => True
  | factor => True
  | marked => ∀ l ∈ ls.head?, l.token ≠ .minus
  | primary => ∀ l ∈ ls.head?, l.token ≠ .minus

/-- If a phrase cannot be read where it is expected, the row of which it is a part is refused there
for the same cause. -/
theorem Expects.run_eq_error {x : Nonterminal} {n : Nesting} {before : List Lexeme}
    (h : Expects n before x) {ls rest : List Lexeme} {cause : ParseError} (hbegin : x.MayBeginAt ls)
    (hrun : x.run n ls = .error cause rest) :
    Nonterminal.expression.run .outermost (before ++ ls) = .error cause rest := by
  induction h generalizing ls with
  | outermost => exact hrun
  | @first tier n before h ih =>
    refine ih trivial ?_
    rw [Tier.run_operand] at hrun
    rw [Nonterminal.run, ofTier_eq_chain]
    show ((operandOf n tier).run ls).andThen _ = _
    rw [hrun, Outcome.andThen_error]
  | @next tier n before us l op s h left hop ih =>
    rw [Tier.run_operand] at hrun
    rw [List.append_assoc, List.append_assoc, List.singleton_append]
    refine ih trivial ?_
    rw [left.run_chain hop, chainFrom_cons hop, hrun, Outcome.andThen_error]
  | @negated n m before l h hl ih =>
    rw [List.append_assoc, List.singleton_append]
    refine ih trivial ?_
    rw [hl.run_factor, hrun, Outcome.andThen_error]
  | @marked n before h ih =>
    refine ih trivial ?_
    rw [Nonterminal.run, run_unary]
    cases ls with
    | nil => exact hrun
    | cons l ls =>
      rw [readFactor, if_neg (hbegin l rfl)]
      exact hrun
  | @primary n before h ih =>
    refine ih hbegin ?_
    show (Nonterminal.primary.run n ls).andThen factorialMark = _
    rw [hrun, Outcome.andThen_error]
  | @group n m before l h hl ih =>
    rw [List.append_assoc, List.singleton_append]
    refine ih ?_ ?_
    · rintro l' ⟨⟩
      simp [hl.1]
    · rw [hl.run_primary, hrun, Outcome.andThen_error]
  | @firstArgument n m before l l' builtin h hl hl' ih =>
    rw [List.append_assoc]
    refine ih ?_ ?_
    · rintro l'' ⟨⟩
      simp [hl.1]
    · have hitem : (expression m).run ls = .error cause rest := hrun
      rw [List.cons_append, List.singleton_append, hl.run_primary hl', argumentsFrom_eq, hitem]
      rfl
  | @nextArgument n m before us l l' l'' builtin ss h hl hl' hargs hl'' ih =>
    obtain ⟨hss, d, hd, hfits⟩ := hargs.fits
    rw [List.append_assoc]
    refine ih ?_ ?_
    · rintro l'' ⟨⟩
      simp [hl.1]
    · have hitem : (expression m).run ls = .error cause rest := hrun
      have hlist : argumentsFrom (expression m) l'.position [] (us ++ l'' :: ls) = _ :=
        hd.argumentsFrom_eq hl'' l'.position hfits us [] rfl
      rw [List.cons_append, List.cons_append, List.append_assoc, List.singleton_append,
        hl.run_primary hl', hlist, argumentsFrom_eq, hitem]
      rfl

/-! ### What crosses a limit is refused -/

section

variable {n : Nesting} {taken rest : List Lexeme} {position : Nat}

/-- What leads further in where no further level is allowed is refused. -/
theorem Enters.run_eq_error (h : Enters n taken position) (hroom : n.room = 0) :
    Nonterminal.expression.run .outermost (taken ++ rest) = .error (.tooDeep position) rest := by
  cases h with
  | @negation before l h hl =>
    have hnegated : negated n l.position = .error (.tooDeep l.position) :=
      negated_eq_error_iff.2 ⟨hroom, rfl⟩
    rw [List.append_assoc]
    refine h.run_eq_error trivial ?_
    rw [List.singleton_append, Nonterminal.run, run_unary, readFactor, if_pos hl, hnegated]
    rfl
  | @group before l h hl =>
    have henclosed : enclosed n l.position = .error (.tooDeep l.position) :=
      enclosed_eq_error_iff.2 ⟨hroom, rfl⟩
    rw [List.append_assoc]
    refine h.run_eq_error ?_ ?_
    · rintro l' ⟨⟩
      simp [hl]
    · simp only [List.singleton_append, Nonterminal.run, Parser.primary, hl, Parser.group.eq_def,
        henclosed]
  | @list before l l' builtin h hl hl' =>
    have henclosed : enclosed n l'.position = .error (.tooDeep l'.position) :=
      enclosed_eq_error_iff.2 ⟨hroom, rfl⟩
    rw [List.append_assoc]
    refine h.run_eq_error ?_ ?_
    · rintro l'' ⟨⟩
      simp [hl.1]
    · simp only [List.cons_append, List.nil_append, Nonterminal.run, Parser.primary, hl.1,
        Parser.call.eq_def, hl.2, hl', if_true, henclosed]

/-- A tree that is too high is refused where its operands have been read to their ends. -/
theorem Composes.run_eq_error {e : Expr} (h : Composes taken rest e position)
    (hheight : heightLimit < e.height) :
    Nonterminal.expression.run .outermost (taken ++ rest) = .error (.tooDeep position) rest := by
  cases h with
  | @join tier n before us vs _ l op s s' h left hop right hends =>
    have hoperand : (operandOf n tier).run (vs ++ rest) = .ok s' rest := by
      rw [← Tier.run_operand]
      exact ReadsUpTo.run_eq_ok ⟨right, hends⟩
    have hjoin : s.binary op s' l.position = .error (.tooDeep l.position) := by
      refine map_boundedHeight_eq_error_iff.2 ⟨?_, rfl⟩
      rwa [left.height_eq, right.height_eq]
    rw [List.append_assoc, List.append_assoc]
    refine h.run_eq_error trivial ?_
    rw [List.cons_append, left.run_chain hop, chainFrom_cons hop, hoperand, Outcome.andThen_ok,
      hjoin]
    rfl
  | @negation n m before us _ l s h hl inner hends =>
    have hnegate : s.negate l.position = .error (.tooDeep l.position) := by
      refine map_boundedHeight_eq_error_iff.2 ⟨?_, rfl⟩
      rwa [inner.height_eq]
    rw [List.append_assoc]
    refine h.run_eq_error trivial ?_
    rw [List.cons_append, hl.run_factor, ReadsUpTo.run_eq_ok ⟨inner, hends⟩, Outcome.andThen_ok,
      hnegate]
    rfl
  | @factorial n before us rest l s h inner hl =>
    have hfactorial : s.factorial l.position = .error (.tooDeep l.position) := by
      refine map_boundedHeight_eq_error_iff.2 ⟨?_, rfl⟩
      rwa [inner.height_eq]
    have hprimary : Nonterminal.primary.run n (us ++ l :: rest) = .ok s (l :: rest) :=
      ReadsUpTo.run_eq_ok ⟨inner, Nonterminal.endsAt_primary _ _⟩
    rw [List.append_assoc]
    refine h.run_eq_error ?_ ?_
    · obtain ⟨d, _, hd⟩ := inner.derives
      obtain ⟨t, ts, hts, ht⟩ := hd.primary_eq_cons
      obtain ⟨l', vs, rfl, rfl, _⟩ := List.map_eq_cons_iff.1 hts
      rintro _ ⟨⟩
      exact ht
    · show (Nonterminal.primary.run n _).andThen factorialMark = _
      rw [hprimary, Outcome.andThen_ok, factorialMark, if_pos hl, hfactorial]
  | @call n m before us _ l l' l'' builtin ss h hl hl' hargs hl'' hlength =>
    obtain ⟨hss, d, hd, hfits⟩ := hargs.fits
    have hlist : argumentsFrom (expression m) l'.position [] (us ++ l'' :: rest) = .ok ss rest := by
      have hsettled := (hd.isSettledAll m us rest l'' l'.position [] rfl hl'').1 hfits
      rwa [← hss] at hsettled
    have hcall : Subtree.call builtin.name ss l.position = .error (.tooDeep l.position) := by
      refine map_boundedHeight_eq_error_iff.2 ⟨?_, rfl⟩
      rwa [hargs.foldl_max_height]
    rw [List.append_assoc]
    refine h.run_eq_error ?_ ?_
    · rintro l'' ⟨⟩
      simp [hl.1]
    · rw [List.cons_append, List.cons_append, List.append_assoc, List.singleton_append,
        hl.run_primary hl', hlist, Outcome.andThen_ok, if_pos hlength, hcall]
      rfl

/-- A further level is refused only where no more is allowed, and a tree only if it is too high. -/
theorem Fault.enters_or_composes (h : Fault taken (.tooDeep position) rest) :
    (∃ n, Enters n taken position ∧ n.room = 0) ∨
      ∃ e, Composes taken rest e position ∧ heightLimit < e.height := by
  generalize hcause : ParseError.tooDeep position = cause at h
  have hstray : ∀ (parenthesized : Bool) (l : Lexeme),
      ParseError.tooDeep position ≠ stray parenthesized l := by
    intro parenthesized l heq
    rw [stray] at heq
    split at heq <;> cases heq
  cases h with
  | strayPrimary => exact absurd hcause (hstray _ _)
  | strayArguments => exact absurd hcause (hstray _ _)
  | misfit _ hmisfit => cases hmisfit <;> cases hcause
  | tooNested h hroom =>
    cases hcause
    exact .inl ⟨_, h, hroom⟩
  | tooHigh h hheight =>
    cases hcause
    exact .inr ⟨_, h, hheight⟩
  | _ => cases hcause

end

/-! ### What encloses a place -/

/-- A list of arguments goes on with one more, in which the phrase of a node stands. -/
theorem DerivesAll.spanAll_concat {y : Nonterminal} {c d d' k : Nat} {us before after : List Token}
    {node e : Expr} {path : List Nat} (h : Span y c us node .expression d path k before after e) :
    {ts : List Token} → {es : List Expr} → DerivesAll d' ts es →
      ∃ m i, SpanAll y c us node m i path k (ts ++ .comma :: before) after (es ++ [e])
  | _, _, .one hd => ⟨_, _, .tail hd (.one h)⟩
  | _, _, .cons hd hs => by
      obtain ⟨m, i, hspan⟩ := hs.spanAll_concat h
      rw [List.append_assoc, List.cons_append]
      exact ⟨_, _, .tail hd hspan⟩

/-- Where a phrase is expected, a phrase within it is within an expression, and the levels that
enclose the place come to those that enclose it within the phrase. -/
theorem Expects.exists_span {x : Nonterminal} {n : Nesting} {ls : List Lexeme} (h : Expects n ls x)
    {y : Nonterminal} {c d k : Nat} {us before after : List Token} {node e : Expr}
    {path : List Nat} (hspan : Span y c us node x d path k before after e) :
    ∃ d' path' after' e', Span y c us node .expression d' path' (n.depth + k)
      (ls.map Lexeme.token ++ before) after' e' := by
  induction h generalizing d k before after e path with
  | outermost =>
    rw [Nesting.outermost, Nat.zero_add]
    exact ⟨_, _, _, _, hspan⟩
  | first tier _ ih => exact ih (.operand tier hspan)
  | @next tier _ _ us l op s _ left hop ih =>
    obtain ⟨d', _, hleft⟩ := left.derives
    obtain ⟨hsign, hcontains⟩ := (tier.operator?_eq_some_iff).1 hop
    simpa [hsign] using ih (.right tier op hcontains hleft hspan)
  | negated _ hl ih =>
    obtain ⟨_, rfl⟩ := Nesting.deeper_eq_ok_iff.1 hl.2
    simpa [hl.1, Nat.add_assoc, Nat.add_comm 1] using ih hspan.negation
  | marked _ ih => exact ih hspan.unsigned
  | primary _ ih => exact ih hspan.unmarked
  | group _ hl ih =>
    obtain ⟨_, rfl⟩ := Nesting.parenthesized_eq_ok_iff.1 hl.2
    simpa [hl.1, Nat.add_assoc, Nat.add_comm 1] using ih hspan.group
  | firstArgument _ hl hl' ih =>
    obtain ⟨_, rfl⟩ := Nesting.parenthesized_eq_ok_iff.1 hl'.2
    simpa [hl.1, hl'.1, Nat.add_assoc, Nat.add_comm 1] using
      ih (.call hl.isSome_lookup (.one hspan))
  | nextArgument _ hl hl' hargs hl'' ih =>
    obtain ⟨_, rfl⟩ := Nesting.parenthesized_eq_ok_iff.1 hl'.2
    obtain ⟨d', _, hlist⟩ := hargs.derives
    obtain ⟨m, i, hall⟩ := hlist.spanAll_concat hspan
    simpa [hl.1, hl'.1, hl'', Nat.add_assoc, Nat.add_comm 1] using ih (.call hl.isSome_lookup hall)

/-- The phrase `us` of the kind `x` with the tree `node`, behind `before`, can be completed to an
expression in which `k` groups, argument lists and negations enclose it. -/
def IsEnclosed (k : Nat) (before : List Token) (x : Nonterminal) (us : List Token) (node : Expr) :
    Prop :=
  ∃ c d path after e, Span x c us node .expression d path k before after e

/-- The nesting at a place is the number of levels that enclose the phrases there. -/
theorem Expects.isEnclosed {x : Nonterminal} {n : Nesting} {ls : List Lexeme} (h : Expects n ls x)
    {c : Nat} {us : List Token} {node : Expr} (hd : Derives x c us node) :
    IsEnclosed n.depth (ls.map Lexeme.token) x us node := by
  obtain ⟨d, path, after, e, hspan⟩ := h.exists_span (.whole hd)
  rw [Nat.add_zero, List.append_nil] at hspan
  exact ⟨c, d, path, after, e, hspan⟩

/-- No place is nested more deeply than is allowed. -/
theorem Expects.depth_le {x : Nonterminal} {n : Nesting} {ls : List Lexeme} (h : Expects n ls x) :
    n.depth ≤ nestingLimit := by
  induction h with
  | outermost => exact Nat.zero_le _
  | negated _ hl =>
    obtain ⟨hlt, rfl⟩ := Nesting.deeper_eq_ok_iff.1 hl.2
    exact hlt
  | group _ hl =>
    obtain ⟨hlt, rfl⟩ := Nesting.parenthesized_eq_ok_iff.1 hl.2
    exact hlt
  | firstArgument _ _ hl' | nextArgument _ _ hl' =>
    obtain ⟨hlt, rfl⟩ := Nesting.parenthesized_eq_ok_iff.1 hl'.2
    exact hlt
  | first _ _ ih | next _ _ _ _ ih | marked _ ih | primary _ ih => exact ih

/-- The row `taken` ends with a parenthesis or a minus sign at `position`. Some phrase begins with
it or, if it is the parenthesis of a call, with the name in front of it; and `k` groups, argument
lists and negations enclose whatever phrase does. -/
def OpensInside (k : Nat) (taken : List Lexeme) (position : Nat) : Prop :=
  ∃ before opening : List Lexeme, ∃ l x, taken = before ++ opening ∧ opening.getLast? = some l ∧
    l.position = position ∧ (l.token = .leftParen ∨ l.token = .minus) ∧
    (∃ c us node, Derives x c (opening.map Lexeme.token ++ us) node) ∧
    ∀ c us node, Derives x c (opening.map Lexeme.token ++ us) node →
      IsEnclosed k (before.map Lexeme.token) x (opening.map Lexeme.token ++ us) node

theorem Enters.opensInside {n : Nesting} {taken : List Lexeme} {position : Nat}
    (h : Enters n taken position) : OpensInside n.depth taken position := by
  obtain ⟨d, ts, e, hd⟩ := Nonterminal.expression.exists_derives
  cases h with
  | @negation before l h hl =>
    obtain ⟨d, ts, e, hd⟩ := Nonterminal.factor.exists_derives
    refine ⟨before, [l], l, .factor, rfl, rfl, rfl, .inr hl, ⟨d + 1, ts, .negate e, ?_⟩,
      fun c us node => h.isEnclosed⟩
    simpa [hl] using hd.negation
  | @group before l h hl =>
    refine ⟨before, [l], l, .primary, rfl, rfl, rfl, .inl hl, ⟨d + 1, ts ++ [.rightParen], e, ?_⟩,
      fun c us node => h.isEnclosed⟩
    simpa [hl] using hd.group
  | @list before l l' builtin h hl hl' =>
    refine ⟨before, [l, l'], l', .primary, rfl, rfl, rfl, .inl hl',
      ⟨d + 1, ts ++ [.rightParen], .call builtin.name [e], ?_⟩, fun c us node => h.isEnclosed⟩
    simpa [hl.1, hl'] using Derives.call hl.isSome_lookup (.one hd)

/-- No place at which a further level begins is nested more deeply than is allowed. -/
theorem Enters.depth_le {n : Nesting} {taken : List Lexeme} {position : Nat}
    (h : Enters n taken position) : n.depth ≤ nestingLimit := by
  cases h with
  | negation h | group h | list h => exact h.depth_le

/-! ### Roots of trees -/

/-- The token at the root of a tree that is composed of others. -/
def Expr.rootToken? : Expr → Option Token
  | number _ => none
  | binary op _ _ => some op.sign
  | negate _ => some .minus
  | factorial _ => some .bang
  | call name _ => some (.identifier name)

/-- The tree `e` is that of a phrase in the row, at a place where the row in front of it and the
phrase can be completed to an expression. The root of the tree stands at `position`. -/
def IsRootedAt (ls : List Lexeme) (e : Expr) (position : Nat) : Prop :=
  ∃ before phrase after : List Lexeme, ∃ l x k, ls = before ++ (phrase ++ after) ∧ l ∈ phrase ∧
    l.position = position ∧ e.rootToken? = some l.token ∧
    IsEnclosed k (before.map Lexeme.token) x (phrase.map Lexeme.token) e

/-- A tree whose operands have all been read is that of a phrase, and its root is where it is
counted. -/
theorem Composes.isRootedAt {taken rest : List Lexeme} {e : Expr} {position : Nat}
    (h : Composes taken rest e position) : IsRootedAt (taken ++ rest) e position := by
  cases h with
  | @join tier n before us vs _ l op s s' h left hop right _ =>
    obtain ⟨d, _, hleft⟩ := left.derives
    obtain ⟨d', _, hright⟩ := right.derives
    obtain ⟨hsign, hcontains⟩ := (tier.operator?_eq_some_iff).1 hop
    refine ⟨before, us ++ l :: vs, rest, l, .chain tier, n.depth, by simp, by simp, rfl,
      by rw [Expr.rootToken?, hsign], ?_⟩
    simpa [hsign] using h.isEnclosed (.join tier op hcontains hleft hright)
  | @negation n m before us _ l s h hl inner _ =>
    obtain ⟨d, _, hd⟩ := inner.derives
    refine ⟨before, l :: us, rest, l, .factor, n.depth, by simp, by simp, rfl,
      by rw [Expr.rootToken?, hl.1], ?_⟩
    simpa [hl.1] using h.isEnclosed hd.negation
  | @factorial n before us rest l s h inner hl =>
    obtain ⟨d, _, hd⟩ := inner.derives
    refine ⟨before, us ++ [l], rest, l, .marked, n.depth, by simp, by simp, rfl,
      by rw [Expr.rootToken?, hl], ?_⟩
    simpa [hl] using h.isEnclosed hd.factorial
  | @call n m before us _ l l' l'' builtin ss h hl hl' hargs hl'' _ =>
    obtain ⟨d, _, hlist⟩ := hargs.derives
    refine ⟨before, l :: l' :: (us ++ [l'']), rest, l, .primary, n.depth, by simp, by simp, rfl,
      by rw [Expr.rootToken?, hl.1], ?_⟩
    simpa [hl.1, hl'.1, hl''] using h.isEnclosed (.call hl.isSome_lookup hlist)

/-- The trees below the root of a tree whose operands have all been read are within the limit. -/
theorem Composes.height_le_of_mem {taken rest : List Lexeme} {e : Expr} {position : Nat}
    (h : Composes taken rest e position) : ∀ c ∈ e.children, c.height ≤ heightLimit := by
  cases h with
  | join tier _ left _ right _ =>
    simpa [Expr.children] using ⟨left.height_eq ▸ left.height_le, right.height_eq ▸ right.height_le⟩
  | negation _ _ inner _ => simpa [Expr.children] using inner.height_eq ▸ inner.height_le
  | factorial _ inner _ => simpa [Expr.children] using inner.height_eq ▸ inner.height_le
  | call _ _ _ hargs _ _ =>
    rw [Expr.children, List.forall_mem_map]
    exact fun s hs => hargs.height_eq s hs ▸ hargs.height_le s hs

/-- A tree is at most one level higher than the trees below its root. -/
theorem Expr.height_le_of_children {k : Nat} {e : Expr} (h : ∀ c ∈ e.children, c.height ≤ k) :
    e.height ≤ k + 1 := by
  cases e with
  | number => exact Nat.succ_le_succ (Nat.zero_le k)
  | binary op left right =>
    rw [children, List.forall_mem_cons, List.forall_mem_singleton] at h
    exact Nat.succ_le_succ (Nat.max_le.2 h)
  | negate inner => exact Nat.succ_le_succ (h inner (List.mem_singleton_self inner))
  | factorial inner => exact Nat.succ_le_succ (h inner (List.mem_singleton_self inner))
  | call name args => exact Nat.succ_le_succ ((tallest_le_iff args).2 h)

/-! ### Texts -/

/-- A row is refused as too deep exactly where a limit is crossed. -/
theorem ofLexemes_eq_tooDeep_iff {ls : List Lexeme} {position : Nat} :
    Expr.ofLexemes ls = .error (.tooDeep position) ↔
      ∃ taken rest, ls = taken ++ rest ∧
        ((∃ n, Enters n taken position ∧ n.depth = nestingLimit) ∨
          ∃ e, Composes taken rest e position ∧ e.height = heightLimit + 1) := by
  constructor
  · intro h
    obtain ⟨taken, rest, rfl, hrefusal⟩ := refusal_of_ofLexemes h
    cases hrefusal with
    | fault hfault =>
      refine ⟨taken, rest, rfl, ?_⟩
      rcases hfault.enters_or_composes with ⟨n, henters, hroom⟩ | ⟨e, hcomposes, hheight⟩
      · have hge : nestingLimit ≤ n.depth := Nat.sub_eq_zero_iff_le.1 hroom
        exact .inl ⟨n, henters, Nat.le_antisymm henters.depth_le hge⟩
      · have hle := Expr.height_le_of_children hcomposes.height_le_of_mem
        exact .inr ⟨e, hcomposes, Nat.le_antisymm hle hheight⟩
  · rintro ⟨taken, rest, rfl, ⟨n, henters, hn⟩ | ⟨e, hcomposes, hheight⟩⟩
    · have hroom : n.room = 0 := Nat.sub_eq_zero_iff_le.2 (Nat.le_of_eq hn.symm)
      exact ofLexemes_of_run_eq_error (henters.run_eq_error hroom)
    · exact ofLexemes_of_run_eq_error (hcomposes.run_eq_error (Nat.le_of_eq hheight.symm))

/-- A text is refused as too deep exactly if it can be divided into tokens and, with nothing wrong
in front of it, a limit is crossed at the place that is reported. Either a further level begins
there and as many levels as are allowed enclose the place; or the root of a tree stands there whose
operands have been read to their ends, and which is just too high. A further level begins with a
parenthesis or a minus sign, and the count of levels is that of the groups, argument lists and
negations around it. A tree belongs to a phrase in the text, and all trees below its root are within
the limit. -/
theorem parse_eq_tooDeep_iff (source : String) (position : Nat) :
    (parse source = .error (.grammatical (.tooDeep position)) ↔
      ∃ taken rest, tokenize source = .ok (taken ++ rest) ∧
        ((∃ n, Enters n taken position ∧ n.depth = nestingLimit) ∨
          ∃ e, Composes taken rest e position ∧ e.height = heightLimit + 1)) ∧
    (∀ n taken, Enters n taken position → OpensInside n.depth taken position) ∧
    ∀ taken rest e, Composes taken rest e position →
      IsRootedAt (taken ++ rest) e position ∧ ∀ c ∈ e.children, c.height ≤ heightLimit := by
  refine ⟨⟨fun h => ?_, ?_⟩, fun n taken => Enters.opensInside,
    fun taken rest e h => ⟨h.isRootedAt, h.height_le_of_mem⟩⟩
  · obtain ⟨ls, htokens, hread⟩ := parse_eq_grammatical_iff.1 h
    obtain ⟨taken, rest, rfl, hcrossed⟩ := ofLexemes_eq_tooDeep_iff.1 hread
    exact ⟨taken, rest, htokens, hcrossed⟩
  · rintro ⟨taken, rest, htokens, hcrossed⟩
    have hread := ofLexemes_eq_tooDeep_iff.2 ⟨taken, rest, rfl, hcrossed⟩
    exact parse_eq_grammatical_iff.2 ⟨_, htokens, hread⟩

/-- Behind as many parentheses as are allowed, an expression is expected inside all of them. -/
theorem expects_parentheses : (k : Nat) → k ≤ nestingLimit →
    Expects ⟨k, k⟩ ((List.range k).map fun i => ⟨.leftParen, i⟩) .expression
  | 0, _ => .outermost
  | k + 1, hk => by
      have hprimary := (expects_parentheses k (Nat.le_of_succ_le hk)).first .additive
      have hopens : (⟨.leftParen, k⟩ : Lexeme).Opens ⟨k, k⟩ ⟨k + 1, k + 1⟩ :=
        ⟨rfl, Nesting.parenthesized_eq_ok_iff.2 ⟨hk, rfl⟩⟩
      rw [List.range_succ, List.map_append]
      exact (hprimary.first .multiplicative).marked.primary.group hopens

/-- One parenthesis too many is reported, and it stands inside of all the others. -/
theorem parse_eq_tooDeep_parentheses :
    parse (String.ofList (List.replicate 129 '(')) = .error (.grammatical (.tooDeep 128)) ∧
      ∃ taken, OpensInside nestingLimit taken 128 := by
  have hexpects := (expects_parentheses 128 (Nat.le_refl 128)).first .additive
  have henters := Enters.group (hexpects.first .multiplicative).marked.primary
    (rfl : (⟨.leftParen, 128⟩ : Lexeme).token = .leftParen)
  have htokens : tokenize (String.ofList (List.replicate 129 '(')) =
      .ok ((List.range 128).map (fun i => (⟨.leftParen, i⟩ : Lexeme)) ++ [⟨.leftParen, 128⟩] ++
        [⟨.endOfInput, 129⟩]) := by decide +kernel
  obtain ⟨hiff, hopens, _⟩ := parse_eq_tooDeep_iff (String.ofList (List.replicate 129 '(')) 128
  exact ⟨hiff.2 ⟨_, _, htokens, .inl ⟨_, henters, rfl⟩⟩, _, hopens _ _ henters⟩

end Calculator

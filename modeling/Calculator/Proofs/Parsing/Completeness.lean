import Calculator.Proofs.Parsing.Account

/-!
# Phrases are read or refused for a limit

The converse of the account of successes: a row that is a phrase of the grammar, in front of a
lexeme with which the phrase cannot go on, is taken as a whole if it keeps the limits. If it does
not, it is refused, and for no other reason than a limit or a wrong number of arguments.

## Main definitions

* `Calculator.Outcome.Settles`: an outcome is a given one under a condition, and a refusal
  otherwise.
* `Calculator.Nonterminal.StopsAt`: no phrase of a certain kind can go on with what follows.
* `Calculator.Fits`: the limits that decide about a phrase.

## Main results

* `Calculator.Derives.isSettled`: what comes of reading a phrase of the grammar.
-/

namespace Calculator

open Calculator.Parser

/-- The cause refuses a phrase of the grammar: a limit is not kept or, unless `valid` holds, a
call has a wrong number of arguments. -/
def ParseError.Refuses (valid : Prop) : ParseError → Prop
  | tooDeep _ => True
  | arityMismatch _ _ _ _ => ¬valid
  | _ => False

theorem ParseError.Refuses.imp {p q : Prop} (hpq : q → p) {cause : ParseError}
    (h : cause.Refuses p) : cause.Refuses q := by
  cases cause with
  | tooDeep _ => trivial
  | arityMismatch _ _ _ _ => exact fun hq => h (hpq hq)
  | _ => exact h

namespace Outcome

variable {α β : Type}

/-- If `fits` holds then the outcome is `o'`, and otherwise it is a refusal, for a phrase whose
calls are valid if `valid` holds. -/
def Settles (fits valid : Prop) (o o' : Outcome α) : Prop :=
  (fits → o = o') ∧ (¬fits → ∃ cause rest, o = error cause rest ∧ cause.Refuses valid)

section

variable {p q v w : Prop} {o o' o'' : Outcome α}

theorem settles_true : o.Settles True v o := ⟨fun _ => rfl, fun h => absurd trivial h⟩

theorem Settles.imp (h : o.Settles p v o') (hpq : p ↔ q) (hvw : w → v) : o.Settles q w o' := by
  refine ⟨fun hq => h.1 (hpq.2 hq), fun hq => ?_⟩
  obtain ⟨cause, rest, ho, hcause⟩ := h.2 fun hp => hq (hpq.1 hp)
  exact ⟨cause, rest, ho, hcause.imp hvw⟩

theorem Settles.trans (h : o.Settles p v o') (h' : o'.Settles q v o'') :
    o.Settles (p ∧ q) v o'' := by
  refine ⟨fun ⟨hp, hq⟩ => (h.1 hp).trans (h'.1 hq), fun hpq => ?_⟩
  by_cases hp : p
  · rw [h.1 hp]
    exact h'.2 fun hq => hpq ⟨hp, hq⟩
  · exact h.2 hp

/-- Reading on after an outcome that is a success or a refusal. -/
theorem Settles.andThen_ok {o : Outcome β} {value : β} {rest : List Lexeme}
    (h : o.Settles p v (ok value rest)) (next : β → List Lexeme → Outcome α) :
    (o.andThen next).Settles p v (next value rest) := by
  refine ⟨fun hp => ?_, fun hp => ?_⟩
  · rw [h.1 hp, Outcome.andThen_ok]
  · obtain ⟨cause, rest, ho, hcause⟩ := h.2 hp
    exact ⟨cause, rest, by rw [ho, andThen_error], hcause⟩

theorem Settles.andThen {o : Outcome β} {value : β} {rest : List Lexeme}
    (h : o.Settles p v (ok value rest)) {next : β → List Lexeme → Outcome α}
    (h' : (next value rest).Settles q v o') : (o.andThen next).Settles (p ∧ q) v o' :=
  (h.andThen_ok next).trans h'

theorem settles_error (hp : ¬p) {cause : ParseError} (hcause : cause.Refuses v)
    {rest : List Lexeme} : (error cause rest : Outcome α).Settles p v o :=
  ⟨fun h => absurd h hp, fun _ => ⟨cause, rest, rfl, hcause⟩⟩

theorem settles_tooDeep (hp : ¬p) {position : Nat} {rest : List Lexeme} :
    (error (.tooDeep position) rest : Outcome α).Settles p v o := by
  have hrefuses : (ParseError.tooDeep position).Refuses v := trivial
  exact settles_error hp hrefuses

/-- A tree is composed unless it is too high. -/
theorem settles_boundedHeight {height position : Nat} {f : Nat → Subtree} {rest : List Lexeme} :
    (ofExcept ((boundedHeight height position).map f) rest).Settles (height ≤ heightLimit) v
      (ok (f height) rest) := by
  cases h : (boundedHeight height position).map f with
  | ok s =>
    obtain ⟨hheight, rfl⟩ := map_boundedHeight_eq_ok_iff.1 h
    exact ⟨fun _ => rfl, fun hnot => absurd hheight hnot⟩
  | error cause =>
    obtain ⟨hheight, rfl⟩ := map_boundedHeight_eq_error_iff.1 h
    exact settles_tooDeep (Nat.not_le.2 hheight)

end

end Outcome

/-! ### Where a phrase stops -/

namespace Nonterminal

/-- No phrase of a certain kind can go on with the rest. -/
def StopsAt (x : Nonterminal) (rest : List Lexeme) : Prop :=
  ∀ l ∈ rest.head?, ¬x.GoesOnWith l.token

theorem stopsAt_nil (x : Nonterminal) : x.StopsAt [] := nofun

theorem stopsAt_cons_iff {x : Nonterminal} {l : Lexeme} {ls : List Lexeme} :
    x.StopsAt (l :: ls) ↔ ¬x.GoesOnWith l.token := by
  simp [StopsAt]

theorem StopsAt.endsAt {x : Nonterminal} {rest : List Lexeme} (h : x.StopsAt rest)
    (ts : List Token) : x.EndsAt ts rest :=
  fun l hl hgo => absurd hgo (h l hl)

/-- The sign of an operation ends the operand in front of it. -/
theorem stopsAt_sign {tier : Tier} {op : BinaryOperator} (h : tier.contains op = true)
    {l : Lexeme} (hl : l.token = op.sign) (rest : List Lexeme) :
    tier.operand.StopsAt (l :: rest) := by
  rw [stopsAt_cons_iff, hl]
  revert h
  cases tier <;> cases op <;>
    simp [GoesOnWith, Tier.operand, Tier.contains, BinaryOperator.sign]

/-- A closing parenthesis, a comma and the end of the input end a phrase of every kind. -/
theorem stopsAt_of_token {l : Lexeme}
    (hl : l.token = .rightParen ∨ l.token = .comma ∨ l.token = .endOfInput)
    (x : Nonterminal) (rest : List Lexeme) : x.StopsAt (l :: rest) := by
  rw [stopsAt_cons_iff]
  have hsign : ∀ op : BinaryOperator, ¬l.token = op.sign := by
    intro op hop
    cases op <;> simp [hop, BinaryOperator.sign] at hl
  rcases x with ⟨_ | _⟩ | _ | _ | _ <;> rcases hl with hl | hl | hl <;>
    simp_all [GoesOnWith]

/-- What has to follow the phrase `ts` so that it can be read up to its end. A chain may still go
on. -/
def Admits (x : Nonterminal) (ts : List Token) (rest : List Lexeme) : Prop :=
  match x with
  | chain tier => tier.operand.EndsAt ts rest
  | x => x.EndsAt ts rest

/-- How reading goes on behind a phrase. -/
def finish (n : Nesting) : Nonterminal → Subtree → List Lexeme → Outcome Subtree
  | chain tier => chainFrom tier.operator? (operandOf n tier)
  | factor => .ok
  | marked => .ok
  | primary => .ok

theorem EndsAt.admits {x : Nonterminal} {ts : List Token} {rest : List Lexeme}
    (h : x.EndsAt ts rest) : x.Admits ts rest := by
  cases x with
  | chain tier => exact h.operand
  | _ => exact h

/-- A phrase that cannot go on is finished. -/
theorem EndsAt.finish_eq_ok {x : Nonterminal} {ts : List Token} {rest : List Lexeme}
    (h : x.EndsAt ts rest) (n : Nesting) (s : Subtree) : x.finish n s rest = .ok s rest := by
  cases x with
  | chain tier =>
    cases rest with
    | nil => rw [finish, chainFrom]
    | cons l rest =>
      rw [finish, chainFrom]
      simp only [h.operator?_eq_none]
  | _ => rfl

end Nonterminal

/-! ### Phrases are read or refused -/

/-- The tree with its height. -/
def Expr.measured (e : Expr) : Subtree := ⟨e, e.height⟩

/-- A phrase of the nesting `d` with the tree `e` keeps all limits at the nesting `n`. -/
def Fits (n : Nesting) (d : Nat) (e : Expr) : Prop :=
  d ≤ n.room ∧ e.height ≤ heightLimit ∧ e.HasValidCalls

/-- A list of arguments of the nesting `d` with the trees `es` keeps all limits at the nesting
`n`. -/
def FitsAll (n : Nesting) (d : Nat) (es : List Expr) : Prop :=
  d ≤ n.room ∧ ∀ e ∈ es, e.height ≤ heightLimit ∧ e.HasValidCalls

theorem not_fits_of_room {n : Nesting} (hroom : n.room = 0) {d : Nat} {e : Expr} :
    ¬Fits n (d + 1) e := by
  intro hfits
  have hle := hfits.1
  omega

theorem fits_binary_iff {n : Nesting} {d d' : Nat} {op : BinaryOperator} {e e' : Expr} :
    Fits n (max d d') (.binary op e e') ↔
      Fits n d e ∧ Fits n d' e' ∧ max e.height e'.height + 1 ≤ heightLimit := by
  simp only [Fits, Expr.height, Expr.hasValidCalls_binary_iff, Nat.max_le]
  grind

/-- Wherever the row is read as a phrase of the kind `x`, it is taken as a whole, with the tree
`e`, if it keeps the limits, and is refused otherwise. -/
def IsSettled (x : Nonterminal) (d : Nat) (ts : List Token) (e : Expr) : Prop :=
  ∀ (n : Nesting) (ls rest : List Lexeme), ls.map Lexeme.token = ts → x.Admits ts rest →
    (x.run n (ls ++ rest)).Settles (Fits n d e) e.HasValidCalls (x.finish n e.measured rest)

/-- The same of a list of arguments, up to its closing parenthesis. -/
def IsSettledAll (d : Nat) (ts : List Token) (es : List Expr) : Prop :=
  ∀ (n : Nesting) (ls rest : List Lexeme) (l : Lexeme) (opening : Nat) (read : List Subtree),
    ls.map Lexeme.token = ts → l.token = .rightParen →
    (argumentsFrom (expression n) opening read (ls ++ l :: rest)).Settles (FitsAll n d es)
      (∀ e ∈ es, e.HasValidCalls) (.ok (read.reverse ++ es.map Expr.measured) rest)

section

variable {d d' : Nat} {ts ts' : List Token} {e e' : Expr} {es : List Expr}

theorem IsSettled.endsAt {x : Nonterminal} (h : IsSettled x d ts e) (n : Nesting)
    {ls rest : List Lexeme} (hls : ls.map Lexeme.token = ts) (hrest : x.EndsAt ts rest) :
    (x.run n (ls ++ rest)).Settles (Fits n d e) e.HasValidCalls (.ok e.measured rest) := by
  rw [← hrest.finish_eq_ok n]
  exact h n ls rest hls hrest.admits

theorem IsSettled.stopsAt {x : Nonterminal} (h : IsSettled x d ts e) (n : Nesting)
    {ls rest : List Lexeme} (hls : ls.map Lexeme.token = ts) (hrest : x.StopsAt rest) :
    (x.run n (ls ++ rest)).Settles (Fits n d e) e.HasValidCalls (.ok e.measured rest) :=
  h.endsAt n hls (hrest.endsAt ts)

/-- A row of tokens that is composed of two parts around a token is composed so of lexemes. -/
theorem exists_of_map_token_eq {ls : List Lexeme} {t : Token}
    (h : ls.map Lexeme.token = ts ++ t :: ts') :
    ∃ us vs, ∃ l : Lexeme, ls = us ++ l :: vs ∧ us.map Lexeme.token = ts ∧ l.token = t ∧
      vs.map Lexeme.token = ts' := by
  obtain ⟨us, ws, rfl, hus, hws⟩ := List.map_eq_append_iff.1 h
  obtain ⟨l, vs, rfl, hl, hvs⟩ := List.map_eq_cons_iff.1 hws
  exact ⟨us, vs, l, rfl, hus, hl, hvs⟩

theorem isSettled_operand (tier : Tier) (h : IsSettled tier.operand d ts e) :
    IsSettled (.chain tier) d ts e := by
  intro n ls rest hls hrest
  have hoperand := h.endsAt n hls hrest
  rw [Tier.run_operand] at hoperand
  rw [Nonterminal.run, ofTier_eq_chain]
  exact hoperand.andThen_ok _

theorem isSettled_join (tier : Tier) {op : BinaryOperator} (hop : tier.contains op = true)
    (hleft : IsSettled (.chain tier) d ts e) (hright : IsSettled tier.operand d' ts' e') :
    IsSettled (.chain tier) (max d d') (ts ++ op.sign :: ts') (.binary op e e') := by
  intro n ls rest hls hrest
  obtain ⟨us, vs, l, rfl, hus, hl, hvs⟩ := exists_of_map_token_eq hls
  have hsign : op.sign ≠ .bang := by cases op <;> exact nofun
  have hchain := hleft n us (l :: (vs ++ rest)) hus ((Nonterminal.stopsAt_sign hop hl _).endsAt ts)
  have hoperand := hright.endsAt n hvs (Nonterminal.EndsAt.of_append_cons ts hrest hsign)
  rw [Tier.run_operand] at hoperand
  have hoperator : tier.operator? l.token = some op := by rw [hl, tier.operator?_sign hop]
  have hcons : (chainFrom tier.operator? (operandOf n tier) e.measured (l :: (vs ++ rest))).Settles
      (Fits n d' e' ∧ max e.height e'.height + 1 ≤ heightLimit)
      (Expr.binary op e e').HasValidCalls
      (chainFrom tier.operator? (operandOf n tier) (Expr.binary op e e').measured rest) := by
    rw [chainFrom_cons hoperator]
    refine (hoperand.imp Iff.rfl fun h => (Expr.hasValidCalls_binary_iff.1 h).2).andThen ?_
    exact Outcome.settles_boundedHeight.andThen_ok (chainFrom _ _)
  rw [List.append_assoc, List.cons_append]
  exact ((hchain.imp Iff.rfl fun h => (Expr.hasValidCalls_binary_iff.1 h).1).trans hcons).imp
    fits_binary_iff.symm id

theorem isSettled_negation (h : IsSettled .factor d ts e) :
    IsSettled .factor (d + 1) (.minus :: ts) (.negate e) := by
  intro n ls rest hls hrest
  obtain ⟨l, us, rfl, hl, hus⟩ := List.map_eq_cons_iff.1 hls
  rw [List.cons_append, Nonterminal.run, run_unary, readFactor, if_pos hl]
  cases hnegated : negated n l.position with
  | error cause =>
    obtain ⟨hroom, rfl⟩ := negated_eq_error_iff.1 hnegated
    exact Outcome.settles_tooDeep (not_fits_of_room hroom)
  | ok operand =>
    obtain ⟨m, hm, rfl⟩ := negated_eq_ok_iff.1 hnegated
    have hroom := Nesting.room_of_deeper hm
    have hends : Nonterminal.factor.EndsAt ts rest :=
      Nonterminal.EndsAt.of_append_cons [] hrest (by decide)
    have hinner := h.endsAt m hus hends
    refine (hinner.andThen Outcome.settles_boundedHeight).imp ?_ Expr.hasValidCalls_negate_iff.1
    simp only [Fits, Expr.height, Expr.hasValidCalls_negate_iff, Expr.measured]
    grind

/-- A primary begins with a token other than the minus sign. -/
theorem Derives.primary_eq_cons (h : Derives .primary d ts e) :
    ∃ t us, ts = t :: us ∧ t ≠ .minus := by
  cases h with
  | number => exact ⟨_, _, rfl, nofun⟩
  | call => exact ⟨_, _, rfl, nofun⟩
  | group => exact ⟨_, _, rfl, nofun⟩

/-- A marked primary begins with a token other than the minus sign. -/
theorem Derives.marked_eq_cons (h : Derives .marked d ts e) :
    ∃ t us, ts = t :: us ∧ t ≠ .minus := by
  cases h with
  | factorial h =>
    obtain ⟨t, us, rfl, ht⟩ := h.primary_eq_cons
    exact ⟨t, us ++ [.bang], rfl, ht⟩
  | unmarked h => exact h.primary_eq_cons

theorem isSettled_unsigned (hd : Derives .marked d ts e) (h : IsSettled .marked d ts e) :
    IsSettled .factor d ts e := by
  intro n ls rest hls hrest
  have hmarked := h n ls rest hls hrest
  obtain ⟨t, us, rfl, ht⟩ := hd.marked_eq_cons
  obtain ⟨l, vs, rfl, rfl, hvs⟩ := List.map_eq_cons_iff.1 hls
  rw [List.cons_append, Nonterminal.run, run_unary, readFactor, if_neg ht]
  exact hmarked

theorem isSettled_factorial (h : IsSettled .primary d ts e) :
    IsSettled .marked d (ts ++ [.bang]) (.factorial e) := by
  intro n ls rest hls hrest
  obtain ⟨us, vs, l, rfl, hus, hl, hvs⟩ := exists_of_map_token_eq hls
  obtain rfl := List.map_eq_nil_iff.1 hvs
  rw [List.append_assoc, List.singleton_append]
  have hprimary := h n us (l :: rest) hus (Nonterminal.endsAt_primary ts _)
  have hmark : (factorialMark e.measured (l :: rest)).Settles (e.height + 1 ≤ heightLimit)
      e.factorial.HasValidCalls (.ok e.factorial.measured rest) := by
    rw [factorialMark, if_pos hl]
    cases hfactorial : e.measured.factorial l.position with
    | error cause =>
      obtain ⟨hheight, rfl⟩ := map_boundedHeight_eq_error_iff.1 hfactorial
      exact Outcome.settles_tooDeep (Nat.not_le.2 hheight)
    | ok s =>
      obtain ⟨hheight, rfl⟩ := map_boundedHeight_eq_ok_iff.1 hfactorial
      exact ⟨fun _ => rfl, fun hnot => absurd hheight hnot⟩
  refine ((hprimary.imp Iff.rfl Expr.hasValidCalls_factorial_iff.1).andThen hmark).imp ?_ id
  simp only [Fits, Expr.height, Expr.hasValidCalls_factorial_iff]
  grind

/-- A primary does not end with a factorial mark. -/
theorem Derives.primary_getLast?_ne (h : Derives .primary d ts e) : ts.getLast? ≠ some .bang := by
  cases h with
  | number => simp
  | call => simp [List.getLast?_cons]
  | group => simp [List.getLast?_cons]

theorem isSettled_unmarked (hd : Derives .primary d ts e) (h : IsSettled .primary d ts e) :
    IsSettled .marked d ts e := by
  intro n ls rest hls hrest
  have hprimary := (h n ls rest hls (Nonterminal.endsAt_primary ts _)).andThen_ok factorialMark
  have hmark : factorialMark e.measured rest = .ok e.measured rest := by
    cases rest with
    | nil => rfl
    | cons l rest =>
      have hl : l.token ≠ .bang := fun hl =>
        hd.primary_getLast?_ne (Nonterminal.endsAt_cons_iff.1 hrest hl).2
      rw [factorialMark, if_neg hl]
  rw [hmark] at hprimary
  exact hprimary

theorem isSettled_number {literal : String} {value : Float}
    (hread : Number.read literal = some value) :
    IsSettled .primary 0 [.number literal] (.number value) := by
  intro n ls rest hls hrest
  obtain ⟨l, us, rfl, hl, hus⟩ := List.map_eq_cons_iff.1 hls
  obtain rfl := List.map_eq_nil_iff.1 hus
  have hrun : Nonterminal.primary.run n ([l] ++ rest) =
      .ok (Expr.number value).measured rest := by
    simp only [List.singleton_append, Nonterminal.run, Parser.primary, hl, Parser.literal, hread]
    rfl
  rw [hrun]
  exact Outcome.settles_true.imp (by simp [Fits, Expr.height, heightLimit]) id

theorem isSettled_group (h : IsSettled .expression d ts e) :
    IsSettled .primary (d + 1) (.leftParen :: (ts ++ [.rightParen])) e := by
  intro n ls rest hls hrest
  obtain ⟨l, ws, rfl, hl, hws⟩ := List.map_eq_cons_iff.1 hls
  obtain ⟨us, vs, l', rfl, hus, hl', hvs⟩ := exists_of_map_token_eq hws
  obtain rfl := List.map_eq_nil_iff.1 hvs
  simp only [List.cons_append, List.append_assoc, List.nil_append, Nonterminal.run,
    Parser.primary, hl, group.eq_def]
  cases henclosed : enclosed n l.position with
  | error cause =>
    obtain ⟨hroom, rfl⟩ := enclosed_eq_error_iff.1 henclosed
    exact Outcome.settles_tooDeep (not_fits_of_room hroom)
  | ok content =>
    obtain ⟨m, hm, rfl⟩ := enclosed_eq_ok_iff.1 henclosed
    have hroom := Nesting.room_of_parenthesized hm
    have hinner := h.stopsAt m hus (Nonterminal.stopsAt_of_token (.inl hl') _ rest)
    have hclosing : closing l.position e.measured (l' :: rest) = .ok e.measured rest := by
      rw [closing]
      simp only [hl']
    have hgroup := hinner.andThen_ok (closing l.position)
    rw [hclosing] at hgroup
    refine hgroup.imp ?_ id
    simp only [Fits]
    grind

/-! ### Lists of arguments -/

theorem isSettledAll_one (h : IsSettled .expression d ts e) : IsSettledAll d ts [e] := by
  intro n ls rest l opening read hls hl
  have hitem := h.stopsAt n hls (Nonterminal.stopsAt_of_token (.inl hl) _ rest)
  have hlist := hitem.andThen_ok (argumentsBehind (expression n) opening read)
  have hbehind : argumentsBehind (expression n) opening read e.measured (l :: rest) =
      .ok (read.reverse ++ [e].map Expr.measured) rest := by
    simp [argumentsBehind, hl]
  rw [argumentsFrom_eq, ← hbehind]
  exact hlist.imp (by simp [Fits, FitsAll]) (by simp)

theorem isSettledAll_cons (h : IsSettled .expression d ts e) (hs : IsSettledAll d' ts' es) :
    IsSettledAll (max d d') (ts ++ .comma :: ts') (e :: es) := by
  intro n ls rest l opening read hls hl
  obtain ⟨us, vs, l', rfl, hus, hl', hvs⟩ := exists_of_map_token_eq hls
  have hitem : ((expression n).run (us ++ l' :: (vs ++ l :: rest))).Settles (Fits n d e)
      e.HasValidCalls (.ok e.measured (l' :: (vs ++ l :: rest))) :=
    h.stopsAt n hus (Nonterminal.stopsAt_of_token (.inr (.inl hl')) _ (vs ++ l :: rest))
  have hbehind : argumentsBehind (expression n) opening read e.measured (l' :: (vs ++ l :: rest)) =
      argumentsFrom (expression n) opening (e.measured :: read) (vs ++ l :: rest) := by
    simp [argumentsBehind, hl']
  have hlist := hitem.andThen_ok (argumentsBehind (expression n) opening read)
  rw [hbehind] at hlist
  have hrest := hs n vs rest l opening (e.measured :: read) hvs hl
  have hboth := (hlist.imp Iff.rfl fun hall : ∀ e' ∈ e :: es, e'.HasValidCalls =>
    hall e List.mem_cons_self).trans (hrest.imp Iff.rfl fun hall e' he' =>
      hall e' (List.mem_cons_of_mem e he'))
  rw [argumentsFrom_eq, List.append_assoc, List.cons_append]
  have hfits : Fits n d e ∧ FitsAll n d' es ↔ FitsAll n (max d d') (e :: es) := by
    simp only [Fits, FitsAll, List.forall_mem_cons]
    grind
  simpa using hboth.imp hfits id

/-! ### Calls -/

theorem settles_arity {name : String} {builtin : Builtin}
    (hlookup : Builtin.lookup name = some builtin) (es : List Expr) (position : Nat)
    (rest : List Lexeme) :
    (if (es.map Expr.measured).length = builtin.arity then
        .ofExcept (Subtree.call builtin.name (es.map Expr.measured) position) rest
      else .error (.arityMismatch name builtin.arity (es.map Expr.measured).length position) rest :
        Outcome Subtree).Settles
      (es.length = builtin.arity ∧ Expr.tallest es + 1 ≤ heightLimit)
      (Expr.call name es).HasValidCalls (.ok (Expr.call name es).measured rest) := by
  have hname := Builtin.name_of_lookup hlookup
  have hheights : (es.map Expr.measured).map Subtree.height = es.map Expr.height := by
    rw [List.map_map]
    rfl
  have htrees : (es.map Expr.measured).map Subtree.expr = es := by
    rw [List.map_map]
    exact List.map_id _
  rw [List.length_map]
  split
  next hlength =>
    have hcall : (.ofExcept (Subtree.call builtin.name (es.map Expr.measured) position) rest :
        Outcome Subtree).Settles (Expr.tallest es + 1 ≤ heightLimit)
          (Expr.call name es).HasValidCalls (.ok (Expr.call name es).measured rest) := by
      rw [Subtree.call, hheights, htrees, Expr.foldl_max_height, Nat.zero_max, hname]
      exact Outcome.settles_boundedHeight
    exact hcall.imp (by simp [hlength]) id
  next hlength =>
    have hrefuses : (ParseError.arityMismatch name builtin.arity es.length position).Refuses
        (Expr.call name es).HasValidCalls := by
      intro hvalid
      obtain ⟨⟨_, hlookup', harity⟩, _⟩ := Expr.hasValidCalls_call_iff.1 hvalid
      rw [hlookup] at hlookup'
      cases hlookup'
      exact hlength harity
    exact Outcome.settles_error (fun h => hlength h.1) hrefuses

theorem isSettled_call {name : String} (hname : (Builtin.lookup name).isSome = true)
    (h : IsSettledAll d ts es) :
    IsSettled .primary (d + 1) (.identifier name :: .leftParen :: (ts ++ [.rightParen]))
      (.call name es) := by
  intro n ls rest hls hrest
  obtain ⟨builtin, hlookup⟩ := Option.isSome_iff_exists.1 hname
  obtain ⟨l, ws, rfl, hl, hws⟩ := List.map_eq_cons_iff.1 hls
  obtain ⟨l', ws, rfl, hl', hws⟩ := List.map_eq_cons_iff.1 hws
  obtain ⟨us, vs, l'', rfl, hus, hl'', hvs⟩ := exists_of_map_token_eq hws
  obtain rfl := List.map_eq_nil_iff.1 hvs
  simp only [List.cons_append, List.append_assoc, List.nil_append, Nonterminal.run,
    Parser.primary, hl, call.eq_def, hlookup, hl', if_true]
  cases henclosed : enclosed n l'.position with
  | error cause =>
    obtain ⟨hroom, rfl⟩ := enclosed_eq_error_iff.1 henclosed
    exact Outcome.settles_tooDeep (not_fits_of_room hroom)
  | ok content =>
    obtain ⟨m, hm, rfl⟩ := enclosed_eq_ok_iff.1 henclosed
    have hroom := Nesting.room_of_parenthesized hm
    have hlist := (h m us rest l'' l'.position [] hus hl'').imp Iff.rfl
      fun hall : (Expr.call name es).HasValidCalls => (Expr.hasValidCalls_call_iff.1 hall).2
    refine (hlist.andThen (settles_arity hlookup es l.position rest)).imp ?_ id
    simp only [Fits, FitsAll, Expr.height, Expr.hasValidCalls_call_iff, hlookup,
      Option.some.injEq, exists_eq_left']
    have htallest := Expr.tallest_le_iff (k := heightLimit) es
    grind

end

mutual

/-- A phrase of the grammar is read if it keeps the limits, and refused otherwise. -/
theorem Derives.isSettled {x : Nonterminal} {d : Nat} {ts : List Token} {e : Expr} :
    Derives x d ts e → IsSettled x d ts e
  | .operand tier h => isSettled_operand tier h.isSettled
  | .join tier _ hop left right => isSettled_join tier hop left.isSettled right.isSettled
  | .negation h => isSettled_negation h.isSettled
  | .unsigned h => isSettled_unsigned h h.isSettled
  | .factorial h => isSettled_factorial h.isSettled
  | .unmarked h => isSettled_unmarked h h.isSettled
  | .number hread => isSettled_number hread
  | .call hname h => isSettled_call hname h.isSettledAll
  | .group h => isSettled_group h.isSettled

/-- A list of arguments is read if it keeps the limits, and refused otherwise. -/
theorem DerivesAll.isSettledAll {d : Nat} {ts : List Token} {es : List Expr} :
    DerivesAll d ts es → IsSettledAll d ts es
  | .one h => isSettledAll_one h.isSettled
  | .cons h hs => isSettledAll_cons h.isSettled hs.isSettledAll

end

end Calculator

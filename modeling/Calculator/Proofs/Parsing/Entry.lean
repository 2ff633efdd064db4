import Calculator.Proofs.Parsing.Limit

/-!
# Entering a routine

Which routines a run of the parser enters, with which nesting and in front of which lexemes, cannot
be seen from its outcome. To see it, alarms are laid: a parser with alarms is the same parser, but
fails with a cause of its own where an alarm rings. A run enters a routine if every alarm there
stops the run.

Up to where an alarm rings the parser reads what it would have read, so that a routine is entered
exactly where its phrase is expected. That it is entered nowhere else is seen from the alarm that
rings at all other places, which stops no run; that it is entered there follows the description of
what is open at the place.

## Main definitions

* `Calculator.Alarm`: where the parser is stopped, and with which cause.
* `Calculator.Alarm.unary`, `Calculator.Alarm.expression`: the parsers with alarms.
* `Calculator.IsEntered`: the routine of a kind of phrase is entered at a nesting, in front of a
  rest.

## Main results

* `Calculator.Alarm.follows_run`: with an alarm a phrase is read as without it, or the alarm rings
  where a factor is expected and stops the run.
* `Calculator.isEntered_iff`: a routine is entered exactly where its phrase is expected.
-/

namespace Calculator

open Calculator.Parser

/-- An alarm at the entries of the routines for factors and for primaries. -/
structure Alarm where
  /-- The cause with which reading stops. -/
  cause : ParseError
  /-- Whether the alarm rings when the routine of a kind of phrase is entered at a nesting, in front
  of a row. -/
  rings : Nonterminal → Nesting → List Lexeme → Bool

namespace Alarm

/-- A parser that stops where the alarm rings. -/
def guarded (a : Alarm) (rings : List Lexeme → Bool) (p : Parser Subtree) : Parser Subtree where
  run ls := if rings ls = true then .error a.cause ls else p.run ls
  shortens ls := by
    split
    · trivial
    · exact p.shortens ls

/-- Whether the alarm rings when a factor is entered. A factor without sign enters its primary at
once. -/
def ringsAtFactor (a : Alarm) (n : Nesting) (ls : List Lexeme) : Bool :=
  a.rings .factor n ls || (ls.head?.map Lexeme.token != some .minus && a.rings .primary n ls)

/-- The parser of factors at a nesting, with an alarm. -/
def unary (a : Alarm) (n : Nesting) : Parser Subtree :=
  a.guarded (a.ringsAtFactor n) <|
    factor
      (fun position =>
        match _h : n.deeper position with
        | .error cause => .error cause
        | .ok m => .ok (a.unary m))
      (fun position =>
        match _h : n.parenthesized position with
        | .error cause => .error cause
        | .ok m => .ok (sumOf (a.unary m)))
      n.isParenthesized
termination_by nestingLimit - n.depth
decreasing_by
  · exact Nesting.room_lt_of_deeper ‹_›
  · exact Nesting.room_lt_of_parenthesized ‹_›

/-- The parser of expressions at a nesting, with an alarm. -/
def expression (a : Alarm) (n : Nesting) : Parser Subtree := sumOf (a.unary n)

/-- What a minus sign at a given place negates. -/
def negated (a : Alarm) (n : Nesting) (position : Nat) : Except ParseError (Parser Subtree) :=
  (n.deeper position).map a.unary

/-- What a parenthesis at a given place encloses. -/
def enclosed (a : Alarm) (n : Nesting) (position : Nat) : Except ParseError (Parser Subtree) :=
  (n.parenthesized position).map a.expression

/-- A factor is read with the parsers one level further in, unless the alarm rings. -/
theorem unary_eq (a : Alarm) (n : Nesting) :
    a.unary n = a.guarded (a.ringsAtFactor n)
      (factor (a.negated n) (a.enclosed n) n.isParenthesized) := by
  rw [unary]
  congr 2 <;> funext position
  · rw [negated]
    split <;> simp_all [Except.map]
  · rw [enclosed]
    split <;> simp_all [Except.map, expression]

theorem run_unary (a : Alarm) (n : Nesting) (ls : List Lexeme) :
    (a.unary n).run ls = if a.ringsAtFactor n ls = true then .error a.cause ls else
      readFactor (a.negated n) (a.enclosed n) n.isParenthesized ls := by
  rw [unary_eq]
  rfl

/-- The parser of the operands of a tier, with an alarm. -/
def operandOf (a : Alarm) (n : Nesting) : Tier → Parser Subtree
  | .additive => termOf (a.unary n)
  | .multiplicative => a.unary n

/-- How a phrase is read at a nesting, with an alarm. -/
def run (a : Alarm) (n : Nesting) : Nonterminal → List Lexeme → Outcome Subtree
  | .chain tier => (chain tier.operator? (a.operandOf n tier)).run
  | .factor => (a.unary n).run
  | .marked => fun ls =>
      (Parser.primary (a.enclosed n) n.isParenthesized ls).andThen factorialMark
  | .primary => Parser.primary (a.enclosed n) n.isParenthesized

theorem run_operand (a : Alarm) (n : Nesting) (tier : Tier) :
    a.run n tier.operand = (a.operandOf n tier).run := by
  cases tier <;> rfl

end Alarm

/-- Reading the row `ls` as an expression enters the routine of the kind `x` at the nesting `n`, in
front of `rest`: an alarm that rings there is set off, if none is before. -/
def IsEntered (ls : List Lexeme) (x : Nonterminal) (n : Nesting) (rest : List Lexeme) : Prop :=
  ∀ a : Alarm, a.rings x n rest = true →
    ∃ rest', (a.expression .outermost).run ls = .error a.cause rest'

/-- The phrases whose routines have alarms. -/
def Nonterminal.HasAlarm (x : Nonterminal) : Prop := x = .factor ∨ x = .primary

/-! ### Up to where an alarm rings -/

namespace Alarm

variable {a : Alarm} {n m : Nesting} {whole ls : List Lexeme}

theorem ringsAtFactor_iff : a.ringsAtFactor n ls = true ↔
    ∃ x : Nonterminal, x.HasAlarm ∧ x.MayBeginAt ls ∧ a.rings x n ls = true := by
  have hbegin : Nonterminal.primary.MayBeginAt ls ↔ ls.head?.map Lexeme.token ≠ some .minus := by
    simp [Nonterminal.MayBeginAt]
  rw [ringsAtFactor, Bool.or_eq_true, Bool.and_eq_true, bne_iff_ne, ← hbegin]
  constructor
  · rintro (hrings | ⟨hbegin, hrings⟩)
    · exact ⟨.factor, .inl rfl, trivial, hrings⟩
    · exact ⟨.primary, .inr rfl, hbegin, hrings⟩
  · rintro ⟨_, rfl | rfl, hbegin, hrings⟩
    · exact .inl hrings
    · exact .inr ⟨hbegin, hrings⟩

/-- The alarm rings somewhere in the row where a factor is expected. -/
def RingsIn (a : Alarm) (whole : List Lexeme) : Prop :=
  ∃ n before rest, whole = before ++ rest ∧ Expects n before .factor ∧
    a.ringsAtFactor n rest = true

/-- The alarm has stopped the run. -/
def Stops {α : Type} (a : Alarm) (o : Outcome α) : Prop := ∃ rest, o = .error a.cause rest

/-- `a.Follows whole o o'`: what comes of reading in the row `whole` with the alarm is `o`. That is
`o'`, or the alarm has rung and stopped the run. -/
def Follows {α : Type} (a : Alarm) (whole : List Lexeme) (o o' : Outcome α) : Prop :=
  o = o' ∨ a.RingsIn whole ∧ a.Stops o

section

variable {α β : Type} {o o' : Outcome α}

theorem Stops.andThen (h : a.Stops o) (next : α → List Lexeme → Outcome β) :
    a.Stops (o.andThen next) := by
  obtain ⟨rest, rfl⟩ := h
  exact ⟨rest, rfl⟩

/-- What is stopped later is stopped. -/
theorem Follows.stops (h : a.Follows whole o o') (h' : a.Stops o') : a.Stops o := by
  rcases h with rfl | ⟨_, h⟩
  · exact h'
  · exact h

theorem follows_refl (o : Outcome α) : a.Follows whole o o := .inl rfl

theorem Follows.trans {o'' : Outcome α} (h : a.Follows whole o o') (h' : a.Follows whole o' o'') :
    a.Follows whole o o'' := by
  rcases h with rfl | hstops
  · exact h'
  · exact .inr hstops

theorem Follows.andThen {next next' : α → List Lexeme → Outcome β} (h : a.Follows whole o o')
    (hnext : ∀ value rest, o' = .ok value rest →
      a.Follows whole (next value rest) (next' value rest)) :
    a.Follows whole (o.andThen next) (o'.andThen next') := by
  rcases h with rfl | ⟨hrings, hstops⟩
  · cases o with
    | ok value rest => exact hnext value rest rfl
    | error cause rest => exact follows_refl _
  · exact .inr ⟨hrings, hstops.andThen next⟩

/-- Reading on after what is a success without the alarm. -/
theorem Follows.andThen_ok {value : α} {rest : List Lexeme}
    (h : a.Follows whole o (.ok value rest)) (next : α → List Lexeme → Outcome β) :
    a.Follows whole (o.andThen next) (next value rest) :=
  h.andThen fun _ _ hok => by
    cases hok
    exact follows_refl _

end

/-- Where a phrase of the kind `x` is expected in the row `whole` at the nesting `n`, reading with
the alarm follows reading without it. -/
def FollowsAt (a : Alarm) (whole : List Lexeme) (x : Nonterminal) (n : Nesting) : Prop :=
  ∀ before ls, whole = before ++ ls → Expects n before x →
    a.Follows whole (a.run n x ls) (x.run n ls)

theorem follows_chainFrom (tier : Tier) (hoperand : a.FollowsAt whole tier.operand n)
    {before : List Lexeme} (hbefore : Expects n before (.chain tier)) {left : Subtree}
    {done ls : List Lexeme} (hleft : Reads (.chain tier) n done left)
    (hwhole : whole = before ++ (done ++ ls)) :
    a.Follows whole (chainFrom tier.operator? (a.operandOf n tier) left ls)
      (chainFrom tier.operator? (Parser.operandOf n tier) left ls) := by
  induction hlength : ls.length using Nat.strongRecOn generalizing left done ls with
  | ind length ih =>
    cases ls with
    | nil =>
      rw [chainFrom, chainFrom]
      exact follows_refl _
    | cons l ls =>
      rw [List.length_cons] at hlength
      cases hop : tier.operator? l.token with
      | none =>
        rw [chainFrom, chainFrom]
        simp only [hop]
        exact follows_refl _
      | some op =>
        have hread := hoperand (before ++ done ++ [l]) ls (by simp [hwhole])
          (.next tier hbefore hleft hop)
        rw [run_operand, Tier.run_operand] at hread
        rw [chainFrom_cons hop, chainFrom_cons hop]
        refine hread.andThen fun right rest hrun => ?_
        have hshorter := (Parser.operandOf n tier).length_rest_lt hrun
        rw [← Tier.run_operand] at hrun
        obtain ⟨taken, rfl, hright⟩ := reads_of_run hrun
        refine (follows_refl _).andThen fun joined rest' hjoin => ?_
        obtain ⟨hjoined, rfl⟩ := Outcome.ofExcept_eq_ok_iff.1 hjoin
        exact ih rest'.length (by omega) (hleft.join tier hop hright hjoined) (by simp [hwhole]) rfl

theorem followsAt_chain (tier : Tier) (hoperand : a.FollowsAt whole tier.operand n) :
    a.FollowsAt whole (.chain tier) n := by
  intro before ls hwhole hbefore
  have hread := hoperand before ls hwhole (.first tier hbefore)
  rw [run_operand, Tier.run_operand] at hread
  rw [Nonterminal.run, ofTier_eq_chain]
  refine hread.andThen fun left rest hrun => ?_
  rw [← Tier.run_operand] at hrun
  obtain ⟨taken, rfl, hleft⟩ := reads_of_run hrun
  exact follows_chainFrom tier hoperand hbefore (hleft.operand tier) hwhole

theorem follows_argumentsFrom (hitem : a.FollowsAt whole .expression m) {before : List Lexeme}
    (hbefore : Expects n before .primary) {l l' : Lexeme} {builtin : Builtin}
    (hl : l.Names builtin) (hl' : l'.Opens n m) (read : List Subtree) (done ls : List Lexeme)
    (hread : ∀ us s, Reads .expression m us s → ReadsAll m (done ++ us) (read.reverse ++ [s]))
    (hdone : Expects m (before ++ l :: l' :: done) .expression)
    (hwhole : whole = before ++ l :: l' :: (done ++ ls)) :
    a.Follows whole (argumentsFrom (a.expression m) l'.position read ls)
      (argumentsFrom (Parser.expression m) l'.position read ls) := by
  induction hlength : ls.length using Nat.strongRecOn generalizing read done ls with
  | ind length ih =>
    rw [argumentsFrom_eq, argumentsFrom_eq]
    refine (hitem _ ls (by simp [hwhole]) hdone).andThen fun s rest hrun => ?_
    have hshorter := (Parser.expression m).length_rest_lt hrun
    obtain ⟨us, rfl, hus⟩ := reads_of_run hrun
    cases rest with
    | nil => exact follows_refl _
    | cons r rest =>
      rw [List.length_cons] at hshorter
      rw [argumentsBehind, argumentsBehind]
      split
      next hr =>
        have hall := hread us s hus
        refine ih rest.length (by omega) (s :: read) (done ++ us ++ [r]) rest
          (fun vs s' hvs => ?_) ?_ (by simp [hwhole]) rfl
        · simpa using hall.concat hr hvs
        · simpa using Expects.nextArgument hbefore hl hl' hall hr
      all_goals exact follows_refl _

theorem follows_call (hinner : ∀ m, m.room < n.room → a.FollowsAt whole .expression m)
    {before : List Lexeme} (hbefore : Expects n before .primary) {l : Lexeme} {name : String}
    (hl : l.token = .identifier name) (hwhole : whole = before ++ l :: ls) :
    a.Follows whole (call (a.enclosed n) n.isParenthesized name l.position ls)
      (call (Parser.enclosed n) n.isParenthesized name l.position ls) := by
  rw [call.eq_def, call.eq_def]
  cases hlookup : Builtin.lookup name with
  | none => exact follows_refl _
  | some builtin =>
    cases ls with
    | nil => exact follows_refl _
    | cons l' ls =>
      have hnames := Lexeme.names_of_lookup hl hlookup
      dsimp only
      split
      next hl' =>
        rw [enclosed, Parser.enclosed]
        cases hm : n.parenthesized l'.position with
        | error cause => exact follows_refl _
        | ok m =>
          have hroom := Nesting.room_of_parenthesized hm
          have hargs := follows_argumentsFrom (hinner m (by omega)) hbefore hnames ⟨hl', hm⟩
            [] [] ls (fun us s hus => .one hus) (.firstArgument hbefore hnames ⟨hl', hm⟩) hwhole
          exact hargs.andThen fun _ _ _ => follows_refl _
      next => exact follows_refl _

theorem followsAt_primary
    (hinner : ∀ m, m.room < n.room → a.FollowsAt whole .expression m) :
    a.FollowsAt whole .primary n := by
  intro before ls hwhole hbefore
  rw [run, Nonterminal.run]
  cases ls with
  | nil => exact follows_refl _
  | cons l ls =>
    rw [Parser.primary, Parser.primary]
    split
    next => exact follows_refl _
    next name hl => exact follows_call hinner hbefore hl hwhole
    next hl =>
      rw [enclosed, Parser.enclosed]
      cases hm : n.parenthesized l.position with
      | error cause => exact follows_refl _
      | ok m =>
        have hroom := Nesting.room_of_parenthesized hm
        have hcontent := hinner m (by omega) (before ++ [l]) ls (by simp [hwhole])
          (.group hbefore ⟨hl, hm⟩)
        exact hcontent.andThen fun _ _ _ => follows_refl _
    next => exact follows_refl _

theorem follows_readFactor (hfactor : ∀ m, m.room < n.room → a.FollowsAt whole .factor m)
    (hprimary : a.FollowsAt whole .primary n) {before : List Lexeme} (hwhole : whole = before ++ ls)
    (hbefore : Expects n before .factor) :
    a.Follows whole (readFactor (a.negated n) (a.enclosed n) n.isParenthesized ls)
      (readFactor (Parser.negated n) (Parser.enclosed n) n.isParenthesized ls) := by
  cases ls with
  | nil => exact follows_refl _
  | cons l ls =>
    rw [readFactor, readFactor]
    split
    next hl =>
      rw [negated, Parser.negated]
      cases hm : n.deeper l.position with
      | error cause => exact follows_refl _
      | ok m =>
        have hroom := Nesting.room_of_deeper hm
        have hoperand := hfactor m (by omega) (before ++ [l]) ls (by simp [hwhole])
          (.negated hbefore ⟨hl, hm⟩)
        exact hoperand.andThen fun _ _ _ => follows_refl _
    next =>
      exact (hprimary before (l :: ls) hwhole hbefore.marked.primary).andThen
        fun _ _ _ => follows_refl _

/-- Reading a factor follows reading it without the alarm. Behind a sign and behind a parenthesis
there is less room, so that what they enclose does so already. -/
theorem followsAt_factor (a : Alarm) (whole : List Lexeme) (n : Nesting) :
    a.FollowsAt whole .factor n := by
  induction hroom : n.room using Nat.strongRecOn generalizing n with
  | ind room ih =>
    have hfactor : ∀ m : Nesting, m.room < n.room → a.FollowsAt whole .factor m :=
      fun m hm => ih m.room (hroom ▸ hm) m rfl
    have hprimary : a.FollowsAt whole .primary n := followsAt_primary fun m hm =>
      followsAt_chain .additive (followsAt_chain .multiplicative (hfactor m hm))
    intro before ls hwhole hbefore
    rw [run, Nonterminal.run, run_unary, Parser.run_unary]
    split
    next hrings => exact .inr ⟨⟨n, before, ls, hwhole, hbefore, hrings⟩, ls, rfl⟩
    next => exact follows_readFactor hfactor hprimary hwhole hbefore

/-- Reading an operand of a chain follows reading it without the alarm. -/
theorem followsAt_operand (a : Alarm) (whole : List Lexeme) (n : Nesting) (tier : Tier) :
    a.FollowsAt whole tier.operand n := by
  cases tier with
  | additive => exact followsAt_chain .multiplicative (followsAt_factor a whole n)
  | multiplicative => exact followsAt_factor a whole n

/-- With an alarm a row is read as without it, or the alarm rings where a factor is expected. -/
theorem follows_run (a : Alarm) (ls : List Lexeme) :
    a.Follows ls ((a.expression .outermost).run ls) ((Parser.expression .outermost).run ls) :=
  followsAt_chain .additive (followsAt_operand a ls .outermost .additive) [] ls rfl .outermost

/-! ### Phrases in front of where an alarm rings -/

/-- Where a chain within the limits goes on, reading has come to the sign behind it, or the alarm
has rung. -/
theorem follows_of_derives {tier : Tier} {d : Nat} {ts : List Token} {e : Expr}
    {before : List Lexeme} (hbefore : Expects n before (.chain tier)) :
    Derives (.chain tier) d ts e → Fits n d e →
      ∀ (us ls : List Lexeme) (l : Lexeme) (op : BinaryOperator), us.map Lexeme.token = ts →
        tier.operator? l.token = some op → whole = before ++ (us ++ l :: ls) →
          a.Follows whole (a.run n (.chain tier) (us ++ l :: ls))
            (chainFrom tier.operator? (a.operandOf n tier) e.measured (l :: ls))
  | .operand _ h, hfits, us, ls, l, op, hus, hop, hwhole => by
      obtain ⟨hsign, hcontains⟩ := tier.operator?_eq_some_iff.1 hop
      have hends := (Nonterminal.stopsAt_sign hcontains hsign ls).endsAt ts
      have hread := followsAt_operand a whole n tier before _ hwhole (.first tier hbefore)
      rw [run_operand, (h.isSettled.endsAt n hus hends).1 hfits] at hread
      exact hread.andThen_ok _
  | @Derives.join _ op' _ _ _ _ e e' hcontains' left right, hfits, us, ls, l, op, hus, hop,
    hwhole => by
      obtain ⟨us, vs, l', rfl, hus, hl', hvs⟩ := exists_of_map_token_eq hus
      obtain ⟨hleft, hright, hheight⟩ := fits_binary_iff.1 hfits
      obtain ⟨hsign, hcontains⟩ := tier.operator?_eq_some_iff.1 hop
      have hop' : tier.operator? l'.token = some op' := by rw [hl', tier.operator?_sign hcontains']
      rw [List.append_assoc, List.cons_append] at hwhole ⊢
      refine (follows_of_derives hbefore left hleft us _ l' op' hus hop' hwhole).trans ?_
      rw [chainFrom_cons hop']
      subst hus hvs
      have hbehind := (Nonterminal.stopsAt_sign hcontains hsign ls).endsAt (vs.map Lexeme.token)
      have hread := followsAt_operand a whole n tier (before ++ us ++ [l']) (vs ++ l :: ls)
        (by simp [hwhole]) (.next tier hbefore (hleft.reads left) hop')
      have hjoin : e.measured.binary op' e'.measured l'.position =
          .ok (Expr.binary op' e e').measured :=
        map_boundedHeight_eq_ok_iff.2 ⟨hheight, rfl⟩
      rw [run_operand, (right.isSettled.endsAt n rfl hbehind).1 hright] at hread
      have hstep := hread.andThen_ok fun right rest =>
        (Outcome.ofExcept (e.measured.binary op' right l'.position) rest).andThen
          (chainFrom tier.operator? (a.operandOf n tier))
      rw [hjoin] at hstep
      exact hstep

/-- Where a comma follows an argument within the limits, reading has come behind the comma, or the
alarm has rung. -/
theorem follows_argument {d : Nat} {e : Expr} {before us : List Lexeme} {l : Lexeme}
    (hbefore : Expects m before .expression) (h : Derives .expression d (us.map Lexeme.token) e)
    (hfits : Fits m d e) (hl : l.token = .comma) (hwhole : whole = before ++ (us ++ l :: ls))
    (opening : Nat) (read : List Subtree) :
    a.Follows whole (argumentsFrom (a.expression m) opening read (us ++ l :: ls))
      (argumentsFrom (a.expression m) opening (e.measured :: read) ls) := by
  have hstops := Nonterminal.stopsAt_of_token (.inr (.inl hl)) .expression ls
  have hread := followsAt_chain .additive (followsAt_operand a whole m .additive) before _ hwhole
    hbefore
  rw [(h.isSettled.stopsAt m rfl hstops).1 hfits] at hread
  have hitem := hread.andThen_ok (argumentsBehind (a.expression m) opening read)
  rw [argumentsBehind] at hitem
  simp only [hl] at hitem
  rw [argumentsFrom_eq]
  exact hitem

/-- Where a list of arguments within the limits goes on, reading has come behind the comma, or the
alarm has rung. In front of the arguments stand the name `l`, the parenthesis `l'` and the lexemes
`done`, which hold the members `read` and end with a comma or are none. -/
theorem follows_of_derivesAll {d : Nat} {ts : List Token} {es : List Expr} {before : List Lexeme}
    (hbefore : Expects n before .primary) {l l' : Lexeme} {builtin : Builtin}
    (hl : l.Names builtin) (hl' : l'.Opens n m) : DerivesAll d ts es → FitsAll m d es →
      ∀ (us ls done : List Lexeme) (l'' : Lexeme) (read : List Subtree),
        us.map Lexeme.token = ts → l''.token = .comma →
        (∀ vs s, Reads .expression m vs s → ReadsAll m (done ++ vs) (read.reverse ++ [s])) →
        Expects m (before ++ l :: l' :: done) .expression →
        whole = before ++ l :: l' :: (done ++ (us ++ l'' :: ls)) →
          a.Follows whole (argumentsFrom (a.expression m) l'.position read (us ++ l'' :: ls))
            (argumentsFrom (a.expression m) l'.position ((es.map Expr.measured).reverse ++ read) ls)
  | .one h, hfits, us, ls, done, l'', read, hus, hl'', hread, hdone, hwhole => by
      subst hus
      exact follows_argument hdone h ⟨hfits.1, hfits.2 _ List.mem_cons_self⟩ hl''
        (by simp [hwhole]) l'.position read
  | .cons h hs, hfits, us, ls, done, l'', read, hus, hl'', hread, hdone, hwhole => by
      obtain ⟨us, vs, r, rfl, rfl, hr, hvs⟩ := exists_of_map_token_eq hus
      have hroom := Nat.max_le.1 hfits.1
      have hall := List.forall_mem_cons.1 hfits.2
      have hfirst : Fits m _ _ := ⟨hroom.1, hall.1⟩
      have hlist := hread us _ (hfirst.reads h)
      rw [List.append_assoc, List.cons_append] at hwhole ⊢
      have htail := follows_of_derivesAll hbefore hl hl' hs ⟨hroom.2, hall.2⟩ vs ls
        (done ++ us ++ [r]) l'' (_ :: read) hvs hl''
        (fun ws s hws => by simpa using hlist.concat hr hws)
        (by simpa using Expects.nextArgument hbefore hl hl' hlist hr) (by simp [hwhole])
      refine (follows_argument hdone h hfirst hr (by simp [hwhole]) l'.position read).trans ?_
      simpa using htail

/-- What stops the reading of a factor stops the routine, which may ring the alarm itself. -/
theorem Stops.factor
    (h : a.Stops (readFactor (a.negated n) (a.enclosed n) n.isParenthesized ls)) :
    a.Stops (a.run n .factor ls) := by
  rw [run, run_unary]
  split
  · exact ⟨_, rfl⟩
  · exact h

/-- What stops the reading of an argument stops that of the list. -/
theorem Stops.argumentsFrom (h : a.Stops ((a.expression m).run ls)) (opening : Nat)
    (read : List Subtree) : a.Stops (Parser.argumentsFrom (a.expression m) opening read ls) := by
  rw [argumentsFrom_eq]
  exact h.andThen _

/-- What stops the reading of the arguments stops that of the call. -/
theorem Stops.call {l l' : Lexeme} {builtin : Builtin} (hl : l.Names builtin)
    (hl' : l'.Opens n m) (h : a.Stops (Parser.argumentsFrom (a.expression m) l'.position [] ls)) :
    a.Stops (a.run n .primary (l :: l' :: ls)) := by
  simp only [run, Parser.primary, hl.1, Parser.call.eq_def, hl.2, hl'.1, if_true, enclosed, hl'.2,
    Except.map, arguments]
  exact h.andThen _

/-- What stops the reading of a phrase where it is expected stops the run. -/
theorem stops_of_expects {x : Nonterminal} {before : List Lexeme} (h : Expects n before x)
    (hwhole : whole = before ++ ls) (hbegin : x.MayBeginAt ls) (hstops : a.Stops (a.run n x ls)) :
    a.Stops ((a.expression .outermost).run whole) := by
  induction h generalizing ls with
  | outermost =>
    rw [hwhole]
    exact hstops
  | @first tier n before h ih =>
    refine ih hwhole trivial ?_
    rw [run_operand] at hstops
    exact hstops.andThen _
  | @next tier n before us l op s h left hop ih =>
    rw [run_operand] at hstops
    rw [List.append_assoc, List.append_assoc, List.singleton_append] at hwhole
    obtain ⟨hs, d, hd, hfits⟩ := left.fits
    refine ih hwhole trivial ((follows_of_derives h hd hfits us ls l op rfl hop hwhole).stops ?_)
    rw [chainFrom_cons hop]
    exact hstops.andThen _
  | @negated n m before l h hl ih =>
    rw [List.append_assoc, List.singleton_append] at hwhole
    refine ih hwhole trivial (Stops.factor ?_)
    rw [readFactor, if_pos hl.1, negated, hl.2]
    exact hstops.andThen _
  | @marked n before h ih =>
    refine ih hwhole trivial (Stops.factor ?_)
    cases ls with
    | nil => exact hstops
    | cons l ls =>
      rw [readFactor, if_neg (hbegin l rfl)]
      exact hstops
  | @primary n before h ih => exact ih hwhole hbegin (hstops.andThen _)
  | @group n m before l h hl ih =>
    rw [List.append_assoc, List.singleton_append] at hwhole
    refine ih hwhole ?_ ?_
    · rintro l' ⟨⟩
      simp [hl.1]
    · simp only [run, Parser.primary, hl.1, enclosed, hl.2, Except.map, Parser.group]
      exact hstops.andThen _
  | @firstArgument n m before l l' builtin h hl hl' ih =>
    rw [List.append_assoc] at hwhole
    refine ih hwhole ?_ (Stops.call hl hl' (hstops.argumentsFrom _ _))
    rintro l'' ⟨⟩
    simp [hl.1]
  | @nextArgument n m before us l l' l'' builtin ss h hl hl' hargs hl'' ih =>
    obtain ⟨hss, d, hd, hfits⟩ := hargs.fits
    have hwhole' : whole = before ++ l :: l' :: ([] ++ (us ++ l'' :: ls)) := by simp [hwhole]
    have hlist := follows_of_derivesAll (a := a) h hl hl' hd hfits us ls [] l'' [] rfl hl''
      (fun vs s hvs => .one hvs) (.firstArgument h hl hl') hwhole'
    refine ih hwhole' ?_ (Stops.call hl hl' (hlist.stops (hstops.argumentsFrom _ _)))
    rintro l'' ⟨⟩
    simp [hl.1]

end Alarm

/-! ### Where routines are entered -/

section

variable {n : Nesting} {ls before rest : List Lexeme} {x : Nonterminal} {cause : ParseError}

/-- What has no sign is expected where a factor is. -/
theorem Expects.factor (h : Expects n before x) (hx : x = .marked ∨ x = .primary) :
    Expects n before .factor := by
  induction h with
  | first tier | next tier => cases tier <;> simp [Tier.operand] at hx
  | marked h => exact h
  | primary _ ih => exact ih (.inl rfl)
  | _ => simp at hx

/-- The routine of the kind `x` at the nesting `n`, in front of `rest`, has a place in the row. -/
def HasPlace (ls : List Lexeme) (x : Nonterminal) (n : Nesting) (rest : List Lexeme) : Prop :=
  x.HasAlarm ∧ x.MayBeginAt rest ∧ ∃ before, ls = before ++ rest ∧ Expects n before x

open Classical in
/-- The alarm that rings wherever the routine has no place in the row. -/
noncomputable def Alarm.elsewhere (ls : List Lexeme) (cause : ParseError) : Alarm :=
  ⟨cause, fun x n rest => decide ¬HasPlace ls x n rest⟩

open Classical in
theorem Alarm.rings_elsewhere_iff :
    (Alarm.elsewhere ls cause).rings x n rest = true ↔ ¬HasPlace ls x n rest :=
  decide_eq_true_iff

theorem Alarm.not_ringsIn_elsewhere : ¬(Alarm.elsewhere ls cause).RingsIn ls := by
  rintro ⟨n, before, rest, hls, hbefore, hrings⟩
  obtain ⟨x, hx, hbegin, hrings⟩ := Alarm.ringsAtFactor_iff.1 hrings
  refine Alarm.rings_elsewhere_iff.1 hrings ⟨hx, hbegin, before, hls, ?_⟩
  rcases hx with rfl | rfl
  · exact hbefore
  · exact hbefore.marked.primary

/-- A routine is entered only where it has a place. -/
theorem IsEntered.hasPlace (h : IsEntered ls x n rest) : HasPlace ls x n rest := by
  refine Classical.byContradiction fun hnone => ?_
  -- The alarm elsewhere would stop the run, which it does not change, with two causes.
  have hstops (cause : ParseError) :
      ∃ rest', (Parser.expression .outermost).run ls = .error cause rest' := by
    have hrun := h (.elsewhere ls cause) (Alarm.rings_elsewhere_iff.2 hnone)
    rcases Alarm.follows_run (.elsewhere ls cause) ls with heq | ⟨hrings, _⟩
    · rwa [heq] at hrun
    · exact absurd hrings Alarm.not_ringsIn_elsewhere
  obtain ⟨_, hrun⟩ := hstops (.tooDeep 0)
  obtain ⟨_, hrun'⟩ := hstops (.tooDeep 1)
  rw [hrun] at hrun'
  cases hrun'

/-- A routine is entered wherever it has a place. -/
theorem HasPlace.isEntered (h : HasPlace ls x n rest) : IsEntered ls x n rest := by
  intro a hrings
  obtain ⟨hx, hbegin, before, hls, hbefore⟩ := h
  have hfactor : Expects n before .factor := by
    rcases hx with rfl | rfl
    · exact hbefore
    · exact hbefore.factor (.inr rfl)
  refine Alarm.stops_of_expects hfactor hls trivial ⟨rest, ?_⟩
  rw [Alarm.run, Alarm.run_unary, if_pos (Alarm.ringsAtFactor_iff.2 ⟨x, hx, hbegin, hrings⟩)]

/-- The routines for factors and for primaries are entered exactly where their phrases are expected,
that for primaries in front of no minus sign. -/
theorem isEntered_iff : IsEntered ls x n rest ↔ HasPlace ls x n rest :=
  ⟨IsEntered.hasPlace, HasPlace.isEntered⟩

end

end Calculator

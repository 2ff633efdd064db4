import Calculator.Proofs.Parsing.Fault

/-!
# An account of reading

What comes of reading a phrase, whatever the row of lexemes: a success has taken a phrase within
the limits up to its end, and a failure is a fault at a place that belongs to an unfinished phrase
of that kind.
Each way of reading has its own account, which is put together from those of the ways of reading
that it uses; the recursion on the room for nesting closes the circle.

## Main definitions

* `Calculator.Outcome.Took`: what an outcome has taken, with one statement about a success and one
  about a failure.
* `Calculator.ReadsUpTo`: a row of lexemes is a phrase within the limits, and ends where it does.
* `Calculator.Accounts`: the account of reading a phrase of a certain kind.

## Main results

* `Calculator.accounts_run`: reading a phrase of any kind, at any nesting, is accounted for.
* `Calculator.readsUpTo_of_run`, `Calculator.fault_of_run`: what a success has taken, and the fault
  behind a failure to read a whole expression.
-/

namespace Calculator

open Calculator.Parser

namespace Outcome

variable {α β : Type}

/-- The outcome has taken a part from the front of `ls`. Of a success `P` holds for that part, the
value and the rest; of a failure `E` holds for that part, the cause and the rest. -/
def Took (o : Outcome α) (ls : List Lexeme) (P : List Lexeme → α → List Lexeme → Prop)
    (E : List Lexeme → ParseError → List Lexeme → Prop) : Prop :=
  match o with
  | ok value rest => ∃ taken, ls = taken ++ rest ∧ P taken value rest
  | error cause rest => ∃ taken, ls = taken ++ rest ∧ E taken cause rest

section

variable {ls : List Lexeme} {P P' : List Lexeme → α → List Lexeme → Prop}
  {Q : List Lexeme → β → List Lexeme → Prop} {E E' : List Lexeme → ParseError → List Lexeme → Prop}

theorem took_ok {value : α} (h : P [] value ls) : (ok value ls).Took ls P E := ⟨[], rfl, h⟩

theorem took_error {cause : ParseError} (h : E [] cause ls) :
    (error cause ls : Outcome α).Took ls P E := ⟨[], rfl, h⟩

theorem took_ofExcept {result : Except ParseError α}
    (hok : ∀ value, result = .ok value → P [] value ls)
    (herror : ∀ cause, result = .error cause → E [] cause ls) :
    (ofExcept result ls).Took ls P E := by
  cases result with
  | ok value => exact took_ok (hok value rfl)
  | error cause => exact took_error (herror cause rfl)

theorem Took.imp {o : Outcome α} (h : o.Took ls P E)
    (hP : ∀ taken value rest, P taken value rest → P' taken value rest)
    (hE : ∀ taken cause rest, E taken cause rest → E' taken cause rest) : o.Took ls P' E' := by
  cases o with
  | ok value rest =>
    obtain ⟨taken, hls, h⟩ := h
    exact ⟨taken, hls, hP taken value rest h⟩
  | error cause rest =>
    obtain ⟨taken, hls, h⟩ := h
    exact ⟨taken, hls, hE taken cause rest h⟩

theorem Took.imp_error {o : Outcome α} (h : o.Took ls P E)
    (hE : ∀ taken cause rest, E taken cause rest → E' taken cause rest) : o.Took ls P E' :=
  h.imp (fun _ _ _ => id) hE

theorem Took.of_eq_ok {o : Outcome α} (h : o.Took ls P E) {value : α} {rest : List Lexeme}
    (ho : o = ok value rest) : ∃ taken, ls = taken ++ rest ∧ P taken value rest := by
  rwa [ho] at h

theorem Took.of_eq_error {o : Outcome α} (h : o.Took ls P E) {cause : ParseError}
    {rest : List Lexeme} (ho : o = error cause rest) :
    ∃ taken, ls = taken ++ rest ∧ E taken cause rest := by
  rwa [ho] at h

/-- What is taken behind a part already taken. -/
theorem Took.append {o : Outcome α} (us : List Lexeme)
    (h : o.Took ls (fun taken => P (us ++ taken)) fun taken => E (us ++ taken)) :
    o.Took (us ++ ls) P E := by
  cases o with
  | ok value rest =>
    obtain ⟨taken, rfl, h⟩ := h
    exact ⟨us ++ taken, by rw [List.append_assoc], h⟩
  | error cause rest =>
    obtain ⟨taken, rfl, h⟩ := h
    exact ⟨us ++ taken, by rw [List.append_assoc], h⟩

/-- Reading on after a success goes on from what has been taken. -/
theorem Took.andThen {o : Outcome α} (h : o.Took ls P E)
    {next : α → List Lexeme → Outcome β}
    (hnext : ∀ us value rest, P us value rest →
      (next value rest).Took rest (fun taken => Q (us ++ taken)) fun taken => E (us ++ taken)) :
    (o.andThen next).Took ls Q E := by
  cases o with
  | ok value rest =>
    obtain ⟨us, rfl, h⟩ := h
    exact (hnext us value rest h).append us
  | error cause rest => exact h

end

end Outcome

/-- The row `ls` is a phrase of the kind `x` within the limits at the nesting `n`, and it cannot go
on with the rest. -/
structure ReadsUpTo (x : Nonterminal) (n : Nesting) (ls : List Lexeme) (s : Subtree)
    (rest : List Lexeme) : Prop where
  reads : Reads x n ls s
  ends : x.EndsAt (ls.map Lexeme.token) rest

/-- The account of reading a phrase of the kind `x` at the nesting `n` from `ls`: a success has
taken a phrase within the limits up to its end, and a failure is a fault wherever such a phrase is
expected. -/
def Accounts (x : Nonterminal) (n : Nesting) (ls : List Lexeme) (o : Outcome Subtree) : Prop :=
  o.Took ls (ReadsUpTo x n) fun taken cause rest =>
    ∀ before, Expects n before x → Fault (before ++ taken) cause rest

section

variable {n m : Nesting}

/-! ### Chains -/

theorem chainFrom_took (tier : Tier) {operand : Parser Subtree}
    (hoperand : ∀ ls, Accounts tier.operand n ls (operand.run ls)) {left : Subtree}
    {ls done : List Lexeme} (hleft : Reads (.chain tier) n done left)
    (hdone : tier.operand.EndsAt (done.map Lexeme.token) ls) :
    (chainFrom tier.operator? operand left ls).Took ls
      (fun taken => ReadsUpTo (.chain tier) n (done ++ taken))
      fun taken cause rest => ∀ before, Expects n before (.chain tier) →
        Fault (before ++ done ++ taken) cause rest := by
  fun_induction chainFrom tier.operator? operand left ls generalizing done with
  | case1 left =>
    refine Outcome.took_ok ?_
    rw [List.append_nil]
    exact ⟨hleft, Nonterminal.endsAt_nil _ _⟩
  | case2 left l ls hop =>
    refine Outcome.took_ok ?_
    rw [List.append_nil]
    exact ⟨hleft, hdone.chain hop⟩
  | case3 left l ls op hop cause rest hrun =>
    obtain ⟨taken, rfl, hfault⟩ := (hoperand ls).of_eq_error hrun
    refine ⟨l :: taken, rfl, fun before hbefore => ?_⟩
    simpa using hfault _ (.next tier hbefore hleft hop)
  | case4 left l ls op hop right rest hrun cause hjoin =>
    obtain ⟨taken, rfl, hright, hends⟩ := (hoperand ls).of_eq_ok hrun
    obtain ⟨hheight, rfl⟩ := map_boundedHeight_eq_error_iff.1 hjoin
    refine ⟨l :: taken, rfl, fun before hbefore => ?_⟩
    rw [hleft.height_eq, hright.height_eq] at hheight
    exact .tooHigh (.join tier hbefore hleft hop hright hends) hheight
  | case5 left l ls op hop right rest hrun joined hjoin ih =>
    obtain ⟨taken, rfl, hright, hends⟩ := (hoperand ls).of_eq_ok hrun
    have hend : tier.operand.EndsAt ((done ++ l :: taken).map Lexeme.token) rest := by
      simpa using hends.append ((done ++ [l]).map Lexeme.token)
    have hchain := ih (hleft.join tier hop hright hjoin) hend
    exact Outcome.Took.append (l :: taken) (by simpa using hchain)

theorem accounts_chain (tier : Tier) {operand : Parser Subtree}
    (hoperand : ∀ ls, Accounts tier.operand n ls (operand.run ls)) (ls : List Lexeme) :
    Accounts (.chain tier) n ls ((chain tier.operator? operand).run ls) := by
  have hfirst := (hoperand ls).imp_error
    fun _ _ _ hfault before (hbefore : Expects n before (.chain tier)) =>
      hfault before (.first tier hbefore)
  refine hfirst.andThen fun us left rest hleft => ?_
  exact (chainFrom_took tier hoperand (hleft.reads.operand tier) hleft.ends).imp_error
    fun _ _ _ hfault before hbefore => by simpa using hfault before hbefore

/-! ### Groups and lists -/

theorem closing_took {α : Type} (opening : Nat) (value : α) (ls : List Lexeme) :
    (closing opening value ls).Took ls
      (fun taken v _ => v = value ∧ ∃ l : Lexeme, l.token = .rightParen ∧ taken = [l])
      fun taken cause rest => taken = [] ∧ Misfit false opening cause rest := by
  cases ls with
  | nil => exact ⟨[], rfl, rfl, .dry⟩
  | cons l ls =>
    cases hl : l.token with
    | rightParen =>
      simp only [closing, hl]
      exact ⟨[l], rfl, rfl, l, hl, rfl⟩
    | endOfInput =>
      simp only [closing, hl]
      exact ⟨[], rfl, rfl, .unclosed hl⟩
    | _ =>
      simp only [closing, hl]
      exact ⟨[], rfl, rfl,
        .unexpected (by simp [hl]) (by simp [hl]) fun h => absurd h Bool.false_ne_true⟩

theorem group_took {inner : Except ParseError (Parser Subtree)} {l : Lexeme}
    (hl : l.token = .leftParen)
    (hinner : ∀ content, inner = .ok content → ∃ m, l.Opens n m ∧
      ∀ ls, Accounts .expression m ls (content.run ls))
    (hfull : ∀ cause, inner = .error cause → n.room = 0 ∧ cause = .tooDeep l.position)
    (ls : List Lexeme) : Accounts .primary n (l :: ls) (group inner l.position ls) := by
  refine Outcome.Took.append [l] ?_
  cases inner with
  | error cause =>
    obtain ⟨hroom, rfl⟩ := hfull cause rfl
    exact Outcome.took_error fun before hbefore => .tooNested (.group hbefore hl) hroom
  | ok content =>
    obtain ⟨m, hopens, haccounts⟩ := hinner content rfl
    refine ((haccounts ls).imp_error fun _ _ _ hfault before hbefore => ?_).andThen
      fun us s rest hus => ?_
    · simpa using hfault (before ++ [l]) (.group hbefore hopens)
    · refine (closing_took l.position s rest).imp ?_ ?_
      · rintro taken value rest ⟨rfl, l', hl', rfl⟩
        exact ⟨hus.reads.group hopens hl', Nonterminal.endsAt_primary _ _⟩
      · rintro taken cause rest ⟨rfl, hmisfit⟩ before hbefore
        simpa using Fault.misfit (.group hbefore hopens hus.reads) hmisfit

/-- Behind the name `l` and the parenthesis `l'`, the lexemes `done` end with a comma or are none,
and `read` are the members in front of it. -/
theorem argumentsFrom_took {item : Parser Subtree}
    (hitem : ∀ ls, Accounts .expression m ls (item.run ls)) {l l' : Lexeme} {builtin : Builtin}
    (hl : l.Names builtin) (hl' : l'.Opens n m) (read : List Subtree) (ls done : List Lexeme)
    (hread : ∀ us s, Reads .expression m us s → ReadsAll m (done ++ us) (read.reverse ++ [s]))
    (hdone : ∀ before, Expects n before .primary →
      Expects m (before ++ l :: l' :: done) .expression) :
    (argumentsFrom item l'.position read ls).Took ls
      (fun taken ss _ => ∃ us, ∃ l'' : Lexeme, taken = us ++ [l''] ∧ l''.token = .rightParen ∧
        ReadsAll m (done ++ us) ss)
      fun taken cause rest => ∀ before, Expects n before .primary →
        Fault (before ++ l :: l' :: (done ++ taken)) cause rest := by
  fun_induction argumentsFrom item l'.position read ls generalizing done with
  | case1 read ls cause rest hrun =>
    obtain ⟨taken, rfl, hfault⟩ := (hitem ls).of_eq_error hrun
    exact ⟨taken, rfl, fun before hbefore => by simpa using hfault _ (hdone before hbefore)⟩
  | case2 read ls s hrun =>
    obtain ⟨us, rfl, hus, _⟩ := (hitem ls).of_eq_ok hrun
    exact ⟨us, rfl, fun before hbefore =>
      .misfit (.list hbefore hl hl' (hread us s hus)) .dry⟩
  | case3 read ls s r rest hrun hr ih =>
    obtain ⟨us, rfl, hus, _⟩ := (hitem ls).of_eq_ok hrun
    have hall := hread us s hus
    have hlist := ih (done ++ us ++ [r]) (fun vs s' hvs => ?_) fun before hbefore => ?_
    · rw [List.append_cons]
      refine Outcome.Took.append (us ++ [r]) (hlist.imp ?_ ?_)
      · rintro taken ss rest ⟨vs, l'', rfl, hl'', hss⟩
        exact ⟨us ++ r :: vs, l'', by simp, hl'', by simpa using hss⟩
      · intro taken cause rest hfault before hbefore
        simpa using hfault before hbefore
    · simpa using hall.concat hr hvs
    · simpa using Expects.nextArgument hbefore hl hl' hall hr
  | case4 read ls s r rest hrun hr =>
    obtain ⟨us, rfl, hus, _⟩ := (hitem ls).of_eq_ok hrun
    exact ⟨us ++ [r], by simp, us, r, rfl, hr, by simpa using hread us s hus⟩
  | case5 read ls s r rest hrun hr =>
    obtain ⟨us, rfl, hus, _⟩ := (hitem ls).of_eq_ok hrun
    exact ⟨us, rfl, fun before hbefore =>
      .misfit (.list hbefore hl hl' (hread us s hus)) (.unclosed hr)⟩
  | case6 read ls s r rest hrun hcomma hclose hend =>
    obtain ⟨us, rfl, hus, _⟩ := (hitem ls).of_eq_ok hrun
    exact ⟨us, rfl, fun before hbefore =>
      .misfit (.list hbefore hl hl' (hread us s hus)) (.unexpected hclose hend fun _ => hcomma)⟩

/-! ### Primaries -/

theorem literal_took {l : Lexeme} {text : String} (hl : l.token = .number text)
    (ls : List Lexeme) : Accounts .primary n (l :: ls) (literal text l.position ls) := by
  refine Outcome.Took.append [l] ?_
  rw [literal]
  split
  · exact Outcome.took_error fun before hbefore => .invalidNumber hbefore hl ‹_›
  · exact Outcome.took_ok ⟨.number hl ‹_›, Nonterminal.endsAt_primary _ _⟩

theorem call_took {enclosed : Nat → Except ParseError (Parser Subtree)} {l : Lexeme}
    {name : String} (hl : l.token = .identifier name)
    (hinner : ∀ l' : Lexeme, ∀ item, l'.token = .leftParen → enclosed l'.position = .ok item →
      ∃ m, l'.Opens n m ∧ ∀ ls, Accounts .expression m ls (item.run ls))
    (hfull : ∀ position cause, enclosed position = .error cause →
      n.room = 0 ∧ cause = .tooDeep position)
    (ls : List Lexeme) :
    Accounts .primary n (l :: ls) (call enclosed n.isParenthesized name l.position ls) := by
  refine Outcome.Took.append [l] ?_
  rw [call.eq_def]
  split
  · exact Outcome.took_error fun before hbefore => .unknownFunction hbefore hl ‹_›
  next builtin hlookup =>
  have hnames := Lexeme.names_of_lookup hl hlookup
  cases ls with
  | nil => exact Outcome.took_error fun before hbefore => .noArguments hbefore hnames
  | cons l' ls =>
    dsimp only
    split
    next hl' =>
      refine Outcome.Took.append [l'] ?_
      split
      next cause henclosed =>
        obtain ⟨hroom, rfl⟩ := hfull _ _ henclosed
        exact Outcome.took_error fun before hbefore => .tooNested (.list hbefore hnames hl') hroom
      next item henclosed =>
        obtain ⟨m, hopens, hitem⟩ := hinner l' item hl' henclosed
        have hargs := argumentsFrom_took hitem hnames hopens [] ls [] (fun us s hus => .one hus)
          fun before hbefore => .firstArgument hbefore hnames hopens
        refine hargs.andThen ?_
        rintro taken ss rest ⟨us, l'', rfl, hl'', hss⟩
        split
        next hlength =>
          refine Outcome.took_ofExcept (fun s hs => ?_) fun cause hcause before hbefore => ?_
          · exact ⟨by simpa using Reads.call hnames hopens hss hl'' hlength hs,
              Nonterminal.endsAt_primary _ _⟩
          · obtain ⟨hheight, rfl⟩ := map_boundedHeight_eq_error_iff.1 hcause
            rw [hss.foldl_max_height] at hheight
            simpa using Fault.tooHigh (.call hbefore hnames hopens hss hl'' hlength) hheight
        next hlength =>
          refine Outcome.took_error fun before hbefore => ?_
          have hfault : Fault (before ++ l :: l' :: (us ++ [l''])) _ rest :=
            .arityMismatch hbefore hnames hopens hss hl'' hlength
          simpa [Builtin.name_of_lookup hlookup] using hfault
    next hl' =>
      exact Outcome.took_error fun before hbefore => .strayArguments hbefore hnames hl'

/-- A primary is accounted for if the expressions one level further in are. -/
theorem primary_took (hinner : ∀ m, m.room < n.room → ∀ ls,
      Accounts .expression m ls ((expression m).run ls)) (ls : List Lexeme) :
    Accounts .primary n ls (Parser.primary (enclosed n) n.isParenthesized ls) := by
  have hopen : ∀ l : Lexeme, ∀ content, l.token = .leftParen →
      enclosed n l.position = .ok content →
        ∃ m, l.Opens n m ∧ ∀ ls, Accounts .expression m ls (content.run ls) := by
    intro l content hl henclosed
    obtain ⟨m, hm, rfl⟩ := enclosed_eq_ok_iff.1 henclosed
    have hroom := Nesting.room_of_parenthesized hm
    exact ⟨m, ⟨hl, hm⟩, hinner m (by omega)⟩
  have hfull : ∀ position cause, enclosed n position = .error cause →
      n.room = 0 ∧ cause = .tooDeep position := fun _ _ => enclosed_eq_error_iff.1
  cases ls with
  | nil => exact Outcome.took_error fun before hbefore => by simpa using Fault.noPrimary hbefore
  | cons l ls =>
    rw [Parser.primary]
    split
    next text hl => exact literal_took hl ls
    next name hl => exact call_took hl hopen hfull ls
    next hl => exact group_took hl (fun content => hopen l content hl) (hfull l.position) ls
    next hnumber hname hparen =>
      refine Outcome.took_error fun before hbefore => ?_
      simpa using Fault.strayPrimary hbefore hnumber hname hparen

/-! ### Factors -/

theorem factorialMark_took {s : Subtree} {us : List Lexeme} (hus : Reads .primary n us s)
    (ls : List Lexeme) :
    (factorialMark s ls).Took ls (fun taken => ReadsUpTo .marked n (us ++ taken))
      fun taken cause rest => ∀ before, Expects n before .marked →
        Fault (before ++ us ++ taken) cause rest := by
  cases ls with
  | nil => exact Outcome.took_ok ⟨by simpa using hus.unmarked, Nonterminal.endsAt_nil _ _⟩
  | cons l ls =>
    rw [factorialMark.eq_def]
    dsimp only
    split
    next hl =>
      cases hfactorial : s.factorial l.position with
      | error cause =>
        obtain ⟨hheight, rfl⟩ := map_boundedHeight_eq_error_iff.1 hfactorial
        rw [hus.height_eq] at hheight
        refine Outcome.took_error fun before hbefore => ?_
        simpa using Fault.tooHigh (.factorial hbefore hus hl) hheight
      | ok joined =>
        exact ⟨[l], rfl, hus.factorial hl hfactorial, fun _ _ hgo => ⟨hgo, by simp [hl]⟩⟩
    next hl =>
      exact Outcome.took_ok ⟨by simpa using hus.unmarked,
        Nonterminal.endsAt_cons_iff.2 fun hgo => absurd hgo hl⟩

theorem negation_took {l : Lexeme} (hl : l.token = .minus)
    (hinner : ∀ m, m.room < n.room → ∀ ls, Accounts .factor m ls ((unary m).run ls))
    (ls : List Lexeme) :
    Accounts .factor n (l :: ls) (negation (negated n l.position) l.position ls) := by
  refine Outcome.Took.append [l] ?_
  cases hnegated : negated n l.position with
  | error cause =>
    obtain ⟨hroom, rfl⟩ := negated_eq_error_iff.1 hnegated
    exact Outcome.took_error fun before hbefore => .tooNested (.negation hbefore hl) hroom
  | ok operand =>
    obtain ⟨m, hm, rfl⟩ := negated_eq_ok_iff.1 hnegated
    have hroom := Nesting.room_of_deeper hm
    refine ((hinner m (by omega) ls).imp_error fun _ _ _ hfault before hbefore => ?_).andThen
      fun us s rest hus => ?_
    · simpa using hfault (before ++ [l]) (.negated hbefore ⟨hl, hm⟩)
    · refine Outcome.took_ofExcept (fun joined hjoin => ?_) fun cause hcause before hbefore => ?_
      · rw [List.append_nil]
        exact ⟨hus.reads.negation ⟨hl, hm⟩ hjoin, by simpa using hus.ends.append [l.token]⟩
      · obtain ⟨hheight, rfl⟩ := map_boundedHeight_eq_error_iff.1 hcause
        rw [hus.reads.height_eq] at hheight
        simpa using Fault.tooHigh (.negation hbefore ⟨hl, hm⟩ hus.reads hus.ends) hheight

/-- A marked primary is accounted for if its primary is. -/
theorem accounts_marked
    (hprimary : ∀ ls, Accounts .primary n ls (Nonterminal.primary.run n ls)) (ls : List Lexeme) :
    Accounts .marked n ls (Nonterminal.marked.run n ls) := by
  have hfirst := (hprimary ls).imp_error
    fun _ _ _ hfault before (hbefore : Expects n before .marked) => hfault before hbefore.primary
  refine hfirst.andThen fun us s rest hus => ?_
  exact (factorialMark_took hus.reads rest).imp_error
    fun _ _ _ hfault before hbefore => by simpa using hfault before hbefore

end

/-! ### All phrases -/

/-- Reading a factor is accounted for. Behind a sign and behind a parenthesis there is less room,
so that what they enclose is accounted for already. -/
theorem accounts_unary (n : Nesting) (ls : List Lexeme) :
    Accounts .factor n ls ((unary n).run ls) := by
  induction hroom : n.room using Nat.strongRecOn generalizing n ls with
  | ind room ih =>
    have hfactor : ∀ m : Nesting, m.room < n.room →
        ∀ ls, Accounts .factor m ls ((unary m).run ls) :=
      fun m hm ls => ih m.room (hroom ▸ hm) m ls rfl
    have hprimary : ∀ ls, Accounts .primary n ls (Nonterminal.primary.run n ls) :=
      primary_took fun m hm =>
        accounts_chain .additive (accounts_chain .multiplicative (hfactor m hm))
    have hmarked := (accounts_marked hprimary ls).imp
      (fun _ _ _ h => (⟨h.reads.unsigned, h.ends⟩ : ReadsUpTo .factor n _ _ _))
      fun _ _ _ hfault before (hbefore : Expects n before .factor) => hfault before hbefore.marked
    rw [run_unary]
    cases ls with
    | nil => exact hmarked
    | cons l ls =>
      rw [readFactor.eq_def]
      dsimp only
      split
      next hl => exact negation_took hl hfactor ls
      next => exact hmarked

/-- Reading a phrase of any kind, at any nesting and from any row of lexemes, is accounted for. -/
theorem accounts_run (x : Nonterminal) (n : Nesting) (ls : List Lexeme) :
    Accounts x n ls (x.run n ls) := by
  have hprimary : ∀ ls, Accounts .primary n ls (Nonterminal.primary.run n ls) :=
    primary_took fun m _ =>
      accounts_chain .additive (accounts_chain .multiplicative (accounts_unary m))
  match x with
  | .primary => exact hprimary ls
  | .marked => exact accounts_marked hprimary ls
  | .factor => exact accounts_unary n ls
  | .chain .multiplicative => exact accounts_chain .multiplicative (accounts_unary n) ls
  | .chain .additive =>
    exact accounts_chain .additive (accounts_chain .multiplicative (accounts_unary n)) ls

/-- A success has taken a phrase within the limits up to its end. -/
theorem readsUpTo_of_run {x : Nonterminal} {n : Nesting} {ls rest : List Lexeme} {s : Subtree}
    (h : x.run n ls = .ok s rest) : ∃ taken, ls = taken ++ rest ∧ ReadsUpTo x n taken s rest :=
  (accounts_run x n ls).of_eq_ok h

/-- A success has taken a phrase within the limits. -/
theorem reads_of_run {x : Nonterminal} {n : Nesting} {ls rest : List Lexeme} {s : Subtree}
    (h : x.run n ls = .ok s rest) : ∃ taken, ls = taken ++ rest ∧ Reads x n taken s := by
  obtain ⟨taken, hls, htaken⟩ := readsUpTo_of_run h
  exact ⟨taken, hls, htaken.reads⟩

/-- If a whole expression cannot be read, there is a fault. -/
theorem fault_of_run {ls rest : List Lexeme} {cause : ParseError}
    (h : Nonterminal.expression.run .outermost ls = .error cause rest) :
    ∃ taken, ls = taken ++ rest ∧ Fault taken cause rest := by
  obtain ⟨taken, hls, hfault⟩ := (accounts_run .expression .outermost ls).of_eq_error h
  exact ⟨taken, hls, hfault [] .outermost⟩

end Calculator

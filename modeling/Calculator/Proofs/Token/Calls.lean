import Calculator.Proofs.Expr.Nodes
import Calculator.Proofs.Token.Balance

/-!
# Calls in a row of tokens

A call stands in a row where a name is followed by a parenthesis whose partner is in the row. Its
arguments are the parts of what stands between the two parentheses, divided at the commas that are
in no further parentheses. Calls are spoken of without regard to whether the row is an expression,
so that they can be spoken of in a row that is none.

In a phrase the arguments are the expressions from which the phrase has been built, and the calls
are those of its tree.

## Main definitions

* `Calculator.parts`: the parts of a row between its own commas.
* `Calculator.HasCall`: a row holds a call with given tokens between its parentheses.
* `Calculator.SuitsFunction`: a row consists of as many expressions as a function takes.
* `Calculator.HasOnlyValidCalls`: every call in a row is that of a function and has as many
  arguments as that function takes.

## Main results

* `Calculator.DerivesAll.length_parts`, `Calculator.DerivesAll.exists_derives_of_mem_parts`: the
  parts of a list of arguments are the arguments.
* `Calculator.HasCall.cases_append`: what is put behind a row without closing anything in it adds
  only its own calls.
* `Calculator.Derives.hasOnlyValidCalls`: the calls in a phrase are valid if those of its tree are.
-/

namespace Calculator

/-! ### The parts of a row -/

/-- How many parentheses are open behind a token if `k` are open in front of it. -/
def openBehind (k : Nat) : Token → Nat
  | .leftParen => k + 1
  | .rightParen => k - 1
  | _ => k

/-- The parts of a row between the commas that stand in no parentheses, where `k` parentheses are
open in front of the row. -/
def partsInside (k : Nat) : List Token → List (List Token)
  | [] => [[]]
  | t :: ts =>
      if t = .comma ∧ k = 0 then [] :: partsInside k ts
      else (partsInside (openBehind k t) ts).modifyHead (t :: ·)

/-- The parts of a row between its own commas. -/
def parts (ts : List Token) : List (List Token) := partsInside 0 ts

/-- Where `k` parentheses are open, no comma in the row `ts` divides a row that begins with `ts`. -/
def IsUndivided (k : Nat) (ts : List Token) : Prop :=
  ∀ us, partsInside k (ts ++ us) = (partsInside k us).modifyHead (ts ++ ·)

section

variable {k : Nat} {ts us : List Token}

theorem IsUndivided.append (h : IsUndivided k ts) (h' : IsUndivided k us) :
    IsUndivided k (ts ++ us) := by
  intro vs
  rw [List.append_assoc, h, h', List.modifyHead_modifyHead]
  simp [Function.comp_def]

/-- A token other than a parenthesis divides nothing, unless it is a comma in no parentheses. -/
theorem isUndivided_singleton {t : Token} (hcomma : t ≠ .comma ∨ k ≠ 0) (hopen : t ≠ .leftParen)
    (hclose : t ≠ .rightParen) : IsUndivided k [t] := by
  intro us
  have hbehind : openBehind k t = k := by
    cases t <;> first | rfl | contradiction
  rw [List.singleton_append, partsInside, if_neg (by tauto), hbehind]
  rfl

theorem IsUndivided.cons {t : Token} (hcomma : t ≠ .comma ∨ k ≠ 0) (hopen : t ≠ .leftParen)
    (hclose : t ≠ .rightParen) (h : IsUndivided k ts) : IsUndivided k (t :: ts) :=
  (isUndivided_singleton hcomma hopen hclose).append h

theorem isUndivided_sign (k : Nat) (op : BinaryOperator) : IsUndivided k [op.sign] := by
  cases op <;> exact isUndivided_singleton (.inl nofun) nofun nofun

/-- Nothing in parentheses divides what stands around them. -/
theorem IsUndivided.parenthesized (h : IsUndivided (k + 1) ts) :
    IsUndivided k (.leftParen :: (ts ++ [.rightParen])) := by
  intro us
  have hopen (vs : List Token) : partsInside k (.leftParen :: vs) =
      (partsInside (k + 1) vs).modifyHead (.leftParen :: ·) := by simp [partsInside, openBehind]
  have hclose (vs : List Token) : partsInside (k + 1) (.rightParen :: vs) =
      (partsInside k vs).modifyHead (.rightParen :: ·) := by simp [partsInside, openBehind]
  rw [List.cons_append, List.append_assoc, List.singleton_append, hopen, h, hclose]
  simp [Function.comp_def]

/-- A row that nothing divides is one part. -/
theorem IsUndivided.parts_eq (h : IsUndivided 0 ts) : parts ts = [ts] := by
  simpa [parts, partsInside] using h []

/-- Behind a row that nothing divides a comma begins the next part. -/
theorem IsUndivided.parts_append_comma (h : IsUndivided 0 ts) (us : List Token) :
    parts (ts ++ .comma :: us) = ts :: parts us := by
  rw [parts, h]
  simp [partsInside, parts]

example : parts [.number "1", .comma, .leftParen, .comma, .rightParen] =
    [[.number "1"], [.leftParen, .comma, .rightParen]] := by decide

end

mutual

/-- No comma in a phrase divides the row in which it stands. -/
theorem Derives.isUndivided {x : Nonterminal} {d : Nat} {ts : List Token} {e : Expr} :
    Derives x d ts e → ∀ k, IsUndivided k ts
  | .operand _ h, k => h.isUndivided k
  | .join _ op _ left right, k =>
      (left.isUndivided k).append ((isUndivided_sign k op).append (right.isUndivided k))
  | .negation h, k => (h.isUndivided k).cons (.inl nofun) nofun nofun
  | .unsigned h, k => h.isUndivided k
  | .factorial h, k => (h.isUndivided k).append (isUndivided_singleton (.inl nofun) nofun nofun)
  | .unmarked h, k => h.isUndivided k
  | .number _, k => isUndivided_singleton (.inl nofun) nofun nofun
  | .call _ h, k => (h.isUndivided k).parenthesized.cons (.inl nofun) nofun nofun
  | .group h, k => (h.isUndivided (k + 1)).parenthesized

/-- No comma in a list of arguments divides what stands around the parentheses of the list. -/
theorem DerivesAll.isUndivided {d : Nat} {ts : List Token} {es : List Expr} :
    DerivesAll d ts es → ∀ k, IsUndivided (k + 1) ts
  | .one h, k => h.isUndivided (k + 1)
  | .cons h hs, k =>
      (h.isUndivided (k + 1)).append
        ((hs.isUndivided k).cons (.inr (Nat.succ_ne_zero k)) nofun nofun)

end

section

variable {d : Nat} {ts : List Token} {es : List Expr}

/-- A list of arguments has as many parts as arguments. -/
theorem DerivesAll.length_parts (h : DerivesAll d ts es) : (parts ts).length = es.length := by
  induction h using DerivesAll.inductionOn with
  | one h => rw [(h.isUndivided 0).parts_eq, List.length_singleton, List.length_singleton]
  | cons h _ ih => rw [(h.isUndivided 0).parts_append_comma, List.length_cons, ih, List.length_cons]

/-- Each part of a list of arguments is one of the arguments. -/
theorem DerivesAll.exists_derives_of_mem_parts (h : DerivesAll d ts es) {part : List Token}
    (hpart : part ∈ parts ts) : ∃ e ∈ es, ∃ d, Derives .expression d part e := by
  induction h using DerivesAll.inductionOn with
  | one h =>
    rw [(h.isUndivided 0).parts_eq, List.mem_singleton] at hpart
    exact ⟨_, List.mem_cons_self, _, hpart ▸ h⟩
  | cons h _ ih =>
    rw [(h.isUndivided 0).parts_append_comma] at hpart
    rcases List.mem_cons.1 hpart with rfl | hpart
    · exact ⟨_, List.mem_cons_self, _, h⟩
    · obtain ⟨e, he, hderives⟩ := ih hpart
      exact ⟨e, List.mem_cons_of_mem _ he, hderives⟩

theorem DerivesAll.isSentence_of_mem_parts (h : DerivesAll d ts es) {part : List Token}
    (hpart : part ∈ parts ts) : IsSentence part := by
  obtain ⟨e, _, d, hderives⟩ := h.exists_derives_of_mem_parts hpart
  exact ⟨d, e, hderives⟩

end

/-! ### Calls in a row -/

/-- The row holds a call of `name` with the row `content` between its parentheses. -/
def HasCall (ts : List Token) (name : String) (content : List Token) : Prop :=
  ∃ before after,
    ts = before ++ .identifier name :: .leftParen :: (content ++ .rightParen :: after) ∧
      IsBalanced content

/-- The row consists of as many expressions, with commas between them, as the function `name`
takes. -/
def SuitsFunction (name : String) (content : List Token) : Prop :=
  (∃ builtin, Builtin.lookup name = some builtin ∧ (parts content).length = builtin.arity) ∧
    ∀ part ∈ parts content, IsSentence part

/-- Every call in the row is that of a function, and it has as many arguments as the function
takes. -/
def HasOnlyValidCalls (ts : List Token) : Prop :=
  ∀ name content, HasCall ts name content → SuitsFunction name content

section

variable {k : Nat} {ts us : List Token} {t : Token} {name : String} {content : List Token}

/-- A call in a row begins the row or stands in the rest of it. -/
theorem hasCall_cons_iff : HasCall (t :: ts) name content ↔
    (t = .identifier name ∧ ∃ after, ts = .leftParen :: (content ++ .rightParen :: after) ∧
      IsBalanced content) ∨ HasCall ts name content := by
  constructor
  · rintro ⟨before, after, heq, hbalanced⟩
    cases before with
    | nil =>
      obtain ⟨rfl, rfl⟩ := List.cons_eq_cons.1 heq
      exact .inl ⟨rfl, after, rfl, hbalanced⟩
    | cons _ before =>
      obtain ⟨rfl, rfl⟩ := List.cons_eq_cons.1 heq
      exact .inr ⟨before, after, rfl, hbalanced⟩
  · rintro (⟨rfl, after, rfl, hbalanced⟩ | ⟨before, after, rfl, hbalanced⟩)
    · exact ⟨[], after, rfl, hbalanced⟩
    · exact ⟨t :: before, after, rfl, hbalanced⟩

/-- A row in which nothing is closed holds no call. -/
theorem hasOnlyValidCalls_of_notMem (hclose : .rightParen ∉ ts) : HasOnlyValidCalls ts := by
  rintro name content ⟨before, after, rfl, _⟩
  simp at hclose

/-- A token that is no name begins no call. -/
theorem HasOnlyValidCalls.cons (h : HasOnlyValidCalls ts) (ht : ∀ name, t ≠ .identifier name) :
    HasOnlyValidCalls (t :: ts) := by
  intro name content hcall
  rcases hasCall_cons_iff.1 hcall with ⟨rfl, _⟩ | hcall
  · exact absurd rfl (ht name)
  · exact h name content hcall

/-- A call in two rows that are put together is in one of them, unless the first ends with its name
and the second begins with its parenthesis. -/
theorem HasCall.cases_append (h : HasCall (ts ++ us) name content) (hopen : HasOpen k us) :
    HasCall ts name content ∨ HasCall us name content ∨
      (ts.getLast? = some (.identifier name) ∧ us.head? = some .leftParen) := by
  obtain ⟨before, after, hrow, hbalanced⟩ := h
  rcases List.append_eq_append_iff.1 hrow with ⟨front, rfl, rfl⟩ | ⟨front, rfl, heq⟩
  · exact .inr (.inl ⟨front, after, rfl, hbalanced⟩)
  -- The second row begins in front of the name, behind the name, or behind the parenthesis.
  rcases front with _ | ⟨_, _ | ⟨_, front⟩⟩
  · exact .inr (.inl ⟨[], after, heq.symm, hbalanced⟩)
  · obtain ⟨rfl, rfl⟩ := List.cons.inj heq
    exact .inr (.inr ⟨by simp, rfl⟩)
  · simp only [List.cons_append, List.cons.injEq] at heq
    obtain ⟨rfl, rfl, heq⟩ := heq
    obtain ⟨behind, rfl⟩ := hopen.exists_eq_append hbalanced heq.symm
    exact .inl ⟨before, behind, rfl, hbalanced⟩

/-- What is put behind a row without closing anything in it adds only its own calls. -/
theorem HasOnlyValidCalls.append (h : HasOnlyValidCalls ts) (h' : HasOnlyValidCalls us)
    (hopen : HasOpen k us)
    (hseam : (∀ name, ts.getLast? ≠ some (.identifier name)) ∨ us.head? ≠ some .leftParen) :
    HasOnlyValidCalls (ts ++ us) := by
  intro name content hcall
  rcases hcall.cases_append hopen with hcall | hcall | ⟨hlast, hhead⟩
  · exact h name content hcall
  · exact h' name content hcall
  · exact (hseam.elim (fun hts => hts name hlast) (fun hus => hus hhead)).elim

/-- A token that is no parenthesis ends no call and continues none. -/
theorem HasOnlyValidCalls.concat (h : HasOnlyValidCalls ts) (hopen : t ≠ .leftParen)
    (hclose : t ≠ .rightParen) : HasOnlyValidCalls (ts ++ [t]) :=
  h.append (hasOnlyValidCalls_of_notMem (by simpa using hclose.symm))
    (isBalanced_singleton hopen hclose) (.inr (by simpa using hopen))

/-- A closing parenthesis behind a balanced row closes no call in it. -/
theorem HasOnlyValidCalls.concat_rightParen (h : HasOnlyValidCalls ts) (hts : IsBalanced ts) :
    HasOnlyValidCalls (ts ++ [.rightParen]) := by
  rintro name content ⟨before, after, hrow, hbalanced⟩
  rcases List.eq_nil_or_concat' after with rfl | ⟨after, last, rfl⟩
  · -- The name and its parenthesis would be in the balanced row, and the partner behind it.
    have hfront : ts ++ [.rightParen] =
        (before ++ [.identifier name]) ++ .leftParen :: content ++ [.rightParen] := by
      simpa using hrow
    rw [(List.append_singleton_inj.1 hfront).1] at hts
    exact absurd hts.hasPartner hbalanced.not_hasPartner_self
  · have hfront : ts ++ [.rightParen] = before ++
        .identifier name :: .leftParen :: (content ++ .rightParen :: after) ++ [last] := by
      simpa using hrow
    exact h name content ⟨before, after, (List.append_singleton_inj.1 hfront).1, hbalanced⟩

/-- A call that is not closed adds no call to those of its arguments. -/
theorem HasOnlyValidCalls.cons_name (h : HasOnlyValidCalls ts) (hts : IsBalanced ts)
    (name : String) : HasOnlyValidCalls (.identifier name :: .leftParen :: ts) := by
  intro name' content hcall
  rcases hasCall_cons_iff.1 hcall with ⟨-, after, heq, hbalanced⟩ | hcall
  · obtain rfl := (List.cons.inj heq).2
    exact absurd ⟨content, after, rfl, hbalanced⟩ hts.not_hasPartner_self
  · exact h.cons (by simp) name' content hcall

/-- Behind the arguments of a call that is not closed one more parenthesis is open. -/
theorem IsBalanced.hasOpen_call (h : IsBalanced ts) (name : String) :
    HasOpen 1 (.identifier name :: .leftParen :: ts) :=
  have hname : IsBalanced [.identifier name] := isBalanced_singleton nofun nofun
  hname.concat_leftParen.append_balanced h

/-- A call that is not closed may stand behind any row. -/
theorem HasOnlyValidCalls.append_call (h : HasOnlyValidCalls ts) (h' : HasOnlyValidCalls us)
    (hus : IsBalanced us) (name : String) :
    HasOnlyValidCalls (ts ++ .identifier name :: .leftParen :: us) :=
  h.append (h'.cons_name hus name) (hus.hasOpen_call name) (.inr (by simp))

/-- A call is valid if its arguments are and it has the right number of them. -/
theorem HasOnlyValidCalls.cons_call (h : HasOnlyValidCalls ts) (hts : IsBalanced ts)
    (hsuits : SuitsFunction name ts) :
    HasOnlyValidCalls (.identifier name :: .leftParen :: (ts ++ [.rightParen])) := by
  intro name' content hcall'
  rcases hasCall_cons_iff.1 hcall' with ⟨hname, after, heq, hbalanced⟩ | hcall'
  · obtain rfl := Token.identifier.inj hname
    obtain rfl := hts.eq_of_append_rightParen hbalanced (List.cons.inj heq).2
    exact hsuits
  · exact (h.concat_rightParen hts).cons (by simp) name' content hcall'

end

mutual

/-- The calls in a phrase are valid if those of its tree are. -/
theorem Derives.hasOnlyValidCalls {x : Nonterminal} {d : Nat} {ts : List Token} {e : Expr} :
    Derives x d ts e → e.HasValidCalls → HasOnlyValidCalls ts
  | .operand _ h, hvalid => h.hasOnlyValidCalls hvalid
  | .join _ op _ left right, hvalid => by
      obtain ⟨hleft, hright⟩ := Expr.hasValidCalls_binary_iff.1 hvalid
      obtain ⟨hopen, _, hname⟩ := op.sign_ne
      exact (left.hasOnlyValidCalls hleft).append ((right.hasOnlyValidCalls hright).cons hname)
        ((isBalanced_sign op).append right.isBalanced) (.inr (by simpa using hopen))
  | .negation h, hvalid =>
      (h.hasOnlyValidCalls (Expr.hasValidCalls_negate_iff.1 hvalid)).cons (by simp)
  | .unsigned h, hvalid => h.hasOnlyValidCalls hvalid
  | .factorial h, hvalid =>
      (h.hasOnlyValidCalls (Expr.hasValidCalls_factorial_iff.1 hvalid)).concat nofun nofun
  | .unmarked h, hvalid => h.hasOnlyValidCalls hvalid
  | .number _, _ => hasOnlyValidCalls_of_notMem (by simp)
  | .call _ h, hvalid => by
      obtain ⟨hcall, hargs⟩ := Expr.hasValidCalls_call_iff.1 hvalid
      rw [← h.length_parts] at hcall
      exact (h.hasOnlyValidCalls hargs).cons_call h.isBalanced
        ⟨hcall, fun part => h.isSentence_of_mem_parts⟩
  | .group h, hvalid =>
      ((h.hasOnlyValidCalls hvalid).concat_rightParen h.isBalanced).cons (by simp)

/-- The calls in a list of arguments are valid if those of the arguments are. -/
theorem DerivesAll.hasOnlyValidCalls {d : Nat} {ts : List Token} {es : List Expr} :
    DerivesAll d ts es → (∀ e ∈ es, e.HasValidCalls) → HasOnlyValidCalls ts
  | .one h, hvalid => h.hasOnlyValidCalls (List.forall_mem_singleton.1 hvalid)
  | .cons h hs, hvalid => by
      obtain ⟨hfirst, hrest⟩ := List.forall_mem_cons.1 hvalid
      exact (h.hasOnlyValidCalls hfirst).append ((hs.hasOnlyValidCalls hrest).cons (by simp))
        (hs.isBalanced.cons nofun nofun) (.inr (by simp))

end

end Calculator

import Calculator.Proofs.Parsing.Acceptance

/-!
# Groups around phrases

Every node of the tree of an expression comes from a phrase of its row. The phrase need not be
taken alone: a run of operands is in a chain that goes on, a factor is in a negation, a primary in
front of its mark. Still another phrase of the same kind with the same tree can stand in its place,
and a phrase in parentheses is one, since a group is a phrase of every kind. So parentheses around
the phrase of a node never change the tree. They nest the row one level deeper inside of the phrase.

## Main definitions

* `Calculator.Expr.subtree?`: the subtree at a path from the root.
* `Calculator.Span`, `Calculator.SpanAll`: the place, within a phrase or a list of arguments, of the
  phrase that a node comes from.
* `Calculator.HasSpan`, `Calculator.HasSpanAll`: a node comes from some phrase.
* `Calculator.IsReadAtNesting`: a row is accepted if its nesting is within the limit.

## Main results

* `Calculator.Derives.hasSpan`: every node comes from a phrase.
* `Calculator.Span.fill`: what may stand in the place of a phrase.
* `Calculator.ofLexemes_parenthesized`: a row that is accepted is accepted with the same tree if the
  phrase of a node is put in parentheses, unless this is nested too deeply.
-/

namespace Calculator

/-! ### Paths to the nodes of a tree -/

namespace Expr

/-- The trees right below the root. -/
def children : Expr → List Expr
  | number _ => []
  | binary _ left right => [left, right]
  | negate inner => [inner]
  | factorial inner => [inner]
  | call _ args => args

/-- The subtree at a path from the root. At each node the path tells to which of the trees right
below the node it goes on. -/
def subtree? : List Nat → Expr → Option Expr
  | [], e => some e
  | i :: path, e => e.children[i]?.bind (subtree? path)

end Expr

/-! ### The phrases of nodes -/

section

variable (y : Nonterminal) (c : Nat) (us : List Token) (node : Expr)

mutual

/-- `Span y c us node x d path k before after e`: the row `before ++ us ++ after` is a phrase of the
kind `x`, of the nesting `d` and with the tree `e`. In it, `us` is the phrase that the node at the
end of `path` comes from. This is a phrase of the kind `y`, of the nesting `c` and with the tree
`node`, and `k` groups, argument lists and negations enclose it. -/
inductive Span : Nonterminal → Nat → List Nat → Nat → List Token → List Token → Expr → Prop
  | whole (h : Derives y c us node) : Span y c [] 0 [] [] node
  | operand (tier : Tier) {d k : Nat} {path : List Nat} {before after : List Token} {e : Expr}
      (h : Span tier.operand d path k before after e) :
      Span (.chain tier) d path k before after e
  | left (tier : Tier) (op : BinaryOperator) {d d' k : Nat} {path : List Nat}
      {before after ts : List Token} {e e' : Expr} (hop : tier.contains op = true)
      (h : Span (.chain tier) d path k before after e) (right : Derives tier.operand d' ts e') :
      Span (.chain tier) (max d d') (0 :: path) k before (after ++ op.sign :: ts) (.binary op e e')
  | right (tier : Tier) (op : BinaryOperator) {d d' k : Nat} {path : List Nat}
      {before after ts : List Token} {e e' : Expr} (hop : tier.contains op = true)
      (left : Derives (.chain tier) d' ts e') (h : Span tier.operand d path k before after e) :
      Span (.chain tier) (max d' d) (1 :: path) k (ts ++ op.sign :: before) after (.binary op e' e)
  | negation {d k : Nat} {path : List Nat} {before after : List Token} {e : Expr}
      (h : Span .factor d path k before after e) :
      Span .factor (d + 1) (0 :: path) (k + 1) (.minus :: before) after (.negate e)
  | unsigned {d k : Nat} {path : List Nat} {before after : List Token} {e : Expr}
      (h : Span .marked d path k before after e) : Span .factor d path k before after e
  | factorial {d k : Nat} {path : List Nat} {before after : List Token} {e : Expr}
      (h : Span .primary d path k before after e) :
      Span .marked d (0 :: path) k before (after ++ [.bang]) (.factorial e)
  | unmarked {d k : Nat} {path : List Nat} {before after : List Token} {e : Expr}
      (h : Span .primary d path k before after e) : Span .marked d path k before after e
  | call {name : String} {d i k : Nat} {path : List Nat} {before after : List Token}
      {es : List Expr} (hname : (Builtin.lookup name).isSome = true)
      (h : SpanAll d i path k before after es) :
      Span .primary (d + 1) (i :: path) (k + 1) (.identifier name :: .leftParen :: before)
        (after ++ [.rightParen]) (.call name es)
  | group {d k : Nat} {path : List Nat} {before after : List Token} {e : Expr}
      (h : Span .expression d path k before after e) :
      Span .primary (d + 1) path (k + 1) (.leftParen :: before) (after ++ [.rightParen]) e

/-- `SpanAll y c us node d i path k before after es`: the same in a list of arguments with the trees
`es`, where the path goes through the argument `i`. -/
inductive SpanAll : Nat → Nat → List Nat → Nat → List Token → List Token → List Expr → Prop
  | one {d k : Nat} {path : List Nat} {before after : List Token} {e : Expr}
      (h : Span .expression d path k before after e) : SpanAll d 0 path k before after [e]
  | head {d d' k : Nat} {path : List Nat} {before after ts : List Token} {e : Expr}
      {es : List Expr} (h : Span .expression d path k before after e)
      (hs : DerivesAll d' ts es) :
      SpanAll (max d d') 0 path k before (after ++ .comma :: ts) (e :: es)
  | tail {d d' i k : Nat} {path : List Nat} {before after ts : List Token} {e : Expr}
      {es : List Expr} (h : Derives .expression d' ts e)
      (hs : SpanAll d i path k before after es) :
      SpanAll (max d' d) (i + 1) path k (ts ++ .comma :: before) after (e :: es)

end

end

section

variable {y : Nonterminal} {c c' : Nat} {us us' : List Token} {node : Expr}

mutual

/-- The phrase of a node is a phrase of its own. -/
theorem Span.inner {x : Nonterminal} {d k : Nat} {path : List Nat} {before after : List Token}
    {e : Expr} : Span y c us node x d path k before after e → Derives y c us node
  | .whole h => h
  | .operand _ h => h.inner
  | .left _ _ _ h _ => h.inner
  | .right _ _ _ _ h => h.inner
  | .negation h => h.inner
  | .unsigned h => h.inner
  | .factorial h => h.inner
  | .unmarked h => h.inner
  | .call _ h => h.inner
  | .group h => h.inner

/-- The phrase of a node in a list of arguments is a phrase of its own. -/
theorem SpanAll.inner {d i k : Nat} {path : List Nat} {before after : List Token}
    {es : List Expr} : SpanAll y c us node d i path k before after es → Derives y c us node
  | .one h => h.inner
  | .head h _ => h.inner
  | .tail _ hs => hs.inner

end

mutual

/-- At the end of the path is the tree of the phrase. -/
theorem Span.subtree?_eq {x : Nonterminal} {d k : Nat} {path : List Nat}
    {before after : List Token} {e : Expr} :
    Span y c us node x d path k before after e → e.subtree? path = some node
  | .whole _ => rfl
  | .operand _ h => h.subtree?_eq
  | .left _ _ _ h _ => h.subtree?_eq
  | .right _ _ _ _ h => h.subtree?_eq
  | .negation h => h.subtree?_eq
  | .unsigned h => h.subtree?_eq
  | .factorial h => h.subtree?_eq
  | .unmarked h => h.subtree?_eq
  | .call _ h => h.subtree?_eq
  | .group h => h.subtree?_eq

/-- At the end of the path, behind the choice of the argument, is the tree of the phrase. -/
theorem SpanAll.subtree?_eq {d i k : Nat} {path : List Nat} {before after : List Token}
    {es : List Expr} : SpanAll y c us node d i path k before after es →
      es[i]?.bind (Expr.subtree? path) = some node
  | .one h => h.subtree?_eq
  | .head h _ => h.subtree?_eq
  | .tail _ hs => hs.subtree?_eq

end

mutual

/-- The row is nested at least as deeply as the phrase of a node, with what encloses it. -/
theorem Span.level_add_le {x : Nonterminal} {d k : Nat} {path : List Nat}
    {before after : List Token} {e : Expr} :
    Span y c us node x d path k before after e → k + c ≤ d
  | .whole _ => Nat.le_of_eq (Nat.zero_add c)
  | .operand _ h => h.level_add_le
  | .left _ _ _ h _ => Nat.le_trans h.level_add_le (Nat.le_max_left _ _)
  | .right _ _ _ _ h => Nat.le_trans h.level_add_le (Nat.le_max_right _ _)
  | .negation h => by
      rw [Nat.add_right_comm]
      exact Nat.succ_le_succ h.level_add_le
  | .unsigned h => h.level_add_le
  | .factorial h => h.level_add_le
  | .unmarked h => h.level_add_le
  | .call _ h => by
      rw [Nat.add_right_comm]
      exact Nat.succ_le_succ h.level_add_le
  | .group h => by
      rw [Nat.add_right_comm]
      exact Nat.succ_le_succ h.level_add_le

/-- The list is nested at least as deeply as the phrase of a node, with what encloses it. -/
theorem SpanAll.level_add_le {d i k : Nat} {path : List Nat} {before after : List Token}
    {es : List Expr} : SpanAll y c us node d i path k before after es → k + c ≤ d
  | .one h => h.level_add_le
  | .head h _ => Nat.le_trans h.level_add_le (Nat.le_max_left _ _)
  | .tail _ hs => Nat.le_trans hs.level_add_le (Nat.le_max_right _ _)

end

mutual

/-- In the place of the phrase of a node there may stand another phrase with the same tree, which
may be nested more deeply. -/
theorem Span.fill (hphrase : Derives y c' us' node) (hc : c ≤ c') {x : Nonterminal} {d k : Nat}
    {path : List Nat} {before after : List Token} {e : Expr} :
    Span y c us node x d path k before after e →
      Derives x (max d (k + c')) (before ++ us' ++ after) e
  -- What stands beside the phrase keeps its nesting, and what encloses it adds the same to both.
  | .whole _ => by simpa [Nat.max_eq_right hc] using hphrase
  | .operand tier h => .operand tier (h.fill hphrase hc)
  | .left tier op hop h right => by
      rw [Nat.max_right_comm]
      simpa using Derives.join tier op hop (h.fill hphrase hc) right
  | .right tier op hop left h => by
      simpa [Nat.max_assoc] using Derives.join tier op hop left (h.fill hphrase hc)
  | .negation h => by
      simpa [Nat.add_max_add_right, Nat.add_right_comm] using (h.fill hphrase hc).negation
  | .unsigned h => .unsigned (h.fill hphrase hc)
  | .factorial h => by simpa using (h.fill hphrase hc).factorial
  | .unmarked h => .unmarked (h.fill hphrase hc)
  | .call hname h => by
      simpa [Nat.add_max_add_right, Nat.add_right_comm] using
        Derives.call hname (h.fill hphrase hc)
  | .group h => by
      simpa [Nat.add_max_add_right, Nat.add_right_comm] using (h.fill hphrase hc).group

/-- The same in a list of arguments. -/
theorem SpanAll.fill (hphrase : Derives y c' us' node) (hc : c ≤ c') {d i k : Nat}
    {path : List Nat} {before after : List Token} {es : List Expr} :
    SpanAll y c us node d i path k before after es →
      DerivesAll (max d (k + c')) (before ++ us' ++ after) es
  | .one h => .one (h.fill hphrase hc)
  | .head h hs => by
      rw [Nat.max_right_comm]
      simpa using DerivesAll.cons (h.fill hphrase hc) hs
  | .tail h hs => by
      simpa [Nat.max_assoc] using DerivesAll.cons h (hs.fill hphrase hc)

end

/-- A row with the phrase of a node in it is itself a phrase. -/
theorem Span.derives {x : Nonterminal} {d k : Nat} {path : List Nat} {before after : List Token}
    {e : Expr} (h : Span y c us node x d path k before after e) :
    Derives x d (before ++ us ++ after) e := by
  have hfill := h.fill h.inner (Nat.le_refl c)
  rwa [Nat.max_eq_left h.level_add_le] at hfill

end

/-! ### Every node comes from a phrase -/

/-- In the phrase `ts`, the node at the end of `path` comes from a phrase with the tree `node`. -/
def HasSpan (node : Expr) (x : Nonterminal) (d : Nat) (path : List Nat) (ts : List Token)
    (e : Expr) : Prop :=
  ∃ y c us k before after, ts = before ++ us ++ after ∧ Span y c us node x d path k before after e

/-- The same in a list of arguments, where the path goes through the argument `i`. -/
def HasSpanAll (node : Expr) (d i : Nat) (path : List Nat) (ts : List Token) (es : List Expr) :
    Prop :=
  ∃ y c us k before after, ts = before ++ us ++ after ∧
    SpanAll y c us node d i path k before after es

/-- The root of the tree of a phrase comes from the whole phrase. -/
theorem Derives.hasSpan_nil {x : Nonterminal} {d : Nat} {ts : List Token} {node e : Expr}
    (h : Derives x d ts e) (hnode : e.subtree? [] = some node) : HasSpan node x d [] ts e := by
  obtain rfl := Option.some.inj hnode
  exact ⟨x, d, ts, 0, [], [], by simp, .whole h⟩

mutual

/-- Every node of the tree of a phrase comes from a phrase in it. -/
theorem Derives.hasSpan {x : Nonterminal} {d : Nat} {ts : List Token} {node e : Expr} :
    (path : List Nat) → Derives x d ts e → e.subtree? path = some node →
      HasSpan node x d path ts e
  -- A rule that leaves no trace in the tree keeps the path; any other one takes its first step.
  | [], h, hnode => h.hasSpan_nil hnode
  | path, .operand tier h, hnode => by
    obtain ⟨y, c, us, k, before, after, rfl, hspan⟩ := h.hasSpan path hnode
    exact ⟨y, c, us, k, before, after, rfl, .operand tier hspan⟩
  | 0 :: path, .join tier op hop left right, hnode => by
    obtain ⟨y, c, us, k, before, after, rfl, hspan⟩ := left.hasSpan path hnode
    exact ⟨y, c, us, k, _, _, by simp, .left tier op hop hspan right⟩
  | 1 :: path, .join tier op hop left right, hnode => by
    obtain ⟨y, c, us, k, before, after, rfl, hspan⟩ := right.hasSpan path hnode
    exact ⟨y, c, us, k, _, _, by simp, .right tier op hop left hspan⟩
  | (_ + 2) :: _, .join .., hnode => by cases hnode
  | 0 :: path, .negation h, hnode => by
    obtain ⟨y, c, us, k, before, after, rfl, hspan⟩ := h.hasSpan path hnode
    exact ⟨y, c, us, k + 1, _, _, by simp, hspan.negation⟩
  | (_ + 1) :: _, .negation _, hnode => by cases hnode
  | path, .unsigned h, hnode => by
    obtain ⟨y, c, us, k, before, after, rfl, hspan⟩ := h.hasSpan path hnode
    exact ⟨y, c, us, k, before, after, rfl, hspan.unsigned⟩
  | 0 :: path, .factorial h, hnode => by
    obtain ⟨y, c, us, k, before, after, rfl, hspan⟩ := h.hasSpan path hnode
    exact ⟨y, c, us, k, _, _, by simp, hspan.factorial⟩
  | (_ + 1) :: _, .factorial _, hnode => by cases hnode
  | path, .unmarked h, hnode => by
    obtain ⟨y, c, us, k, before, after, rfl, hspan⟩ := h.hasSpan path hnode
    exact ⟨y, c, us, k, before, after, rfl, hspan.unmarked⟩
  | _ :: _, .number _, hnode => by cases hnode
  | i :: path, .call hname h, hnode => by
    obtain ⟨y, c, us, k, before, after, rfl, hspan⟩ := h.hasSpanAll i path hnode
    exact ⟨y, c, us, k + 1, _, _, by simp, .call hname hspan⟩
  | path, .group h, hnode => by
    obtain ⟨y, c, us, k, before, after, rfl, hspan⟩ := h.hasSpan path hnode
    exact ⟨y, c, us, k + 1, _, _, by simp, hspan.group⟩

/-- Every node of the trees of a list of arguments comes from a phrase in the list. -/
theorem DerivesAll.hasSpanAll {d : Nat} {ts : List Token} {node : Expr} {es : List Expr} :
    (i : Nat) → (path : List Nat) → DerivesAll d ts es →
      es[i]?.bind (Expr.subtree? path) = some node → HasSpanAll node d i path ts es
  | 0, path, .one h, hnode => by
    obtain ⟨y, c, us, k, before, after, rfl, hspan⟩ := h.hasSpan path hnode
    exact ⟨y, c, us, k, before, after, rfl, .one hspan⟩
  | _ + 1, _, .one _, hnode => by cases hnode
  | 0, path, .cons h hs, hnode => by
    obtain ⟨y, c, us, k, before, after, rfl, hspan⟩ := h.hasSpan path hnode
    exact ⟨y, c, us, k, _, _, by simp, .head hspan hs⟩
  | i + 1, path, .cons h hs, hnode => by
    obtain ⟨y, c, us, k, before, after, rfl, hspan⟩ := hs.hasSpanAll i path hnode
    exact ⟨y, c, us, k, _, _, by simp, .tail h hspan⟩

end

/-! ### Reading with parentheses around a phrase -/

/-- The row `ls`, which nests `d` levels deep, is accepted with the tree and the height of `s`, or
refused because of the nesting. -/
structure IsReadAtNesting (d : Nat) (ls : List Lexeme) (s : Subtree) : Prop where
  /-- The row is an expression with the tree, and `d` is its nesting. -/
  derives : Derives .expression d (ls.map Lexeme.token) s.expr
  /-- The row is accepted if the nesting is within the limit. -/
  accepted : d ≤ nestingLimit → Expr.ofLexemes ls = .ok s
  /-- The row is refused if the nesting is not within the limit. -/
  refused : nestingLimit < d → ∃ position, Expr.ofLexemes ls = .error (.tooDeep position)

section

variable {ls : List Lexeme}

/-- An expression with valid calls that is not too high is read at its nesting. -/
theorem isReadAtNesting_of_derives {d : Nat} {e : Expr}
    (hd : Derives .expression d (ls.map Lexeme.token) e) (hvalid : e.HasValidCalls)
    (hheight : e.height ≤ heightLimit) : IsReadAtNesting d ls e.measured := by
  have hbefore : Derives .expression d ((beforeEnd ls).map Lexeme.token) e := by
    rwa [beforeEnd_eq_self hd.endOfInput_notMem]
  refine ⟨hd, fun hdepth => ofLexemes_eq_ok_of_derives hbefore ⟨hdepth, hheight, hvalid⟩, ?_⟩
  intro hdepth
  exact ofLexemes_eq_tooDeep_of_derives hbefore hvalid fun hfits =>
    absurd hfits.1 (Nat.not_le.2 hdepth)

/-- Every node of the tree of an accepted row, which has no end of input, comes from a phrase of the
row. If parentheses are put around any such phrase, the row is accepted with the same tree, unless
it is nested too deeply then: the nesting is what it was, or if that is more, the nesting of the
phrase with one level for the parentheses and all levels around them. -/
theorem ofLexemes_parenthesized {s : Subtree} (h : Expr.ofLexemes ls = .ok s)
    (hend : .endOfInput ∉ ls.map Lexeme.token) {path : List Nat} {node : Expr}
    (hnode : s.expr.subtree? path = some node) :
    (∃ us vs ws y c d k, ls = us ++ vs ++ ws ∧
        Span y c (vs.map Lexeme.token) node .expression d path k (us.map Lexeme.token)
          (ws.map Lexeme.token) s.expr) ∧
      ∀ us vs ws y c d k, ls = us ++ vs ++ ws →
        Span y c (vs.map Lexeme.token) node .expression d path k (us.map Lexeme.token)
          (ws.map Lexeme.token) s.expr →
        ∀ l l' : Lexeme, l.token = .leftParen → l'.token = .rightParen →
          IsReadAtNesting (max d (k + (c + 1))) (us ++ l :: (vs ++ l' :: ws)) s := by
  obtain ⟨d, _, hd, hvalid, hheight⟩ := derives_of_ofLexemes_eq_ok h
  rw [beforeEnd_eq_self hend] at hd
  constructor
  · obtain ⟨y, c, ts, k, before, after, hls, hspan⟩ := hd.hasSpan path hnode
    obtain ⟨us', ws, rfl, hus', rfl⟩ := List.map_eq_append_iff.1 hls
    obtain ⟨us, vs, rfl, rfl, rfl⟩ := List.map_eq_append_iff.1 hus'
    exact ⟨us, vs, ws, y, c, d, k, rfl, hspan⟩
  · rintro us vs ws y c d' k rfl hspan l l' hl hl'
    have hgroup := hspan.fill hspan.inner.parenthesized (Nat.le_succ c)
    have hderives : Derives .expression (max d' (k + (c + 1)))
        ((us ++ l :: (vs ++ l' :: ws)).map Lexeme.token) s.expr := by
      simpa [hl, hl'] using hgroup
    rw [eq_measured_of_ofLexemes h]
    exact isReadAtNesting_of_derives hderives hvalid hheight

/-- In `1-2-3` the node of `1-2` comes from the first operand of the chain, and `(1-2)-3` is read
alike. -/
theorem ofLexemes_parenthesized_sub :
    Expr.ofLexemes [⟨.number "1", 0⟩, ⟨.minus, 1⟩, ⟨.number "2", 2⟩, ⟨.minus, 3⟩,
        ⟨.number "3", 4⟩] =
      .ok (Expr.binary .sub (.binary .sub (.number 1) (.number 2)) (.number 3)).measured ∧
    Expr.ofLexemes [⟨.leftParen, 0⟩, ⟨.number "1", 0⟩, ⟨.minus, 1⟩, ⟨.number "2", 2⟩,
        ⟨.rightParen, 3⟩, ⟨.minus, 3⟩, ⟨.number "3", 4⟩] =
      .ok (Expr.binary .sub (.binary .sub (.number 1) (.number 2)) (.number 3)).measured := by
  have hone : Derives .term 0 [.number "1"] (.number 1) :=
    .ofPrimary (.number (by decide +kernel)) _
  have htwo : Derives .term 0 [.number "2"] (.number 2) :=
    .ofPrimary (.number (by decide +kernel)) _
  have hthree : Derives .term 0 [.number "3"] (.number 3) :=
    .ofPrimary (.number (by decide +kernel)) _
  have hfront : Derives .expression 0 [.number "1", .minus, .number "2"]
      (.binary .sub (.number 1) (.number 2)) :=
    .join .additive .sub rfl (.operand .additive hone) htwo
  have hspan : Span .expression 0 [.number "1", .minus, .number "2"]
      (.binary .sub (.number 1) (.number 2)) .expression 0 [0] 0 [] [.minus, .number "3"]
      (.binary .sub (.binary .sub (.number 1) (.number 2)) (.number 3)) :=
    .left .additive .sub rfl (.whole hfront) hthree
  have hread : Expr.ofLexemes [⟨.number "1", 0⟩, ⟨.minus, 1⟩, ⟨.number "2", 2⟩, ⟨.minus, 3⟩,
      ⟨.number "3", 4⟩] = .ok _ :=
    (isReadAtNesting_of_derives hspan.derives (by simp) (by decide)).accepted (by decide)
  have hboth := (ofLexemes_parenthesized hread (by decide) hspan.subtree?_eq).2
    [] [⟨.number "1", 0⟩, ⟨.minus, 1⟩, ⟨.number "2", 2⟩] [⟨.minus, 3⟩, ⟨.number "3", 4⟩]
    .expression 0 0 0 rfl hspan ⟨.leftParen, 0⟩ ⟨.rightParen, 3⟩ rfl rfl
  exact ⟨hread, hboth.accepted (by decide)⟩

end

end Calculator

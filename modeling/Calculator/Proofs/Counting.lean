import Calculator.Proofs.Composition

/-!
# Heights and levels are counted right, and not far

The height that is handed back with a tree was counted while the tree was built, operation by
operation, and is checked against its limit each time. It is the height of the tree, so that the
limit holds for every tree that is read and for the trees at all its nodes.

Counting does not get further than one above a limit, which is where the check refuses. To say so,
the parser is given numbers that end somewhere: a count beyond them ends the reading with a failure
of its own. Since no failure is ever taken back, a parser that reads like the one with all numbers,
whatever that failure is, has never counted too far.

## Main definitions

* `Calculator.Subtree.IsTrue`: the height that goes with a tree is its height, and allowed.
* `Calculator.Counter`: how far is counted, and what a count beyond that ends in.
* `Calculator.Counter.unary`, `Calculator.Counter.multiplicative`, `Calculator.Counter.additive`,
  `Calculator.Counter.expression`: the parsers that count so far only.

## Main results

* `Calculator.isTrue_of_run`, `Calculator.isTrue_of_ofLexemes`: heights are counted right.
* `Calculator.Counter.unary_eq_of_lt`: with numbers beyond the limits nothing is counted too far.
* `Calculator.Counter.run_unary_minus`: with fewer numbers a minus sign leads too far.
* `Calculator.heights_are_true`: heights and levels are counted right, and not far.
-/

namespace Calculator

open Calculator.Parser

/-! ### Heights of what is read -/

/-- The height that goes with the tree is its height, and neither the tree nor a tree at one of its
nodes is higher than allowed. -/
structure Subtree.IsTrue (s : Subtree) : Prop where
  height_eq : s.height = s.expr.height
  height_le : s.height ≤ heightLimit
  nodes_le : ∀ node ∈ s.expr.nodes, node.height ≤ heightLimit

/-- A tree that has been read goes with its height. -/
theorem isTrue_of_run {x : Nonterminal} {n : Nesting} {ls rest : List Lexeme} {s : Subtree}
    (h : x.run n ls = .ok s rest) : s.IsTrue := by
  obtain ⟨_, _, hreads⟩ := reads_of_run h
  have hle := hreads.height_le
  refine ⟨hreads.height_eq, hle, fun node hmem => ?_⟩
  rw [hreads.height_eq] at hle
  exact Nat.le_trans (Expr.height_le_of_mem_nodes hmem) hle

theorem isTrue_of_ofLexemes {ls : List Lexeme} {s : Subtree} (h : Expr.ofLexemes ls = .ok s) :
    s.IsTrue := by
  obtain ⟨_, hrun, _⟩ := run_of_ofLexemes_eq_ok h
  exact isTrue_of_run hrun

/-- Reading on after a success depends on what follows that success only. -/
theorem Outcome.andThen_congr {α β : Type} {o : Outcome α}
    {next next' : α → List Lexeme → Outcome β}
    (h : ∀ value rest, o = .ok value rest → next value rest = next' value rest) :
    o.andThen next = o.andThen next' := by
  cases o with
  | ok value rest => exact h value rest rfl
  | error cause rest => rfl

/-- The greatest of some heights within the limit is within it. -/
theorem foldl_max_height_le {args : List Subtree} (h : ∀ s ∈ args, s.height ≤ heightLimit) :
    (args.map (·.height)).foldl max 0 ≤ heightLimit := by
  refine List.foldlRecOn (motive := (· ≤ heightLimit)) _ _ (Nat.zero_le _) fun k hk k' hk' => ?_
  obtain ⟨s, hs, rfl⟩ := List.mem_map.1 hk'
  exact Nat.max_le.2 ⟨hk, h s hs⟩

namespace Parser

/-- What the parser reads is not higher than allowed. -/
def KeepsHeight (p : Parser Subtree) : Prop :=
  ∀ ls s rest, p.run ls = .ok s rest → s.height ≤ heightLimit

theorem keepsHeight_unary (n : Nesting) : (unary n).KeepsHeight :=
  fun _ _ _ h => (isTrue_of_run (x := .factor) h).height_le

theorem keepsHeight_ofTier (n : Nesting) (tier : Tier) : (ofTier n tier).KeepsHeight :=
  fun _ _ _ h => (isTrue_of_run (x := .chain tier) h).height_le

theorem KeepsHeight.argumentsFrom {item : Parser Subtree} (hitem : item.KeepsHeight)
    {opening : Nat} {read args : List Subtree} {ls rest : List Lexeme}
    (hread : ∀ s ∈ read, s.height ≤ heightLimit)
    (h : argumentsFrom item opening read ls = .ok args rest) :
    ∀ s ∈ args, s.height ≤ heightLimit := by
  fun_induction Parser.argumentsFrom item opening read ls with
  | case1 => cases h
  | case2 => cases h
  | case3 read ls s l rest' hrun hl ih =>
    exact ih (List.forall_mem_cons.2 ⟨hitem _ _ _ hrun, hread⟩) h
  | case4 read ls s l rest' hrun hl =>
    cases h
    have hall : ∀ s' ∈ s :: read, s'.height ≤ heightLimit :=
      List.forall_mem_cons.2 ⟨hitem _ _ _ hrun, hread⟩
    exact fun s' hs' => hall s' (List.mem_reverse.1 hs')
  | case5 => cases h
  | case6 => cases h

theorem KeepsHeight.arguments {item : Parser Subtree} (hitem : item.KeepsHeight)
    {opening : Nat} {args : List Subtree} {ls rest : List Lexeme}
    (h : arguments item opening ls = .ok args rest) : ∀ s ∈ args, s.height ≤ heightLimit :=
  hitem.argumentsFrom (List.forall_mem_nil _) h

end Parser

/-! ### Parsers whose numbers end -/

/-- How far levels and heights are counted. -/
structure Counter where
  /-- The greatest number of levels. -/
  depth : Nat
  /-- The greatest height. -/
  height : Nat
  /-- What a count beyond them ends in. -/
  overflow : ParseError

namespace Counter

variable (c : Counter)

/-- One more than `k`, if that is not above `greatest`. -/
def succ (greatest k : Nat) : Except ParseError Nat :=
  if k < greatest then .ok (k + 1) else .error c.overflow

/-- The nesting behind a negation at `position`. The level is counted before it is compared with
the limit. -/
def deeper (n : Nesting) (position : Nat) : Except ParseError Nesting :=
  (c.succ c.depth n.depth).bind fun depth =>
    if depth ≤ nestingLimit then .ok ⟨depth, n.parens⟩ else .error (.tooDeep position)

/-- The nesting behind an opening parenthesis at `position`. -/
def parenthesized (n : Nesting) (position : Nat) : Except ParseError Nesting :=
  (c.deeper n position).map fun inner => ⟨inner.depth, inner.parens + 1⟩

/-- The tree `e`, whose root stands at `position` and whose operands have heights up to `below`. Its
height is counted before it is compared with the limit. -/
def join (e : Expr) (below position : Nat) : Except ParseError Subtree :=
  (c.succ c.height below).bind fun height =>
    (boundedHeight height position).map fun height => ⟨e, height⟩

/-- A chain whose part read so far is `left`. -/
def chainFrom (operator? : Token → Option BinaryOperator) (operand : Parser Subtree)
    (left : Subtree) (ls : List Lexeme) : Outcome Subtree :=
  match ls with
  | [] => .ok left []
  | l :: ls =>
      match operator? l.token with
      | none => .ok left (l :: ls)
      | some op =>
          match _h : operand.run ls with
          | .error cause rest => .error cause rest
          | .ok right rest =>
              match c.join (.binary op left.expr right.expr) (max left.height right.height)
                l.position with
              | .error cause => .error cause rest
              | .ok joined => chainFrom operator? operand joined rest
termination_by ls.length
decreasing_by
  have := operand.length_rest_lt ‹_›
  simp only [List.length_cons]
  omega

/-- The factorial of `operand` if a mark follows it, and else `operand` itself. -/
def factorialMark (operand : Subtree) : List Lexeme → Outcome Subtree
  | [] => .ok operand []
  | l :: ls =>
      if l.token = .bang then
        match c.join (.factorial operand.expr) operand.height l.position with
        | .error cause => .error cause (l :: ls)
        | .ok subtree => .ok subtree ls
      else
        .ok operand (l :: ls)

/-- A negation behind its sign at `position`, where `inner` reads the operand. -/
def negation (inner : Except ParseError (Parser Subtree)) (position : Nat) (ls : List Lexeme) :
    Outcome Subtree :=
  match inner with
  | .error cause => .error cause ls
  | .ok operand =>
      (operand.run ls).andThen fun subtree rest =>
        .ofExcept (c.join (.negate subtree.expr) subtree.height position) rest

/-- A call behind its name at `position`. -/
def call (enclosed : Nat → Except ParseError (Parser Subtree)) (parenthesized : Bool)
    (name : String) (position : Nat) (ls : List Lexeme) : Outcome Subtree :=
  match Builtin.lookup name with
  | none => .error (.unknownFunction name position) ls
  | some builtin =>
      match ls with
      | [] => .error .outOfLexemes []
      | l :: ls =>
          if l.token = .leftParen then
            match enclosed l.position with
            | .error cause => .error cause ls
            | .ok item =>
                (arguments item l.position ls).andThen fun args rest =>
                  if args.length = builtin.arity then
                    .ofExcept (c.join (.call builtin.name (args.map (·.expr)))
                      ((args.map (·.height)).foldl max 0) position) rest
                  else
                    .error (.arityMismatch name builtin.arity args.length position) rest
          else
            .error (stray parenthesized l) (l :: ls)

/-- A primary: a number literal, a call or a group. -/
def primary (enclosed : Nat → Except ParseError (Parser Subtree)) (parenthesized : Bool) :
    List Lexeme → Outcome Subtree
  | [] => .error .outOfLexemes []
  | l :: ls =>
      match l.token with
      | .number text => literal text l.position ls
      | .identifier name => c.call enclosed parenthesized name l.position ls
      | .leftParen => group (enclosed l.position) l.position ls
      | _ => .error (stray parenthesized l) (l :: ls)

/-- Reads a factor. -/
def readFactor (negated enclosed : Nat → Except ParseError (Parser Subtree))
    (parenthesized : Bool) : List Lexeme → Outcome Subtree
  | [] => .error .outOfLexemes []
  | l :: ls =>
      if l.token = .minus then c.negation (negated l.position) l.position ls
      else (c.primary enclosed parenthesized (l :: ls)).andThen c.factorialMark

/-! ### Reading takes at least one lexeme, however far is counted -/

theorem chainFrom_shortens (operator? : Token → Option BinaryOperator) (operand : Parser Subtree)
    {bound : Nat} (left : Subtree) (ls : List Lexeme) (hls : ls.length < bound) :
    (c.chainFrom operator? operand left ls).Shortens bound := by
  fun_induction chainFrom c operator? operand left ls with
  | case1 => exact hls
  | case2 => exact hls
  | case3 => trivial
  | case4 => trivial
  | case5 left l ls op hop right rest hrun joined hjoin ih =>
    have hlt := operand.length_rest_lt hrun
    simp only [List.length_cons] at hls
    exact ih (by omega)

theorem call_shortens {bound : Nat} (enclosed : Nat → Except ParseError (Parser Subtree))
    (parenthesized : Bool) (name : String) (position : Nat) {ls : List Lexeme}
    (h : ls.length < bound) :
    (c.call enclosed parenthesized name position ls).Shortens bound := by
  rw [call.eq_def]
  split
  · trivial
  · split
    · trivial
    · split
      · split
        · trivial
        · simp only [List.length_cons] at h
          refine (argumentsFrom_shortens _ _ _ _ (by omega)).andThen fun args rest hrest => ?_
          split
          · exact Outcome.shortens_ofExcept hrest
          · trivial
      · trivial

theorem primary_shortens (enclosed : Nat → Except ParseError (Parser Subtree))
    (parenthesized : Bool) : (ls : List Lexeme) →
      (c.primary enclosed parenthesized ls).Shortens ls.length
  | [] => trivial
  | l :: ls => by
      rw [primary]
      split
      · exact literal_shortens _ _ (Nat.lt_succ_self _)
      · exact c.call_shortens _ _ _ _ (Nat.lt_succ_self _)
      · exact group_shortens _ _ (Nat.lt_succ_self _)
      · trivial

theorem factorialMark_shortens {bound : Nat} (operand : Subtree) :
    (ls : List Lexeme) → ls.length < bound → (c.factorialMark operand ls).Shortens bound
  | [], h => h
  | l :: ls, h => by
      rw [factorialMark]
      split
      · split
        · trivial
        · simp only [List.length_cons] at h
          exact Nat.lt_of_succ_lt h
      · exact h

theorem negation_shortens {bound : Nat} (inner : Except ParseError (Parser Subtree))
    (position : Nat) {ls : List Lexeme} (h : ls.length < bound) :
    (c.negation inner position ls).Shortens bound := by
  rw [negation.eq_def]
  split
  · trivial
  · exact ((Parser.shortens _ ls).mono (Nat.le_of_lt h)).andThen fun _ _ hrest =>
      Outcome.shortens_ofExcept hrest

theorem readFactor_shortens (negated enclosed : Nat → Except ParseError (Parser Subtree))
    (parenthesized : Bool) : (ls : List Lexeme) →
      (c.readFactor negated enclosed parenthesized ls).Shortens ls.length
  | [] => trivial
  | l :: ls => by
      rw [readFactor]
      split
      · exact c.negation_shortens _ _ (Nat.lt_succ_self _)
      · exact (c.primary_shortens enclosed parenthesized (l :: ls)).andThen fun value rest hrest =>
          c.factorialMark_shortens value rest hrest

/-! ### The levels of the grammar -/

/-- The parser of factors, given those of what a sign negates and of what a parenthesis encloses. -/
def factor (negated enclosed : Nat → Except ParseError (Parser Subtree)) (parenthesized : Bool) :
    Parser Subtree where
  run := c.readFactor negated enclosed parenthesized
  shortens := c.readFactor_shortens negated enclosed parenthesized

/-- A chain of operands with operations of one tier between them, grouped to the left. -/
def chain (operator? : Token → Option BinaryOperator) (operand : Parser Subtree) :
    Parser Subtree where
  run ls := (operand.run ls).andThen fun left rest => c.chainFrom operator? operand left rest
  shortens ls := (operand.shortens ls).andThen fun left rest h =>
    c.chainFrom_shortens operator? operand left rest h

/-- The parser of sums, given that of the factors of their terms. -/
def sumOf (operand : Parser Subtree) : Parser Subtree :=
  c.chain Token.additive? (c.chain Token.multiplicative? operand)

variable {c} {n m : Nesting} {position : Nat}

theorem deeper_eq (h : n.depth < c.depth) (position : Nat) :
    c.deeper n position = n.deeper position := by
  rw [deeper, succ, if_pos h, Nesting.deeper]
  rfl

theorem parenthesized_eq (h : n.depth < c.depth) (position : Nat) :
    c.parenthesized n position = n.parenthesized position := by
  rw [parenthesized, deeper_eq h, Nesting.parenthesized]

/-- A level that is allowed and can be counted is allowed. -/
theorem deeper_of_eq_ok (h : c.deeper n position = .ok m) : n.deeper position = .ok m := by
  by_cases hn : n.depth < c.depth
  · rwa [deeper_eq hn] at h
  · rw [deeper, succ, if_neg hn] at h
    cases h

theorem parenthesized_of_eq_ok (h : c.parenthesized n position = .ok m) :
    n.parenthesized position = .ok m := by
  by_cases hn : n.depth < c.depth
  · rwa [parenthesized_eq hn] at h
  · rw [parenthesized, deeper, succ, if_neg hn] at h
    cases h

theorem room_lt_of_deeper (h : c.deeper n position = .ok m) : m.room < n.room := by
  rw [Nesting.room_of_deeper (deeper_of_eq_ok h)]
  exact Nat.lt_succ_self _

theorem room_lt_of_parenthesized (h : c.parenthesized n position = .ok m) : m.room < n.room := by
  rw [Nesting.room_of_parenthesized (parenthesized_of_eq_ok h)]
  exact Nat.lt_succ_self _

variable (c)

/-- The parser of factors at a nesting. -/
def unary (n : Nesting) : Parser Subtree :=
  c.factor
    (fun position =>
      match _h : c.deeper n position with
      | .error cause => .error cause
      | .ok m => .ok (unary m))
    (fun position =>
      match _h : c.parenthesized n position with
      | .error cause => .error cause
      | .ok m => .ok (c.sumOf (unary m)))
    n.isParenthesized
termination_by n.room
decreasing_by
  · exact room_lt_of_deeper ‹_›
  · exact room_lt_of_parenthesized ‹_›

/-- The parser of terms at a nesting. -/
def multiplicative (n : Nesting) : Parser Subtree := c.chain Token.multiplicative? (c.unary n)

/-- The parser of sums at a nesting. -/
def additive (n : Nesting) : Parser Subtree := c.sumOf (c.unary n)

/-- The parser of expressions at a nesting. -/
def expression (n : Nesting) : Parser Subtree := c.additive n

/-- A factor is read with the parsers of factors and of expressions one level further in. -/
theorem unary_eq (n : Nesting) :
    c.unary n =
      c.factor (fun position => (c.deeper n position).map c.unary)
        (fun position => (c.parenthesized n position).map c.expression) n.isParenthesized := by
  rw [unary]
  congr 1 <;> funext position <;> split <;> simp_all [Except.map, expression, additive]

theorem run_unary (n : Nesting) (ls : List Lexeme) :
    (c.unary n).run ls =
      c.readFactor (fun position => (c.deeper n position).map c.unary)
        (fun position => (c.parenthesized n position).map c.expression) n.isParenthesized ls := by
  rw [unary_eq]
  rfl

/-! ### Counts beyond the numbers -/

variable {c}

/-- Where no level is left to be counted, a minus sign ends the reading. -/
theorem run_unary_minus {l : Lexeme} (h : c.depth ≤ n.depth) (hl : l.token = .minus)
    (ls : List Lexeme) : (c.unary n).run (l :: ls) = .error c.overflow ls := by
  rw [run_unary, readFactor, if_pos hl, deeper, succ, if_neg (Nat.not_lt.2 h)]
  rfl

/-! ### Counts within the numbers -/

theorem join_eq {below : Nat} (h : below < c.height) (e : Expr) (position : Nat) :
    c.join e below position =
      (boundedHeight (below + 1) position).map fun height => ⟨e, height⟩ := by
  rw [join, succ, if_pos h]
  rfl

section

variable (hheight : heightLimit < c.height)

include hheight

theorem chainFrom_eq (operator? : Token → Option BinaryOperator) {operand : Parser Subtree}
    (hoperand : operand.KeepsHeight) {left : Subtree} (hleft : left.height ≤ heightLimit)
    (ls : List Lexeme) :
    c.chainFrom operator? operand left ls = Parser.chainFrom operator? operand left ls := by
  -- Operands within the limit are joined to a tree whose height can be counted, allowed or not.
  have hjoin_eq {left right : Subtree} (hleft : left.height ≤ heightLimit)
      (hright : right.height ≤ heightLimit) (op : BinaryOperator) (position : Nat) :
      c.join (.binary op left.expr right.expr) (max left.height right.height) position =
        left.binary op right position :=
    join_eq (Nat.lt_of_le_of_lt (Nat.max_le.2 ⟨hleft, hright⟩) hheight) _ _
  fun_induction chainFrom c operator? operand left ls with
  | case1 => rw [Parser.chainFrom]
  | case2 left l ls hop =>
    rw [Parser.chainFrom]
    simp only [hop]
  | case3 left l ls op hop cause rest hrun => rw [chainFrom_cons hop, hrun, Outcome.andThen_error]
  | case4 left l ls op hop right rest hrun cause hjoin =>
    rw [hjoin_eq hleft (hoperand _ _ _ hrun)] at hjoin
    rw [chainFrom_cons hop, hrun, Outcome.andThen_ok, hjoin]
    rfl
  | case5 left l ls op hop right rest hrun joined hjoin ih =>
    rw [hjoin_eq hleft (hoperand _ _ _ hrun)] at hjoin
    rw [chainFrom_cons hop, hrun, Outcome.andThen_ok, hjoin]
    obtain ⟨hjoined, rfl⟩ := map_boundedHeight_eq_ok_iff.1 hjoin
    exact ih hjoined

theorem chain_eq (operator? : Token → Option BinaryOperator) {operand : Parser Subtree}
    (hoperand : operand.KeepsHeight) :
    c.chain operator? operand = Parser.chain operator? operand := by
  ext ls
  exact Outcome.andThen_congr fun left rest hleft =>
    chainFrom_eq hheight operator? hoperand (hoperand _ _ _ hleft) rest

theorem factorialMark_eq {operand : Subtree} (h : operand.height ≤ heightLimit)
    (ls : List Lexeme) : c.factorialMark operand ls = Parser.factorialMark operand ls := by
  cases ls with
  | nil => rfl
  | cons l ls =>
    rw [factorialMark, join_eq (Nat.lt_of_le_of_lt h hheight)]
    rfl

theorem negation_eq {inner : Except ParseError (Parser Subtree)}
    (hinner : ∀ operand, inner = .ok operand → operand.KeepsHeight) (position : Nat)
    (ls : List Lexeme) : c.negation inner position ls = Parser.negation inner position ls := by
  cases inner with
  | error cause => rfl
  | ok operand =>
    refine Outcome.andThen_congr fun s rest hrun => ?_
    rw [join_eq (Nat.lt_of_le_of_lt (hinner operand rfl _ _ _ hrun) hheight)]
    rfl

theorem call_eq {enclosed : Nat → Except ParseError (Parser Subtree)}
    (henclosed : ∀ position item, enclosed position = .ok item → item.KeepsHeight)
    (parenthesized : Bool) (name : String) (position : Nat) (ls : List Lexeme) :
    c.call enclosed parenthesized name position ls =
      Parser.call enclosed parenthesized name position ls := by
  rw [call.eq_def, Parser.call.eq_def]
  cases Builtin.lookup name with
  | none => rfl
  | some builtin =>
    cases ls with
    | nil => rfl
    | cons l ls =>
      dsimp only
      cases hitem : enclosed l.position with
      | error cause => rfl
      | ok item =>
        congr 1
        refine Outcome.andThen_congr fun args rest hargs => ?_
        have hall := (henclosed l.position item hitem).arguments hargs
        rw [join_eq (Nat.lt_of_le_of_lt (foldl_max_height_le hall) hheight)]
        rfl

theorem primary_eq {enclosed : Nat → Except ParseError (Parser Subtree)}
    (henclosed : ∀ position item, enclosed position = .ok item → item.KeepsHeight)
    (parenthesized : Bool) (ls : List Lexeme) :
    c.primary enclosed parenthesized ls = Parser.primary enclosed parenthesized ls := by
  cases ls with
  | nil => rfl
  | cons l ls =>
    rw [primary, Parser.primary]
    cases l.token with
    | identifier name => exact call_eq hheight henclosed parenthesized name l.position ls
    | _ => rfl

theorem readFactor_eq {negated enclosed : Nat → Except ParseError (Parser Subtree)}
    (hnegated : ∀ position operand, negated position = .ok operand → operand.KeepsHeight)
    (henclosed : ∀ position item, enclosed position = .ok item → item.KeepsHeight)
    {parenthesized : Bool}
    (hprimary : ∀ ls s rest, Parser.primary enclosed parenthesized ls = .ok s rest →
      s.height ≤ heightLimit) (ls : List Lexeme) :
    c.readFactor negated enclosed parenthesized ls =
      Parser.readFactor negated enclosed parenthesized ls := by
  cases ls with
  | nil => rfl
  | cons l ls =>
    rw [readFactor, Parser.readFactor, negation_eq hheight (hnegated l.position),
      primary_eq hheight henclosed]
    congr 1
    exact Outcome.andThen_congr fun s rest hrun =>
      factorialMark_eq hheight (hprimary _ s rest hrun) rest

theorem expression_eq (h : c.unary n = Parser.unary n) :
    c.expression n = Parser.expression n := by
  rw [expression, additive, sumOf, h, chain_eq hheight _ (keepsHeight_unary n)]
  exact chain_eq hheight _ (keepsHeight_ofTier n .multiplicative)

/-- With numbers beyond both limits nothing is counted too far. Behind a sign and behind a
parenthesis there is less room, and what is read there is not too high. -/
theorem unary_eq_of_lt (hdepth : nestingLimit < c.depth) (hn : n.depth < c.depth) :
    c.unary n = Parser.unary n := by
  induction hroom : n.room using Nat.strongRecOn generalizing n with
  | ind room ih =>
    have hnegated : (fun position => (c.deeper n position).map c.unary) = negated n := by
      funext position
      rw [deeper_eq hn, negated]
      cases hm : n.deeper position with
      | error cause => rfl
      | ok m =>
        have hroom' := Nesting.room_of_deeper hm
        obtain ⟨hlt, rfl⟩ := Nesting.deeper_eq_ok_iff.1 hm
        exact congrArg Except.ok (ih _ (by omega) (Nat.lt_of_le_of_lt hlt hdepth) rfl)
    have henclosed :
        (fun position => (c.parenthesized n position).map c.expression) = enclosed n := by
      funext position
      rw [parenthesized_eq hn, enclosed]
      cases hm : n.parenthesized position with
      | error cause => rfl
      | ok m =>
        have hroom' := Nesting.room_of_parenthesized hm
        obtain ⟨hlt, rfl⟩ := Nesting.parenthesized_eq_ok_iff.1 hm
        exact congrArg Except.ok
          (expression_eq hheight (ih _ (by omega) (Nat.lt_of_le_of_lt hlt hdepth) rfl))
    ext ls
    rw [run_unary, Parser.run_unary, hnegated, henclosed]
    refine readFactor_eq hheight (fun position operand h => ?_) (fun position item h => ?_)
      (fun _ _ _ h => (isTrue_of_run (x := .primary) h).height_le) ls
    · obtain ⟨m, _, rfl⟩ := negated_eq_ok_iff.1 h
      exact keepsHeight_unary m
    · obtain ⟨m, _, rfl⟩ := enclosed_eq_ok_iff.1 h
      exact keepsHeight_ofTier m .additive

end

end Counter

/-! ### Counting right, and not far -/

/-- What is read from a row goes with its height, at every nesting, as does the tree of an accepted
row. No tree at a node of the tree of an accepted text is higher than allowed. A parser that counts
levels and heights to one above the limits, and would end with any failure beyond that, reads every
row as the parser does, at every nesting that is allowed. -/
theorem heights_are_true :
    (∀ read ∈ [expression, additive, multiplicative], ∀ n ls s rest,
      (read n).run ls = .ok s rest → s.IsTrue) ∧
    (∀ ls s, Expr.ofLexemes ls = .ok s → s.IsTrue) ∧
    (∀ source e, parse source = .ok e → ∀ node ∈ e.nodes, node.height ≤ heightLimit) ∧
    ∀ c : Counter, c.depth = nestingLimit + 1 → c.height = heightLimit + 1 →
      ∀ n, n.depth ≤ nestingLimit →
        c.expression n = expression n ∧ c.additive n = additive n ∧
          c.multiplicative n = multiplicative n := by
  refine ⟨fun read hread n ls s rest hrun => ?_, fun ls s => isTrue_of_ofLexemes,
    fun source e h => ?_, fun c hdepth hheight n hn => ?_⟩
  · obtain ⟨tier, htier⟩ := exists_eq_ofTier hread
    rw [htier] at hrun
    exact isTrue_of_run (x := .chain tier) hrun
  · obtain ⟨ls, s, _, hread, rfl⟩ := parse_eq_ok_iff.1 h
    exact (isTrue_of_ofLexemes hread).nodes_le
  · have hunary : c.unary n = unary n :=
      Counter.unary_eq_of_lt (by omega) (by omega) (by omega)
    have hsum := Counter.expression_eq (by omega) hunary
    refine ⟨hsum, hsum, ?_⟩
    rw [Counter.multiplicative, hunary]
    exact Counter.chain_eq (by omega) _ (keepsHeight_unary n)

/-- A number is read at the greatest depth, with the height one, and the row `1 + 2` has a tree with
the height two. The levels are counted to one above the limit at the greatest depth, and with fewer
numbers a minus sign leads too far there. -/
theorem heights_are_true_add :
    multiplicative ∈ [expression, additive, multiplicative] ∧
      (multiplicative ⟨128, 0⟩).run [⟨.number "1", 0⟩] = .ok ⟨.number 1, 1⟩ [] ∧
      (⟨.number 1, 1⟩ : Subtree).IsTrue ∧
      (∃ s, Expr.ofLexemes [⟨.number "1", 0⟩, ⟨.plus, 2⟩, ⟨.number "2", 4⟩, ⟨.endOfInput, 5⟩] =
          .ok s ∧ s.height = 2 ∧ s.IsTrue) ∧
      parse "2" = .ok (.number 2) ∧ (∀ node ∈ (Expr.number 2).nodes, node.height ≤ heightLimit) ∧
      (⟨128, 0⟩ : Nesting).depth ≤ nestingLimit ∧
      Counter.expression ⟨129, 4097, .outOfLexemes⟩ ⟨128, 0⟩ = expression ⟨128, 0⟩ ∧
      (Counter.unary ⟨128, 4097, .outOfLexemes⟩ ⟨128, 0⟩).run [⟨.minus, 0⟩] =
        .error .outOfLexemes [] := by
  have hone : Number.read "1" = some 1 := by decide +kernel
  have htwo : Number.read "2" = some 2 := by decide +kernel
  have hmem : multiplicative ∈ [expression, additive, multiplicative] := by simp
  have hrun : (multiplicative ⟨128, 0⟩).run [⟨.number "1", 0⟩] = .ok ⟨.number 1, 1⟩ [] := by
    simp [multiplicative, termOf, chain, run_unary, readFactor, Parser.primary, literal, hone,
      factorialMark, chainFrom, Subtree.number]
  have hadd : Derives .expression 0 [.number "1", .plus, .number "2"]
      (.binary .add (.number 1) (.number 2)) :=
    Derives.joined .add ((Derives.number hone).ofPrimary _) ((Derives.number htwo).ofPrimary _)
  have hread : Expr.ofLexemes
      [⟨.number "1", 0⟩, ⟨.plus, 2⟩, ⟨.number "2", 4⟩, ⟨.endOfInput, 5⟩] =
        .ok (Expr.binary .add (.number 1) (.number 2)).measured :=
    ofLexemes_eq_ok_of_derives hadd ⟨by decide, by decide, by simp⟩
  have hliteral : IsLiteral "2".toList :=
    @IsLiteral.whole ['2'] ⟨List.cons_ne_nil _ _, List.forall_mem_singleton.2 rfl⟩
  obtain ⟨hparse, _⟩ := parse_literal hliteral htwo
  obtain ⟨hruns, hrows, htexts, hcounts⟩ := heights_are_true
  exact ⟨hmem, hrun, hruns _ hmem _ _ _ _ hrun, ⟨_, hread, rfl, hrows _ _ hread⟩, hparse,
    htexts _ _ hparse, by decide, (hcounts _ rfl rfl ⟨128, 0⟩ (by decide)).1,
    Counter.run_unary_minus (by decide) rfl _⟩

end Calculator

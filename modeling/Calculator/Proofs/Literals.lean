import Calculator.Proofs.Composition
import Calculator.Proofs.Parsing.Payload

/-!
# Literals of a text

Every literal that stands in a text denotes a number. The number has no sign: a minus sign in front
of a literal is a token of its own, and becomes a negation. A literal too large for every finite
number denotes infinity, and none denotes not-a-number.

## Main results

* `Calculator.Number.exists_read_of_isLiteral`: a literal of any length denotes a number without
  sign.
* `Calculator.Derives.isDenotedIn`: the numbers of a tree are denoted by literals of its phrase.
* `Calculator.hasUnsignedNumbers_of_parse`: no text is refused for a literal, and the tree of a text
  has only numbers without sign.
-/

namespace Calculator

/-! ### What literals denote -/

namespace Number

/-- A literal of any length denotes a number without sign. -/
theorem exists_read_of_isLiteral {cs : List Char} (h : IsLiteral cs) :
    ∃ k ≤ Binary64.infinityRank, read (String.ofList cs) = some (Binary64.ofRank false k) := by
  cases h with
  | whole hds => exact ⟨_, Nat.min_le_right _ _, read_whole hds⟩
  | fraction hds hfs => exact ⟨_, Nat.min_le_right _ _, read_fraction hds hfs⟩

end Number

/-- A literal in a text denotes a number without sign. -/
theorem Renders.exists_read {before : Option Token} {position : Nat} {cs : List Char}
    {ls : List Lexeme} (h : Renders before position cs ls) {literal : String}
    (hmem : .number literal ∈ ls.map Lexeme.token) :
    ∃ k ≤ Binary64.infinityRank, Number.read literal = some (Binary64.ofRank false k) := by
  obtain ⟨l, hl, htoken⟩ := List.mem_map.1 hmem
  have hproper := h.isProper l hl
  rw [htoken] at hproper
  have hliteral : IsLiteral literal.toList := hproper.resolve_right (by simp)
  have hread := Number.exists_read_of_isLiteral hliteral
  rwa [String.ofList_toList] at hread

/-- A number without sign is not not-a-number, and its sign bit is not set. -/
theorem Binary64.isUnsigned_ofRank {k : Nat} (hk : k ≤ infinityRank) :
    (ofRank false k).isNaN = false ∧ isNegative (ofRank false k) = false := by
  refine ⟨?_, isNegative_ofRank false hk⟩
  rw [← Bool.not_eq_true, isNaN_iff, rank_ofRank false hk]
  exact Nat.not_lt.2 hk

/-! ### Numbers of trees -/

/-- A literal in the row denotes the number. -/
def IsDenotedIn (ts : List Token) (value : Float) : Prop :=
  ∃ literal, .number literal ∈ ts ∧ Number.read literal = some value

theorem IsDenotedIn.mono {ts us : List Token} {value : Float} (h : IsDenotedIn ts value)
    (hsubset : ts ⊆ us) : IsDenotedIn us value := by
  obtain ⟨literal, hmem, hread⟩ := h
  exact ⟨literal, hsubset hmem, hread⟩

mutual

/-- The numbers of a tree are denoted by literals of its phrase. -/
theorem Derives.isDenotedIn {x : Nonterminal} {d : Nat} {ts : List Token} {e : Expr}
    {value : Float} : Derives x d ts e → .number value ∈ e.nodes → IsDenotedIn ts value
  | .operand _ h, hmem => h.isDenotedIn hmem
  | .join _ _ _ left right, hmem => by
      simp only [Expr.nodes, List.mem_append, List.mem_singleton, reduceCtorEq, or_false] at hmem
      rcases hmem with hmem | hmem
      · exact (left.isDenotedIn hmem).mono fun t ht => by simp [ht]
      · exact (right.isDenotedIn hmem).mono fun t ht => by simp [ht]
  | .negation h, hmem => (h.isDenotedIn (by simpa using hmem)).mono fun t ht => by simp [ht]
  | .unsigned h, hmem => h.isDenotedIn hmem
  | .factorial h, hmem => (h.isDenotedIn (by simpa using hmem)).mono fun t ht => by simp [ht]
  | .unmarked h, hmem => h.isDenotedIn hmem
  | .number hread, hmem => by
      obtain rfl := Expr.number.inj (List.mem_singleton.1 hmem)
      exact ⟨_, List.mem_singleton_self _, hread⟩
  | .call _ h, hmem => (h.isDenotedIn (by simpa using hmem)).mono fun t ht => by simp [ht]
  | .group h, hmem => (h.isDenotedIn hmem).mono fun t ht => by simp [ht]

/-- The numbers of a list of trees are denoted by literals of its list of arguments. -/
theorem DerivesAll.isDenotedIn {d : Nat} {ts : List Token} {es : List Expr} {value : Float} :
    DerivesAll d ts es → .number value ∈ Expr.nodesOfAll es → IsDenotedIn ts value
  | .one h, hmem => h.isDenotedIn (by simpa using hmem)
  | .cons h hs, hmem => by
      rcases List.mem_append.1 hmem with hmem | hmem
      · exact (h.isDenotedIn hmem).mono fun t ht => by simp [ht]
      · exact (hs.isDenotedIn hmem).mono fun t ht => by simp [ht]

end

/-! ### Texts -/

/-- No text is refused for a literal. -/
theorem parse_ne_invalidNumber (source literal : String) (position : Nat) :
    parse source ≠ .error (.grammatical (.invalidNumber literal position)) := by
  intro h
  obtain ⟨taken, rest, htokens, hrefusal, l, hl, rfl⟩ := exists_refusal_of_parse h
  obtain ⟨k, _, hvalue⟩ :=
    (renders_of_tokenize htokens).exists_read (List.mem_map_of_mem hl)
  rw [hrefusal.isJustified] at hvalue
  cases hvalue

/-- The numbers of the tree of a text are denoted by literals of the text, and have no sign. -/
theorem exists_ofRank_of_parse {source : String} {e : Expr} (h : parse source = .ok e)
    {value : Float} (hmem : .number value ∈ e.nodes) :
    (∃ ls, tokenize source = .ok ls ∧ IsDenotedIn (ls.map Lexeme.token) value) ∧
      ∃ k ≤ Binary64.infinityRank, value = Binary64.ofRank false k := by
  obtain ⟨ls, d, htokens, hderives, _⟩ := exists_derives_of_parse h
  have hsubset : (beforeEnd ls).map Lexeme.token ⊆ ls.map Lexeme.token :=
    List.map_subset _ (List.takeWhile_subset _)
  obtain ⟨literal, hliteral, hread⟩ := (hderives.isDenotedIn hmem).mono hsubset
  obtain ⟨k, hk, hvalue⟩ := (renders_of_tokenize htokens).exists_read hliteral
  exact ⟨⟨ls, htokens, literal, hliteral, hread⟩, k, hk, Option.some.inj (hread.symm.trans hvalue)⟩

/-- No text is refused for a literal, however long its literals are. All numbers of the tree of a
text are denoted by literals of the text; none is not-a-number, and none has a sign. -/
theorem hasUnsignedNumbers_of_parse (source : String) :
    (∀ literal position,
      parse source ≠ .error (.grammatical (.invalidNumber literal position)) ∧
        evaluate source ≠ .error (.grammatical (.invalidNumber literal position))) ∧
    ∀ e, parse source = .ok e → ∀ value, .number value ∈ e.nodes →
      value.isNaN = false ∧ Binary64.isNegative value = false ∧
        ∃ ls, tokenize source = .ok ls ∧ IsDenotedIn (ls.map Lexeme.token) value := by
  refine ⟨fun literal position => ⟨parse_ne_invalidNumber source literal position, fun h =>
    parse_ne_invalidNumber source literal position (evaluate_eq_error_iff.1 h)⟩, ?_⟩
  intro e h value hmem
  obtain ⟨⟨ls, htokens, hdenoted⟩, k, hk, rfl⟩ := exists_ofRank_of_parse h hmem
  obtain ⟨hnan, hsign⟩ := Binary64.isUnsigned_ofRank hk
  exact ⟨hnan, hsign, ls, htokens, hdenoted⟩

/-- The number that is written with 310 nines is above all finite numbers. -/
theorem hasUnsignedNumbers_of_parse_overflow :
    ∃ value, parse (String.ofList (List.replicate 310 '9')) = .ok (.number value) ∧
      value.isInf = true ∧ Binary64.isNegative value = false := by
  have hdigits : IsDigits (List.replicate 310 '9') :=
    ⟨List.cons_ne_nil _ _, fun c hc => by rw [List.eq_of_mem_replicate hc]; rfl⟩
  have hliteral : IsLiteral (String.ofList (List.replicate 310 '9')).toList := by
    rw [String.toList_ofList]
    exact .whole hdigits
  have hrank : Decimal.nearestRank ⟨Number.readDigits (List.replicate 310 '9'), 0⟩ =
      Binary64.infinityRank := by decide +kernel
  have hread := Number.read_whole hdigits
  rw [hrank] at hread
  obtain ⟨hparse, _⟩ := parse_literal hliteral hread
  obtain ⟨_, hsign, _⟩ := (hasUnsignedNumbers_of_parse _).2 _ hparse _ (List.mem_singleton_self _)
  refine ⟨_, hparse, ?_, hsign⟩
  rw [Binary64.isInf_iff, Binary64.rank_ofRank false (Nat.le_refl _)]

end Calculator

import Calculator.Proofs.Expr.UniqueReading
import Calculator.Proofs.Literals
import Calculator.Proofs.Number.Order

/-!
# Equality of trees

Trees are compared with their numbers as numbers. So a tree with not-a-number in it differs from
itself, and trees that differ in the sign of a zero are equal, though one over them is not. A text
has neither: its trees have only numbers without sign, and on such trees the comparison is identity.

## Main definitions

* `Calculator.Expr.HasUnsignedNumbers`: no number is not-a-number, and none has its sign bit set.
* `Calculator.ParsedExpr`: the trees of texts.

## Main results

* `Calculator.Expr.beq_eq_true_iff`: on trees with unsigned numbers the comparison is identity.
* `Calculator.ParsedExpr.isEquivalence_beq`: on the trees of texts the comparison is an equivalence,
  it compares the texts of the trees, and equal trees have equal values.
-/

namespace Calculator

/-- Numbers without sign are equal as numbers only if they are the same. -/
theorem Binary64.beq_iff_eq_of_isNegative {x y : Float} (hx : x.isNaN = false)
    (hx' : isNegative x = false) (hy : y.isNaN = false) (hy' : isNegative y = false) :
    (x == y) = true ↔ x = y := by
  rw [beq_iff (Bool.eq_false_iff.1 hx) (Bool.eq_false_iff.1 hy), hx', hy', signedRank_false,
    signedRank_false, Int.ofNat_inj]
  constructor
  · intro h
    rw [← ofRank_rank x, ← ofRank_rank y, hx', hy', h]
  · rintro rfl
    rfl

namespace Expr

/-- No number of a tree is not-a-number, and none has its sign bit set. -/
def HasUnsignedNumbers (e : Expr) : Prop :=
  ∀ value, number value ∈ e.nodes → value.isNaN = false ∧ Binary64.isNegative value = false

@[simp] theorem hasUnsignedNumbers_number_iff {value : Float} :
    (number value).HasUnsignedNumbers ↔
      value.isNaN = false ∧ Binary64.isNegative value = false := by
  simp [HasUnsignedNumbers]

@[simp] theorem hasUnsignedNumbers_binary_iff {op : BinaryOperator} {left right : Expr} :
    (binary op left right).HasUnsignedNumbers ↔
      left.HasUnsignedNumbers ∧ right.HasUnsignedNumbers := by
  simp only [HasUnsignedNumbers, nodes, List.mem_append, List.mem_singleton, reduceCtorEq, or_false]
  exact ⟨fun h => ⟨fun value hmem => h value (.inl hmem), fun value hmem => h value (.inr hmem)⟩,
    fun h value hmem => hmem.elim (h.1 value) (h.2 value)⟩

@[simp] theorem hasUnsignedNumbers_negate_iff {inner : Expr} :
    (negate inner).HasUnsignedNumbers ↔ inner.HasUnsignedNumbers := by
  simp [HasUnsignedNumbers]

@[simp] theorem hasUnsignedNumbers_factorial_iff {inner : Expr} :
    (factorial inner).HasUnsignedNumbers ↔ inner.HasUnsignedNumbers := by
  simp [HasUnsignedNumbers]

@[simp] theorem hasUnsignedNumbers_call_iff {name : String} {args : List Expr} :
    (call name args).HasUnsignedNumbers ↔ ∀ e ∈ args, e.HasUnsignedNumbers := by
  simp only [HasUnsignedNumbers, nodes, List.mem_append, List.mem_singleton, reduceCtorEq, or_false,
    mem_nodesOfAll]
  constructor
  · intro h e he value hmem
    exact h value ⟨e, he, hmem⟩
  · rintro h value ⟨e, he, hmem⟩
    exact h e he value hmem

/-- The comparison of two lists is identity if that of each tree of the first is. -/
theorem beqAll_iff_eq : {args args' : List Expr} →
    (∀ e ∈ args, ∀ e' : Expr, e'.HasUnsignedNumbers → (e.beq e' = true ↔ e = e')) →
      (∀ e' ∈ args', e'.HasUnsignedNumbers) → (beqAll args args' = true ↔ args = args')
  | [], [], _, _ => by simp [beqAll]
  | [], _ :: _, _, _ => by simp [beqAll]
  | _ :: _, [], _, _ => by simp [beqAll]
  | e :: es, e' :: es', hargs, hargs' => by
      rw [List.forall_mem_cons] at hargs hargs'
      rw [beqAll, Bool.and_eq_true, hargs.1 e' hargs'.1, beqAll_iff_eq hargs.2 hargs'.2,
        List.cons.injEq]

/-- On trees with unsigned numbers the comparison is identity. -/
theorem beq_eq_true_iff {e e' : Expr} (h : e.HasUnsignedNumbers) (h' : e'.HasUnsignedNumbers) :
    (e == e') = true ↔ e = e' := by
  show e.beq e' = true ↔ e = e'
  induction e using inductionOn generalizing e' with
  | number x =>
    cases e' with
    | number y =>
      rw [hasUnsignedNumbers_number_iff] at h h'
      rw [beq, Binary64.beq_iff_eq_of_isNegative h.1 h.2 h'.1 h'.2, number.injEq]
    | _ => simp [beq]
  | binary op left right hleft hright =>
    cases e' with
    | binary op' left' right' =>
      rw [hasUnsignedNumbers_binary_iff] at h h'
      simp only [beq, Bool.and_eq_true, beq_iff_eq, hleft h.1 h'.1, hright h.2 h'.2,
        binary.injEq, and_assoc]
    | _ => simp [beq]
  | negate inner ih =>
    cases e' with
    | negate inner' =>
      rw [hasUnsignedNumbers_negate_iff] at h h'
      rw [beq, ih h h', negate.injEq]
    | _ => simp [beq]
  | factorial inner ih =>
    cases e' with
    | factorial inner' =>
      rw [hasUnsignedNumbers_factorial_iff] at h h'
      rw [beq, ih h h', factorial.injEq]
    | _ => simp [beq]
  | call name args ih =>
    cases e' with
    | call name' args' =>
      rw [hasUnsignedNumbers_call_iff] at h h'
      have hargs := beqAll_iff_eq (fun e he _ => ih e he (h e he)) h'
      simp only [beq, Bool.and_eq_true, beq_iff_eq, hargs, call.injEq]
    | _ => simp [beq]

end Expr

/-! ### The trees of texts -/

/-- The trees of texts. -/
def ParsedExpr : Type := {e : Expr // ∃ source, parse source = .ok e}

namespace ParsedExpr

theorem hasUnsignedNumbers (e : ParsedExpr) : e.val.HasUnsignedNumbers := by
  obtain ⟨e, source, h⟩ := e
  intro value hmem
  obtain ⟨-, k, hk, rfl⟩ := exists_ofRank_of_parse h hmem
  exact Binary64.isUnsigned_ofRank hk

theorem hasProperNames (e : ParsedExpr) : e.val.HasProperNames := by
  obtain ⟨e, source, h⟩ := e
  exact (hasValidCalls_of_parse h).hasProperNames

/-- On the trees of texts the comparison is identity. -/
theorem beq_eq_true_iff (e e' : ParsedExpr) : (e.val == e'.val) = true ↔ e.val = e'.val :=
  Expr.beq_eq_true_iff e.hasUnsignedNumbers e'.hasUnsignedNumbers

/-- The trees of texts are told apart by their texts. -/
theorem text_eq_iff (e e' : ParsedExpr) : e.val.text = e'.val.text ↔ e.val = e'.val :=
  ⟨fun htext => Expr.eq_of_tokens_eq
    (Expr.tokens_eq_of_text_eq e.hasProperNames e'.hasProperNames htext), congrArg Expr.text⟩

end ParsedExpr

/-- On the trees of texts the comparison is an equivalence, and it compares the texts of the trees.
Equal trees have equally many nodes and the same value, bit by bit, where not-a-number counts as
one. Other trees may differ from themselves, and equal ones may have different values. -/
theorem ParsedExpr.isEquivalence_beq :
    (Equivalence fun e e' : ParsedExpr => (e.val == e'.val) = true) ∧
      (∀ e e' : ParsedExpr, ((e.val == e'.val) = true ↔ e.val.text = e'.val.text) ∧
        ((e.val == e'.val) = true →
          e.val.nodeCount = e'.val.nodeCount ∧ e.val.value = e'.val.value)) ∧
      (∃ e : Expr, ¬(e == e) = true) ∧
      ∃ e e' : Expr, (e == e') = true ∧ e.value ≠ e'.value := by
  refine ⟨⟨fun e => ?_, fun h => ?_, fun h h' => ?_⟩, fun e e' => ⟨?_, fun h => ?_⟩,
    ⟨.number (0 / 0), by decide +kernel⟩, .number 0, .number (-0), by decide +kernel,
    by decide +kernel⟩
  · exact (e.beq_eq_true_iff e).2 rfl
  · rw [beq_eq_true_iff] at h ⊢
    exact h.symm
  · rw [beq_eq_true_iff] at h h' ⊢
    exact h.trans h'
  · rw [beq_eq_true_iff, text_eq_iff]
  · rw [(e.beq_eq_true_iff e').1 h]
    exact ⟨rfl, rfl⟩

/-- The trees of `1` and `1.0` are equal. -/
theorem ParsedExpr.isEquivalence_beq_one :
    ∃ e e' : ParsedExpr, parse "1" = .ok e.val ∧ parse "1.0" = .ok e'.val ∧
      (e.val == e'.val) = true ∧ e.val.nodeCount = e'.val.nodeCount ∧
        e.val.value = e'.val.value := by
  have hdigit {c : Char} (hc : c.isDigit = true) : IsDigits [c] :=
    ⟨List.cons_ne_nil c [], List.forall_mem_singleton.2 hc⟩
  have hwhole : IsLiteral "1".toList := @IsLiteral.whole ['1'] (hdigit rfl)
  have hfraction : IsLiteral "1.0".toList :=
    @IsLiteral.fraction ['1'] ['0'] (hdigit rfl) (hdigit rfl)
  have hread : Number.read "1" = some 1 := by decide +kernel
  have hread' : Number.read "1.0" = some 1 := by decide +kernel
  have h := (parse_literal hwhole hread).1
  have h' := (parse_literal hfraction hread').1
  have hequal : ((Expr.number 1) == (Expr.number 1)) = true := by decide +kernel
  exact ⟨⟨_, _, h⟩, ⟨_, _, h'⟩, h, h', hequal,
    (ParsedExpr.isEquivalence_beq.2.1 ⟨_, _, h⟩ ⟨_, _, h'⟩).2 hequal⟩

end Calculator

import QuantumDiagram.Proofs.Outcome
import QuantumDiagram.Statement

/-!
# The values of a statement

Reading a statement goes by the lexemes and not by where they stand: lexemes with the same values
make up statements with the same values, or cannot go on at the same lexeme
(`Statement.sameOutcome_ofLexemes`). A text has the same lexemes at every offset
(`Lexeme.sameOutcome_readAllFrom`).
-/

namespace QuantumDiagram

/-- The values are the same, wherever they stand. -/
def Located.SameValue {α : Type} (x y : Located α) : Prop := y.value = x.value

theorem Located.map_value_of_sameValue {α : Type} {xs ys : List (Located α)}
    (h : List.Forall₂ Located.SameValue xs ys) : ys.map Located.value = xs.map Located.value := by
  induction h with
  | nil => rfl
  | cons h _ ih => rw [List.map_cons, List.map_cons, h, ih]

/-- Two statements of the same form, what is in them related by `R`. -/
inductive Statement.Pairs (R : ∀ {α : Type}, Located α → Located α → Prop) :
    Statement → Statement → Prop
  | header {name name' : Located Text} {repetitions repetitions' : Option (Located Float)} :
    R name name' → Option.Rel R repetitions repetitions' →
    Pairs R (.header name repetitions) (.header name' repetitions')
  | instruction {keyword keyword' : Located Text} {operands operands' : List (Located Operand)} :
    R keyword keyword' → List.Forall₂ R operands operands' →
    Pairs R (.instruction keyword operands) (.instruction keyword' operands')

theorem Statement.Pairs.refl {R : ∀ {α : Type}, Located α → Located α → Prop}
    (hR : ∀ {α : Type} (x : Located α), R x x) (statement : Statement) :
    Pairs R statement statement := by
  cases statement with
  | header name repetitions =>
    refine .header (hR name) ?_
    cases repetitions with
    | none => exact .none
    | some x => exact .some (hR x)
  | instruction keyword operands =>
    exact .instruction (hR keyword) (List.forall₂_same.2 fun x _ => hR x)

theorem Statement.Pairs.imp {R S : ∀ {α : Type}, Located α → Located α → Prop}
    {statement statement' : Statement} (h : Pairs R statement statement')
    (hRS : ∀ {α : Type} (x y : Located α), R x y → S x y) : Pairs S statement statement' := by
  cases h with
  | header hname hrepetitions =>
    refine .header (hRS _ _ hname) ?_
    cases hrepetitions with
    | none => exact .none
    | some h => exact .some (hRS _ _ h)
  | instruction hkeyword hoperands =>
    exact .instruction (hRS _ _ hkeyword) (hoperands.imp fun _ _ h => hRS _ _ h)

namespace Lexeme

theorem sameOutcome_readAllFrom (offset offset' : Nat) (t : Text) :
    SameOutcome Located.SameValue (List.Forall₂ Located.SameValue) (readAllFrom offset t)
      (readAllFrom offset' t) := by
  fun_induction readAllFrom offset t generalizing offset' with
  | case1 =>
    rw [readAllFrom]
    exact .ok .nil
  | case2 offset c rest hgap ih =>
    rw [readAllFrom, if_pos hgap]
    exact ih _
  | case3 offset rest hgap ih =>
    rw [readAllFrom, if_neg hgap, if_pos rfl]
    exact ih _
  | case4 offset c rest hgap hmark hfirst =>
    rw [readAllFrom, if_neg hgap, if_neg hmark]
    split
    · exact .error rfl
    · rename_i heq
      cases hfirst.symm.trans heq
  | case5 offset c rest hgap hmark l s hfirst hpos ih =>
    rw [readAllFrom, if_neg hgap, if_neg hmark]
    split
    · rename_i heq
      cases hfirst.symm.trans heq
    · rename_i heq
      cases hfirst.symm.trans heq
      exact (ih _).map fun _ _ h => .cons rfl h

end Lexeme

namespace Statement

variable {ls ls' : List (Located Lexeme)} {final final' : Span}

theorem nil_or_cons_of_sameValue (h : List.Forall₂ Located.SameValue ls ls') :
    ls = [] ∧ ls' = [] ∨ ∃ v span span' rest rest', ls = ⟨v, span⟩ :: rest ∧
      ls' = ⟨v, span'⟩ :: rest' ∧ List.Forall₂ Located.SameValue rest rest' := by
  cases h with
  | nil => exact .inl ⟨rfl, rfl⟩
  | @cons l l' rest rest' hl h =>
    obtain ⟨v, span⟩ := l
    obtain ⟨_, span'⟩ := l'
    cases hl
    exact .inr ⟨v, span, span', rest, rest', rfl, rfl, h⟩

theorem sameValue_unexpected (h : List.Forall₂ Located.SameValue ls ls')
    (expected : List Expectation) :
    (unexpected final ls expected).SameValue (unexpected final' ls' expected) := by
  cases h with
  | nil => rfl
  | cons hl _ => exact congrArg (fun l => SyntaxError.unexpected (some l) expected) hl

theorem rel_operandOf? {l l' : Located Lexeme} (h : l.SameValue l') :
    Option.Rel Located.SameValue (operandOf? l) (operandOf? l') := by
  have h : l'.value = l.value := h
  unfold operandOf?
  rw [h]
  split
  · exact .some rfl
  · exact .some rfl
  · exact .none

theorem sameOutcome_furtherOperands {ls ls' : List (Located Lexeme)}
    (h : List.Forall₂ Located.SameValue ls ls') :
    SameOutcome Located.SameValue (List.Forall₂ Located.SameValue) (furtherOperands final ls)
      (furtherOperands final' ls') := by
  obtain ⟨rfl, rfl⟩ | ⟨v, _, _, _, _, rfl, rfl, hbehind⟩ := nil_or_cons_of_sameValue h
  · exact .ok .nil
  cases v with
  | comma =>
    cases hbehind with
    | nil => exact .error rfl
    | @cons l l' rest rest' hl hrest =>
      have hoperand := rel_operandOf? hl
      rw [furtherOperands, furtherOperands]
      generalize operandOf? l = operand, operandOf? l' = operand' at hoperand
      cases hoperand with
      | none => exact .error (sameValue_unexpected (.cons hl hrest) _)
      | some hoperand =>
        exact (sameOutcome_furtherOperands hrest).map fun _ _ h => .cons hoperand h
  | _ => exact .error rfl
termination_by ls.length

theorem sameOutcome_repetitions (h : List.Forall₂ Located.SameValue ls ls') :
    SameOutcome Located.SameValue (Option.Rel Located.SameValue) (repetitions final ls)
      (repetitions final' ls') := by
  obtain ⟨rfl, rfl⟩ | ⟨v, _, _, _, _, rfl, rfl, hbehind⟩ := nil_or_cons_of_sameValue h
  · exact .ok .none
  cases v with
  | openParen =>
    obtain ⟨rfl, rfl⟩ | ⟨v, _, _, _, _, rfl, rfl, hclose⟩ := nil_or_cons_of_sameValue hbehind
    · exact .error rfl
    cases v with
    | number x =>
      obtain ⟨rfl, rfl⟩ | ⟨v, _, _, _, _, rfl, rfl, hend⟩ := nil_or_cons_of_sameValue hclose
      · exact .error rfl
      cases v with
      | closeParen =>
        cases hend with
        | nil => exact .ok (.some rfl)
        | cons hl hend => exact .error (sameValue_unexpected (.cons hl hend) _)
      | _ => exact .error rfl
    | _ => exact .error rfl
  | _ => exact .error rfl

theorem sameOutcome_operands (h : List.Forall₂ Located.SameValue ls ls') :
    SameOutcome Located.SameValue (List.Forall₂ Located.SameValue) (operands final ls)
      (operands final' ls') := by
  cases h with
  | nil => exact .ok .nil
  | @cons l l' rest rest' hl hrest =>
    have hoperand := rel_operandOf? hl
    rw [operands, operands]
    generalize operandOf? l = operand, operandOf? l' = operand' at hoperand
    cases hoperand with
    | none => exact .error (sameValue_unexpected (.cons hl hrest) _)
    | some hoperand => exact (sameOutcome_furtherOperands hrest).map fun _ _ h => .cons hoperand h

theorem sameOutcome_ofLexemes (h : List.Forall₂ Located.SameValue ls ls') :
    SameOutcome Located.SameValue (Pairs Located.SameValue) (ofLexemes final ls)
      (ofLexemes final' ls') := by
  obtain ⟨rfl, rfl⟩ | ⟨v, _, _, _, _, rfl, rfl, hbehind⟩ := nil_or_cons_of_sameValue h
  · exact .error rfl
  cases v with
  | dot =>
    obtain ⟨rfl, rfl⟩ | ⟨v, _, _, _, _, rfl, rfl, hend⟩ := nil_or_cons_of_sameValue hbehind
    · exact .error rfl
    cases v with
    | identifier name => exact (sameOutcome_repetitions hend).map fun _ _ h => .header rfl h
    | _ => exact .error rfl
  | identifier keyword =>
    exact (sameOutcome_operands hbehind).map fun _ _ h => .instruction rfl h
  | _ => exact .error rfl

end Statement

end QuantumDiagram

import QuantumDiagram.Proofs.Statement.Cutting

/-!
# The grammar of statements

`Statement.Spells` is the grammar: the forms that the lexemes of a statement have, and the names and
numbers that the statement takes from them. Lexemes are read as the statement that they spell
(`Statement.ofLexemes_eq_ok`); otherwise reading fails at the first lexeme with which no statement
goes on, or at the end of lexemes that a statement begins with
(`Statement.failsIn_of_ofLexemes_error`). `Statement.read_iff_spells` says both of a text.
-/

namespace QuantumDiagram.Statement

/-! ## The forms of statements -/

/-- The lexeme is a name or a number, and the operand is that at the same place. -/
inductive IsOperand : Located Operand → Located Lexeme → Prop
  | name {n : Text} {span : Span} : IsOperand ⟨.name n, span⟩ ⟨.identifier n, span⟩
  | number {x : Float} {span : Span} : IsOperand ⟨.number x, span⟩ ⟨.number x, span⟩

/-- One operand or more, with a comma between neighbours. -/
inductive AreOperands : List (Located Operand) → List (Located Lexeme) → Prop
  | one {operand : Located Operand} {l : Located Lexeme} (single : IsOperand operand l) :
      AreOperands [operand] [l]
  | more {operand : Located Operand} {operands : List (Located Operand)} {l : Located Lexeme}
      {comma : Span} {ls : List (Located Lexeme)} (first : IsOperand operand l)
      (further : AreOperands operands ls) :
      AreOperands (operand :: operands) (l :: ⟨.comma, comma⟩ :: ls)

/-- The lexemes spell the statement: `.name`, `.name(number)`, a keyword, or a keyword and
operands. -/
inductive Spells : Statement → List (Located Lexeme) → Prop
  | header {n : Text} {dot span : Span} :
      Spells (.header ⟨n, span⟩ none) [⟨.dot, dot⟩, ⟨.identifier n, span⟩]
  | repeated {n : Text} {x : Float} {dot span left number right : Span} :
      Spells (.header ⟨n, span⟩ (some ⟨x, number⟩))
        [⟨.dot, dot⟩, ⟨.identifier n, span⟩, ⟨.openParen, left⟩, ⟨.number x, number⟩,
          ⟨.closeParen, right⟩]
  | keyword {n : Text} {span : Span} : Spells (.instruction ⟨n, span⟩ []) [⟨.identifier n, span⟩]
  | instruction {n : Text} {span : Span} {operands : List (Located Operand)}
      {ls : List (Located Lexeme)} (follow : AreOperands operands ls) :
      Spells (.instruction ⟨n, span⟩ operands) (⟨.identifier n, span⟩ :: ls)

/-- The lexemes spell some statement. -/
def Spelled (ls : List (Located Lexeme)) : Prop := ∃ st, Spells st ls

/-- `ls` is the beginning of a list in `L`, or the whole of one. -/
def Begins (L : List (Located Lexeme) → Prop) (ls : List (Located Lexeme)) : Prop :=
  ∃ more, L (ls ++ more)

variable {final : Span} {ls : List (Located Lexeme)} {l : Located Lexeme}
  {operand : Located Operand} {operands : List (Located Operand)} {t : Text}

/-! ## Lexemes are read as what they spell -/

theorem operandOf?_eq_some : operandOf? l = some operand ↔ IsOperand operand l := by
  constructor
  · intro h
    obtain ⟨value, span⟩ := l
    cases value <;> cases h <;> constructor
  · rintro ⟨⟩ <;> rfl

theorem not_isOperand_of_none (h : operandOf? l = none) (operand : Located Operand) :
    ¬ IsOperand operand l := by
  intro hoperand
  rw [operandOf?_eq_some.2 hoperand] at h
  cases h

/-- Behind an operand, what is read goes on with the list that it begins. -/
theorem furtherOperands_eq_ok (first : IsOperand operand l) :
    furtherOperands final ls = .ok operands ↔ AreOperands (operand :: operands) (l :: ls) := by
  constructor
  · intro h
    fun_induction furtherOperands final ls generalizing operand operands l with
    | case1 =>
      cases h
      exact .one first
    | case2 span l' rest operand' hoperand ih =>
      obtain ⟨further, hfurther, rfl⟩ := map_eq_ok.1 h
      exact .more first (ih (operandOf?_eq_some.1 hoperand) hfurther)
    | case3 => cases h
    | case4 => cases h
    | case5 => cases h
  · intro h
    generalize hos : operand :: operands = os at h
    generalize hls : l :: ls = whole at h
    induction h generalizing operand operands l ls with
    | one =>
      cases hos
      cases hls
      rfl
    | more _ further ih =>
      cases hos
      cases hls
      cases further with
      | one single =>
        rw [furtherOperands, operandOf?_eq_some.2 single]
        exact map_eq_ok.2 ⟨[], rfl, rfl⟩
      | more first' further' =>
        rw [furtherOperands, operandOf?_eq_some.2 first']
        exact map_eq_ok.2 ⟨_, ih first' rfl rfl, rfl⟩

theorem operands_eq_ok : Statement.operands final ls = .ok operands ↔
    (operands = [] ∧ ls = []) ∨ AreOperands operands ls := by
  cases ls with
  | nil =>
    refine ⟨fun h => ?_, ?_⟩
    · cases h
      exact .inl ⟨rfl, rfl⟩
    · rintro (⟨rfl, -⟩ | ⟨⟨⟩⟩)
      rfl
  | cons l ls =>
    cases hoperand : operandOf? l with
    | none =>
      have hnot := not_isOperand_of_none hoperand
      rw [Statement.operands, hoperand]
      constructor
      · intro h
        cases h
      · rintro (⟨-, h⟩ | h)
        · cases h
        · cases h with
          | one single => exact absurd single (hnot _)
          | more first => exact absurd first (hnot _)
    | some operand =>
      have hfirst := operandOf?_eq_some.1 hoperand
      rw [Statement.operands, hoperand]
      constructor
      · intro h
        obtain ⟨further, hfurther, rfl⟩ := map_eq_ok.1 h
        exact .inr ((furtherOperands_eq_ok hfirst).1 hfurther)
      · rintro (⟨-, h⟩ | h)
        · cases h
        · cases h with
          | one single =>
            cases hoperand.symm.trans (operandOf?_eq_some.2 single)
            rfl
          | more first further =>
            cases hoperand.symm.trans (operandOf?_eq_some.2 first)
            exact map_eq_ok.2 ⟨_, (furtherOperands_eq_ok hfirst).2 (.more first further), rfl⟩

theorem spells_of_ofLexemes {st : Statement} (h : ofLexemes final ls = .ok st) :
    Spells st ls := by
  unfold ofLexemes at h
  split at h
  · split at h
    · obtain ⟨r, hr, rfl⟩ := map_eq_ok.1 h
      unfold repetitions at hr
      split at hr
      · cases hr
        exact .header
      · split at hr
        · split at hr
          · split at hr
            · rename_i hend
              cases hr
              rw [List.isEmpty_iff.1 hend]
              exact .repeated
            · cases hr
          · cases hr
        · cases hr
      · cases hr
    · cases h
  · obtain ⟨operands, hoperands, rfl⟩ := map_eq_ok.1 h
    obtain ⟨rfl, rfl⟩ | hoperands := operands_eq_ok.1 hoperands
    · exact .keyword
    · exact .instruction hoperands
  · cases h

/-- Lexemes are read as the statement that they spell. -/
theorem ofLexemes_eq_ok {st : Statement} : ofLexemes final ls = .ok st ↔ Spells st ls := by
  refine ⟨spells_of_ofLexemes, fun h => ?_⟩
  cases h with
  | header => rfl
  | repeated => rfl
  | keyword => rfl
  | instruction follow => exact map_eq_ok.2 ⟨_, operands_eq_ok.2 (.inr follow), rfl⟩

/-! ## Where reading fails -/

/-- The error is at the first lexeme with which no list of `L` goes on; or at the end, if the
lexemes are the beginning of such a list and none themselves. -/
def FailsIn (L : List (Located Lexeme) → Prop) (final : Span) (ls : List (Located Lexeme))
    (e : Located SyntaxError) : Prop :=
  (∃ before l behind, ls = before ++ l :: behind ∧ Begins L before ∧ ¬ Begins L (before ++ [l]) ∧
    e.span = l.span) ∨
  Begins L ls ∧ ¬ L ls ∧ e.span = final

variable {L M : List (Located Lexeme) → Prop} {e : Located SyntaxError}

theorem FailsIn.congr (h : FailsIn M final ls e) (hL : ∀ ls, L ls ↔ M ls) :
    FailsIn L final ls e := by
  rwa [show L = M from funext fun ls => propext (hL ls)]

/-- Behind a lexeme, an error is at the place where it is for the lists that go on from there. -/
theorem FailsIn.behind (l : Located Lexeme) (h : FailsIn (fun ls => L (l :: ls)) final ls e) :
    FailsIn L final (l :: ls) e := by
  obtain ⟨before, l', rest, rfl, hbegins, hends, hspan⟩ | h := h
  · exact .inl ⟨l :: before, l', rest, rfl, hbegins, hends, hspan⟩
  · exact .inr h

/-- The error at the first of the lexemes, if none of `L` begins with it. -/
theorem failsIn_unexpected (hsome : ∃ ls, L ls) (hempty : ls = [] → ¬ L [])
    (hfirst : ∀ l rest, ls = l :: rest → ¬ Begins L [l]) (expected : List Expectation) :
    FailsIn L final ls (unexpected final ls expected) := by
  cases ls with
  | nil => exact .inr ⟨hsome, hempty rfl, rfl⟩
  | cons l rest => exact .inl ⟨[], l, rest, rfl, hsome, hfirst l rest rfl, rfl⟩

/-! ### Among the operands -/

/-- The lexemes are operands with commas between them. -/
def Listed (ls : List (Located Lexeme)) : Prop := ∃ operands, AreOperands operands ls

theorem exists_listed : ∃ ls, Listed ls :=
  ⟨[⟨.identifier [], ⟨0, 0⟩⟩], _, .one .name⟩

theorem not_listed_nil : ¬ Listed [] := by
  rintro ⟨operands, ⟨⟩⟩

theorem not_begins_listed (h : operandOf? l = none) : ¬ Begins Listed [l] := by
  rintro ⟨more, operands, hoperands⟩
  cases hoperands with
  | one single => exact not_isOperand_of_none h _ single
  | more first => exact not_isOperand_of_none h _ first

/-- Behind a comma, a list of operands goes on like a list of operands. -/
theorem listed_comma (first : IsOperand operand l) {comma : Span} :
    Listed (l :: ⟨.comma, comma⟩ :: ls) ↔ Listed ls := by
  constructor
  · rintro ⟨operands, hoperands⟩
    cases hoperands with
    | more _ further => exact ⟨_, further⟩
  · rintro ⟨operands, hoperands⟩
    exact ⟨_, .more first hoperands⟩

theorem failsIn_of_furtherOperands_error (first : IsOperand operand l)
    (h : furtherOperands final ls = .error e) :
    FailsIn (fun ls => Listed (l :: ls)) final ls e := by
  fun_induction furtherOperands final ls generalizing operand l with
  | case1 => cases h
  | case2 comma l' rest operand' hoperand ih =>
    have hrest := ih (operandOf?_eq_some.1 hoperand) (map_eq_error.1 h)
    exact ((FailsIn.behind l' hrest).congr fun ls => listed_comma first).behind _
  | case3 comma l' rest hoperand =>
    cases h
    refine .behind _ (.congr (M := Listed) ?_ fun ls => listed_comma first)
    refine failsIn_unexpected exists_listed (fun hnil => by cases hnil) ?_ _
    rintro _ _ ⟨⟩
    exact not_begins_listed hoperand
  | case4 comma =>
    cases h
    refine .behind _ (.congr (M := Listed) ?_ fun ls => listed_comma first)
    refine failsIn_unexpected exists_listed (fun _ => not_listed_nil) ?_ _
    rintro _ _ ⟨⟩
  | case5 ls hnil hcomma hlast =>
    cases h
    refine failsIn_unexpected ⟨[], _, .one first⟩ (fun h => absurd h hnil) ?_ _
    rintro l' rest rfl ⟨more, operands, hoperands⟩
    cases hoperands with
    | more _ further =>
      cases rest with
      | nil => exact hlast _ rfl
      | cons l'' rest => exact hcomma _ _ _ rfl

theorem failsIn_of_operands_error {keyword : Text} {span : Span}
    (h : Statement.operands final ls = .error e) :
    FailsIn (fun ls => Spelled (⟨.identifier keyword, span⟩ :: ls)) final ls e := by
  have hspelled {l : Located Lexeme} {ls : List (Located Lexeme)} :
      Spelled (⟨.identifier keyword, span⟩ :: l :: ls) ↔ Listed (l :: ls) := by
    constructor
    · rintro ⟨st, h⟩
      cases h with
      | instruction follow => exact ⟨_, follow⟩
    · rintro ⟨operands, h⟩
      exact ⟨_, .instruction h⟩
  cases ls with
  | nil => cases h
  | cons l ls =>
    rw [Statement.operands] at h
    cases hoperand : operandOf? l with
    | some operand =>
      rw [hoperand] at h
      have hfurther :=
        failsIn_of_furtherOperands_error (operandOf?_eq_some.1 hoperand) (map_eq_error.1 h)
      exact (hfurther.congr fun ls => hspelled).behind l
    | none =>
      rw [hoperand] at h
      cases h
      refine failsIn_unexpected ⟨[], _, .keyword⟩ nofun ?_ _
      rintro _ _ ⟨⟩ ⟨more, hmore⟩
      exact not_begins_listed hoperand ⟨more, hspelled.1 hmore⟩

/-! ### In headers -/

theorem failsIn_of_repetitions_error {n : Text} {dot span : Span}
    (h : repetitions final ls = .error e) :
    FailsIn (fun ls => Spelled (⟨.dot, dot⟩ :: ⟨.identifier n, span⟩ :: ls)) final ls e := by
  have hrepeated (x : Float) (left number right : Span) : Spelled
      [⟨.dot, dot⟩, ⟨.identifier n, span⟩, ⟨.openParen, left⟩, ⟨.number x, number⟩,
        ⟨.closeParen, right⟩] := ⟨_, .repeated⟩
  unfold repetitions at h
  split at h
  · cases h
  · rename_i left rest
    refine .behind _ ?_
    split at h
    · rename_i x number rest
      refine .behind _ ?_
      split at h
      · rename_i right rest
        refine .behind _ ?_
        split at h
        · cases h
        · rename_i hrest
          cases h
          refine failsIn_unexpected ⟨[], hrepeated ..⟩ (fun h => absurd (h ▸ rfl) hrest) ?_ _
          rintro l _ - ⟨more, st, ⟨⟩⟩
      · rename_i hclose
        cases h
        refine failsIn_unexpected ⟨[⟨.closeParen, ⟨0, 0⟩⟩], hrepeated ..⟩ ?_ ?_ _
        · rintro - ⟨st, ⟨⟩⟩
        · rintro l rest rfl ⟨more, st, ⟨⟩⟩
          exact hclose _ _ rfl
    · rename_i hnumber
      cases h
      refine failsIn_unexpected ⟨[⟨.number 0, ⟨0, 0⟩⟩, ⟨.closeParen, ⟨0, 0⟩⟩], hrepeated ..⟩ ?_ ?_ _
      · rintro - ⟨st, ⟨⟩⟩
      · rintro l rest rfl ⟨more, st, ⟨⟩⟩
        exact hnumber _ _ _ rfl
  · rename_i hnil hopen
    cases h
    refine failsIn_unexpected ⟨[], _, .header⟩ (fun h => absurd h hnil) ?_ _
    rintro l rest rfl ⟨more, st, ⟨⟩⟩
    exact hopen _ _ rfl

/-- **Reading fails at the first lexeme with which no statement goes on**, or at the end of lexemes
that are only the beginning of one. -/
theorem failsIn_of_ofLexemes_error (h : ofLexemes final ls = .error e) :
    FailsIn Spelled final ls e := by
  unfold ofLexemes at h
  split at h
  · refine .behind _ ?_
    split at h
    · exact (failsIn_of_repetitions_error (map_eq_error.1 h)).behind _
    · rename_i hname
      cases h
      refine failsIn_unexpected ⟨[⟨.identifier [], ⟨0, 0⟩⟩], _, .header⟩ ?_ ?_ _
      · rintro - ⟨st, ⟨⟩⟩
      · rintro l rest rfl ⟨more, st, hst⟩
        cases hst <;> exact hname _ _ _ rfl
  · exact (failsIn_of_operands_error (map_eq_error.1 h)).behind _
  · rename_i hdot hkeyword
    cases h
    refine failsIn_unexpected ⟨_, _, @Spells.keyword [] ⟨0, 0⟩⟩ ?_ ?_ _
    · rintro - ⟨st, ⟨⟩⟩
    · rintro l rest rfl ⟨more, st, hst⟩
      cases hst with
      | header | repeated => exact hdot _ _ rfl
      | keyword | instruction => exact hkeyword _ _ _ rfl

/-! ## Texts -/

theorem endSpan_eq_iff (size : Nat) : endSpan size ls = ⟨size, size⟩ ↔
    ∀ last, ls.getLast? = some last → last.span.stop = size := by
  unfold endSpan
  cases ls.getLast? <;> simp

/-- **A text whose lexemes are found is read as the statement that they spell**, and there is one
just if the reading succeeds. Otherwise the error is at the first lexeme with which no statement
goes on; or, if the lexemes are the beginning of a statement, at the end of the text, from where it
points back to the last lexeme if anything stands behind that. -/
theorem read_iff_spells (h : Lexeme.readAll t = .ok ls) :
    (∀ st, read t = .ok st ↔ Spells st ls) ∧
    (∀ e, read t = .error e → FailsIn Spelled (endSpan (Text.byteLength t) ls) ls e) ∧
    (endSpan (Text.byteLength t) ls = ⟨Text.byteLength t, Text.byteLength t⟩ ↔
      ∀ last, ls.getLast? = some last → last.span.stop = Text.byteLength t) := by
  have hread : read t = ofLexemes (endSpan (Text.byteLength t) ls) ls := by rw [read, h]
  refine ⟨fun st => ?_, fun e he => ?_, endSpan_eq_iff _⟩
  · rw [hread]
    exact ofLexemes_eq_ok
  · rw [hread] at he
    exact failsIn_of_ofLexemes_error he

/-- A statement that breaks off behind a comma and a blank: the error is at the end, and its span is
turned around. -/
theorem read_spells_broken_off :
    let t := "h q0, ".toList
    let ls : List (Located Lexeme) :=
      [⟨.identifier ['h'], ⟨0, 1⟩⟩, ⟨.identifier ['q', '0'], ⟨2, 4⟩⟩, ⟨.comma, ⟨4, 5⟩⟩]
    Lexeme.readAll t = .ok ls ∧ ¬ Spelled ls ∧
      ∃ e, read t = .error e ∧ e.span = ⟨6, 5⟩ ∧ FailsIn Spelled ⟨6, 5⟩ ls e := by
  intro t ls
  have hls : Lexeme.readAll t = .ok ls := by
    refine Lexeme.readAllFrom_eq_ok.2 ?_
    refine .lexeme (s := ['h']) (Lexeme.first?_eq_some.1 rfl) (.gap rfl ?_)
    refine .lexeme (s := ['q', '0']) (Lexeme.first?_eq_some.1 rfl) ?_
    exact .lexeme (s := [',']) (Lexeme.first?_eq_some.1 rfl) (.gap rfl .done)
  obtain ⟨-, hfails, -⟩ := read_iff_spells hls
  have hnot : ¬ Spelled ls := by
    show ¬ Spelled [⟨.identifier _, _⟩, ⟨.identifier _, _⟩, ⟨.comma, _⟩]
    rintro ⟨st, ⟨⟩ | ⟨⟩ | ⟨⟩ | ⟨⟨⟩ | ⟨-, ⟨⟩⟩⟩⟩
  have hread : ∃ e : SyntaxError, read t = .error ⟨e, ⟨6, 5⟩⟩ := by
    rw [read, hls]
    exact ⟨_, rfl⟩
  obtain ⟨e, he⟩ := hread
  exact ⟨hls, hnot, _, he, rfl, hfails _ he⟩

end QuantumDiagram.Statement

import QuantumDiagram.Proofs.Outcome
import QuantumDiagram.Proofs.Text.Within
import QuantumDiagram.Statement

/-!
# Where lexemes and statements point to

The span of a lexeme marks the piece of the text that it was read from, and an identifier is that
piece (`Lexeme.marks_of_mem_readAllFrom`). So the spans in a statement mark its keyword and its
operands (`Statement.marks_keyword`, `Statement.marks_operand`), and that of an error marks a piece
of the text, but for one case: an error at the end of the text points from there back to the last
lexeme, so it is turned around if anything stands behind that (`Statement.marks_of_read_error`).
-/

namespace QuantumDiagram

theorem prefix_append_of_drop {s t u : Text} (hs : s <+: t) (hu : u <+: t.drop s.length) :
    s ++ u <+: t := by
  obtain ⟨r, rfl⟩ := hs
  rw [List.drop_left] at hu
  exact (List.prefix_append_right_inj s).2 hu

namespace Lexeme

/-! ## The piece of a lexeme -/

theorem prefix_identifierOf (t : Text) : identifierOf t <+: t := by
  unfold identifierOf
  split
  · exact List.nil_prefix
  · split
    · exact List.cons_prefix_cons.2 ⟨rfl, List.takeWhile_prefix _⟩
    · exact List.nil_prefix

theorem prefix_fractionOf (t : Text) : fractionOf t <+: t := by
  unfold fractionOf
  split
  · dsimp only
    split
    · exact List.nil_prefix
    · exact List.cons_prefix_cons.2 ⟨rfl, List.takeWhile_prefix _⟩
  · exact List.nil_prefix

theorem prefix_signOf (t : Text) : signOf t <+: t := by
  unfold signOf
  split
  · exact List.cons_prefix_cons.2 ⟨rfl, List.nil_prefix⟩
  · exact List.cons_prefix_cons.2 ⟨rfl, List.nil_prefix⟩
  · exact List.nil_prefix

theorem prefix_exponentOf (t : Text) : exponentOf t <+: t := by
  unfold exponentOf
  split
  · exact List.nil_prefix
  · dsimp only
    split
    · exact List.cons_prefix_cons.2
        ⟨rfl, prefix_append_of_drop (prefix_signOf _) (List.takeWhile_prefix _)⟩
    · exact List.nil_prefix

theorem prefix_minus (t : Text) : (if t.head? = some '-' then ['-'] else []) <+: t := by
  split
  · rename_i hminus
    cases t with
    | nil => cases hminus
    | cons c t =>
      cases hminus
      exact List.cons_prefix_cons.2 ⟨rfl, List.nil_prefix⟩
  · exact List.nil_prefix

theorem prefix_numberOf (t : Text) : numberOf t <+: t := by
  unfold numberOf
  dsimp only
  have hminus := prefix_minus t
  generalize (if t.head? = some '-' then ['-'] else []) = minus at hminus ⊢
  split
  · exact List.nil_prefix
  · have hinteger := prefix_append_of_drop hminus (List.takeWhile_prefix Char.isDigit)
    have hdecimal := prefix_append_of_drop hinteger (prefix_fractionOf _)
    exact prefix_append_of_drop hdecimal (prefix_exponentOf _)

/-- An identifier is the piece that it is read from; that of a number does not begin like one. -/
def SpelledBy : Lexeme → Text → Prop
  | .identifier n, piece => n = piece
  | .number _, piece => piece.head?.any isIdentifierStart = false
  | _, _ => True

theorem spelledBy_of_ofChar? {c : Char} {l : Lexeme} (h : ofChar? c = some l) (piece : Text) :
    l.SpelledBy piece := by
  unfold ofChar? at h
  split at h <;> cases h <;> exact trivial

theorem first?_ok {t s : Text} {l : Lexeme} (h : first? t = some (l, s)) :
    s <+: t ∧ l.SpelledBy s := by
  unfold first? at h
  split at h
  · cases h
  · rename_i c rest
    split at h
    · rename_i hc
      cases h
      exact ⟨List.cons_prefix_cons.2 ⟨rfl, List.nil_prefix⟩, spelledBy_of_ofChar? hc _⟩
    · dsimp only at h
      split at h
      · cases h
        exact ⟨prefix_identifierOf _, rfl⟩
      · rename_i hname
        split at h
        · rename_i hdigits
          cases h
          refine ⟨prefix_numberOf _, ?_⟩
          obtain ⟨behind, hbehind⟩ := prefix_numberOf (c :: rest)
          cases hnumber : numberOf (c :: rest) with
          | nil => exact absurd hnumber hdigits
          | cons d ds =>
            rw [hnumber] at hbehind
            cases hbehind
            show (some c).any isIdentifierStart = false
            cases hstart : isIdentifierStart c with
            | true => simp [identifierOf, hstart] at hname
            | false => exact hstart
        · cases h

/-! ## Spans of lexemes -/

/-- The first lexeme and what is behind it make up the text. -/
theorem append_drop_of_first? {t s : Text} {l : Lexeme} (h : first? t = some (l, s)) :
    s ++ t.drop s.length = t := by
  obtain ⟨⟨r, rfl⟩, -⟩ := first?_ok h
  rw [List.drop_left]

theorem within_behind_first? {t s : Text} {l : Lexeme} (h : first? t = some (l, s))
    (offset : Nat) :
    (⟨offset + Text.byteLength s, t.drop s.length⟩ : Stretch).Within ⟨offset, t⟩ := by
  have hbehind := Stretch.within_append_right offset s (t.drop s.length)
  rwa [append_drop_of_first? h] at hbehind

theorem within_behind_comment (offset : Nat) (t : Text) :
    (⟨offset + Text.byteLength ('#' :: t.takeWhile (· ≠ '\n')), t.dropWhile (· ≠ '\n')⟩ :
      Stretch).Within ⟨offset, '#' :: t⟩ := by
  have hbehind := Stretch.within_append_right offset ('#' :: t.takeWhile (· ≠ '\n'))
    (t.dropWhile (· ≠ '\n'))
  rwa [List.cons_append, List.takeWhile_append_dropWhile] at hbehind

theorem marks_of_mem_readAllFrom {offset : Nat} {t : Text} {ls : List (Located Lexeme)}
    (h : readAllFrom offset t = .ok ls) : ∀ l ∈ ls, ∃ piece,
      (⟨offset, t⟩ : Stretch).Marks l.span piece ∧ l.value.SpelledBy piece := by
  fun_induction readAllFrom offset t generalizing ls with
  | case1 =>
    cases h
    simp
  | case2 offset c rest hgap ih =>
    intro l hl
    obtain ⟨piece, hmarks, hspelled⟩ := ih h l hl
    exact ⟨piece, hmarks.within (Stretch.within_append_right offset [c] rest), hspelled⟩
  | case3 offset rest hgap ih =>
    intro l hl
    obtain ⟨piece, hmarks, hspelled⟩ := ih h l hl
    exact ⟨piece, hmarks.within (within_behind_comment offset rest), hspelled⟩
  | case4 => cases h
  | case5 offset c rest hgap hmark l s hfirst hpos ih =>
    obtain ⟨ls, hls, rfl⟩ := map_eq_ok.1 h
    intro l' hl'
    rcases List.mem_cons.1 hl' with rfl | hl'
    · have hpiece := Stretch.within_append_left offset s ((c :: rest).drop s.length)
      rw [append_drop_of_first? hfirst] at hpiece
      exact ⟨s, hpiece.marks, (first?_ok hfirst).2⟩
    · obtain ⟨piece, hmarks, hspelled⟩ := ih hls l' hl'
      exact ⟨piece, hmarks.within (within_behind_first? hfirst offset), hspelled⟩

theorem isGap_of_readAllFrom_nil {offset : Nat} {t : Text} (ht : '#' ∉ t)
    (h : readAllFrom offset t = .ok []) : ∀ c ∈ t, isGap c = true := by
  fun_induction readAllFrom offset t with
  | case1 => simp
  | case2 offset c rest hgap ih =>
    exact List.forall_mem_cons.2 ⟨hgap, ih (fun h => ht (List.mem_cons_of_mem _ h)) h⟩
  | case3 => exact absurd List.mem_cons_self ht
  | case4 => cases h
  | case5 =>
    obtain ⟨_, -, h⟩ := map_eq_ok.1 h
    cases h

/-- Without a comment, only gaps stand behind the last lexeme. -/
theorem marks_behind_readAllFrom {offset : Nat} {t : Text} {ls : List (Located Lexeme)}
    (ht : '#' ∉ t) (h : readAllFrom offset t = .ok ls) {last : Located Lexeme}
    (hlast : ls.getLast? = some last) : ∃ gaps, (∀ c ∈ gaps, isGap c = true) ∧
      (⟨offset, t⟩ : Stretch).Marks ⟨last.span.stop, offset + Text.byteLength t⟩ gaps := by
  fun_induction readAllFrom offset t generalizing ls with
  | case1 =>
    cases h
    cases hlast
  | case2 offset c rest hgap ih =>
    obtain ⟨gaps, hgaps, hmarks⟩ := ih (fun h => ht (List.mem_cons_of_mem _ h)) h hlast
    rw [Nat.add_assoc] at hmarks
    exact ⟨gaps, hgaps, hmarks.within (Stretch.within_append_right offset [c] rest)⟩
  | case3 => exact absurd List.mem_cons_self ht
  | case4 => cases h
  | case5 offset c rest hgap hmark l s hfirst hpos ih =>
    obtain ⟨ls, hls, rfl⟩ := map_eq_ok.1 h
    have hbehind := within_behind_first? hfirst offset
    have hdrop : '#' ∉ (c :: rest).drop s.length := fun h => ht (List.drop_subset _ _ h)
    have hsize := congrArg Text.byteLength (append_drop_of_first? hfirst)
    rw [Text.byteLength_append] at hsize
    rw [← hsize, ← Nat.add_assoc]
    cases ls with
    | nil =>
      cases hlast
      exact ⟨_, isGap_of_readAllFrom_nil hdrop hls, hbehind.marks⟩
    | cons l' ls =>
      rw [List.getLast?_cons_cons] at hlast
      obtain ⟨gaps, hgaps, hmarks⟩ := ih hdrop hls hlast
      exact ⟨gaps, hgaps, hmarks.within hbehind⟩

theorem marks_of_readAllFrom_error {offset : Nat} {t : Text} {c : Located Char}
    (h : readAllFrom offset t = .error c) :
    (⟨offset, t⟩ : Stretch).Marks c.span [c.value] := by
  fun_induction readAllFrom offset t with
  | case1 => cases h
  | case2 offset c rest hgap ih =>
    exact (ih h).within (Stretch.within_append_right offset [c] rest)
  | case3 offset rest hgap ih =>
    exact (ih h).within (within_behind_comment offset rest)
  | case4 offset c rest hgap hmark hfirst =>
    cases h
    exact (Stretch.within_append_left offset [c] rest).marks
  | case5 offset c rest hgap hmark l s hfirst hpos ih =>
    exact (ih (map_eq_error.1 h)).within (within_behind_first? hfirst offset)

end Lexeme

/-! ## Spans in statements -/

/-- A name is the piece that it is read from; that of a number does not begin like one. -/
def Operand.SpelledBy : Operand → Text → Prop
  | .name n, piece => n = piece
  | .number _, piece => piece.head?.any Lexeme.isIdentifierStart = false

/-- A piece that begins like a name is the text of its operand. -/
theorem Operand.SpelledBy.text_eq {operand : Operand} {piece : Text}
    (h : operand.SpelledBy piece)
    (hname : piece.head?.any Lexeme.isIdentifierStart = true) : operand.text = piece := by
  cases operand with
  | name n => exact h
  | number x =>
    rw [SpelledBy, hname] at h
    cases h

namespace Statement

variable {final : Span} {ls : List (Located Lexeme)} {t : Text}

theorem operandOf?_ok {l : Located Lexeme} {operand : Located Operand}
    (h : operandOf? l = some operand) : operand.span = l.span ∧
      ∀ piece, l.value.SpelledBy piece → operand.value.SpelledBy piece := by
  obtain ⟨l, span⟩ := l
  unfold operandOf? at h
  split at h
  · rename_i hl
    cases h
    cases hl
    exact ⟨rfl, fun _ hspelled => hspelled⟩
  · rename_i hl
    cases h
    cases hl
    exact ⟨rfl, fun _ hspelled => hspelled⟩
  · cases h

/-- Each operand comes from a lexeme. -/
theorem furtherOperands_ok {operands : List (Located Operand)}
    (h : furtherOperands final ls = .ok operands) :
    ∀ operand ∈ operands, ∃ l ∈ ls, operandOf? l = some operand := by
  fun_induction furtherOperands final ls generalizing operands with
  | case1 =>
    cases h
    simp
  | case2 span l rest operand hoperand ih =>
    obtain ⟨further, hfurther, rfl⟩ := map_eq_ok.1 h
    intro operand' hmem
    rcases List.mem_cons.1 hmem with rfl | hmem
    · exact ⟨l, List.mem_cons_of_mem _ List.mem_cons_self, hoperand⟩
    · obtain ⟨l', hl', hoperand'⟩ := ih hfurther operand' hmem
      exact ⟨l', List.mem_cons_of_mem _ (List.mem_cons_of_mem _ hl'), hoperand'⟩
  | case3 => cases h
  | case4 => cases h
  | case5 => cases h

theorem operands_ok {operands : List (Located Operand)}
    (h : Statement.operands final ls = .ok operands) :
    ∀ operand ∈ operands, ∃ l ∈ ls, operandOf? l = some operand := by
  unfold Statement.operands at h
  split at h
  · cases h
    simp
  · rename_i l rest
    split at h
    · rename_i operand hoperand
      obtain ⟨further, hfurther, rfl⟩ := map_eq_ok.1 h
      intro operand' hmem
      rcases List.mem_cons.1 hmem with rfl | hmem
      · exact ⟨l, List.mem_cons_self, hoperand⟩
      · obtain ⟨l', hl', hoperand'⟩ := furtherOperands_ok hfurther operand' hmem
        exact ⟨l', List.mem_cons_of_mem _ hl', hoperand'⟩
    · cases h

theorem repetitions_ok {x : Located Float}
    (h : repetitions final ls = .ok (some x)) : ⟨.number x.value, x.span⟩ ∈ ls := by
  unfold repetitions at h
  split at h
  · cases h
  · split at h
    · split at h
      · split at h
        · cases h
          exact List.mem_cons_of_mem _ List.mem_cons_self
        · cases h
      · cases h
    · cases h
  · cases h

theorem header_of_ofLexemes {name : Located Text} {number : Option (Located Float)}
    (h : ofLexemes final ls = .ok (.header name number)) :
    ⟨.identifier name.value, name.span⟩ ∈ ls ∧
      ∀ x ∈ number, ⟨.number x.value, x.span⟩ ∈ ls := by
  unfold ofLexemes at h
  split at h
  · split at h
    · obtain ⟨r, hr, h⟩ := map_eq_ok.1 h
      cases h
      refine ⟨List.mem_cons_of_mem _ List.mem_cons_self, fun x hx => ?_⟩
      rw [Option.mem_def.1 hx] at hr
      exact List.mem_cons_of_mem _ (List.mem_cons_of_mem _ (repetitions_ok hr))
    · cases h
  · obtain ⟨_, -, h⟩ := map_eq_ok.1 h
    cases h
  · cases h

theorem instruction_of_ofLexemes {keyword : Located Text} {operands : List (Located Operand)}
    (h : ofLexemes final ls = .ok (.instruction keyword operands)) :
    ⟨.identifier keyword.value, keyword.span⟩ ∈ ls ∧
      ∀ operand ∈ operands, ∃ l ∈ ls, operandOf? l = some operand := by
  unfold ofLexemes at h
  split at h
  · split at h
    · obtain ⟨_, -, h⟩ := map_eq_ok.1 h
      cases h
    · cases h
  · obtain ⟨_, hoperands, h⟩ := map_eq_ok.1 h
    cases h
    refine ⟨List.mem_cons_self, fun operand hmem => ?_⟩
    obtain ⟨l, hl, hoperand⟩ := operands_ok hoperands operand hmem
    exact ⟨l, List.mem_cons_of_mem _ hl, hoperand⟩
  · cases h

theorem read_ok {st : Statement} (h : read t = .ok st) : ∃ ls,
    Lexeme.readAllFrom 0 t = .ok ls ∧ ofLexemes (endSpan (Text.byteLength t) ls) ls = .ok st := by
  unfold read at h
  split at h
  · cases h
  · exact ⟨_, ‹_›, h⟩

theorem marks_repetitions {name : Located Text} {x : Located Float}
    (h : read t = .ok (.header name (some x))) :
    ∃ piece, (⟨0, t⟩ : Stretch).Marks x.span piece := by
  obtain ⟨ls, hls, h⟩ := read_ok h
  obtain ⟨piece, hmarks, -⟩ :=
    Lexeme.marks_of_mem_readAllFrom hls _ ((header_of_ofLexemes h).2 x rfl)
  exact ⟨piece, hmarks⟩

theorem marks_keyword {keyword : Located Text} {operands : List (Located Operand)}
    (h : read t = .ok (.instruction keyword operands)) :
    (⟨0, t⟩ : Stretch).Marks keyword.span keyword.value := by
  obtain ⟨ls, hls, h⟩ := read_ok h
  obtain ⟨piece, hmarks, hspelled⟩ :=
    Lexeme.marks_of_mem_readAllFrom hls _ (instruction_of_ofLexemes h).1
  cases hspelled
  exact hmarks

theorem marks_operand {keyword : Located Text} {operands : List (Located Operand)}
    (h : read t = .ok (.instruction keyword operands)) : ∀ operand ∈ operands, ∃ piece,
      (⟨0, t⟩ : Stretch).Marks operand.span piece ∧ operand.value.SpelledBy piece := by
  intro operand hmem
  obtain ⟨ls, hls, h⟩ := read_ok h
  obtain ⟨l, hl, hoperand⟩ := (instruction_of_ofLexemes h).2 operand hmem
  obtain ⟨piece, hmarks, hspelled⟩ := Lexeme.marks_of_mem_readAllFrom hls l hl
  obtain ⟨hspan, hof⟩ := operandOf?_ok hoperand
  exact ⟨piece, hspan ▸ hmarks, hof piece hspelled⟩

/-! ## Where reading fails -/

/-- The error is at one of the lexemes, or at their end. -/
def FailsAt (final : Span) (ls : List (Located Lexeme)) (e : Located SyntaxError) : Prop :=
  (∃ l ∈ ls, e.span = l.span) ∨ ∃ expected, e = ⟨.unexpected none expected, final⟩

theorem FailsAt.cons {e : Located SyntaxError} (h : FailsAt final ls e) (l : Located Lexeme) :
    FailsAt final (l :: ls) e :=
  h.imp_left fun ⟨l', hl', hspan⟩ => ⟨l', List.mem_cons_of_mem _ hl', hspan⟩

theorem failsAt_unexpected (final : Span) (rest : List (Located Lexeme))
    (expected : List Expectation) : FailsAt final rest (unexpected final rest expected) := by
  cases rest with
  | nil => exact .inr ⟨expected, rfl⟩
  | cons l rest => exact .inl ⟨l, List.mem_cons_self, rfl⟩

theorem furtherOperands_error {e : Located SyntaxError}
    (h : furtherOperands final ls = .error e) : FailsAt final ls e := by
  fun_induction furtherOperands final ls with
  | case1 => cases h
  | case2 span l rest operand hoperand ih => exact ((ih (map_eq_error.1 h)).cons l).cons _
  | case3 =>
    cases h
    exact (failsAt_unexpected ..).cons _
  | case4 =>
    cases h
    exact (failsAt_unexpected final [] []).cons _
  | case5 =>
    cases h
    exact failsAt_unexpected ..

theorem operands_error {e : Located SyntaxError}
    (h : Statement.operands final ls = .error e) : FailsAt final ls e := by
  unfold Statement.operands at h
  split at h
  · cases h
  · split at h
    · exact (furtherOperands_error (map_eq_error.1 h)).cons _
    · cases h
      exact failsAt_unexpected ..

theorem repetitions_error {e : Located SyntaxError}
    (h : repetitions final ls = .error e) : FailsAt final ls e := by
  unfold repetitions at h
  split at h
  · cases h
  · refine .cons ?_ _
    split at h
    · refine .cons ?_ _
      split at h
      · refine .cons ?_ _
        split at h
        · cases h
        · cases h
          exact failsAt_unexpected ..
      · cases h
        exact failsAt_unexpected ..
    · cases h
      exact failsAt_unexpected ..
  · cases h
    exact failsAt_unexpected ..

theorem ofLexemes_error {e : Located SyntaxError} (h : ofLexemes final ls = .error e) :
    FailsAt final ls e := by
  unfold ofLexemes at h
  split at h
  · refine .cons ?_ _
    split at h
    · exact (repetitions_error (map_eq_error.1 h)).cons _
    · cases h
      exact failsAt_unexpected ..
  · exact (operands_error (map_eq_error.1 h)).cons _
  · cases h
    exact failsAt_unexpected ..

/-- The span of the end, turned around, marks what stands behind the last lexeme. -/
theorem marks_endSpan (ht : '#' ∉ t) (h : Lexeme.readAllFrom 0 t = .ok ls) :
    ∃ gaps, (∀ c ∈ gaps, Lexeme.isGap c = true) ∧ (⟨0, t⟩ : Stretch).Marks
      ⟨(endSpan (Text.byteLength t) ls).stop, (endSpan (Text.byteLength t) ls).start⟩ gaps := by
  unfold endSpan
  cases hlast : ls.getLast? with
  | none =>
    have hend := Stretch.within_append_right 0 t []
    rw [List.append_nil, Nat.zero_add] at hend
    exact ⟨[], by simp, hend.marks⟩
  | some last =>
    have hbehind := Lexeme.marks_behind_readAllFrom ht h hlast
    rw [Nat.zero_add] at hbehind
    exact hbehind

/-- **An error in a text points to a piece of it**, but for one at its end, which points back over
what stands behind the last lexeme. -/
theorem marks_of_read_error {e : Located SyntaxError} (ht : '#' ∉ t) (h : read t = .error e) :
    (∃ piece, (⟨0, t⟩ : Stretch).Marks e.span piece) ∨
      ∃ expected gaps, e.value = .unexpected none expected ∧
        (∀ c ∈ gaps, Lexeme.isGap c = true) ∧
        (⟨0, t⟩ : Stretch).Marks ⟨e.span.stop, e.span.start⟩ gaps := by
  unfold read at h
  split at h
  · rename_i c hc
    cases h
    exact .inl ⟨_, Lexeme.marks_of_readAllFrom_error hc⟩
  · rename_i ls hls
    obtain ⟨l, hl, hspan⟩ | ⟨expected, rfl⟩ := ofLexemes_error h
    · obtain ⟨piece, hmarks, -⟩ := Lexeme.marks_of_mem_readAllFrom hls l hl
      exact .inl ⟨piece, hspan ▸ hmarks⟩
    · obtain ⟨gaps, hgaps, hmarks⟩ := marks_endSpan ht hls
      exact .inr ⟨expected, gaps, rfl, hgaps, hmarks⟩

end Statement

end QuantumDiagram

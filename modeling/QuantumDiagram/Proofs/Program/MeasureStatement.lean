import QuantumDiagram.Proofs.Program.GateStatement

/-!
# Statements that measure

`Pending.Measures` is what a statement is that is read as a `measure` of some names. It is never a
parallel line, since a bar in a text is a lexeme of its own, which no instruction has
(`Pending.Measures.plain`). Written with identifiers between commas it is read back, whatever they
are (`Pending.measures_of_written`); canonical names are identifiers (`Channel.matches_text`).
-/

namespace QuantumDiagram

/-! ## Lexemes -/

namespace Lexeme

/-- An identifier is cut off in front of a character that it cannot go on with. -/
theorem isLongest_identifier {n t : Text} (hn : (identifier n).Matches n)
    (ht : ∀ c ∈ t.head?, isIdentifierRest c = false) : IsLongest (.identifier n) n (n ++ t) := by
  refine first?_eq_some.1 ?_
  cases hn with
  | @identifier c rest start rest_ok =>
    have htail : t.takeWhile isIdentifierRest = [] := by
      cases t with
      | nil => rfl
      | cons d t => exact List.takeWhile_cons_of_neg (by simp [ht d rfl])
    have htake : (rest ++ t).takeWhile isIdentifierRest = rest := by
      rw [List.takeWhile_append_of_pos rest_ok, htail, List.append_nil]
    obtain ⟨l, hl, -⟩ | ⟨-, -, hfirst⟩ | ⟨-, hnot, -⟩ := first?_cons c (rest ++ t)
    · cases hl.symm.trans (ofChar?_of_start start)
    · rwa [htake] at hfirst
    · cases hnot.symm.trans start

/-- Names with commas between them are cut into operands. -/
theorem exists_cuts_joinWith {names : List Text} (hne : names ≠ [])
    (hnames : ∀ n ∈ names, (identifier n).Matches n) (offset : Nat) :
    ∃ ls operands, Cuts offset (Text.joinWith ", " names) ls [] ∧
      Statement.AreOperands operands ls ∧ operands.map Located.value = names.map .name := by
  induction names generalizing offset with
  | nil => exact absurd rfl hne
  | cons n names ih =>
    obtain ⟨hn, hnames⟩ := List.forall_mem_cons.1 hnames
    cases names with
    | nil =>
      have hcut : Cuts offset (n ++ []) _ [] := .lexeme (isLongest_identifier hn (by simp)) .done
      rw [List.append_nil] at hcut
      refine ⟨_, [⟨.name n, Span.ofText offset n⟩], ?_, .one .name, rfl⟩
      rwa [Text.joinWith, List.intercalate_singleton]
    | cons m names =>
      obtain ⟨ls, operands, hcut, hoperands, hvalues⟩ := ih (by simp) hnames
        (offset + Text.byteLength n + Text.byteLength [','] + ' '.utf8Size)
      have hcomma : IsLongest .comma [','] ([','] ++ ' ' :: Text.joinWith ", " (m :: names)) :=
        first?_eq_some.1 rfl
      have hlist := Cuts.lexeme (isLongest_identifier hn (by simp; decide))
        (.lexeme hcomma (.gap (by decide) hcut))
      rw [Text.joinWith_cons_cons, List.append_assoc]
      exact ⟨_, ⟨.name n, Span.ofText offset n⟩ :: operands, hlist, .more .name hoperands,
        congrArg (Operand.name n :: ·) hvalues⟩

/-- In a text that is cut to its end, every bar is a lexeme. -/
theorem Cuts.exists_pipe {offset : Nat} {t : Text} {ls : List (Located Lexeme)}
    (h : Cuts offset t ls []) (hmark : '#' ∉ t) (hbar : '|' ∈ t) : ∃ l ∈ ls, l.value = .pipe := by
  generalize hend : ([] : Text) = rest at h
  induction h with
  | done =>
    subst hend
    cases hbar
  | gap blank _ ih =>
    obtain rfl | hbar := List.mem_cons.1 hbar
    · cases blank
    · exact ih (fun h => hmark (.tail _ h)) hbar hend
  | comment => exact absurd List.mem_cons_self hmark
  | lexeme longest _ ih =>
    obtain hbar | hbar := List.mem_append.1 hbar
    · refine ⟨_, List.mem_cons_self, ?_⟩
      cases longest.matches_l with
      | pipe => rfl
      | identifier start rest_ok =>
        obtain rfl | hbar := List.mem_cons.1 hbar
        · cases start
        · cases rest_ok _ hbar
      | number form =>
        obtain hdigit | hmem := form.mem hbar
        · cases hdigit
        · simp at hmem
      | _ => simp at hbar
    · obtain ⟨l, hl, hpipe⟩ := ih (fun h => hmark (List.mem_append_right _ h)) hbar hend
      exact ⟨l, List.mem_cons_of_mem _ hl, hpipe⟩

end Lexeme

namespace Statement

theorem AreOperands.ne_pipe {operands : List (Located Operand)} {ls : List (Located Lexeme)}
    (h : AreOperands operands ls) : ∀ l ∈ ls, l.value ≠ .pipe := by
  induction h with
  | one single => cases single <;> simp
  | more first _ ih => cases first <;> simpa using ih

/-- An instruction has no bar in it. -/
theorem bar_not_mem_of_instruction? {t keyword : Text} {values : List Operand} (hmark : '#' ∉ t)
    (h : instruction? t = some (keyword, values)) : '|' ∉ t := by
  intro hbar
  obtain ⟨ls, span, operands, hls, hspells, -⟩ := instruction?_eq_some.1 h
  obtain ⟨l, hl, hpipe⟩ := (Lexeme.readAllFrom_eq_ok.1 hls).exists_pipe hmark hbar
  cases hspells with
  | keyword =>
    obtain rfl := List.mem_singleton.1 hl
    cases hpipe
  | instruction follow =>
    obtain rfl | hl := List.mem_cons.1 hl
    · cases hpipe
    · exact follow.ne_pipe l hl hpipe

end Statement

/-! ## Reading a `measure` -/

/-- The statement is read as `measure`, in small letters or capitals, with the names as its
operands. -/
structure Pending.Measures (p : Pending) (names : List Text) : Prop where
  mark : '#' ∉ p.text
  read : ∃ keyword, Statement.instruction? p.text = some (keyword, names.map .name) ∧
    Text.lower keyword = Gate.measure.name

namespace Pending

variable {p : Pending} {names : List Text}

theorem Measures.leadingWord (h : p.Measures names) :
    Draft.leadingWord p = Gate.measure.name := by
  obtain ⟨keyword, hread, hkeyword⟩ := h.read
  rw [Draft.leadingWord, Statement.firstWord_of_instruction? h.mark hread, hkeyword]

theorem Measures.isGateStatement (h : p.Measures names) : Text.isGateStatement p.text = true := by
  have hword : Text.lower (Text.firstWord p.text) = Gate.measure.name := h.leadingWord
  rw [Text.isGateStatement, hword]
  decide

/-- A `measure` is neither blank nor a parallel line. -/
theorem Measures.plain (h : p.Measures names) :
    Text.isBlank p.text = false ∧ p.isParallel = false := by
  have hword : Text.lower (Text.firstWord p.text) = Gate.measure.name := h.leadingWord
  rw [Text.firstWord_eq] at hword
  constructor
  · refine Bool.eq_false_iff.2 fun hblank => ?_
    have hnone : Text.trimStart p.text = [] :=
      List.dropWhile_eq_nil_iff.2 (List.all_eq_true.1 hblank)
    rw [hnone] at hword
    cases hword
  · obtain ⟨keyword, hread, -⟩ := h.read
    have hbar := Statement.bar_not_mem_of_instruction? h.mark hread
    have hbrace : (Text.trimStart p.text).head? ≠ some '\x7b' := fun hhead => by
      obtain ⟨rest, hrest⟩ := List.head?_eq_some_iff.1 hhead
      rw [hrest] at hword
      cases hword
    simp [isParallel, hbar, hbrace]

/-- The keyword, and the names with commas between them. -/
def measureText (names : List Text) : Text :=
  "measure".toList ++ if names = [] then [] else ' ' :: Text.joinWith ", " names

theorem mark_not_mem_measureText (hnames : ∀ n ∈ names, (Lexeme.identifier n).Matches n) :
    '#' ∉ measureText names := by
  intro hmem
  obtain hmem | hmem := List.mem_append.1 hmem
  · exact absurd hmem (by decide)
  · split at hmem
    · cases hmem
    · obtain hmem | hmem := List.mem_cons.1 hmem
      · cases hmem
      · obtain hmem | ⟨n, hn, hmem⟩ := Text.mem_of_mem_joinWith hmem
        · exact absurd hmem (by decide)
        · exact ((hnames n hn).visible hmem).2 rfl

theorem instruction?_measureText (hnames : ∀ n ∈ names, (Lexeme.identifier n).Matches n) :
    Statement.instruction? (measureText names) = some ("measure".toList, names.map .name) := by
  have hkeyword : (Lexeme.identifier "measure".toList).Matches "measure".toList :=
    .identifier rfl (List.all_eq_true.1 rfl)
  refine Statement.instruction?_eq_some.2 ?_
  unfold measureText
  by_cases hne : names = []
  · subst hne
    have hcut : Lexeme.Cuts 0 ("measure".toList ++ []) _ [] :=
      .lexeme (Lexeme.isLongest_identifier hkeyword (by simp)) .done
    exact ⟨_, _, [], Lexeme.readAllFrom_eq_ok.2 hcut, .keyword, rfl⟩
  · obtain ⟨ls, operands, hcut, hoperands, hvalues⟩ := Lexeme.exists_cuts_joinWith hne hnames
      (0 + Text.byteLength "measure" + ' '.utf8Size)
    have hcut := Lexeme.Cuts.lexeme (Lexeme.isLongest_identifier hkeyword
      (t := ' ' :: Text.joinWith ", " names) (by simp; decide)) (.gap (by decide) hcut)
    rw [if_neg hne]
    exact ⟨_, _, operands, Lexeme.readAllFrom_eq_ok.2 hcut, .instruction hoperands, hvalues⟩

/-- Written with identifiers as operands, and with gaps around it or not, a `measure` is read as
one. -/
theorem measures_of_written (hnames : ∀ n ∈ names, (Lexeme.identifier n).Matches n)
    (hp : (measureText names).Pads p.text) : p.Measures names := by
  have hmark := mark_not_mem_measureText hnames
  refine ⟨fun hmem => ?_, "measure".toList, ?_, by decide⟩
  · obtain ⟨before, behind, htext, hbefore, hbehind⟩ := hp
    rw [htext, List.mem_append, List.mem_append] at hmem
    obtain hmem | hmem | hmem := hmem
    · cases hbefore _ hmem
    · exact hmark hmem
    · cases hbehind _ hmem
  · rw [Statement.instruction?_padded hmark hp, instruction?_measureText hnames]

end Pending

/-- A canonical name is an identifier. -/
theorem Channel.matches_text (c : Channel) : (Lexeme.identifier c.text).Matches c.text := by
  have hdigits (n : Nat) : ∀ d ∈ Decimal.natural n, Lexeme.isIdentifierRest d = true := by
    intro d hd
    have hdigit := List.all_eq_true.1 (Decimal.all_isDigit_natural n) d hd
    simp [Lexeme.isIdentifierRest, Char.isAlphanum, hdigit]
  cases c with
  | qubit i => exact .identifier rfl (hdigits i)
  | bit i => exact .identifier rfl (hdigits i)

end QuantumDiagram

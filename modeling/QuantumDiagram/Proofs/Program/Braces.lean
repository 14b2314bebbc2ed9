import QuantumDiagram.Proofs.Program.LineEnds
import QuantumDiagram.Proofs.Program.WrittenLine

/-!
# Braces around a block

The braces around a block are only for the eye: a line of statements does the same without braces
and with any number of matched pairs of them, whatever spaces there are between the braces
(`Circuit.sameOutcome_braced`). The statements of all these lines are the same but for the gaps
around them (`Line.Lists.statements_ok`), also if there is one only, which is then a parallel line
with braces and a plain one without. Statements that differ in gaps act alike
(`Pending.Holds.actsAlike`).
-/

namespace QuantumDiagram

/-! ## Statements with other gaps -/

/-- The statement is `s` with gaps around it, on a line with the given number. -/
structure Pending.Holds (number : Nat) (indented : Bool) (s : Text) (p : Pending) : Prop where
  pads : s.Pads p.text
  comments : '#' ∉ s
  number : p.line.number = number
  indented : p.indented = indented

/-- **The gaps around a statement do not matter** for what it does. -/
theorem Pending.Holds.actsAlike {p q : Pending} {number : Nat} {indented : Bool} {s : Text}
    (hp : p.Holds number indented s) (hq : q.Holds number indented s) :
    p.ActsAlike ParseError.SameLine q := by
  have hline : q.line.number = p.line.number := hq.number.trans hp.number.symm
  have hlocated {α : Type} (x y : Located α) (h : x.SameValue y) :
      x.Alike ParseError.SameLine p q y := ⟨h, fun _ => ⟨rfl, hline⟩⟩
  have hread := Statement.read_padded hp.comments hp.pads hq.pads
  exact {
    leadingWord := by
      rw [Draft.leadingWord, Draft.leadingWord, Text.firstWord_padded hp.pads,
        Text.firstWord_padded hq.pads]
    indented := hq.indented.trans hp.indented.symm
    spanned := fun _ => ⟨rfl, hline⟩
    read := hread.imp hlocated fun _ _ hpairs => hpairs.imp hlocated }

/-! ## Lines with the same statements -/

namespace Line

/-- What opens a block and what closes it: nothing, or matched braces with gaps between them. -/
inductive Bracing : Text → Text → Prop
  | bare {gaps : Text} : (∀ c ∈ gaps, Lexeme.isGap c = true) → Bracing [] gaps
  | pair {opening closing before behind : Text} : Bracing opening closing →
    (∀ c ∈ before, Lexeme.isGap c = true) → (∀ c ∈ behind, Lexeme.isGap c = true) →
    Bracing ('\x7b' :: (before ++ opening)) (closing ++ '\x7d' :: behind)

/-- The line `t` lists the statements: they stand between bars, and braces may be around them all.
They are trimmed, and all but the first one may be blank. -/
structure Lists (indent : Text) (statements : List Text) (t : Text) : Prop where
  text : ∃ opening closing, Bracing opening closing ∧
    code t = indent ++ (opening ++ (Text.joinWith " | " statements ++ closing))
  indentation : ∀ c ∈ indent, c = ' ' ∨ c = '\t'
  first : ∃ s ∈ statements.head?, Text.isBlank s = false
  trimmed : ∀ s ∈ statements, Text.trim s = s
  plain : ∀ s ∈ statements, ∀ c ∈ s, c ∉ "\n|\x7b\x7d#".toList

theorem Bracing.cases_braces {opening closing : Text} (h : Bracing opening closing) :
    opening = [] ∧ (∀ c ∈ closing, Lexeme.isGap c = true) ∨
      ∃ braces gaps outside, opening = '\x7b' :: braces ∧
        (∀ c ∈ braces, c = '\x7b' ∨ Text.isBlankChar c = true) ∧
        closing = gaps ++ '\x7d' :: outside ∧ (∀ c ∈ gaps, Lexeme.isGap c = true) ∧
        '|' ∉ outside := by
  induction h with
  | bare hgaps => exact .inl ⟨rfl, hgaps⟩
  | @pair opening closing before behind _ hbefore hbehind ih =>
    have hblank : ∀ c ∈ before, c = '\x7b' ∨ Text.isBlankChar c = true :=
      fun c hc => .inr (Lexeme.isBlankChar_of_isGap (hbefore c hc))
    have hbar : '|' ∉ behind := fun hmem => by cases hbehind _ hmem
    refine .inr ?_
    obtain ⟨rfl, hgaps⟩ | ⟨braces, gaps, outside, rfl, hbraces, rfl, hgaps, houtside⟩ := ih
    · exact ⟨before ++ [], closing, behind, rfl, by simpa using hblank, rfl, hgaps, hbar⟩
    · refine ⟨_, gaps, outside ++ '\x7d' :: behind, rfl, ?_, by simp, hgaps, ?_⟩
      · exact List.forall_mem_append.2 ⟨hblank, List.forall_mem_cons.2 ⟨.inl rfl, hbraces⟩⟩
      · simp [houtside, hbar]

/-- With single bars between them, the statements have gaps around them. -/
theorem exists_parts {gaps : Text} (hgaps : ∀ c ∈ gaps, Lexeme.isGap c = true)
    {statements : List Text} (h : statements ≠ []) :
    ∃ parts, Text.joinWith " | " statements ++ gaps = Text.joinWith "|" parts ∧
      List.Forall₂ Text.Pads statements parts := by
  induction statements with
  | nil => exact absurd rfl h
  | cons s statements ih =>
    have hspace : ∀ c ∈ " ".toList, Lexeme.isGap c = true := by simp [Lexeme.isGap]
    cases statements with
    | nil =>
      exact ⟨[s ++ gaps], by simp [Text.joinWith],
        .cons ((Text.Pads.refl s).append_right hgaps) .nil⟩
    | cons next rest =>
      obtain ⟨parts, hjoin, hpads⟩ := ih (by simp)
      cases hpads with
      | @cons _ part _ parts hpart hparts =>
        refine ⟨(s ++ " ".toList) :: (" ".toList ++ part) :: parts, ?_,
          .cons ((Text.Pads.refl s).append_right hspace) (.cons (hpart.append_left hspace) hparts)⟩
        have hhead := Pending.joinWith_modifyHead "|" " " (List.cons_ne_nil part parts)
        rw [List.modifyHead_cons, ← hjoin] at hhead
        rw [Text.joinWith_cons_cons, Text.joinWith_cons_cons, hhead]
        simp

theorem exists_joinWith_cons (separator : Text) (c : Char) (s : Text) (rest : List Text) :
    ∃ more, Text.joinWith separator ((c :: s) :: rest) = c :: more := by
  cases rest with
  | nil => exact ⟨s, by simp [Text.joinWith]⟩
  | cons t rest => exact ⟨_, Text.joinWith_cons_cons ..⟩

end Line

/-- The statements of a parallel line are those that its parts hold. -/
theorem Pending.Written.holds {p : Pending} {opening closing : Text} {parts statements : List Text}
    (h : Written opening parts closing p.text)
    (hpads : List.Forall₂ Text.Pads statements (parts.modifyHead (cutFirst opening)))
    (hcomments : ∀ s ∈ statements, '#' ∉ s) :
    ∃ ps, p.statements = .ok ps ∧ List.Forall₂ (Holds p.line.number p.indented)
      (statements.filter (! Text.isBlank ·)) ps := by
  obtain ⟨ps, hps, htexts⟩ := h.parts_ok
  refine ⟨ps, by rw [Pending.statements, if_pos h.isParallel, hps], ?_⟩
  have hkept : List.Forall₂ Text.Pads (statements.filter (! Text.isBlank ·))
      (ps.map Pending.text) := by
    rw [htexts]
    refine List.rel_filter (fun s t hst => ?_) hpads
    show (! Text.isBlank s) = true ↔ (! Text.isBlank t) = true
    rw [hst.isBlank]
  have hcomments : ∀ s ∈ statements.filter (! Text.isBlank ·), '#' ∉ s :=
    fun s hs => hcomments s (List.mem_filter.1 hs).1
  have hline : ∀ q ∈ ps, q.line.number = p.line.number ∧ q.indented = p.indented := fun q hq => by
    obtain ⟨_, -, rfl⟩ := of_mem_parts hps hq
    exact ⟨rfl, rfl⟩
  have hplain := (List.forall₂_and_left _ _).2 ⟨hcomments, List.forall₂_map_right_iff.1 hkept⟩
  have hplaced := (List.forall₂_and_left _ _).2 ⟨hline, hplain.flip⟩
  refine hplaced.flip.imp fun s q h => ?_
  obtain ⟨⟨hnumber, hindented⟩, hcomment, hpad⟩ := h
  exact ⟨hpad, hcomment, hnumber, hindented⟩

namespace Line.Lists

variable {indent t : Text} {statements : List Text}

theorem trimStart_eq (h : Lists indent statements t) {s : Text} (hs : s ∈ statements) :
    Text.trimStart s = s := by
  rw [← h.trimmed s hs, Text.trimStart_trim]

theorem exists_first (h : Lists indent statements t) : ∃ c s rest, statements = (c :: s) :: rest ∧
    Text.isBlankChar c = false := by
  obtain ⟨s, hs, hblank⟩ := h.first
  obtain ⟨rest, rfl⟩ := List.head?_eq_some_iff.1 hs
  cases s with
  | nil => cases hblank
  | cons c s =>
    have hstart := h.trimStart_eq List.mem_cons_self
    exact ⟨c, s, rest, rfl, Text.isBlankChar_of_trimStart hstart⟩

theorem isIndented (h : Lists indent statements t) (number offset : Nat) :
    Line.isIndented ⟨number, offset, dropReturn t⟩ = ! indent.isEmpty := by
  obtain ⟨opening, closing, hbracing, htext⟩ := h.text
  have hhead {c : Char} {rest : Text} (hcode : code t = c :: rest) :
      (dropReturn t).head? = some c := by
    obtain ⟨more, hmore⟩ := List.takeWhile_prefix (l := dropReturn t) (· ≠ '#')
    rw [show List.takeWhile _ (dropReturn t) = c :: rest from hcode] at hmore
    rw [← hmore]
    rfl
  cases indent with
  | cons c indent =>
    rw [Line.isIndented, hhead htext]
    obtain rfl | rfl := h.indentation c List.mem_cons_self <;> rfl
  | nil =>
    obtain ⟨c, s, rest, rfl, hc⟩ := h.exists_first
    obtain ⟨rfl, -⟩ | ⟨braces, _, _, rfl, -⟩ := hbracing.cases_braces
    · obtain ⟨more, hmore⟩ := exists_joinWith_cons " | " c s rest
      rw [hmore] at htext
      have hspace : c ≠ ' ' := by
        rintro rfl
        cases hc
      have htab : c ≠ '\t' := by
        rintro rfl
        cases hc
      rw [Line.isIndented, hhead htext]
      simp [hspace, htab]
    · rw [Line.isIndented, hhead htext]
      rfl

theorem not_mem (h : Lists indent statements t) {c : Char} (hc : c ∈ "\n|\x7b\x7d#".toList) :
    ∀ s ∈ statements, c ∉ s := fun s hs hmem => h.plain s hs c hmem hc

theorem isGap_indentation (h : Lists indent statements t) :
    ∀ c ∈ indent, Lexeme.isGap c = true := fun c hc => by
  obtain rfl | rfl := h.indentation c hc <;> rfl

/-- Gaps around the statements bring neither bars nor braces. -/
theorem plain_parts (h : Lists indent statements t) {parts : List Text}
    (hpads : List.Forall₂ Text.Pads statements parts) :
    ∀ part ∈ parts, '|' ∉ part ∧ Pending.hasBrace part = false := fun part hpart => by
  obtain ⟨s, hs, hpad⟩ := Text.Pads.exists_of_mem hpads hpart
  have hbar := hpad.not_mem (h.not_mem (c := '|') (by decide) s hs) (by decide)
  have hopen := hpad.not_mem (h.not_mem (c := '\x7b') (by decide) s hs) (by decide)
  have hclose := hpad.not_mem (h.not_mem (c := '\x7d') (by decide) s hs) (by decide)
  exact ⟨hbar, Pending.hasBrace_eq_false.2 ⟨hopen, hclose⟩⟩

/-- Without braces, a line with more than one statement is a parallel line. -/
theorem written_of_bare (h : Lists indent statements t) {gaps : Text}
    (hgaps : ∀ c ∈ gaps, Lexeme.isGap c = true)
    (htext : code t = indent ++ (Text.joinWith " | " statements ++ gaps)) :
    (∃ s, statements = [s] ∧ s.Pads (code t)) ∨
      ∃ parts, Pending.Written [] parts [] (code t) ∧ List.Forall₂ Text.Pads statements parts := by
  obtain ⟨c, s, rest, rfl, -⟩ := h.exists_first
  obtain ⟨parts, hjoin, hpads⟩ := exists_parts hgaps (List.cons_ne_nil (c :: s) rest)
  cases hpads with
  | @cons _ part _ parts hpart hparts =>
    have hpart := hpart.append_left h.isGap_indentation
    rw [hjoin, ← Pending.joinWith_modifyHead "|" indent (List.cons_ne_nil part parts),
      List.modifyHead_cons] at htext
    cases hparts with
    | nil =>
      rw [Text.joinWith, List.intercalate_singleton] at htext
      exact .inl ⟨_, rfl, htext ▸ hpart⟩
    | cons hnext hparts =>
      have hpads := List.Forall₂.cons hpart (.cons hnext hparts)
      exact .inr ⟨_, ⟨by simpa using htext, .inl rfl, .inl rfl, h.plain_parts hpads,
        .inl (by simp)⟩, hpads⟩

/-- In braces, a line is a parallel line. -/
theorem written_of_braces (h : Lists indent statements t) {braces gaps outside : Text}
    (hbraces : ∀ c ∈ braces, c = '\x7b' ∨ Text.isBlankChar c = true)
    (hgaps : ∀ c ∈ gaps, Lexeme.isGap c = true) (houtside : '|' ∉ outside)
    (htext : code t = indent ++ ('\x7b' :: braces ++
      (Text.joinWith " | " statements ++ (gaps ++ '\x7d' :: outside)))) :
    ∃ parts, Pending.Written (indent ++ '\x7b' :: braces) parts ('\x7d' :: outside) (code t) ∧
      List.Forall₂ Text.Pads statements
        (parts.modifyHead (Pending.cutFirst (indent ++ '\x7b' :: braces))) := by
  obtain ⟨c, s, rest, rfl, -⟩ := h.exists_first
  obtain ⟨parts, hjoin, hpads⟩ := exists_parts hgaps (List.cons_ne_nil (c :: s) rest)
  have hbar : '|' ∉ indent := fun hmem => by cases h.isGap_indentation _ hmem
  have hbrace : '\x7b' ∉ indent := fun hmem => by cases h.isGap_indentation _ hmem
  have hstart : Text.trimStart (indent ++ '\x7b' :: braces) = '\x7b' :: braces :=
    Text.trimStart_blanks (fun c hc => Lexeme.isBlankChar_of_isGap (h.isGap_indentation c hc)) _
  refine ⟨parts, ⟨?_, .inr ⟨indent, braces, rfl, hbar, hbrace, hbraces⟩,
    .inr ⟨outside, rfl, houtside⟩, h.plain_parts hpads, .inr ⟨?_, by rw [hstart]; rfl⟩⟩, ?_⟩
  · rw [htext, ← hjoin]
    simp
  · rintro rfl
    cases hpads
  · cases hpads with
    | cons hpart hparts =>
      refine .cons ?_ hparts
      rw [Pending.cutFirst, if_neg (by simp)]
      exact hpart.trimStart (h.trimStart_eq List.mem_cons_self)

/-- A single statement without braces is a plain line. -/
theorem isParallel_of_bare {s : Text} (h : Lists indent [s] t) (hpads : s.Pads (code t))
    (number offset : Nat) :
    (Pending.ofLine ⟨number, offset, dropReturn t⟩).isParallel = false := by
  obtain ⟨c, _, _, ⟨⟩, hc⟩ := h.exists_first
  obtain ⟨behind, hstart, -⟩ := hpads.exists_trimStart hc
  have hbar : '|' ∉ code t := (h.plain_parts (.cons hpads .nil) _ List.mem_cons_self).1
  have hhead : (Text.trimStart (code t)).head? ≠ some '\x7b' := by
    rw [hstart]
    rintro ⟨rfl⟩
    exact h.not_mem (by decide) _ List.mem_cons_self List.mem_cons_self
  have htext : (Pending.ofLine ⟨number, offset, dropReturn t⟩).text = code t := rfl
  simp [Pending.isParallel, htext, hbar, hhead]

/-- **The statements of the line** are those it lists, but for blank ones, with gaps around them. -/
theorem statements_ok (h : Lists indent statements t) (number offset : Nat) :
    ∃ ps, (Pending.ofLine ⟨number, offset, dropReturn t⟩).statements = .ok ps ∧
      List.Forall₂ (Pending.Holds number (! indent.isEmpty)) (statements.filter (! Text.isBlank ·))
        ps := by
  let p := Pending.ofLine ⟨number, offset, dropReturn t⟩
  have hcomments := h.not_mem (c := '#') (by decide)
  have hindented := h.isIndented number offset
  obtain ⟨opening, closing, hbracing, htext⟩ := h.text
  obtain ⟨rfl, hgaps⟩ | ⟨braces, gaps, outside, rfl, hbraces, rfl, hgaps, houtside⟩ :=
    hbracing.cases_braces
  · obtain ⟨s, rfl, hpads⟩ | ⟨parts, hwritten, hpads⟩ := h.written_of_bare hgaps htext
    · obtain ⟨_, ⟨⟩, hblank⟩ := h.first
      have hblank' : Text.isBlank p.text = false := by
        rw [← hblank]
        exact hpads.isBlank
      refine ⟨[p], ?_, ?_⟩
      · rw [Pending.statements, h.isParallel_of_bare hpads number offset, hblank']
        rfl
      · rw [List.filter_cons_of_pos (by rw [hblank]; rfl)]
        exact .cons ⟨hpads, hcomments s List.mem_cons_self, rfl, hindented⟩ .nil
    · rw [← Pending.modifyHead_cutFirst_nil parts] at hpads
      rw [← hindented]
      exact Pending.Written.holds (p := p) hwritten hpads hcomments
  · obtain ⟨parts, hwritten, hpads⟩ := h.written_of_braces hbraces hgaps houtside htext
    rw [← hindented]
    exact Pending.Written.holds (p := p) hwritten hpads hcomments

end Line.Lists

/-! ## Programs with such lines -/

theorem forall₂_of_forall₂ {α β γ : Type} {R : α → β → Prop} {S : α → γ → Prop}
    {T : β → γ → Prop} (h : ∀ a b c, R a b → S a c → T b c) {as : List α} {bs : List β}
    {cs : List γ} (hbs : List.Forall₂ R as bs) (hcs : List.Forall₂ S as cs) :
    List.Forall₂ T bs cs := by
  induction hbs generalizing cs with
  | nil =>
    cases hcs
    exact .nil
  | cons hb _ ih =>
    cases hcs with
    | cons hc hcs => exact .cons (h _ _ _ hb hc) (ih hcs)

/-- **Lines that list the same statements do the same**, whatever braces they have. -/
theorem Draft.Alike.executeLine_lists {d e : Draft} {indent t u : Text} {statements : List Text}
    (h : d.Alike ParseError.SameLine e) (ht : Line.Lists indent statements t)
    (hu : Line.Lists indent statements u) (number offset : Nat) :
    SameOutcome ParseError.SameLine (Draft.Alike ParseError.SameLine)
      (d.executeLine ⟨number, offset, Line.dropReturn t⟩)
      (e.executeLine ⟨number, offset, Line.dropReturn u⟩) := by
  obtain ⟨ps, hps, hheld⟩ := ht.statements_ok number offset
  obtain ⟨qs, hqs, hheld'⟩ := hu.statements_ok number offset
  refine h.executeLine_of_statements ?_
  rw [hps, hqs]
  exact .ok (forall₂_of_forall₂ (fun _ _ _ hp hq => hp.actsAlike hq) hheld hheld')

namespace Circuit

variable {E : ParseError → ParseError → Prop} {source source' : Text}

/-- Programs that begin with the same lines, the declaration among them, have the same outcome if
the lines behind them do. -/
theorem sameOutcome_behind {lines rest rest' : List Line}
    (hold : Line.ofSource source = lines ++ rest) (hnew : Line.ofSource source' = lines ++ rest')
    (hdeclared : ∃ l ∈ lines, Declaration.isDeclared (Text.words l.uncommented.text) = true)
    (hrefl : ∀ e, E e e)
    (hrest : List.Forall₂ (fun l l' => ∀ d e : Draft, d.Alike E e →
      SameOutcome E (Draft.Alike E) (d.executeLine l) (e.executeLine l')) rest rest') :
    SameOutcome E (· = ·) (ofProgram source) (ofProgram source') := by
  obtain ⟨qubits, left, -, hfind⟩ | ⟨e, -, hfind⟩ := Declaration.find_of_declared hdeclared
  · rw [ofProgram_eq_executeLines ((congrArg _ hold).trans (hfind _ _)),
      ofProgram_eq_executeLines ((congrArg _ hnew).trans (hfind _ _))]
    refine SameOutcome.bind (R := Draft.Alike E) ?_ fun _ _ h => h.finish
    refine SameOutcome.foldlM (P := fun l l' => ∀ d e : Draft, d.Alike E e →
      SameOutcome E (Draft.Alike E) (d.executeLine l) (e.executeLine l')) ?_
      (fun _ _ _ _ hde hl => hl _ _ hde) (.of_opened rfl)
    refine List.rel_append (List.forall₂_same.2 fun l _ d e hde => ?_) hrest
    exact hde.executeLine ⟨rfl, rfl, fun _ _ => hrefl _⟩
  · rw [ofProgram_of_find_error ((congrArg _ hold).trans (hfind _ _)),
      ofProgram_of_find_error ((congrArg _ hnew).trans (hfind _ _))]
    exact .error (hrefl e)

variable {indent t u : Text} {statements before behind : List Text}

/-- **Braces around a block make no difference.** Behind the declaration, a line does the same as
any other line with the same statements and the same indentation, whether one of them is without
braces or has more of them than the other: the circuit is the same, or an error has the same cause
and the same line. -/
theorem sameOutcome_braced (hsource : source.splitOn '\n' = before ++ t :: behind)
    (hdeclared : ∃ l ∈ before, Declaration.isDeclared (Text.words (Line.code l)) = true)
    (ht : Line.Lists indent statements t) (hu : Line.Lists indent statements u)
    (hfeed : '\n' ∉ u) :
    SameOutcome ParseError.SameLine (· = ·) (ofProgram source)
      (ofProgram (Text.joinWith "\n" (before ++ u :: behind))) := by
  have hold : before ++ behind ⊆ source.splitOn '\n' := by
    rw [hsource]
    exact ((List.sublist_cons_self t behind).append_left before).subset
  obtain ⟨offset, hplaced⟩ := Line.placed_append 1 0 before
  have hlines : Line.ofSource source = Line.placed 1 0 before ++
      Line.placed (1 + before.length) offset (t :: behind) := by
    rw [Line.ofSource_eq_placed, hsource, hplaced]
  have hlines' : Line.ofSource (Text.joinWith "\n" (before ++ u :: behind)) =
      Line.placed 1 0 before ++ Line.placed (1 + before.length) offset (u :: behind) := by
    rw [Line.ofSource_eq_placed, Line.splitOn_joinWith hold hfeed, hplaced]
  refine sameOutcome_behind hlines hlines' ?_ (fun _ => ⟨rfl, rfl⟩)
    (.cons (fun d e hde => hde.executeLine_lists ht hu _ _) ?_)
  · obtain ⟨l, hl, hdeclared⟩ := hdeclared
    obtain ⟨l', hl', htext⟩ := Line.exists_mem_placed 1 0 hl
    refine ⟨l', hl', ?_⟩
    rw [Line.uncommented, htext]
    exact hdeclared
  · refine (Line.pending_placed (E := ParseError.SameLine) (fun _ _ => ⟨rfl, rfl⟩) ..).imp ?_
    exact fun l l' hl d e hde => hde.executeLine hl

/-- Three statements, of which one is blank, and a single one, each of them with two pairs of
braces. -/
theorem sameOutcome_braced_twice : ∃ m,
    let source := "qubits 2\n h q0 |  | x q1\nmeasure q0".toList
    let block := " \x7b \x7bh q0 |  | x q1 \x7d\x7d".toList
    let single := "\x7b\x7b measure q0\x7d \x7d".toList
    source.splitOn '\n' = ["qubits 2".toList] ++ " h q0 |  | x q1".toList :: ["measure q0".toList] ∧
    Line.Lists " ".toList ["h q0".toList, [], "x q1".toList] " h q0 |  | x q1".toList ∧
    Line.Lists " ".toList ["h q0".toList, [], "x q1".toList] block ∧
    Line.Lists [] ["measure q0".toList] "measure q0".toList ∧
    Line.Lists [] ["measure q0".toList] single ∧
    ofProgram source = .ok m ∧
    ofProgram (Text.joinWith "\n" (["qubits 2".toList] ++ block :: ["measure q0".toList])) = .ok m ∧
    ofProgram (Text.joinWith "\n"
      (["qubits 2".toList, " h q0 |  | x q1".toList] ++ single :: [])) = .ok m := by
  let source := "qubits 2\n h q0 |  | x q1\nmeasure q0".toList
  let block := " \x7b \x7bh q0 |  | x q1 \x7d\x7d".toList
  let single := "\x7b\x7b measure q0\x7d \x7d".toList
  have hsource : source.splitOn '\n' =
      ["qubits 2".toList] ++ " h q0 |  | x q1".toList :: ["measure q0".toList] := by decide
  have hsource' : source.splitOn '\n' =
      ["qubits 2".toList, " h q0 |  | x q1".toList] ++ "measure q0".toList :: [] := by decide
  have hdeclared : Declaration.isDeclared (Text.words (Line.code "qubits 2".toList)) = true := by
    decide
  have hnone : ∀ c ∈ ([] : Text), Lexeme.isGap c = true := by simp
  have hspace : ∀ c ∈ " ".toList, Lexeme.isGap c = true := by simp [Lexeme.isGap]
  have hbare : Line.Lists " ".toList ["h q0".toList, [], "x q1".toList]
      " h q0 |  | x q1".toList :=
    ⟨⟨_, _, .bare hnone, by decide⟩, by simp, ⟨_, rfl, by decide⟩, by decide, by simp⟩
  have hblock : Line.Lists " ".toList ["h q0".toList, [], "x q1".toList] block :=
    ⟨⟨_, _, .pair (.pair (.bare hspace) hnone hnone) hspace hnone, by decide⟩, by simp,
      ⟨_, rfl, by decide⟩, by decide, by simp⟩
  have hplain : Line.Lists [] ["measure q0".toList] "measure q0".toList :=
    ⟨⟨_, _, .bare hnone, by decide⟩, by simp, ⟨_, rfl, by decide⟩, by decide, by simp⟩
  have hsingle : Line.Lists [] ["measure q0".toList] single :=
    ⟨⟨_, _, .pair (.pair (.bare hnone) hspace hspace) hnone hnone, by decide⟩, by simp,
      ⟨_, rfl, by decide⟩, by decide, by simp⟩
  have hread : (ofProgram source).toOption.isSome = true := by decide +kernel
  obtain ⟨m, hm⟩ := Option.isSome_iff_exists.1 hread
  have hm := toOption_eq_some.1 hm
  have hsame := sameOutcome_braced hsource ⟨_, List.mem_cons_self, hdeclared⟩ hbare hblock
    (by decide)
  have hsame' := sameOutcome_braced hsource' ⟨_, List.mem_cons_self, hdeclared⟩ hplain hsingle
    (by decide)
  rw [hm] at hsame hsame'
  obtain ⟨_, hm', rfl⟩ := hsame.exists_of_ok
  obtain ⟨_, hm'', rfl⟩ := hsame'.exists_of_ok
  exact ⟨_, hsource, hbare, hblock, hplain, hsingle, hm, hm', hm''⟩

end Circuit

end QuantumDiagram

import QuantumDiagram.Proofs.Statement.Grammar
import QuantumDiagram.Proofs.Statement.Values

/-!
# Gaps around a statement

What is read of a statement, but for the places, does not depend on the gaps around it
(`Statement.read_padded`): they are read as no lexeme, they end a lexeme as the end of the
text does, and the lexemes behind them are the same at another offset. The keyword of a statement
without comments is its first word (`Statement.firstWord_of_instruction?`).
-/

namespace QuantumDiagram

/-- There are only gaps around `s`. -/
def Text.Pads (s t : Text) : Prop :=
  ∃ before behind, t = before ++ (s ++ behind) ∧ (∀ c ∈ before, Lexeme.isGap c = true) ∧
    ∀ c ∈ behind, Lexeme.isGap c = true

namespace Text

/-! ## Taking the gaps off -/

/-- The text without the gaps at its ends. -/
def strip (t : Text) : Text :=
  ((t.dropWhile Lexeme.isGap).reverse.dropWhile Lexeme.isGap).reverse

theorem pads_strip (t : Text) : (strip t).Pads t := by
  let rest := (t.dropWhile Lexeme.isGap).reverse
  refine ⟨t.takeWhile Lexeme.isGap, (rest.takeWhile Lexeme.isGap).reverse, ?_,
    List.all_eq_true.1 List.all_takeWhile, fun c hc => ?_⟩
  · have hrest : t.dropWhile Lexeme.isGap = strip t ++ (rest.takeWhile Lexeme.isGap).reverse := by
      rw [strip, ← List.reverse_append, List.takeWhile_append_dropWhile, List.reverse_reverse]
    rw [← hrest, List.takeWhile_append_dropWhile]
  · exact List.all_eq_true.1 List.all_takeWhile c (List.mem_reverse.1 hc)

theorem Pads.refl (s : Text) : s.Pads s := ⟨[], [], by simp, by simp, by simp⟩

theorem Pads.subset {s t : Text} (h : s.Pads t) : s ⊆ t := by
  obtain ⟨before, behind, rfl, -, -⟩ := h
  exact List.subset_append_of_subset_right _ (List.subset_append_left ..)

/-! ## Blanks around a text -/

variable {before behind : Text}

theorem trimStart_blanks {blanks : Text} (h : ∀ c ∈ blanks, isBlankChar c = true) (t : Text) :
    trimStart (blanks ++ t) = trimStart t :=
  List.dropWhile_append_of_pos h

theorem isBlank_blanks (hbefore : ∀ c ∈ before, isBlankChar c = true)
    (hbehind : ∀ c ∈ behind, isBlankChar c = true) (s : Text) :
    isBlank (before ++ (s ++ behind)) = isBlank s := by
  rw [isBlank, List.all_append, List.all_append, List.all_eq_true.2 hbefore,
    List.all_eq_true.2 hbehind, Bool.true_and, Bool.and_true, isBlank]

theorem Pads.blanks {s t : Text} (h : s.Pads t) : ∃ before behind, t = before ++ (s ++ behind) ∧
    (∀ c ∈ before, isBlankChar c = true) ∧ ∀ c ∈ behind, isBlankChar c = true := by
  obtain ⟨before, behind, ht, hbefore, hbehind⟩ := h
  exact ⟨before, behind, ht, fun c hc => Lexeme.isBlankChar_of_isGap (hbefore c hc),
    fun c hc => Lexeme.isBlankChar_of_isGap (hbehind c hc)⟩

theorem Pads.isBlank {s t : Text} (h : s.Pads t) : isBlank t = isBlank s := by
  obtain ⟨before, behind, rfl, hbefore, hbehind⟩ := h.blanks
  exact isBlank_blanks hbefore hbehind s

theorem isBlank_trimStart (t : Text) : isBlank (trimStart t) = isBlank t := by
  have hbefore : ∀ c ∈ t.takeWhile isBlankChar, isBlankChar c = true :=
    List.all_eq_true.1 List.all_takeWhile
  have hblanks := isBlank_blanks hbefore (List.forall_mem_nil _) (trimStart t)
  rw [List.append_nil, trimStart, List.takeWhile_append_dropWhile] at hblanks
  exact hblanks.symm

theorem isBlank_trim (t : Text) : isBlank (trim t) = isBlank t := by
  obtain ⟨before, behind, ht, hbefore, hbehind⟩ := exists_append_of_trim t
  rw [← isBlank_blanks hbefore hbehind (trim t), ← ht]

/-! ## The first word -/

theorem head?_splitOnP (p : Char → Bool) (t : Text) :
    (t.splitOnP p).head? = some (upTo p t) := by
  induction t with
  | nil => rfl
  | cons c t ih =>
    rw [List.splitOnP_cons_eq_if_modifyHead, upTo]
    cases hc : p c with
    | true => simp [hc]
    | false =>
      obtain ⟨rest, hrest⟩ := List.head?_eq_some_iff.1 ih
      rw [List.takeWhile_cons_of_pos (by simp [hc]), hrest]
      rfl

/-- The first word runs from the first character that is not blank up to the next blank. -/
theorem firstWord_eq (t : Text) : firstWord t = upTo isBlankChar (trimStart t) := by
  rw [← firstWord_trimStart]
  cases htrim : trimStart t with
  | nil => rfl
  | cons c rest =>
    have hc := isBlankChar_of_trimStart htrim
    obtain ⟨more, hmore⟩ := List.head?_eq_some_iff.1 (head?_splitOnP isBlankChar (c :: rest))
    have hword : upTo isBlankChar (c :: rest) = c :: upTo isBlankChar rest :=
      List.takeWhile_cons_of_pos (by simp [hc])
    rw [firstWord, words, hmore, hword]
    rfl

theorem upTo_append_blanks {p : Char → Bool} {blanks : Text} (h : ∀ c ∈ blanks, p c = true)
    (t : Text) : upTo p (t ++ blanks) = upTo p t := by
  have hnone : blanks.takeWhile (! p ·) = [] := by
    cases blanks with
    | nil => rfl
    | cons c blanks => exact List.takeWhile_cons_of_neg (by simp [h c List.mem_cons_self])
  rw [upTo, upTo, List.takeWhile_append]
  split
  · rename_i hall
    rw [hnone, List.append_nil, (List.takeWhile_prefix _).eq_of_length hall]
  · rfl

/-- Blanks around a text do not change its first word. -/
theorem firstWord_blanks (hbefore : ∀ c ∈ before, isBlankChar c = true)
    (hbehind : ∀ c ∈ behind, isBlankChar c = true) (s : Text) :
    firstWord (before ++ (s ++ behind)) = firstWord s := by
  rw [firstWord_eq, firstWord_eq, trimStart_blanks hbefore, trimStart, List.dropWhile_append]
  split
  · rename_i hempty
    have hnone : behind.dropWhile isBlankChar = [] := List.dropWhile_eq_nil_iff.2 hbehind
    rw [hnone, trimStart, List.isEmpty_iff.1 hempty]
  · exact upTo_append_blanks hbehind _

theorem firstWord_padded {s t : Text} (h : s.Pads t) : firstWord t = firstWord s := by
  obtain ⟨before, behind, rfl, hbefore, hbehind⟩ := h.blanks
  exact firstWord_blanks hbefore hbehind s

theorem firstWord_trim (t : Text) : firstWord (trim t) = firstWord t := by
  obtain ⟨before, behind, ht, hbefore, hbehind⟩ := exists_append_of_trim t
  rw [← firstWord_blanks hbefore hbehind (trim t), ← ht]

/-! ## Gaps around trimmed texts -/

/-- A trimmed text does not begin with a blank. -/
theorem trimStart_trim (t : Text) : trimStart (trim t) = trim t := by
  obtain ⟨blanks, hblanks, -⟩ := exists_append_of_trimEnd (trimStart t)
  rw [trim]
  cases htrim : trimEnd (trimStart t) with
  | nil => rfl
  | cons c rest =>
    rw [htrim] at hblanks
    rw [trimStart, List.dropWhile_cons_of_neg (by simp [isBlankChar_of_trimStart hblanks])]

theorem subset_trim (t : Text) : trim t ⊆ t := by
  obtain ⟨before, behind, ht, -⟩ := exists_append_of_trim t
  intro c hc
  rw [ht]
  exact List.mem_append_right _ (List.mem_append_left _ hc)

namespace Pads

variable {s t gaps : Text}

theorem append_left (h : s.Pads t) (hgaps : ∀ c ∈ gaps, Lexeme.isGap c = true) :
    s.Pads (gaps ++ t) := by
  obtain ⟨before, behind, rfl, hbefore, hbehind⟩ := h
  exact ⟨gaps ++ before, behind, by simp, List.forall_mem_append.2 ⟨hgaps, hbefore⟩, hbehind⟩

theorem append_right (h : s.Pads t) (hgaps : ∀ c ∈ gaps, Lexeme.isGap c = true) :
    s.Pads (t ++ gaps) := by
  obtain ⟨before, behind, rfl, hbefore, hbehind⟩ := h
  exact ⟨before, behind ++ gaps, by simp, hbefore, List.forall_mem_append.2 ⟨hbehind, hgaps⟩⟩

theorem not_mem (h : s.Pads t) {c : Char} (hs : c ∉ s) (hc : Lexeme.isGap c = false) : c ∉ t := by
  obtain ⟨before, behind, rfl, hbefore, hbehind⟩ := h
  have hgaps {gaps : Text} (hgaps : ∀ c ∈ gaps, Lexeme.isGap c = true) : c ∉ gaps := fun hmem => by
    rw [hgaps c hmem] at hc
    cases hc
  simp [hs, hgaps hbefore, hgaps hbehind]

/-- Only gaps are taken off in front of a text that does not begin with a blank. -/
theorem exists_trimStart {c : Char} {rest : Text} (h : Text.Pads (c :: rest) t)
    (hc : isBlankChar c = false) :
    ∃ behind, trimStart t = c :: (rest ++ behind) ∧ ∀ c ∈ behind, Lexeme.isGap c = true := by
  obtain ⟨before, behind, rfl, hbefore, hbehind⟩ := h
  refine ⟨behind, ?_, hbehind⟩
  rw [trimStart_blanks fun c hc => Lexeme.isBlankChar_of_isGap (hbefore c hc), trimStart,
    List.cons_append, List.dropWhile_cons_of_neg (by simp [hc])]

/-- A text that does not begin with a blank loses only gaps in front of it. -/
theorem trimStart (hs : trimStart s = s) (h : s.Pads t) : s.Pads (trimStart t) := by
  cases s with
  | nil =>
    have hblank : Text.isBlank t = true := h.isBlank
    rw [Text.trimStart, List.dropWhile_eq_nil_iff.2 (List.all_eq_true.1 hblank)]
    exact .refl []
  | cons c rest =>
    obtain ⟨behind, hstart, hbehind⟩ := h.exists_trimStart (isBlankChar_of_trimStart hs)
    exact ⟨[], behind, hstart, by simp, hbehind⟩

theorem exists_of_mem {statements parts : List Text} (h : List.Forall₂ Text.Pads statements parts)
    {part : Text} (hpart : part ∈ parts) : ∃ s ∈ statements, s.Pads part := by
  induction h with
  | nil => cases hpart
  | cons hpad _ ih =>
    obtain rfl | hpart := List.mem_cons.1 hpart
    · exact ⟨_, List.mem_cons_self, hpad⟩
    · obtain ⟨s, hs, hpad⟩ := ih hpart
      exact ⟨s, .tail _ hs, hpad⟩

end Pads

end Text

namespace Lexeme

variable {gaps t : Text} {offset : Nat}

/-! ## Gaps behind a text -/

/-- A stretch with the form of a lexeme does not go on into gaps. -/
theorem Matches.starts_append {l : Lexeme} {s : Text} (h : l.Matches s)
    (hgaps : ∀ c ∈ gaps, isGap c = true) : s <+: t ++ gaps ↔ s <+: t := by
  refine ⟨fun hs => ?_, fun hs => hs.trans (List.prefix_append ..)⟩
  obtain hs' | ⟨r, rfl⟩ := List.prefix_or_prefix_of_prefix hs (List.prefix_append t gaps)
  · exact hs'
  · cases r with
    | nil => simp
    | cons c r =>
      have hc : c ∈ gaps :=
        ((List.prefix_append_right_inj t).1 hs).subset List.mem_cons_self
      have hvisible := (h.visible (List.mem_append_right t List.mem_cons_self)).1
      rw [isBlankChar_of_isGap (hgaps c hc)] at hvisible
      cases hvisible

theorem first?_append_gaps (hgaps : ∀ c ∈ gaps, isGap c = true) (t : Text) :
    first? (t ++ gaps) = first? t := by
  refine Option.ext fun ⟨l, s⟩ => ?_
  rw [first?_eq_some, first?_eq_some]
  constructor
  · rintro ⟨hmatches, hstarts, hlongest⟩
    exact ⟨hmatches, (hmatches.starts_append hgaps).1 hstarts,
      fun h hs => hlongest h ((h.starts_append hgaps).2 hs)⟩
  · rintro ⟨hmatches, hstarts, hlongest⟩
    exact ⟨hmatches, (hmatches.starts_append hgaps).2 hstarts,
      fun h hs => hlongest h ((h.starts_append hgaps).1 hs)⟩

theorem readAllFrom_gaps (hgaps : ∀ c ∈ gaps, isGap c = true) (offset : Nat) :
    readAllFrom offset gaps = .ok [] := by
  induction gaps generalizing offset with
  | nil => rw [readAllFrom]
  | cons c gaps ih =>
    obtain ⟨hc, hgaps⟩ := List.forall_mem_cons.1 hgaps
    rw [readAllFrom, if_pos hc, ih hgaps]

/-- Gaps behind a text without comments change nothing. -/
theorem readAllFrom_append_gaps (ht : '#' ∉ t) (hgaps : ∀ c ∈ gaps, isGap c = true) :
    readAllFrom offset (t ++ gaps) = readAllFrom offset t := by
  fun_induction readAllFrom offset t with
  | case1 => exact readAllFrom_gaps hgaps _
  | case2 offset c t hgap ih =>
    rw [List.cons_append, readAllFrom, if_pos hgap, ih fun h => ht (.tail _ h)]
  | case3 => exact absurd List.mem_cons_self ht
  | case4 offset c t hgap hmark hfirst =>
    have hnone : first? (c :: (t ++ gaps)) = none := by
      rw [← List.cons_append, first?_append_gaps hgaps, hfirst]
    rw [List.cons_append, readAllFrom, if_neg hgap, if_neg hmark]
    split
    · rfl
    · rename_i heq
      cases hnone.symm.trans heq
  | case5 offset c t hgap hmark l s hfirst hpos ih =>
    have hsome : first? (c :: (t ++ gaps)) = some (l, s) := by
      rw [← List.cons_append, first?_append_gaps hgaps, hfirst]
    have hdrop : (c :: (t ++ gaps)).drop s.length = (c :: t).drop s.length ++ gaps := by
      rw [← List.cons_append, List.drop_append_of_le_length (first?_ok hfirst).1.length_le]
    rw [List.cons_append, readAllFrom, if_neg hgap, if_neg hmark]
    split
    · rename_i heq
      cases hsome.symm.trans heq
    · rename_i heq
      cases hsome.symm.trans heq
      show (readAllFrom _ ((c :: (t ++ gaps)).drop s.length)).map _ = _
      rw [hdrop, ih fun h => ht (List.drop_subset _ _ h)]

/-! ## Gaps in front of a text -/

theorem readAllFrom_gaps_append (hgaps : ∀ c ∈ gaps, isGap c = true) (t : Text) :
    readAllFrom offset (gaps ++ t) = readAllFrom (offset + Text.byteLength gaps) t := by
  induction gaps generalizing offset with
  | nil => rfl
  | cons c gaps ih =>
    obtain ⟨hc, hgaps⟩ := List.forall_mem_cons.1 hgaps
    rw [List.cons_append, readAllFrom, if_pos hc, ih hgaps, Text.byteLength_cons, Nat.add_assoc]

/-- A stretch with the form of a lexeme is in the word that it begins. -/
theorem Matches.firstWord {l : Lexeme} {s behind : Text} (h : l.Matches s)
    (hgaps : ∀ c ∈ gaps, isGap c = true) :
    Text.firstWord (gaps ++ (s ++ behind)) = s ++ Text.upTo Text.isBlankChar behind := by
  have hvisible : ∀ c ∈ s, Text.isBlankChar c = false := fun c hc => (h.visible hc).1
  rw [Text.firstWord_eq, Text.trimStart_blanks fun c hc => isBlankChar_of_isGap (hgaps c hc)]
  obtain ⟨c, more, rfl, -⟩ := h.kind
  rw [Text.trimStart, List.cons_append, List.dropWhile_cons_of_neg
    (by simp [hvisible c List.mem_cons_self]), ← List.cons_append, Text.upTo,
    List.takeWhile_append_of_pos (by simpa using hvisible)]
  rfl

/-- The first lexeme that is cut off stands behind gaps. -/
theorem Cuts.first {rest : Text} {l : Located Lexeme} {ls : List (Located Lexeme)}
    (h : Cuts offset t (l :: ls) rest) (ht : '#' ∉ t) : ∃ gaps s behind offset',
      t = gaps ++ (s ++ behind) ∧ (∀ c ∈ gaps, isGap c = true) ∧
        IsLongest l.value s (s ++ behind) ∧ Cuts offset' behind ls rest := by
  generalize hls : l :: ls = whole at h
  induction h with
  | done => cases hls
  | @gap offset c t _ _ blank _ ih =>
    obtain ⟨gaps, s, behind, o, rfl, hgaps, hfirst⟩ := ih (fun h => ht (.tail _ h)) hls
    exact ⟨c :: gaps, s, behind, o, rfl, List.forall_mem_cons.2 ⟨blank, hgaps⟩, hfirst⟩
  | comment => exact absurd List.mem_cons_self ht
  | lexeme longest behind =>
    cases hls
    exact ⟨[], _, _, _, rfl, by simp, longest, behind⟩

/-- The lexemes of a text with gaps around it are those of the text at another offset. -/
theorem readAll_padded {s : Text} (hs : '#' ∉ s) (h : s.Pads t) :
    ∃ offset, readAll t = readAllFrom offset s := by
  obtain ⟨before, behind, rfl, hbefore, hbehind⟩ := h
  exact ⟨0 + Text.byteLength before,
    by rw [readAll, readAllFrom_gaps_append hbefore, readAllFrom_append_gaps hs hbehind]⟩

/-! ## Other blanks -/

/-- In a text that is cut into lexemes to its end and has no comments, all blanks are gaps. -/
theorem Cuts.isGap_of_isBlankChar {ls : List (Located Lexeme)} (h : Cuts offset t ls [])
    (ht : '#' ∉ t) {c : Char} (hc : c ∈ t) (hblank : Text.isBlankChar c = true) :
    isGap c = true := by
  generalize hrest : [] = rest at h
  induction h with
  | done =>
    subst hrest
    cases hc
  | gap blank _ ih =>
    obtain rfl | hc := List.mem_cons.1 hc
    · exact blank
    · exact ih (fun h => ht (.tail _ h)) hc hrest
  | comment => exact absurd List.mem_cons_self ht
  | lexeme longest _ ih =>
    obtain hc | hc := List.mem_append.1 hc
    · have hvisible := (longest.matches_l.visible hc).1
      rw [hblank] at hvisible
      cases hvisible
    · exact ih (fun h => ht (List.mem_append_right _ h)) hc hrest

/-- Of a text that can be read, no other blanks than gaps could be taken off. -/
theorem strip_eq_trim {ls : List (Located Lexeme)} (h : readAll t = .ok ls) (ht : '#' ∉ t) :
    Text.strip t = Text.trim t := by
  have hsame (s : Text) (hs : s ⊆ t) : s.dropWhile isGap = s.dropWhile Text.isBlankChar := by
    induction s with
    | nil => rfl
    | cons c s ih =>
      have hc : isGap c = Text.isBlankChar c := Bool.eq_iff_iff.2 ⟨isBlankChar_of_isGap,
        (readAllFrom_eq_ok.1 h).isGap_of_isBlankChar ht (hs List.mem_cons_self)⟩
      rw [List.dropWhile_cons, List.dropWhile_cons, hc, ih fun _ hd => hs (.tail _ hd)]
  have hrest : (t.dropWhile Text.isBlankChar).reverse ⊆ t := fun c hc =>
    (List.dropWhile_sublist _).subset (List.mem_reverse.1 hc)
  rw [Text.strip, hsame t (List.Subset.refl t), hsame _ hrest]
  rfl

/-- Only gaps are around a text that can be read, when it is trimmed. -/
theorem pads_trim {ls : List (Located Lexeme)} (h : readAll t = .ok ls) (ht : '#' ∉ t) :
    (Text.trim t).Pads t :=
  strip_eq_trim h ht ▸ Text.pads_strip t

end Lexeme

namespace Statement

/-- The keyword and the operands of the instruction that a text is read as. -/
def instruction? (t : Text) : Option (Text × List Operand) :=
  match read t with
  | .ok (.instruction keyword operands) => some (keyword.value, operands.map Located.value)
  | _ => none

variable {t : Text}

theorem instruction?_eq_some {keyword : Text} {values : List Operand} :
    instruction? t = some (keyword, values) ↔ ∃ ls span operands, Lexeme.readAll t = .ok ls ∧
      Spells (.instruction ⟨keyword, span⟩ operands) ls ∧ operands.map Located.value = values := by
  constructor
  · intro h
    unfold instruction? at h
    split at h
    · rename_i keyword' operands hread
      cases h
      obtain ⟨ls, hls, h⟩ := read_ok hread
      exact ⟨ls, _, operands, hls, ofLexemes_eq_ok.1 h, rfl⟩
    · cases h
  · rintro ⟨ls, span, operands, hls, hspells, rfl⟩
    have hread : read t = .ok (.instruction ⟨keyword, span⟩ operands) := by
      rw [read, hls]
      exact ofLexemes_eq_ok.2 hspells
    rw [instruction?, hread]

/-! ## Gaps around a text -/

/-- **The gaps around a statement do not matter** for what is read. -/
theorem read_padded {s u : Text} (hs : '#' ∉ s) (ht : s.Pads t) (hu : s.Pads u) :
    SameOutcome Located.SameValue (Pairs Located.SameValue) (read t) (read u) := by
  obtain ⟨offset, hreadt⟩ := Lexeme.readAll_padded hs ht
  obtain ⟨offset', hreadu⟩ := Lexeme.readAll_padded hs hu
  have hsame := Lexeme.sameOutcome_readAllFrom offset offset' s
  rw [← hreadt, ← hreadu] at hsame
  unfold read
  generalize Lexeme.readAll t = lexemes, Lexeme.readAll u = lexemes' at hsame
  cases hsame with
  | error h => exact .error (congrArg SyntaxError.unrecognized h)
  | ok h => exact sameOutcome_ofLexemes h

theorem instruction?_padded {s : Text} (hs : '#' ∉ s) (h : s.Pads t) :
    instruction? t = instruction? s := by
  have hread := read_padded hs (.refl s) h
  unfold instruction?
  generalize read s = statement, read t = statement' at hread
  cases hread with
  | error => rfl
  | ok h =>
    cases h with
    | header => rfl
    | instruction hkeyword hoperands =>
      dsimp only
      rw [hkeyword, Located.map_value_of_sameValue hoperands]

/-! ## The keyword -/

/-- A lexeme directly behind an identifier is no operand. -/
theorem not_isOperand_behind {name s rest : Text} {l : Lexeme} {operand : Located Operand}
    {span : Span} (hname : Lexeme.IsLongest (.identifier name) name (name ++ (s ++ rest)))
    (hl : l.Matches s) : ¬ IsOperand operand ⟨l, span⟩ := by
  intro hoperand
  obtain ⟨c, more, rfl, -⟩ := hl.kind
  -- The first character of an operand may stand in an identifier, so that one would be longer.
  have hc : Lexeme.isIdentifierRest c = true := by
    cases hoperand with
    | name =>
      cases hl with
      | identifier start =>
        simp only [Lexeme.isIdentifierStart, Bool.or_eq_true] at start
        simp only [Lexeme.isIdentifierRest, Char.isAlphanum, Bool.or_eq_true]
        tauto
    | number =>
      cases hl with
      | number form =>
        obtain ⟨_, _, ⟨⟩, hc⟩ := form.head
        simp only [Lexeme.isIdentifierRest, Char.isAlphanum, Bool.or_eq_true, decide_eq_true_eq]
        tauto
  have hlonger : Lexeme.Matches (.identifier (name ++ [c])) (name ++ [c]) := by
    cases hname.matches_l with
    | identifier start rest_ok =>
      exact .identifier start (List.forall_mem_append.2 ⟨rest_ok, by simpa using hc⟩)
  have hlength := hname.longest hlonger (by simp)
  rw [List.length_append] at hlength
  exact absurd hlength (Nat.not_succ_le_self _)

/-- The keyword of a statement without comments is its first word. -/
theorem firstWord_of_instruction? {keyword : Text} {values : List Operand} (ht : '#' ∉ t)
    (h : instruction? t = some (keyword, values)) : Text.firstWord t = keyword := by
  obtain ⟨ls, span, operands, hls, hspells, -⟩ := instruction?_eq_some.1 h
  obtain ⟨rest, rfl⟩ : ∃ rest, ls = ⟨.identifier keyword, span⟩ :: rest := by
    cases hspells <;> exact ⟨_, rfl⟩
  obtain ⟨gaps, s, behind, o, rfl, hgaps, hlongest, hbehind⟩ :=
    (Lexeme.readAllFrom_eq_ok.1 hls).first ht
  obtain rfl : keyword = s := by
    cases hlongest.matches_l
    rfl
  have hend : Text.upTo Text.isBlankChar behind = [] := by
    cases hbehind with
    | done => rfl
    | gap blank => exact List.takeWhile_cons_of_neg (by simp [Lexeme.isBlankChar_of_isGap blank])
    | comment => simp at ht
    | lexeme longest =>
      cases hspells with
      | instruction follow =>
        cases follow with
        | one single => exact absurd single (not_isOperand_behind hlongest longest.matches_l)
        | more first => exact absurd first (not_isOperand_behind hlongest longest.matches_l)
  rw [hlongest.matches_l.firstWord hgaps, hend, List.append_nil]

/-- The first word of a header without comments begins with a point. -/
theorem startsWith_of_header {name : Located Text} {repetitions : Option (Located Float)}
    (ht : '#' ∉ t) (h : read t = .ok (.header name repetitions)) :
    Text.startsWith (Text.lower (Text.firstWord t)) "." = true := by
  obtain ⟨ls, hls, h⟩ := read_ok h
  obtain ⟨span, rest, rfl⟩ : ∃ span rest, ls = ⟨.dot, span⟩ :: rest := by
    cases ofLexemes_eq_ok.1 h <;> exact ⟨_, _, rfl⟩
  obtain ⟨gaps, s, behind, o, rfl, hgaps, hlongest, -⟩ := (Lexeme.readAllFrom_eq_ok.1 hls).first ht
  rw [hlongest.matches_l.firstWord hgaps]
  cases hlongest.matches_l
  rfl

end Statement

end QuantumDiagram

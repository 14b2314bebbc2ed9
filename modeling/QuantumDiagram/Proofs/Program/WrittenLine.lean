import QuantumDiagram.Proofs.Program.Directives
import QuantumDiagram.Proofs.Statement.Gaps

/-!
# How a parallel line is written

A parallel line is written as parts with bars between them, perhaps behind braces that open the
block and before one that closes it (`Pending.Written`, `Pending.written`). Its statements
are the parts that are not blank (`Pending.Written.parts_ok`), and what stands behind a brace does
not matter for the declaration of the qubits (`Pending.Written.isDeclared_eq`).
-/

namespace QuantumDiagram

namespace Text

/-! ## Words -/

/-- Every character that is not blank is in a word. -/
theorem exists_mem_words {c : Char} {t : Text} (hc : isBlankChar c = false) (h : c ∈ t) :
    ∃ w ∈ words t, c ∈ w := by
  have hsplit : ∃ w ∈ t.splitOnP isBlankChar, c ∈ w := by
    induction t with
    | nil => cases h
    | cons b t ih =>
      obtain ⟨rest, hrest⟩ := List.head?_eq_some_iff.1 (head?_splitOnP isBlankChar t)
      rw [List.splitOnP_cons_eq_if_modifyHead]
      obtain rfl | h := List.mem_cons.1 h
      · rw [if_neg (by simp [hc]), hrest]
        exact ⟨_, List.mem_cons_self, List.mem_cons_self⟩
      · obtain ⟨w, hw, hcw⟩ := ih h
        split
        · exact ⟨w, .tail _ hw, hcw⟩
        · rw [hrest] at hw ⊢
          obtain rfl | hw := List.mem_cons.1 hw
          · exact ⟨_, List.mem_cons_self, .tail _ hcw⟩
          · exact ⟨w, .tail _ hw, hcw⟩
  obtain ⟨w, hw, hcw⟩ := hsplit
  exact ⟨w, List.mem_filter.2 ⟨hw, by simpa using List.ne_nil_of_mem hcw⟩, hcw⟩

/-- The first word ends before a character that is not blank, or goes on behind it. -/
theorem firstWord_append {c : Char} (hc : isBlankChar c = false) (s : Text) :
    (∀ rest, firstWord (s ++ c :: rest) = firstWord s) ∨
      ∀ rest, c ∈ firstWord (s ++ c :: rest) := by
  have hword (rest : Text) : c ∈ upTo isBlankChar (c :: rest) := by
    rw [upTo, List.takeWhile_cons_of_pos (by simp [hc])]
    exact List.mem_cons_self
  have hstart (rest : Text) : trimStart (s ++ c :: rest) = trimStart s ++ c :: rest := by
    rw [trimStart, List.dropWhile_append]
    split
    · rename_i hempty
      rw [trimStart, List.isEmpty_iff.1 hempty, List.dropWhile_cons_of_neg (by simp [hc]),
        List.nil_append]
    · rfl
  simp only [firstWord_eq, hstart]
  by_cases hall : ((trimStart s).takeWhile (! isBlankChar ·)).length = (trimStart s).length
  · refine .inr fun rest => ?_
    rw [upTo, List.takeWhile_append, if_pos hall]
    exact List.mem_append_right _ (hword rest)
  · refine .inl fun rest => ?_
    rw [upTo, List.takeWhile_append, if_neg hall, upTo]

end Text

namespace Declaration

theorem isDeclared_words (t : Text) : isDeclared (Text.words t) =
    decide (Text.lower (Text.firstWord t) = "qubits".toList) := by
  rw [isDeclared, Text.firstWord]
  cases Text.words t with
  | nil => decide
  | cons w ws => rfl

/-- A line with a bar or a brace in its first word declares nothing. -/
theorem isDeclared_of_mem_firstWord {c : Char} {t : Text} (hc : c = '|' ∨ c = '\x7b')
    (h : c ∈ Text.firstWord t) : isDeclared (Text.words t) = false := by
  rw [isDeclared_words, decide_eq_false_iff_not]
  intro hword
  have hmem : c.toLower ∈ "qubits".toList := hword ▸ List.mem_map_of_mem h
  obtain rfl | rfl := hc
  · exact absurd hmem (by decide)
  · exact absurd hmem (by decide)

theorem readCount?_eq_none {c : Char} {t : Text} (hc : c.isDigit = false ∧ c ≠ '+') (h : c ∈ t) :
    readCount? t = none := by
  have hnone {digits : Text} (h : c ∈ digits) : Decimal.readNatural? digits = none :=
    if_neg fun hdigits => by
      have hdigit := List.all_eq_true.1 hdigits.2 c h
      rw [hc.1] at hdigit
      cases hdigit
  unfold readCount?
  split
  · exact hnone ((List.mem_cons.1 h).resolve_left hc.2)
  · exact hnone h

/-- A line with a brace does not say how many qubits there are. -/
theorem qubits?_eq_none {t : Text} (hbrace : '\x7b' ∈ t)
    (h : isDeclared (Text.words t) = true) : qubits? (Text.words t) = none := by
  obtain ⟨w, hw, hmem⟩ := Text.exists_mem_words (by decide) hbrace
  have hfirst : '\x7b' ∉ Text.firstWord t := fun hmem => by
    rw [isDeclared_of_mem_firstWord (.inr rfl) hmem] at h
    cases h
  rw [Text.firstWord] at hfirst
  unfold qubits?
  split
  · rename_i word count heq
    rw [heq] at hw hfirst
    obtain rfl | hw := List.mem_cons.1 hw
    · exact absurd hmem hfirst
    · rw [List.mem_singleton.1 hw] at hmem
      rw [readCount?_eq_none (by decide) hmem]
      rfl
  · rfl

end Declaration

namespace Pending

/-- The text `t` is a parallel line: `parts` with bars between them, behind `opening` and before
`closing`. What stands before the brace that opens the block, and behind the one that closes it, is
not looked at. -/
structure Written (opening : Text) (parts : List Text) (closing t : Text) : Prop where
  text : t = opening ++ (Text.joinWith "|" parts ++ closing)
  opened : opening = [] ∨ ∃ outside braces, opening = outside ++ '\x7b' :: braces ∧
    '|' ∉ outside ∧ '\x7b' ∉ outside ∧ ∀ c ∈ braces, c = '\x7b' ∨ Text.isBlankChar c = true
  closed : closing = [] ∨ ∃ outside, closing = '\x7d' :: outside ∧ '|' ∉ outside
  plain : ∀ part ∈ parts, '|' ∉ part ∧ hasBrace part = false
  parallel : 1 < parts.length ∨
    parts ≠ [] ∧ (Text.trimStart opening).head? = some '\x7b'

/-! ## Cutting the line -/

/-- The first part as it is cut off: behind a brace, without the blanks at its start. -/
def cutFirst (opening part : Text) : Text := if opening = [] then part else Text.trimStart part

@[simp] theorem modifyHead_cutFirst_nil (parts : List Text) :
    parts.modifyHead (cutFirst []) = parts := by
  cases parts <;> rfl

theorem subset_cutFirst (opening part : Text) : cutFirst opening part ⊆ part := by
  unfold cutFirst
  split
  · exact List.Subset.refl _
  · exact (List.dropWhile_sublist _).subset

theorem joinWith_modifyHead (separator opening : Text) {parts : List Text} (h : parts ≠ []) :
    Text.joinWith separator (parts.modifyHead (opening ++ ·)) =
      opening ++ Text.joinWith separator parts := by
  cases parts with
  | nil => exact absurd rfl h
  | cons part parts =>
    cases parts with
    | nil => simp [Text.joinWith]
    | cons next parts => simp [Text.joinWith_cons_cons]

theorem joinWith_mapLast (separator closing : Text) {parts : List Text} (h : parts ≠ []) :
    Text.joinWith separator (mapLast (· ++ closing) parts) =
      Text.joinWith separator parts ++ closing := by
  fun_induction mapLast (· ++ closing) parts with
  | case1 => exact absurd rfl h
  | case2 part => simp [Text.joinWith]
  | case3 part parts hne ih =>
    cases parts with
    | nil => exact absurd rfl hne
    | cons next parts =>
      have ih := ih (by simp)
      cases hlast : mapLast (· ++ closing) (next :: parts) with
      | nil => cases parts <;> cases hlast
      | cons first rest =>
        rw [hlast] at ih
        rw [Text.joinWith_cons_cons, ih, Text.joinWith_cons_cons]
        simp only [List.append_assoc]

theorem mapLast_mapLast {α : Type} (f g : α → α) (l : List α) :
    mapLast f (mapLast g l) = mapLast (fun x => f (g x)) l := by
  fun_induction mapLast g l with
  | case1 => rfl
  | case2 x => rfl
  | case3 x rest hne ih =>
    cases rest with
    | nil => exact absurd rfl hne
    | cons y rest =>
      have hcons : ∃ z zs, mapLast g (y :: rest) = z :: zs := by cases rest <;> exact ⟨_, _, rfl⟩
      obtain ⟨z, zs, hz⟩ := hcons
      rw [hz] at ih ⊢
      exact congrArg (x :: ·) ih

namespace Written

variable {opening closing t : Text} {parts : List Text}

theorem parts_ne_nil (h : Written opening parts closing t) : parts ≠ [] := by
  rintro rfl
  obtain hlength | ⟨hne, -⟩ := h.parallel
  · cases hlength
  · exact hne rfl

theorem bar_not_mem_opening (h : Written opening parts closing t) : '|' ∉ opening := by
  obtain rfl | ⟨outside, braces, rfl, houtside, -, hbraces⟩ := h.opened
  · simp
  · have hbar : '|' ∉ braces := fun hmem => by
      obtain hc | hblank := hbraces _ hmem
      · cases hc
      · cases hblank
    simp [houtside, hbar]

theorem bar_not_mem_closing (h : Written opening parts closing t) : '|' ∉ closing := by
  obtain rfl | ⟨outside, rfl, houtside⟩ := h.closed
  · simp
  · simp [houtside]

theorem splitOn_text (h : Written opening parts closing t) :
    t.splitOn '|' = mapLast (· ++ closing) (parts.modifyHead (opening ++ ·)) := by
  have hne : parts.modifyHead (opening ++ ·) ≠ [] := by simp [h.parts_ne_nil]
  have hjoin := joinWith_mapLast "|" closing hne
  rw [joinWith_modifyHead _ _ h.parts_ne_nil, List.append_assoc, ← h.text] at hjoin
  have hhead : ∀ part ∈ parts.modifyHead (opening ++ ·), '|' ∉ part := by
    cases parts with
    | nil => simp
    | cons part parts =>
      obtain ⟨⟨hpart, -⟩, hparts⟩ := List.forall_mem_cons.1 h.plain
      exact List.forall_mem_cons.2 ⟨by simp [h.bar_not_mem_opening, hpart],
        fun next hnext => (hparts next hnext).1⟩
  rw [← hjoin]
  refine List.splitOn_intercalate '|' (fun part hpart => ?_) ?_
  · obtain hmem | ⟨part, hmem, rfl⟩ := mem_mapLast hpart
    · exact hhead part hmem
    · simp [hhead part hmem, h.bar_not_mem_closing]
  · rw [ne_eq, ← List.length_eq_zero_iff, length_mapLast, List.length_eq_zero_iff]
    exact hne

/-- The brace that closes the block is cut off, with all behind it. -/
theorem takeWhile_closing (h : Written opening parts closing t) {part : Text}
    (hpart : '\x7d' ∉ part) :
    (part ++ closing).takeWhile (· ≠ '\x7d') = part := by
  have hall : ∀ c ∈ part, decide (c ≠ '\x7d') = true := by
    intro c hc
    have hne : c ≠ '\x7d' := fun heq => hpart (heq ▸ hc)
    simpa using hne
  rw [List.takeWhile_append_of_pos hall]
  obtain rfl | ⟨outside, rfl, -⟩ := h.closed
  · simp
  · simp

/-- The braces that open the block are cut off, with all before them and the blanks behind them. -/
theorem behindOpening_append (h : Written opening parts closing t) (hne : opening ≠ []) (u : Text) :
    behindOpening (opening ++ u) =
      u.dropWhile fun c => c = '\x7b' || Text.isBlankChar c := by
  obtain rfl | ⟨outside, braces, rfl, -, houtside, hbraces⟩ := h.opened
  · exact absurd rfl hne
  · have hfirst : ∀ c ∈ outside, decide (c ≠ '\x7b') = true := by
      intro c hc
      have hne : c ≠ '\x7b' := fun heq => houtside (heq ▸ hc)
      simpa using hne
    have hbraces : ∀ c ∈ '\x7b' :: braces, (decide (c = '\x7b') || Text.isBlankChar c) = true := by
      simpa using hbraces
    rw [behindOpening, if_pos (by simp), List.append_assoc, List.dropWhile_append_of_pos hfirst,
      List.cons_append, List.dropWhile_cons_of_neg (by simp), ← List.cons_append,
      List.dropWhile_append_of_pos hbraces]

theorem dropWhile_part {part : Text} (hpart : '\x7b' ∉ part)
    {rest : Text} (hrest : rest = [] ∨ ∃ outside, rest = '\x7d' :: outside) :
    ((part ++ rest).dropWhile fun c => c = '\x7b' || Text.isBlankChar c) =
      Text.trimStart part ++ rest := by
  have hclosing : Text.isBlankChar '\x7d' = false := by decide
  induction part with
  | nil =>
    obtain rfl | ⟨outside, rfl⟩ := hrest
    · rfl
    · exact List.dropWhile_cons_of_neg (by simp [hclosing])
  | cons c part ih =>
    have hc : c ≠ '\x7b' := fun heq => hpart (heq ▸ List.mem_cons_self)
    rw [List.cons_append, Text.trimStart]
    cases hblank : Text.isBlankChar c with
    | true =>
      rw [List.dropWhile_cons_of_pos (by simp [hblank]), List.dropWhile_cons_of_pos hblank]
      exact ih fun h => hpart (.tail _ h)
    | false =>
      rw [List.dropWhile_cons_of_neg (by simp [hblank, hc]),
        List.dropWhile_cons_of_neg (by simp [hblank]), List.cons_append]

/-- **The parts are what is cut off**, but for blanks at the start of the first one. -/
theorem map_text_segments {p : Pending} (h : Written opening parts closing p.text) :
    p.segments.map Stretch.text = parts.modifyHead (cutFirst opening) := by
  have hplain {part : Text} (hpart : part ∈ parts) := hasBrace_eq_false.1 (h.plain part hpart).2
  have hcut {part : Text} (hpart : part ∈ parts) : '\x7d' ∉ cutFirst opening part :=
    fun hmem => (hplain hpart).2 (subset_cutFirst opening part hmem)
  rw [Pending.map_text_segments, h.splitOn_text]
  -- The braces are cut off the first and the last part. If there is only one part, it is both.
  cases parts with
  | nil => exact absurd rfl h.parts_ne_nil
  | cons part rest =>
    have hpart : '\x7b' ∉ part := (hplain List.mem_cons_self).1
    cases rest with
    | nil =>
      have hne : opening ≠ [] := by
        rintro rfl
        obtain hlength | ⟨-, hhead⟩ := h.parallel
        · exact absurd hlength (Nat.lt_irrefl 1)
        · cases hhead
      have hclosed : closing = [] ∨ ∃ outside, closing = '\x7d' :: outside :=
        h.closed.imp_right fun ⟨outside, heq, _⟩ => ⟨outside, heq⟩
      have hfirst : behindOpening ((opening ++ part) ++ closing) =
          cutFirst opening part ++ closing := by
        rw [List.append_assoc, h.behindOpening_append hne, dropWhile_part hpart hclosed, cutFirst,
          if_neg hne]
      show [(behindOpening ((opening ++ part) ++ closing)).takeWhile _] = _
      rw [hfirst, h.takeWhile_closing (hcut List.mem_cons_self)]
      rfl
    | cons next rest =>
      have hfirst : behindOpening (opening ++ part) = cutFirst opening part := by
        by_cases hne : opening = []
        · rw [cutFirst, if_pos hne, hne, List.nil_append, behindOpening,
            if_neg (by simpa using hpart)]
        · have hcut := dropWhile_part hpart (.inl rfl)
          rw [List.append_nil, List.append_nil] at hcut
          rw [h.behindOpening_append hne, hcut, cutFirst, if_neg hne]
      show mapLast _ (behindOpening (opening ++ part) :: mapLast (· ++ closing) (next :: rest)) = _
      rw [hfirst]
      have hback := mapLast_mapLast (fun part => part.takeWhile (· ≠ '\x7d')) (· ++ closing)
        (cutFirst opening part :: next :: rest)
      refine hback.trans (mapLast_eq_self fun u hu => h.takeWhile_closing ?_)
      obtain rfl | hu := List.mem_cons.1 hu
      · exact hcut List.mem_cons_self
      · exact (hplain (.tail _ hu)).2

/-! ## The statements of the line -/

theorem isParallel {p : Pending} (h : Written opening parts closing p.text) :
    p.isParallel = true := by
  rw [Pending.isParallel, Bool.or_eq_true, List.contains_iff_mem, decide_eq_true_eq]
  obtain hlength | ⟨-, hhead⟩ := h.parallel
  · have hcount := Stretch.length_splitOn '|' p.text
    rw [h.splitOn_text, length_mapLast, List.length_modifyHead] at hcount
    exact .inl (List.count_pos_iff.1 (by omega))
  · obtain ⟨rest, hrest⟩ := List.head?_eq_some_iff.1 hhead
    refine .inr ?_
    rw [h.text, Text.trimStart, List.dropWhile_append, show opening.dropWhile _ = _ from hrest]
    rfl

/-- **The statements of the line** are the parts that are not blank. -/
theorem parts_ok {p : Pending} (h : Written opening parts closing p.text) :
    ∃ ps, p.parts = .ok ps ∧
    ps.map Pending.text = (parts.modifyHead (cutFirst opening)).filter (! Text.isBlank ·) := by
  have hnone : p.segments.find? (hasBrace ·.text) = none := by
    refine List.find?_eq_none.2 fun s hs => ?_
    have hmem := List.mem_map_of_mem (f := Stretch.text) hs
    rw [map_text_segments h] at hmem
    rw [Bool.not_eq_true]
    cases parts with
    | nil => cases hmem
    | cons part rest =>
      obtain hs | hmem := List.mem_cons.1 hmem
      · have hpart := hasBrace_eq_false.1 (h.plain part List.mem_cons_self).2
        have hsub : s.text ⊆ part := hs ▸ subset_cutFirst opening part
        exact hasBrace_eq_false.2 ⟨fun hc => hpart.1 (hsub hc), fun hc => hpart.2 (hsub hc)⟩
      · exact (h.plain _ (.tail _ hmem)).2
  refine ⟨_, by rw [Pending.parts, hnone], ?_⟩
  rw [List.map_map, ← map_text_segments h, List.filter_map]
  rfl

/-! ## The declaration -/

variable {closing' t' : Text} {parts' : List Text}

theorem brace_mem (h : Written opening parts closing t) (hne : opening ≠ []) : '\x7b' ∈ t := by
  obtain rfl | ⟨outside, braces, rfl, -⟩ := h.opened
  · exact absurd rfl hne
  · simp [h.text]

/-- Behind a brace, nothing of a line matters for the declaration. -/
theorem isDeclared_eq (h : Written opening parts closing t)
    (h' : Written opening parts' closing' t') (hne : opening ≠ []) :
    Declaration.isDeclared (Text.words t') = Declaration.isDeclared (Text.words t) := by
  obtain rfl | ⟨outside, braces, rfl, -⟩ := h.opened
  · exact absurd rfl hne
  · have ht := h.text
    have ht' := h'.text
    rw [List.append_assoc, List.cons_append] at ht ht'
    obtain hend | hmem := Text.firstWord_append (c := '\x7b') (by decide) outside
    · rw [Declaration.isDeclared_words, Declaration.isDeclared_words, ht, ht', hend, hend]
    · rw [Declaration.isDeclared_of_mem_firstWord (.inr rfl) (ht' ▸ hmem _),
        Declaration.isDeclared_of_mem_firstWord (.inr rfl) (ht ▸ hmem _)]

/-- A line without braces declares nothing unless its first part does. -/
theorem isDeclared_eq_false (h : Written [] parts closing t)
    (hparts : ∀ part ∈ parts, Text.lower (Text.firstWord part) ≠ "qubits".toList) :
    Declaration.isDeclared (Text.words t) = false := by
  obtain ⟨part, next, rest, rfl⟩ : ∃ part next rest, parts = part :: next :: rest := by
    obtain hlength | ⟨-, hhead⟩ := h.parallel
    · match parts, hlength with
      | part :: next :: rest, _ => exact ⟨part, next, rest, rfl⟩
    · cases hhead
  have ht : t = part ++ '|' :: (Text.joinWith "|" (next :: rest) ++ closing) := by
    rw [h.text, Text.joinWith_cons_cons]
    simp
  obtain hend | hmem := Text.firstWord_append (c := '|') (by decide) part
  · rw [Declaration.isDeclared_words, ht, hend, decide_eq_false_iff_not]
    exact hparts part List.mem_cons_self
  · exact Declaration.isDeclared_of_mem_firstWord (.inl rfl) (ht ▸ hmem _)

end Written

/-! ## Every parallel line is written so -/

/-- The start of a first part that is cut off: the braces that open the block, with all before them
and the blanks behind them. -/
def openingOf (t : Text) : Text :=
  if t.contains '\x7b' then
    t.takeWhile (· ≠ '\x7b') ++
      (t.dropWhile (· ≠ '\x7b')).takeWhile fun c => c = '\x7b' || Text.isBlankChar c
  else []

/-- What is cut off in front of the statements of a parallel line. -/
def opening (p : Pending) : Text := openingOf ((p.text.splitOn '|').headD [])

/-- What is cut off behind the statements of a parallel line: the brace that closes the block, with
all behind it. -/
def closing (p : Pending) : Text :=
  (((p.text.splitOn '|').modifyHead behindOpening).getLast?.getD []).dropWhile (· ≠ '\x7d')

theorem openingOf_append (t : Text) : openingOf t ++ behindOpening t = t := by
  unfold openingOf behindOpening
  split
  · rw [List.append_assoc, List.takeWhile_append_dropWhile, List.takeWhile_append_dropWhile]
  · rfl

theorem opened_openingOf (t : Text) : (openingOf t = [] ∧ '\x7b' ∉ t) ∨
    ∃ outside braces, openingOf t = outside ++ '\x7b' :: braces ∧ '\x7b' ∉ outside ∧
      ∀ c ∈ braces, c = '\x7b' ∨ Text.isBlankChar c = true := by
  unfold openingOf
  by_cases hbrace : '\x7b' ∈ t
  · obtain ⟨rest, hrest⟩ : ∃ rest, t.dropWhile (· ≠ '\x7b') = '\x7b' :: rest := by
      refine (Text.dropWhile_ne '\x7b' t).resolve_left fun hnil => ?_
      have hall := List.dropWhile_eq_nil_iff.1 hnil _ hbrace
      simp at hall
    rw [if_pos (by simpa using hbrace), hrest, List.takeWhile_cons_of_pos (by simp)]
    refine .inr ⟨_, _, rfl, fun hmem => ?_, fun c hc => ?_⟩
    · simpa using List.mem_takeWhile_imp hmem
    · simpa using List.mem_takeWhile_imp hc
  · rw [if_neg (by simpa using hbrace)]
    exact .inl ⟨rfl, hbrace⟩

/-- The last text is cut in two. -/
theorem mapLast_append_dropWhile (p : Char → Bool) (parts : List Text) :
    mapLast (· ++ (parts.getLast?.getD []).dropWhile p) (mapLast (·.takeWhile p) parts) =
      parts := by
  rw [mapLast_mapLast]
  induction parts with
  | nil => rfl
  | cons part rest ih =>
    cases rest with
    | nil => exact congrArg ([·]) List.takeWhile_append_dropWhile
    | cons next rest =>
      rw [List.getLast?_cons_cons]
      exact congrArg (part :: ·) ih

/-- **Every parallel line is written so**, if it can be cut into parts at all. -/
theorem written {p : Pending} {ps : List Pending} (hparallel : p.isParallel = true)
    (h : p.parts = .ok ps) :
    Written p.opening (p.segments.map Stretch.text) p.closing p.text := by
  obtain ⟨first, rest, hsplit⟩ : ∃ first rest, p.text.splitOn '|' = first :: rest :=
    List.exists_cons_of_ne_nil fun hnil => by
      have hlength := Stretch.length_splitOn '|' p.text
      rw [hnil] at hlength
      cases hlength
  have hbar : ∀ part ∈ first :: rest, '|' ∉ part := fun part hpart =>
    Stretch.not_mem_of_mem_splitOn (hsplit ▸ hpart)
  have hfirst : p.opening ++ behindOpening first = first := by
    rw [opening, hsplit]
    exact openingOf_append first
  have hbehind : ∀ part ∈ behindOpening first :: rest, '|' ∉ part := fun part hpart hmem => by
    obtain rfl | hrest := List.mem_cons.1 hpart
    · have hmem : '|' ∈ p.opening ++ behindOpening first := List.mem_append_right _ hmem
      exact hbar first List.mem_cons_self (hfirst ▸ hmem)
    · exact hbar part (.tail _ hrest) hmem
  have hlast : (behindOpening first :: rest).getLast?.getD [] ∈ behindOpening first :: rest := by
    rw [List.getLast?_eq_some_getLast (List.cons_ne_nil _ _)]
    exact List.getLast_mem _
  have hclosing : mapLast (· ++ p.closing) (p.segments.map Stretch.text) =
      behindOpening first :: rest := by
    rw [closing, map_text_segments, hsplit, List.modifyHead_cons]
    exact mapLast_append_dropWhile _ _
  have htext : p.text =
      p.opening ++ (Text.joinWith "|" (p.segments.map Stretch.text) ++ p.closing) := by
    have hjoin := joinWith_modifyHead "|" p.opening (List.cons_ne_nil (behindOpening first) rest)
    have hne : p.segments.map Stretch.text ≠ [] := by
      rw [ne_eq, ← List.length_eq_zero_iff, List.length_map, length_segments]
      exact Nat.succ_ne_zero _
    rw [List.modifyHead_cons, hfirst, ← hsplit] at hjoin
    rw [← joinWith_mapLast "|" p.closing hne, hclosing, ← hjoin]
    exact (List.intercalate_splitOn '|').symm
  have hopened := opened_openingOf first
  rw [show openingOf first = p.opening by rw [opening, hsplit]; rfl] at hopened
  refine ⟨htext, ?_, ?_, fun u hu => ?_, ?_⟩
  · obtain ⟨hnil, -⟩ | ⟨outside, braces, heq, houtside, hbraces⟩ := hopened
    · exact .inl hnil
    · refine .inr ⟨outside, braces, heq, fun hmem => hbar first List.mem_cons_self ?_, houtside,
        hbraces⟩
      rw [← hfirst, heq]
      exact List.mem_append_left _ (List.mem_append_left _ hmem)
  · refine (Text.dropWhile_ne '\x7d' _).imp_right fun ⟨outside, hclosed⟩ =>
      ⟨outside, hclosed, fun hmem => ?_⟩
    rw [hsplit, List.modifyHead_cons] at hclosed
    refine hbehind _ hlast ((List.dropWhile_sublist (· ≠ '\x7d')).subset ?_)
    rw [hclosed]
    exact .tail _ hmem
  · obtain ⟨s, hs, rfl⟩ := List.mem_map.1 hu
    refine ⟨bar_not_mem_segments hs, ?_⟩
    unfold Pending.parts at h
    split at h
    · cases h
    · rename_i hnone
      simpa using List.find?_eq_none.1 hnone s hs
  · rw [List.length_map, length_segments]
    by_cases hmem : '|' ∈ p.text
    · exact .inl (Nat.lt_add_of_pos_left (List.count_pos_iff.2 hmem))
    · have hhead : (Text.trimStart p.text).head? = some '\x7b' := by
        simpa [isParallel, hmem] using hparallel
      have hwhole : p.text = first := by
        rw [Text.splitOn_eq_singleton hmem] at hsplit
        exact (List.cons.inj hsplit).1
      refine .inr ⟨by simp [← List.length_eq_zero_iff, length_segments], ?_⟩
      obtain ⟨-, hnone⟩ | ⟨outside, braces, heq, houtside, -⟩ := hopened
      · rw [← hwhole] at hnone
        exact absurd ((List.dropWhile_sublist _).subset (List.mem_of_mem_head? hhead)) hnone
      · rw [htext, heq, List.append_assoc] at hhead
        have hblank : outside.dropWhile Text.isBlankChar = [] :=
          Text.trimStart_eq_nil hhead houtside
        rw [heq, Text.trimStart, List.dropWhile_append, hblank]
        rfl

end Pending

end QuantumDiagram

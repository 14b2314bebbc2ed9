import Mathlib.Data.List.Infix
import QuantumDiagram.Proofs.Program.BlamedLine
import QuantumDiagram.Proofs.Report.Lines

/-!
# The place that a report names

The header of a report names a line and a column (`Report.Names`). They are the line that the error
blames and the place in it where the span begins just if the program and the report count alike up
to there (`Circuit.names_ofProgram_iff`): a program counts bytes and ends its lines at line feeds, a
report counts characters and also ends lines at other terminators.
-/

namespace QuantumDiagram

namespace Text

theorem length_le_byteLength (t : Text) : t.length ≤ byteLength t := by
  induction t with
  | nil => exact Nat.le_refl 0
  | cons c t ih =>
    have hpos := c.utf8Size_pos
    rw [List.length_cons, byteLength_cons]
    omega

theorem byteLength_eq_length {t : Text} :
    byteLength t = t.length ↔ ∀ c ∈ t, c.utf8Size = 1 := by
  induction t with
  | nil => simp
  | cons c t ih =>
    have hpos := c.utf8Size_pos
    have hle := length_le_byteLength t
    rw [byteLength_cons, List.length_cons, List.forall_mem_cons, ← ih]
    omega

/-- What stands before the first character without a property is known from the text. -/
theorem append_cons_inj {p : Char → Bool} {s s' r r' : Text} {c c' : Char} (hs : s.all p = true)
    (hs' : s'.all p = true) (hc : p c = false) (hc' : p c' = false)
    (h : s ++ c :: r = s' ++ c' :: r') : s = s' ∧ c :: r = c' :: r' := by
  have htake {t : Text} {d : Char} (rest : Text) (ht : t.all p = true) (hd : p d = false) :
      (t ++ d :: rest).takeWhile p = t := by
    rw [List.takeWhile_append_of_pos (List.all_eq_true.1 ht),
      List.takeWhile_cons_of_neg (by simp [hd]), List.append_nil]
  have hsame : s = s' := by rw [← htake r hs hc, h, htake r' hs' hc']
  exact ⟨hsame, List.append_cancel_left (hsame ▸ h)⟩

end Text

namespace Report

open Text (line)

/-! ## Headers -/

/-- The line that tells where the error is. -/
def header (fileName : Text) (number column : Nat) : Text :=
  line [spaces ((Decimal.natural number).length + 2), paint frameColor ['╭'],
    paint frameColor ['─'], paint frameColor ['['], fileName, ":", Decimal.natural number, ":",
    Decimal.natural column, paint frameColor [']']]

/-- The report has a header with the number of a line and a column. -/
def Names (e : ParseError) (source fileName : Text) (number column : Nat) : Prop :=
  ∃ rest, text e source fileName =
    line [paint .red "Error:", " ", e.fault.message] ++ header fileName number column ++ rest

theorem exists_paint_eq_cons (color : Color) (t : Text) : ∃ rest, paint color t = '\x1b' :: rest :=
  ⟨_, rfl⟩

/-- A header is blanks, what is the same in all headers, the name, and the two numbers behind
colons. -/
theorem exists_header_eq : ∃ opening closing : Text, ∀ fileName number column,
    header fileName number column = spaces ((Decimal.natural number).length + 2) ++ '\x1b' ::
      (opening ++ (fileName ++ ':' :: (Decimal.natural number ++ ':' ::
        (Decimal.natural column ++ '\x1b' :: closing)))) := by
  obtain ⟨corner, hcorner⟩ := exists_paint_eq_cons frameColor ['╭']
  obtain ⟨bracket, hbracket⟩ := exists_paint_eq_cons frameColor [']']
  refine ⟨corner ++ paint frameColor ['─'] ++ paint frameColor ['['], bracket ++ ['\n'],
    fun fileName number column => ?_⟩
  simp [header, line, Text.join, hcorner, hbracket]

/-- The numbers of a header are known from its text. -/
theorem header_inj {fileName rest rest' : Text} {number number' column column' : Nat}
    (h : header fileName number column ++ rest = header fileName number' column' ++ rest') :
    number = number' ∧ column = column' := by
  obtain ⟨opening, closing, hheader⟩ := exists_header_eq
  have hspaces (n : Nat) : (spaces n).all (· = ' ') = true := by
    simp [spaces, Text.repeated, List.all_replicate]
  simp only [hheader, List.append_assoc, List.cons_append] at h
  obtain ⟨-, h⟩ := Text.append_cons_inj (hspaces _) (hspaces _) (by decide) (by decide) h
  have h := List.append_cancel_left (List.append_cancel_left (List.cons.inj h).2)
  obtain ⟨hnumber, h⟩ := Text.append_cons_inj (Decimal.all_isDigit_natural number)
    (Decimal.all_isDigit_natural number') (by decide) (by decide) (List.cons.inj h).2
  obtain ⟨hcolumn, -⟩ := Text.append_cons_inj (Decimal.all_isDigit_natural column)
    (Decimal.all_isDigit_natural column') (by decide) (by decide) (List.cons.inj h).2
  exact ⟨Decimal.natural_injective hnumber, Decimal.natural_injective hcolumn⟩

theorem header_ne_nil (fileName rest : Text) (number column : Nat) :
    header fileName number column ++ rest ≠ [] := by
  obtain ⟨opening, closing, hheader⟩ := exists_header_eq
  rw [hheader]
  simp

variable {e : ParseError} {source fileName : Text} {number column : Nat} {l : SourceLine}

theorem shownLine?_eq_some {s : Span} : shownLine? source s = some l ↔ s.start ≤ source.length ∧
    (s.start < s.stop → s.stop ≤ source.length + 1) ∧ lineAt? source s.start = some l := by
  have hwithin : ¬(source.length < s.start ∨ s.start < s.stop ∧ source.length < s.stop - 1) ↔
      s.start ≤ source.length ∧ (s.start < s.stop → s.stop ≤ source.length + 1) := by omega
  rw [← and_assoc, ← hwithin, shownLine?]
  split
  · next h => simp [h]
  · next h => simp [h]

/-- A report names the line that its span is shown in, and the place of the span in that line. -/
theorem names_iff : Names e source fileName number column ↔
    ∃ l, shownLine? source e.span = some l ∧ l.number = number ∧
      e.span.start - l.start + 1 = column := by
  unfold Names text
  cases hshown : shownLine? source e.span with
  | none =>
    constructor
    · rintro ⟨rest, h⟩
      rw [List.append_assoc] at h
      exact absurd (List.append_cancel_left h).symm (header_ne_nil _ _ _ _)
    · rintro ⟨l, hl, -⟩
      cases hl
  | some l =>
    have hexcerpt : ∃ below, excerpt e fileName l =
        header fileName l.number (e.span.start - l.start + 1) ++ below := ⟨_, rfl⟩
    obtain ⟨below, hexcerpt⟩ := hexcerpt
    constructor
    · rintro ⟨rest, h⟩
      simp only [hexcerpt, List.append_assoc] at h
      obtain ⟨hnumber, hcolumn⟩ := header_inj (List.append_cancel_left h)
      exact ⟨l, rfl, hnumber, hcolumn⟩
    · rintro ⟨_, hl, rfl, rfl⟩
      cases hl
      refine ⟨below, ?_⟩
      simp only [hexcerpt, List.append_assoc]

/-! ## Counting alike -/

/-- Up to the end of `before`, lines end only at line feeds, and at carriage returns before them. At
the end of a program it does not matter: no line follows. -/
def EndsAlike (before behind : Text) : Prop :=
  ∀ b c a, before = b ++ c :: a → isTerminator c = true → a ++ behind ≠ [] →
    c = '\n' ∨ c = '\r' ∧ (a ++ behind).head? = some '\n'

/-- Program and report count alike up to a span that begins behind `before`. -/
structure CountsAlike (before behind : Text) (s : Span) : Prop where
  /-- Every character has one byte. -/
  bytes : ∀ c ∈ before, c.utf8Size = 1
  ends : EndsAlike before behind
  /-- The span has not so many bytes that it ends behind the last character. -/
  shown : s.start < s.stop → s.stop ≤ (before ++ behind).length + 1

theorem startsBehind_of_feed {c : Char} {rest : Text} (h : Line.startsBehind c rest = true) :
    startsBehind c rest = true := by
  simp only [Line.startsBehind, Bool.and_eq_true, decide_eq_true_eq] at h
  obtain ⟨rfl, hrest⟩ := h
  rw [startsBehind, hrest]
  rfl

theorem startsBehind_eq_iff {c : Char} {rest : Text} :
    Line.startsBehind c rest = startsBehind c rest ↔
      (isTerminator c = true → rest ≠ [] → c = '\n' ∨ c = '\r' ∧ rest.head? = some '\n') := by
  have hours : Line.startsBehind c rest = true ↔ c = '\n' ∧ rest ≠ [] := by simp [Line.startsBehind]
  have htheirs : startsBehind c rest = true ↔
      (isTerminator c = true ∧ ¬(c = '\r' ∧ rest.head? = some '\n')) ∧ rest ≠ [] := by
    simp [startsBehind, imp_iff_not_or]
  rw [Bool.eq_iff_iff, hours, htheirs]
  constructor
  · intro h hterminator hrest
    by_cases hreturn : c = '\r' ∧ rest.head? = some '\n'
    · exact .inr hreturn
    · exact .inl (h.2 ⟨⟨hterminator, hreturn⟩, hrest⟩).1
  · intro h
    constructor
    · rintro ⟨rfl, hrest⟩
      exact ⟨⟨by decide, by simp⟩, hrest⟩
    · rintro ⟨⟨hterminator, hreturn⟩, hrest⟩
      exact ⟨(h hterminator hrest).resolve_right hreturn, hrest⟩

/-- Where lines end alike, the same lines start up to there in the program and in the report. -/
theorem startsUpTo_eq_iff {before behind : Text} :
    Text.startsUpTo Line.startsBehind before.length (before ++ behind) =
      Text.startsUpTo startsBehind before.length (before ++ behind) ↔ EndsAlike before behind := by
  rw [Text.startsUpTo_append, Text.startsUpTo_append, List.cons.injEq, Text.lineStarts_eq_iff]
  simp only [startsBehind_eq_iff, true_and, EndsAlike]

section Counting

variable {before text behind : Text} {offset : Nat} {l : SourceLine}

/-- The line and the column of an offset in bytes are those of the place just if program and report
count alike up to it. -/
theorem place_iff (hfeed : '\n' ∉ text) (hlast : before = [] ∨ before.getLast? = some '\n')
    (hne : text ++ behind ≠ []) (hoffset : offset = Text.byteLength (before ++ text))
    (hl : lineAt? (before ++ text ++ behind) offset = some l) :
    (l.number = before.count '\n' + 1 ∧ offset - l.start + 1 = text.length + 1) ↔
      (∀ c ∈ before ++ text, c.utf8Size = 1) ∧ EndsAlike (before ++ text) behind := by
  obtain ⟨hcount, hstart⟩ := Line.startsUpTo_startsBehind hfeed hlast hne
  obtain ⟨hnumber, hline⟩ := lineAt?_eq_some hl
  have hle := Text.length_le_byteLength (before ++ text)
  rw [← startsUpTo_eq_iff, ← Text.byteLength_eq_length]
  constructor
  · rintro ⟨hn, hcolumn⟩
    -- Every line of the program is one of the report; as many are the same.
    have hsub : (Text.startsUpTo Line.startsBehind (before ++ text).length
        (before ++ text ++ behind)).Sublist
          (Text.startsUpTo startsBehind offset (before ++ text ++ behind)) :=
      Text.startsUpTo_sublist (fun _ _ => startsBehind_of_feed) (hoffset ▸ hle)
    have hsame := hsub.eq_of_length (by omega)
    rw [← hsame, hstart] at hline
    have hstarts := Option.some.inj hline
    have hlength : offset = (before ++ text).length := by
      rw [List.length_append] at hle ⊢
      omega
    exact ⟨hoffset ▸ hlength, hlength ▸ hsame⟩
  · rintro ⟨hbytes, hsame⟩
    have hlength : offset = (before ++ text).length := hoffset.trans hbytes
    rw [hlength, ← hsame, hcount] at hnumber
    rw [hlength, ← hsame, hstart] at hline
    have hstarts := Option.some.inj hline
    refine ⟨hnumber, ?_⟩
    rw [hlength, List.length_append]
    omega

/-- The header names the place of a span just if program and report count alike up to it. -/
theorem names_place_iff {e : ParseError} {source : Text} (hfeed : '\n' ∉ text)
    (hlast : before = [] ∨ before.getLast? = some '\n') (hne : text ++ behind ≠ [])
    (hsource : source = before ++ text ++ behind)
    (hstart : e.span.start = Text.byteLength (before ++ text)) (fileName : Text) :
    Names e source fileName (before.count '\n' + 1) (text.length + 1) ↔
      CountsAlike (before ++ text) behind e.span := by
  have hsize : source.length = (before ++ text).length + behind.length := by
    rw [hsource, List.length_append]
  rw [names_iff]
  constructor
  · rintro ⟨shown, hshown, hplace⟩
    obtain ⟨-, hstop, hat⟩ := shownLine?_eq_some.1 hshown
    rw [hsource] at hat
    obtain ⟨hbytes, hends⟩ := (place_iff hfeed hlast hne hstart hat).1 hplace
    exact ⟨hbytes, hends, hsource ▸ hstop⟩
  · rintro ⟨hbytes, hends, hstop⟩
    have hnonempty : source ≠ [] := by
      rw [hsource, List.append_assoc]
      exact List.append_ne_nil_of_right_ne_nil before hne
    obtain ⟨shown, hat⟩ := exists_lineAt? hnonempty e.span.start
    have hlength := Text.byteLength_eq_length.2 hbytes
    have hshown : shownLine? source e.span = some shown :=
      shownLine?_eq_some.2 ⟨by omega, hsource ▸ hstop, hat⟩
    rw [hsource] at hat
    exact ⟨shown, hshown, (place_iff hfeed hlast hne hstart hat).2 ⟨hbytes, hends⟩⟩

end Counting

end Report

namespace Circuit

/-- **The header of a report names the place of the error just if program and report count alike**
up to it. -/
theorem names_ofProgram_iff {source : Text} {e : ParseError} (h : ofProgram source = .error e)
    (hline : 1 ≤ e.line) (fileName : Text) :
    ∃ l ∈ Line.ofSource source, ∃ text before behind, e.line = l.number ∧ text <+: l.text ∧
      e.span.start = l.offset + Text.byteLength text ∧ source = before ++ behind ∧
      e.span.start = Text.byteLength before ∧
      (Report.Names e source fileName e.line (text.length + 1) ↔
        Report.CountsAlike before behind e.span) := by
  obtain ⟨l, hl, hblames, hne⟩ := exists_blamed_line h hline
  obtain ⟨text, rest, htext, hstart⟩ := hblames.points.exists_start
  obtain ⟨prior, after, hsource, hoffset, hnumber, hfeed, hlast⟩ := Line.exists_before hl
  have htext : l.text = text ++ rest := htext
  have hstart : e.span.start = l.offset + Text.byteLength text := hstart
  have hplace : e.span.start = Text.byteLength (prior ++ text) := by
    rw [hstart, hoffset, Text.byteLength_append]
  have hcut : source = prior ++ text ++ (rest ++ after) := by
    rw [hsource, htext]
    simp only [List.append_assoc]
  have hbehind : text ++ (rest ++ after) ≠ [] := by
    rw [← List.append_assoc, ← htext]
    simp [hne]
  have hown : '\n' ∉ text := fun hmem => hfeed (htext ▸ List.mem_append_left rest hmem)
  refine ⟨l, hl, text, prior ++ text, rest ++ after, hblames.line, ⟨rest, htext.symm⟩, hstart, hcut,
    hplace, ?_⟩
  rw [hblames.line, hnumber]
  exact Report.names_place_iff hown hlast hbehind hcut hplace fileName

/-- The comment has a character of two bytes, so the header is one column off. -/
theorem names_ofProgram_accent :
    let source := "qubits 1\n# é\nh q7".toList
    ∃ e, ofProgram source = .error e ∧ e.line = 3 ∧ e.span = ⟨16, 18⟩ ∧
      ¬Report.Names e source "circuit.qc" 3 3 ∧ Report.Names e source "circuit.qc" 3 4 := by
  intro source
  have hwrong : (match ofProgram source with
      | .error ⟨_, 3, _, ⟨16, 18⟩⟩ => true
      | _ => false) = true := by
    decide +kernel
  have hline : ∀ l ∈ Line.ofSource source, l.number = 3 → l.offset = 14 ∧
      ∀ t ∈ l.text.inits, Text.byteLength t = 2 → t.length = 2 := by
    decide +kernel
  have haccent : ∀ t ∈ source.inits, Text.byteLength t = 16 → 'é' ∈ t := by decide +kernel
  have hshown : Report.shownLine? source ⟨16, 18⟩ = some ⟨3, 13, "h q7".toList⟩ := by
    decide +kernel
  split at hwrong
  · rename_i fault text herror
    refine ⟨_, herror, rfl, rfl, fun hnames => ?_, Report.names_iff.2 ⟨_, hshown, rfl, rfl⟩⟩
    obtain ⟨l, hl, text, before, behind, hnumber, hlead, hstart, hsource, hplace, hiff⟩ :=
      names_ofProgram_iff herror (by simp) "circuit.qc"
    obtain ⟨hoffset, hlength⟩ := hline l hl hnumber.symm
    simp only at hstart hplace hiff
    have hcolumn : text.length = 2 := hlength text ((List.mem_inits _ _).2 hlead) (by omega)
    rw [hcolumn] at hiff
    have hmem := haccent before ((List.mem_inits _ _).2 ⟨behind, hsource.symm⟩) hplace.symm
    exact absurd ((hiff.1 hnames).bytes 'é' hmem) (by decide)
  · cases hwrong

end Circuit

end QuantumDiagram

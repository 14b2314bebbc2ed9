import Mathlib.Data.List.TakeWhile
import QuantumDiagram.Proofs.Program.Lines
import QuantumDiagram.Proofs.Text.Within

/-!
# Line ends and comments

Neither the form of the line ends nor a comment makes a difference to what a program does. Main
statement: a program without carriage returns has the same outcome if its comments are taken off and
each of its line feeds is made a carriage return and a line feed; an error has the same cause and
blames the same line. If only the line ends are changed, the error has the same text too, and its
span is moved by one byte for each line before the one to blame
(`Circuit.sameOutcome_returned_uncommented`).
-/

namespace QuantumDiagram

namespace Text

/-- The text with a carriage return before each line feed. -/
def returned (t : Text) : Text := t.flatMap fun c => if c = '\n' then ['\r', '\n'] else [c]

/-- The text without its comments, which run from a mark to the end of its line. -/
def uncommented (t : Text) : Text :=
  joinWith "\n" ((t.splitOn '\n').map fun l => l.takeWhile (· ≠ '#'))

end Text

namespace ParseError

/-- The errors have the same cause and blame the same line. -/
def SameLine (e e' : ParseError) : Prop := e'.fault = e.fault ∧ e'.line = e.line

/-- The second error is the first one in a text with a carriage return at the end of each line: if
there is a line to blame, it is shown as it was, and the span is moved by one byte for each line
before. -/
structure Returned (e e' : ParseError) : Prop where
  sameLine : e.SameLine e'
  blamed : 1 ≤ e.line → e'.text = e.text ∧ e'.span = e.span.shift (e.line - 1)

end ParseError

namespace Line

/-! ## Carriage returns -/

theorem dropReturn_eq_self {t : Text} (h : '\r' ∉ t) : dropReturn t = t :=
  if_neg fun hlast => h (List.mem_of_getLast? hlast)

theorem dropReturn_append (t : Text) : dropReturn (t ++ ['\r']) = t := by
  simp [dropReturn]

/-- The lines with a carriage return at the end of each but the last. -/
def returnEach : List Text → List Text
  | [] => []
  | [t] => [t]
  | t :: rest => (t ++ ['\r']) :: returnEach rest

theorem splitOn_returned (t : Text) :
    (Text.returned t).splitOn '\n' = returnEach (t.splitOn '\n') := by
  induction t with
  | nil => rfl
  | cons c t ih =>
    have hsplit : t.splitOn '\n' ≠ [] := by simp
    by_cases hc : c = '\n'
    · subst hc
      show ('\r' :: '\n' :: Text.returned t).splitOn '\n' = _
      rw [List.splitOn_cons_eq_if_modifyHead, List.splitOn_cons_eq_if_modifyHead, ih,
        List.splitOn_cons_eq_if_modifyHead]
      cases hlines : t.splitOn '\n' with
      | nil => exact absurd hlines hsplit
      | cons first rest => rfl
    · have hreturned : Text.returned (c :: t) = c :: Text.returned t := by
        simp [Text.returned, hc]
      rw [hreturned, List.splitOn_cons_eq_if_modifyHead, List.splitOn_cons_eq_if_modifyHead,
        if_neg (by simpa using hc), if_neg (by simpa using hc), ih]
      cases hlines : t.splitOn '\n' with
      | nil => exact absurd hlines hsplit
      | cons first rest => cases rest <;> rfl

/-- The line `l'` is the line `l` of a text with a carriage return at the end of each line. -/
structure Returned (l l' : Line) : Prop where
  number : l'.number = l.number
  text : l'.text = l.text
  offset : l'.offset = (l.number - 1) + l.offset

theorem returned_placed {ts : List Text} (h : ∀ t ∈ ts, '\r' ∉ t) (before offset : Nat) :
    List.Forall₂ Returned (placed (before + 1) offset ts)
      (placed (before + 1) (before + offset) (returnEach ts)) := by
  induction ts generalizing before offset with
  | nil => exact .nil
  | cons t ts ih =>
    have ht := h t List.mem_cons_self
    have hts : ∀ u ∈ ts, '\r' ∉ u := fun u hu => h u (.tail _ hu)
    cases ts with
    | nil => exact .cons ⟨rfl, rfl, rfl⟩ .nil
    | cons u ts =>
      refine .cons ⟨rfl, ?_, rfl⟩ ?_
      · rw [dropReturn_append, dropReturn_eq_self ht]
      · have hrest := ih hts (before + 1) (offset + (Text.byteLength t + 1))
        have hreturn : Text.byteLength ['\r'] = 1 := by decide
        rwa [show before + 1 + (offset + (Text.byteLength t + 1)) =
          before + offset + (Text.byteLength (t ++ ['\r']) + 1) by
            rw [Text.byteLength_append, hreturn]
            omega] at hrest

theorem Returned.alike {l l' : Line} (h : l.Returned l') :
    l.Alike ParseError.Returned l' := by
  refine .of_pending ⟨?_, ?_, fun fault s => ⟨⟨rfl, h.number⟩, fun _ => ⟨h.text, ?_⟩⟩⟩
  · show l'.text.takeWhile _ = l.text.takeWhile _
    rw [h.text]
  · show l'.isIndented = l.isIndented
    rw [isIndented, isIndented, h.text]
  · show s.shift l'.offset = (s.shift l.offset).shift (l.number - 1)
    rw [h.offset]
    simp only [Span.shift, Nat.add_assoc]

/-! ## Comments -/

/-- The line `l'` is the line `l` of a text without comments. -/
structure Uncommented (l l' : Line) : Prop where
  number : l'.number = l.number
  text : l'.text = l.text.takeWhile (· ≠ '#')

theorem uncommented_placed {ts : List Text} (h : ∀ t ∈ ts, '\r' ∉ t)
    (number offset offset' : Nat) :
    List.Forall₂ Uncommented (placed number offset ts)
      (placed number offset' (ts.map fun t => t.takeWhile (· ≠ '#'))) := by
  induction ts generalizing number offset offset' with
  | nil => exact .nil
  | cons t ts ih =>
    refine .cons ⟨rfl, ?_⟩ (ih (fun u hu => h u (.tail _ hu)) ..)
    have ht := h t List.mem_cons_self
    have hcut : '\r' ∉ t.takeWhile (· ≠ '#') := fun hmem =>
      ht ((List.takeWhile_prefix _).subset hmem)
    rw [dropReturn_eq_self ht]
    exact dropReturn_eq_self hcut

theorem Uncommented.alike {l l' : Line} (h : l.Uncommented l') :
    l.Alike ParseError.SameLine l' := by
  refine .of_pending ⟨?_, ?_, fun fault s => ⟨rfl, h.number⟩⟩
  · show l'.text.takeWhile _ = l.text.takeWhile _
    rw [h.text]
    exact List.takeWhile_eq_self_iff.2 fun _ => List.all_eq_true.1 List.all_takeWhile _
  · show l'.isIndented = l.isIndented
    rw [isIndented, isIndented, h.text]
    cases l.text with
    | nil => rfl
    | cons c t =>
      by_cases hc : c = '#'
      · subst hc
        rfl
      · rw [List.takeWhile_cons_of_pos (by simpa using hc)]
        rfl

theorem splitOn_uncommented (t : Text) : (Text.uncommented t).splitOn '\n' =
    (t.splitOn '\n').map fun l => l.takeWhile (· ≠ '#') := by
  refine List.splitOn_intercalate '\n' (fun l hl => ?_) (by simp)
  obtain ⟨u, hu, rfl⟩ := List.mem_map.1 hl
  exact fun hmem => Stretch.not_mem_of_mem_splitOn hu ((List.takeWhile_prefix _).subset hmem)

end Line

namespace Circuit

variable {source : Text}

theorem return_not_mem_line (h : '\r' ∉ source) : ∀ t ∈ source.splitOn '\n', '\r' ∉ t := by
  intro t ht hmem
  obtain ⟨s, hs, rfl⟩ := List.mem_map.1 (Stretch.map_text_split '\n' ⟨0, source⟩ ▸ ht)
  exact h ((Stretch.within_split hs).subset _ hmem)

theorem sameOutcome_returned (h : '\r' ∉ source) :
    SameOutcome ParseError.Returned (· = ·) (ofProgram source)
      (ofProgram (Text.returned source)) := by
  refine sameOutcome_of_lines ?_ ⟨⟨rfl, rfl⟩, fun hline => absurd hline (Nat.not_succ_le_zero 0)⟩
  rw [Line.ofSource_eq_placed, Line.ofSource_eq_placed, Line.splitOn_returned]
  exact (Line.returned_placed (return_not_mem_line h) 0 0).imp fun _ _ hl => hl.alike

theorem sameOutcome_uncommented (h : '\r' ∉ source) :
    SameOutcome ParseError.SameLine (· = ·) (ofProgram source)
      (ofProgram (Text.uncommented source)) := by
  refine sameOutcome_of_lines ?_ ⟨rfl, rfl⟩
  rw [Line.ofSource_eq_placed, Line.ofSource_eq_placed, Line.splitOn_uncommented]
  exact (Line.uncommented_placed (return_not_mem_line h) 1 0 0).imp fun _ _ hl => hl.alike

theorem return_not_mem_uncommented (h : '\r' ∉ source) : '\r' ∉ Text.uncommented source := by
  intro hmem
  rcases Text.mem_of_mem_joinWith hmem with hfeed | ⟨l, hl, hmem⟩
  · cases hfeed with
    | tail _ hfeed => cases hfeed
  · obtain ⟨t, ht, rfl⟩ := List.mem_map.1 hl
    exact return_not_mem_line h t ht ((List.takeWhile_prefix _).subset hmem)

/-- **Line ends and comments make no difference.** If a program without carriage returns gets one
before each line feed and loses its comments, its circuit is the same, and an error has the same
cause and the same line. If it only gets the carriage returns, an error that blames a line also
shows the same text, and its span is moved by one byte for each line before that. -/
theorem sameOutcome_returned_uncommented (h : '\r' ∉ source) :
    SameOutcome ParseError.SameLine (· = ·) (ofProgram source)
      (ofProgram (Text.returned (Text.uncommented source))) ∧
    SameOutcome ParseError.Returned (· = ·) (ofProgram source)
      (ofProgram (Text.returned source)) := by
  refine ⟨?_, sameOutcome_returned h⟩
  refine (sameOutcome_uncommented h).trans
    (sameOutcome_returned (return_not_mem_uncommented h)) ?_ fun _ _ _ => Eq.trans
  rintro e e' e'' ⟨hfault, hline⟩ ⟨⟨hfault', hline'⟩, -⟩
  exact ⟨hfault'.trans hfault, hline'.trans hline⟩

/-- An error on the second line, with comments on both lines. -/
theorem sameOutcome_returned_two_lines :
    let source := "qubits 1 # one\n\ty q3 # off".toList
    '\r' ∉ source ∧ ∃ e e' e'', ofProgram source = .error e ∧ e.line = 2 ∧
      ofProgram (Text.returned (Text.uncommented source)) = .error e' ∧ e.SameLine e' ∧
      ofProgram (Text.returned source) = .error e'' ∧ e''.text = e.text ∧
      e''.span = e.span.shift 1 := by
  intro source
  have hreturn : '\r' ∉ source := by decide
  obtain ⟨hboth, hreturned⟩ := sameOutcome_returned_uncommented hreturn
  have hwrong : (match ofProgram source with
      | .error ⟨_, 2, _, _⟩ => true
      | _ => false) = true := by
    decide +kernel
  split at hwrong
  · rename_i fault text span he
    rw [he] at hboth hreturned
    obtain ⟨e', he', hsame⟩ := hboth.exists_of_error
    obtain ⟨e'', he'', hreturned⟩ := hreturned.exists_of_error
    obtain ⟨htext, hspan⟩ := hreturned.blamed (by decide : 1 ≤ 2)
    exact ⟨hreturn, _, e', e'', he, rfl, he', hsame, he'', htext, hspan⟩
  · cases hwrong

end Circuit

end QuantumDiagram

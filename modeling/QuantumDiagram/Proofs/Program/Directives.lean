import Mathlib.Data.List.TakeWhile
import QuantumDiagram.Proofs.Program.Lines
import QuantumDiagram.Proofs.Statement.FirstLexeme
import QuantumDiagram.Proofs.Text.Within

/-!
# Directives to display something

A statement whose first word begins with `display` is a directive to display something, and does
nothing. Neither does a line whose statements are all directives: if it has a bar it is a parallel
line, and its parts are the statements (`Draft.executeLine_display`).
`Circuit.ofProgram_insert_display` says what it means to put such a line into a program, behind the
declaration: the circuit is the same, and so is an error but for its line number and its span, if it
blames a line behind the new one.
-/

namespace QuantumDiagram

/-- What is read of a line: it is taken without its end and without its comment. -/
def Line.code (t : Text) : Text := (dropReturn t).takeWhile (· ≠ '#')

/-- Whether the first word of a statement begins with `display`, in small letters or capitals. -/
def Text.isDisplay (t : Text) : Bool := startsWith (lower (firstWord t)) "display"

/-- The line `t` as a statement. Where it stands in a program plays no role in how it is cut. -/
def Line.pending (t : Text) : Pending := Pending.ofLine ⟨1, 0, dropReturn t⟩

/-- All statements of the line are directives: it is blank or one directive itself, or it is a
parallel line all of whose parts are directives or blank, with no inner block. -/
inductive Line.IsDirective (t : Text) : Prop
  | plain (display : Text.isBlank (code t) = true ∨ Text.isDisplay (code t) = true)
      (bar : '|' ∉ code t) : IsDirective t
  | block (parallel : (pending t).isParallel = true)
      (parts : ∀ s ∈ (pending t).segments, Pending.hasBrace s.text = false ∧
        (Text.isBlank s.text = true ∨ Text.isDisplay s.text = true)) : IsDirective t

/-! ## Lines that do nothing -/

namespace Pending

variable {p : Pending}

theorem mapLast_eq_self {α : Type} {f : α → α} {l : List α} (h : ∀ x ∈ l, f x = x) :
    mapLast f l = l := by
  fun_induction mapLast f l with
  | case1 => rfl
  | case2 x => rw [h x List.mem_cons_self]
  | case3 x rest _ ih => rw [ih fun y hy => h y (.tail _ hy)]

theorem hasBrace_eq_false {t : Text} : hasBrace t = false ↔ '\x7b' ∉ t ∧ '\x7d' ∉ t := by
  simp [hasBrace]

/-- What is left of the first stretch of a line. -/
def behindOpening (t : Text) : Text :=
  if t.contains '\x7b' then
    (t.dropWhile (· ≠ '\x7b')).dropWhile fun c => c = '\x7b' || Text.isBlankChar c
  else t

theorem text_afterOpening (s : Stretch) : (afterOpening s).text = behindOpening s.text := by
  unfold afterOpening behindOpening
  split <;> rfl

theorem map_text_segments (p : Pending) : p.segments.map Stretch.text =
    mapLast (·.takeWhile (· ≠ '\x7d')) ((p.text.splitOn '|').modifyHead behindOpening) := by
  have hlast (s : Stretch) : s.text.takeWhile (· ≠ '\x7d') = (beforeClosing s).text := rfl
  rw [segments, ← mapLast_map hlast, text, ← Stretch.map_text_split]
  cases p.stretch.split '|' with
  | nil => rfl
  | cons s ss =>
    rw [List.modifyHead_cons, List.map_cons, List.map_cons, List.modifyHead_cons, text_afterOpening]

/-- How a line is cut depends on its text only. -/
theorem map_text_segments_congr {q : Pending} (h : q.text = p.text) :
    q.segments.map Stretch.text = p.segments.map Stretch.text := by
  rw [map_text_segments, map_text_segments, h]

/-- A directive does not begin with a brace, so only a bar can make its line a parallel one. -/
theorem isParallel_of_display (h : Text.isDisplay p.text = true) (hbar : '|' ∉ p.text) :
    p.isParallel = false := by
  have hhead : (Text.trimStart p.text).head? ≠ some '\x7b' := by
    intro hhead
    obtain ⟨rest, hrest⟩ := List.head?_eq_some_iff.1 hhead
    obtain ⟨w, hw⟩ := Text.firstWord_cons (c := '\x7b') (by decide) rest
    rw [← hrest, Text.firstWord_trimStart] at hw
    rw [Text.isDisplay, hw] at h
    cases h
  simp [isParallel, hbar, hhead]

theorem statements_display {t : Text} (h : Line.IsDirective t) (hp : p.text = Line.code t) :
    ∃ ps, p.statements = .ok ps ∧ ∀ q ∈ ps, Text.isDisplay q.text = true := by
  have htext : p.text = (Line.pending t).text := hp
  cases h with
  | plain display bar =>
    rw [← hp] at display bar
    have hparallel : p.isParallel = false := by
      obtain hblank | hdisplay := display
      · cases hparallel : p.isParallel with
        | false => rfl
        | true => rw [isBlank_of_isParallel hparallel] at hblank; cases hblank
      · exact isParallel_of_display hdisplay bar
    rw [statements, hparallel]
    cases hblank : Text.isBlank p.text with
    | true => exact ⟨[], rfl, by simp⟩
    | false =>
      refine ⟨[p], rfl, fun q hq => ?_⟩
      rw [List.mem_singleton.1 hq]
      exact display.resolve_left (by simp [hblank])
  | block parallel parts =>
    have hparallel : p.isParallel = true := by
      rw [isParallel, htext]
      exact parallel
    have hparts : ∀ s ∈ p.segments, hasBrace s.text = false ∧
        (Text.isBlank s.text = true ∨ Text.isDisplay s.text = true) := fun s hs => by
      have hmem := List.mem_map_of_mem (f := Stretch.text) hs
      rw [map_text_segments_congr htext] at hmem
      obtain ⟨s', hs', heq⟩ := List.mem_map.1 hmem
      rw [← heq]
      exact parts s' hs'
    have hnone : p.segments.find? (hasBrace ·.text) = none :=
      List.find?_eq_none.2 fun s hs => by simp [(hparts s hs).1]
    refine ⟨_, by rw [statements, if_pos hparallel, Pending.parts, hnone], fun q hq => ?_⟩
    obtain ⟨s, hs, rfl⟩ := List.mem_map.1 hq
    obtain ⟨hs, hblank⟩ := List.mem_filter.1 hs
    exact (hparts s hs).2.resolve_left (by simpa using hblank)

end Pending

namespace Draft

theorem executeAll_display {ps : List Pending} (h : ∀ p ∈ ps, Text.isDisplay p.text = true)
    (d : Draft) : d.executeAll d.column ps = .ok (d, false) := by
  induction ps with
  | nil => rfl
  | cons p ps ih =>
    have hp : Text.startsWith (leadingWord p) "display" = true := h p List.mem_cons_self
    rw [executeAll, execute, if_pos hp]
    show ((d.executeAll d.column ps) >>= _) = _
    rw [ih fun q hq => h q (.tail _ hq)]
    rfl

/-- A line of directives leaves the draft as it is. -/
theorem executeLine_display {t : Text} (h : Line.IsDirective t) (number offset : Nat) (d : Draft) :
    d.executeLine ⟨number, offset, Line.dropReturn t⟩ = .ok d := by
  let l : Line := ⟨number, offset, Line.dropReturn t⟩
  obtain ⟨ps, hps, hdisplay⟩ := Pending.statements_display (p := Pending.ofLine l) h rfl
  rw [executeLine, hps]
  show ((d.executeAll d.column ps) >>= _) = _
  rw [executeAll_display hdisplay]
  rfl

theorem foldlM_executeLine_display {t : Text} (h : Line.IsDirective t) (number offset : Nat)
    (before behind : List Line) (d : Draft) :
    (before ++ ⟨number, offset, Line.dropReturn t⟩ :: behind).foldlM executeLine d =
      (before ++ behind).foldlM executeLine d := by
  rw [List.foldlM_append, List.foldlM_append]
  refine congrArg (before.foldlM executeLine d >>= ·) (funext fun e => ?_)
  rw [List.foldlM_cons, executeLine_display h]
  rfl

end Draft

/-! ## A line more -/

namespace Line

/-- The line, if there is one line more before it, of so many bytes. -/
def moved (bytes : Nat) (l : Line) : Line := ⟨l.number + 1, bytes + l.offset, l.text⟩

theorem placed_moved (number offset bytes : Nat) (ts : List Text) :
    placed (number + 1) (bytes + offset) ts = (placed number offset ts).map (moved bytes) := by
  induction ts generalizing number offset with
  | nil => rfl
  | cons t ts ih =>
    rw [placed, placed, List.map_cons, ← ih, Nat.add_assoc bytes offset]
    rfl

/-- The lines of a program with one line more: the lines before it are the same, those behind it are
moved. -/
theorem ofSource_insert {source new : Text} {before behind : List Text}
    (hlines : source.splitOn '\n' = before ++ behind) (hnew : '\n' ∉ new) : ∃ offset,
    ofSource source = placed 1 0 before ++ placed (1 + before.length) offset behind ∧
    ofSource (Text.joinWith "\n" (before ++ new :: behind)) =
      placed 1 0 before ++ ⟨1 + before.length, offset, dropReturn new⟩ ::
        (placed (1 + before.length) offset behind).map (moved (Text.byteLength new + 1)) := by
  have hold : before ++ behind ⊆ source.splitOn '\n' := by
    rw [hlines]
    exact List.Subset.refl _
  have hsplit := splitOn_joinWith hold hnew
  obtain ⟨offset, hplaced⟩ := placed_append 1 0 before
  refine ⟨offset, ?_, ?_⟩
  · rw [ofSource_eq_placed, hlines, hplaced]
  · rw [ofSource_eq_placed, hsplit, hplaced, placed, Nat.add_comm offset, placed_moved]

end Line

namespace ParseError

/-- The error, if one line of so many bytes is put in behind the first `count` lines. -/
def behindLine (count bytes : Nat) (e : ParseError) : ParseError :=
  if count < e.line then { e with line := e.line + 1, span := e.span.shift bytes } else e

/-- How the errors of a program and of the one with a line more are related. -/
def Moved (count bytes : Nat) (e e' : ParseError) : Prop := e' = e.behindLine count bytes

variable {count bytes : Nat} {l : Line}

theorem alike_of_le (h : l.number ≤ count) :
    (Pending.ofLine l).Alike (Moved count bytes) (Pending.ofLine l) where
  text := rfl
  indented := rfl
  located _ _ := (if_neg (Nat.not_lt.2 h)).symm

theorem alike_moved (h : count < l.number) :
    (Pending.ofLine l).Alike (Moved count bytes) (Pending.ofLine (l.moved bytes)) where
  text := rfl
  indented := rfl
  located fault s := by
    have hspan : s.shift (bytes + l.offset) = (s.shift l.offset).shift bytes := by
      simp only [Span.shift, Nat.add_assoc]
    refine Eq.trans ?_ (if_pos h).symm
    show (⟨fault, l.number + 1, l.text, s.shift (bytes + l.offset)⟩ : ParseError) = _
    rw [hspan]
    rfl

end ParseError

/-- A declaration is found among the lines that hold one, or found to be wrong there. -/
theorem Declaration.find_of_declared {lines : List Line}
    (h : ∃ l ∈ lines, isDeclared (Text.words l.uncommented.text) = true) :
    (∃ qubits rest, rest ⊆ lines ∧
      ∀ size more, find size (lines ++ more) = .ok (qubits, rest ++ more)) ∨
    ∃ e, (∃ l ∈ lines, e.line = l.number) ∧ ∀ size more, find size (lines ++ more) = .error e := by
  induction lines with
  | nil => simp at h
  | cons l lines ih =>
    by_cases hl : isDeclared (Text.words l.uncommented.text) = true
    · cases hcount : qubits? (Text.words l.uncommented.text) with
      | some n =>
        refine .inl ⟨n, lines, List.subset_cons_self _ _, fun size more => ?_⟩
        simp [find, hl, hcount]
      | none =>
        refine .inr ⟨⟨.missingDeclaration, l.number, l.text, l.uncommented.span⟩,
          ⟨l, List.mem_cons_self, rfl⟩, fun size more => ?_⟩
        simp [find, hl, hcount]
    · have hrest : ∃ l ∈ lines, isDeclared (Text.words l.uncommented.text) = true := by
        obtain ⟨m, hm, hdeclared⟩ := h
        exact ⟨m, (List.mem_cons.1 hm).resolve_left fun heq => hl (heq ▸ hdeclared), hdeclared⟩
      obtain ⟨qubits, rest, hsub, hfind⟩ | ⟨e, ⟨m, hm, hline⟩, hfind⟩ := ih hrest
      · refine .inl ⟨qubits, rest, fun _ hm => .tail _ (hsub hm), fun size more => ?_⟩
        rw [List.cons_append, find, if_neg hl, hfind]
      · refine .inr ⟨e, ⟨m, .tail _ hm, hline⟩, fun size more => ?_⟩
        rw [List.cons_append, find, if_neg hl, hfind]

namespace Circuit

/-- **A line of directives to display something changes nothing** but the line numbers and the spans
of the errors behind it. -/
theorem ofProgram_insert_display {source directive : Text} {before behind : List Text}
    (hlines : source.splitOn '\n' = before ++ behind)
    (hdeclared : ∃ t ∈ before, Declaration.isDeclared (Text.words (Line.code t)) = true)
    (hfeed : '\n' ∉ directive) (hdirective : Line.IsDirective directive) :
    ofProgram (Text.joinWith "\n" (before ++ directive :: behind)) =
      (ofProgram source).mapError
        (ParseError.behindLine before.length (Text.byteLength directive + 1)) := by
  obtain ⟨offset, hold, hnew⟩ := Line.ofSource_insert hlines hfeed
  have hearly : ∃ l ∈ Line.placed 1 0 before,
      Declaration.isDeclared (Text.words l.uncommented.text) = true := by
    obtain ⟨t, ht, hdeclared⟩ := hdeclared
    have htext : Line.dropReturn t ∈ (Line.placed 1 0 before).map Line.text :=
      Line.map_text_placed 1 0 before ▸ List.mem_map_of_mem ht
    obtain ⟨l, hl, hlt⟩ := List.mem_map.1 htext
    refine ⟨l, hl, ?_⟩
    rw [Line.uncommented, hlt]
    exact hdeclared
  have hle : ∀ l ∈ Line.placed 1 0 before, l.number ≤ before.length := fun l hl => by
    have := Line.number_of_mem_placed hl
    omega
  obtain ⟨qubits, rest, hsub, hfind⟩ | ⟨e, ⟨l, hl, hline⟩, hfind⟩ :=
    Declaration.find_of_declared hearly
  · have hrun := ofProgram_eq_executeLines ((congrArg _ hold).trans (hfind _ _))
    have hrun' := ofProgram_eq_executeLines ((congrArg _ hnew).trans (hfind _ _))
    rw [hrun, hrun', Draft.foldlM_executeLine_display hdirective]
    refine SameOutcome.eq_mapError (((Draft.Alike.of_opened rfl).executeLines ?_).bind
      fun _ _ h => h.finish)
    -- Errors of the lines before the new one are not moved, errors of the others are.
    refine List.rel_append (List.forall₂_same.2 fun l hl => ?_) ?_
    · exact ParseError.alike_of_le (hle l (hsub hl))
    · rw [List.forall₂_map_right_iff]
      refine List.forall₂_same.2 fun l hl => ParseError.alike_moved ?_
      have := Line.number_of_mem_placed hl
      omega
  · rw [ofProgram_of_find_error ((congrArg _ hold).trans (hfind _ _)),
      ofProgram_of_find_error ((congrArg _ hnew).trans (hfind _ _))]
    have hnot : ¬ before.length < e.line := by
      rw [hline]
      exact Nat.not_lt.2 (hle l hl)
    exact congrArg Except.error (if_neg hnot).symm

/-- Two directives in one line, put in before a line whose operand is no channel. -/
theorem ofProgram_insert_two_displays : ∃ e,
    "qubits 1\n.a\n h q0\ny q3".toList.splitOn '\n' =
      ["qubits 1".toList, ".a".toList, " h q0".toList] ++ ["y q3".toList] ∧
    Declaration.isDeclared (Text.words (Line.code "qubits 1".toList)) = true ∧
    '\n' ∉ "DISPLAY | display b0 # x q0".toList ∧
    Line.IsDirective "DISPLAY | display b0 # x q0".toList ∧
    ofProgram "qubits 1\n.a\n h q0\ny q3".toList = .error e ∧
    ofProgram (Text.joinWith "\n" (["qubits 1".toList, ".a".toList, " h q0".toList] ++
      "DISPLAY | display b0 # x q0".toList :: ["y q3".toList])) =
        .error { e with line := 5, span := ⟨48, 50⟩ } := by
  have hlines : "qubits 1\n.a\n h q0\ny q3".toList.splitOn '\n' =
      ["qubits 1".toList, ".a".toList, " h q0".toList] ++ ["y q3".toList] := by decide
  have hdeclared : Declaration.isDeclared (Text.words (Line.code "qubits 1".toList)) = true := by
    decide
  have hfeed : '\n' ∉ "DISPLAY | display b0 # x q0".toList := by decide
  have hdirective : Line.IsDirective "DISPLAY | display b0 # x q0".toList :=
    .block (by decide) (by decide)
  have hwrong : (match ofProgram "qubits 1\n.a\n h q0\ny q3".toList with
      | .error ⟨.unresolvedOperand _, 4, _, ⟨20, 22⟩⟩ => true
      | _ => false) = true := by
    decide +kernel
  split at hwrong
  · rename_i operand text he
    have hinsert := ofProgram_insert_display hlines ⟨_, List.mem_cons_self, hdeclared⟩ hfeed
      hdirective
    rw [he] at hinsert
    exact ⟨_, hlines, hdeclared, hfeed, hdirective, he, hinsert⟩
  · cases hwrong

/-- A line that begins with a directive, but is a parallel line and has a gate in it. -/
theorem ofProgram_insert_display_bar : ∃ m m',
    "qubits 1".toList.splitOn '\n' = ["qubits 1".toList] ++ [] ∧
    Declaration.isDeclared (Text.words (Line.code "qubits 1".toList)) = true ∧
    '\n' ∉ "display | x q0".toList ∧ Text.isDisplay (Line.code "display | x q0".toList) = true ∧
    ofProgram "qubits 1".toList = .ok m ∧
    ofProgram (Text.joinWith "\n" (["qubits 1".toList] ++ "display | x q0".toList :: [])) = .ok m' ∧
    m' ≠ m := by
  have hold : ((ofProgram "qubits 1".toList).toOption.map (·.columns)) = some 0 := by
    decide +kernel
  have hnew : ((ofProgram (Text.joinWith "\n" (["qubits 1".toList] ++
      "display | x q0".toList :: []))).toOption.map (·.columns)) = some 1 := by
    decide +kernel
  obtain ⟨m, hm, hcolumns⟩ := Option.map_eq_some_iff.1 hold
  obtain ⟨m', hm', hcolumns'⟩ := Option.map_eq_some_iff.1 hnew
  refine ⟨m, m', by decide, by decide, by decide, by decide, toOption_eq_some.1 hm,
    toOption_eq_some.1 hm', fun heq => ?_⟩
  rw [heq, hcolumns] at hcolumns'
  cases hcolumns'

end Circuit

end QuantumDiagram

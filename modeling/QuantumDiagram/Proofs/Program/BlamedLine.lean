import QuantumDiagram.Proofs.Program.Blame

/-!
# Where the blamed line stands

The line that an error blames is not empty (`Circuit.exists_blamed_line`), because only statements
that are not blank are executed, and a subroutine stays open with the line of such a statement.
Before a line stand as many line feeds as its number says, the last of them at its very start
(`Line.exists_before`).
-/

namespace QuantumDiagram

/-! ## Lines in a program -/

/-- Before the texts that stand between separators there are as many separators as texts. -/
theorem Stretch.exists_before_placeFrom {separator : Char} {offset : Nat} {ts : List Text} {i : Nat}
    {s : Stretch} (h : (placeFrom separator.utf8Size offset ts)[i]? = some s)
    (hts : ∀ t ∈ ts, separator ∉ t) : ∃ before after,
      [separator].intercalate ts = before ++ s.text ++ after ∧
        s.offset = offset + Text.byteLength before ∧ before.count separator = i ∧
        (before = [] ∨ before.getLast? = some separator) := by
  induction ts generalizing offset i with
  | nil => cases h
  | cons t ts ih =>
    obtain ⟨ht, hts⟩ := List.forall_mem_cons.1 hts
    cases i with
    | zero =>
      cases h
      cases ts with
      | nil => exact ⟨[], [], by simp, rfl, rfl, .inl rfl⟩
      | cons u ts =>
        rw [List.intercalate_cons_cons]
        exact ⟨[], [separator] ++ [separator].intercalate (u :: ts), by simp, rfl, rfl, .inl rfl⟩
    | succ i =>
      cases ts with
      | nil => cases h
      | cons u ts =>
        obtain ⟨before, after, htext, hoffset, hcount, hlast⟩ := ih h hts
        refine ⟨t ++ [separator] ++ before, after, ?_, ?_, ?_, .inr ?_⟩
        · rw [List.intercalate_cons_cons, htext]
          simp only [List.append_assoc]
        · rw [hoffset, Text.byteLength_append, Text.byteLength_append]
          simp only [Text.byteLength_cons, Text.byteLength_nil]
          omega
        · rw [List.count_append, List.count_append, List.count_eq_zero.2 ht, hcount,
            List.count_singleton_self]
          omega
        · rcases hlast with rfl | hlast
          · simp
          · rw [List.getLast?_append, hlast]
            rfl

namespace Line

variable {source : Text} {l : Line}

theorem prefix_dropReturn (t : Text) : dropReturn t <+: t := by
  unfold dropReturn
  split
  · exact List.dropLast_prefix t
  · exact List.prefix_rfl

/-- What stands before a line ends with a line feed, and the line has the number of the line feeds
before it. -/
theorem exists_before (h : l ∈ ofSource source) : ∃ before after,
    source = before ++ l.text ++ after ∧ l.offset = Text.byteLength before ∧
      l.number = before.count '\n' + 1 ∧ '\n' ∉ l.text ∧
      (before = [] ∨ before.getLast? = some '\n') := by
  obtain ⟨s, hpos, hs, hl⟩ := exists_of_mem_ofSource h
  have hfeed : ∀ t ∈ source.splitOn '\n', '\n' ∉ t := fun _ => Stretch.not_mem_of_mem_splitOn
  obtain ⟨before, after, htext, hoffset, hcount, hlast⟩ :=
    Stretch.exists_before_placeFrom hs hfeed
  rw [List.intercalate_splitOn] at htext
  obtain ⟨ending, hending⟩ := prefix_dropReturn s.text
  have hline : l.text = dropReturn s.text := congrArg Stretch.text hl
  have hstart : l.offset = s.offset := congrArg Stretch.offset hl
  rw [← hline] at hending
  refine ⟨before, ending ++ after, ?_, ?_, ?_, ?_, hlast⟩
  · rw [← hending] at htext
    simpa only [List.append_assoc] using htext
  · rw [hstart, hoffset, Nat.zero_add]
  · omega
  · intro hmem
    refine Stretch.not_mem_split (List.mem_of_getElem? hs) ?_
    rw [← hending]
    exact List.mem_append_left _ hmem

end Line

/-! ## The line of an error -/

/-- The line that an error blames is not empty. -/
theorem Circuit.exists_blamed_line {source : Text} {e : ParseError}
    (h : ofProgram source = .error e) (hline : 1 ≤ e.line) :
    ∃ l ∈ Line.ofSource source, e.Blames l l.stretch ∧ l.text ≠ [] := by
  refine (blamed_line h).resolve_left fun ⟨he, _⟩ => ?_
  rw [he] at hline
  cases hline

/-- What an error points to begins inside the line. -/
theorem ParseError.Points.exists_start {e : ParseError} {whole : Stretch} (h : e.Points whole) :
    ∃ before behind, whole.text = before ++ behind ∧
      e.span.start = whole.offset + Text.byteLength before := by
  cases h with
  | @piece piece marks _ _ =>
    obtain ⟨⟨before, after, htext, hstart⟩, -⟩ := marks
    exact ⟨before, piece ++ after, by rw [htext, List.append_assoc], hstart⟩
  | @behind _ gaps _ _ marks =>
    obtain ⟨⟨before, after, htext, hstop⟩, hstart⟩ := marks
    refine ⟨before ++ gaps, after, htext, ?_⟩
    rw [Text.byteLength_append]
    simp only at hstop hstart
    omega

end QuantumDiagram

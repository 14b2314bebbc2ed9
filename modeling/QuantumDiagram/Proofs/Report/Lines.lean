import Mathlib.Data.List.Basic
import QuantumDiagram.Report

/-!
# Where lines start

Two ways of cutting a text into lines differ in the characters that end a line. Each has its list of
starts (`Text.lineStarts`), counted in characters; if a character that ends a line in one way ends
it in the other way too, the first list is part of the second. The line of a report is the last one
that starts at an offset or before it, and it has the number of the lines that do
(`Report.lineAt?_eq_some`).
-/

namespace QuantumDiagram

namespace Text

/-- The starts of all lines but the first. `ends` says of a character, given with the text behind
it, whether a line starts behind it. -/
def lineStarts (ends : Char → Text → Bool) (start : Nat) : Text → List Nat
  | [] => []
  | c :: rest =>
    (if ends c rest then [start + 1] else []) ++ lineStarts ends (start + 1) rest

variable {ends ends' : Char → Text → Bool} {start n : Nat} {s t : Text}

theorem mem_lineStarts : n ∈ lineStarts ends start t ↔ ∃ before c after,
    t = before ++ c :: after ∧ ends c after = true ∧ n = start + before.length + 1 := by
  induction t generalizing start with
  | nil => simp [lineStarts]
  | cons c t ih =>
    rw [lineStarts, List.mem_append, ih]
    constructor
    · rintro (h | ⟨before, d, after, rfl, hd, rfl⟩)
      · split at h
        · next hc => exact ⟨[], c, t, rfl, hc, List.mem_singleton.1 h⟩
        · cases h
      · refine ⟨c :: before, d, after, rfl, hd, ?_⟩
        rw [List.length_cons]
        omega
    · rintro ⟨before, d, after, htext, hd, rfl⟩
      cases before with
      | nil =>
        cases htext
        rw [if_pos hd]
        exact .inl (List.mem_singleton_self _)
      | cons b before =>
        cases htext
        refine .inr ⟨before, d, after, rfl, hd, ?_⟩
        rw [List.length_cons]
        omega

theorem lineStarts_append : lineStarts ends start (s ++ t) =
    lineStarts (fun c rest => ends c (rest ++ t)) start s ++
      lineStarts ends (start + s.length) t := by
  induction s generalizing start with
  | nil => rfl
  | cons c s ih =>
    rw [List.cons_append, lineStarts, lineStarts, ih, List.length_cons, List.append_assoc,
      Nat.add_assoc start, Nat.add_comm 1]

/-- A line starts behind a character just if its end is there. -/
theorem ends_iff_mem {before after : Text} {c : Char} (h : t = before ++ c :: after) :
    ends c after = true ↔ start + before.length + 1 ∈ lineStarts ends start t := by
  refine ⟨fun hc => mem_lineStarts.2 ⟨before, c, after, h, hc, rfl⟩, fun hmem => ?_⟩
  obtain ⟨before', d, after', htext, hd, hlength⟩ := mem_lineStarts.1 hmem
  obtain ⟨-, htail⟩ := List.append_inj (h.symm.trans htext) (by omega)
  cases htail
  exact hd

theorem lineStarts_eq_iff : lineStarts ends start t = lineStarts ends' start t ↔
    ∀ before c after, t = before ++ c :: after → ends c after = ends' c after := by
  constructor
  · intro h before c after htext
    rw [Bool.eq_iff_iff, ends_iff_mem htext, ends_iff_mem htext, h]
  · intro h
    induction t generalizing start with
    | nil => rfl
    | cons c t ih =>
      have hrest : lineStarts ends (start + 1) t = lineStarts ends' (start + 1) t :=
        ih fun before d after htext => h (c :: before) d after (by rw [htext, List.cons_append])
      rw [lineStarts, lineStarts, h [] c t rfl, hrest]

theorem lineStarts_sublist (h : ∀ c rest, ends c rest = true → ends' c rest = true) :
    (lineStarts ends start t).Sublist (lineStarts ends' start t) := by
  induction t generalizing start with
  | nil => exact .refl _
  | cons c t ih =>
    refine List.Sublist.append ?_ ih
    by_cases hc : ends c t = true
    · rw [if_pos hc, if_pos (h c t hc)]
    · rw [if_neg hc]
      exact List.nil_sublist _

/-- The starts of the lines that start at an offset or before it. -/
def startsUpTo (ends : Char → Text → Bool) (offset : Nat) (t : Text) : List Nat :=
  0 :: (lineStarts ends 0 t).filter (· ≤ offset)

/-- Up to the end of the first part of a text, the lines start that start in it. -/
theorem startsUpTo_append : startsUpTo ends s.length (s ++ t) =
    0 :: lineStarts (fun c rest => ends c (rest ++ t)) 0 s := by
  rw [startsUpTo, lineStarts_append, List.filter_append, List.filter_eq_self.2,
    List.filter_eq_nil_iff.2, List.append_nil]
  · intro n hn hle
    obtain ⟨before, c, after, -, -, rfl⟩ := mem_lineStarts.1 hn
    simp only [decide_eq_true_eq] at hle
    omega
  · intro n hn
    obtain ⟨before, c, after, rfl, -, rfl⟩ := mem_lineStarts.1 hn
    simp only [List.length_append, List.length_cons, decide_eq_true_eq]
    omega

theorem startsUpTo_sublist {offset offset' : Nat}
    (h : ∀ c rest, ends c rest = true → ends' c rest = true) (hle : offset ≤ offset') :
    (startsUpTo ends offset t).Sublist (startsUpTo ends' offset' t) := by
  have hfilter : ((lineStarts ends' 0 t).filter (· ≤ offset)).Sublist
      ((lineStarts ends' 0 t).filter (· ≤ offset')) := by
    refine List.monotone_filter_right _ fun n hn => ?_
    simp only [decide_eq_true_eq] at hn ⊢
    omega
  exact (((lineStarts_sublist h).filter _).trans hfilter).cons_cons 0

theorem length_lineStarts_feed :
    (lineStarts (fun c _ => c = '\n') start t).length = t.count '\n' := by
  induction t generalizing start with
  | nil => rfl
  | cons c t ih =>
    rw [lineStarts, List.length_append, ih, List.count_cons]
    by_cases hc : c = '\n'
    · simp [hc, Nat.add_comm]
    · simp [hc]

end Text

/-! ## Lines of a program -/

namespace Line

open Text (lineStarts startsUpTo)

/-- Whether a line of a program starts behind the character; a text behind it is a line too only if
it is not empty. -/
def startsBehind (c : Char) (rest : Text) : Bool := c = '\n' && !rest.isEmpty

/-- Of the lines up to a place in a line, there is one more than line feeds, and the last one is the
line itself. -/
theorem startsUpTo_startsBehind {before text behind : Text} (hfeed : '\n' ∉ text)
    (hlast : before = [] ∨ before.getLast? = some '\n') (hne : text ++ behind ≠ []) :
    let starts := startsUpTo startsBehind (before ++ text).length (before ++ text ++ behind)
    starts.length = before.count '\n' + 1 ∧ starts.getLast? = some before.length := by
  intro starts
  have hends : lineStarts (fun c rest => startsBehind c (rest ++ behind)) 0 (before ++ text) =
      lineStarts (fun c _ => c = '\n') 0 (before ++ text) := by
    refine Text.lineStarts_eq_iff.2 fun b c a htext => ?_
    by_cases hc : c = '\n'
    · subst hc
      -- The last line feed is followed by the line.
      have hbehind : a ++ behind ≠ [] := by
        intro hnil
        obtain ⟨rfl, rfl⟩ := List.append_eq_nil_iff.1 hnil
        rw [List.append_nil] at hne
        have hend := congrArg List.getLast? htext
        rw [List.getLast?_append_of_ne_nil _ hne,
          List.getLast?_append_of_ne_nil _ (by simp)] at hend
        exact hfeed (List.mem_of_getLast? hend)
      simpa [startsBehind] using hbehind
    · simp [startsBehind, hc]
  have hline : lineStarts (fun c _ => decide (c = '\n')) (0 + before.length) text = [] := by
    refine List.eq_nil_iff_forall_not_mem.2 fun n hn => ?_
    obtain ⟨b, c, a, rfl, hc, -⟩ := Text.mem_lineStarts.1 hn
    rw [decide_eq_true_eq] at hc
    exact hfeed (hc ▸ List.mem_append_right _ List.mem_cons_self)
  have hstarts : starts = 0 :: lineStarts (fun c _ => c = '\n') 0 before := by
    show startsUpTo _ _ _ = _
    rw [Text.startsUpTo_append, hends, Text.lineStarts_append, hline, List.append_nil]
  rw [hstarts]
  refine ⟨by rw [List.length_cons, Text.length_lineStarts_feed], ?_⟩
  rcases hlast with rfl | hlast
  · rfl
  · obtain ⟨init, rfl⟩ := List.getLast?_eq_some_iff.1 hlast
    rw [Text.lineStarts_append]
    simp only [lineStarts, decide_true, if_true, List.append_nil, List.length_append,
      List.length_singleton, Nat.zero_add]
    rw [← List.cons_append, List.getLast?_concat]

end Line

namespace Report

/-! ## Lines of a report -/

/-- Whether a line of a report starts behind the character. -/
def startsBehind (c : Char) (rest : Text) : Bool :=
  isTerminator c && !(c = '\r' && rest.head? = some '\n') && !rest.isEmpty

theorem splitLines_eq_nil {t : Text} : splitLines t = [] ↔ t = [] := by
  fun_cases splitLines t <;> simp_all

theorem map_start_numberLines (number start : Nat) (t : Text) :
    (numberLines number start (splitLines t)).map SourceLine.start =
      (if t.isEmpty then [] else [start]) ++ Text.lineStarts startsBehind start t := by
  fun_induction splitLines t generalizing number start with
  | case1 => rfl
  | case2 rest ih =>
    rw [numberLines, List.map_cons, ih]
    cases rest <;> simp [Text.lineStarts, startsBehind, isTerminator]
  | case3 c rest hnot hc ih =>
    have hends : startsBehind c rest = !rest.isEmpty := by
      have hreturn : ¬(c = '\r' ∧ rest.head? = some '\n') := by
        rintro ⟨rfl, hhead⟩
        obtain ⟨tail, rfl⟩ := List.head?_eq_some_iff.1 hhead
        exact hnot tail rfl rfl
      rw [startsBehind, hc, Bool.true_and, ← Bool.decide_and, decide_eq_false hreturn]
      rfl
    rw [numberLines, List.map_cons, ih, Text.lineStarts, hends]
    cases rest <;> rfl
  | case4 c rest hnot hc hrest ih =>
    obtain rfl := splitLines_eq_nil.1 hrest
    simp [numberLines, Text.lineStarts, startsBehind]
  | case5 c rest hnot hc l ls hrest ih =>
    have hne : rest ≠ [] := by
      rintro rfl
      cases hrest
    have hlines := ih number (start + 1)
    rw [hrest, if_neg (by simpa using hne)] at hlines
    have htail := (List.cons.inj hlines).2
    rw [Nat.add_assoc, Nat.add_comm 1] at htail
    rw [numberLines, List.map_cons, List.length_cons]
    simp_all [Text.lineStarts, startsBehind]

theorem start_le_of_mem {number start : Nat} {ls : List Text} {x : SourceLine}
    (h : x ∈ numberLines number start ls) : start ≤ x.start := by
  induction ls generalizing number start with
  | nil => cases h
  | cons l ls ih =>
    rcases List.mem_cons.1 h with rfl | h
    · exact Nat.le_refl _
    · exact Nat.le_trans (Nat.le_add_right start l.length) (ih h)

/-- The last of the lines that start at an offset or before it has their number. -/
theorem number_of_getLast? {number start offset : Nat} {ls : List Text} {x : SourceLine}
    (h : ((numberLines number start ls).filter (·.start ≤ offset)).getLast? = some x) :
    x.number + 1 = number + ((numberLines number start ls).filter (·.start ≤ offset)).length := by
  induction ls generalizing number start with
  | nil => cases h
  | cons l ls ih =>
    rw [numberLines] at h ⊢
    by_cases hle : start ≤ offset
    · rw [List.filter_cons_of_pos (by simpa using hle)] at h ⊢
      rw [List.getLast?_cons] at h
      cases hrest : ((numberLines (number + 1) (start + l.length) ls).filter
          (·.start ≤ offset)).getLast? with
      | none =>
        rw [hrest] at h
        cases h
        rw [List.getLast?_eq_none_iff.1 hrest]
        rfl
      | some y =>
        rw [hrest] at h
        cases h
        have := ih hrest
        rw [List.length_cons]
        omega
    · -- All lines behind start behind the offset, too.
      rw [List.filter_eq_nil_iff.2] at h
      · cases h
      · intro y hy
        have hstart : start ≤ y.start := by
          rcases List.mem_cons.1 hy with rfl | hy
          · exact Nat.le_refl _
          · exact Nat.le_trans (Nat.le_add_right start l.length) (start_le_of_mem hy)
        simp only [decide_eq_true_eq]
        omega

theorem map_start_filter {source : Text} (hne : source ≠ []) (offset : Nat) :
    ((linesOf source).filter (·.start ≤ offset)).map SourceLine.start =
      Text.startsUpTo startsBehind offset source := by
  have hstarts : (linesOf source).map SourceLine.start =
      0 :: Text.lineStarts startsBehind 0 source := by
    rw [linesOf, map_start_numberLines, if_neg (by simpa using hne)]
    rfl
  have hfilter := List.filter_cons_of_pos (p := fun n => decide (n ≤ offset))
    (l := Text.lineStarts startsBehind 0 source) (decide_eq_true (Nat.zero_le offset))
  rw [Text.startsUpTo, ← hfilter, ← hstarts, List.filter_map]
  rfl

/-- The line of an offset has the number of the lines that start at the offset or before it, and is
the last of them. -/
theorem lineAt?_eq_some {source : Text} {offset : Nat} {l : SourceLine}
    (h : lineAt? source offset = some l) :
    l.number = (Text.startsUpTo startsBehind offset source).length ∧
      (Text.startsUpTo startsBehind offset source).getLast? = some l.start := by
  have hne : source ≠ [] := by
    rintro rfl
    cases h
  have hnumber := number_of_getLast? h
  rw [← map_start_filter hne offset, List.length_map, List.getLast?_map]
  unfold lineAt? at h
  rw [h]
  refine ⟨?_, rfl⟩
  unfold linesOf
  omega

theorem exists_lineAt? {source : Text} (hne : source ≠ []) (offset : Nat) :
    ∃ l, lineAt? source offset = some l := by
  cases h : lineAt? source offset with
  | some l => exact ⟨l, rfl⟩
  | none =>
    have hnone := List.getLast?_eq_none_iff.1 h
    have hstarts := map_start_filter hne offset
    rw [hnone] at hstarts
    cases hstarts

end Report

end QuantumDiagram

import QuantumDiagram.Text.Stretch

/-!
# Stretches within others, and what spans mark

A stretch is within another one (`Stretch.Within`) if its text stands there at its offset. A span
marks a piece of a stretch (`Stretch.Marks`) if that piece stands where the span begins and is as
many bytes long. A span that marks a piece is a range of bytes inside the stretch whose ends are
between characters; cutting a stretch and trimming it give stretches within it.
-/

namespace QuantumDiagram

namespace Stretch

/-- The text of `part` stands in `whole`, at its offset. -/
def Within (part whole : Stretch) : Prop :=
  ∃ before after, whole.text = before ++ part.text ++ after ∧
    part.offset = whole.offset + Text.byteLength before

/-- The bytes of `whole` in the span are the text `piece`. -/
def Marks (whole : Stretch) (s : Span) (piece : Text) : Prop :=
  (⟨s.start, piece⟩ : Stretch).Within whole ∧ s.stop = s.start + Text.byteLength piece

/-! ## Parts of stretches -/

theorem Within.refl (s : Stretch) : s.Within s := ⟨[], [], by simp, rfl⟩

theorem Within.trans {r s t : Stretch} (h : r.Within s) (h' : s.Within t) : r.Within t := by
  obtain ⟨before, after, htext, hoffset⟩ := h
  obtain ⟨before', after', htext', hoffset'⟩ := h'
  refine ⟨before' ++ before, after ++ after', ?_, ?_⟩
  · rw [htext', htext]
    simp only [List.append_assoc]
  · rw [hoffset, hoffset', Text.byteLength_append, Nat.add_assoc]

theorem Within.subset {part whole : Stretch} (h : part.Within whole) :
    ∀ c ∈ part.text, c ∈ whole.text := by
  obtain ⟨before, after, htext, -⟩ := h
  intro c hc
  rw [htext]
  exact List.mem_append_left _ (List.mem_append_right _ hc)

theorem within_append_left (offset : Nat) (t u : Text) :
    (⟨offset, t⟩ : Stretch).Within ⟨offset, t ++ u⟩ := ⟨[], u, rfl, rfl⟩

theorem within_append_right (offset : Nat) (t u : Text) :
    (⟨offset + Text.byteLength t, u⟩ : Stretch).Within ⟨offset, t ++ u⟩ :=
  ⟨t, [], (List.append_nil _).symm, rfl⟩

theorem within_takeWhile (s : Stretch) (p : Char → Bool) : (s.takeWhile p).Within s := by
  have h := within_append_left s.offset (s.text.takeWhile p) (s.text.dropWhile p)
  rwa [List.takeWhile_append_dropWhile] at h

theorem within_dropWhile (s : Stretch) (p : Char → Bool) : (s.dropWhile p).Within s := by
  have h := within_append_right s.offset (s.text.takeWhile p) (s.text.dropWhile p)
  rwa [List.takeWhile_append_dropWhile] at h

/-- Texts with a separator between neighbours stand in the text that they make up together. -/
theorem within_placeFrom {separator : Char} {offset : Nat} {ts : List Text} {part : Stretch}
    (h : part ∈ placeFrom separator.utf8Size offset ts) :
    part.Within ⟨offset, [separator].intercalate ts⟩ := by
  induction ts generalizing offset with
  | nil => cases h
  | cons t ts ih =>
    cases ts with
    | nil =>
      obtain rfl := List.mem_singleton.1 h
      simpa using Within.refl _
    | cons u ts =>
      rw [List.intercalate_cons_cons]
      rcases List.mem_cons.1 h with rfl | h
      · rw [List.append_assoc]
        exact within_append_left ..
      · have hrest := within_append_right offset (t ++ [separator])
          ([separator].intercalate (u :: ts))
        rw [Text.byteLength_append, ← Nat.add_assoc] at hrest
        exact (ih h).trans hrest

theorem within_split {separator : Char} {s part : Stretch} (h : part ∈ s.split separator) :
    part.Within s := by
  have hwithin := within_placeFrom h
  rwa [List.intercalate_splitOn] at hwithin

/-! ## Marked pieces -/

theorem Within.marks {part whole : Stretch} (h : part.Within whole) :
    whole.Marks (Span.ofText part.offset part.text) part.text := ⟨h, rfl⟩

theorem Marks.within {part whole : Stretch} {s : Span} {piece : Text} (h : part.Marks s piece)
    (hpart : part.Within whole) : whole.Marks s piece := ⟨h.1.trans hpart, h.2⟩

/-- A span in a text is moved with the text. -/
theorem Marks.shift {t piece : Text} {s : Span} (h : (⟨0, t⟩ : Stretch).Marks s piece)
    (offset : Nat) : (⟨offset, t⟩ : Stretch).Marks (s.shift offset) piece := by
  obtain ⟨⟨before, after, htext, hstart⟩, hstop⟩ := h
  refine ⟨⟨before, after, htext, ?_⟩, ?_⟩
  · show offset + s.start = offset + Text.byteLength before
    exact congrArg (offset + ·) (hstart.trans (Nat.zero_add _))
  · show offset + s.stop = offset + s.start + Text.byteLength piece
    rw [hstop, Nat.add_assoc]

end Stretch

namespace Text

theorem joinWith_cons_cons (separator t u : Text) (ts : List Text) :
    joinWith separator (t :: u :: ts) = t ++ separator ++ joinWith separator (u :: ts) :=
  List.intercalate_cons_cons

theorem mem_of_mem_joinWith {separator : Text} {ts : List Text} {c : Char}
    (h : c ∈ joinWith separator ts) : c ∈ separator ∨ ∃ t ∈ ts, c ∈ t := by
  induction ts with
  | nil => cases h
  | cons t ts ih =>
    cases ts with
    | nil =>
      rw [joinWith, List.intercalate_singleton] at h
      exact .inr ⟨t, List.mem_cons_self, h⟩
    | cons u ts =>
      rw [joinWith_cons_cons, List.mem_append, List.mem_append] at h
      obtain (h | h) | h := h
      · exact .inr ⟨t, List.mem_cons_self, h⟩
      · exact .inl h
      · exact (ih h).imp_right fun ⟨v, hv, hc⟩ => ⟨v, List.mem_cons_of_mem _ hv, hc⟩

theorem splitOn_eq_singleton {separator : Char} {t : Text} (h : separator ∉ t) :
    t.splitOn separator = [t] := by
  have hcut : ([separator].intercalate [t]).splitOn separator = [t] :=
    List.splitOn_intercalate separator (by simpa using h) (by simp)
  rwa [List.intercalate_singleton] at hcut

/-- What is left behind the characters other than `c` begins with `c`. -/
theorem dropWhile_ne (c : Char) (t : Text) :
    t.dropWhile (· ≠ c) = [] ∨ ∃ rest, t.dropWhile (· ≠ c) = c :: rest := by
  cases h : t.dropWhile (· ≠ c) with
  | nil => exact .inl rfl
  | cons d rest =>
    have hhead := List.head?_dropWhile_not (fun d => decide (d ≠ c)) t
    rw [h] at hhead
    obtain rfl : d = c := by simpa using hhead
    exact .inr ⟨rest, rfl⟩

/-! ## Trimming -/

theorem isBlankChar_of_trimStart {c : Char} {t rest : Text} (h : trimStart t = c :: rest) :
    isBlankChar c = false := by
  have hhead := List.head?_dropWhile_not isBlankChar t
  rw [show t.dropWhile isBlankChar = c :: rest from h] at hhead
  exact hhead

/-- Only blanks stand before the first other character. -/
theorem trimStart_eq_nil {c : Char} {s t : Text} (h : (trimStart (s ++ t)).head? = some c)
    (hc : c ∉ s) : trimStart s = [] := by
  cases hs : trimStart s with
  | nil => rfl
  | cons d rest =>
    have hd : d ∈ trimStart s := hs ▸ List.mem_cons_self
    have hd : d ∈ s := (List.dropWhile_sublist _).subset hd
    rw [trimStart, List.dropWhile_append, show s.dropWhile isBlankChar = d :: rest from hs] at h
    obtain rfl : d = c := by simpa using h
    exact absurd hd hc

theorem trimEnd_append {c : Char} (hc : isBlankChar c = false) (before t : Text) :
    trimEnd (before ++ c :: t) = before ++ trimEnd (c :: t) := by
  have hne : ((c :: t).reverse.dropWhile isBlankChar).isEmpty = false := by
    rw [List.reverse_cons, List.dropWhile_append]
    split
    · simp [hc]
    · simp
  rw [trimEnd, trimEnd, List.reverse_append, List.dropWhile_append, hne]
  simp

/-- Only blanks are taken off at the end. -/
theorem exists_append_of_trimEnd (t : Text) :
    ∃ blanks, t = trimEnd t ++ blanks ∧ ∀ b ∈ blanks, isBlankChar b = true := by
  refine ⟨(t.reverse.takeWhile isBlankChar).reverse, ?_, fun b hb => ?_⟩
  · rw [trimEnd, ← List.reverse_append, List.takeWhile_append_dropWhile, List.reverse_reverse]
  · exact List.all_eq_true.1 List.all_takeWhile b (List.mem_reverse.1 hb)

/-- Only blanks are taken off when a text is trimmed. -/
theorem exists_append_of_trim (t : Text) : ∃ before behind, t = before ++ (trim t ++ behind) ∧
    (∀ b ∈ before, isBlankChar b = true) ∧ ∀ b ∈ behind, isBlankChar b = true := by
  obtain ⟨behind, hbehind, hblanks⟩ := exists_append_of_trimEnd (trimStart t)
  refine ⟨t.takeWhile isBlankChar, behind, ?_, List.all_eq_true.1 List.all_takeWhile, hblanks⟩
  rw [trim, ← hbehind, trimStart, List.takeWhile_append_dropWhile]

end Text

namespace Stretch

/-- The span of a stretch marks the trimmed text. -/
theorem marks_span (s : Stretch) : s.Marks s.span (Text.trim s.text) := by
  obtain ⟨offset, t⟩ := s
  have hcut : t.takeWhile Text.isBlankChar ++ Text.trimStart t = t :=
    List.takeWhile_append_dropWhile
  have hlength := congrArg Text.byteLength hcut
  rw [Text.byteLength_append] at hlength
  have hstart : (⟨offset, t⟩ : Stretch).span.start =
      offset + Text.byteLength (t.takeWhile Text.isBlankChar) := by
    show offset + (Text.byteLength t - Text.byteLength (Text.trimStart t)) = _
    omega
  have hstop : (⟨offset, t⟩ : Stretch).span.stop =
      max (⟨offset, t⟩ : Stretch).span.start (offset + Text.byteLength (Text.trimEnd t)) := rfl
  obtain ⟨blanks, hblanks, -⟩ := Text.exists_append_of_trimEnd (Text.trimStart t)
  refine ⟨⟨t.takeWhile Text.isBlankChar, blanks, ?_, hstart⟩, ?_⟩
  · show t = _ ++ Text.trimEnd (Text.trimStart t) ++ blanks
    rw [List.append_assoc, ← hblanks, hcut]
  · show _ = _ + Text.byteLength (Text.trimEnd (Text.trimStart t))
    rw [hstop, hstart]
    cases htrim : Text.trimStart t with
    | nil =>
      -- Nothing is left, so the span is empty and at the end of the stretch.
      obtain ⟨after, hafter, -⟩ := Text.exists_append_of_trimEnd t
      have hle := congrArg Text.byteLength hafter
      rw [Text.byteLength_append] at hle
      rw [htrim, Text.byteLength_nil] at hlength
      show max _ _ = _ + 0
      omega
    | cons c rest =>
      rw [htrim] at hcut
      have hend := Text.trimEnd_append (Text.isBlankChar_of_trimStart htrim)
        (t.takeWhile Text.isBlankChar) rest
      rw [hcut] at hend
      rw [hend, Text.byteLength_append]
      omega

end Stretch

end QuantumDiagram

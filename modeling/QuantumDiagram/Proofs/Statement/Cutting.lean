import QuantumDiagram.Proofs.Statement.Forms

/-!
# How a text is cut into lexemes

`Lexeme.Cuts` says what a reading of lexemes leaves: a text is gaps, comments and lexemes one behind
the other, and each lexeme is the longest one from where it starts. A text is read as the lexemes
that it can be cut into (`Lexeme.readAllFrom_eq_ok`); if it cannot be cut to its end, the reading
fails at a character with which nothing begins, and what stands before it is read
(`Lexeme.cuts_readAll`).
-/

namespace QuantumDiagram

theorem Text.byteLength_pos {s : Text} (h : s ≠ []) : 0 < byteLength s := by
  cases s with
  | nil => exact absurd rfl h
  | cons c s => exact Nat.add_pos_left c.utf8Size_pos _

namespace Lexeme

/-- `Cuts offset t ls rest`: from the front of `t`, a text that begins at `offset`, the lexemes `ls`
are cut off, with the gaps and the comments around them, and `rest` is left. A comment goes on to a
line feed or to the end of the text. -/
inductive Cuts : Nat → Text → List (Located Lexeme) → Text → Prop
  | done {offset : Nat} {t : Text} : Cuts offset t [] t
  | gap {offset : Nat} {c : Char} {t rest : Text} {ls : List (Located Lexeme)}
      (blank : isGap c = true) (behind : Cuts (offset + c.utf8Size) t ls rest) :
      Cuts offset (c :: t) ls rest
  | comment {offset : Nat} {comment t rest : Text} {ls : List (Located Lexeme)}
      (line : '\n' ∉ comment) (ends : t = [] ∨ t.head? = some '\n')
      (behind : Cuts (offset + Text.byteLength ('#' :: comment)) t ls rest) :
      Cuts offset ('#' :: (comment ++ t)) ls rest
  | lexeme {offset : Nat} {l : Lexeme} {s t rest : Text} {ls : List (Located Lexeme)}
      (longest : IsLongest l s (s ++ t)) (behind : Cuts (offset + Text.byteLength s) t ls rest) :
      Cuts offset (s ++ t) (⟨l, Span.ofText offset s⟩ :: ls) rest

/-- The lexeme stands in `t`, a text that begins at `offset`: its span is that of a stretch which,
from its start on, is the longest with the form of a lexeme, and which has the form of this one
only. -/
def StandsIn (offset : Nat) (t : Text) (l : Located Lexeme) : Prop :=
  ∃ before s behind, t = before ++ (s ++ behind) ∧
    l.span = Span.ofText (offset + Text.byteLength before) s ∧
    IsLongest l.value s (s ++ behind) ∧ ∀ l' : Lexeme, l'.Matches s → l' = l.value

variable {offset : Nat} {t rest : Text} {ls : List (Located Lexeme)}

/-! ## Reading and cutting -/

theorem IsLongest.cons {l : Lexeme} {s : Text} (h : IsLongest l s t) :
    ∃ c s', s = c :: s' ∧ isGap c = false ∧ c ≠ '#' := by
  obtain ⟨c, s', rfl, -⟩ := h.matches_l.kind
  obtain ⟨hblank, hmark⟩ := h.matches_l.visible List.mem_cons_self
  refine ⟨c, s', rfl, ?_, hmark⟩
  rw [Bool.eq_false_iff]
  intro hgap
  rw [isBlankChar_of_isGap hgap] at hblank
  cases hblank

theorem head?_dropWhile_feed (t : Text) :
    t.dropWhile (· ≠ '\n') = [] ∨ (t.dropWhile (· ≠ '\n')).head? = some '\n' := by
  obtain hnil | ⟨rest, hrest⟩ := Text.dropWhile_ne '\n' t
  · exact .inl hnil
  · exact .inr (by rw [hrest]; rfl)

theorem feed_not_mem_takeWhile (t : Text) : '\n' ∉ t.takeWhile (· ≠ '\n') := by
  intro h
  have := List.all_eq_true.1 List.all_takeWhile '\n' h
  simp at this

/-- A comment is taken up to the line feed, or to the end of the text. -/
theorem cut_at_feed {comment t : Text} (line : '\n' ∉ comment)
    (ends : t = [] ∨ t.head? = some '\n') :
    (comment ++ t).takeWhile (· ≠ '\n') = comment ∧ (comment ++ t).dropWhile (· ≠ '\n') = t := by
  have hline : ∀ c ∈ comment, decide (c ≠ '\n') = true := by
    intro c hc
    have hne : c ≠ '\n' := fun heq => line (heq ▸ hc)
    simpa using hne
  rw [List.takeWhile_append_of_pos hline, List.dropWhile_append_of_pos hline]
  obtain rfl | hhead := ends
  · simp
  · obtain ⟨behind, rfl⟩ := List.head?_eq_some_iff.1 hhead
    simp

theorem cuts_of_readAllFrom (h : readAllFrom offset t = .ok ls) : Cuts offset t ls [] := by
  fun_induction readAllFrom offset t generalizing ls with
  | case1 =>
    cases h
    exact .done
  | case2 offset c t hgap ih => exact .gap hgap (ih h)
  | case3 offset t hgap ih =>
    have hcut := Cuts.comment (feed_not_mem_takeWhile t) (head?_dropWhile_feed t) (ih h)
    rwa [List.takeWhile_append_dropWhile] at hcut
  | case4 => cases h
  | case5 offset c t hgap hmark l s hfirst hpos ih =>
    obtain ⟨ls, hls, rfl⟩ := map_eq_ok.1 h
    have hlongest := first?_eq_some.1 hfirst
    have hcut := append_drop_of_first? hfirst
    rw [← hcut] at hlongest
    exact hcut ▸ .lexeme hlongest (ih hls)

/-- The lexemes that are cut off, and what is left, make up the text. -/
theorem Cuts.upTo (h : Cuts offset t ls rest) :
    ∃ before, t = before ++ rest ∧ Cuts offset before ls [] := by
  induction h with
  | done => exact ⟨[], rfl, .done⟩
  | gap blank _ ih =>
    obtain ⟨before, rfl, hcut⟩ := ih
    exact ⟨_ :: before, rfl, .gap blank hcut⟩
  | comment line ends _ ih =>
    obtain ⟨before, rfl, hcut⟩ := ih
    refine ⟨'#' :: (_ ++ before), by simp, .comment line ?_ hcut⟩
    cases before with
    | nil => exact .inl rfl
    | cons c before => exact .inr (ends.resolve_left (by simp))
  | lexeme longest _ ih =>
    obtain ⟨before, rfl, hcut⟩ := ih
    refine ⟨_ ++ before, by simp, .lexeme ⟨longest.matches_l, List.prefix_append .., ?_⟩ hcut⟩
    intro l' s' hmatches hstands
    refine longest.longest hmatches (hstands.trans ?_)
    rw [← List.append_assoc]
    exact List.prefix_append ..

theorem readAllFrom_of_cuts (h : Cuts offset t ls []) : readAllFrom offset t = .ok ls := by
  generalize hend : ([] : Text) = rest at h
  induction h with
  | done =>
    subst hend
    rw [readAllFrom]
  | gap blank _ ih => rw [readAllFrom, if_pos blank, ih hend]
  | comment line ends _ ih =>
    obtain ⟨htake, hdrop⟩ := cut_at_feed line ends
    rw [readAllFrom, if_neg (by decide), if_pos rfl, htake, hdrop, ih hend]
  | @lexeme offset l s t rest ls longest _ ih =>
    obtain ⟨c, s, rfl, hgap, hmark⟩ := longest.cons
    have hfirst : first? (c :: (s ++ t)) = some (l, c :: s) := first?_eq_some.2 longest
    rw [List.cons_append, readAllFrom, if_neg (by simp [hgap]), if_neg hmark]
    split
    · rename_i hnone
      cases hnone.symm.trans hfirst
    · rename_i l' s' hsome
      cases hsome.symm.trans hfirst
      show (readAllFrom _ ((c :: s ++ t).drop (c :: s).length)).map _ = _
      rw [List.drop_left, ih hend]
      rfl

/-- **A text is read as the lexemes that it can be cut into.** -/
theorem readAllFrom_eq_ok : readAllFrom offset t = .ok ls ↔ Cuts offset t ls [] :=
  ⟨cuts_of_readAllFrom, readAllFrom_of_cuts⟩

/-- Reading fails at a character with which nothing begins, and up to it the text is cut. -/
theorem cuts_of_readAllFrom_error {c : Located Char} (h : readAllFrom offset t = .error c) :
    ∃ before behind ls, t = before ++ c.value :: behind ∧
      c.span = Span.ofText (offset + Text.byteLength before) [c.value] ∧
      Cuts offset t ls (c.value :: behind) ∧ isGap c.value = false ∧ c.value ≠ '#' ∧
      first? (c.value :: behind) = none := by
  fun_induction readAllFrom offset t with
  | case1 => cases h
  | case2 offset d t hgap ih =>
    obtain ⟨before, behind, ls, rfl, hspan, hcut, hc⟩ := ih h
    refine ⟨d :: before, behind, ls, rfl, ?_, .gap hgap hcut, hc⟩
    rw [hspan, Text.byteLength_cons, Nat.add_assoc]
  | case3 offset t hgap ih =>
    obtain ⟨before, behind, ls, ht, hspan, hcut, hc⟩ := ih h
    have hcut := Cuts.comment (feed_not_mem_takeWhile t) (head?_dropWhile_feed t) hcut
    rw [List.takeWhile_append_dropWhile] at hcut
    refine ⟨'#' :: t.takeWhile (· ≠ '\n') ++ before, behind, ls, ?_, ?_, hcut, hc⟩
    · rw [List.append_assoc, ← ht, List.cons_append, List.takeWhile_append_dropWhile]
    · rw [hspan, Text.byteLength_append, Nat.add_assoc]
  | case4 offset d t hgap hmark hfirst =>
    cases h
    exact ⟨[], t, [], rfl, rfl, .done, by simpa using hgap, hmark, hfirst⟩
  | case5 offset d t hgap hmark l s hfirst hpos ih =>
    obtain ⟨before, behind, ls, ht, hspan, hcut, hc⟩ := ih (map_eq_error.1 h)
    have hwhole := append_drop_of_first? hfirst
    have hlongest := first?_eq_some.1 hfirst
    rw [← hwhole] at hlongest
    have hcut := Cuts.lexeme hlongest hcut
    rw [hwhole] at hcut
    refine ⟨s ++ before, behind, _, ?_, ?_, hcut, hc⟩
    · rw [List.append_assoc, ← ht, hwhole]
    · rw [hspan, Text.byteLength_append, Nat.add_assoc]

/-! ## The lexemes that are cut off -/

theorem StandsIn.append {l : Located Lexeme} {s : Text}
    (h : StandsIn (offset + Text.byteLength s) t l) : StandsIn offset (s ++ t) l := by
  obtain ⟨before, piece, behind, rfl, hspan, hl⟩ := h
  refine ⟨s ++ before, piece, behind, (List.append_assoc ..).symm, ?_, hl⟩
  rw [hspan, Text.byteLength_append, Nat.add_assoc]

theorem StandsIn.offset_le {l : Located Lexeme} (h : StandsIn offset t l) :
    offset ≤ l.span.start := by
  obtain ⟨before, s, behind, -, hspan, -⟩ := h
  rw [hspan]
  exact Nat.le_add_right ..

theorem StandsIn.start_lt_stop {l : Located Lexeme} (h : StandsIn offset t l) :
    l.span.start < l.span.stop := by
  obtain ⟨before, s, behind, -, hspan, hlongest, -⟩ := h
  rw [hspan]
  exact Nat.lt_add_of_pos_right (Text.byteLength_pos hlongest.matches_l.ne_nil)

theorem Cuts.standsIn (h : Cuts offset t ls rest) : ∀ l ∈ ls, StandsIn offset t l := by
  induction h with
  | done => simp
  | @gap offset c t rest ls _ _ ih => exact fun l hl => StandsIn.append (s := [c]) (ih l hl)
  | @comment offset comment t rest ls _ _ _ ih =>
    exact fun l hl => StandsIn.append (s := '#' :: comment) (ih l hl)
  | lexeme longest _ ih =>
    refine List.forall_mem_cons.2 ⟨?_, fun l hl => (ih l hl).append⟩
    exact ⟨[], _, _, rfl, rfl, longest, fun l' hl' => longest.matches_l.unique hl'⟩

/-- Each lexeme begins where the one before it ends, or behind that. -/
theorem Cuts.pairwise (h : Cuts offset t ls rest) :
    ls.Pairwise (·.span.stop ≤ ·.span.start) := by
  induction h with
  | done => exact .nil
  | gap _ _ ih => exact ih
  | comment _ _ _ ih => exact ih
  | lexeme _ behind ih => exact .cons (fun l hl => (behind.standsIn l hl).offset_le) ih

/-- **How a text is read.** If its lexemes are found, the text is made up of them, of gaps and of
comments; their spans are not empty and stand one behind the other, and each is the longest stretch
from its start that has the form of a lexeme, the form of this one only. Otherwise the reading stops
at a character with which no lexeme, gap or comment begins; its span is that character's, and the
text before it is read as the lexemes that are found up to there. -/
theorem cuts_readAll (t : Text) :
    match readAll t with
    | .ok ls => Cuts 0 t ls [] ∧ ls.Pairwise (·.span.stop ≤ ·.span.start) ∧
        ∀ l ∈ ls, l.span.start < l.span.stop ∧ StandsIn 0 t l
    | .error c => ∃ before behind ls, t = before ++ c.value :: behind ∧
        c.span = Span.ofText (Text.byteLength before) [c.value] ∧
        Cuts 0 t ls (c.value :: behind) ∧ readAll before = .ok ls ∧
        isGap c.value = false ∧ c.value ≠ '#' ∧
        ∀ (l : Lexeme) (s : Text), l.Matches s → ¬ s <+: c.value :: behind := by
  cases hread : readAll t with
  | ok ls =>
    have hcut := readAllFrom_eq_ok.1 hread
    exact ⟨hcut, hcut.pairwise, fun l hl =>
      ⟨(hcut.standsIn l hl).start_lt_stop, hcut.standsIn l hl⟩⟩
  | error c =>
    obtain ⟨before, behind, ls, ht, hspan, hcut, hgap, hmark, hfirst⟩ :=
      cuts_of_readAllFrom_error hread
    obtain ⟨before', ht', hbefore⟩ := hcut.upTo
    obtain rfl : before = before' := List.append_cancel_right (ht.symm.trans ht')
    rw [Nat.zero_add] at hspan
    exact ⟨before, behind, ls, ht, hspan, hcut, readAllFrom_eq_ok.2 hbefore, hgap, hmark,
      fun l s => not_matches_of_first? hfirst⟩

end Lexeme

end QuantumDiagram

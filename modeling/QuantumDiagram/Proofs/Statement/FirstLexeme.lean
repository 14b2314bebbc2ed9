import QuantumDiagram.Program.Draft
import QuantumDiagram.Proofs.Outcome

/-!
# How a statement begins

All that may stand before the first lexeme of a statement is blank, so it begins with the first
character of the first word (`Lexeme.first?_of_readAllFrom`). A statement is therefore the header of
a subroutine just if its first word begins with a point (`Statement.read_firstWord`), and a header
is none of the directives that are skipped by their first word (`Draft.not_skipped_of_header`).
-/

namespace QuantumDiagram

namespace Text

theorem words_cons_blank {b : Char} (h : isBlankChar b = true) (t : Text) :
    words (b :: t) = words t := by
  rw [words, List.splitOnP_cons_eq_if_modifyHead, if_pos h]
  simp [words]

theorem firstWord_cons {c : Char} (h : isBlankChar c = false) (t : Text) :
    ∃ w, firstWord (c :: t) = c :: w := by
  rw [firstWord, words, List.splitOnP_cons_eq_if_modifyHead, if_neg (by simp [h])]
  cases hsplit : t.splitOnP isBlankChar with
  | nil => simp at hsplit
  | cons first rest => exact ⟨first, by simp⟩

theorem firstWord_trimStart (t : Text) : firstWord (trimStart t) = firstWord t := by
  induction t with
  | nil => rfl
  | cons c t ih =>
    cases hc : isBlankChar c with
    | true =>
      rw [trimStart, List.dropWhile_cons_of_pos hc]
      refine Eq.trans ih ?_
      rw [firstWord, firstWord, words_cons_blank hc]
    | false => rw [trimStart, List.dropWhile_cons_of_neg (by simp [hc])]

/-- Before the first word there are blanks only. -/
theorem exists_of_firstWord {t w : Text} {c : Char} (h : firstWord t = c :: w) :
    ∃ before after, t = before ++ c :: after ∧ (∀ b ∈ before, isBlankChar b = true) ∧
      isBlankChar c = false := by
  induction t with
  | nil => cases h
  | cons b t ih =>
    cases hb : isBlankChar b with
    | true =>
      rw [firstWord, words_cons_blank hb] at h
      obtain ⟨before, after, rfl, hbefore, hc⟩ := ih h
      exact ⟨b :: before, after, rfl, List.forall_mem_cons.2 ⟨hb, hbefore⟩, hc⟩
    | false =>
      obtain ⟨v, hv⟩ := firstWord_cons hb t
      rw [h] at hv
      cases hv
      exact ⟨[], t, rfl, by simp, hb⟩

/-- No visible ASCII character is blank. -/
theorem isBlankChar_of_visible {c : Char} (h : 33 ≤ c.toNat ∧ c.toNat ≤ 126) :
    isBlankChar c = false := by
  simp [isBlankChar, blankRanges]
  omega

end Text

namespace Lexeme

theorem isBlankChar_of_isGap {c : Char} (h : isGap c = true) : Text.isBlankChar c = true := by
  simp only [isGap, Bool.or_eq_true, decide_eq_true_eq] at h
  obtain ((rfl | rfl) | rfl) | rfl := h <;> decide

/-! ## Characters that lexemes begin with -/

theorem visible_of_isIdentifierStart {c : Char} (h : isIdentifierStart c = true) :
    33 ≤ c.toNat ∧ c.toNat ≤ 126 := by
  unfold isIdentifierStart Char.isAlpha Char.isUpper Char.isLower at h
  simp only [Bool.or_eq_true, Bool.and_eq_true, decide_eq_true_eq, ge_iff_le,
    UInt32.le_iff_toNat_le] at h
  rcases h with (h | h) | rfl
  · exact ⟨Nat.le_trans (by decide) h.1, Nat.le_trans h.2 (by decide)⟩
  · exact ⟨Nat.le_trans (by decide) h.1, Nat.le_trans h.2 (by decide)⟩
  · decide

theorem visible_of_isDigit {c : Char} (h : c.isDigit = true) : 33 ≤ c.toNat ∧ c.toNat ≤ 126 := by
  unfold Char.isDigit at h
  simp only [Bool.and_eq_true, decide_eq_true_eq, ge_iff_le, UInt32.le_iff_toNat_le] at h
  exact ⟨Nat.le_trans (by decide) h.1, Nat.le_trans h.2 (by decide)⟩

theorem head_of_numberOf {c : Char} {t : Text} (h : numberOf (c :: t) ≠ []) :
    c = '-' ∨ c.isDigit = true := by
  by_cases hminus : c = '-'
  · exact .inl hminus
  · cases hdigit : c.isDigit with
    | true => exact .inr rfl
    | false => simp [numberOf, hminus, hdigit] at h

/-- A lexeme begins with a visible character. -/
theorem isBlankChar_of_first? {c : Char} {t s : Text} {l : Lexeme}
    (h : first? (c :: t) = some (l, s)) : Text.isBlankChar c = false := by
  unfold first? at h
  dsimp only at h
  split at h
  · rename_i hc
    unfold ofChar? at hc
    split at hc <;> first | decide | cases hc
  · split at h
    · rename_i hname
      refine Text.isBlankChar_of_visible (visible_of_isIdentifierStart ?_)
      cases hstart : isIdentifierStart c with
      | true => rfl
      | false => simp [identifierOf, hstart] at hname
    · split at h
      · rename_i hdigits
        rcases head_of_numberOf hdigits with rfl | hdigit
        · decide
        · exact Text.isBlankChar_of_visible (visible_of_isDigit hdigit)
      · cases h

/-! ## The first lexeme of a text -/

/-- Behind blanks, the first lexeme is the one that begins with the first other character. -/
theorem first?_of_readAllFrom {offset : Nat} {before after : Text} {c : Char}
    {ls : List (Located Lexeme)} (hbefore : ∀ b ∈ before, Text.isBlankChar b = true)
    (hc : Text.isBlankChar c = false) (hmark : c ≠ '#')
    (h : readAllFrom offset (before ++ c :: after) = .ok ls) :
    ∃ l s span rest, first? (c :: after) = some (l, s) ∧ ls = ⟨l, span⟩ :: rest := by
  have blank_ne_mark : ∀ b, Text.isBlankChar b = true → b ≠ '#' := by
    rintro b hb rfl
    cases hb
  induction before generalizing offset with
  | nil =>
    have hgap : isGap c = false := by
      cases hgap : isGap c with
      | false => rfl
      | true => rw [isBlankChar_of_isGap hgap] at hc; cases hc
    rw [List.nil_append, readAllFrom, if_neg (by simp [hgap]), if_neg hmark] at h
    split at h
    · cases h
    · rename_i l s hfirst
      obtain ⟨rest, -, h⟩ := map_eq_ok.1 h
      exact ⟨l, s, _, rest, hfirst, h.symm⟩
  | cons b before ih =>
    have hb := hbefore b List.mem_cons_self
    rw [List.cons_append, readAllFrom, if_neg (blank_ne_mark b hb)] at h
    split at h
    · exact ih (fun x hx => hbefore x (List.mem_cons_of_mem _ hx)) h
    · -- A blank that is no gap begins no lexeme.
      split at h
      · cases h
      · rename_i l s hfirst
        rw [isBlankChar_of_first? hfirst] at hb
        cases hb

/-- A point is the only character that begins the lexeme of a point. -/
theorem eq_of_first?_dot {c : Char} {t s : Text} (h : first? (c :: t) = some (dot, s)) :
    c = '.' := by
  unfold first? at h
  dsimp only at h
  split at h
  · rename_i l hc
    cases h
    unfold ofChar? at hc
    split at hc <;> first | rfl | cases hc
  · split at h
    · cases h
    · split at h <;> cases h

end Lexeme

namespace Statement

/-! ## The first word -/

theorem ofLexemes_ok {final : Span} {ls : List (Located Lexeme)} {st : Statement}
    (h : ofLexemes final ls = .ok st) : ∃ l rest, ls = l :: rest ∧
      ((l.value = .dot ∧ ∃ name repetitions, st = .header name repetitions) ∨
        ∃ n keyword operands, l.value = .identifier n ∧ st = .instruction keyword operands) := by
  unfold ofLexemes at h
  split at h
  · split at h
    · obtain ⟨r, -, rfl⟩ := map_eq_ok.1 h
      exact ⟨_, _, rfl, .inl ⟨rfl, _, r, rfl⟩⟩
    · cases h
  · obtain ⟨operands, -, rfl⟩ := map_eq_ok.1 h
    exact ⟨_, _, rfl, .inr ⟨_, _, operands, rfl, rfl⟩⟩
  · cases h

/-- A statement that is no comment is a header just if its first word begins with a point. -/
theorem read_firstWord {t w : Text} {c : Char} {st : Statement} (hw : Text.firstWord t = c :: w)
    (hmark : c ≠ '#') (h : read t = .ok st) :
    (∃ name repetitions, st = .header name repetitions) ↔ c = '.' := by
  unfold read at h
  split at h
  · cases h
  · rename_i ls hls
    obtain ⟨before, after, rfl, hbefore, hc⟩ := Text.exists_of_firstWord hw
    obtain ⟨l, s, span, rest, hfirst, rfl⟩ := Lexeme.first?_of_readAllFrom hbefore hc hmark hls
    obtain ⟨l', rest', heq, hst⟩ := ofLexemes_ok h
    cases heq
    constructor
    · rintro ⟨name, repetitions, rfl⟩
      obtain ⟨rfl, -⟩ | ⟨_, _, _, -, hst⟩ := hst
      · exact Lexeme.eq_of_first?_dot hfirst
      · cases hst
    · rintro rfl
      cases hfirst
      obtain ⟨-, hst⟩ | ⟨_, _, _, hl, -⟩ := hst
      · exact hst
      · cases hl

end Statement

namespace Draft

theorem eq_of_toLower_eq_point {c : Char} (h : c.toLower = '.') : c = '.' := by
  unfold Char.toLower at h
  split at h
  · rename_i hupper
    have hval := congrArg Char.toNat h
    simp [UInt32.le_iff_toNat_le] at hval hupper
    omega
  · exact h

/-- A statement that is read and that begins with a point is a header. -/
theorem header_of_startsWith {p : Pending} {st : Statement} (h : Statement.read p.text = .ok st)
    (hp : Text.startsWith (leadingWord p) "." = true) :
    ∃ name repetitions, st = .header name repetitions := by
  unfold leadingWord at hp
  cases hw : Text.firstWord p.text with
  | nil =>
    rw [hw] at hp
    cases hp
  | cons c w =>
    rw [hw] at hp
    have hhead : ('.' == c.toLower && true) = true := hp
    have hc : '.' = c.toLower := by simpa using hhead
    obtain rfl := eq_of_toLower_eq_point hc.symm
    exact (Statement.read_firstWord hw (by decide) h).2 rfl

/-- A header is none of the directives that are skipped. -/
theorem not_skipped_of_header {p : Pending} {name : Located Text}
    {repetitions : Option (Located Float)}
    (h : Statement.read p.text = .ok (.header name repetitions)) :
    Text.startsWith (leadingWord p) "display" = false ∧
      leadingWord p ≠ "error_model".toList := by
  unfold leadingWord
  cases hw : Text.firstWord p.text with
  | nil => exact ⟨rfl, by decide⟩
  | cons c w =>
    have hc : c = '#' ∨ c = '.' := by
      by_cases hmark : c = '#'
      · exact .inl hmark
      · exact .inr ((Statement.read_firstWord hw hmark h).1 ⟨name, repetitions, rfl⟩)
    rcases hc with rfl | rfl <;> exact ⟨rfl, by simp [Text.lower]⟩

end Draft

end QuantumDiagram

import Mathlib.Data.List.TakeWhile
import QuantumDiagram.Proofs.Statement.FirstLexeme
import QuantumDiagram.Proofs.Statement.Spans

/-!
# The forms of lexemes

`Lexeme.Matches` says which stretches have the form of a lexeme, and which lexeme that is: a stretch
has one at most (`Matches.unique`). The first lexeme of a text is the longest stretch at its start
that has the form of one (`Lexeme.first?_eq_some`); a form that is begun but not completed, as the
fraction of `1.` or the exponent of `1e+`, does not count, and is given back.
-/

namespace QuantumDiagram.Lexeme

/-! ## Forms -/

/-- One digit or more. -/
def IsDigits (t : Text) : Prop := t ≠ [] ∧ ∀ c ∈ t, c.isDigit = true

def IsFraction (t : Text) : Prop := ∃ digits, IsDigits digits ∧ t = '.' :: digits

def IsExponent (t : Text) : Prop :=
  ∃ mark sign digits, (mark = 'e' ∨ mark = 'E') ∧ (sign = [] ∨ sign = ['-'] ∨ sign = ['+']) ∧
    IsDigits digits ∧ t = mark :: (sign ++ digits)

/-- Perhaps a minus, digits, perhaps a fraction, perhaps an exponent. -/
def IsNumber (t : Text) : Prop :=
  ∃ minus whole fraction exponent, (minus = [] ∨ minus = ['-']) ∧ IsDigits whole ∧
    (fraction = [] ∨ IsFraction fraction) ∧ (exponent = [] ∨ IsExponent exponent) ∧
    t = minus ++ (whole ++ (fraction ++ exponent))

/-- The stretch has the form of the lexeme. An identifier is the stretch itself, and a number its
value. -/
inductive Matches : Lexeme → Text → Prop
  | comma : Matches .comma [',']
  | dot : Matches .dot ['.']
  | openParen : Matches .openParen ['(']
  | closeParen : Matches .closeParen [')']
  | openBrace : Matches .openBrace ['\x7b']
  | closeBrace : Matches .closeBrace ['\x7d']
  | pipe : Matches .pipe ['|']
  | identifier {c : Char} {rest : Text} (start : isIdentifierStart c = true)
      (rest_ok : ∀ d ∈ rest, isIdentifierRest d = true) :
      Matches (.identifier (c :: rest)) (c :: rest)
  | number {t : Text} {x : Float} (form : IsNumber t) (value : Decimal.readFloat? t = some x) :
      Matches (.number x) t

/-! ## Numbers -/

theorem IsDigits.head {t : Text} (h : IsDigits t) :
    ∃ c rest, t = c :: rest ∧ c.isDigit = true := by
  obtain ⟨hne, hall⟩ := h
  cases t with
  | nil => exact absurd rfl hne
  | cons c rest => exact ⟨c, rest, rfl, hall c List.mem_cons_self⟩

theorem isDigits_takeWhile {t : Text} (h : t.takeWhile Char.isDigit ≠ []) :
    IsDigits (t.takeWhile Char.isDigit) := ⟨h, fun _ => List.all_eq_true.1 List.all_takeWhile _⟩

/-- An exponent does not go on with the digits, or the fraction, before it. -/
theorem IsExponent.head {t : Text} (h : IsExponent t) :
    ∃ c rest, t = c :: rest ∧ c.isDigit = false ∧ c ≠ '.' := by
  obtain ⟨mark, sign, digits, hmark, -, -, rfl⟩ := h
  obtain rfl | rfl := hmark <;> exact ⟨_, _, rfl, by decide, by decide⟩

theorem IsNumber.head {t : Text} (h : IsNumber t) :
    ∃ c rest, t = c :: rest ∧ (c = '-' ∨ c.isDigit = true) := by
  obtain ⟨minus, whole, fraction, exponent, hminus, hwhole, -, -, rfl⟩ := h
  obtain ⟨c, rest, rfl, hc⟩ := hwhole.head
  obtain rfl | rfl := hminus
  · exact ⟨c, _, rfl, .inr hc⟩
  · exact ⟨'-', _, rfl, .inl rfl⟩

theorem takeWhile_digits {digits : Text} (h : IsDigits digits) (rest : Text) :
    (digits ++ rest).takeWhile Char.isDigit = digits ++ rest.takeWhile Char.isDigit :=
  List.takeWhile_append_of_pos h.2

theorem dropWhile_digits {digits : Text} (h : IsDigits digits) (rest : Text) :
    (digits ++ rest).dropWhile Char.isDigit = rest.dropWhile Char.isDigit :=
  List.dropWhile_append_of_pos h.2

theorem fractionOf_append {digits : Text} (h : IsDigits digits) (rest : Text) :
    fractionOf ('.' :: (digits ++ rest)) = '.' :: (digits ++ rest.takeWhile Char.isDigit) := by
  have hne : digits ++ rest.takeWhile Char.isDigit ≠ [] := by simp [h.1]
  rw [fractionOf, takeWhile_digits h, if_neg hne]

theorem fractionOf_of_ne {c : Char} (h : c ≠ '.') (t : Text) : fractionOf (c :: t) = [] := by
  unfold fractionOf
  split
  · rename_i heq
    cases heq
    exact absurd rfl h
  · rfl

theorem exponentOf_append {t : Text} (h : IsExponent t) (rest : Text) :
    exponentOf (t ++ rest) = t ++ rest.takeWhile Char.isDigit := by
  obtain ⟨mark, sign, digits, hmark, hsign, hdigits, rfl⟩ := h
  have hsigned : signOf (sign ++ digits ++ rest) = sign := by
    obtain rfl | rfl | rfl := hsign
    · obtain ⟨c, more, rfl, hc⟩ := hdigits.head
      show signOf (c :: _) = []
      unfold signOf
      split
      · rename_i heq
        cases heq
        cases hc
      · rename_i heq
        cases heq
        cases hc
      · rfl
    · rfl
    · rfl
  have hne : digits ++ rest.takeWhile Char.isDigit ≠ [] := by simp [hdigits.1]
  rw [List.cons_append, exponentOf, hsigned, List.append_assoc, List.drop_left,
    takeWhile_digits hdigits, if_pos ⟨hmark, hne⟩, List.cons_append, List.append_assoc]

/-- The fraction and the exponent that a text begins with are read. -/
theorem prefix_tail {fraction exponent : Text} (hfraction : fraction = [] ∨ IsFraction fraction)
    (hexponent : exponent = [] ∨ IsExponent exponent) (rest : Text) :
    let behind := fraction ++ (exponent ++ rest)
    fraction ++ exponent <+:
      fractionOf behind ++ exponentOf (behind.drop (fractionOf behind).length) := by
  obtain rfl | hexponent := hexponent
  · obtain rfl | ⟨digits, hdigits, rfl⟩ := hfraction
    · exact List.nil_prefix
    · have hread := fractionOf_append hdigits rest
      simp only [List.nil_append, List.append_nil, List.cons_append, hread]
      exact List.cons_prefix_cons.2 ⟨rfl, List.append_assoc .. ▸ List.prefix_append ..⟩
  · -- The mark of the exponent ends what is before it, so that this is read as it is.
    obtain ⟨c, more, hc, hdigit, hpoint⟩ := hexponent.head
    have hstop : (exponent ++ rest).takeWhile Char.isDigit = [] := by
      rw [hc]
      exact List.takeWhile_cons_of_neg (by simp [hdigit])
    have hread : fractionOf (fraction ++ (exponent ++ rest)) = fraction := by
      obtain rfl | ⟨digits, hdigits, rfl⟩ := hfraction
      · rw [hc]
        exact fractionOf_of_ne hpoint _
      · rw [List.cons_append, fractionOf_append hdigits, hstop, List.append_nil]
    simp only [hread, List.drop_left, exponentOf_append hexponent]
    exact (List.prefix_append_right_inj fraction).2 (List.prefix_append ..)

/-- The longest number, part by part. -/
theorem numberOf_append {minus rest : Text} (hminus : minus = [] ∨ minus = ['-'])
    (hrest : rest.takeWhile Char.isDigit ≠ []) :
    let behind := rest.dropWhile Char.isDigit
    numberOf (minus ++ rest) =
      minus ++ (rest.takeWhile Char.isDigit ++
        (fractionOf behind ++ exponentOf (behind.drop (fractionOf behind).length))) := by
  have hcut : rest.takeWhile Char.isDigit ++ rest.dropWhile Char.isDigit = rest :=
    List.takeWhile_append_dropWhile
  have hsign : (if (minus ++ rest).head? = some '-' then ['-'] else ([] : Text)) = minus := by
    obtain rfl | rfl := hminus
    · refine if_neg fun hhead => hrest ?_
      obtain ⟨more, hmore⟩ := List.head?_eq_some_iff.1 hhead
      rw [List.nil_append] at hmore
      rw [hmore]
      rfl
    · rfl
  rw [numberOf]
  dsimp only
  rw [hsign, List.drop_left, if_neg hrest]
  generalize rest.takeWhile Char.isDigit = whole at hcut ⊢
  generalize rest.dropWhile Char.isDigit = behind at hcut ⊢
  subst hcut
  have hbehind : (minus ++ (whole ++ behind)).drop (minus ++ whole).length = behind := by
    rw [← List.append_assoc, List.drop_left]
  have hexponent (fraction : Text) :
      (minus ++ (whole ++ behind)).drop (minus ++ whole ++ fraction).length =
        behind.drop fraction.length := by
    rw [List.length_append, ← List.drop_drop, hbehind]
  rw [hbehind, hexponent]
  simp only [List.append_assoc]

/-- A number that a text begins with is not longer than the one that is read. -/
theorem IsNumber.prefix_numberOf {t : Text} (h : IsNumber t) (rest : Text) :
    t <+: numberOf (t ++ rest) := by
  obtain ⟨minus, whole, fraction, exponent, hminus, hwhole, hfraction, hexponent, rfl⟩ := h
  have hne (behind : Text) : (whole ++ behind).takeWhile Char.isDigit ≠ [] := by
    simp [takeWhile_digits hwhole, hwhole.1]
  simp only [List.append_assoc]
  rw [numberOf_append hminus (hne _), takeWhile_digits hwhole, dropWhile_digits hwhole]
  refine (List.prefix_append_right_inj minus).2 ?_
  rw [List.append_assoc]
  refine (List.prefix_append_right_inj whole).2 ?_
  have htail := prefix_tail hfraction hexponent rest
  by_cases hempty : fraction ++ exponent = []
  · rw [hempty]
    exact List.nil_prefix
  · -- What stands behind the digits ends them.
    obtain ⟨c, more, hc, hdigit⟩ :
        ∃ c more, fraction ++ (exponent ++ rest) = c :: more ∧ c.isDigit = false := by
      obtain rfl | ⟨digits, -, rfl⟩ := hfraction
      · obtain rfl | hexponent := hexponent
        · exact absurd rfl hempty
        · obtain ⟨c, more, rfl, hdigit, -⟩ := hexponent.head
          exact ⟨c, _, rfl, hdigit⟩
      · exact ⟨'.', _, rfl, by decide⟩
    rw [hc] at htail ⊢
    rw [List.takeWhile_cons_of_neg (by simp [hdigit]),
      List.dropWhile_cons_of_neg (by simp [hdigit])]
    exact htail

theorem isFraction_fractionOf (t : Text) : fractionOf t = [] ∨ IsFraction (fractionOf t) := by
  unfold fractionOf
  split
  · dsimp only
    split
    · exact .inl rfl
    · exact .inr ⟨_, isDigits_takeWhile ‹_›, rfl⟩
  · exact .inl rfl

theorem isExponent_exponentOf (t : Text) : exponentOf t = [] ∨ IsExponent (exponentOf t) := by
  have hsign (t : Text) : signOf t = [] ∨ signOf t = ['-'] ∨ signOf t = ['+'] := by
    unfold signOf
    split <;> simp
  unfold exponentOf
  split
  · exact .inl rfl
  · dsimp only
    split
    · rename_i hmark
      exact .inr ⟨_, _, _, hmark.1, hsign _, isDigits_takeWhile hmark.2, rfl⟩
    · exact .inl rfl

theorem isNumber_numberOf {t : Text} (h : numberOf t ≠ []) : IsNumber (numberOf t) := by
  unfold numberOf at h ⊢
  dsimp only at h ⊢
  have hminus : (if t.head? = some '-' then ['-'] else ([] : Text)) = [] ∨
      (if t.head? = some '-' then ['-'] else ([] : Text)) = ['-'] := by
    split <;> simp
  generalize (if t.head? = some '-' then ['-'] else ([] : Text)) = minus at h hminus ⊢
  by_cases hwhole : (t.drop minus.length).takeWhile Char.isDigit = []
  · rw [if_pos hwhole] at h
    exact absurd rfl h
  · rw [if_neg hwhole]
    exact ⟨minus, _, _, _, hminus, isDigits_takeWhile hwhole, isFraction_fractionOf _,
      isExponent_exponentOf _, (List.append_assoc ..).trans (List.append_assoc ..)⟩

/-! ## The value of a number -/

theorem readNatural?_digits {digits : Text} (h : IsDigits digits) :
    Decimal.readNatural? digits = some (Decimal.naturalOf digits) :=
  if_pos ⟨h.1, List.all_eq_true.2 h.2⟩

theorem readSign_append {sign t : Text} (hsign : sign = [] ∨ sign = ['-'] ∨ sign = ['+'])
    (ht : IsDigits (t.takeWhile Char.isDigit)) : (Decimal.readSign (sign ++ t)).2 = t := by
  obtain rfl | rfl | rfl := hsign
  · unfold Decimal.readSign
    split
    · rename_i heq
      rw [List.nil_append] at heq
      rw [heq] at ht
      exact absurd rfl ht.1
    · rename_i heq
      rw [List.nil_append] at heq
      rw [heq] at ht
      exact absurd rfl ht.1
    · rfl
  · rfl
  · rfl

theorem isSome_readExponent? {t : Text} (h : t = [] ∨ IsExponent t) :
    (Decimal.readExponent? t).isSome = true := by
  obtain rfl | ⟨mark, sign, digits, hmark, hsign, hdigits, rfl⟩ := h
  · rfl
  · have hall : digits.takeWhile Char.isDigit = digits := List.takeWhile_eq_self_iff.2 hdigits.2
    have hbody := readSign_append hsign (hall.symm ▸ hdigits)
    rw [Decimal.readExponent?, if_pos hmark]
    simp [hbody, readNatural?_digits hdigits]

theorem isSome_readMagnitude? {whole fraction exponent : Text} (hwhole : IsDigits whole)
    (hfraction : fraction = [] ∨ IsFraction fraction)
    (hexponent : exponent = [] ∨ IsExponent exponent) :
    (Decimal.readMagnitude? (whole ++ (fraction ++ exponent))).isSome = true := by
  have hread := isSome_readExponent? hexponent
  have hbehind : exponent.takeWhile Char.isDigit = [] ∧
      exponent.dropWhile Char.isDigit = exponent := by
    obtain rfl | hexponent := hexponent
    · exact ⟨rfl, rfl⟩
    · obtain ⟨c, more, rfl, hdigit, -⟩ := hexponent.head
      exact ⟨List.takeWhile_cons_of_neg (by simp [hdigit]),
        List.dropWhile_cons_of_neg (by simp [hdigit])⟩
  unfold Decimal.readMagnitude?
  rw [takeWhile_digits hwhole, dropWhile_digits hwhole]
  obtain rfl | ⟨digits, hdigits, rfl⟩ := hfraction
  · rw [List.nil_append, hbehind.2]
    split
    rename_i heq
    split at heq
    · obtain ⟨c, more, hc, -, hpoint⟩ := (hexponent.resolve_left (by simp)).head
      exact absurd (List.cons.inj hc).1.symm hpoint
    · cases heq
      simp [hwhole.1, hread]
  · have hpoint : Char.isDigit '.' = false := by decide
    rw [List.cons_append, List.dropWhile_cons_of_neg (by simp [hpoint])]
    simp [hwhole.1, dropWhile_digits hdigits, hbehind.2, hread]

/-- Each number has a value. -/
theorem IsNumber.isSome_readFloat? {t : Text} (h : IsNumber t) :
    (Decimal.readFloat? t).isSome = true := by
  obtain ⟨minus, whole, fraction, exponent, hminus, hwhole, hfraction, hexponent, rfl⟩ := h
  have hdigits : IsDigits ((whole ++ (fraction ++ exponent)).takeWhile Char.isDigit) :=
    isDigits_takeWhile (by simp [takeWhile_digits hwhole, hwhole.1])
  have hbody := readSign_append (hminus.imp_right .inl) hdigits
  have hread := isSome_readMagnitude? hwhole hfraction hexponent
  simp [Decimal.readFloat?, hbody, hread]

/-! ## Which lexeme a stretch is -/

theorem ofChar?_of_start {c : Char} (h : isIdentifierStart c = true) : ofChar? c = none := by
  unfold ofChar?
  split <;> first | rfl | cases h

theorem ofChar?_of_digit {c : Char} (h : c = '-' ∨ c.isDigit = true) : ofChar? c = none := by
  obtain rfl | h := h
  · rfl
  · unfold ofChar?
    split <;> first | rfl | cases h

theorem not_start_of_digit {c : Char} (h : c = '-' ∨ c.isDigit = true) :
    isIdentifierStart c = false := by
  obtain rfl | h := h
  · decide
  · rw [Bool.eq_false_iff]
    intro hstart
    unfold isIdentifierStart Char.isAlpha Char.isUpper Char.isLower at hstart
    simp only [Char.isDigit, Bool.or_eq_true, Bool.and_eq_true, decide_eq_true_eq, ge_iff_le,
      UInt32.le_iff_toNat_le] at h hstart
    obtain (hstart | hstart) | rfl := hstart
    · exact absurd (Nat.le_trans hstart.1 h.2) (by decide)
    · exact absurd (Nat.le_trans hstart.1 h.2) (by decide)
    · exact absurd h.2 (by decide)

theorem matches_of_ofChar? {c : Char} {l : Lexeme} (h : ofChar? c = some l) : l.Matches [c] := by
  unfold ofChar? at h
  split at h <;> cases h <;> constructor

/-- The first character of a stretch tells its kind. -/
theorem Matches.kind {l : Lexeme} {t : Text} (h : l.Matches t) : ∃ c rest, t = c :: rest ∧
    ((ofChar? c = some l ∧ rest = []) ∨
      (ofChar? c = none ∧ isIdentifierStart c = true ∧ l = .identifier t ∧
        ∀ d ∈ rest, isIdentifierRest d = true) ∨
      (ofChar? c = none ∧ isIdentifierStart c = false ∧ IsNumber t ∧
        ∃ x, l = .number x ∧ Decimal.readFloat? t = some x)) := by
  cases h with
  | identifier start rest_ok =>
    exact ⟨_, _, rfl, .inr (.inl ⟨ofChar?_of_start start, start, rfl, rest_ok⟩)⟩
  | number form value =>
    obtain ⟨c, rest, rfl, hc⟩ := form.head
    exact ⟨c, rest, rfl,
      .inr (.inr ⟨ofChar?_of_digit hc, not_start_of_digit hc, form, _, rfl, value⟩)⟩
  | _ => exact ⟨_, [], rfl, .inl ⟨rfl, rfl⟩⟩

theorem Matches.ne_nil {l : Lexeme} {t : Text} (h : l.Matches t) : t ≠ [] := by
  obtain ⟨c, rest, rfl, -⟩ := h.kind
  exact List.cons_ne_nil c rest

/-- A stretch has the form of one lexeme at most. -/
theorem Matches.unique {l l' : Lexeme} {t : Text} (h : l.Matches t) (h' : l'.Matches t) :
    l' = l := by
  obtain ⟨c, rest, rfl, h⟩ := h.kind
  obtain ⟨_, _, heq, h'⟩ := h'.kind
  cases heq
  obtain ⟨hc, -⟩ | ⟨hc, hstart, rfl, -⟩ | ⟨hc, hstart, -, x, rfl, hx⟩ := h <;>
    obtain ⟨hc', -⟩ | ⟨hc', hstart', rfl, -⟩ | ⟨hc', hstart', -, x', rfl, hx'⟩ := h' <;>
    simp_all

/-! ## The first lexeme of a text -/

/-- Of the stretches at the start of `t` that have the form of a lexeme, `s` is the longest, and its
lexeme is `l`. -/
structure IsLongest (l : Lexeme) (s t : Text) : Prop where
  matches_l : l.Matches s
  starts : s <+: t
  longest {l' : Lexeme} {s' : Text} : l'.Matches s' → s' <+: t → s'.length ≤ s.length

theorem identifierOf_eq_nil {c : Char} {t : Text} :
    identifierOf (c :: t) = [] ↔ isIdentifierStart c = false := by
  rw [identifierOf]
  split <;> simp_all

/-- The three ways in which a first lexeme is read. -/
theorem first?_cons (c : Char) (t : Text) :
    (∃ l, ofChar? c = some l ∧ first? (c :: t) = some (l, [c])) ∨
    (ofChar? c = none ∧ isIdentifierStart c = true ∧ first? (c :: t) =
      some (.identifier (c :: t.takeWhile isIdentifierRest), c :: t.takeWhile isIdentifierRest)) ∨
    (ofChar? c = none ∧ isIdentifierStart c = false ∧ first? (c :: t) =
      if numberOf (c :: t) = [] then none
      else
        some (.number ((Decimal.readFloat? (numberOf (c :: t))).getD 0), numberOf (c :: t))) := by
  unfold first?
  dsimp only
  cases hc : ofChar? c with
  | some l => exact .inl ⟨l, rfl, rfl⟩
  | none =>
    dsimp only
    cases hstart : isIdentifierStart c with
    | true => exact .inr (.inl ⟨rfl, rfl, by simp [identifierOf, hstart]⟩)
    | false =>
      refine .inr (.inr ⟨rfl, rfl, ?_⟩)
      rw [if_neg (by simp [identifierOf_eq_nil.2 hstart])]
      exact ite_not ..

theorem length_le_takeWhile {p : Char → Bool} {s t : Text} (hs : ∀ c ∈ s, p c = true)
    (h : s <+: t) : s.length ≤ (t.takeWhile p).length := by
  obtain ⟨rest, rfl⟩ := h
  rw [List.takeWhile_append_of_pos hs, List.length_append]
  exact Nat.le_add_right ..

theorem isLongest_of_first? {t s : Text} {l : Lexeme} (h : first? t = some (l, s)) :
    IsLongest l s t := by
  have hstarts := (first?_ok h).1
  cases t with
  | nil => cases h
  | cons c t =>
    obtain ⟨l', hc, hfirst⟩ | ⟨hc, hstart, hfirst⟩ | ⟨hc, hstart, hfirst⟩ := first?_cons c t
    · cases hfirst.symm.trans h
      refine ⟨matches_of_ofChar? hc, hstarts, fun hmatches hstands => ?_⟩
      obtain ⟨d, rest, rfl, hkind⟩ := hmatches.kind
      obtain ⟨rfl, -⟩ := List.cons_prefix_cons.1 hstands
      obtain ⟨-, rfl⟩ | ⟨hd, -⟩ | ⟨hd, -⟩ := hkind
      · exact Nat.le_refl _
      · cases hc.symm.trans hd
      · cases hc.symm.trans hd
    · cases hfirst.symm.trans h
      refine ⟨.identifier hstart fun _ => List.all_eq_true.1 List.all_takeWhile _, hstarts,
        fun hmatches hstands => ?_⟩
      obtain ⟨d, rest, rfl, hkind⟩ := hmatches.kind
      obtain ⟨rfl, htail⟩ := List.cons_prefix_cons.1 hstands
      obtain ⟨hd, -⟩ | ⟨-, -, -, hrest⟩ | ⟨-, hd, -⟩ := hkind
      · cases hc.symm.trans hd
      · exact Nat.succ_le_succ (length_le_takeWhile hrest htail)
      · cases hstart.symm.trans hd
    · rw [hfirst] at h
      split at h
      · cases h
      · rename_i hne
        cases h
        have hnumber := isNumber_numberOf hne
        obtain ⟨x, hx⟩ := Option.isSome_iff_exists.1 hnumber.isSome_readFloat?
        refine ⟨by rw [hx]; exact .number hnumber hx, hstarts, fun hmatches hstands => ?_⟩
        obtain ⟨d, rest, rfl, hkind⟩ := hmatches.kind
        obtain ⟨rfl, -⟩ := List.cons_prefix_cons.1 hstands
        obtain ⟨hd, -⟩ | ⟨-, hd, -⟩ | ⟨-, -, hform, -⟩ := hkind
        · cases hc.symm.trans hd
        · cases hstart.symm.trans hd
        · obtain ⟨behind, hbehind⟩ := hstands
          rw [← hbehind]
          exact (hform.prefix_numberOf behind).length_le

theorem not_matches_of_first? {t : Text} (h : first? t = none) {l : Lexeme} {s : Text}
    (hmatches : l.Matches s) : ¬ s <+: t := by
  intro hstands
  obtain ⟨c, rest, rfl, hkind⟩ := hmatches.kind
  obtain ⟨behind, rfl⟩ := hstands
  rw [List.cons_append] at h
  obtain ⟨l', hc, hfirst⟩ | ⟨hc, hstart, hfirst⟩ | ⟨hc, hstart, hfirst⟩ :=
    first?_cons c (rest ++ behind)
  · cases hfirst.symm.trans h
  · cases hfirst.symm.trans h
  · obtain ⟨hd, -⟩ | ⟨-, hd, -⟩ | ⟨-, -, hform, -⟩ := hkind
    · cases hc.symm.trans hd
    · cases hstart.symm.trans hd
    · have hread := hform.prefix_numberOf behind
      have hne : numberOf (c :: (rest ++ behind)) ≠ [] := by
        intro hnil
        rw [List.cons_append, hnil] at hread
        exact List.cons_ne_nil _ _ (List.prefix_nil.1 hread)
      rw [hfirst, if_neg hne] at h
      cases h

/-- **The first lexeme of a text is the longest stretch at its start that has the form of one.** -/
theorem first?_eq_some {t s : Text} {l : Lexeme} : first? t = some (l, s) ↔ IsLongest l s t := by
  constructor
  · exact isLongest_of_first?
  · intro h
    cases hfirst : first? t with
    | none => exact absurd h.starts (not_matches_of_first? hfirst h.matches_l)
    | some found =>
      obtain ⟨l', s'⟩ := found
      have h' := isLongest_of_first? hfirst
      have hlength := Nat.le_antisymm (h.longest h'.matches_l h'.starts)
        (h'.longest h.matches_l h.starts)
      obtain rfl : s' = s :=
        (List.prefix_of_prefix_length_le h'.starts h.starts hlength.le).eq_of_length hlength
      rw [h.matches_l.unique h'.matches_l]

/-! ## The characters of a lexeme -/

theorem IsNumber.mem {t : Text} (h : IsNumber t) {c : Char} (hc : c ∈ t) :
    c.isDigit = true ∨ c ∈ ['-', '+', '.', 'e', 'E'] := by
  obtain ⟨minus, whole, fraction, exponent, hminus, hwhole, hfraction, hexponent, rfl⟩ := h
  rcases List.mem_append.1 hc with hc | hc
  · obtain rfl | rfl := hminus
    · cases hc
    · exact .inr (by simp_all)
  rcases List.mem_append.1 hc with hc | hc
  · exact .inl (hwhole.2 c hc)
  rcases List.mem_append.1 hc with hc | hc
  · obtain rfl | ⟨digits, hdigits, rfl⟩ := hfraction
    · cases hc
    · rcases List.mem_cons.1 hc with rfl | hc
      · exact .inr (by simp)
      · exact .inl (hdigits.2 c hc)
  · obtain rfl | ⟨mark, sign, digits, hmark, hsign, hdigits, rfl⟩ := hexponent
    · cases hc
    · rcases List.mem_cons.1 hc with rfl | hc
      · exact .inr (by obtain rfl | rfl := hmark <;> simp)
      rcases List.mem_append.1 hc with hc | hc
      · exact .inr (by obtain rfl | rfl | rfl := hsign <;> simp_all)
      · exact .inl (hdigits.2 c hc)

theorem visible_of_isIdentifierRest {c : Char} (h : isIdentifierRest c = true) :
    33 ≤ c.toNat ∧ c.toNat ≤ 126 := by
  have hcases : isIdentifierStart c = true ∨ c.isDigit = true ∨ c = '-' := by
    simp only [isIdentifierRest, Char.isAlphanum, Bool.or_eq_true, decide_eq_true_eq] at h
    simp only [isIdentifierStart, Bool.or_eq_true, decide_eq_true_eq]
    tauto
  obtain h | h | rfl := hcases
  · exact visible_of_isIdentifierStart h
  · exact visible_of_isDigit h
  · decide

/-- No character of a lexeme is blank, and none begins a comment. -/
theorem Matches.visible {l : Lexeme} {t : Text} (h : l.Matches t) {c : Char} (hc : c ∈ t) :
    Text.isBlankChar c = false ∧ c ≠ '#' := by
  cases h with
  | identifier start rest_ok =>
    rcases List.mem_cons.1 hc with rfl | hc
    · refine ⟨Text.isBlankChar_of_visible (visible_of_isIdentifierStart start), ?_⟩
      rintro rfl
      cases start
    · refine ⟨Text.isBlankChar_of_visible (visible_of_isIdentifierRest (rest_ok c hc)), ?_⟩
      rintro rfl
      cases rest_ok _ hc
  | number form =>
    obtain hdigit | hc := form.mem hc
    · refine ⟨Text.isBlankChar_of_visible (visible_of_isDigit hdigit), ?_⟩
      rintro rfl
      cases hdigit
    · simp only [List.mem_cons, List.not_mem_nil, or_false] at hc
      obtain rfl | rfl | rfl | rfl | rfl := hc <;> decide
  | _ =>
    obtain rfl := List.mem_singleton.1 hc
    decide

end QuantumDiagram.Lexeme

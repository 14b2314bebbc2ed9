import QuantumDiagram.Proofs.Program.Naming
import QuantumDiagram.Proofs.Statement.Cutting

/-!
# Labels of channels

The label of a channel shows the name that it was given, else its canonical name. An operand of this
name means the channel again, unless the name is a canonical one that was given to another channel
(`Circuit.Shadows`): given names are looked up first. So two channels have the same label just if
one of them shadows the other (`Circuit.labels_ofProgram`). Labels of a qubit and a bit always
differ, since a name is an identifier and the label of a qubit begins with a bar.
-/

namespace QuantumDiagram

/-! ## Names are identifiers -/

namespace Lexeme

/-- The whole text has the form of an identifier. -/
def IsIdentifier (n : Text) : Prop := (identifier n).Matches n

theorem IsIdentifier.start {n : Text} (h : IsIdentifier n) :
    n.head?.any isIdentifierStart = true := by
  cases h with
  | identifier start _ => exact start

theorem isIdentifier_of_mem {offset : Nat} {t : Text} {ls : List (Located Lexeme)}
    (h : readAllFrom offset t = .ok ls) {n : Text} {span : Span}
    (hn : ⟨identifier n, span⟩ ∈ ls) : IsIdentifier n := by
  obtain ⟨_, _, _, -, -, hlongest, -⟩ := (cuts_of_readAllFrom h).standsIn _ hn
  cases hlongest.matches_l with
  | identifier start rest_ok => exact .identifier start rest_ok

end Lexeme

namespace Statement

theorem identifier_of_operandOf? {l : Located Lexeme} {operand : Located Operand} {n : Text}
    (h : operandOf? l = some operand) (hn : operand.value = .name n) :
    l = ⟨.identifier n, l.span⟩ := by
  obtain ⟨l, span⟩ := l
  unfold operandOf? at h
  split at h
  · rename_i hl
    cases h
    cases hl
    cases hn
    rfl
  · cases h
    cases hn
  · cases h

theorem isIdentifier_of_operand {t : Text} {keyword : Located Text}
    {operands : List (Located Operand)} (h : read t = .ok (.instruction keyword operands))
    {operand : Located Operand} (hmem : operand ∈ operands) {n : Text}
    (hn : operand.value = .name n) : Lexeme.IsIdentifier n := by
  obtain ⟨ls, hls, h⟩ := read_ok h
  obtain ⟨l, hl, hoperand⟩ := (instruction_of_ofLexemes h).2 operand hmem
  rw [identifier_of_operandOf? hoperand hn] at hl
  exact Lexeme.isIdentifier_of_mem hls hl

theorem isIdentifier_of_header {t : Text} {name : Located Text} {number : Option (Located Float)}
    (h : read t = .ok (.header name number)) : Lexeme.IsIdentifier name.value := by
  obtain ⟨ls, hls, h⟩ := read_ok h
  exact Lexeme.isIdentifier_of_mem hls (header_of_ofLexemes h).1

end Statement

/-- A name that a statement gives is an identifier. -/
theorem Pending.isIdentifier_of_naming? {qubits : Nat} {p : Pending} {x : Naming}
    (h : p.naming? qubits = some x) : Lexeme.IsIdentifier x.name := by
  obtain ⟨keyword, target, given, t, hread, -, -, -, hgiven⟩ := exists_of_naming? h
  exact Statement.isIdentifier_of_operand hread (List.mem_cons_of_mem target List.mem_cons_self)
    hgiven

/-- The canonical name of a channel is an identifier. -/
theorem Channel.isIdentifier_text (c : Channel) : Lexeme.IsIdentifier c.text := by
  have hrest (n : Nat) : ∀ d ∈ Decimal.natural n, Lexeme.isIdentifierRest d = true := by
    intro d hd
    have hdigit := List.all_eq_true.1 (Decimal.all_isDigit_natural n) d hd
    simp [Lexeme.isIdentifierRest, Char.isAlphanum, hdigit]
  cases c with
  | qubit i => exact .identifier (by decide) (hrest i)
  | bit i => exact .identifier (by decide) (hrest i)

namespace Circuit

variable {source : Text} {m : Circuit} {c d : Channel}

/-- The channel `c` was given the canonical name of `d`, and `d` has no other. -/
def Shadows (m : Circuit) (c d : Channel) : Prop :=
  m.alias? c = some d.text ∧ m.alias? d = none

instance : Decidable (m.Shadows c d) := inferInstanceAs (Decidable (_ ∧ _))

theorem shownName_of_some {n : Text} (h : m.alias? c = some n) : m.shownName c = n := by
  rw [shownName, h]
  rfl

theorem shownName_of_none (h : m.alias? c = none) : m.shownName c = c.text := by
  rw [shownName, h]
  rfl

section Run

variable {performed : List Pending} {s : State}

/-- The name that is shown for a channel means it, unless the channel is shadowed. -/
theorem channelOf?_shownName (hrun : Performs source performed s [])
    (hfinish : s.draft.finish = .ok m) (hc : c ∈ m.channels) :
    s.draft.channelOf? (m.shownName c) = some c ↔ ∀ d ∈ m.channels, ¬m.Shadows d c := by
  obtain ⟨hqubits, -, hname⟩ := alias?_of_finish hfinish
  obtain ⟨hsized, hdistinct⟩ := hrun.distinct
  have hindex : c.index < s.draft.qubits := hqubits ▸ Channel.mem_all.1 hc
  have hnamed (d : Channel) (n : Text) :
      s.draft.named? n = some d ↔ d ∈ m.channels ∧ m.alias? d = some n := by
    rw [Draft.named?_eq_some hsized hdistinct, channels, Channel.mem_all, hqubits, hname]
  rw [Draft.channelOf?_eq]
  cases hown : m.alias? c with
  | some n =>
    rw [shownName_of_some hown, (hnamed c n).2 ⟨hc, hown⟩]
    refine iff_of_true rfl fun d _ hshadows => ?_
    rw [hshadows.2] at hown
    cases hown
  | none =>
    rw [shownName_of_none hown, Channel.read?_text hindex]
    cases hgiven : s.draft.named? c.text with
    | none =>
      refine iff_of_true rfl fun d hd hshadows => ?_
      rw [(hnamed d c.text).2 ⟨hd, hshadows.1⟩] at hgiven
      cases hgiven
    | some d =>
      obtain ⟨hd, hname⟩ := (hnamed d c.text).1 hgiven
      refine iff_of_false (fun h => ?_) fun h => h d hd ⟨hname, hown⟩
      cases h
      rw [hown] at hname
      cases hname

theorem shownName_eq_iff (hrun : Performs source performed s [])
    (hfinish : s.draft.finish = .ok m) (hc : c ∈ m.channels) (hd : d ∈ m.channels) :
    m.shownName c = m.shownName d ↔ c = d ∨ m.Shadows c d ∨ m.Shadows d c := by
  obtain ⟨hqubits, -, hname⟩ := alias?_of_finish hfinish
  obtain ⟨hsized, hdistinct⟩ := hrun.distinct
  have hsame {n : Text} (hcn : m.alias? c = some n) (hdn : m.alias? d = some n) : c = d := by
    rw [hname] at hcn hdn
    have hc := (Draft.named?_eq_some hsized hdistinct).2 ⟨hqubits ▸ Channel.mem_all.1 hc, hcn⟩
    have hd := (Draft.named?_eq_some hsized hdistinct).2 ⟨hqubits ▸ Channel.mem_all.1 hd, hdn⟩
    exact Option.some.inj (hc.symm.trans hd)
  unfold Shadows
  cases hcn : m.alias? c with
  | none =>
    cases hdn : m.alias? d with
    | none => simp [shownName_of_none, hcn, hdn, Channel.text_inj]
    | some n =>
      have hne : c ≠ d := fun h => by
        rw [h, hdn] at hcn
        cases hcn
      simp [shownName_of_none hcn, shownName_of_some hdn, hne, eq_comm]
  | some n =>
    cases hdn : m.alias? d with
    | none =>
      have hne : c ≠ d := fun h => by
        rw [h, hdn] at hcn
        cases hcn
      simp [shownName_of_some hcn, shownName_of_none hdn, hne]
    | some n' =>
      rw [shownName_of_some hcn, shownName_of_some hdn]
      constructor
      · rintro rfl
        exact .inl (hsame hcn hdn)
      · rintro (rfl | ⟨-, h⟩ | ⟨-, h⟩)
        · rw [hcn] at hdn
          exact Option.some.inj hdn
        · cases h
        · cases h

theorem isIdentifier_shownName (hrun : Performs source performed s [])
    (hfinish : s.draft.finish = .ok m) (hc : c ∈ m.channels) :
    Lexeme.IsIdentifier (m.shownName c) := by
  obtain ⟨hqubits, -, hname⟩ := alias?_of_finish hfinish
  cases hown : m.alias? c with
  | none =>
    rw [shownName_of_none hown]
    exact c.isIdentifier_text
  | some n =>
    rw [shownName_of_some hown]
    rw [hname] at hown
    have hlast := (hrun.namedBy c n (hqubits ▸ Channel.mem_all.1 hc)).1 hown
    obtain ⟨p, -, hp⟩ := List.mem_filterMap.1 (Naming.mem_of_last? hlast)
    exact Pending.isIdentifier_of_naming? hp

theorem label_eq_iff (hrun : Performs source performed s [])
    (hfinish : s.draft.finish = .ok m) (hc : c ∈ m.channels) (hd : d ∈ m.channels) :
    m.label c = m.label d ↔ c.isClassical = d.isClassical ∧ m.shownName c = m.shownName d := by
  have hbar {n rest : Text} (hn : Lexeme.IsIdentifier n) (h : n = '|' :: rest) : False := by
    have hstart := hn.start
    rw [h] at hstart
    cases hstart
  unfold label
  cases hck : c.isClassical <;> cases hdk : d.isClassical
  · simp
  · exact iff_of_false (fun h => hbar (isIdentifier_shownName hrun hfinish hd) h.symm) (by simp)
  · exact iff_of_false (fun h => hbar (isIdentifier_shownName hrun hfinish hc) h) (by simp)
  · simp

end Run

/-- **A label tells its channel, unless that is shadowed.** The name that is shown for a channel,
looked up as an operand at the end of the program, means the channel just if no other channel was
given its canonical name in place of a name of its own; and the labels of two channels of one kind
are the same just if one of them so shadows the other. -/
theorem labels_ofProgram (h : ofProgram source = .ok m) :
    ∃ performed s, Performs source performed s [] ∧ s.draft.finish = .ok m ∧
      (∀ c ∈ m.channels, s.draft.channelOf? (m.shownName c) = some c ↔
        ∀ d ∈ m.channels, ¬m.Shadows d c) ∧
      ∀ c ∈ m.channels, ∀ d ∈ m.channels, c ≠ d →
        (m.label c = m.label d ↔
          c.isClassical = d.isClassical ∧ (m.Shadows c d ∨ m.Shadows d c)) := by
  obtain ⟨performed, s, hrun, hfinish⟩ := executes_of_ofProgram h
  refine ⟨performed, s, hrun, hfinish, fun c hc => channelOf?_shownName hrun hfinish hc,
    fun c hc d hd hne => ?_⟩
  rw [label_eq_iff hrun hfinish hc hd, shownName_eq_iff hrun hfinish hc hd]
  simp [hne]

/-- Names that are canonical ones of other channels, which have names of their own or are bits. -/
theorem labels_swapped :
    let source := "qubits 2\nmap q0, q1 | map q1, q0\nmap b0, q01\nh q1 | x q0".toList
    ∃ m, ofProgram source = .ok m ∧
      m.label (.qubit 0) = "|q1>".toList ∧ m.label (.qubit 1) = "|q0>".toList ∧
      ∃ performed s, Performs source performed s [] ∧ s.draft.finish = .ok m ∧
        (∀ c ∈ m.channels, s.draft.channelOf? (m.shownName c) = some c ↔
          ∀ d ∈ m.channels, ¬m.Shadows d c) ∧
        ∀ c ∈ m.channels, ∀ d ∈ m.channels, c ≠ d →
          (m.label c = m.label d ↔
            c.isClassical = d.isClassical ∧ (m.Shadows c d ∨ m.Shadows d c)) := by
  intro source
  have h : (ofProgram source).toOption.map (fun m => (m.label (.qubit 0), m.label (.qubit 1))) =
      some ("|q1>".toList, "|q0>".toList) := by
    decide +kernel
  obtain ⟨m, hm, hlabels⟩ := Option.map_eq_some_iff.1 h
  have hm := toOption_eq_some.1 hm
  simp only [Prod.mk.injEq] at hlabels
  exact ⟨m, hm, hlabels.1, hlabels.2, labels_ofProgram hm⟩

/-- The qubit `q1` has no name and `q0` was given its canonical one: `q1` means `q0`, and both
labels are the same. -/
theorem label_shadowed :
    let source := "qubits 2\nmap q0, q1\nh q1".toList
    ∃ m performed s, ofProgram source = .ok m ∧ Performs source performed s [] ∧
      s.draft.finish = .ok m ∧ .qubit 1 ∈ m.channels ∧
      s.draft.channelOf? (m.shownName (.qubit 1)) ≠ some (.qubit 1) ∧
      m.label (.qubit 0) = m.label (.qubit 1) := by
  intro source
  have h : (ofProgram source).toOption.map (fun m => (m.qubits, decide (m.Shadows (.qubit 0)
      (.qubit 1)), decide (m.label (.qubit 0) = m.label (.qubit 1)))) = some (2, true, true) := by
    decide +kernel
  obtain ⟨m, hm, hfacts⟩ := Option.map_eq_some_iff.1 h
  have hm := toOption_eq_some.1 hm
  simp only [Prod.mk.injEq, decide_eq_true_eq] at hfacts
  obtain ⟨hqubits, hshadows, hlabels⟩ := hfacts
  obtain ⟨performed, s, hrun, hfinish⟩ := executes_of_ofProgram hm
  have hmem (i : Nat) (hi : i < 2) : .qubit i ∈ m.channels := by
    rw [channels, Channel.mem_all, hqubits]
    exact hi
  refine ⟨m, performed, s, hm, hrun, hfinish, hmem 1 (by decide), fun hresolved => ?_, hlabels⟩
  exact (channelOf?_shownName hrun hfinish (hmem 1 (by decide))).1 hresolved (.qubit 0)
    (hmem 0 (by decide)) hshadows

end Circuit

end QuantumDiagram

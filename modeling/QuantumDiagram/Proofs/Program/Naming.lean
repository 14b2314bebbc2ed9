import QuantumDiagram.Proofs.Circuit.SubroutineHeaders
import QuantumDiagram.Proofs.Statement.Spans

/-!
# The names that a program gives

A `map` statement gives a name to a channel: what had the name and what name the channel had are
forgotten. So the channel has the name just if, of the statements so far that name the channel or
give the name, the last one does both (`Naming.last?`). This holds between any two steps of a run
(`Performs.namedBy`) and of circuits (`Circuit.aliases_ofProgram`); no two channels ever have the
same name.
-/

namespace QuantumDiagram

/-! ## What statements name -/

/-- A name and the channel that it is given to. -/
structure Naming where
  channel : Channel
  name : Text
deriving DecidableEq

namespace Naming

/-- The naming is of the channel, or it gives the name. -/
def Concerns (x : Naming) (c : Channel) (n : Text) : Prop := x.channel = c ∨ x.name = n

instance (x : Naming) (c : Channel) (n : Text) : Decidable (x.Concerns c n) :=
  inferInstanceAs (Decidable (_ ∨ _))

/-- The last of the namings that concern the channel or the name. -/
def last? (c : Channel) (n : Text) (xs : List Naming) : Option Naming :=
  (xs.filter (·.Concerns c n)).getLast?

theorem last?_append (c : Channel) (n : Text) (xs : List Naming) (x : Naming) :
    last? c n (xs ++ [x]) = if x.Concerns c n then some x else last? c n xs := by
  unfold last?
  rw [List.filter_append]
  split
  · rename_i h
    rw [List.filter_cons_of_pos (by simpa using h)]
    simp
  · rename_i h
    rw [List.filter_cons_of_neg (by simpa using h)]
    simp

theorem mem_of_last? {c : Channel} {n : Text} {xs : List Naming} {x : Naming}
    (h : last? c n xs = some x) : x ∈ xs :=
  (List.mem_filter.1 (List.mem_of_getLast? h)).1

/-- What the operands of `map` name: the canonical name of a channel, and another name. -/
def ofOperands? (qubits : Nat) : List (Located Operand) → Option Naming
  | [target, given] =>
    match target.value, given.value with
    | .name t, .name n => (Channel.read? qubits t).map (⟨·, n⟩)
    | _, _ => none
  | _ => none

end Naming

/-- What a statement names, in a program on the given number of qubits. Only `map` does. -/
def Statement.naming? (qubits : Nat) : Statement → Option Naming
  | .instruction keyword operands =>
    if Text.lower keyword.value = Gate.map.name then Naming.ofOperands? qubits operands else none
  | .header _ _ => none

def Pending.naming? (qubits : Nat) (p : Pending) : Option Naming :=
  (Statement.read p.text).toOption.bind (Statement.naming? qubits)

/-- A statement that names a channel is a `map` of two names, the first of them canonical. -/
theorem Pending.exists_of_naming? {qubits : Nat} {p : Pending} {x : Naming}
    (h : p.naming? qubits = some x) : ∃ keyword target given t,
      Statement.read p.text = .ok (.instruction keyword [target, given]) ∧
        Text.lower keyword.value = Gate.map.name ∧ target.value = .name t ∧
        Channel.read? qubits t = some x.channel ∧ given.value = .name x.name := by
  obtain ⟨st, hst, hx⟩ := Option.bind_eq_some_iff.1 h
  unfold Statement.naming? at hx
  split at hx
  · rename_i keyword operands
    split at hx
    · rename_i hkeyword
      unfold Naming.ofOperands? at hx
      split at hx
      · rename_i target given
        split at hx
        · rename_i t n htarget hgiven
          obtain ⟨c, hc, rfl⟩ := Option.map_eq_some_iff.1 hx
          exact ⟨keyword, target, given, t, toOption_eq_some.1 hst, hkeyword, htarget, hc, hgiven⟩
        · cases hx
      · cases hx
    · cases hx
  · cases hx

theorem Pending.index_lt_of_naming? {qubits : Nat} {p : Pending} {x : Naming}
    (h : p.naming? qubits = some x) : x.channel.index < qubits := by
  obtain ⟨_, _, _, _, -, -, -, hchannel, -⟩ := exists_of_naming? h
  exact Channel.index_lt_of_read? hchannel

/-! ## The keyword of a statement -/

namespace Statement

theorem head?_of_ofLexemes {final : Span} {ls : List (Located Lexeme)} {keyword : Located Text}
    {operands : List (Located Operand)}
    (h : ofLexemes final ls = .ok (.instruction keyword operands)) :
    ls.head? = some ⟨.identifier keyword.value, keyword.span⟩ := by
  unfold ofLexemes at h
  split at h
  · split at h
    · obtain ⟨_, -, h⟩ := map_eq_ok.1 h
      cases h
    · cases h
  · obtain ⟨_, -, h⟩ := map_eq_ok.1 h
    cases h
    rfl
  · cases h

/-- An instruction that is no comment begins with its keyword. -/
theorem head?_keyword {t w : Text} {c : Char} {keyword : Located Text}
    {operands : List (Located Operand)} (hw : Text.firstWord t = c :: w) (hmark : c ≠ '#')
    (h : read t = .ok (.instruction keyword operands)) : keyword.value.head? = some c := by
  obtain ⟨ls, hls, h⟩ := read_ok h
  obtain ⟨before, after, rfl, hbefore, hc⟩ := Text.exists_of_firstWord hw
  obtain ⟨l, s, span, rest, hfirst, rfl⟩ := Lexeme.first?_of_readAllFrom hbefore hc hmark hls
  have hhead := head?_of_ofLexemes h
  cases hhead
  obtain ⟨⟨behind, hbehind⟩, hspelled⟩ := Lexeme.first?_ok hfirst
  have hvalue : keyword.value = s := hspelled
  cases s with
  | nil => exact absurd rfl (Lexeme.first?_ne_nil hfirst)
  | cons d s =>
    cases hbehind
    rw [hvalue]
    rfl

end Statement

namespace Draft

/-- A statement that names a channel is none of the directives that are skipped. -/
theorem not_skipped_of_map {p : Pending} {keyword : Located Text}
    {operands : List (Located Operand)}
    (h : Statement.read p.text = .ok (.instruction keyword operands))
    (hkeyword : Text.lower keyword.value = Gate.map.name) :
    Text.startsWith (leadingWord p) "display" = false ∧
      leadingWord p ≠ "error_model".toList := by
  unfold leadingWord
  cases hw : Text.firstWord p.text with
  | nil => exact ⟨rfl, by decide⟩
  | cons c w =>
    have hc : c = '#' ∨ c.toLower = 'm' := by
      by_cases hmark : c = '#'
      · exact .inl hmark
      · have hhead := Statement.head?_keyword hw hmark h
        have hlower := congrArg List.head? hkeyword
        rw [Text.lower, List.head?_map, hhead] at hlower
        exact .inr (Option.some.inj hlower)
    rcases hc with rfl | hc
    · exact ⟨rfl, by simp [Text.lower]⟩
    · have hlower : Text.lower (c :: w) = 'm' :: Text.lower w := congrArg (· :: Text.lower w) hc
      rw [hlower]
      exact ⟨rfl, by simp⟩

end Draft

/-! ## The table of names -/

namespace Draft

/-- The name of a channel. -/
def alias? (d : Draft) (c : Channel) : Option Text := (d.aliases[c.row d.qubits]?).join

/-- The channel that a name was given to. -/
def named? (d : Draft) (n : Text) : Option Channel :=
  (d.aliases.findIdx? (·.any (· = n))).map (Channel.ofRow d.qubits)

/-- An operand is looked up among the given names first, and then among the canonical ones. -/
theorem channelOf?_eq (d : Draft) (n : Text) :
    d.channelOf? n = (d.named? n).or (Channel.read? d.qubits n) := by
  unfold channelOf? named?
  cases d.aliases.findIdx? (·.any (· = n)) <;> rfl

theorem alias?_eq_some {d : Draft} {c : Channel} {n : Text} :
    d.alias? c = some n ↔ d.aliases[c.row d.qubits]? = some (some n) :=
  Option.join_eq_some_iff

theorem getElem?_giveName (d : Draft) (c : Channel) (n : Text) (i : Nat) :
    (d.giveName c n).aliases[i]? =
      if c.row d.qubits = i then (if i < d.aliases.size then some (some n) else none)
      else d.aliases[i]?.map (·.filter (· ≠ n)) := by
  rw [giveName, Array.getElem?_setIfInBounds, Array.getElem?_map, Array.size_map]
  split
  · rename_i hrow
    rw [hrow]
  · rfl

/-- A naming takes the name from every other channel, and from its channel every other name. -/
theorem alias?_giveName {d : Draft} (hsized : d.Sized) {c e : Channel} {n : Text}
    (he : e.index < d.qubits) (hc : c.index < d.qubits) :
    (d.giveName e n).alias? c = if e = c then some n else (d.alias? c).filter (· ≠ n) := by
  have hsize : c.row d.qubits < d.aliases.size := hsized ▸ Channel.row_lt hc
  show ((d.giveName e n).aliases[c.row d.qubits]?).join = _
  rw [getElem?_giveName, if_pos hsize, alias?]
  by_cases hchannel : e = c
  · rw [if_pos hchannel, if_pos (congrArg (Channel.row d.qubits) hchannel)]
    rfl
  · rw [if_neg hchannel, if_neg (mt (Channel.row_eq_iff he hc).1 hchannel)]
    cases d.aliases[c.row d.qubits]? <;> rfl

/-- No two channels have the same name. -/
def Distinct (d : Draft) : Prop :=
  ∀ (i j : Nat) (n : Text), d.aliases[i]? = some (some n) → d.aliases[j]? = some (some n) → i = j

theorem Distinct.of_aliases {d e : Draft} (hd : d.Distinct) (h : e.aliases = d.aliases) :
    e.Distinct := by
  rwa [Distinct, h]

theorem distinct_initial (qubits : Nat) : (initial qubits).Distinct := by
  intro i j n hi
  simp [initial, Array.getElem?_replicate] at hi

theorem Distinct.giveName {d : Draft} (hd : d.Distinct) (c : Channel) (n : Text) :
    (d.giveName c n).Distinct := by
  -- After the naming, only the row of `c` has the name `n`, and the other names are old.
  have old {i : Nat} {n' : Text} (hi : (d.giveName c n).aliases[i]? = some (some n')) :
      (c.row d.qubits = i ∧ n' = n) ∨ (n' ≠ n ∧ d.aliases[i]? = some (some n')) := by
    rw [getElem?_giveName] at hi
    split at hi
    · rename_i hrow
      split at hi
      · cases hi
        exact .inl ⟨hrow, rfl⟩
      · cases hi
    · obtain ⟨given, hgiven, hkept⟩ := Option.map_eq_some_iff.1 hi
      obtain ⟨rfl, hne⟩ := Option.filter_eq_some_iff.1 hkept
      exact .inr ⟨by simpa using hne, hgiven⟩
  intro i j n' hi hj
  obtain ⟨hrow, rfl⟩ | ⟨hne, hi⟩ := old hi
  · obtain ⟨hrow', -⟩ | ⟨hne, -⟩ := old hj
    · exact hrow.symm.trans hrow'
    · exact absurd rfl hne
  · obtain ⟨-, rfl⟩ | ⟨-, hj⟩ := old hj
    · exact absurd rfl hne
    · exact hd i j n' hi hj

theorem invariant_distinct : Invariant Distinct where
  closed hd hclosed := hd.of_aliases (closeSubroutine_frame hclosed).2.1
  effect _ hd heffect := by
    cases heffect with
    | nothing => exact hd
    | header hclosed _ => exact hd.of_aliases (closeSubroutine_frame hclosed).2.1
    | naming _ => exact hd.giveName _ _
    | gates hplaced =>
      obtain ⟨is, g, -, -, rfl⟩ := hplaced
      exact hd.of_aliases rfl
  advanced hd := hd.of_aliases rfl

/-- The channel that a name was given to is the one that has it. -/
theorem named?_eq_some {d : Draft} (hsized : d.Sized) (hd : d.Distinct) {c : Channel} {n : Text} :
    d.named? n = some c ↔ c.index < d.qubits ∧ d.alias? c = some n := by
  have found {r : Nat} (hr : d.aliases.findIdx? (·.any (· = n)) = some r) :
      r < d.aliases.size ∧ d.aliases[r]? = some (some n) := by
    obtain ⟨hlt, hany, -⟩ := Array.findIdx?_eq_some_iff_getElem.1 hr
    refine ⟨hlt, ?_⟩
    rw [Array.getElem?_eq_getElem hlt]
    cases hgiven : d.aliases[r] with
    | none => simp [hgiven] at hany
    | some n' => simpa [hgiven] using hany
  rw [alias?_eq_some, named?, Option.map_eq_some_iff]
  constructor
  · rintro ⟨r, hr, rfl⟩
    obtain ⟨hlt, hrow⟩ := found hr
    rw [Channel.row_ofRow]
    exact ⟨Channel.index_ofRow_lt (hsized ▸ hlt), hrow⟩
  · rintro ⟨hindex, hrow⟩
    cases hr : d.aliases.findIdx? (·.any (· = n)) with
    | none =>
      have hmem := Array.mem_of_getElem? hrow
      have hnone := Array.findIdx?_eq_none_iff.1 hr _ hmem
      simp at hnone
    | some r =>
      refine ⟨r, rfl, ?_⟩
      rw [hd _ _ _ (found hr).2 hrow, Channel.ofRow_row hindex]

/-! ## The names of a draft -/

/-- The names of the channels are the ones that the namings give. -/
def NamedBy (d : Draft) (xs : List Naming) : Prop :=
  ∀ c n, c.index < d.qubits → (d.alias? c = some n ↔ Naming.last? c n xs = some ⟨c, n⟩)

theorem namedBy_initial (qubits : Nat) : (initial qubits).NamedBy [] := by
  intro c n hc
  have hnone : (initial qubits).alias? c ≠ some n := fun h => by
    rw [alias?_eq_some] at h
    simp [initial, Array.getElem?_replicate] at h
  exact iff_of_false hnone (by simp [Naming.last?])

theorem NamedBy.congr {d e : Draft} {xs : List Naming} (hd : d.NamedBy xs)
    (hqubits : e.qubits = d.qubits) (haliases : e.aliases = d.aliases) : e.NamedBy xs := by
  intro c n hc
  rw [hqubits] at hc
  rw [alias?, hqubits, haliases]
  exact hd c n hc

theorem NamedBy.giveName {d : Draft} {xs : List Naming} (hsized : d.Sized) (hd : d.NamedBy xs)
    {x : Naming} (hx : x.channel.index < d.qubits) :
    (d.giveName x.channel x.name).NamedBy (xs ++ [x]) := by
  intro c n hc
  obtain ⟨e, name⟩ := x
  rw [alias?_giveName hsized hx hc, Naming.last?_append]
  by_cases hchannel : e = c
  · rw [if_pos hchannel, if_pos (.inl hchannel)]
    simp [hchannel]
  · rw [if_neg hchannel, Option.filter_eq_some_iff, hd c n hc]
    by_cases hname : name = n
    · -- The channel has lost the name to the other one.
      rw [if_pos (.inr hname)]
      simp [hchannel, hname]
    · have hother : ¬Naming.Concerns ⟨e, name⟩ c n := not_or.2 ⟨hchannel, hname⟩
      rw [if_neg hother]
      simp [Ne.symm hname]

/-! ## The names that a statement gives -/

/-- How a statement changes the names, if it is read as one that names so. -/
def Renames (d e : Draft) : Option Naming → Prop
  | none => e.aliases = d.aliases
  | some x => e.aliases = (d.giveName x.channel x.name).aliases

theorem NamedBy.renames {d e : Draft} {xs : List Naming} {x? : Option Naming} (hsized : d.Sized)
    (hd : d.NamedBy xs) (hqubits : e.qubits = d.qubits)
    (hx : ∀ x ∈ x?, x.channel.index < d.qubits) (h : d.Renames e x?) :
    e.NamedBy (xs ++ x?.toList) := by
  cases x? with
  | none => simpa using hd.congr hqubits h
  | some x => exact (hd.giveName hsized (hx x rfl)).congr hqubits h

theorem bindAlias_naming {d e : Draft} {p : Pending} {operands : List (Located Operand)}
    (h : d.bindAlias p operands = .ok e) :
    ∃ x, Naming.ofOperands? d.qubits operands = some x ∧ e = d.giveName x.channel x.name := by
  unfold bindAlias at h
  split at h
  · rename_i target given
    obtain ⟨c, hc, h⟩ := bind_eq_ok.1 h
    split at h
    · rename_i n hn
      cases h
      unfold resolveBy at hc
      split at hc
      · rename_i t ht
        refine ⟨⟨c, n⟩, ?_, rfl⟩
        cases hread : Channel.read? d.qubits t with
        | none => simp [hread] at hc
        | some c' =>
          simp only [hread, Option.elim_some, Except.ok.injEq] at hc
          simp [Naming.ofOperands?, ht, hn, hread, hc]
      · cases hc
    · cases h
  · cases h

/-- Of all keywords, only `map` declares something. -/
theorem lookup?_declaration {keyword : Text} {entry : Catalog.Entry}
    (h : Catalog.lookup? keyword = some entry) :
    entry.role = .declaration ↔ keyword = Gate.map.name := by
  have hentries : ∀ entry ∈ Catalog.entries,
      entry.role = .declaration ↔ entry.keyword = Gate.map.name := by decide
  have hkeyword : entry.keyword = keyword := by simpa using List.find?_some h
  rw [hentries entry (List.mem_of_find?_eq_some h), hkeyword]

theorem instruct_renames {d e : Draft} {p : Pending} {keyword : Located Text}
    {operands : List (Located Operand)} {placed : Bool}
    (h : d.instruct p keyword operands = .ok (e, placed)) :
    d.Renames e (Statement.naming? d.qubits (.instruction keyword operands)) := by
  show d.Renames e (if Text.lower keyword.value = Gate.map.name then _ else _)
  unfold instruct at h
  dsimp only at h
  split at h
  · rename_i hqubits
    cases h
    rw [hqubits, if_neg (by decide)]
    rfl
  · split at h
    · cases h
    · rename_i entry hentry
      have hmap := lookup?_declaration hentry
      split at h
      · split at h
        · rename_i hrole
          obtain ⟨e, he, h⟩ := map_eq_ok.1 h
          cases h
          obtain ⟨x, hx, rfl⟩ := bindAlias_naming he
          rw [if_pos (hmap.1 hrole), hx]
          rfl
        · rename_i hrole
          obtain ⟨e, he, h⟩ := map_eq_ok.1 h
          cases h
          obtain ⟨is, g, -, -, rfl⟩ := placeGate_ok he
          rw [if_neg (mt hmap.2 hrole)]
          rfl
      · cases h

/-- **A statement changes the names just as it is read to do.** -/
theorem execute_renames {d f : Draft} {p : Pending} {placed : Bool}
    (h : d.execute p = .ok (f, placed)) : d.Renames f (p.naming? d.qubits) := by
  have named {x : Naming} (hx : p.naming? d.qubits = some x) :
      Text.startsWith (leadingWord p) "display" = false ∧
        leadingWord p ≠ "error_model".toList := by
    obtain ⟨keyword, target, given, t, hread, hkeyword, -⟩ := Pending.exists_of_naming? hx
    exact not_skipped_of_map hread hkeyword
  have skipped {e : Draft} (hnone : p.naming? d.qubits = none) (he : e.aliases = d.aliases) :
      d.Renames e (p.naming? d.qubits) := by
    rw [hnone]
    exact he
  obtain ⟨hdisplay, rfl, -⟩ | ⟨e, he, hcases⟩ := execute_cases h
  · refine skipped (Option.eq_none_iff_forall_ne_some.2 fun x hx => ?_) rfl
    rw [(named hx).1] at hdisplay
    cases hdisplay
  · obtain ⟨hqubits, haliases, -, -⟩ := left_frame (leaveSubroutine_ok he)
    obtain ⟨hmodel, rfl, -⟩ | ⟨_, _, hread, hopened, -⟩ | ⟨keyword, operands, hread, hinstruct⟩ :=
      hcases
    · exact skipped (Option.eq_none_iff_forall_ne_some.2 fun x hx => (named hx).2 hmodel) haliases
    · obtain ⟨g, _, hg, -, rfl⟩ := openSubroutine_ok hopened
      refine skipped ?_ ((closeSubroutine_frame hg).2.1.trans haliases)
      simp [Pending.naming?, hread, Except.toOption, Statement.naming?]
    · have hnaming : p.naming? d.qubits =
          Statement.naming? d.qubits (.instruction keyword operands) := by
        simp [Pending.naming?, hread, Except.toOption]
      have hrenames := instruct_renames hinstruct
      rw [hqubits] at hrenames
      rw [hnaming]
      cases hx : Statement.naming? d.qubits (.instruction keyword operands) with
      | none =>
        rw [hx] at hrenames
        exact Eq.trans hrenames haliases
      | some x =>
        rw [hx] at hrenames
        refine Eq.trans hrenames ?_
        rw [Draft.giveName, Draft.giveName, hqubits, haliases]

end Draft

/-! ## The names of a run -/

namespace State

theorem Performs.steps {s t : State} {work performed rest : List Pending}
    (h : Performs s work performed t rest) : Steps s work t rest := by
  induction h with
  | refl => exact .refl
  | step head _ ih => exact .step head ih

/-- The names after a run are those of the namings before it and of its statements. -/
theorem Performs.namedBy {s t : State} {work performed rest : List Pending}
    (h : Performs s work performed t rest) {qubits : Nat} {xs : List Naming}
    (hs : s.draft.Sized ∧ s.draft.qubits = qubits) (hd : s.draft.NamedBy xs) :
    t.draft.NamedBy (xs ++ performed.filterMap (·.naming? qubits)) := by
  induction h generalizing xs with
  | refl => simpa using hd
  | @step s t u p parts work performed rest head _ ih =>
    by_cases hblank : Text.isBlank p.text = true
    · rw [process_of_isBlank hblank] at head
      cases head
      simpa [Pending.own, hblank] using ih hs hd
    obtain ⟨hb, -⟩ | ⟨hpar, -, rfl⟩ | ⟨hplain, -, -, d, placed, hexec, rfl⟩ := process_ok head
    · exact absurd hb hblank
    · simpa [Pending.own, hpar] using ih hs hd
    · have hown : p.own = [p] := by simp [Pending.own, hblank, hplain]
      obtain ⟨hsized, hqubits⟩ := (Draft.invariant_qubits (· = qubits)).execute hs hexec
      have hrenames := Draft.execute_renames hexec
      rw [hs.2] at hrenames
      have hnamed := hd.renames hs.1 (hqubits.trans hs.2.symm)
        (fun x hx => hs.2 ▸ Pending.index_lt_of_naming? hx) hrenames
      obtain ⟨used, hused⟩ := draft_complete { s with draft := d } placed
      have ih := ih (by rw [hused]; exact ⟨hsized, hqubits⟩)
        (by rw [hused]; exact hnamed.congr rfl rfl)
      rw [hown, List.singleton_append]
      cases hx : p.naming? qubits with
      | none => simpa [List.filterMap_cons, hx] using ih
      | some x => simpa [List.filterMap_cons, hx] using ih

end State

namespace Performs

variable {source : Text} {performed rest : List Pending} {s : State}

theorem reaches (h : Performs source performed s rest) : Reaches source s rest := by
  obtain ⟨qubits, lines, hfind, hrun⟩ := h
  exact ⟨qubits, lines, hfind, hrun.steps⟩

theorem distinct (h : Performs source performed s rest) : s.draft.Sized ∧ s.draft.Distinct :=
  h.reaches.invariant Draft.invariant_distinct fun qubits _ => Draft.distinct_initial qubits

/-- Between any two steps of a run, the names are those of the statements executed so far. -/
theorem namedBy (h : Performs source performed s rest) :
    s.draft.NamedBy (performed.filterMap (·.naming? s.draft.qubits)) := by
  obtain ⟨qubits, lines, hfind, hrun⟩ := h
  have hinitial : (Draft.initial qubits).Sized ∧ (Draft.initial qubits).qubits = qubits :=
    ⟨Draft.sized_initial qubits, rfl⟩
  rw [((Draft.invariant_qubits (· = qubits)).steps hrun.steps hinitial).2]
  exact hrun.namedBy hinitial (Draft.namedBy_initial qubits)

theorem named?_eq_some (h : Performs source performed s rest) (c : Channel) (n : Text) :
    s.draft.named? n = some c ↔
      Naming.last? c n (performed.filterMap (·.naming? s.draft.qubits)) = some ⟨c, n⟩ := by
  obtain ⟨hsized, hdistinct⟩ := h.distinct
  rw [Draft.named?_eq_some hsized hdistinct]
  constructor
  · rintro ⟨hc, hname⟩
    exact (h.namedBy c n hc).1 hname
  · intro hlast
    obtain ⟨p, -, hp⟩ := List.mem_filterMap.1 (Naming.mem_of_last? hlast)
    have hc : c.index < s.draft.qubits := Pending.index_lt_of_naming? hp
    exact ⟨hc, (h.namedBy c n hc).2 hlast⟩

end Performs

namespace Circuit

/-- A finished circuit has the names of its draft. -/
theorem alias?_of_finish {d : Draft} {m : Circuit} (h : d.finish = .ok m) :
    m.qubits = d.qubits ∧ m.aliases = d.aliases ∧ m.alias? = d.alias? := by
  obtain ⟨e, he, rfl⟩ := map_eq_ok.1 h
  obtain ⟨hqubits, haliases, -, -⟩ := Draft.closeSubroutine_frame he
  refine ⟨hqubits, haliases, funext fun c => ?_⟩
  show (e.aliases[c.row e.qubits]?).join = _
  rw [hqubits, haliases]
  rfl

/-- **A channel has the name that was given last.** Between any two steps of a run there is a place
for the name of every channel, an operand is looked up there first and means the channel `c` just if
the last statement that names `c` or gives the operand's name gave this name to `c`, and no name
stands in two places. The circuit has the names that the whole program gives. -/
theorem aliases_ofProgram (source : Text) :
    (∀ performed s rest, Performs source performed s rest →
      s.draft.aliases.size = 2 * s.draft.qubits ∧
      (∀ n, s.draft.channelOf? n = (s.draft.named? n).or (Channel.read? s.draft.qubits n)) ∧
      (∀ c n, s.draft.named? n = some c ↔
        Naming.last? c n (performed.filterMap (·.naming? s.draft.qubits)) = some ⟨c, n⟩) ∧
      ∀ (i j : Nat) (n : Text), s.draft.aliases[i]? = some (some n) →
        s.draft.aliases[j]? = some (some n) → i = j) ∧
    ∀ m, ofProgram source = .ok m →
      ∃ performed s, Performs source performed s [] ∧ s.draft.finish = .ok m ∧
        m.aliases.size = 2 * m.qubits ∧
        ∀ c ∈ m.channels, ∀ n, m.alias? c = some n ↔
          Naming.last? c n (performed.filterMap (·.naming? m.qubits)) = some ⟨c, n⟩ := by
  constructor
  · intro performed s rest h
    obtain ⟨hsized, hdistinct⟩ := h.distinct
    exact ⟨hsized, s.draft.channelOf?_eq, h.named?_eq_some, hdistinct⟩
  · intro m hm
    obtain ⟨performed, s, h, hfinish⟩ := executes_of_ofProgram hm
    obtain ⟨hqubits, haliases, hname⟩ := alias?_of_finish hfinish
    refine ⟨performed, s, h, hfinish, ?_, fun c hc n => ?_⟩
    · rw [hqubits, haliases]
      exact h.distinct.1
    · rw [hqubits, hname]
      exact h.namedBy c n (hqubits ▸ Channel.mem_all.1 hc)

/-- A name that moves to another channel and a channel that gets another channel's name, one of them
in a parallel line. -/
theorem aliases_moved :
    let source := "qubits 2\nmap q0, a | MAP b01, c\nh a\nmap q1, a\nmap q0, c\nx a | y c".toList
    ∃ m, ofProgram source = .ok m ∧
      m.alias? (.qubit 0) = some "c".toList ∧ m.alias? (.qubit 1) = some "a".toList ∧
      m.alias? (.bit 1) = none ∧
      ∃ performed s, Performs source performed s [] ∧ s.draft.finish = .ok m ∧
        (∀ c n, s.draft.named? n = some c ↔
          Naming.last? c n (performed.filterMap (·.naming? s.draft.qubits)) = some ⟨c, n⟩) ∧
        ∀ c ∈ m.channels, ∀ n, m.alias? c = some n ↔
          Naming.last? c n (performed.filterMap (·.naming? m.qubits)) = some ⟨c, n⟩ := by
  intro source
  have h : (ofProgram source).toOption.map (fun m =>
      (m.alias? (.qubit 0), m.alias? (.qubit 1), m.alias? (.bit 1))) =
      some (some "c".toList, some "a".toList, none) := by
    decide +kernel
  obtain ⟨m, hm, hnames⟩ := Option.map_eq_some_iff.1 h
  have hm := toOption_eq_some.1 hm
  simp only [Prod.mk.injEq] at hnames
  obtain ⟨performed, s, hrun, hfinish, -, hlast⟩ := (aliases_ofProgram source).2 m hm
  exact ⟨m, hm, hnames.1, hnames.2.1, hnames.2.2, performed, s, hrun, hfinish,
    ((aliases_ofProgram source).1 performed s [] hrun).2.2.1, hlast⟩

end Circuit

end QuantumDiagram

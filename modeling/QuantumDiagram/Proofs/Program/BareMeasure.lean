import QuantumDiagram.Proofs.Circuit.Density
import QuantumDiagram.Proofs.Circuit.Labels
import QuantumDiagram.Proofs.Program.Collision
import QuantumDiagram.Proofs.Program.MeasureStatement
import QuantumDiagram.Proofs.Program.Permutation

/-!
# Measuring all qubits

A `measure` without operands measures every qubit, and so does one that names every qubit once, in
whatever order. `State.process_measure` says that both do the same in every state in which no qubit
has lost its canonical name: both succeed and lead to the same state, with a measurement of each
qubit in the cells of the qubit and of its bit (`State.MeasuresAll`), or both are refused for the
same reason, though perhaps at different channels (`State.RefusedAlike`).
-/

namespace QuantumDiagram

open Instruction (Apart)

/-! ## Cells that are added -/

theorem ChannelSet.nodup (s : ChannelSet) : s.toList.Nodup :=
  s.increasing.imp fun h heq => by
    rw [heq] at h
    simp at h

namespace Grid

variable {g h : Grid} {i : Instruction} {is : List Instruction}

theorem size_put {c : Channel} (hfree : g.get? c i.column = none) :
    (g.put c i).size = g.size + 1 := by
  have hnot : g.cells.contains ⟨c, i.column⟩ = false := by
    rw [Std.ExtTreeMap.contains_eq_isSome_getElem?]
    exact congrArg Option.isSome hfree
  rw [size, put, Std.ExtTreeMap.size_insert, hnot]
  rfl

theorem size_foldl_put {cs : List Channel} (hcs : cs.Nodup)
    (hfree : ∀ c ∈ cs, g.get? c i.column = none) :
    (cs.foldl (fun g c => g.put c i) g).size = g.size + cs.length := by
  induction cs generalizing g with
  | nil => rfl
  | cons c cs ih =>
    obtain ⟨hc, hcs⟩ := List.nodup_cons.1 hcs
    obtain ⟨hfreec, hfree⟩ := List.forall_mem_cons.1 hfree
    have hrest : ∀ d ∈ cs, (g.put c i).get? d i.column = none := fun d hd => by
      have hne : ¬ (c = d ∧ i.column = i.column) := fun heq => hc (heq.1 ▸ hd)
      rw [get?_put, if_neg hne]
      exact hfree d hd
    rw [List.foldl_cons, ih hcs hrest, size_put hfreec, List.length_cons]
    omega

/-- As many cells are added as the instructions have participants. -/
theorem Places.size (hp : g.Places is h) :
    h.size = g.size + (is.flatMap fun i => i.participants.toList).length := by
  induction hp with
  | nil => rfl
  | @cons g h i is free _ ih =>
    have hplace : (g.place i).size = g.size + i.participants.toList.length :=
      size_foldl_put i.participants.nodup free
    rw [ih, hplace, List.flatMap_cons, List.length_append, Nat.add_assoc]

/-- Cells that are none of the instructions' stay as they are. -/
theorem Places.frame (hp : g.Places is h) {c : Channel} {k : Nat}
    (hc : ∀ i ∈ is, ¬ (c ∈ i.participants ∧ i.column = k)) : h.get? c k = g.get? c k := by
  induction hp with
  | nil => rfl
  | cons _ _ ih =>
    obtain ⟨hi, his⟩ := List.forall_mem_cons.1 hc
    rw [ih his, get?_place, if_neg hi]

/-- Instructions are only placed where all their cells were free before. -/
theorem Places.free (hp : g.Places is h) (hi : i ∈ is) {c : Channel} (hc : c ∈ i.participants) :
    g.get? c i.column = none := by
  induction hp with
  | nil => cases hi
  | cons free _ ih =>
    obtain rfl | hi := List.mem_cons.1 hi
    · exact free c hc
    · exact (free_of_free_place (ih hi)).1

end Grid

namespace Draft

variable {d e f : Draft} {p : Pending} {is : List Instruction} {err : ParseError} {k i : Nat}

theorem mem_participants_measurement {c : Channel} :
    c ∈ (measurement k i).participants ↔ c = .qubit i ∨ c = .bit i := by
  simp [measurement, Channel.partner]

/-- Measurements have two participants each. -/
theorem length_participants_measurement (targets : List Nat) :
    ((targets.map (measurement k)).flatMap fun i => i.participants.toList).length =
      2 * targets.length := by
  induction targets with
  | nil => rfl
  | cons i targets ih =>
    have htwo : (measurement k i).participants.toList.length = 2 := rfl
    rw [List.map_cons, List.flatMap_cons, List.length_append, ih, htwo, List.length_cons]
    omega

/-- Instructions that keep apart are refused only for a cell that was taken before. -/
theorem exists_of_occupyAll_error (hapart : is.Pairwise Apart)
    (hcolumn : ∀ i ∈ is, i.column = d.column) (h : d.occupyAll p is = .error err) :
    ∃ c, (∃ i ∈ is, c ∈ i.participants) ∧ d.grid.isOccupied c d.column = true ∧
      err = d.siteTaken p c := by
  induction is generalizing d with
  | nil => cases h
  | cons i is ih =>
    obtain ⟨hi, his⟩ := List.forall_mem_cons.1 hcolumn
    obtain ⟨hhead, hapart⟩ := List.pairwise_cons.1 hapart
    rw [occupyAll_cons] at h
    obtain hfirst | ⟨e, he, hrest⟩ := bind_eq_error.1 h
    · unfold occupy at hfirst
      split at hfirst
      · rename_i c hc
        obtain ⟨hmem, htaken, -⟩ := ChannelSet.find?_eq_some.1 hc
        cases hfirst
        rw [hi] at htaken ⊢
        exact ⟨c, ⟨i, List.mem_cons_self, hmem⟩, htaken, rfl⟩
      · cases hfirst
    · obtain ⟨-, rfl⟩ := occupy_eq_ok.1 he
      obtain ⟨c, ⟨j, hj, hc⟩, htaken, rfl⟩ :=
        ih (d := { d with grid := d.grid.place i }) hapart his hrest
      have hnot : ¬ (c ∈ i.participants ∧ i.column = d.column) :=
        fun hmem => hhead j hj c hmem.1 hc
      refine ⟨c, ⟨j, List.mem_cons_of_mem _ hj, hc⟩, ?_, rfl⟩
      rwa [Grid.isOccupied, Grid.get?_place, if_neg hnot] at htaken

end Draft

/-! ## What a `measure` of all qubits does -/

namespace Draft

variable {d : Draft} {p : Pending} {names : List Text} {named : List Nat}

/-- Only the end of an empty subroutine can stop a gate statement before it is read. -/
theorem left_error {indented : Bool} {err : ParseError} (h : d.left indented = .error err) :
    ∃ name, err.fault = .malformedSubroutine (.noInstructions name) := by
  unfold left at h
  split at h
  · cases h
  · obtain ⟨o, -, rfl⟩ := closeSubroutine_error h
    exact ⟨o.name, rfl⟩

/-- A name that is given to no channel means the channel that it is the canonical name of. -/
theorem channelOf?_of_not_mem {name : Text} (h : some name ∉ d.aliases) :
    d.channelOf? name = Channel.read? d.qubits name := by
  have hnone : d.aliases.findIdx? (·.any (· = name)) = none := by
    refine Array.findIdx?_eq_none_iff.2 fun x hx => Bool.eq_false_iff.2 fun hany => ?_
    obtain ⟨n, rfl, hn⟩ := (Option.any_eq_true ..).1 hany
    exact h (of_decide_eq_true hn ▸ hx)
  rw [channelOf?, hnone]

/-- No name that was given is the canonical name of a qubit. -/
def Unshadowed (d : Draft) : Prop := ∀ i < d.qubits, some (Channel.qubit i).text ∉ d.aliases

theorem unshadowed_initial (qubits : Nat) : (initial qubits).Unshadowed := by
  intro i _ hmem
  cases (Array.mem_replicate.1 hmem).2

theorem Unshadowed.mapM_channelOf? (h : d.Unshadowed) {order : List Nat}
    (horder : ∀ i ∈ order, i < d.qubits) :
    (order.map fun i => (Channel.qubit i).text).mapM d.channelOf? =
      some (order.map .qubit) := by
  refine mapM_eq_some_iff.2 ?_
  rw [List.forall₂_map_left_iff, List.forall₂_map_right_iff]
  refine List.forall₂_same.2 fun i hi => ?_
  rw [channelOf?_of_not_mem (h i (horder i hi)), Channel.read?_text (horder i hi)]

/-- A `measure` stands for a measurement of each qubit that it names, or of all qubits. -/
theorem instructions?_of_measures (hp : p.Measures names)
    (hnamed : names.mapM d.channelOf? = some (named.map .qubit)) :
    d.instructions? p.text = some ((if named.isEmpty then List.range d.qubits else named).map
      (measurement d.column)) := by
  obtain ⟨keyword, hread, hkeyword⟩ := hp.read
  let entry : Catalog.Entry := ⟨"measure", .measure, .atLeast 0, .singleChannel, .quantum⟩
  have hlookup : Catalog.lookup? (Text.lower keyword) = some entry := by
    rw [hkeyword]
    decide
  have harity : entry.arity.accepts (names.map Operand.name).length = true := by
    simp [entry, Arity.accepts]
  have hchannels : (names.map Operand.name).mapM d.operandChannel? = some (named.map .qubit) := by
    rw [List.mapM_map]
    exact hnamed
  refine instructions?_eq_some.2 ⟨keyword, _, entry, hread, hlookup, harity, ?_⟩
  have hnamed : (named.map Channel.qubit).mapM qubitIndex? = some named :=
    mapM_qubitIndex?_eq_some.2 rfl
  show ((names.map Operand.name).mapM d.operandChannel? >>= _) = _
  rw [hchannels]
  show (named.map Channel.qubit).mapM qubitIndex? >>= _ = _
  rw [hnamed]
  show some ((if (named.map Channel.qubit).isEmpty then _ else named).map _) = _
  rw [List.isEmpty_map]

/-- Named in any order or not at all, all qubits are measured. -/
theorem exists_perm_of_measures (hd : d.Unshadowed) {order : List Nat}
    (horder : order = [] ∨ order.Perm (List.range d.qubits))
    (hp : p.Measures (order.map fun i => (Channel.qubit i).text)) :
    ∃ targets : List Nat, targets.Perm (List.range d.qubits) ∧
      d.instructions? p.text = some (targets.map (measurement d.column)) := by
  have hmem : ∀ i ∈ order, i < d.qubits := fun i hi => by
    obtain rfl | hperm := horder
    · cases hi
    · exact List.mem_range.1 (hperm.mem_iff.1 hi)
  refine ⟨_, ?_, instructions?_of_measures hp (hd.mapM_channelOf? hmem)⟩
  cases order with
  | nil => exact .refl _
  | cons i order => exact horder.resolve_left (List.cons_ne_nil i order)

end Draft

namespace State

/-- The state `t` is the one that a measurement of all qubits leads to: the open subroutine has
ended if the line is not indented, `2Q` cells that were free hold the measurement of their qubit,
and all other cells are as they were. -/
structure MeasuresAll (s : State) (indented : Bool) (t : State) : Prop where
  free : ∀ c, c.index < s.draft.qubits → s.draft.grid.get? c s.draft.column = none
  cells : ∀ c, c.index < s.draft.qubits → ∃ i, t.draft.grid.get? c s.draft.column = some i ∧
    i = Draft.measurement s.draft.column c.index ∧
    ∀ c', c' ∈ i.participants ↔ c' = .qubit c.index ∨ c' = .bit c.index
  frame : ∀ c k, ¬ (c.index < s.draft.qubits ∧ k = s.draft.column) →
    t.draft.grid.get? c k = s.draft.grid.get? c k
  size : t.draft.grid.size = s.draft.grid.size + 2 * s.draft.qubits
  completed : ∃ d, s.draft.left indented = .ok d ∧
    t = State.complete { s with draft := { d with grid := t.draft.grid } } true

/-- Two errors have the same reason: the open subroutine is empty, and then they are the same error,
or each finds a cell of the current column taken. -/
inductive RefusedAlike (s : State) : ParseError → ParseError → Prop
  | empty {e : ParseError} {name : Text} (reason : e.fault = .malformedSubroutine
      (.noInstructions name)) : RefusedAlike s e e
  | taken {e e' : ParseError} {c c' : Channel}
      (reason : e.fault = .malformedStatement (.siteTaken c s.draft.column))
      (reason' : e'.fault = .malformedStatement (.siteTaken c' s.draft.column))
      (occupied : s.draft.grid.isOccupied c s.draft.column = true)
      (occupied' : s.draft.grid.isOccupied c' s.draft.column = true) : RefusedAlike s e e'

variable {s t : State} {p p' : Pending} {targets : List Nat}

theorem grid_complete (s : State) (placed : Bool) :
    (s.complete placed).draft.grid = s.draft.grid := by
  obtain ⟨used, hused⟩ := draft_complete s placed
  rw [hused]
  rfl

/-- What the measurement of all qubits does to the grid. -/
theorem measuresAll_complete {d : Draft} {g : Grid} {indented : Bool}
    (hd : s.draft.left indented = .ok d) (htargets : targets.Perm (List.range s.draft.qubits))
    (hg : s.draft.grid.Places (targets.map (Draft.measurement s.draft.column)) g) :
    s.MeasuresAll indented (State.complete { s with draft := { d with grid := g } } true) := by
  have hmem {i : Nat} (hi : i < s.draft.qubits) :
      Draft.measurement s.draft.column i ∈ targets.map (Draft.measurement s.draft.column) :=
    List.mem_map_of_mem (htargets.mem_iff.2 (List.mem_range.2 hi))
  have hcell (c : Channel) : c ∈ (Draft.measurement s.draft.column c.index).participants := by
    cases c <;> simp [Draft.mem_participants_measurement, Channel.index]
  refine ⟨fun c hc => hg.free (hmem hc) (hcell c), fun c hc => ?_, fun c k hck => ?_, ?_, d, hd, ?_⟩
  · rw [grid_complete]
    exact ⟨_, hg.filled (hmem hc) (hcell c), rfl, fun _ => Draft.mem_participants_measurement⟩
  · rw [grid_complete]
    refine hg.frame fun i hi => ?_
    obtain ⟨index, hindex, rfl⟩ := List.mem_map.1 hi
    have hlt := List.mem_range.1 (htargets.mem_iff.1 hindex)
    rintro ⟨hc, rfl⟩
    obtain rfl | rfl := Draft.mem_participants_measurement.1 hc
    · exact hck ⟨hlt, rfl⟩
    · exact hck ⟨hlt, rfl⟩
  · rw [grid_complete, hg.size, Draft.length_participants_measurement, htargets.length_eq,
      List.length_range]
  · rw [grid_complete]

/-- In a draft in which the open subroutine has ended if it had to, a `measure` puts its
instructions into the grid. -/
theorem process_of_left {d : Draft} {names : List Text} {is : List Instruction}
    (hp : p.Measures names) (hd : s.draft.left p.indented = .ok d)
    (his : s.draft.instructions? p.text = some is) :
    s.process p = (d.occupyAll p is).map fun e =>
      (State.complete { s with draft := e } true, []) := by
  obtain ⟨x, hexecute, hattempts⟩ := Draft.execute_attempts hp.isGateStatement hp.mark hd
  rw [his] at hattempts
  cases hattempts
  rw [process_of_plain hp.plain.1 hp.plain.2, hexecute]
  cases d.occupyAll p is <;> rfl

theorem process_of_left_error {names : List Text} {e : ParseError} (hp : p.Measures names)
    (he : s.draft.left p.indented = .error e) : s.process p = .error e := by
  rw [process_of_plain hp.plain.1 hp.plain.2, Draft.execute_of_isGateStatement hp.isGateStatement,
    he]
  rfl

/-- If a measurement of all qubits is refused, then a cell of the current column is taken. -/
theorem exists_taken {d : Draft} {names : List Text} (hp : p.Measures names)
    (hd : s.draft.left p.indented = .ok d) (htargets : targets.Perm (List.range s.draft.qubits))
    (his : s.draft.instructions? p.text =
      some (targets.map (Draft.measurement s.draft.column)))
    (hnone : ¬ ∃ g, s.draft.grid.Places (targets.map (Draft.measurement s.draft.column)) g) :
    ∃ e c, s.process p = .error e ∧
      e.fault = .malformedStatement (.siteTaken c s.draft.column) ∧
      s.draft.grid.isOccupied c s.draft.column = true := by
  obtain ⟨-, -, hgrid, hcolumn⟩ := Draft.left_frame (Draft.left_eq hd)
  rw [process_of_left hp hd his]
  cases hoccupy : d.occupyAll p (targets.map (Draft.measurement s.draft.column)) with
  | ok e =>
    obtain ⟨g, hg, -⟩ := Draft.occupyAll_eq_ok.1 hoccupy
    exact absurd ⟨g, hgrid ▸ hg⟩ hnone
  | error e =>
    have hapart := Draft.pairwise_measurement (k := s.draft.column).2
      (htargets.nodup_iff.2 List.nodup_range)
    have hcolumns : ∀ i ∈ targets.map (Draft.measurement s.draft.column), i.column = d.column := by
      intro i hi
      obtain ⟨index, -, rfl⟩ := List.mem_map.1 hi
      exact hcolumn.symm
    obtain ⟨c, -, htaken, rfl⟩ := Draft.exists_of_occupyAll_error hapart hcolumns hoccupy
    rw [hgrid, hcolumn] at htaken
    exact ⟨_, c, rfl, by rw [Draft.siteTaken, hcolumn]; rfl, htaken⟩

/-- **A `measure` without operands does the same as one that names every qubit**, in whatever order,
if no qubit has lost its canonical name: both measure all qubits, or both are refused for the same
reason. -/
theorem process_measure {order : List Nat} (hd : s.draft.Unshadowed)
    (horder : order.Perm (List.range s.draft.qubits)) (hp : p.Measures [])
    (hp' : p'.Measures (order.map fun i => (Channel.qubit i).text))
    (hindented : p'.indented = p.indented) :
    (∃ t, s.process p = .ok (t, []) ∧ s.process p' = .ok (t, []) ∧
      s.MeasuresAll p.indented t) ∨
    ∃ e e', s.process p = .error e ∧ s.process p' = .error e' ∧ s.RefusedAlike e e' := by
  obtain ⟨targets, htargets, his⟩ := Draft.exists_perm_of_measures hd (.inl rfl) hp
  obtain ⟨targets', htargets', his'⟩ := Draft.exists_perm_of_measures hd (.inr horder) hp'
  have hperm := (htargets.trans htargets'.symm).map (Draft.measurement s.draft.column)
  cases hleft : s.draft.left p.indented with
  | error e =>
    obtain ⟨name, hreason⟩ := Draft.left_error hleft
    exact .inr ⟨_, _, process_of_left_error hp hleft,
      process_of_left_error hp' (hindented ▸ hleft), .empty hreason⟩
  | ok d =>
    have hleft' : s.draft.left p'.indented = .ok d := hindented ▸ hleft
    by_cases hplaces : ∃ g, s.draft.grid.Places (targets.map (Draft.measurement s.draft.column)) g
    · obtain ⟨g, hg⟩ := hplaces
      obtain ⟨-, -, hgrid, -⟩ := Draft.left_frame (Draft.left_eq hleft)
      have hprocess {q : Pending} {is : List Instruction} (h : s.draft.grid.Places is g) :
          d.occupyAll q is = .ok { d with grid := g } :=
        Draft.occupyAll_eq_ok.2 ⟨g, hgrid ▸ h, rfl⟩
      refine .inl ⟨_, ?_, ?_, measuresAll_complete hleft htargets hg⟩
      · rw [process_of_left hp hleft his, hprocess hg]
        rfl
      · rw [process_of_left hp' hleft' his', hprocess (hg.perm hperm)]
        rfl
    · obtain ⟨e, c, he, hreason, hoccupied⟩ := exists_taken hp hleft htargets his hplaces
      obtain ⟨e', c', he', hreason', hoccupied'⟩ := exists_taken hp' hleft' htargets' his'
        fun ⟨g, hg⟩ => hplaces ⟨g, hg.perm hperm.symm⟩
      exact .inr ⟨e, e', he, he', .taken hreason hreason' hoccupied hoccupied'⟩

/-- In the last part of a block, first with the column still free and then behind a `swap`, where
each of the two finds another qubit taken. -/
theorem process_measure_block :
    let bare : Pending := ⟨⟨0, "measure".toList⟩, ⟨2, 0, []⟩, false⟩
    let named : Pending := ⟨⟨0, " measure q1, q0 ".toList⟩, ⟨2, 0, []⟩, false⟩
    let swap : Pending := ⟨⟨0, "swap q0, q1".toList⟩, ⟨2, 0, []⟩, false⟩
    let s : State := ⟨.initial 2, 1, false⟩
    s.draft.Unshadowed ∧ [1, 0].Perm (List.range s.draft.qubits) ∧ bare.Measures [] ∧
      named.Measures ([1, 0].map fun i => (Channel.qubit i).text) ∧
      (∃ t, s.process bare = .ok (t, []) ∧ s.process named = .ok (t, []) ∧
        s.MeasuresAll false t) ∧
      ∃ t e e', State.process { s with hold := 2 } swap = .ok (t, []) ∧ t.draft.Unshadowed ∧
        t.process bare = .error e ∧ t.process named = .error e' ∧ t.RefusedAlike e e' := by
  intro bare named swap s
  have hunshadowed : s.draft.Unshadowed := Draft.unshadowed_initial 2
  have horder : [1, 0].Perm (List.range 2) := by decide
  have hbare : bare.Measures [] :=
    Pending.measures_of_written (by simp) (.refl "measure".toList)
  have hnamed : named.Measures ([1, 0].map fun i => (Channel.qubit i).text) := by
    refine Pending.measures_of_written (fun n hn => ?_)
      ⟨[' '], [' '], rfl, List.forall_mem_singleton.2 rfl, List.forall_mem_singleton.2 rfl⟩
    obtain ⟨i, -, rfl⟩ := List.mem_map.1 hn
    exact Channel.matches_text _
  refine ⟨hunshadowed, horder, hbare, hnamed, ?_, ?_⟩
  · have hfree : (s.process bare).toOption.isSome = true := by decide +kernel
    refine (process_measure hunshadowed horder hbare hnamed rfl).resolve_right ?_
    rintro ⟨e, e', he, -⟩
    rw [he] at hfree
    cases hfree
  · have hswap : ((State.process { s with hold := 2 } swap).toOption.map fun r =>
        (r.2.isEmpty, r.1.draft.aliases, r.1.draft.qubits, (r.1.process bare).toOption.isSome)) =
          some (true, s.draft.aliases, 2, false) := by
      decide +kernel
    obtain ⟨⟨t, parts⟩, ht, hfacts⟩ := Option.map_eq_some_iff.1 hswap
    simp only [Prod.mk.injEq, List.isEmpty_iff] at hfacts
    obtain ⟨rfl, haliases, hqubits, htaken⟩ := hfacts
    have hunshadowed' : t.draft.Unshadowed := by
      rw [Draft.Unshadowed, haliases, hqubits]
      exact hunshadowed
    obtain ⟨u, hu, -⟩ | ⟨e, e', he, he', halike⟩ :=
      process_measure hunshadowed' (hqubits ▸ horder) hbare hnamed rfl
    · rw [hu] at htaken
      cases htaken
    · exact ⟨t, e, e', toOption_eq_some.1 ht, hunshadowed', he, he', halike⟩

end State

end QuantumDiagram

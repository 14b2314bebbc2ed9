import QuantumDiagram.Proofs.Program.Invariant

/-!
# Cells agree with their instruction

Every participant of an instruction shows the same instruction in the same column
(`Grid.Consistent`), so two instructions of one column share no channel. `Circuit.agrees_ofProgram`
says so of the circuits that programs describe: statements put instructions into free cells only, so
no cell of an earlier instruction is overwritten.
-/

namespace QuantumDiagram

namespace Grid

/-- Each cell is one of the cells of its instruction, and all of these hold the instruction. -/
structure Consistent (g : Grid) (qubits : Nat) : Prop where
  column {c : Channel} {k : Nat} {i : Instruction} : g.get? c k = some i → i.column = k
  mem {c : Channel} {k : Nat} {i : Instruction} : g.get? c k = some i → c ∈ i.participants
  fits {c : Channel} {k : Nat} {i : Instruction} : g.get? c k = some i → i.Fits qubits
  shared {c : Channel} {k : Nat} {i : Instruction} :
    g.get? c k = some i → ∀ p ∈ i.participants, g.get? p k = some i

theorem consistent_empty (qubits : Nat) : empty.Consistent qubits where
  column h := by simp at h
  mem h := by simp at h
  fits h := by simp at h
  shared h := by simp at h

/-- A cell after an instruction was placed is one of its cells or an old one. -/
theorem get?_place_cases {g : Grid} {i j : Instruction} {c : Channel} {k : Nat}
    (h : (g.place i).get? c k = some j) :
    (j = i ∧ c ∈ i.participants ∧ i.column = k) ∨ g.get? c k = some j := by
  rw [get?_place] at h
  split at h
  · rename_i hc
    cases h
    exact .inl ⟨rfl, hc⟩
  · exact .inr h

/-- Placing an instruction into free cells overwrites nothing. -/
theorem get?_place_of_free {g : Grid} {i j : Instruction} {c : Channel} {k : Nat}
    (free : ∀ c ∈ i.participants, g.get? c i.column = none) (h : g.get? c k = some j) :
    (g.place i).get? c k = some j := by
  rw [get?_place, if_neg]
  · exact h
  · rintro ⟨hc, rfl⟩
    rw [free c hc] at h
    cases h

theorem Consistent.place {g : Grid} {qubits : Nat} (hg : g.Consistent qubits) {i : Instruction}
    (hi : i.Fits qubits) (free : ∀ c ∈ i.participants, g.get? c i.column = none) :
    (g.place i).Consistent qubits where
  column h := by
    obtain ⟨rfl, -, hk⟩ | h := get?_place_cases h
    · exact hk
    · exact hg.column h
  mem h := by
    obtain ⟨rfl, hc, -⟩ | h := get?_place_cases h
    · exact hc
    · exact hg.mem h
  fits h := by
    obtain ⟨rfl, -⟩ | h := get?_place_cases h
    · exact hi
    · exact hg.fits h
  shared h p hp := by
    obtain ⟨rfl, -, hk⟩ | h := get?_place_cases h
    · rw [get?_place, if_pos ⟨hp, hk⟩]
    · exact get?_place_of_free free (hg.shared h p hp)

theorem Consistent.places {g h : Grid} {qubits : Nat} {is : List Instruction}
    (hp : g.Places is h) (hg : g.Consistent qubits) (his : ∀ i ∈ is, i.Fits qubits) :
    h.Consistent qubits := by
  induction hp with
  | nil => exact hg
  | cons free _ ih =>
    exact ih (hg.place (his _ List.mem_cons_self) free)
      fun j hj => his j (List.mem_cons_of_mem _ hj)

/-- Instructions of one column that share a channel are the same. -/
theorem Consistent.eq_of_common {g : Grid} {qubits : Nat} (hg : g.Consistent qubits)
    {c d p : Channel} {k : Nat} {i j : Instruction} (hi : g.get? c k = some i)
    (hj : g.get? d k = some j) (hpi : p ∈ i.participants) (hpj : p ∈ j.participants) : i = j := by
  have h := hg.shared hi p hpi
  rw [hg.shared hj p hpj] at h
  exact (Option.some.inj h).symm

end Grid

/-! ## Through a run -/

theorem Draft.invariant_consistent : Invariant fun d => d.grid.Consistent d.qubits where
  closed hd hclosed := by
    obtain ⟨hq, -, hg, -⟩ := closeSubroutine_frame hclosed
    rwa [hq, hg]
  effect hsized hd heffect := by
    cases heffect with
    | nothing => exact hd
    | header hclosed _ =>
      obtain ⟨hq, -, hg, -⟩ := closeSubroutine_frame hclosed
      rwa [hq, hg]
    | naming _ => exact hd
    | gates hplaced =>
      obtain ⟨is, g, his, hg, rfl⟩ := hplaced
      exact hd.places hg fun i hi => (his i hi).2 hsized
  advanced hd := hd

namespace Circuit

/-- What holds of a circuit whose cell of `c` in column `k` holds the instruction `i`. -/
structure Agrees (m : Circuit) (c : Channel) (k : Nat) (i : Instruction) : Prop where
  column : i.column = k
  participates : c ∈ i.participants
  /-- All participants are channels of the circuit. -/
  declared : ∀ p ∈ i.participants, p ∈ m.channels ∧ p.index < m.qubits
  /-- All participants show the instruction. -/
  shared : ∀ p ∈ i.participants, m.grid.get? p k = some i
  /-- The participants are the operands, but for a measurement. -/
  operands : i.gate ≠ .measure → ∀ p, p ∈ i.participants ↔ p ∈ i.operands
  measured : i.gate = .measure → ∃ q, i.operands = [.qubit q] ∧
    ∀ p, p ∈ i.participants ↔ p = .qubit q ∨ p = .bit q
  /-- No participant belongs to another instruction of the column. -/
  disjoint : ∀ d j, m.grid.get? d k = some j → j ≠ i → ∀ p ∈ i.participants, p ∉ j.participants

theorem consistent_ofProgram {source : Text} {m : Circuit} (h : ofProgram source = .ok m) :
    m.grid.Consistent m.qubits := by
  obtain ⟨d, -, hd, rfl⟩ := ofProgram_ok Draft.invariant_consistent
    (fun qubits _ => Grid.consistent_empty qubits) h
  exact hd

/-- **Every cell of a circuit agrees with its instruction.** -/
theorem agrees_ofProgram {source : Text} {m : Circuit} (h : ofProgram source = .ok m)
    (c : Channel) (k : Nat) (i : Instruction) (hi : m.grid.get? c k = some i) :
    m.Agrees c k i := by
  obtain ⟨d, -, hd, rfl⟩ := ofProgram_ok Draft.invariant_consistent
    (fun qubits _ => Grid.consistent_empty qubits) h
  obtain ⟨hspans, hmeasured⟩ := (hd.fits hi).spans
  refine ⟨hd.column hi, hd.mem hi, fun p hp => ?declared, hd.shared hi, fun hgate p => ?operands,
    fun hgate => ?measured, fun e j hj hne p hpi hpj => hne (hd.eq_of_common hj hi hpj hpi)⟩
  case declared =>
    have hp := (hd.fits hi).declared p hp
    exact ⟨Channel.mem_all.2 hp, hp⟩
  case operands => rw [hspans hgate, ChannelSet.mem_ofList]
  case measured =>
    obtain ⟨q, hoperands, hparticipants⟩ := hmeasured hgate
    exact ⟨q, hoperands, fun p => by simp [hparticipants]⟩

/-- A gate with a repeated operand under a name that is another channel's canonical one, and the
bits of a measurement. -/
theorem agrees_measured_bit : ∃ m i,
    ofProgram "qubits 2\nmap q1, b0\n\x7bcx b0,q0,b0 | \x7d\nmeasure".toList = .ok m ∧
      m.grid.get? (.bit 1) 1 = some i ∧ m.Agrees (.bit 1) 1 i := by
  have h : ((ofProgram "qubits 2\nmap q1, b0\n\x7bcx b0,q0,b0 | \x7d\nmeasure".toList).toOption.bind
      fun m => m.grid.get? (.bit 1) 1).isSome = true := by
    decide +kernel
  obtain ⟨i, hi⟩ := Option.isSome_iff_exists.1 h
  obtain ⟨m, hm, hi⟩ := Option.bind_eq_some_iff.1 hi
  have hm := toOption_eq_some.1 hm
  exact ⟨m, i, hm, hi, agrees_ofProgram hm (.bit 1) 1 i hi⟩

end Circuit

end QuantumDiagram

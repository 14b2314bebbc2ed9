import QuantumDiagram.Program.Run
import QuantumDiagram.Proofs.Channel.Rows
import QuantumDiagram.Proofs.Outcome

/-!
# What statements do to a draft

`Draft.execute_ok` lists everything that the execution of a statement can do: it may end the open
subroutine, and then it does nothing more, opens a subroutine, gives a name to a channel, or puts
instructions into free cells of the current column (`Draft.Effect`). `Circuit.ofProgram_ok` carries
a property of drafts that effects keep through a whole run.
-/

namespace QuantumDiagram

/-! ## Instructions as statements make them -/

/-- The participants are the operands; a measurement also takes the partner of its one qubit. -/
def Instruction.Spans (i : Instruction) : Prop :=
  (i.gate ≠ .measure → i.participants = .ofList i.operands) ∧
    (i.gate = .measure → ∃ q, i.operands = [.qubit q] ∧ i.participants = .ofList [.qubit q, .bit q])

/-- An instruction for a circuit of so many qubits. -/
structure Instruction.Fits (i : Instruction) (qubits : Nat) : Prop where
  declared : ∀ c ∈ i.participants, c.index < qubits
  spans : i.Spans

/-- `g.Places is h`: `h` is `g` with the instructions put in one after the other, each into cells
that are free. -/
inductive Grid.Places : Grid → List Instruction → Grid → Prop
  | nil {g : Grid} : Places g [] g
  | cons {g h : Grid} {i : Instruction} {is : List Instruction}
      (free : ∀ c ∈ i.participants, g.get? c i.column = none) (rest : Places (g.place i) is h) :
      Places g (i :: is) h

namespace Draft

/-! ## Subroutines and names -/

/-- The open subroutine, if there is one, is not empty and is recorded. -/
theorem closeSubroutine_ok {d e : Draft} (h : d.closeSubroutine = .ok e) :
    (d.opened = none ∧ e = d) ∨
      ∃ o, d.opened = some o ∧ o.start ≠ d.column ∧
        e = { d with
          opened := none
          subroutines := d.subroutines ++ [⟨o.name, o.repetitions, o.start, d.column⟩] } := by
  unfold closeSubroutine at h
  split at h
  · unfold recordSubroutine at h
    split at h
    · cases h
    · rename_i o ho
      split at h
      · cases h
      · cases h
        exact .inr ⟨o, ho, ‹_›, rfl⟩
  · rename_i hnone
    cases h
    exact .inl ⟨by simpa using hnone, rfl⟩

/-- Ending a subroutine leaves all else as it is. -/
theorem closeSubroutine_frame {d e : Draft} (h : d.closeSubroutine = .ok e) :
    e.qubits = d.qubits ∧ e.aliases = d.aliases ∧ e.grid = d.grid ∧ e.column = d.column := by
  obtain ⟨-, rfl⟩ | ⟨o, -, -, rfl⟩ := closeSubroutine_ok h <;> simp

/-- Whether the open subroutine has ended or not, all else is as it was. -/
theorem left_frame {d e : Draft} (h : e = d ∨ d.closeSubroutine = .ok e) :
    e.qubits = d.qubits ∧ e.aliases = d.aliases ∧ e.grid = d.grid ∧ e.column = d.column := by
  obtain rfl | hclosed := h
  · exact ⟨rfl, rfl, rfl, rfl⟩
  · exact closeSubroutine_frame hclosed

theorem openSubroutine_ok {d f : Draft} {p : Pending} {name : Located Text}
    {repetitions : Option (Located Float)} (h : d.openSubroutine p name repetitions = .ok f) :
    ∃ e o, d.closeSubroutine = .ok e ∧ o.start = d.column ∧ f = { e with opened := some o } := by
  unfold openSubroutine at h
  obtain ⟨e, he, h⟩ := bind_eq_ok.1 h
  obtain ⟨n, -, h⟩ := bind_eq_ok.1 h
  cases h
  exact ⟨e, _, he, (closeSubroutine_frame he).2.2.2, rfl⟩

theorem resolveBy_ok {find : Text → Option Channel} {p : Pending} {operand : Located Operand}
    {c : Channel} (h : resolveBy find p operand = .ok c) : ∃ n, find n = some c := by
  unfold resolveBy at h
  split at h
  · rename_i n _
    cases hn : find n with
    | none => simp [hn] at h
    | some c' =>
      simp only [hn, Option.elim_some, Except.ok.injEq] at h
      exact ⟨n, h ▸ hn⟩
  · cases h

theorem bindAlias_ok {d e : Draft} {p : Pending} {operands : List (Located Operand)}
    (h : d.bindAlias p operands = .ok e) :
    ∃ c name, c.index < d.qubits ∧ e = d.giveName c name := by
  unfold bindAlias at h
  split at h
  · obtain ⟨c, hc, h⟩ := bind_eq_ok.1 h
    obtain ⟨n, hn⟩ := resolveBy_ok hc
    split at h
    · cases h
      exact ⟨c, _, Channel.index_lt_of_read? hn, rfl⟩
    · cases h
  · cases h

/-- There is a name for each of the `2Q` rows. -/
def Sized (d : Draft) : Prop := d.aliases.size = 2 * d.qubits

theorem index_lt_of_channelOf? {d : Draft} (hd : d.Sized) {name : Text} {c : Channel}
    (h : d.channelOf? name = some c) : c.index < d.qubits := by
  unfold channelOf? at h
  split at h
  · rename_i row hrow
    cases h
    exact Channel.index_ofRow_lt (hd ▸ (Array.findIdx?_eq_some_iff_getElem.1 hrow).1)
  · exact Channel.index_lt_of_read? h

/-! ## Gates -/

theorem occupy_ok {d e : Draft} {p : Pending} {i : Instruction} (h : d.occupy p i = .ok e) :
    (∀ c ∈ i.participants, d.grid.get? c i.column = none) ∧
      e = { d with grid := d.grid.place i } := by
  unfold occupy at h
  split at h
  · cases h
  · rename_i hfree
    cases h
    refine ⟨fun c hc => ?_, rfl⟩
    have := List.find?_eq_none.1 hfree c hc
    simpa [Grid.isOccupied] using this

theorem foldlM_occupy_ok {p : Pending} {targets : List Nat} {d e : Draft}
    (h : targets.foldlM (fun d index => d.occupy p (measurement d.column index)) d = .ok e) :
    ∃ g, d.grid.Places (targets.map (measurement d.column)) g ∧ e = { d with grid := g } := by
  induction targets generalizing d with
  | nil =>
    cases h
    exact ⟨_, .nil, rfl⟩
  | cons index targets ih =>
    rw [List.foldlM_cons] at h
    obtain ⟨f, hf, h⟩ := bind_eq_ok.1 h
    obtain ⟨hfree, rfl⟩ := occupy_ok hf
    obtain ⟨g, hg, rfl⟩ := ih h
    exact ⟨g, .cons hfree hg, rfl⟩

theorem fits_measurement {column index qubits : Nat} (h : index < qubits) :
    (measurement column index).Fits qubits where
  declared c hc := by
    simp only [measurement, ChannelSet.mem_ofList, List.mem_cons, List.not_mem_nil, or_false] at hc
    rcases hc with rfl | rfl <;> exact h
  spans := ⟨fun hne => absurd rfl hne, fun _ => ⟨index, rfl, rfl⟩⟩

/-- What a gate does: it puts instructions that fit into free cells of the column. -/
def PlacesGates (d e : Draft) : Prop :=
  ∃ is g, (∀ i ∈ is, i.column = d.column ∧ (d.Sized → i.Fits d.qubits)) ∧ d.grid.Places is g ∧
    e = { d with grid := g }

theorem measure_ok {d e : Draft} {p : Pending} {operands : List (Channel × Span)}
    (hop : d.Sized → ∀ o ∈ operands, o.1.index < d.qubits) (h : d.measure p operands = .ok e) :
    d.PlacesGates e := by
  unfold measure at h
  obtain ⟨named, hnamed, h⟩ := bind_eq_ok.1 h
  obtain ⟨g, hg, rfl⟩ := foldlM_occupy_ok h
  refine ⟨_, g, fun i hi => ?_, hg, rfl⟩
  obtain ⟨index, hindex, rfl⟩ := List.mem_map.1 hi
  refine ⟨rfl, fun hd => fits_measurement ?_⟩
  split at hindex
  · exact List.mem_range.1 hindex
  · obtain ⟨o, ho, hoi⟩ := exists_of_mem_mapM_ok hnamed hindex
    have := hop hd o ho
    unfold measuredIndex at hoi
    split at hoi
    · rename_i q hq
      cases hoi
      rwa [hq] at this
    · cases hoi

theorem placeGate_ok {d e : Draft} {p : Pending} {entry : Catalog.Entry}
    {operands : List (Located Operand)} (h : d.placeGate p entry operands = .ok e) :
    d.PlacesGates e := by
  unfold placeGate at h
  obtain ⟨⟨angle, operands⟩, -, h⟩ := bind_eq_ok.1 h
  obtain ⟨channels, hchannels, h⟩ := bind_eq_ok.1 h
  have hindex : d.Sized → ∀ c ∈ channels, c.index < d.qubits := fun hd c hc => by
    obtain ⟨o, -, ho⟩ := exists_of_mem_mapM_ok hchannels hc
    obtain ⟨n, hn⟩ := resolveBy_ok ho
    exact index_lt_of_channelOf? hd hn
  split at h
  · exact measure_ok (fun hd o ho => hindex hd o.1 (List.of_mem_zip ho).1) h
  · rename_i hgate
    obtain ⟨hfree, rfl⟩ := occupy_ok h
    refine ⟨[_], _, ?_, .cons hfree .nil, rfl⟩
    intro i hi
    obtain rfl := List.mem_singleton.1 hi
    exact ⟨rfl, fun hd => ⟨fun c hc => hindex hd c (ChannelSet.mem_ofList.1 hc),
      fun _ => rfl, fun hmeasure => absurd hmeasure hgate⟩⟩

/-! ## Statements -/

/-- What executing a statement does after the open subroutine has ended, if it had to. The Boolean
tells whether a gate was placed. -/
inductive Effect (d : Draft) : Draft → Bool → Prop
  | nothing : Effect d d false
  | header {e : Draft} {o : OpenSubroutine} (closed : d.closeSubroutine = .ok e)
      (start : o.start = d.column) : Effect d { e with opened := some o } false
  | naming {c : Channel} {name : Text} (declared : c.index < d.qubits) :
      Effect d (d.giveName c name) false
  | gates {e : Draft} (placed : d.PlacesGates e) : Effect d e true

theorem instruct_ok {d e : Draft} {p : Pending} {keyword : Located Text}
    {operands : List (Located Operand)} {placed : Bool}
    (h : d.instruct p keyword operands = .ok (e, placed)) : d.Effect e placed := by
  unfold instruct at h
  dsimp only at h
  split at h
  · cases h
    exact .nothing
  · split at h
    · cases h
    · split at h
      · split at h
        · obtain ⟨e, he, h⟩ := map_eq_ok.1 h
          cases h
          obtain ⟨c, name, hc, rfl⟩ := bindAlias_ok he
          exact .naming hc
        · obtain ⟨e, he, h⟩ := map_eq_ok.1 h
          cases h
          exact .gates (placeGate_ok he)
      · cases h

theorem leaveSubroutine_ok {d e : Draft} {p : Pending} (h : d.leaveSubroutine p = .ok e) :
    e = d ∨ d.closeSubroutine = .ok e := by
  unfold leaveSubroutine at h
  split at h
  · cases h
    exact .inl rfl
  · exact .inr h

/-- **Everything that a statement does**: it may end the open subroutine, and then has one of the
effects. -/
theorem execute_ok {d f : Draft} {p : Pending} {placed : Bool}
    (h : d.execute p = .ok (f, placed)) :
    ∃ e, (e = d ∨ d.closeSubroutine = .ok e) ∧ e.Effect f placed := by
  unfold execute at h
  split at h
  · cases h
    exact ⟨d, .inl rfl, .nothing⟩
  · obtain ⟨e, he, h⟩ := bind_eq_ok.1 h
    refine ⟨e, leaveSubroutine_ok he, ?_⟩
    split at h
    · cases h
      exact .nothing
    · split at h
      · cases h
      · obtain ⟨f, hf, h⟩ := map_eq_ok.1 h
        cases h
        obtain ⟨g, o, hg, ho, rfl⟩ := openSubroutine_ok hf
        exact .header hg ho
      · exact instruct_ok h

theorem Effect.column {d e : Draft} {placed : Bool} (h : d.Effect e placed) :
    e.column = d.column := by
  cases h with
  | nothing => rfl
  | header hclosed _ => exact (closeSubroutine_frame hclosed).2.2.2
  | naming _ => rfl
  | gates hplaced =>
    obtain ⟨is, g, -, -, rfl⟩ := hplaced
    rfl

/-- A statement leaves the column as it is. -/
theorem execute_column {d f : Draft} {p : Pending} {placed : Bool}
    (h : d.execute p = .ok (f, placed)) : f.column = d.column := by
  obtain ⟨e, rfl | hclosed, heffect⟩ := execute_ok h
  · exact heffect.column
  · rw [heffect.column, (closeSubroutine_frame hclosed).2.2.2]

end Draft

end QuantumDiagram

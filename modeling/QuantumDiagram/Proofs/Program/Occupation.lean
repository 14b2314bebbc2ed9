import Mathlib.Data.List.Induction
import QuantumDiagram.Proofs.Program.Effect

/-!
# Instructions in one column

An instruction takes a cell in each of its channels. If instructions do not all keep apart, there is
a first one that shares a channel with an earlier one (`FirstClash`). Put into a column that holds
nothing else, instructions are refused just for that one, and for the smallest channel that it
shares (`Draft.occupyAll_eq_error`).
-/

namespace QuantumDiagram

/-! ## Instructions that share a channel -/

/-- The first member for which a condition holds is the smallest one. -/
theorem ChannelSet.find?_eq_some {s : ChannelSet} {P : Channel → Bool} {c : Channel} :
    s.toList.find? P = some c ↔
      c ∈ s ∧ P c = true ∧ ∀ d ∈ s, P d = true → compare c d ≠ .gt := by
  have hleast {c : Channel} (h : s.toList.find? P = some c) :
      c ∈ s ∧ P c = true ∧ ∀ d ∈ s, P d = true → compare c d ≠ .gt := by
    obtain ⟨hc, before, behind, hlist, hbefore⟩ := List.find?_eq_some_iff_append.1 h
    have hincreasing := s.increasing
    rw [hlist] at hincreasing
    refine ⟨List.mem_of_find?_eq_some h, hc, fun d hd hP => ?_⟩
    rw [ChannelSet.mem_def, hlist] at hd
    rcases List.mem_append.1 hd with hd | hd
    · have hnot := hbefore d hd
      rw [hP] at hnot
      cases hnot
    · rcases List.mem_cons.1 hd with rfl | hd
      · simp
      · have hlt := List.rel_of_pairwise_cons (List.pairwise_append.1 hincreasing).2.1 hd
        rw [hlt]
        simp
  refine ⟨hleast, fun ⟨hc, hP, hle⟩ => ?_⟩
  cases hfind : s.toList.find? P with
  | none => exact absurd hP (List.find?_eq_none.1 hfind c hc)
  | some d =>
    obtain ⟨hd, hPd, hle'⟩ := hleast hfind
    have hcd := hle d hd hPd
    have hdc := hle' c hc hP
    cases hcompare : compare c d with
    | lt => exact absurd (Std.OrientedCmp.gt_of_lt hcompare) hdc
    | eq => rw [Std.LawfulEqOrd.eq_of_compare hcompare]
    | gt => exact absurd hcompare hcd

namespace Instruction

/-- No channel takes part in both instructions. -/
def Apart (i j : Instruction) : Prop := ∀ c ∈ i.participants, c ∉ j.participants

/-- Of the channels that the instruction shares with those of `taken`, `c` is the smallest. -/
structure ClashesAt (i : Instruction) (taken : List Instruction) (c : Channel) : Prop where
  mem : c ∈ i.participants
  shared : ∃ j ∈ taken, c ∈ j.participants
  least : ∀ d ∈ i.participants, (∃ j ∈ taken, d ∈ j.participants) → compare c d ≠ .gt

variable {i : Instruction} {taken : List Instruction}

theorem ClashesAt.not_apart {c : Channel} (h : i.ClashesAt taken c) :
    ¬ ∀ j ∈ taken, j.Apart i := by
  intro hapart
  obtain ⟨j, hj, hc⟩ := h.shared
  exact hapart j hj c hc h.mem

theorem exists_clashesAt (h : ¬ ∀ j ∈ taken, j.Apart i) : ∃ c, i.ClashesAt taken c := by
  simp only [Apart, not_forall, not_not] at h
  obtain ⟨j, hj, c, hc, hi⟩ := h
  let shared (c : Channel) : Bool := taken.any (c ∈ ·.participants)
  have hshared (c : Channel) : shared c = true ↔ ∃ j ∈ taken, c ∈ j.participants := by
    simp [shared]
  have hsome : (i.participants.toList.find? shared).isSome = true :=
    List.find?_isSome.2 ⟨c, hi, (hshared c).2 ⟨j, hj, hc⟩⟩
  obtain ⟨d, hd⟩ := Option.isSome_iff_exists.1 hsome
  obtain ⟨hmem, hd, hleast⟩ := ChannelSet.find?_eq_some.1 hd
  exact ⟨d, hmem, (hshared d).1 hd, fun x hx hxs => hleast x hx ((hshared x).2 hxs)⟩

end Instruction

open Instruction (Apart)

/-- `FirstClash is c`: the first instruction of `is` that shares channels with earlier ones has `c`
as the smallest of these channels. -/
def FirstClash (is : List Instruction) (c : Channel) : Prop :=
  ∃ earlier i later, is = earlier ++ i :: later ∧ earlier.Pairwise Apart ∧ i.ClashesAt earlier c

section Clashes

variable {is js earlier later : List Instruction} {i : Instruction} {c : Channel}

theorem not_firstClash (h : is.Pairwise Apart) : ¬ FirstClash is c := by
  rintro ⟨earlier, i, later, rfl, -, hclash⟩
  have hapart := (List.pairwise_append.1 h).2.2
  exact hclash.not_apart fun j hj => hapart j hj i List.mem_cons_self

/-- The instruction that clashes first is determined. -/
theorem firstClash_append_cons (hearlier : earlier.Pairwise Apart)
    (hi : ¬ ∀ j ∈ earlier, j.Apart i) :
    FirstClash (earlier ++ i :: later) c ↔ i.ClashesAt earlier c := by
  refine ⟨?_, fun h => ⟨earlier, i, later, rfl, hearlier, h⟩⟩
  rintro ⟨before, j, behind, heq, hbefore, hclash⟩
  rcases List.append_eq_append_iff.1 heq with ⟨between, rfl, hcons⟩ | ⟨between, rfl, hcons⟩
  · cases between with
    | nil =>
      obtain ⟨rfl, -⟩ := List.cons.inj hcons
      rwa [List.append_nil] at hclash
    | cons k between =>
      -- The instruction `i` is among those before `j`, which keep apart.
      obtain ⟨rfl, -⟩ := List.cons.inj hcons
      have hapart := (List.pairwise_append.1 hbefore).2.2
      exact absurd (fun j hj => hapart j hj i List.mem_cons_self) hi
  · cases between with
    | nil =>
      obtain ⟨rfl, -⟩ := List.cons.inj hcons
      rwa [List.append_nil]
    | cons k between =>
      obtain ⟨rfl, -⟩ := List.cons.inj hcons
      have hapart := (List.pairwise_append.1 hearlier).2.2
      exact absurd (fun k hk => hapart k hk j List.mem_cons_self) hclash.not_apart

theorem exists_first_not_apart (h : ¬ is.Pairwise Apart) :
    ∃ earlier i later, is = earlier ++ i :: later ∧ earlier.Pairwise Apart ∧
      ¬ ∀ j ∈ earlier, j.Apart i := by
  induction is using List.reverseRecOn with
  | nil => exact absurd List.Pairwise.nil h
  | append_singleton is i ih =>
    by_cases his : is.Pairwise Apart
    · refine ⟨is, i, [], rfl, his, fun hapart => h ?_⟩
      refine List.pairwise_append.2 ⟨his, List.pairwise_singleton _ _, fun j hj k hk => ?_⟩
      rw [List.mem_singleton.1 hk]
      exact hapart j hj
    · obtain ⟨earlier, j, later, rfl, hearlier, hj⟩ := ih his
      exact ⟨earlier, j, later ++ [i], by simp, hearlier, hj⟩

/-- **There is a first clash just if two of the instructions share a channel.** -/
theorem exists_firstClash_iff : (∃ c, FirstClash is c) ↔ ¬ is.Pairwise Apart := by
  refine ⟨fun ⟨c, hc⟩ h => not_firstClash h hc, fun h => ?_⟩
  obtain ⟨earlier, i, later, rfl, hearlier, hi⟩ := exists_first_not_apart h
  obtain ⟨c, hc⟩ := Instruction.exists_clashesAt hi
  exact ⟨c, earlier, i, later, rfl, hearlier, hc⟩

/-- Instructions behind a clash do not matter. -/
theorem firstClash_append (h : ¬ is.Pairwise Apart) :
    FirstClash (is ++ js) c ↔ FirstClash is c := by
  obtain ⟨earlier, i, later, rfl, hearlier, hi⟩ := exists_first_not_apart h
  rw [List.append_assoc, List.cons_append, firstClash_append_cons hearlier hi,
    firstClash_append_cons hearlier hi]

end Clashes

/-! ## A column that fills up -/

/-- The cells of the column are those of the instructions. -/
def Grid.Holds (g : Grid) (column : Nat) (is : List Instruction) : Prop :=
  ∀ c, g.isOccupied c column = true ↔ ∃ i ∈ is, c ∈ i.participants

theorem Grid.Holds.place {g : Grid} {k : Nat} {is : List Instruction} (h : g.Holds k is)
    {i : Instruction} (hi : i.column = k) : (g.place i).Holds k (is ++ [i]) := by
  intro c
  have hold := h c
  rw [isOccupied] at hold ⊢
  rw [get?_place, hi]
  by_cases hc : c ∈ i.participants
  · simp [hc]
  · simp [hc, hold]

theorem Grid.Holds.foldl_place {g : Grid} {k : Nat} {is js : List Instruction} (h : g.Holds k is)
    (hjs : ∀ j ∈ js, j.column = k) : (js.foldl Grid.place g).Holds k (is ++ js) := by
  induction js generalizing g is with
  | nil => rwa [List.append_nil]
  | cons j js ih =>
    obtain ⟨hj, hjs⟩ := List.forall_mem_cons.1 hjs
    rw [List.append_cons]
    exact ih (h.place hj) hjs

namespace Draft

variable {d e f : Draft} {p : Pending} {i : Instruction} {is taken : List Instruction}
  {err : ParseError}

/-- The error that a site of the current column is taken. -/
def siteTaken (d : Draft) (p : Pending) (c : Channel) : ParseError :=
  p.error (.malformedStatement (.siteTaken c d.column)) p.span

/-- Puts instructions into their cells, one after the other. -/
def occupyAll (d : Draft) (p : Pending) (is : List Instruction) : Except ParseError Draft :=
  is.foldlM (fun d i => d.occupy p i) d

theorem occupyAll_cons (d : Draft) (p : Pending) (i : Instruction) (is : List Instruction) :
    d.occupyAll p (i :: is) = d.occupy p i >>= fun e => e.occupyAll p is :=
  List.foldlM_cons

theorem occupy_eq_ok : d.occupy p i = .ok e ↔
    (∀ c ∈ i.participants, d.grid.get? c i.column = none) ∧
      e = { d with grid := d.grid.place i } := by
  refine ⟨occupy_ok, ?_⟩
  rintro ⟨hfree, rfl⟩
  have hnone : i.participants.toList.find? (d.grid.isOccupied · i.column) = none :=
    List.find?_eq_none.2 fun c hc => by simp [Grid.isOccupied, hfree c hc]
  rw [occupy, hnone]

theorem occupyAll_singleton (i : Instruction) : d.occupyAll p [i] = d.occupy p i := by
  rw [occupyAll_cons]
  cases d.occupy p i <;> rfl

theorem occupy_column (h : d.occupy p i = .ok e) : e.column = d.column := by
  obtain ⟨-, rfl⟩ := occupy_ok h
  rfl

/-- Instructions are put into free cells. -/
theorem occupyAll_eq_ok : d.occupyAll p is = .ok e ↔
    ∃ g, d.grid.Places is g ∧ e = { d with grid := g } := by
  induction is generalizing d with
  | nil =>
    constructor
    · intro h
      cases h
      exact ⟨_, .nil, rfl⟩
    · rintro ⟨_, ⟨⟩, rfl⟩
      rfl
  | cons i is ih =>
    rw [occupyAll_cons, bind_eq_ok]
    simp only [occupy_eq_ok]
    constructor
    · rintro ⟨_, ⟨hfree, rfl⟩, h⟩
      obtain ⟨g, hg, rfl⟩ := ih.1 h
      exact ⟨g, .cons hfree hg, rfl⟩
    · rintro ⟨g, hg, rfl⟩
      cases hg with
      | cons hfree hrest => exact ⟨_, ⟨hfree, rfl⟩, ih.2 ⟨g, hrest, rfl⟩⟩

/-- In a column that holds the instructions `taken`, another one has its cells if it keeps apart
from them. -/
theorem occupy_of_apart (hd : d.grid.Holds d.column taken) (hi : i.column = d.column)
    (h : ∀ j ∈ taken, j.Apart i) : d.occupy p i = .ok { d with grid := d.grid.place i } := by
  refine occupy_eq_ok.2 ⟨fun c hc => ?_, rfl⟩
  rw [hi]
  refine Option.eq_none_iff_forall_ne_some.2 fun k hk => ?_
  obtain ⟨j, hj, hcj⟩ := (hd c).1 (by simp [Grid.isOccupied, hk])
  exact h j hj c hcj hc

/-- Otherwise it is refused, for the smallest channel that it shares with them. -/
theorem occupy_eq_error (hd : d.grid.Holds d.column taken) (hi : i.column = d.column) :
    d.occupy p i = .error err ↔ ∃ c, i.ClashesAt taken c ∧ err = d.siteTaken p c := by
  have hfind (c : Channel) :
      i.participants.toList.find? (d.grid.isOccupied · i.column) = some c ↔
        i.ClashesAt taken c := by
    rw [ChannelSet.find?_eq_some, hi]
    simp only [hd _]
    exact ⟨fun ⟨hmem, hshared, hleast⟩ => ⟨hmem, hshared, hleast⟩,
      fun ⟨hmem, hshared, hleast⟩ => ⟨hmem, hshared, hleast⟩⟩
  unfold occupy
  split
  · rename_i c hc
    rw [hi]
    constructor
    · intro h
      cases h
      exact ⟨c, (hfind c).1 hc, rfl⟩
    · rintro ⟨c', hclash, rfl⟩
      obtain rfl := Option.some.inj (((hfind c').2 hclash).symm.trans hc)
      rfl
  · rename_i hnone
    constructor
    · intro h
      cases h
    · rintro ⟨c, hclash, -⟩
      rw [(hfind c).2 hclash] at hnone
      cases hnone

/-- Instructions that keep apart have their cells. -/
theorem occupyAll_of_pairwise (hd : d.grid.Holds d.column taken)
    (hcolumn : ∀ i ∈ is, i.column = d.column) (h : (taken ++ is).Pairwise Apart) :
    d.occupyAll p is = .ok { d with grid := is.foldl Grid.place d.grid } := by
  induction is generalizing d taken with
  | nil => rfl
  | cons i is ih =>
    obtain ⟨hi, his⟩ := List.forall_mem_cons.1 hcolumn
    have hapart := (List.pairwise_append.1 h).2.2
    rw [List.append_cons] at h
    rw [occupyAll_cons, occupy_of_apart hd hi fun j hj => hapart j hj i List.mem_cons_self]
    exact ih (d := { d with grid := d.grid.place i }) (hd.place hi) his h

/-- **Instructions that do not keep apart are refused for their first clash.** -/
theorem occupyAll_eq_error (hd : d.grid.Holds d.column taken)
    (hcolumn : ∀ i ∈ is, i.column = d.column) (htaken : taken.Pairwise Apart) :
    d.occupyAll p is = .error err ↔ ∃ c, FirstClash (taken ++ is) c ∧ err = d.siteTaken p c := by
  induction is generalizing d taken with
  | nil =>
    rw [List.append_nil]
    constructor
    · intro h
      cases h
    · rintro ⟨c, hc, -⟩
      exact absurd hc (not_firstClash htaken)
  | cons i is ih =>
    obtain ⟨hi, his⟩ := List.forall_mem_cons.1 hcolumn
    rw [occupyAll_cons]
    by_cases hapart : ∀ j ∈ taken, j.Apart i
    · rw [occupy_of_apart hd hi hapart, List.append_cons]
      have hplaced := hd.place hi
      have hpairwise : (taken ++ [i]).Pairwise Apart := by
        refine List.pairwise_append.2 ⟨htaken, List.pairwise_singleton _ _, fun j hj k hk => ?_⟩
        rw [List.mem_singleton.1 hk]
        exact hapart j hj
      exact ih (d := { d with grid := d.grid.place i }) hplaced his hpairwise
    · obtain ⟨c, hclash⟩ := Instruction.exists_clashesAt hapart
      have hrefused := (occupy_eq_error (p := p) hd hi).2 ⟨c, hclash, rfl⟩
      simp only [firstClash_append_cons htaken hapart, ← occupy_eq_error (p := p) hd hi]
      rw [hrefused]
      exact Iff.rfl

theorem occupyAll_eq_ok_of_holds (hd : d.grid.Holds d.column taken)
    (hcolumn : ∀ i ∈ is, i.column = d.column) (htaken : taken.Pairwise Apart) :
    d.occupyAll p is = .ok e ↔
      (taken ++ is).Pairwise Apart ∧ e = { d with grid := is.foldl Grid.place d.grid } := by
  by_cases hapart : (taken ++ is).Pairwise Apart
  · simp [occupyAll_of_pairwise hd hcolumn hapart, hapart, eq_comm]
  · obtain ⟨c, hclash⟩ := exists_firstClash_iff.2 hapart
    simp [(occupyAll_eq_error hd hcolumn htaken).2 ⟨c, hclash, rfl⟩, hapart]

end Draft

end QuantumDiagram

import Mathlib.Data.List.Perm.Basic
import QuantumDiagram.Proofs.Program.Blame
import QuantumDiagram.Proofs.Program.GateStatement
import QuantumDiagram.Proofs.Program.WrittenLine

/-!
# The order of gate statements in a line

`Circuit.ofProgram_permuted` says that the gate statements of a parallel line may stand in any
order: if they change places, the program describes the same circuit. It says the converse of lines
in which only gaps are around the parts; other blanks, which cannot be read, are taken off in front
of the first part of a block and nowhere else (`Circuit.ofProgram_permuted_blank`). What the
statements of such a line stand for does not depend on what else is on the line, and instructions
can be put into free cells in any order (`Grid.Places.perm`).
-/

namespace QuantumDiagram

/-! ## Instructions in another order -/

namespace Grid

variable {g h : Grid} {i j : Instruction}

/-- A cell that is free after an instruction was placed was free before, and is none of its own. -/
theorem free_of_free_place {c : Channel} {k : Nat} (h : (g.place i).get? c k = none) :
    g.get? c k = none ∧ ¬ (c ∈ i.participants ∧ i.column = k) := by
  rw [get?_place] at h
  split at h
  · cases h
  · exact ⟨h, ‹_›⟩

/-- Instructions that go into different cells can be placed in either order. -/
theorem place_comm (h : ∀ c ∈ i.participants, (g.place j).get? c i.column = none) :
    (g.place i).place j = (g.place j).place i := by
  refine Grid.ext fun c k => ?_
  simp only [get?_place]
  by_cases hi : c ∈ i.participants ∧ i.column = k
  · obtain ⟨hc, rfl⟩ := hi
    rw [if_neg (free_of_free_place (h c hc)).2, if_pos ⟨hc, rfl⟩, if_pos ⟨hc, rfl⟩]
  · rw [if_neg hi, if_neg hi]

/-- **The order in which instructions are placed does not matter.** -/
theorem Places.perm {is js : List Instruction} (hperm : is.Perm js)
    (hp : g.Places is h) : g.Places js h := by
  induction hperm generalizing g with
  | nil => exact hp
  | cons i _ ih =>
    cases hp with
    | cons free rest => exact .cons free (ih rest)
  | swap i j is =>
    cases hp with
    | cons freej rest =>
      cases rest with
      | cons freei rest =>
        have hapart := place_comm freei
        refine .cons (fun c hc => (free_of_free_place (freei c hc)).1) (.cons (fun c hc => ?_) ?_)
        · rw [get?_place, if_neg fun hi => ?_, freej c hc]
          exact (free_of_free_place (freei c hi.1)).2 ⟨hc, hi.2.symm⟩
        · rw [hapart]
          exact rest
  | trans _ _ ih ih' => exact ih' (ih hp)

end Grid

theorem exists_mapM_of_perm {α β : Type} {f : α → Option β} {as bs : List α} {ys : List β}
    (hperm : as.Perm bs) (h : bs.mapM f = some ys) :
    ∃ xs, as.mapM f = some xs ∧ xs.Perm ys := by
  obtain ⟨xs, hxs, hys⟩ := List.perm_comp_forall₂ hperm (mapM_eq_some_iff.1 h)
  exact ⟨xs, mapM_eq_some_iff.2 hxs, hys⟩

/-! ## A line of gate statements -/

namespace Text

theorem isGateStatement_congr {s t : Text} (h : firstWord t = firstWord s) :
    isGateStatement t = isGateStatement s := by
  rw [isGateStatement, isGateStatement, h]

/-- A gate statement does not begin with `qubits`. -/
theorem ne_qubits_of_isGateStatement {t : Text}
    (h : isBlank t = false → isGateStatement t = true) :
    lower (firstWord t) ≠ "qubits".toList := by
  intro hword
  cases hblank : isBlank t with
  | true =>
    have hnone : trimStart t = [] := List.dropWhile_eq_nil_iff.2 (List.all_eq_true.1 hblank)
    rw [firstWord_eq, hnone] at hword
    cases hword
  | false =>
    have hgate := h hblank
    rw [isGateStatement, hword] at hgate
    cases hgate

end Text

/-- The line is a parallel line, and `ts` are its statements, which apply gates. -/
structure Line.Applies (l : Line) (ts : List Text) : Prop where
  parallel : (Pending.ofLine l).isParallel = true
  parts : ∃ ps, (Pending.ofLine l).parts = .ok ps ∧ ps.map Pending.text = ts
  gates : ∀ t ∈ ts, Text.isGateStatement t = true

theorem Pending.Written.applies {opening closing : Text} {parts : List Text} {l : Line}
    (h : Written opening parts closing l.uncommented.text)
    (hgates : ∀ part ∈ parts, Text.isBlank part = false → Text.isGateStatement part = true) :
    l.Applies ((parts.modifyHead (cutFirst opening)).filter (! Text.isBlank ·)) where
  parallel := h.isParallel (p := ofLine l)
  parts := h.parts_ok (p := ofLine l)
  gates t ht := by
    obtain ⟨ht, hblank⟩ := List.mem_filter.1 ht
    have hcut (part : Text) : Text.isBlank (cutFirst opening part) = Text.isBlank part ∧
        Text.firstWord (cutFirst opening part) = Text.firstWord part := by
      unfold cutFirst
      split
      · exact ⟨rfl, rfl⟩
      · exact ⟨Text.isBlank_trimStart part, Text.firstWord_trimStart part⟩
    have hpart : ∃ part ∈ parts, t = part ∨ t = cutFirst opening part := by
      cases parts with
      | nil => cases ht
      | cons part rest =>
        obtain rfl | ht := List.mem_cons.1 ht
        · exact ⟨part, List.mem_cons_self, .inr rfl⟩
        · exact ⟨t, .tail _ ht, .inl rfl⟩
    obtain ⟨part, hmem, rfl | rfl⟩ := hpart
    · exact hgates _ hmem (by simpa using hblank)
    · rw [(hcut part).1] at hblank
      rw [Text.isGateStatement_congr (hcut part).2]
      exact hgates _ hmem (by simpa using hblank)

namespace Line.Applies

variable {l l' : Line} {ts us : List Text} {d f : Draft}

theorem not_mem_comment (h : l.Applies ts) : ∀ t ∈ ts, '#' ∉ t := by
  obtain ⟨ps, hps, rfl⟩ := h.parts
  intro t ht hmark
  obtain ⟨p, hp, rfl⟩ := List.mem_map.1 ht
  obtain ⟨s, hs, rfl⟩ := Pending.of_mem_parts hps hp
  have hmark := (Pending.within_segments hs).subset _ hmark
  simpa using List.mem_takeWhile_imp hmark

/-- **What a line of gate statements does**: the instructions of all statements are put into free
cells of one column. -/
theorem executeLine_iff (h : l.Applies ts) : d.executeLine l = .ok f ↔ if ts = [] then f = d else
    ∃ e is g, d.left l.isIndented = .ok e ∧ ts.mapM d.instructions? = some is ∧
      e.grid.Places is.flatten g ∧ f = Draft.advance { e with grid := g } true := by
  have hmarks := h.not_mem_comment
  obtain ⟨ps, hps, rfl⟩ := h.parts
  rw [Draft.executeLine_parts h.parallel hps, map_eq_ok]
  by_cases hempty : ps = []
  · subst hempty
    rw [List.map_nil, if_pos rfl]
    constructor
    · rintro ⟨_, ⟨⟩, rfl⟩
      rfl
    · rintro rfl
      exact ⟨_, rfl, rfl⟩
  · have hall : ∀ p ∈ ps, Text.isGateStatement p.text = true ∧ '#' ∉ p.text ∧
        p.indented = l.isIndented := fun p hp => by
      have hmem := List.mem_map_of_mem (f := Pending.text) hp
      refine ⟨h.gates _ hmem, hmarks _ hmem, ?_⟩
      obtain ⟨_, -, rfl⟩ := Pending.of_mem_parts hps hp
      rfl
    have hne : ps.map Pending.text ≠ [] := by simpa using hempty
    simp only [Prod.exists, Draft.executeAll_gates hempty hall, if_neg hne, List.mapM_map]
    constructor
    · rintro ⟨_, _, ⟨rfl, e, is, g, he, his, hg, rfl⟩, rfl⟩
      exact ⟨e, is, g, he, his, hg, rfl⟩
    · rintro ⟨e, is, g, he, his, hg, rfl⟩
      exact ⟨_, _, ⟨rfl, e, is, g, he, his, hg, rfl⟩, rfl⟩

/-- A line of gate statements succeeds if another one does whose statements stand for the same
instructions in another order. -/
theorem executeLine_of_perm (h : l.Applies ts) (h' : l'.Applies us)
    (hindented : l'.isIndented = l.isIndented) (hlength : us.length = ts.length)
    (hread : ∀ is, ts.mapM d.instructions? = some is →
      ∃ js, us.mapM d.instructions? = some js ∧ js.Perm is)
    (hf : d.executeLine l = .ok f) : d.executeLine l' = .ok f := by
  have hempty : us = [] ↔ ts = [] := by
    rw [← List.length_eq_zero_iff, ← List.length_eq_zero_iff, hlength]
  rw [h'.executeLine_iff, hindented, if_congr hempty rfl rfl]
  have hf := h.executeLine_iff.1 hf
  split at hf
  · rwa [if_pos ‹_›]
  · rw [if_neg ‹_›]
    obtain ⟨e, is, g, he, his, hg, rfl⟩ := hf
    obtain ⟨js, hjs, hperm⟩ := hread is his
    exact ⟨e, js, g, he, hjs, hg.perm hperm.flatten.symm, rfl⟩

end Line.Applies

/-! ## Statements in another order -/

/-- The statements `new` are those of `old`, trimmed, in another order and with gaps around them. -/
def Reorders (old new : List Text) : Prop :=
  ∃ parts, parts.Perm (old.map Text.trim) ∧ List.Forall₂ Text.Pads parts new

namespace Draft

variable {d : Draft}

theorem mapM_instructions?_padded {ss ts : List Text} (h : List.Forall₂ Text.Pads ss ts)
    (hmarks : ∀ s ∈ ss, '#' ∉ s) : ts.mapM d.instructions? = ss.mapM d.instructions? := by
  induction h with
  | nil => rfl
  | @cons s t _ _ hpads _ ih =>
    obtain ⟨hmark, hmarks⟩ := List.forall_mem_cons.1 hmarks
    have hread : d.instructions? t = d.instructions? s := by
      rw [instructions?, instructions?, Statement.instruction?_padded hmark hpads]
    rw [List.mapM_cons, List.mapM_cons, hread, ih hmarks]

/-- Around a statement that stands for instructions there are no other blanks than gaps. -/
theorem pads_trim_of_mapM {ts : List Text} {is : List (List Instruction)}
    (hmarks : ∀ t ∈ ts, '#' ∉ t) (h : ts.mapM d.instructions? = some is) :
    ∀ t ∈ ts, (Text.trim t).Pads t := by
  have hread := mapM_eq_some_iff.1 h
  induction hread with
  | nil => simp
  | cons ht _ ih =>
    obtain ⟨hmark, hmarks⟩ := List.forall_mem_cons.1 hmarks
    obtain ⟨_, _, _, hinstruction, -⟩ := instructions?_eq_some.1 ht
    obtain ⟨ls, _, _, hls, -⟩ := Statement.instruction?_eq_some.1 hinstruction
    exact List.forall_mem_cons.2 ⟨Lexeme.pads_trim hls hmark, ih hmarks (mapM_eq_some_iff.2 ‹_›)⟩

/-- If only gaps are around them, trimmed statements stand for the same instructions. -/
theorem mapM_instructions?_trim {ts : List Text} (hmarks : ∀ t ∈ ts, '#' ∉ t)
    (hgaps : ∀ t ∈ ts, (Text.trim t).Pads t) :
    (ts.map Text.trim).mapM d.instructions? = ts.mapM d.instructions? := by
  refine (mapM_instructions?_padded (List.forall₂_map_left_iff.2 (List.forall₂_same.2 hgaps))
    fun s hs hmark => ?_).symm
  obtain ⟨t, ht, rfl⟩ := List.mem_map.1 hs
  exact hmarks t ht (Text.subset_trim t hmark)

end Draft

namespace Reorders

variable {d : Draft} {old new : List Text} {is : List (List Instruction)}

theorem length_eq (h : Reorders old new) : new.length = old.length := by
  obtain ⟨parts, hperm, hpads⟩ := h
  rw [← hpads.length_eq, hperm.length_eq, List.length_map]

theorem not_mem_comment {parts : List Text} (hperm : parts.Perm (old.map Text.trim))
    (hmarks : ∀ s ∈ old, '#' ∉ s) : ∀ part ∈ parts, '#' ∉ part := by
  intro part hpart hmark
  obtain ⟨s, hs, rfl⟩ := List.mem_map.1 (hperm.mem_iff.1 hpart)
  exact hmarks s hs (Text.subset_trim s hmark)

/-- In another order, statements stand for the same instructions, if they can be read. -/
theorem exists_mapM (h : Reorders old new) (hmarks : ∀ s ∈ old, '#' ∉ s)
    (his : old.mapM d.instructions? = some is) :
    ∃ js, new.mapM d.instructions? = some js ∧ js.Perm is := by
  obtain ⟨parts, hperm, hpads⟩ := h
  -- What can be read has only gaps around it, so it is read as well when it is trimmed.
  rw [← Draft.mapM_instructions?_trim hmarks (Draft.pads_trim_of_mapM hmarks his)] at his
  rw [Draft.mapM_instructions?_padded hpads (not_mem_comment hperm hmarks)]
  exact exists_mapM_of_perm hperm his

theorem exists_mapM_old (h : Reorders old new) (hmarks : ∀ s ∈ old, '#' ∉ s)
    (hgaps : ∀ s ∈ old, (Text.trim s).Pads s) (his : new.mapM d.instructions? = some is) :
    ∃ js, old.mapM d.instructions? = some js ∧ js.Perm is := by
  obtain ⟨parts, hperm, hpads⟩ := h
  rw [Draft.mapM_instructions?_padded hpads (not_mem_comment hperm hmarks)] at his
  rw [← Draft.mapM_instructions?_trim hmarks hgaps]
  exact exists_mapM_of_perm hperm.symm his

end Reorders

/-! ## A line in another order -/

namespace Line

/-- The trimmed parts of a parallel line. -/
def trimmedParts (t : Text) : List Text := (pending t).segments.map fun s => Text.trim s.text

/-- The line is a parallel line that can be cut into parts, and all parts are gate statements but
for blank ones. -/
structure OfGates (t : Text) : Prop where
  parallel : (pending t).isParallel = true
  cut : ∃ ps, (pending t).parts = .ok ps
  gates : ∀ s ∈ (pending t).segments, Text.isBlank s.text = false →
    Text.isGateStatement s.text = true

/-- Around the parts of the line there are no other blanks than gaps, but for blank parts. -/
def InGaps (t : Text) : Prop :=
  ∀ s ∈ (pending t).segments, Text.isBlank s.text = false → (Text.trim s.text).Pads s.text

/-- The spaces and tabs that a line begins with. -/
def indentation (t : Text) : Text := t.takeWhile fun c => c = ' ' || c = '\t'

theorem isIndented_eq (number offset : Nat) (t : Text) :
    isIndented ⟨number, offset, dropReturn t⟩ = ! (indentation t).isEmpty := by
  have hcons (c : Char) (rest rest' : Text) :
      isIndented ⟨number, offset, c :: rest⟩ = ! (indentation (c :: rest')).isEmpty := by
    rw [isIndented, indentation, List.takeWhile_cons]
    cases hc : (c = ' ' || c = '\t' : Bool) <;> simpa using hc
  unfold dropReturn
  split
  · rename_i hreturn
    match t, hreturn with
    | ['\r'], _ => rfl
    | c :: c' :: rest, _ => exact hcons c ..
  · cases t with
    | nil => rfl
    | cons c rest => exact hcons c ..

/-- The line `u` has the trimmed parts of `t` in another order, perhaps with gaps around them. What
opens and closes the block stays as it is, and so does the indentation. -/
structure Permutes (t u : Text) : Prop where
  indentation : indentation u = indentation t
  text : ∃ parts us, parts.Perm (trimmedParts t) ∧ List.Forall₂ Text.Pads parts us ∧
    code u = (pending t).opening ++ (Text.joinWith "|" us ++ (pending t).closing)

/-! ### The statements of both lines -/

variable {t u : Text}

theorem OfGates.written (h : OfGates t) : Pending.Written (pending t).opening
    ((pending t).segments.map Stretch.text) (pending t).closing (code t) := by
  obtain ⟨ps, hps⟩ := h.cut
  exact Pending.written h.parallel hps

theorem OfGates.gates_texts (h : OfGates t) : ∀ part ∈ (pending t).segments.map Stretch.text,
    Text.isBlank part = false → Text.isGateStatement part = true := by
  intro part hpart
  obtain ⟨s, hs, rfl⟩ := List.mem_map.1 hpart
  exact h.gates s hs

/-- The parts of the other line hold those of the first one, trimmed and in another order. -/
theorem Permutes.exists_written (h : Permutes t u) (ht : OfGates t) : ∃ parts us,
    parts.Perm (trimmedParts t) ∧ List.Forall₂ Text.Pads parts us ∧
      Pending.Written (pending t).opening us (pending t).closing (code u) := by
  obtain ⟨parts, us, hperm, hpads, htext⟩ := h.text
  have hlength : us.length = ((pending t).segments.map Stretch.text).length := by
    rw [← hpads.length_eq, hperm.length_eq, trimmedParts, List.length_map, List.length_map]
  refine ⟨parts, us, hperm, hpads, htext, ht.written.opened, ht.written.closed, ?_, ?_⟩
  · intro part hpart
    obtain ⟨s, hs, hpad⟩ := Text.Pads.exists_of_mem hpads hpart
    obtain ⟨segment, hsegment, rfl⟩ := List.mem_map.1 (hperm.mem_iff.1 hs)
    obtain ⟨hbar, hbrace⟩ := ht.written.plain _ (List.mem_map_of_mem hsegment)
    obtain ⟨hopen, hclose⟩ := Pending.hasBrace_eq_false.1 hbrace
    have htrim {c : Char} (hc : c ∉ segment.text) : c ∉ Text.trim segment.text :=
      fun hmem => hc (Text.subset_trim _ hmem)
    exact ⟨hpad.not_mem (htrim hbar) (by decide), Pending.hasBrace_eq_false.2
      ⟨hpad.not_mem (htrim hopen) (by decide), hpad.not_mem (htrim hclose) (by decide)⟩⟩
  · refine ht.written.parallel.imp (fun hmany => hlength ▸ hmany) fun ⟨hne, hhead⟩ => ⟨?_, hhead⟩
    rw [ne_eq, ← List.length_eq_zero_iff, hlength, List.length_eq_zero_iff]
    exact hne

theorem OfGates.gates_padded (h : OfGates t) {parts us : List Text}
    (hperm : parts.Perm (trimmedParts t)) (hpads : List.Forall₂ Text.Pads parts us) :
    ∀ part ∈ us, Text.isBlank part = false → Text.isGateStatement part = true := by
  intro part hpart hblank
  obtain ⟨s, hs, hpad⟩ := Text.Pads.exists_of_mem hpads hpart
  obtain ⟨segment, hsegment, rfl⟩ := List.mem_map.1 (hperm.mem_iff.1 hs)
  rw [hpad.isBlank, Text.isBlank_trim] at hblank
  rw [Text.isGateStatement_congr ((Text.firstWord_padded hpad).trans (Text.firstWord_trim _))]
  exact h.gates segment hsegment hblank

theorem forall₂_modifyHead {α β : Type} {R : α → β → Prop} {as : List α} {bs : List β} {f : β → β}
    (h : List.Forall₂ R as bs) (hf : ∀ a ∈ as, ∀ b, R a b → R a (f b)) :
    List.Forall₂ R as (bs.modifyHead f) := by
  cases h with
  | nil => exact .nil
  | cons hab hrest => exact .cons (hf _ List.mem_cons_self _ hab) hrest

/-- **The statements of both lines**: those of the second one hold those of the first one, trimmed
and in another order. -/
theorem Permutes.exists_applies (h : Permutes t u) (ht : OfGates t) (number offset : Nat) :
    ∃ old new, Applies ⟨number, offset, dropReturn t⟩ old ∧
      Applies ⟨number, offset, dropReturn u⟩ new ∧ Reorders old new ∧
      (InGaps t → ∀ s ∈ old, (Text.trim s).Pads s) := by
  obtain ⟨parts, us, hperm, hpads, hwritten⟩ := h.exists_written ht
  have hgates := ht.gates_texts
  have hold := ht.written.applies (l := ⟨number, offset, dropReturn t⟩) hgates
  rw [← ht.written.map_text_segments (p := pending t)] at hold
  refine ⟨_, _, hold, hwritten.applies (l := ⟨number, offset, dropReturn u⟩)
    (ht.gates_padded hperm hpads), ⟨parts.filter (! Text.isBlank ·), ?_, ?_⟩, ?_⟩
  · have hfilter : ((pending t).segments.map Stretch.text |>.map Text.trim).filter
        (! Text.isBlank ·) =
          (((pending t).segments.map Stretch.text).filter (! Text.isBlank ·)).map Text.trim := by
      rw [List.filter_map]
      refine congrArg (List.map Text.trim) (List.filter_congr fun s _ => ?_)
      exact congrArg (! ·) (Text.isBlank_trim s)
    rw [← hfilter, List.map_map]
    exact hperm.filter _
  · refine List.rel_filter (fun s part hpad => ?_)
      (forall₂_modifyHead hpads fun s hs part hpad => ?_)
    · show (! Text.isBlank s) = true ↔ (! Text.isBlank part) = true
      rw [hpad.isBlank]
    · obtain ⟨segment, -, rfl⟩ := List.mem_map.1 (hperm.mem_iff.1 hs)
      unfold Pending.cutFirst
      split
      · exact hpad
      · exact hpad.trimStart (Text.trimStart_trim _)
  · intro hgaps s hs
    obtain ⟨hs, hblank⟩ := List.mem_filter.1 hs
    obtain ⟨segment, hsegment, rfl⟩ := List.mem_map.1 hs
    exact hgaps segment hsegment (by simpa using hblank)

/-! ### What the lines do -/

theorem Permutes.isIndented (h : Permutes t u) (number offset : Nat) :
    Line.isIndented ⟨number, offset, dropReturn u⟩ =
      Line.isIndented ⟨number, offset, dropReturn t⟩ := by
  rw [isIndented_eq, isIndented_eq, h.indentation]

variable {d f : Draft} {number offset : Nat}

/-- The line in another order succeeds if the first one does. -/
theorem Permutes.executeLine_ok (h : Permutes t u) (ht : OfGates t)
    (hf : d.executeLine ⟨number, offset, dropReturn t⟩ = .ok f) :
    d.executeLine ⟨number, offset, dropReturn u⟩ = .ok f := by
  obtain ⟨old, new, hold, hnew, hreorders, -⟩ := h.exists_applies ht number offset
  exact hold.executeLine_of_perm hnew (h.isIndented number offset) hreorders.length_eq
    (fun _ => hreorders.exists_mapM hold.not_mem_comment) hf

/-- The first line succeeds if the one in another order does, unless there are other blanks than
gaps around its parts. -/
theorem Permutes.ok_of_executeLine (h : Permutes t u) (ht : OfGates t) (hgaps : InGaps t)
    (hf : d.executeLine ⟨number, offset, dropReturn u⟩ = .ok f) :
    d.executeLine ⟨number, offset, dropReturn t⟩ = .ok f := by
  obtain ⟨old, new, hold, hnew, hreorders, hin⟩ := h.exists_applies ht number offset
  exact hnew.executeLine_of_perm hold (h.isIndented number offset).symm hreorders.length_eq.symm
    (fun _ => hreorders.exists_mapM_old hold.not_mem_comment (hin hgaps)) hf

theorem Permutes.declaresAlike (h : Permutes t u) (ht : OfGates t) (number offset : Nat) :
    DeclaresAlike (fun _ _ => True) ⟨number, offset, dropReturn t⟩
      ⟨number, offset, dropReturn u⟩ := by
  obtain ⟨parts, us, hperm, hpads, hnew⟩ := h.exists_written ht
  have hold := ht.written
  by_cases hne : (pending t).opening = []
  · rw [hne] at hold hnew
    have hold := hold.isDeclared_eq_false fun part hpart =>
      Text.ne_qubits_of_isGateStatement (ht.gates_texts part hpart)
    have hnew := hnew.isDeclared_eq_false fun part hpart =>
      Text.ne_qubits_of_isGateStatement (ht.gates_padded hperm hpads part hpart)
    exact ⟨hnew.trans hold.symm, fun h => absurd (hold.symm.trans h) Bool.false_ne_true, trivial⟩
  · have hsame := hold.isDeclared_eq hnew hne
    refine ⟨hsame, fun h => ?_, trivial⟩
    exact (Declaration.qubits?_eq_none (hnew.brace_mem hne) (hsame.trans h)).trans
      (Declaration.qubits?_eq_none (hold.brace_mem hne) h).symm

theorem DeclaresAlike.symm {l l' : Line} (h : l.DeclaresAlike (fun _ _ => True) l') :
    l'.DeclaresAlike (fun _ _ => True) l :=
  ⟨h.declared.symm, fun hdeclared => (h.qubits (h.declared ▸ hdeclared)).symm, trivial⟩

/-- Lines with the same text do the same, whatever their places. -/
theorem alike_placed (number offset offset' : Nat) (ts : List Text) :
    List.Forall₂ (Alike fun _ _ => True) (placed number offset ts) (placed number offset' ts) :=
  (pending_placed (fun _ _ => trivial) number offset offset' ts).imp fun _ _ h => .of_pending h

theorem alike_refl (number offset offset' : Nat) (t : Text) :
    Alike (fun _ _ => True) ⟨number, offset, t⟩ ⟨number, offset', t⟩ :=
  .of_pending ⟨rfl, rfl, fun _ _ => trivial⟩

/-- One line follows the other if it succeeds with the same draft. -/
theorem follows_of_executeLine {number offset : Nat} {t u : Text}
    (hdeclares : DeclaresAlike (fun _ _ => True) ⟨number, offset, dropReturn t⟩
      ⟨number, offset, dropReturn u⟩)
    (h : ∀ d f : Draft, d.executeLine ⟨number, offset, dropReturn t⟩ = .ok f →
      d.executeLine ⟨number, offset, dropReturn u⟩ = .ok f) :
    Follows ⟨number, offset, dropReturn t⟩ ⟨number, offset, dropReturn u⟩ where
  toDeclaresAlike := hdeclares
  executed hde hf :=
    (alike_refl number offset offset (dropReturn u)).follows.executed hde (h _ _ hf)

/-- Programs follow each other if the only line does in which they differ. -/
theorem follows_placed (before behind : List Text) (h : ∀ number offset,
    Follows ⟨number, offset, dropReturn t⟩ ⟨number, offset, dropReturn u⟩) :
    List.Forall₂ Follows (placed 1 0 (before ++ t :: behind))
      (placed 1 0 (before ++ u :: behind)) := by
  obtain ⟨offset, hplaced⟩ := placed_append 1 0 before
  have hsame (number offset offset' : Nat) (ts : List Text) :
      List.Forall₂ Follows (placed number offset ts) (placed number offset' ts) :=
    (alike_placed number offset offset' ts).imp fun _ _ h => h.follows
  rw [hplaced, hplaced]
  exact List.rel_append (hsame 1 0 0 before) (.cons (h _ _) (hsame _ _ _ behind))

end Line

namespace Circuit

variable {source t u : Text} {before behind : List Text} {m : Circuit}

/-- **The order of the gate statements in a parallel line does not matter**: with the trimmed parts
of the line in another order, a program describes the circuit that it described before, and if only
gaps were around the parts, it describes none if it described none before. -/
theorem ofProgram_permuted (hsource : source.splitOn '\n' = before ++ t :: behind)
    (hfeed : '\n' ∉ u) (ht : Line.OfGates t) (hu : Line.Permutes t u) (m : Circuit) :
    (ofProgram source = .ok m → ofProgram (Text.joinWith "\n" (before ++ u :: behind)) = .ok m) ∧
      (Line.InGaps t → ofProgram (Text.joinWith "\n" (before ++ u :: behind)) = .ok m →
        ofProgram source = .ok m) := by
  have hold : before ++ behind ⊆ source.splitOn '\n' := by
    rw [hsource]
    exact ((List.sublist_cons_self t behind).append_left before).subset
  have hlines : Line.ofSource source = Line.placed 1 0 (before ++ t :: behind) := by
    rw [Line.ofSource_eq_placed, hsource]
  have hlines' : Line.ofSource (Text.joinWith "\n" (before ++ u :: behind)) =
      Line.placed 1 0 (before ++ u :: behind) := by
    rw [Line.ofSource_eq_placed, Line.splitOn_joinWith hold hfeed]
  have hdeclares := hu.declaresAlike ht
  refine ⟨ofProgram_of_follows ?_, fun hgaps => ofProgram_of_follows ?_⟩
  · rw [hlines, hlines']
    exact Line.follows_placed before behind fun number offset =>
      Line.follows_of_executeLine (hdeclares number offset) fun _ _ => hu.executeLine_ok ht
  · rw [hlines, hlines']
    exact Line.follows_placed before behind fun number offset =>
      Line.follows_of_executeLine (hdeclares number offset).symm
        fun _ _ => hu.ok_of_executeLine ht hgaps

/-- Two gates change places in an indented block, in which there is also a blank part. -/
theorem ofProgram_permuted_block : ∃ m,
    let source := "qubits 3\n \x7b h q0 | |cnot q1, q2 \x7d  # two\nmeasure q0".toList
    let t := " \x7b h q0 | |cnot q1, q2 \x7d  # two".toList
    let u := " \x7b cnot q1, q2| h q0 | \x7d  # swapped".toList
    source.splitOn '\n' = ["qubits 3".toList] ++ t :: ["measure q0".toList] ∧ '\n' ∉ u ∧
    Line.OfGates t ∧ Line.Permutes t u ∧ Line.InGaps t ∧ ofProgram source = .ok m ∧
    ofProgram (Text.joinWith "\n" (["qubits 3".toList] ++ u :: ["measure q0".toList])) = .ok m := by
  let source := "qubits 3\n \x7b h q0 | |cnot q1, q2 \x7d  # two\nmeasure q0".toList
  let t := " \x7b h q0 | |cnot q1, q2 \x7d  # two".toList
  let u := " \x7b cnot q1, q2| h q0 | \x7d  # swapped".toList
  have hsource : source.splitOn '\n' = ["qubits 3".toList] ++ t :: ["measure q0".toList] := by
    decide
  have hfeed : '\n' ∉ u := by decide
  have hgates : Line.OfGates t := ⟨by decide, ⟨_, rfl⟩, by decide⟩
  have hspace : ∀ c ∈ " ".toList, Lexeme.isGap c = true := by simp [Lexeme.isGap]
  have hpads : List.Forall₂ Text.Pads ["cnot q1, q2".toList, "h q0".toList, []]
      ["cnot q1, q2".toList, " h q0 ".toList, " ".toList] :=
    .cons (.refl _) (.cons ((Text.Pads.refl _).append_right hspace |>.append_left hspace)
      (.cons ((Text.Pads.refl _).append_left hspace) .nil))
  have hpermutes : Line.Permutes t u := ⟨by decide, _, _, by decide, hpads, by decide⟩
  have hgaps : Line.InGaps t := fun s hs hblank => by
    have hstrip : ∀ s ∈ (Line.pending t).segments, Text.strip s.text = Text.trim s.text := by decide
    rw [← hstrip s hs]
    exact Text.pads_strip s.text
  have hread : (ofProgram source).toOption.isSome = true := by decide +kernel
  obtain ⟨m, hm⟩ := Option.isSome_iff_exists.1 hread
  have hm := toOption_eq_some.1 hm
  obtain ⟨hnew, hback⟩ := ofProgram_permuted hsource hfeed hgates hpermutes m
  have hm' := hnew hm
  exact ⟨m, hsource, hfeed, hgates, hpermutes, hgaps, hback hgaps hm', hm'⟩

/-- With another blank than a gap in front of a part, the program describes a circuit only in the
other order: nothing can be read behind that blank, and trimming takes it off. -/
theorem ofProgram_permuted_blank : ∃ m,
    let source := "qubits 2\n\x7bh q0|\u00a0x q1\x7d".toList
    let t := "\x7bh q0|\u00a0x q1\x7d".toList
    let u := "\x7bx q1|h q0\x7d".toList
    source.splitOn '\n' = ["qubits 2".toList] ++ t :: [] ∧ '\n' ∉ u ∧
    Line.OfGates t ∧ Line.Permutes t u ∧
    ofProgram (Text.joinWith "\n" (["qubits 2".toList] ++ u :: [])) = .ok m ∧
    ∀ m', ofProgram source ≠ .ok m' := by
  let source := "qubits 2\n\x7bh q0|\u00a0x q1\x7d".toList
  let t := "\x7bh q0|\u00a0x q1\x7d".toList
  let u := "\x7bx q1|h q0\x7d".toList
  have hpads : List.Forall₂ Text.Pads ["x q1".toList, "h q0".toList]
      ["x q1".toList, "h q0".toList] := .cons (.refl _) (.cons (.refl _) .nil)
  have hread : (ofProgram (Text.joinWith "\n" (["qubits 2".toList] ++ u :: []))).toOption.isSome =
      true := by decide +kernel
  have hrefused : (ofProgram source).toOption.isSome = false := by decide +kernel
  obtain ⟨m, hm⟩ := Option.isSome_iff_exists.1 hread
  refine ⟨m, by decide, by decide, ⟨by decide, ⟨_, rfl⟩, by decide⟩,
    ⟨by decide, _, _, by decide, hpads, by decide⟩, toOption_eq_some.1 hm, fun m' hm' => ?_⟩
  rw [toOption_eq_some.2 hm'] at hrefused
  cases hrefused

end Circuit

end QuantumDiagram

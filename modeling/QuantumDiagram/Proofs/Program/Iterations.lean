import QuantumDiagram.Proofs.Program.Blame
import QuantumDiagram.Proofs.Program.Directives

/-!
# The iterations of a run

`Iteration source n s work` says with what state and with what pending statements the run of a
program begins its iteration `n`, from zero. The parts of a parallel line that are still to come are
the ones that the state counts: they stand in front, in the order of the program, and nothing else
has been executed since the line was replaced by its parts (`Orderly`). Every iteration uses up a
line, a bar or the extra step that a parallel line takes, so a program has at most as many of them
as of these (`iterations`). Main statement: `iterations_orderly`.
-/

namespace QuantumDiagram

/-! ## The order of the parts -/

namespace Stretch

/-- The stretch ends before the other one begins, with something in between. -/
def Before (s t : Stretch) : Prop := s.offset + Text.byteLength s.text < t.offset

theorem Before.within {s s' t t' : Stretch} (h : s.Before t) (hs : s'.Within s)
    (ht : t'.Within t) : s'.Before t' := by
  obtain ⟨before, after, htext, hoffset⟩ := hs
  obtain ⟨before', -, -, hoffset'⟩ := ht
  have hlength := congrArg Text.byteLength htext
  rw [Text.byteLength_append, Text.byteLength_append] at hlength
  unfold Before at h ⊢
  omega

theorem pairwise_before_placeFrom {gap : Nat} (hgap : 0 < gap) (offset : Nat) (ts : List Text) :
    (placeFrom gap offset ts).Pairwise Before ∧
      ∀ s ∈ placeFrom gap offset ts, offset ≤ s.offset := by
  induction ts generalizing offset with
  | nil => exact ⟨.nil, by simp [placeFrom]⟩
  | cons t ts ih =>
    obtain ⟨hpairwise, hle⟩ := ih (offset + Text.byteLength t + gap)
    refine ⟨List.pairwise_cons.2 ⟨fun s hs => ?_, hpairwise⟩,
      List.forall_mem_cons.2 ⟨Nat.le_refl _, fun s hs => ?_⟩⟩
    · have := hle s hs
      show offset + Text.byteLength t < s.offset
      omega
    · have := hle s hs
      omega

theorem pairwise_before_split (separator : Char) (s : Stretch) :
    (s.split separator).Pairwise Before :=
  (pairwise_before_placeFrom separator.utf8Size_pos _ _).1

theorem exists_within {parts wholes : List Stretch} (h : List.Forall₂ Within parts wholes)
    {s : Stretch} (hs : s ∈ parts) : ∃ t ∈ wholes, s.Within t := by
  induction h with
  | nil => cases hs
  | cons hst _ ih =>
    obtain rfl | hs := List.mem_cons.1 hs
    · exact ⟨_, List.mem_cons_self, hst⟩
    · obtain ⟨t, ht, hwithin⟩ := ih hs
      exact ⟨t, List.mem_cons_of_mem _ ht, hwithin⟩

/-- Stretches one behind the other stay so when they are made shorter. -/
theorem pairwise_before_of_within {parts wholes : List Stretch}
    (h : List.Forall₂ Within parts wholes) (hbefore : wholes.Pairwise Before) :
    parts.Pairwise Before := by
  induction h with
  | nil => exact .nil
  | cons hst hrest ih =>
    obtain ⟨hhead, htail⟩ := List.pairwise_cons.1 hbefore
    refine List.pairwise_cons.2 ⟨fun s hs => ?_, ih htail⟩
    obtain ⟨t, ht, hwithin⟩ := exists_within hrest hs
    exact (hhead t ht).within hst hwithin

end Stretch

namespace Pending

variable {p q : Pending} {ps : List Pending}

theorem forall₂_mapLast {α β : Type} {R : α → β → Prop} {f : α → α}
    (hf : ∀ x y, R x y → R (f x) y) {xs : List α} {ys : List β} (h : List.Forall₂ R xs ys) :
    List.Forall₂ R (mapLast f xs) ys := by
  induction h with
  | nil => exact .nil
  | @cons x y xs ys hxy hrest ih =>
    cases xs with
    | nil => exact .cons (hf x y hxy) hrest
    | cons x' xs => exact .cons hxy ih

theorem forall₂_within_segments (p : Pending) :
    List.Forall₂ Stretch.Within p.segments (p.stretch.split '|') := by
  refine forall₂_mapLast (fun s t h => (s.within_takeWhile _).trans h) ?_
  cases p.stretch.split '|' with
  | nil => exact .nil
  | cons s rest =>
    exact .cons (within_afterOpening s) (List.forall₂_same.2 fun t _ => Stretch.Within.refl t)

/-- The parts of a line stand one behind the other. -/
theorem pairwise_before_parts (h : p.parts = .ok ps) :
    ps.Pairwise fun q r => q.stretch.Before r.stretch := by
  have hsegments := Stretch.pairwise_before_of_within p.forall₂_within_segments
    (Stretch.pairwise_before_split '|' p.stretch)
  unfold parts at h
  split at h
  · cases h
  · cases h
    exact List.pairwise_map.2 (hsegments.filter _)

/-- A part has neither a bar nor a brace. -/
theorem unmarked_of_mem_parts (h : p.parts = .ok ps) (hq : q ∈ ps) :
    '|' ∉ q.text ∧ '\x7b' ∉ q.text ∧ '\x7d' ∉ q.text := by
  unfold parts at h
  split at h
  · cases h
  · rename_i hfind
    cases h
    obtain ⟨s, hs, rfl⟩ := List.mem_map.1 hq
    have hs := (List.mem_filter.1 hs).1
    have hbrace : hasBrace s.text = false := by simpa using List.find?_eq_none.1 hfind s hs
    exact ⟨bar_not_mem_segments hs, hasBrace_eq_false.1 hbrace⟩

end Pending

/-! ## How many iterations there are -/

namespace Pending

theorem weight_pos (p : Pending) : 1 ≤ p.weight := by
  unfold weight
  split <;> omega

theorem length_le_totalWeight (ps : List Pending) : ps.length ≤ totalWeight ps := by
  induction ps with
  | nil => exact Nat.le_refl _
  | cons p ps ih =>
    have hpos := p.weight_pos
    rw [totalWeight_cons, List.length_cons]
    omega

/-- A line takes one step, and a parallel one takes one more and one for each of its bars. -/
theorem totalWeight_ofLine_le (ls : List Line) :
    totalWeight (ls.map ofLine) ≤ ls.length + (ls.flatMap Line.text).count '|' +
      ls.countP fun l => (ofLine l).isParallel := by
  induction ls with
  | nil => exact Nat.le_refl _
  | cons l ls ih =>
    have hbars : (ofLine l).text.count '|' ≤ l.text.count '|' :=
      (List.takeWhile_sublist _).count_le '|'
    have hweight : (ofLine l).weight ≤
        1 + l.text.count '|' + if (ofLine l).isParallel then 1 else 0 := by
      unfold weight
      split <;> omega
    rw [List.map_cons, totalWeight_cons, List.length_cons, List.flatMap_cons, List.count_append,
      List.countP_cons]
    omega

end Pending

namespace Line

theorem sublist_dropReturn (t : Text) : List.Sublist (dropReturn t) t := by
  unfold dropReturn
  split
  · exact List.dropLast_sublist t
  · exact List.Sublist.refl t

theorem sublist_flatMap_dropReturn (ts : List Text) :
    List.Sublist (ts.flatMap dropReturn) (['\n'].intercalate ts) := by
  induction ts with
  | nil => exact List.Sublist.slnil
  | cons t ts ih =>
    have hhead := sublist_dropReturn t
    rw [List.flatMap_cons]
    cases ts with
    | nil => simpa using hhead
    | cons u ts =>
      rw [List.intercalate_cons_cons]
      exact (hhead.trans (List.sublist_append_left t ['\n'])).append ih

/-- What the lines of a program hold stands in the program in the same order. -/
theorem sublist_flatMap_text (source : Text) :
    List.Sublist ((ofSource source).flatMap text) source := by
  have htexts : (ofSource source).flatMap text = (source.splitOn '\n').flatMap dropReturn := by
    rw [ofSource_eq_placed, List.flatMap_def, map_text_placed, ← List.flatMap_def]
  have hsource := sublist_flatMap_dropReturn (source.splitOn '\n')
  rwa [List.intercalate_splitOn, ← htexts] at hsource

end Line

/-- A bound on the iterations of the run of a program: its lines, its bars and its parallel
lines. -/
def iterations (source : Text) : Nat :=
  (Line.ofSource source).length + source.count '|' +
    (Line.ofSource source).countP fun l => (Pending.ofLine l).isParallel

/-! ## The iterations -/

/-- The run of a program begins its iteration `n`, from zero, in the state `s` and with the
statements `work` to do. -/
inductive Iteration (source : Text) : Nat → State → List Pending → Prop
  | first {qubits : Nat} {lines : List Line}
      (found : Declaration.find (Text.byteLength source) (Line.ofSource source) =
        .ok (qubits, lines)) :
      Iteration source 0 (.initial qubits) (lines.map Pending.ofLine)
  | next {n : Nat} {s t : State} {p : Pending} {parts rest : List Pending}
      (before : Iteration source n s (p :: rest)) (step : s.process p = .ok (t, parts)) :
      Iteration source (n + 1) t (parts ++ rest)

/-- The run of a program ends before the statements `work`: nothing is left to do, or the first
statement fails. -/
def EndsAt (source : Text) (s : State) (work : List Pending) : Prop :=
  (work = [] ∧ Circuit.ofProgram source = s.draft.finish) ∨
    ∃ p rest e, work = p :: rest ∧ s.process p = .error e ∧ Circuit.ofProgram source = .error e

/-- The statements that the state counts are the last parts of a parallel line. Iteration `k`
replaced the line by its parts, and since then the run has executed the parts `done`, one in each
iteration. -/
def InBlock (source : Text) (n : Nat) (s : State) (work : List Pending) : Prop :=
  ∃ l ∈ Line.ofSource source, (Pending.ofLine l).isParallel = true ∧
    ∃ k t done, Iteration source k t (Pending.ofLine l :: work.drop s.hold) ∧
      (Pending.ofLine l).parts = .ok (done ++ work.take s.hold) ∧ n = k + 1 + done.length ∧
      ∀ i ≤ done.length, ∃ u, Iteration source (k + 1 + i) u (done.drop i ++ work)

/-- What holds when an iteration begins. -/
structure Orderly (source : Text) (n : Nat) (s : State) (work : List Pending) : Prop where
  /-- There is only one iteration with this number. -/
  unique : ∀ t left, Iteration source n t left → t = s ∧ left = work
  enough : s.hold ≤ work.length
  parts : 0 < s.hold → InBlock source n s work
  ordered : (work.take s.hold).Pairwise fun p q => p.stretch.Before q.stretch
  plain : ∀ p ∈ work.take s.hold,
    Text.isBlank p.text = false ∧ '|' ∉ p.text ∧ '\x7b' ∉ p.text ∧ '\x7d' ∉ p.text
  slices : ∀ p ∈ work, p.stretch.Within ⟨0, source⟩
  /-- Only a whole line is replaced by parts, and only if no part is still to come. -/
  expanded : ∀ p rest, work = p :: rest → p.isParallel = true →
    s.hold = 0 ∧ ∃ l ∈ Line.ofSource source, p = Pending.ofLine l
  few : n + work.length ≤ iterations source
  finished : work = [] → s.hold = 0

namespace Iteration

variable {source : Text} {n : Nat} {s : State} {work : List Pending}

theorem reaches (h : Iteration source n s work) : Reaches source s work := by
  induction h with
  | first found => exact ⟨_, _, found, .refl⟩
  | next _ step ih => exact ih.steps (.step step .refl)

theorem unique {t : State} {left : List Pending} (h : Iteration source n s work)
    (h' : Iteration source n t left) : s = t ∧ work = left := by
  induction h generalizing t left with
  | first found =>
    cases h' with
    | first found' =>
      cases found.symm.trans found'
      exact ⟨rfl, rfl⟩
  | next _ step ih =>
    cases h' with
    | next before' step' =>
      obtain ⟨rfl, heq⟩ := ih before'
      cases heq
      cases step.symm.trans step'
      exact ⟨rfl, rfl⟩

/-- From an iteration on, every step of the run is an iteration. -/
theorem of_steps {t : State} {rest : List Pending} (h : Iteration source n s work)
    (hsteps : State.Steps s work t rest) : ∃ m, Iteration source m t rest := by
  induction hsteps generalizing n with
  | refl => exact ⟨n, h⟩
  | step head _ ih => exact ih (h.next head)

theorem sourced (h : Iteration source n s work) : s.Sourced source work := by
  induction h with
  | first found =>
    exact State.sourced_initial fun _ hl => (Declaration.find_suffix found).subset hl
  | next _ step ih => exact ih.process step

/-- Each iteration makes the pending statements lighter. -/
theorem add_totalWeight_le (h : Iteration source n s work) :
    n + Pending.totalWeight work ≤
      Pending.totalWeight ((Line.ofSource source).map Pending.ofLine) := by
  induction h with
  | first found =>
    obtain ⟨before, hlines⟩ := Declaration.find_suffix found
    rw [← hlines, List.map_append, Pending.totalWeight_append]
    omega
  | next _ step ih =>
    have hlt := State.weight_process_lt step
    rw [Pending.totalWeight_cons] at ih
    rw [Pending.totalWeight_append]
    omega

theorem add_length_le (h : Iteration source n s work) : n + work.length ≤ iterations source := by
  have hweight := h.add_totalWeight_le
  have hlength := Pending.length_le_totalWeight work
  have hlines := Pending.totalWeight_ofLine_le (Line.ofSource source)
  have hbars := (Line.sublist_flatMap_text source).count_le '|'
  unfold iterations
  omega

theorem le_iterations (h : Iteration source n s work) : n ≤ iterations source :=
  (Nat.le_add_right _ _).trans h.add_length_le

theorem eq_ofLine (h : Iteration source n s work) (hhold : s.hold = 0) {p : Pending}
    {rest : List Pending} (hwork : work = p :: rest) :
    ∃ l ∈ Line.ofSource source, p = Pending.ofLine l := by
  obtain ⟨left, hleft, hlines⟩ := h.reaches.lines hhold
  rw [hwork] at hlines
  obtain ⟨l, hl, hp⟩ := List.mem_map.1 (hlines ▸ List.mem_cons_self)
  exact ⟨l, hleft.subset hl, hp.symm⟩

theorem expanded (h : Iteration source n s work) {p : Pending} {rest : List Pending}
    (hwork : work = p :: rest) (hp : p.isParallel = true) :
    s.hold = 0 ∧ ∃ l ∈ Line.ofSource source, p = Pending.ofLine l := by
  have hhold : s.hold = 0 := Nat.eq_zero_of_not_pos fun hpos => by
    have hmem : p ∈ work.take s.hold := hwork ▸ State.mem_take_of_pos hpos rest
    rw [(h.reaches.queued.plain p hmem).2] at hp
    cases hp
  exact ⟨hhold, h.eq_ofLine hhold hwork⟩

theorem inBlock (h : Iteration source n s work) (hpos : 0 < s.hold) :
    InBlock source n s work := by
  induction h with
  | first => cases hpos
  | @next n s t p parts rest before step ih =>
    obtain ⟨hblank, rfl, rfl⟩ | ⟨hpar, hparts, rfl⟩ | ⟨-, -, rfl, d, placed, -, rfl⟩ :=
      State.process_ok step
    · -- A blank statement is no part, so none is counted.
      rw [(before.reaches.queued.plain p (State.mem_take_of_pos hpos rest)).1] at hblank
      cases hblank
    · obtain ⟨-, l, hl, rfl⟩ := before.expanded rfl hpar
      refine ⟨l, hl, hpar, n, s, [], ?_, ?_, rfl, fun i hi => ?_⟩
      · rwa [show (parts ++ rest).drop parts.length = rest from List.drop_left]
      · rwa [show (parts ++ rest).take parts.length = parts from List.take_left]
      · obtain rfl : i = 0 := Nat.le_zero.1 hi
        exact ⟨_, before.next step⟩
    · have hcount : (State.complete { s with draft := d } placed).hold = s.hold - 1 :=
        State.hold_complete _ placed
      rw [InBlock, hcount]
      rw [hcount] at hpos
      obtain ⟨m, hm⟩ : ∃ m, s.hold = m + 1 := ⟨s.hold - 1, by omega⟩
      obtain ⟨l, hl, hpar, k, u, done, hline, hparts, hn, hdone⟩ := ih (by omega)
      rw [hm, List.drop_succ_cons] at hline
      rw [hm, List.take_succ_cons] at hparts
      rw [hm, Nat.add_sub_cancel, List.nil_append]
      refine ⟨l, hl, hpar, k, u, done ++ [p], hline, ?_, ?_, fun i hi => ?_⟩
      · rwa [List.append_assoc]
      · rw [hn, List.length_append, List.length_singleton, Nat.add_assoc]
      · -- The run went on with the part `p`, so the last of these iterations is the next one.
        obtain hi | rfl : i ≤ done.length ∨ i = done.length + 1 := by
          rw [List.length_append, List.length_singleton] at hi
          omega
        · obtain ⟨v, hv⟩ := hdone i hi
          refine ⟨v, ?_⟩
          rwa [List.drop_append_of_le_length hi, List.append_assoc]
        · have hall : (done ++ [p]).drop (done.length + 1) = [] :=
            List.drop_eq_nil_of_le (by rw [List.length_append, List.length_singleton])
          rw [hall, show k + 1 + (done.length + 1) = n + 1 by omega]
          exact ⟨_, before.next step⟩

/-- A part that is still to come is one of the parts of a line. -/
theorem exists_parts (h : Iteration source n s work) (hpos : 0 < s.hold) :
    ∃ q done, Pending.parts q = .ok (done ++ work.take s.hold) := by
  obtain ⟨q, done, -, hparts⟩ := h.reaches.queued.parts hpos
  exact ⟨q, done, hparts⟩

theorem orderly (h : Iteration source n s work) : Orderly source n s work where
  unique _ _ h' := h'.unique h
  enough := h.reaches.queued.enough
  parts := h.inBlock
  ordered := by
    obtain hzero | hpos := Nat.eq_zero_or_pos s.hold
    · rw [hzero, List.take_zero]
      exact .nil
    · obtain ⟨q, done, hparts⟩ := h.exists_parts hpos
      exact (List.pairwise_append.1 (Pending.pairwise_before_parts hparts)).2.1
  plain p hp := by
    obtain hzero | hpos := Nat.eq_zero_or_pos s.hold
    · rw [hzero, List.take_zero] at hp
      cases hp
    · obtain ⟨q, done, hparts⟩ := h.exists_parts hpos
      exact ⟨(h.reaches.queued.plain p hp).1,
        Pending.unmarked_of_mem_parts hparts (List.mem_append_right _ hp)⟩
  slices p hp :=
    have hstands := h.sourced.pending p hp
    hstands.within_line.trans (Line.within_source hstands.line)
  expanded _ _ hwork hp := h.expanded hwork hp
  few := h.add_length_le
  finished hwork := by
    subst hwork
    exact h.reaches.hold_eq_zero

end Iteration

/-- A program that declares its qubits has a last iteration, or it ends when an iteration fails. -/
theorem exists_endsAt {source : Text} {qubits : Nat} {lines : List Line}
    (hfind : Declaration.find (Text.byteLength source) (Line.ofSource source) =
      .ok (qubits, lines)) :
    ∃ n ≤ iterations source, ∃ s work, Iteration source n s work ∧ EndsAt source s work := by
  have hprogram := Circuit.ofProgram_of_find hfind
  cases hrun : (State.initial qubits).run (lines.map Pending.ofLine) with
  | ok s =>
    obtain ⟨n, hn⟩ := (Iteration.first hfind).of_steps (State.steps_of_run hrun)
    rw [hrun] at hprogram
    exact ⟨n, hn.le_iterations, s, [], hn, .inl ⟨rfl, hprogram⟩⟩
  | error e =>
    obtain ⟨s, p, rest, hsteps, hp⟩ := State.exists_steps_of_run_error hrun
    obtain ⟨n, hn⟩ := (Iteration.first hfind).of_steps hsteps
    rw [hrun] at hprogram
    exact ⟨n, hn.le_iterations, s, p :: rest, hn, .inr ⟨p, rest, e, rfl, hp, hprogram⟩⟩

/-- **The run of a program is orderly at the beginning of every iteration, and it ends**: what the
state counts are the parts that are still to come of one parallel line, in front of whole lines, and
there are at most as many iterations as lines, bars and parallel lines together. -/
theorem iterations_orderly (source : Text) :
    (∀ n s work, Iteration source n s work → Orderly source n s work) ∧
    ∀ qubits lines,
      Declaration.find (Text.byteLength source) (Line.ofSource source) = .ok (qubits, lines) →
        ∃ n ≤ iterations source, ∃ s work, Iteration source n s work ∧ EndsAt source s work :=
  ⟨fun _ _ _ h => h.orderly, fun _ _ hfind => exists_endsAt hfind⟩

/-- In the middle of a block: of its three parts two are still to come, in front of the last line.
-/
theorem iterations_orderly_block :
    let source := "qubits 3\n\x7b x q0 | h q1 | y q2 \x7d\nz q0".toList
    iterations source = 6 ∧
      (∃ s work, Iteration source 2 s work ∧ s.hold = 2 ∧ work.length = 3 ∧
        Orderly source 2 s work) ∧
      ∃ n ≤ 6, ∃ s work, Iteration source n s work ∧ EndsAt source s work := by
  intro source
  have hfind : Declaration.find (Text.byteLength source) (Line.ofSource source) =
      .ok (3, (Line.ofSource source).drop 1) := toOption_eq_some.1 (by decide +kernel)
  have hsteps : ((((Line.ofSource source).drop 1).map Pending.ofLine).head?.bind fun p =>
      ((State.initial 3).process p).toOption.bind fun r => r.2.head?.bind fun q =>
        (r.1.process q).toOption.map fun r' => (r'.1.hold, r'.2.length, r.2.length)) =
          some (2, 0, 3) := by
    decide +kernel
  obtain ⟨p, hp, hsteps⟩ := Option.bind_eq_some_iff.1 hsteps
  obtain ⟨⟨t, parts⟩, ht, hsteps⟩ := Option.bind_eq_some_iff.1 hsteps
  obtain ⟨q, hq, hsteps⟩ := Option.bind_eq_some_iff.1 hsteps
  obtain ⟨⟨u, none⟩, hu, hcounts⟩ := Option.map_eq_some_iff.1 hsteps
  simp only [Prod.mk.injEq, List.length_eq_zero_iff] at hcounts
  obtain ⟨hhold, rfl, hparts⟩ := hcounts
  obtain ⟨rest, hwork⟩ := List.head?_eq_some_iff.1 hp
  obtain ⟨behind, rfl⟩ := List.head?_eq_some_iff.1 hq
  have hlength : (((Line.ofSource source).drop 1).map Pending.ofLine).length = 2 := by decide
  have hfirst := Iteration.first hfind
  rw [hwork] at hfirst hlength
  have hsecond := (hfirst.next (toOption_eq_some.1 ht)).next (toOption_eq_some.1 hu)
  obtain ⟨horderly, hends⟩ := iterations_orderly source
  have hbound : iterations source = 6 := by decide +kernel
  refine ⟨hbound, ⟨u, behind ++ rest, hsecond, hhold, ?_, horderly _ _ _ hsecond⟩,
    hbound ▸ hends _ _ hfind⟩
  rw [List.length_cons] at hlength hparts
  rw [List.length_append]
  omega

end QuantumDiagram

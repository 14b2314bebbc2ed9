import QuantumDiagram.Program.Error

/-!
# Pending statements

A pending statement is one that a program still has to execute: a line, or a part of a parallel
line. A parallel line, `{a | b}` or `a | b`, is never executed itself but replaced by its parts. The
main statement is that this makes progress: parts are not parallel (`isParallel_of_mem_parts`), so a
line outweighs its parts (`weight_parts_lt`).
-/

namespace QuantumDiagram

/-- A statement that waits to be executed. -/
structure Pending where
  /-- The statement without a comment. -/
  stretch : Stretch
  /-- The line it stands on. -/
  line : Line
  /-- Whether that line is indented. -/
  indented : Bool
deriving DecidableEq

namespace Pending

def ofLine (l : Line) : Pending := ⟨l.uncommented, l, l.isIndented⟩

def text (p : Pending) : Text := p.stretch.text

def span (p : Pending) : Span := p.stretch.span

/-- The span in the program of a span in the statement. -/
def locate (p : Pending) (s : Span) : Span := s.shift p.stretch.offset

/-- The error that blames the bytes of `span`, which lie on the statement's line. -/
def error (p : Pending) (fault : Fault) (span : Span) : ParseError :=
  ⟨fault, p.line.number, p.line.text, span⟩

/-- Whether the statement is a parallel line. -/
def isParallel (p : Pending) : Bool :=
  p.text.contains '|' || (Text.trimStart p.text).head? = some '\x7b'

/-! ## The parts of a parallel line -/

/-- A first part without the braces that open the block, and without what stands before them. -/
def afterOpening (s : Stretch) : Stretch :=
  if s.text.contains '\x7b' then
    (s.dropWhile (· ≠ '\x7b')).dropWhile fun c => c = '\x7b' || Text.isBlankChar c
  else s

/-- A last part without the brace that closes the block, and without what stands after it. -/
def beforeClosing (s : Stretch) : Stretch := s.takeWhile (· ≠ '\x7d')

/-- Changes the last member of a list. -/
def mapLast {α : Type} (f : α → α) : List α → List α
  | [] => []
  | [x] => [f x]
  | x :: rest => x :: mapLast f rest

/-- The stretches between the bars of a parallel line, with the outer braces taken off. -/
def segments (p : Pending) : List Stretch :=
  mapLast beforeClosing ((p.stretch.split '|').modifyHead afterOpening)

def hasBrace (t : Text) : Bool := t.contains '\x7b' || t.contains '\x7d'

/-- The statements that a parallel line consists of; blank ones do not count. A brace in one of them
would begin or end an inner block, which there is not. -/
def parts (p : Pending) : Except ParseError (List Pending) :=
  match p.segments.find? (hasBrace ·.text) with
  | some s => .error (p.error (.malformedStatement .nestedBlock) (Span.ofText s.offset s.text))
  | none =>
    .ok ((p.segments.filter (! Text.isBlank ·.text)).map fun s => ⟨s, p.line, p.indented⟩)

/-! ## Progress -/

/-- A bound on the number of steps that a statement takes. -/
def weight (p : Pending) : Nat := if p.isParallel then p.text.count '|' + 2 else 1

def totalWeight (ps : List Pending) : Nat := ps.foldr (fun p n => p.weight + n) 0

@[simp] theorem totalWeight_nil : totalWeight [] = 0 := rfl

@[simp] theorem totalWeight_cons (p : Pending) (ps : List Pending) :
    totalWeight (p :: ps) = p.weight + totalWeight ps := rfl

@[simp] theorem totalWeight_append (ps qs : List Pending) :
    totalWeight (ps ++ qs) = totalWeight ps + totalWeight qs := by
  induction ps with
  | nil => simp
  | cons p ps ih => simp only [List.cons_append, totalWeight_cons, ih, Nat.add_assoc]

theorem totalWeight_eq_length {ps : List Pending} (h : ∀ p ∈ ps, p.weight = 1) :
    totalWeight ps = ps.length := by
  induction ps with
  | nil => rfl
  | cons p ps ih =>
    rw [totalWeight_cons, h p List.mem_cons_self, ih fun q hq => h q (List.mem_cons_of_mem _ hq),
      List.length_cons, Nat.add_comm]

@[simp] theorem length_mapLast {α : Type} (f : α → α) (l : List α) :
    (mapLast f l).length = l.length := by
  fun_induction mapLast f l <;> simp_all

theorem mem_mapLast {α : Type} {f : α → α} {l : List α} {x : α} (h : x ∈ mapLast f l) :
    x ∈ l ∨ ∃ y ∈ l, x = f y := by
  fun_induction mapLast f l with
  | case1 => simp at h
  | case2 y => exact .inr ⟨y, by simp, by simpa using h⟩
  | case3 y rest hne ih =>
    rcases List.mem_cons.1 h with rfl | h
    · simp
    · rcases ih h with h | ⟨z, hz, rfl⟩
      · exact .inl (List.mem_cons_of_mem _ h)
      · exact .inr ⟨z, List.mem_cons_of_mem _ hz, rfl⟩

theorem subset_afterOpening (s : Stretch) : ∀ c ∈ (afterOpening s).text, c ∈ s.text := by
  intro c hc
  unfold afterOpening at hc
  split at hc
  · exact (List.dropWhile_sublist _).subset ((List.dropWhile_sublist _).subset hc)
  · exact hc

theorem subset_beforeClosing (s : Stretch) : ∀ c ∈ (beforeClosing s).text, c ∈ s.text :=
  fun _ hc => (List.takeWhile_sublist _).subset hc

theorem length_segments (p : Pending) : p.segments.length = p.text.count '|' + 1 := by
  rw [segments, length_mapLast, List.length_modifyHead, Stretch.length_split, text]

theorem bar_not_mem_segments {p : Pending} {s : Stretch} (h : s ∈ p.segments) :
    '|' ∉ s.text := by
  have head : ∀ x ∈ (p.stretch.split '|').modifyHead afterOpening, '|' ∉ x.text := by
    intro x hx
    cases hs : p.stretch.split '|' with
    | nil => simp [hs] at hx
    | cons first rest =>
      have hno : ∀ y ∈ first :: rest, '|' ∉ y.text :=
        fun y hy => Stretch.not_mem_split (hs ▸ hy)
      rw [hs] at hx
      rcases List.mem_cons.1 hx with rfl | hx
      · exact fun hc => hno first List.mem_cons_self (subset_afterOpening first _ hc)
      · exact hno x (List.mem_cons_of_mem _ hx)
  rcases mem_mapLast h with h | ⟨y, hy, rfl⟩
  · exact head s h
  · exact fun hc => head y hy (subset_beforeClosing y _ hc)

theorem isParallel_of_mem_parts {p q : Pending} {ps : List Pending} (h : p.parts = .ok ps)
    (hq : q ∈ ps) : q.isParallel = false := by
  unfold parts at h
  split at h
  · simp at h
  · rename_i hfind
    simp only [Except.ok.injEq] at h
    subst h
    obtain ⟨s, hs, rfl⟩ := List.mem_map.1 hq
    have hs := (List.mem_filter.1 hs).1
    have hbrace := List.find?_eq_none.1 hfind s hs
    simp only [hasBrace, Bool.or_eq_true, List.contains_iff_mem, not_or] at hbrace
    have hopen : (Text.trimStart s.text).head? ≠ some '\x7b' := fun hhead =>
      hbrace.1 ((List.dropWhile_sublist _).subset (List.mem_of_mem_head? hhead))
    simp [isParallel, text, bar_not_mem_segments hs, hopen]

theorem length_parts_le {p : Pending} {ps : List Pending} (h : p.parts = .ok ps) :
    ps.length ≤ p.text.count '|' + 1 := by
  unfold parts at h
  split at h
  · simp at h
  · simp only [Except.ok.injEq] at h
    subst h
    rw [List.length_map, ← length_segments]
    exact List.length_filter_le ..

theorem weight_parts_lt {p : Pending} {ps : List Pending} (hp : p.isParallel = true)
    (h : p.parts = .ok ps) : totalWeight ps < p.weight := by
  have hone : ∀ q ∈ ps, q.weight = 1 := fun q hq => by
    simp [weight, isParallel_of_mem_parts h hq]
  have := length_parts_le h
  rw [totalWeight_eq_length hone]
  simp only [weight, hp, if_true]
  omega

end Pending

end QuantumDiagram

import QuantumDiagram.Channel

/-!
# Sets of channels

A set of channels is kept as the strictly increasing list of its members, so that two sets with the
same members are equal (`ChannelSet.ext`), the first member is the topmost row and the last one the
lowest.
-/

namespace QuantumDiagram

structure ChannelSet where
  toList : List Channel
  /-- Each member comes before all later ones. -/
  increasing : toList.Pairwise fun c d => compare c d = .lt
deriving DecidableEq

namespace ChannelSet

instance : Membership Channel ChannelSet := ⟨fun s c => c ∈ s.toList⟩

instance (c : Channel) (s : ChannelSet) : Decidable (c ∈ s) :=
  inferInstanceAs (Decidable (c ∈ s.toList))

theorem mem_def {c : Channel} {s : ChannelSet} : c ∈ s ↔ c ∈ s.toList := Iff.rfl

/-- Puts a channel into its place in an increasing list; one that is there already stays. -/
def insertInto (c : Channel) : List Channel → List Channel
  | [] => [c]
  | d :: rest =>
    match compare c d with
    | .lt => c :: d :: rest
    | .eq => d :: rest
    | .gt => d :: insertInto c rest

theorem mem_insertInto {x c : Channel} {l : List Channel} :
    x ∈ insertInto c l ↔ x = c ∨ x ∈ l := by
  induction l with
  | nil => simp [insertInto]
  | cons d rest ih =>
    rw [insertInto]
    split
    · simp
    · rename_i h
      rw [Std.LawfulEqOrd.eq_of_compare h]
      simp
    · simp only [List.mem_cons, ih]
      exact or_left_comm

theorem increasing_insertInto (c : Channel) {l : List Channel}
    (h : l.Pairwise fun c d => compare c d = .lt) :
    (insertInto c l).Pairwise fun c d => compare c d = .lt := by
  induction l with
  | nil => simp [insertInto]
  | cons d rest ih =>
    rw [insertInto]
    split
    · rename_i hlt
      refine List.pairwise_cons.2 ⟨fun x hx => ?_, h⟩
      rcases List.mem_cons.1 hx with rfl | hx
      · exact hlt
      · exact Std.TransCmp.lt_trans hlt (List.rel_of_pairwise_cons h hx)
    · exact h
    · rename_i hgt
      refine List.pairwise_cons.2 ⟨fun x hx => ?_, ih h.of_cons⟩
      rcases mem_insertInto.1 hx with rfl | hx
      · exact Std.OrientedCmp.gt_iff_lt.1 hgt
      · exact List.rel_of_pairwise_cons h hx

def ofList : List Channel → ChannelSet
  | [] => ⟨[], .nil⟩
  | c :: rest =>
    ⟨insertInto c (ofList rest).toList, increasing_insertInto c (ofList rest).increasing⟩

@[simp] theorem mem_ofList {c : Channel} {l : List Channel} : c ∈ ofList l ↔ c ∈ l := by
  induction l with
  | nil => simp [ofList, mem_def]
  | cons d rest ih =>
    rw [mem_def] at ih
    simp [ofList, mem_def, mem_insertInto, ih]

/-- The topmost member. -/
def first? (s : ChannelSet) : Option Channel := s.toList.head?

/-- The lowest member. -/
def last? (s : ChannelSet) : Option Channel := s.toList.getLast?

def size (s : ChannelSet) : Nat := s.toList.length

def any (s : ChannelSet) (p : Channel → Bool) : Bool := s.toList.any p

theorem ext {s t : ChannelSet} (h : ∀ c, c ∈ s ↔ c ∈ t) : s = t := by
  obtain ⟨l, hl⟩ := s
  obtain ⟨m, hm⟩ := t
  simp only [mem_def] at h
  suffices l = m by subst this; rfl
  induction l generalizing m with
  | nil =>
    cases m with
    | nil => rfl
    | cons d m => simpa using h d
  | cons c l ih =>
    cases m with
    | nil => simpa using h c
    | cons d m =>
      have irrefl (x : Channel) : compare x x ≠ .lt := by simp
      have hcd : c = d := by
        rcases List.mem_cons.1 ((h c).1 List.mem_cons_self) with hc | hc
        · exact hc
        · rcases List.mem_cons.1 ((h d).2 List.mem_cons_self) with hd | hd
          · exact hd.symm
          · exact absurd (Std.TransCmp.lt_trans (List.rel_of_pairwise_cons hl hd)
              (List.rel_of_pairwise_cons hm hc)) (irrefl c)
      subst hcd
      congr 1
      refine ih hl.of_cons m hm.of_cons fun x => ⟨fun hx => ?_, fun hx => ?_⟩
      · refine (List.mem_cons.1 ((h x).1 (List.mem_cons_of_mem _ hx))).resolve_left ?_
        rintro rfl
        exact irrefl x (List.rel_of_pairwise_cons hl hx)
      · refine (List.mem_cons.1 ((h x).2 (List.mem_cons_of_mem _ hx))).resolve_left ?_
        rintro rfl
        exact irrefl x (List.rel_of_pairwise_cons hm hx)

end ChannelSet

end QuantumDiagram

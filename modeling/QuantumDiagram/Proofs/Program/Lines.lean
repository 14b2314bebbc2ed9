import QuantumDiagram.Proofs.Program.Queue
import QuantumDiagram.Proofs.Program.Relocation

/-!
# Programs that go alike line by line

The lines of a program are its texts between line feeds, one behind the other (`Line.placed`). Two
programs have the same outcome if their lines, taken in pairs, do (`Circuit.sameOutcome_of_lines`):
both lines of a pair declare the qubits or none does, and drafts that are alike stay alike when the
lines are executed (`Line.Alike`). The relation between the errors is a parameter. A program that
succeeds wherever another one does describes the same circuit (`Circuit.ofProgram_of_follows`).
-/

namespace QuantumDiagram

/-! ## The lines of a program -/

namespace Line

/-- The lines with the given texts, the first of which has the given number and offset. -/
def placed (number offset : Nat) : List Text → List Line
  | [] => []
  | t :: ts =>
    ⟨number, offset, dropReturn t⟩ :: placed (number + 1) (offset + (Text.byteLength t + 1)) ts

theorem ofSource_eq_placed (source : Text) :
    ofSource source = placed 1 0 (source.splitOn '\n') := by
  have hplaced (ts : List Text) (number offset : Nat) :
      ((Stretch.placeFrom '\n'.utf8Size offset ts).zipIdx number).map
        (fun s => ⟨s.2, s.1.offset, dropReturn s.1.text⟩) = placed number offset ts := by
    induction ts generalizing number offset with
    | nil => rfl
    | cons t ts ih =>
      rw [placed, ← ih]
      rfl
  exact hplaced _ 1 0

/-- The lines of a program with a new one among old ones. -/
theorem splitOn_joinWith {source new : Text} {before behind : List Text}
    (hold : before ++ behind ⊆ source.splitOn '\n') (hnew : '\n' ∉ new) :
    (Text.joinWith "\n" (before ++ new :: behind)).splitOn '\n' = before ++ new :: behind := by
  refine List.splitOn_intercalate '\n' (fun t ht => ?_) (by simp)
  have hold (ht : t ∈ before ++ behind) : '\n' ∉ t := Stretch.not_mem_of_mem_splitOn (hold ht)
  simp only [List.mem_append, List.mem_cons] at ht hold
  obtain ht | rfl | ht := ht
  · exact hold (.inl ht)
  · exact hnew
  · exact hold (.inr ht)

theorem placed_append (number offset : Nat) (ts : List Text) : ∃ next, ∀ us,
    placed number offset (ts ++ us) = placed number offset ts ++
      placed (number + ts.length) next us := by
  induction ts generalizing number offset with
  | nil => exact ⟨offset, fun us => rfl⟩
  | cons t ts ih =>
    obtain ⟨next, hnext⟩ := ih (number + 1) (offset + (Text.byteLength t + 1))
    refine ⟨next, fun us => ?_⟩
    rw [List.cons_append, placed, placed, hnext, List.length_cons, List.cons_append,
      Nat.add_right_comm, Nat.add_assoc number]

theorem map_text_placed (number offset : Nat) (ts : List Text) :
    (placed number offset ts).map text = ts.map dropReturn := by
  induction ts generalizing number offset with
  | nil => rfl
  | cons t ts ih => rw [placed, List.map_cons, List.map_cons, ih]

theorem exists_mem_placed (number offset : Nat) {ts : List Text} {t : Text} (h : t ∈ ts) :
    ∃ l ∈ placed number offset ts, l.text = dropReturn t := by
  have htext : dropReturn t ∈ (placed number offset ts).map text :=
    map_text_placed number offset ts ▸ List.mem_map_of_mem h
  exact List.mem_map.1 htext

/-- Lines with the same texts are alike at all offsets if the spans of the errors do not matter. -/
theorem pending_placed {E : ParseError → ParseError → Prop} (hE : ∀ e s, E e { e with span := s })
    (number offset offset' : Nat) (ts : List Text) :
    List.Forall₂ (fun l l' => (Pending.ofLine l).Alike E (Pending.ofLine l'))
      (placed number offset ts) (placed number offset' ts) := by
  induction ts generalizing number offset offset' with
  | nil => exact .nil
  | cons t ts ih => exact .cons ⟨rfl, rfl, fun _ _ => hE _ _⟩ (ih ..)

theorem number_of_mem_placed {number offset : Nat} {ts : List Text} {l : Line}
    (h : l ∈ placed number offset ts) : number ≤ l.number ∧ l.number < number + ts.length := by
  induction ts generalizing number offset with
  | nil => cases h
  | cons t ts ih =>
    rw [List.length_cons]
    rcases List.mem_cons.1 h with rfl | h
    · exact ⟨Nat.le_refl _, by simp⟩
    · have := ih h
      omega

/-- The lines of a program are numbered from top to bottom. -/
theorem pairwise_number_ofSource (source : Text) :
    (ofSource source).Pairwise fun l l' => l.number < l'.number := by
  have hplaced (ts : List Text) (number offset : Nat) :
      (placed number offset ts).Pairwise fun l l' => l.number < l'.number := by
    induction ts generalizing number offset with
    | nil => exact .nil
    | cons t ts ih =>
      refine List.pairwise_cons.2 ⟨fun l hl => ?_, ih _ _⟩
      exact (number_of_mem_placed hl).1
  rw [ofSource_eq_placed]
  exact hplaced _ 1 0

end Line

/-! ## Lines that go alike -/

variable {E : ParseError → ParseError → Prop}

/-- The lines do the same in the declaration of the qubits. -/
structure Line.DeclaresAlike (E : ParseError → ParseError → Prop) (l l' : Line) : Prop where
  declared : Declaration.isDeclared (Text.words l'.uncommented.text) =
    Declaration.isDeclared (Text.words l.uncommented.text)
  qubits : Declaration.isDeclared (Text.words l.uncommented.text) = true →
    Declaration.qubits? (Text.words l'.uncommented.text) =
      Declaration.qubits? (Text.words l.uncommented.text)
  blamed : E ⟨.missingDeclaration, l.number, l.text, l.uncommented.span⟩
    ⟨.missingDeclaration, l'.number, l'.text, l'.uncommented.span⟩

/-- The lines do the same, in the declaration of the qubits and as lines behind it. -/
structure Line.Alike (E : ParseError → ParseError → Prop) (l l' : Line) : Prop
    extends Line.DeclaresAlike E l l' where
  executed {d e : Draft} : d.Alike E e →
    SameOutcome E (Draft.Alike E) (d.executeLine l) (e.executeLine l')

/-- The line `l'` does what `l` does, if that succeeds behind the declaration of the qubits. -/
structure Line.Follows (l l' : Line) : Prop
    extends Line.DeclaresAlike (fun _ _ => True) l l' where
  executed {d e f : Draft} : d.Alike (fun _ _ => True) e → d.executeLine l = .ok f →
    ∃ g, e.executeLine l' = .ok g ∧ f.Alike (fun _ _ => True) g

theorem Line.Alike.follows {l l' : Line} (h : l.Alike (fun _ _ => True) l') : l.Follows l' where
  toDeclaresAlike := h.toDeclaresAlike
  executed hde hf := (hf ▸ h.executed hde).exists_of_ok

/-- Lines whose statements are alike go alike. -/
theorem Line.Alike.of_pending {l l' : Line}
    (h : (Pending.ofLine l).Alike E (Pending.ofLine l')) : l.Alike E l' where
  declared := by rw [show l'.uncommented.text = l.uncommented.text from h.text]
  qubits _ := by rw [show l'.uncommented.text = l.uncommented.text from h.text]
  blamed := h.spanned .missingDeclaration
  executed hde := hde.executeLine h

/-- The declaration is found alike in lines that declare alike. -/
theorem Declaration.sameOutcome_find {R : Line → Line → Prop}
    (hR : ∀ l l', R l l' → l.DeclaresAlike E l') {ls ls' : List Line} (h : List.Forall₂ R ls ls')
    {size size' : Nat} (hmissing : E ⟨.missingDeclaration, 0, [], ⟨size, size⟩⟩
      ⟨.missingDeclaration, 0, [], ⟨size', size'⟩⟩) :
    SameOutcome E (fun x y => x.1 = y.1 ∧ List.Forall₂ R x.2 y.2)
      (find size ls) (find size' ls') := by
  induction h with
  | nil => exact .error hmissing
  | @cons l l' ls ls' hl hls ih =>
    have hl := hR l l' hl
    rw [find, find]
    rw [hl.declared]
    split
    · rename_i hdeclared
      rw [hl.qubits hdeclared]
      cases qubits? (Text.words l.uncommented.text) with
      | some n => exact .ok ⟨rfl, hls⟩
      | none => exact .error hl.blamed
    · exact ih

namespace Circuit

theorem ofProgram_eq_executeLines {source : Text} {qubits : Nat} {lines : List Line}
    (h : Declaration.find (Text.byteLength source) (Line.ofSource source) = .ok (qubits, lines)) :
    ofProgram source =
      lines.foldlM Draft.executeLine (Draft.initial qubits) >>= fun d => d.finish := by
  rw [ofProgram_of_find h, ← State.draft_run_lines lines (.initial qubits) false]
  show ((State.run ⟨.initial qubits, 0, false⟩ _) >>= fun s => s.draft.finish) = _
  cases State.run ⟨.initial qubits, 0, false⟩ (lines.map Pending.ofLine) <;> rfl

/-- **Programs have the same outcome if their lines do.** -/
theorem sameOutcome_of_lines {source source' : Text}
    (hlines : List.Forall₂ (Line.Alike E) (Line.ofSource source) (Line.ofSource source'))
    (hmissing : E
      ⟨.missingDeclaration, 0, [], ⟨Text.byteLength source, Text.byteLength source⟩⟩
      ⟨.missingDeclaration, 0, [], ⟨Text.byteLength source', Text.byteLength source'⟩⟩) :
    SameOutcome E (· = ·) (ofProgram source) (ofProgram source') := by
  have hfind := Declaration.sameOutcome_find (fun _ _ h => h.toDeclaresAlike) hlines hmissing
  generalize hx : Declaration.find _ (Line.ofSource source) = x at hfind
  generalize hy : Declaration.find _ (Line.ofSource source') = y at hfind
  cases hfind with
  | error h =>
    rw [ofProgram_of_find_error hx, ofProgram_of_find_error hy]
    exact .error h
  | @ok found found' h =>
    obtain ⟨qubits, ls⟩ := found
    obtain ⟨qubits', ls'⟩ := found'
    obtain ⟨rfl, hls⟩ := h
    rw [ofProgram_eq_executeLines hx, ofProgram_eq_executeLines hy]
    refine SameOutcome.bind (R := Draft.Alike E) ?_ fun _ _ h => h.finish
    exact .foldlM hls (fun _ _ _ _ hde hl => hl.executed hde) (.of_opened rfl)

/-- **A program that follows another one line by line** describes the circuit that this one does. -/
theorem ofProgram_of_follows {source source' : Text} {m : Circuit}
    (hlines : List.Forall₂ Line.Follows (Line.ofSource source) (Line.ofSource source'))
    (h : ofProgram source = .ok m) : ofProgram source' = .ok m := by
  have hfind : SameOutcome (fun _ _ => True) _
      (Declaration.find (Text.byteLength source) (Line.ofSource source))
      (Declaration.find (Text.byteLength source') (Line.ofSource source')) :=
    Declaration.sameOutcome_find (fun _ _ h => h.toDeclaresAlike) hlines trivial
  generalize hx : Declaration.find _ (Line.ofSource source) = x at hfind
  generalize hy : Declaration.find _ (Line.ofSource source') = y at hfind
  cases hfind with
  | error => cases (ofProgram_of_find_error hx).symm.trans h
  | @ok found found' hfound =>
    obtain ⟨qubits, ls⟩ := found
    obtain ⟨_, ls'⟩ := found'
    obtain ⟨rfl, hls⟩ := hfound
    rw [ofProgram_eq_executeLines hx] at h
    rw [ofProgram_eq_executeLines hy]
    obtain ⟨d, hd, hfinish⟩ := bind_eq_ok.1 h
    have hstart : Draft.Alike (fun _ _ => True) (.initial qubits) (.initial qubits) :=
      .of_opened rfl
    obtain ⟨e, he, hde⟩ := exists_foldlM_ok hls (fun _ _ _ _ _ hde hl hf => hl.executed hde hf)
      hstart hd
    obtain ⟨_, hm, rfl⟩ := (hfinish ▸ hde.finish).exists_of_ok
    exact bind_eq_ok.2 ⟨e, he, hm⟩

end Circuit

end QuantumDiagram

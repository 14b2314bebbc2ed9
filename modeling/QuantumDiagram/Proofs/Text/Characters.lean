import QuantumDiagram.Text.Stretch

/-!
# The characters of a stretch

`Stretch.characters` lists the characters of a stretch, each with the offset at which it stands in
the longer text (`mem_characters`); no two have the same offset (`nodup_characters`). Cutting a
stretch in two keeps all characters (`characters_takeWhile_append`), and cutting it at separators
keeps all but these (`flatMap_characters_split`).
-/

namespace QuantumDiagram

/-- The characters of a text that begins at `offset`. -/
def Text.charactersFrom (offset : Nat) : Text → List (Nat × Char)
  | [] => []
  | c :: t => (offset, c) :: charactersFrom (offset + c.utf8Size) t

/-- The characters of the stretch, each with its offset. -/
def Stretch.characters (s : Stretch) : List (Nat × Char) := Text.charactersFrom s.offset s.text

namespace Text

@[simp] theorem charactersFrom_nil (offset : Nat) : charactersFrom offset [] = [] := rfl

@[simp] theorem charactersFrom_cons (offset : Nat) (c : Char) (t : Text) :
    charactersFrom offset (c :: t) = (offset, c) :: charactersFrom (offset + c.utf8Size) t := rfl

theorem charactersFrom_append (offset : Nat) (s t : Text) :
    charactersFrom offset (s ++ t) =
      charactersFrom offset s ++ charactersFrom (offset + byteLength s) t := by
  induction s generalizing offset with
  | nil => simp
  | cons c s ih =>
    rw [List.cons_append, charactersFrom_cons, charactersFrom_cons, ih, byteLength_cons,
      Nat.add_assoc, List.cons_append]

theorem mem_charactersFrom {offset o : Nat} {t : Text} {c : Char} :
    (o, c) ∈ charactersFrom offset t ↔
      ∃ before after, t = before ++ c :: after ∧ o = offset + byteLength before := by
  constructor
  · intro h
    induction t generalizing offset with
    | nil => cases h
    | cons d t ih =>
      rcases List.mem_cons.1 h with heq | h
      · cases heq
        exact ⟨[], t, rfl, rfl⟩
      · obtain ⟨before, after, rfl, rfl⟩ := ih h
        refine ⟨d :: before, after, rfl, ?_⟩
        rw [byteLength_cons, Nat.add_assoc]
  · rintro ⟨before, after, rfl, rfl⟩
    rw [charactersFrom_append]
    exact List.mem_append_right _ List.mem_cons_self

theorem le_of_mem_charactersFrom {offset : Nat} {t : Text} {x : Nat × Char}
    (h : x ∈ charactersFrom offset t) : offset ≤ x.1 := by
  obtain ⟨before, after, -, ho⟩ := mem_charactersFrom.1 h
  omega

theorem nodup_charactersFrom (offset : Nat) (t : Text) : (charactersFrom offset t).Nodup := by
  induction t generalizing offset with
  | nil => exact List.nodup_nil
  | cons c t ih =>
    refine List.nodup_cons.2 ⟨fun hmem => ?_, ih _⟩
    have hle := le_of_mem_charactersFrom hmem
    have hpos := c.utf8Size_pos
    simp only at hle
    omega

end Text

namespace Stretch

/-- A character stands at an offset that is as many bytes further on as there are before it. -/
theorem mem_characters {s : Stretch} {o : Nat} {c : Char} :
    (o, c) ∈ s.characters ↔
      ∃ before after, s.text = before ++ c :: after ∧ o = s.offset + Text.byteLength before :=
  Text.mem_charactersFrom

theorem nodup_characters (s : Stretch) : s.characters.Nodup := Text.nodup_charactersFrom ..

theorem snd_mem_text {s : Stretch} {x : Nat × Char} (h : x ∈ s.characters) : x.2 ∈ s.text := by
  obtain ⟨before, after, ht, -⟩ := mem_characters.1 h
  simp [ht]

theorem exists_of_mem_text {s : Stretch} {c : Char} (h : c ∈ s.text) :
    ∃ x ∈ s.characters, x.2 = c := by
  obtain ⟨before, after, ht⟩ := List.append_of_mem h
  exact ⟨_, mem_characters.2 ⟨before, after, ht, rfl⟩, rfl⟩

/-! ## Cutting -/

theorem characters_takeWhile_append (s : Stretch) (p : Char → Bool) :
    (s.takeWhile p).characters ++ (s.dropWhile p).characters = s.characters := by
  show Text.charactersFrom s.offset (s.text.takeWhile p) ++
    Text.charactersFrom (s.offset + Text.byteLength (s.text.takeWhile p)) (s.text.dropWhile p) = _
  rw [← Text.charactersFrom_append, List.takeWhile_append_dropWhile]
  rfl

theorem flatMap_characters_placeFrom_cons (gap offset : Nat) (c : Char) (first : Text)
    (rest : List Text) :
    (placeFrom gap offset ((c :: first) :: rest)).flatMap characters =
      (offset, c) :: (placeFrom gap (offset + c.utf8Size) (first :: rest)).flatMap characters := by
  simp [placeFrom, characters, Nat.add_assoc]

theorem flatMap_characters_placeFrom (separator : Char) (offset : Nat) (t : Text) :
    (placeFrom separator.utf8Size offset (t.splitOn separator)).flatMap characters =
      (Text.charactersFrom offset t).filter (·.2 ≠ separator) := by
  induction t generalizing offset with
  | nil => rfl
  | cons c t ih =>
    have ih := ih (offset + c.utf8Size)
    rw [List.splitOn_cons_eq_if_modifyHead, Text.charactersFrom_cons]
    by_cases hc : c = separator
    · subst hc
      simpa [placeFrom, characters] using ih
    · rw [if_neg (by simpa using hc), List.filter_cons_of_pos (by simpa using hc), ← ih]
      cases hsplit : t.splitOn separator with
      | nil => exact absurd hsplit (by simp)
      | cons first rest => exact flatMap_characters_placeFrom_cons ..

/-- Only the separators are lost when a stretch is cut at them. -/
theorem flatMap_characters_split (separator : Char) (s : Stretch) :
    (s.split separator).flatMap characters = s.characters.filter (·.2 ≠ separator) :=
  flatMap_characters_placeFrom ..

end Stretch

end QuantumDiagram

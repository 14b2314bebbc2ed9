import QuantumDiagram.Program.Pending
import QuantumDiagram.Proofs.Outcome
import QuantumDiagram.Proofs.Text.Characters

/-!
# What a parallel line loses

The content of a parallel line are its characters other than blanks, bars and braces. Every such
character is in exactly one of the parts of the line, at its offset, unless it stands outside the
block: before the brace that opens the block, or behind the brace that closes it. What stands there
is in no part, and no error tells of it, so a line keeps its content just if there is none outside
the block (`Pending.content_parts`). All of this is counting in one equation: the content of a line
is that of its parts, with what stands outside the block around it (`Pending.contentOf_segments`).
-/

namespace QuantumDiagram

namespace Pending

/-- Whether a character of a parallel line belongs to a statement. -/
def isContent (c : Char) : Bool :=
  !(Text.isBlankChar c || c = '|' || c = '\x7b' || c = '\x7d')

/-- What stands before the first opening brace, if there is one. -/
def beforeOpening (s : Stretch) : Stretch :=
  if s.text.contains '\x7b' then s.takeWhile (· ≠ '\x7b') else ⟨s.offset, []⟩

/-- The rest of a stretch, from the first closing brace on. -/
def afterClosing (s : Stretch) : Stretch := s.dropWhile (· ≠ '\x7d')

/-- What stands before the block, if its opening brace is in the first part of the line. -/
def beforeBlock (p : Pending) : Stretch :=
  beforeOpening ((p.stretch.split '|').headD p.stretch)

/-- What stands in the last part of the line from the brace on that closes the block. -/
def afterBlock (p : Pending) : Stretch :=
  afterClosing (((p.stretch.split '|').modifyHead afterOpening).getLastD p.stretch)

/-- The characters of the stretches that belong to a statement. -/
def contentOf (ss : List Stretch) : List (Nat × Char) :=
  (ss.flatMap Stretch.characters).filter fun x => isContent x.2

theorem contentOf_cons (s : Stretch) (ss : List Stretch) :
    contentOf (s :: ss) = contentOf [s] ++ contentOf ss := by
  simp [contentOf]

theorem mem_contentOf_singleton {s : Stretch} {x : Nat × Char} :
    x ∈ contentOf [s] ↔ x ∈ s.characters ∧ isContent x.2 = true := by
  simp [contentOf]

theorem contentOf_eq_nil {s : Stretch} (h : ∀ c ∈ s.text, isContent c = false) :
    contentOf [s] = [] := by
  refine List.eq_nil_iff_forall_not_mem.2 fun x hx => ?_
  obtain ⟨hmem, hcontent⟩ := mem_contentOf_singleton.1 hx
  rw [h x.2 (Stretch.snd_mem_text hmem)] at hcontent
  cases hcontent

theorem contentOf_cut (s : Stretch) (q : Char → Bool) :
    contentOf [s] = contentOf [s.takeWhile q] ++ contentOf [s.dropWhile q] := by
  simp only [contentOf, List.flatMap_singleton, ← List.filter_append,
    Stretch.characters_takeWhile_append]

/-! ## The content of a line -/

theorem contentOf_split (s : Stretch) : contentOf (s.split '|') = contentOf [s] := by
  have hbar (x : Nat × Char) : (isContent x.2 && decide (x.2 ≠ '|')) = isContent x.2 := by
    by_cases h : x.2 = '|' <;> simp [isContent, h]
  rw [contentOf, Stretch.flatMap_characters_split, List.filter_filter]
  simp only [hbar, contentOf, List.flatMap_singleton]

/-- Taking off the braces that open the block loses what stands before them. -/
theorem contentOf_afterOpening (s : Stretch) :
    contentOf [s] = contentOf [beforeOpening s] ++ contentOf [afterOpening s] := by
  unfold beforeOpening afterOpening
  split
  · have hbraces : contentOf [(s.dropWhile (· ≠ '\x7b')).takeWhile
        fun c => c = '\x7b' || Text.isBlankChar c] = [] := by
      apply contentOf_eq_nil
      intro c hc
      have hbrace := List.all_eq_true.1 List.all_takeWhile c hc
      rw [Bool.or_eq_true, decide_eq_true_eq] at hbrace
      rcases hbrace with rfl | hblank
      · simp [isContent]
      · simp [isContent, hblank]
    rw [contentOf_cut s (· ≠ '\x7b'), contentOf_cut (s.dropWhile _)
      fun c => c = '\x7b' || Text.isBlankChar c, hbraces, List.nil_append]
  · rfl

/-- Taking off what stands after the block, at the end of the last stretch, loses just that. -/
theorem contentOf_mapLast {ss : List Stretch} (h : ss ≠ []) (default : Stretch) :
    contentOf ss =
      contentOf (mapLast beforeClosing ss) ++ contentOf [afterClosing (ss.getLastD default)] := by
  fun_induction mapLast beforeClosing ss with
  | case1 => exact absurd rfl h
  | case2 s => exact contentOf_cut s _
  | case3 s rest hne ih =>
    have hrest : rest ≠ [] := fun hnil => hne (hnil ▸ rfl)
    rw [contentOf_cons, ih hrest, contentOf_cons s (mapLast beforeClosing rest), List.append_assoc]
    congr 3
    cases rest with
    | nil => exact absurd rfl hrest
    | cons t rest => rfl

/-- The content of a line is that of its parts, with what stands outside the block around it. -/
theorem contentOf_segments (p : Pending) :
    contentOf [p.stretch] =
      contentOf [p.beforeBlock] ++ contentOf p.segments ++ contentOf [p.afterBlock] := by
  rw [← contentOf_split, List.append_assoc, segments, afterBlock, beforeBlock]
  cases hsplit : p.stretch.split '|' with
  | nil =>
    have hlength := Stretch.length_split '|' p.stretch
    rw [hsplit] at hlength
    simp at hlength
  | cons s rest =>
    rw [← contentOf_mapLast (by simp), List.modifyHead_cons, contentOf_cons, contentOf_cons
      (afterOpening s), contentOf_afterOpening, List.append_assoc, List.headD_cons]

/-- Blank segments have no content, so that no content is lost with them. -/
theorem contentOf_parts {p : Pending} {ps : List Pending} (h : p.parts = .ok ps) :
    contentOf (ps.map Pending.stretch) = contentOf p.segments := by
  unfold parts at h
  split at h
  · cases h
  · cases h
    rw [List.map_map]
    induction p.segments with
    | nil => rfl
    | cons s rest ih =>
      by_cases hblank : Text.isBlank s.text = true
      · have hnone : contentOf [s] = [] := by
          apply contentOf_eq_nil
          intro c hc
          simp [isContent, List.all_eq_true.1 hblank c hc]
        rw [List.filter_cons_of_neg (by simpa using hblank), ih, contentOf_cons s rest, hnone]
        rfl
      · rw [List.filter_cons_of_pos (by simpa using hblank), List.map_cons, contentOf_cons, ih,
          contentOf_cons s rest]
        rfl

/-! ## Where a character is -/

theorem count_contentOf {x : Nat × Char} (hx : isContent x.2 = true) (ss : List Stretch) :
    (contentOf ss).count x = ss.countP (x ∈ ·.characters) := by
  rw [contentOf, List.count_filter (by simpa using hx)]
  induction ss with
  | nil => rfl
  | cons s ss ih =>
    rw [List.flatMap_cons, List.count_append, ih, s.nodup_characters.count, List.countP_cons]
    simp only [decide_eq_true_eq]
    omega

/-- **Each content character is in exactly one part of its line**, unless it stands outside the
block, and then it is in no part. -/
theorem countP_parts {p : Pending} {ps : List Pending} (h : p.parts = .ok ps) {x : Nat × Char}
    (hmem : x ∈ p.stretch.characters) (hx : isContent x.2 = true) :
    ps.countP (x ∈ ·.stretch.characters) =
      if x ∈ p.beforeBlock.characters ∨ x ∈ p.afterBlock.characters then 0 else 1 := by
  have hone (s : Stretch) : (contentOf [s]).count x = if x ∈ s.characters then 1 else 0 := by
    rw [count_contentOf hx, List.countP_singleton]
    simp
  -- No character of the line is listed twice, so the counts before, in and behind the block add up
  -- to one.
  have htotal := congrArg (List.count x) (contentOf_segments p)
  rw [List.count_append, List.count_append, ← contentOf_parts h, hone, hone, hone, if_pos hmem,
    count_contentOf hx, List.countP_map] at htotal
  have hparts : List.countP ((x ∈ ·.characters) ∘ stretch) ps =
      ps.countP (x ∈ ·.stretch.characters) := rfl
  by_cases hbefore : x ∈ p.beforeBlock.characters
  · rw [if_pos hbefore] at htotal
    rw [if_pos (.inl hbefore)]
    omega
  · rw [if_neg hbefore] at htotal
    by_cases hafter : x ∈ p.afterBlock.characters
    · rw [if_pos hafter] at htotal
      rw [if_pos (.inr hafter)]
      omega
    · rw [if_neg hafter] at htotal
      rw [if_neg (not_or.2 ⟨hbefore, hafter⟩)]
      omega

theorem mem_characters_of_outside {p : Pending} {x : Nat × Char} (hx : isContent x.2 = true)
    (h : x ∈ p.beforeBlock.characters ∨ x ∈ p.afterBlock.characters) :
    x ∈ p.stretch.characters := by
  have hmem : x ∈ contentOf [p.stretch] := by
    rw [contentOf_segments]
    rcases h with h | h
    · exact List.mem_append_left _ (List.mem_append_left _ (mem_contentOf_singleton.2 ⟨h, hx⟩))
    · exact List.mem_append_right _ (mem_contentOf_singleton.2 ⟨h, hx⟩)
  exact (mem_contentOf_singleton.1 hmem).1

/-- **What a parallel line keeps.** A content character is in exactly one part, or stands outside
the block and is in none; a line keeps all its content just if there is none outside the block. -/
theorem content_parts {p : Pending} {ps : List Pending} (h : p.parts = .ok ps) :
    (∀ x ∈ p.stretch.characters, isContent x.2 = true →
      ps.countP (x ∈ ·.stretch.characters) =
        if x ∈ p.beforeBlock.characters ∨ x ∈ p.afterBlock.characters then 0 else 1) ∧
    ((∀ x ∈ p.stretch.characters, isContent x.2 = true →
        ps.countP (x ∈ ·.stretch.characters) = 1) ↔
      ∀ c ∈ p.beforeBlock.text ++ p.afterBlock.text, isContent c = false) := by
  refine ⟨fun x hmem hx => countP_parts h hmem hx, ?_, ?_⟩
  · intro hkept c hc
    obtain ⟨x, hout, rfl⟩ : ∃ x, (x ∈ p.beforeBlock.characters ∨ x ∈ p.afterBlock.characters) ∧
        x.2 = c := by
      rcases List.mem_append.1 hc with hc | hc
      · obtain ⟨x, hx, hxc⟩ := Stretch.exists_of_mem_text hc
        exact ⟨x, .inl hx, hxc⟩
      · obtain ⟨x, hx, hxc⟩ := Stretch.exists_of_mem_text hc
        exact ⟨x, .inr hx, hxc⟩
    cases hx : isContent x.2 with
    | false => rfl
    | true =>
      have hmem := mem_characters_of_outside hx hout
      have hlost := countP_parts h hmem hx
      rw [if_pos hout, hkept x hmem hx] at hlost
      omega
  · intro hnone x hmem hx
    rw [countP_parts h hmem hx, if_neg]
    intro hout
    have hc : x.2 ∈ p.beforeBlock.text ++ p.afterBlock.text := by
      rcases hout with hout | hout
      · exact List.mem_append_left _ (Stretch.snd_mem_text hout)
      · exact List.mem_append_right _ (Stretch.snd_mem_text hout)
    rw [hnone x.2 hc] at hx
    cases hx

/-- A gate behind the block is in no part. -/
theorem content_parts_behind_block :
    let p := ofLine ⟨2, 9, "\x7bh q0\x7d x q1".toList⟩
    let part : Pending := ⟨⟨10, "h q0".toList⟩, p.line, false⟩
    p.parts = .ok [part] ∧ (16, 'x') ∈ p.stretch.characters ∧
      [part].countP ((16, 'x') ∈ ·.stretch.characters) = 0 := by
  intro p part
  have h : p.parts = .ok [part] := toOption_eq_some.1 (by decide +kernel)
  have hmem : (16, 'x') ∈ p.stretch.characters := by decide +kernel
  have hafter : (16, 'x') ∈ p.afterBlock.characters := by decide +kernel
  refine ⟨h, hmem, ?_⟩
  rw [(content_parts h).1 _ hmem (by decide), if_pos (.inr hafter)]

end Pending

end QuantumDiagram

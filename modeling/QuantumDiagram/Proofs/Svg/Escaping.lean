import QuantumDiagram.Proofs.Svg.Markup

/-!
# What is escaped can be read back

`Svg.escape` writes each character on its own. Replacing the five characters in the whole text, one
after the other and `&` first, comes to the same (`Svg.replaceInTurn_eq`): no replacement touches
what an earlier one has written. So every `&` in an escaped text begins an entity, and one pass from
left to right that reads the entities gives the text back (`Svg.escape_lossless`).
-/

namespace QuantumDiagram

namespace Text

/-- The text with `new` in place of every `old`. -/
def replaceAll (old : Char) (new t : Text) : Text := joinWith new (t.splitOn old)

theorem replaceAll_eq_flatMap (old : Char) (new t : Text) :
    replaceAll old new t = t.flatMap fun c => if c = old then new else [c] := by
  induction t with
  | nil => rfl
  | cons c t ih =>
    obtain ⟨first, rest, hsplit⟩ := List.exists_cons_of_ne_nil (List.splitOn_ne_nil old t)
    rw [replaceAll, hsplit] at ih
    rw [List.flatMap_cons, ← ih, replaceAll, List.splitOn_cons_eq_if_modifyHead, hsplit]
    by_cases hc : c = old
    · rw [if_pos (beq_iff_eq.2 hc), if_pos hc, joinWith, List.intercalate_cons_cons]
      rfl
    · rw [if_neg (by simpa using hc), if_neg hc]
      cases rest with
      | nil => rfl
      | cons second rest => rfl

end Text

namespace Svg

/-! ## One replacement after the other -/

/-- The characters that are escaped, in the order in which they can be replaced, with their
entities. -/
def replacements : List (Char × Text) :=
  [('&', "&amp;"), ('<', "&lt;"), ('>', "&gt;"), ('"', "&quot;"), ('\'', "&apos;")]

/-- Replaces characters in the whole text, one after the other. -/
def replaceInTurn (rs : List (Char × Text)) (t : Text) : Text :=
  rs.foldl (fun t r => Text.replaceAll r.1 r.2 t) t

variable {c : Char} {r : Char × Text} {rs : List (Char × Text)}

/-- What becomes of a character does not depend on those beside it. -/
theorem replaceInTurn_eq_flatMap (rs : List (Char × Text)) (t : Text) :
    replaceInTurn rs t = t.flatMap fun c => replaceInTurn rs [c] := by
  induction rs generalizing t with
  | nil => exact (List.flatMap_singleton' t).symm
  | cons r rs ih =>
    show replaceInTurn rs (Text.replaceAll r.1 r.2 t) =
      t.flatMap fun c => replaceInTurn rs (Text.replaceAll r.1 r.2 [c])
    rw [ih, Text.replaceAll_eq_flatMap, List.flatMap_assoc]
    refine congrArg t.flatMap (funext fun c => ?_)
    rw [ih (Text.replaceAll _ _ [c]), Text.replaceAll_eq_flatMap, List.flatMap_singleton]

theorem replaceInTurn_of_forall_ne (h : ∀ r ∈ rs, r.1 ≠ c) : replaceInTurn rs [c] = [c] := by
  induction rs with
  | nil => rfl
  | cons r rs ih =>
    obtain ⟨hr, hrs⟩ := List.forall_mem_cons.1 h
    have hkept : Text.replaceAll r.1 r.2 [c] = [c] := by
      rw [Text.replaceAll_eq_flatMap, List.flatMap_singleton, if_neg hr.symm]
    show replaceInTurn rs (Text.replaceAll r.1 r.2 [c]) = [c]
    rw [hkept, ih hrs]

/-- A character is written as its entity if it has one, else as itself. -/
theorem escapeChar_cases (c : Char) :
    (c, escapeChar c) ∈ replacements ∨ (∀ r ∈ replacements, r.1 ≠ c) ∧ escapeChar c = [c] := by
  unfold escapeChar
  split
  · exact .inl (by decide)
  · exact .inl (by decide)
  · exact .inl (by decide)
  · exact .inl (by decide)
  · exact .inl (by decide)
  · next hamp hlt hgt hquote hapos =>
    refine .inr ⟨?_, rfl⟩
    simp only [replacements, List.forall_mem_cons]
    exact ⟨Ne.symm hamp, Ne.symm hlt, Ne.symm hgt, Ne.symm hquote, Ne.symm hapos, by simp⟩

/-- **Replacing the characters in turn, `&` first, is escaping**: no entity is escaped again. -/
theorem replaceInTurn_eq (t : Text) : replaceInTurn replacements t = escape t := by
  have hentity : ∀ r ∈ replacements, replaceInTurn replacements [r.1] = r.2 := by decide
  rw [replaceInTurn_eq_flatMap, escape]
  refine congrArg t.flatMap (funext fun c => ?_)
  obtain hc | ⟨hc, hself⟩ := escapeChar_cases c
  · rw [hentity (c, escapeChar c) hc]
  · rw [hself, replaceInTurn_of_forall_ne hc]

example : replaceInTurn replacements.reverse "<".toList = "&amp;lt;".toList := by decide

/-! ## Reading back -/

/-- Reads entities as the characters that they stand for, in one pass from left to right. -/
def unescape (t : Text) : Text :=
  match t with
  | [] => []
  | c :: rest =>
    match replacements.find? (·.2.isPrefixOf (c :: rest)) with
    | some (d, entity) => d :: unescape (rest.drop (entity.length - 1))
    | none => c :: unescape rest
termination_by t.length
decreasing_by
  · simp only [List.length_drop, List.length_cons]
    omega
  · simp

/-- An entity begins with `&`, and has none of the escaped characters behind it. -/
theorem entity_eq (h : r ∈ replacements) :
    ∃ name, r.2 = '&' :: name ∧ Text.Without name ['&', '<', '>', '"', '\''] := by
  simp only [replacements, List.mem_cons, List.not_mem_nil, or_false] at h
  obtain rfl | rfl | rfl | rfl | rfl := h <;> exact ⟨_, rfl, by decide⟩

theorem unescape_entity (h : r ∈ replacements) (t : Text) :
    unescape (r.2 ++ t) = r.1 :: unescape t := by
  simp only [replacements, List.mem_cons, List.not_mem_nil, or_false] at h
  obtain rfl | rfl | rfl | rfl | rfl := h <;> exact unescape.eq_def _

theorem unescape_cons (h : c ≠ '&') (t : Text) : unescape (c :: t) = c :: unescape t := by
  have hnone : replacements.find? (·.2.isPrefixOf (c :: t)) = none := by
    refine List.find?_eq_none.2 fun r hr hprefix => ?_
    obtain ⟨name, hname, -⟩ := entity_eq hr
    rw [hname] at hprefix
    exact h (List.cons_prefix_cons.1 (List.isPrefixOf_iff_prefix.1 hprefix)).1.symm
  rw [unescape, hnone]

theorem unescape_escape (t : Text) : unescape (escape t) = t := by
  induction t with
  | nil => rw [escape, List.flatMap_nil, unescape]
  | cons c t ih =>
    have hcons : escape (c :: t) = escapeChar c ++ escape t := List.flatMap_cons
    rw [hcons]
    obtain hc | ⟨hc, hself⟩ := escapeChar_cases c
    · rw [unescape_entity hc, ih]
    · have hamp : c ≠ '&' := (hc ('&', "&amp;".toList) (by decide)).symm
      rw [hself, List.singleton_append, unescape_cons hamp, ih]

/-- Every `&` in an escaped text begins an entity. -/
theorem entity_prefix_of_suffix {t behind : Text} (h : '&' :: behind <:+ escape t) :
    ∃ r ∈ replacements, r.2 <+: '&' :: behind := by
  induction t with
  | nil => cases List.suffix_nil.1 h
  | cons c t ih =>
    obtain ⟨before, hbefore⟩ := h
    have hcons : escape (c :: t) = escapeChar c ++ escape t := List.flatMap_cons
    rw [hcons] at hbefore
    obtain ⟨inside, hchar, hinside⟩ | ⟨inside, -, hrest⟩ := List.append_eq_append_iff.1 hbefore
    · cases inside with
      | nil => exact ih ⟨[], hinside⟩
      | cons d inside =>
        -- The `&` is written for the character, and it is the first of what is.
        obtain ⟨rfl, rfl⟩ := List.cons.inj hinside
        obtain hc | ⟨hc, hself⟩ := escapeChar_cases c
        · obtain ⟨name, hname, hplain⟩ := entity_eq hc
          obtain ⟨rfl, -⟩ | ⟨middle, -, rfl⟩ :=
            List.append_eq_cons_iff.1 (hchar.symm.trans hname)
          · exact ⟨(c, escapeChar c), hc, escape t, by rw [hchar]; rfl⟩
          · exact absurd (by simp) (hplain '&' (by simp))
        · have hamp : c = '&' := by
            have hmem : '&' ∈ [c] := hself ▸ hchar ▸ by simp
            exact (List.mem_singleton.1 hmem).symm
          exact absurd hamp.symm (hc ('&', "&amp;".toList) (by decide))
    · exact ih ⟨inside, hrest.symm⟩

theorem without_escape (t : Text) : (escape t).Without ['<', '>', '"', '\''] := by
  refine Text.without_flatMap.2 fun c _ => ?_
  obtain hc | ⟨hc, hself⟩ := escapeChar_cases c
  · obtain ⟨name, hname, hplain⟩ := entity_eq hc
    rw [show escapeChar c = '&' :: name from hname]
    exact Text.without_cons.2 ⟨by decide, hplain.mono (by decide)⟩
  · rw [hself]
    refine Text.without_cons.2 ⟨fun hmem => ?_, Text.without_nil⟩
    obtain ⟨r, hr, rfl⟩ : ∃ r ∈ replacements, r.1 = c := by
      have hall : ∀ d ∈ ['<', '>', '"', '\''], ∃ r ∈ replacements, r.1 = d := by
        simp [replacements]
      exact hall c hmem
    exact hc r hr rfl

/-- **An escaped text can be read back**, so different texts stay different. It is the text with the
five characters replaced in turn, none of which occurs in it but for the `&` of an entity. -/
theorem escape_lossless : Function.Injective escape ∧ ∀ t,
    escape t = replaceInTurn replacements t ∧ (escape t).Without ['<', '>', '"', '\''] ∧
      (∀ behind, '&' :: behind <:+ escape t → ∃ r ∈ replacements, r.2 <+: '&' :: behind) ∧
      unescape (escape t) = t := by
  refine ⟨fun t u h => ?_, fun t => ⟨(replaceInTurn_eq t).symm, without_escape t,
    fun _ => entity_prefix_of_suffix, unescape_escape t⟩⟩
  rw [← unescape_escape t, h, unescape_escape u]

/-- A text that holds an entity already: its `&` is escaped like any other. -/
theorem escape_lossless_entity :
    let t := "&lt; <'x'>".toList
    let behind := "amp;lt; &lt;&apos;x&apos;&gt;".toList
    '&' :: behind <:+ escape t ∧ (∃ r ∈ replacements, r.2 <+: '&' :: behind) ∧
      unescape (escape t) = t := by
  intro t behind
  have hsuffix : '&' :: behind <:+ escape t := by decide
  obtain ⟨-, -, hentity, hread⟩ := escape_lossless.2 t
  exact ⟨hsuffix, hentity behind hsuffix, hread⟩

end Svg

end QuantumDiagram

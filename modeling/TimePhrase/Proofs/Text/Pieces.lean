import Mathlib.Data.List.DropRight
import TimePhrase.Reading.Run

/-!
# The pieces of a text

An input is cut at its separators, and the blanks around the pieces are taken off. The pieces stand
in the input as they are. Two inputs that are joined by a separator have the pieces of the first
and then those of the second.
-/

namespace TimePhrase

namespace Text

variable {text : List Char}

theorem stripEnd_isPrefix (text : List Char) : stripEnd text <+: text :=
  List.rdropWhile_prefix isBlank text

theorem strip_isInfix (text : List Char) : strip text <:+: text :=
  (stripEnd_isPrefix (stripStart text)).isInfix.trans (List.dropWhile_suffix isBlank).isInfix

/-- A text without blanks at its start has none there without those at its end. -/
theorem stripStart_stripEnd (h : stripStart text = text) :
    stripStart (stripEnd text) = stripEnd text := by
  unfold stripStart at h ⊢
  rw [List.dropWhile_eq_self_iff] at h ⊢
  intro hlength
  have hfront := stripEnd_isPrefix text
  rw [hfront.getElem hlength]
  exact h (by have := hfront.length_le; omega)

/-- Blanks are taken off once and for all. -/
theorem strip_strip (text : List Char) : strip (strip text) = strip text := by
  have hstart : stripStart (stripStart text) = stripStart text :=
    List.dropWhile_idempotent isBlank text
  unfold strip
  rw [stripStart_stripEnd hstart]
  exact List.rdropWhile_idempotent isBlank (stripStart text)

/-- The pieces of a text that are not all blank, without the blanks around them. -/
def pieces (text : List Char) : List (List Char) :=
  ((text.splitOn ';').map strip).filter (!·.isEmpty)

theorem pieces_ne_nil (h : ∃ piece ∈ text.splitOn ';', strip piece ≠ []) : pieces text ≠ [] := by
  obtain ⟨piece, hpiece, hblank⟩ := h
  refine List.ne_nil_of_mem (List.mem_filter.2 ⟨List.mem_map_of_mem hpiece, ?_⟩)
  simpa using hblank

theorem pieces_append (text others : List Char) :
    pieces (text ++ ';' :: others) = pieces text ++ pieces others := by
  rw [pieces, List.splitOn_append_cons_self, List.map_append, List.filter_append]
  rfl

end Text

section Cut

variable {separators : List (List Char)} {piece text : List Char}

/-- A piece stands in the text with the beginning of the piece in front. -/
theorem infix_of_mem_cutAt {skip : Nat} {cut : List Char}
    (h : cut ∈ cutAt separators piece skip text) : cut <:+: piece.reverse ++ text.drop skip := by
  fun_induction cutAt separators piece skip text with
  | case1 piece skip c rest ih => exact ih h
  | case2 piece skip =>
    rw [List.mem_singleton.1 h]
    exact (List.prefix_append ..).isInfix
  | case3 piece c rest separator hfind ih =>
    rcases List.mem_cons.1 h with rfl | h
    · exact (List.prefix_append ..).isInfix
    · have hrest : rest.drop (separator.length - 1) <:+ piece.reverse ++ c :: rest :=
        (List.drop_suffix ..).trans ((List.suffix_cons ..).trans (List.suffix_append ..))
      exact (ih h).trans hrest.isInfix
  | case4 piece c rest hfind ih =>
    simpa using ih h

/-- Where the only separator is a single character, a text is cut at every such character. -/
theorem cutAt_character (separator : Char) (piece text : List Char) :
    cutAt [[separator]] piece 0 text = text.splitOnPPrepend (· == separator) piece := by
  induction text generalizing piece with
  | nil => rfl
  | cons c rest ih =>
    have hfind : [[separator]].find? (·.isPrefixOf (c :: rest)) =
        if c == separator then some [separator] else none := by
      by_cases hc : c = separator
      · simp [hc]
      · simp [hc, Ne.symm hc]
    rw [cutAt, hfind, List.splitOnPPrepend_cons_eq_if]
    by_cases hc : (c == separator) = true
    · simp only [if_pos hc]
      exact congrArg _ (ih [])
    · simp only [if_neg hc]
      exact ih (c :: piece)

end Cut

namespace Locale

variable {locale : Locale}

theorem split_eq (locale : Locale) (text : String) :
    locale.split text = if Text.pieces text.toList = [] then [Text.strip text.toList]
      else Text.pieces text.toList := by
  have hseparators : (locale.longest .separators).map String.toList = [[';']] := by
    cases locale <;> rfl
  unfold split Text.pieces
  simp only [hseparators, cutAt_character, List.isEmpty_iff]
  rfl

theorem split_ne_nil (locale : Locale) (text : String) : locale.split text ≠ [] := by
  rw [split_eq]
  split
  · exact List.cons_ne_nil _ _
  · rename_i hpieces
    exact hpieces

/-- There is a part, be the input read as several expressions or as one. -/
theorem pieces_ne_nil (locale : Locale) (text : String) (several : Bool) :
    (if several then locale.split text else [Text.strip text.toList]) ≠ [] := by
  cases several with
  | false => exact List.cons_ne_nil _ _
  | true => exact locale.split_ne_nil text

/-- The parts of an input have no blanks around them and stand in the input. -/
theorem of_mem_split {text : String} {piece : List Char} (h : piece ∈ locale.split text) :
    Text.strip piece = piece ∧ piece <:+: text.toList := by
  rw [split_eq] at h
  split at h
  · obtain rfl := List.mem_singleton.1 h
    exact ⟨Text.strip_strip _, Text.strip_isInfix _⟩
  · obtain ⟨cut, hcut, rfl⟩ := List.mem_map.1 (List.mem_of_mem_filter h)
    rw [List.splitOn, List.splitOnP, ← cutAt_character] at hcut
    exact ⟨Text.strip_strip cut, (Text.strip_isInfix cut).trans (infix_of_mem_cutAt hcut)⟩

/-- Two inputs joined by a semicolon have the parts of the first and then those of the second,
unless one of them is all blank. -/
theorem split_append {first second : String}
    (hfirst : ∃ piece ∈ first.toList.splitOn ';', Text.strip piece ≠ [])
    (hsecond : ∃ piece ∈ second.toList.splitOn ';', Text.strip piece ≠ []) :
    locale.split (first ++ ";" ++ second) = locale.split first ++ locale.split second := by
  have hlist : (first ++ ";" ++ second).toList = first.toList ++ ';' :: second.toList := by
    simp
  rw [split_eq, split_eq, split_eq, hlist, Text.pieces_append, if_neg (Text.pieces_ne_nil hfirst),
    if_neg (Text.pieces_ne_nil hsecond), if_neg]
  simp [Text.pieces_ne_nil hfirst]

end Locale

end TimePhrase

import TimePhrase.Proofs.Toml.Kept
import TimePhrase.Proofs.Toml.Value

/-!
# Lines of a document

What the reader of documents makes of a line of its own: of an empty line or a comment, of
the header of a table, and of a key with its value. Rows of lines are put together by
`Document.Reads`, which holds of the documents before and after them.
-/

namespace TimePhrase.Toml

variable {cs rest name text : List Char} {value : Value} {fuel : Nat}

/-! ## Names -/

/-- A name that needs no quotes. -/
def IsWord (name : List Char) : Prop := name ≠ [] ∧ ∀ c ∈ name, isKeyChar c = true

instance (name : List Char) : Decidable (IsWord name) :=
  @instDecidableAnd _ _ _ (List.decidableBAll _ name)

theorem takeName_word (hname : IsWord name) (hrest : ∀ c ∈ rest.head?, isKeyChar c = false) :
    takeName (name ++ rest) = .ok (String.ofList name, rest) := by
  have htake : (name ++ rest).takeWhile isKeyChar = name := by
    rw [List.takeWhile_append_of_pos hname.2]
    cases rest <;> simp_all
  have hdrop : (name ++ rest).dropWhile isKeyChar = rest := by
    rw [List.dropWhile_append_of_pos hname.2]
    cases rest <;> simp_all
  have hfirst : ∀ c, isKeyChar c = false → ∀ other, name ++ rest ≠ c :: other := by
    rintro c hc other heq
    obtain ⟨d, name, rfl⟩ := List.exists_cons_of_ne_nil hname.1
    obtain ⟨rfl, -⟩ := List.cons_eq_cons.1 heq
    simp [hname.2 d (by simp)] at hc
  unfold takeName
  split
  · next heq => exact absurd heq (hfirst _ (by decide) _)
  · next heq => exact absurd heq (hfirst _ (by decide) _)
  · rw [htake, hdrop, if_neg (by simpa using hname.1)]

/-- A word begins with a character that stands at the beginning of no other statement. -/
theorem IsWord.eq_cons (hname : IsWord name) :
    ∃ c other, name = c :: other ∧ isKeyChar c = true :=
  let ⟨c, other, h⟩ := List.exists_cons_of_ne_nil hname.1
  ⟨c, other, h, hname.2 c (by simp [h])⟩

theorem skipBlanks_word (hname : IsWord name) : skipBlanks (name ++ rest) = name ++ rest := by
  obtain ⟨c, name, rfl, hc⟩ := hname.eq_cons
  have hblank : isBlank c = false := by
    refine Bool.eq_false_iff.2 fun h => ?_
    obtain rfl | rfl : c = ' ' ∨ c = '\t' := by simpa [isBlank] using h
    all_goals cases hc
  simp [skipBlanks, hblank]

/-- A name is a whole key when no point follows. -/
theorem takeKey_word (hname : IsWord name) (hrest : ∀ c ∈ rest.head?, isKeyChar c = false)
    (hpoint : (skipBlanks rest).head? ≠ some '.') :
    takeKey (fuel + 1) (name ++ rest) = .ok ([String.ofList name], skipBlanks rest) := by
  rw [takeKey, takeName_word hname hrest, ok_bind]
  dsimp only
  split
  · next heq => simp [heq] at hpoint
  · rfl

namespace Document

variable {d d' d'' : Document}

/-! ## One line -/

theorem skipComment_comment {comment : List Char} (h : ∀ c ∈ comment, isControl c = false) :
    skipComment ('#' :: (comment ++ '\n' :: rest)) = .ok ('\n' :: rest) := by
  have hend : ∀ c ∈ comment, c ≠ '\n' := by
    rintro c hc rfl
    exact absurd (h _ hc) (by decide)
  have htake : (comment ++ '\n' :: rest).takeWhile (· ≠ '\n') = comment := by
    rw [List.takeWhile_append_of_pos (by simpa using hend)]
    simp
  have hdrop : (comment ++ '\n' :: rest).dropWhile (· ≠ '\n') = '\n' :: rest := by
    rw [List.dropWhile_append_of_pos (by simpa using hend)]
    simp
  rw [skipComment, htake, hdrop, if_neg]
  simpa using h

/-- A statement that ends with its line is followed by those of the next lines. -/
theorem statements_of_statement (h : d.statement (skipBlanks cs) = .ok (d', '\n' :: rest)) :
    d.statements (fuel + 1) cs = d'.statements fuel rest := by
  rw [statements, h]
  simp [skipBlanks, isBlank, skipComment]

/-- The line is empty or a comment. -/
def IsRemark : List Char → Prop
  | [] => True
  | c :: comment => c = '#' ∧ ∀ c ∈ comment, isControl c = false

instance : DecidablePred IsRemark
  | [] => .isTrue trivial
  | _ :: comment => @instDecidableAnd _ _ _ (List.decidableBAll _ comment)

theorem IsRemark.noReturn (h : IsRemark text) : '\r' ∉ text := by
  match text, h with
  | [], _ => simp
  | _ :: comment, ⟨rfl, hcomment⟩ =>
    rintro (_ | ⟨_, hmem⟩)
    exact absurd (hcomment _ hmem) (by decide)

theorem statements_remark (h : IsRemark text) :
    d.statements (fuel + 1) (text ++ '\n' :: rest) = d.statements fuel rest := by
  match text, h with
  | [], _ =>
    exact statements_of_statement (by simp [skipBlanks, isBlank, statement, isKeyStart, isKeyChar])
  | _ :: comment, ⟨rfl, hcomment⟩ =>
    have hstatement : d.statement ('#' :: (comment ++ '\n' :: rest)) =
        .ok (d, '#' :: (comment ++ '\n' :: rest)) := by
      simp [statement, isKeyStart, isKeyChar]
    have hblanks : ∀ cs, skipBlanks ('#' :: cs) = '#' :: cs := fun cs => by
      simp [skipBlanks, isBlank]
    rw [List.cons_append, statements, hblanks, hstatement, ok_bind]
    dsimp only
    rw [hblanks, skipComment_comment hcomment]
    rfl

theorem statements_header (hname : IsWord name)
    (hopen : d.close.openTable [String.ofList name] = .ok d') :
    d.statements (fuel + 1) ('[' :: (name ++ ']' :: '\n' :: rest)) = d'.statements fuel rest := by
  have hfirst : ∀ other, name ++ ']' :: '\n' :: rest ≠ '[' :: other := by
    rintro other heq
    obtain ⟨c, name, rfl, hc⟩ := hname.eq_cons
    obtain ⟨rfl, -⟩ := List.cons_eq_cons.1 heq
    cases hc
  obtain ⟨length, hlength⟩ : ∃ length, (name ++ ']' :: '\n' :: rest).length = length + 1 :=
    ⟨name.length + (rest.length + 1), by simp; omega⟩
  have hkey : takeKey (length + 1) (name ++ ']' :: '\n' :: rest) =
      .ok ([String.ofList name], skipBlanks (']' :: '\n' :: rest)) :=
    takeKey_word hname (by simp; decide) (by simp [skipBlanks, isBlank])
  refine statements_of_statement ?_
  have hblanks : skipBlanks ('[' :: (name ++ ']' :: '\n' :: rest)) =
      '[' :: (name ++ ']' :: '\n' :: rest) := by simp [skipBlanks, isBlank]
  rw [hblanks]
  unfold statement
  split
  · next heq => exact absurd (List.cons_eq_cons.1 heq).2 (hfirst _)
  · next heq =>
    obtain ⟨-, rfl⟩ := List.cons_eq_cons.1 heq
    rw [skipBlanks_word hname, hlength, hkey]
    simp [skipBlanks, isBlank, hopen]
  · next hne heq => exact absurd (List.cons_eq_cons.1 heq).1.symm (by simpa using hne)
  · next heq => cases heq

theorem statement_entry (hname : IsWord name) (htext : skipBlanks text = text) :
    d.statement (name ++ ' ' :: '=' :: ' ' :: text) = (do
      let (value, rest) ← takeValue (2 * (text.length + 1) + 2) text
      return (← d.put [String.ofList name] value, rest)) := by
  obtain ⟨length, hlength⟩ :
      ∃ length, (name ++ ' ' :: '=' :: ' ' :: text).length = length + 1 :=
    ⟨name.length + (text.length + 2), by simp; omega⟩
  have hkey : takeKey (length + 1) (name ++ ' ' :: '=' :: ' ' :: text) =
      .ok ([String.ofList name], skipBlanks (' ' :: '=' :: ' ' :: text)) :=
    takeKey_word hname (by simp; decide) (by simp [skipBlanks, isBlank])
  rw [← hlength] at hkey
  obtain ⟨c, name, rfl, hc⟩ := hname.eq_cons
  unfold statement
  split
  · next heq => cases (List.cons_eq_cons.1 heq).1; cases hc
  · next heq => cases (List.cons_eq_cons.1 heq).1; cases hc
  · next heq =>
    obtain ⟨rfl, rfl⟩ := List.cons_eq_cons.1 heq
    have hequals : skipBlanks (' ' :: '=' :: ' ' :: text) = '=' :: ' ' :: text := by
      simp [skipBlanks, isBlank]
    have hvalue : skipBlanks (' ' :: text) = text := htext
    rw [if_pos (by simp [isKeyStart, hc]), hkey, hequals, ok_bind]
    simp [hvalue]
  · next heq => cases heq

/-- A key with its value on a line of its own. -/
theorem statements_entry (hname : IsWord name) (htext : skipBlanks text = text)
    (hvalue : takeValue (2 * (text.length + 1) + 2) text = .ok (value, '\n' :: rest))
    (hput : d.put [String.ofList name] value = .ok d') :
    d.statements (fuel + 1) (name ++ ' ' :: '=' :: ' ' :: text) = d'.statements fuel rest := by
  refine statements_of_statement ?_
  rw [skipBlanks_word hname, statement_entry hname htext, hvalue, ok_bind]
  simp [hput]

/-- If a document begins with a key and its value, and makes sense, then the value has been
taken and put into the document. -/
theorem exists_of_statements_entry (hname : IsWord name) (htext : skipBlanks text = text)
    (h : d.statements (fuel + 1) (name ++ ' ' :: '=' :: ' ' :: text) = .ok d'') :
    ∃ value rest d', takeValue (2 * (text.length + 1) + 2) text = .ok (value, rest) ∧
      d.put [String.ofList name] value = .ok d' ∧
      (d'' = d' ∨ ∃ fuel cs, d'.statements fuel cs = .ok d'') := by
  rw [statements, skipBlanks_word hname, statement_entry hname htext] at h
  obtain ⟨⟨d', rest⟩, hentry, h⟩ := bind_eq_ok_iff.1 h
  obtain ⟨⟨value, rest'⟩, hvalue, hentry⟩ := bind_eq_ok_iff.1 hentry
  obtain ⟨d₁, hput, heq⟩ := bind_eq_ok_iff.1 hentry
  cases heq
  refine ⟨value, rest, d', hvalue, hput, ?_⟩
  obtain ⟨rest'', -, h⟩ := bind_eq_ok_iff.1 h
  split at h
  · cases h
    exact .inl rfl
  · exact .inr ⟨_, _, h⟩
  · cases h

/-! ## Rows of lines -/

/-- Lines in a text, each with its end. -/
def ofLines (lines : List String) : List Char := lines.flatMap (·.toList ++ ['\n'])

theorem ofLines_cons (line : String) (lines : List String) :
    ofLines (line :: lines) = line.toList ++ '\n' :: ofLines lines := by
  simp [ofLines]

theorem ofLines_append (lines more : List String) :
    ofLines (lines ++ more) = ofLines lines ++ ofLines more := by
  simp [ofLines]

theorem length_le_count_ofLines (lines : List String) :
    lines.length ≤ (ofLines lines).count '\n' := by
  induction lines with
  | nil => simp
  | cons line lines ih =>
    rw [ofLines_cons, List.count_append, List.count_cons_self, List.length_cons]
    omega

/-- The lines lead from one document to another, whatever comes behind them. No line takes more
than one statement. -/
structure Reads (d : Document) (lines : List String) (d' : Document) : Prop where
  noReturn : '\r' ∉ ofLines lines
  steps : ∃ n ≤ lines.length, ∀ fuel rest,
    d.statements (fuel + n) (ofLines lines ++ rest) = d'.statements fuel rest

variable {line key : String} {lines more : List String}

theorem Reads.nil : d.Reads [] d := ⟨by simp [ofLines], 0, Nat.le_refl _, fun _ _ => rfl⟩

theorem Reads.trans (h : d.Reads lines d') (h' : d'.Reads more d'') :
    d.Reads (lines ++ more) d'' := by
  obtain ⟨hreturn, m, hm, hread⟩ := h
  obtain ⟨hreturn', n, hn, hread'⟩ := h'
  refine ⟨by simp [ofLines_append, hreturn, hreturn'], n + m, by simp; omega, fun fuel rest => ?_⟩
  rw [ofLines_append, List.append_assoc, ← Nat.add_assoc, hread, hread']

theorem Reads.cons (h : d.Reads [line] d') (h' : d'.Reads more d'') :
    d.Reads (line :: more) d'' := h.trans h'

/-- An empty line or a comment in front changes nothing. -/
theorem Reads.remark (hline : IsRemark line.toList) (h : d.Reads more d') :
    d.Reads (line :: more) d' := by
  refine .cons ⟨?_, 1, Nat.le_refl _, fun fuel rest => ?_⟩ h
  · simp [ofLines, hline.noReturn]
  · simpa [ofLines] using statements_remark hline

theorem not_mem_word (hname : IsWord name) : '\r' ∉ name := fun hmem =>
  absurd (hname.2 _ hmem) (by decide)

theorem reads_header (key : String) (hline : line.toList = '[' :: (key.toList ++ [']']))
    (hkey : IsWord key.toList) (hopen : d.close.openTable [key] = .ok d') : d.Reads [line] d' := by
  refine ⟨by simp [ofLines, hline, not_mem_word hkey], 1, Nat.le_refl _, fun fuel rest => ?_⟩
  have hheader : d.statements (fuel + 1) ('[' :: (key.toList ++ ']' :: '\n' :: rest)) =
      d'.statements fuel rest := statements_header hkey (by rw [String.ofList_toList, hopen])
  simpa [ofLines, hline] using hheader

/-- A key with its value, which may go on for several lines. -/
theorem reads_entry (key : String) (hne : lines ≠ [])
    (hlines : ofLines lines = key.toList ++ ' ' :: '=' :: ' ' :: (text ++ ['\n']))
    (hkey : IsWord key.toList) (hvalue : StandsFor text value)
    (hput : d.put [key] value = .ok d') : d.Reads lines d' := by
  refine ⟨by simp [hlines, not_mem_word hkey, hvalue.noReturn], 1, List.length_pos_iff.2 hne,
    fun fuel rest => ?_⟩
  have hblanks : skipBlanks (text ++ '\n' :: rest) = text ++ '\n' :: rest := by
    obtain ⟨c, other, rfl, hc⟩ := hvalue.first
    simp [skipBlanks, hc]
  have hentry : d.statements (fuel + 1)
      (key.toList ++ ' ' :: '=' :: ' ' :: (text ++ '\n' :: rest)) = d'.statements fuel rest :=
    statements_entry hkey hblanks (hvalue.taken _ rest (by simp; omega))
      (by rw [String.ofList_toList, hput])
  simpa [hlines] using hentry

theorem reads_line (key : String) (hline : line.toList = key.toList ++ ' ' :: '=' :: ' ' :: text)
    (hkey : IsWord key.toList) (hvalue : StandsFor text value)
    (hput : d.put [key] value = .ok d') : d.Reads [line] d' :=
  reads_entry key (by simp) (by simp [ofLines, hline]) hkey hvalue hput

/-- The lines, with all ends of lines made alike, end in the document. -/
def Ends (d : Document) (lines : List String) (d' : Document) : Prop :=
  ∃ fuel, lines.length < fuel ∧ d.statements fuel (unifyLineEnds (ofLines lines)) = .ok d'

theorem Reads.ends (h : d.Reads lines d') (hends : d.Ends (lines ++ more) d'') :
    d'.Ends more d'' := by
  obtain ⟨hlines, n, hn, hread⟩ := h
  obtain ⟨fuel, hfuel, hends⟩ := hends
  rw [List.length_append] at hfuel
  obtain ⟨fuel, rfl⟩ : ∃ m, fuel = m + n := ⟨fuel - n, by omega⟩
  rw [ofLines_append, unifyLineEnds_append _ hlines, hread] at hends
  exact ⟨fuel, by omega, hends⟩

/-- Lines that lead from the empty document to another are read as this one. -/
theorem Reads.read (h : empty.Reads lines d) {text : String} (htext : text.toList = ofLines lines) :
    Toml.read text = .ok d.content := by
  obtain ⟨hlines, n, hn, hread⟩ := h
  have hunify : unifyLineEnds (ofLines lines) = ofLines lines := unifyLineEnds_eq_self hlines
  have hlength := List.count_le_length (a := '\n') (l := ofLines lines)
  have hcount := length_le_count_ofLines lines
  obtain ⟨fuel, hfuel⟩ : ∃ m, (ofLines lines).length + 1 = m + 1 + n :=
    ⟨(ofLines lines).length - n, by omega⟩
  have hstatements : empty.statements ((ofLines lines).length + 1) (ofLines lines) = .ok d := by
    have hend := hread (fuel + 1) []
    rw [List.append_nil] at hend
    rw [hfuel, hend]
    simp [statements, statement, skipBlanks, skipComment]
  simp [Toml.read, htext, hunify, hstatements]

theorem ends_of_read {t : Table} {text : String} (h : Toml.read text = .ok t)
    (htext : text.toList = ofLines lines) : ∃ d, d.content = t ∧ empty.Ends lines d := by
  rw [Toml.read, htext] at h
  obtain ⟨d, hd, h⟩ := bind_eq_ok_iff.1 h
  cases h
  have hlength := List.count_le_length (a := '\n') (l := unifyLineEnds (ofLines lines))
  have hcount := length_le_count_ofLines lines
  rw [count_unifyLineEnds (by decide)] at hlength
  exact ⟨d, rfl, _, by omega, hd⟩

/-- A key and its value in the first line have been read, and what holds of the value from then
on holds in the end. -/
theorem exists_of_ends (hkey : IsWord key.toList) (htext : skipBlanks text = text)
    (hlines : unifyLineEnds (ofLines lines) = key.toList ++ ' ' :: '=' :: ' ' :: text)
    (h : d.Ends lines d'') :
    ∃ fuel value rest d', takeValue (fuel + 1) text = .ok (value, rest) ∧
      d.put [key] value = .ok d' ∧ ∀ holds, Lasting holds → ∀ keys,
        Table.HasAt holds keys d'.content → Table.HasAt holds keys d''.content := by
  obtain ⟨fuel, hfuel, h⟩ := h
  obtain ⟨fuel, rfl⟩ : ∃ n, fuel = n + 1 := ⟨fuel - 1, by omega⟩
  rw [hlines] at h
  obtain ⟨value, rest, d', hvalue, hput, hend⟩ := exists_of_statements_entry hkey htext h
  rw [String.ofList_toList] at hput
  refine ⟨_, value, rest, d', hvalue, hput, fun holds hlasting keys hhas => ?_⟩
  rcases hend with rfl | ⟨fuel, cs, hend⟩
  · exact hhas
  · exact hasAt_statements hlasting hend hhas

/-- If the string of the first line has its value in the end, then it says what it is. -/
theorem verbatim_of_ends (key : String) (mark : Char) {content : String} {path : List String}
    (h : d.Ends (line :: more) d'')
    (hvalue : ∀ text, Table.HasAt (· = .text text) path d''.content → text = content)
    (hline : line.toList = key.toList ++ ' ' :: '=' :: ' ' :: '"' :: (content.toList ++ ['"']))
    (hkey : IsWord key.toList)
    (hput : ∀ text, ∃ d', d.put [key] (.text text) = .ok d' ∧
      Table.HasAt (· = .text text) path d'.content)
    (hmark : isMark mark = true) (n : Nat)
    (hmore : '\n' :: unifyLineEnds (ofLines more) = List.replicate n '\n' ++ mark :: rest) :
    Verbatim content.toList := by
  have hlines : unifyLineEnds (ofLines (line :: more)) = key.toList ++ ' ' :: '=' :: ' ' ::
      '"' :: (unifyLineEnds content.toList ++ '"' :: (List.replicate n '\n' ++ mark :: rest)) := by
    have htext : ofLines (line :: more) = (key.toList ++ [' ', '=', ' ', '"']) ++
        (content.toList ++ '"' :: (['\n'] ++ ofLines more)) := by simp [ofLines_cons, hline]
    rw [htext, unifyLineEnds_append _ (by simp [not_mem_word hkey]), unifyLineEnds_quote,
      unifyLineEnds_append _ (by decide), List.singleton_append, hmore]
    simp
  obtain ⟨fuel, value, rest', d', htake, hput', hlast⟩ :=
    exists_of_ends hkey (by simp [skipBlanks, isBlank]) hlines h
  rw [takeValue_quote] at htake
  obtain ⟨⟨text, rest''⟩, hstring, heq⟩ := bind_eq_ok_iff.1 htake
  obtain ⟨rfl, rfl⟩ := Prod.mk.inj (Except.ok.inj heq)
  obtain ⟨d₁, hput, hhas⟩ := hput text
  obtain rfl := Except.ok.inj (hput.symm.trans hput')
  obtain rfl := hvalue text (hlast _ (lasting_text text) path hhas)
  exact verbatim_of_unified mark hmark n hstring

end Document

end TimePhrase.Toml

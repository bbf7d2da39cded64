import TimePhrase.Proofs.Text.Number
import TimePhrase.Proofs.Toml.Text
import TimePhrase.Toml.Document

/-!
# Values that are read back

Strings that say what they are, truth values and whole numbers are taken off a document as
they were written, and so are rows of such strings in brackets. A row of digits could also be
the beginning of a date or a time of day; it is a number because the line ends behind it.
-/

namespace TimePhrase.Toml

variable {cs rest digits content : List Char} {c : Char} {value : Value} {fuel : Nat}

/-! ## Numbers -/

theorem takeTwo?_eq_some {low high n : Nat} (h : takeTwo? low high cs = some (n, rest)) :
    ∃ a b, cs = a :: b :: rest ∧ a.isDigit = true ∧ b.isDigit = true := by
  unfold takeTwo? at h
  split at h
  · next a b more =>
    dsimp only at h
    split at h
    · next hdigits =>
      cases h
      simp only [Bool.and_eq_true] at hdigits
      exact ⟨a, b, rfl, hdigits.1.1.1, hdigits.1.1.2⟩
    · cases h
  · cases h

theorem takeChar?_eq_some (h : takeChar? c cs = some rest) : cs = c :: rest := by
  unfold takeChar? at h
  split at h
  · split at h
    · next heq => simp_all
    · cases h
  · cases h

/-- The digits have an end where the line does. -/
theorem eq_newline_of_digits (front : List Char) {tail : List Char}
    (hdigits : ∀ d ∈ digits, d.isDigit = true) (hfront : ∀ d ∈ front, d.isDigit = true)
    (hc : c.isDigit = false)
    (h : digits ++ '\n' :: rest = front ++ c :: tail) : c = '\n' := by
  have hdrop := congrArg (List.dropWhile Char.isDigit) h
  rw [List.dropWhile_append_of_pos hdigits, List.dropWhile_append_of_pos hfront] at hdrop
  have hnewline : ('\n').isDigit = false := by decide
  rw [List.dropWhile_cons_of_neg (by simp [hnewline]),
    List.dropWhile_cons_of_neg (by simp [hc])] at hdrop
  exact (List.cons_eq_cons.1 hdrop).1.symm

theorem takeDate?_digits (hdigits : ∀ d ∈ digits, d.isDigit = true) :
    takeDate? (digits ++ '\n' :: rest) = none := by
  refine Option.eq_none_iff_forall_ne_some.2 fun found h => ?_
  obtain ⟨⟨century, rest₁⟩, hcentury, h⟩ := Option.bind_eq_some_iff.1 h
  obtain ⟨⟨year, rest₂⟩, hyear, h⟩ := Option.bind_eq_some_iff.1 h
  obtain ⟨rest₃, hdash, -⟩ := Option.bind_eq_some_iff.1 h
  obtain ⟨a, b, hcs, ha, hb⟩ := takeTwo?_eq_some hcentury
  obtain ⟨c, d, rfl, hc, hd⟩ := takeTwo?_eq_some hyear
  obtain rfl := takeChar?_eq_some hdash
  have heq := eq_newline_of_digits [a, b, c, d] (c := '-') hdigits
    (by simp [ha, hb, hc, hd]) (by decide) hcs
  cases heq

theorem skipTime?_digits (hdigits : ∀ d ∈ digits, d.isDigit = true) :
    skipTime? (digits ++ '\n' :: rest) = none := by
  refine Option.eq_none_iff_forall_ne_some.2 fun found h => ?_
  obtain ⟨⟨hour, rest₁⟩, hhour, h⟩ := Option.bind_eq_some_iff.1 h
  obtain ⟨rest₂, hcolon, -⟩ := Option.bind_eq_some_iff.1 h
  obtain ⟨a, b, hcs, ha, hb⟩ := takeTwo?_eq_some hhour
  obtain rfl := takeChar?_eq_some hcolon
  have heq := eq_newline_of_digits [a, b] (c := ':') hdigits
    (by simp [ha, hb]) (by decide) hcs
  cases heq

theorem ne_of_isDigit {d : Char} (hc : c.isDigit = true) (hd : d.isDigit = false) : c ≠ d := by
  rintro rfl
  simp [hc] at hd

theorem takeMoreDigits_digits (hdigits : ∀ d ∈ digits, d.isDigit = true) :
    takeMoreDigits Char.isDigit (digits ++ '\n' :: rest) = (digits, '\n' :: rest) := by
  induction digits with
  | nil => simp [takeMoreDigits]
  | cons d digits ih =>
    obtain ⟨hd, hdigits⟩ := List.forall_mem_cons.1 hdigits
    rw [List.cons_append]
    unfold takeMoreDigits
    split
    · next heq => cases heq
    · next heq => exact absurd (List.cons_eq_cons.1 heq).1 (ne_of_isDigit hd (by decide))
    · next heq =>
      obtain ⟨rfl, rfl⟩ := List.cons_eq_cons.1 heq
      simp [hd, ih hdigits]

theorem takeDecimal?_digits (hdigits : ∀ d ∈ c :: digits, d.isDigit = true) (hc : c ≠ '0')
    (hlength : (c :: digits).length ≤ Text.maxDigits) :
    takeDecimal? (c :: (digits ++ '\n' :: rest)) =
      some (.ok (.integer (Text.digitsValue (c :: digits)), '\n' :: rest)) := by
  obtain ⟨hdigit, hmore⟩ := List.forall_mem_cons.1 hdigits
  have hsign : takeSign (c :: (digits ++ '\n' :: rest)) =
      (false, c :: (digits ++ '\n' :: rest)) := by
    unfold takeSign
    split
    · next heq => exact absurd (List.cons_eq_cons.1 heq).1 (ne_of_isDigit hdigit (by decide))
    · next heq => exact absurd (List.cons_eq_cons.1 heq).1 (ne_of_isDigit hdigit (by decide))
    · rfl
  have hwhole : takeWhole? (c :: (digits ++ '\n' :: rest)) = some (c :: digits, '\n' :: rest) := by
    unfold takeWhole?
    split
    · next heq => exact absurd (List.cons_eq_cons.1 heq).1 hc
    · next heq =>
      obtain ⟨rfl, rfl⟩ := List.cons_eq_cons.1 heq
      simp [hdigit, takeDigits, takeMoreDigits_digits hmore]
    · next heq => cases heq
  have hfraction : takeFraction? ('\n' :: rest) = none := by simp [takeFraction?]
  have hexponent : takeExponent? ('\n' :: rest) = none := by simp [takeExponent?]
  simp [takeDecimal?, hsign, hwhole, hfraction, hexponent,
    Nat.not_lt.2 (show digits.length + 1 ≤ Text.maxDigits from hlength)]

/-- A row of digits that does not begin with a zero is a decimal number. -/
theorem takeValue_digits (hdigits : ∀ d ∈ c :: digits, d.isDigit = true) (hc : c ≠ '0')
    (hlength : (c :: digits).length ≤ Text.maxDigits) :
    takeValue (fuel + 1) (c :: (digits ++ '\n' :: rest)) =
      .ok (.integer (Text.digitsValue (c :: digits)), '\n' :: rest) := by
  have hdigit : c.isDigit = true := hdigits c (by simp)
  have hradix : takeRadix? (c :: (digits ++ '\n' :: rest)) = none := by
    unfold takeRadix?
    split
    · next heq => exact absurd (List.cons_eq_cons.1 heq).1 hc
    · rfl
  have hscalar : takeScalar (c :: (digits ++ '\n' :: rest)) =
      .ok (.integer (Text.digitsValue (c :: digits)), '\n' :: rest) := by
    rw [takeScalar, ← List.cons_append, takeDate?_digits hdigits, skipTime?_digits hdigits,
      List.cons_append, hradix, takeDecimal?_digits hdigits hc hlength]
  rw [← hscalar]
  unfold takeValue
  split
  all_goals first
    | next heq => exact absurd (List.cons_eq_cons.1 heq).1 (ne_of_isDigit hdigit (by decide))
    | rfl

/-- A positive number is written without a leading zero. -/
theorem not_zero_of_toDigits {n : Nat} (hn : 0 < n) (h : Nat.toDigits 10 n = c :: digits) :
    c ≠ '0' := by
  rintro rfl
  have hvalue : Text.digitsValue digits = n := by
    rw [← Text.digitsValue_toDigits n, h]
    rfl
  have hbound : n < 10 ^ digits.length := hvalue ▸ Text.digitsValue_lt digits
  cases digits with
  | nil =>
    simp at hbound
    omega
  | cons d digits =>
    have hlength := (Nat.length_toDigits_le_iff (by decide) (by simp)).2 hbound
    rw [h, List.length_cons] at hlength
    omega

/-- A positive number is read back. -/
theorem takeValue_number {n : Nat} (hn : 0 < n)
    (hlength : (Nat.toDigits 10 n).length ≤ Text.maxDigits) :
    takeValue (fuel + 1) ((toString n).toList ++ '\n' :: rest) =
      .ok (.integer n, '\n' :: rest) := by
  have hdigits : ∀ d ∈ Nat.toDigits 10 n, d.isDigit = true := fun d hd =>
    Nat.isDigit_of_mem_toDigits (by decide) (by decide) hd
  have hvalue := Text.digitsValue_toDigits n
  have htext : (toString n).toList = Nat.toDigits 10 n := by simp
  rw [htext]
  cases h : Nat.toDigits 10 n with
  | nil => simp at h
  | cons c digits =>
    rw [h] at hdigits hlength hvalue
    rw [List.cons_append, takeValue_digits hdigits (not_zero_of_toDigits hn h) hlength, hvalue]

/-- A truth value is read back. -/
theorem takeValue_truth (b : Bool) :
    takeValue (fuel + 1) ((toString b).toList ++ rest) = .ok (.boolean b, rest) := by
  cases b <;> rfl

theorem takeValue_quote :
    takeValue (fuel + 1) ('"' :: cs) =
      (takeString ('"' :: cs) >>= fun p => .ok (.text p.1, p.2)) := by
  simp [takeValue]

theorem takeValue_verbatim (h : Verbatim content) (hrest : rest.head? ≠ some '"') :
    takeValue (fuel + 1) ('"' :: (content ++ '"' :: rest)) =
      .ok (.text (String.ofList content), rest) := by
  rw [takeValue_quote, takeString_verbatim h hrest, ok_bind]

/-! ## Rows of strings in brackets -/

theorem skipLines_spaces (spaces : List Char)
    (hspaces : ∀ d ∈ spaces, (isBlank d || d = '\n') = true)
    (hc : (isBlank c || c = '\n') = false) (hcomment : c ≠ '#') :
    skipLines (fuel + 1) (spaces ++ c :: rest) = .ok (c :: rest) := by
  have hstop (fuel : Nat) : skipLines fuel (c :: rest) = .ok (c :: rest) := by
    cases fuel <;> simp [skipLines, hc, skipComment, hcomment]
  rw [skipLines, List.dropWhile_append_of_pos hspaces, List.dropWhile_cons_of_neg (by simp [hc])]
  have hskip : skipComment (c :: rest) = .ok (c :: rest) := by simp [skipComment, hcomment]
  rw [hskip, ok_bind]
  split
  · next hlength =>
    obtain rfl : spaces = [] := by simpa using hlength
    rfl
  · exact hstop fuel

/-- The items of an array of strings, each on a line of its own with a comma behind it. -/
def rows (items : List (List Char)) : List Char :=
  items.flatMap fun item => "\n    \"".toList ++ item ++ "\",".toList

theorem length_rows (items : List (List Char)) (more : List Char) :
    (rows items ++ "\n]".toList ++ more).length = (rows items).length + more.length + 1 + 1 := by
  simp
  omega

theorem length_le_rows (items : List (List Char)) : items.length ≤ (rows items).length := by
  induction items with
  | nil => simp
  | cons item items ih =>
    simp only [rows, List.flatMap_cons, List.length_append, List.length_cons] at ih ⊢
    have hquote : ("\",".toList).length = 2 := rfl
    omega

theorem skipLines_rows_nil {more : List Char} :
    skipLines (fuel + 1) (rows [] ++ "\n]".toList ++ more) = .ok (']' :: more) :=
  skipLines_spaces ['\n'] (List.all_iff_forall_prop.1 (by decide)) (by decide) (by decide)

theorem skipLines_rows_cons {item : List Char} {items : List (List Char)} {more : List Char} :
    skipLines (fuel + 1) (rows (item :: items) ++ "\n]".toList ++ more) =
      .ok ('"' :: (item ++ '"' :: ',' :: (rows items ++ "\n]".toList ++ more))) := by
  have htext : rows (item :: items) ++ "\n]".toList ++ more = ['\n', ' ', ' ', ' ', ' '] ++
      '"' :: (item ++ '"' :: ',' :: (rows items ++ "\n]".toList ++ more)) := by
    simp [rows]
  rw [htext]
  exact skipLines_spaces _ (List.all_iff_forall_prop.1 (by decide)) (by decide) (by decide)

/-- What is made of the text behind an item. -/
def takeMoreItems (fuel : Nat) (item : Value) (text : List Char) :
    Except Fault (List Value × List Char) := do
  match ← skipLines text.length text with
  | ']' :: rest => return ([item], rest)
  | ',' :: rest => do
    let (items, rest) ← takeItems fuel (← skipLines rest.length rest)
    return (item :: items, rest)
  | _ => malformed

theorem takeItems_quote :
    takeItems (fuel + 2) ('"' :: cs) = (takeString ('"' :: cs) >>= fun p =>
      takeMoreItems (fuel + 1) (.text p.1) p.2) := by
  rw [takeItems]
  · rw [takeValue_quote]
    cases takeString ('"' :: cs) <;> rfl
  · simp

theorem takeMoreItems_comma {item : Value} :
    takeMoreItems fuel item (',' :: rest) = ((skipLines rest.length rest >>= takeItems fuel) >>=
      fun p => .ok (item :: p.1, p.2)) := by
  have hskip : skipLines (',' :: rest).length (',' :: rest) = .ok (',' :: rest) :=
    skipLines_spaces [] (by simp) (by decide) (by decide)
  rw [takeMoreItems, hskip]
  simp [bind_assoc]

/-- Strings that say what they are, are taken off one after the other. -/
theorem takeItems_rows {items : List String} (more : List Char) {skips : Nat}
    (h : ∀ item ∈ items, Verbatim item.toList) (hfuel : items.length + 1 < fuel) :
    (skipLines (skips + 1) (rows (items.map String.toList) ++ "\n]".toList ++ more) >>=
      takeItems fuel) = .ok (items.map .text, more) := by
  induction items generalizing fuel skips with
  | nil =>
    obtain ⟨fuel, rfl⟩ : ∃ n, fuel = n + 1 := ⟨fuel - 1, by omega⟩
    rw [List.map_nil, skipLines_rows_nil, ok_bind]
    simp [takeItems]
  | cons item items ih =>
    obtain ⟨fuel, rfl⟩ : ∃ n, fuel = n + 1 + 1 := ⟨fuel - 2, by simp at hfuel; omega⟩
    obtain ⟨hitem, hitems⟩ := List.forall_mem_cons.1 h
    rw [List.map_cons, skipLines_rows_cons, ok_bind, takeItems_quote,
      takeString_verbatim hitem (by simp), ok_bind, takeMoreItems_comma, length_rows,
      ih hitems (by simp at hfuel; omega)]
    simp

/-- An array of strings that say what they are is read back. -/
theorem takeValue_rows {items : List String} (more : List Char)
    (h : ∀ item ∈ items, Verbatim item.toList) (hfuel : items.length + 1 < fuel) :
    takeValue (fuel + 1)
        ('[' :: (rows (items.map String.toList) ++ "\n]".toList ++ more)) =
      .ok (.array (items.map .text), more) := by
  obtain ⟨cs, hskip, hitems⟩ := bind_eq_ok_iff.1 (takeItems_rows more h hfuel)
  rw [takeValue, length_rows, hskip, ok_bind, hitems]
  rfl

/-! ## Values at the end of a line -/

theorem Verbatim.not_mem (h : Verbatim content) : '\r' ∉ content := fun hmem =>
  absurd (h _ hmem).2.2 (by decide)

/-- The text is taken as the value when the line ends behind it. -/
structure StandsFor (text : List Char) (value : Value) : Prop where
  first : ∃ c other, text = c :: other ∧ isBlank c = false
  noReturn : '\r' ∉ text
  taken : ∀ fuel rest, text.length < fuel →
    takeValue fuel (text ++ '\n' :: rest) = .ok (value, '\n' :: rest)

theorem standsFor_text {text : String} (h : Verbatim text.toList) :
    StandsFor ('"' :: (text.toList ++ ['"'])) (.text text) where
  first := ⟨_, _, rfl, by decide⟩
  noReturn := by simpa using h.not_mem
  taken fuel rest hfuel := by
    obtain ⟨fuel, rfl⟩ : ∃ n, fuel = n + 1 := ⟨fuel - 1, by omega⟩
    have hvalue : takeValue (fuel + 1) ('"' :: (text.toList ++ '"' :: '\n' :: rest)) =
        .ok (.text (String.ofList text.toList), '\n' :: rest) := takeValue_verbatim h (by simp)
    simpa using hvalue

theorem standsFor_number {n : Nat} (hn : 0 < n)
    (hlength : (Nat.toDigits 10 n).length ≤ Text.maxDigits) :
    StandsFor (toString n).toList (.integer n) := by
  have hdigits : ∀ c ∈ (toString n).toList, c.isDigit = true := fun c hc =>
    Nat.isDigit_of_mem_toDigits (b := 10) (n := n) (by decide) (by decide) (by simpa using hc)
  refine ⟨?_, fun hmem => absurd (hdigits _ hmem) (by decide), fun fuel rest hfuel => ?_⟩
  · obtain ⟨c, other, htext⟩ := List.exists_cons_of_ne_nil (l := (toString n).toList) (by simp)
    have hc : c.isDigit = true := hdigits c (htext ▸ List.mem_cons_self ..)
    refine ⟨c, other, htext, ?_⟩
    simp [isBlank, ne_of_isDigit hc (show (' ').isDigit = false by decide),
      ne_of_isDigit hc (show ('\t').isDigit = false by decide)]
  · obtain ⟨fuel, rfl⟩ : ∃ n, fuel = n + 1 := ⟨fuel - 1, by omega⟩
    exact takeValue_number hn hlength

theorem standsFor_truth (b : Bool) : StandsFor (toString b).toList (.boolean b) where
  first := by cases b <;> exact ⟨_, _, rfl, by decide⟩
  noReturn := by cases b <;> decide
  taken fuel rest hfuel := by
    obtain ⟨fuel, rfl⟩ : ∃ n, fuel = n + 1 := ⟨fuel - 1, by omega⟩
    exact takeValue_truth b

theorem standsFor_texts {items : List String} (h : ∀ item ∈ items, Verbatim item.toList) :
    StandsFor ('[' :: (rows (items.map String.toList) ++ "\n]".toList))
      (.array (items.map .text)) where
  first := ⟨_, _, rfl, by decide⟩
  noReturn := by
    have hitems : ∀ item ∈ items, '\r' ∉ item.toList := fun item hitem => (h item hitem).not_mem
    simpa [rows] using hitems
  taken fuel rest hfuel := by
    have hrows := length_le_rows (items.map String.toList)
    obtain ⟨fuel, rfl⟩ : ∃ n, fuel = n + 1 := ⟨fuel - 1, by omega⟩
    simpa using takeValue_rows ('\n' :: rest) h (by simp at hfuel hrows; omega)

/-! ## Only such strings are read back -/

theorem length_unifyLineEnds_le (cs : List Char) : (unifyLineEnds cs).length ≤ cs.length := by
  fun_induction unifyLineEnds cs <;> simp <;> omega

theorem count_unifyLineEnds (hc : c ≠ '\r') (cs : List Char) :
    (unifyLineEnds cs).count c = cs.count c := by
  fun_induction unifyLineEnds cs <;> simp_all [List.count_cons, Ne.symm]

theorem unifyLineEnds_append (cs : List Char) {other : List Char} (h : '\r' ∉ cs) :
    unifyLineEnds (cs ++ other) = cs ++ unifyLineEnds other := by
  induction cs with
  | nil => rfl
  | cons c cs ih =>
    obtain ⟨hc, hcs⟩ : '\r' ≠ c ∧ '\r' ∉ cs := by simpa using h
    rw [List.cons_append, List.cons_append, ← ih hcs, unifyLineEnds]
    exact fun _ heq => absurd heq.symm hc

theorem unifyLineEnds_eq_self (h : '\r' ∉ cs) : unifyLineEnds cs = cs := by
  have happend : unifyLineEnds (cs ++ []) = cs ++ unifyLineEnds [] := unifyLineEnds_append cs h
  simpa [unifyLineEnds] using happend

/-- Only a line feed is taken together with what stands before it. -/
theorem unifyLineEnds_append_cons (hc : c ≠ '\n') (cs : List Char) :
    unifyLineEnds (cs ++ c :: rest) = unifyLineEnds cs ++ unifyLineEnds (c :: rest) := by
  fun_induction unifyLineEnds cs with
  | case1 cs ih => simpa [unifyLineEnds] using ih
  | case2 d cs hne ih =>
    rw [List.cons_append, unifyLineEnds, ih, List.cons_append]
    rintro other rfl heq
    cases cs with
    | nil => exact hc (List.cons_eq_cons.1 heq).1
    | cons e cs =>
      obtain ⟨rfl, -⟩ := List.cons_eq_cons.1 heq
      exact hne cs rfl rfl
  | case3 => rfl

theorem unifyLineEnds_quote (cs : List Char) :
    unifyLineEnds (cs ++ '"' :: rest) = unifyLineEnds cs ++ '"' :: unifyLineEnds rest := by
  rw [unifyLineEnds_append_cons (by decide)]
  exact congrArg _ (unifyLineEnds_append ['"'] (by decide))

theorem unifyLineEnds_rows (items : List (List Char)) (more : List Char) :
    unifyLineEnds (rows items ++ "\n]".toList ++ more) =
      rows (items.map unifyLineEnds) ++ "\n]".toList ++ unifyLineEnds more := by
  induction items with
  | nil => exact unifyLineEnds_append "\n]".toList (by decide)
  | cons item items ih =>
    have htext : rows (item :: items) ++ "\n]".toList ++ more = "\n    \"".toList ++
        (item ++ '"' :: ([','] ++ (rows items ++ "\n]".toList ++ more))) := by simp [rows]
    rw [htext, unifyLineEnds_append _ (by decide), unifyLineEnds_quote,
      unifyLineEnds_append _ (by decide), ih]
    simp [rows]

/-- The ends of lines within a string do not hide that it does not say what it is. -/
theorem verbatim_of_unified {text : String} (mark : Char) (hmark : isMark mark = true) (n : Nat)
    {more : List Char}
    (h : takeString ('"' :: (unifyLineEnds text.toList ++
      '"' :: (List.replicate n '\n' ++ mark :: more))) = .ok (text, rest)) :
    Verbatim text.toList := by
  have hne : mark ≠ '\r' := by
    rintro rfl
    cases hmark
  exact verbatim_of_takeString hmark (length_unifyLineEnds_le _)
    (Nat.le_of_eq (count_unifyLineEnds hne _).symm) n h

theorem takeMoreItems_head {item : Value} {items : List Value}
    (h : takeMoreItems fuel item cs = .ok (items, rest)) : items.head? = some item := by
  obtain ⟨cs, -, h⟩ := bind_eq_ok_iff.1 h
  split at h
  · cases h
    rfl
  · obtain ⟨cs, -, h⟩ := bind_eq_ok_iff.1 h
    obtain ⟨⟨items, rest⟩, -, h⟩ := bind_eq_ok_iff.1 h
    cases h
    rfl
  · cases h

/-- If strings are taken off a row as they stand there, then each of them says what it is. -/
theorem verbatim_of_takeItems {items : List String} {more : List Char} {skips : Nat}
    (h : (skipLines (skips + 1)
        (rows (items.map (unifyLineEnds ·.toList)) ++ "\n]".toList ++ more) >>= takeItems fuel) =
      .ok (items.map .text, rest)) : ∀ item ∈ items, Verbatim item.toList := by
  induction items generalizing fuel skips rest with
  | nil => simp
  | cons item items ih =>
    rw [List.map_cons, skipLines_rows_cons, ok_bind] at h
    match fuel with
    | 0 => simp [takeItems] at h
    | 1 => simp [takeItems, takeValue] at h
    | fuel + 2 =>
      rw [takeItems_quote] at h
      obtain ⟨⟨text, rest'⟩, hstring, h⟩ := bind_eq_ok_iff.1 h
      obtain rfl : item = text := by simpa using takeMoreItems_head h
      have hitem : Verbatim item.toList := verbatim_of_unified ',' (by decide) 0 hstring
      rw [unifyLineEnds_eq_self hitem.not_mem, takeString_verbatim hitem (by simp)] at hstring
      obtain rfl := (Prod.mk.inj (Except.ok.inj hstring)).2
      rw [takeMoreItems_comma] at h
      obtain ⟨⟨items', rest''⟩, hmore, h⟩ := bind_eq_ok_iff.1 h
      obtain rfl : items' = items.map .text := by simpa using congrArg Prod.fst (Except.ok.inj h)
      rw [length_rows] at hmore
      exact List.forall_mem_cons.2 ⟨hitem, ih hmore⟩

/-- What a bracket opens is an array. -/
theorem array_of_takeValue (h : takeValue (fuel + 1) ('[' :: cs) = .ok (value, rest)) :
    ∃ items, value = .array items := by
  rw [takeValue] at h
  obtain ⟨cs, -, h⟩ := bind_eq_ok_iff.1 h
  obtain ⟨⟨items, rest'⟩, -, h⟩ := bind_eq_ok_iff.1 h
  cases h
  exact ⟨items, rfl⟩

/-- If an array of strings is taken as it stands there, then each of them says what it is. -/
theorem verbatim_of_takeValue {items : List String} {more : List Char}
    (h : takeValue (fuel + 1)
        ('[' :: (rows (items.map (unifyLineEnds ·.toList)) ++ "\n]".toList ++ more)) =
      .ok (.array (items.map .text), rest)) : ∀ item ∈ items, Verbatim item.toList := by
  rw [takeValue, length_rows] at h
  obtain ⟨cs, hskip, h⟩ := bind_eq_ok_iff.1 h
  obtain ⟨⟨items', rest'⟩, hitems, h⟩ := bind_eq_ok_iff.1 h
  obtain ⟨rfl, rfl⟩ : items' = items.map .text ∧ rest' = rest := by simpa using h
  exact verbatim_of_takeItems (bind_eq_ok_iff.2 ⟨cs, hskip, hitems⟩)

end TimePhrase.Toml

import Mathlib.Data.List.Chain
import TimePhrase.Proofs.Description.DayAfter
import TimePhrase.Proofs.Reading.Chain

/-!
# Reading a whole description back

The description of an expression is that of its parts, one after the other. Each part is read back
up to the next one, so that the parts of a chain, in their plain form, are again a chain of its
description. Giving each limiter its limit afterwards leads to the plain form of the expression.
-/

namespace TimePhrase

open Recognizer (ofKind ofPoint ofSpan)

variable {tail next : List Char} {text : String}

section Parts

theorem length_opening : ∀ opening ∈ openings, opening.length = 2 := by
  decide

/-- A text begins like a description other than "day after tomorrow". -/
def Opens (text : List Char) : Prop :=
  ∃ opening ∈ openings, opening ≠ "da".toList ∧ opening <+: text

instance (text : List Char) : Decidable (Opens text) :=
  inferInstanceAs (Decidable (∃ opening ∈ openings, _))

theorem Opens.append {word : String} (h : Opens word.toList) (rest : String) :
    Opens (word ++ rest).toList := by
  obtain ⟨opening, hopening, hne, hbegin⟩ := h
  rw [String.toList_append]
  exact ⟨opening, hopening, hne, hbegin.trans (List.prefix_append ..)⟩

theorem Opens.lead {word : String} (h : Opens word.toList) (looped : Bool) :
    Opens (lead looped word).toList := by
  have hevery : Opens "every".toList := by decide
  cases looped
  · exact h
  · exact hevery

theorem Content.opens {c : Content} (h : c.InRange) (hwords : c.Expressible)
    (htext : c.describe = .ok text) :
    Opens text.toList ∨ c = .span (.days 2) ∧ "da".toList <+: text.toList := by
  have hat : Opens "at ".toList := by decide
  have hon : Opens "on".toList := by decide
  have honThe : Opens "on the".toList := by decide
  have hin : Opens "in".toList := by decide
  have hinBlank : Opens "in ".toList := by decide
  cases c.described h htext with
  | time clock inverted => exact .inl (hat.append _)
  | date hdate looped =>
    have honBlank : Opens "on ".toList := by decide
    exact .inl (((((honBlank.append _).append _).append _).append _).append _)
  | dateWithoutYear hdate looped =>
    exact .inl ((((((hon.lead looped).append _).append _).append _).append _).append _)
  | monthDay hd looped => exact .inl (((honThe.lead looped).append _).append _)
  | weekday hn hname looped => exact .inl (((hon.lead looped).append _).append _)
  | month hn hname looped => exact .inl (((hin.lead looped).append _).append _)
  | year hy => exact .inl (hinBlank.append _)
  | @counts cs looped hcs => exact .inl (((hin.lead looped).append _).append _)
  | days count =>
    have hto : Opens "today".toList ∧ Opens "tomorrow".toList := by decide
    rw [dayText]
    split
    · exact .inl hto.1
    · split
      · exact .inl hto.2
      · split
        · rename_i htwo
          exact .inr ⟨htwo ▸ rfl, by decide⟩
        · exact .inl ((hinBlank.append _).append _)

/-- Described content is read back in its plain form. -/
theorem Content.ofKind_describe {c : Content} (h : c.InRange) (hwords : c.Expressible)
    (htext : c.describe = .ok text) (hnext : Continues tail next)
    (hday : ∀ cs, c = .span (.counts cs true) → ¬ "da".toList <+: next) :
    ofKind c.plain.kind .english (text.toList ++ tail) = .ok (some ⟨.content c.plain, next⟩) := by
  cases c.described h htext with
  | time clock inverted => exact Recognizer.time_describe clock hnext
  | date hdate looped =>
    obtain rfl : looped = false := hwords
    exact Recognizer.date_describe hdate hnext
  | dateWithoutYear hdate looped => exact Recognizer.date_describe_withoutYear looped hdate hnext
  | monthDay hd looped => exact Recognizer.monthDay_describe looped hd hnext
  | weekday hn hname looped => exact Recognizer.weekday_describe looped hn hname hnext
  | month hn hname looped => exact Recognizer.month_describe looped hn hname hnext
  | year hy => exact Recognizer.year_describe hy hnext
  | @counts cs looped hcs =>
    exact Recognizer.span_describe hcs hnext fun hlooped => hday cs (hlooped ▸ rfl)
  | days count => exact Recognizer.keyword_describe (Int.ofNat_le.1 hwords) hnext

/-- A part that has been recognized is read back in its plain form. -/
theorem Part.ofKind_describe {p : Part} (h : p.Recognized) (htext : p.describe = .ok text)
    (hnext : Continues tail next)
    (hday : ∀ cs, p = .content (.span (.counts cs true)) → ¬ "da".toList <+: next) :
    ofKind p.plain.kind .english (text.toList ++ tail) = .ok (some ⟨p.plain, next⟩) := by
  cases h with
  | @content c hrange hwords =>
    rw [Part.describe] at htext
    rw [Part.plain]
    exact Content.ofKind_describe hrange hwords htext hnext fun cs heq => hday cs (heq ▸ rfl)
  | limiter side =>
    rw [Part.describe] at htext
    rw [Part.plain, ← Except.ok.inj htext]
    exact Recognizer.limiter_word side hnext

theorem Part.opens {p : Part} (h : p.Recognized) (htext : p.describe = .ok text) :
    Opens text.toList ∨ p = .content (.span (.days 2)) ∧ "da".toList <+: text.toList := by
  cases h with
  | @content c hrange hwords =>
    rw [Part.describe] at htext
    rcases c.opens hrange hwords htext with hopens | ⟨rfl, hbegin⟩
    · exact .inl hopens
    · exact .inr ⟨rfl, hbegin⟩
  | limiter side =>
    rw [Part.describe] at htext
    rw [← Except.ok.inj htext]
    left
    cases side <;> decide

end Parts

section Chains

/-- The second part is not taken in by the first one when their descriptions are read. -/
def Apart (p q : Part) : Prop :=
  ∀ cs, p = .content (.span (.counts cs true)) → q ≠ .content (.span (.days 2))

/-- The texts, each behind a blank. -/
def spaced (texts : List String) : List Char := texts.flatMap fun text => ' ' :: text.toList

@[simp] theorem spaced_nil : spaced [] = [] := rfl

@[simp] theorem spaced_cons (text : String) (texts : List String) :
    spaced (text :: texts) = ' ' :: (text.toList ++ spaced texts) := rfl

theorem toList_intercalate_cons (first : String) (texts : List String) :
    (" ".intercalate (first :: texts)).toList =
      first.toList ++ spaced texts := by
  induction texts generalizing first with
  | nil => simp
  | cons second texts ih =>
    have hsplit : (" ".intercalate (first :: second :: texts)).toList =
        first.toList ++ ' ' :: (" ".intercalate (second :: texts)).toList := by
      simp [String.toList_intercalate]
    rw [hsplit, ih, spaced_cons]

/-- Texts that are the same each behind a blank are the same with blanks between them. -/
theorem intercalate_eq_of_spaced {texts others : List String} (h : spaced texts = spaced others) :
    " ".intercalate texts = " ".intercalate others := by
  cases texts with
  | nil =>
    cases others with
    | nil => rfl
    | cons other others => exact absurd h nofun
  | cons text texts =>
    cases others with
    | nil => exact absurd h nofun
    | cons other others =>
      apply String.toList_inj.1
      rw [toList_intercalate_cons, toList_intercalate_cons]
      exact (List.cons.inj h).2

/-- If all parts have descriptions, the first one has one and so do the others. -/
theorem exists_of_describeAll_cons {p : Part} {rest : List Part} {texts : List String}
    (h : describeAll (p :: rest) = .ok texts) :
    ∃ text others, p.describe = .ok text ∧ describeAll rest = .ok others ∧
      texts = text :: others := by
  rw [describeAll] at h
  obtain ⟨text, htext, h⟩ := bind_eq_ok_iff.1 h
  obtain ⟨others, hothers, h⟩ := bind_eq_ok_iff.1 h
  exact ⟨text, others, htext, hothers, (Except.ok.inj h).symm⟩

theorem describeAll_append {parts others : List Part} {texts otherTexts : List String}
    (htexts : describeAll parts = .ok texts) (hothers : describeAll others = .ok otherTexts) :
    describeAll (parts ++ others) = .ok (texts ++ otherTexts) := by
  induction parts generalizing texts with
  | nil =>
    rw [← Except.ok.inj (describeAll_nil.symm.trans htexts)]
    exact hothers
  | cons p rest ih =>
    obtain ⟨text, restTexts, htext, hrest, rfl⟩ := exists_of_describeAll_cons htexts
    rw [List.cons_append, describeAll, htext, ih hrest]
    rfl

/-- Behind a part the text ends, or the description of the next part follows. -/
theorem continues_describeAll {chain : List Part} {texts : List String}
    (hparts : ∀ p ∈ chain, p.Recognized) (htexts : describeAll chain = .ok texts) :
    Continues (spaced texts) (" ".intercalate texts).toList ∧
      ("da".toList <+: (" ".intercalate texts).toList →
        ∃ rest, chain = .content (.span (.days 2)) :: rest) := by
  cases chain with
  | nil =>
    obtain rfl := Except.ok.inj (describeAll_nil.symm.trans htexts)
    exact ⟨.inl ⟨rfl, rfl⟩, fun h => absurd h (by decide)⟩
  | cons p rest =>
    obtain ⟨text, others, htext, -, rfl⟩ := exists_of_describeAll_cons htexts
    rw [toList_intercalate_cons, spaced_cons]
    rcases p.opens (hparts p (List.mem_cons_self ..)) htext with hopens | ⟨rfl, hbegin⟩
    · obtain ⟨opening, hopening, hne, hbegin⟩ := hopens
      have hbegin := hbegin.trans (List.prefix_append text.toList
        (spaced others))
      refine ⟨.inr ⟨opening, hopening, hbegin, rfl⟩, fun hda => absurd ?_ hne⟩
      have hle := List.prefix_of_prefix_length_le hbegin hda (by rw [length_opening _ hopening]; rfl)
      exact hle.eq_of_length (by rw [length_opening _ hopening]; rfl)
    · exact ⟨.inr ⟨"da".toList, by decide, hbegin.trans (List.prefix_append ..), rfl⟩,
        fun _ => ⟨rest, rfl⟩⟩

/-- The plain form of a chain is a chain of its description. -/
theorem map_plain_mem_chains {chain : List Part} {texts : List String}
    (hparts : ∀ p ∈ chain, p.Recognized) (hapart : chain.IsChain Apart)
    (htexts : describeAll chain = .ok texts) :
    chain.map Part.plain ∈ chains .english (" ".intercalate texts).toList := by
  induction chain generalizing texts with
  | nil =>
    obtain rfl := Except.ok.inj (describeAll_nil.symm.trans htexts)
    exact mem_chains_iff.2 (.inl ⟨rfl, rfl⟩)
  | cons p rest ih =>
    obtain ⟨text, others, htext, hothers, rfl⟩ := exists_of_describeAll_cons htexts
    obtain ⟨hp, hrest⟩ := List.forall_mem_cons.1 hparts
    obtain ⟨hnext, hda⟩ := continues_describeAll hrest hothers
    have hday : ∀ cs, p = .content (.span (.counts cs true)) →
        ¬ "da".toList <+: (" ".intercalate others).toList := fun cs heq hbegin => by
      obtain ⟨after, rfl⟩ := hda hbegin
      exact (List.isChain_cons_cons.1 hapart).1 cs heq rfl
    have hlength : 0 < text.toList.length := by
      rcases p.opens hp htext with hopens | ⟨-, hbegin⟩
      · obtain ⟨opening, hopening, -, hbegin⟩ := hopens
        have := hbegin.length_le
        rw [length_opening opening hopening] at this
        omega
      · exact Nat.lt_of_lt_of_le (by decide) hbegin.length_le
    have hle : (" ".intercalate others).toList.length ≤
        (spaced others).length := by
      rcases hnext with ⟨htail, hnext⟩ | ⟨-, -, -, htail⟩
      · simp [htail, hnext]
      · simp [htail]
    rw [List.map_cons, toList_intercalate_cons]
    refine mem_chains_iff.2 (.inr ⟨_, _, _, p.ofKind_describe hp htext hnext hday, ?_,
      ih hrest hapart.tail hothers, rfl⟩)
    rw [List.length_append]
    dsimp only
    omega

/-- The parts of a chain are recognized, and a repeating span before "day after tomorrow" counts
days. -/
theorem of_mem_chains {text : List Char} {chain : List Part} (h : chain ∈ chains .english text) :
    (∀ p ∈ chain, p.Recognized) ∧ chain.IsChain fun p q =>
      ∀ cs, p = .content (.span (.counts cs true)) → q = .content (.span (.days 2)) →
        ∃ c ∈ cs, c.1 = .day := by
  induction chain generalizing text with
  | nil => exact ⟨nofun, .nil⟩
  | cons p rest ih =>
    obtain ⟨-, hnil⟩ | ⟨kind, found, others, hfound, -, hothers, heq⟩ := mem_chains_iff.1 h
    · exact absurd hnil (List.cons_ne_nil p rest)
    obtain ⟨rfl, rfl⟩ := List.cons.inj heq
    obtain ⟨hpart, hkind, -⟩ := @Recognizer.of_ofKind _ _ .english _ hfound
    obtain ⟨hrest, hchain⟩ := ih hothers
    refine ⟨List.forall_mem_cons.2 ⟨hpart, hrest⟩, ?_⟩
    cases rest with
    | nil => exact .singleton _
    | cons q rest =>
      refine List.isChain_cons_cons.2 ⟨fun cs hspan hdays => ?_, hchain⟩
      obtain ⟨-, hnil⟩ | ⟨kind', next, _, hnext, -, -, heq⟩ := mem_chains_iff.1 hothers
      · exact absurd hnil (List.cons_ne_nil q rest)
      obtain ⟨rfl, -⟩ := List.cons.inj heq
      obtain ⟨-, hkind', -⟩ := @Recognizer.of_ofKind _ _ .english _ hnext
      obtain rfl : kind = .span := by rw [← hkind, hspan]; rfl
      obtain rfl : kind' = .keyword := by rw [← hkind', hdays]; rfl
      exact Recognizer.exists_day_of_span hfound hspan hnext hdays

/-- In a chain whose parts go together no part takes in the next one. -/
theorem isChain_apart {chain : List Part}
    (hmain : (contents (gather chain).1).Pairwise fun c d => c.scope.Disjoint d.scope)
    (hlimits : ∀ side limit, .limiter side (some limit) ∈ (gather chain).2 →
      (contents limit).Pairwise fun c d => c.scope.Disjoint d.scope)
    (h : chain.IsChain fun p q => ∀ cs, p = .content (.span (.counts cs true)) →
      q = .content (.span (.days 2)) → ∃ c ∈ cs, c.1 = .day) : chain.IsChain Apart := by
  induction chain with
  | nil => exact .nil
  | cons p rest ih =>
    have hrest : rest.IsChain Apart := by
      cases p with
      | content c => exact ih (List.Pairwise.of_cons hmain) hlimits h.tail
      | limiter side limit =>
        refine ih ?_ (fun side limit hmem => hlimits side limit (List.mem_cons_of_mem _ hmem)) h.tail
        by_cases hempty : (gather rest).1 = []
        · rw [hempty]
          exact .nil
        · exact hlimits side _ (by simp [gather, limitOf, hempty])
    cases rest with
    | nil => exact .singleton p
    | cons q rest =>
      refine List.isChain_cons_cons.2 ⟨fun cs hspan hdays => ?_, hrest⟩
      obtain ⟨c, hc, hday⟩ := (List.isChain_cons_cons.1 h).1 cs hspan hdays
      obtain rfl := hspan
      obtain rfl := hdays
      have hdisjoint := List.rel_of_pairwise_cons hmain (List.mem_cons_self ..)
      have hcounted : (cs.map (·.1)).contains .day = true :=
        List.contains_iff_mem.2 (hday ▸ List.mem_map_of_mem hc)
      exact hdisjoint .day ⟨hcounted, rfl⟩

theorem gather_map_plain (chain : List Part) : gather (chain.map Part.plain) =
    ((gather chain).1.map Part.plain, (gather chain).2.map Part.plain) := by
  induction chain with
  | nil => rfl
  | cons p rest ih =>
    rcases p with c | ⟨side, limit⟩
    · rw [List.map_cons, Part.plain, gather, gather, ih, List.map_cons, Part.plain]
    · have hplain : ∃ limit', (Part.limiter side limit).plain = .limiter side limit' := by
        cases limit <;> exact ⟨_, by rw [Part.plain]⟩
      obtain ⟨limit', hlimit⟩ := hplain
      rw [List.map_cons, hlimit, gather, gather, ih]
      by_cases hempty : (gather rest).1 = []
      · simp [limitOf, hempty, Part.plain]
      · simp [limitOf, hempty, Part.plain, plainAll_eq_map]

theorem assemble_map_plain (chain : List Part) :
    assemble (chain.map Part.plain) = plainAll (assemble chain) := by
  rw [assemble, gather_map_plain, ← List.map_append, plainAll_eq_map, assemble]

/-- The content of a chain and its limits are described like the chain, up to the blanks. -/
theorem describeAll_gather {chain : List Part} {texts : List String}
    (hparts : ∀ p ∈ chain, p.Recognized) (htexts : describeAll chain = .ok texts) :
    ∃ content limits, describeAll (gather chain).1 = .ok content ∧
      describeAll (gather chain).2 = .ok limits ∧ spaced content ++ spaced limits = spaced texts := by
  induction chain generalizing texts with
  | nil =>
    obtain rfl := Except.ok.inj (describeAll_nil.symm.trans htexts)
    exact ⟨[], [], by rw [gather, describeAll_nil], by rw [gather, describeAll_nil], rfl⟩
  | cons p rest ih =>
    obtain ⟨text, others, htext, hothers, rfl⟩ := exists_of_describeAll_cons htexts
    obtain ⟨hp, hrest⟩ := List.forall_mem_cons.1 hparts
    obtain ⟨content, limits, hcontent, hlimits, hspaced⟩ := ih hrest hothers
    cases hp with
    | @content c =>
      refine ⟨text :: content, limits, ?_, hlimits, ?_⟩
      · rw [gather, describeAll, htext, hcontent]
        rfl
      · rw [spaced_cons, spaced_cons, List.cons_append, List.append_assoc, hspaced]
    | limiter side =>
      rw [Part.describe] at htext
      obtain rfl := Except.ok.inj htext
      rw [gather]
      cases hfirst : (gather rest).1 with
      | nil =>
        rw [hfirst, describeAll_nil] at hcontent
        obtain rfl := Except.ok.inj hcontent
        refine ⟨[], side.word :: limits, describeAll_nil, ?_, ?_⟩
        · rw [describeAll, hlimits]
          rfl
        · rw [spaced_cons _ others, ← hspaced]
          rfl
      | cons q qs =>
        rw [hfirst] at hcontent
        obtain ⟨first, firsts, hq, hqs, rfl⟩ := exists_of_describeAll_cons hcontent
        refine ⟨[], (side.word ++ " " ++ " ".intercalate (first :: firsts)) :: limits,
          describeAll_nil, ?_, ?_⟩
        · have hlimit : (Part.limiter side (limitOf (q :: qs))).describe =
              .ok (side.word ++ " " ++ " ".intercalate (first :: firsts)) := by
            rw [limitOf, List.isEmpty_cons, if_neg Bool.false_ne_true, Part.describe, hq, hqs]
            rfl
          rw [describeAll, hlimit, hlimits]
          rfl
        · have hblank : " ".toList = [' '] := rfl
          rw [spaced_cons _ others, ← hspaced]
          simp only [spaced_nil, spaced_cons, String.toList_append, toList_intercalate_cons, hblank,
            List.nil_append, List.cons_append, List.append_assoc]

/-- A chain is described like the expression that it is assembled to. -/
theorem describe_assemble {chain : List Part} {texts : List String}
    (hparts : ∀ p ∈ chain, p.Recognized) (htexts : describeAll chain = .ok texts) :
    Term.describe ⟨assemble chain⟩ = .ok (" ".intercalate texts) := by
  obtain ⟨content, limits, hcontent, hlimits, hspaced⟩ := describeAll_gather hparts htexts
  rw [Term.describe, assemble, describeAll_append hcontent hlimits]
  refine congrArg Except.ok (intercalate_eq_of_spaced ?_)
  rw [← hspaced]
  exact List.flatMap_append

end Chains

end TimePhrase

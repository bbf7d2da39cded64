import TimePhrase.Proofs.Description.Ordinary
import TimePhrase.Proofs.Reading.Readable
import TimePhrase.Proofs.Reading.Tally

/-!
# Descriptions are a normal form

The description of a reading is itself an English expression, and one of its readings is the plain
form of the reading that it describes.
-/

namespace TimePhrase

variable {reader : Reader} {t : Term}

/-- A reading is described by an ordinary text without blanks at its ends, of which its plain form
is a reading. -/
theorem exists_describe_of_mem_readingsOf {text : List Char} (hlocale : reader.locale = .english)
    (h : t ∈ readingsOf reader text) : ∃ description, t.describe = .ok description ∧
      Text.Ordinary description.toList ∧ Text.strip description.toList = description.toList ∧
        t.plain ∈ readingsOf reader description.toList := by
  obtain ⟨chain, hchain, hok⟩ := mem_readingsOf_iff.1 h
  rw [hlocale] at hchain
  obtain ⟨hparts, hnext⟩ := of_mem_chains hchain
  obtain ⟨rfl, hvalid, -⟩ := Term.ofParts_eq_ok_iff.1 hok
  obtain ⟨texts, htexts⟩ := exists_describeAll fun p hp => (hparts p hp).inRange.exists_describe
  have hapart : chain.IsChain Apart := by
    refine isChain_apart ?_ (fun side limit hmem => ?_) hnext
    · have hscopes := hvalid.scopes
      rw [assemble, contents_append] at hscopes
      exact (List.pairwise_append.1 hscopes).1
    · obtain ⟨parts, hlimit, hvalidLimit⟩ :=
        Term.validLimit_of_ofParts hok (List.mem_append_right _ hmem)
      obtain rfl := Option.some.inj hlimit
      exact hvalidLimit.valid.scopes
  refine ⟨_, describe_assemble hparts htexts, ordinary_describeAll hparts htexts,
    strip_describeAll hparts htexts, mem_readingsOf_iff.2 ⟨chain.map Part.plain, ?_, ?_⟩⟩
  · rw [hlocale]
    exact map_plain_mem_chains hparts hapart htexts
  · rw [assemble_map_plain, Term.ofParts_plain _ _ hok]

/-- The description of an English reading is read as the plain form of that reading. -/
theorem Reader.read_describe {text : String} {readings : List Term}
    (hlocale : reader.locale = .english) (h : reader.read text = .ok readings)
    (ht : t ∈ readings) : ∃ description, t.describe = .ok description ∧
      ∃ others, reader.read description = .ok others ∧ t.plain ∈ others := by
  obtain ⟨description, hdescribe, hordinary, hstrip, hmem⟩ :=
    exists_describe_of_mem_readingsOf hlocale (Reader.mem_readingsOf_of_read h ht)
  refine ⟨description, hdescribe, Reader.exists_read ?_ (hstrip.symm ▸ hmem)⟩
  rw [hstrip]
  exact readable_of_ordinary reader.locale hordinary

/-- A reading with an inverted time, in a limit too, whose description gives both times plainly. -/
theorem Reader.read_describe_quarterPast :
    let reader : Reader := ⟨.english, ⟨⟨2024, 1, 3, by decide⟩, 9, 30, 0, 0⟩, .midnight⟩
    let text := "every Monday quarter past 5 until 1.6.2026 half past 9"
    let description := "every Monday at 05:15 until on 01.06.2026 at 09:30"
    reader.locale = .english ∧ ∃ readings, reader.read text = .ok readings ∧ ∃ t ∈ readings,
      t.describe = .ok description ∧
        ∃ others, reader.read description = .ok others ∧ t.plain ∈ others := by
  intro reader text description
  have hread : (reader.read text).toOption.any
      (·.any (·.describe = .ok description)) = true := by decide +kernel
  obtain ⟨readings, hok, hany⟩ := exists_eq_ok_of_any hread
  obtain ⟨t, ht, hdescribe⟩ := List.any_eq_true.1 hany
  obtain ⟨other, hother, hreread⟩ := Reader.read_describe rfl hok ht
  obtain rfl := Except.ok.inj (hother.symm.trans (of_decide_eq_true hdescribe))
  exact ⟨rfl, readings, hok, t, ht, hother, hreread⟩

end TimePhrase

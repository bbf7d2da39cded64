import TimePhrase.Reading.Selection

/-!
# The order of readings

The readings of an expression come in no particular order. Where they are listed they are
sorted by their descriptions, and readings with the same description by the names of the
kinds of their parts.
-/

namespace TimePhrase

/-- Puts an item in front of the first one whose key is not smaller. -/
def insertByKey {α κ : Type} [LT κ] [DecidableLT κ] (key : α → κ) (item : α) : List α → List α
  | [] => [item]
  | other :: rest =>
    if key other < key item then other :: insertByKey key item rest else item :: other :: rest

/-- Items in the order of their keys. Items with the same key keep their order. -/
def sortByKey {α κ : Type} [LT κ] [DecidableLT κ] (key : α → κ) (items : List α) : List α :=
  items.foldr (insertByKey key) []

theorem insertByKey_perm {α κ : Type} [LT κ] [DecidableLT κ] (key : α → κ) (item : α)
    (items : List α) : (insertByKey key item items).Perm (item :: items) := by
  induction items with
  | nil => exact .refl _
  | cons other rest ih =>
    rw [insertByKey]
    split
    · exact (ih.cons other).trans (.swap ..)
    · exact .refl _

/-- Sorted, items are the same. -/
theorem sortByKey_perm {α κ : Type} [LT κ] [DecidableLT κ] (key : α → κ) (items : List α) :
    (sortByKey key items).Perm items := by
  induction items with
  | nil => exact .refl _
  | cons item rest ih => exact (insertByKey_perm key item _).trans (ih.cons item)

namespace Term

/-- The description of a term. Every reading has one, and a term that has none is left without. -/
def text (t : Term) : String := t.describe.toOption.getD ""

theorem text_of_describe {t : Term} {description : String} (h : t.describe = .ok description) :
    t.text = description := by
  rw [text, h]
  rfl

/-- Terms in the order of their descriptions. -/
def sortByText (terms : List Term) : List Term := sortByKey text terms

/-- Terms in the order of their descriptions, then of the kinds of their parts. -/
def sorted (terms : List Term) : List Term :=
  sortByText (sortByKey (fun t => t.kinds.map Kind.name) terms)

theorem sorted_perm (terms : List Term) : (sorted terms).Perm terms :=
  (sortByKey_perm text _).trans (sortByKey_perm _ terms)

end Term

end TimePhrase

import TimePhrase.Proofs.Toml.Text
import TimePhrase.Toml.Document

/-!
# Values that later statements keep

A document can add keys to tables and tables to arrays, but it cannot give a key a second
value. Hence whatever holds of the value of a key, and goes on to hold when tables are changed
in that value or added to it, holds to the end of the document. What one change of a table
keeps is said first, then what a statement keeps, and then what all statements keep.
-/

namespace TimePhrase.Toml

/-- What holds of a value goes on to hold when tables are changed in it or added to it. -/
structure Lasting (holds : Value → Prop) : Prop where
  inTable : ∀ t t', holds (.table t) → holds (.table t')
  inLast : ∀ items t t', items.getLast? = some (.table t) → holds (.array items) →
    holds (.array (items.dropLast ++ [.table t']))
  inNew : ∀ items, holds (.array items) → holds (.array (items ++ [.table []]))

/-- A string is not changed at all. -/
theorem lasting_text (content : String) : Lasting (· = .text content) :=
  ⟨nofun, nofun, nofun⟩

namespace Table

variable {holds : Value → Prop} {t t' : Table} {key other : String} {value : Value}
  {keys path : List String}

theorem get?_cons (k : String) (v : Value) (rest : Table) :
    get? ((k, v) :: rest) key = if k = key then some v else get? rest key := by
  by_cases h : k = key <;> simp [get?, h]

@[simp] theorem get?_set_self : (t.set key value).get? key = some value := by
  fun_induction set key value t <;> simp_all [get?_cons]

theorem get?_set_of_ne (h : other ≠ key) : (t.set key value).get? other = t.get? other := by
  have hne := h.symm
  fun_induction set key value t <;> simp_all [get?_cons]

/-- The key at the end of a path has a value of which something holds. -/
def HasAt (holds : Value → Prop) : List String → Table → Prop
  | [], _ => False
  | [key], t => ∃ value, t.get? key = some value ∧ holds value
  | key :: path, t => ∃ inner, t.get? key = some (.table inner) ∧ HasAt holds path inner

/-- Something that holds of a value somewhere in a table goes on to hold when the table is
changed. -/
def Keeps (holds : Value → Prop) (change : Table → Option Table) : Prop :=
  ∀ keys t t', change t = some t' → HasAt holds keys t → HasAt holds keys t'

theorem keeps_some : Keeps holds some := by
  rintro keys t t' ⟨⟩ h
  exact h

/-- Setting one key leaves what hangs from the others. -/
theorem HasAt.set_of_ne (h : HasAt holds (other :: keys) t) (hne : other ≠ key) :
    HasAt holds (other :: keys) (t.set key value) := by
  cases keys <;> simpa only [HasAt, get?_set_of_ne hne] using h

/-- A list of tables may be changed in its place, for nothing hangs from it but itself. -/
theorem HasAt.set_array {items items' : List Value} (h : HasAt holds (key :: keys) t)
    (hitems : t.get? key = some (.array items))
    (hkept : holds (.array items) → holds (.array items')) :
    HasAt holds (key :: keys) (t.set key (.array items')) := by
  cases keys with
  | nil =>
    obtain ⟨value, hvalue, hholds⟩ := h
    obtain rfl := Option.some.inj (hvalue.symm.trans hitems)
    exact ⟨_, get?_set_self, hkept hholds⟩
  | cons next keys =>
    obtain ⟨inner, hinner, -⟩ := h
    cases hinner.symm.trans hitems

/-- What hangs from a key is not there before the key is. -/
theorem HasAt.get?_ne_none (h : HasAt holds (key :: keys) t) : t.get? key ≠ none := by
  cases keys with
  | nil =>
    obtain ⟨value, hvalue, -⟩ := h
    simp [hvalue]
  | cons next keys =>
    obtain ⟨inner, hinner, -⟩ := h
    simp [hinner]

/-- A key with a new value: what hung from it has to hang from it still. -/
theorem keeps_of_set {change : Table → Option Table}
    (h : ∀ t t', change t = some t' → ∃ key value, t' = t.set key value ∧
      ∀ keys, HasAt holds (key :: keys) t → HasAt holds (key :: keys) t') :
    Keeps holds change := by
  rintro keys t t' hchange hhas
  obtain ⟨key, value, rfl, hkey⟩ := h t t' hchange
  match keys with
  | other :: keys =>
    by_cases hne : other = key
    · subst hne
      exact hkey keys hhas
    · exact hhas.set_of_ne hne

theorem keeps_modify? (hlasting : Lasting holds) {enter : Bool} {change : Table → Option Table}
    (hchange : Keeps holds change) : Keeps holds (modify? enter change path) := by
  induction path with
  | nil => exact hchange
  | cons key path ih =>
    refine keeps_of_set fun t t' h => ?_
    rw [modify?] at h
    split at h
    · next hnone =>
      obtain ⟨inner, -, h⟩ := Option.bind_eq_some_iff.1 h
      cases h
      exact ⟨key, _, rfl, fun keys hhas => absurd hnone hhas.get?_ne_none⟩
    · next inner hinner =>
      obtain ⟨inner', hmodify, h⟩ := Option.bind_eq_some_iff.1 h
      cases h
      refine ⟨key, _, rfl, fun keys hhas => ?_⟩
      cases keys with
      | nil =>
        obtain ⟨value, hvalue, hholds⟩ := hhas
        obtain rfl := Option.some.inj (hvalue.symm.trans hinner)
        exact ⟨_, get?_set_self, hlasting.inTable _ _ hholds⟩
      | cons next keys =>
        obtain ⟨inner'', hinner', hhas⟩ := hhas
        obtain rfl := Value.table.inj (Option.some.inj (hinner'.symm.trans hinner))
        exact ⟨_, get?_set_self, ih _ _ _ hmodify hhas⟩
    · next items hitems =>
      split at h
      · next inner _ hlast =>
        obtain ⟨inner', hmodify, h⟩ := Option.bind_eq_some_iff.1 h
        cases h
        exact ⟨key, _, rfl, fun keys hhas => hhas.set_array hitems (hlasting.inLast _ _ _ hlast)⟩
      · cases h
    · cases h

theorem keeps_add? (hlasting : Lasting holds) {enter : Bool} :
    Keeps holds (add? enter path key value) := by
  refine keeps_modify? hlasting (keeps_of_set fun t t' h => ?_)
  split at h
  · cases h
  · next hnone =>
    cases h
    exact ⟨key, value, rfl, fun keys hhas => absurd (by simpa using hnone) hhas.get?_ne_none⟩

theorem keeps_addElement? (hlasting : Lasting holds) : Keeps holds (addElement? path key) := by
  refine keeps_modify? hlasting (keeps_of_set fun t t' h => ?_)
  split at h
  · next hnone =>
    cases h
    exact ⟨key, _, rfl, fun keys hhas => absurd hnone hhas.get?_ne_none⟩
  · next items hitems =>
    cases h
    exact ⟨key, _, rfl, fun keys hhas => hhas.set_array hitems (hlasting.inNew _)⟩
  · cases h

end Table

namespace Document

open Table (HasAt keeps_some keeps_add? keeps_modify? keeps_addElement?)

variable {holds : Value → Prop} {d d' : Document} {keys : List String} {cs rest : List Char}

theorem hasAt_put (hlasting : Lasting holds) {key : List String} {value : Value}
    (h : d.put key value = .ok d') (hhas : HasAt holds keys d.content) :
    HasAt holds keys d'.content := by
  simp only [put] at h
  by_cases hfixed : ((d.tablesOnWay key).any d.opened.contains ||
      d.isFrozen (d.header ++ key.dropLast)) = true
  · rw [if_pos hfixed] at h
    cases h
  rw [if_neg hfixed] at h
  cases hadd : d.content.add? true (d.header ++ key.dropLast) (key.getLastD "") value with
  | none =>
    rw [hadd] at h
    cases h
  | some content =>
    rw [hadd] at h
    cases h
    exact keeps_add? hlasting _ _ _ hadd hhas

theorem hasAt_openTable (hlasting : Lasting holds) {path : List String}
    (h : d.openTable path = .ok d') (hhas : HasAt holds keys d.content) :
    HasAt holds keys d'.content := by
  unfold openTable at h
  split at h
  · cases h
  split at h
  · cases h
  · next hmodify =>
    cases h
    exact keeps_modify? hlasting keeps_some _ _ _ hmodify hhas

theorem hasAt_openElement (hlasting : Lasting holds) {path : List String}
    (h : d.openElement path = .ok d') (hhas : HasAt holds keys d.content) :
    HasAt holds keys d'.content := by
  unfold openElement at h
  split at h
  · cases h
  split at h
  · cases h
  · next hadd =>
    cases h
    exact keeps_addElement? hlasting _ _ _ hadd hhas

theorem hasAt_statement (hlasting : Lasting holds) (h : d.statement cs = .ok (d', rest))
    (hhas : HasAt holds keys d.content) : HasAt holds keys d'.content := by
  unfold statement at h
  split at h
  · obtain ⟨⟨path, rest⟩, -, h⟩ := bind_eq_ok_iff.1 h
    dsimp only at h
    split at h
    · obtain ⟨opened, hopened, h⟩ := bind_eq_ok_iff.1 h
      cases h
      exact hasAt_openElement hlasting hopened hhas
    · cases h
  · obtain ⟨⟨path, rest⟩, -, h⟩ := bind_eq_ok_iff.1 h
    dsimp only at h
    split at h
    · obtain ⟨opened, hopened, h⟩ := bind_eq_ok_iff.1 h
      cases h
      exact hasAt_openTable hlasting hopened hhas
    · cases h
  · split at h
    · obtain ⟨⟨key, rest⟩, -, h⟩ := bind_eq_ok_iff.1 h
      dsimp only at h
      split at h
      · obtain ⟨⟨value, rest⟩, -, h⟩ := bind_eq_ok_iff.1 h
        obtain ⟨more, hput, h⟩ := bind_eq_ok_iff.1 h
        cases h
        exact hasAt_put hlasting hput hhas
      · cases h
    · cases h
      exact hhas
  · cases h
    exact hhas

/-- What holds of a value in the document holds of it to the end, by induction on the number of
statements. -/
theorem hasAt_statements (hlasting : Lasting holds) {fuel : Nat}
    (h : d.statements fuel cs = .ok d') (hhas : HasAt holds keys d.content) :
    HasAt holds keys d'.content := by
  induction fuel generalizing d cs with
  | zero =>
    cases h
    exact hhas
  | succ fuel ih =>
    obtain ⟨⟨next, rest⟩, hstatement, h⟩ := bind_eq_ok_iff.1 h
    obtain ⟨rest', -, h⟩ := bind_eq_ok_iff.1 h
    have hnext := hasAt_statement hlasting hstatement hhas
    split at h
    · cases h
      exact hnext
    · exact ih h hnext
    · cases h

end Document

end TimePhrase.Toml

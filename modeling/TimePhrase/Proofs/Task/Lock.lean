import Mathlib.Data.List.Basic
import TimePhrase.Task.Lock

/-!
# Who holds a lock at once

A lock keeps no list of those who hold it, only a number of readers and a mark for a writer. In
whatever order it is taken and given back, these two account for all accesses that are out, and
whoever writes does so alone. Work that takes the lock and fails leaves it as it found it.
-/

namespace TimePhrase

namespace Lock

variable {l l' : Lock} {a : Access} {accesses held : List Access}

/-- How a lock is used from the start on. The list holds the accesses that have been taken and not
yet given back. -/
inductive InUse : List Access → Lock → Prop
  | free : InUse [] free
  | acquire {held : List Access} {l l' : Lock} {a : Access} (h : InUse held l)
    (hacquire : l.acquire? a = some l') : InUse (a :: held) l'
  | release {held : List Access} {l : Lock} {a : Access} (h : InUse held l) (ha : a ∈ held) :
    InUse (held.erase a) (l.release a)

/-- What a lock knows of the accesses that are out. -/
structure Accounts (held : List Access) (l : Lock) : Prop where
  readers : l.readers = held.count .read
  writing : l.writing = true ↔ .write ∈ held
  alone : .write ∈ held → held = [.write]

section Steps

theorem acquire?_read_eq_some_iff : l.acquire? .read = some l' ↔
    l.writing = false ∧ { l with readers := l.readers + 1 } = l' := by
  simp [acquire?]

theorem acquire?_write_eq_some_iff : l.acquire? .write = some l' ↔
    (l.writing = false ∧ l.readers = 0) ∧ { l with writing := true } = l' := by
  simp [acquire?]

/-- To give back what was just taken is to take nothing. -/
theorem release_of_acquire? (h : l.acquire? a = some l') : l'.release a = l := by
  cases a with
  | read =>
    obtain ⟨-, rfl⟩ := acquire?_read_eq_some_iff.1 h
    rfl
  | write =>
    obtain ⟨⟨hwriting, -⟩, rfl⟩ := acquire?_write_eq_some_iff.1 h
    rw [release, ← hwriting]

theorem accounts_free : Accounts [] free := ⟨rfl, by simp [free], nofun⟩

namespace Accounts

/-- Without a writer and without readers there is nobody. -/
theorem held_eq_nil (h : Accounts held l) (hwriting : l.writing = false)
    (hreaders : l.readers = 0) : held = [] := by
  have hwrite : .write ∉ held := by
    rw [← h.writing, hwriting]
    exact Bool.false_ne_true
  have hread : .read ∉ held := List.count_eq_zero.1 (h.readers.symm.trans hreaders)
  refine List.eq_nil_iff_forall_not_mem.2 fun a ha => ?_
  cases a with
  | read => exact hread ha
  | write => exact hwrite ha

theorem acquire (h : Accounts held l) (hacquire : l.acquire? a = some l') :
    Accounts (a :: held) l' := by
  cases a with
  | read =>
    obtain ⟨hwriting, rfl⟩ := acquire?_read_eq_some_iff.1 hacquire
    have hmem : .write ∈ .read :: held ↔ .write ∈ held := by simp
    refine ⟨by rw [List.count_cons_self, h.readers], h.writing.trans hmem.symm, fun hwrite => ?_⟩
    rw [hmem, ← h.writing, hwriting] at hwrite
    cases hwrite
  | write =>
    obtain ⟨⟨hwriting, hreaders⟩, rfl⟩ := acquire?_write_eq_some_iff.1 hacquire
    obtain rfl := h.held_eq_nil hwriting hreaders
    exact ⟨hreaders, by simp, fun _ => rfl⟩

theorem release (h : Accounts held l) (ha : a ∈ held) : Accounts (held.erase a) (l.release a) := by
  cases a with
  | read =>
    have hmem : .write ∈ held.erase .read ↔ .write ∈ held := List.mem_erase_of_ne (by decide)
    refine ⟨?_, h.writing.trans hmem.symm, fun hwrite => ?_⟩
    · rw [List.count_erase_self, ← h.readers, Lock.release]
    · rw [h.alone (hmem.1 hwrite)] at ha
      cases List.mem_singleton.1 ha
  | write =>
    obtain rfl := h.alone ha
    exact ⟨h.readers, by simp [Lock.release], by simp⟩

theorem acquire?_read_isSome_iff (h : Accounts held l) :
    (l.acquire? .read).isSome ↔ .write ∉ held := by
  simp [Option.isSome_iff_exists, acquire?_read_eq_some_iff, ← h.writing]

theorem acquire?_write_isSome_iff (h : Accounts held l) :
    (l.acquire? .write).isSome ↔ held = [] := by
  simp only [Option.isSome_iff_exists, acquire?_write_eq_some_iff, exists_and_left, exists_eq',
    and_true]
  constructor
  · rintro ⟨hwriting, hreaders⟩
    exact h.held_eq_nil hwriting hreaders
  · rintro rfl
    exact ⟨by simpa using h.writing, h.readers⟩

end Accounts

end Steps

section Runs

/-- In whatever order it was taken and given back, the lock accounts for the accesses that are
out. -/
theorem InUse.accounts (h : InUse held l) : Accounts held l := by
  induction h with
  | free => exact accounts_free
  | acquire _ hacquire ih => exact ih.acquire hacquire
  | release _ ha ih => exact ih.release ha

theorem InUse.acquireAll? (h : InUse held l) (hacquire : l.acquireAll? accesses = some l') :
    InUse (accesses.reverse ++ held) l' := by
  induction accesses generalizing held l with
  | nil =>
    obtain rfl := Option.some.inj hacquire
    exact h
  | cons a accesses ih =>
    obtain ⟨next, hnext, hrest⟩ := Option.bind_eq_some_iff.1 hacquire
    rw [List.reverse_cons, List.append_assoc]
    exact ih (h.acquire hnext) hrest

/-- Many may read at once, or one may write alone. While there is a writer nobody else holds the
lock, and it is refused just to a reader beside a writer and to a writer beside anybody. -/
theorem InUse.exclusive (h : InUse held l) :
    (.write ∈ held → held = [.write]) ∧ ((l.acquire? .read).isSome ↔ .write ∉ held) ∧
      ((l.acquire? .write).isSome ↔ held = []) :=
  ⟨h.accounts.alone, h.accounts.acquire?_read_isSome_iff, h.accounts.acquire?_write_isSome_iff⟩

/-- Accesses that were taken inside one another are given back from the inside out, and leave the
lock as it was. -/
theorem releaseAll_of_acquireAll? (h : l.acquireAll? accesses = some l') :
    l'.releaseAll accesses = l := by
  induction accesses generalizing l with
  | nil => exact (Option.some.inj h).symm
  | cons a accesses ih =>
    obtain ⟨next, hnext, hrest⟩ := Option.bind_eq_some_iff.1 h
    rw [releaseAll, List.reverse_cons, List.foldl_append, ← releaseAll, ih hrest]
    exact release_of_acquire? hnext

theorem acquireAll?_isSome_of_readers (hwriting : l.writing = false)
    (hread : .write ∉ accesses) : (l.acquireAll? accesses).isSome := by
  induction accesses generalizing l with
  | nil => rfl
  | cons a accesses ih =>
    rw [List.mem_cons, not_or] at hread
    cases a with
    | write => exact absurd rfl hread.1
    | read =>
      have hnext := acquire?_read_eq_some_iff.2 ⟨hwriting, rfl⟩
      rw [acquireAll?, List.foldlM_cons, hnext]
      exact ih hwriting hread.2

/-- Of a free lock any number of reading accesses can be taken, or a single writing one. -/
theorem acquireAll?_free_isSome_iff :
    (free.acquireAll? accesses).isSome ↔ .write ∉ accesses ∨ accesses = [.write] := by
  constructor
  · intro h
    obtain ⟨l, hacquire⟩ := Option.isSome_iff_exists.1 h
    have halone := (InUse.free.acquireAll? hacquire).exclusive.1
    rw [List.append_nil, List.mem_reverse, List.reverse_eq_iff] at halone
    exact (em (.write ∈ accesses)).elim (fun hwrite => .inr (halone hwrite)) .inl
  · rintro (hread | rfl)
    · exact acquireAll?_isSome_of_readers rfl hread
    · rfl

end Runs

end Lock

end TimePhrase

import TimePhrase.Session
import TimePhrase.Proofs.Evaluation
import TimePhrase.Proofs.Occurrence.Listing
import TimePhrase.Proofs.Reading.Completion

/-!
# What a session keeps

After any requests a session is where those of them lead that did not fail. No operation stays
registered, whatever it has come to, and once the session is closed nothing more is read. All that
is kept can be evaluated, so a question about it fails only if the time asked for is at fault.
Advancing step by step leads along the list of occurrences, and where the list is lost to a failure
the cursor stays on the last occurrence before it.
-/

namespace TimePhrase

namespace Session

variable {s s' : Session} {request : Request} {requests : List Request}

/-- What a request does to a session if it does not fail. -/
inductive Moves (s : Session) : Session → Prop
  | counts (hopen : s.isClosed = false) : s.Moves { s with nextId := s.nextId + 1 }
  | reads {text : String} {readings : List Term} (hopen : s.isClosed = false)
    (hread : s.reader.read text = .ok readings) :
    s.Moves { s with readings := Term.sorted readings }
  | clock (now : DateTime) : s.Moves (s.setClock now)
  | schedules {term : Term} {since : DateTime} {schedule : Schedule} (hterm : term ∈ s.readings)
    (hschedule : Schedule.ofTerm term since s.reader.defaultTime = .ok schedule) :
    s.Moves { s with schedule := some schedule, cursor := since }
  | advances {time : DateTime} (htime : s.next s.cursor = .ok time) :
    s.Moves { s with cursor := time }
  | closes : s.Moves s.close
  | stays : s.Moves s

section Steps

/-- An operation uses up a number. Nothing else in the session is changed by it, even if the
operation fails. -/
theorem submit_eq_ok_iff {listener : Listener} {text : String} {several : Bool} {op : Operation} :
    s.submit listener text several = .ok (op, s') ↔ s.isClosed = false ∧
      s.reader.submit listener s.nextId s.registered text several = op ∧
        { s with nextId := s.nextId + 1 } = s' := by
  have hregistered :=
    Operation.registered_submit s.reader listener s.nextId s.registered text several
  cases hclosed : s.isClosed <;> simp [submit, hclosed, hregistered, bind, Except.bind]

theorem read_eq_ok_iff {text : String} : s.read text = .ok s' ↔ s.isClosed = false ∧
    ∃ readings, s.reader.read text = .ok readings ∧
      { s with readings := Term.sorted readings } = s' := by
  cases hclosed : s.isClosed
  · simp [read, hclosed, bind_eq_ok_iff]
  · simp [read, hclosed, bind, Except.bind]

theorem pick_eq_ok_iff {index : Nat} {term : Term} :
    s.pick index = .ok term ↔ s.readings[index]? = some term := by
  rw [pick]
  split <;> simp_all

theorem advance_eq_ok_iff {time : DateTime} :
    s.advance = .ok (time, s') ↔ s.next s.cursor = .ok time ∧ { s with cursor := time } = s' := by
  simp only [advance, bind_eq_ok_iff, pure_eq_ok, Except.ok.injEq, Prod.mk.injEq]
  constructor
  · rintro ⟨_, hnext, rfl, rfl⟩
    exact ⟨hnext, rfl⟩
  · rintro ⟨hnext, rfl⟩
    exact ⟨time, hnext, rfl, rfl⟩

/-- A request that only asks leaves the session as it is. -/
theorem moves_of_asking {α : Type} {answer : Except Failure α}
    (h : (do let _ ← answer; return s) = Except.ok (ε := Failure) s') : s.Moves s' := by
  obtain ⟨_, -, h⟩ := bind_eq_ok_iff.1 h
  obtain rfl := Except.ok.inj h
  exact .stays

theorem moves_of_after (h : s.after request = .ok s') : s.Moves s' := by
  cases request with
  | submit listener text several =>
    obtain ⟨⟨op, next⟩, hsubmit, h⟩ := bind_eq_ok_iff.1 h
    obtain ⟨hopen, -, rfl⟩ := submit_eq_ok_iff.1 hsubmit
    obtain rfl := Except.ok.inj h
    exact .counts hopen
  | readAll text =>
    obtain ⟨⟨result, next⟩, hreadAll, h⟩ := bind_eq_ok_iff.1 h
    obtain ⟨⟨op, counted⟩, hsubmit, hreadAll⟩ := bind_eq_ok_iff.1 hreadAll
    obtain ⟨_, -, hreadAll⟩ := bind_eq_ok_iff.1 hreadAll
    obtain ⟨hopen, -, rfl⟩ := submit_eq_ok_iff.1 hsubmit
    obtain ⟨-, rfl⟩ := Prod.mk.inj (Except.ok.inj hreadAll)
    obtain rfl := Except.ok.inj h
    exact .counts hopen
  | read text =>
    obtain ⟨hopen, readings, hread, rfl⟩ := read_eq_ok_iff.1 h
    exact .reads hopen hread
  | setClock now =>
    obtain rfl := Except.ok.inj h
    exact .clock now
  | makeSchedule index since =>
    obtain ⟨⟨schedule, next⟩, hmade, h⟩ := bind_eq_ok_iff.1 h
    obtain ⟨term, hterm, hmade⟩ := bind_eq_ok_iff.1 hmade
    obtain ⟨made, hschedule, hmade⟩ := bind_eq_ok_iff.1 hmade
    obtain ⟨-, rfl⟩ := Prod.mk.inj (Except.ok.inj hmade)
    obtain rfl := Except.ok.inj h
    exact .schedules (List.mem_of_getElem? (pick_eq_ok_iff.1 hterm)) hschedule
  | advance =>
    obtain ⟨⟨time, next⟩, hadvance, h⟩ := bind_eq_ok_iff.1 h
    obtain ⟨htime, rfl⟩ := advance_eq_ok_iff.1 hadvance
    obtain rfl := Except.ok.inj h
    exact .advances htime
  | close =>
    obtain rfl := Except.ok.inj h
    exact .closes
  | snooze | next | occurrences => exact moves_of_asking h

end Steps

section Kept

/-- What requests leave alone. The language, the time of day that stands for none and the register
are never changed, and what has been read stays as it is once the session is closed. -/
structure Keeps (s s' : Session) : Prop where
  locale : s'.reader.locale = s.reader.locale
  defaultTime : s'.reader.defaultTime = s.reader.defaultTime
  registered : s'.registered = s.registered
  closed : s.isClosed = true →
    s'.isClosed = true ∧ s'.readings = s.readings ∧ s'.nextId = s.nextId

theorem Keeps.refl (s : Session) : s.Keeps s := ⟨rfl, rfl, rfl, fun h => ⟨h, rfl, rfl⟩⟩

theorem Keeps.trans {s'' : Session} (h : s.Keeps s') (h' : s'.Keeps s'') : s.Keeps s'' where
  locale := h'.locale.trans h.locale
  defaultTime := h'.defaultTime.trans h.defaultTime
  registered := h'.registered.trans h.registered
  closed := fun hclosed => by
    obtain ⟨hclosed, hreadings, hnextId⟩ := h.closed hclosed
    obtain ⟨hclosed, hreadings', hnextId'⟩ := h'.closed hclosed
    exact ⟨hclosed, hreadings'.trans hreadings, hnextId'.trans hnextId⟩

theorem Moves.keeps (h : s.Moves s') : s.Keeps s' := by
  cases h with
  | counts hopen | reads hopen =>
    exact ⟨rfl, rfl, rfl, fun hclosed => by simp [hopen] at hclosed⟩
  | clock | schedules | advances => exact ⟨rfl, rfl, rfl, fun hclosed => ⟨hclosed, rfl, rfl⟩⟩
  | closes => exact ⟨rfl, rfl, rfl, fun _ => ⟨rfl, rfl, rfl⟩⟩
  | stays => exact .refl s

/-- Every term that is kept can be evaluated, and so can the schedule that was made of one. -/
structure Sound (s : Session) : Prop where
  readings : ∀ t ∈ s.readings, t.Evaluable ∧ t.PlainLimits
  schedule : ∀ schedule ∈ s.schedule, ∀ query, Evaluates (schedule.next query)

theorem sound_start (reader : Reader) : (start reader).Sound := ⟨nofun, nofun⟩

theorem Moves.sound (h : s.Moves s') (hsound : s.Sound) : s'.Sound := by
  cases h with
  | counts | clock | advances | closes | stays => exact ⟨hsound.readings, hsound.schedule⟩
  | @reads text readings _ hread =>
    refine ⟨fun t ht => ?_, hsound.schedule⟩
    have hmem := Reader.mem_readingsOf_of_read hread ((Term.sorted_perm readings).mem_iff.1 ht)
    exact (wellFormed_of_mem_readingsOf hmem).evaluable
  | @schedules term since schedule hterm hschedule =>
    obtain ⟨hevaluable, hlimits⟩ := hsound.readings term hterm
    refine ⟨hsound.readings, fun other hother => ?_⟩
    obtain rfl := Option.some.inj hother
    exact ((hevaluable.schedule hlimits since s.reader.defaultTime).2 schedule hschedule).2

end Kept

section Runs

/-- The requests succeed one after the other, and lead from one session to the other. -/
def Meets (s : Session) : List Request → Session → Prop
  | [], s' => s = s'
  | request :: requests, s' => ∃ next, s.after request = .ok next ∧ next.Meets requests s'

/-- A request that fails leaves the session as it was: after any requests it is where those lead
that succeed. -/
theorem exists_meets_run (s : Session) (requests : List Request) :
    ∃ met, met.Sublist requests ∧ s.Meets met (s.run requests) := by
  induction requests generalizing s with
  | nil => exact ⟨[], .slnil, rfl⟩
  | cons request requests ih =>
    rw [run]
    split
    · rename_i next hnext
      obtain ⟨met, hsub, hmet⟩ := ih next
      exact ⟨request :: met, hsub.cons_cons request, next, hnext, hmet⟩
    · obtain ⟨met, hsub, hmet⟩ := ih s
      exact ⟨met, hsub.cons request, hmet⟩

theorem Meets.keeps (h : s.Meets requests s') : s.Keeps s' := by
  induction requests generalizing s with
  | nil =>
    obtain rfl : s = s' := h
    exact .refl s
  | cons request requests ih =>
    obtain ⟨next, hnext, hrest⟩ := h
    exact (moves_of_after hnext).keeps.trans (ih hrest)

theorem Meets.sound (h : s.Meets requests s') (hsound : s.Sound) : s'.Sound := by
  induction requests generalizing s with
  | nil =>
    obtain rfl : s = s' := h
    exact hsound
  | cons request requests ih =>
    obtain ⟨next, hnext, hrest⟩ := h
    exact ih hrest ((moves_of_after hnext).sound hsound)

theorem keeps_run (s : Session) (requests : List Request) : s.Keeps (s.run requests) := by
  obtain ⟨met, -, hmet⟩ := s.exists_meets_run requests
  exact hmet.keeps

/-- After any requests no operation is registered, and what a session is asked about its readings
and its schedule has an answer unless the time asked for is at fault. -/
theorem run_start_answers (reader : Reader) (requests : List Request) :
    let s := (start reader).run requests
    s.registered = [] ∧
      (∀ schedule, s.schedule = some schedule → ∀ since, Evaluates (s.next since)) ∧
      ∀ index term, s.readings[index]? = some term → ∀ since,
        Evaluates (s.makeSchedule index since) ∧ Evaluates (s.snooze index since) := by
  intro s
  obtain ⟨met, -, hmet⟩ := (start reader).exists_meets_run requests
  have hsound : s.Sound := hmet.sound (sound_start reader)
  refine ⟨hmet.keeps.registered, fun schedule hschedule since => ?_,
    fun index term hterm since => ?_⟩
  · have hcurrent : s.current = .ok schedule := by rw [current, hschedule]
    rw [next, hcurrent, ok_bind]
    exact hsound.schedule schedule hschedule since
  · obtain ⟨hevaluable, hlimits⟩ := hsound.readings term (List.mem_of_getElem? hterm)
    rw [makeSchedule, snooze, pick_eq_ok_iff.2 hterm, ok_bind, ok_bind]
    exact ⟨(hevaluable.schedule hlimits _ _).1.bind fun schedule _ => evaluates_ok _,
      hevaluable.next (evaluates_ok Bounds.none)⟩

end Runs

section Advances

variable {repeated : Repeated} {times : List DateTime} {count : Nat}

theorem next_of_repeated (h : s.schedule = some (.repeated repeated)) (since : DateTime) :
    s.next since = repeated.next since := by
  rw [next, current, h]
  rfl

/-- Advances lead along occurrences in a row, and when one fails the rest of them do too. -/
theorem run_advance_of_inARow (h : s.schedule = some (.repeated repeated))
    (hrow : repeated.InARow s.cursor times) (hlength : times.length ≤ count)
    (hended : times.length < count →
      ∃ failure, repeated.next (times.getLastD s.cursor) = .error failure) :
    s.run (List.replicate count .advance) = { s with cursor := times.getLastD s.cursor } := by
  induction count generalizing s times with
  | zero =>
    obtain rfl := List.eq_nil_of_length_eq_zero (Nat.le_zero.1 hlength)
    rfl
  | succ count ih =>
    rw [List.replicate_succ, run, after, advance, next_of_repeated h]
    cases times with
    | nil =>
      obtain ⟨failure, hfailure⟩ := hended (Nat.succ_pos count)
      rw [List.getLastD_nil] at hfailure
      rw [hfailure]
      exact ih h hrow (Nat.zero_le count) fun _ => ⟨failure, hfailure⟩
    | cons time rest =>
      obtain ⟨hnext, hrest⟩ := Repeated.inARow_cons_iff.1 hrow
      rw [List.getLastD_cons] at hended ⊢
      rw [hnext]
      exact @ih { s with cursor := time } rest h hrest (Nat.le_of_succ_le_succ hlength)
        fun hlt => hended (Nat.succ_lt_succ hlt)

/-- Advancing is listing. As many advances as occurrences are asked for lead to the last one of the
list. Where the list is lost to a failure, they still lead to the last occurrence there is. -/
theorem run_advance_eq (h : s.schedule = some (.repeated repeated)) (count : Nat) :
    ∃ found, repeated.InARow s.cursor found ∧
      s.run (List.replicate count .advance) = { s with cursor := found.getLastD s.cursor } ∧
      (∀ times, repeated.occurrences s.cursor count = .ok times → times = found) ∧
      ∀ failure, repeated.occurrences s.cursor count = .error failure →
        repeated.next (found.getLastD s.cursor) = .error failure := by
  cases hlist : repeated.occurrences s.cursor count with
  | ok times =>
    obtain ⟨hrow, hlength, hended⟩ := Repeated.occurrences_eq_ok_iff.1 hlist
    refine ⟨times, hrow, run_advance_of_inARow h hrow hlength fun hlt => ?_, fun _ htimes =>
      (Except.ok.inj htimes).symm, nofun⟩
    obtain ⟨failure, hfailure, -⟩ := hended hlt
    exact ⟨failure, hfailure⟩
  | error failure =>
    obtain ⟨found, hrow, hlength, hlast, -⟩ := Repeated.occurrences_eq_error_iff.1 hlist
    refine ⟨found, hrow, run_advance_of_inARow h hrow (Nat.le_of_lt hlength) fun _ =>
      ⟨failure, hlast⟩, nofun, fun other hother => ?_⟩
    obtain rfl := Except.error.inj hother
    exact hlast

end Advances

end Session

end TimePhrase

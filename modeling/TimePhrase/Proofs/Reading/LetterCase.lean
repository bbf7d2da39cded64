import TimePhrase.Proofs.Pattern.Alike
import TimePhrase.Proofs.Reading.Parts
import TimePhrase.Proofs.Text.Case

/-!
# Letter case

An expression means the same in capital and in small letters. Every recognizer finds the same part
at the same place of both texts, or nothing in either, so that the same branches lead through them.
-/

namespace TimePhrase

open Text (SameButCase)

/-- Both runs fail in the same way, or come to related results. -/
def SameOutcome {α β : Type} (r : α → β → Prop) : Except Failure α → Except Failure β → Prop
  | .ok a, .ok b => r a b
  | .error failure, .error other => failure = other
  | .ok _, .error _ | .error _, .ok _ => False

namespace SameOutcome

variable {α β α' β' : Type} {r : α → β → Prop} {r' : α' → β' → Prop}

theorem bind {x : Except Failure α} {y : Except Failure β} {f : α → Except Failure α'}
    {g : β → Except Failure β'} (h : SameOutcome r x y)
    (hfg : ∀ a b, r a b → SameOutcome r' (f a) (g b)) : SameOutcome r' (x >>= f) (y >>= g) := by
  cases x <;> cases y
  · exact h
  · exact h.elim
  · exact h.elim
  · exact hfg _ _ h

theorem of_eq {x : Except Failure α} : SameOutcome (· = ·) x x := by
  cases x <;> rfl

end SameOutcome

theorem map_eq_of_rel {α β γ : Type} {r : α → β → Prop} {a : Option α} {b : Option β}
    {f : α → γ} {g : β → γ} (h : Option.Rel r a b) (hfg : ∀ a b, r a b → f a = g b) :
    a.map f = b.map g := by
  cases h with
  | none => rfl
  | some h => exact congrArg some (hfg _ _ h)

/-- No pattern depends on the case of basic letters, which count as equal. -/
theorem Pattern.blind_sameButCase {γ : Type} (p : Pattern γ) :
    p.Blind Text.sameLetter SameButCase := by
  intro k _ c d h
  cases k with
  | exactly e => simp only [CharClass.accepts, Text.sameLetter, Text.foldLetter_eq h]
  | digit => exact Text.isDigit_eq h
  | blank => exact Text.isBlank_eq h
  | word => exact Text.isWordChar_eq h
  | any =>
    have hline := Text.eq_iff_of_sameButCase h '\n' (by decide)
    exact decide_eq_decide.2 (not_congr hline)

namespace Recognizer

variable {g : Grammar} {m n : Match Field} {text other : List Char}

theorem begins_alike (p : Pattern Field) (h : List.Forall₂ SameButCase text other) :
    Option.Rel (Match.Alike SameButCase) (begins p text) (begins p other) :=
  Pattern.first?_alike p.blind_sameButCase h

theorem shortNumber?_eq (h : m.Alike SameButCase n) (field : Field) :
    shortNumber? m field = shortNumber? n field :=
  map_eq_of_rel (h.group? field) fun _ _ => Text.digitsValue_eq_of

theorem group?_getD_alike (h : m.Alike SameButCase n) (field : Field) :
    List.Forall₂ SameButCase ((m.group? field).getD []) ((n.group? field).getD []) := by
  have hkept := h.group? field
  generalize m.group? field = kept, n.group? field = kept' at hkept
  cases hkept with
  | none => exact .nil
  | some hkept => exact hkept

theorem lookUp_eq {α : Type} (meanings : List (String × α))
    (h : List.Forall₂ SameButCase text other) : lookUp meanings text = lookUp meanings other := by
  rw [lookUp, lookUp, Text.lower_eq h]

theorem readNumber_eq (h : List.Forall₂ SameButCase text other) :
    readNumber text = readNumber other := by
  rw [readNumber, readNumber, h.length_eq, Text.digitsValue_eq_of h]

theorem hourOf_eq (g : Grammar) (h : m.Alike SameButCase n) : hourOf g m = hourOf g n := by
  unfold hourOf
  rw [shortNumber?_eq h]
  have hmarker := h.group? .halfDay
  generalize m.group? .halfDay = marker, n.group? .halfDay = marker' at hmarker
  cases hmarker with
  | none => rfl
  | some hmarker => simp only [Text.lower_eq hmarker]

/-- The same part is found in both texts, with texts behind it that are the same but for the
case. -/
def SameFinding (found found' : Option Found) : Prop :=
  Option.Rel (fun a b => a.part = b.part ∧ List.Forall₂ SameButCase a.rest b.rest) found found'

theorem firstRead_alike {α β : Type} {read : α → Match Field → Except Failure (Option β)}
    (hread : ∀ info m n, m.Alike SameButCase n → read info m = read info n)
    (h : List.Forall₂ SameButCase text other) (patterns : List (Pattern Field × α)) :
    SameOutcome (Option.Rel fun a b => a.1 = b.1 ∧ List.Forall₂ SameButCase a.2 b.2)
      (firstRead read text patterns) (firstRead read other patterns) := by
  induction patterns with
  | nil => exact .none
  | cons pattern patterns ih =>
    obtain ⟨p, info⟩ := pattern
    have hbegins := begins_alike p h
    unfold firstRead
    generalize begins p text = found, begins p other = found' at hbegins
    cases hbegins with
    | none => exact ih
    | some hfound =>
      dsimp only
      rw [hread info _ _ hfound]
      refine SameOutcome.of_eq.bind fun value value' hvalue => ?_
      subst hvalue
      cases value with
      | none => exact ih
      | some value => exact .some ⟨rfl, hfound.rest⟩

theorem firstPart_alike {α : Type} {read : α → Match Field → Except Failure (Option Part)}
    (hread : ∀ info m n, m.Alike SameButCase n → read info m = read info n)
    (h : List.Forall₂ SameButCase text other) (patterns : List (Pattern Field × α)) :
    SameOutcome SameFinding (firstPart patterns text read) (firstPart patterns other read) := by
  refine (firstRead_alike hread h patterns).bind fun found found' hfound => ?_
  cases hfound with
  | none => exact .none
  | some hsame => exact .some hsame

theorem nameOf_eq (numbers : List (String × Nat)) (h : m.Alike SameButCase n) :
    nameOf numbers m = nameOf numbers n :=
  lookUp_eq numbers (group?_getD_alike h .name)

theorem counts_alike (g : Grammar) (item : Pattern Field) (found : List (TimeUnit × Int))
    (fuel : Nat) (h : List.Forall₂ SameButCase text other) :
    SameOutcome (fun a b => a.1 = b.1 ∧ List.Forall₂ SameButCase a.2 b.2)
      (counts g item found fuel text) (counts g item found fuel other) := by
  induction fuel generalizing text other found with
  | zero => exact ⟨rfl, h⟩
  | succ fuel ih =>
    have hbegins := begins_alike item h
    unfold counts
    generalize begins item text = m, begins item other = n at hbegins
    cases hbegins with
    | none => exact ⟨rfl, h⟩
    | @some m n hm =>
      dsimp only
      rw [lookUp_eq g.units (group?_getD_alike hm .unit)]
      refine SameOutcome.of_eq.bind fun unit unit' hunit => ?_
      subst hunit
      split
      · exact ⟨rfl, h⟩
      · have hcount := hm.group? .count
        generalize m.group? .count = digits, n.group? .count = digits' at hcount
        cases hcount with
        | none => exact ih _ hm.rest
        | some hdigits =>
          dsimp only
          rw [readNumber_eq hdigits]
          refine SameOutcome.of_eq.bind fun count count' hcount => ?_
          subst hcount
          exact ih _ hm.rest

theorem spanAfter_alike (g : Grammar) (opening item : Pattern Field) (looped : Bool)
    (h : List.Forall₂ SameButCase text other) :
    SameOutcome SameFinding (spanAfter g opening item looped text)
      (spanAfter g opening item looped other) := by
  have hbegins := begins_alike opening h
  unfold spanAfter
  generalize begins opening text = m, begins opening other = n at hbegins
  cases hbegins with
  | none => exact .none
  | some hm =>
    refine (counts_alike g item [] _ hm.rest).bind fun counted counted' hcounted => ?_
    obtain ⟨found, rest⟩ := counted
    obtain ⟨found', rest'⟩ := counted'
    obtain ⟨hfound, hrest⟩ := hcounted
    obtain rfl : found = found' := hfound
    dsimp only
    split
    · exact .none
    · exact .some ⟨rfl, hrest⟩

theorem span_alike (g : Grammar) (h : List.Forall₂ SameButCase text other) :
    SameOutcome SameFinding (span g text) (span g other) := by
  have honce := spanAfter_alike g g.onceSpan.1 g.onceSpan.2 false h
  unfold span
  dsimp only
  split
  · refine (spanAfter_alike g _ _ true h).bind fun looped looped' hsame => ?_
    cases hsame with
    | none => exact honce
    | some hsame => exact .some hsame
  · exact honce

/-- Every recognizer finds the same in two texts that differ only in the case of basic letters. -/
theorem ofKind_alike (kind : Kind) (g : Grammar) (h : List.Forall₂ SameButCase text other) :
    SameOutcome SameFinding (ofKind kind g text) (ofKind kind g other) := by
  cases kind with
  | time =>
    refine firstPart_alike (fun _ m n hm => ?_) h _
    simp only [hourOf_eq g hm, shortNumber?_eq hm]
  | invertedTime =>
    refine firstPart_alike (fun _ m n hm => ?_) h _
    simp only [hourOf_eq g hm, shortNumber?_eq hm,
      lookUp_eq g.minuteWords (group?_getD_alike hm .minutes)]
  | date =>
    refine firstPart_alike (fun _ m n hm => ?_) h _
    have hyear : yearOf m = yearOf n := by simp only [yearOf, shortNumber?_eq hm]
    rw [hyear, shortNumber?_eq hm, shortNumber?_eq hm]
  | monthDay =>
    refine firstPart_alike (fun _ m n hm => ?_) h _
    simp only [shortNumber?_eq hm]
  | weekday =>
    refine firstPart_alike (fun _ m n hm => ?_) h _
    simp only [nameOf_eq _ hm]
  | month =>
    refine firstPart_alike (fun _ m n hm => ?_) h _
    simp only [nameOf_eq _ hm]
  | year =>
    refine firstPart_alike (fun _ m n hm => ?_) h _
    have hdigits := group?_getD_alike hm .year
    generalize (m.group? .year).getD [] = digits, (n.group? .year).getD [] = digits' at hdigits
    have hminus {c d : Char} (h : SameButCase c d) : c = '-' ↔ d = '-' :=
      Text.eq_iff_of_sameButCase h '-' (by decide)
    have hhead : digits.head? = some '-' ↔ digits'.head? = some '-' := by
      cases hdigits with
      | nil => exact Iff.rfl
      | cons hc _ => simpa using hminus hc
    have hnumber : readNumber (digits.filter (· ≠ '-')) = readNumber (digits'.filter (· ≠ '-')) :=
      readNumber_eq (List.rel_filter (fun _ _ hc => by simpa using not_congr (hminus hc)) hdigits)
    simp only [hnumber, ne_eq, hhead]
  | span => exact span_alike g h
  | keyword => exact firstPart_alike (fun _ _ _ _ => rfl) h _
  | limiter => exact firstPart_alike (fun _ _ _ _ => rfl) h _

end Recognizer

/-- The same has been read of both texts, and what is left of them is the same but for the case. -/
structure Branch.Alike (branch other : Branch) : Prop where
  rest : List.Forall₂ SameButCase branch.rest other.rest
  main : branch.main = other.main
  openLimit : branch.openLimit = other.openLimit
  nested : branch.nested = other.nested

/-- The same comes to light in both texts. -/
structure Exploration.Alike (e f : Exploration) : Prop where
  readings : e.readings = f.readings
  rejections : e.rejections = f.rejections
  stuck : e.stuck = f.stuck
  children : List.Forall₂ Branch.Alike e.children f.children
  failure : e.failure = f.failure

namespace Branch

variable {reader : Reader} {branch branch' : Branch} {text other : List Char}

theorem Alike.closedParts_eq (h : branch.Alike branch') :
    branch.closedParts = branch'.closedParts := by
  unfold closedParts
  rw [h.main, h.openLimit, h.nested]

theorem Alike.finish_eq (h : branch.Alike branch') :
    branch.finish reader = branch'.finish reader := by
  rw [finish, finish, h.closedParts_eq]

theorem Alike.extend (h : branch.Alike branch') {found found' : Found}
    (hpart : found.part = found'.part) (hrest : List.Forall₂ SameButCase found.rest found'.rest) :
    SameOutcome Alike (branch.extend found) (branch'.extend found') := by
  obtain ⟨part, rest⟩ := found
  obtain ⟨part', rest'⟩ := found'
  obtain rfl : part = part' := hpart
  unfold Branch.extend
  cases part with
  | limiter side nested =>
    dsimp only
    rw [h.closedParts_eq]
    refine SameOutcome.of_eq.bind fun main main' hmain => ?_
    subst hmain
    exact SameOutcome.of_eq.bind fun _ _ _ => ⟨hrest, rfl, rfl, rfl⟩
  | content c =>
    dsimp only
    rw [h.openLimit, h.nested, h.main]
    split
    · exact SameOutcome.of_eq.bind fun _ _ _ => ⟨hrest, rfl, rfl, rfl⟩
    · exact SameOutcome.of_eq.bind fun _ _ _ => ⟨hrest, rfl, rfl, rfl⟩

theorem Alike.recognize (h : branch.Alike branch') (grammar : Grammar) (kind : Kind) :
    SameOutcome (Option.Rel fun a b => a.1.part = b.1.part ∧
      List.Forall₂ SameButCase a.1.rest b.1.rest)
      (branch.recognize grammar kind) (branch'.recognize grammar kind) := by
  refine (Recognizer.ofKind_alike kind grammar h.rest).bind fun found found' hfound => ?_
  cases hfound with
  | none => exact .none
  | @some a b hsame =>
    have hlengths : a.rest.length < branch.rest.length ↔ b.rest.length < branch'.rest.length := by
      rw [hsame.2.length_eq, h.rest.length_eq]
    dsimp only
    by_cases hshorter : a.rest.length < branch.rest.length
    · rw [dif_pos hshorter, dif_pos (hlengths.1 hshorter)]
      exact .some hsame
    · rw [dif_neg hshorter, dif_neg (mt hlengths.2 hshorter)]
      exact .none

theorem Alike.exploreKinds (h : branch.Alike branch') (hlength : text.length = other.length)
    (grammar : Grammar) (recognized : Bool) (kinds : List Kind) :
    (branch.exploreKinds grammar text recognized kinds).Alike
      (branch'.exploreKinds grammar other recognized kinds) := by
  induction kinds generalizing recognized with
  | nil =>
    have hoffset : branch.offset text = branch'.offset other := by
      rw [offset, offset, hlength, h.rest.length_eq]
    unfold Branch.exploreKinds
    rw [hoffset]
    exact ⟨rfl, rfl, rfl, .nil, rfl⟩
  | cons kind kinds ih =>
    have hrecognized := h.recognize grammar kind
    unfold Branch.exploreKinds
    generalize branch.recognize grammar kind = answer, branch'.recognize grammar kind = answer'
      at hrecognized
    cases answer <;> cases answer'
    · obtain rfl : _ = _ := hrecognized
      exact ⟨rfl, rfl, rfl, .nil, rfl⟩
    · exact hrecognized.elim
    · exact hrecognized.elim
    · cases hrecognized with
      | none => exact ih recognized
      | @some found found' hfound =>
        obtain ⟨⟨part, rest⟩, hshorter⟩ := found
        obtain ⟨⟨part', rest'⟩, hshorter'⟩ := found'
        have hextend := h.extend hfound.1 hfound.2
        have hothers := ih true
        dsimp only at hfound hextend ⊢
        generalize branch.extend ⟨part, rest⟩ = extended,
          branch'.extend ⟨part', rest'⟩ = extended' at hextend
        cases extended <;> cases extended'
        · obtain rfl : _ = _ := hextend
          rename_i failure
          cases failure
          case expression error =>
            have hplace : text.length - rest.length = other.length - rest'.length := by
              rw [hlength, hfound.2.length_eq]
            refine ⟨hothers.readings, ?_, hothers.stuck, hothers.children, hothers.failure⟩
            simp only [hplace, hothers.rejections]
          all_goals exact ⟨rfl, rfl, rfl, .nil, rfl⟩
        · exact hextend.elim
        · exact hextend.elim
        · refine ⟨hothers.readings, hothers.rejections, hothers.stuck, ?_, hothers.failure⟩
          dsimp only
          rw [hothers.failure]
          split
          · exact .nil
          · exact .cons hextend hothers.children

/-- A look at branches that are alike brings the same to light. -/
theorem Alike.explore (h : branch.Alike branch') (hlength : text.length = other.length) :
    (branch.explore reader text).Alike (branch'.explore reader other) := by
  have hempty : branch.rest.isEmpty = branch'.rest.isEmpty := by
    have hrest := h.rest
    generalize branch.rest = rest, branch'.rest = rest' at hrest
    cases hrest <;> rfl
  unfold Branch.explore
  rw [hempty, h.finish_eq, hlength]
  split
  · split <;> exact ⟨rfl, rfl, rfl, .nil, rfl⟩
  · exact h.exploreKinds hlength _ _ _

/-- The same branches are looked at on the way through both texts. -/
theorem inTurn_alike (hlength : text.length = other.length) {branches branches' : List Branch}
    (h : List.Forall₂ Alike branches branches') :
    List.Forall₂ Alike (inTurn reader text branches) (inTurn reader other branches') := by
  induction branches using inTurn.induct reader text generalizing branches' with
  | case1 =>
    cases h
    rw [inTurn, inTurn]
    exact .nil
  | case2 branch others ih =>
    cases h with
    | cons hbranch hothers =>
      rw [inTurn, inTurn]
      exact .cons hbranch (ih (List.rel_append hothers (hbranch.explore hlength).children))

theorem start_alike (h : List.Forall₂ SameButCase text other) : (start text).Alike (start other) :=
  ⟨h, rfl, rfl, rfl⟩

end Branch

theorem Progress.add_eq_of_alike {e f : Exploration} (h : e.Alike f) (p : Progress) :
    p.add e = p.add f := by
  rw [add, add, h.readings, h.rejections, h.stuck]

namespace Reader

variable {text other : List Char}

theorem progressOf_eq_of (reader : Reader) (h : List.Forall₂ SameButCase text other) :
    reader.progressOf text = reader.progressOf other := by
  have hlooked :=
    @Branch.inTurn_alike reader _ _ h.length_eq _ _ (.cons (Branch.start_alike h) .nil)
  rw [progressOf, progressOf, Progress.after, Progress.after]
  generalize Branch.inTurn reader text [.start text] = looked,
    Branch.inTurn reader other [.start other] = looked', Progress.none = p at hlooked
  induction hlooked generalizing p with
  | nil => rfl
  | cons hbranch _ ih =>
    rw [List.map_cons, List.map_cons, List.foldl_cons, List.foldl_cons,
      Progress.add_eq_of_alike (hbranch.explore h.length_eq), ih]

theorem failureOf_eq_of (reader : Reader) (h : List.Forall₂ SameButCase text other) :
    reader.failureOf text = reader.failureOf other := by
  have hlooked :=
    @Branch.inTurn_alike reader _ _ h.length_eq _ _ (.cons (Branch.start_alike h) .nil)
  rw [failureOf, failureOf, firstFailure, firstFailure]
  generalize Branch.inTurn reader text [.start text] = looked,
    Branch.inTurn reader other [.start other] = looked' at hlooked
  induction hlooked with
  | nil => rfl
  | cons hbranch _ ih =>
    rw [List.findSome?_cons, List.findSome?_cons, (hbranch.explore h.length_eq).failure, ih]

/-- An expression is read alike in capital and in small letters: it has the same readings, or it
cannot be understood from the same place on, or it fails in the same way. -/
theorem read_sameButCase (reader : Reader) {text other : String}
    (h : text.toList.map Char.toLower = other.toList.map Char.toLower) :
    (∃ readings, reader.read text = .ok readings ∧ reader.read other = .ok readings) ∨
    (∃ offset : Nat,
      reader.read text =
        refuse (.unparsable (String.ofList (Text.strip text.toList)) offset) ∧
      reader.read other =
        refuse (.unparsable (String.ofList (Text.strip other.toList)) offset)) ∨
    ∃ failure, reader.read text = .error failure ∧ reader.read other = .error failure := by
  have hstrip := Text.strip_alike (Text.forall₂_sameButCase_iff.2 h)
  rw [read_eq_answer, read_eq_answer, failureOf_eq_of reader hstrip]
  cases reader.failureOf (Text.strip other.toList) with
  | some failure => exact .inr (.inr ⟨failure, rfl, rfl⟩)
  | none =>
    simp only [Option.elim_none, selectionOf, Selection.answer, progressOf_eq_of reader hstrip,
      Progress.outcome_eq]
    split
    · unfold Progress.fault
      split
      · split
        · exact .inr (.inr ⟨_, rfl, rfl⟩)
        · exact .inr (.inl ⟨_, rfl, rfl⟩)
      · exact .inr (.inl ⟨_, rfl, rfl⟩)
    · exact .inl ⟨_, rfl, rfl⟩

/-- "Every FRIDAY at 9 Pm" is read as "eVERY friday AT 9 pM". -/
theorem read_sameButCase_friday :
    let reader : Reader := ⟨.english, ⟨⟨2024, 1, 3, by decide⟩, 9, 30, 0, 0⟩, .midnight⟩
    let text := "Every FRIDAY at 9 Pm"
    let other := "eVERY friday AT 9 pM"
    text.toList.map Char.toLower = other.toList.map Char.toLower ∧
    ((∃ readings, reader.read text = .ok readings ∧ reader.read other = .ok readings) ∨
    (∃ offset : Nat,
      reader.read text =
        refuse (.unparsable (String.ofList (Text.strip text.toList)) offset) ∧
      reader.read other =
        refuse (.unparsable (String.ofList (Text.strip other.toList)) offset)) ∨
    ∃ failure, reader.read text = .error failure ∧ reader.read other = .error failure) := by
  intro reader text other
  have h : text.toList.map Char.toLower = other.toList.map Char.toLower := by decide
  exact ⟨h, read_sameButCase reader h⟩

end Reader

end TimePhrase

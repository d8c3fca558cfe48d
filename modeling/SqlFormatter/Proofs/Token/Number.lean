import Mathlib.Data.List.Induction
import SqlFormatter.Proofs.Token.Scan

/-!
# SqlFormatter.Proofs.Token.Number

The grammar of numbers, and what a scan that meets a number makes of it.

* `IsNumeral` is the grammar. `NumberState` is an automaton for it: `NumberState.Reached` says of
  each state which texts lead to it, and one character keeps that (`NumberState.Reached.next`). From
  every state the end of some number can be reached, so that a text can be the front of a number
  just when the automaton takes all of it (`NumberState.begins_iff`).
* `readNumber` goes as far as the automaton does, and the state in which it stops says what comes of
  the text (`NumberState.readNumber_spec`).
* `scan_number` is the main result.
-/

namespace SqlFormatter

/-! ### The grammar of numbers -/

/-- Digits, perhaps none. -/
def Digits (ds : List Char) : Prop := ∀ d ∈ ds, d.isDigit

/-- The part of a number before its exponent: digits, and perhaps a point and digits behind them. -/
inductive IsMantissa : List Char → Prop where
  /-- Without a point. -/
  | whole {ws : List Char} (hws : Digits ws) (hne : ws ≠ []) : IsMantissa ws
  /-- With a point, behind which there need be no digits. -/
  | pointed {ws ds : List Char} (hws : Digits ws) (hne : ws ≠ []) (hds : Digits ds) :
    IsMantissa (ws ++ '.' :: ds)

/-- The front of an exponent: the marker, and perhaps a sign. -/
inductive IsMarker : List Char → Prop where
  /-- Without a sign. -/
  | unsigned {e : Char} (he : isExponentMarker e) : IsMarker [e]
  /-- With a sign. -/
  | signed {e s : Char} (he : isExponentMarker e) (hs : isSign s) : IsMarker [e, s]

/-- A number with an exponent, which has at least one digit. -/
inductive IsScaled : List Char → Prop where
  /-- The part before it, its front, and its digits. -/
  | intro {n e ds : List Char} (hn : IsMantissa n) (he : IsMarker e) (hds : Digits ds)
      (hne : ds ≠ []) : IsScaled (n ++ e ++ ds)

/-- A number without a sign: digits, perhaps a point and digits, and perhaps an exponent. -/
inductive IsNumeral : List Char → Prop where
  /-- Without an exponent. -/
  | plain {m : List Char} (h : IsMantissa m) : IsNumeral m
  /-- With an exponent. -/
  | scaled {m : List Char} (h : IsScaled m) : IsNumeral m

/-- The text is the front of a number. -/
def BeginsNumeral (cs : List Char) : Prop := ∃ more, IsNumeral (cs ++ more)

/-! ### An automaton for numbers -/

/-- How far the text of a number has come. -/
inductive NumberState where
  /-- Nothing was read. -/
  | start
  /-- Digits were read. -/
  | whole
  /-- A point was read, and perhaps digits behind it. -/
  | fraction
  /-- The marker of an exponent was read. -/
  | marker
  /-- A sign was read behind the marker. -/
  | sign
  /-- Digits of the exponent were read. -/
  | exponent
  deriving DecidableEq, Repr

variable {q q' : NumberState} {c : Char} {cs m rest : List Char}

namespace NumberState

/-- The state behind the next character, if the number goes on with that. -/
def next (q : NumberState) (c : Char) : Option NumberState :=
  match q with
  | start => if c.isDigit then some whole else none
  | whole =>
    if c.isDigit then some whole
    else if c = '.' then some fraction
    else if isExponentMarker c then some marker else none
  | fraction =>
    if c.isDigit then some fraction else if isExponentMarker c then some marker else none
  | marker => if c.isDigit then some exponent else if isSign c then some sign else none
  | sign => if c.isDigit then some exponent else none
  | exponent => if c.isDigit then some exponent else none

/-- The state behind the text, if a number can start with all of it. -/
def run (q : NumberState) (cs : List Char) : Option NumberState := cs.foldlM next q

/-- The part that a number is in where it may end. -/
def part? : NumberState → Option NumberPart
  | whole => some .whole
  | fraction => some .fraction
  | exponent => some .exponent
  | start | marker | sign => none

/-- What comes of a number that is followed by a character with which it does not go on, or by
nothing. -/
def outcome (q : NumberState) (next : Option Char) : Except NumberFault NumberPart :=
  match q.part? with
  | none => .error .exponentWithoutDigits
  | some part =>
    if next = some '.' then
      .error (if part = .exponent then .pointAfterExponent else .secondPoint)
    else if next.any isExponentMarker then .error .secondExponent
    else .ok part

/-- The texts that lead from the start to a state. -/
inductive Reached : NumberState → List Char → Prop where
  | start : Reached start []
  | whole {ws : List Char} (hws : Digits ws) (hne : ws ≠ []) : Reached whole ws
  | fraction {ws ds : List Char} (hws : Digits ws) (hne : ws ≠ []) (hds : Digits ds) :
    Reached fraction (ws ++ '.' :: ds)
  | marker {n : List Char} {e : Char} (hn : IsMantissa n) (he : isExponentMarker e) :
    Reached marker (n ++ [e])
  | sign {n : List Char} {e s : Char} (hn : IsMantissa n) (he : isExponentMarker e)
      (hs : isSign s) : Reached sign (n ++ [e, s])
  | exponent {m : List Char} (h : IsScaled m) : Reached exponent m

theorem run_cons (q : NumberState) (c : Char) (cs : List Char) :
    run q (c :: cs) = (q.next c).bind (run · cs) := rfl

theorem run_append (q : NumberState) (cs more : List Char) :
    run q (cs ++ more) = (run q cs).bind (run · more) := List.foldlM_append

theorem of_isExponentMarker (h : isExponentMarker c) : c.isDigit = false ∧ c ≠ '.' := by
  simp only [isExponentMarker, Bool.or_eq_true, beq_iff_eq] at h
  rcases h with rfl | rfl <;> decide

theorem isDigit_of_isSign (h : isSign c) : c.isDigit = false := by
  simp only [isSign, Bool.or_eq_true, beq_iff_eq] at h
  rcases h with rfl | rfl <;> decide

/-! ### The texts that lead to a state -/

theorem digits_append_singleton {ds : List Char} (h : Digits ds) (hc : c.isDigit) :
    Digits (ds ++ [c]) := List.forall_mem_append.2 ⟨h, List.forall_mem_singleton.2 hc⟩

/-- One character more leads to the next state. -/
theorem Reached.next (h : Reached q m) (hc : q.next c = some q') : Reached q' (m ++ [c]) := by
  cases h with
  | start =>
    simp only [NumberState.next] at hc
    split_ifs at hc with hdigit
    cases hc
    exact .whole (List.forall_mem_singleton.2 hdigit) (by simp)
  | whole hws hne =>
    simp only [NumberState.next] at hc
    split_ifs at hc with hdigit hpoint hmarker <;> cases hc
    · exact .whole (digits_append_singleton hws hdigit) (by simp)
    · exact hpoint ▸ .fraction hws hne (List.forall_mem_nil _)
    · exact .marker (.whole hws hne) hmarker
  | fraction hws hne hds =>
    simp only [NumberState.next] at hc
    split_ifs at hc with hdigit hmarker <;> cases hc
    · rw [List.append_assoc, List.cons_append]
      exact .fraction hws hne (digits_append_singleton hds hdigit)
    · exact .marker (.pointed hws hne hds) hmarker
  | marker hn he =>
    simp only [NumberState.next] at hc
    split_ifs at hc with hdigit hsign <;> cases hc
    · exact .exponent (.intro hn (.unsigned he) (List.forall_mem_singleton.2 hdigit) (by simp))
    · rw [List.append_assoc]
      exact .sign hn he hsign
  | sign hn he hs =>
    simp only [NumberState.next] at hc
    split_ifs at hc with hdigit
    cases hc
    exact .exponent (.intro hn (.signed he hs) (List.forall_mem_singleton.2 hdigit) (by simp))
  | exponent h =>
    simp only [NumberState.next] at hc
    split_ifs at hc with hdigit
    cases hc
    obtain ⟨hn, he, hds, hne⟩ := h
    rw [List.append_assoc]
    exact .exponent (.intro hn he (digits_append_singleton hds hdigit) (by simp))

theorem reached_of_run (h : run .start m = some q) : Reached q m := by
  induction m using List.reverseRecOn generalizing q with
  | nil =>
    cases h
    exact .start
  | append_singleton m c ih =>
    rw [run_append] at h
    obtain ⟨q', hq', hc⟩ := Option.bind_eq_some_iff.1 h
    rw [run_cons] at hc
    obtain ⟨_, hc, hq⟩ := Option.bind_eq_some_iff.1 hc
    cases hq
    exact (ih hq').next hc

/-- A state that digits do not change takes any number of them. -/
theorem run_digits {ds : List Char} (hds : Digits ds) (hq : ∀ d, d.isDigit → q.next d = some q) :
    run q ds = some q := by
  induction ds with
  | nil => rfl
  | cons d ds ih =>
    rw [Digits, List.forall_mem_cons] at hds
    rw [run_cons, hq d hds.1, Option.bind_some, ih hds.2]

/-- In front of a digit two states are the same, if a digit leads from both to the same state. -/
theorem run_congr (q' : NumberState) (hcs : startsWithDigit cs)
    (hq : ∀ d, d.isDigit → q.next d = q'.next d) : run q cs = run q' cs := by
  cases cs with
  | nil => cases hcs
  | cons d ds =>
    have hd : d.isDigit := by simpa [startsWithDigit] using hcs
    rw [run_cons, run_cons, hq d hd]

theorem startsWithDigit_of_digits {ds : List Char} (hds : Digits ds) (hne : ds ≠ []) :
    startsWithDigit ds := by
  cases ds with
  | nil => exact absurd rfl hne
  | cons d ds => exact hds d List.mem_cons_self

theorem run_whole {ws : List Char} (hws : Digits ws) (hne : ws ≠ []) :
    run .start ws = some .whole := by
  rw [run_congr .whole (startsWithDigit_of_digits hws hne) (by simp +contextual [next])]
  exact run_digits hws (by simp +contextual [next])

theorem run_fraction {ws ds : List Char} (hws : Digits ws) (hne : ws ≠ []) (hds : Digits ds) :
    run .start (ws ++ '.' :: ds) = some .fraction := by
  rw [run_append, run_whole hws hne, Option.bind_some, run_cons]
  exact run_digits hds (by simp +contextual [next])

/-- Behind the part before it comes the marker of an exponent. -/
theorem run_marker {n : List Char} {e : Char} (hn : IsMantissa n) (he : isExponentMarker e) :
    run .start (n ++ [e]) = some .marker := by
  obtain ⟨hdigit, hpoint⟩ := of_isExponentMarker he
  cases hn with
  | whole hws hne =>
    rw [run_append, run_whole hws hne]
    simp [run, next, hdigit, hpoint, he]
  | pointed hws hne hds =>
    rw [run_append, run_fraction hws hne hds]
    simp [run, next, hdigit, he]

theorem run_exponent (h : IsScaled m) : run .start m = some .exponent := by
  obtain @⟨n, e, ds, hn, he, hds, hne⟩ := h
  have hstarts := startsWithDigit_of_digits hds hne
  have hexponent : run .exponent ds = some .exponent :=
    run_digits hds (by simp +contextual [next])
  cases he with
  | unsigned he =>
    rw [run_append, run_marker hn he, Option.bind_some,
      run_congr .exponent hstarts (by simp +contextual [next]), hexponent]
  | @signed e s he hs =>
    have hsign : run .start (n ++ [e, s]) = some .sign := by
      rw [List.append_cons, run_append, run_marker hn he]
      simp [run, next, isDigit_of_isSign hs, hs]
    rw [run_append, hsign, Option.bind_some,
      run_congr .exponent hstarts (by simp +contextual [next]), hexponent]

theorem isNumeral_iff : IsNumeral m ↔ ∃ q, run .start m = some q ∧ q.part?.isSome := by
  constructor
  · intro h
    cases h with
    | plain hn =>
      cases hn with
      | whole hws hne => exact ⟨_, run_whole hws hne, rfl⟩
      | pointed hws hne hds => exact ⟨_, run_fraction hws hne hds, rfl⟩
    | scaled h => exact ⟨_, run_exponent h, rfl⟩
  · rintro ⟨q, hrun, hq⟩
    cases reached_of_run hrun with
    | whole hws hne => exact .plain (.whole hws hne)
    | fraction hws hne hds => exact .plain (.pointed hws hne hds)
    | exponent h => exact .scaled h
    | _ => cases hq

/-- From every state the end of a number can be reached. -/
theorem exists_run (q : NumberState) : ∃ more q', run q more = some q' ∧ q'.part?.isSome := by
  cases q with
  | start => exact ⟨['0'], whole, rfl, rfl⟩
  | marker | sign => exact ⟨['0'], exponent, rfl, rfl⟩
  | whole | fraction | exponent => exact ⟨[], _, rfl, rfl⟩

theorem begins_iff : BeginsNumeral m ↔ (run .start m).isSome := by
  constructor
  · rintro ⟨more, h⟩
    obtain ⟨q, hrun, -⟩ := isNumeral_iff.1 h
    rw [run_append] at hrun
    obtain ⟨q', hq', -⟩ := Option.bind_eq_some_iff.1 hrun
    simp [hq']
  · intro h
    obtain ⟨q, hq⟩ := Option.isSome_iff_exists.1 h
    obtain ⟨more, q', hmore, hpart⟩ := exists_run q
    exact ⟨more, isNumeral_iff.2 ⟨q', by rw [run_append, hq, Option.bind_some, hmore], hpart⟩⟩

end NumberState

/-! ### Reading a number -/

/-- The state of a number of which the part has been entered. -/
def NumberPart.state : NumberPart → NumberState
  | whole => .whole
  | fraction => .fraction
  | exponent => .exponent

namespace NumberState

theorem next_digit {part : NumberPart} (hc : c.isDigit) : part.state.next c = some part.state := by
  cases part <;> simp [NumberPart.state, next, hc]

theorem next_marker {part : NumberPart} (hpart : part ≠ .exponent) (hc : isExponentMarker c) :
    part.state.next c = some .marker := by
  obtain ⟨hdigit, hpoint⟩ := of_isExponentMarker hc
  cases part with
  | whole | fraction => simp [NumberPart.state, next, hdigit, hpoint, hc]
  | exponent => exact absurd rfl hpart

/-- Every part of a number goes on with a digit. -/
theorem isDigit_of_next_eq_none (h : q.next c = none) : c.isDigit = false := by
  rw [Bool.eq_false_iff]
  intro hdigit
  cases q <;> simp [next, hdigit] at h

theorem next_eq_none {part : NumberPart} (hdigit : c.isDigit = false) (hpoint : c ≠ '.')
    (hmarker : isExponentMarker c = false) : part.state.next c = none := by
  cases part <;> simp [NumberPart.state, next, hdigit, hpoint, hmarker]

theorem startsWithDigit_text (part : NumberPart) (h : startsWithDigit cs) :
    startsWithDigit (readNumber part cs).text := by
  simpa using startsWithDigit_readNumber [] h

/-- A number is read as far as the automaton goes, and what comes of it is up to the state in which
that stops. -/
theorem readNumber_spec (part : NumberPart) (cs : List Char) :
    ∃ q, run part.state (readNumber part cs).text = some q ∧
      (∀ c ∈ (readNumber part cs).rest.head?, q.next c = none) ∧
      (readNumber part cs).result = q.outcome (readNumber part cs).rest.head? := by
  fun_induction readNumber part cs with
  | case1 part => exact ⟨part.state, rfl, by simp, by cases part <;> rfl⟩
  | case2 part d ds hd ih =>
    obtain ⟨q, hrun, hstop, hresult⟩ := ih
    refine ⟨q, ?_, hstop, hresult⟩
    rw [Cut.text_after, List.singleton_append, run_cons, next_digit hd, Option.bind_some, hrun]
  | case3 ds hd ih =>
    obtain ⟨q, hrun, hstop, hresult⟩ := ih
    exact ⟨q, hrun, hstop, hresult⟩
  | case4 ds hd => exact ⟨fraction, rfl, by simp [next, isExponentMarker], rfl⟩
  | case5 ds hd => exact ⟨exponent, rfl, by simp [next], rfl⟩
  | case6 e es hdigit hpoint hmarker =>
    refine ⟨exponent, rfl, by simpa [next] using hdigit, ?_⟩
    simp [outcome, part?, hpoint, hmarker]
  | case7 part e hdigit hpoint hmarker hpart =>
    refine ⟨marker, ?_, by simp, rfl⟩
    rw [run_cons, next_marker hpart hmarker]
    rfl
  | case8 part e hdigit hpoint hmarker hpart s ds hs hds ih =>
    -- Behind the sign there is a digit, which leads to the exponent from both states.
    obtain ⟨q, hrun, hstop, hresult⟩ := ih
    refine ⟨q, ?_, hstop, hresult⟩
    have hsign : marker.next s = some sign := by simp [next, isDigit_of_isSign hs, hs]
    rw [Cut.text_after, List.cons_append, List.singleton_append, run_cons,
      next_marker hpart hmarker, Option.bind_some, run_cons, hsign, Option.bind_some, ← hrun]
    exact run_congr _ (startsWithDigit_text .exponent hds)
      (by simp +contextual [next, NumberPart.state])
  | case9 part e hdigit hpoint hmarker hpart s ds hs hds =>
    refine ⟨sign, ?_, fun c hc => ?_, rfl⟩
    · rw [run_cons, next_marker hpart hmarker, Option.bind_some]
      simp [run, next, isDigit_of_isSign hs, hs]
    · have hdigit : c.isDigit = false := by
        rw [Option.mem_def] at hc
        simpa [startsWithDigit, hc] using hds
      simp [next, hdigit]
  | case10 part e hdigit hpoint hmarker hpart s ds hs hd ih =>
    obtain ⟨q, hrun, hstop, hresult⟩ := ih
    refine ⟨q, ?_, hstop, hresult⟩
    rw [Cut.text_after, List.singleton_append, run_cons, next_marker hpart hmarker,
      Option.bind_some, ← hrun]
    exact run_congr _ (startsWithDigit_text .exponent hd)
      (by simp +contextual [next, NumberPart.state])
  | case11 part e hdigit hpoint hmarker hpart s ds hs hd =>
    refine ⟨marker, ?_, by simpa [next, hs] using hd, rfl⟩
    rw [run_cons, next_marker hpart hmarker]
    rfl
  | case12 part c ds hdigit hpoint hmarker =>
    refine ⟨part.state, rfl, ?_, ?_⟩
    · rintro _ ⟨⟩
      exact next_eq_none (by simpa using hdigit) hpoint (by simpa using hmarker)
    · cases part <;> simp [outcome, part?, NumberPart.state, hpoint, hmarker]

/-- Where a number does not go on behind `m`, the front of no number is longer. -/
theorem prefix_of_run {m' : List Char} (hrun : run .start m = some q)
    (hstop : ∀ c ∈ rest.head?, q.next c = none) (hm' : BeginsNumeral m')
    (hfront : m' <+: m ++ rest) : m' <+: m := by
  obtain ⟨rest', heq⟩ := hfront
  rcases List.append_eq_append_iff.1 heq with ⟨a, rfl, -⟩ | ⟨a, rfl, rfl⟩
  · exact List.prefix_append m' a
  · cases a with
    | nil => simp
    | cons c cs =>
      have hnone : run .start (m ++ c :: cs) = none := by
        rw [run_append, hrun, Option.bind_some, run_cons, hstop c rfl]
        rfl
      have hsome := begins_iff.1 hm'
      rw [hnone] at hsome
      cases hsome

end NumberState

/-! ### Where a number ends -/

/-- The kind of token that a number with this text is. -/
def numeralKind (m : List Char) : Kind :=
  if m.any fun c => c == '.' || isExponentMarker c then .real else .integer

/-- The text is a number, and behind it something with which no number goes on. -/
structure CutsNumeral (r m rest : List Char) : Prop where
  append_eq : m ++ rest = r
  isNumeral : IsNumeral m
  ends : EndsNumber rest

/-- Of the parts of the text with which it starts, `m` is the longest that is the front of a
number. -/
structure CutsFront (r m rest : List Char) : Prop where
  append_eq : m ++ rest = r
  begins : BeginsNumeral m
  longest : ∀ m', m' <+: r → BeginsNumeral m' → m' <+: m

/-- What is said about a text that is no number, of which `m` is the front of one and `next` the
character behind that, if there is one. -/
inductive Breaks (m : List Char) (next : Option Char) : String → Prop where
  /-- A point behind a part with a point. -/
  | secondPoint (h : IsMantissa m) (hm : '.' ∈ m) (hnext : next = some '.') :
    Breaks m next "second decimal point"
  /-- A point behind an exponent. -/
  | pointAfterExponent (h : IsScaled m) (hnext : next = some '.') :
    Breaks m next "decimal point after exponent"
  /-- The marker of an exponent behind an exponent. -/
  | secondExponent {c : Char} (h : IsScaled m) (hc : isExponentMarker c) (hnext : next = some c) :
    Breaks m next "second exponent marker"
  /-- Something other than a digit, or nothing, behind the front of an exponent. -/
  | exponentWithoutDigits {n e : List Char} (hn : IsMantissa n) (he : IsMarker e) (hm : m = n ++ e)
      (hnext : next.any Char.isDigit = false) : Breaks m next "exponent has no digits"

namespace NumberState

theorem part?_eq_some {part : NumberPart} (h : q.part? = some part) : q = part.state := by
  cases q <;> cases h <;> rfl

theorem any_eq_false_of_digits {ds : List Char} (hds : Digits ds) :
    (ds.any fun c => c == '.' || isExponentMarker c) = false := by
  refine List.any_eq_false.2 fun d hd h => ?_
  have hdigit := hds d hd
  rcases Bool.or_eq_true_iff.1 h with hpoint | hmarker
  · rw [beq_iff_eq] at hpoint
    subst hpoint
    exact absurd hdigit (by decide)
  · rw [(of_isExponentMarker hmarker).1] at hdigit
    cases hdigit

/-- The kind of a number can be seen from its text. -/
theorem numeralKind_eq {part : NumberPart} (h : Reached q m) (hpart : q.part? = some part) :
    numeralKind m = part.kind := by
  cases h with
  | whole hws hne =>
    cases hpart
    rw [numeralKind, any_eq_false_of_digits hws]
    rfl
  | fraction hws hne hds =>
    cases hpart
    simp [numeralKind, NumberPart.kind]
  | exponent h =>
    cases hpart
    obtain ⟨hn, he, hds, hne⟩ := h
    cases he <;> simp_all [numeralKind, NumberPart.kind]
  | _ => cases hpart

/-- A number that ends is cut off where the automaton stops. -/
theorem outcome_of_ends {part : NumberPart} (hpart : q.part? = some part)
    (hrest : EndsNumber rest) : q.outcome rest.head? = .ok part := by
  cases rest with
  | nil => simp [outcome, hpart]
  | cons c cs =>
    obtain ⟨-, hpoint, hmarker⟩ := hrest c rfl
    simp [outcome, hpart, hpoint, hmarker]

/-- A number is taken only where it ends. -/
theorem of_outcome_eq_ok {part : NumberPart} (h : q.outcome rest.head? = .ok part)
    (hstop : ∀ c ∈ rest.head?, q.next c = none) : q.part? = some part ∧ EndsNumber rest := by
  unfold outcome at h
  split at h
  · cases h
  · next last hlast =>
    split_ifs at h with hpoint hmarker
    cases h
    refine ⟨hlast, fun c hc => ?_⟩
    rw [Option.mem_def] at hc
    rw [hc] at hpoint hmarker
    exact ⟨isDigit_of_next_eq_none (hstop c hc), fun hc => hpoint (congrArg some hc),
      by simpa using hmarker⟩

/-- A fault says what is wrong with the character at which the automaton stops. -/
theorem breaks_of_outcome {fault : NumberFault} {next : Option Char} (hm : Reached q m)
    (hne : m ≠ []) (hstop : ∀ c ∈ next, q.next c = none) (h : q.outcome next = .error fault) :
    Breaks m next fault.message := by
  have hdigit : next.any Char.isDigit = false := by
    cases next with
    | none => rfl
    | some c => exact isDigit_of_next_eq_none (hstop c rfl)
  cases hm with
  | start => exact absurd rfl hne
  | whole hws hws' =>
    -- No character stops the digits before the point with a fault.
    cases next with
    | none => cases h
    | some c =>
      have hc := hstop c rfl
      simp only [NumberState.next] at hc
      split_ifs at hc with hdigit hpoint hmarker
      simp [outcome, part?, hpoint, hmarker] at h
  | fraction hws hws' hds =>
    cases next with
    | none => cases h
    | some c =>
      have hc := hstop c rfl
      simp only [NumberState.next] at hc
      split_ifs at hc with hdigit hmarker
      by_cases hpoint : c = '.'
      · cases hpoint
        cases h
        exact .secondPoint (.pointed hws hws' hds) (by simp) rfl
      · simp [outcome, part?, hpoint, hmarker] at h
  | marker hn he =>
    cases h
    exact .exponentWithoutDigits hn (.unsigned he) rfl hdigit
  | sign hn he hs =>
    cases h
    exact .exponentWithoutDigits hn (.signed he hs) rfl hdigit
  | exponent hscaled =>
    cases next with
    | none => cases h
    | some c =>
      by_cases hpoint : c = '.'
      · cases hpoint
        cases h
        exact .pointAfterExponent hscaled rfl
      · by_cases hmarker : isExponentMarker c
        · have hfault : fault = .secondExponent := by
            simpa [outcome, part?, hpoint, hmarker] using h.symm
          rw [hfault]
          exact .secondExponent hscaled hmarker rfl
        · simp [outcome, part?, hpoint, hmarker] at h

end NumberState

/-! ### Reading a whole number -/

open NumberState

variable {r sign gap : List Char}

/-- What is read of a text that starts with a digit, the automaton takes from the start. -/
theorem readNumber_start (h : startsWithDigit r) :
    ∃ q, run .start (readNumber .whole r).text = some q ∧
      (∀ c ∈ (readNumber .whole r).rest.head?, q.next c = none) ∧
      (readNumber .whole r).result = q.outcome (readNumber .whole r).rest.head? := by
  obtain ⟨q, hrun, hstop, hresult⟩ := readNumber_spec .whole r
  refine ⟨q, ?_, hstop, hresult⟩
  rw [← hrun]
  exact run_congr _ (startsWithDigit_text .whole h) (by simp +contextual [next, NumberPart.state])

/-- A number that ends is read to its end and no further. -/
theorem CutsNumeral.readNumber_eq (h : CutsNumeral r m rest) (hr : startsWithDigit r) :
    ∃ part, readNumber .whole r = ⟨m, rest, .ok part⟩ ∧ part.kind = numeralKind m := by
  obtain ⟨hsplit, hm, hends⟩ := h
  obtain ⟨q, hrun, hstop, hresult⟩ := readNumber_start hr
  have hread := readNumber_append .whole r
  generalize readNumber .whole r = read at *
  obtain ⟨text, others, result⟩ := read
  dsimp only at *
  obtain ⟨q', hrun', hpart⟩ := isNumeral_iff.1 hm
  obtain ⟨part, hpart⟩ := Option.isSome_iff_exists.1 hpart
  -- Neither of the two readings goes on, so that each is as long as the other.
  have hstop' : ∀ c ∈ rest.head?, q'.next c = none := fun c hc => by
    obtain ⟨hdigit, hpoint, hmarker⟩ := hends c hc
    rw [part?_eq_some hpart]
    exact next_eq_none hdigit hpoint hmarker
  have hle : m <+: text := prefix_of_run hrun hstop ⟨[], by rwa [List.append_nil]⟩
    ⟨rest, hsplit.trans hread.symm⟩
  have hge : text <+: m := prefix_of_run hrun' hstop' (begins_iff.2 (by simp [hrun]))
    ⟨others, hread.trans hsplit.symm⟩
  obtain rfl : text = m := hge.eq_of_length_le hle.length_le
  obtain rfl : others = rest := List.append_cancel_left (hread.trans hsplit.symm)
  obtain rfl : q = q' := Option.some.inj (hrun.symm.trans hrun')
  rw [hresult, outcome_of_ends hpart hends]
  exact ⟨part, rfl, (numeralKind_eq (reached_of_run hrun) hpart).symm⟩

/-- A text that starts with a digit starts with a number that ends, or it is read as far as it is
the front of one. -/
theorem readNumber_cases (hr : startsWithDigit r) :
    (∃ m rest, CutsNumeral r m rest) ∨
      ∃ m rest fault, CutsFront r m rest ∧ Breaks m rest.head? fault.message ∧
        readNumber .whole r = ⟨m, rest, .error fault⟩ := by
  obtain ⟨q, hrun, hstop, hresult⟩ := readNumber_start hr
  have hread := readNumber_append .whole r
  have hstarts := startsWithDigit_text .whole hr
  generalize readNumber .whole r = read at *
  obtain ⟨m, rest, result⟩ := read
  dsimp only at *
  cases result with
  | ok part =>
    obtain ⟨hpart, hends⟩ := of_outcome_eq_ok hresult.symm hstop
    exact Or.inl ⟨m, rest, hread, isNumeral_iff.2 ⟨q, hrun, by simp [hpart]⟩, hends⟩
  | error fault =>
    have hne : m ≠ [] := by
      rintro rfl
      cases hstarts
    refine Or.inr ⟨m, rest, fault, ⟨hread, begins_iff.2 (by simp [hrun]), ?_⟩,
      breaks_of_outcome (reached_of_run hrun) hne hstop hresult.symm, rfl⟩
    rintro m' hfront hbegins
    exact prefix_of_run hrun hstop hbegins (hread ▸ hfront)

/-! ### Scanning a number -/

/-- From the scanner on there is a gap, perhaps a minus that is a sign, and a digit in front of what
follows. Time is left. -/
structure Scanner.MeetsNumber (s : Scanner) (gap sign r : List Char) : Prop where
  rest_eq : s.rest = gap ++ (sign ++ r)
  isGap_of_mem : ∀ d ∈ gap, isGap d
  sign_eq : sign = [] ∨ sign = ['-'] ∧ s.previous.endsOperand = false
  startsWithDigit : startsWithDigit r
  expired_eq : s.expired = false

/-- The lexeme that the scanner meets is a number. -/
theorem Scanner.MeetsNumber.exists_scan_eq {s : Scanner} (h : s.MeetsNumber gap sign r) :
    ∃ c, s.scan = s.skipGap.settle c (Lexeme.number false sign r) ∧
      s.skipGap.pos = s.pos + byteLength gap := by
  obtain ⟨hrest, hgap, hsign, hr, hexpired⟩ := h
  cases r with
  | nil => cases hr
  | cons d ds =>
    have hd : d.isDigit := by simpa [SqlFormatter.startsWithDigit] using hr
    obtain ⟨hletter, hblank, hdash⟩ := of_isDigit hd
    rcases hsign with rfl | ⟨rfl, hends⟩
    · have hmeets := Scanner.meets_of_rest hrest hgap (isGap_of_isBlank hblank)
      refine ⟨d, ?_, hmeets.pos_skipGap⟩
      rw [hmeets.scan_eq, hexpired, Lexeme.read, if_neg (by simp [hletter]), if_pos hd]
    · have hmeets := Scanner.meets_of_rest (c := '-') hrest hgap (by decide)
      refine ⟨'-', ?_, hmeets.pos_skipGap⟩
      have hread : Lexeme.read false s.previous '-' (d :: ds) =
          Lexeme.number false ['-'] (d :: ds) := by
        show Lexeme.dash false s.previous (d :: ds) = _
        rw [Lexeme.dash, if_neg fun h => hdash h.1, if_pos ⟨hd, hends⟩]
      rw [hmeets.scan_eq, hexpired, ← hread]
      rfl

theorem Scanner.MeetsNumber.scan_of_numeral {s : Scanner} (h : s.MeetsNumber gap sign r)
    (hcuts : CutsNumeral r m rest) :
    s.scan.1 = .ok ⟨s.pos + byteLength gap, numeralKind m, String.ofList (sign ++ m)⟩ ∧
      s.scan.2.rest = rest := by
  obtain ⟨part, hread, hkind⟩ := hcuts.readNumber_eq h.startsWithDigit
  obtain ⟨c, hscan, hpos⟩ := h.exists_scan_eq
  have hnumber : Lexeme.number false sign r = ⟨sign ++ m, rest, .ok part.kind⟩ := by
    simp [Lexeme.number, hread]
  rw [hscan, hnumber, ← hkind, ← hpos]
  cases part <;> exact ⟨rfl, rfl⟩

theorem Scanner.MeetsNumber.scan_of_no_numeral {s : Scanner} (h : s.MeetsNumber gap sign r)
    (hcuts : ¬∃ m rest, CutsNumeral r m rest) : ∃ m rest fault, CutsFront r m rest ∧
      s.scan.1 = .error ⟨s.pos + byteLength gap,
        .malformedNumber (String.ofList (sign ++ m ++ rest.take 1)) fault⟩ ∧
      Breaks m rest.head? fault.message := by
  obtain ⟨m, rest, fault, hfront, hbreaks, hread⟩ :=
    (readNumber_cases h.startsWithDigit).resolve_left hcuts
  obtain ⟨c, hscan, hpos⟩ := h.exists_scan_eq
  have hnumber : Lexeme.number false sign r = ⟨sign ++ m, rest,
      .error (.malformedNumber (String.ofList (sign ++ m ++ rest.take 1)) fault)⟩ := by
    simp [Lexeme.number, hread]
  refine ⟨m, rest, fault, hfront, ?_, hbreaks⟩
  rw [hscan, hnumber, ← hpos]
  rfl

/-- A scan that meets a number takes it just when the text is a number and behind it something with
which no number goes on. There is only one such part of the text; it is the text of the token, with
the sign, and the kind of the token is to be seen from it. Any other text is refused at the start of
the token, with the longest front of a number and the character behind that, and with what that
character breaks. -/
theorem scan_number {s : Scanner} (h : s.MeetsNumber gap sign r) :
    ((∃ t, s.scan.1 = .ok t) ↔ ∃ m rest, CutsNumeral r m rest) ∧
      (∀ m rest, CutsNumeral r m rest →
        (∀ m' rest', CutsNumeral r m' rest' → m' = m) ∧
          s.scan.1 = .ok ⟨s.pos + byteLength gap, numeralKind m, String.ofList (sign ++ m)⟩ ∧
          s.scan.2.rest = rest) ∧
      ((¬∃ m rest, CutsNumeral r m rest) → ∃ m rest fault, CutsFront r m rest ∧
        s.scan.1 = .error ⟨s.pos + byteLength gap,
          .malformedNumber (String.ofList (sign ++ m ++ rest.take 1)) fault⟩ ∧
        Breaks m rest.head? fault.message) := by
  refine ⟨⟨?_, ?_⟩, ?_, h.scan_of_no_numeral⟩
  · rintro ⟨t, ht⟩
    by_contra hcuts
    obtain ⟨_, _, _, -, hscan, -⟩ := h.scan_of_no_numeral hcuts
    rw [ht] at hscan
    cases hscan
  · rintro ⟨m, rest, hcuts⟩
    exact ⟨_, (h.scan_of_numeral hcuts).1⟩
  · intro m rest hcuts
    refine ⟨fun m' rest' hcuts' => ?_, h.scan_of_numeral hcuts⟩
    obtain ⟨_, hread, -⟩ := hcuts.readNumber_eq h.startsWithDigit
    obtain ⟨_, hread', -⟩ := hcuts'.readNumber_eq h.startsWithDigit
    exact congrArg Cut.text (hread'.symm.trans hread)

/-- A number with a sign that ends, and one whose exponent has no digits. -/
theorem scan_number_signed :
    let file : File := ⟨0, "q.sql", 1, 9, []⟩
    let taken : Scanner := { file, rest := " -1.5e3*x".toList }
    let refused : Scanner := { file, rest := " -1.5e+é".toList }
    taken.MeetsNumber [' '] ['-'] "1.5e3*x".toList ∧
      refused.MeetsNumber [' '] ['-'] "1.5e+é".toList ∧
      taken.scan.1 = .ok ⟨2, .real, "-1.5e3"⟩ ∧
      ∃ m rest fault, CutsFront "1.5e+é".toList m rest ∧
        refused.scan.1 =
          .error ⟨2, .malformedNumber (String.ofList (['-'] ++ m ++ rest.take 1)) fault⟩ ∧
        Breaks m rest.head? fault.message := by
  intro file taken refused
  have htaken : taken.MeetsNumber [' '] ['-'] "1.5e3*x".toList :=
    ⟨rfl, List.forall_mem_singleton.2 rfl, Or.inr ⟨rfl, rfl⟩, rfl, rfl⟩
  have hrefused : refused.MeetsNumber [' '] ['-'] "1.5e+é".toList :=
    ⟨rfl, List.forall_mem_singleton.2 rfl, Or.inr ⟨rfl, rfl⟩, rfl, rfl⟩
  have hmantissa : IsMantissa (['1'] ++ '.' :: ['5']) :=
    .pointed (by simp [Digits]) (by simp) (by simp [Digits])
  have hnumeral : IsNumeral (['1', '.', '5'] ++ ['e'] ++ ['3']) :=
    .scaled (.intro hmantissa (.unsigned (by decide)) (by simp [Digits]) (by simp))
  have hcuts : CutsNumeral "1.5e3*x".toList "1.5e3".toList "*x".toList :=
    ⟨by decide, hnumeral, by rintro _ ⟨⟩; decide⟩
  have hscan : refused.scan.1 = .error ⟨2, .malformedNumber "-1.5e+é" .exponentWithoutDigits⟩ := by
    decide +kernel
  refine ⟨htaken, hrefused, ((scan_number htaken).2.1 _ _ hcuts).2.1, (scan_number hrefused).2.2 ?_⟩
  intro hcuts
  obtain ⟨t, ht⟩ := (scan_number hrefused).1.2 hcuts
  rw [hscan] at ht
  cases ht

end SqlFormatter

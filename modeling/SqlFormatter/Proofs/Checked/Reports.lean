import SqlFormatter.Proofs.Checked.Parser

/-!
# SqlFormatter.Proofs.Checked.Reports

What is reported of a text. The problems among the outcomes of scans are the illegal characters and
the errors (`isProblem`), and `Tells` says what a report must be like to be about one of them.

* A scan reports its outcome if that is a problem, and nothing else (`Scanner.reported_scanBy`), so
  scan after scan each problem is reported once, in order (`Scanner.reported_scans`), and counted
  (`Scanner.Sane.scans`).
* As no token of a statement is an illegal character (`Grammar.kind_ne_illegal_of_sentence`),
  nothing was reported of what a parser accepts (`Scanner.reports_feedBy_of_ok`); and an error that
  it passes on was the last report (`Scanner.reports_feedBy_of_error`).
* `reports_once` is the main result.
-/

namespace SqlFormatter

/-! ### Problems and reports -/

/-- The scan gave an illegal character. -/
def isIllegal : Except LexError Token → Bool
  | .ok t => t.kind == .illegal
  | .error _ => false

/-- The scan gave no token. -/
def isError : Except LexError Token → Bool
  | .ok _ => false
  | .error _ => true

/-- The scan met a problem in the text. -/
def isProblem (outcome : Except LexError Token) : Bool := isIllegal outcome || isError outcome

/-- The report is about this outcome of a scan. If there is no token, then it has the position and
the text of the error; otherwise it has the position of the token and names its only character. -/
def Tells : Except LexError Token → Report → Prop
  | .error e, r => r.pos = e.pos ∧ r.message = e.message
  | .ok t, r => r.pos = t.pos ∧
    ∃ c, t.text = String.ofList [c] ∧ r.message = s!"illegal character {quoteChar c}"

/-- Each problem among the outcomes has one report in `reports` behind those known before, and there
are no others. -/
def Reported (known : List Report) (outcomes : List (Except LexError Token))
    (reports : List Report) : Prop :=
  ∃ fresh, reports = known ++ fresh ∧ List.Forall₂ Tells (outcomes.filter isProblem) fresh

variable {outcome : Except LexError Token} {outcomes more : List (Except LexError Token)}
  {known reports later : List Report}

theorem reported_of_not_problem (h : isProblem outcome = false) :
    Reported known [outcome] known :=
  ⟨[], (List.append_nil known).symm, by simp [h]⟩

theorem reported_of_problem {r : Report} (h : isProblem outcome) (hr : Tells outcome r) :
    Reported known [outcome] (known ++ [r]) :=
  ⟨[r], rfl, by simpa [h] using hr⟩

theorem Reported.append (h : Reported known outcomes reports) (h' : Reported reports more later) :
    Reported known (outcomes ++ more) later := by
  obtain ⟨fresh, rfl, hfresh⟩ := h
  obtain ⟨fresh', rfl, hfresh'⟩ := h'
  refine ⟨fresh ++ fresh', List.append_assoc .., ?_⟩
  rw [List.filter_append]
  exact List.rel_append hfresh hfresh'

theorem Reported.eq_known (h : Reported known [outcome] reports)
    (hlegal : isProblem outcome = false) : reports = known := by
  obtain ⟨fresh, rfl, hfresh⟩ := h
  simp only [List.filter_cons, hlegal, List.filter_nil, Bool.false_eq_true, if_false,
    List.forall₂_nil_left_iff] at hfresh
  rw [hfresh, List.append_nil]

theorem Reported.exists_getLast (h : Reported known [outcome] reports)
    (hproblem : isProblem outcome) : ∃ r ∈ reports.getLast?, Tells outcome r := by
  obtain ⟨fresh, rfl, hfresh⟩ := h
  simp only [List.filter_cons, hproblem, List.filter_nil, if_true] at hfresh
  cases hfresh with
  | cons hr hnil =>
    cases hnil
    exact ⟨_, List.getLast?_concat, hr⟩

theorem countP_isProblem (outcomes : List (Except LexError Token)) :
    outcomes.countP isProblem = outcomes.countP isIllegal + outcomes.countP isError := by
  induction outcomes with
  | nil => rfl
  | cons outcome outcomes ih =>
    -- No outcome is both.
    have hone : (if isProblem outcome then 1 else 0) =
        (if isIllegal outcome then 1 else 0) + if isError outcome then 1 else 0 := by
      cases outcome <;> simp [isProblem, isIllegal, isError]
    rw [List.countP_cons, List.countP_cons, List.countP_cons, ih, hone]
    omega

/-! ### One scan -/

namespace Lexeme

variable {time : Option Nat} {expired : Bool} {previous : Kind} {c : Char} {cs : List Char}

theorem number_ne_illegal (sign digits : List Char) :
    (number expired sign digits).result ≠ .ok .illegal := by
  intro h
  rcases kind_of_number h with h | h <;> cases h

/-- An illegal token is the character that it starts with. -/
theorem text_of_read_illegal (h : (read expired previous c cs).result = .ok .illegal) :
    (read expired previous c cs).text = [c] := by
  unfold read at *
  split_ifs at h ⊢ with hletter hdigit hquote hhash hdash hslash
  · rcases wordKind_cases ((c :: cs).takeWhile isWordChar) with hword | ⟨k, hword⟩
    · rw [word, hword] at h
      cases h
    · rw [word, hword] at h
      cases h
  · exact absurd h (number_ne_illegal _ _)
  · unfold quoted at h
    split_ifs at h
    split at h <;> cases h
  · cases h
  · cases cs with
    | nil => cases h
    | cons d ds =>
      rw [dash] at h
      split_ifs at h
      · cases h
      · exact absurd h (number_ne_illegal _ _)
      · cases h
  · rcases kind_of_slash h with h | h <;> cases h
  · cases cs with
    | nil => rfl
    | cons d ds =>
      unfold symbol at *
      dsimp only at *
      split
      · next kind hpair =>
        rw [hpair] at h
        cases h
        unfold pairKind? at hpair
        split_ifs at hpair <;> cases hpair
      · rfl

theorem text_of_readBy_illegal (h : (readBy time expired previous c cs).result = .ok .illegal) :
    (readBy time expired previous c cs).text = [c] :=
  readBy_of_cutOff (P := fun l => l.result = .ok .illegal → l.text = [c]) text_of_read_illegal
    (fun _ => nofun) h

end Lexeme

namespace Scanner

variable {s : Scanner} {c : Char} {l : Lexeme}

theorem reported_settle (h : l.result = .ok .illegal → l.text = [c]) :
    Reported s.reports [(s.settle c l).1] (s.settle c l).2.reports := by
  unfold settle
  dsimp only
  split
  · exact reported_of_problem rfl ⟨rfl, rfl⟩
  · exact reported_of_not_problem rfl
  · next hresult =>
    refine reported_of_problem rfl ⟨rfl, c, ?_, rfl⟩
    rw [h hresult]
  · next kind _ hkind _ =>
    refine reported_of_not_problem ?_
    simpa [isProblem, isIllegal, isError] using hkind

/-- A scan reports its outcome if that is a problem, and nothing else. -/
theorem reported_scanBy (time : Option Nat) (s : Scanner) :
    Reported s.reports [(s.scanBy time).1] (s.scanBy time).2.reports := by
  unfold scanBy
  dsimp only
  split
  · exact reported_of_not_problem rfl
  · exact reported_settle (s := s.skipGap) Lexeme.text_of_readBy_illegal

theorem reports_of_scanBy {next : Scanner} {time : Option Nat} {outcome : Except LexError Token}
    (h : s.scanBy time = (outcome, next)) (hlegal : isProblem outcome = false) :
    next.reports = s.reports := by
  have hreported := reported_scanBy time s
  rw [h] at hreported
  exact hreported.eq_known hlegal

/-! ### Scan after scan -/

/-- Scan after scan, one for each time in the list: what they give, and the scanner after them. -/
def scans (s : Scanner) : Clock → List (Except LexError Token) × Scanner
  | [] => ([], s)
  | time :: clock =>
    let (outcome, next) := s.scanBy time
    let (outcomes, last) := next.scans clock
    (outcome :: outcomes, last)

theorem length_scans (s : Scanner) (clock : Clock) : (s.scans clock).1.length = clock.length := by
  induction clock generalizing s with
  | nil => rfl
  | cons time clock ih => exact congrArg Nat.succ (ih _)

/-- Each problem that scans give is reported once, in order. -/
theorem reported_scans (s : Scanner) (clock : Clock) :
    Reported s.reports (s.scans clock).1 (s.scans clock).2.reports := by
  induction clock generalizing s with
  | nil => exact ⟨[], (List.append_nil _).symm, .nil⟩
  | cons time clock ih => exact (reported_scanBy time s).append (ih _)

/-- Scan after scan, a sane scanner stays sane. -/
theorem Sane.scans {file : File} {source : List Char} (h : s.Sane file source)
    (hfile : file.Holds source) (clock : Clock) : (s.scans clock).2.Sane file source := by
  induction clock generalizing s with
  | nil => exact h
  | cons time clock ih => exact ih (h.scanBy hfile time).2

end Scanner

/-! ### The reports of a parser -/

/-- No token of a statement is an illegal character. -/
theorem Statement.kind_ne_illegal {s : Statement} {l : Leaf} (h : l ∈ s.leaves) :
    l.word.kind ≠ .illegal := by
  rcases s.ofNodes_of_mem_leaves l h with hplain | ⟨e, -, hoperator⟩
  · cases hplain with
    | literal p k text => cases k <;> exact nofun
    | _ => exact nofun
  · cases e with
    | unary p op x =>
      cases hoperator
      cases op <;> exact nofun
    | binary x p op y =>
      cases hoperator
      cases op <;> exact nofun
    | _ => cases hoperator

/-- No token of a sentence is an illegal character. -/
theorem Grammar.kind_ne_illegal_of_sentence {ts : List Token} {s : Statement}
    (h : sentence ts = .ok s) : ∀ t ∈ ts, t.kind ≠ .illegal := by
  obtain ⟨-, -, -, rest, ⟨read, rfl, hspells⟩, hrest⟩ := sentenceOf_sound h
  have hread : ∀ w ∈ read.map Token.word, w.kind ≠ .illegal := by
    rw [hspells.map_word]
    exact List.forall_mem_map.2 fun l hl => Statement.kind_ne_illegal hl
  have hbehind : ∀ w ∈ rest.map Token.word, w.kind ≠ .illegal := by
    rcases hrest with hrest | hrest
    · rw [hrest]
      exact List.forall_mem_nil _
    · rw [hrest]
      exact List.forall_mem_singleton.2 nofun
  refine List.forall_mem_append.2 ⟨fun t ht => ?_, fun t ht => ?_⟩
  · rw [← t.kind_word]
    exact hread _ (List.mem_map_of_mem ht)
  · rw [← t.kind_word]
    exact hbehind _ (List.mem_map_of_mem ht)

namespace Scanner

variable {s : Scanner} {clock : Clock} {before : List Comment}

/-- If nothing in the feed of a scanner is a problem, then nothing was reported. -/
theorem reports_feedBy_of_ok {p : Piece} (hclosing : (s.feedBy clock before).closing = .ok p)
    (hlegal : ∀ t ∈ (s.feedBy clock before).tokens, t.kind ≠ .illegal) :
    (s.feedBy clock before).last.reports = s.reports := by
  induction clock, s using clockInduction generalizing before with
  | error clock s s' e hscan =>
    rw [feedBy_of_error hscan] at hclosing
    cases hclosing
  | endOfInput clock s s' t hscan hend =>
    rw [feedBy_of_endOfInput hscan hend]
    refine reports_of_scanBy hscan ?_
    simp [isProblem, isIllegal, isError, hend]
  | comment clock s s' t hscan hcomment ih =>
    rw [feedBy_of_comment hscan hcomment] at hclosing hlegal ⊢
    rw [ih hclosing hlegal]
    refine reports_of_scanBy hscan ?_
    simp [isProblem, isIllegal, isError, hcomment]
  | token clock s s' t hscan hend hcomment ih =>
    rw [feedBy_of_token hscan hend hcomment] at hclosing hlegal ⊢
    obtain ⟨ht, hlegal⟩ := List.forall_mem_cons.1 hlegal
    rw [ih hclosing hlegal]
    refine reports_of_scanBy hscan ?_
    simp [isProblem, isIllegal, isError, ht]

/-- If the feed of a scanner ends with an error, then the last report is about that. -/
theorem reports_feedBy_of_error {e : LexError}
    (hclosing : (s.feedBy clock before).closing = .error e) :
    ∃ r ∈ (s.feedBy clock before).last.reports.getLast?, Tells (.error e) r := by
  induction clock, s using clockInduction generalizing before with
  | error clock s s' e' hscan =>
    rw [feedBy_of_error hscan] at hclosing ⊢
    cases hclosing
    have hreported := reported_scanBy (clock.headD none) s
    rw [hscan] at hreported
    exact hreported.exists_getLast rfl
  | endOfInput clock s s' t hscan hend =>
    rw [feedBy_of_endOfInput hscan hend] at hclosing
    cases hclosing
  | comment clock s s' t hscan hcomment ih =>
    rw [feedBy_of_comment hscan hcomment] at hclosing ⊢
    exact ih hclosing
  | token clock s s' t hscan hend hcomment ih =>
    rw [feedBy_of_token hscan hend hcomment] at hclosing ⊢
    exact ih hclosing

end Scanner

/-- A refusal that comes to the error of a scan is about the end of the tokens, where that is. -/
theorem Refusal.error_eq_lexical {r : Refusal} {closing : Except LexError Token} {e : LexError}
    (h : r.error closing = .lexical e) : r.rest = [] ∧ closing = .error e := by
  unfold Refusal.error at h
  split at h
  · unfold Complaint.about at h
    split at h <;> cases h
  · unfold Complaint.about at h
    split at h <;> cases h
  · next hrest =>
    cases h
    exact ⟨hrest, rfl⟩

namespace Parser

variable {p p' : Parser} {f : Feed} {outcome : Except Refusal Statement}

/-- A parser that returns a statement has read all that it was fed, without an error. -/
theorem conclude_eq_ok {st : Statement} (h : p.conclude f outcome = (.ok st, p')) :
    p'.scanner = f.last ∧ (∃ q, f.closing = .ok q) ∧ ∃ st', outcome = .ok st' := by
  unfold conclude at h
  split at h
  · cases h
  · split at h
    · cases h
    · next q hclosing =>
      cases h
      exact ⟨rfl, ⟨q, hclosing⟩, _, rfl⟩

/-- A parser that returns the error of a scan has read all that it was fed, up to that error. -/
theorem conclude_eq_lexical {e : LexError}
    (h : p.conclude f outcome = (.error (.lexical e), p')) :
    p'.scanner = f.last ∧ f.closing = .error e := by
  unfold conclude at h
  split at h
  · next r =>
    obtain ⟨hr, rfl⟩ := Prod.mk.inj h
    obtain ⟨hrest, hclosing⟩ := Refusal.error_eq_lexical (Except.error.inj hr)
    refine ⟨by rw [stopAt, hrest, finish], ?_⟩
    cases hf : f.closing with
    | error e' =>
      rw [hf] at hclosing
      cases hclosing
      rfl
    | ok q =>
      rw [hf] at hclosing
      cases hclosing
  · split at h
    · next hclosing =>
      cases h
      exact ⟨rfl, hclosing⟩
    · cases h

end Parser

/-- Of a registered text each problem is reported once. However many scans there are, and whenever
time runs out for each of them, the reports are about the illegal tokens and the errors that the
scans gave, in that order, and their count is kept beside them. When a parser returns a statement,
nothing was reported; and when it returns the error of a scan, the last report is about that. -/
theorem reports_once {r r' : Registry} {name : String} {base? : Option Nat} {text : String}
    {file : File} (h : r.register name base? (byteLength text.toList) = .ok (file, r'))
    (expired : Bool) (clock : Clock) :
    ∃ s, Scanner.ofText file text expired = .ok s ∧
      (s.scans clock).1.length = clock.length ∧
      List.Forall₂ Tells ((s.scans clock).1.filter isProblem) (s.scans clock).2.reports ∧
      (s.scans clock).2.errorCount = (s.scans clock).2.reports.length ∧
      (s.scans clock).2.reports.length =
        (s.scans clock).1.countP isIllegal + (s.scans clock).1.countP isError ∧
      ∃ p result p', Parser.ofText file text expired = .ok p ∧
        Checked.parse text.toList clock p 0 = .ok ((result, p'), 0) ∧
        (clock = [] → (result, p') = p.parse) ∧
        p'.scanner.errorCount = p'.scanner.reports.length ∧
        (∀ st, result = .ok st → p'.scanner.reports = []) ∧
        ∀ e, result = .error (.lexical e) →
          ∃ report ∈ p'.scanner.reports.getLast?, Tells (.error e) report := by
  obtain ⟨hfile, s, hs, hp, hsane⟩ := Checked.exists_sane h expired
  have hnone : s.reports = [] := (Scanner.reports_ofText hs).1
  obtain ⟨fresh, hreports, htells⟩ := s.reported_scans clock
  rw [hnone, List.nil_append] at hreports
  rw [← hreports] at htells
  refine ⟨s, hs, s.length_scans clock, htells,
    (hsane.scanner.scans hfile clock).accounts.counts, ?_, ?_⟩
  · rw [← htells.length_eq, ← List.countP_eq_length_filter, countP_isProblem]
  obtain ⟨-, hsane'⟩ := hsane.parseBy hfile clock
  obtain ⟨result, p', hparse⟩ : ∃ result p', Parser.parseBy { scanner := s } clock = (result, p') :=
    ⟨_, _, rfl⟩
  rw [hparse] at hsane'
  refine ⟨_, result, p', hp, ?_, ?_, hsane'.scanner.accounts.counts, ?_, ?_⟩
  · rw [Checked.parse_eq hsane hfile, hparse]
  · rintro rfl
    rw [← Parser.parseBy_nil, hparse]
  · rintro st rfl
    obtain ⟨hlast, ⟨q, hclosing⟩, st', hsentence⟩ := Parser.conclude_eq_ok hparse
    rw [hlast, Scanner.reports_feedBy_of_ok hclosing
      (Grammar.kind_ne_illegal_of_sentence hsentence), hnone]
  · rintro e rfl
    obtain ⟨hlast, hclosing⟩ := Parser.conclude_eq_lexical hparse
    rw [hlast]
    exact Scanner.reports_feedBy_of_error hclosing

/-- A broken number, an illegal character of two bytes and a text for which there is no time. -/
theorem reports_once_three_problems :
    let file : File := ⟨0, "q.sql", 1, 10, []⟩
    let clock : Clock := [none, none, some 1, none]
    Registry.register .empty "q.sql" none 10 = .ok (file, ⟨[file], 12⟩) ∧
      ∃ s, Scanner.ofText file "1e § 'ab'" = .ok s ∧
        (s.scans clock).1 = [.error ⟨1, .malformedNumber "1e " .exponentWithoutDigits⟩,
          .ok ⟨4, .illegal, "§"⟩, .error ⟨7, .deadlineExceeded⟩, .ok ⟨9, .ident, "b"⟩] ∧
        List.Forall₂ Tells ((s.scans clock).1.filter isProblem) (s.scans clock).2.reports ∧
        (s.scans clock).2.reports.length = 3 ∧ (s.scans clock).2.errorCount = 3 := by
  intro file clock
  have hregister : Registry.register .empty "q.sql" none (byteLength "1e § 'ab'".toList) =
      .ok (file, ⟨[file], 12⟩) := by decide +kernel
  let s : Scanner := { file, rest := "1e § 'ab'".toList }
  have hs : Scanner.ofText file "1e § 'ab'" = .ok s := rfl
  have houtcomes : (s.scans clock).1 = [.error ⟨1, .malformedNumber "1e " .exponentWithoutDigits⟩,
      .ok ⟨4, .illegal, "§"⟩, .error ⟨7, .deadlineExceeded⟩, .ok ⟨9, .ident, "b"⟩] := by
    decide +kernel
  obtain ⟨s', hs', -, htells, hcount, hlength, -⟩ := reports_once hregister false clock
  have heq : s' = s := Except.ok.inj (hs'.symm.trans hs)
  rw [heq] at htells hcount hlength
  rw [houtcomes] at hlength
  exact ⟨hregister, s, hs, houtcomes, htells, hlength, hcount.trans hlength⟩

end SqlFormatter

import SqlFormatter.Proofs.Grammar.Findings
import SqlFormatter.Proofs.Grammar.Parser
import SqlFormatter.Proofs.Grammar.Refusal.Construct
import SqlFormatter.Proofs.Grammar.Refusal.Statement

/-!
# SqlFormatter.Proofs.Grammar.Earliest

The earliest problem in a text decides the error. The first token that no sentence goes on with, or
the first lexeme that is fatal, is the one that the error is about (`Earliest`), and what the error
says of it depends on the tokens in front (`Diagnosis`).

* A refusal of the grammar depends on nothing behind the token refused. So if a sentence went on
  with that token, the grammar would not have refused it: it reads all sentences.
* Behind the tokens in front of it there is a way to go on (`sentenceOf_rejects`).

The main result is `parseText_earliest`. What is nested too deep is refused for that, and left out.
-/

namespace SqlFormatter

/-- The token `l` is the last one of `before`, and the left parenthesis of a group. -/
def EndsWithGroup (before : List Token) (l : Token) : Prop :=
  ∃ outer, before = outer ++ [l] ∧ l.kind = .leftParen ∧ OperandExpected (outer.map Token.word)

/-- What the error `e` says of the token `t` behind `before`, which cannot go on with it. -/
structure Diagnosis (before : List Token) (t : Token) (e : ParseError) : Prop where
  /-- Behind a table the word of a join. -/
  join : AfterTable (before.map Token.word) → Grammar.startsJoin t → e = .unsupported .join t.pos
  /-- Anything behind the semicolon. -/
  multiple : AfterSemicolon (before.map Token.word) → e = .unsupported .multipleStatements t.pos
  /-- A left parenthesis in the place of a table. -/
  table : TableExpected (before.map Token.word) → t.kind = .leftParen →
    e = .unsupported .subquery t.pos
  /-- SELECT behind the left parenthesis of a group. -/
  operand : ∀ l, EndsWithGroup before l → t.kind = .keyword .SELECT →
    e = .unsupported .subquery l.pos
  /-- Any other token is unexpected. -/
  other : ¬(AfterTable (before.map Token.word) ∧ Grammar.startsJoin t) →
    ¬AfterSemicolon (before.map Token.word) →
    ¬(TableExpected (before.map Token.word) ∧ t.kind = .leftParen) →
    ¬(∃ l, EndsWithGroup before l ∧ t.kind = .keyword .SELECT) →
    ∃ expected, e = .unexpected expected t

/-- The error is about the first problem among the tokens `ts`, behind which there is perhaps the
lexeme of a fault. -/
inductive Earliest (ts : List Token) (fault : Option (Nat × LexError)) : ParseError → Prop where
  /-- The tokens can go on, and behind them there is a fatal lexeme. -/
  | fatal {start : Nat} {e : LexError} (hfault : fault = some (start, e)) (hpos : e.pos = start)
      (hviable : Viable (ts.map Token.word)) : Earliest ts fault (.lexical e)
  /-- The tokens in front of one can go on, and with that one they cannot. -/
  | token {before after : List Token} {t : Token} {e : ParseError} (hts : ts = before ++ t :: after)
      (hbefore : Viable (before.map Token.word))
      (hstuck : ¬Viable ((before ++ [t]).map Token.word)) (h : Diagnosis before t e) :
    Earliest ts fault e

/-! ### Sentences and the end of input -/

section Sentences

variable {ws : List Word}

theorem sentence_append_endOfInput_iff :
    Sentence (ws ++ [.fixed .endOfInput]) ↔
      ∃ s : Statement, s.Canonical ∧ (ws = s.yield ∨ ws = s.yield ++ [.fixed .semicolon]) := by
  refine exists_congr fun s => and_congr_right fun _ => or_congr ?_ ?_
  · exact List.append_left_inj _
  · have hsemicolon : s.yield ++ [.fixed .semicolon, .fixed .endOfInput] =
        s.yield ++ [.fixed .semicolon] ++ [.fixed .endOfInput] := by
      rw [List.append_assoc]
      rfl
    rw [hsemicolon]
    exact List.append_left_inj _

/-- The end of input is the last word of a sentence, and those in front are tidy. -/
theorem Sentence.exists_eq_append (h : Sentence ws) :
    ∃ vs, ws = vs ++ [.fixed .endOfInput] ∧ Tidy vs := by
  obtain ⟨s, -, rfl | rfl⟩ := h
  · exact ⟨s.yield, rfl, s.tidy_yield⟩
  · exact ⟨s.yield ++ [.fixed .semicolon], by rw [List.append_assoc]; rfl,
      Tidy.gathers.closed s.tidy_yield (k := .semicolon) (by decide) (by decide)⟩

/-- Nothing goes on behind the end of input. -/
theorem sentence_of_viable (h : Viable (ws ++ [.fixed .endOfInput])) :
    Sentence (ws ++ [.fixed .endOfInput]) := by
  obtain ⟨more, hmore⟩ := h
  obtain ⟨vs, hvs, htidy⟩ := hmore.exists_eq_append
  cases more using List.reverseRecOn with
  | nil => rwa [List.append_nil] at hmore
  | append_singleton more w =>
    rw [← List.append_assoc] at hvs
    obtain ⟨rfl, -⟩ := List.append_inj' hvs rfl
    exact absurd rfl (htidy.proper (.fixed .endOfInput) (by simp))

/-- What can go on does so up to the end of input. -/
theorem exists_sentence_of_viable (h : Viable ws) (hws : ∀ w ∈ ws, w.kind ≠ .endOfInput) :
    ∃ more, Sentence (ws ++ more ++ [.fixed .endOfInput]) := by
  obtain ⟨more, hmore⟩ := h
  obtain ⟨vs, hvs, -⟩ := hmore.exists_eq_append
  cases more using List.reverseRecOn with
  | nil =>
    rw [List.append_nil] at hvs
    exact absurd rfl (hws (.fixed .endOfInput) (by simp [hvs]))
  | append_singleton more w =>
    rw [← List.append_assoc] at hvs
    obtain ⟨-, hw⟩ := List.append_inj' hvs rfl
    obtain rfl : w = .fixed .endOfInput := by simpa using hw
    exact ⟨more, by rwa [← List.append_assoc] at hmore⟩

/-- Some tokens have the words of a sentence. -/
theorem Sentence.exists_tokens (h : Sentence (ws ++ [.fixed .endOfInput])) :
    ∃ ts : List Token, ts.map Token.word = ws := by
  obtain ⟨s, -, hws⟩ := sentence_append_endOfInput_iff.1 h
  obtain ⟨ts, hts⟩ := s.exists_words
  rcases hws with rfl | rfl
  · exact ⟨ts, hts⟩
  · exact ⟨ts ++ [⟨0, .semicolon, ";"⟩], by rw [List.map_append, hts]; rfl⟩

end Sentences

namespace Grammar

section Refusals

variable {n : Nat} {ts : List Token}

/-- What is read is a sentence. -/
theorem sentence_of_sentenceOf {s : Statement} (h : sentenceOf (expression n) ts = .ok s) :
    Sentence (ts.map Token.word ++ [.fixed .endOfInput]) := by
  obtain ⟨-, hs, -, rest, ⟨read, rfl, hread⟩, hrest⟩ := sentenceOf_sound h
  rw [sentence_append_endOfInput_iff]
  refine ⟨s, hs, ?_⟩
  rw [List.map_append, hread.map_word]
  rcases hrest with hrest | hrest
  · exact Or.inl (by rw [hrest, List.append_nil]; rfl)
  · exact Or.inr (by rw [hrest]; rfl)

/-- A sentence is read, or refused for its nesting. -/
theorem sentenceOf_of_sentence (h : Sentence (ts.map Token.word ++ [.fixed .endOfInput])) :
    (∃ s, sentenceOf (expression n) ts = .ok s) ∨
      ∃ us, sentenceOf (expression n) ts = .error ⟨.unexpected .shallowerNesting, us⟩ := by
  obtain ⟨s, hs, hwords⟩ := sentence_append_endOfInput_iff.1 h
  have hyields : Yields (fun s' => s'.shape = s.shape) (s.nesting ≤ n) .ok
      (sentenceOf (expression n) ts) := by
    rcases hwords with hwords | hwords
    · exact sentenceOf_complete hs n ⟨ts, (List.append_nil ts).symm, hwords⟩ (Or.inl rfl)
    · obtain ⟨us, rest, rfl, hus, hrest⟩ := List.map_eq_append_iff.1 hwords
      exact sentenceOf_complete hs n ⟨us, rfl, hus⟩ (Or.inr hrest)
  by_cases hfits : s.nesting ≤ n
  · obtain ⟨s', -, hrun⟩ := hyields.1 hfits
    exact Or.inl ⟨s', hrun⟩
  · exact Or.inr (hyields.2 hfits)

variable {before after : List Token} {t : Token} {c : Complaint}

/-- No sentence ends where the end of input is refused. -/
theorem not_viable_of_refused_end (h : sentenceOf (expression n) ts = .error ⟨c, []⟩)
    (hc : c ≠ .unexpected .shallowerNesting) :
    ¬Viable (ts.map Token.word ++ [.fixed .endOfInput]) := by
  intro hviable
  rcases sentenceOf_of_sentence (n := n) (sentence_of_viable hviable) with
    ⟨s, hrun⟩ | ⟨us, hrun⟩
  · rw [hrun] at h
    cases h
  · rw [hrun] at h
    cases h
    exact hc rfl

/-- No sentence goes on with a token that is refused. -/
theorem not_viable_of_refused
    (h : sentenceOf (expression n) (before ++ t :: after) = .error ⟨c, t :: after⟩)
    (hc : c ≠ .unexpected .shallowerNesting) (hproper : ∀ u ∈ before ++ [t], u.kind ≠ .endOfInput) :
    ¬Viable ((before ++ [t]).map Token.word) := by
  intro hviable
  obtain ⟨more, hmore⟩ := exists_sentence_of_viable hviable (List.forall_mem_map.2 hproper)
  -- The tokens behind the refused one are replaced by those that go on to a sentence.
  obtain ⟨us, hus⟩ := hmore.exists_tokens
  obtain ⟨-, rest, -, -, hrest⟩ := List.map_eq_append_iff.1 hus
  obtain ⟨read, hread, hcongr⟩ := sentenceOf_error_congr (expression_sees n) h
  obtain rfl := List.append_cancel_right hread
  have hrun := hcongr (t :: rest) rfl
  have hwords : (before ++ t :: rest).map Token.word =
      (before ++ [t]).map Token.word ++ more := by
    rw [← hrest, ← List.map_append, List.append_assoc]
    rfl
  rw [← hwords] at hmore
  rcases sentenceOf_of_sentence (n := n) hmore with ⟨s, hok⟩ | ⟨vs, hdeep⟩
  · rw [hok] at hrun
    cases hrun
  · rw [hdeep] at hrun
    cases hrun
    exact hc rfl

/-! ### Diagnoses -/

/-- No argument list starts in the place of an operand: no number can stand behind a name. -/
theorem endsGroup_of_endsWithGroup {l : Token} (h : EndsWithGroup before l) : EndsGroup before := by
  obtain ⟨outer, rfl, hl, more, hmore⟩ := h
  refine ⟨outer, l, rfl, hl, fun u hu hident => ?_⟩
  obtain ⟨init, rfl⟩ := List.getLast?_eq_some_iff.1 hu
  obtain ⟨vs, hvs, htidy⟩ := hmore.exists_eq_append
  have hapart : Apart .ident .integer (vs ++ [Word.fixed .endOfInput]) :=
    htidy.apart.append (.single _) (by simp [Word.fixed])
  have hwords : (init ++ [u]).map Token.word ++ [.number] ++ more =
      init.map Token.word ++ u.word :: .number :: more := by simp
  rw [← hvs, hwords, Apart, List.isChain_append_cons_cons] at hapart
  exact hapart.2.1 ⟨hident, rfl⟩

/-- A construct in front of the token that is refused is what it is refused for. -/
theorem complaint_of_refusedAs {c' : Complaint}
    (h : sentenceOf (expression n) (before ++ t :: after) = .error ⟨c, t :: after⟩)
    (hc : c ≠ .unexpected .shallowerNesting)
    (hrefused : RefusedAs ⟨c', t :: after⟩ (sentenceOf (expression n) (before ++ t :: after))) :
    c = c' := by
  rcases hrefused with hrun | ⟨us, hrun⟩
  · rw [hrun] at h
    cases h
    rfl
  · rw [hrun] at h
    cases h
    exact absurd rfl hc

/-- What a token can be refused for, and where. -/
theorem complaint_cases
    (h : sentenceOf (expression n) (before ++ t :: after) = .error ⟨c, t :: after⟩) :
    (∃ expected, c = .unexpected expected ∧
      (expected ≠ .shallowerNesting → t.kind = .keyword .SELECT → ¬EndsGroup before)) ∨
    (∃ l, EndsWithGroup before l ∧ t.kind = .keyword .SELECT ∧
      c = .unsupported .subquery l.pos) ∨
    (TableExpected (before.map Token.word) ∧ t.kind = .leftParen) ∨
    (AfterTable (before.map Token.word) ∧ startsJoin t) ∨
    AfterSemicolon (before.map Token.word) := by
  have hselect : t.kind = .keyword .SELECT → startsWith (.keyword .SELECT) (t :: after) :=
    fun ht => by
      rw [startsWith, ht]
      rfl
  cases sentenceOf_rejects h with
  | stuck h =>
    obtain ⟨read, hts, -, hblames⟩ := h
    obtain rfl := List.append_cancel_right hts
    cases hblames with
    | deep => exact Or.inl ⟨_, rfl, fun hnot => absurd rfl hnot⟩
    | unexpected h => exact Or.inl ⟨_, rfl, fun _ ht => h (hselect ht)⟩
    | @subquery outer us l hread hl hus hopens =>
      obtain ⟨s, more, hs, hyield⟩ := hopens
      exact Or.inr (Or.inl ⟨l, ⟨outer, hread, hl, viable_of_yield hs hyield⟩, eq_of_beq hus, rfl⟩)
  | @subquery read us l hts hread hl =>
    obtain rfl := List.append_cancel_right hts
    exact Or.inr (Or.inr (Or.inl ⟨hread, hl⟩))
  | @join read us u hts hread hu =>
    obtain rfl := List.append_cancel_right hts
    exact Or.inr (Or.inr (Or.inr (Or.inl ⟨hread, hu⟩)))
  | @multiple read us u hts hread =>
    obtain rfl := List.append_cancel_right hts
    exact Or.inr (Or.inr (Or.inr (Or.inr hread)))

/-- Behind the left parenthesis of a group SELECT is refused as the start of a subquery. -/
theorem complaint_of_group {l : Token}
    (h : sentenceOf (expression n) (before ++ t :: after) = .error ⟨c, t :: after⟩)
    (hc : c ≠ .unexpected .shallowerNesting) (hl : EndsWithGroup before l)
    (ht : t.kind = .keyword .SELECT) : c = .unsupported .subquery l.pos := by
  rcases complaint_cases h with ⟨expected, rfl, hends⟩ | ⟨l', hl', -, rfl⟩ | ⟨-, hlparen⟩ |
    ⟨-, hjoin⟩ | hafter
  · have hexpected : expected ≠ .shallowerNesting := by
      rintro rfl
      exact hc rfl
    exact absurd (endsGroup_of_endsWithGroup hl) (hends hexpected ht)
  · obtain ⟨outer, rfl, -, -⟩ := hl
    obtain ⟨outer', houter, -, -⟩ := hl'
    obtain ⟨-, hlast⟩ := List.append_inj' houter rfl
    cases hlast
    rfl
  · rw [ht] at hlparen
    cases hlparen
  · rw [startsJoin, ht, Bool.and_eq_true] at hjoin
    cases hjoin.1
  · obtain ⟨s, -, hwords⟩ := hafter
    obtain ⟨outer, rfl, hlparen, -⟩ := hl
    rw [List.map_append, List.map_singleton] at hwords
    obtain ⟨-, hlast⟩ := List.append_inj' hwords rfl
    have hkind : l.kind = .semicolon := congrArg Word.kind (List.singleton_inj.1 hlast)
    rw [hlparen] at hkind
    cases hkind

/-- What a refusal says of its token. -/
theorem diagnosis_of_refused
    (h : sentenceOf (expression n) (before ++ t :: after) = .error ⟨c, t :: after⟩)
    (hc : c ≠ .unexpected .shallowerNesting) : Diagnosis before t (c.about t) where
  join hafter ht := by
    rw [complaint_of_refusedAs h hc (sentenceOf_of_afterTable hafter ht)]
    rfl
  multiple hafter := by
    rw [complaint_of_refusedAs h hc (sentenceOf_of_afterSemicolon hafter)]
    rfl
  table hexpected ht := by
    rw [complaint_of_refusedAs h hc (sentenceOf_of_tableExpected hexpected ht)]
    rfl
  operand l hl ht := by
    rw [complaint_of_group h hc hl ht]
    rfl
  other hjoin hmultiple htable hoperand := by
    rcases complaint_cases h with ⟨expected, rfl, -⟩ | ⟨l, hl, ht, -⟩ | hexpected | hafter | hafter
    · exact ⟨expected, rfl⟩
    · exact absurd ⟨l, hl, ht⟩ hoperand
    · exact absurd hexpected htable
    · exact absurd hafter hjoin
    · exact absurd hafter hmultiple

/-- What a refusal says of the end of input. -/
theorem diagnosis_of_refused_end {eof : Token} (heof : eof.kind = .endOfInput)
    (h : sentenceOf (expression n) ts = .error ⟨c, []⟩)
    (hstuck : ¬Viable (ts.map Token.word ++ [.fixed .endOfInput])) :
    Diagnosis ts eof (c.about eof) where
  join _ ht := by
    rw [startsJoin, heof, Bool.and_eq_true] at ht
    cases ht.1
  multiple hafter := by
    obtain ⟨s, hs, hwords⟩ := hafter
    refine absurd ⟨[], s, hs, Or.inr ?_⟩ hstuck
    rw [hwords, List.append_nil, List.append_assoc]
    rfl
  table _ ht := by
    rw [heof] at ht
    cases ht
  operand _ _ ht := by
    rw [heof] at ht
    cases ht
  other _ _ _ _ := by
    cases sentenceOf_rejects h with
    | stuck h =>
      obtain ⟨read, -, -, hblames⟩ := h
      cases hblames with
      | deep => exact ⟨_, rfl⟩
      | unexpected => exact ⟨_, rfl⟩
      | subquery _ _ hus => cases hus

theorem Rejects.exists_read {r : Refusal} (h : Rejects ts r) :
    ∃ read, ts = read ++ r.rest ∧ Viable (read.map Token.word) := by
  cases h with
  | stuck h =>
    obtain ⟨read, hts, ⟨s, more, hs, hyield⟩, -⟩ := h
    exact ⟨read, hts, viable_of_yield hs hyield⟩
  | @subquery read us l hts hread hl =>
    obtain ⟨s, more, hs, hyield⟩ := starting_of_tableExpected hread
    exact ⟨read, hts, viable_of_yield hs hyield⟩
  | @join read us t hts hread ht =>
    obtain ⟨s, more, hs, hyield⟩ := starting_of_afterTable hread
    exact ⟨read, hts, viable_of_yield hs hyield⟩
  | @multiple read us t hts hread => exact ⟨read, hts, hread.viable⟩

end Refusals

end Grammar

/-! ### Texts -/

section Feeds

variable {s : Scanner} {f : Feed} {t : Token}

theorem word_of_endOfInput (ht : t.kind = .endOfInput) : t.word = .fixed .endOfInput :=
  Grammar.word_of_kind ht rfl

/-- The tokens of the feed are the first ones that the scanner finds. -/
theorem Feed.Follows.exists_finds (hf : f.Follows s) :
    ∃ behind fault, s.Finds (f.tokens ++ behind) fault := by
  cases hclosing : f.closing with
  | ok p => exact ⟨[p.token], none, (hf.ended p hclosing).2⟩
  | error e => exact ⟨[], some (e.pos, e), by simpa using hf.failed e hclosing⟩

/-- The result is right for what is found: unless it is the error of the nesting, it is a statement
just for a sentence, and an error is about the first problem. -/
def Scanner.Answers (s : Scanner) (result : Except ParseError Statement) : Prop :=
  ∃ ts fault, s.Finds ts fault ∧ ((∃ found, result = .error (.unexpected .shallowerNesting found)) ∨
    ((∃ s, result = .ok s) ↔ fault = none ∧ Sentence (ts.map Token.word)) ∧
      ∀ e, result = .error e → Earliest ts fault e)

variable {c : Complaint} {after : List Token}

/-- An error is right where there is no sentence, if it is about the first problem. -/
theorem answers_of_earliest {ts : List Token} {fault : Option (Nat × LexError)} {e : ParseError}
    (hfinds : s.Finds ts fault) (hnot : ¬(fault = none ∧ Sentence (ts.map Token.word)))
    (h : Earliest ts fault e) : s.Answers (.error e) := by
  refine ⟨ts, fault, hfinds, Or.inr ⟨iff_of_false ?_ hnot, fun e' he => ?_⟩⟩
  · rintro ⟨s, hs⟩
    cases hs
  · cases he
    exact h

theorem answers_of_nesting {ts : List Token} {fault : Option (Nat × LexError)}
    (hfinds : s.Finds ts fault) (t : Token) :
    s.Answers (.error ((Complaint.unexpected .shallowerNesting).about t)) :=
  ⟨ts, fault, hfinds, Or.inl ⟨t, rfl⟩⟩

/-- A fatal lexeme is the first problem if the tokens in front can go on. -/
theorem answers_of_fatal {e : LexError} (hf : f.Follows s) (hclosing : f.closing = .error e)
    (hviable : Viable (f.tokens.map Token.word)) : s.Answers (.error (.lexical e)) :=
  answers_of_earliest (hf.failed e hclosing) (by simp) (.fatal rfl rfl hviable)

theorem answers_of_refused_end {p : Piece} (hf : f.Follows s) (hclosing : f.closing = .ok p)
    (hviable : Viable (f.tokens.map Token.word))
    (h : Grammar.sentence f.tokens = .error ⟨c, []⟩) : s.Answers (.error (c.about p.token)) := by
  obtain ⟨heof, hfinds⟩ := hf.ended p hclosing
  by_cases hc : c = .unexpected .shallowerNesting
  · subst hc
    exact answers_of_nesting hfinds _
  have hstuck := Grammar.not_viable_of_refused_end h hc
  have hwords : (f.tokens ++ [p.token]).map Token.word =
      f.tokens.map Token.word ++ [.fixed .endOfInput] := by
    rw [List.map_append, List.map_singleton, word_of_endOfInput heof]
  refine answers_of_earliest hfinds ?_ (.token rfl hviable (hwords ▸ hstuck)
    (Grammar.diagnosis_of_refused_end heof h hstuck))
  rintro ⟨-, hsentence⟩
  exact hstuck ⟨[], by rwa [List.append_nil, ← hwords]⟩

theorem answers_of_refused_token {read : List Token} (hf : f.Follows s)
    (hread : f.tokens = read ++ t :: after) (hviable : Viable (read.map Token.word))
    (h : Grammar.sentence f.tokens = .error ⟨c, t :: after⟩) : s.Answers (.error (c.about t)) := by
  obtain ⟨behind, fault, hfinds⟩ := hf.exists_finds
  by_cases hc : c = .unexpected .shallowerNesting
  · subst hc
    exact answers_of_nesting hfinds _
  have hproper : ∀ u ∈ read ++ [t], u.kind ≠ .endOfInput := fun u hu => by
    have hmem : u ∈ (read ++ [t]) ++ after := List.mem_append_left _ hu
    refine hf.proper u ?_
    rwa [hread, ← List.singleton_append, ← List.append_assoc]
  rw [Grammar.sentence, hread] at h
  have hstuck := Grammar.not_viable_of_refused h hc hproper
  have hts : f.tokens ++ behind = read ++ t :: (after ++ behind) := by
    rw [hread, List.append_assoc]
    rfl
  refine answers_of_earliest hfinds ?_ (.token hts hviable hstuck
    (Grammar.diagnosis_of_refused h hc))
  rintro ⟨-, hsentence⟩
  refine hstuck ⟨(after ++ behind).map Token.word, ?_⟩
  rw [hts] at hsentence
  simpa using hsentence

/-- A refusal is about the first problem. -/
theorem answers_of_refused {r : Refusal} (hf : f.Follows s)
    (h : Grammar.sentence f.tokens = .error r) :
    s.Answers (.error (r.error (f.closing.map Piece.token))) := by
  obtain ⟨read, hread, hviable⟩ := (Grammar.sentenceOf_rejects h).exists_read
  obtain ⟨c, rest⟩ := r
  cases rest with
  | nil =>
    obtain rfl : f.tokens = read := hread.trans (List.append_nil read)
    cases hclosing : f.closing with
    | error e => exact answers_of_fatal hf hclosing hviable
    | ok p => exact answers_of_refused_end hf hclosing hviable h
  | cons t after => exact answers_of_refused_token hf hread hviable h

/-- A statement is returned for a sentence. -/
theorem answers_of_read {p : Piece} {statement : Statement} (hf : f.Follows s)
    (hclosing : f.closing = .ok p)
    (h : Sentence (f.tokens.map Token.word ++ [.fixed .endOfInput])) :
    s.Answers (.ok statement) := by
  obtain ⟨heof, hfinds⟩ := hf.ended p hclosing
  refine ⟨_, none, hfinds, Or.inr ⟨iff_of_true ⟨statement, rfl⟩ ⟨rfl, ?_⟩, fun e he => ?_⟩⟩
  · rwa [List.map_append, List.map_singleton, word_of_endOfInput heof]
  · cases he

end Feeds

/-- The parser is right about all that is left of its text. -/
theorem Parser.answers_parse (p : Parser) : p.scanner.Answers p.parse.1 := by
  have hfollows : p.scanner.feed.Follows p.scanner := p.scanner.follows_feedAfter []
  unfold parse
  dsimp only
  cases hsentence : Grammar.sentence p.scanner.feed.tokens with
  | error r => exact answers_of_refused hfollows hsentence
  | ok s =>
    have hwords := Grammar.sentence_of_sentenceOf hsentence
    cases hclosing : p.scanner.feed.closing with
    | error e => exact answers_of_fatal hfollows hclosing ⟨_, hwords⟩
    | ok piece => exact answers_of_read hfollows hclosing hwords

/-- The earliest problem in a text decides the error. Unless the text is refused for its nesting, a
statement is returned if and only if no lexeme is fatal and the tokens are a sentence; and an error
is about the first problem. -/
theorem parseText_earliest {file : File} {text : String} {expired : Bool} {scanner : Scanner}
    (hscanner : Scanner.ofText file text expired = .ok scanner) :
    ∃ ts fault result file', scanner.Finds ts fault ∧
      parseText file text expired = .ok (result, file') ∧
      ((∃ found, result = .error (.unexpected .shallowerNesting found)) ∨
        ((∃ s, result = .ok s) ↔ fault = none ∧ Sentence (ts.map Token.word)) ∧
          ∀ e, result = .error e → Earliest ts fault e) := by
  obtain ⟨file', hfile⟩ := parseText_of_ofText hscanner
  obtain ⟨ts, fault, hfinds, hanswers⟩ := Parser.answers_parse { scanner }
  exact ⟨ts, fault, _, file', hfinds, hfile, hanswers⟩

/-- The word of a join comes first, then a parenthesis, and then a string without an end. -/
theorem parseText_earliest_join :
    let file : File := ⟨0, "q.sql", 1, 28, []⟩
    ∃ scanner, Scanner.ofText file "SELECT 1 FROM t -- u\nJOIN ('" = .ok scanner ∧
      ∃ ts fault file', scanner.Finds ts fault ∧
        parseText file "SELECT 1 FROM t -- u\nJOIN ('" =
          .ok (.error (.unsupported .join 22), file') ∧
        ¬(fault = none ∧ Sentence (ts.map Token.word)) ∧
        Earliest ts fault (.unsupported .join 22) := by
  intro file
  let scanner : Scanner := { file, rest := "SELECT 1 FROM t -- u\nJOIN ('".toList }
  have hscanner : Scanner.ofText file "SELECT 1 FROM t -- u\nJOIN ('" = .ok scanner := rfl
  have herror : (Parser.parse { scanner }).1.map (fun _ => ()) =
      .error (.unsupported .join 22) := by decide +kernel
  obtain ⟨ts, fault, result, file', hfinds, hparse, hearliest⟩ := parseText_earliest hscanner
  have hresult : result = .error (.unsupported .join 22) := by
    rw [parseText_eq hscanner] at hparse
    cases hparse
    revert herror
    cases (Parser.parse { scanner }).1 <;> intro herror <;> cases herror
    rfl
  subst hresult
  rcases hearliest with ⟨found, hdeep⟩ | ⟨hiff, hearliest⟩
  · cases hdeep
  · have hnot : ¬∃ s : Statement, Except.error (ParseError.unsupported .join 22) = .ok s := nofun
    exact ⟨scanner, hscanner, ts, fault, file', hfinds, hparse, fun h => hnot (hiff.2 h),
      hearliest _ rfl⟩

end SqlFormatter

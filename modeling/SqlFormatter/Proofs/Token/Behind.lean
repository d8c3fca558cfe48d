import SqlFormatter.Proofs.Token.Standalone

/-!
# SqlFormatter.Proofs.Token.Behind

What may stand behind a lexeme.

How far a lexeme goes is up to the text behind it: a word goes on with letters, a minus and a minus
with a blank are a comment. `Lexeme.Stops` says that a lexeme does not go on with a text. What is
left behind a lexeme is such a text (`Lexeme.stops_of_read`), and in front of any other such text
the lexeme is read again (`Lexeme.read_of_stops`), where a minus may be a sign as it was.
-/

namespace SqlFormatter

/-- The line ends: a newline follows, or nothing at all. -/
def EndsLine (rest : List Char) : Prop := ∀ d ∈ rest.head?, d = '\n'

namespace EndsLine

variable {rest : List Char}

theorem endsWord (h : EndsLine rest) : EndsWord rest := fun d hd => by
  rw [h d hd]
  decide

theorem endsNumber (h : EndsLine rest) : EndsNumber rest := fun d hd => by
  rw [h d hd]
  decide

end EndsLine

namespace Lexeme

/-- A token of the kind `kind` with the text `text` does not go on with `rest`, where a token of the
kind `k` is in front of it. -/
def Stops (k kind : Kind) (text rest : List Char) : Prop :=
  match kind with
  | .ident | .keyword _ => EndsWord rest
  | .integer | .real => EndsNumber rest
  | .comment => text.take 2 = ['/', '*'] ∨ EndsLine rest
  | .minus => dash false k rest = ⟨['-'], rest, .ok .minus⟩
  | .slash => slash false rest = ⟨['/'], rest, .ok .slash⟩
  | _ => ∀ c, text = [c] → symbol c rest = single c rest

variable {expired : Bool} {k k' kind : Kind} {c : Char} {cs text rest : List Char}

theorem stops_wordKind {word : List Char} :
    Stops k (wordKind word) text rest ↔ EndsWord rest := by
  unfold wordKind
  cases Keyword.ofText? word <;> rfl

theorem stops_number {part : NumberPart} : Stops k part.kind text rest ↔ EndsNumber rest := by
  cases part <;> rfl

theorem stops_symbol (h : (symbol c cs).result = .ok kind) :
    Stops k kind text rest ↔ ∀ c, text = [c] → symbol c rest = single c rest := by
  have hsingle : ∀ cs, (single c cs).result = .ok kind →
      (Stops k kind text rest ↔ ∀ c, text = [c] → symbol c rest = single c rest) := by
    intro cs h
    cases h
    unfold singleKind?
    split <;> rfl
  cases cs with
  | nil => exact hsingle [] h
  | cons d cs =>
    unfold symbol at h
    dsimp only at h
    split at h
    · next pair hpair =>
      cases h
      unfold pairKind? at hpair
      split_ifs at hpair <;> cases hpair <;> rfl
    · exact hsingle _ h

/-! ### What is left behind a lexeme -/

theorem endsWord_dropWhile (cs : List Char) : EndsWord (cs.dropWhile isWordChar) := fun d hd => by
  have hhead := List.head?_dropWhile_not isWordChar cs
  rw [Option.mem_def.1 hd] at hhead
  simpa using hhead

theorem endsLine_dropWhile (cs : List Char) : EndsLine (cs.dropWhile (· != '\n')) := fun d hd => by
  have hhead := List.head?_dropWhile_not (· != '\n') cs
  rw [Option.mem_def.1 hd] at hhead
  simpa using hhead

theorem endsNumber_readNumber {part last : NumberPart}
    (h : (readNumber part cs).result = .ok last) : EndsNumber (readNumber part cs).rest := by
  fun_induction readNumber part cs with
  | case1 =>
    intro d hd
    cases hd
  | case12 part c ds hd hpoint hmarker =>
    intro e he
    cases he
    exact ⟨by simpa using hd, hpoint, by simpa using hmarker⟩
  | case2 part d ds hd ih => exact ih h
  | case3 ds hd ih => exact ih h
  | case8 part e he hpoint hmarker hpart s ds hs hds ih => exact ih h
  | case10 part e he hpoint hmarker hpart s ds hs hd ih => exact ih h
  | _ => cases h

theorem stops_of_number {sign : List Char} (h : (number expired sign cs).result = .ok kind) :
    Stops k kind (number expired sign cs).text (number expired sign cs).rest := by
  unfold number at *
  cases expired with
  | true => cases h
  | false =>
    simp only [Bool.false_eq_true, if_false] at h ⊢
    cases hpart : (readNumber .whole cs).result with
    | error fault =>
      simp only [hpart] at h
      cases h
    | ok part =>
      simp only [hpart] at h ⊢
      cases h
      exact stops_number.2 (endsNumber_readNumber hpart)

theorem stops_of_quoted (h : (quoted expired cs).result = .ok kind) :
    Stops k kind (quoted expired cs).text (quoted expired cs).rest := by
  unfold quoted at *
  cases expired with
  | true => cases h
  | false =>
    cases hleft : cs.dropWhile (· != singleQuote) with
    | nil =>
      simp only [hleft] at h
      cases h
    | cons q others =>
      simp only [hleft] at h ⊢
      cases h
      -- There are two marks at least.
      exact fun c hc => by simp at hc

theorem stops_of_dash (h : (dash expired k cs).result = .ok kind) :
    Stops k kind (dash expired k cs).text (dash expired k cs).rest := by
  cases cs with
  | nil =>
    cases h
    rfl
  | cons c cs =>
    rw [dash] at h ⊢
    split_ifs at h ⊢ with hcomment hnumber
    · cases h
      exact Or.inr (endsLine_dropWhile cs)
    · exact stops_of_number h
    · cases h
      show dash false k (c :: cs) = _
      rw [dash, if_neg hcomment, if_neg hnumber]

theorem stops_of_slash (h : (slash expired cs).result = .ok kind) :
    Stops k kind (slash expired cs).text (slash expired cs).rest := by
  cases cs with
  | nil =>
    cases h
    rfl
  | cons c cs =>
    rw [slash] at h ⊢
    split_ifs at h ⊢ with hstar
    · cases expired with
      | true => cases h
      | false =>
        have hresult : (blockTail cs).result = .ok kind := h
        cases kind_of_blockTail hresult
        exact Or.inl rfl
    · cases h
      exact if_neg hstar

theorem stops_of_symbol (h : (symbol c cs).result = .ok kind) :
    Stops k kind (symbol c cs).text (symbol c cs).rest := by
  refine (stops_symbol h).2 fun d hd => ?_
  cases cs with
  | nil =>
    cases hd
    rfl
  | cons e cs =>
    unfold symbol at hd ⊢
    cases hpair : pairKind? c e with
    | some pair =>
      simp only [hpair] at hd
      cases hd
    | none =>
      simp only [hpair] at hd ⊢
      cases hd
      simp only [hpair, single]

/-- A lexeme stops in front of what is left behind it. -/
theorem stops_of_read (h : (read expired k c cs).result = .ok kind) :
    Stops k kind (read expired k c cs).text (read expired k c cs).rest := by
  unfold read at *
  split_ifs at h ⊢ with hletter hdigit hquote hhash hdash hslash
  · cases h
    exact stops_wordKind.2 (endsWord_dropWhile _)
  · exact stops_of_number h
  · exact stops_of_quoted h
  · cases h
    exact Or.inr (endsLine_dropWhile cs)
  · exact stops_of_dash h
  · exact stops_of_slash h
  · exact stops_of_symbol h

/-! ### Reading a lexeme again -/

theorem word_of_stops (hc : isLetter c) (h : (word (c :: cs)).result = .ok kind)
    (hstops : Stops k kind text rest) :
    ∃ ds, (word (c :: cs)).text = c :: ds ∧
      word (c :: (ds ++ rest)) = ⟨c :: ds, rest, .ok kind⟩ := by
  have hword : ∀ d ∈ (c :: cs).takeWhile isWordChar, isWordChar d :=
    fun d hd => List.all_eq_true.1 List.all_takeWhile d hd
  have htext : (c :: cs).takeWhile isWordChar = c :: cs.takeWhile isWordChar :=
    List.takeWhile_cons_of_pos (by rw [isWordChar, hc, Bool.true_or])
  refine ⟨cs.takeWhile isWordChar, htext, ?_⟩
  cases h
  obtain ⟨hcut, hleft⟩ := cut_append hword (stops_wordKind.1 hstops)
  rw [htext] at hcut hleft ⊢
  rw [word, ← List.cons_append, hcut, hleft]

theorem number_of_stops {sign : List Char} (hc : c.isDigit)
    (h : (number expired sign (c :: cs)).result = .ok kind) (hstops : Stops k kind text rest) :
    ∃ ds, (number expired sign (c :: cs)).text = sign ++ c :: ds ∧
      number false sign (c :: (ds ++ rest)) = ⟨sign ++ c :: ds, rest, .ok kind⟩ := by
  unfold number at h
  cases expired with
  | true => cases h
  | false =>
    simp only [number, Bool.false_eq_true, if_false] at h ⊢
    cases hpart : (readNumber .whole (c :: cs)).result with
    | error fault =>
      simp only [hpart] at h
      cases h
    | ok part =>
      simp only [hpart] at h ⊢
      cases h
      have hread := readNumber_text_append hpart (stops_number.1 hstops)
      rw [readNumber_digit hc, Cut.text_after, List.singleton_append] at hread ⊢
      refine ⟨_, rfl, ?_⟩
      rw [← List.cons_append, hread]

theorem number_ne_comment (sign digits : List Char) :
    (number expired sign digits).result ≠ .ok .comment := by
  intro h
  rcases kind_of_number h with h | h <;> cases h

theorem quoted_again (h : (quoted expired cs).result = .ok kind) :
    ∃ ds, (quoted expired cs).text = singleQuote :: ds ∧
      quoted false (ds ++ rest) = ⟨singleQuote :: ds, rest, .ok kind⟩ := by
  unfold quoted at h
  cases expired with
  | true => cases h
  | false =>
    cases hleft : cs.dropWhile (· != singleQuote) with
    | nil =>
      simp only [hleft] at h
      cases h
    | cons q others =>
      simp only [hleft] at h
      cases h
      have hq := List.head?_dropWhile_not (· != singleQuote) cs
      simp only [hleft, List.head?_cons, bne_eq_false_iff_eq] at hq
      subst hq
      refine ⟨cs.takeWhile (· != singleQuote) ++ [singleQuote], ?_, ?_⟩
      · simp only [quoted, hleft]
        rfl
      · have hbody : ∀ d ∈ cs.takeWhile (· != singleQuote), d ≠ singleQuote :=
          fun d hd => bne_iff_ne.1 (List.all_eq_true.1 List.all_takeWhile d hd)
        exact read_quoted (k := .string) hbody

theorem lineComment_again (marker cs : List Char) (hrest : EndsLine rest) :
    lineComment marker (cs.takeWhile (· != '\n') ++ rest) =
      ⟨marker ++ cs.takeWhile (· != '\n'), rest, .ok .comment⟩ := by
  have hbody : ∀ d ∈ cs.takeWhile (· != '\n'), d != '\n' :=
    fun d hd => List.all_eq_true.1 List.all_takeWhile d hd
  have hnewline : ∀ d ∈ rest.head?, (d != '\n') = false := fun d hd => by simp [hrest d hd]
  obtain ⟨hcut, hleft⟩ := cut_append hbody hnewline
  rw [lineComment, hcut, hleft]

/-- What starts with a blank, or is empty, does so still when it is cut off at the end of the
line. -/
theorem blank_head_takeWhile (h : cs.head?.all isBlank) (hrest : EndsLine rest) :
    (cs.takeWhile (· != '\n') ++ rest).head?.all isBlank := by
  have hnewline : rest.head?.all isBlank := by
    cases rest with
    | nil => rfl
    | cons d ds =>
      rw [hrest d rfl]
      rfl
  cases cs with
  | nil => exact hnewline
  | cons c cs =>
    by_cases hc : c = '\n'
    · rw [List.takeWhile_cons_of_neg (by simp [hc])]
      exact hnewline
    · rw [List.takeWhile_cons_of_pos (by simp [hc])]
      exact h

/-- A comment is read again whatever is in front of it, a minus or a number with a sign only where
an operand may end or may not, as it did before. -/
theorem dash_of_stops (h : (dash expired k cs).result = .ok kind)
    (hk : kind ≠ .comment → k'.endsOperand = k.endsOperand)
    (hstops : Stops k' kind (dash expired k cs).text rest) :
    ∃ ds, (dash expired k cs).text = '-' :: ds ∧
      dash false k' (ds ++ rest) = ⟨'-' :: ds, rest, .ok kind⟩ := by
  cases cs with
  | nil =>
    cases h
    exact ⟨[], rfl, hstops⟩
  | cons c cs =>
    rw [dash] at h hstops ⊢
    split_ifs at h hstops ⊢ with hcomment hnumber
    · cases h
      have hline : EndsLine rest := hstops.resolve_left (by simp [lineComment])
      refine ⟨'-' :: cs.takeWhile (· != '\n'), rfl, ?_⟩
      rw [List.cons_append, dash, if_pos ⟨rfl, blank_head_takeWhile hcomment.2 hline⟩]
      exact lineComment_again ['-', '-'] cs hline
    · obtain ⟨ds, htext, hread⟩ := number_of_stops hnumber.1 h hstops
      have hkind : kind ≠ .comment := fun hkind => number_ne_comment _ _ (hkind ▸ h)
      refine ⟨c :: ds, htext, ?_⟩
      have hdash := (of_isDigit hnumber.1).2.2
      rw [List.cons_append, dash, if_neg fun hcomment => hdash hcomment.1,
        if_pos ⟨hnumber.1, (hk hkind).trans hnumber.2⟩]
      exact hread
    · cases h
      exact ⟨[], rfl, hstops⟩

theorem slash_of_stops (h : (slash expired cs).result = .ok kind)
    (hstops : Stops k kind (slash expired cs).text rest) :
    ∃ ds, (slash expired cs).text = '/' :: ds ∧
      slash false (ds ++ rest) = ⟨'/' :: ds, rest, .ok kind⟩ := by
  cases cs with
  | nil =>
    cases h
    exact ⟨[], rfl, hstops⟩
  | cons c cs =>
    rw [slash] at h hstops ⊢
    split_ifs at h hstops ⊢ with hstar
    · cases expired with
      | true => cases h
      | false =>
        have hresult : (blockTail cs).result = .ok kind := h
        cases kind_of_blockTail hresult
        refine ⟨'*' :: (blockTail cs).text, rfl, ?_⟩
        exact congrArg (Cut.after ['/', '*']) (blockTail_text_append rest hresult)
    · cases h
      exact ⟨[], rfl, hstops⟩

theorem symbol_of_stops (h : (symbol c cs).result = .ok kind)
    (hstops : Stops k kind (symbol c cs).text rest) :
    ∃ ds, (symbol c cs).text = c :: ds ∧ symbol c (ds ++ rest) = ⟨c :: ds, rest, .ok kind⟩ := by
  have hsingle := (stops_symbol h).1 hstops
  cases cs with
  | nil =>
    cases h
    exact ⟨[], rfl, hsingle c rfl⟩
  | cons d cs =>
    cases hpair : pairKind? c d with
    | some pair =>
      simp only [symbol, hpair] at h ⊢
      cases h
      exact ⟨[d], rfl, by simp only [List.cons_append, List.nil_append, hpair]⟩
    | none =>
      simp only [symbol, hpair] at h hsingle ⊢
      cases h
      exact ⟨[], rfl, hsingle c rfl⟩

/-- A lexeme that gave a token is read again where it does not go on with what stands behind it. If
it starts with a minus and is no comment, an operand must end in front of it as it did before, or
must not. -/
theorem read_of_stops (h : (read expired k c cs).result = .ok kind)
    (hk : c = '-' → kind ≠ .comment → k'.endsOperand = k.endsOperand)
    (hstops : Stops k' kind (read expired k c cs).text rest) :
    ∃ ds, (read expired k c cs).text = c :: ds ∧
      read false k' c (ds ++ rest) = ⟨c :: ds, rest, .ok kind⟩ := by
  unfold read at *
  split_ifs at h hstops ⊢ with hletter hdigit hquote hhash hdash hslash
  · exact word_of_stops hletter h hstops
  · exact number_of_stops hdigit h hstops
  · subst hquote
    exact quoted_again h
  · cases h
    subst hhash
    have hline : EndsLine rest := hstops.resolve_left (by simp [lineComment])
    exact ⟨_, rfl, lineComment_again ['#'] cs hline⟩
  · subst hdash
    exact dash_of_stops h (hk rfl) hstops
  · subst hslash
    exact slash_of_stops h hstops
  · exact symbol_of_stops h hstops

/-! ### Texts that no lexeme goes on with -/

theorem dash_eq_minus {d : Char} {ds : List Char} :
    dash false k (d :: ds) = ⟨['-'], d :: ds, .ok .minus⟩ ↔
      ¬(d = '-' ∧ ds.head?.all isBlank) ∧ ¬(d.isDigit ∧ k.endsOperand = false) := by
  rw [dash]
  split_ifs with hcomment hnumber
  · exact iff_of_false (fun h => by simp [lineComment] at h) fun h => h.1 hcomment
  · refine iff_of_false (fun h => ?_) fun h => h.2 hnumber
    have hresult := congrArg Cut.result h
    unfold number at hresult
    simp only [Bool.false_eq_true, if_false] at hresult
    split at hresult
    · next part _ => cases part <;> cases hresult
    · cases hresult
  · exact iff_of_true rfl ⟨hcomment, hnumber⟩

theorem slash_eq_slash {d : Char} {ds : List Char} :
    slash false (d :: ds) = ⟨['/'], d :: ds, .ok .slash⟩ ↔ d ≠ '*' := by
  rw [slash]
  split_ifs with hstar
  · refine iff_of_false (fun h => ?_) fun h => h hstar
    have htext := congrArg Cut.text h
    simp [blockComment] at htext
  · exact iff_of_true rfl hstar

theorem symbol_eq_single {d : Char} {ds : List Char} :
    symbol c (d :: ds) = single c (d :: ds) ↔ pairKind? c d = none := by
  unfold symbol
  cases hpair : pairKind? c d with
  | some pair => simp [hpair, single]
  | none => simp [hpair]

/-- Only a comment without an end marker goes on with a character that ends words and numbers and is
in no token of two characters but as the first one. -/
theorem stops_of_head {d : Char} {ds : List Char} (hword : EndsWord (d :: ds))
    (hnumber : EndsNumber (d :: ds)) (hd : d ≠ '-' ∧ d ≠ '*' ∧ d ≠ '=' ∧ d ≠ '>')
    (hkind : kind ≠ .comment) : Stops k kind text (d :: ds) := by
  obtain ⟨hminus, hstar, heq, hgt⟩ := hd
  have hdigit := (hnumber d rfl).1
  unfold Stops
  split
  · exact hword
  · exact hword
  · exact hnumber
  · exact hnumber
  · exact absurd rfl hkind
  · exact dash_eq_minus.2 ⟨fun h => hminus h.1, by simp [hdigit]⟩
  · exact slash_eq_slash.2 hstar
  · exact fun c _ => symbol_eq_single.2 (by simp [pairKind?, heq, hgt])

theorem stops_of_delimited (h : Delimited rest) (hkind : kind ≠ .comment) :
    Stops k kind text rest := by
  have hword := h.endsWord
  have hnumber := h.endsNumber
  obtain ⟨d, ds, rfl, hd⟩ := h
  have hchar : delimiters.all fun d => d != '-' && (d != '*' && (d != '=' && d != '>')) := by
    decide
  exact stops_of_head hword hnumber (by simpa using List.all_eq_true.1 hchar d hd) hkind

/-- A comment with an end marker may stand right behind any lexeme but a comment without one. -/
theorem stops_of_startsComment (hkind : kind ≠ .comment) : Stops k kind text ('/' :: rest) := by
  refine stops_of_head (fun d hd => ?_) (fun d hd => ?_) (by decide) hkind <;> cases hd <;> decide

/-- Nothing goes on at the end of a line. -/
theorem stops_of_endsLine (h : EndsLine rest) : Stops k kind text rest := by
  cases rest with
  | nil =>
    unfold Stops
    split
    · exact h.endsWord
    · exact h.endsWord
    · exact h.endsNumber
    · exact h.endsNumber
    · exact Or.inr h
    · rfl
    · rfl
    · exact fun c _ => rfl
  | cons d ds =>
    by_cases hkind : kind = .comment
    · subst hkind
      exact Or.inr h
    · refine stops_of_delimited ⟨d, ds, rfl, ?_⟩ hkind
      rw [h d rfl]
      decide

/-- Of what stands behind a lexeme the first character matters, and for a minus in front of another
one whether a blank follows. -/
theorem Stops.congr {d : Char} {ds ds' : List Char} (h : Stops k kind text (d :: ds))
    (hk : kind = .minus → k'.endsOperand = k.endsOperand)
    (hminus : kind = .minus → d = '-' → ds'.head?.all isBlank → ds.head?.all isBlank) :
    Stops k' kind text (d :: ds') := by
  have hhead : (d :: ds').head? = (d :: ds).head? := rfl
  unfold Stops at h ⊢
  split at h
  · exact fun e he => h e (hhead ▸ he)
  · exact fun e he => h e (hhead ▸ he)
  · exact fun e he => h e (hhead ▸ he)
  · exact fun e he => h e (hhead ▸ he)
  · exact h.imp_right fun h e he => h e (hhead ▸ he)
  · obtain ⟨hcomment, hnumber⟩ := dash_eq_minus.1 h
    refine dash_eq_minus.2
      ⟨fun hdash => hcomment ⟨hdash.1, hminus rfl hdash.1 hdash.2⟩, ?_⟩
    rwa [hk rfl]
  · exact slash_eq_slash.2 (slash_eq_slash.1 h)
  · exact fun c hc => symbol_eq_single.2 (symbol_eq_single.1 (h c hc))

/-- What stands in front of a lexeme matters only for a minus. -/
theorem Stops.after_kind (h : Stops k kind text rest)
    (hk : kind = .minus → k'.endsOperand = k.endsOperand) : Stops k' kind text rest := by
  cases rest with
  | nil => exact stops_of_endsLine nofun
  | cons d ds => exact h.congr hk fun _ _ => id

/-- A lexeme is read again between other texts. -/
theorem reread {ds rest' : List Char}
    (h : read false k c (ds ++ rest) = ⟨c :: ds, rest, .ok kind⟩)
    (hk : c = '-' → kind ≠ .comment → k'.endsOperand = k.endsOperand)
    (hstops : Stops k' kind (c :: ds) rest') :
    read false k' c (ds ++ rest') = ⟨c :: ds, rest', .ok kind⟩ := by
  have htext : (read false k c (ds ++ rest)).text = c :: ds := congrArg Cut.text h
  rw [← htext] at hstops
  obtain ⟨es, hes, hread⟩ := read_of_stops (congrArg Cut.result h) hk hstops
  obtain rfl := (List.cons_inj_right c).1 (hes.symm.trans htext)
  exact hread

end Lexeme

end SqlFormatter

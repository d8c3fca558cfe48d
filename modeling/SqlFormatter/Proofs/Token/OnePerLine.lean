import SqlFormatter.Proofs.Token.Behind
import SqlFormatter.Proofs.Token.Lossless

/-!
# SqlFormatter.Proofs.Token.OnePerLine

Tokens written one to a line are read as the same tokens.

* A lexeme that gave a token is read again from its text, if the line ends behind it
  (`Lexeme.read_again`). What stood before it must be of the same kind as it was, because that
  decides whether a minus is a sign.
* `Scanner.tokenize_writtenOut` carries this along a whole text: the kind before a token is that of
  the token before, comments apart, and those are the same as well.
* `tokenize_lines` is the main result.
-/

namespace SqlFormatter

namespace Lexeme

/-- A lexeme that gave a token is read again, after the same kind, where the line ends behind it. -/
theorem read_again {expired : Bool} {k kind : Kind} {c : Char} {cs rest : List Char}
    (h : (read expired k c cs).result = .ok kind) (hrest : EndsLine rest) :
    ∃ ds, (read expired k c cs).text = c :: ds ∧
      read false k c (ds ++ rest) = ⟨c :: ds, rest, .ok kind⟩ :=
  read_of_stops h (fun _ _ => rfl) (stops_of_endsLine hrest)

end Lexeme

/-! ### Writing tokens out -/

/-- The tokens but for the end of input. -/
def lexemes (tokens : List Token) : List Token := tokens.filter (! ·.isEndOfInput)

/-- The texts of the tokens, with a newline between each two. -/
def writtenOut (tokens : List Token) : String :=
  "\n".intercalate ((lexemes tokens).map Token.text)

/-- What is said of a token apart from its place. -/
def Token.reading (t : Token) : Kind × String := (t.kind, t.text)

theorem lexemes_cons {t : Token} {ts : List Token} (ht : t.kind ≠ .endOfInput) :
    lexemes (t :: ts) = t :: lexemes ts :=
  List.filter_cons_of_pos (by simp [Token.isEndOfInput, ht])

/-- Behind the first token the line ends, and the others are on the next one. -/
theorem writtenOut_cons {t : Token} (ts : List Token) (ht : t.kind ≠ .endOfInput) :
    ∃ rest, EndsLine rest ∧ (writtenOut (t :: ts)).toList = t.text.toList ++ rest ∧
      (rest = (writtenOut ts).toList ∨ rest = '\n' :: (writtenOut ts).toList) := by
  unfold writtenOut
  rw [lexemes_cons ht, List.map_cons]
  cases (lexemes ts).map Token.text with
  | nil =>
    refine ⟨[], nofun, ?_, Or.inl rfl⟩
    rw [String.intercalate_singleton, List.append_nil]
  | cons text texts =>
    refine ⟨'\n' :: ("\n".intercalate (text :: texts)).toList, ?_, ?_, Or.inr rfl⟩
    · intro d hd
      cases hd
      rfl
    · rw [String.intercalate_cons_cons, String.toList_append, String.toList_append,
        List.append_assoc]
      rfl

namespace Scanner

/-- A scanner that stands in front of the tokens written out finds them again. -/
theorem tokenize_writtenOut {s v : Scanner} {tokens : List Token} (h : s.tokenize.1 = .ok tokens)
    (hrest : v.rest = (writtenOut tokens).toList) (hprevious : v.previous = s.previous)
    (hexpired : v.expired = false) :
    ∃ tokens', v.tokenize.1 = .ok tokens' ∧
      tokens'.map Token.reading = tokens.map Token.reading := by
  -- The induction follows `s` through its text, with whatever scanner stands in front of the
  -- tokens that `s` still has to find.
  induction hn : s.rest.length using Nat.strongRecOn generalizing s v tokens with
  | ind n ih =>
    rcases tokenize_eq_ok h with
      ⟨hends, rfl⟩ | ⟨gap, c, cs, t, u, others, rfl, hkind, hmeets, htakes, hothers, hlt⟩
    · exact ⟨_, tokenize_of_rest_eq_nil hrest, rfl⟩
    · obtain ⟨rest, hline, hwritten, hnext⟩ := writtenOut_cons others hkind
      obtain ⟨ds, htext, hread⟩ := Lexeme.read_again htakes.result_eq hline
      rw [hwritten, htakes.text_eq, String.toList_ofList, htext] at hrest
      -- The first token is read again, and `w` stands behind it.
      obtain ⟨w, hscan, hrest', hprevious', hexpired'⟩ :=
        scan_of_read hrest hmeets.isGap_first (by rw [hexpired, hprevious]; exact hread)
      have hafter : w.previous = u.previous := by
        rw [hprevious', hprevious, htakes.previous_after]
        rfl
      have hothers' : ∃ tokens', w.tokenize.1 = .ok tokens' ∧
          tokens'.map Token.reading = others.map Token.reading := by
        rcases hnext with rfl | rfl
        · exact ih _ (hn ▸ hlt) hothers hrest' hafter (hexpired'.trans hexpired) rfl
        · rw [tokenize_of_scan_eq (scan_of_gap hrest' (by decide))]
          exact ih _ (hn ▸ hlt) hothers rfl hafter (hexpired'.trans hexpired) rfl
      obtain ⟨tokens', htokens', hreading⟩ := hothers'
      rw [tokenize_of_token hscan hkind, htokens']
      refine ⟨_, rfl, ?_⟩
      rw [List.map_cons, List.map_cons, hreading]
      simp only [Token.reading, htakes.text_eq, htext]

/-- Tokens written out do not start with a byte order mark, unless the first one is an illegal
character. -/
theorem head?_writtenOut_ne {s : Scanner} {tokens : List Token} (h : s.tokenize.1 = .ok tokens)
    (hlegal : ∀ t ∈ tokens, t.kind ≠ .illegal) :
    (writtenOut tokens).toList.head? ≠ some byteOrderMark := by
  rcases tokenize_eq_ok h with
    ⟨-, rfl⟩ | ⟨gap, c, cs, t, u, others, rfl, hkind, -, htakes, -, -⟩
  · exact nofun
  · obtain ⟨rest, hline, hwritten, -⟩ := writtenOut_cons others hkind
    obtain ⟨ds, htext, -⟩ := Lexeme.read_again htakes.result_eq hline
    rw [hwritten, htakes.text_eq, String.toList_ofList, htext]
    intro hmark
    cases hmark
    have hresult := (Lexeme.read_byteOrderMark _ _ _).symm.trans htakes.result_eq
    exact hlegal t List.mem_cons_self (Except.ok.inj hresult).symm

end Scanner

/-- Cutting undoes writing the tokens of a text out, if none of them is an illegal character: the
same tokens are found, and then the end of input. -/
theorem tokenize_lines {file target : File} {text : String} {expired : Bool} {scanner : Scanner}
    {tokens : List Token} (hscanner : Scanner.ofText file text expired = .ok scanner)
    (htokens : scanner.tokenize.1 = .ok tokens) (hlegal : ∀ t ∈ tokens, t.kind ≠ .illegal)
    (hsize : target.size = byteLength (writtenOut tokens).toList) :
    ∃ scanner' tokens', Scanner.ofText target (writtenOut tokens) = .ok scanner' ∧
      scanner'.tokenize.1 = .ok tokens' ∧
      tokens'.map Token.reading = (lexemes tokens).map Token.reading ++ [(.endOfInput, "")] := by
  obtain ⟨-, -, -, hprevious, -⟩ := Scanner.ofText_eq_ok hscanner
  obtain ⟨init, hinit, hproper⟩ := (Scanner.tiles_tokenize htokens).exists_init
  have hlexemes : lexemes tokens = init := by
    rw [hinit, lexemes, List.filter_append, List.filter_eq_self.2]
    · exact List.append_nil init
    · intro t ht
      simp [Token.isEndOfInput, (hproper t ht).1]
  have hscanner' := Scanner.ofText_of_head?_ne hsize (Scanner.head?_writtenOut_ne htokens hlegal)
  obtain ⟨tokens', htokens', hreading⟩ :=
    Scanner.tokenize_writtenOut (v := { file := target, rest := (writtenOut tokens).toList })
      htokens rfl hprevious.symm rfl
  refine ⟨_, tokens', hscanner', htokens', ?_⟩
  rw [hreading, hlexemes, hinit, List.map_append]
  rfl

/-- A minus behind a name, signs behind comparisons and comments, and two spellings of one
comparison. -/
theorem tokenize_signs :
    ∃ scanner, Scanner.ofText ⟨0, "q.sql", 1, 20, []⟩ "a-1<>-1!=/**/-- x\n-5" = .ok scanner ∧
      scanner.tokenize.1 = .ok [⟨1, .ident, "a"⟩, ⟨2, .minus, "-"⟩, ⟨3, .integer, "1"⟩,
        ⟨4, .notEq, "<>"⟩, ⟨6, .integer, "-1"⟩, ⟨8, .notEq, "!="⟩, ⟨10, .comment, "/**/"⟩,
        ⟨14, .comment, "-- x"⟩, ⟨19, .integer, "-5"⟩, .endOfInput 21] :=
  ⟨_, rfl, by decide +kernel⟩

theorem tokenize_lines_signs :
    ∃ scanner tokens, Scanner.ofText ⟨0, "q.sql", 5, 27, []⟩
        "a\n-\n1\n<>\n-1\n!=\n/**/\n-- x\n-5" = .ok scanner ∧
      scanner.tokenize.1 = .ok tokens ∧
      tokens.map Token.reading = [(.ident, "a"), (.minus, "-"), (.integer, "1"), (.notEq, "<>"),
        (.integer, "-1"), (.notEq, "!="), (.comment, "/**/"), (.comment, "-- x"),
        (.integer, "-5"), (.endOfInput, "")] := by
  obtain ⟨scanner, hscanner, htokens⟩ := tokenize_signs
  exact @tokenize_lines _ ⟨0, "q.sql", 5, 27, []⟩ _ _ _ _ hscanner htokens (by decide) (by decide)

end SqlFormatter

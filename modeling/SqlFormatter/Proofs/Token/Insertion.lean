import SqlFormatter.Proofs.Grammar.Progress
import SqlFormatter.Proofs.Token.Lexes
import SqlFormatter.Proofs.Token.OnePerLine

/-!
# SqlFormatter.Proofs.Token.Insertion

A comment with an end marker may be put in front of any token that is no comment, and behind it. A
text that is cut there into two pieces is cut into the same tokens, with the comment between them:

* the front piece does not go on with the comment (`Lexeme.stops_of_startsComment`), unless it ends
  in a comment without an end marker, behind which the line ends;
* the comment is cut off where it ends (`Lexes.blockComment`), and is not what stands in front of
  the next token when it is decided whether a minus is a sign;
* the other piece only moves (`Lexes.moved`).

`tokenize_insert_comment` is the main result.
-/

namespace SqlFormatter

/-! ### The comment -/

/-- The text of the comment with `body` between its markers. -/
def blockCommentText (body : List Char) : List Char := ['/', '*'] ++ (body ++ ['*', '/'])

/-- What holds no end marker is the body of a comment up to the next one. -/
theorem Lexeme.blockTail_body {body : List Char} (h : ¬['*', '/'] <:+: body) :
    blockTail (body ++ ['*', '/']) = ⟨body ++ ['*', '/'], [], .ok .comment⟩ := by
  induction body with
  | nil => rfl
  | cons c cs ih =>
    have hread := ih fun hcs => h (hcs.trans (List.suffix_cons c cs).isInfix)
    cases cs with
    | nil =>
      show blockTail [c, '*', '/'] = _
      rw [blockTail, if_neg (by simp)]
      exact congrArg (Cut.after [c]) hread
    | cons d ds =>
      have hopen : ¬(c = '*' ∧ d = '/') := by
        rintro ⟨rfl, rfl⟩
        exact h (List.prefix_append ['*', '/'] ds).isInfix
      show blockTail (c :: d :: (ds ++ ['*', '/'])) = _
      rw [blockTail, if_neg hopen]
      exact congrArg (Cut.after [c]) hread

theorem map_reading_moved (f : Nat → Nat) (ts : List Token) :
    (ts.map (Token.moved f)).map Token.reading = ts.map Token.reading :=
  List.map_map

namespace Lexes

variable {k k' m : Kind} {p q : Nat} {front back rest body : List Char} {ts us : List Token}

theorem blockComment (k : Kind) (p : Nat) (rest : List Char) (h : ¬['*', '/'] <:+: body) :
    Lexes k p (blockCommentText body) rest
      [⟨p, .comment, String.ofList (blockCommentText body)⟩] k := by
  obtain ⟨cs, hcs, hread⟩ :=
    (Standalone.blockComment (Lexeme.blockTail_body h)).read_blockComment rfl rest
  have htoken : Lexes k p ('/' :: cs ++ []) rest [⟨p, .comment, String.ofList ('/' :: cs)⟩] k :=
    .token rfl (by rw [List.nil_append, hread, hcs]) (.nil ..)
  rwa [List.append_nil, ← hcs] at htoken

/-- A comment may be put between two pieces. -/
theorem insert_comment (hfront : Lexes k p front back ts k')
    (hback : Lexes k' (p + byteLength front) back [] us m)
    (hends : (∀ t ∈ ts.getLast?, t.kind ≠ .comment) ∨ ¬EndsLine back)
    (hbody : ¬['*', '/'] <:+: body) :
    ∃ us', us'.map Token.reading = us.map Token.reading ∧
      Lexes k p (front ++ (blockCommentText body ++ back)) []
        (ts ++ ⟨p + byteLength front, .comment, String.ofList (blockCommentText body)⟩ :: us')
        m := by
  have hfront' : Lexes k p front (blockCommentText body ++ back ++ []) ts k' := by
    refine hfront.before_stops (fun k t ht hstops => ?_) (Or.inr nofun)
    by_cases hkind : t.kind = .comment
    · -- A comment at the end of the front piece has an end marker.
      rw [hkind] at hstops ⊢
      have hline := hends.resolve_left fun hnone => hnone t ht hkind
      exact Or.inl (hstops.resolve_right hline)
    · exact Lexeme.stops_of_startsComment hkind
  have hmoved := hback.moved (f := (· + byteLength (blockCommentText body)))
    (q := p + byteLength front + byteLength (blockCommentText body)) fun n => by omega
  have hcomment := blockComment k' (p + byteLength front) (back ++ []) hbody
  exact ⟨_, map_reading_moved _ us, hfront'.append (hcomment.append hmoved)⟩

end Lexes

/-! ### The text of a file -/

/-- The text is cut into tokens, of which this is said, whatever the file is. -/
def CutsInto (text : String) (readings : List (Kind × String)) : Prop :=
  ∀ file : File, file.size = byteLength text.toList → ∃ scanner tokens,
    Scanner.ofText file text = .ok scanner ∧ scanner.tokenize.1 = .ok tokens ∧
    tokens.map Token.reading = readings

/-- Between two pieces of a text a comment may be put. -/
theorem cutsInto_insert_comment {text : String} {front back body : List Char} {p : Nat} {k m : Kind}
    {ts us : List Token} (htext : text.toList = leadingMark text ++ (front ++ back))
    (hfront : Lexes .endOfInput p front back ts k)
    (hback : Lexes k (p + byteLength front) back [] us m)
    (hends : (∀ t ∈ ts.getLast?, t.kind ≠ .comment) ∨ ¬EndsLine back)
    (hbody : ¬['*', '/'] <:+: body) :
    CutsInto (String.ofList (leadingMark text ++ (front ++ (blockCommentText body ++ back))))
      (ts.map Token.reading ++ (.comment, String.ofList (blockCommentText body)) ::
        (us.map Token.reading ++ [(.endOfInput, "")])) := by
  intro file hsize
  obtain ⟨us', hus', hlexes⟩ := hfront.insert_comment hback hends hbody
  rw [String.toList_ofList] at hsize
  obtain ⟨scanner, f, q, hscanner, htokens⟩ :=
    Scanner.exists_tokenize_of_lexes htext (by simp [blockCommentText, byteOrderMark]) hlexes hsize
  refine ⟨scanner, _, hscanner, htokens, ?_⟩
  rw [List.map_append, map_reading_moved, List.map_append, List.map_cons, hus', List.append_assoc]
  rfl

/-- In front of any token of a text that is no comment, and behind it, a comment may be put that has
an end marker at its end only: the text is cut into the same tokens, with the comment in its
place. -/
theorem tokenize_insert_comment {file : File} {text : String} {scanner : Scanner}
    {tokens front back : List Token} {t : Token} {body : List Char}
    (hscanner : Scanner.ofText file text = .ok scanner) (htokens : scanner.tokenize.1 = .ok tokens)
    (hsplit : tokens = front ++ t :: back) (hcomment : t.kind ≠ .comment)
    (hend : t.kind ≠ .endOfInput) (hbody : ¬['*', '/'] <:+: body) :
    ∃ before after, text.toList = before ++ (t.text.toList ++ after) ∧
      t.pos = file.base + byteLength before ∧
      CutsInto (String.ofList (before ++ (blockCommentText body ++ (t.text.toList ++ after))))
        (front.map Token.reading ++ (.comment, String.ofList (blockCommentText body)) ::
          t.reading :: back.map Token.reading) ∧
      CutsInto (String.ofList (before ++ (t.text.toList ++ (blockCommentText body ++ after))))
        (front.map Token.reading ++ t.reading ::
          (.comment, String.ofList (blockCommentText body)) :: back.map Token.reading) := by
  obtain ⟨rest, init, m, htext, hinit, hlexes⟩ := Scanner.exists_lexes hscanner htokens
  -- The end of input is behind the token.
  obtain ⟨later, rfl, rfl⟩ : ∃ later,
      back = later ++ [.endOfInput (file.base + byteLength text.toList)] ∧
        init = front ++ t :: later := by
    rw [hsplit] at hinit
    rcases back.eq_nil_or_concat with rfl | ⟨later, last, rfl⟩
    · obtain ⟨-, hlast⟩ := List.append_inj' hinit rfl
      cases hlast
      exact absurd rfl hend
    · rw [List.concat_eq_append, ← List.cons_append, ← List.append_assoc] at hinit
      obtain ⟨hfront, hlast⟩ := List.append_inj' hinit rfl
      exact ⟨later, by rw [List.concat_eq_append, hlast], hfront.symm⟩
  obtain ⟨first, c, cs, after, k, ht, hc, rfl, hstart, hfront, htoken, hlater⟩ := hlexes.split_at
  rw [List.append_nil] at hfront htoken
  have hbefore : t.pos = file.base + byteLength (leadingMark text ++ first) := by
    rw [hstart, Nat.add_assoc, ← byteLength_append]
  rw [hstart] at htoken hlater
  refine ⟨leadingMark text ++ first, after, ?_, hbefore, ?_, ?_⟩
  · rw [htext, ht]
    simp only [List.append_assoc]
  · -- The token does not start with a newline.
    have hline : ¬EndsLine (c :: cs ++ after) := by
      intro hline
      rw [hline c rfl] at hc
      cases hc
    have hback : Lexes k _ (c :: cs ++ after) [] ([t] ++ later) m :=
      .append (by rwa [List.append_nil]) hlater
    have hcuts := cutsInto_insert_comment htext hfront hback (Or.inr hline) hbody
    rw [ht]
    simp only [List.append_assoc, List.map_append] at hcuts ⊢
    exact hcuts
  · have hlast : ∀ u ∈ (front ++ [t]).getLast?, u.kind ≠ .comment := by
      rw [List.getLast?_concat]
      rintro u ⟨⟩
      exact hcomment
    rw [← List.append_assoc first] at htext
    rw [Nat.add_assoc, ← byteLength_append] at hlater
    have hcuts := cutsInto_insert_comment htext (hfront.append htoken) hlater (Or.inl hlast) hbody
    rw [ht]
    simp only [List.append_assoc, List.map_append] at hcuts ⊢
    exact hcuts

/-- Between a minus and a number with a sign. -/
theorem tokenize_insert_comment_at_sign :
    ∃ scanner, Scanner.ofText ⟨0, "q.sql", 1, 4, []⟩ "a--1" = .ok scanner ∧
      scanner.tokenize.1 = .ok [⟨1, .ident, "a"⟩, ⟨2, .minus, "-"⟩, ⟨3, .integer, "-1"⟩,
        .endOfInput 5] ∧
      ∃ before after, "a--1".toList = before ++ ("-1".toList ++ after) ∧ 3 = 1 + byteLength before ∧
        CutsInto (String.ofList (before ++ (blockCommentText ['-'] ++ ("-1".toList ++ after))))
          [(.ident, "a"), (.minus, "-"), (.comment, "/*-*/"), (.integer, "-1"),
            (.endOfInput, "")] ∧
        CutsInto (String.ofList (before ++ ("-1".toList ++ (blockCommentText ['-'] ++ after))))
          [(.ident, "a"), (.minus, "-"), (.integer, "-1"), (.comment, "/*-*/"),
            (.endOfInput, "")] := by
  let scanner : Scanner := { file := ⟨0, "q.sql", 1, 4, []⟩, rest := "a--1".toList }
  have hscanner : Scanner.ofText ⟨0, "q.sql", 1, 4, []⟩ "a--1" = .ok scanner := rfl
  have htokens : scanner.tokenize.1 = .ok ([⟨1, .ident, "a"⟩, ⟨2, .minus, "-"⟩] ++
      ⟨3, .integer, "-1"⟩ :: [.endOfInput 5]) := by decide +kernel
  exact ⟨scanner, hscanner, htokens,
    tokenize_insert_comment hscanner htokens rfl (by decide) (by decide) (by decide)⟩

end SqlFormatter

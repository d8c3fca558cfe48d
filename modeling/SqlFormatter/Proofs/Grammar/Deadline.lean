import SqlFormatter.Proofs.Checked.Parser
import SqlFormatter.Proofs.Grammar.Lookahead
import SqlFormatter.Proofs.Token.Deadline

/-!
# SqlFormatter.Proofs.Grammar.Deadline

A parser whose time is over, next to the same parser with time.

* The two read the same up to the first scan in which the time is looked at, where the one without
  time fails. `Scanner.Late` says this of their feeds, and scan after scan carries it along
  (`Scanner.late_feedAfter`).
* The grammar looks one token ahead, so it says the same of the tokens in front of that scan if it
  refuses one of them; and if it does not, the parser with time has come behind that scan
  (`Parser.parse_late`).
* `parse_expired` is the main result, on parsers at the start of a text.
-/

namespace SqlFormatter

/-! ### Feeds -/

/-- The piece when the time is over. -/
def Piece.late (q : Piece) : Piece := { q with after := q.after.late }

/-- The feed when the time is over, if the time is not looked at. -/
def Feed.late (f : Feed) : Feed :=
  ⟨f.pieces.map Piece.late, f.closing.map Piece.late, f.last.late⟩

theorem Feed.tokens_late (f : Feed) : f.late.tokens = f.tokens := by
  simp [tokens, late, Function.comp_def, Piece.late]

theorem filterMap_group?_late (ps : List Piece) :
    (ps.map Piece.late).filterMap Piece.group? = ps.filterMap Piece.group? :=
  List.filterMap_map

theorem Feed.groups_late (f : Feed) : f.late.groups = f.groups := by
  unfold groups
  rw [late, filterMap_group?_late]
  cases f.closing <;> rfl

namespace Scanner

variable {s u : Scanner} {t : Token} {f g : Feed}

/-- The time is not looked at in the first `n` scans. -/
def Untimed (s : Scanner) (n : Nat) : Prop := ∀ i < n, timed (s.outcome i) = false

/-- With time the feed from `s` on is `f`, and without time it is `g`, as the time is first looked
at in the scan after `n` others, behind the pieces `front` of `f`. -/
structure Cut (s : Scanner) (n : Nat) (front back : List Piece) (f g : Feed) : Prop where
  untimed : s.Untimed n
  timed : timed (s.outcome n)
  pieces_eq : f.pieces = front ++ back
  front_le : ∀ q ∈ front, ∃ j ≤ n, q.after = s.after j
  lt_back : ∀ q ∈ back, ∃ j > n, q.after = s.after j
  lt_last : ∃ j > n, f.last = s.after j
  late_eq : g.pieces = front.map Piece.late
  closing_eq : g.closing = .error (lateError (s.outcome n))
  reports_eq : g.last.reports = (s.after n).reports ++ [.fatal (lateError (s.outcome n))]

/-- With time the feed from `s` on is `f`, and without time it is `g`. -/
inductive Late (s : Scanner) (f g : Feed) : Prop where
  /-- The time is not looked at in any of the `n` scans. -/
  | same (n : Nat) (untimed : s.Untimed n) (pieces : ∀ q ∈ f.pieces, ∃ j ≤ n, q.after = s.after j)
      (last : f.last = s.after n) (late_eq : g = f.late)
  /-- The time is looked at somewhere. -/
  | cut (n : Nat) (front back : List Piece) (h : s.Cut n front back f g)

theorem after_of_scan_eq {outcome : Except LexError Token} (hscan : s.scan = (outcome, u))
    (n : Nat) : u.after n = s.after (n + 1) := by
  rw [← s.after_scan, hscan]

theorem outcome_of_scan_eq {outcome : Except LexError Token} (hscan : s.scan = (outcome, u))
    (n : Nat) : u.outcome n = s.outcome (n + 1) := by
  rw [← s.outcome_scan, hscan]

/-- All scanners of a feed are behind the first scan. -/
theorem after_of_mem_feedAfter (s : Scanner) (before : List Comment) :
    (∀ q ∈ (s.feedAfter before).pieces, ∃ j > 0, q.after = s.after j) ∧
      ∃ j > 0, (s.feedAfter before).last = s.after j := by
  have hnext : ∀ {s u v : Scanner} {outcome}, s.scan = (outcome, u) →
      (∃ j > 0, v = u.after j) → ∃ j > 0, v = s.after j := by
    rintro s u v outcome hscan ⟨j, -, rfl⟩
    exact ⟨j + 1, Nat.succ_pos j, after_of_scan_eq hscan j⟩
  have hone : ∀ {s u : Scanner} {outcome}, s.scan = (outcome, u) → ∃ j > 0, u = s.after j :=
    fun hscan => ⟨1, Nat.one_pos, after_of_scan_eq hscan 0⟩
  induction s using scanInduction generalizing before with
  | error s u e hscan =>
    rw [feedAfter_of_error hscan]
    exact ⟨List.forall_mem_nil _, hone hscan⟩
  | endOfInput s u t hscan hend =>
    rw [feedAfter_of_endOfInput hscan hend]
    exact ⟨List.forall_mem_nil _, hone hscan⟩
  | comment s u t hscan hcomment ih =>
    obtain ⟨hpieces, hlast⟩ := ih (before ++ [⟨t.pos, t.text⟩])
    rw [feedAfter_of_comment hscan hcomment]
    exact ⟨fun q hq => hnext hscan (hpieces q hq), hnext hscan hlast⟩
  | token s u t hscan hend hcomment ih =>
    obtain ⟨hpieces, hlast⟩ := ih []
    rw [feedAfter_of_token hscan hend hcomment]
    exact ⟨List.forall_mem_cons.2 ⟨hone hscan, fun q hq => hnext hscan (hpieces q hq)⟩,
      hnext hscan hlast⟩

/-- The time is looked at in the first scan. -/
theorem Late.first (h : s.expired = false) (htimed : timed s.scan.1) (before : List Comment) :
    s.Late (s.feedAfter before) (s.late.feedAfter before) := by
  obtain ⟨hpieces, hlast⟩ := s.after_of_mem_feedAfter before
  obtain ⟨v, hscan, hreports⟩ := scan_late_of_timed h htimed
  have hfeed := feedAfter_of_error hscan before
  refine .cut 0 [] _ ⟨fun i hi => absurd hi (Nat.not_lt_zero i), htimed, rfl,
    List.forall_mem_nil _, hpieces, hlast, ?_, ?_, ?_⟩ <;> rw [hfeed]
  · rfl
  · rfl
  · exact hreports

/-- The time is not looked at in the first scan, which comes to `u`, and there may be a piece in
front of that. -/
theorem Late.next (h : u.Late f g) (hscan : s.scan = (.ok t, u)) (htimed : timed (.ok t) = false)
    (ps : List Piece) (hps : ∀ q ∈ ps, q.after = u) :
    s.Late { f with pieces := ps ++ f.pieces }
      { g with pieces := ps.map Piece.late ++ g.pieces } := by
  have hafter := after_of_scan_eq hscan
  have houtcome := outcome_of_scan_eq hscan
  have huntimed : ∀ {n}, u.Untimed n → s.Untimed (n + 1) := by
    intro n hn i hi
    cases i with
    | zero =>
      rw [outcome, after, hscan]
      exact htimed
    | succ i => exact houtcome i ▸ hn i (Nat.lt_of_succ_lt_succ hi)
  have hle : ∀ {n} {ps' : List Piece}, (∀ q ∈ ps', ∃ j ≤ n, q.after = u.after j) →
      ∀ q ∈ ps ++ ps', ∃ j ≤ n + 1, q.after = s.after j := by
    intro n ps' hps'
    refine List.forall_mem_append.2 ⟨fun q hq => ?_, fun q hq => ?_⟩
    · exact ⟨1, Nat.le_add_left .., (hps q hq).trans (hafter 0)⟩
    · obtain ⟨j, hj, hq⟩ := hps' q hq
      exact ⟨j + 1, Nat.succ_le_succ hj, hq.trans (hafter j)⟩
  have hlt : ∀ {n} {v : Scanner}, (∃ j > n, v = u.after j) → ∃ j > n + 1, v = s.after j := by
    rintro n v ⟨j, hj, rfl⟩
    exact ⟨j + 1, Nat.succ_lt_succ hj, hafter j⟩
  cases h with
  | same n hbefore hpieces hlast heq =>
    refine .same (n + 1) (huntimed hbefore) (hle hpieces) (hlast.trans (hafter n)) ?_
    rw [heq, Feed.late, Feed.late, List.map_append]
  | cut n front back h =>
    obtain ⟨hbefore, hcut, hpieces, hfront, hback, hlast, heq, hclosing, hreports⟩ := h
    rw [houtcome] at hcut hclosing hreports
    rw [hafter] at hreports
    refine .cut (n + 1) (ps ++ front) back ⟨huntimed hbefore, hcut, ?_, hle hfront,
      fun q hq => hlt (hback q hq), hlt hlast, ?_, hclosing, hreports⟩
    · exact (congrArg (ps ++ ·) hpieces).trans (List.append_assoc ..).symm
    · rw [List.map_append, ← heq]

/-- What becomes of a feed without time. -/
theorem late_feedAfter (h : s.expired = false) (before : List Comment) :
    s.Late (s.feedAfter before) (s.late.feedAfter before) := by
  induction s using scanInduction generalizing before with
  | error s u e hscan => exact .first h (by rw [hscan]; rfl) before
  | endOfInput s u t hscan hend =>
    have htimed : timed s.scan.1 = false := by
      rw [hscan, timed, hend]
      rfl
    have hlate := scan_late_of_untimed h htimed
    rw [hscan] at hlate htimed
    rw [feedAfter_of_endOfInput hscan hend, feedAfter_of_endOfInput hlate hend]
    have hafter := after_of_scan_eq hscan 0
    refine .same 1 (fun i hi => ?_) (List.forall_mem_nil _) hafter rfl
    obtain rfl := Nat.lt_one_iff.1 hi
    rw [outcome, after, hscan]
    exact htimed
  | comment s u t hscan hcomment ih =>
    by_cases htimed : timed s.scan.1
    · exact .first h htimed before
    · have hlate := scan_late_of_untimed h (Bool.eq_false_iff.2 htimed)
      have hu := (onward_of_scan_eq hscan h).expired_eq
      rw [hscan] at hlate htimed
      rw [feedAfter_of_comment hscan hcomment, feedAfter_of_comment hlate hcomment]
      exact (ih hu _).next hscan (Bool.eq_false_iff.2 htimed) [] (List.forall_mem_nil _)
  | token s u t hscan hend hcomment ih =>
    by_cases htimed : timed s.scan.1
    · exact .first h htimed before
    · have hlate := scan_late_of_untimed h (Bool.eq_false_iff.2 htimed)
      have hu := (onward_of_scan_eq hscan h).expired_eq
      rw [hscan] at hlate htimed
      rw [feedAfter_of_token hscan hend hcomment, feedAfter_of_token hlate hend hcomment]
      exact (ih hu []).next hscan (Bool.eq_false_iff.2 htimed) [⟨before, t, u⟩]
        (List.forall_mem_singleton.2 rfl)

end Scanner

/-! ### Refusals -/

namespace Grammar

variable {ts us : List Token} {r : Refusal}

/-- Whatever stands behind tokens one of which is refused, it is refused. -/
theorem sentence_append (h : sentence ts = .error r) (hrest : r.rest ≠ []) (us : List Token) :
    sentence (ts ++ us) = .error { r with rest := r.rest ++ us } := by
  obtain ⟨read, hts, hsees⟩ := sentenceOf_error_congr (expression_sees maxNesting) h
  have hhead : (r.rest ++ us).head? = r.rest.head? := by
    cases hcons : r.rest with
    | nil => exact absurd hcons hrest
    | cons t later => rfl
  rw [hts, List.append_assoc]
  exact hsees _ hhead

/-- What stands behind a token that is refused does not matter. -/
theorem sentence_of_append (h : sentence (ts ++ us) = .error r)
    (hlength : us.length < r.rest.length) :
    ∃ rest, rest ≠ [] ∧ sentence ts = .error { r with rest } := by
  obtain ⟨read, hts, hsees⟩ := sentenceOf_error_congr (expression_sees maxNesting) h
  obtain ⟨rest, rfl, hrest⟩ : ∃ rest, ts = read ++ rest ∧ r.rest = rest ++ us := by
    rcases List.append_eq_append_iff.1 hts with ⟨more, -, hus⟩ | ⟨more, hts, hrest⟩
    · rw [hus, List.length_append] at hlength
      omega
    · exact ⟨more, hts, hrest⟩
  have hne : rest ≠ [] := by
    rintro rfl
    rw [hrest] at hlength
    exact Nat.lt_irrefl _ hlength
  refine ⟨rest, hne, hsees rest ?_⟩
  rw [hrest]
  cases rest with
  | nil => exact absurd rfl hne
  | cons t later => rfl

end Grammar

/-! ### Parsers -/

namespace Parser

variable {p : Parser} {f g : Feed} {n : Nat} {front back : List Piece}

/-- The parser when the time is over. -/
def late (p : Parser) : Parser := { p with scanner := p.scanner.late }

theorem finish_late (p : Parser) (f : Feed) : p.late.finish f.late = (p.finish f).late := by
  unfold finish
  rw [f.groups_late]
  rfl

theorem advance_late (p : Parser) (ps : List Piece) :
    p.late.advance (ps.map Piece.late) = (p.advance ps).late := by
  unfold advance
  rw [filterMap_group?_late, List.getLast?_map]
  cases ps.getLast? <;> rfl

theorem stopAt_late (p : Parser) (f : Feed) (r : Refusal) :
    p.late.stopAt f.late r = (p.stopAt f r).late := by
  unfold stopAt
  split
  · exact p.finish_late f
  · rw [← advance_late, Feed.late, List.length_map, List.map_take]

theorem conclude_late (p : Parser) (f : Feed) (outcome : Except Refusal Statement) :
    p.late.conclude f.late outcome =
      ((p.conclude f outcome).1, (p.conclude f outcome).2.late) := by
  have htoken : f.late.closing.map Piece.token = f.closing.map Piece.token := by
    unfold Feed.late
    cases f.closing <;> rfl
  unfold conclude
  cases outcome with
  | error r => simp only [htoken, stopAt_late]
  | ok s =>
    have hfinish := p.finish_late f
    have hclosing : f.late.closing = f.closing.map Piece.late := rfl
    simp only [hfinish, hclosing]
    cases f.closing <;> rfl

/-- Where a parser stands that has moved over pieces. -/
theorem scanner_advance_mem (p : Parser) (ps : List Piece) :
    (p.advance ps).scanner = p.scanner ∨ ∃ q ∈ ps, (p.advance ps).scanner = q.after := by
  unfold advance
  cases hlast : ps.getLast? with
  | none => exact Or.inl rfl
  | some q => exact Or.inr ⟨q, List.mem_of_getLast? hlast, rfl⟩

/-- Where a parser stands that has read a feed. -/
theorem scanner_conclude_mem (p : Parser) (f : Feed) (outcome : Except Refusal Statement) :
    (p.conclude f outcome).2.scanner = p.scanner ∨ (p.conclude f outcome).2.scanner = f.last ∨
      ∃ q ∈ f.pieces, (p.conclude f outcome).2.scanner = q.after := by
  unfold conclude
  cases outcome with
  | ok s =>
    dsimp only
    split <;> exact Or.inr (Or.inl rfl)
  | error r =>
    dsimp only
    unfold stopAt
    split
    · exact Or.inr (Or.inl rfl)
    · rcases p.scanner_advance_mem (f.pieces.take _) with hp | ⟨q, hq, hscanner⟩
      · exact Or.inl hp
      · exact Or.inr (Or.inr ⟨q, List.mem_of_mem_take hq, hscanner⟩)

section Cut

variable (hcut : p.scanner.Cut n front back f g)
include hcut

/-- A token in front of the cut is refused with time and without. -/
theorem conclude_of_cut_refused {r : Refusal} (hrest : r.rest ≠ [])
    (hr : Grammar.sentence g.tokens = .error r) :
    (∃ j ≤ n, (p.conclude f (Grammar.sentence f.tokens)).2.scanner = p.scanner.after j) ∧
      p.late.conclude g (.error r) =
        ((p.conclude f (Grammar.sentence f.tokens)).1,
          (p.conclude f (Grammar.sentence f.tokens)).2.late) := by
  have htokens : f.tokens = g.tokens ++ back.map Piece.token := by
    rw [Feed.tokens, Feed.tokens, hcut.pieces_eq, hcut.late_eq, List.map_append, List.map_map]
    rfl
  rw [htokens, Grammar.sentence_append hr hrest]
  obtain ⟨complaint, rest⟩ := r
  cases rest with
  | nil => exact absurd rfl hrest
  | cons t later =>
    -- The pieces up to the token that is refused.
    have htake : f.pieces.take (f.pieces.length - (later ++ back.map Piece.token).length) =
        front.take (front.length - later.length) := by
      rw [hcut.pieces_eq, List.length_append, List.length_append, List.length_map,
        Nat.add_sub_add_right, List.take_append_of_le_length (Nat.sub_le ..)]
    have hstop : p.stopAt f ⟨complaint, t :: later ++ back.map Piece.token⟩ =
        p.advance (front.take (front.length - later.length)) := congrArg p.advance htake
    have hlate : p.late.stopAt g ⟨complaint, t :: later⟩ =
        (p.advance (front.take (front.length - later.length))).late := by
      rw [← advance_late, stopAt, hcut.late_eq, List.length_map, List.map_take]
    refine ⟨?_, ?_⟩
    · rw [conclude, hstop]
      rcases p.scanner_advance_mem (front.take _) with hp | ⟨q, hq, hscanner⟩
      · exact ⟨0, Nat.zero_le n, hp⟩
      · rw [hscanner]
        exact hcut.front_le q (List.mem_of_mem_take hq)
    · rw [conclude, conclude, hstop, hlate]
      rfl

/-- If no token in front of the cut is refused, the parser with time comes behind it, and the one
without time fails there. -/
theorem conclude_of_cut_passed
    (hpassed : ∀ r, Grammar.sentence g.tokens = .error r → r.rest = []) :
    (∃ j > n, (p.conclude f (Grammar.sentence f.tokens)).2.scanner = p.scanner.after j) ∧
      p.late.conclude g (Grammar.sentence g.tokens) =
        (.error (.lexical (Scanner.lateError (p.scanner.outcome n))), p.late.finish g) := by
  have htokens : f.tokens = g.tokens ++ back.map Piece.token := by
    rw [Feed.tokens, Feed.tokens, hcut.pieces_eq, hcut.late_eq, List.map_append, List.map_map]
    rfl
  constructor
  · unfold conclude
    cases hsentence : Grammar.sentence f.tokens with
    | ok s =>
      dsimp only
      split <;> exact hcut.lt_last
    | error r =>
      rw [htokens] at hsentence
      have hlength : r.rest.length ≤ back.length := by
        by_contra hlt
        obtain ⟨rest, hne, hr⟩ := Grammar.sentence_of_append hsentence (by simpa using hlt)
        exact hne (hpassed _ hr)
      dsimp only
      unfold stopAt
      split
      · exact hcut.lt_last
      · next t later hrest =>
        rw [hrest, List.length_cons] at hlength
        -- The last piece that was read is behind the cut.
        have htake : f.pieces.take (f.pieces.length - later.length) =
            front ++ back.take (back.length - later.length) := by
          rw [hcut.pieces_eq, List.length_append, Nat.add_sub_assoc (by omega),
            List.take_length_add_append]
        have hne : back.take (back.length - later.length) ≠ [] := by
          rw [← List.length_pos_iff, List.length_take]
          omega
        obtain ⟨q, hq⟩ := Option.ne_none_iff_exists'.1 (mt List.getLast?_eq_none_iff.1 hne)
        have hlast : (p.advance (front ++ back.take (back.length - later.length))).scanner =
            q.after := by
          rw [advance, List.getLast?_append, hq]
          rfl
        rw [htake, hlast]
        exact hcut.lt_back q (List.mem_of_mem_take (List.mem_of_getLast? hq))
  · unfold conclude
    rw [hcut.closing_eq]
    cases hsentence : Grammar.sentence g.tokens with
    | ok s => rfl
    | error r =>
      obtain ⟨complaint, rest⟩ := r
      obtain rfl : rest = [] := hpassed _ hsentence
      rfl

end Cut

/-- A parser without time next to the same parser with time, which does `n` scans. If the time is
not looked at in any of them, it changes nothing. Otherwise the first scan in which it is looked at
fails, and so does the call; all that was reported before is reported, and then this. -/
theorem parse_late (h : p.scanner.expired = false) :
    ∃ n, p.parse.2.scanner = p.scanner.after n ∧
      (p.scanner.Untimed n → p.late.parse = (p.parse.1, p.parse.2.late)) ∧
      ∀ i < n, Scanner.timed (p.scanner.outcome i) → p.scanner.Untimed i →
        p.late.parse.1 = .error (.lexical (Scanner.lateError (p.scanner.outcome i))) ∧
        p.late.parse.2.scanner.reports =
          (p.scanner.after i).reports ++ [.fatal (Scanner.lateError (p.scanner.outcome i))] := by
  have hfeeds := Scanner.late_feedAfter h []
  rw [parse_eq_conclude, parse_eq_conclude]
  generalize hf : p.scanner.feed = f
  generalize hg : p.late.scanner.feed = g
  have hlate : p.scanner.Late f g := hf ▸ hg ▸ hfeeds
  cases hlate with
  | same n huntimed hpieces hlast heq =>
    subst heq
    rw [f.tokens_late]
    have hscanner : ∃ j ≤ n,
        (p.conclude f (Grammar.sentence f.tokens)).2.scanner = p.scanner.after j := by
      rcases p.scanner_conclude_mem f (Grammar.sentence f.tokens) with hp | hp | ⟨q, hq, hp⟩ <;>
        rw [hp]
      · exact ⟨0, Nat.zero_le n, rfl⟩
      · exact ⟨n, Nat.le_refl n, hlast⟩
      · exact hpieces q hq
    obtain ⟨j, hj, hscanner⟩ := hscanner
    refine ⟨j, hscanner, fun _ => p.conclude_late f _, fun i hi htimed => ?_⟩
    rw [huntimed i (Nat.lt_of_lt_of_le hi hj)] at htimed
    cases htimed
  | cut n front back hcut =>
    by_cases hrefused : ∃ r, Grammar.sentence g.tokens = .error r ∧ r.rest ≠ []
    · obtain ⟨r, hr, hrest⟩ := hrefused
      obtain ⟨⟨j, hj, hscanner⟩, hconclude⟩ := conclude_of_cut_refused hcut hrest hr
      rw [hr]
      refine ⟨j, hscanner, fun _ => hconclude, fun i hi htimed => ?_⟩
      rw [hcut.untimed i (Nat.lt_of_lt_of_le hi hj)] at htimed
      cases htimed
    · obtain ⟨⟨j, hj, hscanner⟩, hconclude⟩ := conclude_of_cut_passed hcut fun r hr =>
        not_not.1 fun hrest => hrefused ⟨r, hr, hrest⟩
      refine ⟨j, hscanner, fun huntimed => ?_, fun i hi htimed huntimed => ?_⟩
      · have htimed := hcut.timed
        rw [huntimed n hj] at htimed
        cases htimed
      · -- Only one scan is the first one in which the time is looked at.
        obtain rfl : i = n := by
          rcases Nat.lt_trichotomy i n with hlt | heq | hlt
          · rw [hcut.untimed i hlt] at htimed
            cases htimed
          · exact heq
          · have htimed := hcut.timed
            rw [huntimed n hlt] at htimed
            cases htimed
        rw [hconclude]
        exact ⟨rfl, hcut.reports_eq⟩

theorem ofText_late (file : File) (text : String) :
    Parser.ofText file text true = (Parser.ofText file text).map late := by
  unfold Parser.ofText
  rw [Scanner.ofText_late]
  cases Scanner.ofText file text <;> rfl

end Parser

/-- A fresh parser whose time is over, next to one with time, which does `n` scans: the result and
the reports are the same if no number, text or block comment is met in these. Otherwise the call
fails at the start of the first one, which is reported behind all that was reported before. -/
theorem parse_expired {file : File} {text : String} {p q : Parser}
    (hp : Parser.ofText file text = .ok p) (hq : Parser.ofText file text true = .ok q) :
    ∃ n, p.parse.2.scanner = p.scanner.after n ∧
      (p.scanner.Untimed n →
        q.parse.1 = p.parse.1 ∧ q.parse.2.scanner.reports = p.parse.2.scanner.reports) ∧
      ∀ i < n, Scanner.timed (p.scanner.outcome i) → p.scanner.Untimed i →
        q.parse.1 = .error (.lexical (Scanner.lateError (p.scanner.outcome i))) ∧
        q.parse.2.scanner.reports =
          (p.scanner.after i).reports ++ [.fatal (Scanner.lateError (p.scanner.outcome i))] := by
  have hlate : q = p.late := by
    rw [Parser.ofText_late, hp] at hq
    exact (Except.ok.inj hq).symm
  have hexpired : p.scanner.expired = false := by
    unfold Parser.ofText at hp
    cases hscanner : Scanner.ofText file text with
    | error e =>
      rw [hscanner] at hp
      cases hp
    | ok scanner =>
      rw [hscanner] at hp
      cases hp
      exact (Scanner.ofText_eq_ok hscanner).2.2.2.2
  subst hlate
  obtain ⟨n, hscanner, hsame, hfails⟩ := Parser.parse_late hexpired
  refine ⟨n, hscanner, fun huntimed => ?_, hfails⟩
  rw [hsame huntimed]
  exact ⟨rfl, rfl⟩

/-- The number is met behind a comment to the end of a line, which takes no time, and its sign is a
part of it. -/
theorem parse_expired_number :
    let file : File := ⟨0, "q.sql", 1, 24, []⟩
    ∃ p q, Parser.ofText file "SELECT a, -- x\n-1 FROM t" = .ok p ∧
      Parser.ofText file "SELECT a, -- x\n-1 FROM t" true = .ok q ∧ p.parse.1.isOk ∧
      q.parse.1 = .error (.lexical ⟨16, .deadlineExceeded⟩) ∧
      q.parse.2.scanner.reports = [.fatal ⟨16, .deadlineExceeded⟩] := by
  intro file
  let p : Parser := { scanner := { file, rest := "SELECT a, -- x\n-1 FROM t".toList } }
  have hp : Parser.ofText file "SELECT a, -- x\n-1 FROM t" = .ok p := rfl
  have hq : Parser.ofText file "SELECT a, -- x\n-1 FROM t" true = .ok p.late := rfl
  obtain ⟨n, hscanner, -, hfails⟩ := parse_expired hp hq
  have hoffset : (p.scanner.after n).offset = 24 := hscanner ▸ by decide +kernel
  have hn : 4 < n := by
    have hbefore : ∀ m < 5, (p.scanner.after m).offset ≠ 24 := by decide +kernel
    by_contra hle
    exact hbefore n (by omega) hoffset
  obtain ⟨hresult, hreports⟩ := hfails 4 hn (by decide +kernel) (by
    unfold Scanner.Untimed
    decide +kernel)
  have herror : Scanner.lateError (p.scanner.outcome 4) = ⟨16, .deadlineExceeded⟩ := by
    decide +kernel
  rw [herror] at hresult hreports
  exact ⟨p, p.late, hp, hq, by decide +kernel, hresult, hreports⟩

end SqlFormatter

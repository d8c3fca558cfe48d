import SqlFormatter.Proofs.Checked.Parser
import SqlFormatter.Proofs.Grammar.Comments
import SqlFormatter.Proofs.Token.Lexes
import SqlFormatter.Proofs.Token.Onward

/-!
# SqlFormatter.Proofs.Grammar.Calls

One parser that is called again and again, without a limit on time. A call goes on where the one
before it stopped, with the comments and the kind of token that are left over from there.

* A call gets on in the text unless nothing is left of it (`Parser.onward_parse`), as a scan does.
  A call that returns a statement leaves nothing of the text.
* A statement is the one that a fresh parser reads from the text that was left
  (`Parser.parse_alone`): of what is left over, only the comments have an influence on it.
* `parse_repeated` is the main result, on all calls of a parser.
-/

namespace SqlFormatter

/-! ### Getting on in a text -/

namespace Scanner

variable {s : Scanner}

/-- All scanners of the feed stand behind `s`, and at its end nothing is left. -/
structure Leads (s : Scanner) (f : Feed) : Prop where
  pieces : ∀ p ∈ f.pieces, s.Onward p.after
  last : s.Onward f.last
  ended : ∀ p, f.closing = .ok p → f.last.rest = []

theorem leads_feedAfter (h : s.expired = false) (before : List Comment) :
    s.Leads (s.feedAfter before) := by
  induction s using scanInduction generalizing before with
  | error s u e hscan =>
    rw [feedAfter_of_error hscan]
    exact ⟨List.forall_mem_nil _, onward_of_scan_eq hscan h, fun _ => nofun⟩
  | endOfInput s u t hscan hend =>
    rw [feedAfter_of_endOfInput hscan hend]
    refine ⟨List.forall_mem_nil _, onward_of_scan_eq hscan h, fun _ _ => ?_⟩
    rcases scan_eq_ok hscan with ⟨-, -, hnil⟩ | ⟨gap, c, cs, -, htakes⟩
    · exact hnil
    · exact absurd (htakes.result_eq.trans (by rw [hend])) (Lexeme.read_ne_endOfInput _ _ _)
  | comment s u t hscan hcomment ih =>
    have hnext := onward_of_scan_eq hscan h
    have hrest := ih hnext.expired_eq (before ++ [⟨t.pos, t.text⟩])
    rw [feedAfter_of_comment hscan hcomment]
    exact ⟨fun p hp => hnext.trans (hrest.pieces p hp), hnext.trans hrest.last, hrest.ended⟩
  | token s u t hscan hend hcomment ih =>
    have hnext := onward_of_scan_eq hscan h
    have hrest := ih hnext.expired_eq []
    rw [feedAfter_of_token hscan hend hcomment]
    exact ⟨List.forall_mem_cons.2 ⟨hnext, fun p hp => hnext.trans (hrest.pieces p hp)⟩,
      hnext.trans hrest.last, hrest.ended⟩

end Scanner

/-! ### One call -/

namespace Parser

variable {p : Parser} {s : Statement}

/-- A call gets on in the text, unless nothing is left of it. -/
theorem onward_parse (h : p.scanner.expired = false) : p.scanner.Onward p.parse.2.scanner := by
  have hleads := Scanner.leads_feedAfter h []
  rw [parse_eq_conclude]
  unfold conclude
  cases hsentence : Grammar.sentence p.scanner.feed.tokens with
  | ok s =>
    dsimp only
    split <;> exact hleads.last
  | error r =>
    obtain ⟨read, htokens, -⟩ := (Grammar.sentenceOf_rejects hsentence).exists_places
    dsimp only
    unfold stopAt
    split
    · exact hleads.last
    · next t later hrest =>
      -- The token that could not be used is behind the scanner now.
      have hlength : p.scanner.feed.pieces.length = read.length + (later.length + 1) := by
        have hlength := congrArg List.length htokens
        rwa [hrest, List.length_append, Feed.tokens, List.length_map] at hlength
      unfold advance
      cases hlast : (p.scanner.feed.pieces.take
          (p.scanner.feed.pieces.length - later.length)).getLast? with
      | none =>
        have hnil := congrArg List.length (List.getLast?_eq_none_iff.1 hlast)
        rw [List.length_take, List.length_nil] at hnil
        omega
      | some q => exact hleads.pieces q (List.mem_of_mem_take (List.mem_of_getLast? hlast))

/-- A call that returns a statement has read all of the text. -/
theorem rest_of_parse_eq_ok (hexpired : p.scanner.expired = false) (h : p.parse.1 = .ok s) :
    p.parse.2.scanner.rest = [] := by
  have hleads := Scanner.leads_feedAfter hexpired []
  rw [parse_eq_conclude] at h ⊢
  unfold conclude at h ⊢
  cases hsentence : Grammar.sentence p.scanner.feed.tokens with
  | error r =>
    rw [hsentence] at h
    cases h
  | ok s' =>
    rw [hsentence] at h
    cases hclosing : p.scanner.feed.closing with
    | error e =>
      rw [hclosing] at h
      cases h
    | ok q => exact hleads.ended q hclosing

/-- Where nothing is left there is no statement. -/
theorem parse_of_rest_eq_nil (h : p.scanner.rest = []) :
    p.parse.1 = .error (.unexpectedEnd .statement p.scanner.pos) := by
  rcases p.scanner.ends_or_meets with hends | ⟨gap, c, cs, hmeets⟩
  · have hscan := hends.scan_eq
    rw [h] at hscan
    have hfeed := Scanner.feedAfter_of_endOfInput hscan rfl []
    rw [parse_eq_conclude, Scanner.feed, hfeed]
    rfl
  · have hrest := h.symm.trans hmeets.rest_eq
    simp at hrest

end Parser

/-! ### The rest of a text alone -/

/-- A token that is moved to another base may be moved back. -/
theorem Token.moved_rebase {t : Token} {b b' : Nat} (h : b ≤ t.pos) :
    (t.moved (rebase b b')).moved (rebase b' b) = t := by
  have hpos : rebase b' b (rebase b b' t.pos) = t.pos := by
    unfold rebase
    omega
  rw [moved, moved, hpos]

/-- A text that starts with SELECT, or with comments in front of it, has no byte order mark. -/
theorem Lexes.head?_ne_byteOrderMark {k m : Kind} {p : Nat} {text rest : List Char}
    {ts : List Token} (h : Lexes k p text rest ts m)
    (hfirst : ∀ t ∈ ts.find? (·.kind != .comment), t.kind = .keyword .SELECT) :
    text.head? ≠ some byteOrderMark := by
  intro hmark
  obtain ⟨cs, rfl⟩ := List.head?_eq_some_iff.1 hmark
  obtain ⟨t, ts, rfl, hkind⟩ := h.exists_illegal
  have hselect := hfirst t (List.find?_cons_of_pos (by simp [hkind]))
  rw [hkind] at hselect
  cases hselect

namespace Scanner

variable {scanner : Scanner} {s : Statement} {all init : List Token} {t : Token} {target : File}

/-- The first token of a statement that is no comment is SELECT. -/
theorem kind_of_first (htokens : scanner.tokenize.1 = .ok (init ++ [t]))
    (hs : Grammar.sentence ((init ++ [t]).filter Token.isProper) = .ok s) :
    ∀ u ∈ init.find? (·.kind != .comment), u.kind = .keyword .SELECT := by
  intro u hu
  obtain ⟨before, select, after, hsplit, hselect, -, hbefore⟩ :=
    exists_select (tiles_tokenize htokens) hs
  have hfind : (init ++ [t]).find? (·.kind != .comment) = some u := by
    rw [List.find?_append, Option.mem_def.1 hu]
    rfl
  have hnone : before.find? (·.kind != .comment) = none :=
    List.find?_eq_none.2 fun v hv => by simp [hbefore v hv]
  rw [hsplit, List.find?_append, hnone, List.find?_cons_of_pos (by simp [hselect])] at hfind
  exact Option.some.inj hfind ▸ hselect

/-- The rest of a text that is a statement is cut into the same tokens alone: what stood in front of
it has no influence on SELECT. -/
theorem exists_tokenize_alone (htokens : scanner.tokenize.1 = .ok all)
    (hs : Grammar.sentence (all.filter Token.isProper) = .ok s)
    (hsize : target.size = byteLength scanner.rest) :
    ∃ fresh us, ofText target (String.ofList scanner.rest) = .ok fresh ∧
      fresh.tokenize.1 = .ok us ∧ all = us.map (Token.moved (rebase target.base scanner.pos)) := by
  let f : Nat → Nat := rebase scanner.pos target.base
  let fresh : Scanner := { file := target, rest := scanner.rest }
  have hf : ∀ n, f (scanner.pos + n) = fresh.pos + n := fun n => by
    change scanner.pos + n + target.base - scanner.pos = target.base + 0 + n
    omega
  have hplaces := (tiles_tokenize htokens).le_pos
  obtain ⟨init, m, rfl, -, hlexes⟩ := lexes_of_tokenize htokens
  have hfirst := kind_of_first htokens hs
  have hfresh : ofText target (String.ofList scanner.rest) = .ok fresh := by
    have htext : (String.ofList scanner.rest).toList = scanner.rest := String.toList_ofList
    have hmark := hlexes.head?_ne_byteOrderMark hfirst
    rw [ofText_of_head?_ne (htext.symm ▸ hsize) (htext.symm ▸ hmark), htext]
  obtain ⟨m', hlexes'⟩ : ∃ m', Lexes .endOfInput scanner.pos scanner.rest [] init m' :=
    hlexes.after_kind (Or.inr fun t ht => by rw [hfirst t ht]; rfl)
  let eof : Token := .endOfInput (scanner.pos + byteLength scanner.rest)
  have htokens' : fresh.tokenize.1 = .ok ((init ++ [eof]).map (Token.moved f)) := by
    rw [tokenize_of_lexes (hlexes'.moved hf) rfl, List.map_append, ← hf]
    rfl
  refine ⟨fresh, _, hfresh, htokens', ?_⟩
  rw [List.map_map]
  exact ((List.map_congr_left fun t ht => Token.moved_rebase (hplaces t ht)).trans
    (List.map_id _)).symm

end Scanner

namespace Parser

variable {p : Parser} {s : Statement}

/-- A statement is what a fresh parser reads from the text that was left, but for the comments. -/
theorem parse_alone (h : p.parse.1 = .ok s) {target : File}
    (hsize : target.size = byteLength p.scanner.rest) :
    ∃ s' target', parseText target (String.ofList p.scanner.rest) = .ok (.ok s', target') ∧
      s = { s'.moved (rebase target.base p.scanner.pos) with comments := s.comments } := by
  obtain ⟨all, s₀, groups, htokens, hsentence, -, rfl⟩ := sentence_of_parse_eq_ok h
  obtain ⟨fresh, us, hfresh, hus, rfl⟩ := Scanner.exists_tokenize_alone htokens hsentence hsize
  rw [filter_isProper_moved, Grammar.sentence_moved] at hsentence
  obtain ⟨file', hfile⟩ := parseText_of_ofText hfresh
  obtain ⟨groups', eof, -, hparse⟩ := parse_of_tokenize (p := { scanner := fresh }) hus
  cases hread : Grammar.sentence (us.filter Token.isProper) with
  | error r =>
    rw [hread] at hsentence
    cases hsentence
  | ok s' =>
    rw [hread] at hparse hsentence
    cases hsentence
    exact ⟨{ s' with comments := groups' }, file', by rw [hfile, hparse]; rfl, rfl⟩

/-! ### All calls -/

variable {file : File} {text : String}

/-- The scanner of the parser stands in the text, and has time. -/
structure Stands (p : Parser) (file : File) (text : String) : Prop where
  expired_eq : p.scanner.expired = false
  covers : p.Covers file text.toList [] []

theorem Stands.parse (h : p.Stands file text) : p.parse.2.Stands file text :=
  ⟨(onward_parse h.expired_eq).expired_eq, (covers_parse h.covers).mono (List.nil_subset _)⟩

theorem Stands.after (h : p.Stands file text) (n : Nat) : (p.after n).Stands file text := by
  induction n with
  | zero => exact h
  | succ n ih => exact ih.parse

/-- The offset tells where the scanner stands. -/
theorem Stands.exists_passed (h : p.Stands file text) :
    ∃ passed, text.toList = passed ++ p.scanner.rest ∧ p.scanner.offset = byteLength passed ∧
      p.scanner.pos = file.base + p.scanner.offset := by
  obtain ⟨passed, hstands, -⟩ := h.covers
  exact ⟨passed, hstands.rest_eq.symm, hstands.offset_eq, hstands.offset_eq ▸ hstands.pos_eq⟩

theorem Stands.offset_add (h : p.Stands file text) :
    p.scanner.offset + byteLength p.scanner.rest = byteLength text.toList := by
  obtain ⟨passed, htext, hoffset, -⟩ := h.exists_passed
  rw [htext, hoffset, byteLength_append]

theorem Stands.rest_eq_nil_iff (h : p.Stands file text) :
    p.scanner.rest = [] ↔ p.scanner.offset = byteLength text.toList := by
  have hsum := h.offset_add
  constructor
  · intro hrest
    rwa [hrest] at hsum
  · intro hoffset
    by_contra hrest
    have hpos := byteLength_pos hrest
    omega

/-- A call moves the scanner by at least one byte, if it is not at the end. -/
theorem Stands.offset_lt (h : p.Stands file text) (hrest : p.scanner.rest ≠ []) :
    p.scanner.offset < p.parse.2.scanner.offset := by
  have hsum := h.offset_add
  have hsum' := h.parse.offset_add
  have hlt := (onward_parse h.expired_eq).byteLength_lt hrest
  omega

theorem Stands.onward_after (h : p.Stands file text) (n : Nat) :
    (p.after n).scanner.Onward (p.after (n + 1)).scanner :=
  onward_parse (h.after n).expired_eq

/-- Nothing is left from some call on. -/
theorem Stands.rest_after_eq_nil (h : p.Stands file text) {m n : Nat} (hmn : m ≤ n)
    (hrest : (p.after m).scanner.rest = []) : (p.after n).scanner.rest = [] :=
  Scanner.rest_eq_nil_of_le h.onward_after hmn hrest

/-- As many calls as the text has bytes leave nothing of it. -/
theorem Stands.rest_after_size (h : p.Stands file text) {n : Nat}
    (hn : byteLength text.toList ≤ n) : (p.after n).scanner.rest = [] := by
  refine Scanner.rest_eq_nil_of_onward h.onward_after (Nat.le_trans ?_ hn)
  exact Nat.le.intro ((Nat.add_comm ..).trans h.offset_add)

/-- The outcome of a call that finds the end of the file in place of a statement. -/
def foundEnd (file : File) : Except ParseError Statement :=
  .error (.unexpectedEnd .statement (file.base + file.size))

example (pos : Nat) : Expectation.statement.text = "SELECT statement" ∧
    (Token.endOfInput pos).describe = "end of input" := ⟨rfl, rfl⟩

/-- Nothing is left for a call, which finds the end. -/
theorem Stands.parse_eq_foundEnd (h : p.Stands file text)
    (hsize : file.size = byteLength text.toList) (hrest : p.scanner.rest = []) :
    p.parse.1 = foundEnd file := by
  obtain ⟨-, -, -, hpos⟩ := h.exists_passed
  rw [parse_of_rest_eq_nil hrest, hpos, h.rest_eq_nil_iff.1 hrest, ← hsize, foundEnd]

/-- What calls of a parser at the start of a text come to. -/
structure CallableAgain (p : Parser) (file : File) (text : String) : Prop where
  /-- After any number of calls the count of levels is 0. -/
  levels : ∀ n, Checked.calls text.toList (List.replicate n []) p 0 =
    .ok ((List.range n).map fun k => (p.after k).parse.1, p.after n, 0)
  /-- At most one call returns a statement. -/
  once : ∀ m n s s', (p.after m).parse.1 = .ok s → (p.after n).parse.1 = .ok s' → m = n
  /-- All calls behind that one find the end. -/
  finished : ∀ m n s, (p.after m).parse.1 = .ok s → m < n → (p.after n).parse.1 = foundEnd file
  /-- A call moves the scanner by at least one byte, if it is not at the end. -/
  moves : ∀ n, (p.after n).scanner.offset < (p.after (n + 1)).scanner.offset ∨
    (p.after n).scanner.offset = file.size
  /-- As many calls as there are bytes are followed by none that finds more than the end. -/
  ends : ∀ n, file.size ≤ n → (p.after n).parse.1 = foundEnd file
  /-- A statement is that of the text that was left when the call started, which stands `offset`
  bytes behind the start of the file; the comments may be more. -/
  alone : ∀ n s, (p.after n).parse.1 = .ok s → ∃ rest : String,
    let offset := (p.after n).scanner.offset
    encodeUtf8 rest = bytesBetween text offset file.size ∧
      ∀ target : File, target.size = byteLength rest.toList →
        ∃ s' target', parseText target rest = .ok (.ok s', target') ∧
          s = { s'.moved (rebase target.base (file.base + offset)) with comments := s.comments }

theorem Stands.callableAgain (h : p.Stands file text) (hsane : p.Sane file text.toList)
    (hfile : file.Holds text.toList) : p.CallableAgain file text := by
  have hend : ∀ n, (p.after n).scanner.rest = [] → (p.after n).parse.1 = foundEnd file :=
    fun n => (h.after n).parse_eq_foundEnd hfile.size_eq
  have hfinished : ∀ m n s, (p.after m).parse.1 = .ok s → m < n →
      (p.after n).parse.1 = foundEnd file := fun m n s hs hmn =>
    hend n (h.rest_after_eq_nil hmn (rest_of_parse_eq_ok (h.after m).expired_eq hs))
  refine ⟨fun n => ?_, fun m n s s' hs hs' => ?_, hfinished, fun n => ?_, fun n hn => ?_,
    fun n s hs => ?_⟩
  · obtain ⟨results, q, hcalls, hplain⟩ :=
      Checked.exists_calls_eq hsane hfile (List.replicate n [])
    obtain ⟨rfl, rfl⟩ := hplain fun clock hclock => (List.mem_replicate.1 hclock).2
    rwa [List.length_replicate] at hcalls
  · rcases Nat.lt_trichotomy m n with hlt | heq | hlt
    · cases hs'.symm.trans (hfinished m n s hs hlt)
    · exact heq
    · cases hs.symm.trans (hfinished n m s' hs' hlt)
  · by_cases hrest : (p.after n).scanner.rest = []
    · exact Or.inr (hfile.size_eq ▸ (h.after n).rest_eq_nil_iff.1 hrest)
    · exact Or.inl ((h.after n).offset_lt hrest)
  · exact hend n (h.rest_after_size (hfile.size_eq ▸ hn))
  · obtain ⟨passed, htext, hoffset, hpos⟩ := (h.after n).exists_passed
    refine ⟨String.ofList (p.after n).scanner.rest, ?_, fun target hsize => ?_⟩
    · have hsum := (h.after n).offset_add
      have hsplit : text.toList = passed ++ ((p.after n).scanner.rest ++ []) := by
        rw [htext, List.append_nil]
      rw [hfile.size_eq, ← hsum, hoffset, bytesBetween_of_append hsplit]
    · rw [String.toList_ofList] at hsize
      rw [← hpos]
      exact parse_alone hs hsize

end Parser

/-- A parser for a registered text may be called as often as wanted. -/
theorem parse_repeated {r r' : Registry} {name : String} {base? : Option Nat} {text : String}
    {file : File} (h : r.register name base? (byteLength text.toList) = .ok (file, r')) :
    ∃ p, Parser.ofText file text = .ok p ∧ p.CallableAgain file text := by
  obtain ⟨hbase, -, -, hroom⟩ := Registry.register_eq_ok h
  have hsize : file.size = byteLength text.toList := by rw [hbase]
  have hlines : file.laterLines = [] := by rw [hbase]
  have hfile : file.Holds text.toList := ⟨hsize, by unfold File.last; omega⟩
  obtain ⟨scanner, hscanner⟩ := Scanner.exists_ofText false hsize
  have hparser : Parser.ofText file text = .ok { scanner } := by
    rw [Parser.ofText, hscanner]
    rfl
  have hsane : Parser.Sane { scanner } file text.toList :=
    ⟨Scanner.sane_ofText hscanner hlines, List.forall_mem_nil _⟩
  obtain ⟨-, -, -, -, hexpired⟩ := Scanner.ofText_eq_ok hscanner
  have hstands : Parser.Stands { scanner } file text :=
    ⟨hexpired, Scanner.covers_ofText hscanner List.nil_prefix (File.knows_nil hlines)⟩
  exact ⟨_, hparser, hstands.callableAgain hsane hfile⟩

/-- A parenthesis in front of a statement: the first call stops behind it, the second one reads the
statement, and the third one finds nothing left. -/
theorem parse_repeated_stray_parenthesis :
    let file : File := ⟨0, "q.sql", 1, 17, []⟩
    Registry.register .empty "q.sql" none 17 = .ok (file, ⟨[file], 19⟩) ∧
      ∃ p, Parser.ofText file ") SELECT a FROM t" = .ok p ∧
        p.CallableAgain file ") SELECT a FROM t" ∧
        (List.range 3).map (fun n => (p.after n).scanner.offset) = [0, 1, 17] ∧
        (List.range 3).map (fun n => (p.after n).parse.1.isOk) = [false, true, false] := by
  intro file
  let p : Parser := { scanner := { file, rest := ") SELECT a FROM t".toList } }
  have hregister : Registry.register .empty "q.sql" none (byteLength ") SELECT a FROM t".toList) =
      .ok (file, ⟨[file], 19⟩) := rfl
  have hparser : Parser.ofText file ") SELECT a FROM t" = .ok p := rfl
  obtain ⟨q, hq, hagain⟩ := parse_repeated hregister
  obtain rfl := Except.ok.inj (hparser.symm.trans hq)
  exact ⟨hregister, p, hparser, hagain, by decide +kernel, by decide +kernel⟩

end SqlFormatter

import SqlFormatter.Proofs.Grammar.Parser
import SqlFormatter.Proofs.Token.Lossless
import SqlFormatter.Statement.Range

/-!
# SqlFormatter.Proofs.Grammar.Comments

Where the comments of a text go. The feed of a scanner keeps the comments in front of a token with
that token, so its groups are the runs of comments that other tokens leave between them
(`Scanner.groups_feedAfter`); a parser hands them to its statement as they are. The main result is
`parseText_comments`.
-/

namespace SqlFormatter

/-! ### Runs between separators -/

section Runs

variable {α : Type} {p : α → Bool}

/-- Induction from separator to separator: `p` holds of those. -/
theorem splitInduction (p : α → Bool) {motive : List α → Prop}
    (run : ∀ xs, (∀ x ∈ xs, p x = false) → motive xs)
    (behind : ∀ xs sep rest, (∀ x ∈ xs, p x = false) → p sep = true → motive rest →
      motive (xs ++ sep :: rest)) (xs : List α) : motive xs := by
  -- The elements since the last separator are carried along.
  suffices h : ∀ read, (∀ x ∈ read, p x = false) → motive (read ++ xs) from h [] nofun
  induction xs with
  | nil =>
    intro read hread
    rw [List.append_nil]
    exact run read hread
  | cons x xs ih =>
    intro read hread
    cases hx : p x with
    | true => exact behind read x xs hread hx (ih [] nofun)
    | false =>
      rw [List.append_cons]
      exact ih _ (List.forall_mem_append.2 ⟨hread, List.forall_mem_singleton.2 hx⟩)

theorem splitOnP_behind {xs rest : List α} {sep : α} (hxs : ∀ x ∈ xs, p x = false)
    (hsep : p sep = true) : (xs ++ sep :: rest).splitOnP p = xs :: rest.splitOnP p := by
  rw [List.splitOnP_append_cons xs rest hsep, List.splitOnP_eq_singleton hxs]
  rfl

/-- A run has no separator in it, and reaches up to one or to the end. -/
theorem exists_of_mem_splitOnP {xs run : List α} (h : run ∈ xs.splitOnP p) :
    ∃ before after, xs = before ++ (run ++ after) ∧ (∀ x ∈ run, p x = false) ∧
      ∀ sep ∈ after.head?, p sep = true := by
  induction xs using splitInduction p with
  | run xs hxs =>
    rw [List.splitOnP_eq_singleton hxs, List.mem_singleton] at h
    exact ⟨[], [], by simp [h], h ▸ hxs, nofun⟩
  | behind xs sep rest hxs hsep ih =>
    rw [splitOnP_behind hxs hsep] at h
    rcases List.mem_cons.1 h with rfl | h
    · exact ⟨[], sep :: rest, rfl, hxs, by simpa using hsep⟩
    · obtain ⟨before, after, hrest, hrun, hafter⟩ := ih h
      exact ⟨xs ++ sep :: before, after, by simp [hrest], hrun, hafter⟩

/-- What is no separator is in a run. -/
theorem exists_mem_splitOnP {xs : List α} {x : α} (hx : x ∈ xs) (hp : p x = false) :
    ∃ run ∈ xs.splitOnP p, x ∈ run := by
  induction xs using splitInduction p with
  | run xs hxs => exact ⟨xs, by rw [List.splitOnP_eq_singleton hxs]; exact List.mem_cons_self, hx⟩
  | behind xs sep rest hxs hsep ih =>
    rw [splitOnP_behind hxs hsep]
    rcases List.mem_append.1 hx with hx | hx
    · exact ⟨xs, List.mem_cons_self, hx⟩
    · rcases List.mem_cons.1 hx with rfl | hx
      · rw [hsep] at hp
        cases hp
      · obtain ⟨run, hrun, hx⟩ := ih hx
        exact ⟨run, List.mem_cons_of_mem _ hrun, hx⟩

end Runs

/-! ### Runs of comments -/

/-- Whether the token separates comments. -/
def Token.separates (t : Token) : Bool := t.kind != .comment

/-- The comments between the tokens that are none: those in front of the first such token, between
the first and the second, and so on. -/
def commentsBetween (tokens : List Token) : List (List Comment) :=
  (tokens.splitOnP Token.separates).map (List.filterMap Token.comment?)

/-- The runs of comments with no other token between them. -/
def commentRuns (tokens : List Token) : List (List Comment) :=
  (commentsBetween tokens).filter fun run => !run.isEmpty

section Between

variable {t : Token} {ts : List Token}

theorem commentsBetween_separator (ht : t.separates = true) :
    commentsBetween (t :: ts) = [] :: commentsBetween ts := by
  rw [commentsBetween, List.splitOnP_cons_eq_if_modifyHead, if_pos ht]
  rfl

theorem commentsBetween_comment {c : Comment} (ht : t.comment? = some c) (before : List Comment) :
    (commentsBetween (t :: ts)).modifyHead (before ++ ·) =
      (commentsBetween ts).modifyHead ((before ++ [c]) ++ ·) := by
  have hsep : ¬t.separates = true := by
    intro hsep
    rw [Token.comment?, if_neg (by simpa [Token.separates] using hsep)] at ht
    cases ht
  rw [commentsBetween, List.splitOnP_cons_eq_if_modifyHead, if_neg hsep, commentsBetween]
  cases ts.splitOnP Token.separates with
  | nil => rfl
  | cons run runs => simp [List.filterMap_cons_some ht]

end Between

theorem Piece.map_group? (p : Piece) :
    p.group?.toList.map CommentGroup.toList = [p.comments].filter fun run => !run.isEmpty := by
  unfold Piece.group?
  cases p.comments <;> rfl

theorem Feed.groups_cons (p : Piece) (f : Feed) :
    ({ f with pieces := p :: f.pieces } : Feed).groups = p.group?.toList ++ f.groups := by
  cases h : p.group? <;> simp [groups, h]

namespace Scanner

/-- The groups of a feed are the runs of comments in its text, where the comments `before` stand in
front of it. -/
theorem groups_feedAfter {s : Scanner} {all : List Token} (h : s.tokenize.1 = .ok all)
    (before : List Comment) :
    (s.feedAfter before).groups.map CommentGroup.toList =
      ((commentsBetween all).modifyHead (before ++ ·)).filter fun run => !run.isEmpty := by
  induction s using scanInduction generalizing before all with
  | error s u e hscan =>
    rw [tokenize_of_error hscan] at h
    cases h
  | endOfInput s u t hscan hend =>
    rw [tokenize_of_endOfInput hscan hend] at h
    cases h
    rw [feedAfter_of_endOfInput hscan hend,
      commentsBetween_separator (by simp [Token.separates, hend])]
    have hgroup := (Piece.mk before t u).map_group?
    cases before <;> simpa [Feed.groups, Except.toOption, commentsBetween] using hgroup
  | comment s u t hscan hcomment ih =>
    obtain ⟨others, hothers, rfl⟩ := exists_others_of_token hscan (by simp [hcomment]) h
    rw [feedAfter_of_comment hscan hcomment, ih hothers,
      commentsBetween_comment (by rw [Token.comment?, if_pos hcomment])]
  | token s u t hscan hend hcomment ih =>
    obtain ⟨others, hothers, rfl⟩ := exists_others_of_token hscan hend h
    have hrec : u.feed.groups.map CommentGroup.toList = commentRuns others := by
      rw [feed, ih hothers [], commentRuns]
      cases commentsBetween others <;> rfl
    have hgroup := (Piece.mk before t u).map_group?
    rw [feedAfter_of_token hscan hend hcomment, Feed.groups_cons, List.map_append, hgroup, hrec,
      commentsBetween_separator (by simpa [Token.separates] using hcomment),
      List.modifyHead_cons, List.append_nil, commentRuns, ← List.filter_append]
    rfl

end Scanner

/-- The comments of a returned statement are those that waited, and the groups of the text. -/
theorem Parser.comments_of_parse_eq_ok {p : Parser} {s : Statement} (h : p.parse.1 = .ok s) :
    s.comments = p.waiting ++ p.scanner.feed.groups := by
  unfold parse at h
  dsimp only at h
  split at h
  · cases h
  · cases h
  · cases h
    rfl

/-! ### Comments in order -/

section Ordered

variable {before run after tokens : List Token} {t u v : Token}

/-- What stands between two tokens of a run is in the run. -/
theorem mem_run_of_between
    (h : (before ++ (run ++ after)).Pairwise fun t u => t.pos < u.pos ∧ t.stop ≤ u.pos)
    (ht : t ∈ run) (hu : u ∈ run) (hv : v ∈ before ++ (run ++ after)) (htv : t.pos < v.pos)
    (hvu : v.pos < u.pos) : v ∈ run := by
  obtain ⟨-, hrest, hbefore⟩ := List.pairwise_append.1 h
  obtain ⟨-, -, hafter⟩ := List.pairwise_append.1 hrest
  rcases List.mem_append.1 hv with hv | hv
  · have hlt := (hbefore v hv t (List.mem_append_left _ ht)).1
    omega
  rcases List.mem_append.1 hv with hv | hv
  · exact hv
  · have hlt := (hafter u hu v hv).1
    omega

/-- A run that ends at a separator has all that stands behind one of its tokens, up to there. -/
theorem mem_run_of_none_between
    (h : (before ++ (run ++ after)).Pairwise fun t u => t.pos < u.pos ∧ t.stop ≤ u.pos)
    (hafter : ∀ sep ∈ after.head?, sep.separates = true) (ht : t ∈ run)
    (hu : u ∈ before ++ (run ++ after)) (husep : u.separates = false) (htu : t.pos ≤ u.pos)
    (hnone : ∀ v ∈ before ++ (run ++ after), t.pos < v.pos → v.pos < u.pos →
      v.separates = false) : u ∈ run := by
  obtain ⟨-, hrest, hbefore⟩ := List.pairwise_append.1 h
  obtain ⟨-, hordered, hbehind⟩ := List.pairwise_append.1 hrest
  rcases List.mem_append.1 hu with hu | hu
  · have hlt := (hbefore u hu t (List.mem_append_left _ ht)).1
    omega
  rcases List.mem_append.1 hu with hu | hu
  · exact hu
  cases after with
  | nil => cases hu
  | cons sep after =>
    have hsep : sep.separates = true := hafter sep rfl
    rcases List.mem_cons.1 hu with rfl | hu
    · rw [husep] at hsep
      cases hsep
    · have hlt := (hbehind t ht sep List.mem_cons_self).1
      have hlt' := (List.rel_of_pairwise_cons hordered hu).1
      rw [hnone sep (by simp) hlt hlt'] at hsep
      cases hsep

theorem Token.separates_eq_false_iff : t.separates = false ↔ t.kind = .comment := by
  simp [separates]

theorem Token.comment?_eq_some {c : Comment} (h : t.comment? = some c) :
    t.kind = .comment ∧ c.pos = t.pos ∧ c.range.stop = t.stop := by
  unfold comment? at h
  split at h
  · next hkind =>
    cases h
    exact ⟨hkind, rfl, rfl⟩
  · cases h

/-- Two comments are in one run just if no other token stands between them. -/
theorem exists_mem_commentRuns_iff
    (hordered : tokens.Pairwise fun t u => t.pos < u.pos ∧ t.stop ≤ u.pos) {c d : Comment}
    (hc : c ∈ tokens.filterMap Token.comment?) (hd : d ∈ tokens.filterMap Token.comment?)
    (hle : c.pos ≤ d.pos) :
    (∃ run ∈ commentRuns tokens, c ∈ run ∧ d ∈ run) ↔
      ∀ v ∈ tokens, c.pos < v.pos → v.pos < d.pos → v.kind = .comment := by
  constructor
  · rintro ⟨run, hrun, hcrun, hdrun⟩ v hv hcv hvd
    obtain ⟨run, hsplit, rfl⟩ := List.mem_map.1 (List.mem_filter.1 hrun).1
    obtain ⟨t, ht, htc⟩ := List.mem_filterMap.1 hcrun
    obtain ⟨u, hu, hud⟩ := List.mem_filterMap.1 hdrun
    obtain ⟨-, hct, -⟩ := Token.comment?_eq_some htc
    obtain ⟨-, hdu, -⟩ := Token.comment?_eq_some hud
    obtain ⟨before, after, rfl, hcomments, -⟩ := exists_of_mem_splitOnP hsplit
    exact Token.separates_eq_false_iff.1
      (hcomments v (mem_run_of_between hordered ht hu hv (hct ▸ hcv) (hdu ▸ hvd)))
  · intro hbetween
    obtain ⟨t, ht, htc⟩ := List.mem_filterMap.1 hc
    obtain ⟨u, hu, hud⟩ := List.mem_filterMap.1 hd
    obtain ⟨htkind, hct, -⟩ := Token.comment?_eq_some htc
    obtain ⟨hukind, hdu, -⟩ := Token.comment?_eq_some hud
    obtain ⟨run, hsplit, htrun⟩ := exists_mem_splitOnP ht (Token.separates_eq_false_iff.2 htkind)
    have hcrun : c ∈ run.filterMap Token.comment? := List.mem_filterMap.2 ⟨t, htrun, htc⟩
    have hurun : u ∈ run := by
      obtain ⟨before, after, rfl, -, hsep⟩ := exists_of_mem_splitOnP hsplit
      refine mem_run_of_none_between hordered hsep htrun hu
        (Token.separates_eq_false_iff.2 hukind) (by omega) fun v hv htv hvu => ?_
      exact Token.separates_eq_false_iff.2 (hbetween v hv (by omega) (by omega))
    refine ⟨run.filterMap Token.comment?, List.mem_filter.2 ⟨List.mem_map_of_mem hsplit, ?_⟩,
      hcrun, List.mem_filterMap.2 ⟨u, hurun, hud⟩⟩
    simpa using List.ne_nil_of_mem hcrun

end Ordered

/-! ### Comments in front of a statement -/

section Leading

variable {before after : List Token} {select : Token} {s : Statement}

/-- The first token of a statement that is no comment is SELECT. -/
theorem exists_select {p : Nat} {cs : List Char} {tokens : List Token}
    (htiles : Tiles p cs tokens)
    (hsentence : Grammar.sentence (tokens.filter Token.isProper) = .ok s) :
    ∃ before select after, tokens = before ++ select :: after ∧
      select.kind = .keyword .SELECT ∧ select.pos = s.select.pos ∧
      ∀ t ∈ before, t.kind = .comment := by
  obtain ⟨-, -, -, rest, ⟨read, hread, hspells⟩, -⟩ := Grammar.sentenceOf_sound hsentence
  obtain ⟨select, others, hmarks, -, rfl⟩ := List.forall₂_cons_right_iff.1 hspells
  obtain ⟨before, after, rfl, hbefore, -, -⟩ := List.filter_eq_cons_iff.1 hread
  refine ⟨before, select, after, rfl, congrArg Word.kind hmarks.1, (hmarks.2 _ rfl).symm,
    fun t ht => ?_⟩
  -- Only the last token is the end of input, and SELECT or a token behind it is the last one.
  obtain ⟨init, hinit, hproper⟩ := htiles.exists_init
  have hmem : t ∈ init := by
    have hdrop := congrArg List.dropLast hinit
    rw [List.dropLast_concat, List.dropLast_append_cons] at hdrop
    exact hdrop ▸ List.mem_append_left _ ht
  simpa [Token.isProper, (hproper t hmem).1] using hbefore t ht

theorem commentRuns_behind (hbefore : ∀ t ∈ before, t.kind = .comment)
    (hselect : select.kind ≠ .comment) :
    commentRuns (before ++ select :: after) =
      ([before.filterMap Token.comment?].filter fun run => !run.isEmpty) ++ commentRuns after := by
  have hsep : ∀ t ∈ before, t.separates = false := fun t ht =>
    Token.separates_eq_false_iff.2 (hbefore t ht)
  rw [commentRuns, commentsBetween, splitOnP_behind hsep (by simpa [Token.separates] using hselect),
    commentRuns, ← List.filter_append]
  rfl

/-- A group from among some tokens ends where one of them ends. -/
theorem exists_stop_eq {g : CommentGroup} {tokens : List Token}
    (h : g.toList ⊆ tokens.filterMap Token.comment?) : ∃ t ∈ tokens, g.range.stop = t.stop := by
  have hlast : g.comments.last ∈ g.toList := List.mem_of_getLast? g.comments.getLast?_toList
  obtain ⟨t, ht, hcomment⟩ := List.mem_filterMap.1 (h hlast)
  obtain ⟨-, -, hstop⟩ := Token.comment?_eq_some hcomment
  exact ⟨t, ht, hstop⟩

theorem subset_of_mem_commentRuns {run : List Comment} {tokens : List Token}
    (h : run ∈ commentRuns tokens) : run ⊆ tokens.filterMap Token.comment? := by
  obtain ⟨run, hsplit, rfl⟩ := List.mem_map.1 (List.mem_filter.1 h).1
  obtain ⟨front, behind, rfl, -, -⟩ := exists_of_mem_splitOnP hsplit
  rw [List.filterMap_append, List.filterMap_append]
  exact List.subset_append_of_subset_right _ (List.subset_append_left ..)

theorem leadingComments_of_runs
    (hordered : (before ++ select :: after).Pairwise fun t u => t.pos < u.pos ∧ t.stop ≤ u.pos)
    (hbefore : ∀ t ∈ before, t.kind = .comment) (hselect : select.kind ≠ .comment)
    (hpos : select.pos = s.select.pos)
    (hruns : s.comments.map CommentGroup.toList = commentRuns (before ++ select :: after)) :
    (s.leadingComments.isSome ↔ before ≠ []) ∧
      ∀ g ∈ s.leadingComments, g.toList = before.filterMap Token.comment? := by
  obtain ⟨-, hafter, hearly⟩ := List.pairwise_append.1 hordered
  rw [commentRuns_behind hbefore hselect] at hruns
  cases before with
  | nil =>
    have hnone : s.leadingComments = none := by
      refine Option.filter_eq_none_iff.2 fun g hg => ?_
      -- The first group stands behind SELECT.
      have hrun : g.toList ∈ s.comments.map CommentGroup.toList :=
        List.mem_map_of_mem (List.mem_of_head? hg)
      rw [hruns] at hrun
      obtain ⟨t, ht, hstop⟩ := exists_stop_eq (subset_of_mem_commentRuns hrun)
      have hlt := (List.rel_of_pairwise_cons hafter ht).1
      have hle : t.pos ≤ t.stop := Nat.le_add_right ..
      simp only [decide_eq_true_eq]
      omega
    simp [hnone]
  | cons t before =>
    have ht : t.comment? = some ⟨t.pos, t.text⟩ := if_pos (hbefore t List.mem_cons_self)
    rw [List.filterMap_cons_some ht] at hruns
    obtain ⟨g, gs, hcomments, hg, -⟩ := List.map_eq_cons_iff.1 hruns
    have hsome : s.leadingComments = some g := by
      refine Option.filter_eq_some_iff.2 ⟨by rw [hcomments]; rfl, ?_⟩
      have hsubset : g.toList ⊆ (t :: before).filterMap Token.comment? := by
        rw [hg, List.filterMap_cons_some ht]
        exact List.Subset.refl _
      obtain ⟨u, hu, hstop⟩ := exists_stop_eq hsubset
      have hle := (hearly u hu select List.mem_cons_self).2
      simp only [decide_eq_true_eq]
      omega
    simp [hsome, hg, List.filterMap_cons_some ht]

end Leading

/-! ### Comments of a text -/

/-- The comments of a statement are those of its text, in the runs that other tokens leave. -/
structure KeepsComments (tokens : List Token) (s : Statement) : Prop where
  /-- All comments are there, in order. -/
  all : s.comments.flatMap CommentGroup.toList = tokens.filterMap Token.comment?
  /-- The groups are the runs of comments with no other token between them. -/
  runs : s.comments.map CommentGroup.toList = commentRuns tokens
  /-- There is a comment in every group. -/
  nonempty : ∀ g ∈ s.comments, g.toList ≠ []
  /-- Two comments are in one group just if no other token stands between them. -/
  together : ∀ c ∈ tokens.filterMap Token.comment?, ∀ d ∈ tokens.filterMap Token.comment?,
    c.pos ≤ d.pos → ((∃ g ∈ s.comments, c ∈ g.toList ∧ d ∈ g.toList) ↔
      ∀ v ∈ tokens, c.pos < v.pos → v.pos < d.pos → v.kind = .comment)
  /-- The leading comments are all those in front of SELECT, if there is one. -/
  leading : ∃ before select after, tokens = before ++ select :: after ∧
    select.kind = .keyword .SELECT ∧ select.pos = s.select.pos ∧ (∀ t ∈ before, t.kind = .comment) ∧
    (s.leadingComments.isSome ↔ before ≠ []) ∧
    ∀ g ∈ s.leadingComments, g.toList = before.filterMap Token.comment?

/-- No comment of a text is lost, put twice or misplaced in its statement. -/
theorem parseText_comments {file file' : File} {text : String} {expired : Bool} {s : Statement}
    (h : parseText file text expired = .ok (.ok s, file')) :
    ∃ scanner tokens, Scanner.ofText file text expired = .ok scanner ∧
      scanner.tokenize.1 = .ok tokens ∧ KeepsComments tokens s := by
  obtain ⟨scanner, hscanner, hparse⟩ := parseText_eq_ok h
  obtain ⟨tokens, s₀, groups, htokens, hsentence, hgroups, hs⟩ :=
    Parser.sentence_of_parse_eq_ok hparse
  have htiles := Scanner.tiles_tokenize htokens
  have hruns : s.comments.map CommentGroup.toList = commentRuns tokens := by
    rw [Parser.comments_of_parse_eq_ok hparse, List.nil_append, Scanner.feed,
      Scanner.groups_feedAfter htokens, commentRuns]
    cases commentsBetween tokens <;> rfl
  refine ⟨scanner, tokens, hscanner, htokens, ?_, hruns, fun g _ => g.comments.toList_ne_nil,
    fun c hc d hd hle => ?_, ?_⟩
  · rw [hs, ← hgroups]
    rfl
  · rw [← exists_mem_commentRuns_iff htiles.pairwise hc hd hle, ← hruns]
    simp
  · obtain ⟨before, select, after, rfl, hselect, hpos, hbefore⟩ := exists_select htiles hsentence
    have hpos' : select.pos = s.select.pos := by rw [hpos, hs]
    exact ⟨before, select, after, rfl, hselect, hpos', hbefore,
      leadingComments_of_runs htiles.pairwise hbefore (by simp [hselect]) hpos' hruns⟩

/-- Comments of every kind: in front of a statement, inside an expression, behind the semicolon. -/
theorem parseText_commented_statement :
    ∃ s file', parseText ⟨0, "q.sql", 1, 53, []⟩
        "/* a */ -- b\nSELECT 1 # c\n/* d */ + /**/ x FROM t; #e" = .ok (.ok s, file') ∧
      s.comments.map CommentGroup.toList = [[⟨1, "/* a */"⟩, ⟨9, "-- b"⟩],
        [⟨23, "# c"⟩, ⟨27, "/* d */"⟩], [⟨37, "/**/"⟩], [⟨52, "#e"⟩]] :=
  exists_statement (by decide +kernel)

theorem parseText_comments_commented_statement :
    ∃ s file' scanner tokens,
      parseText ⟨0, "q.sql", 1, 53, []⟩
        "/* a */ -- b\nSELECT 1 # c\n/* d */ + /**/ x FROM t; #e" = .ok (.ok s, file') ∧
      Scanner.ofText ⟨0, "q.sql", 1, 53, []⟩
        "/* a */ -- b\nSELECT 1 # c\n/* d */ + /**/ x FROM t; #e" = .ok scanner ∧
      scanner.tokenize.1 = .ok tokens ∧ KeepsComments tokens s := by
  obtain ⟨s, file', hfile, -⟩ := parseText_commented_statement
  obtain ⟨scanner, tokens, hkeeps⟩ := parseText_comments hfile
  exact ⟨s, file', scanner, tokens, hfile, hkeeps⟩

end SqlFormatter

import SqlFormatter.Proofs.Grammar.Parser
import SqlFormatter.Proofs.Statement.Outline

/-!
# SqlFormatter.Proofs.Grammar.Ranges

The ranges of a parsed statement against the tokens of its text. Tokens lie side by side
(`Range.Laid`), and what reaches from the first to the last of some ranges encloses them
(`Range.Laid.frame`). So it is enough that a node opens where its first leaf does, and closes where
its last one ends. The main result is `parseText_ranges`.
-/

namespace SqlFormatter

/-! ### Ranges side by side -/

namespace Range

/-- The range is not empty, and lies inside `b`. -/
def Within (r b : Range) : Prop := b.pos ≤ r.pos ∧ r.pos < r.stop ∧ r.stop ≤ b.stop

/-- The ranges lie inside `b`, one behind the other, and none is empty. -/
structure Laid (b : Range) (rs : List Range) : Prop where
  within : ∀ r ∈ rs, r.Within b
  ordered : rs.Pairwise fun r r' => r.stop ≤ r'.pos

/-- The range reaches from the start of the first to the end of the last. -/
def Frames (r : Range) (rs : List Range) : Prop :=
  rs.head?.map pos = some r.pos ∧ rs.getLast?.map stop = some r.stop

variable {b r : Range} {rs rs' : List Range}

theorem Laid.sublist (h : Laid b rs) (hrs : rs'.Sublist rs) : Laid b rs' :=
  ⟨fun r hr => h.within r (hrs.subset hr), h.ordered.sublist hrs⟩

/-- What reaches from the first to the last encloses all. -/
theorem Laid.frame (h : Laid b rs) (hr : r.Frames rs) : r.Within b ∧ Laid r rs := by
  obtain ⟨hfirst, hlast⟩ := hr
  obtain ⟨first, hfirst, hpos⟩ := Option.map_eq_some_iff.1 hfirst
  obtain ⟨last, hlast, hstop⟩ := Option.map_eq_some_iff.1 hlast
  obtain ⟨others, rfl⟩ := List.head?_eq_some_iff.1 hfirst
  have hstart : ∀ x ∈ first :: others, first.pos ≤ x.pos := by
    intro x hx
    rcases List.mem_cons.1 hx with rfl | hx
    · exact Nat.le_refl _
    · have hle := List.rel_of_pairwise_cons h.ordered hx
      have hlt := (h.within first List.mem_cons_self).2.1
      omega
  have hend : ∀ x ∈ first :: others, x.stop ≤ last.stop := by
    obtain ⟨front, hfront⟩ := List.getLast?_eq_some_iff.1 hlast
    have hordered := h.ordered
    have hwithin := h.within last (List.mem_of_getLast? hlast)
    rw [hfront] at hordered ⊢
    intro x hx
    rcases List.mem_append.1 hx with hx | hx
    · have hle := (List.pairwise_append.1 hordered).2.2 x hx last (List.mem_singleton_self _)
      have hlt := hwithin.2.1
      omega
    · rw [List.mem_singleton.1 hx]
  have hfirst' := h.within first List.mem_cons_self
  have hlast' := h.within last (List.mem_of_getLast? hlast)
  have hends := hend first List.mem_cons_self
  refine ⟨⟨?_, ?_, ?_⟩, fun x hx => ⟨?_, (h.within x hx).2.1, ?_⟩, h.ordered⟩
  · rw [← hpos]
    exact hfirst'.1
  · have hlt := hfirst'.2.1
    omega
  · rw [← hstop]
    exact hlast'.2.2
  · rw [← hpos]
    exact hstart x hx
  · rw [← hstop]
    exact hend x hx

end Range

/-! ### Tokens and leaves -/

/-- The piece of source of the token. -/
def Token.range (t : Token) : Range := ⟨t.pos, t.stop⟩

/-- The piece of source of the file. -/
def File.range (f : File) : Range := ⟨f.base, f.last⟩

/-- The token has as many bytes as its word says, if that says it. -/
def Token.Fits (t : Token) : Prop := ∀ n ∈ t.word.width?, byteLength t.text.toList = n

theorem Token.fits_of_width {t : Token} (h : ∀ n ∈ t.kind.width?, byteLength t.text.toList = n) :
    t.Fits := by
  intro n hn
  by_cases hkind : t.kind.keepsText
  · have hsome : t.word.width? = some (byteLength t.text.toList) := by
      simp [Word.width?, Token.word, Word.of, hkind]
    rw [hsome] at hn
    exact Option.some.inj hn
  · have hwidth : t.word.width? = t.kind.width? := by
      simp [Word.width?, hkind]
    exact h n (hwidth ▸ hn)

section Spells

variable {ts : List Token} {ls ms : List Leaf} {p q : Nat}

theorem Spells.split (h : Spells ts (ls ++ ms)) :
    ∃ us vs, ts = us ++ vs ∧ Spells us ls ∧ Spells vs ms :=
  ⟨_, _, (List.take_append_drop ls.length ts).symm, List.forall₂_take_append ts ls ms h,
    List.forall₂_drop_append ts ls ms h⟩

/-- Leaves in one stretch are spelled by tokens in one stretch. -/
theorem Spells.stretch (h : Spells ts ms) (hls : ls <:+: ms) : ∃ us, us <:+: ts ∧ Spells us ls := by
  obtain ⟨front, behind, rfl⟩ := hls
  obtain ⟨us, vs, rfl, hus, -⟩ := h.split
  obtain ⟨ws, us, rfl, -, hread⟩ := hus.split
  exact ⟨us, ⟨ws, vs, rfl⟩, hread⟩

theorem Spells.pos_of_opens (h : Spells ts ls) (hp : OpensAt ls p) :
    (ts.map Token.range).head?.map Range.pos = some p := by
  cases h with
  | nil => cases hp
  | @cons t l ts ls hmarks _ => exact congrArg some (hmarks.2 p hp).symm

theorem Spells.stop_of_closes (h : Spells ts ls) (hts : ∀ t ∈ ts, t.Fits) (hq : ClosesAt ls q) :
    (ts.map Token.range).getLast?.map Range.stop = some q := by
  obtain ⟨r, hlast, rfl⟩ := Option.map_eq_some_iff.1 hq
  obtain ⟨l, hl, hrange⟩ := Option.bind_eq_some_iff.1 hlast
  obtain ⟨front, rfl⟩ := List.getLast?_eq_some_iff.1 hl
  obtain ⟨us, vs, rfl, -, hvs⟩ := h.split
  obtain ⟨t, _, hmarks, hnil, rfl⟩ := List.forall₂_cons_right_iff.1 hvs
  cases hnil
  -- The leaf and the token are at one place, and have one width.
  obtain ⟨p, hp, hwide⟩ := Option.bind_eq_some_iff.1 hrange
  obtain ⟨n, hn, rfl⟩ := Option.map_eq_some_iff.1 hwide
  have hwidth := hts t (by simp) n (by rw [hmarks.1]; exact hn)
  simp [Token.range, Token.stop, hwidth, hmarks.2 p hp]

theorem Spells.frames {c : Constituent} {r : Range} (h : Spells ts c.leaves)
    (hts : ∀ t ∈ ts, t.Fits) (hc : c.Spanned) (hr : r ∈ c.range) :
    r.Frames (ts.map Token.range) :=
  ⟨h.pos_of_opens (hc r hr).1, h.stop_of_closes hts (hc r hr).2⟩

/-- The parts of a node lie side by side as their tokens do. -/
theorem Spells.laid {b : Range} {parts : List Constituent}
    (h : Spells ts (parts.flatMap Constituent.leaves)) (hts : ∀ t ∈ ts, t.Fits)
    (hlaid : b.Laid (ts.map Token.range)) (hparts : ∀ c ∈ parts, c.Spanned) :
    b.Laid (parts.filterMap Constituent.range) := by
  induction parts generalizing ts b with
  | nil => exact ⟨nofun, .nil⟩
  | cons c cs ih =>
    obtain ⟨hc, hcs⟩ := List.forall_mem_cons.1 hparts
    rw [List.flatMap_cons] at h
    obtain ⟨us, vs, rfl, hus, hvs⟩ := h.split
    obtain ⟨hfitsUs, hfitsVs⟩ := List.forall_mem_append.1 hts
    rw [List.map_append] at hlaid
    have hrest := ih hvs hfitsVs (hlaid.sublist (List.sublist_append_right ..)) hcs
    cases hrange : c.range with
    | none => rwa [List.filterMap_cons_none hrange]
    | some r =>
      have hframes := hus.frames hfitsUs hc hrange
      have hr := (hlaid.sublist (List.sublist_append_left ..)).frame hframes
      -- The other parts lie behind the last token of this one.
      have hbehind : Range.Laid ⟨r.stop, b.stop⟩ (vs.map Token.range) := by
        obtain ⟨last, hlast, hstop⟩ := Option.map_eq_some_iff.1 hframes.2
        obtain ⟨-, hordered, hafter⟩ := List.pairwise_append.1 hlaid.ordered
        refine ⟨fun v hv => ?_, hordered⟩
        have hle := hafter last (List.mem_of_getLast? hlast) v hv
        obtain ⟨-, hlt, hinside⟩ := hlaid.within v (List.mem_append_right _ hv)
        exact ⟨hstop ▸ hle, hlt, hinside⟩
      rw [List.filterMap_cons_some hrange]
      refine ⟨List.forall_mem_cons.2 ⟨hr.1, hrest.within⟩,
        List.pairwise_cons.2 ⟨fun r' hr' => ?_, hrest.ordered⟩⟩
      exact ((ih hvs hfitsVs hbehind hcs).within r' hr').1

end Spells

/-! ### Nodes -/

/-- The ranges of the node and of its parts are those of tokens. -/
structure Node.Exact (file : File) (tokens : List Token) (n : Node) : Prop where
  /-- The node lies inside the file, and is not empty. -/
  within : n.range.Within file.range
  /-- It reaches from the first to the last of the tokens that its leaves stand for, each at the
  position that the tree has for it. -/
  read : ∃ read, read <:+: tokens ∧ Spells read n.leaves ∧ n.range.Frames (read.map Token.range)
  /-- Its parts lie inside it, in order and without overlap. -/
  parts : n.range.Laid (n.parts.filterMap Constituent.range)

theorem Node.LiesIn.exact {file : File} {ts : List Token} {ls : List Leaf} {n : Node}
    (hn : n.LiesIn ls) (h : Spells ts ls) (hts : ∀ t ∈ ts, t.Fits)
    (hlaid : file.range.Laid (ts.map Token.range)) : n.Exact file ts := by
  obtain ⟨hstretch, hwhole, hparts⟩ := hn
  obtain ⟨us, hus, hread⟩ := h.stretch hstretch
  have hfits : ∀ t ∈ us, t.Fits := fun t ht => hts t (hus.subset ht)
  have hframes : n.range.Frames (us.map Token.range) := hread.frames hfits hwhole rfl
  obtain ⟨hwithin, hinside⟩ := (hlaid.sublist (hus.sublist.map _)).frame hframes
  exact ⟨hwithin, ⟨us, hus, hread, hframes⟩, hread.laid hfits hinside hparts⟩

theorem Node.Exact.mono {file : File} {ts us : List Token} {n : Node} (h : n.Exact file ts)
    (hts : ts <:+: us) : n.Exact file us := by
  obtain ⟨hwithin, ⟨read, hread, hspells, hframes⟩, hparts⟩ := h
  exact ⟨hwithin, ⟨read, hread.trans hts, hspells, hframes⟩, hparts⟩

/-! ### Tokens of a text -/

/-- The tokens of a text lie side by side in the file, and behind them there is the end of input. -/
theorem Scanner.exists_laid {file : File} {text : String} {expired : Bool} {scanner : Scanner}
    {tokens : List Token} (hscanner : Scanner.ofText file text expired = .ok scanner)
    (htokens : scanner.tokenize.1 = .ok tokens) :
    ∃ init eof, tokens = init ++ [eof] ∧ eof.kind = .endOfInput ∧
      file.range.Laid (init.map Token.range) := by
  obtain ⟨htext, hsize, hpos, -, -⟩ := Scanner.ofText_eq_ok hscanner
  have htiles := Scanner.tiles_tokenize htokens
  obtain ⟨init, rfl, hinit⟩ := htiles.exists_init
  obtain ⟨hordered, -, hlast⟩ := List.pairwise_append.1 htiles.pairwise
  refine ⟨init, _, rfl, rfl, List.forall_mem_map.2 fun t ht => ⟨?_, ?_, ?_⟩,
    List.pairwise_map.2 (hordered.imp And.right)⟩
  · have hle := htiles.le_pos t (List.mem_append_left _ ht)
    change file.base ≤ t.pos
    omega
  · have htext' : t.text.toList ≠ [] := fun hnil => (hinit t ht).2 (by simpa using hnil)
    have hlt := byteLength_pos htext'
    change t.pos < t.pos + byteLength t.text.toList
    omega
  · have hle := (hlast t ht _ (List.mem_singleton_self _)).2
    change t.stop ≤ file.base + file.size
    rw [hsize, htext, byteLength_append]
    change t.stop ≤ scanner.pos + byteLength scanner.rest at hle
    omega

/-- The comments lie where their tokens do. -/
theorem map_range_filterMap_comment? (tokens : List Token) :
    (tokens.filterMap Token.comment?).map Comment.range =
      (tokens.filter (·.kind == .comment)).map Token.range := by
  induction tokens with
  | nil => rfl
  | cons t ts ih =>
    by_cases ht : t.kind = .comment
    · rw [List.filterMap_cons_some (b := ⟨t.pos, t.text⟩) (by simp [Token.comment?, ht]),
        List.filter_cons_of_pos (by simp [ht]), List.map_cons, List.map_cons, ih]
      rfl
    · rw [List.filterMap_cons_none (by simp [Token.comment?, ht]),
        List.filter_cons_of_neg (by simp [ht]), ih]

/-! ### Statements -/

/-- The ranges of a statement are those of the tokens of its text. -/
structure Statement.Exact (file : File) (tokens : List Token) (s : Statement) : Prop where
  /-- Every node reaches from its first token to its last, with its parts side by side. -/
  nodes : ∀ n ∈ s.subtrees, n.Exact file (tokens.filter Token.isProper)
  /-- The clauses are in order and do not overlap. -/
  clauses : s.range.Laid (s.clauses.map Prod.snd)
  /-- The first clause starts where the statement does, and the last one ends there. -/
  ends : s.range.Frames (s.clauses.map Prod.snd)
  /-- A comment group lies inside the file, and reaches from its first comment to its last. -/
  groups : ∀ g ∈ s.comments, g.range.Within file.range ∧
    g.range.Laid (g.toList.map Comment.range) ∧ g.range.Frames (g.toList.map Comment.range)
  /-- A comment is a token that no node has. -/
  comments : ∀ g ∈ s.comments, ∀ c ∈ g.toList, (∃ t ∈ tokens, t.kind = .comment ∧
    c.range = t.range ∧ c.text = t.text) ∧ ∀ t ∈ tokens.filter Token.isProper,
      c.range.stop ≤ t.pos ∨ t.stop ≤ c.range.pos
  /-- The outline tells of these ranges. -/
  outline : ∀ x ∈ s.outline, s.Reports x.2
  /-- It tells of a clause that is left out that it is nowhere. -/
  absent : (s.whereClause = none → (.whereClause, .absent) ∈ s.outline) ∧
    (s.groupBy = none → (.groupByClause, .absent) ∈ s.outline) ∧
      (s.orderBy = none → (.orderByClause, .absent) ∈ s.outline)

namespace Statement

theorem frames_clauses (s : Statement) : s.range.Frames (s.clauses.map Prod.snd) := by
  refine ⟨rfl, ?_⟩
  rw [clauses, range]
  cases s.whereClause <;> cases s.groupBy <;> cases s.orderBy <;> rfl

theorem absent_mem_outline (s : Statement) :
    (s.whereClause = none → (.whereClause, .absent) ∈ s.outline) ∧
      (s.groupBy = none → (.groupByClause, .absent) ∈ s.outline) ∧
        (s.orderBy = none → (.orderByClause, .absent) ∈ s.outline) := by
  refine ⟨fun h => ?_, fun h => ?_, fun h => ?_⟩ <;> simp [outline, h]

end Statement

theorem CommentGroup.frames_range (g : CommentGroup) :
    g.range.Frames (g.toList.map Comment.range) := by
  refine ⟨rfl, ?_⟩
  rw [List.getLast?_map, toList, g.comments.getLast?_toList]
  rfl

section Comments

variable {file : File} {tokens : List Token} {groups : List CommentGroup} {g : CommentGroup}

theorem CommentGroup.exact (hlaid : file.range.Laid (tokens.map Token.range))
    (hgroups : groups.flatMap toList = tokens.filterMap Token.comment?) (hg : g ∈ groups) :
    g.range.Within file.range ∧ g.range.Laid (g.toList.map Comment.range) ∧
      g.range.Frames (g.toList.map Comment.range) := by
  have hcomments : file.range.Laid ((groups.flatMap toList).map Comment.range) := by
    rw [hgroups, map_range_filterMap_comment?]
    exact hlaid.sublist (List.filter_sublist.map _)
  have hsublist : g.toList.Sublist (groups.flatMap toList) := by
    obtain ⟨front, behind, rfl⟩ := List.append_of_mem hg
    rw [List.flatMap_append, List.flatMap_cons]
    exact (List.sublist_append_left ..).trans (List.sublist_append_right ..)
  obtain ⟨hwithin, hinside⟩ := (hcomments.sublist (hsublist.map _)).frame g.frames_range
  exact ⟨hwithin, hinside, g.frames_range⟩

/-- Two tokens do not overlap. -/
theorem Range.Laid.apart (hlaid : file.range.Laid (tokens.map Token.range)) {t u : Token}
    (ht : t ∈ tokens) (hu : u ∈ tokens) (hne : t ≠ u) : t.stop ≤ u.pos ∨ u.stop ≤ t.pos := by
  have heither : tokens.Pairwise fun t u => t.stop ≤ u.pos ∨ u.stop ≤ t.pos :=
    (List.pairwise_map.1 hlaid.ordered).imp Or.inl
  have hsymm : Std.Symm fun t u : Token => t.stop ≤ u.pos ∨ u.stop ≤ t.pos := ⟨fun _ _ => Or.symm⟩
  exact heither.forall ht hu hne

theorem Comment.exact (hlaid : file.range.Laid (tokens.map Token.range)) {c : Comment}
    (hc : c ∈ tokens.filterMap Token.comment?) :
    (∃ t ∈ tokens, t.kind = .comment ∧ c.range = t.range ∧ c.text = t.text) ∧
      ∀ t ∈ tokens.filter Token.isProper, c.range.stop ≤ t.pos ∨ t.stop ≤ c.range.pos := by
  obtain ⟨u, hu, huc⟩ := List.mem_filterMap.1 hc
  unfold Token.comment? at huc
  split at huc
  · next hkind =>
    cases huc
    refine ⟨⟨u, hu, hkind, rfl, rfl⟩, fun t ht => ?_⟩
    obtain ⟨ht, hproper⟩ := List.mem_filter.1 ht
    refine hlaid.apart hu ht fun heq => ?_
    rw [← heq, Token.isProper, hkind] at hproper
    cases hproper
  · cases huc

end Comments

/-- The ranges that a parsed statement reports are exact. -/
theorem parseText_ranges {file file' : File} {text : String} {expired : Bool} {s : Statement}
    (h : parseText file text expired = .ok (.ok s, file')) :
    ∃ scanner tokens, Scanner.ofText file text expired = .ok scanner ∧
      scanner.tokenize.1 = .ok tokens ∧ s.Exact file tokens := by
  obtain ⟨scanner, hscanner, hparse⟩ := parseText_eq_ok h
  obtain ⟨tokens, s₀, groups, htokens, hsentence, hgroups, rfl⟩ :=
    Parser.sentence_of_parse_eq_ok hparse
  obtain ⟨-, -, -, rest, ⟨read, hread, hspells⟩, -⟩ := Grammar.sentenceOf_sound hsentence
  obtain ⟨init, eof, hinit, heof, hlaid⟩ := Scanner.exists_laid hscanner htokens
  have hproper : tokens.filter Token.isProper = init.filter Token.isProper := by
    simp [hinit, Token.isProper, heof]
  have hcomments : groups.flatMap CommentGroup.toList = init.filterMap Token.comment? := by
    simp [hgroups, hinit, Token.comment?, heof]
  -- The tokens of the tree are those in front of the semicolon, if there is one.
  have hfits : ∀ t ∈ read, t.Fits := fun t ht => by
    have hmem : t ∈ tokens.filter Token.isProper := hread ▸ List.mem_append_left _ ht
    exact Token.fits_of_width
      (Scanner.width_of_mem_tokenize htokens t (List.mem_filter.1 hmem).1)
  have hsublist : read.Sublist init :=
    (List.sublist_append_left read rest).trans (hread ▸ hproper ▸ List.filter_sublist)
  have hnode : ∀ {n : Node}, n.LiesIn s₀.leaves → n.Exact file (tokens.filter Token.isProper) :=
    fun hn => (hn.exact hspells hfits (hlaid.sublist (hsublist.map _))).mono
      (hread ▸ (List.prefix_append read rest).isInfix)
  let s : Statement := { s₀ with comments := groups }
  have hstatement : s.node.Exact file (tokens.filter Token.isProper) :=
    hnode (s.liesIn_of_mem_subtrees List.mem_cons_self)
  refine ⟨scanner, tokens, hscanner, htokens, ?_⟩
  constructor
  · exact fun n hn => hnode (s.liesIn_of_mem_subtrees hn)
  · have hparts := hstatement.parts
    rwa [Statement.node, List.filterMap_map, show Constituent.range ∘ Node.whole = some ∘ Node.range
      from rfl, List.filterMap_eq_map, ← s.map_range_clauses] at hparts
  · exact s.frames_clauses
  · exact fun g hg => CommentGroup.exact hlaid hcomments hg
  · intro g hg c hc
    have hmem : c ∈ init.filterMap Token.comment? := hcomments ▸ List.mem_flatMap.2 ⟨g, hg, hc⟩
    obtain ⟨⟨t, ht, hkind⟩, hapart⟩ := Comment.exact hlaid hmem
    exact ⟨⟨t, hinit ▸ List.mem_append_left _ ht, hkind⟩, hproper ▸ hapart⟩
  · exact s.range_of_mem_outline
  · exact s.absent_mem_outline

/-- A text with all kinds of node, a name beyond ASCII and keywords in both cases. -/
def textOfAllKinds : String :=
  "SELECT case WHEN é IS NULL THEN f(a, -1) ELSE (b) END AS n FROM t AS u " ++
    "WHERE x = 'y' GROUP BY q.c /* z */ ORDER BY 1;"

theorem parseText_textOfAllKinds :
    ∃ s file', parseText ⟨0, "q.sql", 7, 118, []⟩ textOfAllKinds = .ok (.ok s, file') ∧
      s.range = ⟨7, 124⟩ :=
  exists_statement (by decide +kernel)

theorem parseText_ranges_textOfAllKinds :
    ∃ s file' scanner tokens,
      parseText ⟨0, "q.sql", 7, 118, []⟩ textOfAllKinds = .ok (.ok s, file') ∧
      Scanner.ofText ⟨0, "q.sql", 7, 118, []⟩ textOfAllKinds = .ok scanner ∧
      scanner.tokenize.1 = .ok tokens ∧ s.Exact ⟨0, "q.sql", 7, 118, []⟩ tokens := by
  obtain ⟨s, file', hfile, -⟩ := parseText_textOfAllKinds
  obtain ⟨scanner, tokens, hexact⟩ := parseText_ranges hfile
  exact ⟨s, file', scanner, tokens, hfile, hexact⟩

end SqlFormatter

import SqlFormatter.Proofs.Grammar.Operand
import SqlFormatter.Proofs.Grammar.Placed
import SqlFormatter.Proofs.Grammar.Ranges
import SqlFormatter.Proofs.Grammar.Rebased
import SqlFormatter.Proofs.Statement.Normal
import SqlFormatter.Proofs.Token.Lexes

/-!
# SqlFormatter.Proofs.Grammar.Excerpt

The range of an expression is an excerpt that can stand alone.

* The text between the first and the last token of an expression is cut into the same tokens
  elsewhere, behind a token that no operand ends with and in front of a delimiter
  (`Lexes.exists_excerpt`).
* There its tokens are read as the expression again, and the positions are those of the tokens
  (`parseText_excerpt`).
-/

namespace SqlFormatter

/-! ### A stretch of the tokens -/

/-- Around something that is picked from a list the list is cut in two. -/
theorem split_of_filter_eq {α : Type} {p : α → Bool} {l front behind : List α} {x : α}
    (h : l.filter p = front ++ x :: behind) :
    ∃ us vs, l = us ++ x :: vs ∧ us.filter p = front ∧ vs.filter p = behind ∧ p x := by
  obtain ⟨us, rest, rfl, hus, hrest⟩ := List.filter_eq_append_iff.1 h
  obtain ⟨skipped, vs, rfl, hskipped, hx, hvs⟩ := List.filter_eq_cons_iff.1 hrest
  refine ⟨us ++ skipped, vs, (List.append_assoc ..).symm, ?_, hvs, hx⟩
  rw [List.filter_append, hus, List.filter_eq_nil_iff.2 hskipped, List.append_nil]

/-- What is picked from a list in one stretch is picked from a stretch of the list, which starts and
ends with something that is picked. -/
theorem exists_stretch {α : Type} {p : α → Bool} {l front middle behind : List α} {x : α}
    (h : l.filter p = front ++ (x :: middle ++ behind)) :
    ∃ us ws vs, l = us ++ (x :: ws ++ vs) ∧ us.filter p = front ∧
      (x :: ws).filter p = x :: middle ∧ (x :: ws).getLast? = (x :: middle).getLast? := by
  obtain ⟨us, others, rfl, hus, hothers, hx⟩ := split_of_filter_eq h
  rcases List.eq_nil_or_concat' middle with rfl | ⟨middle, y, rfl⟩
  · exact ⟨us, [], others, rfl, hus, List.filter_cons_of_pos hx, rfl⟩
  · have hothers : others.filter p = middle ++ y :: behind :=
      hothers.trans (List.append_assoc middle [y] behind)
    obtain ⟨ws, vs, rfl, hws, -, hy⟩ := split_of_filter_eq hothers
    refine ⟨us, ws ++ [y], vs, by simp, hus, ?_, ?_⟩
    · rw [List.filter_cons_of_pos hx, List.filter_append, hws, List.filter_cons_of_pos hy]
      rfl
    · rw [← List.cons_append, List.getLast?_concat, ← List.cons_append, List.getLast?_concat]

/-- From the token `x` on, the tokens `x :: middle` make up an excerpt of the text, perhaps with
comments among them. It is cut into the same tokens wherever no operand ends in front of it and a
delimiter stands behind it. -/
theorem Lexes.exists_excerpt {k m : Kind} {p : Nat} {text rest : List Char}
    {all front middle behind : List Token} {t x last : Token} (h : Lexes k p text rest all m)
    (hall : all.filter Token.isProper = (front ++ [t]) ++ (x :: middle ++ behind))
    (ht : t.kind.endsOperand = false) (hlast : (x :: middle).getLast? = some last)
    (hkind : last.kind ≠ .comment ∧ last.kind ≠ .minus) :
    ∃ before excerpt after ws, text = before ++ (excerpt ++ after) ∧
      x.pos = p + byteLength before ∧ last.stop = x.pos + byteLength excerpt ∧
      ws.filter Token.isProper = x :: middle ∧
      ∀ k' rest', k'.endsOperand = false → Delimited rest' →
        ∃ m', Lexes k' x.pos excerpt rest' ws m' := by
  obtain ⟨us, ws, vs, rfl, hus, hws, hlast'⟩ := exists_stretch hall
  obtain ⟨before, c, cs, text', k₁, -, -, rfl, hpos, hbefore, hfirst, hothers⟩ := h.split_at
  have hstretch : Lexes k₁ x.pos (c :: cs ++ text') rest (x :: ws ++ vs) m := hfirst.append hothers
  obtain ⟨excerpt, after, m', hpiece, hexcerpt, -, hstop⟩ := hstretch.split
  rw [hlast', hlast] at hstop
  have hk₁ : k₁.endsOperand = false := by
    rw [hbefore.kind_eq, hus, List.getLast?_concat]
    exact ht
  refine ⟨before, excerpt, after, x :: ws, by rw [hpiece], hpos, hstop last rfl, hws, ?_⟩
  intro k' rest' hk' hrest'
  have hsame : k'.endsOperand = k₁.endsOperand := hk'.trans hk₁.symm
  refine (hexcerpt.before_delimited hrest' fun u hu => ?_).after_kind (Or.inl hsame)
  rw [hlast', hlast, Option.mem_some_iff] at hu
  exact hu ▸ hkind

/-- The first token of an expression is where the expression is. -/
theorem Spells.first_of_expr {x : Expr} {ts : List Token} (h : Spells ts x.leaves) :
    ∃ t us, ts = t :: us ∧ t.pos = x.pos := by
  have hpos := h.pos_of_opens x.opens
  cases ts with
  | nil => cases hpos
  | cons t us => exact ⟨t, us, rfl, Option.some.inj hpos⟩

/-- The last token of an expression ends where the expression does, and may stand in front of
anything that starts with a delimiter. -/
theorem Spells.last_of_expr {x : Expr} {ts : List Token} (h : Spells ts x.leaves)
    (hfits : ∀ t ∈ ts, t.Fits) :
    ∃ t, ts.getLast? = some t ∧ t.stop = x.stop ∧ t.kind ≠ .comment ∧ t.kind ≠ .minus := by
  obtain ⟨r, hr, hstop⟩ := Option.map_eq_some_iff.1 (h.stop_of_closes hfits x.closes)
  rw [List.getLast?_map] at hr
  obtain ⟨t, ht, rfl⟩ := Option.map_eq_some_iff.1 hr
  refine ⟨t, ht, hstop, ?_⟩
  obtain ⟨l, hl, hkind⟩ := x.endsOperand_leaves
  have hword : t.word = l.word := by
    have hwords := congrArg List.getLast? h.map_word
    rw [List.getLast?_map, List.getLast?_map, ht, Option.mem_def.1 hl] at hwords
    exact Option.some.inj hwords
  have hkind' : t.kind.endsOperand ∨ t.kind = .star := by
    rw [← t.kind_word, hword]
    exact hkind
  constructor <;>
  · intro heq
    rw [heq] at hkind'
    revert hkind'
    decide

/-- The tokens of an expression of a statement make up such an excerpt. -/
theorem exists_excerpt {file file' : File} {text : String} {expired : Bool} {s : Statement}
    (h : parseText file text expired = .ok (.ok s, file')) {x : Expr}
    (hx : x ∈ s.exprs.flatMap Expr.nodes) :
    ∃ before excerpt after ws, text.toList = before ++ (excerpt ++ after) ∧
      x.pos = file.base + byteLength before ∧ x.stop = x.pos + byteLength excerpt ∧
      Spells (ws.filter Token.isProper) x.leaves ∧
      ∀ k rest, k.endsOperand = false → Delimited rest →
        ∃ m, Lexes k x.pos excerpt rest ws m := by
  obtain ⟨scanner, tokens, hscanner, htokens, hread⟩ := readFrom_of_parseText h
  obtain ⟨rest, init, m, htext, rfl, hlexes⟩ := Scanner.exists_lexes hscanner htokens
  -- The tokens of the expression are `ys`, and `t` is the one in front of them.
  obtain ⟨others, ⟨read, htokens', hspells⟩, -⟩ := hread.reads
  obtain ⟨l, hl, before, behind, hleaves⟩ := s.introduced_of_mem_nodes hx
  rw [← hleaves] at hspells
  obtain ⟨us, vs, rfl, hus, -⟩ := hspells.split
  obtain ⟨front, ts, rfl, -, hts⟩ := hus.split
  obtain ⟨t, ys, hmarks, hys, rfl⟩ := List.forall₂_cons_right_iff.1 hts
  have hproper : init.filter Token.isProper =
      (front ++ [t]) ++ (ys ++ (vs ++ others)) := by
    rw [List.filter_append] at htokens'
    simpa [Token.isProper, Token.endOfInput] using htokens'
  have hfits : ∀ u ∈ ys, u.Fits := fun u hu => by
    have hmem : u ∈ init.filter Token.isProper := by
      rw [hproper]
      simp [hu]
    exact Token.fits_of_width (Scanner.width_of_mem_tokenize htokens u
      (List.mem_append_left _ (List.mem_filter.1 hmem).1))
  have hspelled : Spells ys x.leaves := hys
  obtain ⟨last, hlast, hstop, hkind⟩ := hspelled.last_of_expr hfits
  obtain ⟨y, ys, rfl, hfirst⟩ := hspelled.first_of_expr
  have ht : t.kind.endsOperand = false := by
    rw [← t.kind_word, hmarks.1]
    exact hl
  obtain ⟨before', excerpt, after, ws, htext', hpos', hstop', hws, hcut⟩ :=
    hlexes.exists_excerpt hproper ht hlast hkind
  refine ⟨leadingMark text ++ before', excerpt, after, ws, ?_, ?_, ?_, hws ▸ hys, hfirst ▸ hcut⟩
  · rw [htext, htext', List.append_assoc]
  · rw [← hfirst, hpos', byteLength_append, Nat.add_assoc]
  · rw [← hstop, hstop', hfirst]

/-! ### A statement around an excerpt -/

/-- The statement that selects the expression from a table `t`. -/
def Expr.selected (x : Expr) : Statement where
  select := ⟨nowhere, ⟨⟨x, none⟩, []⟩⟩
  fromClause := ⟨nowhere, ⟨⟨⟨nowhere, "t"⟩, none⟩, []⟩⟩
  whereClause := none
  groupBy := none
  orderBy := none
  comments := []

theorem Expr.yield_selected (x : Expr) :
    x.selected.yield = .fixed (.keyword .SELECT) ::
      (x.yield ++ [.fixed (.keyword .FROM), ⟨.ident, "t"⟩]) := by
  simp [Statement.yield, Statement.leaves, selected, SelectClause.leaves, FromClause.leaves,
    Column.leaves, Table.leaves, Leaf.list, Expr.yield, NonemptyList.toList, Leaf.fixed,
    Leaf.ofName]

/-- The text in front of the excerpt. -/
theorem lexes_select (p : Nat) (rest : List Char) :
    Lexes .endOfInput p "select ".toList rest [⟨p, .keyword .SELECT, "select"⟩]
      (.keyword .SELECT) := by
  have hread : Lexeme.read false .endOfInput 's' ("elect".toList ++ ([' '] ++ rest)) =
      ⟨"select".toList, [' '] ++ rest, .ok (.keyword .SELECT)⟩ := rfl
  exact .token rfl hread (.gap rfl (.nil ..))

/-- The text behind it. -/
theorem lexes_from (k : Kind) (p : Nat) :
    Lexes k p " from t".toList [] [⟨p + 1, .keyword .FROM, "from"⟩, ⟨p + 6, .ident, "t"⟩]
      .ident := by
  have hfrom : Lexeme.read false k 'f' ("rom".toList ++ (" t".toList ++ [])) =
      ⟨"from".toList, " t".toList, .ok (.keyword .FROM)⟩ := rfl
  have hname : Lexeme.read false (.keyword .FROM) 't' ([] ++ ([] ++ [])) =
      ⟨['t'], [], .ok .ident⟩ := rfl
  exact .gap rfl (.token rfl hfrom (.gap rfl (.token rfl hname (.nil ..))))

/-- The text that selects an excerpt from a table `t`. -/
def selecting (excerpt : String) : String := "select " ++ excerpt ++ " from t"

theorem toList_selecting (excerpt : List Char) :
    (selecting (String.ofList excerpt)).toList =
      "select ".toList ++ (excerpt ++ " from t".toList) := by
  simp only [selecting, String.toList_append, String.toList_ofList, List.append_assoc]

theorem map_word_moved (f : Nat → Nat) (ts : List Token) :
    (ts.map (Token.moved f)).map Token.word = ts.map Token.word :=
  List.map_map

/-- A statement of the shape that selects an expression, and that is read from the tokens of the
expression behind one other, selects the expression, moved as its tokens are. -/
theorem columns_of_selected {x : Expr} {s : Statement} {f : Nat → Nat} {t : Token}
    {ts behind rest : List Token} (hshape : s.shape = x.selected.shape) (hx : Spells ts x.leaves)
    (hs : Reads (t :: (ts ++ behind).map (Token.moved f)) s.leaves rest) :
    s.select.columns = ⟨⟨x.moved f, none⟩, []⟩ := by
  obtain ⟨⟨p, ⟨⟨e, asName⟩, others⟩⟩, fromClause, whereClause, groupBy, orderBy, comments⟩ := s
  have hselect := congrArg (fun s => s.select.columns) hshape
  injection hselect with hcolumn hothers
  injection hcolumn with he hname
  obtain rfl := List.map_eq_nil_iff.1 hothers
  obtain rfl := Option.map_eq_none_iff.1 hname
  have he : e.shape = x.shape := he
  simp only [Statement.leaves, SelectClause.leaves, NonemptyList.toList, Leaf.list, Column.leaves,
    Option.elim_none, List.flatMap_nil, List.append_nil, List.append_assoc, List.cons_append] at hs
  obtain ⟨_, _, htokens, -, hs⟩ := hs.uncons
  obtain ⟨-, rfl⟩ := List.cons_eq_cons.1 htokens
  have hread : Reads (ts ++ behind) x.leaves behind := ⟨ts, rfl, hx⟩
  obtain ⟨us, hexpr, -⟩ := hs.unappend
  obtain ⟨he, -⟩ := Expr.settled he _ _ _ ⟨hread, hexpr⟩
  rw [he]

/-- The tokens of that text are those of the excerpt, moved, between others. -/
theorem exists_tokenize_selecting {p : Nat} {excerpt : List Char} {ws : List Token} {m : Kind}
    (hlexes : Lexes (.keyword .SELECT) p excerpt " from t".toList ws m) {target : File}
    (hsize : target.size = byteLength (selecting (String.ofList excerpt)).toList) :
    ∃ scanner tokens select behind,
      Scanner.ofText target (selecting (String.ofList excerpt)) = .ok scanner ∧
      scanner.tokenize.1 = .ok tokens ∧
      tokens.filter Token.isProper = select ::
        (ws.filter Token.isProper ++ behind).map (Token.moved (rebase p (target.base + 7))) ∧
      select.word = .fixed (.keyword .SELECT) ∧
      behind.map Token.word = [.fixed (.keyword .FROM), ⟨.ident, "t"⟩] := by
  let f : Nat → Nat := rebase p (target.base + 7)
  let scanner : Scanner := { file := target, rest := (selecting (String.ofList excerpt)).toList }
  let select : Token := ⟨target.base, .keyword .SELECT, "select"⟩
  let behind : List Token := [⟨p + byteLength excerpt + 1, .keyword .FROM, "from"⟩,
    ⟨p + byteLength excerpt + 6, .ident, "t"⟩]
  have hscanner : Scanner.ofText target (selecting (String.ofList excerpt)) = .ok scanner :=
    Scanner.ofText_of_head?_ne hsize (by rw [toList_selecting]; exact nofun)
  have hrest : scanner.rest = "select ".toList ++ (excerpt ++ " from t".toList) :=
    toList_selecting excerpt
  have hmoved : Lexes (.keyword .SELECT) (target.base + 7) (excerpt ++ " from t".toList) []
      ((ws ++ behind).map (Token.moved f)) .ident :=
    (hlexes.append (lexes_from ..)).moved fun n => by
      simp only [f, rebase]
      omega
  have hall : Lexes scanner.previous scanner.pos scanner.rest []
      (select :: (ws ++ behind).map (Token.moved f)) .ident :=
    hrest ▸ (lexes_select target.base _).append hmoved
  refine ⟨scanner, _, select, behind, hscanner, Scanner.tokenize_of_lexes hall rfl, ?_, rfl, rfl⟩
  have hbehind : behind.filter Token.isProper = behind := rfl
  rw [List.filter_append, List.filter_cons_of_pos rfl, filter_isProper_moved, List.filter_append,
    hbehind]
  exact List.append_nil _

/-- An excerpt that is cut into the tokens of an expression is read as this expression, moved to
where the excerpt is. -/
theorem parseText_selecting {x : Expr} {excerpt : List Char} {ws : List Token} {m : Kind}
    (hcanonical : x.Canonical) (hnesting : x.nesting < Grammar.maxNesting)
    (hlexes : Lexes (.keyword .SELECT) x.pos excerpt " from t".toList ws m)
    (hspells : Spells (ws.filter Token.isProper) x.leaves) {target : File}
    (hsize : target.size = byteLength (selecting (String.ofList excerpt)).toList) :
    ∃ s' target', parseText target (selecting (String.ofList excerpt)) = .ok (.ok s', target') ∧
      s'.select.columns = ⟨⟨x.moved (rebase x.pos (target.base + 7)), none⟩, []⟩ := by
  obtain ⟨scanner, tokens, select, behind, hscanner, htokens, hproper, hselect, hbehind⟩ :=
    exists_tokenize_selecting hlexes hsize
  have hwords : (tokens.filter Token.isProper).map Token.word = x.selected.yield := by
    rw [hproper, x.yield_selected, List.map_cons, map_word_moved, List.map_append,
      hspells.map_word, hselect, hbehind]
    rfl
  have hcanonical : x.selected.Canonical := List.forall_mem_singleton.2 hcanonical
  have hnesting : x.selected.nesting ≤ Grammar.maxNesting :=
    Statement.nesting_le_iff.2 (List.forall_mem_singleton.2 hnesting)
  obtain ⟨result, target', hparse, hfits, -⟩ :=
    parseText_of_words hcanonical hscanner htokens (Or.inl hwords)
  obtain ⟨s', rfl, hshape, -⟩ := hfits hnesting
  obtain ⟨scanner', tokens', hscanner', htokens', hread⟩ := readFrom_of_parseText hparse
  obtain rfl := Except.ok.inj (hscanner.symm.trans hscanner')
  obtain rfl := Except.ok.inj (htokens.symm.trans htokens')
  obtain ⟨rest, hreads, -⟩ := hread.reads
  rw [hproper] at hreads
  exact ⟨s', target', hparse, columns_of_selected hshape hspells hreads⟩

/-- The range of an expression of a parsed statement is a piece of source of its own. The bytes in
it are a text, and behind "select " and in front of " from t" this text is accepted; the only column
is then the expression, moved to its new place, without another name. -/
theorem parseText_excerpt {file file' : File} {text : String} {expired : Bool} {s : Statement}
    (h : parseText file text expired = .ok (.ok s, file')) :
    ∀ x ∈ s.exprs.flatMap Expr.nodes, file.base ≤ x.pos ∧
      ∃ excerpt : String,
        encodeUtf8 excerpt = bytesBetween text (x.pos - file.base) (x.stop - file.base) ∧
        ∀ target : File, target.size = byteLength (selecting excerpt).toList →
          ∃ s' target', parseText target (selecting excerpt) = .ok (.ok s', target') ∧
            s'.select.columns = ⟨⟨x.moved (rebase x.pos (target.base + 7)), none⟩, []⟩ := by
  intro x hx
  obtain ⟨before, excerpt, after, ws, htext, hpos, hstop, hspells, hcut⟩ := exists_excerpt h hx
  obtain ⟨_, _, -, -, hread⟩ := readFrom_of_parseText h
  obtain ⟨e, he, hnode⟩ := List.mem_flatMap.1 hx
  have hcanonical : x.Canonical := (hread.canonical e he).of_mem_nodes hnode
  have hnesting : x.nesting < Grammar.maxNesting :=
    (Expr.nesting_le_of_mem_nodes hnode).trans_lt (Statement.nesting_le_iff.1 hread.nesting_le e he)
  obtain ⟨m, hlexes⟩ := hcut (.keyword .SELECT) " from t".toList rfl (delimited_cons (by decide) _)
  exact ⟨hpos ▸ Nat.le_add_right .., String.ofList excerpt,
    (bytesBetween_positions htext hpos hstop).symm,
    fun target hsize => parseText_selecting hcanonical hnesting hlexes hspells hsize⟩

/-- An expression with an operator and its operand, each of which is an excerpt. -/
theorem parseText_excerpt_negated_number :
    ∃ s file', parseText ⟨0, "q.sql", 1, 18, []⟩ "SELECT - 1 FROM t;" = .ok (.ok s, file') ∧
      s.exprs.map Expr.shape = [.unary 0 .neg (.literal 0 .integer "1")] ∧
      ∀ x ∈ s.exprs.flatMap Expr.nodes, 1 ≤ x.pos ∧
        ∃ excerpt : String, encodeUtf8 excerpt =
            bytesBetween "SELECT - 1 FROM t;" (x.pos - 1) (x.stop - 1) ∧
          ∀ target : File, target.size = byteLength (selecting excerpt).toList →
            ∃ s' target', parseText target (selecting excerpt) = .ok (.ok s', target') ∧
              s'.select.columns = ⟨⟨x.moved (rebase x.pos (target.base + 7)), none⟩, []⟩ := by
  obtain ⟨s, file', hfile, hshape⟩ := parseText_negated_number
  refine ⟨s, file', hfile, ?_, parseText_excerpt hfile⟩
  rw [← s.exprs_shape, hshape]
  rfl

end SqlFormatter

import SqlFormatter.Proofs.Expr.Recursion
import SqlFormatter.Proofs.Layout.RoundTrip

/-!
# SqlFormatter.Proofs.Grammar.Height

How high the trees are that parsers return.

* A chain of operators of one precedence groups from the left, and no level is entered for its
  operands. So a text can make a tree as high as it likes (`exists_path_parseText_sumText`).
* That is the only way. A path through a canonical tree enters a level, comes to an operand that
  binds tighter, or takes a link of such a chain (`Expr.reach_lt`). Without the links it has at most
  `Expr.reach` nodes (`Expr.Path.length_le`).
* Trees of that height exist at every nesting (`exists_path_tower`).
* `parseText_height` is the main result: the limit on nesting bounds the recursion of everything
  that walks down the tree, but for the links of chains.
-/

namespace SqlFormatter

open Grammar

namespace Expr

variable {e c x y : Expr} {path : List Expr} {p n : Nat} {op : BinaryOp}

/-! ### Links of chains -/

/-- Whether the step from the expression to its child `c` is a link of a chain: one from an operator
to another one of the same precedence. -/
def hasLink (e c : Expr) : Bool :=
  e.binaryOp?.any fun op => c.binaryOp?.any fun o => o.precedence == op.precedence

/-- The number of links on the path. -/
def links : List Expr → Nat
  | e :: c :: below => (if e.hasLink c then 1 else 0) + links (c :: below)
  | _ => 0

theorem Path.links_cons {next : Expr → List Expr} (h : Path next c path) (e : Expr) :
    links (e :: path) = (if e.hasLink c then 1 else 0) + links path := by
  obtain ⟨below, rfl⟩ := h.exists_cons
  rfl

theorem hasLink_binary_iff : (binary x p op y).hasLink c ↔ c.level = tierOf op := by
  have htier : ∀ o : BinaryOp, o.precedence = op.precedence ↔ tierOf o = tierOf op := by
    intro o
    cases o <;> cases op <;> decide
  show (c.binaryOp?.any fun o => o.precedence == op.precedence) = true ↔ _
  unfold level
  cases c.binaryOp? with
  | none => simp [Nat.ne_of_lt (tierOf_pos op)]
  | some o => simp [htier]

/-! ### Levels and tiers on a path -/

/-- The most nodes on a path from the root that enters no level and takes no link: one for each tier
from that of the root on, a test for null and an operand. -/
def rank (e : Expr) : Nat := e.level + if e.isOperand then 1 else 2

theorem rank_pos (e : Expr) : 0 < e.rank := by
  unfold rank
  split <;> omega

theorem rank_le (e : Expr) : e.rank ≤ 7 := by
  have hlevel : e.level ≤ 5 := e.level_le_tierCount
  unfold rank
  split <;> omega

theorem rank_le_level (e : Expr) : e.rank ≤ e.level + 2 := by
  unfold rank
  split <;> omega

theorem rank_of_isOperand (h : e.isOperand) : e.rank = 1 := by
  rw [rank, level_eq_zero_of_isOperand h, if_pos h]

/-- The most nodes on a path from the root that takes no link. -/
def reach (e : Expr) : Nat := 7 * e.nesting + e.rank

theorem reach_pos (e : Expr) : 0 < e.reach := Nat.lt_of_lt_of_le e.rank_pos (Nat.le_add_left ..)

theorem reach_le (h : e.nesting < n) : e.reach ≤ 7 * n := by
  have hrank := e.rank_le
  unfold reach
  omega

/-- Below a root that can stand as an operand every step enters a level. -/
theorem nesting_lt_of_isOperand (h : e.isOperand) (hc : c ∈ e.children) :
    c.nesting < e.nesting := by
  have hle := Nat.le_refl e.nesting
  cases e with
  | column | literal | wildcard => cases hc
  | binary | isNull => cases h
  | unary p op x =>
    obtain rfl := List.mem_singleton.1 hc
    exact nesting_unary_le_iff.1 hle
  | call f l args r => exact nesting_call_le_iff.1 hle c hc
  | case p key first others last q =>
    have hall : ∀ c ∈ (Expr.case p key first others last q).children,
        c.nesting < (Expr.case p key first others last q).nesting :=
      forall_children_case.2 (nesting_case_le_iff.1 hle)
    exact hall c hc
  | paren l x r =>
    obtain rfl := List.mem_singleton.1 hc
    exact nesting_paren_le_iff.1 hle

/-- On a step down that is no link fewer nodes are left, and on a link no more. -/
theorem reach_lt (h : e.Canonical) (hc : c ∈ e.children) :
    c.reach < e.reach + if e.hasLink c then 1 else 0 := by
  by_cases hoperand : e.isOperand
  · have hle := reach_le (nesting_lt_of_isOperand hoperand hc)
    have hroot : 7 * e.nesting < e.reach := Nat.lt_add_of_pos_right e.rank_pos
    omega
  · have hnesting := nesting_le_of_mem_children hc
    unfold reach
    cases e with
    | binary x p op y =>
      obtain ⟨hx, hy⟩ := rootCanonical_binary_iff.1 (canonical_binary.1 h).1
      have hrank := c.rank_le_level
      have hroot : (binary x p op y).rank = tierOf op + 2 := rfl
      rcases List.mem_cons.1 hc with rfl | hc
      · -- The left operand may be of the same tier, which makes it a link.
        rcases Nat.lt_or_eq_of_le hx with hlt | heq
        · omega
        · rw [if_pos (hasLink_binary_iff.2 heq)]
          omega
      · obtain rfl := List.mem_singleton.1 hc
        omega
    | isNull x p q =>
      obtain rfl := List.mem_singleton.1 hc
      have hrank := rank_of_isOperand (canonical_isNull.1 h).1
      have hroot : (isNull c p q).rank = 2 := rfl
      omega
    | _ => exact absurd rfl hoperand

/-- But for its links, no path is longer than the root allows. -/
theorem Path.length_le (h : e.Canonical) (hpath : Path children e path) :
    path.length ≤ e.reach + links path := by
  induction hpath with
  | root e => exact Nat.le_add_right_of_le e.reach_pos
  | @down e c path hc hpath ih =>
    have hbelow := ih ((canonical_iff.1 h).2 c hc)
    have hstep := reach_lt h hc
    rw [hpath.links_cons, List.length_cons]
    omega

/-- The way to the last token goes to right operands, which are no links. -/
theorem links_of_stop (h : e.Canonical) (hpath : Path Recursion.stop.calls e path) :
    links path = 0 := by
  induction hpath with
  | root e => rfl
  | @down e c path hc hpath ih =>
    have hchild := Recursion.stop.calls_subset e hc
    have hlink : e.hasLink c = false := by
      cases e with
      | binary x p op y =>
        obtain rfl := List.mem_singleton.1 hc
        obtain ⟨-, hlt⟩ := rootCanonical_binary_iff.1 (canonical_binary.1 h).1
        exact Bool.eq_false_iff.2 fun hlink => Nat.ne_of_lt hlt (hasLink_binary_iff.1 hlink)
      | _ => rfl
    rw [hpath.links_cons, hlink, ih ((canonical_iff.1 h).2 c hchild)]
    rfl

/-! ### Paths up to positions -/

theorem binaryOp?_shape (e : Expr) : e.shape.binaryOp? = e.binaryOp? := by
  rw [shape, rebuild_eq, ← binaryOp?_mapChildren (rebuild unplaced) e]
  cases e.mapChildren (rebuild unplaced) <;> rfl

theorem children_shape (e : Expr) : e.shape.children = e.children.map shape := by
  have hunplaced : ∀ e : Expr, e.unplaced.children = e.children := by
    intro e
    cases e with
    | case p key first others otherwise q =>
      have hparts : Arm.parts = fun a => [a.cond, a.result] := rfl
      cases otherwise <;> simp [unplaced, children, hparts, List.flatMap_map]
    | _ => rfl
  rw [shape, rebuild_eq, hunplaced, children_mapChildren]
  rfl

/-- The paths through the shape of a tree are the shapes of its paths. -/
theorem path_shape_iff : Path children e.shape path ↔
    ∃ placed, Path children e placed ∧ placed.map shape = path := by
  constructor
  · intro h
    generalize hshape : e.shape = root at h
    induction h generalizing e with
    | root root => exact ⟨[e], .root e, by rw [← hshape]; rfl⟩
    | down hc _ ih =>
      rw [← hshape, children_shape] at hc
      obtain ⟨c, hc, hcshape⟩ := List.mem_map.1 hc
      obtain ⟨placed, hplaced, rfl⟩ := ih hcshape
      exact ⟨e :: placed, .down hc hplaced, by rw [List.map_cons, hshape]⟩
  · rintro ⟨placed, h, rfl⟩
    induction h with
    | root e => exact .root e.shape
    | @down e c placed hc _ ih =>
      refine .down ?_ ih
      rw [children_shape]
      exact List.mem_map_of_mem hc

theorem links_map_shape (path : List Expr) : links (path.map shape) = links path := by
  fun_induction links path with
  | case1 e c below ih =>
    have hlink : e.shape.hasLink c.shape = e.hasLink c := by
      rw [hasLink, hasLink, binaryOp?_shape, binaryOp?_shape]
    rw [← ih, List.map_cons, List.map_cons, links, hlink]
  | case2 path hshort =>
    rcases path with - | ⟨e, - | ⟨c, below⟩⟩
    · rfl
    · rfl
    · exact absurd rfl (hshort e c below)

end Expr

/-! ### Recursions over canonical trees -/

namespace Recursion

variable {α : Type} {e : Expr} {n k : Nat}

/-- With no more than `k` links on a path, that many levels of calls more are enough. -/
theorem within_of_links (r : Recursion α) (h : e.Canonical) (hnesting : e.nesting < n)
    (hlinks : ∀ path, Expr.Path r.calls e path → Expr.links path ≤ k) : r.Within (7 * n + k) e := by
  refine r.within fun path hpath => ?_
  have hlength := Expr.Path.length_le h (hpath.mono r.calls_subset)
  have hreach := Expr.reach_le hnesting
  have hk := hlinks path hpath
  omega

end Recursion

/-- The limit on nesting bounds the height of the trees that are returned, where the operators of a
chain count once: a path has at most seven nodes for each level, besides the links of chains on it.
So that many levels of calls are enough to find the end of an expression, however long the text is,
and as many more as there are links on a path to find its start, to write it, and to compare it. -/
theorem parseText_height {file file' : File} {text : String} {expired : Bool} {s : Statement}
    (h : parseText file text expired = .ok (.ok s, file')) {e : Expr} (he : e ∈ s.exprs) :
    (∀ path, Expr.Path Expr.children e path →
      path.length ≤ 7 * maxNesting + Expr.links path) ∧
    Recursion.stop.Within (7 * maxNesting) e ∧
    ∀ k, (∀ path, Expr.Path Expr.children e path → Expr.links path ≤ k) →
      Recursion.pos.Within (7 * maxNesting + k) e ∧
      (∀ style, (Recursion.text style).Within (7 * maxNesting + k) e) ∧
      Recursion.same.Within (7 * maxNesting + k) e := by
  obtain ⟨hcanonical, hnesting⟩ := canonical_of_parseText h
  have hcanonical : e.Canonical := hcanonical e he
  have hnesting : e.nesting < maxNesting := Statement.nesting_le_iff.1 hnesting e he
  refine ⟨fun path hpath => ?_, ?_, fun k hk => ?_⟩
  · have hlength := Expr.Path.length_le hcanonical hpath
    have hreach := Expr.reach_le hnesting
    omega
  · refine Recursion.stop.within_of_links (k := 0) hcanonical hnesting fun path hpath => ?_
    exact Nat.le_of_eq (Expr.links_of_stop hcanonical hpath)
  · have hall : ∀ {α : Type} (r : Recursion α), r.Within (7 * maxNesting + k) e := fun r =>
      r.within_of_links hcanonical hnesting fun path hpath => hk path (hpath.mono r.calls_subset)
    exact ⟨hall _, fun style => hall _, hall _⟩

/-- The negated number is a tree without links. -/
theorem parseText_height_negated_number :
    ∃ s file', parseText ⟨0, "q.sql", 1, 18, []⟩ "SELECT - 1 FROM t;" = .ok (.ok s, file') ∧
      ∃ e ∈ s.exprs, (∀ path, Expr.Path Expr.children e path → path.length ≤ 448) ∧
        Recursion.stop.Within 448 e ∧ Recursion.pos.Within 448 e ∧
        (∀ style, (Recursion.text style).Within 448 e) ∧ Recursion.same.Within 448 e := by
  obtain ⟨s, file', hfile, hshape⟩ := parseText_negated_number
  have hexprs : s.exprs.map Expr.shape = [.unary 0 .neg (.literal 0 .integer "1")] := by
    rw [← s.exprs_shape, hshape]
    rfl
  obtain ⟨e, he, hshape⟩ : ∃ e ∈ s.exprs, e.shape = .unary 0 .neg (.literal 0 .integer "1") :=
    List.mem_map.1 (hexprs ▸ List.mem_singleton_self _)
  have hlinks : ∀ path, Expr.Path Expr.children e path → Expr.links path = 0 := by
    intro path hpath
    have hshaped := Expr.path_shape_iff.2 ⟨path, hpath, rfl⟩
    rw [hshape] at hshaped
    rw [← Expr.links_map_shape]
    generalize path.map Expr.shape = shaped at hshaped
    -- Below the minus there is the number, and nothing below that.
    cases hshaped with
    | root => rfl
    | down hc hbelow =>
      obtain rfl := List.mem_singleton.1 hc
      cases hbelow with
      | root => rfl
      | down hc => cases hc
  obtain ⟨hpaths, hstop, hothers⟩ := parseText_height hfile he
  refine ⟨s, file', hfile, e, he, fun path hpath => ?_, hstop,
    hothers 0 fun path hpath => Nat.le_of_eq (hlinks path hpath)⟩
  have hlength := hpaths path hpath
  rwa [hlinks path hpath] at hlength

/-! ### Towers -/

/-- A test for null below one operator of each tier. -/
def tiersOn (x : Expr) : Expr :=
  [BinaryOp.mul, .add, .eq, .and, .or].foldl
    (fun x op => .binary x nowhere op (.column none ⟨nowhere, "a"⟩)) (.isNull x nowhere nowhere)

/-- All tiers on each of `n` levels, and below them. -/
def tower : Nat → Expr
  | 0 => tiersOn (.column none ⟨nowhere, "a"⟩)
  | n + 1 => tiersOn (.paren nowhere (tower n) nowhere)

theorem canonical_tiersOn {x : Expr} (h : x.Canonical) (hx : x.isOperand) :
    (tiersOn x).Canonical := by
  have hcolumn : (Expr.column none ⟨nowhere, "a"⟩).Canonical := by decide
  simp [tiersOn, Expr.canonical_binary, Expr.canonical_isNull, Expr.RootCanonical,
    Expr.binaryOp?, BinaryOp.precedence, h, hx, hcolumn]

theorem nesting_tiersOn (x : Expr) : (tiersOn x).nesting = x.nesting := by
  simp [tiersOn, Expr.nesting]

/-- No step from an operator of a tier to one of the next is a link. -/
theorem exists_path_tiersOn {x : Expr} {path : List Expr}
    (h : Expr.Path Expr.children x path) : ∃ longer, Expr.Path Expr.children (tiersOn x) longer ∧
      Expr.links longer = Expr.links path ∧ longer.length = path.length + 6 := by
  have hleft : ∀ {x y : Expr} {op : BinaryOp} {path : List Expr},
      Expr.Path Expr.children x path →
        Expr.Path Expr.children (.binary x nowhere op y) (.binary x nowhere op y :: path) :=
    fun h => .down List.mem_cons_self h
  have hnull : Expr.Path Expr.children (.isNull x nowhere nowhere)
      (.isNull x nowhere nowhere :: path) := .down (List.mem_singleton_self _) h
  obtain ⟨below, rfl⟩ := h.exists_cons
  refine ⟨_, hleft (hleft (hleft (hleft (hleft hnull)))), ?_, rfl⟩
  simp [Expr.links, Expr.hasLink, Expr.binaryOp?, BinaryOp.precedence]

/-- At every nesting there is a canonical tree with a path that is as long as it may be. -/
theorem exists_path_tower (n : Nat) : (tower n).Canonical ∧ (tower n).nesting = n ∧
    ∃ path, Expr.Path Expr.children (tower n) path ∧ Expr.links path = 0 ∧
      path.length = 7 * (n + 1) := by
  induction n with
  | zero =>
    exact ⟨canonical_tiersOn (by decide) rfl, nesting_tiersOn _,
      exists_path_tiersOn (.root (.column none ⟨nowhere, "a"⟩))⟩
  | succ n ih =>
    obtain ⟨hcanonical, hnesting, path, hpath, hlinks, hlength⟩ := ih
    have hparen : Expr.Path Expr.children (.paren nowhere (tower n) nowhere)
        (.paren nowhere (tower n) nowhere :: path) := .down (List.mem_singleton_self _) hpath
    obtain ⟨longer, hlonger, hlonglinks, hlonglength⟩ := exists_path_tiersOn hparen
    refine ⟨canonical_tiersOn (Expr.canonical_paren.2 hcanonical) rfl, ?_, longer, hlonger, ?_, ?_⟩
    · rw [tower, nesting_tiersOn, Expr.nesting, hnesting]
    · rw [hlonglinks, hpath.links_cons, hlinks]
      rfl
    · rw [hlonglength, List.length_cons, hlength]
      omega

/-! ### Sums -/

/-- The sum of `n` columns and one more, from the left. -/
def sumTree : Nat → Expr
  | 0 => .column none ⟨nowhere, "a"⟩
  | n + 1 => .binary (sumTree n) nowhere .add (.column none ⟨nowhere, "a"⟩)

/-- The statement that selects the sum. -/
def sumStatement (n : Nat) : Statement :=
  ⟨⟨nowhere, ⟨⟨sumTree n, none⟩, []⟩⟩, ⟨nowhere, ⟨⟨⟨nowhere, "t"⟩, none⟩, []⟩⟩, none, none, none,
    []⟩

/-- A text of the statement. -/
def sumText (n : Nat) : String :=
  String.ofList ("SELECT ".toList ++ (List.replicate n "a + ".toList).flatten ++ "a FROM t".toList)

theorem exists_path_sumTree (n : Nat) :
    ∃ path, Expr.Path Expr.children (sumTree n) path ∧ path.length = n + 1 := by
  induction n with
  | zero => exact ⟨[sumTree 0], .root _, rfl⟩
  | succ n ih =>
    obtain ⟨path, hpath, hlength⟩ := ih
    exact ⟨sumTree (n + 1) :: path, .down List.mem_cons_self hpath, congrArg (· + 1) hlength⟩

/-- The start of a sum is that of its first column, which is as many levels of calls down. -/
theorem not_within_of_sumTree {e : Expr} {m n : Nat} (h : e.shape = sumTree n) (hm : m ≤ n) :
    ¬Recursion.pos.Within m e := by
  induction m generalizing e n with
  | zero =>
    intro hwithin
    have hnext : e.pos + 1 = e.pos := hwithin fun _ => e.pos + 1
    omega
  | succ m ih =>
    obtain ⟨n, rfl⟩ : ∃ k, n = k + 1 := ⟨n - 1, by omega⟩
    intro hwithin
    cases e with
    | binary x p op y =>
      rw [Expr.shape_binary, sumTree, Expr.binary.injEq] at h
      refine ih h.1 (Nat.le_of_succ_le_succ hm) fun below => ?_
      have hstep := hwithin below
      rw [Function.iterate_succ_apply'] at hstep
      exact hstep
    | call f l args r =>
      rw [Expr.shape_call] at h
      cases h
    | case p key first others otherwise q =>
      rw [Expr.shape_case] at h
      cases h
    | _ => cases h

theorem shape_sumTree (n : Nat) : (sumTree n).shape = sumTree n := by
  induction n with
  | zero => rfl
  | succ n ih =>
    rw [sumTree, Expr.shape_binary, ih]
    rfl

theorem canonical_sumTree (n : Nat) : (sumTree n).Canonical := by
  induction n with
  | zero => decide
  | succ n ih =>
    refine Expr.canonical_binary.2 ⟨Expr.rootCanonical_binary_iff.2 ⟨?_, by decide⟩, ih, by decide⟩
    cases n with
    | zero => decide
    | succ n => exact Nat.le_refl _

theorem nesting_sumTree (n : Nat) : (sumTree n).nesting = 0 := by
  induction n with
  | zero => rfl
  | succ n ih =>
    rw [sumTree, Expr.nesting, ih]
    rfl

theorem yield_sumTree (n : Nat) : (sumTree n).yield =
    (List.replicate n [Word.mk .ident "a", .fixed .plus]).flatten ++ [⟨.ident, "a"⟩] := by
  induction n with
  | zero => rfl
  | succ n ih =>
    have hsucc : (sumTree (n + 1)).yield = (sumTree n).yield ++ [.fixed .plus, ⟨.ident, "a"⟩] := by
      rw [Expr.yield, sumTree, Expr.leaves, List.map_append]
      rfl
    rw [hsucc, ih, List.replicate_succ', List.flatten_append]
    simp

theorem yield_sumStatement (n : Nat) : (sumStatement n).yield =
    .fixed (.keyword .SELECT) ::
      ((sumTree n).yield ++ [.fixed (.keyword .FROM), ⟨.ident, "t"⟩]) := by
  simp [sumStatement, Statement.yield, Statement.leaves, SelectClause.leaves, FromClause.leaves,
    Leaf.list, NonemptyList.toList, Column.leaves, Table.leaves, Expr.yield, Leaf.fixed,
    Leaf.ofName]

theorem toList_sumText (n : Nat) : (sumText n).toList =
    "SELECT ".toList ++ (List.replicate n "a + ".toList).flatten ++ "a FROM t".toList :=
  String.toList_ofList

theorem byteLength_sumText (n : Nat) : byteLength (sumText n).toList = 4 * n + 15 := by
  have hterm : byteLength "a + ".toList = 4 := by decide +kernel
  have hselect : byteLength "SELECT ".toList = 7 := by decide +kernel
  have hfrom : byteLength "a FROM t".toList = 8 := by decide +kernel
  have hterms : byteLength (List.replicate n "a + ".toList).flatten = 4 * n := by
    induction n with
    | zero => rfl
    | succ n ih =>
      rw [List.replicate_succ, List.flatten_cons, byteLength_append, ih, hterm]
      omega
  rw [toList_sumText, byteLength_append, byteLength_append, hterms, hselect, hfrom]
  omega

/-- Behind SELECT the text goes on with the words of the sum and of the table. -/
theorem scans_sumTree (n : Nat) (k : Kind) : ∃ k',
    Scans k ((List.replicate n "a + ".toList).flatten ++ "a FROM t".toList)
      ((sumTree n).yield ++ [.fixed (.keyword .FROM), ⟨.ident, "t"⟩]) k' [] := by
  have hname : ∀ (k : Kind) (rest : List Char),
      Lexeme.read false k 'a' (' ' :: rest) = ⟨['a'], ' ' :: rest, .ok .ident⟩ :=
    fun _ _ => rfl
  rw [yield_sumTree]
  induction n generalizing k with
  | zero =>
    have hfrom : Lexeme.read false .ident 'F' "ROM t".toList =
        ⟨"FROM".toList, " t".toList, .ok (.keyword .FROM)⟩ := rfl
    have htable : Lexeme.read false (.keyword .FROM) 't' [] = ⟨['t'], [], .ok .ident⟩ := rfl
    exact ⟨_, .token rfl (hname k _) nofun (.gap rfl (.token rfl hfrom nofun (.gap rfl
      (.token rfl htable nofun (.done _ _)))))⟩
  | succ n ih =>
    have hplus : ∀ rest : List Char,
        Lexeme.read false .ident '+' (' ' :: rest) = ⟨['+'], ' ' :: rest, .ok .plus⟩ :=
      fun _ => rfl
    obtain ⟨k', hscans⟩ := ih .plus
    exact ⟨k', .token rfl (hname k _) nofun (.gap rfl (.token rfl (hplus _) nofun
      (.gap rfl hscans)))⟩

theorem scans_sumText (n : Nat) :
    ∃ k, Scans .endOfInput (sumText n).toList (sumStatement n).yield k [] := by
  have hselect : ∀ rest : List Char, Lexeme.read false .endOfInput 'S' ("ELECT ".toList ++ rest) =
      ⟨"SELECT".toList, ' ' :: rest, .ok (.keyword .SELECT)⟩ := fun _ => rfl
  obtain ⟨k, hsum⟩ := scans_sumTree n (.keyword .SELECT)
  rw [toList_sumText, List.append_assoc, yield_sumStatement]
  exact ⟨k, .token rfl (hselect _) nofun (.gap rfl hsum)⟩

/-- The text is read as the statement, however long it is. -/
theorem exists_parseText_sumText (n : Nat) : ∃ s file',
    parseText ⟨0, "q.sql", 1, 4 * n + 15, []⟩ (sumText n) = .ok (.ok s, file') ∧
      s.shape = (sumStatement n).shape := by
  let file : File := ⟨0, "q.sql", 1, 4 * n + 15, []⟩
  have hcanonical : (sumStatement n).Canonical := by
    show ∀ e ∈ [sumTree n], e.Canonical
    rw [List.forall_mem_singleton]
    exact canonical_sumTree n
  have hnesting : (sumStatement n).nesting ≤ maxNesting := by
    rw [Statement.nesting_le_iff]
    show ∀ e ∈ [sumTree n], e.nesting < maxNesting
    rw [List.forall_mem_singleton, nesting_sumTree]
    decide
  obtain ⟨k, hscans⟩ := scans_sumText n
  have hscanner : Scanner.ofText file (sumText n) = .ok { file, rest := (sumText n).toList } :=
    ofText_of_scans (byteLength_sumText n).symm hscans nofun
  obtain ⟨tokens, htokens, hwords, -⟩ :=
    Scanner.words_of_scans (s := { file, rest := (sumText n).toList }) hscans rfl
  have hproper : (sumStatement n).yield.filter (·.kind != .comment) = (sumStatement n).yield := by
    refine List.filter_eq_self.2 fun w hw => ?_
    simp [(Statement.kind_of_mem_yield hw).1]
  obtain ⟨result, file', hresult, hfits, -⟩ :=
    parseText_of_words hcanonical hscanner htokens (Or.inl (hwords.trans hproper))
  obtain ⟨s, rfl, hshape, -⟩ := hfits hnesting
  exact ⟨s, file', hresult, hshape⟩

/-- A tree may be as high as it likes without a level of nesting: in the sum there is a path through
all operators, and so many levels of calls are not enough to find where it starts. -/
theorem exists_path_parseText_sumText (n : Nat) : ∃ s file',
    parseText ⟨0, "q.sql", 1, 4 * n + 15, []⟩ (sumText n) = .ok (.ok s, file') ∧
      ∃ e ∈ s.exprs, (∃ path, Expr.Path Expr.children e path ∧ path.length = n + 1) ∧
        ¬Recursion.pos.Within n e := by
  obtain ⟨s, file', hfile, hshape⟩ := exists_parseText_sumText n
  have hshapes : s.exprs.map Expr.shape = [sumTree n] := by
    rw [← s.exprs_shape, hshape, (sumStatement n).exprs_shape, ← shape_sumTree n]
    rfl
  obtain ⟨e, he, heshape⟩ : ∃ e ∈ s.exprs, e.shape = sumTree n :=
    List.mem_map.1 (hshapes ▸ List.mem_singleton_self _)
  obtain ⟨path, hpath, hlength⟩ := exists_path_sumTree n
  rw [← heshape] at hpath
  obtain ⟨placed, hplaced, rfl⟩ := Expr.path_shape_iff.1 hpath
  rw [List.length_map] at hlength
  exact ⟨s, file', hfile, e, he, ⟨placed, hplaced, hlength⟩,
    not_within_of_sumTree heshape (Nat.le_refl n)⟩

/-- The sum of 513 columns is higher than eight times the limit on nesting, and so many levels of
calls do not find its start. -/
theorem parseText_sum_of_513_columns :
    ∃ s file', parseText ⟨0, "q.sql", 1, 2063, []⟩ (sumText 512) = .ok (.ok s, file') ∧
      ∃ e ∈ s.exprs,
        (∃ path, Expr.Path Expr.children e path ∧ 8 * maxNesting < path.length) ∧
        ¬Recursion.pos.Within (8 * maxNesting) e := by
  obtain ⟨s, file', hfile, e, he, ⟨path, hpath, hlength⟩, hpos⟩ := exists_path_parseText_sumText 512
  refine ⟨s, file', hfile, e, he, ⟨path, hpath, ?_⟩, hpos⟩
  rw [hlength]
  decide

end SqlFormatter

import SqlFormatter.Proofs.Checked.Feed
import SqlFormatter.Proofs.Checked.Statement
import SqlFormatter.Proofs.Grammar.Rebased

/-!
# SqlFormatter.Proofs.Checked.Parser

All that can be done with a text, with checks (`Checked.run`): a parser is made for it and called
any number of times, with time running out wherever it may. After each call the positions and the
ranges that it returned are looked up in the file, and so is every position of the file.

* A parser is sane if its scanner is, and the comments that wait lie in the file. A call of a sane
  parser comes to no panic: it is `Parser.parseBy` (`Checked.parse_eq`). It returns what lies in the
  file and leaves a sane parser (`Parser.Sane.parseBy`).
* `Checked.run_eq_ok` is the main result: no run comes to a panic.
-/

namespace SqlFormatter

/-! ### What lies in a file -/

section Inside

variable {file : File} {source : List Char}

/-- What reaches from the first to the last of ranges in the file is in the file. -/
theorem Range.Frames.has {r : Range} {rs : List Range} (h : r.Frames rs)
    (hrs : ∀ x ∈ rs, file.Has x) : file.Has r := by
  obtain ⟨first, hfirst, hpos⟩ := Option.map_eq_some_iff.1 h.1
  obtain ⟨last, hlast, hstop⟩ := Option.map_eq_some_iff.1 h.2
  exact ⟨hpos ▸ (hrs first (List.mem_of_mem_head? hfirst)).1,
    hstop ▸ (hrs last (List.mem_of_getLast? hlast)).2⟩

/-- The comments of the groups lie in the file. -/
def CommentGroup.Inside (file : File) (groups : List CommentGroup) : Prop :=
  ∀ g ∈ groups, ∀ c ∈ g.toList, file.Has c.range

/-- What a call returns lies in the file: the positions, and the ranges of the parts. -/
structure Returns (file : File) (result : Except ParseError Statement) : Prop where
  owns : ∀ p ∈ outcomePlaces result, file.Owns p
  has : ∀ s, result = .ok s → ∀ x ∈ s.outline, x.2 = .absent ∨ file.Has x.2

theorem Piece.Sane.group? {p : Piece} (h : p.Sane file source) :
    CommentGroup.Inside file p.group?.toList := by
  intro g hg c hc
  have hmem : c ∈ p.group?.toList.flatMap CommentGroup.toList := List.mem_flatMap.2 ⟨g, hg, hc⟩
  rw [p.toList_group?] at hmem
  exact h.comments c hmem

theorem Piece.Sane.groups {ps : List Piece} (h : ∀ p ∈ ps, p.Sane file source) :
    CommentGroup.Inside file (ps.filterMap Piece.group?) := by
  intro g hg
  obtain ⟨p, hp, hgroup⟩ := List.mem_filterMap.1 hg
  exact (h p hp).group? g (by rw [hgroup]; exact List.mem_singleton_self g)

namespace Feed.Sane

variable {f : Feed}

theorem tokens (h : f.Sane file source) : ∀ t ∈ f.tokens, file.Has t.range ∧ t.Fits :=
  List.forall_mem_map.2 fun p hp => (h.pieces p hp).token

theorem groups (h : f.Sane file source) : CommentGroup.Inside file f.groups := by
  intro g hg
  rcases List.mem_append.1 hg with hg | hg
  · exact Piece.Sane.groups h.pieces g hg
  · cases hclosing : f.closing with
    | error e =>
      rw [hclosing] at hg
      cases hg
    | ok p =>
      rw [hclosing] at hg
      exact (h.closing p hclosing).group? g hg

/-- The statement that the tokens of a feed make up lies in the file, with comments that do. -/
theorem returns_statement (h : f.Sane file source) {s : Statement}
    (hs : Grammar.sentence f.tokens = .ok s) {groups : List CommentGroup}
    (hgroups : CommentGroup.Inside file groups) :
    Returns file (.ok { s with comments := groups }) := by
  obtain ⟨-, -, -, rest, ⟨read, hread, hspells⟩, -⟩ := Grammar.sentenceOf_sound hs
  have htokens : ∀ t ∈ read, file.Has t.range ∧ t.Fits := fun t ht =>
    h.tokens t (hread ▸ List.mem_append_left _ ht)
  constructor
  · refine List.forall_mem_append.2 ⟨fun p hp => ?_, List.forall_mem_map.2 fun c hc => ?_⟩
    · obtain ⟨t, ht, rfl⟩ := List.mem_map.1 (hspells.places hp)
      exact (htokens t ht).1.1
    · obtain ⟨g, hg, hc⟩ := List.mem_flatMap.1 hc
      exact (hgroups g hg c hc).1
  · rintro _ ⟨⟩ x hx
    rcases Statement.range_of_mem_outline x hx with habsent | ⟨n, hn, hrange⟩ |
      ⟨g, hg, hrange | ⟨c, hc, hrange⟩⟩
    · exact Or.inl habsent
    · -- A node reaches from its first token to its last.
      obtain ⟨hstretch, hwhole, -⟩ := Statement.liesIn_of_mem_subtrees hn
      obtain ⟨us, hus, hnode⟩ := hspells.stretch hstretch
      have hframes : n.range.Frames (us.map Token.range) :=
        hnode.frames (fun t ht => (htokens t (hus.subset ht)).2) hwhole rfl
      rw [hrange]
      exact Or.inr (hframes.has (List.forall_mem_map.2 fun t ht => (htokens t (hus.subset ht)).1))
    · rw [hrange]
      exact Or.inr (g.frames_range.has (List.forall_mem_map.2 (hgroups g hg)))
    · rw [hrange]
      exact Or.inr (hgroups g hg c hc)

/-- A refusal of the tokens of a feed is about a place in the file. -/
theorem owns_refusal (h : f.Sane file source) {r : Refusal}
    (hr : Grammar.sentence f.tokens = .error r) :
    file.Owns (r.error (f.closing.map Piece.token)).pos := by
  obtain ⟨complaint, rest⟩ := r
  obtain ⟨read, hread, hplaces⟩ := (Grammar.sentenceOf_rejects hr).exists_places
  have hunsupported : ∀ construct p, complaint = .unsupported construct p → file.Owns p := by
    intro construct p hp
    obtain ⟨t, ht, rfl⟩ := List.mem_map.1 (hplaces construct p hp)
    have hmem : t ∈ f.tokens := by
      rw [hread]
      exact (List.append_subset.2 ⟨List.subset_append_left .., List.subset_append_of_subset_right _
        (List.take_subset 1 rest)⟩) ht
    exact (h.tokens t hmem).1.1
  have habout : ∀ t : Token, file.Owns t.pos → file.Owns (complaint.about t).pos := by
    intro t ht
    cases complaint with
    | unexpected expected => exact ht
    | unsupported construct p => exact hunsupported construct p rfl
  cases rest with
  | cons t later =>
    have hmem : t ∈ f.tokens := hread ▸ List.mem_append_right _ List.mem_cons_self
    exact habout t (h.tokens t hmem).1.1
  | nil =>
    cases hclosing : f.closing with
    | error e => exact h.error e hclosing
    | ok p => exact habout p.token (h.closing p hclosing).token.1.1

end Feed.Sane

/-! ### Sane parsers -/

/-- The scanner is sane, and the comments that wait lie in the file. -/
structure Parser.Sane (p : Parser) (file : File) (source : List Char) : Prop where
  scanner : p.scanner.Sane file source
  waiting : CommentGroup.Inside file p.waiting

namespace Parser

variable {p : Parser} {f : Feed}

theorem Sane.finish (h : p.Sane file source) (hf : f.Sane file source) :
    (p.finish f).Sane file source :=
  ⟨hf.last, List.forall_mem_append.2 ⟨h.waiting, hf.groups⟩⟩

theorem Sane.advance (h : p.Sane file source) {pieces : List Piece}
    (hpieces : ∀ q ∈ pieces, q.Sane file source) : (p.advance pieces).Sane file source := by
  refine ⟨?_, List.forall_mem_append.2 ⟨h.waiting, Piece.Sane.groups hpieces⟩⟩
  unfold Parser.advance
  cases hlast : pieces.getLast? with
  | none => exact h.scanner
  | some q => exact (hpieces q (List.mem_of_getLast? hlast)).after

theorem Sane.stopAt (h : p.Sane file source) (hf : f.Sane file source) (r : Refusal) :
    (p.stopAt f r).Sane file source := by
  unfold Parser.stopAt
  split
  · exact h.finish hf
  · exact h.advance fun q hq => hf.pieces q (List.mem_of_mem_take hq)

/-- Whatever the grammar has to say, the parser returns what lies in the file, and is sane. -/
theorem Sane.conclude (h : p.Sane file source) (hf : f.Sane file source) :
    Returns file (p.conclude f (Grammar.sentence f.tokens)).1 ∧
      (p.conclude f (Grammar.sentence f.tokens)).2.Sane file source := by
  have hfinish := h.finish hf
  unfold Parser.conclude
  cases hsentence : Grammar.sentence f.tokens with
  | error r =>
    exact ⟨⟨List.forall_mem_singleton.2 (hf.owns_refusal hsentence), fun _ => nofun⟩,
      h.stopAt hf r⟩
  | ok s =>
    dsimp only
    cases hclosing : f.closing with
    | error e =>
      exact ⟨⟨List.forall_mem_singleton.2 (hf.error e hclosing), fun _ => nofun⟩, hfinish⟩
    | ok q =>
      exact ⟨hf.returns_statement hsentence hfinish.waiting,
        hfinish.scanner, List.forall_mem_nil _⟩

/-- A call of a sane parser returns what lies in the file, and leaves a sane parser. -/
theorem Sane.parseBy (h : p.Sane file source) (hfile : file.Holds source) (clock : Clock) :
    Returns file (p.parseBy clock).1 ∧ (p.parseBy clock).2.Sane file source :=
  h.conclude (h.scanner.feedBy hfile (List.forall_mem_nil _))

end Parser

end Inside

/-! ### Calls with checks -/

namespace Checked

/-- As `Parser.parseBy`, with checks; besides what that gives there is the count of levels. -/
def parse (source : List Char) (clock : Clock) (p : Parser) (depth : Nat) :
    Except Panic ((Except ParseError Statement × Parser) × Nat) := do
  let feed ← feed source (source.length + 1) clock p.scanner []
  let (outcome, depth) ← (sentence feed.tokens).run.run depth
  return (p.conclude feed outcome, depth)

/-- Looks up a position. -/
def visit (f : File) (p : Nat) : Except Panic Unit := do
  let _ ← locate f p

/-- Looks up both ends of the range of a part, if the part is there. -/
def visitEnds (f : File) (r : Range) : Except Panic Unit :=
  if r = .absent then return ()
  else do
    let stop ← stop r
    visit f r.pos
    visit f stop

/-- Looks up every position of the file, and all that a call returned or reported. -/
def survey (p : Parser) (result : Except ParseError Statement) : Except Panic Unit := do
  let f := p.scanner.file
  (List.range (f.size + 1)).forM fun offset => do visit f (← pos f offset)
  (outcomePlaces result).forM (visit f)
  (p.scanner.reports.map Report.pos).forM (visit f)
  match result with
  | .error _ => return ()
  | .ok s => (s.outline.map Prod.snd).forM (visitEnds f)

/-- The calls of a parser, one for each clock, with a survey after each: what they return, and then
the parser and the count of levels. -/
def calls (source : List Char) : List Clock → Parser → Nat →
    Except Panic (List (Except ParseError Statement) × Parser × Nat)
  | [], p, depth => return ([], p, depth)
  | clock :: clocks, p, depth => do
    let ((result, p), depth) ← parse source clock p depth
    survey p result
    let (results, p, depth) ← calls source clocks p depth
    return (result :: results, p, depth)

/-- Makes a parser for the text, which looks at the first two characters, and calls it. -/
def run (file : File) (text : String) (expired : Bool) (clocks : List Clock) :
    Except Panic (List (Except ParseError Statement) × Parser × Nat) := do
  let p ← assert (Parser.ofText file text expired)
  let _ ← walk text.toList 0 2
  calls text.toList clocks p 0

section Run

variable {file : File} {source : List Char} {p : Parser}

theorem forM_eq_ok {α : Type} {f : α → Except Panic Unit} {xs : List α}
    (h : ∀ x ∈ xs, f x = .ok ()) : xs.forM f = .ok () := by
  induction xs with
  | nil => rfl
  | cons x xs ih =>
    obtain ⟨hx, hxs⟩ := List.forall_mem_cons.1 h
    change (f x >>= fun _ => xs.forM f) = _
    rw [hx, ok_bind, ih hxs]

/-- A call of a sane parser comes to no panic, and leaves all levels. -/
theorem parse_eq (h : p.Sane file source) (hfile : file.Holds source) (clock : Clock) :
    parse source clock p 0 = .ok (p.parseBy clock, 0) := by
  have hfuel : p.scanner.rest.length < source.length + 1 := by
    obtain ⟨passed, hstands⟩ := h.scanner.stands
    rw [← hstands.rest_eq, List.length_append]
    omega
  rw [parse, feed_eq h.scanner hfile hfuel, ok_bind,
    show (sentence _).run.run 0 = _ from sentence_gives _]
  rfl

/-- After a call of a sane parser all positions and ranges can be looked up. -/
theorem survey_eq (h : p.Sane file source) (hfile : file.Holds source)
    {result : Except ParseError Statement} (hresult : Returns file result) :
    survey p result = .ok () := by
  obtain ⟨passed, hstands⟩ := h.scanner.stands
  obtain ⟨known, -, -, -, hknows⟩ := hstands.knows
  obtain ⟨-, -, hbase, hsize⟩ := File.unread_eq_iff.1 hstands.unread_eq
  have hlast : p.scanner.file.last = file.last := by rw [File.last, hbase, hsize, File.last]
  have hvisit : ∀ n, file.Owns n → visit p.scanner.file n = .ok () := by
    intro n hn
    have howns : p.scanner.file.Owns n := by rwa [File.Owns, hbase, hlast]
    rw [visit, locate_eq hknows.pairwise_lines howns]
    rfl
  have hends : ∀ r : Range, r = .absent ∨ file.Has r → visitEnds p.scanner.file r = .ok () := by
    intro r hr
    unfold visitEnds
    split
    · rfl
    · next hpresent =>
      obtain ⟨hpos, hstop⟩ := hr.resolve_left hpresent
      have hle : r.stop ≤ maxPos := Nat.le_trans hstop.2 hfile.last_le
      rw [stop, if_pos hle, ok_bind, hvisit _ hpos, ok_bind, hvisit _ hstop]
  have hall : (List.range (p.scanner.file.size + 1)).forM (fun offset => do
      visit p.scanner.file (← pos p.scanner.file offset)) = .ok () := by
    refine forM_eq_ok fun offset hoffset => ?_
    have hle : offset ≤ p.scanner.file.size := Nat.le_of_lt_succ (List.mem_range.1 hoffset)
    rw [pos_eq hle (hlast ▸ hfile.last_le), ok_bind]
    refine hvisit _ ?_
    rw [hbase]
    exact ⟨Nat.le_add_right .., Nat.add_le_add_left (hsize ▸ hle) _⟩
  have hreports : ∀ n ∈ p.scanner.reports.map Report.pos, visit p.scanner.file n = .ok () :=
    List.forall_mem_map.2 fun r hr => hvisit _ (h.scanner.accounts.owns r hr)
  unfold survey
  dsimp only
  rw [hall, ok_bind, forM_eq_ok fun n hn => hvisit n (hresult.owns n hn), ok_bind,
    forM_eq_ok hreports, ok_bind]
  cases result with
  | error e => rfl
  | ok s => exact forM_eq_ok (List.forall_mem_map.2 fun x hx => hends _ (hresult.has s rfl x hx))

/-- The calls come to no panic. -/
theorem exists_calls_eq (h : p.Sane file source) (hfile : file.Holds source)
    (clocks : List Clock) :
    ∃ results p', calls source clocks p 0 = .ok (results, p', 0) ∧
      ((∀ clock ∈ clocks, clock = []) → p' = p.after clocks.length ∧
        results = (List.range clocks.length).map fun n => (p.after n).parse.1) := by
  induction clocks generalizing p with
  | nil => exact ⟨[], p, rfl, fun _ => ⟨rfl, rfl⟩⟩
  | cons clock clocks ih =>
    obtain ⟨hreturns, hsane⟩ := h.parseBy hfile clock
    obtain ⟨results, q, hcalls, hresults⟩ := ih hsane
    refine ⟨(p.parseBy clock).1 :: results, q, ?_, fun hclocks => ?_⟩
    · rw [calls, parse_eq h hfile clock, ok_bind]
      dsimp only
      rw [survey_eq hsane hfile hreturns, ok_bind, hcalls]
      rfl
    · obtain ⟨rfl, hlater⟩ := List.forall_mem_cons.1 hclocks
      obtain ⟨hq, hothers⟩ := hresults hlater
      rw [p.parseBy_nil] at hq hothers ⊢
      refine ⟨hq.trans (p.after_parse _), ?_⟩
      rw [List.length_cons, List.range_succ_eq_map, List.map_cons, List.map_map, hothers]
      refine congrArg (_ :: ·) (List.map_congr_left fun n _ => ?_)
      rw [p.after_parse n]
      rfl

end Run

/-- A parser can be made for a registered text, and is sane. -/
theorem exists_sane {r r' : Registry} {name : String} {base? : Option Nat} {text : String}
    {file : File} (h : r.register name base? (byteLength text.toList) = .ok (file, r'))
    (expired : Bool) :
    file.Holds text.toList ∧ ∃ scanner, Scanner.ofText file text expired = .ok scanner ∧
      Parser.ofText file text expired = .ok { scanner } ∧
      Parser.Sane { scanner } file text.toList := by
  obtain ⟨hbase, -, -, hroom⟩ := Registry.register_eq_ok h
  have hsize : file.size = byteLength text.toList := by rw [hbase]
  obtain ⟨scanner, hscanner⟩ := Scanner.exists_ofText expired hsize
  refine ⟨⟨hsize, by unfold File.last; omega⟩, scanner, hscanner, ?_,
    Scanner.sane_ofText hscanner (by rw [hbase]), List.forall_mem_nil _⟩
  rw [Parser.ofText, hscanner]
  rfl

/-- Nothing that is done with a registered text comes to a panic, wherever the file was placed,
whether time is over from the start, and whenever it runs out later: not making the parser, no call
of it, and nothing that is asked of the file after that. All levels are left in the end. While there
is time, the calls return what those of the parser without checks do. -/
theorem run_eq_ok {r r' : Registry} {name : String} {base? : Option Nat} {text : String}
    {file : File} (h : r.register name base? (byteLength text.toList) = .ok (file, r'))
    (expired : Bool) (clocks : List Clock) :
    ∃ p results p', Parser.ofText file text expired = .ok p ∧
      run file text expired clocks = .ok (results, p', 0) ∧
      ((∀ clock ∈ clocks, clock = []) → p' = p.after clocks.length ∧
        results = (List.range clocks.length).map fun n => (p.after n).parse.1) := by
  obtain ⟨hfile, scanner, -, hparser, hsane⟩ := exists_sane h expired
  obtain ⟨results, p', hcalls, hplain⟩ := exists_calls_eq hsane hfile clocks
  refine ⟨_, results, p', hparser, ?_, hplain⟩
  have hwalk : walk text.toList 0 2 = .ok (byteLength (text.toList.take 2)) :=
    walk_eq (List.nil_append text.toList).symm 2
  rw [run, hparser, hwalk]
  exact hcalls

/-- A number that breaks off in front of a letter of two bytes, in a file at the end of all
positions. -/
theorem run_broken_number :
    let file : File := ⟨0, "q.sql", maxPos - 12, 11, []⟩
    Registry.register .empty "q.sql" (some (maxPos - 12)) 11 =
        .ok (file, ⟨[file], maxPos⟩) ∧
      ∃ p, Parser.ofText file "SELECT 1eé" = .ok p ∧
        run file "SELECT 1eé" false [[], []] =
          .ok ([p.parse.1, (p.after 1).parse.1], p.after 2, 0) := by
  intro file
  have hregister : Registry.register .empty "q.sql" (some (maxPos - 12))
      (byteLength "SELECT 1eé".toList) = .ok (file, ⟨[file], maxPos⟩) := by decide +kernel
  obtain ⟨p, results, p', hparser, hrun, hplain⟩ := run_eq_ok hregister false [[], []]
  obtain ⟨rfl, rfl⟩ := hplain (by decide)
  exact ⟨hregister, p, hparser, hrun⟩

end Checked

end SqlFormatter

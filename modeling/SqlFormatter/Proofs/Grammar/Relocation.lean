import SqlFormatter.Proofs.Grammar.Moved
import SqlFormatter.Proofs.Grammar.Parser

/-!
# SqlFormatter.Proofs.Grammar.Relocation

The same text in another place of the position space. A scanner, a feed and a parser of a file that
has been moved do what they do in the file itself, with all positions moved by the same distance;
the lines that the file comes to know are the same. The main result is `parseText_moved`.
-/

namespace SqlFormatter

/-- Where a file is moved: its number and name there, and the distance. -/
structure Site where
  /-- The number of files registered before it. -/
  id : Nat
  /-- The name that it is registered with. -/
  name : String
  /-- The distance by which all positions are moved. -/
  distance : Nat

/-- Where the site has a position. -/
def Site.shift (site : Site) (p : Nat) : Nat := site.distance + p

variable {site : Site}

/-! ### Files -/

/-- The file, moved to the site. -/
def File.moved (site : Site) (f : File) : File :=
  { f with id := site.id, name := site.name, base := site.shift f.base }

theorem File.addLine_moved (site : Site) (f : File) (offset : Nat) :
    (f.moved site).addLine offset = (f.addLine offset).moved site := by
  have hlast : (f.moved site).lastLine = f.lastLine := rfl
  have hsize : (f.moved site).size = f.size := rfl
  unfold addLine
  rw [hlast, hsize]
  split <;> rfl

theorem File.addLines_moved (site : Site) (f : File) (offsets : List Nat) :
    (f.moved site).addLines offsets = (f.addLines offsets).moved site := by
  unfold addLines
  induction offsets generalizing f with
  | nil => rfl
  | cons o os ih => rw [List.foldl_cons, List.foldl_cons, addLine_moved, ih]

/-! ### Scanners -/

/-- What comes of a scan, moved to the site. -/
def Site.move (site : Site) {α : Type} (g : α → α) (outcome : Except LexError α) :
    Except LexError α :=
  (outcome.map g).mapError (LexError.moved site.shift)

namespace Scanner

/-- The scanner, moved to the site. -/
def moved (site : Site) (s : Scanner) : Scanner :=
  { s with file := s.file.moved site, reports := s.reports.map (Report.moved site.shift) }

theorem pos_moved (site : Site) (s : Scanner) : (s.moved site).pos = site.shift s.pos :=
  Nat.add_assoc ..

theorem advance_moved (site : Site) (s : Scanner) (text rest : List Char) :
    (s.moved site).advance text rest = (s.advance text rest).moved site := by
  have hlines := s.file.addLines_moved site (lineStarts s.offset text)
  simp only [advance, moved, hlines]

theorem settle_moved (site : Site) (s : Scanner) (c : Char) (l : Lexeme) :
    (s.moved site).settle c l =
      (site.move (Token.moved site.shift) (s.settle c l).1, (s.settle c l).2.moved site) := by
  unfold settle
  rw [pos_moved, advance_moved]
  dsimp only
  split <;> simp only [moved, report, List.map_append, List.map_cons, List.map_nil] <;> rfl

theorem scan_moved (site : Site) (s : Scanner) :
    (s.moved site).scan =
      (site.move (Token.moved site.shift) s.scan.1, s.scan.2.moved site) := by
  have hgap : (s.moved site).skipGap = s.skipGap.moved site := s.advance_moved site _ _
  have hrest : (s.skipGap.moved site).rest = s.skipGap.rest := rfl
  unfold scan
  rw [hgap]
  dsimp only
  rw [hrest]
  cases s.skipGap.rest with
  | nil =>
    dsimp only
    rw [pos_moved]
    rfl
  | cons c cs => exact s.skipGap.settle_moved site c _

theorem ofText_moved (site : Site) (file : File) (text : String) (expired : Bool) :
    ofText (file.moved site) text expired = (ofText file text expired).map (moved site) := by
  have hsize : (file.moved site).size = file.size := rfl
  have hstart : ∀ cs : List Char, ({ file := file.moved site, rest := cs, expired } : Scanner) =
      ({ file, rest := cs, expired } : Scanner).moved site := fun _ => rfl
  unfold ofText
  dsimp only
  rw [hsize]
  split
  · cases text.toList with
    | nil => rfl
    | cons c rest =>
      dsimp only
      rw [hstart, advance_moved]
      split <;> rfl
  · rfl

end Scanner

/-! ### Feeds -/

/-- The piece, moved to the site. -/
def Piece.moved (site : Site) (p : Piece) : Piece :=
  ⟨p.comments.map (Comment.moved site.shift), p.token.moved site.shift, p.after.moved site⟩

theorem Piece.group?_moved (site : Site) (p : Piece) :
    (p.moved site).group? = p.group?.map (CommentGroup.moved site.shift) := by
  unfold Piece.group? Piece.moved
  cases p.comments <;> rfl

/-- The feed, moved to the site. -/
def Feed.moved (site : Site) (f : Feed) : Feed :=
  ⟨f.pieces.map (Piece.moved site), site.move (Piece.moved site) f.closing, f.last.moved site⟩

theorem Feed.tokens_moved (site : Site) (f : Feed) :
    (f.moved site).tokens = f.tokens.map (Token.moved site.shift) := by
  unfold tokens moved
  rw [List.map_map, List.map_map]
  rfl

theorem Piece.groups_moved (site : Site) (ps : List Piece) :
    (ps.map (moved site)).filterMap group? =
      (ps.filterMap group?).map (CommentGroup.moved site.shift) := by
  rw [List.filterMap_map, List.map_filterMap]
  exact congrArg (List.filterMap · ps) (funext fun p => p.group?_moved site)

theorem Feed.groups_moved (site : Site) (f : Feed) :
    (f.moved site).groups = f.groups.map (CommentGroup.moved site.shift) := by
  have hclosing : ((f.moved site).closing.toOption.bind Piece.group?).toList =
      (f.closing.toOption.bind Piece.group?).toList.map (CommentGroup.moved site.shift) := by
    unfold moved
    cases f.closing with
    | error e => rfl
    | ok p =>
      change ((p.moved site).group?).toList = p.group?.toList.map _
      rw [p.group?_moved]
      cases p.group? <;> rfl
  unfold groups
  rw [hclosing, List.map_append, ← Piece.groups_moved]
  rfl

/-- The feed of a moved scanner is the feed, moved. -/
theorem Scanner.feedAfter_moved (site : Site) (s : Scanner) (before : List Comment) :
    (s.moved site).feedAfter (before.map (Comment.moved site.shift)) =
      (s.feedAfter before).moved site := by
  induction s using scanInduction generalizing before with
  | error s u e hscan =>
    have hmoved := s.scan_moved site
    rw [hscan] at hmoved
    rw [feedAfter_of_error hscan, feedAfter_of_error hmoved]
    rfl
  | endOfInput s u t hscan hend =>
    have hmoved := s.scan_moved site
    rw [hscan] at hmoved
    rw [feedAfter_of_endOfInput hscan hend, feedAfter_of_endOfInput hmoved hend]
    rfl
  | comment s u t hscan hcomment ih =>
    have hmoved := s.scan_moved site
    have hrec := ih (before ++ [⟨t.pos, t.text⟩])
    rw [hscan] at hmoved
    rw [List.map_append] at hrec
    rw [feedAfter_of_comment hscan hcomment, feedAfter_of_comment hmoved hcomment]
    exact hrec
  | token s u t hscan hend hcomment ih =>
    have hmoved := s.scan_moved site
    have hrec : (u.moved site).feed = u.feed.moved site := ih []
    rw [hscan] at hmoved
    rw [feedAfter_of_token hscan hend hcomment, feedAfter_of_token hmoved hend hcomment, hrec]
    rfl

/-! ### Parsers -/

/-- The result of a parser, moved to the site. -/
def Site.result (site : Site) (result : Except ParseError Statement) :
    Except ParseError Statement :=
  (result.map (Statement.moved site.shift)).mapError (ParseError.moved site.shift)

namespace Parser

/-- The parser, moved to the site. -/
def moved (site : Site) (p : Parser) : Parser :=
  ⟨p.scanner.moved site, p.waiting.map (CommentGroup.moved site.shift)⟩

theorem advance_moved (site : Site) (p : Parser) (pieces : List Piece) :
    (p.moved site).advance (pieces.map (Piece.moved site)) = (p.advance pieces).moved site := by
  have hscanner : ((pieces.map (Piece.moved site)).getLast?.map Piece.after).getD
      (p.scanner.moved site) = ((pieces.getLast?.map Piece.after).getD p.scanner).moved site := by
    rw [List.getLast?_map]
    cases pieces.getLast? <;> rfl
  simp only [advance, moved, hscanner, Piece.groups_moved, List.map_append]

theorem finish_moved (site : Site) (p : Parser) (feed : Feed) :
    (p.moved site).finish (feed.moved site) = (p.finish feed).moved site := by
  simp only [finish, moved, Feed.groups_moved, List.map_append]
  rfl

theorem stopAt_moved (site : Site) (p : Parser) (feed : Feed) (r : Refusal) :
    (p.moved site).stopAt (feed.moved site) (r.moved site.shift) =
      (p.stopAt feed r).moved site := by
  obtain ⟨c, rest⟩ := r
  cases rest with
  | nil => exact p.finish_moved site feed
  | cons t later =>
    have hpieces : (feed.moved site).pieces = feed.pieces.map (Piece.moved site) := rfl
    simp only [stopAt, Refusal.moved, List.map_cons, hpieces, List.length_map, ← List.map_take]
    exact p.advance_moved site _

theorem parse_moved (site : Site) (p : Parser) :
    (p.moved site).parse = (site.result p.parse.1, p.parse.2.moved site) := by
  have hfeed : (p.moved site).scanner.feed = p.scanner.feed.moved site :=
    p.scanner.feedAfter_moved site []
  have hwaiting : (p.moved site).waiting = p.waiting.map (CommentGroup.moved site.shift) := rfl
  have hclosing : (p.scanner.feed.moved site).closing =
      site.move (Piece.moved site) p.scanner.feed.closing := rfl
  unfold parse
  dsimp only
  rw [hfeed, Feed.tokens_moved, Grammar.sentence_moved, hclosing, finish_moved]
  cases Grammar.sentence p.scanner.feed.tokens with
  | error r =>
    have herror : (r.moved site.shift).error
        ((site.move (Piece.moved site) p.scanner.feed.closing).map Piece.token) =
          (r.error (p.scanner.feed.closing.map Piece.token)).moved site.shift := by
      rw [← Refusal.error_moved]
      cases p.scanner.feed.closing <;> rfl
    change (_, _) = (_, _)
    rw [herror, stopAt_moved]
    rfl
  | ok s => cases p.scanner.feed.closing <;> rfl

end Parser

/-- In another place a text is parsed as in this one. -/
theorem parseText_moved (site : Site) (file : File) (text : String) (expired : Bool) :
    parseText (file.moved site) text expired = (parseText file text expired).map fun outcome =>
      (site.result outcome.1, outcome.2.moved site) := by
  have hmoved := Scanner.ofText_moved site file text expired
  cases hscanner : Scanner.ofText file text expired with
  | error violation =>
    rw [hscanner] at hmoved
    simp only [parseText, Parser.ofText, hscanner, hmoved]
    rfl
  | ok scanner =>
    rw [hscanner] at hmoved
    have hparse : ({ scanner := scanner.moved site } : Parser).parse = _ :=
      Parser.parse_moved site { scanner }
    rw [parseText_eq hscanner, parseText_eq hmoved, hparse]
    rfl

end SqlFormatter

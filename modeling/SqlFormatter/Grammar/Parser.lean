import SqlFormatter.Grammar.Feed
import SqlFormatter.Grammar.Statement

/-!
# SqlFormatter.Grammar.Parser

A parser: a scanner, and the comments that wait for their statement. `Parser.parse` reads one
statement to the end of the text. It may be called again after an error: it goes on behind the token
that it could not use, with the comments read so far.
-/

namespace SqlFormatter

/-- A place in a text, and the comments read before it that belong to no statement yet. -/
structure Parser where
  /-- The place in the text. -/
  scanner : Scanner
  /-- The comments that wait for a statement. -/
  waiting : List CommentGroup := []
  deriving Repr

namespace Parser

/-- The parser at the start of `text`, which must have the size of the file. -/
def ofText (file : File) (text : String) (expired : Bool := false) : Except Violation Parser := do
  return { scanner := ← Scanner.ofText file text expired }

/-- Moves over the pieces. -/
def advance (p : Parser) (pieces : List Piece) : Parser where
  scanner := (pieces.getLast?.map Piece.after).getD p.scanner
  waiting := p.waiting ++ pieces.filterMap Piece.group?

/-- Moves over all of the feed. -/
def finish (p : Parser) (feed : Feed) : Parser where
  scanner := feed.last
  waiting := p.waiting ++ feed.groups

/-- Moves over what a rule of the grammar had seen of the feed when it refused: the tokens that it
read and the one that it could not use. -/
def stopAt (p : Parser) (feed : Feed) (r : Refusal) : Parser :=
  match r.rest with
  | [] => p.finish feed
  | _ :: later => p.advance (feed.pieces.take (feed.pieces.length - later.length))

/-- The statement that the rest of the text is, or why it is none; and the parser after that. -/
def parse (p : Parser) : Except ParseError Statement × Parser :=
  let feed := p.scanner.feed
  match Grammar.sentence feed.tokens, feed.closing with
  | .error r, closing => (.error (r.error (closing.map Piece.token)), p.stopAt feed r)
  | .ok _, .error e => (.error (.lexical e), p.finish feed)
  | .ok s, .ok _ =>
    let last := p.finish feed
    (.ok { s with comments := last.waiting }, { last with waiting := [] })

end Parser

/-- The statement that `text` is, or why it is none, and the file with the lines known after that.
The file must have the size of the text. -/
def parseText (file : File) (text : String) (expired : Bool := false) :
    Except Violation (Except ParseError Statement × File) := do
  let parser ← Parser.ofText file text expired
  let (result, parser) := parser.parse
  return (result, parser.scanner.file)

end SqlFormatter

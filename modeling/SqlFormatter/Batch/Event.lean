import SqlFormatter.Batch.Basic
import SqlFormatter.Text.Quoted

/-!
# SqlFormatter.Batch.Event

What a batch tells in a log.
-/

namespace SqlFormatter.Batch

/-- An entry of a log. -/
inductive Event where
  /-- Work on so many sources starts. -/
  | started (files : Nat)
  /-- A source of so many bytes was read. -/
  | read (path : String) (bytes : Nat)
  /-- The source of this name was found to be this statement. -/
  | parsed (name : String) (statement : Statement)
  /-- A source was left out. -/
  | skipped (error : Error)
  /-- The output was written. -/
  | done (summary : Summary)

namespace Event

/-- Whether the entry is of use only to those who want to know everything. -/
def isDetail : Event → Bool
  | skipped _ => false
  | started _ | read .. | parsed .. | done _ => true

/-- The line of the log. -/
def line : Event → String
  | started files => s!"DEBUG formatting files={files}"
  | read path bytes => s!"DEBUG read input path={path} bytes={bytes}"
  | parsed name s =>
    s!"DEBUG parsed statement file={quoteText name} columns={s.select.columns.toList.length} " ++
      s!"tables={s.fromClause.tables.toList.length} has_where={s.whereClause.isSome} " ++
      s!"has_group_by={s.groupBy.isSome} has_order_by={s.orderBy.isSome} " ++
      s!"comment_groups={s.comments.length}"
  | skipped error => s!"ERROR skipping file error={error.message}"
  | done summary =>
    s!" INFO done files={summary.files} formatted={summary.formatted} failed={summary.failed}"

end Event

/-- The text of the log, with or without the details. -/
def logText (details : Bool) (events : List Event) : String :=
  String.join <| (events.filter fun e => details || !e.isDetail).map fun e => e.line ++ "\n"

end SqlFormatter.Batch

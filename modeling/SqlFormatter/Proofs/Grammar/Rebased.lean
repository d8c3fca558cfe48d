import SqlFormatter.Proofs.Grammar.Relocation
import SqlFormatter.Proofs.Grammar.Progress
import SqlFormatter.Proofs.Source.Registry

/-!
# SqlFormatter.Proofs.Grammar.Rebased

One text, registered twice: in two registries, or at two bases. Neither file need be in front of the
other, so both are seen as copies of the file at base 0, which a site moves to each of the bases
(`File.moved`). A copy is parsed as the file itself, so one copy is parsed as the other, and what
comes of it differs in the positions alone (`Parser.after_rebased`).
-/

namespace SqlFormatter

/-- Where position `p` of a file at base `b` is when the file is at base `b'`. No position of the
file is in front of its base, so nothing is cut off. -/
def rebase (b b' p : Nat) : Nat := p + b' - b

namespace Site

variable {site site' : Site}

/-- From one copy of a file to another. -/
theorem rebase_shift (site site' : Site) :
    (fun p => rebase site.distance site'.distance (site.shift p)) = site'.shift := by
  funext p
  simp only [rebase, shift]
  omega

theorem result_rebased (site site' : Site) (result : Except ParseError Statement) :
    site'.result result =
      ((site.result result).map (Statement.moved (rebase site.distance site'.distance))).mapError
        (ParseError.moved (rebase site.distance site'.distance)) := by
  cases result with
  | error e =>
    change Except.error _ = Except.error _
    rw [ParseError.moved_moved, rebase_shift]
  | ok s =>
    change Except.ok _ = Except.ok _
    rw [Statement.moved_moved, rebase_shift]

theorem reports_rebased (site site' : Site) (reports : List Report) :
    reports.map (Report.moved site'.shift) =
      (reports.map (Report.moved site.shift)).map
        (Report.moved (rebase site.distance site'.distance)) := by
  rw [List.map_map, ← rebase_shift site site']
  exact List.map_congr_left fun r _ => (r.moved_moved _ _).symm

end Site

namespace Parser

variable {site : Site} {p : Parser}

/-- The parser after `n` calls. -/
def after (p : Parser) : Nat → Parser
  | 0 => p
  | n + 1 => (p.after n).parse.2

theorem after_parse (p : Parser) (n : Nat) : p.parse.2.after n = p.after (n + 1) := by
  induction n with
  | zero => rfl
  | succ n ih =>
    rw [after, ih]
    rfl

theorem after_moved (site : Site) (p : Parser) (n : Nat) :
    (p.moved site).after n = (p.after n).moved site := by
  induction n with
  | zero => rfl
  | succ n ih => rw [after, ih, parse_moved, after]

/-- The same of two copies of a parser, call by call. -/
theorem after_rebased (site site' : Site) (p : Parser) (n : Nat) :
    let move := rebase site.distance site'.distance
    let q := (p.moved site).after n
    let q' := (p.moved site').after n
    q'.parse.1 = (q.parse.1.map (Statement.moved move)).mapError (ParseError.moved move) ∧
      q'.scanner.file.lines = q.scanner.file.lines ∧
        q'.scanner.reports = q.scanner.reports.map (Report.moved move) := by
  dsimp only
  rw [after_moved, after_moved, parse_moved, parse_moved]
  exact ⟨site.result_rebased site' _, rfl, site.reports_rebased site' _⟩

end Parser

/-- A registered file is a copy of the one at base 0. -/
theorem Registry.register_eq_moved {r r' : Registry} {f : File} {name : String}
    {base? : Option Nat} {size : Nat} (h : r.register name base? size = .ok (f, r')) :
    f = File.moved ⟨r.size, name, f.base⟩ { id := 0, name := "", base := 0, size } := by
  obtain ⟨rfl, -⟩ := register_eq_ok h
  rfl

/-- A text that is registered twice is parsed to the same, as often as it is parsed. After `n`
calls, the result of the next one and the reports up to then are those of the first parser, with all
positions moved from the one base to the other, and the lines that the files know are the same. -/
theorem parse_rebased {text : String} {r₁ r₁' r₂ r₂' : Registry} {f₁ f₂ : File}
    {name₁ name₂ : String} {base₁? base₂? : Option Nat}
    (h₁ : r₁.register name₁ base₁? (byteLength text.toList) = .ok (f₁, r₁'))
    (h₂ : r₂.register name₂ base₂? (byteLength text.toList) = .ok (f₂, r₂')) (expired : Bool) :
    ∃ p₁ p₂, Parser.ofText f₁ text expired = .ok p₁ ∧ Parser.ofText f₂ text expired = .ok p₂ ∧
      ∀ n, let move := rebase f₁.base f₂.base
        (p₂.after n).parse.1 =
          ((p₁.after n).parse.1.map (Statement.moved move)).mapError (ParseError.moved move) ∧
        (p₂.after n).scanner.file.lines = (p₁.after n).scanner.file.lines ∧
        (p₂.after n).scanner.reports = (p₁.after n).scanner.reports.map (Report.moved move) := by
  let origin : File := { id := 0, name := "", base := 0, size := byteLength text.toList }
  have hsize : origin.size = byteLength text.toList := rfl
  obtain ⟨scanner, hscanner⟩ := Scanner.exists_ofText expired hsize
  have hcopy : ∀ site : Site, Parser.ofText (origin.moved site) text expired =
      .ok (Parser.moved site { scanner }) := fun site => by
    rw [Parser.ofText, Scanner.ofText_moved, hscanner]
    rfl
  rw [Registry.register_eq_moved h₁, Registry.register_eq_moved h₂]
  exact ⟨_, _, hcopy _, hcopy _, Parser.after_rebased _ _ _⟩

/-- A string without end on the second line, in files at 1 and at 40. -/
theorem parse_rebased_open_string :
    let f₁ : File := ⟨0, "a.sql", 1, 12, []⟩
    let f₂ : File := ⟨0, "b.sql", 40, 12, []⟩
    Registry.register .empty "a.sql" none 12 = .ok (f₁, ⟨[f₁], 14⟩) ∧
      Registry.register .empty "b.sql" (some 40) 12 = .ok (f₂, ⟨[f₂], 53⟩) ∧
        ∃ p₁ p₂, Parser.ofText f₁ "SELECT a,\n'x" = .ok p₁ ∧
          Parser.ofText f₂ "SELECT a,\n'x" = .ok p₂ ∧
          ∀ n, let move := rebase 1 40
            (p₂.after n).parse.1 =
              ((p₁.after n).parse.1.map (Statement.moved move)).mapError (ParseError.moved move) ∧
            (p₂.after n).scanner.file.lines = (p₁.after n).scanner.file.lines ∧
            (p₂.after n).scanner.reports =
              (p₁.after n).scanner.reports.map (Report.moved move) := by
  intro f₁ f₂
  have h₁ : Registry.register .empty "a.sql" none (byteLength "SELECT a,\n'x".toList) =
      .ok (f₁, ⟨[f₁], 14⟩) := rfl
  have h₂ : Registry.register .empty "b.sql" (some 40) (byteLength "SELECT a,\n'x".toList) =
      .ok (f₂, ⟨[f₂], 53⟩) := rfl
  exact ⟨h₁, h₂, parse_rebased h₁ h₂ false⟩

end SqlFormatter

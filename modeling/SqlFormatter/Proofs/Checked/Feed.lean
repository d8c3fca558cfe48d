import SqlFormatter.Proofs.Checked.Scanner

/-!
# SqlFormatter.Proofs.Checked.Feed

The feed of a scanner, with checks (`Checked.feed`). It is read with a bound on the number of scans,
and does not come to it: for a sane scanner it is `Scanner.feedBy` (`Checked.feed_eq`). What stands
in that feed lies in the file, and the scanners in it are sane (`Feed.Sane`, `Scanner.Sane.feedBy`).
-/

namespace SqlFormatter

namespace Checked

/-- The piece of a token. The comments before it make a group, if there are any. -/
def piece (before : List Comment) (t : Token) (after : Scanner) : Except Panic Piece := do
  if !before.isEmpty then
    let _ ← assert (CommentGroup.ofList before)
  return ⟨before, t, after⟩

/-- As `Scanner.feedBy`, with checks and fewer than `fuel` scans. -/
def feed (source : List Char) : Nat → Clock → Scanner → List Comment → Except Panic Feed
  | 0, _, _, _ => .error .endless
  | fuel + 1, clock, s, before => do
    match ← scan source (clock.headD none) s with
    | (.error e, s) => return ⟨[], .error e, s⟩
    | (.ok t, s) =>
      if t.kind = .endOfInput then return ⟨[], .ok (← piece before t s), s⟩
      else if t.kind = .comment then feed source fuel clock.tail s (before ++ [⟨t.pos, t.text⟩])
      else
        let first ← piece before t s
        let feed ← feed source fuel clock.tail s []
        return { feed with pieces := first :: feed.pieces }

theorem piece_eq (before : List Comment) (t : Token) (after : Scanner) :
    piece before t after = .ok ⟨before, t, after⟩ := by
  cases before <;> rfl

end Checked

/-- The comments and the token lie in the file, and the scanner is sane. -/
structure Piece.Sane (p : Piece) (file : File) (source : List Char) : Prop where
  comments : ∀ c ∈ p.comments, file.Has c.range
  token : file.Has p.token.range ∧ p.token.Fits
  after : p.after.Sane file source

/-- All that the feed tells of lies in the file, and its scanners are sane. -/
structure Feed.Sane (f : Feed) (file : File) (source : List Char) : Prop where
  pieces : ∀ p ∈ f.pieces, p.Sane file source
  closing : ∀ p, f.closing = .ok p → p.Sane file source
  error : ∀ e, f.closing = .error e → file.Owns e.pos
  last : f.last.Sane file source

section Feed

variable {s : Scanner} {file : File} {source : List Char} {before : List Comment} {clock : Clock}

/-- What stands in the feed of a sane scanner lies in the file. -/
theorem Scanner.Sane.feedBy (h : s.Sane file source) (hfile : file.Holds source)
    (hbefore : ∀ c ∈ before, file.Has c.range) : (s.feedBy clock before).Sane file source := by
  induction clock, s using Scanner.clockInduction generalizing before with
  | error clock s s' e hscan =>
    obtain ⟨hfinds, hsane⟩ := h.scanBy hfile (clock.headD none)
    rw [hscan] at hfinds hsane
    rw [Scanner.feedBy_of_error hscan]
    refine ⟨List.forall_mem_nil _, fun _ => nofun, ?_, hsane⟩
    rintro _ ⟨⟩
    exact hfinds
  | endOfInput clock s s' t hscan hend =>
    obtain ⟨hfinds, hsane⟩ := h.scanBy hfile (clock.headD none)
    rw [hscan] at hfinds hsane
    rw [Scanner.feedBy_of_endOfInput hscan hend]
    refine ⟨List.forall_mem_nil _, ?_, fun _ => nofun, hsane⟩
    rintro _ ⟨⟩
    exact ⟨hbefore, hfinds, hsane⟩
  | comment clock s s' t hscan hcomment ih =>
    obtain ⟨hfinds, hsane⟩ := h.scanBy hfile (clock.headD none)
    rw [hscan] at hfinds hsane
    rw [Scanner.feedBy_of_comment hscan hcomment]
    exact ih hsane (List.forall_mem_append.2 ⟨hbefore, List.forall_mem_singleton.2 hfinds.1⟩)
  | token clock s s' t hscan hend hcomment ih =>
    obtain ⟨hfinds, hsane⟩ := h.scanBy hfile (clock.headD none)
    rw [hscan] at hfinds hsane
    rw [Scanner.feedBy_of_token hscan hend hcomment]
    have hf := ih hsane (List.forall_mem_nil _)
    exact ⟨List.forall_mem_cons.2 ⟨⟨hbefore, hfinds, hsane⟩, hf.pieces⟩, hf.closing, hf.error,
      hf.last⟩

/-- No check of a feed fails. -/
theorem Checked.feed_eq {fuel : Nat} (h : s.Sane file source) (hfile : file.Holds source)
    (hfuel : s.rest.length < fuel) :
    feed source fuel clock s before = .ok (s.feedBy clock before) := by
  induction fuel generalizing s clock before with
  | zero => cases hfuel
  | succ fuel ih =>
    obtain ⟨passed, hstands⟩ := h.stands
    obtain ⟨-, hsane⟩ := h.scanBy hfile (clock.headD none)
    rw [feed, scan_eq hstands hfile, ok_bind]
    rcases hscan : s.scanBy (clock.headD none) with ⟨e | t, s'⟩
    · rw [Scanner.feedBy_of_error hscan]
      rfl
    rw [hscan] at hsane
    have hlt (hend : t.kind ≠ .endOfInput) : s'.rest.length < fuel := by
      have := Scanner.rest_length_lt_of_scanBy_eq_ok hscan hend
      omega
    dsimp only
    by_cases hend : t.kind = .endOfInput
    · rw [if_pos hend, piece_eq, ok_bind, Scanner.feedBy_of_endOfInput hscan hend]
      rfl
    rw [if_neg hend]
    by_cases hcomment : t.kind = .comment
    · rw [if_pos hcomment, ih hsane (hlt hend), Scanner.feedBy_of_comment hscan hcomment]
    · rw [if_neg hcomment, piece_eq, ok_bind, ih hsane (hlt hend),
        Scanner.feedBy_of_token hscan hend hcomment]
      rfl

end Feed

end SqlFormatter

import SqlFormatter.Proofs.Grammar.Clock
import SqlFormatter.Proofs.Grammar.Refusal.Statement
import SqlFormatter.Proofs.Source.Lines

/-!
# SqlFormatter.Proofs.Grammar.Progress

How far a parser has read when it returns, be it that time runs out for it or not. A scanner stands
behind a front of its text, and its file knows the lines in that front (`Scanner.StandsIn`); the
places that it covers are those in that front, and a scan covers in addition the start of what it
finds (`Scanner.Covers.scanBy`). So the positions in the outcome of a parser are covered by the
scanner that it leaves behind (`Parser.covers_parseBy`).
-/

namespace SqlFormatter

namespace Scanner

variable {s s' : Scanner} {file : File} {cs seen passed : List Char}

/-! ### Scanners -/

/-- The scanner stands behind `passed` in the text `cs` of the file, of which it knows the lines up
to there at least. It knows besides what is known of the lines in `seen`. -/
structure StandsIn (s : Scanner) (file : File) (cs seen passed : List Char) : Prop where
  rest_eq : passed ++ s.rest = cs
  offset_eq : s.offset = byteLength passed
  unread_eq : s.file.unread = file.unread
  knows : ∃ known, seen <+: known ∧ passed <+: known ∧ known <+: cs ∧ s.file.Knows known

theorem StandsIn.pos_eq (h : s.StandsIn file cs seen passed) :
    s.pos = file.base + byteLength passed := by
  rw [pos, h.offset_eq, (File.unread_eq_iff.1 h.unread_eq).2.2.1]

theorem StandsIn.advance (h : s.StandsIn file cs seen passed) {text rest : List Char}
    (hrest : s.rest = text ++ rest) :
    (s.advance text rest).StandsIn file cs seen (passed ++ text) where
  rest_eq := by rw [rest_advance, List.append_assoc, ← hrest, h.rest_eq]
  offset_eq := by rw [byteLength_append, ← h.offset_eq]; rfl
  unread_eq := (s.file.unread_addLines _).trans h.unread_eq
  knows := by
    obtain ⟨known, hseen, hpassed, hknown, hknows⟩ := h.knows
    have hmore : passed ++ text <+: cs :=
      ⟨rest, by rw [List.append_assoc, ← hrest, h.rest_eq]⟩
    obtain ⟨known', hlonger, hpassed', hknown', hknows'⟩ := hknows.addLines hpassed hknown hmore
    refine ⟨known', hseen.trans hlonger, hpassed', hknown', ?_⟩
    rw [Scanner.advance, h.offset_eq]
    exact hknows'

theorem StandsIn.skipGap (h : s.StandsIn file cs seen passed) :
    s.skipGap.StandsIn file cs seen (passed ++ s.rest.takeWhile isGap) :=
  h.advance List.takeWhile_append_dropWhile.symm

/-- Settling a lexeme moves over it, whatever it is. -/
theorem StandsIn.settle (h : s.StandsIn file cs seen passed) {c : Char} {l : Lexeme}
    (hrest : s.rest = l.text ++ l.rest) :
    (s.settle c l).2.StandsIn file cs seen (passed ++ l.text) := by
  obtain ⟨hrest, hoffset, hunread, hknows⟩ := h.advance hrest
  unfold Scanner.settle
  dsimp only
  split <;> exact ⟨hrest, hoffset, hunread, hknows⟩

/-- The start of what a scan finds. -/
def start : Except LexError Token → Nat
  | .error e => e.pos
  | .ok t => t.pos

theorem start_settle (s : Scanner) (c : Char) (l : Lexeme) : start (s.settle c l).1 = s.pos := by
  unfold settle
  dsimp only
  split <;> rfl

/-- A scan moves over a gap, and then from the start of what it finds on. -/
theorem StandsIn.scanBy (h : s.StandsIn file cs seen passed) (time : Option Nat) :
    ∃ gap lexeme, (s.scanBy time).2.StandsIn file cs seen (passed ++ gap ++ lexeme) ∧
      start (s.scanBy time).1 = file.base + byteLength (passed ++ gap) := by
  refine ⟨s.rest.takeWhile isGap, ?_⟩
  have hgap := h.skipGap
  unfold Scanner.scanBy
  dsimp only
  split
  · exact ⟨[], by rw [List.append_nil]; exact hgap, hgap.pos_eq⟩
  · next c cs hcons =>
    refine ⟨_, hgap.settle ?_, (start_settle ..).trans hgap.pos_eq⟩
    rw [hcons, Lexeme.readBy_append]

/-- The places are in the part of the text that the scanner has passed. -/
def Covers (s : Scanner) (file : File) (cs seen : List Char) (places : List Nat) : Prop :=
  ∃ passed, s.StandsIn file cs seen passed ∧
    ∀ p ∈ places, ∃ before, before <+: passed ∧ p = file.base + byteLength before

theorem Covers.mono {places places' : List Nat} (h : s.Covers file cs seen places)
    (hplaces : places' ⊆ places) : s.Covers file cs seen places' := by
  obtain ⟨passed, hstands, hcovers⟩ := h
  exact ⟨passed, hstands, fun p hp => hcovers p (hplaces hp)⟩

theorem Covers.scanBy {places : List Nat} (h : s.Covers file cs seen places)
    (time : Option Nat) :
    (s.scanBy time).2.Covers file cs seen (places ++ [start (s.scanBy time).1]) := by
  obtain ⟨passed, hstands, hcovers⟩ := h
  obtain ⟨gap, lexeme, hstands', hstart⟩ := hstands.scanBy time
  refine ⟨_, hstands', List.forall_mem_append.2 ⟨fun p hp => ?_,
    List.forall_mem_singleton.2 ⟨_, List.prefix_append .., hstart⟩⟩⟩
  obtain ⟨before, hbefore, hp⟩ := hcovers p hp
  rw [List.append_assoc]
  exact ⟨before, hbefore.trans (List.prefix_append ..), hp⟩

theorem Covers.scanBy_eq {outcome : Except LexError Token} {places : List Nat}
    {time : Option Nat} (h : s.Covers file cs seen places)
    (hscan : s.scanBy time = (outcome, s')) :
    s'.Covers file cs seen (places ++ [start outcome]) := by
  have hscan' := h.scanBy time
  rwa [hscan] at hscan'

/-! ### Files -/

/-- A file that a scanner has read on in tells the places that the scanner covers. -/
theorem Covers.locateOffset {places : List Nat} {text : String}
    (h : s.Covers file text.toList seen places) (hsize : file.size = byteLength text.toList) :
    ∀ p ∈ places, ∃ o, o ≤ file.size ∧ p = file.base + o ∧
      s.file.locateOffset o = locationIn file.name text o := by
  intro p hp
  obtain ⟨passed, hstands, hcovers⟩ := h
  obtain ⟨known, -, hpassed, hknown, hknows⟩ := hstands.knows
  obtain ⟨before, hbefore, rfl⟩ := hcovers p hp
  obtain ⟨-, hname, -, hsize'⟩ := File.unread_eq_iff.1 hstands.unread_eq
  have hprefix := hbefore.trans hpassed
  refine ⟨_, ?_, rfl, ?_⟩
  · obtain ⟨after, htext⟩ := hprefix.trans hknown
    rw [hsize, ← htext, byteLength_append]
    exact Nat.le_add_right ..
  · rw [File.locateOffset_of_knows hknows hprefix hknown (hsize'.trans hsize), hname]

theorem Covers.informed {places : List Nat} (h : s.Covers file cs seen places) :
    s.file.unread = file.unread ∧ ∃ known, seen <+: known ∧ known <+: cs ∧ s.file.Knows known := by
  obtain ⟨passed, hstands, -⟩ := h
  obtain ⟨known, hseen, -, hknown, hknows⟩ := hstands.knows
  exact ⟨hstands.unread_eq, known, hseen, hknown, hknows⟩

/-- A scanner stands as it does whatever else its file has come to know. -/
theorem Covers.on {seen' : List Char} {g : File} {places : List Nat}
    (h : s.Covers file cs seen places) (hunread : g.unread = file.unread)
    (hseen : ∀ known, known <+: cs → s.file.Knows known →
      ∃ known', seen' <+: known' ∧ known <+: known' ∧ known' <+: cs ∧ g.Knows known') :
    { s with file := g }.Covers g cs seen' places := by
  obtain ⟨passed, hstands, hcovers⟩ := h
  obtain ⟨known, -, hpassed, hknown, hknows⟩ := hstands.knows
  obtain ⟨known', hseen', hlonger, hknown', hknows'⟩ := hseen known hknown hknows
  refine ⟨passed, ⟨hstands.rest_eq, hstands.offset_eq, rfl,
    known', hseen', hpassed.trans hlonger, hknown', hknows'⟩, ?_⟩
  rwa [(File.unread_eq_iff.1 hunread).2.2.1]

/-- A text can be scanned in a file of its size. -/
theorem exists_ofText {text : String} (expired : Bool) (h : file.size = byteLength text.toList) :
    ∃ s, ofText file text expired = .ok s := by
  unfold ofText
  dsimp only
  rw [if_pos h]
  split <;> exact ⟨_, rfl⟩

/-- A scanner at the start of a text stands in it. -/
theorem covers_ofText {text : String} {expired : Bool} (h : ofText file text expired = .ok s)
    (hseen : seen <+: text.toList) (hknows : file.Knows seen) :
    s.Covers file text.toList seen [] := by
  have hstart : ∀ cs, seen <+: cs →
      ({ file, rest := cs, expired } : Scanner).StandsIn file cs seen [] :=
    fun cs hcs => ⟨rfl, rfl, rfl, seen, List.prefix_refl _, List.nil_prefix, hcs, hknows⟩
  unfold ofText at h
  dsimp only at h
  split at h
  · cases hcs : text.toList with
    | nil =>
      rw [hcs] at h hseen
      cases h
      exact ⟨[], hstart [] hseen, nofun⟩
    | cons c rest =>
      rw [hcs] at h hseen
      have hstands := hstart _ hseen
      cases h
      split
      · exact ⟨[c], hstands.advance rfl, nofun⟩
      · exact ⟨[], hstands, nofun⟩
  · cases h

end Scanner

/-! ### Feeds -/

/-- The positions of the comments. -/
def CommentGroup.places (groups : List CommentGroup) : List Nat :=
  (groups.flatMap toList).map Comment.pos

/-- The positions of the token and the comments before it. -/
def Piece.places (p : Piece) : List Nat := p.comments.map Comment.pos ++ [p.token.pos]

/-- The positions of what closes a feed. -/
def Feed.closingPlaces : Except LexError Piece → List Nat
  | .error e => [e.pos]
  | .ok p => p.places

/-- The positions of all of the feed. -/
def Feed.places (f : Feed) : List Nat :=
  f.pieces.flatMap Piece.places ++ closingPlaces f.closing

namespace Scanner

variable {s s' : Scanner} {t : Token} {file : File} {cs seen : List Char} {places : List Nat}
  {before : List Comment} {time : Option Nat} {clock : Clock}

/-- Behind a comment, which waits with those before it. -/
theorem Covers.behind_comment (h : s.Covers file cs seen (places ++ before.map Comment.pos))
    (hscan : s.scanBy time = (.ok t, s')) : s'.Covers file cs seen
      (places ++ (before ++ [(⟨t.pos, t.text⟩ : Comment)]).map Comment.pos) :=
  (h.scanBy_eq hscan).mono (by simp [start])

/-- Behind another token, with which no comments wait. -/
theorem Covers.behind_token (h : s.Covers file cs seen (places ++ before.map Comment.pos))
    (hscan : s.scanBy time = (.ok t, s')) : s'.Covers file cs seen
      (places ++ (Piece.mk before t s').places ++ ([] : List Comment).map Comment.pos) :=
  (h.scanBy_eq hscan).mono (by simp [start, Piece.places])

theorem Covers.behind_nil (h : s.Covers file cs seen (places ++ before.map Comment.pos)) :
    s.Covers file cs seen (places ++ [].flatMap Piece.places) := by
  refine h.mono ?_
  rw [List.flatMap_nil, List.append_nil]
  exact List.subset_append_left ..

/-- A scanner behind some pieces of the feed covers their places. -/
theorem Covers.behind (h : s.Covers file cs seen (places ++ before.map Comment.pos))
    {front : List Piece} (hfront : front <+: (s.feedBy clock before).pieces) :
    ((front.getLast?.map Piece.after).getD s).Covers file cs seen
      (places ++ front.flatMap Piece.places) := by
  induction clock, s using clockInduction generalizing places before front with
  | error clock s s' e hscan =>
    rw [feedBy_of_error hscan, List.prefix_nil] at hfront
    subst hfront
    exact h.behind_nil
  | endOfInput clock s s' t hscan hend =>
    rw [feedBy_of_endOfInput hscan hend, List.prefix_nil] at hfront
    subst hfront
    exact h.behind_nil
  | comment clock s s' t hscan hcomment ih =>
    rw [feedBy_of_comment hscan hcomment] at hfront
    have hrec := ih (h.behind_comment hscan) hfront
    cases hlast : front.getLast? with
    | none =>
      rw [List.getLast?_eq_none_iff] at hlast
      subst hlast
      exact h.behind_nil
    | some q =>
      rw [hlast] at hrec
      exact hrec
  | token clock s s' t hscan hend hcomment ih =>
    rw [feedBy_of_token hscan hend hcomment, List.prefix_cons_iff] at hfront
    rcases hfront with rfl | ⟨front, rfl, hfront⟩
    · exact h.behind_nil
    have hrec := ih (h.behind_token hscan) hfront
    rw [List.append_assoc, ← List.flatMap_cons] at hrec
    cases front <;> exact hrec

/-- The scanner behind a feed covers the places of all of it. -/
theorem Covers.last (h : s.Covers file cs seen (places ++ before.map Comment.pos)) :
    (s.feedBy clock before).last.Covers file cs seen
      (places ++ (s.feedBy clock before).places) := by
  induction clock, s using clockInduction generalizing places before with
  | error clock s s' e hscan =>
    rw [feedBy_of_error hscan]
    exact (h.scanBy_eq hscan).mono (by simp [start, Feed.places, Feed.closingPlaces])
  | endOfInput clock s s' t hscan hend =>
    rw [feedBy_of_endOfInput hscan hend]
    exact (h.scanBy_eq hscan).mono (by simp [start, Feed.places, Feed.closingPlaces, Piece.places])
  | comment clock s s' t hscan hcomment ih =>
    rw [feedBy_of_comment hscan hcomment]
    exact ih (h.behind_comment hscan)
  | token clock s s' t hscan hend hcomment ih =>
    rw [feedBy_of_token hscan hend hcomment]
    have hrec := ih (h.behind_token hscan)
    rw [List.append_assoc, Feed.places, ← List.append_assoc (Piece.places _),
      ← List.flatMap_cons] at hrec
    exact hrec

end Scanner

/-! ### Parsers -/

/-- A refusal is about a token that was read, or about the next one. -/
theorem Grammar.Rejects.exists_places {ts : List Token} {r : Refusal} (h : Rejects ts r) :
    ∃ read, ts = read ++ r.rest ∧ ∀ construct p, r.complaint = .unsupported construct p →
      p ∈ (read ++ r.rest.take 1).map Token.pos := by
  cases h with
  | @stuck r h =>
    obtain ⟨read, hts, -, hblames⟩ := h
    refine ⟨read, hts, fun construct p hp => ?_⟩
    cases hblames with
    | deep => cases hp
    | unexpected => cases hp
    | subquery hread =>
      cases hp
      simp [hread]
  | @subquery read us l hts => exact ⟨read, hts, fun _ _ hp => by cases hp; simp⟩
  | @join read us t hts => exact ⟨read, hts, fun _ _ hp => by cases hp; simp⟩
  | @multiple read us t hts => exact ⟨read, hts, fun _ _ hp => by cases hp; simp⟩

/-- The positions that the outcome of a parser names: that of the error, or those of the tokens and
the comments of the statement. -/
def outcomePlaces : Except ParseError Statement → List Nat
  | .error e => [e.pos]
  | .ok s => s.leaves.filterMap Leaf.pos ++ CommentGroup.places s.comments

theorem CommentGroup.places_append (gs hs : List CommentGroup) :
    places (gs ++ hs) = places gs ++ places hs := by
  rw [places, List.flatMap_append, List.map_append]
  rfl

theorem Piece.places_group? (p : Piece) : CommentGroup.places p.group?.toList ⊆ p.places := by
  rw [CommentGroup.places, p.toList_group?]
  exact List.subset_append_left ..

theorem Piece.places_groups (ps : List Piece) :
    CommentGroup.places (ps.filterMap group?) ⊆ ps.flatMap places := by
  induction ps with
  | nil => exact List.nil_subset _
  | cons p ps ih =>
    have hgroups : (p :: ps).filterMap group? = p.group?.toList ++ ps.filterMap group? := by
      cases h : p.group? <;> simp [h]
    rw [hgroups, CommentGroup.places_append, List.flatMap_cons]
    exact List.append_subset.2 ⟨List.subset_append_of_subset_left _ p.places_group?,
      List.subset_append_of_subset_right _ ih⟩

theorem Piece.places_tokens (ps : List Piece) :
    (ps.map token).map Token.pos ⊆ ps.flatMap places := by
  intro n hn
  obtain ⟨t, ht, rfl⟩ := List.mem_map.1 hn
  obtain ⟨p, hp, rfl⟩ := List.mem_map.1 ht
  exact List.mem_flatMap.2 ⟨p, hp, by simp [places]⟩

theorem Feed.places_groups (f : Feed) : CommentGroup.places f.groups ⊆ f.places := by
  rw [groups, CommentGroup.places_append, places]
  refine List.append_subset.2 ⟨List.subset_append_of_subset_left _ (Piece.places_groups _),
    List.subset_append_of_subset_right _ ?_⟩
  cases f.closing with
  | error e => exact List.nil_subset _
  | ok p => exact p.places_group?

theorem Feed.places_tokens (f : Feed) : f.tokens.map Token.pos ⊆ f.places :=
  List.subset_append_of_subset_left _ (Piece.places_tokens _)

/-- The positions of leaves are those of their tokens. -/
theorem Spells.places {ts : List Token} {ls : List Leaf} (h : Spells ts ls) :
    ls.filterMap Leaf.pos ⊆ ts.map Token.pos := by
  intro n hn
  obtain ⟨l, hl, hpos⟩ := List.mem_filterMap.1 hn
  clear hn
  induction h with
  | nil => cases hl
  | cons hmarks _ ih =>
    rcases List.mem_cons.1 hl with rfl | hl
    · rw [hmarks.2 n hpos]
      exact List.mem_cons_self
    · exact List.mem_cons_of_mem _ (ih hl)

namespace Parser

variable {p : Parser} {file : File} {cs seen : List Char} {clock : Clock}

/-- The scanner of the parser covers its comments and these places. -/
def Covers (p : Parser) (file : File) (cs seen : List Char) (places : List Nat) : Prop :=
  p.scanner.Covers file cs seen (CommentGroup.places p.waiting ++ places)

theorem Covers.mono {places places' : List Nat} (h : p.Covers file cs seen places)
    (hplaces : places' ⊆ places) : p.Covers file cs seen places' :=
  Scanner.Covers.mono h (List.append_subset.2 ⟨List.subset_append_left ..,
    List.subset_append_of_subset_right _ hplaces⟩)

/-- The parser covers the comments that it has come across. -/
theorem Covers.of_scanner {places : List Nat} {groups : List CommentGroup} {s : Scanner}
    (h : s.Covers file cs seen (CommentGroup.places p.waiting ++ places))
    (hgroups : CommentGroup.places groups ⊆ places) :
    ({ scanner := s, waiting := p.waiting ++ groups } : Parser).Covers file cs seen places := by
  refine Scanner.Covers.mono h ?_
  rw [CommentGroup.places_append]
  exact List.append_subset.2 ⟨List.append_subset.2 ⟨List.subset_append_left ..,
    List.subset_append_of_subset_right _ hgroups⟩, List.subset_append_right ..⟩

/-- No comments stand in front of the feed of a parser but those that wait. -/
theorem Covers.scanner (h : p.Covers file cs seen []) : p.scanner.Covers file cs seen
    (CommentGroup.places p.waiting ++ ([] : List Comment).map Comment.pos) := h

theorem covers_advance (h : p.Covers file cs seen []) {front : List Piece}
    (hfront : front <+: (p.scanner.feedBy clock []).pieces) :
    (p.advance front).Covers file cs seen (front.flatMap Piece.places) :=
  .of_scanner (h.scanner.behind hfront) (Piece.places_groups front)

theorem covers_finish (h : p.Covers file cs seen []) (clock : Clock) :
    (p.finish (p.scanner.feedBy clock [])).Covers file cs seen
      (p.scanner.feedBy clock []).places :=
  .of_scanner h.scanner.last (p.scanner.feedBy clock []).places_groups

/-- A parser that refuses a text has passed the place that the error names. -/
theorem covers_stopAt (h : p.Covers file cs seen []) {r : Refusal}
    (hrefused : Grammar.sentence (p.scanner.feedBy clock []).tokens = .error r) :
    (p.stopAt (p.scanner.feedBy clock []) r).Covers file cs seen
      [(r.error ((p.scanner.feedBy clock []).closing.map Piece.token)).pos] := by
  have hfinish := covers_finish h clock
  have hadvance : ∀ front, front <+: (p.scanner.feedBy clock []).pieces →
      (p.advance front).Covers file cs seen (front.flatMap Piece.places) :=
    fun _ => covers_advance h
  generalize p.scanner.feedBy clock [] = feed at hrefused hfinish hadvance ⊢
  obtain ⟨c, rest⟩ := r
  obtain ⟨read, htokens, hplaces⟩ := (Grammar.sentenceOf_rejects hrefused).exists_places
  cases rest with
  | nil =>
    refine hfinish.mono (List.cons_subset.2 ⟨?_, List.nil_subset _⟩)
    have hclosing := List.subset_append_right (feed.pieces.flatMap Piece.places)
      (Feed.closingPlaces feed.closing)
    cases hclosed : feed.closing with
    | error e => exact hclosing (by rw [hclosed]; exact List.mem_singleton_self _)
    | ok q =>
      cases c with
      | unexpected expected =>
        exact hclosing (by rw [hclosed]; exact List.mem_append_right _ (List.mem_singleton_self _))
      | unsupported construct n =>
        have hread : feed.tokens = read := htokens.trans (List.append_nil _)
        have hmem := hplaces construct n rfl
        rw [List.take_nil, List.append_nil, ← hread] at hmem
        exact feed.places_tokens hmem
  | cons t later =>
    -- The parser stops behind the pieces of the tokens read and of the next one.
    have hfront : ((feed.pieces.take (feed.pieces.length - later.length)).map Piece.token) =
        read ++ [t] := by
      have hsplit : feed.tokens = read ++ [t] ++ later := by
        rw [htokens, List.append_assoc]
        rfl
      rw [List.map_take, ← List.length_map (f := Piece.token), ← Feed.tokens, hsplit]
      exact List.take_left' (by simp only [List.length_append]; omega)
    refine (hadvance _ (List.take_prefix ..)).mono
      (List.cons_subset.2 ⟨Piece.places_tokens _ ?_, List.nil_subset _⟩)
    rw [hfront]
    cases c with
    | unexpected expected => simp [Refusal.error, Complaint.about, ParseError.pos]
    | unsupported construct n => exact hplaces construct n rfl

/-- A parser that returns has passed all places that the outcome names. -/
theorem covers_parseBy (h : p.Covers file cs seen []) (clock : Clock) :
    (p.parseBy clock).2.Covers file cs seen (outcomePlaces (p.parseBy clock).1) := by
  have hfinish := covers_finish h clock
  unfold parseBy conclude
  dsimp only
  cases hsentence : Grammar.sentence (p.scanner.feedBy clock []).tokens with
  | error r => exact covers_stopAt h hsentence
  | ok s =>
    dsimp only
    cases hclosing : (p.scanner.feedBy clock []).closing with
    | error e =>
      refine hfinish.mono (List.subset_append_of_subset_right _ ?_)
      rw [hclosing]
      exact List.Subset.refl _
    | ok q =>
      obtain ⟨-, -, -, rest, ⟨read, hread, hspells⟩, -⟩ := Grammar.sentenceOf_sound hsentence
      refine Scanner.Covers.mono hfinish (List.append_subset.2 ⟨List.nil_subset _,
        List.append_subset.2 ⟨List.subset_append_of_subset_right _ ?_, List.subset_append_left ..⟩⟩)
      refine List.Subset.trans hspells.places (List.Subset.trans ?_ (Feed.places_tokens _))
      rw [hread, List.map_append]
      exact List.subset_append_left ..

theorem covers_parse (h : p.Covers file cs seen []) :
    p.parse.2.Covers file cs seen (outcomePlaces p.parse.1) :=
  p.parseBy_nil ▸ covers_parseBy h []

end Parser

end SqlFormatter

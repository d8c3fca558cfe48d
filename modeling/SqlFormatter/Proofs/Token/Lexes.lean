import SqlFormatter.Proofs.Grammar.Progress
import SqlFormatter.Proofs.Statement.Moved
import SqlFormatter.Proofs.Token.Behind
import SqlFormatter.Proofs.Token.Lossless

/-!
# SqlFormatter.Proofs.Token.Lexes

The tokens of a piece of a text. `Lexes k p text rest ts k'` cuts a piece of a text into tokens with
their positions, with what stands in front of the piece (`k`, `p`) and behind it (`rest`) as
parameters. So a piece can be cut out of one text and put into another:

* `Lexes.split` and `Lexes.split_at` cut a piece in two behind a token and around one, and
  `Lexes.append` joins two pieces.
* `Lexes.moved`, `Lexes.after_kind` and `Lexes.before_stops` change the position, what stands in
  front and what stands behind.
* `Scanner.lexes_of_tokenize` and `Scanner.tokenize_of_lexes` say that a scanner cuts a text in this
  way, `Scanner.exists_lexes` what pieces the text of a file has, and
  `Scanner.exists_tokenize_of_lexes` what the tokens of a text are that is put together from pieces.
-/

namespace SqlFormatter

theorem filter_isProper_moved (f : Nat → Nat) (ts : List Token) :
    (ts.map (Token.moved f)).filter Token.isProper =
      (ts.filter Token.isProper).map (Token.moved f) :=
  List.filter_map

/-- After a token of kind `k` the text `text` at position `p`, in front of `rest`, consists of the
tokens `ts` and gaps. A token of kind `k'` is then the last one that was no comment. -/
inductive Lexes : Kind → Nat → List Char → List Char → List Token → Kind → Prop where
  /-- Nothing. -/
  | nil (k : Kind) (p : Nat) (rest : List Char) : Lexes k p [] rest [] k
  /-- A character that is in a gap. -/
  | gap {k k' : Kind} {p : Nat} {c : Char} {text rest : List Char} {ts : List Token}
      (hc : isGap c) (h : Lexes k (p + c.utf8Size) text rest ts k') :
    Lexes k p (c :: text) rest ts k'
  /-- One token, and then others. -/
  | token {k k' kind : Kind} {p : Nat} {c : Char} {ds text rest : List Char} {ts : List Token}
      (hc : isGap c = false)
      (hread : Lexeme.read false k c (ds ++ (text ++ rest)) = ⟨c :: ds, text ++ rest, .ok kind⟩)
      (h : Lexes (k.after kind) (p + byteLength (c :: ds)) text rest ts k') :
    Lexes k p (c :: ds ++ text) rest (⟨p, kind, String.ofList (c :: ds)⟩ :: ts) k'

/-- Whether it can depend on what stands in front of a minus that a token of the kind starts with
it. -/
def Kind.mayBeSigned : Kind → Bool
  | minus | integer | real => true
  | _ => false

/-- A minus that is read alone is a minus. -/
theorem Lexeme.kind_of_read_minus {k kind : Kind} {cs rest : List Char}
    (h : read false k '-' cs = ⟨['-'], rest, .ok kind⟩) : kind = .minus := by
  have hdash : dash false k cs = ⟨['-'], rest, .ok kind⟩ := h
  cases cs with
  | nil =>
    cases hdash
    rfl
  | cons c cs =>
    rw [dash] at hdash
    split_ifs at hdash with hcomment hnumber
    · simp [lineComment] at hdash
    · -- The digit belongs to the number.
      have htext := congrArg Cut.text hdash
      unfold number at htext
      rw [if_neg Bool.false_ne_true, readNumber_digit hnumber.1] at htext
      dsimp only at htext
      split at htext <;> simp at htext
    · cases hdash
      rfl

/-- What starts with a minus. -/
theorem Lexeme.mayBeSigned_of_read_minus {k kind : Kind} {cs : List Char}
    (h : (read false k '-' cs).result = .ok kind) (hkind : kind ≠ .comment) : kind.mayBeSigned := by
  have hdash : (dash false k cs).result = .ok kind := h
  cases cs with
  | nil =>
    cases hdash
    rfl
  | cons c cs =>
    rw [dash] at hdash
    split_ifs at hdash with hcomment hnumber
    · cases hdash
      exact absurd rfl hkind
    · unfold number at hdash
      rw [if_neg Bool.false_ne_true] at hdash
      dsimp only at hdash
      split at hdash
      · next part _ =>
        cases hdash
        cases part <;> rfl
      · cases hdash
    · cases hdash
      rfl

namespace Lexes

variable {k k' m : Kind} {p q : Nat} {text text' rest gap : List Char} {ts us : List Token}

/-- Two pieces side by side are a piece. -/
theorem append (h : Lexes k p text (text' ++ rest) ts k')
    (h' : Lexes k' (p + byteLength text) text' rest us m) :
    Lexes k p (text ++ text') rest (ts ++ us) m := by
  generalize hall : text' ++ rest = all at h
  induction h with
  | nil => exact h'
  | gap hc _ ih =>
    subst hall
    refine .gap hc (ih ?_ rfl)
    rwa [byteLength_cons, ← Nat.add_assoc] at h'
  | token hc hread _ ih =>
    subst hall
    rw [List.append_assoc]
    refine .token hc ?_ (ih ?_ rfl)
    · rwa [List.append_assoc]
    · rwa [byteLength_append, ← Nat.add_assoc] at h'

/-- A piece is cut in two behind its first tokens. -/
theorem split (h : Lexes k p text rest (ts ++ us) m) :
    ∃ front back k', text = front ++ back ∧ Lexes k p front (back ++ rest) ts k' ∧
      Lexes k' (p + byteLength front) back rest us m ∧
      ∀ t ∈ ts.getLast?, t.stop = p + byteLength front := by
  generalize hall : ts ++ us = all at h
  induction h generalizing ts with
  | nil =>
    obtain ⟨rfl, rfl⟩ := List.append_eq_nil_iff.1 hall
    exact ⟨[], [], _, rfl, .nil .., .nil .., nofun⟩
  | @gap k m p c text rest all hc h ih =>
    cases ts with
    | nil =>
      subst hall
      exact ⟨[], c :: text, k, rfl, .nil .., .gap hc h, nofun⟩
    | cons t ts =>
      obtain ⟨front, back, k', rfl, hfront, hback, hstop⟩ := ih hall
      rw [Nat.add_assoc, ← byteLength_cons] at hback hstop
      exact ⟨c :: front, back, k', rfl, .gap hc hfront, hback, hstop⟩
  | @token k m kind p c ds text rest all hc hread h ih =>
    cases ts with
    | nil =>
      subst hall
      exact ⟨[], c :: ds ++ text, k, rfl, .nil .., .token hc hread h, nofun⟩
    | cons t ts =>
      obtain ⟨rfl, hothers⟩ := List.cons_eq_cons.1 hall
      cases ts with
      | nil =>
        -- The piece ends behind this token.
        subst hothers
        have hfront : Lexes k p (c :: ds ++ []) (text ++ rest) _ _ := .token hc hread (.nil ..)
        rw [List.append_nil] at hfront
        refine ⟨c :: ds, text, k.after kind, rfl, hfront, h, fun t ht => ?_⟩
        rw [List.getLast?_singleton, Option.mem_some_iff] at ht
        rw [← ht, Token.stop, String.toList_ofList]
      | cons t ts =>
        obtain ⟨front, back, k', rfl, hfront, hback, hstop⟩ := ih hothers
        rw [Nat.add_assoc, ← byteLength_append] at hback hstop
        rw [List.append_assoc] at hread
        exact ⟨c :: ds ++ front, back, k', (List.append_assoc ..).symm, .token hc hread hfront,
          hback, hstop⟩

/-- A piece starts with a gap, and behind that with its first token. -/
theorem uncons {t : Token} (h : Lexes k p text rest (t :: ts) m) :
    ∃ gap c cs text', t.text.toList = c :: cs ∧ isGap c = false ∧ (∀ d ∈ gap, isGap d) ∧
      text = gap ++ (c :: cs ++ text') ∧ t.pos = p + byteLength gap ∧
      Lexes k t.pos (c :: cs) (text' ++ rest) [t] (k.after t.kind) ∧
      Lexes (k.after t.kind) (t.pos + byteLength (c :: cs)) text' rest ts m := by
  generalize hall : t :: ts = all at h
  induction h with
  | nil => cases hall
  | @gap k m p d text rest all hd h ih =>
    obtain ⟨gap, c, cs, text', htext, hc, hgap, rfl, hpos, hlexes⟩ := ih hall
    rw [Nat.add_assoc, ← byteLength_cons] at hpos
    exact ⟨d :: gap, c, cs, text', htext, hc, List.forall_mem_cons.2 ⟨hd, hgap⟩, rfl, hpos, hlexes⟩
  | @token k m kind p c ds text rest all hc hread h =>
    cases hall
    have hfirst : Lexes k p (c :: ds ++ []) (text ++ rest) [⟨p, kind, String.ofList (c :: ds)⟩]
        (k.after kind) := .token hc hread (.nil ..)
    rw [List.append_nil] at hfirst
    exact ⟨[], c, ds, text, String.toList_ofList, hc, nofun, rfl, rfl, hfirst, h⟩

/-- What is cut off a text moves with the text. -/
theorem moved {f : Nat → Nat} (h : Lexes k p text rest ts m) (hf : ∀ n, f (p + n) = q + n) :
    Lexes k q text rest (ts.map (Token.moved f)) m := by
  have hnext : ∀ {p q : Nat}, (∀ n, f (p + n) = q + n) → ∀ m n, f (p + m + n) = q + m + n :=
    fun hf m n => by rw [Nat.add_assoc, hf, Nat.add_assoc]
  induction h generalizing q with
  | nil => exact .nil ..
  | gap hc _ ih => exact .gap hc (ih (hnext hf _))
  | token hc hread _ ih =>
    have hpos := hf 0
    rw [Nat.add_zero, Nat.add_zero] at hpos
    rw [List.map_cons, Token.moved, hpos]
    exact .token hc hread (ih (hnext hf _))

/-- The last token that is no comment. -/
theorem kind_eq (h : Lexes k p text rest ts m) :
    m = ((ts.filter Token.isProper).getLast?.map Token.kind).getD k := by
  induction h with
  | nil => rfl
  | gap _ _ ih => exact ih
  | @token k m kind p c ds text rest ts hc hread h ih =>
    have hend : kind ≠ .endOfInput := fun hend =>
      Lexeme.read_ne_endOfInput k c _ (hend ▸ congrArg Cut.result hread)
    by_cases hkind : kind = .comment
    · subst hkind
      exact ih
    · rw [List.filter_cons_of_pos (by simp [Token.isProper, hkind, hend]), List.getLast?_cons, ih,
        Kind.after, if_neg hkind]
      cases (ts.filter Token.isProper).getLast? <;> rfl

/-- An operand has ended in front of a piece, or in it. -/
theorem endsOperand_iff (h : Lexes k p text rest ts m) (hk : k.endsOperand = false) :
    m.endsOperand ↔ ∃ t ∈ (ts.filter Token.isProper).getLast?, t.kind.endsOperand := by
  rw [h.kind_eq]
  cases (ts.filter Token.isProper).getLast? <;> simp [hk]

theorem nil_of_text (h : Lexes k p [] rest ts m) : ts = [] := by
  generalize hnil : ([] : List Char) = text at h
  cases h with
  | nil => rfl
  | gap => cases hnil
  | token => cases hnil

/-- A piece that is a minus has a minus at its end. -/
theorem exists_minus (h : Lexes k p ['-'] rest ts m) : ∃ t ∈ ts.getLast?, t.kind = .minus := by
  generalize htext : ['-'] = text at h
  cases h with
  | nil => cases htext
  | gap hc h =>
    cases htext
    cases hc
  | @token _ _ kind _ c ds text _ ts _ hread h =>
    obtain ⟨rfl, hothers⟩ := List.cons_eq_cons.1 htext
    obtain ⟨rfl, rfl⟩ := List.append_eq_nil_iff.1 hothers.symm
    obtain rfl := h.nil_of_text
    exact ⟨_, rfl, Lexeme.kind_of_read_minus hread⟩

/-- A byte order mark at the start of a piece is a token that is illegal. -/
theorem exists_illegal (h : Lexes k p (byteOrderMark :: text) rest ts m) :
    ∃ t us, ts = t :: us ∧ t.kind = .illegal := by
  generalize htext : byteOrderMark :: text = piece at h
  cases h with
  | nil => cases htext
  | gap hc h =>
    cases htext
    cases hc
  | @token _ _ kind _ c ds text _ ts _ hread h =>
    obtain ⟨rfl, -⟩ := List.cons_eq_cons.1 htext
    have hkind := (congrArg Cut.result hread).symm.trans (Lexeme.read_byteOrderMark false k _)
    exact ⟨_, _, rfl, Except.ok.inj hkind⟩

/-- A piece may start with a gap. -/
theorem of_gap (hgap : ∀ c ∈ gap, isGap c) (h : Lexes k (p + byteLength gap) text rest ts m) :
    Lexes k p (gap ++ text) rest ts m := by
  induction gap generalizing p with
  | nil => exact h
  | cons c cs ih =>
    obtain ⟨hc, hcs⟩ := List.forall_mem_cons.1 hgap
    rw [byteLength_cons, ← Nat.add_assoc] at h
    exact .gap hc (ih hcs h)

/-- A gap is a piece without tokens. -/
theorem of_isGap (k : Kind) (p : Nat) (rest : List Char) (hgap : ∀ c ∈ gap, isGap c) :
    Lexes k p gap rest [] k := by
  rw [← List.append_nil gap]
  exact .of_gap hgap (.nil ..)

/-- A piece may end with a gap. -/
theorem append_gap (h : Lexes k p text (gap ++ rest) ts m) (hgap : ∀ c ∈ gap, isGap c) :
    Lexes k p (text ++ gap) rest ts m := by
  have hpiece := h.append (of_isGap m _ rest hgap)
  rwa [List.append_nil] at hpiece

/-- A piece is cut in two in front of a token, and again behind it. -/
theorem split_at {t : Token} (h : Lexes k p text rest (ts ++ t :: us) m) :
    ∃ front c cs back k', t.text.toList = c :: cs ∧ isGap c = false ∧
      text = front ++ (c :: cs ++ back) ∧ t.pos = p + byteLength front ∧
      Lexes k p front (c :: cs ++ back ++ rest) ts k' ∧
      Lexes k' t.pos (c :: cs) (back ++ rest) [t] (k'.after t.kind) ∧
      Lexes (k'.after t.kind) (t.pos + byteLength (c :: cs)) back rest us m := by
  obtain ⟨front, others, k', rfl, hfront, hothers, -⟩ := h.split
  obtain ⟨gap, c, cs, back, ht, hc, hgap, rfl, hpos, hfirst, hback⟩ := hothers.uncons
  refine ⟨front ++ gap, c, cs, back, k', ht, hc, ?_, ?_, ?_, hfirst, hback⟩
  · rw [List.append_assoc]
  · rw [hpos, byteLength_append, Nat.add_assoc]
  · rw [List.append_assoc] at hfront
    exact hfront.append_gap hgap

/-- What stands in front of a piece matters only where its first token that is no comment may be
signed. -/
theorem after_kind (h : Lexes k p text rest ts m)
    (hk : k'.endsOperand = k.endsOperand ∨
      ∀ t ∈ ts.find? (·.kind != .comment), t.kind.mayBeSigned = false) :
    ∃ m', Lexes k' p text rest ts m' := by
  induction h generalizing k' with
  | nil => exact ⟨_, .nil ..⟩
  | gap hc _ ih =>
    obtain ⟨m', h⟩ := ih hk
    exact ⟨m', .gap hc h⟩
  | @token k m kind p c ds text rest ts hc hread h ih =>
    have hsame : kind ≠ .comment → kind.mayBeSigned → k'.endsOperand = k.endsOperand :=
      fun hkind hsigned => hk.resolve_right fun hfirst => by
        rw [hfirst _ (List.find?_cons_of_pos (by simpa using hkind))] at hsigned
        cases hsigned
    have hstops := Lexeme.stops_of_read (congrArg Cut.result hread)
    rw [hread] at hstops
    have hread' : Lexeme.read false k' c (ds ++ (text ++ rest)) = _ :=
      Lexeme.reread hread
        (fun hminus hkind => hsame hkind
          (Lexeme.mayBeSigned_of_read_minus (congrArg Cut.result (hminus ▸ hread)) hkind))
        (hstops.after_kind fun hkind => hsame (by simp [hkind]) (by rw [hkind]; rfl))
    by_cases hkind : kind = .comment
    · subst hkind
      obtain ⟨m', h'⟩ := ih hk
      exact ⟨m', .token hc hread' h'⟩
    · rw [Kind.after, if_neg hkind] at h
      exact ⟨m, .token hc hread' (by rwa [Kind.after, if_neg hkind])⟩

/-- A piece may be put in front of any text that its last token does not go on with. If that is a
minus, a blank must not follow it where none did before, because two minuses and a blank are a
comment. -/
theorem before_stops {rest' : List Char} (h : Lexes k p text rest ts m)
    (hstops : ∀ k, ∀ t ∈ ts.getLast?, Lexeme.Stops k t.kind t.text.toList rest →
      Lexeme.Stops k t.kind t.text.toList rest')
    (hblank : (∀ t ∈ ts.getLast?, t.kind ≠ .minus) ∨
      (rest'.head?.all isBlank → rest.head?.all isBlank)) :
    Lexes k p text rest' ts m := by
  induction h with
  | nil => exact .nil ..
  | gap hc _ ih => exact .gap hc (ih hstops hblank)
  | @token k m kind p c ds text rest ts hc hread h ih =>
    have hlater : ∀ {P : Token → Prop},
        (∀ t ∈ (Token.mk p kind (String.ofList (c :: ds)) :: ts).getLast?, P t) →
        ∀ t ∈ ts.getLast?, P t := fun hP t ht =>
      hP t (by rw [List.getLast?_cons, Option.mem_def.1 ht]; rfl)
    have hbehind := Lexeme.stops_of_read (congrArg Cut.result hread)
    rw [hread] at hbehind
    have hstops' : Lexeme.Stops k kind (c :: ds) (text ++ rest') := by
      cases text with
      | nil =>
        -- This is the last token.
        obtain rfl := h.nil_of_text
        have hlast := hstops k ⟨p, kind, String.ofList (c :: ds)⟩ rfl
        rw [String.toList_ofList] at hlast
        exact hlast hbehind
      | cons d more =>
        refine hbehind.congr (fun _ => rfl) fun _ hminus => ?_
        subst hminus
        cases more with
        | cons => exact id
        | nil =>
          -- The piece ends in this minus.
          obtain ⟨t, ht, hkind⟩ := h.exists_minus
          exact hblank.resolve_left fun hnone => hlater hnone t ht hkind
    exact .token hc (Lexeme.reread hread (fun _ _ => rfl) hstops')
      (ih (fun k => hlater (hstops k)) (hblank.imp_left hlater))

/-- A piece may be put in front of a delimiter if it does not end in a comment or a minus. -/
theorem before_delimited {rest' : List Char} (h : Lexes k p text rest ts m)
    (hrest : Delimited rest')
    (hlast : ∀ t ∈ ts.getLast?, t.kind ≠ .comment ∧ t.kind ≠ .minus) :
    Lexes k p text rest' ts m :=
  h.before_stops (fun _ t ht _ => Lexeme.stops_of_delimited hrest (hlast t ht).1)
    (Or.inl fun t ht => (hlast t ht).2)

end Lexes

namespace Scanner

variable {s : Scanner} {ts : List Token} {m : Kind}

/-- The tokens of a scanner are those of its text. -/
theorem lexes_of_tokenize (h : s.tokenize.1 = .ok ts) :
    ∃ init m, ts = init ++ [.endOfInput (s.pos + byteLength s.rest)] ∧
      (∀ t ∈ init, t.kind ≠ .endOfInput) ∧ Lexes s.previous s.pos s.rest [] init m := by
  induction hn : s.rest.length using Nat.strongRecOn generalizing s ts with
  | ind n ih =>
    rcases tokenize_eq_ok h with
      ⟨hends, rfl⟩ | ⟨gap, c, cs, t, u, others, rfl, hkind, hmeets, htakes, hothers, hlt⟩
    · exact ⟨[], s.previous, rfl, nofun, .of_isGap _ _ [] hends.isGap_of_mem⟩
    · obtain ⟨init, m, rfl, hproper, hlexes⟩ := ih _ (hn ▸ hlt) hothers rfl
      obtain ⟨ds, htext, hread⟩ := Lexeme.read_of_stops htakes.result_eq (fun _ _ => rfl)
        (Lexeme.stops_of_read htakes.result_eq)
      have happend := Lexeme.read_append s.expired s.previous c cs
      rw [htext, ← htakes.rest_after] at happend
      rw [← htakes.rest_after] at hread
      have hpos := htakes.pos_after
      rw [hmeets.pos_skipGap, htext] at hpos
      have hrest : s.rest = gap ++ (c :: ds ++ u.rest) := by rw [hmeets.rest_eq, ← happend]
      have hend : u.pos + byteLength u.rest = s.pos + byteLength s.rest := by
        rw [hpos, hrest, byteLength_append, byteLength_append]
        omega
      have ht : t = ⟨s.pos + byteLength gap, t.kind, String.ofList (c :: ds)⟩ := by
        rw [← hmeets.pos_skipGap, ← htakes.pos_eq, ← htext, ← htakes.text_eq]
      refine ⟨t :: init, m, by rw [hend]; rfl, List.forall_mem_cons.2 ⟨hkind, hproper⟩, ?_⟩
      rw [ht, hrest]
      refine .of_gap hmeets.isGap_of_mem (.token hmeets.isGap_first ?_ ?_)
      · rwa [List.append_nil]
      · rw [← hpos]
        exact htakes.previous_after ▸ hlexes

/-- A scanner finds the tokens of its text. -/
theorem tokenize_of_lexes (h : Lexes s.previous s.pos s.rest [] ts m)
    (hexpired : s.expired = false) :
    s.tokenize.1 = .ok (ts ++ [.endOfInput (s.pos + byteLength s.rest)]) := by
  generalize hprevious : s.previous = k at h
  generalize hpos : s.pos = p at h ⊢
  generalize hrest : s.rest = text at h ⊢
  generalize hnil : ([] : List Char) = rest at h
  induction h generalizing s with
  | nil =>
    rw [tokenize_of_rest_eq_nil hrest, hpos]
    rfl
  | @gap k m p c text rest ts hc _ ih =>
    rw [tokenize_of_scan_eq (scan_of_gap hrest hc), byteLength_cons, ← Nat.add_assoc]
    refine ih hexpired hprevious ?_ rfl hnil
    rw [pos_advance, hpos]
    rfl
  | @token k m kind p c ds text rest ts hc hread h ih =>
    subst hnil
    rw [List.append_nil] at hread
    have hread' : Lexeme.read s.expired s.previous c (ds ++ text) = ⟨c :: ds, text, .ok kind⟩ := by
      rw [hexpired, hprevious]
      exact hread
    obtain ⟨u, hscan, hrest', hprevious', hexpired'⟩ := scan_of_read hrest hc hread'
    have hkind : kind ≠ .endOfInput := fun hend =>
      Lexeme.read_ne_endOfInput k c _ (hend ▸ congrArg Cut.result hread)
    rcases scan_eq_ok hscan with ⟨-, ht, -⟩ | ⟨gap, c', cs, hmeets, htakes⟩
    · exact absurd (congrArg Token.kind ht) hkind
    · -- Behind the token stands `u`.
      have hpos' : u.pos = p + byteLength (c :: ds) := by
        have htext := String.ofList_injective (htakes.text_eq)
        rw [htakes.pos_after, ← htakes.pos_eq, ← htext, hpos]
      rw [tokenize_of_token hscan hkind, ih (hexpired'.trans hexpired)
        (hprevious'.trans (by rw [hprevious])) hpos' hrest' rfl, hpos, byteLength_append,
        ← Nat.add_assoc]
      rfl

end Scanner

/-! ### The text of a file -/

theorem leadingMark_eq (text : String) :
    leadingMark text = [] ∨ leadingMark text = [byteOrderMark] := by
  unfold leadingMark
  cases text.toList.head? with
  | none => exact Or.inl rfl
  | some c =>
    by_cases hc : c = byteOrderMark
    · exact Or.inr (by simp [hc])
    · exact Or.inl (by simp [hc])

/-- A text that starts in the same way has the same byte order mark. -/
theorem leadingMark_append {text : String} {front back back' : List Char}
    (htext : text.toList = leadingMark text ++ (front ++ back))
    (hback : back'.head? ≠ some byteOrderMark) :
    leadingMark (String.ofList (leadingMark text ++ (front ++ back'))) = leadingMark text := by
  rcases leadingMark_eq text with hmark | hmark
  · have hhead : (front ++ back').head? ≠ some byteOrderMark := by
      cases front with
      | nil => exact hback
      | cons c cs =>
        rw [hmark, List.nil_append] at htext
        unfold leadingMark at hmark
        rw [htext] at hmark
        simpa using hmark
    rw [hmark, List.nil_append]
    unfold leadingMark
    cases hcons : front ++ back' with
    | nil => simp
    | cons c cs =>
      rw [hcons] at hhead
      simpa using hhead
  · rw [hmark]
    simp [leadingMark]

/-- The tokens of a text are those of what stands behind its byte order mark. -/
theorem Scanner.exists_lexes {file : File} {text : String} {expired : Bool} {scanner : Scanner}
    {tokens : List Token} (hscanner : Scanner.ofText file text expired = .ok scanner)
    (htokens : scanner.tokenize.1 = .ok tokens) :
    ∃ rest init m, text.toList = leadingMark text ++ rest ∧
      tokens = init ++ [.endOfInput (file.base + byteLength text.toList)] ∧
      Lexes .endOfInput (file.base + byteLength (leadingMark text)) rest [] init m := by
  obtain ⟨htext, -, hpos, hprevious, -⟩ := Scanner.ofText_eq_ok hscanner
  obtain ⟨init, m, hinit, -, hlexes⟩ := Scanner.lexes_of_tokenize htokens
  rw [hpos, hprevious] at hlexes
  refine ⟨scanner.rest, init, m, htext, ?_, hlexes⟩
  rw [hinit, hpos, htext, byteLength_append, Nat.add_assoc]

/-- The tokens of a text that starts as another one does, and behind that has other pieces. -/
theorem Scanner.exists_tokenize_of_lexes {file : File} {text : String}
    {front back back' : List Char} {p : Nat} {ts : List Token} {m : Kind}
    (htext : text.toList = leadingMark text ++ (front ++ back))
    (hback : back'.head? ≠ some byteOrderMark)
    (h : Lexes .endOfInput p (front ++ back') [] ts m)
    (hsize : file.size = byteLength (leadingMark text ++ (front ++ back'))) :
    ∃ scanner f q,
      Scanner.ofText file (String.ofList (leadingMark text ++ (front ++ back'))) = .ok scanner ∧
      scanner.tokenize.1 = .ok (ts.map (Token.moved f) ++ [.endOfInput q]) := by
  rw [← String.toList_ofList (l := leadingMark text ++ (front ++ back'))] at hsize
  obtain ⟨scanner, hscanner⟩ := Scanner.exists_ofText false hsize
  obtain ⟨hnew, -, -, hprevious, hexpired⟩ := Scanner.ofText_eq_ok hscanner
  rw [String.toList_ofList, leadingMark_append htext hback] at hnew
  have hrest := List.append_cancel_left hnew
  have hlexes : Lexes scanner.previous scanner.pos scanner.rest []
      (ts.map (Token.moved fun n => n - p + scanner.pos)) m := by
    rw [hprevious, ← hrest]
    exact h.moved fun n => by omega
  exact ⟨scanner, _, _, hscanner, Scanner.tokenize_of_lexes hlexes hexpired⟩

end SqlFormatter

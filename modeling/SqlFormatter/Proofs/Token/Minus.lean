import SqlFormatter.Proofs.Token.Lexes

/-!
# SqlFormatter.Proofs.Token.Minus

What stands around a minus in a text.

* A text is cut in two around a minus (`Lexes.split_at_minus`), and an operand ends in front of it
  if a digit stands right behind it (`Lexes.exists_operand`). Otherwise it would be the sign of a
  number.
* So where an operand ends in front of a minus, and the next token but for comments starts with a
  digit, what stands between the two may be left out (`Lexes.close_up`).
-/

namespace SqlFormatter

/-! ### Lexemes -/

/-- A number without a sign starts with a digit. -/
theorem Standalone.digit_first {kind : Kind} {text : List Char} (h : Standalone kind text)
    (hkind : kind = .integer ∨ kind = .real) (hsign : text.head? ≠ some '-') :
    ∃ d ds, text = d :: ds ∧ d.isDigit := by
  obtain ⟨sign, d, ds, -, rfl, hsigns, hd, -, -⟩ := h.number_eq hkind
  rcases hsigns with rfl | rfl
  · exact ⟨d, ds, rfl, hd⟩
  · exact absurd rfl hsign

namespace Lexeme

variable {expired : Bool} {k kind : Kind} {c : Char} {cs : List Char}

theorem text_of_dash_eq_minus (h : (dash expired k cs).result = .ok .minus) :
    (dash expired k cs).text = ['-'] := by
  cases cs with
  | nil => rfl
  | cons d ds =>
    rw [dash] at h ⊢
    split_ifs at h ⊢
    · cases h
    · rcases kind_of_number h with h | h <;> cases h
    · rfl

/-- There is one way to write a minus. -/
theorem text_of_read_eq_minus (h : (read expired k c cs).result = .ok .minus) :
    (read expired k c cs).text = ['-'] := by
  unfold read at *
  split_ifs at h ⊢ with hletter hdigit hquote hhash hdash hslash
  · have hword : wordKind ((c :: cs).takeWhile isWordChar) = .minus := Except.ok.inj h
    rcases wordKind_cases ((c :: cs).takeWhile isWordChar) with hkind | ⟨k, hkind⟩ <;>
      cases hkind.symm.trans hword
  · rcases kind_of_number h with h | h <;> cases h
  · unfold quoted at h
    split_ifs at h
    split at h <;> cases h
  · cases h
  · exact text_of_dash_eq_minus h
  · rcases kind_of_slash h with h | h <;> cases h
  · exact absurd (kind_of_symbol h) (by decide)

end Lexeme

namespace Lexes

variable {k m : Kind} {p : Nat} {text rest : List Char} {us vs : List Token} {t : Token}

/-- A piece that is one token is read at once. -/
theorem read_eq {c : Char} {cs : List Char} (h : Lexes k p (c :: cs) rest [t] m)
    (hc : isGap c = false) (ht : t.text.toList = c :: cs) :
    Lexeme.read false k c (cs ++ rest) = ⟨c :: cs, rest, .ok t.kind⟩ := by
  generalize htext : c :: cs = text at h
  cases h with
  | gap hgap =>
    cases htext
    rw [hc] at hgap
    cases hgap
  | @token _ _ kind _ d ds text' _ _ _ hread h =>
    obtain ⟨rfl, rfl⟩ := List.cons_eq_cons.1 htext
    rw [String.toList_ofList] at ht
    obtain rfl : text' = [] := by simpa using ht
    simpa using hread

/-- A piece is cut in two around a minus. -/
theorem split_at_minus (h : Lexes k p text rest (us ++ t :: vs) m) (ht : t.kind = .minus) :
    ∃ front back k', text = front ++ '-' :: back ∧ t.pos = p + byteLength front ∧
      t.text.toList = ['-'] ∧ Lexes k p front ('-' :: (back ++ rest)) us k' ∧
      Lexeme.read false k' '-' (back ++ rest) = ⟨['-'], back ++ rest, .ok .minus⟩ ∧
      Lexes .minus (t.pos + 1) back rest vs m := by
  obtain ⟨front, c, cs, back, k', htext, hc, rfl, hpos, hfront, htoken, hback⟩ := h.split_at
  have hread := htoken.read_eq hc htext
  have hminus := Lexeme.text_of_read_eq_minus ((congrArg Cut.result hread).trans (by rw [ht]))
  obtain ⟨rfl, rfl⟩ := List.cons_eq_cons.1 ((congrArg Cut.text hread).symm.trans hminus)
  rw [ht] at hread hback
  exact ⟨front, back, k', rfl, hpos, htext, hfront, hread, hback⟩

/-- Behind a minus that a digit follows an operand has ended. -/
theorem exists_operand (h : Lexes .endOfInput p text rest (us ++ t :: vs) m)
    (ht : t.kind = .minus) :
    ∃ front back, text = front ++ '-' :: back ∧ t.pos = p + byteLength front ∧
      (startsWithDigit (back ++ rest) →
        ∃ u ∈ (us.filter Token.isProper).getLast?, u.kind.endsOperand) := by
  obtain ⟨front, back, k', rfl, hpos, -, hfront, hread, -⟩ := h.split_at_minus ht
  refine ⟨front, back, rfl, hpos, fun hdigit => ?_⟩
  have hends : k'.endsOperand := by
    cases hbehind : back ++ rest with
    | nil =>
      rw [hbehind] at hdigit
      cases hdigit
    | cons d ds =>
      rw [hbehind] at hdigit hread
      have hd : d.isDigit := by simpa [startsWithDigit] using hdigit
      simpa [hd] using (Lexeme.dash_eq_minus.1 hread).2
  exact (hfront.endsOperand_iff rfl).1 hends

/-- Where an operand ends in front of a minus, and only comments stand between it and a token that
starts with a digit, what stands between the two may be left out. -/
theorem close_up {cs : List Token} {u : Token} {d : Char} {ds : List Char}
    (h : Lexes .endOfInput p text rest (us ++ t :: (cs ++ u :: vs)) m) (ht : t.kind = .minus)
    (hoperand : ∃ x ∈ (us.filter Token.isProper).getLast?, x.kind.endsOperand)
    (hcs : cs.filter Token.isProper = []) (hu : u.text.toList = d :: ds) (hd : d.isDigit) :
    ∃ front between back f, text = front ++ '-' :: (between ++ d :: back) ∧
      t.pos = p + byteLength front ∧ u.pos = t.pos + 1 + byteLength between ∧
      Lexes .endOfInput p (front ++ '-' :: d :: back) rest
        (us ++ t :: (u :: vs).map (Token.moved f)) m := by
  obtain ⟨-, hblank, hdash⟩ := of_isDigit hd
  obtain ⟨front, others, k', rfl, hpos, htext, hfront, -, hothers⟩ := h.split_at_minus ht
  obtain ⟨between, c, es, back, k₁, hfirst, -, rfl, hpos', hbetween, hdigit, hback⟩ :=
    hothers.split_at
  obtain ⟨rfl, rfl⟩ := List.cons_eq_cons.1 (hfirst.symm.trans hu)
  have hk₁ : k₁ = .minus := by
    rw [hbetween.kind_eq, hcs]
    rfl
  have hk' : k'.endsOperand := (hfront.endsOperand_iff rfl).2 hoperand
  subst hk₁
  -- The front piece stands in front of the same character still.
  have hfront' : Lexes .endOfInput p front ('-' :: (c :: es ++ back) ++ rest) us k' := by
    refine hfront.before_stops (fun k x _ hstops => ?_) (Or.inr fun hhead => nomatch hhead)
    exact hstops.congr (fun _ => rfl) fun _ _ hhead => by simp [hblank] at hhead
  have hread : Lexeme.read false k' '-' ([] ++ (c :: es ++ back ++ rest)) =
      ⟨['-'], c :: es ++ back ++ rest, .ok .minus⟩ :=
    Lexeme.dash_eq_minus.2 ⟨fun hcomment => hdash hcomment.1, by simp [hk']⟩
  have hmoved := (hdigit.append hback).moved (f := fun n => n - u.pos + (t.pos + 1))
    (q := t.pos + 1) fun n => by omega
  have hminus : Lexes k' t.pos ('-' :: (c :: es ++ back)) rest
      (⟨t.pos, .minus, String.ofList ['-']⟩ :: _) m := .token rfl hread hmoved
  have ht' : t = ⟨t.pos, .minus, String.ofList ['-']⟩ := by
    rw [← htext, String.ofList_toList, ← ht]
  rw [← ht', hpos] at hminus
  exact ⟨front, between, es ++ back, _, rfl, hpos, hpos', hfront'.append hminus⟩

end Lexes

end SqlFormatter

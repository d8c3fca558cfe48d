import SqlFormatter.Proofs.Token.Lossless

/-!
# SqlFormatter.Proofs.Token.Width

How many bytes a token has. Keywords are as long in any mixture of cases, and the tokens of one or
two signs are as long as their kind says; only of the other kinds there are tokens of different
lengths (`Scanner.width_of_mem_tokenize`).
-/

namespace SqlFormatter

/-- The number of bytes of a token of the kind, if all such tokens have the same. -/
def Kind.width? : Kind → Option Nat
  | keyword k => some (byteLength k.word.toList)
  | plus | minus | star | slash | percent | eq | lt | gt => some 1
  | leftParen | rightParen | comma | semicolon | dot => some 1
  | notEq | ltEq | gtEq => some 2
  | ident | integer | real | string | comment | endOfInput | illegal => none

/-! ### Words -/

theorem utf8Size_toUpper (c : Char) : c.toUpper.utf8Size = c.utf8Size := by
  unfold Char.toUpper
  split
  · next h =>
    have hone : ∀ d : Char, d.val.toNat ≤ 127 → d.utf8Size = 1 := fun d hd => if_pos hd
    have hlow : 97 ≤ c.val.toNat := h.1
    have hhigh : c.val.toNat ≤ 122 := h.2
    rw [hone c (by omega)]
    refine hone _ ?_
    have hsum : (c.val + ('A'.val - 'a'.val)).toNat =
        (c.val.toNat + ('A'.val - 'a'.val).toNat) % 2 ^ 32 := UInt32.toNat_add ..
    have hshift : ('A'.val - 'a'.val).toNat = 2 ^ 32 - 32 := by decide
    rw [hsum, hshift]
    omega
  · rfl

theorem byteLength_map_toUpper (cs : List Char) :
    byteLength (cs.map Char.toUpper) = byteLength cs := by
  induction cs with
  | nil => rfl
  | cons c cs ih => rw [List.map_cons, byteLength_cons, byteLength_cons, ih, utf8Size_toUpper]

/-- A word that spells a keyword is as long as the keyword. -/
theorem Keyword.byteLength_of_ofText? {cs : List Char} {k : Keyword} (h : ofText? cs = some k) :
    byteLength cs = byteLength k.word.toList := by
  have hk := List.find?_some (p := fun k : Keyword => k.word.toList == cs.map Char.toUpper) h
  rw [eq_of_beq hk, byteLength_map_toUpper]

/-! ### Lexemes -/

namespace Lexeme

/-- The lexeme has as many bytes as its kind says, if that says it. -/
def Fits (l : Lexeme) : Prop :=
  ∀ kind, l.result = .ok kind → ∀ n ∈ kind.width?, byteLength l.text = n

variable {expired : Bool}

theorem word_fits (cs : List Char) : (word cs).Fits := by
  intro kind hkind n hn
  cases hkind
  unfold wordKind at hn
  cases hk : Keyword.ofText? (cs.takeWhile isWordChar) with
  | none =>
    rw [hk] at hn
    cases hn
  | some k =>
    rw [hk] at hn
    cases hn
    exact Keyword.byteLength_of_ofText? hk

theorem number_fits (sign digits : List Char) : (number expired sign digits).Fits := by
  intro kind hkind n hn
  unfold number at hkind
  split at hkind
  · cases hkind
  · dsimp only at hkind
    split at hkind
    · next part _ => cases part <;> cases hkind <;> cases hn
    · cases hkind

theorem quoted_fits (cs : List Char) : (quoted expired cs).Fits := by
  intro kind hkind n hn
  unfold quoted at hkind
  split_ifs at hkind
  split at hkind <;> cases hkind
  cases hn

theorem lineComment_fits (marker cs : List Char) : (lineComment marker cs).Fits := by
  intro kind hkind n hn
  cases hkind
  cases hn

theorem dash_fits (previous : Kind) (cs : List Char) : (dash expired previous cs).Fits := by
  have hminus : ∀ cs, Fits ⟨['-'], cs, .ok .minus⟩ := by
    rintro cs kind ⟨⟩ n ⟨⟩
    rfl
  cases cs with
  | nil => exact hminus []
  | cons c cs =>
    rw [dash]
    split_ifs
    · exact lineComment_fits _ _
    · exact number_fits _ _
    · exact hminus _

theorem slash_fits (cs : List Char) : (slash expired cs).Fits := by
  have hslash : ∀ cs, Fits ⟨['/'], cs, .ok .slash⟩ := by
    rintro cs kind ⟨⟩ n ⟨⟩
    rfl
  cases cs with
  | nil => exact hslash []
  | cons c cs =>
    rw [slash]
    split_ifs
    · intro kind hkind n hn
      unfold blockComment at hkind
      split_ifs at hkind
      have hresult : (blockTail cs).result = .ok kind := hkind
      rw [kind_of_blockTail hresult] at hn
      cases hn
    · exact hslash _

theorem symbol_fits (c : Char) (cs : List Char) : (symbol c cs).Fits := by
  have hsingle : ∀ cs, (single c cs).Fits := by
    intro cs kind hkind n hn
    cases hkind
    unfold singleKind? at hn
    split at hn <;> cases hn <;> rfl
  cases cs with
  | nil => exact hsingle []
  | cons d cs =>
    unfold symbol
    dsimp only
    split
    · next kind' hpair =>
      rintro kind ⟨⟩ n hn
      unfold pairKind? at hpair
      split_ifs at hpair with h h h h <;> cases hpair <;> cases hn <;> rw [h.1, h.2] <;> rfl
    · exact hsingle _

theorem read_fits (previous : Kind) (c : Char) (cs : List Char) :
    (read expired previous c cs).Fits := by
  unfold read
  split_ifs
  · exact word_fits _
  · exact number_fits _ _
  · exact quoted_fits _
  · exact lineComment_fits _ _
  · exact dash_fits _ _
  · exact slash_fits _
  · exact symbol_fits _ _

end Lexeme

/-- Every token has as many bytes as its kind says. -/
theorem Scanner.width_of_mem_tokenize {s : Scanner} {tokens : List Token}
    (h : s.tokenize.1 = .ok tokens) :
    ∀ t ∈ tokens, ∀ n ∈ t.kind.width?, byteLength t.text.toList = n := by
  induction hn : s.rest.length using Nat.strongRecOn generalizing s tokens with
  | ind n ih =>
    rcases tokenize_eq_ok h with
      ⟨-, rfl⟩ | ⟨gap, c, cs, t, u, others, rfl, -, -, htakes, hothers, hlt⟩
    · exact List.forall_mem_singleton.2 fun n hn => by cases hn
    · refine List.forall_mem_cons.2 ⟨fun n hn => ?_, ih _ (hn ▸ hlt) hothers rfl⟩
      rw [htakes.text_eq, String.toList_ofList]
      exact Lexeme.read_fits _ _ _ _ htakes.result_eq n hn

end SqlFormatter

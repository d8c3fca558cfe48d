import SqlFormatter.Proofs.Grammar.Lookahead
import SqlFormatter.Proofs.Grammar.Sentence
import SqlFormatter.Proofs.Grammar.Soundness.Expression

/-!
# SqlFormatter.Proofs.Grammar.Refusal.Expression

Where the rules for expressions refuse, and why.

* `Stuck opens ts r`: the refusal `r` of the tokens `ts` comes behind tokens that could have gone
  on: their words have the property `opens`, which is to be the first words of a value of the rule.
  So no rule reads too far.
* `Blames opens read r` says of the complaint what the error depends on later: whether it is that of
  a subquery, which is the case for SELECT in parentheses in the place of an operand.

There is one lemma for each rule. `Stuck.lift` carries a refusal from a rule to the one that uses
it.
-/

namespace SqlFormatter

namespace Grammar

/-! ### Words at the start of a value -/

/-- The words are the first words of a value with the property `good`. -/
def Begins {α : Type} (words : α → List Word) (good : α → Prop) (ws : List Word) : Prop :=
  ∃ a more, good a ∧ words a = ws ++ more

section Begins

variable {α β : Type} {words : α → List Word} {words' : β → List Word} {good : α → Prop}
  {good' : β → Prop} {ws front : List Word}

theorem Begins.nil {a : α} (h : good a) : Begins words good [] := ⟨a, _, h, rfl⟩

theorem Begins.extend (h : Begins words good ws)
    (hext : ∀ a, good a → ∃ b more, good' b ∧ words' b = front ++ (words a ++ more)) :
    Begins words' good' (front ++ ws) := by
  obtain ⟨a, more, ha, hwords⟩ := h
  obtain ⟨b, more', hb, hwords'⟩ := hext a ha
  exact ⟨b, more ++ more', hb, by simp [hwords', hwords]⟩

theorem Begins.of_append {vs : List Word} (h : Begins words good (ws ++ vs)) :
    Begins words good ws := by
  obtain ⟨a, more, ha, hwords⟩ := h
  exact ⟨a, vs ++ more, ha, by rw [hwords, List.append_assoc]⟩

end Begins

/-! ### Refusals -/

/-- The last token is a left parenthesis, and no name stands right before it. -/
def EndsGroup (read : List Token) : Prop :=
  ∃ outer l, read = outer ++ [l] ∧ l.kind = .leftParen ∧ ∀ t ∈ outer.getLast?, t.kind ≠ .ident

/-- What is known of the complaint of a refusal behind the tokens `read`: a left parenthesis where
a number could stand is the start of a subquery if SELECT follows, and no other one is. -/
inductive Blames (opens : List Word → Prop) (read : List Token) : Refusal → Prop where
  /-- Expressions are nested too deep. -/
  | deep (us : List Token) : Blames opens read ⟨.unexpected .shallowerNesting, us⟩
  /-- A token cannot stand here. -/
  | unexpected {expected : Expectation} {us : List Token}
      (h : startsWith (.keyword .SELECT) us → ¬EndsGroup read) :
    Blames opens read ⟨.unexpected expected, us⟩
  /-- There is a subquery in the place of an operand. -/
  | subquery {outer us : List Token} {l : Token} (hread : read = outer ++ [l])
      (hl : l.kind = .leftParen) (hus : startsWith (.keyword .SELECT) us)
      (hopens : opens (outer.map Token.word ++ [.number])) :
    Blames opens read ⟨.unsupported .subquery l.pos, us⟩

/-- The refusal `r` of the tokens `ts` comes behind tokens whose words have the property `opens`. -/
def Stuck (opens : List Word → Prop) (ts : List Token) (r : Refusal) : Prop :=
  ∃ read, ts = read ++ r.rest ∧ opens (read.map Token.word) ∧ Blames opens read r

/-- All refusals of the rule come behind tokens whose words have the property `opens`. -/
def Refuses {α : Type} (rule : Rule α) (opens : List Word → Prop) : Prop :=
  ∀ ⦃ts r⦄, rule ts = .error r → Stuck opens ts r

section Stuck

variable {opens opens' : List Word → Prop} {front read us : List Token} {r : Refusal} {t : Token}

theorem not_endsGroup_nil : ¬EndsGroup [] := by
  rintro ⟨outer, l, h, -⟩
  simp at h

theorem not_endsGroup_of_getLast (ht : t ∈ read.getLast?) (hkind : t.kind ≠ .leftParen) :
    ¬EndsGroup (front ++ read) := by
  rintro ⟨outer, l, h, hl, -⟩
  have hlast := @List.mem_getLast?_append_of_mem_getLast? _ front _ _ ht
  rw [h, List.getLast?_append_of_ne_nil _ (List.cons_ne_nil l []), List.getLast?_singleton] at hlast
  cases hlast
  exact hkind hl

theorem not_endsGroup_append_singleton (ht : t.kind ≠ .leftParen) :
    ¬EndsGroup (front ++ [t]) := not_endsGroup_of_getLast rfl ht

/-- The parenthesis of an argument list is not that of a group. -/
theorem not_endsGroup_of_name {name : Token} (hname : name.kind = .ident) :
    ¬EndsGroup (front ++ [name, t]) := by
  rintro ⟨outer, l, h, -, houter⟩
  rw [← List.singleton_append, ← List.append_assoc] at h
  obtain ⟨rfl, -⟩ := List.append_inj' h rfl
  exact houter name (by simp) hname

theorem not_endsGroup_of_tidy (h : Tidy (read.map Token.word)) : ¬EndsGroup (front ++ read) := by
  obtain ⟨w, hw, hkind⟩ := h.ends
  rw [List.getLast?_map, Option.map_eq_some_iff] at hw
  obtain ⟨t, ht, rfl⟩ := hw
  exact not_endsGroup_of_getLast ht hkind

theorem not_endsGroup_of_commas (hfront : ¬EndsGroup front)
    (hcomma : ∀ t ∈ read.getLast?, t.kind = .comma) : ¬EndsGroup (front ++ read) := by
  cases hlast : read.getLast? with
  | none => rwa [List.getLast?_eq_none_iff.1 hlast, List.append_nil]
  | some c =>
    refine not_endsGroup_of_getLast hlast ?_
    simp [hcomma c hlast]

/-- What stands further in front does not make the end that of a group. -/
theorem EndsGroup.of_append (hread : read ≠ []) (h : EndsGroup (front ++ read)) :
    EndsGroup read := by
  obtain ⟨outer, l, h, hl, houter⟩ := h
  obtain ⟨init, t, rfl⟩ : ∃ init t, read = init ++ [t] :=
    ⟨_, _, (List.dropLast_append_getLast hread).symm⟩
  rw [← List.append_assoc] at h
  obtain ⟨rfl, ht⟩ := List.append_inj' h rfl
  cases ht
  exact ⟨init, _, rfl, hl, fun u hu => houter u (List.mem_getLast?_append_of_mem_getLast? hu)⟩

/-- A refusal of the next token, where nothing has been read. -/
theorem Stuck.here (hopens : opens []) (expected : Expectation) (us : List Token) :
    Stuck opens us ⟨.unexpected expected, us⟩ :=
  ⟨[], rfl, hopens, .unexpected fun _ => not_endsGroup_nil⟩

/-- A refusal behind more tokens. -/
theorem Stuck.lift (h : Stuck opens us r)
    (hopens : ∀ ws, opens ws → opens' (front.map Token.word ++ ws))
    (hfront : startsWith (.keyword .SELECT) us → ¬EndsGroup front) :
    Stuck opens' (front ++ us) r := by
  obtain ⟨read, hus, hread, hblames⟩ := h
  refine ⟨front ++ read, by rw [hus, List.append_assoc], ?_, ?_⟩
  · rw [List.map_append]
    exact hopens _ hread
  · cases hblames with
    | deep us => exact .deep us
    | @unexpected expected vs h =>
      refine .unexpected fun hselect hends => ?_
      by_cases hnil : read = []
      · subst hnil
        rw [List.append_nil] at hends
        exact hfront (hus ▸ hselect) hends
      · exact h hselect (hends.of_append hnil)
    | @subquery outer us l hread hl hselect hnumber =>
      refine @Blames.subquery _ _ (front ++ outer) _ _ ?_ hl hselect ?_
      · rw [hread, List.append_assoc]
      · rw [List.map_append, List.append_assoc]
        exact hopens _ hnumber

/-- A refusal of the token behind those that were read. -/
theorem Stuck.behind (h : Stuck (Eq []) us r) (hopens : opens (front.map Token.word))
    (hfront : startsWith (.keyword .SELECT) us → ¬EndsGroup front) : Stuck opens (front ++ us) r :=
  h.lift (by rintro _ rfl; rwa [List.append_nil]) hfront

theorem Stuck.mono (h : Stuck opens us r) (hopens : ∀ ws, opens ws → opens' ws) :
    Stuck opens' us r := by
  have hlift : Stuck opens' ([] ++ us) r := h.lift hopens fun _ => not_endsGroup_nil
  exact hlift

end Stuck

/-! ### Tokens and lists -/

section Words

variable {t : Token}

theorem word_of_kind {k : Kind} (h : t.kind = k) (hk : k.keepsText = false) :
    t.word = .fixed k := (Leaf.marks_fixed h hk).1

theorem word_of_ident (h : t.kind = .ident) : t.word = ⟨.ident, t.text⟩ :=
  (Leaf.marks_ofName h).1

end Words

/-- A rule for one token refuses the next one. -/
theorem token_refuses (k : Kind) : Refuses (token k) (Eq []) := by
  intro ts r h
  cases ts with
  | nil =>
    cases h
    exact .here rfl _ _
  | cons t ts =>
    rw [token] at h
    split at h <;> cases h
    exact .here rfl _ _

theorem token_eq_ok {k : Kind} {ts rest : List Token} {p : Nat} (h : token k ts = .ok (p, rest)) :
    ∃ t, ts = t :: rest ∧ t.kind = k := by
  cases ts with
  | nil => cases h
  | cons t ts =>
    rw [token] at h
    split at h <;> cases h
    exact ⟨t, rfl, ‹_›⟩

theorem identifier_refuses : Refuses identifier (Eq []) := by
  intro ts r h
  cases ts with
  | nil =>
    cases h
    exact .here rfl _ _
  | cons t ts =>
    rw [identifier] at h
    split at h <;> cases h
    exact .here rfl _ _

/-- Some list ends with this item. -/
theorem exists_toList_eq {α : Type} (xs : List α) (x : α) :
    ∃ ys : NonemptyList α, ys.toList = xs ++ [x] := by
  cases xs with
  | nil => exact ⟨⟨x, []⟩, rfl⟩
  | cons y ys => exact ⟨⟨y, ys ++ [x]⟩, rfl⟩

section Lists

variable {α : Type} {item : Rule α} {leaves : α → List Leaf} {good : α → Prop}

/-- Where items are refused, there is one behind a comma that is. -/
theorem commaItems_eq_error (hsound : Sound item leaves good) (hsees : Sees item)
    {ts : List Token} {r : Refusal} (h : commaItems item ts = .error r) :
    ∃ (xs : List α) (front : List Token) (t : Token) (us : List Token), (∀ x ∈ xs, good x) ∧
      ts = front ++ t :: us ∧ Spells front (xs.flatMap fun x => .comma :: leaves x) ∧
      t.kind = .comma ∧ item us = .error r := by
  induction hn : ts.length using Nat.strongRecOn generalizing ts with
  | ind n ih =>
    cases ts with
    | nil =>
      rw [commaItems] at h
      cases h
    | cons t ts =>
      by_cases ht : t.kind = .comma
      · rw [commaItems_cons hsees ht] at h
        rcases bind_eq_error h with hitem | ⟨⟨x, us⟩, hx, hitems⟩
        · exact ⟨[], [], t, ts, by simp, rfl, .nil, ht, hitem⟩
        obtain ⟨hgood, read, rfl, hread⟩ := hsound hx
        rcases bind_eq_error hitems with hitems | ⟨p, -, hok⟩
        · have hlt : us.length < n := by
            rw [← hn, List.length_cons, List.length_append]
            omega
          obtain ⟨xs, front, u, vs, hgoods, rfl, hfront, hu, hitem⟩ :=
            ih us.length hlt hitems rfl
          refine ⟨x :: xs, t :: (read ++ front), u, vs, List.forall_mem_cons.2 ⟨hgood, hgoods⟩,
            ?_, .cons (Leaf.marks_comma ht) (List.rel_append hread hfront), hu, hitem⟩
          rw [List.cons_append, List.append_assoc]
        · cases hok
      · rw [commaItems, if_neg ht] at h
        cases h

/-- Where a list is refused, there is an item that is, behind others with a comma each. -/
theorem commaList_eq_error (hsound : Sound item leaves good) (hsees : Sees item)
    {ts : List Token} {r : Refusal} (h : commaList item ts = .error r) :
    ∃ (xs : List α) (front us : List Token), (∀ x ∈ xs, good x) ∧ ts = front ++ us ∧
      Spells front (xs.flatMap fun x => leaves x ++ [.comma]) ∧
      (∀ t ∈ front.getLast?, t.kind = .comma) ∧ item us = .error r := by
  rcases bind_eq_error h with hitem | ⟨⟨x, us⟩, hx, hitems⟩
  · exact ⟨[], [], ts, by simp, rfl, .nil, by simp, hitem⟩
  obtain ⟨hgood, read, rfl, hread⟩ := hsound hx
  rcases bind_eq_error hitems with hitems | ⟨p, -, hok⟩
  · obtain ⟨xs, front, t, vs, hgoods, rfl, hfront, ht, hitem⟩ :=
      commaItems_eq_error hsound hsees hitems
    refine ⟨x :: xs, read ++ front ++ [t], vs, List.forall_mem_cons.2 ⟨hgood, hgoods⟩, by simp,
      ?_, by simpa using ht, hitem⟩
    rw [Leaf.flatMap_comma]
    exact List.rel_append (List.rel_append hread hfront) (.cons (Leaf.marks_comma ht) .nil)
  · cases hok

section Behind

variable {β : Type} {words : β → List Word} {whole : β → Prop} {part : α → Prop}
  {front us : List Token} {r : Refusal} (hsound : Sound item leaves good)
  (hpart : ∀ x, good x → part x)
  (hext : ∀ xs : NonemptyList α, (∀ x ∈ xs.toList, part x) → ∃ b more, whole b ∧
    words b = front.map Token.word ++ ((Leaf.list leaves xs.toList).map Leaf.word ++ more))
include hsound hpart hext

/-- A list that is a part of something else is refused for one of its items. -/
theorem commaList_stuck (hsees : Sees item)
    (hitem : Refuses item (Begins (fun x => (leaves x).map Leaf.word) part))
    (hfront : ¬EndsGroup front) (h : commaList item us = .error r) :
    Stuck (Begins words whole) (front ++ us) r := by
  obtain ⟨xs, read, us, hxs, rfl, hread, hcomma, hrefused⟩ := commaList_eq_error hsound hsees h
  have hlift : Stuck (Begins words whole) ((front ++ read) ++ us) r := by
    refine (hitem hrefused).lift (fun ws hws => hws.extend fun x hx => ?_) fun _ =>
      not_endsGroup_of_commas hfront hcomma
    obtain ⟨items, hitems⟩ := exists_toList_eq xs x
    have hall : ∀ y ∈ items.toList, part y := by
      rw [hitems, List.forall_mem_append, List.forall_mem_singleton]
      exact ⟨fun y hy => hpart y (hxs y hy), hx⟩
    obtain ⟨b, more, hb, hwords⟩ := hext items hall
    refine ⟨b, more, hb, ?_⟩
    rw [hwords, hitems, Leaf.list_append_singleton, List.map_append, List.map_append,
      hread.map_word, List.append_assoc, List.append_assoc]
  rwa [List.append_assoc] at hlift

/-- What is refused behind a list that was read. -/
theorem commaList_stuck_behind (htidy : ∀ x, part x → Tidy ((leaves x).map Leaf.word))
    {ts : List Token} {xs : NonemptyList α} (h : commaList item ts = .ok (xs, us))
    (hrefused : Stuck (Eq []) us r) : Stuck (Begins words whole) (front ++ ts) r := by
  obtain ⟨hgood, read, rfl, hread⟩ := commaList_sound hsound h
  have hall : ∀ x ∈ xs.toList, part x := fun x hx => hpart x (hgood x hx)
  obtain ⟨b, more, hb, hwords⟩ := hext xs hall
  have htidyRead : Tidy (read.map Token.word) := by
    rw [hread.map_word]
    exact Tidy.gathers.list fun x hx => htidy x (hall x hx)
  have hbehind : Stuck (Begins words whole) ((front ++ read) ++ us) r := by
    refine hrefused.behind ⟨b, more, hb, ?_⟩ fun _ => not_endsGroup_of_tidy htidyRead
    rw [hwords, List.map_append, hread.map_word, List.append_assoc]
  rwa [List.append_assoc] at hbehind

end Behind

end Lists

/-! ### Operators -/

/-- A canonical expression of the `k` tightest tiers. -/
def OfTier (k : Nat) (e : Expr) : Prop := e.Canonical ∧ e.level ≤ k

/-- A canonical expression that can be an operand. -/
def IsOperand (e : Expr) : Prop := e.isOperand ∧ e.Canonical

theorem ofTier_of_isOperand {e : Expr} (h : IsOperand e) : OfTier 0 e :=
  ⟨h.2, Nat.le_of_eq (Expr.level_eq_zero_of_isOperand h.1)⟩

theorem isOperand_wildcard (p : Nat) : IsOperand (.wildcard p) :=
  ⟨rfl, Expr.canonical_iff.2 ⟨trivial, by simp [Expr.children]⟩⟩

/-- The words are the first words of an expression with the property `good`. -/
abbrev Starting (good : Expr → Prop) : List Word → Prop := Begins Expr.yield good

section Operators

variable {n k : Nat} {operand : Rule Expr}

theorem tooDeep_refuses {opens : List Word → Prop} (h : opens []) : Refuses tooDeep opens := by
  intro ts r hdeep
  cases hdeep
  exact ⟨[], rfl, h, .deep ts⟩

/-- Where a chain refuses to go on, an operand behind one of its operators is refused. -/
theorem chainFrom_eq_error (hsound : Sound operand Expr.leaves (Tiered n k)) {x : Expr}
    {ts : List Token} {r : Refusal} (hx : OfTier (k + 1) x)
    (h : chainFrom operand (k + 1) x ts = .error r) :
    ∃ (e : Expr) (front : List Token) (t : Token) (us : List Token) (op : BinaryOp)
      (ls : List Leaf), OfTier (k + 1) e ∧ e.leaves = x.leaves ++ ls ∧ Spells front ls ∧
      ts = front ++ t :: us ∧ t.kind = op.kind ∧ tierOf op = k + 1 ∧ operand us = .error r := by
  induction hn : ts.length using Nat.strongRecOn generalizing ts x with
  | ind m ih =>
    cases ts with
    | nil =>
      rw [chainFrom] at h
      cases h
    | cons t ts =>
      rw [chainFrom] at h
      split at h
      · cases h
      next op hop =>
      have hkind : t.kind = op.kind := (BinaryOp.kind_of_ofKind?_eq_some hop).symm
      split at h
      · next htier =>
        rcases bind_eq_error h with hoperand | ⟨⟨y, us⟩, hy, hchain⟩
        · exact ⟨x, [], t, ts, op, [], hx, (List.append_nil _).symm, .nil, rfl, hkind, htier,
            hoperand⟩
        obtain ⟨hygood, hread⟩ := hsound hy
        dsimp only at hchain
        rw [dif_pos hread.length_le] at hchain
        have hlt : us.length < m := hn ▸ hread.length_lt t
        have hroot : (Expr.binary x t.pos op y).RootCanonical := by
          rw [Expr.rootCanonical_binary_iff, htier]
          exact ⟨hx.2, Nat.lt_succ_of_le hygood.level_le⟩
        have hbinary : OfTier (k + 1) (.binary x t.pos op y) :=
          ⟨Expr.canonical_binary.2 ⟨hroot, hx.1, hygood.canonical⟩, Nat.le_of_eq htier⟩
        obtain ⟨e, front, u, vs, op', ls, he, hleaves, hspells, rfl, hu, htier', hoperand⟩ :=
          ih us.length hlt hbinary hchain rfl
        obtain ⟨read, hts, hspellsRead⟩ := hread
        have hmark : (Leaf.fixed t.pos op.kind).Marks t :=
          Leaf.marks_fixed hkind (by cases op <;> rfl)
        refine ⟨e, t :: (read ++ front), u, vs, op', _, he, ?_,
          .cons hmark (List.rel_append hspellsRead hspells), ?_, hu, htier', hoperand⟩
        · rw [hleaves, Expr.leaves, List.append_assoc]
          rfl
        · rw [hts, List.cons_append, List.append_assoc]
      · cases h

theorem tier_refuses (hsound : Sound operand Expr.leaves (Tiered n 0))
    (hoperand : Refuses operand (Starting (OfTier 0))) (k : Nat) :
    Refuses (tier operand k) (Starting (OfTier k)) := by
  induction k with
  | zero => exact hoperand
  | succ k ih =>
    intro ts r h
    rcases bind_eq_error h with hfirst | ⟨⟨x, us⟩, hx, hchain⟩
    · refine (ih hfirst).mono fun ws ⟨e, more, he, hwords⟩ => ?_
      exact ⟨e, more, ⟨he.1, Nat.le_succ_of_le he.2⟩, hwords⟩
    -- What was read is the left side of the operator whose operand is refused.
    obtain ⟨hxgood, read, rfl, hread⟩ := tier_sound hsound k hx
    obtain ⟨e, front, t, vs, op, ls, he, hleaves, hspells, rfl, ht, htier, hright⟩ :=
      chainFrom_eq_error (tier_sound hsound k) ⟨hxgood.canonical, Nat.le_succ_of_le hxgood.level_le⟩
        hchain
    have hwords : (read ++ front ++ [t]).map Token.word = e.yield ++ [.fixed op.kind] := by
      have hspellsLeft : Spells (read ++ front) e.leaves :=
        hleaves ▸ List.rel_append hread hspells
      rw [List.map_append, hspellsLeft.map_word, List.map_singleton,
        word_of_kind ht (by cases op <;> rfl)]
      rfl
    have hlift : Stuck (Starting (OfTier (k + 1))) ((read ++ front ++ [t]) ++ vs) r := by
      refine (ih hright).lift (fun ws hws => hws.extend fun y hy => ?_) fun _ =>
        not_endsGroup_append_singleton (by rw [ht]; cases op <;> decide)
      have hroot : (Expr.binary e t.pos op y).RootCanonical := by
        rw [Expr.rootCanonical_binary_iff, htier]
        exact ⟨he.2, Nat.lt_succ_of_le hy.2⟩
      refine ⟨.binary e t.pos op y, [],
        ⟨Expr.canonical_binary.2 ⟨hroot, he.1, hy.1⟩, Nat.le_of_eq htier⟩, ?_⟩
      rw [hwords, Expr.yield, Expr.leaves]
      simp [Expr.yield, Leaf.fixed]
    simpa using hlift

theorem nullTest_refuses {unary : Rule Expr} (hsound : Sound unary Expr.leaves (Operand n))
    (hunary : Refuses unary (Starting IsOperand)) :
    Refuses (nullTest unary) (Starting (OfTier 0)) := by
  intro ts r h
  rcases bind_eq_error h with hoperand | ⟨⟨x, us⟩, hx, htest⟩
  · exact (hunary hoperand).mono fun ws ⟨e, more, he, hwords⟩ =>
      ⟨e, more, ofTier_of_isOperand he, hwords⟩
  obtain ⟨hxgood, read, rfl, hread⟩ := hsound hx
  cases us with
  | nil => cases htest
  | cons t us =>
    dsimp only at htest
    split at htest
    · next his =>
      rcases bind_eq_error htest with hnull | ⟨p, -, hok⟩
      · have hwords : (read ++ [t]).map Token.word = x.yield ++ [.fixed (.keyword .IS)] := by
          rw [List.map_append, hread.map_word, List.map_singleton, word_of_kind his rfl]
          rfl
        have hbehind : Stuck (Starting (OfTier 0)) ((read ++ [t]) ++ us) r := by
          refine (token_refuses _ hnull).behind ?_ fun _ =>
            not_endsGroup_append_singleton (by simp [his])
          refine ⟨.isNull x t.pos 0, [.fixed (.keyword .NULL)],
            ⟨Expr.canonical_isNull.2 ⟨hxgood.isOperand, hxgood.canonical⟩, Nat.le_refl 0⟩, ?_⟩
          rw [hwords, Expr.yield, Expr.leaves]
          simp [Expr.yield, Leaf.fixed]
        simpa using hbehind
      · cases hok
    · cases htest

theorem operators_refuses {unary : Rule Expr} (hsound : Sound unary Expr.leaves (Operand n))
    (hunary : Refuses unary (Starting IsOperand)) :
    Refuses (operators unary) (Starting Expr.Canonical) := by
  intro ts r h
  have hstuck := tier_refuses (nullTest_sound hsound) (nullTest_refuses hsound hunary) _ h
  exact hstuck.mono fun ws ⟨e, more, he, hwords⟩ => ⟨e, more, he.1, hwords⟩

end Operators

/-! ### Operands -/

/-- All refusals of a rule for what stands behind `t` in an operand come behind the first words of
one. -/
def RefusesAfter (t : Token) (rule : Rule Expr) : Prop :=
  ∀ ⦃ts r⦄, rule ts = .error r → Stuck (Starting IsOperand) (t :: ts) r

/-- The words are those of some arms, of which there is one at least, without the last ones. -/
abbrev StartingArms : List Word → Prop :=
  Begins (fun as : List Arm => (as.flatMap Arm.leaves).map Leaf.word)
    fun as => as ≠ [] ∧ ∀ a ∈ as, a.cond.Canonical ∧ a.result.Canonical

/-- The words are the first words of the last part of a choice. -/
abbrev StartingOtherwise : List Word → Prop :=
  Begins (fun last : Option Otherwise => (last.elim [] Otherwise.leaves).map Leaf.word)
    fun last => ∀ o ∈ last, o.result.Canonical

section Operands

variable {n : Nat} {inner : Rule Expr} {t : Token}

theorem argument_refuses (hinner : Refuses inner (Starting Expr.Canonical)) :
    Refuses (afterName.argument inner) (Starting Expr.Canonical) := by
  intro ts r h
  cases ts with
  | nil =>
    cases h
    exact .here (.nil (isOperand_wildcard 0).2) _ _
  | cons t ts => exact hinner h

section Calls

variable {u : Token} (ht : t.kind = .ident) (hu : u.kind = .leftParen)
include ht hu

/-- Arguments behind a name and a left parenthesis are those of a call. -/
theorem starting_call {args : List Expr} (hargs : ∀ a ∈ args, a.Canonical) :
    ∃ e more, IsOperand e ∧ e.yield =
      [t, u].map Token.word ++ ((Leaf.list Expr.leaves args).map Leaf.word ++ more) := by
  refine ⟨.call ⟨0, t.text⟩ 0 args 0, [.fixed .rightParen],
    ⟨rfl, Expr.canonical_call.2 hargs⟩, ?_⟩
  rw [Expr.yield, Expr.leaves_call]
  simp [word_of_ident ht, word_of_kind hu rfl, Leaf.ofName, Leaf.fixed]

theorem arguments_refuse (hsound : Sound inner Expr.leaves (Inner n)) (hsees : Sees inner)
    (hinner : Refuses inner (Starting Expr.Canonical)) {ts : List Token} {r : Refusal}
    (h : commaList (afterName.argument inner) ts = .error r) :
    Stuck (Starting IsOperand) ([t, u] ++ ts) r :=
  commaList_stuck (argument_sound hsound) (fun _ ha => ha.canonical)
    (fun _ hargs => starting_call ht hu hargs) (argument_sees hsees) (argument_refuses hinner)
    (@not_endsGroup_of_name [] u t ht) h

/-- Behind the arguments there must be a right parenthesis. -/
theorem call_refuses (hsound : Sound inner Expr.leaves (Inner n)) {ts us : List Token}
    {args : NonemptyList Expr} {r : Refusal}
    (hargs : commaList (afterName.argument inner) ts = .ok (args, us))
    (h : token .rightParen us = .error r) : Stuck (Starting IsOperand) ([t, u] ++ ts) r :=
  commaList_stuck_behind (argument_sound hsound) (fun _ ha => ha.canonical)
    (fun _ hargs => starting_call ht hu hargs) (fun a _ => a.tidy_yield) hargs
    (token_refuses _ h)

end Calls

/-- Behind a name and a dot there must be another name. -/
theorem qualified_refuses {u : Token} (ht : t.kind = .ident) (hu : u.kind = .dot) {ts : List Token}
    {r : Refusal} (h : identifier ts = .error r) : Stuck (Starting IsOperand) ([t, u] ++ ts) r := by
  refine (identifier_refuses h).behind ?_ fun _ =>
    @not_endsGroup_append_singleton [t] u (by simp [hu])
  have hcolumn : Operand 0 (.column (some ⟨t.pos, t.text⟩) ⟨0, "x"⟩) :=
    operand_of_leaf rfl trivial rfl rfl
  refine ⟨_, [⟨.ident, "x"⟩], ⟨hcolumn.isOperand, hcolumn.canonical⟩, ?_⟩
  simp [word_of_ident ht, word_of_kind hu rfl, Expr.yield, Expr.leaves, Leaf.ofName, Leaf.dot]

theorem afterName_refuses (hsound : Sound inner Expr.leaves (Inner n)) (hsees : Sees inner)
    (hinner : Refuses inner (Starting Expr.Canonical)) (ht : t.kind = .ident) :
    RefusesAfter t (afterName inner ⟨t.pos, t.text⟩) := by
  intro ts r h
  cases ts with
  | nil => cases h
  | cons u us =>
    by_cases hdot : u.kind = .dot
    · rw [afterName_dot hdot] at h
      rcases bind_eq_error h with hname | ⟨p, -, hok⟩
      · exact qualified_refuses ht hdot hname
      · cases hok
    by_cases hlparen : u.kind = .leftParen
    · cases us with
      | nil =>
        rw [afterName_arguments_nil hlparen] at h
        cases h
        have hnone : ∀ a ∈ ([] : List Expr), a.Canonical := List.forall_mem_nil _
        have hbehind : Stuck (Starting IsOperand) ([t, u] ++ [])
            ⟨.unexpected .functionArgument, []⟩ :=
          (Stuck.here rfl _ _).behind (starting_call ht hlparen hnone) fun _ =>
            @not_endsGroup_of_name [] u t ht
        exact hbehind
      | cons v vs =>
        by_cases hrparen : v.kind = .rightParen
        · rw [afterName_no_arguments hlparen hrparen] at h
          cases h
        rw [afterName_arguments hlparen hrparen] at h
        rcases bind_eq_error h with hargs | ⟨⟨args, ws⟩, hargs, hclose⟩
        · exact arguments_refuse ht hlparen hsound hsees hinner hargs
        rcases bind_eq_error hclose with hrefused | ⟨p, -, hok⟩
        · exact call_refuses ht hlparen hsound hargs hrefused
        · cases hok
    · rw [afterName_bare hdot hlparen] at h
      cases h

section Arms

/-- The words are the first words of an arm. -/
theorem starting_arm {cond result : Expr} (hcond : cond.Canonical) (hresult : result.Canonical)
    {ws more : List Word} (hwords : .fixed (.keyword .WHEN) ::
      (cond.yield ++ .fixed (.keyword .THEN) :: result.yield) = ws ++ more) : StartingArms ws := by
  refine ⟨[⟨0, cond, 0, result⟩], more, ⟨List.cons_ne_nil _ _, by simpa using ⟨hcond, hresult⟩⟩, ?_⟩
  rw [← hwords]
  simp [Arm.leaves, Expr.yield, Leaf.fixed]

variable (hsound : Sound inner Expr.leaves (Inner n))
  (hinner : Refuses inner (Starting Expr.Canonical)) (ht : t.kind = .keyword .WHEN)
  {ts us vs : List Token} {cond : Expr} {p : Nat} {r : Refusal}

include hinner ht in
theorem cond_refuses (h : inner ts = .error r) : Stuck StartingArms (t :: ts) r := by
  have hlift : Stuck StartingArms ([t] ++ ts) r := by
    refine (hinner h).lift (fun ws ⟨e, more, he, hyield⟩ => ?_) fun _ =>
      @not_endsGroup_append_singleton [] t (by simp [ht])
    have hwords : .fixed (.keyword .WHEN) ::
        (e.yield ++ .fixed (.keyword .THEN) :: (Expr.wildcard 0).yield) =
          ([t].map Token.word ++ ws) ++
            (more ++ .fixed (.keyword .THEN) :: (Expr.wildcard 0).yield) := by
      simp [word_of_kind ht rfl, hyield]
    exact starting_arm he (isOperand_wildcard 0).2 hwords
  exact hlift

include hsound ht

theorem then_refuses (hcond : inner ts = .ok (cond, us)) (h : keyword .THEN us = .error r) :
    Stuck StartingArms (t :: ts) r := by
  obtain ⟨hgood, read, rfl, hread⟩ := hsound hcond
  have hbehind : Stuck StartingArms ((t :: read) ++ us) r := by
    refine (token_refuses _ h).behind ?_ fun _ => ?_
    · rw [List.map_cons, word_of_kind ht rfl, hread.map_word]
      exact starting_arm hgood.canonical (isOperand_wildcard 0).2 rfl
    · have htidy : Tidy (read.map Token.word) := hread.map_word ▸ cond.tidy_yield
      exact @not_endsGroup_of_tidy [t] _ htidy
  exact hbehind

include hinner in
theorem result_refuses (hcond : inner ts = .ok (cond, us)) (hthen : keyword .THEN us = .ok (p, vs))
    (h : inner vs = .error r) : Stuck StartingArms (t :: ts) r := by
  obtain ⟨hgood, read, rfl, hread⟩ := hsound hcond
  obtain ⟨u, rfl, hu⟩ := token_eq_ok hthen
  have hlift : Stuck StartingArms ((t :: read ++ [u]) ++ vs) r := by
    have hfront : (t :: read ++ [u]).map Token.word =
        .fixed (.keyword .WHEN) :: (cond.yield ++ [.fixed (.keyword .THEN)]) := by
      rw [List.map_append, List.map_cons, word_of_kind ht rfl, hread.map_word, List.map_singleton,
        word_of_kind hu rfl]
      rfl
    refine (hinner h).lift (fun ws ⟨e, more, he, hyield⟩ => ?_) fun _ =>
      not_endsGroup_append_singleton (by simp [hu])
    refine starting_arm hgood.canonical he (?_ : _ = _ ++ more)
    rw [hfront, hyield]
    simp
  simpa using hlift

end Arms

theorem arms_refuses (hsound : Sound inner Expr.leaves (Inner n)) (hsees : Sees inner)
    (hinner : Refuses inner (Starting Expr.Canonical)) : Refuses (arms inner) StartingArms := by
  intro ts r h
  induction hn : ts.length using Nat.strongRecOn generalizing ts with
  | ind m ih =>
    cases ts with
    | nil =>
      rw [arms] at h
      cases h
    | cons t ts =>
      by_cases ht : t.kind = .keyword .WHEN
      · rw [arms_cons hsees ht] at h
        rcases bind_eq_error h with hrefused | ⟨⟨cond, us⟩, hcond, hbehind⟩
        · exact cond_refuses hinner ht hrefused
        rcases bind_eq_error hbehind with hrefused | ⟨⟨p, vs⟩, hthen, hbehind⟩
        · exact then_refuses hsound ht hcond hrefused
        rcases bind_eq_error hbehind with hrefused | ⟨⟨result, ws⟩, hresult, hbehind⟩
        · exact result_refuses hsound hinner ht hcond hthen hrefused
        rcases bind_eq_error hbehind with hrefused | ⟨others, -, hok⟩
        · -- The arm that was read is one more in front.
          obtain ⟨hcondGood, hreadCond⟩ := hsound hcond
          obtain ⟨hresultGood, hreadResult⟩ := hsound hresult
          have hread := hreadCond.append ((keyword_sound .THEN hthen).2.append hreadResult)
          have hlt : ws.length < m := hn ▸ hread.length_lt t
          have hreadArm : Reads (t :: ts) (Arm.leaves ⟨t.pos, cond, p, result⟩) ws :=
            hread.cons (Leaf.marks_fixed ht rfl)
          obtain ⟨read, hts, hspells⟩ := hreadArm
          rw [hts]
          refine (ih ws.length hlt hrefused rfl).lift (fun vs hvs => hvs.extend fun as has => ?_)
            fun _ => ?_
          · refine ⟨⟨t.pos, cond, p, result⟩ :: as, [], ⟨List.cons_ne_nil _ _,
              List.forall_mem_cons.2 ⟨⟨hcondGood.canonical, hresultGood.canonical⟩, has.2⟩⟩, ?_⟩
            rw [hspells.map_word, List.flatMap_cons, List.map_append, List.append_nil]
          · have htidy : Tidy (read.map Token.word) := by
              rw [hspells.map_word]
              exact (Tidy.gathers.arm cond.tidy_yield result.tidy_yield).whole
            exact @not_endsGroup_of_tidy [] _ htidy
        · cases hok
      · rw [arms, if_neg ht] at h
        cases h

theorem caseKey_eq_error {ts : List Token} {r : Refusal} (h : caseKey inner ts = .error r) :
    inner ts = .error r := by
  rw [caseKey] at h
  split at h
  · cases h
  · rcases bind_eq_error h with hkey | ⟨p, -, hok⟩
    · exact hkey
    · cases hok

theorem otherwise_refuses (hinner : Refuses inner (Starting Expr.Canonical)) :
    Refuses (otherwise inner) StartingOtherwise := by
  intro ts r h
  have hnone : ∀ o ∈ (none : Option Otherwise), o.result.Canonical := by simp
  cases ts with
  | nil =>
    cases h
    exact .here (.nil hnone) _ _
  | cons t ts =>
    rw [otherwise] at h
    split at h
    · next ht =>
      rcases bind_eq_error h with hresult | ⟨p, -, hok⟩
      · have hlift : Stuck StartingOtherwise ([t] ++ ts) r := by
          refine (hinner hresult).lift (fun ws hws => hws.extend fun e he => ?_) fun _ =>
            @not_endsGroup_append_singleton [] t (by simp [ht])
          refine ⟨some ⟨0, e⟩, [], by simpa using he, ?_⟩
          simp [word_of_kind ht rfl, Otherwise.leaves, Leaf.fixed, Expr.yield]
        exact hlift
      · cases hok
    · split at h <;> cases h
      exact .here (.nil hnone) _ _

/-- What has been read of a choice from `t` on, without its END. -/
structure ReadsCase (t : Token) (read : List Token) (key : Option Expr) (as : List Arm)
    (last : Option Otherwise) : Prop where
  key_canonical : ∀ k ∈ key, k.Canonical
  arms_canonical : ∀ a ∈ as, a.cond.Canonical ∧ a.result.Canonical
  last_canonical : ∀ o ∈ last, o.result.Canonical
  words : (t :: read).map Token.word = .fixed (.keyword .CASE) :: (key.elim [] Expr.leaves ++
    as.flatMap Arm.leaves ++ last.elim [] Otherwise.leaves).map Leaf.word

section Choice

variable {read us : List Token} {key : Option Expr} {as : List Arm} {first : Arm}
  {others : List Arm} {last : Option Otherwise} {r : Refusal}

theorem ReadsCase.of_key (ht : t.kind = .keyword .CASE) (hkey : ∀ k ∈ key, k.Canonical)
    (hread : Spells read (key.elim [] Expr.leaves)) : ReadsCase t read key [] none where
  key_canonical := hkey
  arms_canonical := List.forall_mem_nil _
  last_canonical := by simp
  words := by
    rw [List.map_cons, word_of_kind ht rfl, hread.map_word]
    simp

theorem ReadsCase.append_arms (h : ReadsCase t read key [] none)
    (has : ∀ a ∈ as, a.cond.Canonical ∧ a.result.Canonical) {more : List Token}
    (hmore : Spells more (as.flatMap Arm.leaves)) : ReadsCase t (read ++ more) key as none where
  key_canonical := h.key_canonical
  arms_canonical := has
  last_canonical := h.last_canonical
  words := by
    rw [← List.cons_append, List.map_append, h.words, hmore.map_word]
    simp

theorem ReadsCase.append_otherwise (h : ReadsCase t read key as none)
    (hlast : ∀ o ∈ last, o.result.Canonical) {more : List Token}
    (hmore : Spells more (last.elim [] Otherwise.leaves)) :
    ReadsCase t (read ++ more) key as last where
  key_canonical := h.key_canonical
  arms_canonical := h.arms_canonical
  last_canonical := hlast
  words := by
    rw [← List.cons_append, List.map_append, h.words, hmore.map_word]
    simp

theorem ReadsCase.not_endsGroup (h : ReadsCase t read key as last) : ¬EndsGroup (t :: read) := by
  have htidy : Tidy ((t :: read).map Token.word) := by
    rw [h.words]
    exact Tidy.gathers.choice (fun k _ => k.tidy_yield)
      (fun a _ => ⟨a.cond.tidy_yield, a.result.tidy_yield⟩) fun o _ => o.result.tidy_yield
  exact @not_endsGroup_of_tidy [] _ htidy

/-- What is spelled like the parts of a choice with an arm is the start of one. -/
theorem starting_case (hkey : ∀ k ∈ key, k.Canonical)
    (has : as ≠ [] ∧ ∀ a ∈ as, a.cond.Canonical ∧ a.result.Canonical)
    (hlast : ∀ o ∈ last, o.result.Canonical) {ws more : List Word}
    (hwords : .fixed (.keyword .CASE) :: (key.elim [] Expr.leaves ++
      as.flatMap Arm.leaves ++ last.elim [] Otherwise.leaves).map Leaf.word = ws ++ more) :
    Starting IsOperand ws := by
  obtain ⟨first, others, rfl⟩ := List.exists_cons_of_ne_nil has.1
  refine ⟨.case 0 key first others last 0, more ++ [.fixed (.keyword .END)],
    ⟨rfl, Expr.canonical_case.2 ⟨hkey, has.2, hlast⟩⟩, ?_⟩
  rw [← List.append_assoc, ← hwords, Expr.yield, Expr.leaves_case, List.map_cons, List.map_append]
  rfl

theorem startingArms_nil : StartingArms [] :=
  .nil (a := [⟨0, .wildcard 0, 0, .wildcard 0⟩])
    ⟨List.cons_ne_nil _ _, by simp [(isOperand_wildcard 0).2]⟩

theorem starting_of_key {ws : List Word} (hws : Starting Expr.Canonical ws) :
    Starting IsOperand (.fixed (.keyword .CASE) :: ws) := by
  obtain ⟨e, more, he, hyield⟩ := hws
  obtain ⟨as, arms, has, hwords⟩ := startingArms_nil
  have hkey : ∀ k ∈ some e, k.Canonical := by simpa using he
  have hnone : ∀ o ∈ (none : Option Otherwise), o.result.Canonical := by simp
  refine starting_case hkey has hnone (?_ : _ = _ ++ (more ++ arms))
  dsimp only at hwords
  rw [List.nil_append] at hwords
  rw [List.map_append, List.map_append, hwords, Option.elim_some, ← Expr.yield, hyield]
  simp

theorem ReadsCase.starting_of_arms (h : ReadsCase t read key [] none) {ws : List Word}
    (hws : StartingArms ws) : Starting IsOperand ((t :: read).map Token.word ++ ws) := by
  obtain ⟨as, more, has, hwords⟩ := hws
  have hnone : ∀ o ∈ (none : Option Otherwise), o.result.Canonical := by simp
  refine starting_case h.key_canonical has hnone (?_ : _ = _ ++ more)
  rw [h.words]
  simpa using hwords

theorem ReadsCase.starting_of_otherwise (h : ReadsCase t read key as none) (has : as ≠ [])
    {ws : List Word} (hws : StartingOtherwise ws) :
    Starting IsOperand ((t :: read).map Token.word ++ ws) := by
  obtain ⟨last, more, hlast, hwords⟩ := hws
  refine starting_case h.key_canonical ⟨has, h.arms_canonical⟩ hlast (?_ : _ = _ ++ more)
  rw [h.words]
  simpa using hwords

theorem ReadsCase.starting (h : ReadsCase t read key as last) (has : as ≠ []) :
    Starting IsOperand ((t :: read).map Token.word) := by
  refine starting_case h.key_canonical ⟨has, h.arms_canonical⟩ h.last_canonical (?_ : _ = _ ++ [])
  rw [h.words, List.append_nil]

theorem afterCase_refuses (hsound : Sound inner Expr.leaves (Inner n)) (hsees : Sees inner)
    (hinner : Refuses inner (Starting Expr.Canonical)) (ht : t.kind = .keyword .CASE) (p : Nat) :
    RefusesAfter t (afterCase inner p) := by
  intro ts r h
  rcases bind_eq_error h with hrefused | ⟨⟨key, us⟩, hkey, hbehind⟩
  · have hlift : Stuck (Starting IsOperand) ([t] ++ ts) r := by
      refine (hinner (caseKey_eq_error hrefused)).lift (fun ws hws => ?_) fun _ =>
        @not_endsGroup_append_singleton [] t (by simp [ht])
      rw [List.map_singleton, word_of_kind ht rfl]
      exact starting_of_key hws
    exact hlift
  obtain ⟨hkeyGood, read, rfl, hread⟩ := caseKey_sound hsound hkey
  have hreadKey : ReadsCase t read key [] none :=
    .of_key ht (fun k hk => (hkeyGood k hk).canonical) hread
  rcases bind_eq_error hbehind with hrefused | ⟨⟨as, vs⟩, harms, hbehind⟩
  · exact (arms_refuses hsound hsees hinner hrefused).lift
      (fun ws hws => hreadKey.starting_of_arms hws) fun _ => hreadKey.not_endsGroup
  obtain ⟨harmsGood, readArms, rfl, hreadArms⟩ := arms_sound hsound harms
  have hreadCase : ReadsCase t (read ++ readArms) key as none := hreadKey.append_arms
    (fun a ha => ⟨(harmsGood a ha).1.canonical, (harmsGood a ha).2.canonical⟩) hreadArms
  cases as with
  | nil =>
    cases hbehind
    have hstarting := hreadKey.starting_of_arms startingArms_nil
    rw [List.append_nil] at hstarting
    obtain rfl : readArms = [] := by cases hreadArms; rfl
    exact (Stuck.here rfl _ _).behind hstarting fun _ => hreadKey.not_endsGroup
  | cons first others =>
    have hsome : first :: others ≠ [] := List.cons_ne_nil _ _
    rw [← List.append_assoc]
    rcases bind_eq_error hbehind with hrefused | ⟨⟨last, ws⟩, hlast, hend⟩
    · exact (otherwise_refuses hinner hrefused).lift
        (fun ws hws => hreadCase.starting_of_otherwise hsome hws) fun _ => hreadCase.not_endsGroup
    obtain ⟨hlastGood, readLast, rfl, hreadLast⟩ := otherwise_sound hsound hlast
    have hreadAll : ReadsCase t (read ++ readArms ++ readLast) key (first :: others) last :=
      hreadCase.append_otherwise (fun o ho => (hlastGood o ho).canonical) hreadLast
    rcases bind_eq_error hend with hrefused | ⟨q, -, hok⟩
    · rw [← List.append_assoc]
      exact (token_refuses _ hrefused).behind (hreadAll.starting hsome) fun _ =>
        hreadAll.not_endsGroup
    · cases hok

end Choice

theorem afterParen_refuses (hsound : Sound inner Expr.leaves (Inner n))
    (hinner : Refuses inner (Starting Expr.Canonical)) (ht : t.kind = .leftParen) :
    RefusesAfter t (afterParen inner t.pos) := by
  intro ts r h
  have hlparen : t.word = .fixed .leftParen := word_of_kind ht rfl
  -- What starts an expression starts one in parentheses behind the left one.
  have hext : ∀ ws, Starting Expr.Canonical ws →
      Starting IsOperand ([t].map Token.word ++ ws) := fun ws hws => hws.extend fun e he => by
    refine ⟨.paren 0 e 0, [.fixed .rightParen], ⟨rfl, Expr.canonical_paren.2 he⟩, ?_⟩
    simp [hlparen, Expr.yield, Expr.leaves, Leaf.fixed]
  rw [afterParen] at h
  split at h
  · next hselect =>
    cases h
    have hnumber : Operand 0 (.literal 0 .integer "0") := operand_of_leaf rfl trivial rfl rfl
    refine ⟨[t], rfl, hext [] (.nil (isOperand_wildcard 0).2), ?_⟩
    exact @Blames.subquery _ _ [] _ _ rfl ht hselect
      ⟨_, [], ⟨hnumber.isOperand, hnumber.canonical⟩, rfl⟩
  · next hselect =>
    rcases bind_eq_error h with hrefused | ⟨⟨x, us⟩, hx, hclose⟩
    · have hlift : Stuck (Starting IsOperand) ([t] ++ ts) r :=
        (hinner hrefused).lift hext fun hnext => absurd hnext hselect
      exact hlift
    obtain ⟨hgood, read, rfl, hread⟩ := hsound hx
    rcases bind_eq_error hclose with hrefused | ⟨q, -, hok⟩
    · have htidy : Tidy (read.map Token.word) := hread.map_word ▸ x.tidy_yield
      have hbehind : Stuck (Starting IsOperand) ((t :: read) ++ us) r := by
        refine (token_refuses _ hrefused).behind ?_ fun _ => @not_endsGroup_of_tidy [t] _ htidy
        have hstarting : Starting IsOperand ([t].map Token.word ++ x.yield) :=
          hext _ ⟨x, [], hgood.canonical, (List.append_nil _).symm⟩
        rw [List.map_cons, hread.map_word]
        exact hstarting
      exact hbehind
    · cases hok

theorem primary_refuses (hsound : Sound inner Expr.leaves (Inner n)) (hsees : Sees inner)
    (hinner : Refuses inner (Starting Expr.Canonical)) :
    Refuses (primary inner) (Starting IsOperand) := by
  intro ts r h
  cases ts with
  | nil =>
    cases h
    exact .here (.nil (isOperand_wildcard 0)) _ _
  | cons t ts =>
    rw [primary] at h
    split at h
    · next hk => exact afterName_refuses hsound hsees hinner hk h
    · cases h
    · cases h
    · cases h
    · cases h
    · next hk => exact afterCase_refuses hsound hsees hinner hk _ h
    · next hk => exact afterParen_refuses hsound hinner hk h
    · cases h
      exact .here (.nil (isOperand_wildcard 0)) _ _

theorem unaryWith_refuses {signed : Rule Expr} (hsigned : Refuses signed (Starting IsOperand))
    (hsound : Sound inner Expr.leaves (Inner n)) (hsees : Sees inner)
    (hinner : Refuses inner (Starting Expr.Canonical)) :
    Refuses (unaryWith signed inner) (Starting IsOperand) := by
  intro ts r h
  cases ts with
  | nil =>
    cases h
    exact .here (.nil (isOperand_wildcard 0)) _ _
  | cons t ts =>
    rw [unaryWith] at h
    split at h
    · next op hop =>
      have ht : t.kind = op.kind := (UnaryOp.kind_of_ofKind?_eq_some hop).symm
      rcases bind_eq_error h with hrefused | ⟨p, -, hok⟩
      · have hlift : Stuck (Starting IsOperand) ([t] ++ ts) r := by
          refine (hsigned hrefused).lift (fun ws hws => hws.extend fun x hx => ?_) fun _ =>
            @not_endsGroup_append_singleton [] t (by rw [ht]; cases op <;> decide)
          refine ⟨.unary 0 op x, [], ⟨rfl, Expr.canonical_unary.2 hx⟩, ?_⟩
          have hop : t.word = .fixed op.kind := word_of_kind ht (by cases op <;> rfl)
          simp [hop, Expr.yield, Expr.leaves, Leaf.fixed]
        exact hlift
      · cases hok
    · exact primary_refuses hsound hsees hinner h

end Operands

/-! ### Nesting -/

theorem unary_refuses (n : Nat) : Refuses (unary n) (Starting IsOperand) := by
  induction n with
  | zero =>
    have hsound : Sound tooDeep Expr.leaves (Inner 0) := tooDeep_sound _
    exact unaryWith_refuses (tooDeep_refuses (.nil (isOperand_wildcard 0))) hsound tooDeep_sees
      (tooDeep_refuses (.nil (isOperand_wildcard 0).2))
  | succ n ih =>
    exact unaryWith_refuses ih (operators_sound (unary_sound n)) (operators_sees (unary_sees n))
      (operators_refuses (unary_sound n) ih)

/-- An expression is refused behind tokens that are the first ones of an expression. -/
theorem expression_refuses (n : Nat) : Refuses (expression n) (Starting Expr.Canonical) := by
  cases n with
  | zero => exact tooDeep_refuses (.nil (isOperand_wildcard 0).2)
  | succ n => exact operators_refuses (unary_sound n) (unary_refuses n)

end Grammar

end SqlFormatter

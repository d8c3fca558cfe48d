import SqlFormatter.Proofs.Grammar.Canonical

/-!
# SqlFormatter.Proofs.Expr.Normal

What a tree becomes when it is written and read again.

* `Expr.mergeSigns`: a minus before a number without a sign is read as the sign of the number.
* `Expr.eraseParens`: the tree without its parentheses.

Merging signs can be done before or after the positions are dropped, changes nothing when done
twice, and keeps a tree canonical and within its nesting.
-/

namespace SqlFormatter

namespace Expr

/-- The kind and the text of a number without a sign. -/
def unsigned? : Expr → Option (LiteralKind × String)
  | literal _ .string _ => none
  | literal _ k text => if text.toList.head? = some '-' then none else some (k, text)
  | _ => none

/-- The expression, where a minus at the root before a number without a sign becomes its sign. -/
def mergeSign : Expr → Expr
  | unary p .neg x =>
    match x.unsigned? with
    | some (k, text) => literal p k ("-" ++ text)
    | none => unary p .neg x
  | e => e

/-- The expression, where every minus before a number without a sign becomes its sign. -/
def mergeSigns (e : Expr) : Expr := e.rebuild mergeSign

/-- The expression, without parentheses at its root. -/
def dropParen : Expr → Expr
  | paren _ x _ => x
  | e => e

/-- The expression without its parentheses. -/
def eraseParens (e : Expr) : Expr := e.rebuild dropParen

/-! ### Merging at the root -/

theorem unsigned?_eq_some {e : Expr} {k : LiteralKind} {text : String}
    (h : e.unsigned? = some (k, text)) :
    ∃ p, e = literal p k text ∧ k ≠ .string ∧ text.toList.head? ≠ some '-' := by
  unfold unsigned? at h
  split at h
  · cases h
  · next p k' text' hk =>
    split at h
    · cases h
    · next hhead =>
      cases h
      exact ⟨p, rfl, hk, hhead⟩
  · cases h

/-- A minus before a number without a sign merges with it; nothing else changes. -/
theorem mergeSign_cases (e : Expr) :
    e.mergeSign = e ∨ ∃ p x k text, e = unary p .neg x ∧ x.unsigned? = some (k, text) ∧
      e.mergeSign = literal p k ("-" ++ text) := by
  unfold mergeSign
  split
  · next p x =>
    split
    · next k text hx => exact Or.inr ⟨p, x, k, text, rfl, hx, rfl⟩
    · exact Or.inl rfl
  · exact Or.inl rfl

theorem mergeSign_of_unsigned {p : Nat} {x : Expr} {k : LiteralKind} {text : String}
    (h : x.unsigned? = some (k, text)) :
    (unary p .neg x).mergeSign = literal p k ("-" ++ text) := by
  simp only [mergeSign, h]

theorem mergeSign_of_not_unsigned {p : Nat} {op : UnaryOp} {x : Expr} (h : x.unsigned? = none) :
    (unary p op x).mergeSign = unary p op x := by
  cases op with
  | plus => rfl
  | neg => simp only [mergeSign, h]

/-- A number with a sign is not one without. -/
theorem unsigned?_mergeSign (e : Expr) : e.mergeSign.unsigned? = e.unsigned? := by
  rcases e.mergeSign_cases with h | ⟨p, x, k, text, rfl, hx, h⟩
  · rw [h]
  · obtain ⟨q, -, hk, -⟩ := unsigned?_eq_some hx
    rw [h, unsigned?.eq_2 _ _ _ hk, if_pos (by simp)]
    rfl

theorem binaryOp?_mergeSign (e : Expr) : e.mergeSign.binaryOp? = e.binaryOp? := by
  rcases e.mergeSign_cases with h | ⟨p, x, k, text, rfl, hx, h⟩ <;> rw [h]
  rfl

theorem isOperand_mergeSign (e : Expr) : e.mergeSign.isOperand = e.isOperand := by
  rcases e.mergeSign_cases with h | ⟨p, x, k, text, rfl, hx, h⟩ <;> rw [h]
  rfl

/-! ### Merging everywhere -/

theorem mergeSigns_eq (e : Expr) : e.mergeSigns = (e.mapChildren mergeSigns).mergeSign :=
  rebuild_eq mergeSign e

theorem mergeSigns_unary (p : Nat) (op : UnaryOp) (x : Expr) :
    (unary p op x).mergeSigns = (unary p op x.mergeSigns).mergeSign := rfl

/-- What a root keeps when its children change. -/
theorem unsigned?_mapChildren (f : Expr → Expr) (e : Expr) :
    (e.mapChildren f).unsigned? = e.unsigned? := by
  cases e <;> rfl

theorem binaryOp?_mapChildren (f : Expr → Expr) (e : Expr) :
    (e.mapChildren f).binaryOp? = e.binaryOp? := by
  cases e <;> rfl

theorem isOperand_mapChildren (f : Expr → Expr) (e : Expr) :
    (e.mapChildren f).isOperand = e.isOperand := by
  cases e <;> rfl

theorem unsigned?_mergeSigns (e : Expr) : e.mergeSigns.unsigned? = e.unsigned? := by
  rw [mergeSigns_eq, unsigned?_mergeSign, unsigned?_mapChildren]

theorem binaryOp?_mergeSigns (e : Expr) : e.mergeSigns.binaryOp? = e.binaryOp? := by
  rw [mergeSigns_eq, binaryOp?_mergeSign, binaryOp?_mapChildren]

theorem isOperand_mergeSigns (e : Expr) : e.mergeSigns.isOperand = e.isOperand := by
  rw [mergeSigns_eq, isOperand_mergeSign, isOperand_mapChildren]

/-- After merging there is nothing to merge. -/
theorem mergeSigns_mergeSigns (e : Expr) : e.mergeSigns.mergeSigns = e.mergeSigns := by
  induction e using childInduction with
  | step e ih =>
    have hchildren : (e.mapChildren mergeSigns).mapChildren mergeSigns =
        e.mapChildren mergeSigns := by
      rw [mapChildren_mapChildren, mapChildren_congr ih]
    rw [mergeSigns_eq e]
    -- A root that merged is a number now, which has nothing to merge with.
    rcases (e.mapChildren mergeSigns).mergeSign_cases with h | ⟨p, x, k, text, -, -, h⟩
    · rw [h, mergeSigns_eq, hchildren, h]
    · rw [h]
      rfl

/-! ### Positions -/

theorem unplaced_mapChildren (f : Expr → Expr) (e : Expr) :
    (e.mapChildren f).unplaced = e.unplaced.mapChildren f := by
  cases e with
  | column | literal | wildcard | unary | binary | call | isNull | paren => rfl
  | case p key first others otherwise q =>
    simp only [mapChildren, unplaced, Option.map_map, List.map_map]
    rfl

theorem unsigned?_shape (e : Expr) : e.shape.unsigned? = e.unsigned? := by
  cases e with
  | literal p k text => cases k <;> rfl
  | _ =>
    rw [shape, rebuild_eq]
    rfl

theorem shape_mergeSign (e : Expr) : e.mergeSign.shape = e.shape.mergeSign := by
  cases e with
  | unary p op x =>
    rw [shape_unary]
    cases hx : x.unsigned? with
    | none =>
      rw [mergeSign_of_not_unsigned hx, mergeSign_of_not_unsigned (by rw [unsigned?_shape, hx])]
      rfl
    | some number =>
      cases op with
      | plus => rfl
      | neg =>
        rw [mergeSign_of_unsigned hx, mergeSign_of_unsigned (by rw [unsigned?_shape, hx])]
        rfl
  | column | literal | wildcard | binary | isNull | paren => rfl
  | call f l args r =>
    rw [shape_call]
    exact shape_call ..
  | case p key first others otherwise q =>
    rw [shape_case]
    exact shape_case ..

theorem shape_mergeSigns (e : Expr) : e.mergeSigns.shape = e.shape.mergeSigns :=
  rebuild_comm shape_mergeSign (fun f e => unplaced_mapChildren f e) e

theorem shape_dropParen (e : Expr) : e.dropParen.shape = e.shape.dropParen := by
  cases e with
  | column | literal | wildcard | unary | binary | isNull | paren => rfl
  | call f l args r =>
    rw [shape_call]
    exact shape_call ..
  | case p key first others otherwise q =>
    rw [shape_case]
    exact shape_case ..

theorem shape_eraseParens (e : Expr) : e.eraseParens.shape = e.shape.eraseParens :=
  rebuild_comm shape_dropParen (fun f e => unplaced_mapChildren f e) e

/-! ### Canonical trees -/

/-- A root stays canonical if its children stay the kinds of operand that they are. -/
theorem rootCanonical_mapChildren {f : Expr → Expr} {e : Expr}
    (hbinary : ∀ c ∈ e.children, (f c).binaryOp? = c.binaryOp?)
    (hoperand : ∀ c ∈ e.children, (f c).isOperand = c.isOperand) (h : e.RootCanonical) :
    (e.mapChildren f).RootCanonical := by
  cases e with
  | column | literal | wildcard | call | case | paren => trivial
  | unary p op x =>
    show (f x).isOperand
    rw [hoperand x (by simp [children])]
    exact h
  | isNull x p q =>
    show (f x).isOperand
    rw [hoperand x (by simp [children])]
    exact h
  | binary x p op y =>
    obtain ⟨hx, hy⟩ := h
    refine ⟨?_, ?_⟩
    · rw [hbinary x (by simp [children])]
      exact hx
    · rw [hbinary y (by simp [children])]
      exact hy

theorem canonical_mergeSigns {e : Expr} (h : e.Canonical) : e.mergeSigns.Canonical := by
  induction e using childInduction with
  | step e ih =>
    obtain ⟨hroot, hchildren⟩ := canonical_iff.1 h
    have hmapped : (e.mapChildren mergeSigns).Canonical := by
      rw [canonical_iff, children_mapChildren, List.forall_mem_map]
      exact ⟨rootCanonical_mapChildren (fun c _ => c.binaryOp?_mergeSigns)
        (fun c _ => c.isOperand_mergeSigns) hroot, fun c hc => ih c hc (hchildren c hc)⟩
    rw [mergeSigns_eq]
    rcases (e.mapChildren mergeSigns).mergeSign_cases with h | ⟨p, x, k, text, -, -, h⟩
    · rw [h]
      exact hmapped
    · rw [h, canonical_iff]
      exact ⟨trivial, fun _ hc => nomatch hc⟩

theorem nesting_mapChildren_le {f : Expr → Expr} {e : Expr}
    (h : ∀ c ∈ e.children, (f c).nesting ≤ c.nesting) :
    (e.mapChildren f).nesting ≤ e.nesting := by
  cases e with
  | column | literal | wildcard => exact Nat.le_refl _
  | unary p op x =>
    have hx := h x (by simp [children])
    simp only [mapChildren, nesting]
    omega
  | binary x p op y =>
    have hx := h x (by simp [children])
    have hy := h y (by simp [children])
    simp only [mapChildren, nesting]
    omega
  | call g l args r =>
    have hargs := nesting_call_le_iff.1 (Nat.le_refl (call g l args r).nesting)
    refine nesting_call_le_iff.2 (List.forall_mem_map.2 fun a ha => ?_)
    exact Nat.lt_of_le_of_lt (h a ha) (hargs a ha)
  | case p key first others otherwise q =>
    obtain ⟨hkey, harms, hlast⟩ := forall_children_case.1 h
    obtain ⟨hkey', harms', hlast'⟩ :=
      nesting_case_le_iff.1 (Nat.le_refl (case p key first others otherwise q).nesting)
    refine nesting_case_le_iff.2 ⟨?_, ?_, ?_⟩
    · intro k hmem
      obtain ⟨k, hk, rfl⟩ := Option.map_eq_some_iff.1 hmem
      exact Nat.lt_of_le_of_lt (hkey k hk) (hkey' k hk)
    · intro a hmem
      obtain ⟨a, ha, rfl⟩ := List.mem_map.1 (show a ∈ (first :: others).map (Arm.map f) from hmem)
      exact ⟨Nat.lt_of_le_of_lt (harms a ha).1 (harms' a ha).1,
        Nat.lt_of_le_of_lt (harms a ha).2 (harms' a ha).2⟩
    · intro o hmem
      obtain ⟨o, ho, rfl⟩ := Option.map_eq_some_iff.1 hmem
      exact Nat.lt_of_le_of_lt (hlast o ho) (hlast' o ho)
  | isNull x p q => exact h x (by simp [children])
  | paren l x r =>
    have hx := h x (by simp [children])
    simp only [mapChildren, nesting]
    omega

theorem nesting_mergeSigns_le (e : Expr) : e.mergeSigns.nesting ≤ e.nesting := by
  induction e using childInduction with
  | step e ih =>
    rw [mergeSigns_eq]
    rcases (e.mapChildren mergeSigns).mergeSign_cases with h | ⟨p, x, k, text, -, -, h⟩
    · rw [h]
      exact nesting_mapChildren_le ih
    · rw [h]
      exact Nat.zero_le _

end Expr

end SqlFormatter

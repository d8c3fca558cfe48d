/-!
# SqlFormatter.NonemptyList

Lists with at least one element. The lists of a clause, the arms of a CASE and the comments of a
group are never empty, so each has a first and a last element.
-/

namespace SqlFormatter

/-- A list with at least one element. -/
structure NonemptyList (α : Type) where
  /-- The first element. -/
  first : α
  /-- The elements after the first. -/
  others : List α
  deriving DecidableEq, Repr

namespace NonemptyList

variable {α β : Type}

/-- The elements in order. -/
def toList (xs : NonemptyList α) : List α := xs.first :: xs.others

/-- The list as one that is not empty, if it is not. -/
def ofList? : List α → Option (NonemptyList α)
  | [] => none
  | x :: xs => some ⟨x, xs⟩

/-- The last element. -/
def last (xs : NonemptyList α) : α := xs.others.getLast?.getD xs.first

/-- The images of the elements. -/
def map (f : α → β) (xs : NonemptyList α) : NonemptyList β := ⟨f xs.first, xs.others.map f⟩

@[simp] theorem toList_map (f : α → β) (xs : NonemptyList α) :
    (xs.map f).toList = xs.toList.map f := rfl

theorem map_congr {f g : α → β} {xs : NonemptyList α} (h : ∀ x ∈ xs.toList, f x = g x) :
    xs.map f = xs.map g := by
  obtain ⟨x, xs⟩ := xs
  obtain ⟨hx, hxs⟩ := List.forall_mem_cons.1 h
  rw [map, map, hx, List.map_congr_left hxs]

theorem toList_ne_nil (xs : NonemptyList α) : xs.toList ≠ [] := List.cons_ne_nil _ _

theorem ofList?_toList (xs : NonemptyList α) : ofList? xs.toList = some xs := rfl

theorem getLast?_toList (xs : NonemptyList α) : xs.toList.getLast? = some xs.last := by
  obtain ⟨x, xs⟩ := xs
  cases xs <;> simp [toList, last, List.getLast?_cons]

end NonemptyList

end SqlFormatter

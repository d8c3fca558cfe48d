import SqlFormatter.Proofs.Grammar.Yield
import SqlFormatter.Proofs.Statement.Moved

/-!
# SqlFormatter.Proofs.Grammar.Placed

Where an expression and its parts are is settled by the tokens that it is read from, because they
have the positions of its leaves. So if two expressions of one shape are read from the same tokens,
but for a move of all positions, then the one is the other, moved (`Expr.settled`).
-/

namespace SqlFormatter

namespace Reads

variable {ts rest : List Token} {l : Leaf} {ls ks : List Leaf}

theorem nil_eq (h : Reads ts [] rest) : rest = ts := by
  obtain ⟨read, rfl, hread⟩ := h
  cases hread
  rfl

theorem uncons (h : Reads ts (l :: ls) rest) :
    ∃ t us, ts = t :: us ∧ l.Marks t ∧ Reads us ls rest := by
  obtain ⟨read, rfl, hread⟩ := h
  obtain ⟨t, us, hmark, hus, rfl⟩ := List.forall₂_cons_right_iff.1 hread
  exact ⟨t, us ++ rest, rfl, hmark, us, rfl, hus⟩

theorem unappend (h : Reads ts (ls ++ ks) rest) : ∃ us, Reads ts ls us ∧ Reads us ks rest := by
  induction ls generalizing ts with
  | nil => exact ⟨ts, .nil ts, h⟩
  | cons l ls ih =>
    obtain ⟨t, us, rfl, hmark, h⟩ := h.uncons
    obtain ⟨vs, hls, hks⟩ := ih h
    exact ⟨vs, hls.cons hmark, hks⟩

end Reads

/-! ### Two lists of leaves side by side -/

/-- The leaves `ls` are read from `ts`, and the leaves `ms` from the same tokens with all positions
moved by `f`. What is left is `rest` and `rest'`. -/
def ReadsBoth (f : Nat → Nat) (ts : List Token) (ls ms : List Leaf) (rest rest' : List Token) :
    Prop :=
  Reads ts ls rest ∧ Reads (ts.map (Token.moved f)) ms rest'

/-- Where the leaves of `x` and of `y` are both read, `y` is `x` moved, and the same tokens are left
behind them. -/
def Settled {α : Type} (f : Nat → Nat) (leaves : α → List Leaf) (move : α → α) (x y : α) : Prop :=
  ∀ ts rest rest', ReadsBoth f ts (leaves x) (leaves y) rest rest' →
    y = move x ∧ rest' = rest.map (Token.moved f)

namespace ReadsBoth

variable {f : Nat → Nat} {ts rest rest' : List Token} {l m : Leaf}
  {ls ms : List Leaf}

theorem done (h : ReadsBoth f ts [] [] rest rest') : rest' = rest.map (Token.moved f) := by
  rw [h.2.nil_eq, h.1.nil_eq]

/-- The first leaves are of one token. -/
theorem next (h : ReadsBoth f ts (l :: ls) (m :: ms) rest rest') :
    ∃ us, ReadsBoth f us ls ms rest rest' ∧ ∀ p ∈ l.pos, ∀ q ∈ m.pos, q = f p := by
  obtain ⟨t, us, rfl, hl, hls⟩ := h.1.uncons
  obtain ⟨t', us', hus, hm, hms⟩ := h.2.uncons
  obtain ⟨rfl, rfl⟩ := List.cons_eq_cons.1 hus
  exact ⟨us, ⟨hls, hms⟩, fun p hp q hq => by rw [hm.2 q hq, hl.2 p hp, Token.moved]⟩

theorem fixed {p q : Nat} {k k' : Kind}
    (h : ReadsBoth f ts (.fixed p k :: ls) (.fixed q k' :: ms) rest rest') :
    ∃ us, ReadsBoth f us ls ms rest rest' ∧ q = f p := by
  obtain ⟨us, h, hpos⟩ := h.next
  exact ⟨us, h, hpos p rfl q rfl⟩

theorem name {n n' : Name} (h : ReadsBoth f ts (.ofName n :: ls) (.ofName n' :: ms) rest rest')
    (hshape : n'.shape = n.shape) : ∃ us, ReadsBoth f us ls ms rest rest' ∧ n' = n.moved f := by
  obtain ⟨us, hus, hpos⟩ := h.next
  have htext : n'.text = n.text := (Name.mk.inj hshape).2
  refine ⟨us, hus, ?_⟩
  rw [Name.moved, ← htext, ← hpos n.pos rfl n'.pos rfl]

end ReadsBoth

namespace Settled

variable {α β : Type} {f : Nat → Nat} {leaves : α → List Leaf} {move : α → α} {g : α → β}

/-- A part is read, and then the others. -/
theorem part {x y : α} {ts rest rest' : List Token} {ls ms : List Leaf}
    (h : Settled f leaves move x y)
    (hread : ReadsBoth f ts (leaves x ++ ls) (leaves y ++ ms) rest rest') :
    ∃ us, ReadsBoth f us ls ms rest rest' ∧ y = move x := by
  obtain ⟨us, hx, hls⟩ := hread.1.unappend
  obtain ⟨us', hy, hms⟩ := hread.2.unappend
  obtain ⟨hxy, rfl⟩ := h _ _ _ ⟨hx, hy⟩
  exact ⟨us, ⟨hls, hms⟩, hxy⟩

theorem optional {x y : Option α} (hxy : y.map g = x.map g)
    (h : ∀ a ∈ x, ∀ b, g b = g a → Settled f leaves move a b) :
    Settled f (·.elim [] leaves) (Option.map move) x y := by
  intro ts rest rest' hread
  cases x with
  | none =>
    obtain rfl := Option.map_eq_none_iff.1 hxy
    exact ⟨rfl, hread.done⟩
  | some a =>
    obtain ⟨b, rfl, hb⟩ := Option.map_eq_some_iff.1 hxy
    obtain ⟨hb, hrest⟩ := h a rfl b hb _ _ _ hread
    exact ⟨by rw [hb, Option.map_some], hrest⟩

theorem flatMap {xs ys : List α} (hxys : ys.map g = xs.map g)
    (h : ∀ x ∈ xs, ∀ y, g y = g x → Settled f leaves move x y) :
    Settled f (List.flatMap leaves) (List.map move) xs ys := by
  induction xs generalizing ys with
  | nil =>
    obtain rfl := List.map_eq_nil_iff.1 hxys
    exact fun _ _ _ hread => ⟨rfl, hread.done⟩
  | cons x xs ih =>
    obtain ⟨y, ys, rfl, hxy, hxys⟩ := List.map_eq_cons_iff.1 hxys
    obtain ⟨hx, hxs⟩ := List.forall_mem_cons.1 h
    intro ts rest rest' hread
    rw [List.flatMap_cons, List.flatMap_cons] at hread
    obtain ⟨us, hread, hy⟩ := (hx y hxy).part hread
    obtain ⟨hys, hrest⟩ := ih hxys hxs _ _ _ hread
    exact ⟨by rw [hy, hys, List.map_cons], hrest⟩

theorem list {xs ys : List α} (hxys : ys.map g = xs.map g)
    (h : ∀ x ∈ xs, ∀ y, g y = g x → Settled f leaves move x y) :
    Settled f (Leaf.list leaves) (List.map move) xs ys := by
  cases xs with
  | nil =>
    obtain rfl := List.map_eq_nil_iff.1 hxys
    exact fun _ _ _ hread => ⟨rfl, hread.done⟩
  | cons x xs =>
    obtain ⟨y, ys, rfl, hxy, hxys⟩ := List.map_eq_cons_iff.1 hxys
    obtain ⟨hx, hxs⟩ := List.forall_mem_cons.1 h
    intro ts rest rest' hread
    obtain ⟨us, hread, hy⟩ := (hx y hxy).part hread
    have hcomma : ∀ x ∈ xs, ∀ y, g y = g x →
        Settled f (fun z => .comma :: leaves z) move x y := by
      intro x hx y hxy ts rest rest' hread
      obtain ⟨us, hread, -⟩ := hread.next
      exact hxs x hx y hxy _ _ _ hread
    obtain ⟨hys, hrest⟩ := flatMap hxys hcomma _ _ _ hread
    exact ⟨by rw [hy, hys, List.map_cons], hrest⟩

theorem arm {a b : Arm} (hcond : Settled f Expr.leaves (Expr.moved f) a.cond b.cond)
    (hresult : Settled f Expr.leaves (Expr.moved f) a.result b.result) :
    Settled f Arm.leaves (Arm.moved f) a b := by
  intro ts rest rest' hread
  obtain ⟨us, hread, hp⟩ := hread.fixed
  obtain ⟨vs, hread, hc⟩ := hcond.part hread
  obtain ⟨ws, hread, hq⟩ := hread.fixed
  obtain ⟨hr, hrest⟩ := hresult _ _ _ hread
  obtain ⟨p, cond, q, result⟩ := b
  exact ⟨Arm.mk.injEq .. ▸ ⟨hp, hc, hq, hr⟩, hrest⟩

theorem otherwise {o o' : Otherwise}
    (hresult : Settled f Expr.leaves (Expr.moved f) o.result o'.result) :
    Settled f Otherwise.leaves (Otherwise.moved f) o o' := by
  intro ts rest rest' hread
  obtain ⟨us, hread, hp⟩ := hread.fixed
  obtain ⟨hr, hrest⟩ := hresult _ _ _ hread
  obtain ⟨p, result⟩ := o'
  exact ⟨Otherwise.mk.injEq .. ▸ ⟨hp, hr⟩, hrest⟩

end Settled

namespace Expr

variable {f : Nat → Nat}

theorem settled_column {q q' : Option Name} {n n' : Name}
    (hq : q'.map Name.shape = q.map Name.shape) (hn : n'.shape = n.shape) :
    Settled f leaves (moved f) (column q n) (column q' n') := by
  intro ts rest rest' hread
  cases q with
  | none =>
    obtain rfl := Option.map_eq_none_iff.1 hq
    obtain ⟨us, hread, hn⟩ := hread.name hn
    exact ⟨by rw [hn]; rfl, hread.done⟩
  | some table =>
    obtain ⟨table', rfl, htable⟩ := Option.map_eq_some_iff.1 hq
    obtain ⟨us, hread, htable⟩ := hread.name htable
    obtain ⟨vs, hread, -⟩ := hread.next
    obtain ⟨ws, hread, hn⟩ := hread.name hn
    exact ⟨by rw [htable, hn]; rfl, hread.done⟩

theorem settled_call {g g' : Name} {l l' r r' : Nat} {args args' : List Expr}
    (hg : g'.shape = g.shape) (hargs : args'.map shape = args.map shape)
    (ih : ∀ a ∈ args, ∀ b, b.shape = a.shape → Settled f leaves (moved f) a b) :
    Settled f leaves (moved f) (call g l args r) (call g' l' args' r') := by
  intro ts rest rest' hread
  rw [leaves_call, leaves_call] at hread
  obtain ⟨us, hread, hg⟩ := hread.name hg
  obtain ⟨vs, hread, hl⟩ := hread.fixed
  obtain ⟨ws, hread, hargs⟩ := (Settled.list hargs ih).part hread
  obtain ⟨xs, hread, hr⟩ := hread.fixed
  exact ⟨by rw [hg, hl, hargs, hr, moved_call], hread.done⟩

theorem settled_case {p p' q q' : Nat} {key key' : Option Expr} {first first' : Arm}
    {others others' : List Arm} {last last' : Option Otherwise}
    (hkey : key'.map shape = key.map shape)
    (harms : (first' :: others').map Arm.shape = (first :: others).map Arm.shape)
    (hlast : last'.map Otherwise.shape = last.map Otherwise.shape)
    (ih : ∀ x ∈ (case p key first others last q).children, ∀ y : Expr, y.shape = x.shape →
      Settled f leaves (moved f) x y) :
    Settled f leaves (moved f) (case p key first others last q)
      (case p' key' first' others' last' q') := by
  obtain ⟨ihkey, iharms, ihlast⟩ := forall_children_case.1 ih
  intro ts rest rest' hread
  rw [leaves_case, leaves_case] at hread
  obtain ⟨us, hread, hp⟩ := hread.fixed
  simp only [List.append_assoc] at hread
  obtain ⟨vs, hread, hkey⟩ := (Settled.optional hkey ihkey).part hread
  obtain ⟨ws, hread, harms⟩ := (Settled.flatMap harms fun a ha b hab =>
    Settled.arm ((iharms a ha).1 _ (congrArg Arm.cond hab))
      ((iharms a ha).2 _ (congrArg Arm.result hab))).part hread
  obtain ⟨xs, hread, hlast⟩ := (Settled.optional hlast fun o ho b hob =>
    Settled.otherwise (ihlast o ho _ (congrArg Otherwise.result hob))).part hread
  obtain ⟨zs, hread, hq⟩ := hread.fixed
  obtain ⟨hfirst, hothers⟩ := List.cons_eq_cons.1 harms
  exact ⟨by rw [hp, hkey, hfirst, hothers, hlast, hq, moved_case], hread.done⟩

/-- Expressions of one shape that are read from the same tokens are the same, moved as the tokens
are. -/
theorem settled {x y : Expr} (h : y.shape = x.shape) : Settled f leaves (moved f) x y := by
  induction x using childInduction generalizing y with
  | step x ih =>
    have hroot : (y.mapChildren shape).unplaced = (x.mapChildren shape).unplaced := by
      rwa [shape, shape, rebuild_eq, rebuild_eq] at h
    have ih : ∀ c ∈ x.children, ∀ d : Expr, d.shape = c.shape →
        Settled f leaves (moved f) c d := fun c hc d hd => ih c hc hd
    intro ts rest rest' hread
    cases x with
    | column q n =>
      cases y with
      | column q' n' =>
        injection hroot with hq hn
        exact settled_column hq hn _ _ _ hread
      | _ => cases hroot
    | literal p k text =>
      cases y with
      | literal q k' text' =>
        injection hroot with _ hk htext
        obtain ⟨us, hread, hpos⟩ := hread.next
        exact ⟨by rw [hpos p rfl q rfl, hk, htext]; rfl, hread.done⟩
      | _ => cases hroot
    | wildcard p =>
      cases y with
      | wildcard q =>
        obtain ⟨us, hread, hp⟩ := hread.fixed
        exact ⟨by rw [hp]; rfl, hread.done⟩
      | _ => cases hroot
    | unary p op x =>
      cases y with
      | unary q op' y =>
        injection hroot with _ hop hx
        obtain ⟨us, hread, hp⟩ := hread.fixed
        obtain ⟨hy, hrest⟩ := ih x (by simp [children]) y hx _ _ _ hread
        exact ⟨by rw [hp, hop, hy]; rfl, hrest⟩
      | _ => cases hroot
    | binary x p op x' =>
      cases y with
      | binary y q op' y' =>
        injection hroot with hx _ hop hx'
        obtain ⟨us, hread, hy⟩ := (ih x (by simp [children]) y hx).part hread
        obtain ⟨vs, hread, hp⟩ := hread.fixed
        obtain ⟨hy', hrest⟩ := ih x' (by simp [children]) y' hx' _ _ _ hread
        exact ⟨by rw [hy, hp, hop, hy']; rfl, hrest⟩
      | _ => cases hroot
    | call g l args r =>
      cases y with
      | call g' l' args' r' =>
        injection hroot with hg _ hargs _
        exact settled_call hg hargs ih _ _ _ hread
      | _ => cases hroot
    | case p key first others last q =>
      cases y with
      | case p' key' first' others' last' q' =>
        rw [shape_case, shape_case] at h
        injection h with _ hkey hfirst hothers hlast _
        exact settled_case hkey (by rw [List.map_cons, hfirst, hothers]; rfl) hlast ih _ _ _ hread
      | _ => cases hroot
    | isNull x p q =>
      cases y with
      | isNull y p' q' =>
        injection hroot with hx _ _
        obtain ⟨us, hread, hy⟩ := (ih x (by simp [children]) y hx).part hread
        obtain ⟨vs, hread, hp⟩ := hread.fixed
        obtain ⟨ws, hread, hq⟩ := hread.fixed
        exact ⟨by rw [hy, hp, hq]; rfl, hread.done⟩
      | _ => cases hroot
    | paren l x r =>
      cases y with
      | paren l' y r' =>
        injection hroot with _ hx _
        obtain ⟨us, hread, hl⟩ := hread.fixed
        obtain ⟨vs, hread, hy⟩ := (ih x (by simp [children]) y hx).part hread
        obtain ⟨ws, hread, hr⟩ := hread.fixed
        exact ⟨by rw [hl, hy, hr]; rfl, hread.done⟩
      | _ => cases hroot

end Expr

end SqlFormatter

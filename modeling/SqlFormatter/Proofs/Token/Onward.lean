import Mathlib.Data.Nat.Find
import SqlFormatter.Proofs.Token.Lossless

/-!
# SqlFormatter.Proofs.Token.Onward

Scan after scan without a limit on time, whatever each of them gives.

* A scan gets on in the text unless nothing is left of it (`Scanner.Onward`): no lexeme is empty,
  not even one that is given up. So a sequence of scans leaves nothing after as many steps as the
  text has bytes (`Scanner.rest_eq_nil_of_onward`).
* Where nothing is left, a scan gives the end of input and changes nothing.
* `scan_repeated` is the main result, on all scans of a text and on `Scanner.tokenize`.
-/

namespace SqlFormatter

/-- While there is time, no lexeme is empty. -/
theorem Lexeme.read_text_ne_nil (previous : Kind) (c : Char) (cs : List Char) :
    (read false previous c cs).text ≠ [] := by
  unfold read
  split_ifs with hletter hdigit
  · exact word_text_ne_nil cs hletter
  · exact number_text_ne_nil [] cs hdigit
  · exact quoted_text_ne_nil false cs
  · simp [lineComment]
  · exact dash_text_ne_nil false previous cs
  · exact slash_text_ne_nil false cs
  · exact symbol_text_ne_nil c cs

namespace Scanner

variable {s t u : Scanner}

/-- The scanner `t` stands behind `s` in the text, or nothing is left of the text for it; and it has
time. -/
structure Onward (s t : Scanner) : Prop where
  expired_eq : t.expired = false
  moves : ∃ text, s.rest = text ++ t.rest ∧ (text = [] → t.rest = [])

theorem Onward.trans (h : s.Onward t) (h' : t.Onward u) : s.Onward u := by
  obtain ⟨text, hrest, -⟩ := h.moves
  obtain ⟨text', hrest', hnil⟩ := h'.moves
  refine ⟨h'.expired_eq, text ++ text', by rw [hrest, hrest', List.append_assoc], fun htext => ?_⟩
  exact hnil (List.append_eq_nil_iff.1 htext).2

/-- Where nothing is left, nothing is left further on. -/
theorem Onward.rest_eq_nil (h : s.Onward t) (hs : s.rest = []) : t.rest = [] := by
  obtain ⟨text, hrest, hnil⟩ := h.moves
  exact hnil (List.append_eq_nil_iff.1 (hrest.symm.trans hs)).1

theorem expired_settle (s : Scanner) (c : Char) (l : Lexeme) :
    (s.settle c l).2.expired = s.expired := by
  unfold settle
  dsimp only
  split <;> rfl

theorem onward_scan (h : s.expired = false) : s.Onward s.scan.2 := by
  rcases s.ends_or_meets with hends | ⟨gap, c, cs, hmeets⟩
  · have hnil : s.skipGap.rest = [] := List.dropWhile_eq_nil_iff.2 hends.isGap_of_mem
    rw [hends.scan_eq]
    exact ⟨h, s.rest, by rw [hnil, List.append_nil], fun _ => hnil⟩
  · have htext := Lexeme.read_text_ne_nil s.previous c cs
    rw [hmeets.scan_eq, h]
    refine ⟨(expired_settle ..).trans h, gap ++ (Lexeme.read false s.previous c cs).text, ?_,
      fun hnil => absurd (List.append_eq_nil_iff.1 hnil).2 htext⟩
    rw [rest_settle, List.append_assoc, Lexeme.read_append, hmeets.rest_eq]

theorem onward_of_scan_eq {outcome : Except LexError Token} (hscan : s.scan = (outcome, t))
    (h : s.expired = false) : s.Onward t := by
  have honward := onward_scan h
  rwa [hscan] at honward

/-- What is left becomes less. -/
theorem Onward.byteLength_lt (h : s.Onward t) (hs : s.rest ≠ []) :
    byteLength t.rest < byteLength s.rest := by
  obtain ⟨text, hrest, hnil⟩ := h.moves
  have htext : text ≠ [] := by
    rintro rfl
    exact hs (hrest.trans (hnil rfl))
  have hpos := byteLength_pos htext
  rw [hrest, byteLength_append]
  omega

section Sequence

variable {u : Nat → Scanner} (h : ∀ n, (u n).Onward (u (n + 1)))
include h

/-- Where scanners get on one after the other, nothing is left from some scanner on. -/
theorem rest_eq_nil_of_le {m n : Nat} (hmn : m ≤ n) (hm : (u m).rest = []) : (u n).rest = [] := by
  induction n, hmn using Nat.le_induction with
  | base => exact hm
  | succ n _ ih => exact (h n).rest_eq_nil ih

/-- As many scanners as there are bytes leave nothing. -/
theorem rest_eq_nil_of_onward {n : Nat} (hn : byteLength (u 0).rest ≤ n) : (u n).rest = [] := by
  have hless : ∀ n, byteLength (u n).rest + n ≤ byteLength (u 0).rest ∨ (u n).rest = [] := by
    intro n
    induction n with
    | zero => exact Or.inl (Nat.le_refl _)
    | succ n ih =>
      by_cases hnil : (u n).rest = []
      · exact Or.inr ((h n).rest_eq_nil hnil)
      · have hlt := (h n).byteLength_lt hnil
        have hle := ih.resolve_right hnil
        exact Or.inl (by omega)
  by_contra hnil
  have hle := (hless n).resolve_right hnil
  have hpos := byteLength_pos hnil
  omega

end Sequence

/-! ### The end of a text -/

/-- Where nothing is left, a scan gives the end of input and changes nothing. -/
theorem scan_of_rest_eq_nil (h : s.rest = []) : s.scan = (.ok (.endOfInput s.pos), s) := by
  have hgap : s.skipGap = s := by
    obtain ⟨file, rest, offset, previous, expired, errorCount, reports⟩ := s
    cases h
    rfl
  rw [scan, hgap]
  simp only [h]

/-- The scanner is in the file, and the text from it on goes to the end of the file. -/
structure ReachesEnd (s : Scanner) (file : File) : Prop where
  base_eq : s.file.base = file.base
  offset_add : s.offset + byteLength s.rest = file.size

namespace ReachesEnd

variable {file : File}

theorem advance {text rest : List Char} (h : s.ReachesEnd file) (hrest : s.rest = text ++ rest) :
    (s.advance text rest).ReachesEnd file where
  base_eq := (s.file.base_addLines _).trans h.base_eq
  offset_add := by
    have hsum := h.offset_add
    rw [hrest, byteLength_append, ← Nat.add_assoc] at hsum
    exact hsum

theorem settle {c : Char} {l : Lexeme} (h : s.ReachesEnd file) (hrest : s.rest = l.text ++ l.rest) :
    (s.settle c l).2.ReachesEnd file := by
  obtain ⟨hbase, hsum⟩ := h.advance hrest
  unfold Scanner.settle
  dsimp only
  split <;> exact ⟨hbase, hsum⟩

theorem scan (h : s.ReachesEnd file) : s.scan.2.ReachesEnd file := by
  have hgap : s.skipGap.ReachesEnd file := h.advance List.takeWhile_append_dropWhile.symm
  unfold Scanner.scan
  dsimp only
  split
  · exact hgap
  · next c cs hcons => exact hgap.settle (hcons.trans (Lexeme.read_append _ _ c cs).symm)

theorem ofText {text : String} {expired : Bool} (h : Scanner.ofText file text expired = .ok s) :
    s.ReachesEnd file := by
  unfold Scanner.ofText at h
  dsimp only at h
  split at h
  · next hsize =>
    have hstart : ReachesEnd { file, rest := text.toList, expired } file :=
      ⟨rfl, by rw [hsize]; exact Nat.zero_add _⟩
    split at h
    · cases h
      assumption
    · next c cs htext =>
      cases h
      split
      · exact hstart.advance htext
      · exact htext ▸ hstart
  · cases h

theorem pos_add (h : s.ReachesEnd file) : s.pos + byteLength s.rest = file.base + file.size := by
  have hbase := h.base_eq
  have hsum := h.offset_add
  unfold pos
  omega

end ReachesEnd

/-! ### Scan after scan -/

/-- The scanner after `n` scans, whatever they gave. -/
def after (s : Scanner) : Nat → Scanner
  | 0 => s
  | n + 1 => (s.after n).scan.2

/-- What the scan gives that comes after `n` others. -/
def outcome (s : Scanner) (n : Nat) : Except LexError Token := (s.after n).scan.1

theorem after_scan (s : Scanner) (n : Nat) : s.scan.2.after n = s.after (n + 1) := by
  induction n with
  | zero => rfl
  | succ n ih => exact congrArg (fun s => s.scan.2) ih

theorem outcome_scan (s : Scanner) (n : Nat) : s.scan.2.outcome n = s.outcome (n + 1) :=
  congrArg (fun s => s.scan.1) (s.after_scan n)

/-- Where nothing is left, no number of scans changes anything. -/
theorem after_of_rest_eq_nil (h : s.rest = []) (n : Nat) : s.after n = s := by
  induction n with
  | zero => rfl
  | succ n ih => rw [after, ih, scan_of_rest_eq_nil h]

theorem expired_after (h : s.expired = false) (n : Nat) : (s.after n).expired = false := by
  induction n with
  | zero => exact h
  | succ n ih => exact (onward_scan ih).expired_eq

theorem ReachesEnd.after {file : File} (h : s.ReachesEnd file) (n : Nat) :
    (s.after n).ReachesEnd file := by
  induction n with
  | zero => exact h
  | succ n ih => exact ih.scan

/-- What a scan does in a file. -/
inductive Proceeds (s : Scanner) (file : File) : Prop where
  /-- It gives the end of input, at the end of the file. Every scan after it gives the same, and
  changes nothing. -/
  | ends (scan_eq : s.scan.1 = .ok (.endOfInput (file.base + file.size)))
      (offset_eq : s.scan.2.offset = file.size) (again : ∀ n, (s.scan.2.after n).scan = s.scan)
  /-- It gives another token or an error, and the scanner is further on. -/
  | moves (kind_ne : ∀ t, s.scan.1 = .ok t → t.kind ≠ .endOfInput)
      (offset_lt : s.offset < s.scan.2.offset)

theorem ReachesEnd.proceeds {file : File} (h : s.ReachesEnd file) (hexpired : s.expired = false) :
    s.Proceeds file := by
  rcases s.ends_or_meets with hends | ⟨gap, c, cs, hmeets⟩
  · have hscan := hends.scan_eq
    rw [h.pos_add] at hscan
    have hnil : s.skipGap.rest = [] := List.dropWhile_eq_nil_iff.2 hends.isGap_of_mem
    have hgap : s.skipGap.ReachesEnd file := by
      have hafter := h.scan
      rwa [hscan] at hafter
    have hpos := hgap.pos_add
    have hoffset := hgap.offset_add
    rw [hnil] at hpos hoffset
    refine .ends (congrArg Prod.fst hscan) (by rw [hscan]; exact hoffset) fun n => ?_
    rw [hscan, after_of_rest_eq_nil hnil, scan_of_rest_eq_nil hnil, ← hpos]
    rfl
  · refine .moves (fun t ht hend => ?_) ?_
    · rw [hmeets.scan_eq] at ht
      exact Lexeme.read_ne_endOfInput _ _ _ (hend ▸ result_of_settle_eq_ok ht)
    · have hrest : s.rest ≠ [] := by simp [hmeets.rest_eq]
      have hlt := (onward_scan hexpired).byteLength_lt hrest
      have hsum := h.offset_add
      have hsum' := h.scan.offset_add
      omega

/-- Scans that give tokens, up to one that gives an error or the end of input, are what
`Scanner.tokenize` does. -/
theorem tokenize_eq_mapM {n : Nat}
    (hbefore : ∀ i < n, ∃ t, s.outcome i = .ok t ∧ t.kind ≠ .endOfInput)
    (hlast : ∀ t, s.outcome n = .ok t → t.kind = .endOfInput) :
    s.tokenize = ((List.range (n + 1)).mapM s.outcome, s.after (n + 1)) := by
  induction n generalizing s with
  | zero =>
    have houtcome : s.scan.1 = s.outcome 0 := rfl
    show s.tokenize = ([0].mapM s.outcome, s.scan.2)
    rcases hscan : s.scan with ⟨e | t, u⟩ <;> rw [hscan] at houtcome
    · rw [tokenize_of_error hscan, List.mapM_cons, ← houtcome]
      rfl
    · rw [tokenize_of_endOfInput hscan (hlast t houtcome.symm), List.mapM_cons, ← houtcome]
      rfl
  | succ n ih =>
    obtain ⟨t, ht, hkind⟩ := hbefore 0 (Nat.succ_pos n)
    have hscan : s.scan = (.ok t, s.scan.2) := Prod.ext ht rfl
    have hrest : s.scan.2.outcome = s.outcome ∘ Nat.succ := funext s.outcome_scan
    have hothers := ih (s := s.scan.2)
      (fun i hi => s.outcome_scan i ▸ hbefore (i + 1) (Nat.succ_lt_succ hi))
      (s.outcome_scan n ▸ hlast)
    rw [tokenize_of_token hscan hkind, hothers, after_scan, List.range_succ_eq_map (n := n + 1),
      List.mapM_cons, List.mapM_map, ← hrest, ht]
    cases (List.range (n + 1)).mapM s.scan.2.outcome <;> rfl

end Scanner

/-- However often a text is scanned, each scan moves on or is at the end, where it stays. So as many
scans as there are bytes are followed by the end of input, whatever they gave; and
`Scanner.tokenize` ends, with the scan that gives the first error or the end of input. -/
theorem scan_repeated {file : File} {text : String} {s : Scanner}
    (h : Scanner.ofText file text = .ok s) :
    (∀ n, (s.after n).Proceeds file) ∧
      s.outcome file.size = .ok (.endOfInput (file.base + file.size)) ∧
      ∃ n ≤ file.size, (∀ i < n, ∃ t, s.outcome i = .ok t ∧ t.kind ≠ .endOfInput) ∧
        (∀ t, s.outcome n = .ok t → t.kind = .endOfInput) ∧
        s.tokenize = ((List.range (n + 1)).mapM s.outcome, s.after (n + 1)) := by
  obtain ⟨-, -, -, -, hexpired⟩ := Scanner.ofText_eq_ok h
  have hends := Scanner.ReachesEnd.ofText h
  have honward : ∀ n, (s.after n).Onward (s.after (n + 1)) := fun n =>
    Scanner.onward_scan (Scanner.expired_after hexpired n)
  have hnil : (s.after file.size).rest = [] :=
    Scanner.rest_eq_nil_of_onward honward (Nat.le.intro ((Nat.add_comm ..).trans hends.offset_add))
  have hlast : s.outcome file.size = .ok (.endOfInput (file.base + file.size)) := by
    have hpos := (hends.after file.size).pos_add
    rw [hnil] at hpos
    rw [Scanner.outcome, Scanner.scan_of_rest_eq_nil hnil, ← hpos]
    rfl
  refine ⟨fun n => (hends.after n).proceeds (Scanner.expired_after hexpired n), hlast, ?_⟩
  have hend : ∀ t, s.outcome file.size = .ok t → t.kind = .endOfInput := by
    intro t ht
    cases hlast.symm.trans ht
    rfl
  -- `tokenize` ends with the first scan that gives no token to go on behind.
  have hexists : ∃ n, ∀ t, s.outcome n = .ok t → t.kind = .endOfInput := ⟨file.size, hend⟩
  classical
  have hbefore : ∀ i < Nat.find hexists, ∃ t, s.outcome i = .ok t ∧ t.kind ≠ .endOfInput :=
    fun i hi => by simpa using Nat.find_min hexists hi
  have hstop := Nat.find_spec hexists
  exact ⟨_, Nat.find_min' hexists hend, hbefore, hstop, Scanner.tokenize_eq_mapM hbefore hstop⟩

/-- A broken number, an illegal character of two bytes and an open string: four scans come to the
end, and `Scanner.tokenize` only does the first one. -/
theorem scan_repeated_three_problems :
    ∃ s, Scanner.ofText ⟨0, "q.sql", 1, 6, []⟩ "1e §'" = .ok s ∧
      (List.range 4).map s.outcome =
        [.error ⟨1, .malformedNumber "1e " .exponentWithoutDigits⟩, .ok ⟨4, .illegal, "§"⟩,
          .error ⟨6, .unterminatedString⟩, .ok (.endOfInput 7)] ∧
      (List.range 5).map (fun n => (s.after n).offset) = [0, 2, 5, 6, 6] ∧
      (∀ n, (s.after n).Proceeds ⟨0, "q.sql", 1, 6, []⟩) ∧
      s.outcome 6 = .ok (.endOfInput 7) := by
  let s : Scanner := { file := ⟨0, "q.sql", 1, 6, []⟩, rest := "1e §'".toList }
  have hs : Scanner.ofText ⟨0, "q.sql", 1, 6, []⟩ "1e §'" = .ok s := rfl
  obtain ⟨hproceeds, hlast, -⟩ := scan_repeated hs
  exact ⟨s, hs, by decide +kernel, by decide +kernel, hproceeds, hlast⟩

end SqlFormatter

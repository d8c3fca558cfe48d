import Mathlib.Logic.Relation
import SqlFormatter.Proofs.Grammar.Parser
import SqlFormatter.Proofs.Grammar.Progress
import SqlFormatter.Proofs.Source.Registry

/-!
# SqlFormatter.Proofs.Grammar.Session

A registry in use. In a session files are registered and parsers are at work on them, each as often
and in such an order as its user likes; all parsers of a file share its lines, calls of some may
still be going on when others are made, and a deadline may pass at any character that a parser reads
(`Session.Step`). In every session that can come about a file knows the lines of a front of its
source, at least up to where a parser of it stands (`Session.Sound`), so the places that a parser
names are those of the source, be they those of a statement or that of the error with which it
breaks off (`Session.locate_parseText`).
-/

namespace SqlFormatter

/-- The parser, with the lines of its file that are known by now. -/
def Parser.on (p : Parser) (f : File) : Parser :=
  { p with scanner := { p.scanner with file := f } }

/-- The parser after one more scan. -/
def Parser.scanBy (p : Parser) (time : Option Nat) : Parser :=
  { p with scanner := (p.scanner.scanBy time).2 }

theorem Parser.Covers.on {p : Parser} {file g : File} {cs seen seen' : List Char}
    {places : List Nat} (h : p.Covers file cs seen places) (hunread : g.unread = file.unread)
    (hseen : ∀ known, known <+: cs → p.scanner.file.Knows known →
      ∃ known', seen' <+: known' ∧ known <+: known' ∧ known' <+: cs ∧ g.Knows known') :
    (p.on g).Covers g cs seen' places :=
  Scanner.Covers.on h hunread hseen

/-- A registry, and the parsers at work on its files. -/
structure Session where
  /-- The registry. -/
  registry : Registry := .empty
  /-- The parsers. -/
  parsers : List Parser := []

namespace Session

/-- What can happen in a session. The file of number `i` has the source `sources i`. -/
inductive Step (sources : Nat → String) : Session → Session → Prop where
  /-- A file is registered. -/
  | register {s : Session} {name : String} {base? : Option Nat} {size : Nat} {f : File}
      {r : Registry} (h : s.registry.register name base? size = .ok (f, r)) :
    Step sources s { s with registry := r }
  /-- A parser starts on a file. -/
  | start {s : Session} {f : File} {expired : Bool} {p : Parser} (hf : f ∈ s.registry.files)
      (hp : Parser.ofText f (sources f.id) expired = .ok p) :
    Step sources s ⟨s.registry.update p.scanner.file, p :: s.parsers⟩
  /-- A parser comes one scan further in its file, with its call still going on. -/
  | scan {s : Session} {f : File} {before after : List Parser} {p : Parser} (time : Option Nat)
      (hp : s.parsers = before ++ p :: after) (hf : f ∈ s.registry.files)
      (hid : f.id = p.scanner.file.id) :
    Step sources s ⟨s.registry.update ((p.on f).scanBy time).scanner.file,
      before ++ (p.on f).scanBy time :: after⟩
  /-- A parser parses what is left of its file, in the time that there is. -/
  | parse {s : Session} {f : File} {before after : List Parser} {p : Parser} (clock : Clock)
      (hp : s.parsers = before ++ p :: after) (hf : f ∈ s.registry.files)
      (hid : f.id = p.scanner.file.id) :
    Step sources s ⟨s.registry.update ((p.on f).parseBy clock).2.scanner.file,
      before ++ ((p.on f).parseBy clock).2 :: after⟩

variable {sources : Nat → String} {s s' : Session} {f g : File} {p q : Parser}

/-- The parser stands in the source of the file. -/
def WorksOn (sources : Nat → String) (p : Parser) (f : File) : Prop :=
  f.id = p.scanner.file.id ∧ f.size = byteLength (sources f.id).toList ∧
    (p.on f).Covers f (sources f.id).toList [] []

/-- In the place of one parser there is another. -/
theorem mem_of_replaced {before after : List Parser} (hp : s.parsers = before ++ p :: after) :
    ∀ r ∈ before ++ q :: after, r = q ∨ r ∈ s.parsers := by
  intro r hr
  rw [hp]
  simp only [List.mem_append, List.mem_cons] at hr ⊢
  tauto

/-- What holds in every session. -/
structure Sound (sources : Nat → String) (s : Session) : Prop where
  ordered : s.registry.Ordered
  /-- Each file knows the lines of a front of its source. -/
  informed : ∀ f ∈ s.registry.files, f.size = byteLength (sources f.id).toList →
    ∃ known, known <+: (sources f.id).toList ∧ f.Knows known
  /-- Each parser stands in the source of a file, which knows the lines up to there. -/
  works : ∀ p ∈ s.parsers, ∃ f ∈ s.registry.files, WorksOn sources p f

/-- The parser `p` has read on in the file, from whatever was known of its lines. -/
def ReadsOn (sources : Nat → String) (f : File) (p : Parser) : Prop :=
  ∀ known, known <+: (sources f.id).toList → f.Knows known →
    p.Covers f (sources f.id).toList known []

theorem readsOn_ofText {expired : Bool} (h : Parser.ofText f (sources f.id) expired = .ok p) :
    f.size = byteLength (sources f.id).toList ∧ ReadsOn sources f p := by
  obtain ⟨scanner, hscanner, hof⟩ := Grammar.bind_eq_ok h
  cases hof
  exact ⟨(Scanner.ofText_eq_ok hscanner).2.1,
    fun known hknown hknows => Scanner.covers_ofText hscanner hknown hknows⟩

theorem WorksOn.readsOn (h : WorksOn sources p f) : ReadsOn sources f (p.on f) := by
  intro known hknown hknows
  change ((p.on f).on f).Covers f (sources f.id).toList known []
  refine h.2.2.on rfl fun known' hknown' hknows' => ?_
  -- Of two fronts that the file knows one includes the other.
  rcases List.prefix_or_prefix_of_prefix hknown hknown' with hle | hle
  · exact ⟨known', hle, List.prefix_refl _, hknown', hknows'⟩
  · exact ⟨known, List.prefix_refl _, hle, hknown, hknows⟩

theorem ReadsOn.scanBy (h : ReadsOn sources f p) (time : Option Nat) :
    ReadsOn sources f (p.scanBy time) := by
  intro known hknown hknows
  have hcovers : p.scanner.Covers f (sources f.id).toList known _ := h known hknown hknows
  exact (hcovers.scanBy time).mono (List.subset_append_left ..)

theorem ReadsOn.parseBy (h : ReadsOn sources f p) (clock : Clock) :
    ReadsOn sources f (p.parseBy clock).2 := fun known hknown hknows =>
  (Parser.covers_parseBy (h known hknown hknows) clock).mono (List.nil_subset _)

/-- A parser that reads on in a file leaves a session sound. -/
theorem Sound.readOn (h : s.Sound sources) (hf : f ∈ s.registry.files)
    (hsize : f.size = byteLength (sources f.id).toList) (hp : ReadsOn sources f p)
    {parsers : List Parser} (hparsers : ∀ q ∈ parsers, q = p ∨ q ∈ s.parsers) :
    Sound sources ⟨s.registry.update p.scanner.file, parsers⟩ := by
  obtain ⟨known, hknown, hknows⟩ := h.informed f hf hsize
  have hcovers := hp known hknown hknows
  obtain ⟨hunread, known', -, hknown', hknows'⟩ := hcovers.informed
  obtain ⟨hid, -, -, hsize'⟩ := File.unread_eq_iff.1 hunread
  refine ⟨h.ordered.update hf hunread, fun g hg hgsize => ?_, fun q hq => ?_⟩
  · rcases (h.ordered.mem_update_iff hf hunread).1 hg with rfl | ⟨hg, -⟩
    · exact ⟨known', by rwa [hid], hknows'⟩
    · exact h.informed g hg hgsize
  have hmem := h.ordered.mem_update hf hunread
  rcases hparsers q hq with rfl | hq
  · refine ⟨q.scanner.file, hmem, rfl, by rw [hid, hsize', hsize], ?_⟩
    rw [hid]
    exact hcovers.on hunread fun seen hseen hsees =>
      ⟨seen, List.nil_prefix, List.prefix_refl _, hseen, hsees⟩
  · obtain ⟨g, hg, hworks⟩ := h.works q hq
    by_cases hgid : g.id = f.id
    · -- The other parser works on the same file, of which no less is known now.
      obtain rfl := h.ordered.eq_of_id hf hg hgid.symm
      refine ⟨p.scanner.file, hmem, hid.trans hworks.1, by rw [hid, hsize', hsize], ?_⟩
      rw [hid]
      change ((q.on f).on p.scanner.file).Covers _ _ _ _
      refine hworks.2.2.on hunread fun seen hseen hsees => ?_
      obtain ⟨-, known, hlonger, hknown, hknows⟩ := (hp seen hseen hsees).informed
      exact ⟨known, List.nil_prefix, hlonger, hknown, hknows⟩
    · exact ⟨g, (h.ordered.mem_update_iff hf hunread).2 (Or.inr ⟨hg, hgid⟩), hworks⟩

/-- A parser that is at work reads on in the file with its number. -/
theorem Sound.readsOn (h : s.Sound sources) {before after : List Parser}
    (hp : s.parsers = before ++ p :: after) (hf : f ∈ s.registry.files)
    (hid : f.id = p.scanner.file.id) :
    f.size = byteLength (sources f.id).toList ∧ ReadsOn sources f (p.on f) := by
  obtain ⟨g, hg, hworks⟩ := h.works p (by simp [hp])
  obtain rfl := h.ordered.eq_of_id hf hg (hid.trans hworks.1.symm)
  exact ⟨hworks.2.1, hworks.readsOn⟩

/-- A step leaves a session sound. -/
theorem Step.sound (h : Step sources s s') (hs : s.Sound sources) : s'.Sound sources := by
  cases h with
  | @register name base? size f r hr =>
    obtain ⟨hf, hfiles, -, -⟩ := Registry.register_eq_ok hr
    refine ⟨hs.ordered.register hr, fun g hg hsize => ?_, fun p hp => ?_⟩
    · rw [hfiles, List.mem_append, List.mem_singleton] at hg
      rcases hg with hg | rfl
      · exact hs.informed g hg hsize
      · exact ⟨[], List.nil_prefix, File.knows_nil (by rw [hf])⟩
    · obtain ⟨g, hg, hworks⟩ := hs.works p hp
      exact ⟨g, by rw [hfiles]; exact List.mem_append_left _ hg, hworks⟩
  | start hf hp =>
    obtain ⟨hsize, hreads⟩ := readsOn_ofText hp
    exact hs.readOn hf hsize hreads (by simp)
  | scan time hp hf hid =>
    obtain ⟨hsize, hreads⟩ := hs.readsOn hp hf hid
    exact hs.readOn hf hsize (hreads.scanBy time) (mem_of_replaced hp)
  | parse clock hp hf hid =>
    obtain ⟨hsize, hreads⟩ := hs.readsOn hp hf hid
    exact hs.readOn hf hsize (hreads.parseBy clock) (mem_of_replaced hp)

theorem sound_of_run (h : Relation.ReflTransGen (Step sources) {} s) : s.Sound sources := by
  induction h with
  | refl => exact ⟨Registry.ordered_empty, nofun, nofun⟩
  | tail _ hstep hs => exact hstep.sound hs

/-- The places that a fresh parser names are those of the source, as the registry tells them when
the parser returns, whether time is over from the start or whenever it runs out later. -/
theorem locate_parseText (hrun : Relation.ReflTransGen (Step sources) {} s)
    (hf : f ∈ s.registry.files) (hsize : f.size = byteLength (sources f.id).toList)
    (expired : Bool) (clock : Clock) :
    ∃ p result p', Parser.ofText f (sources f.id) expired = .ok p ∧
      p.parseBy clock = (result, p') ∧
      (clock = [] → parseText f (sources f.id) expired = .ok (result, p'.scanner.file)) ∧
      ∀ n ∈ outcomePlaces result, ∃ o, o ≤ f.size ∧ n = f.base + o ∧
        (s.registry.update p'.scanner.file).locate? n =
          some (locationIn f.name (sources f.id) o) := by
  obtain ⟨hordered, hinformed, -⟩ := sound_of_run hrun
  obtain ⟨scanner, hscanner⟩ := Scanner.exists_ofText expired hsize
  obtain ⟨known, hknown, hknows⟩ := hinformed f hf hsize
  have hp : Parser.ofText f (sources f.id) expired = .ok { scanner } := by
    rw [Parser.ofText, hscanner]
    rfl
  have hcovers := Parser.covers_parseBy (p := { scanner })
    (Scanner.covers_ofText hscanner hknown hknows) clock
  obtain ⟨result, p', hparse⟩ : ∃ result p', Parser.parseBy { scanner } clock = (result, p') :=
    ⟨_, _, rfl⟩
  rw [hparse] at hcovers
  refine ⟨_, result, p', hp, hparse, ?_, fun n hn => ?_⟩
  · rintro rfl
    rw [parseText_eq hscanner, ← Parser.parseBy_nil, hparse]
  have hunread := hcovers.informed.1
  obtain ⟨o, ho, rfl, hlocate⟩ := hcovers.locateOffset hsize n (List.mem_append_right _ hn)
  obtain ⟨-, -, hbase, hsize'⟩ := File.unread_eq_iff.1 hunread
  refine ⟨o, ho, rfl, ?_⟩
  rw [(hordered.update hf hunread).locate?_of_owns (hordered.mem_update hf hunread) ?_, hbase,
    Nat.add_sub_cancel_left, hlocate]
  rw [File.Owns, File.last, hbase, hsize']
  exact ⟨Nat.le_add_right .., Nat.add_le_add_left ho _⟩

/-- Two texts of two lines. -/
def twoTexts (i : Nat) : String :=
  if i = 0 then "SELECT 'a\nb' FROM t" else "SELECT 1,\n  2 FROM t"

/-- The first text is parsed up to where time runs out, behind the end of the line in the string.
The second is registered then, behind a gap. -/
theorem exists_run_of_two_texts :
    ∃ parsers, Relation.ReflTransGen (Step twoTexts) {}
      ⟨⟨[⟨0, "a.sql", 1, 19, [10]⟩, ⟨1, "b.sql", 40, 20, []⟩], 61⟩, parsers⟩ := by
  let f : File := ⟨0, "a.sql", 1, 19, []⟩
  let p : Parser := { scanner := { file := f, rest := "SELECT 'a\nb' FROM t".toList } }
  let q : Parser := ((p.on f).parseBy [none, some 2]).2
  have hp : Parser.ofText f "SELECT 'a\nb' FROM t" = .ok p := rfl
  have hregister : Step twoTexts {} ⟨⟨[f], 21⟩, []⟩ :=
    .register (show Registry.register .empty "a.sql" none 19 = .ok (f, ⟨[f], 21⟩) from rfl)
  have hstart : Step twoTexts ⟨⟨[f], 21⟩, []⟩ ⟨⟨[f], 21⟩, [p]⟩ :=
    @Step.start _ ⟨⟨[f], 21⟩, []⟩ f false p (List.mem_singleton_self f) hp
  have hparse : Step twoTexts ⟨⟨[f], 21⟩, [p]⟩ ⟨Registry.update ⟨[f], 21⟩ q.scanner.file, [q]⟩ :=
    @Step.parse _ ⟨⟨[f], 21⟩, [p]⟩ f [] [] p _ rfl (List.mem_singleton_self f) rfl
  have hlines : Registry.update ⟨[f], 21⟩ q.scanner.file =
      ⟨[⟨0, "a.sql", 1, 19, [10]⟩], 21⟩ := by decide +kernel
  rw [hlines] at hparse
  have hregister' : Registry.register ⟨[⟨0, "a.sql", 1, 19, [10]⟩], 21⟩ "b.sql" (some 40) 20 =
      .ok (⟨1, "b.sql", 40, 20, []⟩,
        ⟨[⟨0, "a.sql", 1, 19, [10]⟩, ⟨1, "b.sql", 40, 20, []⟩], 61⟩) := rfl
  exact ⟨_, .tail (.tail (.tail (.single hregister) hstart) hparse) (.register hregister')⟩

/-- Time runs out for the second number of the second text. -/
theorem locate_parseText_two_texts :
    let f : File := ⟨1, "b.sql", 40, 20, []⟩
    ∃ s : Session, Relation.ReflTransGen (Step twoTexts) {} s ∧ f ∈ s.registry.files ∧
      f.size = byteLength (twoTexts f.id).toList ∧
      ∃ p result p', Parser.ofText f (twoTexts f.id) = .ok p ∧
        p.parseBy [none, none, none, some 0] = (result, p') ∧
        result = .error (.lexical ⟨52, .deadlineExceeded⟩) ∧
        (s.registry.update p'.scanner.file).locate? 52 = some ⟨"b.sql", 2, 3⟩ := by
  intro f
  obtain ⟨parsers, hrun⟩ := exists_run_of_two_texts
  have hmem : f ∈ [(⟨0, "a.sql", 1, 19, [10]⟩ : File), f] := by decide
  let q : Parser := { scanner := { file := f, rest := "SELECT 1,\n  2 FROM t".toList } }
  have hq : Parser.ofText f (twoTexts f.id) = .ok q :=
    show Parser.ofText f "SELECT 1,\n  2 FROM t" = .ok q from rfl
  have herror : (q.parseBy [none, none, none, some 0]).1.map (fun _ => ()) =
      .error (.lexical ⟨52, .deadlineExceeded⟩) := by decide +kernel
  obtain ⟨p, result, p', hp, hparse, -, hlocate⟩ :=
    locate_parseText hrun hmem (by decide) false [none, none, none, some 0]
  obtain rfl : q = p := Except.ok.inj (hq.symm.trans hp)
  have hresult : result = .error (.lexical ⟨52, .deadlineExceeded⟩) := by
    rw [hparse] at herror
    cases result <;> cases herror
    rfl
  subst hresult
  obtain ⟨o, -, ho, hlocate⟩ := hlocate 52 (List.mem_singleton_self _)
  obtain rfl : o = 12 := by
    change 52 = 40 + o at ho
    omega
  have hlocation : locationIn f.name (twoTexts f.id) 12 = ⟨"b.sql", 2, 3⟩ := by decide +kernel
  rw [hlocation] at hlocate
  exact ⟨_, hrun, hmem, by decide, q, _, p', hp, hparse, rfl, hlocate⟩

end Session

end SqlFormatter

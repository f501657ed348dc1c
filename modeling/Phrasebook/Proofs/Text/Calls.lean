import Phrasebook.Proofs.Text.Nesting
import Phrasebook.Proofs.Text.Parts

/-!
# Proofs — Text — Calls

Which names a text calls, and which it imports.  A call is a name with a parenthesis behind it that
a scan comes upon outside of string literals (`Calls`); so what a literal denotes is no call,
however much it looks like one.  Comments are scanned as all else; those of generated modules hold
neither quotes nor parentheses.  A text is *quiet* if no parenthesis is opened in it outside of
literals, and a text of such texts is quiet as well (`IsQuiet.append`); so it calls nothing
(`IsQuiet.not_calls`).

An import is a line (`Imports`).  What is known of all lines that a text is written in
(`IsWritten`) is known of the lines it is divided into (`IsWritten.exists_of_mem_lines`).
-/

namespace Phrasebook.Text

/-! ### Outside of string literals -/

/-- The characters that a scan comes upon outside of string literals, as far as it goes. -/
def bare : Scan → List Char → List Char
  | _, [] => []
  | s, c :: cs =>
      match s, s.step c with
      | _, none => []
      | .code _, some next => c :: bare next cs
      | _, some next => bare next cs

/-- Over texts that stand behind each other a scan comes upon what is bare in each. -/
theorem bare_append {s t : Scan} {as : List Char} (h : scan s as = some t) (bs : List Char) :
    bare s (as ++ bs) = bare s as ++ bare t bs := by
  induction as generalizing s with
  | nil =>
      cases h
      rfl
  | cons c cs ih =>
      rw [scan_cons] at h
      obtain ⟨next, hnext, hrest⟩ := Option.bind_eq_some_iff.mp h
      cases s <;> simp only [List.cons_append, bare, hnext, ih hrest]

/-- If the scan of a text breaks off, it comes upon nothing behind it. -/
theorem bare_append_of_eq_none {s : Scan} {as : List Char} (h : scan s as = none)
    (bs : List Char) : bare s (as ++ bs) = bare s as := by
  induction as generalizing s with
  | nil => cases h
  | cons c cs ih =>
      cases hnext : s.step c with
      | none => cases s <;> simp only [List.cons_append, bare, hnext]
      | some next =>
          rw [scan_cons, hnext, Option.bind_some] at h
          cases s <;> simp only [List.cons_append, bare, hnext, ih h]

/-! ### Quiet texts -/

/-- Opens no parenthesis outside of string literals, and leaves no literal open. -/
structure IsQuiet (text : String) : Prop where
  not_mem_bare : ∀ opened, '(' ∉ bare (.code opened) text.toList
  exists_code : ∀ opened t, scan (.code opened) text.toList = some t →
    ∃ opened', t = .code opened'

theorem isQuiet_empty : IsQuiet "" where
  not_mem_bare _ := List.not_mem_nil
  exists_code opened _ h := ⟨opened, (Option.some.inj h).symm⟩

theorem IsQuiet.append {a b : String} (ha : IsQuiet a) (hb : IsQuiet b) : IsQuiet (a ++ b) where
  not_mem_bare opened hmem := by
    rw [String.toList_append] at hmem
    cases hscan : scan (.code opened) a.toList with
    | none =>
        rw [bare_append_of_eq_none hscan] at hmem
        exact ha.not_mem_bare opened hmem
    | some t =>
        obtain ⟨opened', rfl⟩ := ha.exists_code opened t hscan
        rw [bare_append hscan, List.mem_append] at hmem
        exact hmem.elim (ha.not_mem_bare opened) (hb.not_mem_bare opened')
  exists_code opened t h := by
    rw [String.toList_append, scan, List.foldlM_append] at h
    obtain ⟨u, hu, ht⟩ := Option.bind_eq_some_iff.mp h
    obtain ⟨opened', rfl⟩ := ha.exists_code opened u hu
    exact hb.exists_code opened' t ht

theorem isQuiet_concat {texts : List String} (h : ∀ t ∈ texts, IsQuiet t) :
    IsQuiet (concat texts) := by
  induction texts with
  | nil => exact isQuiet_empty
  | cons t ts ih =>
      obtain ⟨ht, hts⟩ := List.forall_mem_cons.mp h
      exact ht.append (ih hts)

/-- Outside of literals, a scan that does not break off and comes upon no quote stays there. -/
theorem Scan.step_code {c : Char} (h : c ≠ '"') {opened : List Bracket} {t : Scan}
    (ht : (Scan.code opened).step c = some t) : ∃ opened', t = .code opened' := by
  simp only [step, if_neg h] at ht
  split at ht
  · exact ⟨_, (Option.some.inj ht).symm⟩
  · exact ⟨_, (Option.some.inj ht).symm⟩
  · cases ht
  · split at ht
    · exact ⟨_, (Option.some.inj ht).symm⟩
    · cases ht

/-- A text without quotes and opening parentheses is quiet. -/
theorem isQuiet_of_plain {text : String} (hquote : '"' ∉ text.toList) (hparen : '(' ∉ text.toList) :
    IsQuiet text := by
  suffices hchars : ∀ opened, '(' ∉ bare (.code opened) text.toList ∧
      ∀ t, scan (.code opened) text.toList = some t → ∃ opened', t = .code opened' from
    ⟨fun opened => (hchars opened).1, fun opened => (hchars opened).2⟩
  generalize text.toList = cs at hquote hparen
  induction cs with
  | nil => exact fun opened => ⟨List.not_mem_nil, fun t h => ⟨opened, (Option.some.inj h).symm⟩⟩
  | cons c cs ih =>
      obtain ⟨hc, hquote⟩ := not_or.mp (mt List.mem_cons.mpr hquote)
      obtain ⟨hc', hparen⟩ := not_or.mp (mt List.mem_cons.mpr hparen)
      intro opened
      cases hnext : (Scan.code opened).step c with
      | none => simp [bare, scan_cons, hnext]
      | some next =>
          obtain ⟨opened', rfl⟩ := Scan.step_code (Ne.symm hc) hnext
          obtain ⟨hbare, hcode⟩ := ih hquote hparen opened'
          rw [scan_cons, hnext, Option.bind_some]
          simp only [bare, hnext, List.mem_cons, not_or]
          exact ⟨⟨hc', hbare⟩, hcode⟩

theorem isQuiet_of_isIdentifier {name : String} (h : isIdentifier name = true) : IsQuiet name :=
  isQuiet_of_plain (not_mem_of_isIdentifier (by decide) h) (not_mem_of_isIdentifier (by decide) h)

/-- Nothing is bare where characters stand for themselves in a literal. -/
theorem bare_literal_of_unescaped {cs : List Char} (opened : List Bracket)
    (h : ∀ c ∈ cs, IsUnescaped c) : bare (.literal opened) cs = [] := by
  induction cs with
  | nil => rfl
  | cons c cs ih =>
      obtain ⟨hc, hcs⟩ := List.forall_mem_cons.mp h
      have hstep := scan_literal_of_unescaped opened (List.forall_mem_singleton.mpr hc)
      rw [scan_cons] at hstep
      obtain ⟨next, hnext, hnil⟩ := Option.bind_eq_some_iff.mp hstep
      cases hnil
      simp only [bare, hnext, ih hcs]

/-- What stands for a character in a literal is not bare. -/
theorem bare_escape (c : Char) (opened : List Bracket) :
    bare (.literal opened) (escape c) = [] := by
  obtain ⟨hescape, hc⟩ | ⟨d, ds, hescape, hd, hds⟩ := escape_cases c
  · rw [hescape]
    exact bare_literal_of_unescaped opened (List.forall_mem_singleton.mpr hc)
  · have hslash : (Scan.literal opened).step '\\' = some (.escaped opened) := rfl
    have hstep : (Scan.escaped opened).step d = some (.literal opened) := by
      simp only [Scan.step, isLineEnd_of_le_toNat hd, Bool.false_eq_true, if_false]
    rw [hescape]
    simp only [bare, hslash, hstep, bare_literal_of_unescaped opened hds]

/-- **A string literal is quiet**, whatever text it denotes. -/
theorem isQuiet_quote (text : String) : IsQuiet (quote text) where
  not_mem_bare opened := by
    have hcontent : ∀ cs : List Char,
        bare (.literal opened) (cs.flatMap escape ++ ['"']) = [] := fun cs => by
      induction cs with
      | nil => rfl
      | cons c cs ih =>
          rw [List.flatMap_cons, List.append_assoc, bare_append (scan_escape c opened),
            bare_escape, ih, List.append_nil]
    have hopen : (Scan.code opened).step '"' = some (.literal opened) := rfl
    rw [toList_quote, quoteChars]
    simp [bare, hopen, hcontent]
  exists_code opened t h :=
    ⟨opened, Option.some.inj (h.symm.trans ((isBalanced_quote text).passes opened))⟩

theorem isQuiet_property (name : String) : IsQuiet (property name) := by
  unfold property
  split
  · next h => exact isQuiet_of_isIdentifier h
  · exact isQuiet_quote name

/-- A quiet text on one line. -/
structure IsTame (text : String) : Prop where
  isOneLine : IsOneLine text
  isQuiet : IsQuiet text

theorem IsTame.append {a b : String} (ha : IsTame a) (hb : IsTame b) : IsTame (a ++ b) :=
  ⟨ha.isOneLine.append hb.isOneLine, ha.isQuiet.append hb.isQuiet⟩

/-- Ends no line, starts no string literal and opens no parenthesis. -/
def isPlain (c : Char) : Bool :=
  c != '\n' && c != '"' && c != '('

/-- A text of plain characters is tame. -/
theorem isTame_of_plain {text : String} (h : text.toList.all isPlain = true) : IsTame text := by
  have hplain : ∀ c, isPlain c = false → c ∉ text.toList := fun c hc hmem => by
    rw [List.all_eq_true.mp h c hmem] at hc
    cases hc
  exact ⟨hplain '\n' rfl, isQuiet_of_plain (hplain '"' rfl) (hplain '(' rfl)⟩

theorem isTame_of_isIdentifier {name : String} (h : isIdentifier name = true) : IsTame name :=
  ⟨not_mem_of_isIdentifier (by decide) h, isQuiet_of_isIdentifier h⟩

theorem isTame_quote (text : String) : IsTame (quote text) :=
  ⟨isOneLine_quote text, isQuiet_quote text⟩

/-! ### Calls -/

/-- What stands behind the text is not the rest of a name. -/
def EndsNoName (text : String) : Prop :=
  text.toList.getLast?.any isIdentifierPart = false

theorem endsNoName_empty : EndsNoName "" :=
  rfl

theorem EndsNoName.append {a b : String} (ha : EndsNoName a) (hb : EndsNoName b) :
    EndsNoName (a ++ b) := by
  rw [EndsNoName] at ha hb ⊢
  rw [String.toList_append, List.getLast?_append]
  cases hchars : b.toList.getLast? with
  | none => exact ha
  | some c =>
      rw [hchars] at hb
      exact hb

/-- No name goes on behind the end of a line. -/
theorem endsNoName_lineEnd (text : String) : EndsNoName (text ++ "\n") := by
  rw [EndsNoName, String.toList_append, List.getLast?_append]
  rfl

/-- Outside of string literals the name stands in the text, with a parenthesis opened behind it; and
it is the whole name that stands there, not the end of a longer one. -/
def Calls (name text : String) : Prop :=
  ∃ before behind opened, text = before ++ name ++ "(" ++ behind ∧
    Passes (.code []) before (.code opened) ∧ EndsNoName before

/-- **A quiet text calls nothing.** -/
theorem IsQuiet.not_calls {text name : String} (h : IsQuiet text)
    (hname : isIdentifier name = true) : ¬ Calls name text := by
  rintro ⟨before, behind, opened, rfl, hbefore, -⟩
  have hpasses := Passes.append hbefore ((isBalanced_of_isIdentifier hname).passes opened)
  have hparen : (Scan.code opened).step '(' = some (.code (.paren :: opened)) := rfl
  refine h.not_mem_bare [] ?_
  rw [String.append_assoc, String.toList_append, bare_append hpasses]
  simp [bare, hparen]

/-- What a text calls is called wherever the text stands outside of literals, if the end of a name
does not stand before it. -/
theorem Calls.inside {name text before : String} (h : Calls name text) {opened : List Bracket}
    (hbefore : Passes (.code []) before (.code opened)) (hends : EndsNoName before)
    (behind : String) : Calls name (before ++ text ++ behind) := by
  obtain ⟨inner, rest, opened', rfl, hinner, hinnerends⟩ := h
  refine ⟨before ++ inner, rest ++ behind, opened' ++ opened, ?_,
    hbefore.append (scan_above hinner opened), hends.append hinnerends⟩
  simp only [String.append_assoc]

/-! ### Lines -/

theorem text_append (first second : Source) :
    Source.text (first ++ second) = Source.text first ++ Source.text second := by
  rw [← String.toList_inj, String.toList_append, Source.toList_text, Source.toList_text,
    Source.toList_text, List.flatMap_append]

/-- Is divided into lines that are such lines. -/
def IsWritten (P : Line → Prop) (text : String) : Prop :=
  ∃ source : Source, text = source.text ∧ ∀ line ∈ source, IsOneLine line.content ∧ P line

namespace IsWritten

variable {P Q : Line → Prop} {a b : String}

theorem empty : IsWritten P "" :=
  ⟨[], rfl, by simp⟩

theorem line {depth : Nat} {content : String} (h : IsOneLine content) (hP : P ⟨depth, content⟩) :
    IsWritten P (Line.text ⟨depth, content⟩) :=
  ⟨[⟨depth, content⟩], String.append_empty.symm, by simpa using ⟨h, hP⟩⟩

theorem append (ha : IsWritten P a) (hb : IsWritten P b) : IsWritten P (a ++ b) := by
  obtain ⟨first, rfl, hfirst⟩ := ha
  obtain ⟨second, rfl, hsecond⟩ := hb
  exact ⟨first ++ second, (text_append first second).symm,
    List.forall_mem_append.mpr ⟨hfirst, hsecond⟩⟩

theorem concat {texts : List String} (h : ∀ t ∈ texts, IsWritten P t) :
    IsWritten P (concat texts) := by
  induction texts with
  | nil => exact empty
  | cons t ts ih =>
      obtain ⟨ht, hts⟩ := List.forall_mem_cons.mp h
      exact ht.append (ih hts)

theorem imp (h : IsWritten P a) (himp : ∀ line, P line → Q line) : IsWritten Q a := by
  obtain ⟨source, rfl, hsource⟩ := h
  exact ⟨source, rfl, fun line hline => (hsource line hline).imp_right (himp line)⟩

/-- The lines of the text are such lines. -/
theorem exists_of_mem_lines (h : IsWritten P a) {l : String} (hl : l ∈ lines a) :
    ∃ line, P line ∧ l = String.ofList line.chars := by
  obtain ⟨source, rfl, hsource⟩ := h
  rw [lines_text fun line hline => (hsource line hline).1] at hl
  obtain ⟨line, hline, rfl⟩ := List.mem_map.mp hl
  exact ⟨line, (hsource line hline).2, rfl⟩

/-- A line behind other lines is a line of the text, whatever follows it. -/
theorem mem_lines_append (h : IsWritten P a) (line : Line) (hline : IsOneLine line.content)
    (rest : String) : String.ofList line.chars ∈ lines (a ++ line.text ++ rest) := by
  obtain ⟨source, rfl, hsource⟩ := h
  have honeline : ∀ l ∈ source ++ [line], IsOneLine l.content :=
    List.forall_mem_append.mpr ⟨fun l hl => (hsource l hl).1, List.forall_mem_singleton.mpr hline⟩
  have htext : Source.text source ++ line.text = Source.text (source ++ [line]) := by
    rw [text_append]
    exact congrArg _ String.append_empty.symm
  rw [htext, lines_text_append honeline, List.mem_append, List.map_append]
  exact .inl (List.mem_append_right _ (List.mem_singleton_self _))

/-- A text of quiet lines is quiet. -/
theorem isQuiet (h : IsWritten P a) (hP : ∀ line, P line → IsQuiet line.content) : IsQuiet a := by
  obtain ⟨source, rfl, hsource⟩ := h
  refine isQuiet_concat fun t ht => ?_
  obtain ⟨line, hline, rfl⟩ := List.mem_map.mp ht
  have hindentation : ∀ c : Char, c ≠ ' ' →
      c ∉ (String.ofList (List.replicate (2 * line.depth) ' ')).toList := fun c hc hmem => by
    rw [String.toList_ofList] at hmem
    exact hc (List.eq_of_mem_replicate hmem)
  have hend : IsQuiet "\n" := isQuiet_of_plain (by decide) (by decide)
  exact ((isQuiet_of_plain (hindentation _ (by decide)) (hindentation _ (by decide))).append
    (hP line (hsource line hline).2)).append hend

end IsWritten

/-- The line that imports a name from a module. -/
def importLine (name source : String) : String :=
  "import \x7b " ++ name ++ " \x7d from " ++ quote source ++ ";"

theorem isTame_importLine {name : String} (h : IsTame name) (source : String) :
    IsTame (importLine name source) := by
  have himport : IsTame "import \x7b " := isTame_of_plain (by decide)
  have hfrom : IsTame " \x7d from " := isTame_of_plain (by decide)
  have hend : IsTame ";" := isTame_of_plain (by decide)
  exact (((himport.append h).append hfrom).append (isTame_quote source)).append hend

/-- The line of an import says which name is imported. -/
theorem importLine_inj {name name' source source' : String} (hname : isIdentifier name = true)
    (hname' : isIdentifier name' = true) (h : importLine name source = importLine name' source') :
    name = name' := by
  have hblank : isIdentifierPart ' ' = false := by decide
  have hchars := congrArg String.toList h
  simp only [importLine, String.append_assoc, String.toList_append, List.append_cancel_left_eq]
    at hchars
  exact String.toList_inj.mp
    (append_cons_inj (isIdentifierPart_of_mem hname) (isIdentifierPart_of_mem hname') hblank hblank
      hchars).1

/-- A line of the text imports the name from some module. -/
def Imports (name text : String) : Prop :=
  ∃ source, importLine name source ∈ lines text

end Phrasebook.Text

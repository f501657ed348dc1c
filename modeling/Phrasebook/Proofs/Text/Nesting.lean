import Phrasebook.Proofs.Text.Quoted

/-!
# Proofs — Text — Nesting

How string literals and brackets stand in source.  A `Scan` goes over source from left to right and
keeps the brackets that are open; it breaks off at a bracket that closes none of them, and at the
end of a line inside of a literal.  A text is *balanced* if the scan of it comes to its end with
nothing open.

Over texts that stand behind each other a scan passes one by one (`Passes.append`).  Texts of inert
characters are balanced, and so is every string literal, whatever it denotes (`isBalanced_quote`).
Inside of a balanced text no bracket around it is closed (`scan_above`), so that behind an opening
brace and a balanced text it is the next brace that closes (`block?_of_isBalanced`).
-/

namespace Phrasebook.Text

/-- A kind of brackets. -/
inductive Bracket where
  | brace
  | paren
  deriving DecidableEq

/-- The kind of an opening bracket. -/
def opens? (c : Char) : Option Bracket :=
  if c = '\x7b' then some .brace else if c = '(' then some .paren else none

/-- The kind of a closing bracket. -/
def closes? (c : Char) : Option Bracket :=
  if c = '\x7d' then some .brace else if c = ')' then some .paren else none

/-- Ends a line. -/
def isLineEnd (c : Char) : Bool :=
  c == '\n' || c == '\r'

/-- Where a scan stands, and the brackets that are open there, innermost first. -/
inductive Scan where
  /-- Outside of string literals. -/
  | code (opened : List Bracket)
  /-- In a string literal. -/
  | literal (opened : List Bracket)
  /-- In a string literal, behind a backslash. -/
  | escaped (opened : List Bracket)
  deriving DecidableEq

/-- One character further. -/
def Scan.step : Scan → Char → Option Scan
  | .code opened, c =>
      if c = '"' then some (.literal opened)
      else match opens? c, closes? c, opened with
        | some b, _, _ => some (.code (b :: opened))
        | none, none, _ => some (.code opened)
        | none, some _, [] => none
        | none, some b, innermost :: outer => if innermost = b then some (.code outer) else none
  | .literal opened, c =>
      if isLineEnd c then none
      else if c = '"' then some (.code opened)
      else if c = '\\' then some (.escaped opened)
      else some (.literal opened)
  | .escaped opened, c => if isLineEnd c then none else some (.literal opened)

/-- From one place of a scan over some characters. -/
def scan (s : Scan) (cs : List Char) : Option Scan :=
  cs.foldlM Scan.step s

/-- Over a text, a scan comes from one place to another. -/
def Passes (s : Scan) (text : String) (t : Scan) : Prop :=
  scan s text.toList = some t

instance (s : Scan) (text : String) (t : Scan) : Decidable (Passes s text t) :=
  inferInstanceAs (Decidable (_ = _))

/-- Every string literal is closed on its line, and outside of them every bracket is closed by one
of its kind, in the order of their nesting. -/
def IsBalanced (text : String) : Prop :=
  Passes (.code []) text (.code [])

instance (text : String) : Decidable (IsBalanced text) :=
  inferInstanceAs (Decidable (Passes _ _ _))

/-- What stands from some place of a scan up to the bracket that closes the last one open, and what
follows this bracket. -/
def blockFrom? : Scan → List Char → Option (List Char × List Char)
  | _, [] => none
  | s, c :: cs =>
      match s.step c with
      | none => none
      | some (.code []) => some ([], cs)
      | some next => (blockFrom? next cs).map fun block => (c :: block.1, block.2)

/-- What stands behind an opening brace up to the one that closes it, and what follows this. -/
def block? (cs : List Char) : Option (List Char × List Char) :=
  blockFrom? (.code [.brace]) cs

/-! ### Scanning -/

theorem scan_cons (s : Scan) (c : Char) (cs : List Char) :
    scan s (c :: cs) = (s.step c).bind fun next => scan next cs :=
  List.foldlM_cons

theorem scan_append {s t : Scan} {as : List Char} (h : scan s as = some t) (bs : List Char) :
    scan s (as ++ bs) = scan t bs := by
  rw [scan, List.foldlM_append, show as.foldlM Scan.step s = some t from h]
  rfl

/-- The same place, with more brackets open around all others. -/
def Scan.above (outer : List Bracket) : Scan → Scan
  | .code opened => .code (opened ++ outer)
  | .literal opened => .literal (opened ++ outer)
  | .escaped opened => .escaped (opened ++ outer)

theorem Scan.step_above {s t : Scan} {c : Char} (h : s.step c = some t) (outer : List Bracket) :
    (s.above outer).step c = some (t.above outer) := by
  cases s with
  | code opened =>
      simp only [step, above] at h ⊢
      split at h
      · next hc =>
          cases h
          rw [if_pos hc]
      · next hc =>
          rw [if_neg hc]
          cases hopens : opens? c with
          | some b =>
              simp only [hopens, Option.some.injEq] at h ⊢
              subst h
              rfl
          | none =>
              cases hcloses : closes? c with
              | none =>
                  simp only [hopens, hcloses, Option.some.injEq] at h ⊢
                  subst h
                  rfl
              | some b =>
                  -- it closes a bracket, which is none of those around
                  cases opened with
                  | nil => simp [hopens, hcloses] at h
                  | cons innermost rest =>
                      simp only [hopens, hcloses, List.cons_append] at h ⊢
                      split at h
                      · next heq =>
                          cases h
                          rw [if_pos heq]
                      · cases h
  | literal opened =>
      simp only [step, above] at h ⊢
      split_ifs at h ⊢ <;> cases h <;> rfl
  | escaped opened =>
      simp only [step, above] at h ⊢
      split_ifs at h ⊢
      cases h
      rfl

/-- **Brackets around a text are not seen from inside of it.** -/
theorem scan_above {s t : Scan} {cs : List Char} (h : scan s cs = some t) (outer : List Bracket) :
    scan (s.above outer) cs = some (t.above outer) := by
  induction cs generalizing s with
  | nil =>
      cases h
      rfl
  | cons c cs ih =>
      rw [scan_cons] at h ⊢
      obtain ⟨next, hnext, hrest⟩ := Option.bind_eq_some_iff.mp h
      rw [Scan.step_above hnext outer, Option.bind_some, ih hrest]

theorem Passes.append {s t u : Scan} {a b : String} (ha : Passes s a t) (hb : Passes t b u) :
    Passes s (a ++ b) u := by
  rw [Passes, String.toList_append, scan_append ha]
  exact hb

/-! ### Balanced texts -/

/-- Over a balanced text the same brackets stay open. -/
theorem IsBalanced.passes {text : String} (h : IsBalanced text) (opened : List Bracket) :
    Passes (.code opened) text (.code opened) :=
  scan_above h opened

theorem isBalanced_empty : IsBalanced "" :=
  rfl

theorem IsBalanced.append {a b : String} (ha : IsBalanced a) (hb : IsBalanced b) :
    IsBalanced (a ++ b) :=
  Passes.append ha hb

theorem isBalanced_concat {texts : List String} (h : ∀ t ∈ texts, IsBalanced t) :
    IsBalanced (concat texts) := by
  induction texts with
  | nil => exact isBalanced_empty
  | cons t ts ih =>
      exact (h t List.mem_cons_self).append (ih fun u hu => h u (List.mem_cons_of_mem _ hu))

theorem isBalanced_intercalate {separator : String} (hseparator : IsBalanced separator)
    {texts : List String} (h : ∀ t ∈ texts, IsBalanced t) :
    IsBalanced (String.intercalate separator texts) := by
  induction texts with
  | nil => exact isBalanced_empty
  | cons t ts ih =>
      have hrest := fun u hu => h u (List.mem_cons_of_mem _ hu)
      cases ts with
      | nil => simpa using h t List.mem_cons_self
      | cons u us =>
          rw [String.intercalate_cons_cons]
          exact ((h t List.mem_cons_self).append hseparator).append (ih hrest)

/-! ### Inert characters -/

/-- The characters that a scan takes notice of outside of string literals. -/
def marks : List Char :=
  ['"', '\x7b', '\x7d', '(', ')']

theorem Scan.step_of_not_mem_marks {c : Char} (h : c ∉ marks) (opened : List Bracket) :
    (Scan.code opened).step c = some (.code opened) := by
  simp only [marks, List.mem_cons, List.not_mem_nil, or_false, not_or] at h
  obtain ⟨hquote, hopen, hclose, hopen', hclose'⟩ := h
  simp only [step, opens?, closes?, if_neg hquote, if_neg hopen, if_neg hopen', if_neg hclose,
    if_neg hclose']

/-- Where nothing is taken notice of, everything is balanced. -/
theorem isBalanced_of_inert {text : String} (h : ∀ c ∈ text.toList, c ∉ marks) :
    IsBalanced text := by
  rw [IsBalanced, Passes]
  generalize text.toList = cs at h
  induction cs with
  | nil => rfl
  | cons c cs ih =>
      rw [scan_cons, Scan.step_of_not_mem_marks (h c List.mem_cons_self), Option.bind_some]
      exact ih fun d hd => h d (List.mem_cons_of_mem _ hd)

/-- Characters of a kind to which no mark belongs. -/
theorem isBalanced_of_all {p : Char → Bool} (hp : marks.any p = false) {text : String}
    (h : ∀ c ∈ text.toList, p c = true) : IsBalanced text :=
  isBalanced_of_inert fun c hc hmark => List.any_eq_false.mp hp c hmark (h c hc)

theorem isBalanced_of_isIdentifier {name : String} (h : isIdentifier name = true) :
    IsBalanced name :=
  isBalanced_of_all (p := isIdentifierPart) (by decide) (isIdentifierPart_of_mem h)

/-! ### String literals -/

theorem isLineEnd_of_le_toNat {c : Char} (h : 0x20 ≤ c.toNat) : isLineEnd c = false := by
  have hne : ∀ d : Char, d.toNat < 0x20 → (c == d) = false := fun d hd =>
    beq_false_of_ne fun heq => by rw [heq] at h; omega
  rw [isLineEnd, hne '\n' (by decide), hne '\r' (by decide), Bool.or_false]

/-- Characters that stand for themselves do not end a literal. -/
theorem scan_literal_of_unescaped {cs : List Char} (opened : List Bracket)
    (h : ∀ c ∈ cs, IsUnescaped c) : scan (.literal opened) cs = some (.literal opened) := by
  induction cs with
  | nil => rfl
  | cons c cs ih =>
      obtain ⟨hquote, hslash, hcontrol⟩ := h c List.mem_cons_self
      have hstep : (Scan.literal opened).step c = some (.literal opened) := by
        simp only [Scan.step, isLineEnd_of_le_toNat hcontrol, if_neg hquote, if_neg hslash,
          Bool.false_eq_true, if_false]
      rw [scan_cons, hstep, Option.bind_some]
      exact ih fun d hd => h d (List.mem_cons_of_mem _ hd)

/-- What stands for a character in a literal neither ends the literal nor its line. -/
theorem scan_escape (c : Char) (opened : List Bracket) :
    scan (.literal opened) (escape c) = some (.literal opened) := by
  obtain ⟨hescape, hc⟩ | ⟨d, ds, hescape, hd, hds⟩ := escape_cases c
  · rw [hescape]
    exact scan_literal_of_unescaped opened (by simpa using hc)
  · have hslash : (Scan.literal opened).step '\\' = some (.escaped opened) := rfl
    have hstep : (Scan.escaped opened).step d = some (.literal opened) := by
      simp only [Scan.step, isLineEnd_of_le_toNat hd, Bool.false_eq_true, if_false]
    rw [hescape, scan_cons, hslash, Option.bind_some, scan_cons, hstep, Option.bind_some,
      scan_literal_of_unescaped opened hds]

/-- **A string literal is balanced**, whatever text it denotes. -/
theorem isBalanced_quote (text : String) : IsBalanced (quote text) := by
  have hcontent : ∀ cs : List Char,
      scan (.literal []) (cs.flatMap escape) = some (.literal []) := fun cs => by
    induction cs with
    | nil => rfl
    | cons c cs ih => rw [List.flatMap_cons, scan_append (scan_escape c []), ih]
  have hopen : (Scan.code []).step '"' = some (.literal []) := rfl
  rw [IsBalanced, Passes, toList_quote, quoteChars, scan_cons, hopen, Option.bind_some,
    scan_append (hcontent _)]
  rfl

theorem isBalanced_property (name : String) : IsBalanced (property name) := by
  unfold property
  split
  · next h => exact isBalanced_of_isIdentifier h
  · exact isBalanced_quote name

/-! ### Blocks -/

/-- Brackets that are opened and closed inside of a block do not end it. -/
theorem blockFrom?_append {s t : Scan} {as : List Char} (h : scan s as = some t)
    (bs : List Char) :
    blockFrom? (s.above [.brace]) (as ++ bs) =
      (blockFrom? (t.above [.brace]) bs).map fun block => (as ++ block.1, block.2) := by
  have hopen : ∀ u : Scan, u.above [.brace] ≠ .code [] := fun u heq => by
    cases u <;> simp [Scan.above] at heq
  induction as generalizing s with
  | nil =>
      cases h
      simp
  | cons c cs ih =>
      rw [scan_cons] at h
      obtain ⟨next, hnext, hrest⟩ := Option.bind_eq_some_iff.mp h
      rw [List.cons_append, blockFrom?, Scan.step_above hnext [.brace]]
      split
      · next hnone => cases hnone
      · next hend => exact absurd (Option.some.inj hend) (hopen next)
      · next found _ hfound =>
          obtain rfl := Option.some.inj hfound
          rw [ih hrest, Option.map_map]
          rfl

/-- **Behind a balanced text the next brace closes the one before it.** -/
theorem block?_of_isBalanced {text : String} (h : IsBalanced text) (rest : List Char) :
    block? (text.toList ++ '\x7d' :: rest) = some (text.toList, rest) := by
  have hinside := blockFrom?_append h ('\x7d' :: rest)
  have hclosing : blockFrom? (.code [.brace]) ('\x7d' :: rest) = some ([], rest) := rfl
  rw [block?, show Scan.code [.brace] = (Scan.code []).above [.brace] from rfl, hinside,
    show (Scan.code []).above [.brace] = Scan.code [.brace] from rfl, hclosing, Option.map_some,
    List.append_nil]

end Phrasebook.Text

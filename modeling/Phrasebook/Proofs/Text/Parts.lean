import Phrasebook.Proofs.Text.LineCode

/-!
# Proofs — Text — Parts

Source taken apart again.  `lines` divides a text at its line feeds, and `parts` a line into its
indentation, the name that is printed in it, and what stands behind the name.  No line feed stands
in a string literal or an identifier, so that source is divided into the lines that it was written
from (`lines_text`); and a printed name ends where its literal does, or its run of identifier
characters, whatever the name is (`spanName_property`).
-/

namespace Phrasebook.Text

/-! ### Texts on one line -/

/-- Holds no line feed. -/
def IsOneLine (text : String) : Prop :=
  '\n' ∉ text.toList

instance (text : String) : Decidable (IsOneLine text) :=
  inferInstanceAs (Decidable (_ ∉ _))

theorem IsOneLine.append {a b : String} (ha : IsOneLine a) (hb : IsOneLine b) :
    IsOneLine (a ++ b) := by
  rw [IsOneLine, String.toList_append, List.mem_append]
  exact fun h => h.elim ha hb

/-- A joined text has no characters but those of its items and the separator. -/
theorem not_mem_intercalate {c : Char} {separator : String} {texts : List String}
    (hseparator : c ∉ separator.toList) (h : ∀ t ∈ texts, c ∉ t.toList) :
    c ∉ (String.intercalate separator texts).toList := by
  induction texts with
  | nil => exact List.not_mem_nil
  | cons t ts ih =>
      obtain ⟨ht, hts⟩ := List.forall_mem_cons.mp h
      cases ts with
      | nil => simpa using ht
      | cons u us =>
          rw [String.intercalate_cons_cons, String.toList_append, String.toList_append,
            List.mem_append, List.mem_append, not_or, not_or]
          exact ⟨⟨ht, hseparator⟩, ih hts⟩

theorem not_mem_of_isIdentifier {c : Char} {name : String} (hc : isIdentifierPart c = false)
    (h : isIdentifier name = true) : c ∉ name.toList :=
  fun hmem => by
    have hpart := isIdentifierPart_of_mem h c hmem
    rw [hc] at hpart
    exact absurd hpart (by decide)

/-- No control character stands for a character in a string literal. -/
theorem le_toNat_of_mem_escape {c d : Char} (h : c ∈ escape d) : 0x20 ≤ c.toNat := by
  obtain ⟨hescape, hd⟩ | ⟨e, es, hescape, he, hes⟩ := escape_cases d
  · rw [hescape] at h
    obtain rfl := List.mem_singleton.mp h
    exact hd.le_toNat
  · rw [hescape, List.mem_cons, List.mem_cons] at h
    rcases h with rfl | rfl | hmem
    · decide
    · exact he
    · exact (hes c hmem).le_toNat

/-- **No control character stands in a string literal.** -/
theorem le_toNat_of_mem_quote {text : String} {c : Char} (h : c ∈ (quote text).toList) :
    0x20 ≤ c.toNat := by
  rw [toList_quote, quoteChars, List.mem_cons, List.mem_append, List.mem_singleton] at h
  rcases h with rfl | h | rfl
  · decide
  · obtain ⟨d, -, hd⟩ := List.mem_flatMap.mp h
    exact le_toNat_of_mem_escape hd
  · decide

theorem isOneLine_quote (text : String) : IsOneLine (quote text) := fun h =>
  absurd (le_toNat_of_mem_quote h) (by decide)

theorem isOneLine_property (name : String) : IsOneLine (property name) := by
  unfold property
  split
  · next h => exact not_mem_of_isIdentifier (by decide) h
  · exact isOneLine_quote name

/-! ### Lines -/

/-- The lines of a text, each without the line feed that ends it. -/
def lines (text : String) : List String :=
  ((text.toList.splitOn '\n').dropLast).map String.ofList

theorem splitOn_text_append {source : Source} (h : ∀ line ∈ source, IsOneLine line.content)
    (rest : List Char) :
    (source.text.toList ++ rest).splitOn '\n' = source.map Line.chars ++ rest.splitOn '\n' := by
  rw [Source.toList_text]
  induction source with
  | nil => rfl
  | cons line source ih =>
      obtain ⟨hline, hsource⟩ := List.forall_mem_cons.mp h
      have hchars : '\n' ∉ line.chars := by
        rw [Line.chars, List.mem_append]
        rintro (hblank | hcontent)
        · exact absurd (List.eq_of_mem_replicate hblank) (by decide)
        · exact hline hcontent
      rw [List.flatMap_cons, List.append_assoc, List.append_assoc, List.singleton_append,
        List.splitOn_append_cons_self_of_not_mem hchars, ih hsource]
      rfl

/-- Source is divided into its lines, whatever follows it. -/
theorem lines_text_append {source : Source} (h : ∀ line ∈ source, IsOneLine line.content)
    (rest : String) :
    lines (source.text ++ rest) =
      (source.map fun line => String.ofList line.chars) ++ lines rest := by
  rw [lines, String.toList_append, splitOn_text_append h,
    List.dropLast_append_of_ne_nil (List.splitOn_ne_nil _ _), List.map_append, List.map_map, lines]
  rfl

/-- **Source is divided into the lines that it was written from.** -/
theorem lines_text {source : Source} (h : ∀ line ∈ source, IsOneLine line.content) :
    lines source.text = source.map fun line => String.ofList line.chars := by
  have hlines := lines_text_append h ""
  rwa [String.append_empty, show lines "" = [] by decide, List.append_nil] at hlines

/-- A text of lines is its lines again, each with its end. -/
theorem concat_lines_text {source : Source} (h : ∀ line ∈ source, IsOneLine line.content) :
    concat ((lines source.text).map (· ++ "\n")) = source.text := by
  rw [lines_text h, ← String.toList_inj, toList_concat, Source.toList_text, List.map_map,
    List.flatMap_map]
  simp

/-! ### The parts of a line -/

/-- From somewhere in a string literal up to its closing quote, and what follows; the flag says
whether a backslash stands before. -/
def spanLiteral : Bool → List Char → List Char × List Char
  | _, [] => ([], [])
  | true, c :: cs => (c :: (spanLiteral false cs).1, (spanLiteral false cs).2)
  | false, c :: cs =>
      if c = '"' then ([c], cs)
      else (c :: (spanLiteral (c == '\\') cs).1, (spanLiteral (c == '\\') cs).2)

/-- A string literal or a run of identifier characters, and what follows it. -/
def spanName : List Char → List Char × List Char
  | '"' :: cs => ('"' :: (spanLiteral false cs).1, (spanLiteral false cs).2)
  | cs => (cs.takeWhile isIdentifierPart, cs.dropWhile isIdentifierPart)

/-- A line that has been taken apart. -/
structure Parts where
  /-- The number of blanks at its start. -/
  indentation : Nat
  /-- The name that comes next, as it is printed. -/
  name : String
  /-- What stands behind the name. -/
  behind : String
  deriving DecidableEq

/-- The parts of a line. -/
def parts (line : String) : Parts :=
  let named := spanName (line.toList.dropWhile (· == ' '))
  ⟨(line.toList.takeWhile (· == ' ')).length, String.ofList named.1, String.ofList named.2⟩

/-- Characters that stand for themselves do not end a literal. -/
theorem spanLiteral_unescaped_append {cs : List Char} (h : ∀ c ∈ cs, IsUnescaped c)
    (rest : List Char) :
    spanLiteral false (cs ++ rest) =
      (cs ++ (spanLiteral false rest).1, (spanLiteral false rest).2) := by
  induction cs with
  | nil => rfl
  | cons c cs ih =>
      obtain ⟨hc, hcs⟩ := List.forall_mem_cons.mp h
      have hslash : (c == '\\') = false := beq_false_of_ne hc.ne_slash
      rw [List.cons_append, spanLiteral, if_neg hc.ne_quote, hslash, ih hcs]
      rfl

/-- What stands for a character in a literal does not end it. -/
theorem spanLiteral_escape_append (c : Char) (rest : List Char) :
    spanLiteral false (escape c ++ rest) =
      (escape c ++ (spanLiteral false rest).1, (spanLiteral false rest).2) := by
  obtain ⟨hescape, hc⟩ | ⟨d, ds, hescape, -, hds⟩ := escape_cases c
  · rw [hescape]
    exact spanLiteral_unescaped_append (by simpa using hc) rest
  · have hslash : ('\\' == '\\') = true := rfl
    rw [hescape, List.cons_append, List.cons_append, spanLiteral, if_neg (by decide), hslash,
      spanLiteral, spanLiteral_unescaped_append hds]
    rfl

/-- **A string literal ends at its closing quote**, whatever text it denotes. -/
theorem spanLiteral_quoted (cs rest : List Char) :
    spanLiteral false (cs.flatMap escape ++ '"' :: rest) = (cs.flatMap escape ++ ['"'], rest) := by
  induction cs with
  | nil => rfl
  | cons c cs ih =>
      rw [List.flatMap_cons, List.append_assoc, spanLiteral_escape_append, ih, List.append_assoc]

theorem property_of_isIdentifier {name : String} (h : isIdentifier name = true) :
    property name = name :=
  if_pos h

theorem spanName_of_ne_quote {c : Char} (h : c ≠ '"') (cs : List Char) :
    spanName (c :: cs) =
      ((c :: cs).takeWhile isIdentifierPart, (c :: cs).dropWhile isIdentifierPart) := by
  unfold spanName
  split
  · next heq => exact absurd (List.cons.inj heq).1 h
  · rfl

/-- A string literal is read off the source, whatever follows. -/
theorem spanName_quote (text : String) (r : List Char) :
    spanName ((quote text).toList ++ r) = ((quote text).toList, r) := by
  rw [toList_quote, quoteChars, List.cons_append, List.append_assoc, spanName,
    List.singleton_append, spanLiteral_quoted]

/-- **A printed name is read off the source**, if no part of an identifier follows. -/
theorem spanName_property (name : String) {r : List Char}
    (hr : ∀ c ∈ r.head?, isIdentifierPart c = false) :
    spanName ((property name).toList ++ r) = ((property name).toList, r) := by
  have hrest : r.takeWhile isIdentifierPart = [] ∧ r.dropWhile isIdentifierPart = r := by
    cases r with
    | nil => exact ⟨rfl, rfl⟩
    | cons c cs =>
        have hc := hr c rfl
        exact ⟨List.takeWhile_cons_of_neg (by simp [hc]), List.dropWhile_cons_of_neg (by simp [hc])⟩
  unfold property
  split
  · next h =>
      obtain ⟨d, ds, hname, -, hparts⟩ := exists_cons_of_isIdentifier h
      have hquote : d ≠ '"' := fun hd =>
        absurd (hparts d List.mem_cons_self) (by rw [hd]; decide)
      rw [hname, List.cons_append, spanName_of_ne_quote hquote, ← List.cons_append,
        List.takeWhile_append_of_pos hparts, List.dropWhile_append_of_pos hparts, hrest.1, hrest.2,
        List.append_nil]
  · exact spanName_quote name r

/-- No name is printed where neither a literal nor an identifier starts. -/
theorem spanName_cons {c : Char} (hquote : c ≠ '"') (hc : isIdentifierPart c = false)
    (cs : List Char) : spanName (c :: cs) = ([], c :: cs) := by
  rw [spanName_of_ne_quote hquote, List.takeWhile_cons_of_neg (by simp [hc]),
    List.dropWhile_cons_of_neg (by simp [hc])]

/-- The indentation of a line ends where its content starts. -/
theorem parts_chars (depth : Nat) {content : String} {c : Char} {cs : List Char}
    (hcontent : content.toList = c :: cs) (hc : (c == ' ') = false) :
    parts (String.ofList (Line.chars ⟨depth, content⟩)) =
      ⟨2 * depth, String.ofList (spanName content.toList).1,
        String.ofList (spanName content.toList).2⟩ := by
  have hblanks : ∀ x ∈ List.replicate (2 * depth) ' ', (x == ' ') = true := fun x hx => by
    rw [List.eq_of_mem_replicate hx]
    rfl
  have htake : content.toList.takeWhile (· == ' ') = [] := by
    rw [hcontent, List.takeWhile_cons_of_neg (by simp [hc])]
  have hdrop : content.toList.dropWhile (· == ' ') = content.toList := by
    rw [hcontent, List.dropWhile_cons_of_neg (by simp [hc])]
  simp only [parts, String.toList_ofList, Line.chars, List.takeWhile_append_of_pos hblanks,
    List.dropWhile_append_of_pos hblanks, htake, hdrop, List.append_nil, List.length_replicate]

/-- **The parts of a line that is written for a name**, if a colon stands behind the name. -/
theorem parts_property (depth : Nat) (name : String) {behind : String}
    (h : behind.toList.head? = some ':') :
    parts (String.ofList (Line.chars ⟨depth, property name ++ behind⟩)) =
      ⟨2 * depth, property name, behind⟩ := by
  obtain ⟨r, hbehind⟩ := List.head?_eq_some_iff.mp h
  obtain ⟨c, cs, hchars, hc⟩ := exists_cons_property_append name ':' r
  have hcontent : (property name ++ behind).toList = (property name).toList ++ ':' :: r := by
    rw [String.toList_append, hbehind]
  rw [parts_chars depth (hcontent.trans hchars) hc, hcontent,
    spanName_property name fun d hd => by cases Option.some.inj hd; decide,
    ← hbehind, String.ofList_toList, String.ofList_toList]

/-- **The parts of a line without a name.** -/
theorem parts_of_nameless (depth : Nat) {content : String} {c : Char} {cs : List Char}
    (hcontent : content.toList = c :: cs) (hblank : (c == ' ') = false) (hquote : c ≠ '"')
    (hc : isIdentifierPart c = false) :
    parts (String.ofList (Line.chars ⟨depth, content⟩)) = ⟨2 * depth, "", content⟩ := by
  rw [parts_chars depth hcontent hblank, hcontent, spanName_cons hquote hc, ← hcontent,
    String.ofList_toList]

end Phrasebook.Text

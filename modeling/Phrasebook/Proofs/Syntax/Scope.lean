import Mathlib.Data.List.TakeWhile
import Phrasebook.Proofs.Syntax.Mirror

/-!
# Proofs — Syntax — Scope

What the names in a value mean.  A line of a value can define a function: `arrow?` reads off its
text which parameters the function binds, whom its body calls, and which names it passes on.  The
functions in the value of a payload are its templates, at any depth and in document order, and each
calls `interpolate` (`Tree.arrows_value`).  In the body of a function a name means a parameter,
if one has that name (`Arrow.binding`).  So the names that are passed on mean the parameters, and
what is called is the helper of the module unless a template declares a parameter `interpolate`,
which is a parameter name like any other (`Tree.calls_helper_iff`).
-/

namespace Phrasebook
open Text

/-! ### Functions in source -/

namespace Syntax

/-- What a line says about the arrow function that it defines. -/
structure Arrow where
  /-- The names that it binds. -/
  params : List String
  /-- The name that its body calls. -/
  callee : String
  /-- The names in the object that the call passes. -/
  args : List String
  deriving DecidableEq

/-- The name at the start of an item, if there is one. -/
def nameIn (item : List Char) : String :=
  String.ofList (spanName (item.dropWhile (· == ' '))).1

/-- The names at the starts of items that stand between commas. -/
def namesIn (items : List Char) : List String :=
  ((items.splitOn ',').map nameIn).filter (· ≠ "")

/-- The function that a line defines behind its name, as `(…) => callee("…", { … })`. -/
def arrow? (line : String) : Option Arrow := do
  let header ← (parts line).behind.toList.dropPrefix? ": (".toList
  let body ← (header.dropWhile (· != ')')).dropPrefix? ") => ".toList
  let arguments ← (spanName body).2.dropPrefix? "(".toList
  let object ← (spanName arguments).2.dropPrefix? ", \x7b".toList
  some ⟨namesIn (header.takeWhile (· != ')')), String.ofList (spanName body).1,
    namesIn (object.takeWhile (· != '\x7d'))⟩

/-- The functions that a text of lines defines. -/
def arrows (text : String) : List Arrow :=
  (lines text).filterMap arrow?

/-- What a name in the body of a function means. -/
inductive Binding where
  /-- The parameter at some place. -/
  | parameter (index : Nat)
  /-- What has the name outside of the function. -/
  | outer (name : String)
  deriving DecidableEq

/-- A parameter hides what has its name outside. -/
def Arrow.binding (f : Arrow) (name : String) : Binding :=
  if name ∈ f.params then .parameter (f.params.idxOf name) else .outer name

theorem Arrow.binding_eq_outer_iff {f : Arrow} {name : String} :
    f.binding name = .outer name ↔ name ∉ f.params := by
  unfold binding
  split <;> simp_all

/-- Where no parameter is repeated, each is what its name means. -/
theorem Arrow.binding_of_getElem? {f : Arrow} (hnodup : f.params.Nodup) {i : Nat}
    {name : String} (h : f.params[i]? = some name) : f.binding name = .parameter i := by
  obtain ⟨hi, rfl⟩ := List.getElem?_eq_some_iff.mp h
  rw [binding, if_pos (List.getElem_mem hi), hnodup.idxOf_getElem i hi]

/-! ### Reading the names -/

theorem dropPrefix?_append (p s : List Char) : (p ++ s).dropPrefix? p = some s :=
  List.dropPrefix?_eq_some_iff.mpr ⟨p, rfl, beq_self_eq_true p⟩

/-- A bare name is the name in its item, behind any blanks. -/
theorem nameIn_item {lead r : List Char} {name : String} (hlead : ∀ c ∈ lead, c = ' ')
    (h : isIdentifier name = true) (hr : ∀ c ∈ r.head?, isIdentifierPart c = false) :
    nameIn (lead ++ (name.toList ++ r)) = name := by
  have hblanks : ∀ c ∈ lead, (c == ' ') = true := fun c hc => beq_iff_eq.mpr (hlead c hc)
  obtain ⟨c, cs, hname, -, hparts⟩ := exists_cons_of_isIdentifier h
  have hc : (c == ' ') = false := beq_false_of_ne fun hc =>
    absurd (hparts c List.mem_cons_self) (by rw [hc]; decide)
  have hdrop : (name.toList ++ r).dropWhile (· == ' ') = name.toList ++ r := by
    rw [hname, List.cons_append, List.dropWhile_cons_of_neg (by simp [hc])]
  have hspan := spanName_property name hr
  rw [property_of_isIdentifier h] at hspan
  rw [nameIn, List.dropWhile_append_of_pos hblanks, hdrop, hspan, String.ofList_toList]

theorem namesIn_append_cons (items items' : List Char) :
    namesIn (items ++ ',' :: items') = namesIn items ++ namesIn items' := by
  rw [namesIn, List.splitOn_append_cons_self, List.map_append, List.filter_append]
  rfl

theorem comma_not_mem_of_blank {cs : List Char} (h : ∀ c ∈ cs, c = ' ') : ',' ∉ cs :=
  fun hmem => absurd (h _ hmem) (by decide)

theorem namesIn_blank {cs : List Char} (h : ∀ c ∈ cs, c = ' ') : namesIn cs = [] := by
  have hdrop : cs.dropWhile (· == ' ') = [] :=
    List.dropWhile_eq_nil_iff.mpr fun c hc => beq_iff_eq.mpr (h c hc)
  have hname : nameIn cs = "" := by
    rw [nameIn, hdrop]
    rfl
  simp [namesIn, List.splitOn_eq_singleton (comma_not_mem_of_blank h), hname]

theorem namesIn_item {lead r : List Char} {name : String} (hlead : ∀ c ∈ lead, c = ' ')
    (h : isIdentifier name = true) (hr : ∀ c ∈ r.head?, isIdentifierPart c = false)
    (hcomma : ',' ∉ r) : namesIn (lead ++ (name.toList ++ r)) = [name] := by
  have hname : ',' ∉ name.toList := not_mem_of_isIdentifier (by decide) h
  have hitem : ',' ∉ lead ++ (name.toList ++ r) := by
    simp [comma_not_mem_of_blank hlead, hname, hcomma]
  have hne : name ≠ "" := fun heq => by
    rw [heq] at h
    exact absurd h (by decide)
  simp [namesIn, List.splitOn_eq_singleton hitem, nameIn_item hlead h hr, hne]

/-- Names with commas between them, the same text behind each, are read between blanks. -/
theorem namesIn_intercalate (suffix : String) (lead trail : List Char)
    (hcomma : ',' ∉ suffix.toList)
    (hsuffix : ∀ c ∈ suffix.toList.head?, isIdentifierPart c = false)
    (hlead : ∀ c ∈ lead, c = ' ') (htrail : ∀ c ∈ trail, c = ' ') {names : List String}
    (hnames : ∀ name ∈ names, isIdentifier name = true) :
    namesIn (lead ++ ((String.intercalate ", " (names.map (· ++ suffix))).toList ++ trail)) =
      names := by
  induction names generalizing lead with
  | nil => exact namesIn_blank (List.forall_mem_append.mpr ⟨hlead, htrail⟩)
  | cons name names ih =>
      obtain ⟨hname, hnames⟩ := List.forall_mem_cons.mp hnames
      cases names with
      | nil =>
          have htail : ∀ c ∈ (suffix.toList ++ trail).head?, isIdentifierPart c = false := by
            cases hchars : suffix.toList with
            | nil => exact fun c hc => by rw [htrail c (List.mem_of_mem_head? hc)]; decide
            | cons d ds => exact fun c hc => hsuffix c (by rw [hchars]; exact hc)
          have hitem := namesIn_item hlead hname htail
            (by simp [hcomma, comma_not_mem_of_blank htrail])
          simpa using hitem
      | cons next names =>
          have hitem := namesIn_item hlead hname hsuffix hcomma
          have hnext := ih [' '] (by simp) hnames
          have hchars : lead ++ ((String.intercalate ", "
              ((name :: next :: names).map (· ++ suffix))).toList ++ trail) =
              (lead ++ (name.toList ++ suffix.toList)) ++ ',' :: ([' '] ++ ((String.intercalate ", "
                ((next :: names).map (· ++ suffix))).toList ++ trail)) := by
            simp [String.intercalate_cons_cons]
          rw [hchars, namesIn_append_cons, hitem, hnext]
          rfl

/-- Typed parameters are read by their names. -/
theorem namesIn_typedParams {params : List String}
    (h : ∀ param ∈ params, isIdentifier param = true) :
    namesIn (typedParams params).toList = params := by
  have hsuffix : ∀ c ∈ ": string".toList.head?, isIdentifierPart c = false := fun c hc => by
    cases Option.some.inj hc
    decide
  have hnames := namesIn_intercalate ": string" [] [] (by decide) hsuffix (by simp) (by simp) h
  rwa [List.nil_append, List.append_nil] at hnames

/-- The object that passes parameters on is read by their names, up to the brace that closes it. -/
theorem exists_argsObject {params : List String} (h : ∀ param ∈ params, isIdentifier param = true) :
    ∃ items, (argsObject params).toList = '\x7b' :: (items ++ ['\x7d']) ∧ '\x7d' ∉ items ∧
      namesIn items = params := by
  unfold argsObject
  split
  · next hempty =>
      rw [List.isEmpty_iff.mp hempty]
      exact ⟨[], rfl, by simp, namesIn_blank (by simp)⟩
  · have hnames := namesIn_intercalate "" [' '] [' '] (by simp) (by simp) (by simp) (by simp) h
    have hbrace : '\x7d' ∉ (String.intercalate ", " params).toList :=
      not_mem_intercalate (by decide) fun param hparam =>
        not_mem_of_isIdentifier (by decide) (h param hparam)
    refine ⟨' ' :: ((String.intercalate ", " params).toList ++ [' ']), by simp, ?_, ?_⟩
    · simp only [List.mem_cons, List.mem_append, List.not_mem_nil, or_false, not_or]
      exact ⟨by decide, hbrace, by decide⟩
    · simpa using hnames

theorem span_append_cons {c : Char} {cs : List Char} (h : c ∉ cs) (r : List Char) :
    (cs ++ c :: r).takeWhile (· != c) = cs ∧ (cs ++ c :: r).dropWhile (· != c) = c :: r := by
  have hne : ∀ d ∈ cs, (d != c) = true := fun d hd => bne_iff_ne.mpr fun heq => h (heq ▸ hd)
  rw [List.takeWhile_append_of_pos hne, List.dropWhile_append_of_pos hne,
    List.takeWhile_cons_of_neg (by simp), List.dropWhile_cons_of_neg (by simp), List.append_nil]
  exact ⟨rfl, rfl⟩

/-! ### The functions of rows -/

/-- The function that a row defines. -/
def Row.arrow? : Row → Option Arrow
  | .callable _ _ params => some ⟨params, "interpolate", params⟩
  | _ => none

/-- The text of a callable is read part by part. -/
theorem arrow?_of_behind {line : String} (text : String) {params : List String}
    (hparams : ∀ param ∈ params, isIdentifier param = true)
    (hline : (parts line).behind = ": (" ++ typedParams params ++ ") => interpolate(" ++
      quote text ++ ", " ++ argsObject params ++ "),") :
    arrow? line = some ⟨params, "interpolate", params⟩ := by
  obtain ⟨items, hobject, hbrace, hitems⟩ := exists_argsObject hparams
  have hparen : ')' ∉ (typedParams params).toList :=
    not_mem_typedParams (by decide) (by decide) hparams
  let object := items ++ '\x7d' :: "),".toList
  let arguments := (quote text).toList ++ (", \x7b".toList ++ object)
  let body := "interpolate".toList ++ ("(".toList ++ arguments)
  let header := (typedParams params).toList ++ (") => ".toList ++ body)
  have hbehind : (parts line).behind.toList = ": (".toList ++ header := by
    simp [header, body, arguments, object, hline, hobject]
  have hbound : header.takeWhile (· != ')') = (typedParams params).toList :=
    (span_append_cons hparen (" => ".toList ++ body)).1
  have hbody : header.dropWhile (· != ')') = ") => ".toList ++ body :=
    (span_append_cons hparen (" => ".toList ++ body)).2
  have hcallee : spanName body = ("interpolate".toList, "(".toList ++ arguments) :=
    spanName_property "interpolate" fun c hc => by cases Option.some.inj hc; decide
  have htext : spanName arguments = ((quote text).toList, ", \x7b".toList ++ object) :=
    spanName_quote text _
  have hpassed : object.takeWhile (· != '\x7d') = items :=
    (span_append_cons hbrace "),".toList).1
  simp only [arrow?, hbehind, dropPrefix?_append, Option.bind_eq_bind, Option.bind_some, hbound,
    hbody, hcallee, htext, hpassed, namesIn_typedParams hparams, hitems, String.ofList_toList]

/-- **The text of a row says which function it defines.** -/
theorem Row.arrow?_value (depth : Nat) {row : Row} (h : row.IsSound) :
    Syntax.arrow? (String.ofList (Line.chars ⟨depth, row.value⟩)) = row.arrow? := by
  cases row with
  | literal name text =>
      simp [Syntax.arrow?, (parts_eq depth _).1, behindInValue, toList_quote, quoteChars,
        List.dropPrefix?, Row.arrow?]
  | callable name text params =>
      exact arrow?_of_behind text (isIdentifier_of_templateProblem? h)
        (by rw [(parts_eq depth _).1]; rfl)
  | opening name =>
      simp [Syntax.arrow?, (parts_eq depth _).1, behindInValue, List.dropPrefix?, Row.arrow?]
  | closing =>
      simp [Syntax.arrow?, (parts_eq depth _).1, behindInValue, List.dropPrefix?, Row.arrow?]

/-! ### The functions of a value -/

end Syntax

/-- The function that is written for a template. -/
def PlacedTemplate.arrow (t : PlacedTemplate) : Syntax.Arrow :=
  ⟨t.params, "interpolate", t.params⟩

namespace Syntax

mutual

/-- The rows of an entry define the functions of its templates, at whatever place. -/
theorem filterMap_arrow?_rows (path : EntryPath) (depth : Nat) :
    ∀ e : Entry, (e.rows depth).filterMap (fun row => row.2.arrow?) =
      (e.translation.templates path).map PlacedTemplate.arrow
  | .literal _ _ => rfl
  | .callable _ _ _ => rfl
  | .block name entries => by
      rw [Entry.rows, List.filterMap_cons, List.filterMap_append,
        filterMap_arrow?_rowsOf path (depth + 1) entries, Entry.translation,
        Translation.templates]
      exact List.append_nil _

/-- The rows of entries define the functions of their templates. -/
theorem filterMap_arrow?_rowsOf (path : EntryPath) (depth : Nat) :
    ∀ es : List Entry, (rowsOf depth es).filterMap (fun row => row.2.arrow?) =
      (templatesOf path (payloadOf es)).map PlacedTemplate.arrow
  | [] => rfl
  | e :: es => by
      rw [rowsOf, List.filterMap_append, filterMap_arrow?_rows (path ++ [e.name]) depth e,
        filterMap_arrow?_rowsOf path depth es, payloadOf, templatesOf, List.map_append]

end

namespace Tree

variable {payload : Payload} {tree : Tree}

/-- **The functions in a value are the templates of its payload.** -/
theorem arrows_value (h : ofPayload? payload = .ok tree) :
    arrows tree.value = payload.templates.map PlacedTemplate.arrow := by
  have hsound := isSound_of_ofPayload? h
  have hrow : ∀ row ∈ tree.rows,
      arrow? (String.ofList (Line.chars ⟨row.1, row.2.value⟩)) = row.2.arrow? :=
    fun row hmem => Row.arrow?_value row.1 (hsound row hmem)
  rw [arrows, lines_value h, List.filterMap_map, Payload.templates, ← payload_of_ofPayload? h,
    ← filterMap_arrow?_rowsOf [] 1]
  exact List.filterMap_congr hrow

/-- **Whom the functions of a value call.**  They are the templates of the payload, and what each
passes on are its own parameters.  Their calls all go to the helper that the module imports just if
no template declares a parameter of that name. -/
theorem calls_helper_iff (h : ofPayload? payload = .ok tree) :
    arrows tree.value = payload.templates.map PlacedTemplate.arrow ∧
      (∀ f ∈ arrows tree.value, ∀ i name, f.args[i]? = some name →
        f.binding name = .parameter i) ∧
      ((∀ f ∈ arrows tree.value, f.binding f.callee = .outer "interpolate") ↔
        ∀ t ∈ payload.templates, "interpolate" ∉ t.params) := by
  have hsound : ∀ t ∈ payload.templates, templateProblem? t.text t.params = none :=
    Payload.templateFaults_eq_nil_iff.mp ((reports_ofPayload? payload).exists_ok_iff.mp ⟨tree, h⟩)
  have harrows := arrows_value h
  refine ⟨harrows, ?_, ?_⟩
  · intro f hf i name harg
    rw [harrows] at hf
    obtain ⟨t, ht, rfl⟩ := List.mem_map.mp hf
    exact Arrow.binding_of_getElem? (templateProblem?_eq_none_iff.mp (hsound t ht)).2.1 harg
  · rw [harrows, List.forall_mem_map]
    exact forall₂_congr fun t _ => Arrow.binding_eq_outer_iff (f := t.arrow)

/-- A template without such a parameter: the call that is written for it goes to the helper. -/
theorem sample_calls_helper :
    ∃ tree, ofPayload? [("menu", .node [("k", .template "Hi \x7b\x7bname\x7d\x7d" ["name"])])] =
        .ok tree ∧
      arrows tree.value = [⟨["name"], "interpolate", ["name"]⟩] ∧
      ∀ f ∈ arrows tree.value, f.binding f.callee = .outer "interpolate" := by
  have h : ofPayload? [("menu", .node [("k", .template "Hi \x7b\x7bname\x7d\x7d" ["name"])])] =
      .ok [.block "menu" [.callable "k" "Hi \x7b\x7bname\x7d\x7d" ["name"]]] := rfl
  obtain ⟨harrows, -, hcalls⟩ := calls_helper_iff h
  refine ⟨_, h, harrows, hcalls.mpr fun t ht => ?_⟩
  obtain rfl := List.mem_singleton.mp ht
  decide

/-- A template whose parameter hides the helper: the call that is written for it goes to the
parameter, which is a string. -/
theorem sample_helper_hidden :
    ∃ tree, ofPayload?
        [("k", .template "Hi \x7b\x7binterpolate\x7d\x7d" ["interpolate"])] = .ok tree ∧
      ∃ f ∈ arrows tree.value, f.binding f.callee = .parameter 0 := by
  have h : ofPayload? [("k", .template "Hi \x7b\x7binterpolate\x7d\x7d" ["interpolate"])] =
      .ok [.callable "k" "Hi \x7b\x7binterpolate\x7d\x7d" ["interpolate"]] := rfl
  have harrows := arrows_value h
  refine ⟨_, h, ⟨["interpolate"], "interpolate", ["interpolate"]⟩, ?_, by decide⟩
  rw [harrows]
  exact List.mem_singleton_self _

end Tree

end Syntax

end Phrasebook

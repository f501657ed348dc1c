import Mathlib.Data.List.DropRight
import Phrasebook.Proofs.Storage.Path
import Phrasebook.Storage.Memory

/-!
# Proofs — Storage — Parent

The directory above a path.  `parent?` cuts the text of a path; `components_parent?` says that what
is left takes all steps but the last, whatever separators and dots the text has.  So a path is a
child of a directory if it takes one step more (`isChildOf_iff`), the name of a path is a plain one
(`isPlain_of_fileName?`), and the directories above a path take its first steps
(`exists_ancestors_eq_cons`).
-/

namespace Phrasebook

/-- Pieces hold no separators. -/
theorem slash_not_mem_of_mem_segmentsOf {cs piece : List Char} (h : piece ∈ segmentsOf cs) :
    '/' ∉ piece := by
  induction cs generalizing piece with
  | nil =>
      obtain rfl := List.mem_singleton.mp h
      exact List.not_mem_nil
  | cons c cs ih =>
      rw [segmentsOf] at h
      split at h
      · rcases List.mem_cons.mp h with rfl | h
        · exact List.not_mem_nil
        · exact ih h
      · next hc =>
          split at h
          · next hnil => exact absurd hnil (segmentsOf_ne_nil cs)
          · next first rest hcs =>
              rcases List.mem_cons.mp h with rfl | h
              · intro hmem
                rcases List.mem_cons.mp hmem with heq | hmem
                · exact hc heq.symm
                · exact ih (hcs ▸ List.mem_cons_self) hmem
              · exact ih (hcs ▸ List.mem_cons_of_mem _ h)

/-- Pieces without separators are those of the text that has separators between them. -/
theorem segmentsOf_intercalate {first : List Char} {rest : List (List Char)}
    (h : ∀ piece ∈ first :: rest, '/' ∉ piece) :
    segmentsOf (List.intercalate ['/'] (first :: rest)) = first :: rest := by
  induction rest generalizing first with
  | nil => simpa using segmentsOf_of_not_mem (h first List.mem_cons_self)
  | cons second rest ih =>
      rw [List.intercalate_cons_cons, List.append_assoc, List.singleton_append,
        segmentsOf_append_cons, segmentsOf_of_not_mem (h first List.mem_cons_self),
        ih fun piece hpiece => h piece (List.mem_cons_of_mem _ hpiece)]
      rfl

namespace Path

theorem same_iff {p q : Path} : p.same q = true ↔ p.components = q.components :=
  beq_iff_eq

theorem startsWith_iff {p q : Path} : p.startsWith q = true ↔ q.components <+: p.components :=
  List.isPrefixOf_iff_prefix

/-! ### Pieces -/

theorem slash_not_mem_of_mem_segments {p : Path} {segment : String} (h : segment ∈ p.segments) :
    '/' ∉ segment.toList := by
  obtain ⟨piece, hpiece, rfl⟩ := List.mem_map.mp h
  rw [String.toList_ofList]
  exact slash_not_mem_of_mem_segmentsOf hpiece

theorem segments_ne_nil (p : Path) : p.segments ≠ [] :=
  mt List.map_eq_nil_iff.mp (segmentsOf_ne_nil _)

theorem segments_intercalate {first : String} {rest : List String}
    (h : ∀ segment ∈ first :: rest, '/' ∉ segment.toList) :
    (⟨String.intercalate "/" (first :: rest)⟩ : Path).segments = first :: rest := by
  have hpieces : ∀ piece ∈ first.toList :: rest.map String.toList, '/' ∉ piece := by
    rw [← List.map_cons]
    intro piece hpiece
    obtain ⟨segment, hsegment, rfl⟩ := List.mem_map.mp hpiece
    exact h segment hsegment
  rw [segments, String.toList_intercalate, List.map_cons]
  rw [show "/".toList = ['/'] from rfl, segmentsOf_intercalate hpieces]
  simp [Function.comp_def]

/-- An absolute path has nothing before its first separator. -/
theorem isAbsolute_iff {p : Path} :
    p.isAbsolute = true ↔ ∃ second rest, p.segments = "" :: second :: rest := by
  unfold isAbsolute segments
  cases p.text.toList with
  | nil => simp [segmentsOf]
  | cons c cs =>
      cases hcs : segmentsOf cs with
      | nil => exact absurd hcs (segmentsOf_ne_nil cs)
      | cons second rest =>
          by_cases hc : c = '/' <;> simp [segmentsOf, hc, hcs, String.ofList_eq_empty_iff]

/-- Of a path with several pieces the first says whether it is absolute. -/
theorem isAbsolute_congr {p q : Path} {first second third : String} {rest other : List String}
    (hp : p.segments = first :: second :: rest) (hq : q.segments = first :: third :: other) :
    p.isAbsolute = q.isAbsolute := by
  rw [Bool.eq_iff_iff, isAbsolute_iff, isAbsolute_iff, hp, hq]
  simp

theorem components_singleton {segment : String} (h : '/' ∉ segment.toList) :
    (⟨segment⟩ : Path).components =
      if segment = "." then [.here] else (component? segment).toList := by
  have hsegments : (⟨segment⟩ : Path).segments = [segment] := by
    simp [segments, segmentsOf_of_not_mem h]
  have habsolute : ¬ (⟨segment⟩ : Path).isAbsolute = true := fun habsolute => by
    obtain ⟨second, rest, hcons⟩ := isAbsolute_iff.mp habsolute
    cases hsegments.symm.trans hcons
  rw [components_eq, hsegments, stepsOf, if_neg habsolute, List.filterMap_nil, List.append_nil]

/-! ### Pieces at the end that are no steps -/

theorem trimSegments_eq (segments : List String) :
    trimSegments segments = segments.rdropWhile fun s => (component? s).isNone :=
  rfl

theorem mem_of_mem_trimSegments {segments : List String} {segment : String}
    (h : segment ∈ trimSegments segments) : segment ∈ segments :=
  (List.rdropWhile_prefix _ _).subset h

/-- Trimming loses no step. -/
theorem filterMap_trimSegments (segments : List String) :
    (trimSegments segments).filterMap component? = segments.filterMap component? := by
  induction segments using List.reverseRecOn with
  | nil => rfl
  | append_singleton segments last ih =>
      rw [trimSegments_eq] at ih ⊢
      rw [List.rdropWhile_concat]
      split
      · next hnone =>
          have hlast : [last].filterMap component? = [] := by
            rw [List.filterMap_cons_none (Option.isNone_iff_eq_none.mp hnone), List.filterMap_nil]
          rw [ih, List.filterMap_append, hlast, List.append_nil]
      · rfl

/-- What is left ends with a step. -/
theorem exists_of_trimSegments_ne_nil {segments : List String} (h : trimSegments segments ≠ []) :
    ∃ init last step, trimSegments segments = init ++ [last] ∧ component? last = some step := by
  have hlast := List.rdropWhile_last_not _ _ h
  obtain ⟨step, hstep⟩ := Option.ne_none_iff_exists'.mp (mt Option.isNone_iff_eq_none.mpr hlast)
  exact ⟨_, _, step, (List.dropLast_concat_getLast h).symm, hstep⟩

/-! ### The directory above -/

/-- A piece behind the first never leads to the root. -/
theorem ne_root_of_component? {segment : String} {step : Component}
    (h : component? segment = some step) : step ≠ .root := by
  rintro rfl
  unfold component? at h
  split at h
  · cases h
  · split at h <;> cases h

/-- A piece that is neither empty nor a separator is a step, wherever it stands. -/
theorem exists_step_of_ne_empty {segment : String} (h : segment ≠ "") :
    ∃ step, step ≠ .root ∧
      (if segment = "." then [.here] else (component? segment).toList) = [step] := by
  split
  · exact ⟨.here, nofun, rfl⟩
  next hdot =>
    obtain ⟨step, hstep⟩ : ∃ step, component? segment = some step := by
      rw [component?, if_neg (not_or.mpr ⟨h, hdot⟩)]
      split <;> exact ⟨_, rfl⟩
    exact ⟨step, ne_root_of_component? hstep, by rw [hstep]; rfl⟩

section Above

variable {p : Path} {first : String} {rest init : List String}

/-- The steps of what is left of a path if it is just its first piece. -/
theorem components_first (hsegments : p.segments = first :: rest) (hnil : trimSegments init = []) :
    (⟨if p.isAbsolute then "/" else first⟩ : Path).components =
      stepsOf p.isAbsolute (first :: init) := by
  have hslash : '/' ∉ first.toList :=
    slash_not_mem_of_mem_segments (hsegments ▸ List.mem_cons_self)
  rw [stepsOf, ← filterMap_trimSegments init, hnil, List.filterMap_nil, List.append_nil]
  split
  · rfl
  · exact components_singleton hslash

/-- The steps of what is left of a path if there are other pieces behind the first. -/
theorem components_kept (hsegments : p.segments = first :: rest) (hinit : ∀ t ∈ init, t ∈ rest)
    (hkept : trimSegments init ≠ []) :
    (⟨String.intercalate "/" (first :: trimSegments init)⟩ : Path).components =
      stepsOf p.isAbsolute (first :: init) := by
  have hslash : ∀ segment ∈ first :: trimSegments init, '/' ∉ segment.toList := by
    intro segment hmem
    refine slash_not_mem_of_mem_segments (p := p) ?_
    rw [hsegments]
    rcases List.mem_cons.mp hmem with rfl | hmem
    · exact List.mem_cons_self
    · exact List.mem_cons_of_mem _ (hinit _ (mem_of_mem_trimSegments hmem))
  have hq := segments_intercalate hslash
  obtain ⟨third, more, hcons⟩ := List.exists_cons_of_ne_nil hkept
  -- the path itself has a second piece, too
  have hthird : third ∈ rest := hinit _ (mem_of_mem_trimSegments (hcons ▸ List.mem_cons_self))
  obtain ⟨second, others, rfl⟩ := List.exists_cons_of_ne_nil (List.ne_nil_of_mem hthird)
  have habsolute := isAbsolute_congr (hq.trans (congrArg _ hcons)) hsegments
  rw [components_eq, hq, habsolute, stepsOf, stepsOf, filterMap_trimSegments]

end Above

/-- **The directory above takes all steps but the last.** -/
theorem components_parent? {p q : Path} (h : p.parent? = some q) :
    ∃ step, step ≠ .root ∧ p.components = q.components ++ [step] := by
  cases hsegments : p.segments with
  | nil => exact absurd hsegments p.segments_ne_nil
  | cons first rest =>
      have hsteps := filterMap_trimSegments rest
      rw [components_eq, hsegments]
      simp only [parent?, hsegments] at h
      split at h
      · next hnil =>
          -- there is but one piece, and it is a step
          split at h
          · cases h
          next hfirst =>
            obtain ⟨habsolute, hempty⟩ := not_or.mp hfirst
            cases h
            rw [hnil, List.filterMap_nil] at hsteps
            rw [stepsOf, if_neg habsolute, ← hsteps, List.append_nil]
            exact exists_step_of_ne_empty hempty
      next body hbody =>
        obtain ⟨init, last, step, hinit, hstep⟩ := exists_of_trimSegments_ne_nil hbody
        have hmem : ∀ segment ∈ init, segment ∈ rest := fun segment hsegment =>
          mem_of_mem_trimSegments (hinit ▸ List.mem_append_left _ hsegment)
        have hlast : stepsOf p.isAbsolute (first :: rest) =
            stepsOf p.isAbsolute (first :: init) ++ [step] := by
          rw [stepsOf, stepsOf, ← hsteps, hinit, List.filterMap_append,
            List.filterMap_cons_some hstep, List.filterMap_nil, List.append_assoc]
        refine ⟨step, ne_root_of_component? hstep, hlast.trans ?_⟩
        rw [hinit, List.dropLast_concat] at h
        split at h
        · next hnil =>
            cases h
            rw [components_first hsegments hnil]
        · next hkept =>
            cases h
            rw [components_kept hsegments hmem hkept]

/-- Only the root and the empty path have no directory above them. -/
theorem components_of_parent?_eq_none {p : Path} (h : p.parent? = none) :
    p.components = [] ∨ p.components = [.root] := by
  cases hsegments : p.segments with
  | nil => exact absurd hsegments p.segments_ne_nil
  | cons first rest =>
      have hsteps := filterMap_trimSegments rest
      rw [components_eq, hsegments, stepsOf]
      simp only [parent?, hsegments] at h
      split at h
      · next hnil =>
          rw [hnil, List.filterMap_nil] at hsteps
          rw [← hsteps, List.append_nil]
          split at h
          · next hfirst =>
              rcases hfirst with habsolute | rfl
              · rw [if_pos habsolute]
                exact .inr rfl
              · split
                · exact .inr rfl
                · exact .inl rfl
          · cases h
      · split at h <;> cases h

/-- **A child of a directory takes one step more.** -/
theorem isChildOf_iff {p directory : Path} :
    p.isChildOf directory = true ↔
      ∃ step, step ≠ .root ∧ p.components = directory.components ++ [step] := by
  unfold isChildOf
  cases hparent : p.parent? with
  | none =>
      refine ⟨nofun, fun ⟨step, hroot, hsteps⟩ => ?_⟩
      rcases components_of_parent?_eq_none hparent with hnone | hnone
      · rw [hnone] at hsteps
        simp at hsteps
      · rw [hnone] at hsteps
        have hlast : [] ++ [Component.root] = directory.components ++ [step] := hsteps
        obtain ⟨-, hstep⟩ := List.append_inj' hlast rfl
        exact absurd (List.cons.inj hstep).1.symm hroot
  | some parent =>
      obtain ⟨step, hroot, hsteps⟩ := components_parent? hparent
      rw [same_iff, hsteps]
      constructor
      · intro hsame
        exact ⟨step, hroot, by rw [hsame]⟩
      · rintro ⟨other, -, heq⟩
        exact (List.append_inj' heq rfl).1

/-- The path of an entry of a directory. -/
theorem isChildOf_join (directory : Path) {name : String} (h : IsPlain name) :
    (directory.join name).isChildOf directory = true :=
  isChildOf_iff.mpr ⟨.name name, nofun, components_join directory h⟩

theorem startsWith_of_isChildOf {p directory : Path} (h : p.isChildOf directory = true) :
    p.startsWith directory = true := by
  obtain ⟨step, -, hsteps⟩ := isChildOf_iff.mp h
  rw [startsWith_iff, hsteps]
  exact List.prefix_append _ _

/-! ### Names -/

theorem name_of_component? {segment name : String} (h : component? segment = some (.name name)) :
    segment = name := by
  unfold component? at h
  split at h
  · cases h
  · split at h
    · cases h
    · cases h
      rfl

/-- The names in a path are plain. -/
theorem isPlain_of_mem_components {p : Path} {name : String} (h : .name name ∈ p.components) :
    IsPlain name := by
  cases hsegments : p.segments with
  | nil => exact absurd hsegments p.segments_ne_nil
  | cons first rest =>
      have hslash : ∀ segment ∈ first :: rest, '/' ∉ segment.toList :=
        fun segment hmem => slash_not_mem_of_mem_segments (hsegments ▸ hmem)
      obtain ⟨segment, hmem, hstep⟩ :
          ∃ segment ∈ first :: rest, component? segment = some (.name name) := by
        rw [components_eq, hsegments, stepsOf, List.mem_append] at h
        rcases h with hfirst | hrest
        · split at hfirst
          · cases List.mem_singleton.mp hfirst
          · split at hfirst
            · cases List.mem_singleton.mp hfirst
            · exact ⟨first, List.mem_cons_self, Option.mem_toList.mp hfirst⟩
        · obtain ⟨segment, hmem, hstep⟩ := List.mem_filterMap.mp hrest
          exact ⟨segment, List.mem_cons_of_mem _ hmem, hstep⟩
      obtain rfl := name_of_component? hstep
      refine ⟨hslash segment hmem, hstep, ?_⟩
      rintro rfl
      cases hstep

theorem isPlain_of_fileName? {p : Path} {name : String} (h : p.fileName? = some name) :
    IsPlain name := by
  unfold fileName? at h
  split at h
  · next hlast =>
      cases h
      exact isPlain_of_mem_components (List.mem_of_getLast? hlast)
  · cases h

/-! ### All directories above -/

/-- **The directories above a path take its first steps**, and none is below it. -/
theorem exists_ancestors_eq_cons (p : Path) :
    ∃ above, p.ancestors = p :: above ∧
      ∀ q ∈ above, q.components <+: p.components ∧ q.startsWith p = false := by
  have hfrom : ∀ (n : Nat) (p : Path), ∃ above, ancestorsFrom n p = p :: above ∧
      ∀ q ∈ above, q.components <+: p.components ∧ q.startsWith p = false := by
    intro n
    induction n with
    | zero => exact fun p => ⟨[], rfl, nofun⟩
    | succ n ih =>
        intro p
        rw [ancestorsFrom]
        split
        · exact ⟨[], rfl, nofun⟩
        · next parent hparent =>
            obtain ⟨step, -, hsteps⟩ := components_parent? hparent
            obtain ⟨above, habove, hall⟩ := ih parent
            refine ⟨parent :: above, by rw [habove], fun q hq => ?_⟩
            have hsteps' : q.components <+: parent.components := by
              rcases List.mem_cons.mp hq with rfl | hq
              · exact List.prefix_rfl
              · exact (hall q hq).1
            refine ⟨hsteps'.trans ⟨[step], hsteps.symm⟩, ?_⟩
            -- it takes fewer steps than the path
            rw [Bool.eq_false_iff, Ne, startsWith_iff, hsteps]
            intro hlonger
            have hlength := (hlonger.trans hsteps').length_le
            rw [List.length_append, List.length_singleton] at hlength
            omega
  exact hfrom _ p

end Path

end Phrasebook

import Phrasebook.Path

/-!
# Proofs — Storage — Path

The path of an entry of a directory.  A *plain* name is a piece between separators that is a step
of its own; joined to a path it adds that step and nothing else (`components_join`), so that paths
of entries of one directory are the same only if the names are (`same_join_iff`).
-/

namespace Phrasebook

theorem segmentsOf_ne_nil (cs : List Char) : segmentsOf cs ≠ [] := by
  cases cs with
  | nil => simp [segmentsOf]
  | cons c cs =>
      rw [segmentsOf]
      split
      · simp
      · split <;> simp

/-- A separator cuts a text in two. -/
theorem segmentsOf_append_cons (as bs : List Char) :
    segmentsOf (as ++ '/' :: bs) = segmentsOf as ++ segmentsOf bs := by
  induction as with
  | nil => simp [segmentsOf]
  | cons c cs ih =>
      rw [List.cons_append, segmentsOf, segmentsOf, ih]
      split
      · rfl
      · cases hcs : segmentsOf cs with
        | nil => exact absurd hcs (segmentsOf_ne_nil cs)
        | cons p ps => rfl

/-- A text without separators is one piece. -/
theorem segmentsOf_of_not_mem {cs : List Char} (h : '/' ∉ cs) : segmentsOf cs = [cs] := by
  induction cs with
  | nil => rfl
  | cons c cs ih =>
      obtain ⟨hc, hcs⟩ := not_or.mp (mt List.mem_cons.mpr h)
      rw [segmentsOf, if_neg (Ne.symm hc), ih hcs]

namespace Path

/-- A name that is a step of its own. -/
def IsPlain (name : String) : Prop :=
  '/' ∉ name.toList ∧ component? name = some (.name name) ∧ name ≠ "."

/-- The steps of pieces, behind the root if there is one. -/
def stepsOf (absolute : Bool) : List String → List Component
  | [] => []
  | first :: rest =>
      (if absolute then [.root] else if first = "." then [.here] else (component? first).toList) ++
        rest.filterMap component?

theorem components_eq (p : Path) : p.components = stepsOf p.isAbsolute p.segments := by
  cases hsegments : p.segments <;> simp only [components, hsegments, stepsOf]

theorem stepsOf_append_singleton (absolute : Bool) {segments : List String} (h : segments ≠ [])
    (segment : String) :
    stepsOf absolute (segments ++ [segment]) =
      stepsOf absolute segments ++ (component? segment).toList := by
  cases segments with
  | nil => exact absurd rfl h
  | cons first rest =>
      rw [List.cons_append, stepsOf, stepsOf, List.filterMap_append, List.append_assoc]
      cases hsegment : component? segment <;> simp [hsegment]

/-- The path to a plain name behind a separator. -/
theorem components_append_cons {as : List Char} {name : String} (h : IsPlain name) :
    (⟨String.ofList (as ++ '/' :: name.toList)⟩ : Path).components =
      stepsOf ((as ++ ['/']).head? == some '/') ((segmentsOf as).map String.ofList) ++
        [.name name] := by
  obtain ⟨hslash, hstep, -⟩ := h
  have habsolute : (⟨String.ofList (as ++ '/' :: name.toList)⟩ : Path).isAbsolute =
      ((as ++ ['/']).head? == some '/') := by
    cases as <;> simp [isAbsolute]
  have hsegments : (⟨String.ofList (as ++ '/' :: name.toList)⟩ : Path).segments =
      (segmentsOf as).map String.ofList ++ [name] := by
    simp [segments, segmentsOf_append_cons, segmentsOf_of_not_mem hslash]
  rw [components_eq, habsolute, hsegments,
    stepsOf_append_singleton _ (by simpa using segmentsOf_ne_nil as), hstep]
  rfl

theorem components_of_isPlain {name : String} (h : IsPlain name) :
    (⟨name⟩ : Path).components = [.name name] := by
  obtain ⟨hslash, hstep, hdot⟩ := h
  have hrelative : (⟨name⟩ : Path).isAbsolute = false := by
    cases hname : name.toList with
    | nil => simp [isAbsolute, hname]
    | cons c cs =>
        rw [hname] at hslash
        simpa [isAbsolute, hname] using fun hc => hslash (by simp [hc])
  have hsegments : (⟨name⟩ : Path).segments = [name] := by
    simp [segments, segmentsOf_of_not_mem hslash]
  rw [components_eq, hrelative, hsegments, stepsOf, hstep]
  simp [hdot]

/-- **A plain name adds one step.** -/
theorem components_join (p : Path) {name : String} (h : IsPlain name) :
    (p.join name).components = p.components ++ [.name name] := by
  have hrelative : ¬ (⟨name⟩ : Path).isAbsolute = true := fun habsolute => by
    cases hname : name.toList with
    | nil => simp [isAbsolute, hname] at habsolute
    | cons c cs =>
        obtain rfl : c = '/' := by simpa [isAbsolute, hname] using habsolute
        exact h.1 (by simp [hname])
  rw [join, if_neg hrelative]
  obtain ⟨text⟩ := p
  -- a separator is put between the two unless there is one already
  by_cases hempty : text = ""
  · subst hempty
    rw [if_pos (.inl rfl), String.empty_append, components_of_isPlain h]
    rfl
  by_cases hend : text.toList.getLast? = some '/'
  · obtain ⟨as, has⟩ := List.getLast?_eq_some_iff.mp hend
    obtain rfl : text = String.ofList (as ++ ['/']) := by rw [← has, String.ofList_toList]
    rw [if_pos (.inr hend)]
    have hjoined : String.ofList (as ++ ['/']) ++ name =
        String.ofList (as ++ '/' :: name.toList) := by
      apply String.toList_inj.mp
      simp
    rw [hjoined, components_append_cons h, components_eq]
    have hsegments : (⟨String.ofList (as ++ ['/'])⟩ : Path).segments =
        (segmentsOf as).map String.ofList ++ [""] := by
      simp [segments, segmentsOf_append_cons, segmentsOf]
    rw [hsegments, stepsOf_append_singleton _ (by simpa using segmentsOf_ne_nil as)]
    simp [isAbsolute, component?]
  · rw [if_neg (not_or.mpr ⟨hempty, hend⟩)]
    have hjoined : text ++ "/" ++ name = String.ofList (text.toList ++ '/' :: name.toList) := by
      apply String.toList_inj.mp
      simp
    rw [hjoined, components_append_cons h, components_eq]
    have hne : text.toList ≠ [] := fun hnil => hempty (String.toList_eq_nil_iff.mp hnil)
    have hhead : (text.toList ++ ['/']).head? = text.toList.head? := by
      cases htext : text.toList with
      | nil => exact absurd htext hne
      | cons c cs => rfl
    rw [hhead]
    rfl

theorem same_join_iff (p : Path) {a b : String} (ha : IsPlain a) (hb : IsPlain b) :
    (p.join a).same (p.join b) = true ↔ a = b := by
  rw [same, components_join p ha, components_join p hb, beq_iff_eq, List.append_cancel_left_eq]
  simp

end Path

end Phrasebook

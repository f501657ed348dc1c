import Mathlib.Data.List.SplitBy
import Phrasebook.Proofs.Section.Spelling

/-!
# Proofs — Section — Hump

The words of a segment in two passes.  A hump is a capital directly behind a small letter or a
digit.  The first pass cuts the segment before every hump and looks at nothing else (`cuts`); the
second keeps the letters and digits of each piece, in lower case (`reduced`), and forgets the pieces
of which nothing is left.  The one pass of `wordsOf` carries along what is kept of the piece that it
is in, and whether a hump can follow (`piecesFrom_reduced`); so it comes to the same words
(`map_text_wordsOf`), whatever stands between the letters.
-/

namespace Phrasebook.Section

/-- A capital that stands directly behind a small letter or a digit. -/
def isHump (c d : Char) : Bool :=
  isWordChar c && d.isUpper

/-- The segment, cut at every hump. -/
def cuts (segment : List Char) : List (List Char) :=
  segment.splitBy fun c d => !isHump c d

/-- The ASCII letters and digits of a piece, in lower case. -/
def reduced (piece : List Char) : List Char :=
  (piece.filter Char.isAlphanum).map Char.toLower

/-- What is left of pieces of which something is left. -/
def reducedAll (pieces : List (List Char)) : List (List Char) :=
  (pieces.map reduced).filter (· ≠ [])

/-! ### What is kept of a piece -/

theorem reduced_append (first second : List Char) :
    reduced (first ++ second) = reduced first ++ reduced second := by
  rw [reduced, List.filter_append, List.map_append]
  rfl

theorem reduced_singleton (c : Char) : reduced [c] = kept c := by
  rw [reduced, kept]
  split
  · next h => rw [List.filter_cons_of_pos h]; rfl
  · next h => rw [List.filter_cons_of_neg h]; rfl

/-- A small letter or digit is kept, so that something is left of a piece that has one. -/
theorem reduced_concat_ne_nil {c : Char} (h : isWordChar c = true) (piece : List Char) :
    reduced (piece ++ [c]) ≠ [] := by
  rw [reduced_append, reduced_singleton, (kept_of_isWordChar h).1]
  exact List.append_ne_nil_of_right_ne_nil _ (List.cons_ne_nil _ _)

/-! ### One pass and two -/

/-- **Both passes at once.**  Inside of a piece that ends in `c` so far, the one pass holds what is
kept of the piece; what it gives is what the second pass keeps of the piece and all that follow. -/
theorem piecesFrom_reduced (piece : List Char) {c : Char}
    (hpiece : (piece ++ [c]).IsChain fun c d => (!isHump c d) = true) (cs : List Char) :
    piecesFrom (reduced (piece ++ [c])) (isWordChar c) cs =
      reducedAll (cuts (piece ++ [c] ++ cs)) := by
  induction cs generalizing piece c with
  | nil =>
      have huncut : cuts (piece ++ [c]) = [piece ++ [c]] :=
        List.splitBy_of_isChain (by simp) hpiece
      rw [List.append_nil, huncut]
      by_cases hempty : reduced (piece ++ [c]) = []
      · simp [piecesFrom, reducedAll, hempty]
      · simp [piecesFrom, reducedAll, hempty]
  | cons d ds ih =>
      by_cases hhump : isHump c d = true
      · -- behind a small letter or a digit the piece is not empty, so that it is cut off here
        obtain ⟨hc, hd⟩ := Bool.and_eq_true_iff.mp hhump
        have hleft := reduced_concat_ne_nil hc piece
        have hcuts : cuts (piece ++ [c] ++ d :: ds) = (piece ++ [c]) :: cuts (d :: ds) := by
          rw [cuts, List.splitBy_append_cons _ (by simp [hhump]),
            List.splitBy_of_isChain (by simp) hpiece]
          rfl
        have hrest := ih [] (List.isChain_singleton d)
        rw [List.nil_append, reduced_singleton, List.singleton_append] at hrest
        rw [piecesFrom, if_pos (by simp [hc, hd, hleft]), hrest, hcuts, reducedAll, reducedAll,
          List.map_cons, List.filter_cons_of_pos (by simpa using hleft)]
      · have hgoesOn : (piece ++ [c] ++ [d]).IsChain fun c d => (!isHump c d) = true := by
          rw [List.isChain_append]
          refine ⟨hpiece, List.isChain_singleton d, ?_⟩
          simpa using hhump
        have huncut : (d.isUpper && isWordChar c && !(reduced (piece ++ [c])).isEmpty) = false := by
          rw [Bool.and_comm d.isUpper]
          exact Bool.and_eq_false_iff.mpr (.inl ((Bool.not_eq_true _).mp hhump))
        rw [piecesFrom, if_neg (by simp [huncut]), ← reduced_singleton, ← reduced_append,
          ih _ hgoesOn, List.append_assoc (piece ++ [c]), List.singleton_append]

theorem pieces_eq_reducedAll_cuts (segment : List Char) :
    pieces segment = reducedAll (cuts segment) := by
  cases segment with
  | nil => rfl
  | cons c cs =>
      have hfirst := piecesFrom_reduced [] (List.isChain_singleton c) cs
      rw [List.nil_append, List.singleton_append, reduced_singleton] at hfirst
      rw [pieces, piecesFrom, if_neg (by simp), List.nil_append, hfirst]

/-- **The words of a segment** are the letters and digits of its pieces in lower case, where it is
cut at its humps and pieces without a letter or digit are forgotten.  So it has no word just if it
has no letter or digit, and a word of small letters and digits is its own and only word. -/
theorem map_text_wordsOf (segment : String) :
    (wordsOf segment).map Word.text =
        (reducedAll (cuts segment.toList)).map String.ofList ∧
      (wordsOf segment = [] ↔ ∀ c ∈ segment.toList, c.isAlphanum = false) ∧
      ((segment ≠ "" ∧ ∀ c ∈ segment.toList, c.isLower = true ∨ c.isDigit = true) →
        (wordsOf segment).map Word.text = [segment]) := by
  have hletters : (wordsOf segment).map Word.text =
      (pieces segment.toList).map String.ofList := by
    rw [← map_letters_wordsOf, List.map_map]
    rfl
  refine ⟨by rw [hletters, pieces_eq_reducedAll_cuts], ?_, ?_⟩
  · rw [wordsOf_eq_nil_iff]
    simp [HasAlphanum]
  · rintro ⟨hne, hword⟩
    have hpieces : pieces segment.toList = [segment.toList] := by
      refine piecesFrom_of_isWordChar (fun c hc => Bool.or_eq_true_iff.mpr (hword c hc)) ?_
      simpa using hne
    rw [hletters, hpieces, List.map_singleton, String.ofList_toList]

/-- Before a hump a piece ends, and nowhere else: not before a capital behind a dash, and not where
a letter that is not ASCII stands. -/
theorem sample_map_text_wordsOf :
    (wordsOf "aé2B-Cd日E").map Word.text = ["a2", "bcde"] ∧
      wordsOf "--日本" = [] ∧
      (wordsOf "tab2").map Word.text = ["tab2"] := by
  have hnone : ∀ c ∈ "--日本".toList, c.isAlphanum = false := by simp
  have hword : ∀ c ∈ "tab2".toList, c.isLower = true ∨ c.isDigit = true := by simp
  exact ⟨(map_text_wordsOf _).1.trans (by decide), (map_text_wordsOf _).2.1.mpr hnone,
    (map_text_wordsOf _).2.2 ⟨by decide, hword⟩⟩

end Phrasebook.Section

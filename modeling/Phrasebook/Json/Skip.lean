import Phrasebook.Json.Numeral
import Phrasebook.Json.Text

/-!
# Json — Skip

Values that nobody asks for.  They are checked against the grammar only: nesting is not limited,
numbers have no range and `\u` escapes need no partner.
-/

namespace Phrasebook.Json

/-- A list or an object around the place that is being read. -/
inductive Enclosing where
  | list
  | object
  deriving DecidableEq

/-- What comes next while a value is skipped: a value in some enclosing lists and objects, or, in
one of them, its end or what separates its members; `first` before its first member. -/
inductive Skipping where
  | value (around : List Enclosing)
  | inside (first : Bool) (innermost : Enclosing) (around : List Enclosing)

namespace Enclosing

/-- The character that closes it. -/
def closer : Enclosing → Char
  | .list => ']'
  | .object => '\x7d'

/-- The fault of a document that ends in it. -/
def endCause : Enclosing → Cause
  | .list => .endInList
  | .object => .endInObject

/-- The fault of a member in it that is not followed by its end or a comma. -/
def separatorCause : Enclosing → Cause
  | .list => .noItemEnd
  | .object => .noMemberEnd

end Enclosing

/-- What comes after a whole value. -/
def afterValue : List Enclosing → Option Skipping
  | [] => none
  | innermost :: around => some (.inside false innermost around)

/-- Skips a key and its colon. -/
def skipKey : Reader Unit := fun s =>
  match h : skipBlank s with
  | [] => .error (.atNext .endInObject [])
  | c :: cs =>
      if c = '"' then
        match skipText cs with
        | .error e => .error e
        | .ok key =>
            (colon key.rest).map fun t => (key.upTo t ()).widen (length_tail_le_of_skipBlank h)
      else .error (.atNext .keyNotText (c :: cs))

/-- Skips one scalar, or one opening character; also what comes next. -/
def skipStart (around : List Enclosing) : Reader (Option Skipping) := fun s =>
  match h : skipBlank s with
  | [] => .error (.atNext .endInValue [])
  | c :: cs =>
      have hs := length_lt_of_skipBlank h
      let next := afterValue around
      if c = 'n' then
        (keyword ['u', 'l', 'l'] cs).map (·.reply hs next)
      else if c = 't' then
        (keyword ['r', 'u', 'e'] cs).map (·.reply hs next)
      else if c = 'f' then
        (keyword ['a', 'l', 's', 'e'] cs).map (·.reply hs next)
      else if c = '-' ∨ c.isDigit then
        (numeral .invalidNumber (c :: cs)).map fun n =>
          (n.map fun _ => next).widen (length_le_of_skipBlank h)
      else if c = '"' then
        (skipText cs).map fun x => (x.map fun _ => next).widen (length_tail_le_of_skipBlank h)
      else if c = '[' then .ok ⟨some (.inside true .list around), cs, hs⟩
      else if c = '\x7b' then .ok ⟨some (.inside true .object around), cs, hs⟩
      else .error (.atNext .noValue (c :: cs))

/-- Skips the end of a list or object, or else the way to its next value. -/
def skipInside (first : Bool) (innermost : Enclosing) (s : List Char) :
    Except Fault (Reply Unit s ⊕ Tail s) :=
  match h : skipBlank s with
  | [] => .error (.atNext innermost.endCause [])
  | c :: cs =>
      if c = innermost.closer then .ok (.inl ⟨(), cs, length_lt_of_skipBlank h⟩)
      else if first = false ∧ c ≠ ',' then .error (.atNext innermost.separatorCause (c :: cs))
      else
        let t : Tail s :=
          if first then ⟨c :: cs, length_le_of_skipBlank h⟩
          else ⟨cs, length_tail_le_of_skipBlank h⟩
        match innermost with
        | .list => .ok (.inr t)
        | .object => (skipKey t.1).map fun x => .inr (t.upTo x.tail)

/-- How far from its end a state is before any more of the document is read. -/
def Skipping.weight : Skipping → Nat
  | .value _ => 0
  | .inside _ _ _ => 1

/-- Skips on from a state until the value is over. -/
def skipFrom (state : Skipping) (s : List Char) : Except Fault (Tail s) :=
  match state with
  | .value around =>
      match skipStart around s with
      | .error e => .error e
      | .ok ⟨none, rest, h⟩ => .ok ⟨rest, length_le_of_lt h⟩
      | .ok ⟨some next, rest, h⟩ => (skipFrom next rest).map (·.widen (length_le_of_lt h))
  | .inside first innermost around =>
      match skipInside first innermost s with
      | .error e => .error e
      | .ok (.inl r) =>
          match afterValue around with
          | none => .ok r.tail
          | some next => (skipFrom next r.rest).map r.tail.upTo
      | .ok (.inr t) => (skipFrom (.value (innermost :: around)) t.1).map t.upTo
termination_by (s.length, state.weight)
decreasing_by
  · exact Prod.Lex.left _ _ h
  · exact Prod.Lex.left _ _ r.shorter
  · rcases Nat.lt_or_eq_of_le t.2 with h | h
    · exact Prod.Lex.left _ _ h
    · rw [h]; exact Prod.Lex.right _ (by simp [Skipping.weight])

/-- Skips one value. -/
def skip : Reader Unit := fun s =>
  match skipStart [] s with
  | .error e => .error e
  | .ok ⟨none, rest, h⟩ => .ok ⟨(), rest, h⟩
  | .ok ⟨some next, rest, h⟩ =>
      (skipFrom next rest).map (·.reply h ())

end Phrasebook.Json

import Phrasebook.Json.Reader

/-!
# Json — Numeral

Numbers, first by their digits and then by value.  The value keeps the leading digits that fit 64
bits and counts the whole ones after them as zeros, so it can differ from the nearest double.
-/

namespace Phrasebook.Json

/-- The digits of a number as they are written. -/
structure Numeral where
  negative : Bool
  whole : List Char
  fraction : Option (List Char)
  exponent : Option (Bool × List Char)

/-- Splits off the digits at the start of a text. -/
def digits (s : List Char) : List Char × List Char :=
  (s.takeWhile Char.isDigit, s.dropWhile Char.isDigit)

theorem length_digits_snd_le (s : List Char) : (digits s).2.length ≤ s.length :=
  (List.dropWhile_sublist Char.isDigit).length_le

theorem length_digits_snd_lt (c : Char) (s : List Char) : (digits s).2.length < (c :: s).length :=
  Nat.lt_succ_of_le (length_digits_snd_le s)

/-- The digits at the start of a text, of which there must be one; `atEnd` is the cause of the
fault if the text is empty. -/
def someDigits (atEnd : Cause) (s : List Char) : Except Fault (Reply (List Char) s) :=
  match s with
  | [] => .error (.atNext atEnd [])
  | c :: cs =>
      if c.isDigit then
        .ok ⟨c :: (digits cs).1, (digits cs).2, length_digits_snd_lt c cs⟩
      else .error (.atNext .invalidNumber (c :: cs))

/-- Reads the digits before the point; a zero stands alone. -/
def wholeDigits (atEnd : Cause) (s : List Char) : Except Fault (Reply (List Char) s) :=
  match s with
  | '0' :: c :: cs =>
      if c.isDigit then .error (.atNext .invalidNumber (c :: cs))
      else .ok ⟨['0'], c :: cs, length_lt_cons '0' (c :: cs)⟩
  | s => someDigits atEnd s

/-- Reads the point and the digits behind it, if there is a point. -/
def fractionDigits (atEnd : Cause) (s : List Char) :
    Except Fault (Option (List Char) × Tail s) :=
  match s with
  | '.' :: cs =>
      match someDigits atEnd cs with
      | .error e => .error e
      | .ok ds => .ok (some ds.value, ds.tail.widen (length_le_cons '.' cs))
  | s => .ok (none, .all s)

/-- Reads the sign of an exponent: whether it is negative. -/
def exponentSign (s : List Char) : Bool × Tail s :=
  match s with
  | '+' :: cs => (false, ⟨cs, length_le_cons '+' cs⟩)
  | '-' :: cs => (true, ⟨cs, length_le_cons '-' cs⟩)
  | s => (false, .all s)

/-- Reads the exponent, if there is one. -/
def exponentDigits (atEnd : Cause) (s : List Char) :
    Except Fault (Option (Bool × List Char) × Tail s) :=
  match s with
  | [] => .ok (none, .all [])
  | c :: cs =>
      if c = 'e' ∨ c = 'E' then
        match exponentSign cs with
        | (negative, t) =>
            match someDigits atEnd t.1 with
            | .error e => .error e
            | .ok ds =>
                .ok (some (negative, ds.value), (t.upTo ds.tail).widen (length_le_cons c cs))
      else .ok (none, .all (c :: cs))

/-- Reads a number without its sign. -/
def unsignedNumeral (atEnd : Cause) (negative : Bool) (s : List Char) :
    Except Fault (Reply Numeral s) :=
  match wholeDigits atEnd s with
  | .error e => .error e
  | .ok whole =>
      match fractionDigits atEnd whole.rest with
      | .error e => .error e
      | .ok (fraction, t) =>
          match exponentDigits atEnd t.1 with
          | .error e => .error e
          | .ok (exponent, u) =>
              .ok (whole.upTo (t.upTo u) ⟨negative, whole.value, fraction, exponent⟩)

/-- Reads a number; `atEnd` is the cause of the fault if the document ends within it. -/
def numeral (atEnd : Cause) (s : List Char) : Except Fault (Reply Numeral s) :=
  match s with
  | '-' :: cs => (unsignedNumeral atEnd true cs).map (·.widen (length_le_cons '-' cs))
  | s => unsignedNumeral atEnd false s

/-- Appends digits to a number as long as it stays below the limit; also the digits left over. -/
def appendDigits (limit : Nat) : Nat → List Char → Nat × List Char
  | n, [] => (n, [])
  | n, c :: cs =>
      let m := n * 10 + (c.toNat - 48)
      if m < limit then appendDigits limit m cs else (n, c :: cs)

namespace Numeral

/-- The significand, below 2⁶⁴, and the power of ten that goes with it before the exponent. -/
def significand (n : Numeral) : Nat × Int :=
  let whole := appendDigits (Nat.pow 2 64) 0 n.whole
  match n.fraction with
  | none => (whole.1, whole.2.length)
  | some ds =>
      let all := appendDigits (Nat.pow 2 64) whole.1 ds
      (all.1, (whole.2.length : Int) - ((ds.length : Int) - all.2.length))

/-- The value of a number, or the number of its characters after the place where it turns out to
be too large. -/
def value (n : Numeral) : Except Nat Number :=
  let s := n.significand
  match n.exponent with
  | some (negativeExponent, ds) =>
      match appendDigits (Nat.pow 2 31) 0 ds with
      | (_, _ :: left) =>
          if s.1 ≠ 0 ∧ negativeExponent = false then .error left.length
          else .ok (.double n.negative .zero)
      | (e, []) =>
          match Decimal.Double.ofDecimal? s.1 (if negativeExponent then s.2 - e else s.2 + e) with
          | some x => .ok (.double n.negative x)
          | none => .error 0
  | none =>
      if n.fraction = none ∧ s.2 = 0 then
        if n.negative = false then .ok (.natural s.1)
        else if s.1 ≠ 0 ∧ s.1 ≤ Nat.pow 2 63 then .ok (.negative s.1)
        else match Decimal.Double.ofDecimal? s.1 0 with
          | some x => .ok (.double true x)
          | none => .error 0
      else match Decimal.Double.ofDecimal? s.1 s.2 with
        | some x => .ok (.double n.negative x)
        | none => .error 0

end Numeral

/-- Reads a number and its value. -/
def number : Reader Number := fun s =>
  match numeral .endInValue s with
  | .error e => .error e
  | .ok n =>
      match n.value.value with
      | .ok x => .ok (n.map fun _ => x)
      | .error left => .error ⟨.numberOutOfRange, byteLength n.rest + left⟩

end Phrasebook.Json

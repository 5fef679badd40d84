import LambdaArrow.Error
import LambdaArrow.Text.Blank

/-! A lambda literal is a dollar sign, parameters, a dot and a body: `$fa.f a`. Parameters may be
    grouped by further dots, so `$f.a.f a` is the same. The text behind the dollar sign is cut at
    every dot; the groups of lowercase letters at its start are the parameters, and what is left is
    the body, which always has the last piece. -/

namespace LambdaArrow

/-- The parameters of a literal and the text of its body. -/
structure Literal where
  params : Text
  body : Text
  deriving DecidableEq

namespace Literal

/-- One or more lowercase letters. -/
def isGroup (piece : Text) : Bool := piece ≠ [] && piece.all Char.isLower

/-- The parameter groups at the start of the pieces between dots. -/
def groups (pieces : List Text) : List Text := pieces.dropLast.takeWhile isGroup

/-- The pieces behind the parameter groups, with their dots. -/
def bodyOf (pieces : List Text) : Text := ['.'].intercalate (pieces.drop (groups pieces).length)

/-- Reads a literal from the text behind its dollar sign. -/
def read (rest : Text) : Except Error Literal :=
  let pieces := rest.splitOn '.'
  if pieces.length < 2 then
    .error (.malformedLambda ('$' :: rest) "malformed lambda expression".toList)
  else if groups pieces = [] then
    .error (.malformedLambda ('$' :: rest) "no valid parameters in lambda expression".toList)
  else if Text.trim (bodyOf pieces) = [] then
    .error (.emptyExpression ('$' :: rest))
  else
    .ok ⟨(groups pieces).flatten, bodyOf pieces⟩

/-! ### The body is no longer than the text it is read from -/

theorem length_intercalate_drop_le (pieces : List Text) : ∀ n : Nat,
    (['.'].intercalate (pieces.drop n)).length ≤ (['.'].intercalate pieces).length := by
  induction pieces with
  | nil => simp
  | cons piece rest ih =>
    intro n
    cases n with
    | zero => simp
    | succ n =>
      refine Nat.le_trans (ih n) ?_
      cases rest with
      | nil => simp
      | cons next rest => simp only [List.intercalate_cons_cons, List.length_append]; omega

theorem length_body_le {rest : Text} {literal : Literal} (h : read rest = .ok literal) :
    literal.body.length ≤ rest.length := by
  simp only [read] at h
  split at h
  · cases h
  · split at h
    · cases h
    · split at h
      · cases h
      · cases h
        have := length_intercalate_drop_le (rest.splitOn '.') (groups (rest.splitOn '.')).length
        rwa [List.intercalate_splitOn] at this

end Literal

end LambdaArrow

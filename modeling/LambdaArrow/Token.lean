import LambdaArrow.Error
import LambdaArrow.Text.Blank

/-! Tokens of an expression. Outside parentheses a blank ends a token, and so does the closing
    parenthesis that leaves the outermost pair; inside parentheses nothing does. So `f (g a)b` has
    the tokens `f`, `(g a)` and `b`, and `g(a)` is one token. -/

namespace LambdaArrow

/-- A piece of an expression and the number of bytes before it. -/
structure Token where
  text : Text
  place : Nat
  deriving DecidableEq

namespace Token

/-- A group is in parentheses, a lambda starts with a dollar sign, all else is a word. -/
inductive Kind where
  | word
  | group
  | lambda
  deriving DecidableEq

/-- The kind of a token, by its first and last character. -/
def kind (token : Token) : Kind :=
  if token.text.head? = some '(' ∧ token.text.getLast? = some ')' then .group
  else if token.text.head? = some '$' then .lambda
  else .word

/-- The trimmed text between the parentheses of a group. -/
def inside (token : Token) : Text := Text.trim token.text.tail.dropLast

/-- Puts the token at `place` in front of the later ones, unless its text is empty. -/
def push (place : Nat) (text : Text) (later : List Token) : List Token :=
  if text = [] then later else ⟨text, place⟩ :: later

/-- Splits the text that follows `place` under `depth` open parentheses: the rest of the token that
    `place` is in, and the tokens after it. -/
def pieces (depth place : Nat) : Text → Text × List Token
  | [] => ([], [])
  | c :: cs =>
    let next := place + c.utf8Size
    if c = '(' then
      let (text, later) := pieces (depth + 1) next cs
      (c :: text, later)
    else if c = ')' ∧ depth ≤ 1 then
      let (text, later) := pieces 0 next cs
      ([c], push next text later)
    else if c = ')' then
      let (text, later) := pieces (depth - 1) next cs
      (c :: text, later)
    else if Text.isBlank c ∧ depth = 0 then
      let (text, later) := pieces 0 next cs
      ([], push next text later)
    else
      let (text, later) := pieces depth next cs
      (c :: text, later)

/-- The tokens of a text with balanced parentheses. -/
def split (text : Text) : List Token :=
  let (first, later) := pieces 0 0 text
  push 0 first later

/-- The tokens of a text, or the parenthesis that is not balanced. -/
def ofText (text : Text) : Except Error (List Token) :=
  match Balance.fault? text with
  | some fault => .error (.ofFault text fault)
  | none => .ok (split text)

/-! ### Tokens are no longer than their text -/

theorem length_le_of_mem_push {bound place : Nat} {text : Text} {later : List Token}
    (htext : text.length ≤ bound) (hlater : ∀ token ∈ later, token.text.length ≤ bound) :
    ∀ token ∈ push place text later, token.text.length ≤ bound := by
  intro token h
  unfold push at h
  split at h
  · exact hlater token h
  · rcases List.mem_cons.1 h with rfl | h
    · exact htext
    · exact hlater token h

theorem length_pieces_le (text : Text) : ∀ depth place : Nat,
    (pieces depth place text).1.length ≤ text.length ∧
      ∀ token ∈ (pieces depth place text).2, token.text.length ≤ text.length := by
  induction text with
  | nil => intro depth place; simp [pieces]
  | cons c cs ih =>
    intro depth place
    have grow : ∀ {d p : Nat} {token : Token}, token ∈ (pieces d p cs).2 →
        token.text.length ≤ cs.length + 1 :=
      fun h => Nat.le_succ_of_le ((ih _ _).2 _ h)
    have pushed : ∀ {d p q : Nat} {token : Token},
        token ∈ push q (pieces d p cs).1 (pieces d p cs).2 → token.text.length ≤ cs.length + 1 :=
      fun h => length_le_of_mem_push (Nat.le_succ_of_le (ih _ _).1) (fun _ => grow) _ h
    simp only [pieces, List.length_cons]
    split
    · exact ⟨Nat.succ_le_succ (ih _ _).1, fun _ => grow⟩
    · split
      · exact ⟨by simp, fun _ => pushed⟩
      · split
        · exact ⟨Nat.succ_le_succ (ih _ _).1, fun _ => grow⟩
        · split
          · exact ⟨by simp, fun _ => pushed⟩
          · exact ⟨Nat.succ_le_succ (ih _ _).1, fun _ => grow⟩

theorem length_le_of_mem_ofText {text : Text} {tokens : List Token} {token : Token}
    (h : ofText text = .ok tokens) (htoken : token ∈ tokens) :
    token.text.length ≤ text.length := by
  unfold ofText at h
  split at h
  · cases h
  · cases h
    exact length_le_of_mem_push (length_pieces_le text 0 0).1 (length_pieces_le text 0 0).2 _ htoken

/-! ### What is inside a token is shorter -/

theorem length_inside_lt {token : Token} (h : token.kind = .group) :
    token.inside.length < token.text.length := by
  have hne : token.text ≠ [] := by
    intro hnil
    simp [kind, hnil] at h
  have hpos : 0 < token.text.length := List.length_pos_iff.2 hne
  have := Text.length_trim_le token.text.tail.dropLast
  simp only [inside, List.length_dropLast, List.length_tail] at this ⊢
  omega

theorem length_tail_lt {token : Token} (h : token.kind = .lambda) :
    token.text.tail.length < token.text.length := by
  have hne : token.text ≠ [] := by
    intro hnil
    simp [kind, hnil] at h
  have hpos : 0 < token.text.length := List.length_pos_iff.2 hne
  simp only [List.length_tail]
  omega

end Token

end LambdaArrow

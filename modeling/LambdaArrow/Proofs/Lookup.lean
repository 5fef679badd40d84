import LambdaArrow.Proofs.Keys
import LambdaArrow.Proofs.Reader

/-! Definitions only let names through. A text is read without them, so under two tables the same
    phrase is looked up, name by name and in the same order. Where one table has the names of the other
    and more, the two runs go in step until the smaller table meets a name that only the larger one has. -/

namespace LambdaArrow

/-- A failure at a name that is among the keys of `more` and not among those of `fewer`. -/
def Error.Misses (fewer more : Definitions) (error : Error) : Prop :=
  ∃ name, (error = .unknownName name ∨ error = .unknownArgument name) ∧
    name ∈ more.keys ∧ name ∉ fewer.keys

/-- A run that may ask for more than another: it ends like it, or fails in a way that is `allowed`. -/
def EndsLike (allowed : Error → Prop) {α : Type} (first second : Except Error α) : Prop :=
  first = second ∨ ∃ error, first = .error error ∧ allowed error

/-- It still does when both go on with what they have found. -/
theorem EndsLike.bind {allowed : Error → Prop} {α β : Type} {first second : Except Error α}
    {next next' : α → Except Error β} (h : EndsLike allowed first second)
    (hnext : ∀ a, EndsLike allowed (next a) (next' a)) :
    EndsLike allowed (first >>= next) (second >>= next') := by
  rcases h with rfl | ⟨error, rfl, herror⟩
  · cases first with
    | error error => exact Or.inl rfl
    | ok a => exact hnext a
  · exact Or.inr ⟨error, rfl, herror⟩

/-- Two runs in step: they end alike, or the first fails at a name that only the second knows. -/
def InStep (fewer more : Definitions) {α : Type} (first second : Except Error α) : Prop :=
  EndsLike (Error.Misses fewer more) first second

/-- The one place where a table is asked: a name that is not taken as written must be among the keys. -/
theorem Role.exists_refer (role : Role) (name : Text) :
    ∃ error : Error, (error = .unknownName name ∨ error = .unknownArgument name) ∧
      ∀ definitions : Definitions, role.refer definitions name =
        if role = .verbatim ∨ name ∈ definitions.keys then .ok (.ref name) else .error error := by
  cases role with
  | verbatim => exact ⟨_, Or.inl rfl, fun _ => rfl⟩
  | head => exact ⟨_, Or.inl rfl, fun definitions => by simp [refer, Table.contains_iff]⟩
  | argument => exact ⟨_, Or.inr rfl, fun definitions => by simp [refer, Table.contains_iff]⟩

namespace InStep

variable {fewer more : Definitions}

theorem refer (h : ∀ name ∈ fewer.keys, name ∈ more.keys) (name : Text) (role : Role) :
    InStep fewer more (role.refer fewer name) (role.refer more name) := by
  obtain ⟨error, herror, hrefer⟩ := role.exists_refer name
  rw [hrefer, hrefer]
  by_cases hfewer : role = .verbatim ∨ name ∈ fewer.keys
  · rw [if_pos hfewer, if_pos (hfewer.imp_right (h name))]
    exact Or.inl rfl
  · rw [if_neg hfewer]
    obtain ⟨hrole, hmissing⟩ := not_or.1 hfewer
    by_cases hmore : role = .verbatim ∨ name ∈ more.keys
    · exact Or.inr ⟨error, rfl, name, herror, hmore.resolve_left hrole, hmissing⟩
    · rw [if_neg hmore]
      exact Or.inl rfl

theorem resolve (h : ∀ name ∈ fewer.keys, name ∈ more.keys) (phrase : Phrase) :
    InStep fewer more (phrase.resolve fewer) (phrase.resolve more) := by
  induction phrase with
  | word role text =>
    rw [Phrase.resolve, Phrase.resolve, Role.resolve, Role.resolve]
    cases letter? text with
    | some name => exact Or.inl rfl
    | none => exact refer h text role
  | lambda param body ih => exact EndsLike.bind ih fun _ => Or.inl rfl
  | apply function argument ihf iha => exact EndsLike.bind ihf fun _ => EndsLike.bind iha fun _ => Or.inl rfl
  | fault error => exact Or.inl rfl

end InStep

namespace Term

/-- CORRECT: with more definitions a text parses alike, unless it failed before at a name that is new.
    So the bodies and the order of the definitions never matter, and what parsed before still does. -/
theorem parse_inStep (fewer more : Definitions) (h : ∀ name ∈ fewer.keys, name ∈ more.keys)
    (text : Text) : ∀ parser ∈ parsers,
      (parser fewer text = parser more text ∨
        ∃ name, (parser fewer text = .error (.unknownName name) ∨
          parser fewer text = .error (.unknownArgument name)) ∧
            name ∈ more.keys ∧ name ∉ fewer.keys) ∧
      ((∀ name ∈ more.keys, name ∈ fewer.keys) → parser fewer text = parser more text) ∧
      ∀ term, parser fewer text = .ok term → parser more text = .ok term := by
  intro parser hparser
  obtain ⟨place, hread⟩ := exists_place hparser
  rw [hread, hread]
  rcases InStep.resolve h (Phrase.read place text) with heq | ⟨error, herror, name, hname, hmore, hfewer⟩
  · exact ⟨Or.inl heq, fun _ => heq, fun term hterm => heq ▸ hterm⟩
  · refine ⟨Or.inr ⟨name, ?_, hmore, hfewer⟩, fun hsame => absurd (hsame name hmore) hfewer, ?_⟩
    · rcases hname with rfl | rfl
      · exact Or.inl herror
      · exact Or.inr herror
    · intro term hterm
      rw [herror] at hterm
      cases hterm

/-- The name `Succ` is new here. The first run fails at it and the second does not; `Zero` is known to both. -/
theorem parse_inStep_successor :
    let fewer : Definitions := Table.empty.insert "Zero".toList []
    let more : Definitions := fewer.insert "Succ".toList []
    parse fewer "Succ Zero".toList = .error (.unknownName "Succ".toList) ∧
    "Succ".toList ∈ more.keys ∧ "Succ".toList ∉ fewer.keys ∧
    parse more "Succ Zero".toList = .ok (.app (.ref "Succ".toList) (.ref "Zero".toList)) ∧
    parse more "Zero".toList = .ok (.ref "Zero".toList) := by
  intro fewer more
  have hkeys : ∀ name ∈ fewer.keys, name ∈ more.keys := by decide
  have hfails : parse fewer "Succ Zero".toList = .error (.unknownName "Succ".toList) := by cbv
  have hmore : parse more "Succ Zero".toList = .ok (.app (.ref "Succ".toList) (.ref "Zero".toList)) := by cbv
  have hzero : parse fewer "Zero".toList = .ok (.ref "Zero".toList) := by cbv
  obtain ⟨halike, -, -⟩ := parse_inStep fewer more hkeys "Succ Zero".toList parse List.mem_cons_self
  obtain ⟨-, -, hkept⟩ := parse_inStep fewer more hkeys "Zero".toList parse List.mem_cons_self
  rcases halike with hsame | ⟨name, hname | hname, hnew, hold⟩
  · rw [hfails, hmore] at hsame
    cases hsame
  · rw [hfails] at hname
    cases hname
    exact ⟨hfails, hnew, hold, hmore, hkept _ hzero⟩
  · rw [hfails] at hname
    cases hname

end Term

end LambdaArrow

/-! Left folds in the `Option` monad, as a loop whose body may fail is modelled.

A preorder kept by every step is kept by the whole fold; and a fold fails
when one element's step fails from every state the fold can bring to it.
-/

set_option autoImplicit false

namespace OptionFold

variable {α β : Type} (f : β → α → Option β) (R : β → β → Prop)

/-- A relation that every step establishes between its state before and after,
and that is reflexive and transitive, holds between a fold's start and result. -/
theorem foldlM_rel (refl : ∀ b, R b b) (trans : ∀ a b c, R a b → R b c → R a c) :
    ∀ (l : List α) (start result : β), (∀ x ∈ l, ∀ a b, f a x = some b → R a b) →
      l.foldlM f start = some result → R start result
  | [], start, result, _, done => by
    simp only [List.foldlM_nil, Option.pure_def, Option.some.injEq] at done
    exact done ▸ refl start
  | x :: rest, start, result, steps, done => by
    rw [List.foldlM_cons] at done
    cases first : f start x with
    | none => simp [first] at done
    | some next =>
      simp only [first, Option.bind_eq_bind, Option.bind_some] at done
      have head : R start next := steps x (by simp) start next first
      have tail : R next result :=
        foldlM_rel refl trans rest next result (fun y member => steps y (by simp [member])) done
      exact trans _ _ _ head tail

/-- A fold fails when the step of one of its elements fails from every state
related to the start, the relation being kept by every step. -/
theorem foldlM_eq_none (refl : ∀ b, R b b) (trans : ∀ a b c, R a b → R b c → R a c) {x : α} :
    ∀ (l : List α) (start : β), (∀ y ∈ l, ∀ a b, f a y = some b → R a b) → x ∈ l →
      (∀ a, R start a → f a x = none) → l.foldlM f start = none
  | [], _, _, member, _ => by cases member
  | y :: rest, start, steps, member, fails => by
    rw [List.foldlM_cons]
    cases first : f start y with
    | none => rfl
    | some next =>
      simp only [Option.bind_eq_bind, Option.bind_some]
      rcases List.mem_cons.mp member with same | later
      · subst same
        rw [fails start (refl start)] at first
        cases first
      · have head : R start next := steps y (by simp) start next first
        exact foldlM_eq_none refl trans rest next (fun z found => steps z (by simp [found])) later
          fun a related => fails a (trans _ _ _ head related)

end OptionFold

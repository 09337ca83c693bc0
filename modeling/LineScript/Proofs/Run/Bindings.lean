import LineScript.Proofs.Run.Parts

/-! # Variables and their bindings

What the operations on scopes do to the binding that is found for a name, and
what has to be found for an expression to have a value.
-/

namespace LineScript

theorem lookup_eq_none_iff {α : Type} {entries : List (String × α)} {name : String} :
    entries.lookup name = none ↔ name ∉ entries.map Prod.fst := by
  simp only [List.lookup_eq_none_iff, List.mem_map, not_exists, not_and, bne_iff_ne]
  exact forall₂_congr fun _ _ => ne_comm

namespace Scope

theorem lookup_cons (name : String) (binding : Binding) (rest : Scope) (other : String) :
    List.lookup other ((name, binding) :: rest) =
      if other = name then some binding else rest.lookup other := by
  rw [List.lookup_cons]
  by_cases same : other = name
  · simp [same]
  · simp [same, beq_false_of_ne same]

theorem lookup_set (name : String) (binding : Binding) (scope : Scope) (other : String) :
    (scope.set name binding).lookup other =
      if other = name then some binding else scope.lookup other := by
  induction scope with
  | nil => exact lookup_cons name binding [] other
  | cons entry rest ih =>
      obtain ⟨first, old⟩ := entry
      rw [set]
      split
      · next here =>
          subst here
          rw [lookup_cons, lookup_cons]
          split <;> rfl
      · next elsewhere =>
          rw [lookup_cons, lookup_cons, ih]
          split
          · next same =>
              subst same
              rw [if_neg elsewhere]
          · rfl

/-- Adding names changes no binding. -/
theorem lookup_addVars_of_some {scope : Scope} {name : String} {binding : Binding}
    (found : scope.lookup name = some binding) (names : List String) :
    (scope.addVars names).lookup name = some binding := by
  induction names generalizing scope with
  | nil => exact found
  | cons other names ih =>
      rw [addVars]
      split
      · exact ih found
      · exact ih (by rw [List.lookup_append, found, Option.some_or])

/-- A name that is added is found, and where the scope did not have it, it is undefined. -/
theorem lookup_addVars {scope : Scope} {name : String} {names : List String}
    (member : name ∈ names) (absent : scope.lookup name = none) :
    (scope.addVars names).lookup name = some ⟨some .undefined, false⟩ := by
  induction names generalizing scope with
  | nil => cases member
  | cons other names ih =>
      rw [addVars]
      by_cases same : name = other
      · subst same
        rw [absent]
        exact lookup_addVars_of_some (by simp [List.lookup_append, absent]) names
      · have later := (List.mem_cons.mp member).resolve_left same
        split
        · exact ih later absent
        · refine ih later ?_
          rw [List.lookup_append, absent, Option.none_or, lookup_cons, if_neg same]
          rfl

end Scope

namespace Scopes

theorem find?_cons (name : String) (scope : Scope) (outer : Scopes) :
    find? name (scope :: outer) = (scope.lookup name).or (outer.find? name) := by
  rw [find?]
  cases scope.lookup name <;> rfl

theorem value_of_find? {scopes : Scopes} {name : String} {value : Value} {constant : Bool}
    (found : scopes.find? name = some ⟨some value, constant⟩) : scopes.value name = .ok value := by
  rw [Scopes.value, found]

theorem assign_of_find? {scopes : Scopes} {name : String} {old : Value}
    (found : scopes.find? name = some ⟨some old, false⟩) (value : Value) :
    scopes.assign name value = .ok (scopes.replace name ⟨some value, false⟩) := by
  rw [Scopes.assign, found]

end Scopes

/-- The names that an expression reads. -/
def Expr.names : Expr → List String
  | .name n => [n]
  | .unary _ operand => operand.names
  | .binary _ left right | .logical _ left right => left.names ++ right.names
  | .number _ | .text _ | .bool _ | .null | .undefined => []

/-- An expression has a value where all that it reads has one. -/
theorem Expr.eval_of_names {scopes : Scopes} {e : Expr}
    (values : ∀ name ∈ e.names, ∃ value, scopes.value name = .ok value) :
    ∃ value, e.eval scopes = .ok value := by
  induction e with
  | number | text | bool | null | undefined => exact ⟨_, rfl⟩
  | name n => exact values n (List.mem_singleton_self n)
  | unary op operand ih =>
      obtain ⟨value, read⟩ := ih values
      exact ⟨op.apply value, by rw [Expr.eval, read]; rfl⟩
  | binary op left right ihLeft ihRight =>
      rw [names, List.forall_mem_append] at values
      obtain ⟨a, readLeft⟩ := ihLeft values.1
      obtain ⟨b, readRight⟩ := ihRight values.2
      exact ⟨op.apply a b, by rw [Expr.eval, readLeft, readRight]; rfl⟩
  | logical op left right ihLeft ihRight =>
      rw [names, List.forall_mem_append] at values
      obtain ⟨a, readLeft⟩ := ihLeft values.1
      obtain ⟨b, readRight⟩ := ihRight values.2
      rw [Expr.eval, readLeft]
      by_cases settled : op.isSettledBy a = true
      · exact ⟨a, if_pos settled⟩
      · exact ⟨b, (if_neg settled).trans readRight⟩

theorem evalTexts_of_names {scopes : Scopes} {args : List Expr}
    (values : ∀ e ∈ args, ∀ name ∈ e.names, ∃ value, scopes.value name = .ok value) :
    ∃ texts, evalTexts scopes args = .ok texts := by
  induction args with
  | nil => exact ⟨[], rfl⟩
  | cons e args ih =>
      rw [List.forall_mem_cons] at values
      obtain ⟨value, read⟩ := Expr.eval_of_names values.1
      obtain ⟨texts, rest⟩ := ih values.2
      exact ⟨value.toText :: texts, by rw [evalTexts, read, rest]; rfl⟩

end LineScript

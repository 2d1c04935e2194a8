import WhileLang.Proofs.Scope.Complaint
import WhileLang.Proofs.Scope.Sound

/-!
# Whom an error blames

A run makes new trees as it goes: results of operators, conditionals and sequences out of loops, and `do-nothing`
in place of what is absent. Even so, every error stands where a construct of the program does. The rules of
evaluation show why: a rule that raises an error does it for the construct it evaluates, and all other rules pass
on the errors of children.
-/

namespace WhileLang

/-- An error stands where some construct of a tree does. -/
def Ending.Blames (t : Tree) : Ending → Prop
  | .value _ _ => True
  | .error e => ∃ u ∈ t.nodes, e.span? = u.span.known?

namespace Ending

variable {t a : Tree} {e : Failure} {o : Ending}

/-- An error of the construct itself. -/
theorem blames_self (ht : t ≠ .absent) (h : e.span? = t.span.known?) : (error e).Blames t :=
  ⟨t, Tree.mem_nodes_self ht, h⟩

/-- Who blames a part of a child blames a part of the whole. -/
theorem Blames.ofChild (ha : a ∈ t.children) (h : o.Blames a) : o.Blames t := by
  cases o with
  | value v env => trivial
  | error e =>
    obtain ⟨u, hu, hspan⟩ := h
    exact ⟨u, Tree.nodes_subset_of_mem_children ha hu, hspan⟩

end Ending

/-- Whatever a program does, its error is one of its own constructs. -/
theorem BigStep.blames {t : Tree} {env : Env} {o : Ending} (h : BigStep t env o) : o.Blames t := by
  induction h with
  | absent | num | bool | nothing | var | add | mul | lt | assign | loopFalse => trivial
  | unbound | operands | assigned | ifCondition | loopCondition => exact Ending.blames_self Tree.noConfusion rfl
  | leftError _ ih | rightError _ _ _ ih | assignError _ ih | ifTrue _ _ _ ih | ifFalse _ _ _ ih | ifError _ ih
  | seq _ _ _ ih | seqError _ ih | loopError _ ih | loopBodyError _ _ _ ih =>
    exact ih.ofChild (by simp [Tree.children])
  -- a further round is one of the same loop
  | loopTrue _ _ _ _ _ ih => exact ih

/-- A fault of a run stands where some construct of the program does, however long the run. -/
theorem Tree.execute_blames {t : Tree} {cfg : Settings} {fuel : Nat} {env env' : Env} {f : Fault}
    (h : (t.execute cfg fuel env).reply = .halted (.fault f) env') :
    ∃ u ∈ t.nodes, (Halt.fault f).toFailure.span? = u.span.known? := by
  have hacc : Accounted cfg t env (.halted (.fault f) env') := h ▸ t.execute_accounted cfg fuel env
  rcases hacc with hstep | ⟨steps, hsteps⟩
  · exact hstep.blames
  · exact absurd hsteps Engine.stopBefore?_ne_fault

end WhileLang

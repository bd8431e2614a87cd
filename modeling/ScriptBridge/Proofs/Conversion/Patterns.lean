import ScriptBridge.Conversion.Module
import ScriptBridge.Proofs.Conversion.Results

/-!
# What a declared pattern expands to

A pattern reads its source and nothing else: every name in it is defined as the source, or as an
element or a property of a value that is read from there. What holds of the source and is kept by
reading an element or a property holds of all values that are defined.

* `ReadsFrom`: values that read from a source.
* `expandBinding_readOff`: a pattern expands to definitions of such values.
-/

namespace ScriptBridge.Conversion

open TypeScript

/-- Values that read from a source. -/
inductive ReadsFrom (source : AiScript.Node) : AiScript.Node → Prop
  | source : ReadsFrom source source
  | member {value : AiScript.Node} (key : String) (inner : ReadsFrom source value) :
      ReadsFrom source (member value key)
  | element {value : AiScript.Node} (i : Nat) (inner : ReadsFrom source value) :
      ReadsFrom source (element value i)

/-- Definitions of values that read from a source. -/
def ReadOff (source : AiScript.Node) (made : List AiScript.Node) : Prop :=
  ∀ r ∈ made, ∃ name value isMutable, r = define name value isMutable ∧ ReadsFrom source value

theorem ReadOff.append {source : AiScript.Node} {first more : List AiScript.Node}
    (hf : ReadOff source first) (hm : ReadOff source more) : ReadOff source (first ++ more) :=
  List.forall_mem_append.mpr ⟨hf, hm⟩

theorem readOff_nil (source : AiScript.Node) : ReadOff source [] :=
  fun _ h => nomatch h

section
variable {source : AiScript.Node} (isMutable : Bool)

mutual
theorem expandBinding_readOff {value : AiScript.Node} (h : ReadsFrom source value)
    (pattern : Node) :
    Yields (expandBinding isMutable value pattern) (ReadOff source) := by
  fun_cases expandBinding isMutable value pattern with
  | case1 i =>
    refine yields_bind fun _ => yields_pure fun r hr => ?_
    exact ⟨i.name, value, isMutable, List.mem_singleton.mp hr, h⟩
  | case2 m elements => exact expandElements_readOff h 0 elements
  | case3 m elements => exact expandProperties_readOff h elements
  | case4 => exact yields_refuse _ _
termination_by sizeOf pattern
decreasing_by all_goals (subst_vars; decreasing_tactic)

theorem expandElements_readOff {value : AiScript.Node} (h : ReadsFrom source value) (i : Nat)
    (elements : List Node) :
    Yields (expandElements isMutable value i elements) (ReadOff source) := by
  fun_cases expandElements isMutable value i elements with
  | case1 => exact yields_pure (readOff_nil source)
  | case2 m key target fallback isRest rest =>
    refine yields_bind fun _ => ?_
    refine (expandBinding_readOff (.element i h) target).bind fun first hf => ?_
    exact (expandElements_readOff h (i + 1) rest).bind fun more hm => yields_pure (hf.append hm)
  | case3 n rest => exact expandElements_readOff h (i + 1) rest
termination_by sizeOf elements
decreasing_by all_goals (subst_vars; decreasing_tactic)

theorem expandProperties_readOff {value : AiScript.Node} (h : ReadsFrom source value)
    (elements : List Node) :
    Yields (expandProperties isMutable value elements) (ReadOff source) := by
  fun_cases expandProperties isMutable value elements with
  | case1 => exact yields_pure (readOff_nil source)
  | case2 m key target fallback isRest rest =>
    refine yields_bind fun _ => yields_bind fun name => ?_
    refine (expandBinding_readOff (.member name h) target).bind fun first hf => ?_
    exact (expandProperties_readOff h rest).bind fun more hm => yields_pure (hf.append hm)
  | case3 n rest => exact expandProperties_readOff h rest
termination_by sizeOf elements
decreasing_by all_goals (subst_vars; decreasing_tactic)
end

end

end ScriptBridge.Conversion

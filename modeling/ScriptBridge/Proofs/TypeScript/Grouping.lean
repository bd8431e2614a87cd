import ScriptBridge.TypeScript.Grammar.Expression

/-!
# Grouping by precedence

Operands with operators between them can be joined two at a time in many ways. The precedences single out
one: what binds tighter is joined first, and of operators that bind equally tightly the left one, except
that `**` groups to the right.

* `Grouping`, `Grouping.Ordered`: ways to join operands, and those that respect the precedences.
* `Grouping.Ordered.top_le`: the outermost operator binds least tightly.
* `Grouping.eq_of_ordered`: operands and operators in a row are grouped by precedence in one way only.
* `Node.grouping`: how the binary operators of an expression group what is between them.
-/

namespace ScriptBridge.TypeScript

/-! ## Precedences -/

/-- How tightly an operator binds; zero for what is none. -/
def precedence (operator : String) : Nat :=
  (Rules.precedence? operator).getD 0

/-- Of the binary operators only `**` binds most tightly. -/
theorem eq_power {operator : String} (h : 12 ≤ precedence operator) : operator = "**" := by
  unfold precedence Rules.precedence? at h
  split at h <;> first | rfl | exact absurd h (by decide)

/-! ## Groupings -/

/-- Operands joined by operators, two at a time. -/
inductive Grouping (α : Type) where
  | operand (a : α)
  | join (left : Grouping α) (operator : String) (right : Grouping α)

namespace Grouping

variable {α : Type}

/-- The operands from left to right. -/
def operands : Grouping α → List α
  | operand a => [a]
  | join left _ right => left.operands ++ right.operands

/-- The operators from left to right. -/
def operators : Grouping α → List String
  | operand _ => []
  | join left operator right => left.operators ++ operator :: right.operators

/-- The operator that joins the outermost two. -/
def top? : Grouping α → Option String
  | operand _ => none
  | join _ operator _ => some operator

/-- What is joined first to the left of an operator binds tighter, or equally tightly unless it is `**`. -/
def MayStandLeft (operator inner : String) : Prop :=
  precedence operator < precedence inner ∨ precedence inner = precedence operator ∧ operator ≠ "**"

/-- What is joined first to the right of an operator binds tighter, or both are `**`. -/
def MayStandRight (operator inner : String) : Prop :=
  precedence operator < precedence inner ∨ operator = "**" ∧ inner = "**"

/-- At each operator, what is joined on its sides is what may stand there. -/
inductive Ordered : Grouping α → Prop
  | operand (a : α) : Ordered (operand a)
  | join {left right : Grouping α} {operator : String}
      (atLeft : ∀ inner ∈ left.top?, MayStandLeft operator inner)
      (atRight : ∀ inner ∈ right.top?, MayStandRight operator inner)
      (hleft : Ordered left) (hright : Ordered right) : Ordered (join left operator right)

theorem length_operands (g : Grouping α) : g.operands.length = g.operators.length + 1 := by
  induction g with
  | operand a => rfl
  | join left operator right ihl ihr =>
    simp only [operands, operators, List.length_append, List.length_cons, ihl, ihr]
    omega

theorem MayStandLeft.of_le {operator inner tighter : String} (h : MayStandLeft operator inner)
    (hle : precedence inner ≤ precedence tighter) : MayStandLeft operator tighter := by
  obtain h | ⟨h, hne⟩ := h
  · exact .inl (by omega)
  · obtain heq | hlt := Nat.eq_or_lt_of_le hle
    · exact .inr ⟨by omega, hne⟩
    · exact .inl (by omega)

theorem MayStandRight.of_le {operator inner tighter : String} (h : MayStandRight operator inner)
    (hle : precedence inner ≤ precedence tighter) : MayStandRight operator tighter := by
  obtain h | ⟨h, rfl⟩ := h
  · exact .inl (by omega)
  · exact .inr ⟨h, eq_power hle⟩

/-- No operator of an ordered grouping binds less tightly than the outermost one. -/
theorem Ordered.top_le {g : Grouping α} (h : g.Ordered) :
    ∀ top ∈ g.top?, ∀ inner ∈ g.operators, precedence top ≤ precedence inner := by
  induction h with
  | operand a => exact fun top htop => nomatch htop
  | @join left right operator atLeft atRight _ _ ihl ihr =>
    intro top htop inner hinner
    cases htop
    -- A side that has operators has an outermost one, from which it is one more step.
    have hside (g : Grouping α) (hg : inner ∈ g.operators)
        (hle : ∀ top ∈ g.top?, precedence operator ≤ precedence top)
        (ih : ∀ top ∈ g.top?, ∀ inner ∈ g.operators, precedence top ≤ precedence inner) :
        precedence operator ≤ precedence inner := by
      cases g with
      | operand a => cases hg
      | join l o r => exact Nat.le_trans (hle o rfl) (ih o rfl inner hg)
    rcases List.mem_append.mp hinner with hinner | hinner
    · refine hside left hinner (fun top htop => ?_) ihl
      obtain h | ⟨h, -⟩ := atLeft top htop
      · exact Nat.le_of_lt h
      · exact Nat.le_of_eq h.symm
    rcases List.mem_cons.mp hinner with rfl | hinner
    · exact Nat.le_refl _
    · refine hside right hinner (fun top htop => ?_) ihr
      obtain h | ⟨rfl, rfl⟩ := atRight top htop
      · exact Nat.le_of_lt h
      · exact Nat.le_refl _

/-- All operators to the left of the outermost one may stand there. -/
theorem Ordered.mayStandLeft {left right : Grouping α} {operator : String}
    (h : (Grouping.join left operator right).Ordered) :
    ∀ inner ∈ left.operators, MayStandLeft operator inner := by
  cases h with
  | join atLeft _ hleft _ =>
    intro inner hinner
    cases left with
    | operand a => cases hinner
    | join l o r => exact (atLeft o rfl).of_le (hleft.top_le o rfl inner hinner)

/-- All operators to the right of the outermost one may stand there. -/
theorem Ordered.mayStandRight {left right : Grouping α} {operator : String}
    (h : (Grouping.join left operator right).Ordered) :
    ∀ inner ∈ right.operators, MayStandRight operator inner := by
  cases h with
  | join _ atRight _ hright =>
    intro inner hinner
    cases right with
    | operand a => cases hinner
    | join l o r => exact (atRight o rfl).of_le (hright.top_le o rfl inner hinner)

/-- Of two operators in a row, not each can be the outermost one with the other on its side. -/
theorem not_mayStand {first second : String} (hleft : MayStandLeft second first)
    (hright : MayStandRight first second) : False := by
  rcases hleft with h | ⟨h, hne⟩
  · rcases hright with h' | ⟨rfl, rfl⟩ <;> omega
  · rcases hright with h' | ⟨-, rfl⟩
    · omega
    · exact hne rfl

/-- Two outermost operators of the same row stand at the same place. -/
theorem Ordered.operators_left_eq {l r l' r' : Grouping α} {o o' : String}
    (h : (Grouping.join l o r).Ordered) (h' : (Grouping.join l' o' r').Ordered)
    (heq : l.operators ++ o :: r.operators = l'.operators ++ o' :: r'.operators) :
    l.operators = l'.operators := by
  rcases List.append_eq_append_iff.mp heq with ⟨between, hl', hr⟩ | ⟨between, hl, hr'⟩
  · cases between with
    | nil => simpa using hl'.symm
    | cons first between =>
      obtain ⟨rfl, hmore⟩ := List.cons.inj hr
      have hfirst : o ∈ l'.operators := by simp [hl']
      have hsecond : o' ∈ r.operators := hmore ▸ List.mem_append_right between List.mem_cons_self
      exact (not_mayStand (h'.mayStandLeft o hfirst) (h.mayStandRight o' hsecond)).elim
  · cases between with
    | nil => simpa using hl
    | cons first between =>
      obtain ⟨rfl, hmore⟩ := List.cons.inj hr'
      have hfirst : o' ∈ l.operators := by simp [hl]
      have hsecond : o ∈ r'.operators := hmore ▸ List.mem_append_right between List.mem_cons_self
      exact (not_mayStand (h.mayStandLeft o' hfirst) (h'.mayStandRight o hsecond)).elim

/-- Operands and operators in a row are grouped by precedence in one way only. -/
theorem eq_of_ordered {g g' : Grouping α} (h : g.Ordered) (h' : g'.Ordered)
    (hoperands : g.operands = g'.operands) (hoperators : g.operators = g'.operators) : g = g' := by
  induction g generalizing g' with
  | operand a =>
    cases g' with
    | operand b => rw [List.singleton_inj.mp hoperands]
    | join l o r => exact absurd hoperators (by simp [operators])
  | join l o r ihl ihr =>
    cases g' with
    | operand b => exact absurd hoperators.symm (by simp [operators])
    | join l' o' r' =>
      have hleft := h.operators_left_eq h' hoperators
      obtain ⟨-, hcons⟩ := List.append_inj hoperators (congrArg List.length hleft)
      obtain ⟨rfl, hright⟩ := List.cons.inj hcons
      have hlength : l.operands.length = l'.operands.length := by
        rw [length_operands, length_operands, hleft]
      obtain ⟨hl, hr⟩ := List.append_inj hoperands hlength
      cases h with
      | join _ _ hol hor =>
        cases h' with
        | join _ _ hol' hor' => rw [ihl hol hol' hl hleft, ihr hor hor' hr hright]

end Grouping

/-- How the binary operators of an expression join what stands between them. -/
def Node.grouping : Node → Grouping Node
  | .binary _ left operator right => .join left.grouping operator right.grouping
  | e => .operand e

end ScriptBridge.TypeScript

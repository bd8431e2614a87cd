import ScriptBridge.Data.Assoc
import ScriptBridge.Proofs.Number.Numeral
import ScriptBridge.Typing.Access
import Mathlib.Data.List.Forall2
import Mathlib.Data.Option.Defs

/-!
# Types that differ in their numbers only

The numbers of object types depend on the order of questions. A `Reading` says what a numbering means:
the name that a record has, if any, and the name of a declared type. `Same r s t u` holds if `t`, read by
`r`, and `u`, read by `s`, are the same type apart from the numbers. Everything the oracle makes of types
without looking at the numbers keeps `Same`: their texts are equal, they fit the same kinds, and joins of
the same types are the same.

Unions have at least two members here, which rules out those that are written like another type.

* `Reading`, `Same`, `SameAll`, `SameNamed`, `SameIndex`: the relation, over the parts of types.
* `Same.text_eq`, `Same.fits_eq`: what can be seen of a type.
* `unionOf_same`, `widen_same`, `removeNullish_same`: what unions are made of.
* `Same.trans`: one numbering read through another.
-/

namespace ScriptBridge.Typing

/-- What the numbers of object types mean: the names of records, `none` for a record without a name, and
the names of declared types. -/
structure Reading where
  record : ShapeId → Option String → Prop
  declared : ShapeId → String → Prop

mutual
/-- The same type, apart from the numbers. -/
inductive Same (r s : Reading) : Ty → Ty → Prop
  | primitive (p : Primitive) : Same r s (.primitive p) (.primitive p)
  | textLiteral (value : String) : Same r s (.textLiteral value) (.textLiteral value)
  | numberLiteral (value : Double) : Same r s (.numberLiteral value) (.numberLiteral value)
  | truthLiteral (value : Bool) : Same r s (.truthLiteral value) (.truthLiteral value)
  | array {t u : Ty} : Same r s t u → Same r s (.array t) (.array u)
  | tuple {ts us : List Ty} : SameAll r s ts us → Same r s (.tuple ts) (.tuple us)
  | record {i j : ShapeId} {name : Option String} {ps qs : List (String × Ty)} {ix jx : Option Ty} :
      r.record i name → s.record j name → SameNamed r s ps qs → SameIndex r s ix jx →
      Same r s (.record i ps ix) (.record j qs jx)
  | declared {i j : ShapeId} {name : String} :
      r.declared i name → s.declared j name → Same r s (.declared i name) (.declared j name)
  | function {ps qs : List (String × Ty)} {t u : Ty} :
      SameNamed r s ps qs → Same r s t u → Same r s (.function ps t) (.function qs u)
  | union {ts us : List Ty} : 2 ≤ ts.length → SameAll r s ts us → Same r s (.union ts) (.union us)

/-- The same types, one by one. -/
inductive SameAll (r s : Reading) : List Ty → List Ty → Prop
  | nil : SameAll r s [] []
  | cons {t u : Ty} {ts us : List Ty} :
      Same r s t u → SameAll r s ts us → SameAll r s (t :: ts) (u :: us)

/-- The same types under the same names. -/
inductive SameNamed (r s : Reading) : List (String × Ty) → List (String × Ty) → Prop
  | nil : SameNamed r s [] []
  | cons {name : String} {t u : Ty} {ps qs : List (String × Ty)} :
      Same r s t u → SameNamed r s ps qs → SameNamed r s ((name, t) :: ps) ((name, u) :: qs)

/-- The same type, if there is one. -/
inductive SameIndex (r s : Reading) : Option Ty → Option Ty → Prop
  | none : SameIndex r s none none
  | some {t u : Ty} : Same r s t u → SameIndex r s (some t) (some u)
end

/-! ## Readings -/

namespace Reading

/-- What one reading knows another knows too. -/
structure Le (r s : Reading) : Prop where
  record : ∀ {i name}, r.record i name → s.record i name
  declared : ∀ {i name}, r.declared i name → s.declared i name

/-- The table of record names is read as it is. -/
def Fits (r : Reading) (names : RecordNames) : Prop :=
  ∀ i name, r.record i name → (names[i]?).join = name

/-- Every number is read in one way at most. -/
structure Functional (r : Reading) : Prop where
  record : ∀ {i a b}, r.record i a → r.record i b → a = b

/-- No object type has the empty name. -/
structure Named (r : Reading) : Prop where
  record : ∀ {i name}, r.record i (some name) → name ≠ ""
  declared : ∀ {i name}, r.declared i name → name ≠ ""

end Reading

variable {r s q : Reading}

mutual
theorem Same.mono {t u : Ty} (hr : r.Le q) : Same r s t u → Same q s t u
  | .primitive p => .primitive p
  | .textLiteral value => .textLiteral value
  | .numberLiteral value => .numberLiteral value
  | .truthLiteral value => .truthLiteral value
  | .array h => .array (h.mono hr)
  | .tuple h => .tuple (h.mono hr)
  | .record hi hj hp hx => .record (hr.record hi) hj (hp.mono hr) (hx.mono hr)
  | .declared hi hj => .declared (hr.declared hi) hj
  | .function hp h => .function (hp.mono hr) (h.mono hr)
  | .union hl h => .union hl (h.mono hr)

theorem SameAll.mono {ts us : List Ty} (hr : r.Le q) : SameAll r s ts us → SameAll q s ts us
  | .nil => .nil
  | .cons h hs => .cons (h.mono hr) (hs.mono hr)

theorem SameNamed.mono {ps qs : List (String × Ty)} (hr : r.Le q) :
    SameNamed r s ps qs → SameNamed q s ps qs
  | .nil => .nil
  | .cons h hs => .cons (h.mono hr) (hs.mono hr)

theorem SameIndex.mono {ix jx : Option Ty} (hr : r.Le q) : SameIndex r s ix jx → SameIndex q s ix jx
  | .none => .none
  | .some h => .some (h.mono hr)
end

mutual
theorem Same.trans {t u v : Ty} (hs : s.Functional) : Same r s t u → Same s q u v → Same r q t v
  | .primitive p, .primitive _ => .primitive p
  | .textLiteral value, .textLiteral _ => .textLiteral value
  | .numberLiteral value, .numberLiteral _ => .numberLiteral value
  | .truthLiteral value, .truthLiteral _ => .truthLiteral value
  | .array h, .array h' => .array (h.trans hs h')
  | .tuple h, .tuple h' => .tuple (h.trans hs h')
  | .record hi hj hp hx, .record hi' hj' hp' hx' =>
    .record hi (hs.record hi' hj ▸ hj') (hp.trans hs hp') (hx.trans hs hx')
  | .declared hi _, .declared _ hj' => .declared hi hj'
  | .function hp h, .function hp' h' => .function (hp.trans hs hp') (h.trans hs h')
  | .union hl h, .union _ h' => .union hl (h.trans hs h')

theorem SameAll.trans {ts us vs : List Ty} (hs : s.Functional) :
    SameAll r s ts us → SameAll s q us vs → SameAll r q ts vs
  | .nil, .nil => .nil
  | .cons h ht, .cons h' ht' => .cons (h.trans hs h') (ht.trans hs ht')

theorem SameNamed.trans {ps qs vs : List (String × Ty)} (hs : s.Functional) :
    SameNamed r s ps qs → SameNamed s q qs vs → SameNamed r q ps vs
  | .nil, .nil => .nil
  | .cons h ht, .cons h' ht' => .cons (h.trans hs h') (ht.trans hs ht')

theorem SameIndex.trans {ix jx kx : Option Ty} (hs : s.Functional) :
    SameIndex r s ix jx → SameIndex s q jx kx → SameIndex r q ix kx
  | .none, .none => .none
  | .some h, .some h' => .some (h.trans hs h')
end

/-! ## What can be seen of a type -/

section
variable {names others : RecordNames}

theorem text_record (names : RecordNames) (i : ShapeId) (ps : List (String × Ty)) (ix : Option Ty) :
    (Ty.record i ps ix).text names = match (names[i]?).join with
      | some name => .ok name
      | none => do
        let rest ← Ty.indexText names ix
        return bracedText (rest ++ (← Ty.memberTexts names ";" ps)) := by
  rw [Ty.text]
  rcases names[i]? with _ | _ | name <;> rfl

theorem Same.isCompound_eq {t u : Ty} (h : Same r s t u) : t.isCompound = u.isCompound := by
  cases h <;> rfl

mutual
/-- The same type has one text. -/
theorem Same.text_eq {t u : Ty} (hr : r.Fits names) (hs : s.Fits others) :
    Same r s t u → t.text names = u.text others
  | .primitive p => by simp only [Ty.text]
  | .textLiteral value => by simp only [Ty.text]
  | .numberLiteral value => by simp only [Ty.text]
  | .truthLiteral value => by simp only [Ty.text]
  | .array h => by simp only [Ty.text, h.text_eq hr hs, h.isCompound_eq]
  | .tuple h => by simp only [Ty.text, h.texts_eq hr hs]
  | .record hi hj hp hx => by
    rw [text_record, text_record, hr _ _ hi, hs _ _ hj, hp.texts_eq hr hs, hx.text_eq hr hs]
  | .declared _ _ => by simp only [Ty.text]
  | .function hp h => by simp only [Ty.text, hp.texts_eq hr hs, h.text_eq hr hs]
  | .union _ h => by simp only [Ty.text, h.texts_eq hr hs]

theorem SameAll.texts_eq {ts us : List Ty} (hr : r.Fits names) (hs : s.Fits others) :
    SameAll r s ts us → Ty.texts names ts = Ty.texts others us
  | .nil => by simp only [Ty.texts]
  | .cons h ht => by simp only [Ty.texts, h.text_eq hr hs, ht.texts_eq hr hs]

theorem SameNamed.texts_eq {mark : String} {ps qs : List (String × Ty)} (hr : r.Fits names)
    (hs : s.Fits others) :
    SameNamed r s ps qs → Ty.memberTexts names mark ps = Ty.memberTexts others mark qs
  | .nil => by simp only [Ty.memberTexts]
  | .cons h ht => by simp only [Ty.memberTexts, h.text_eq hr hs, ht.texts_eq hr hs]

theorem SameIndex.text_eq {ix jx : Option Ty} (hr : r.Fits names) (hs : s.Fits others) :
    SameIndex r s ix jx → Ty.indexText names ix = Ty.indexText others jx
  | .none => by simp only [Ty.indexText]
  | .some h => by simp only [Ty.indexText, h.text_eq hr hs]
end

end

mutual
theorem Same.fits_eq {t u : Ty} (k : Kind) : Same r s t u → t.fits k = u.fits k
  | .primitive p => rfl
  | .textLiteral value => by simp only [Ty.fits]
  | .numberLiteral value => by simp only [Ty.fits]
  | .truthLiteral value => by simp only [Ty.fits]
  | .array _ => by simp only [Ty.fits]
  | .tuple _ => by simp only [Ty.fits]
  | .record .. => by simp only [Ty.fits]
  | .declared .. => by simp only [Ty.fits]
  | .function .. => by simp only [Ty.fits]
  | .union _ h => by simp only [Ty.fits, h.fitsAll_eq k]

theorem SameAll.fitsAll_eq {ts us : List Ty} (k : Kind) :
    SameAll r s ts us → Ty.fitsAll k ts = Ty.fitsAll k us
  | .nil => rfl
  | .cons h ht => by simp only [Ty.fitsAll, h.fits_eq k, ht.fitsAll_eq k]
end

mutual
theorem Same.isBoolean_eq {t u : Ty} : Same r s t u → t.isBoolean = u.isBoolean
  | .primitive p => rfl
  | .textLiteral value => rfl
  | .numberLiteral value => rfl
  | .truthLiteral value => rfl
  | .array _ => by simp only [Ty.isBoolean]
  | .tuple _ => by simp only [Ty.isBoolean]
  | .record .. => by simp only [Ty.isBoolean]
  | .declared .. => by simp only [Ty.isBoolean]
  | .function .. => by simp only [Ty.isBoolean]
  | .union _ h => by simp only [Ty.isBoolean, h.areBoolean_eq]

theorem SameAll.areBoolean_eq {ts us : List Ty} :
    SameAll r s ts us → Ty.areBoolean ts = Ty.areBoolean us
  | .nil => rfl
  | .cons h ht => by simp only [Ty.areBoolean, h.isBoolean_eq, ht.areBoolean_eq]
end

section
variable {t u : Ty} (h : Same r s t u)
include h

theorem Same.isAny_eq : t.isAny = u.isAny := by
  cases h <;> rfl

theorem Same.isNever_eq : t.isNever = u.isNever := by
  cases h <;> rfl

theorem Same.isOpen_eq : t.isOpen = u.isOpen := by
  cases h <;> rfl

theorem Same.isNullish_eq : t.isNullish = u.isNullish := by
  cases h <;> rfl

theorem Same.isTruthLiteral_eq : t.isTruthLiteral = u.isTruthLiteral := by
  cases h <;> rfl

end

/-! ## Texts are not empty -/

theorem intercalate_ne_empty {first : String} (h : first ≠ "") (mark : String) (rest : List String) :
    mark.intercalate (first :: rest) ≠ "" := by
  cases rest with
  | nil => rwa [String.intercalate_singleton]
  | cons second rest =>
    rw [String.intercalate_cons_cons]
    intro he
    exact h (String.append_eq_empty_iff.mp (String.append_eq_empty_iff.mp he).1).1

theorem bracedText_ne_empty (members : List String) : bracedText members ≠ "" := by
  unfold bracedText
  split <;> simp

theorem numberText_ne_empty {x : Double} {text : String} (h : numberText x = .ok text) : text ≠ "" := by
  unfold numberText at h
  split at h
  · cases h
  split at h
  · cases h
  rename_i hnan hinfinite
  have hfinite : x.isFinite = true := by
    have hbiased : x.biased < 2048 := by
      simp only [Double.biased, Double.magnitude, Nat.pow_eq]
      omega
    simp only [Double.isNaN, Double.isInfinite, Double.isFinite, Bool.and_eq_true, beq_iff_eq,
      bne_iff_ne, not_and, not_not, decide_eq_true_eq] at hnan hinfinite ⊢
    by_contra hx
    have hmax : x.biased = 2047 := by omega
    exact hinfinite hmax (hnan hmax)
  obtain ⟨n, hw, -⟩ := writeMagnitude_numeral typeLayout hfinite
  cases h
  intro he
  have hempty := (String.append_eq_empty_iff.mp he).2
  rw [hw, ← String.toList_eq_nil_iff, String.toList_ofList, Numeral.text] at hempty
  exact n.whole_ne_nil (List.append_eq_nil_iff.mp (List.append_eq_nil_iff.mp hempty).1).1

theorem Same.text_ne_empty {names : RecordNames} (hn : r.Named) (hr : r.Fits names) {t u : Ty}
    {text : String} : Same r s t u → t.text names = .ok text → text ≠ ""
  | .primitive p, h => by
    cases h
    cases p <;> decide
  | .textLiteral value, h => by
    cases h
    simp [quotedText]
  | .numberLiteral value, h => numberText_ne_empty h
  | .truthLiteral value, h => by
    cases h
    cases value <;> decide
  | .array _, h => by
    simp only [Ty.text, bind, Except.bind] at h
    split at h
    · cases h
    · cases h
      split <;> simp
  | .tuple _, h => by
    simp only [Ty.text, bind, Except.bind] at h
    split at h
    · cases h
    · cases h
      simp
  | @Same.record _ _ _ _ name _ _ _ _ hi _ _ _, h => by
    rw [text_record, hr _ _ hi] at h
    cases name with
    | some name =>
      cases h
      exact hn.record hi
    | none =>
      simp only [bind, Except.bind] at h
      split at h
      · cases h
      split at h
      · cases h
      cases h
      exact bracedText_ne_empty _
  | .declared hi _, h => by
    cases h
    exact hn.declared hi
  | .function _ _, h => by
    simp only [Ty.text, bind, Except.bind] at h
    split at h
    · cases h
    split at h
    · cases h
    cases h
    simp
  | .union _ (.cons hfirst _), h => by
    simp only [Ty.text, Ty.texts, bind, Except.bind] at h
    split at h
    · cases h
    rename_i texts htexts
    split at htexts
    · cases htexts
    rename_i first hf
    split at htexts
    · cases htexts
    cases htexts
    cases h
    exact intercalate_ne_empty (hfirst.text_ne_empty hn hr hf) _ _

/-! ## Lists and tables -/

theorem sameAll_iff {ts us : List Ty} : SameAll r s ts us ↔ List.Forall₂ (Same r s) ts us := by
  constructor
  · intro h
    induction ts generalizing us with
    | nil => cases h; exact .nil
    | cons t ts ih => cases h with | cons h ht => exact .cons h (ih ht)
  · intro h
    induction h with
    | nil => exact .nil
    | cons h _ ih => exact .cons h ih

theorem SameAll.length_eq {ts us : List Ty} (h : SameAll r s ts us) : ts.length = us.length :=
  (sameAll_iff.mp h).length_eq

theorem SameAll.append {ts us ts' us' : List Ty} (h : SameAll r s ts us) (h' : SameAll r s ts' us') :
    SameAll r s (ts ++ ts') (us ++ us') :=
  sameAll_iff.mpr (List.rel_append (sameAll_iff.mp h) (sameAll_iff.mp h'))

theorem SameAll.filter {ts us : List Ty} (p : Ty → Bool)
    (hp : ∀ {t u}, Same r s t u → p t = p u) (h : SameAll r s ts us) :
    SameAll r s (ts.filter p) (us.filter p) :=
  sameAll_iff.mpr (List.rel_filter (fun _ _ h => iff_of_eq (congrArg (· = true) (hp h)))
    (sameAll_iff.mp h))

theorem SameAll.present {ts us : List Ty} (h : SameAll r s ts us) :
    SameAll r s (Ty.present ts) (Ty.present us) :=
  h.filter _ fun h => by rw [h.isNullish_eq]

theorem SameAll.getElem? {ts us : List Ty} (h : SameAll r s ts us) (i : Nat) :
    SameIndex r s ts[i]? us[i]? := by
  induction i generalizing ts us with
  | zero => cases h with
    | nil => exact .none
    | cons h _ => exact .some h
  | succ i ih => cases h with
    | nil => exact .none
    | cons _ ht => exact ih ht

theorem SameNamed.lookup {ps qs : List (String × Ty)} (h : SameNamed r s ps qs) (name : String) :
    SameIndex r s (ps.lookup name) (qs.lookup name) := by
  induction ps generalizing qs with
  | nil => cases h; exact .none
  | cons e ps ih =>
    cases h with
    | @cons key t u _ qs h ht =>
      rw [List.lookup_cons, List.lookup_cons]
      cases name == key with
      | true => exact .some h
      | false => exact ih ht

theorem SameNamed.set {ps qs : List (String × Ty)} {t u : Ty} (h : SameNamed r s ps qs)
    (ht : Same r s t u) (key : String) : SameNamed r s (Assoc.set key t ps) (Assoc.set key u qs) := by
  induction ps generalizing qs with
  | nil => cases h; exact .cons ht .nil
  | cons e ps ih =>
    cases h with
    | @cons name _ _ _ qs h hs =>
      rw [Assoc.set, Assoc.set]
      by_cases hk : name = key
      · rw [if_pos hk, if_pos hk]
        exact .cons ht hs
      · rw [if_neg hk, if_neg hk]
        exact .cons h (ih hs)

theorem mergeProperties_cons (ps : List (String × Ty)) (key : String) (t : Ty)
    (more : List (String × Ty)) :
    mergeProperties ps ((key, t) :: more) = mergeProperties (Assoc.set key t ps) more :=
  rfl

theorem SameNamed.merge {ps qs more others : List (String × Ty)} (h : SameNamed r s ps qs)
    (hm : SameNamed r s more others) :
    SameNamed r s (mergeProperties ps more) (mergeProperties qs others) := by
  induction more generalizing ps qs others with
  | nil => cases hm; exact h
  | cons e more ih => cases hm with
    | cons ht hm =>
      rw [mergeProperties_cons, mergeProperties_cons]
      exact ih (h.set ht _) hm

theorem SameNamed.bindParams {args others : List Ty} (names : List String)
    (ha : SameAll r s args others) {env env' : Env} (h : SameNamed r s env env') :
    SameNamed r s (bindParams names args env) (bindParams names others env') := by
  induction names generalizing args others env env' with
  | nil => exact h
  | cons name names ih => cases ha with
    | nil => exact ih .nil (h.set (.primitive .any) name)
    | cons ht ha => exact ih ha (h.set ht name)

theorem SameIndex.or {ix jx ix' jx' : Option Ty} (h : SameIndex r s ix jx)
    (h' : SameIndex r s ix' jx') : SameIndex r s (ix.or ix') (jx.or jx') := by
  cases h with
  | none => exact h'
  | some h => exact .some h

theorem SameIndex.getD {ix jx : Option Ty} (h : SameIndex r s ix jx) :
    Same r s (ix.getD .any) (jx.getD .any) := by
  cases h with
  | none => exact .primitive .any
  | some h => exact h

theorem SameIndex.isSome_eq {ix jx : Option Ty} (h : SameIndex r s ix jx) : ix.isSome = jx.isSome := by
  cases h <;> rfl

/-- The results of the functions of a union. -/
theorem SameAll.results? {ts us : List Ty} (h : SameAll r s ts us) :
    Option.Rel (SameAll r s) (results? ts) (results? us) := by
  induction ts generalizing us with
  | nil => cases h; exact .some .nil
  | cons t ts ih =>
    cases h with
    | @cons _ u _ us h ht =>
      have rest := ih ht
      cases h with
      | function hp hres =>
        rw [Typing.results?, Typing.results?]
        revert rest
        generalize Typing.results? ts = a, Typing.results? us = b
        rintro (hrest | _)
        · exact .some (.cons hres hrest)
        · exact .none
      | primitive p =>
        simp only [Typing.results?]
        split
        · exact rest
        · exact .none
      | _ => exact .none

/-! ## Unions -/

theorem Same.members {t u : Ty} (h : Same r s t u) : SameAll r s t.members u.members := by
  cases h with
  | union _ h => exact h
  | primitive p => exact .cons (.primitive p) .nil
  | textLiteral value => exact .cons (.textLiteral value) .nil
  | numberLiteral value => exact .cons (.numberLiteral value) .nil
  | truthLiteral value => exact .cons (.truthLiteral value) .nil
  | array h => exact .cons (.array h) .nil
  | tuple h => exact .cons (.tuple h) .nil
  | record hi hj hp hx => exact .cons (.record hi hj hp hx) .nil
  | declared hi hj => exact .cons (.declared hi hj) .nil
  | function hp h => exact .cons (.function hp h) .nil

theorem SameAll.flatMap_members {ts us : List Ty} (h : SameAll r s ts us) :
    SameAll r s (ts.flatMap Ty.members) (us.flatMap Ty.members) := by
  induction ts generalizing us with
  | nil => cases h; exact .nil
  | cons t ts ih => cases h with
    | cons h ht => exact h.members.append (ih ht)

theorem Same.widenMember {t u : Ty} (h : Same r s t u) : Same r s t.widenMember u.widenMember := by
  cases h with
  | textLiteral => exact .primitive .string
  | numberLiteral => exact .primitive .number
  | truthLiteral => exact .primitive .boolean
  | primitive p => exact .primitive p
  | array h => exact .array h
  | tuple h => exact .tuple h
  | record hi hj hp hx => exact .record hi hj hp hx
  | declared hi hj => exact .declared hi hj
  | function hp h => exact .function hp h
  | union hl h => exact .union hl h

theorem SameAll.map_widenMember {ts us : List Ty} (h : SameAll r s ts us) :
    SameAll r s (ts.map Ty.widenMember) (us.map Ty.widenMember) := by
  induction ts generalizing us with
  | nil => cases h; exact .nil
  | cons t ts ih => cases h with
    | cons h ht => exact .cons h.widenMember (ih ht)

theorem SameAll.hasPrimitive_eq {ts us : List Ty} (h : SameAll r s ts us) (p : Primitive) :
    hasPrimitive p ts = hasPrimitive p us := by
  induction ts generalizing us with
  | nil => cases h; rfl
  | cons t ts ih =>
    cases h with
    | cons h ht =>
      unfold hasPrimitive
      rw [List.any_cons, List.any_cons]
      exact congrArg₂ or (by cases h <;> rfl) (ih ht)

theorem SameAll.joinTruths {ts us : List Ty} (h : SameAll r s ts us) (seen : List String) :
    SameAll r s (joinTruths seen ts) (joinTruths seen us) := by
  unfold Typing.joinTruths
  split
  · exact (h.filter _ fun h => by rw [h.isTruthLiteral_eq]).append (.cons (.primitive _) .nil)
  · exact h

theorem SameAll.absorbTruths {ts us : List Ty} (h : SameAll r s ts us) :
    SameAll r s (absorbTruths ts) (absorbTruths us) := by
  unfold Typing.absorbTruths
  rw [h.hasPrimitive_eq]
  split
  · exact h.filter _ fun h => by rw [h.isTruthLiteral_eq]
  · exact h

theorem SameAll.ofMembers {ts us : List Ty} (h : SameAll r s ts us) :
    Same r s (ofMembers ts) (ofMembers us) := by
  cases h with
  | nil => exact .primitive .never
  | cons h ht =>
    cases ht with
    | nil => exact h
    | cons h' ht => exact .union (by simp) (.cons h (.cons h' ht))

section
variable {names others : RecordNames} (hr : r.Fits names) (hs : s.Fits others)
include hr hs

theorem distinct_same {seen : List String} {kept kept' ts us : List Ty}
    {b : Option (List Ty × List String)} (hkept : SameAll r s kept kept') (h : SameAll r s ts us)
    (hb : distinct others seen kept' us = .ok b) :
    ∃ a, distinct names seen kept ts = .ok a ∧
      Option.Rel (fun x y => SameAll r s x.1 y.1 ∧ x.2 = y.2) a b := by
  induction ts generalizing us seen kept kept' with
  | nil =>
    cases h
    cases hb
    exact ⟨_, rfl, .some ⟨hkept, rfl⟩⟩
  | cons t ts ih =>
    cases h with
    | @cons _ u _ us h ht =>
      rw [distinct] at hb ⊢
      rw [← h.isAny_eq, ← h.isNever_eq, ← h.text_eq hr hs] at hb
      by_cases hany : t.isAny = true
      · rw [if_pos hany] at hb ⊢
        cases hb
        exact ⟨_, rfl, .none⟩
      rw [if_neg hany] at hb ⊢
      by_cases hnever : t.isNever = true
      · rw [if_pos hnever] at hb ⊢
        exact ih hkept ht hb
      rw [if_neg hnever] at hb ⊢
      cases htext : t.text names with
      | error fault =>
        rw [htext] at hb
        cases hb
      | ok key =>
        rw [htext] at hb
        simp only [bind, Except.bind] at hb ⊢
        by_cases hseen : seen.contains key = true
        · rw [if_pos hseen] at hb ⊢
          exact ih hkept ht hb
        · rw [if_neg hseen] at hb ⊢
          exact ih (hkept.append (.cons h .nil)) ht hb

/-- Joins of the same types are the same. -/
theorem unionOf_same {ts us : List Ty} {u : Ty} (h : SameAll r s ts us)
    (hu : unionOf others us = .ok u) : ∃ t, unionOf names ts = .ok t ∧ Same r s t u := by
  unfold unionOf at hu ⊢
  cases hb : distinct others [] [] (us.flatMap Ty.members) with
  | error fault =>
    rw [hb] at hu
    cases hu
  | ok b =>
    obtain ⟨a, ha, hab⟩ := distinct_same hr hs .nil h.flatMap_members hb
    rw [hb] at hu
    rw [ha]
    cases hab with
    | none =>
      cases hu
      exact ⟨_, rfl, .primitive .any⟩
    | @some x y hxy =>
      obtain ⟨members, seen⟩ := x
      obtain ⟨members', seen'⟩ := y
      obtain ⟨hm, rfl⟩ := hxy
      simp only [bind, Except.bind] at hu ⊢
      rw [← hm.hasPrimitive_eq] at hu
      by_cases hunknown : hasPrimitive .unknown members = true
      · rw [if_pos hunknown] at hu ⊢
        cases hu
        exact ⟨_, rfl, .primitive .unknown⟩
      · rw [if_neg hunknown] at hu ⊢
        cases hu
        exact ⟨_, rfl, (hm.joinTruths seen).absorbTruths.ofMembers⟩

theorem widen_same {t u u' : Ty} (h : Same r s t u) (hu : u.widen others = .ok u') :
    ∃ t', t.widen names = .ok t' ∧ Same r s t' u' := by
  cases h with
  | union hl h => exact unionOf_same hr hs h.map_widenMember hu
  | textLiteral => cases hu; exact ⟨_, rfl, .primitive .string⟩
  | numberLiteral => cases hu; exact ⟨_, rfl, .primitive .number⟩
  | truthLiteral => cases hu; exact ⟨_, rfl, .primitive .boolean⟩
  | primitive p => cases hu; exact ⟨_, rfl, .primitive p⟩
  | array h => cases hu; exact ⟨_, rfl, .array h⟩
  | tuple h => cases hu; exact ⟨_, rfl, .tuple h⟩
  | record hi hj hp hx => cases hu; exact ⟨_, rfl, .record hi hj hp hx⟩
  | declared hi hj => cases hu; exact ⟨_, rfl, .declared hi hj⟩
  | function hp h => cases hu; exact ⟨_, rfl, .function hp h⟩

theorem removeNullish_same {t u u' : Ty} (h : Same r s t u) (hu : u.removeNullish others = .ok u') :
    ∃ t', t.removeNullish names = .ok t' ∧ Same r s t' u' := by
  have single (hn : t.isNullish = u.isNullish) :
      Same r s (if t.isNullish then .primitive .never else t)
        (if u.isNullish then .primitive .never else u) := by
    rw [← hn]
    split
    · exact .primitive .never
    · exact h
  cases h with
  | union hl h => exact unionOf_same hr hs h.present hu
  | _ => cases hu; exact ⟨_, rfl, single rfl⟩

end

end ScriptBridge.Typing

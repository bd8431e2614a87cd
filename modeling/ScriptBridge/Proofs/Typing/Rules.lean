import ScriptBridge.Proofs.Typing.Agreement

/-!
# The rules of the oracle agree with a table

What each rule of the oracle finds is what it finds from a table. `Asks` is what the rules need of a way
to have their questions answered; that the oracle answers so itself is not shown here, since there a rule
may not ask for what is under way.

* `Asks`: questions that are answered as by the table.
* `agree_writtenType`, `agree_inferExpression`, `agree_inferSymbol`, `agree_findMembers`: the rules.
-/

namespace ScriptBridge.Typing

open ScriptBridge.Binding ScriptBridge.TypeScript
open ScriptBridge.Conversion (bind_ok bind_of_ok)

variable {T : Table} {program : Program} {c : Context} {w w' : World} {m n : Memory}

/-! ## Questions -/

/-- Questions are answered as the table does below the rank of what is under way. -/
structure Asks (T : Table) (program : Program) (c : Context) (ask : Asker) : Prop where
  expression : ∀ w e, Agree T program c T.Stands w (ask (.expression e)) (T.ask c.rank (.expression e))
  symbol : ∀ w id, Agree T program c T.Stands w (ask (.symbol id)) (T.ask c.rank (.symbol id))
  written : ∀ w env env' type, T.StandNamed w env env' →
    Agree T program c T.Stands w (ask (.written env type)) (T.ask c.rank (.written env' type))
  members : ∀ w i j name, w.labels[i]? = some name →
    Agree T program c T.StandMembers w (membersOf? ask (.declared i name))
      (membersOf? (T.ask c.rank) (.declared j name))

section
variable {ask : Asker} (hask : Asks T program c ask)
include hask

theorem agree_membersOf? {t u : Ty} (h : T.Stands w t u) :
    Agree T program c T.StandMembers w (membersOf? ask t) (membersOf? (T.ask c.rank) u) := by
  cases h with
  | record hi hj hp hx => exact agree_pure (.some ⟨hp, hx⟩)
  | @declared i j name hi hj => exact hask.members w i j name hi
  | _ => exact agree_pure .none

theorem agree_propertyOfMember (H : T.Holds program) (name : String) {t u : Ty}
    (h : T.Stands w t u) : Agree T program c T.Stands w (propertyOfMember ask name t)
      (propertyOfMember (T.ask c.rank) name u) := by
  refine (agree_propertyHolder? H h).bind fun w₁ a b _ hholder => ?_
  cases hholder with
  | none => exact agree_pure (.primitive .any)
  | some hholder =>
    refine (agree_membersOf? hask hholder).bind fun w₂ a b _ hmembers => ?_
    cases hmembers with
    | none => exact agree_pure (.primitive .any)
    | some hshape => exact agree_pure ((hshape.1.lookup name).or hshape.2).getD

theorem agree_propertyOf (H : T.Holds program) (name : String) {t u : Ty} (h : T.Stands w t u) :
    Agree T program c T.Stands w (propertyOf ask name t) (propertyOf (T.ask c.rank) name u) := by
  have member {w' : World} {t u : Ty} (ht : T.Stands w' t u) :=
    agree_propertyOfMember hask H name ht
  cases h with
  | union hl h =>
    exact (agree_mapM_types h.present fun _ _ _ _ ht => member ht).bind fun _ _ _ _ hts => agree_join hts
  | array h => exact member (.array h)
  | tuple h => exact member (.tuple h)
  | textLiteral value => exact member (.textLiteral value)
  | numberLiteral value => exact member (.numberLiteral value)
  | truthLiteral value => exact member (.truthLiteral value)
  | primitive p => exact member (.primitive p)
  | record hi hj hp hx => exact member (.record hi hj hp hx)
  | declared hi hj => exact member (.declared hi hj)
  | function hp h => exact member (.function hp h)

theorem agree_followStep (H : T.Holds program) (step : Step) {t u : Ty} (h : T.Stands w t u) :
    Agree T program c T.Stands w (followStep ask t step) (followStep (T.ask c.rank) u step) := by
  have rest : Agree T program c T.Stands w (followStep ask t .restProperties)
      (followStep (T.ask c.rank) u .restProperties) := by
    cases h with
    | array h => exact agree_pure (.array h)
    | tuple h => exact agree_pure (.tuple h)
    | _ => exact agree_pure (.primitive .any)
  cases step with
  | property key => exact agree_propertyOf hask H key h
  | element index => exact agree_elementOf (some index) h
  | restProperties => exact rest
  | restElements index => exact rest

theorem agree_followPath (H : T.Holds program) (path : List Step) {t u : Ty} (h : T.Stands w t u) :
    Agree T program c T.Stands w (followPath ask t path) (followPath (T.ask c.rank) u path) := by
  induction path generalizing t u w with
  | nil => exact agree_pure h
  | cons step rest ih => exact (agree_followStep hask H step h).bind fun _ _ _ _ ht => ih ht

/-! ## Functions -/

theorem agree_widenedExpression (e : Node) :
    Agree T program c T.Stands w (ask (.expression e) >>= widened)
      (T.ask c.rank (.expression e) >>= widened) :=
  (hask.expression w e).bind fun _ _ _ _ h => agree_widened h

theorem agree_returnedType (value : Option Node) : Agree T program c T.Stands w
    (returnedType ask value) (returnedType (T.ask c.rank) value) := by
  cases value with
  | none => exact agree_pure (.primitive .void)
  | some e => exact agree_widenedExpression hask e

theorem agree_inferReturn (body : Node) : Agree T program c T.Stands w
    (inferReturn ask body) (inferReturn (T.ask c.rank) body) := by
  cases body with
  | block m statements =>
    simp only [inferReturn]
    cases returnedValues (.block m statements) with
    | nil => exact agree_pure (.primitive .void)
    | cons value values =>
      exact (agree_mapM (fun _ a _ => agree_returnedType hask a) _).bind fun _ _ _ _ h => agree_join h.1
  | _ => exact agree_widenedExpression hask _

theorem agree_declaredType {env env' : Env} (henv : T.StandNamed w env env')
    (type fallback : Option Node) : Agree T program c T.Stands w
      (declaredType ask env type fallback) (declaredType (T.ask c.rank) env' type fallback) := by
  cases type with
  | some type => exact hask.written w env env' type henv
  | none =>
    cases fallback with
    | some value => exact agree_widenedExpression hask value
    | none => exact agree_pure (.primitive .any)

theorem agree_signatureParams {env env' : Env} (henv : T.StandNamed w env env') (place : Nat)
    (params : List Node) : Agree T program c T.StandNamed w
      (signatureParams ask env place params) (signatureParams (T.ask c.rank) env' place params) := by
  induction params generalizing place w with
  | nil => exact agree_pure .nil
  | cons n rest ih =>
    cases n with
    | parameter m target type fallback isRest isOptional =>
      simp only [signatureParams]
      split
      · exact ih henv place
      · refine (agree_declaredType hask henv type fallback).bind fun w₁ t u hw₁ ht => ?_
        refine (ih (henv.mono hw₁) (place + 1)).bind fun w₂ ps qs hw₂ hps => ?_
        exact agree_pure (.cons (ht.mono hw₂) hps)
    | _ => exact ih henv place

theorem agree_signature {env env' : Env} (henv : T.StandNamed w env env') (params : List Node)
    (result body : Option Node) : Agree T program c T.Stands w
      (signature ask env params result body) (signature (T.ask c.rank) env' params result body) := by
  refine (agree_signatureParams hask henv 0 params).bind fun w₁ ps qs hw₁ hps => ?_
  have finish {x y : TypeM Ty} (hresult : Agree T program c T.Stands w₁ x y) :
      Agree T program c T.Stands w₁ (do return .function ps (← x)) (do return .function qs (← y)) :=
    hresult.bind fun _ _ _ hw₂ ht => agree_pure (.function (hps.mono hw₂) ht)
  cases result with
  | some type => exact finish (hask.written w₁ env env' type (henv.mono hw₁))
  | none =>
    cases body with
    | some body => exact finish (agree_inferReturn hask body)
    | none => exact finish (agree_pure (.primitive .any))

/-! ## Members -/

theorem agree_writtenMembers {env env' : Env} (henv : T.StandNamed w env env')
    {ps qs : List (String × Ty)} {ix jx : Option Ty} (hp : T.StandNamed w ps qs)
    (hx : T.StandIndex w ix jx) (members : List Node) : Agree T program c T.StandShape w
      (writtenMembers ask env ps ix members) (writtenMembers (T.ask c.rank) env' qs jx members) := by
  induction members generalizing w ps qs ix jx with
  | nil => exact agree_pure ⟨hp, hx⟩
  | cons n rest ih =>
    cases n with
    | propertySignature m name isOptional type =>
      refine (agree_declaredType hask henv type none).bind fun w₁ t u hw₁ ht => ?_
      exact ih (henv.mono hw₁) ((hp.mono hw₁).set ht name) (hx.mono hw₁)
    | methodSignature m name isOptional params result =>
      simp only [writtenMembers]
      rw [(hp.lookup name).isSome_eq]
      split
      · exact ih henv hp hx
      · refine (agree_signature hask henv params result none).bind fun w₁ t u hw₁ ht => ?_
        exact ih (henv.mono hw₁) ((hp.mono hw₁).set ht name) (hx.mono hw₁)
    | indexSignature m key type =>
      refine (hask.written w env env' key henv).bind fun w₁ t u hw₁ ht => ?_
      have henv₁ := henv.mono hw₁
      have hp₁ := hp.mono hw₁
      have hx₁ := hx.mono hw₁
      cases ht with
      | primitive p =>
        cases p with
        | string =>
          refine (hask.written w₁ env env' type henv₁).bind fun w₂ t u hw₂ ht => ?_
          exact ih (henv₁.mono hw₂) (hp₁.mono hw₂) (.some ht)
        | _ => exact ih henv₁ hp₁ hx₁
      | _ => exact ih henv₁ hp₁ hx₁
    | _ => exact ih henv hp hx

theorem agree_inheritedMembers {env env' : Env} (henv : T.StandNamed w env env')
    {ps qs : List (String × Ty)} {ix jx : Option Ty} (hp : T.StandNamed w ps qs)
    (hx : T.StandIndex w ix jx) (bases : List Node) : Agree T program c T.StandShape w
      (inheritedMembers ask env ps ix bases) (inheritedMembers (T.ask c.rank) env' qs jx bases) := by
  induction bases generalizing w ps qs ix jx with
  | nil => exact agree_pure ⟨hp, hx⟩
  | cons base rest ih =>
    refine (hask.written w env env' base henv).bind fun w₁ t u hw₁ ht => ?_
    refine (agree_membersOf? hask ht).bind fun w₂ a b hw₂ hmembers => ?_
    have hw := hw₁.trans hw₂
    cases hmembers with
    | none => exact ih (henv.mono hw) (hp.mono hw) (hx.mono hw)
    | some hshape =>
      exact ih (henv.mono hw) ((hp.mono hw).merge hshape.1) (hshape.2.or (hx.mono hw))

theorem agree_interfaceMembers {env env' : Env} (henv : T.StandNamed w env env')
    {ps qs : List (String × Ty)} {ix jx : Option Ty} (hp : T.StandNamed w ps qs)
    (hx : T.StandIndex w ix jx) (declarations : List Node) : Agree T program c T.StandShape w
      (interfaceMembers ask env ps ix declarations)
      (interfaceMembers (T.ask c.rank) env' qs jx declarations) := by
  induction declarations generalizing w ps qs ix jx with
  | nil => exact agree_pure ⟨hp, hx⟩
  | cons n rest ih =>
    cases n with
    | interfaceDeclaration m modifiers name params heritage members =>
      refine (agree_inheritedMembers hask henv hp hx heritage).bind fun w₁ a b hw₁ hinherited => ?_
      refine (agree_writtenMembers hask (henv.mono hw₁) .nil .none members).bind
        fun w₂ a' b' hw₂ hown => ?_
      exact ih ((henv.mono hw₁).mono hw₂) ((hinherited.1.mono hw₂).merge hown.1)
        (hown.2.or (hinherited.2.mono hw₂))
    | _ => exact ih henv hp hx

theorem agree_symbolProperties (names : Names) : Agree T program c T.StandNamed w
    (symbolProperties ask names) (symbolProperties (T.ask c.rank) names) := by
  induction names generalizing w with
  | nil => exact agree_pure .nil
  | cons entry rest ih =>
    refine (hask.symbol w entry.2).bind fun w₁ t u hw₁ ht => ih.bind fun w₂ ps qs hw₂ hps => ?_
    exact agree_pure (.cons (ht.mono hw₂) hps)

theorem agree_findMembers {source listed : MemberSource}
    (h : SameSource w.reading T.reading source listed) : Agree T program c T.StandShape w
      (findMembers ask source) (findMembers (T.ask c.rank) listed) := by
  refine agree_read_bind ?_
  cases h with
  | space id =>
    exact (agree_symbolProperties hask _).bind fun _ _ _ _ hp => agree_pure ⟨hp, .none⟩
  | file id =>
    exact (agree_symbolProperties hask _).bind fun _ _ _ _ hp => agree_pure ⟨hp, .none⟩
  | interfaces henv => exact agree_interfaceMembers hask henv .nil .none _

/-! ## Type expressions -/

theorem agree_intersection (count : Nat) {ps qs : List (String × Ty)} {ix jx : Option Ty}
    (hp : T.StandNamed w ps qs) (hx : T.StandIndex w ix jx) {ts us : List Ty}
    (h : T.StandAll w ts us) : Agree T program c T.Stands w
      (intersection ask count ps ix ts) (intersection (T.ask c.rank) count qs jx us) := by
  induction ts generalizing w ps qs ix jx us with
  | nil => cases h; exact agree_newRecord hp hx
  | cons t ts ih =>
    cases h with
    | @cons _ u _ us ht hts =>
      refine (agree_membersOf? hask ht).bind fun w₁ a b hw₁ hmembers => ?_
      cases hmembers with
      | some hshape =>
        exact ih ((hp.mono hw₁).merge hshape.1) (hshape.2.or (hx.mono hw₁)) (hts.mono hw₁)
      | none =>
        dsimp only
        split
        · exact agree_pure (ht.mono hw₁)
        · exact agree_pure (.primitive .any)

end

/-- What a reference that is neither a type parameter nor an array names, with its arguments typed. -/
def originType (ask : Asker) (nodeId : Nat) (args : List Ty) : TypeM Ty := do
  match (← read).origin? nodeId with
  | some (.symbol id) => namedType ask id args
  | _ => return .any

/-- The type of an element that no property is named for. -/
def indexedType (ask : Asker) (targetType keyType : Ty) : TypeM Ty := do
  match ← membersOf? ask targetType with
  | some (_, index) => return index.getD .any
  | none =>
    match keyType with
    | .numberLiteral x => elementOf (indexOf? x) targetType
    | _ => elementOf none targetType

section
variable {ask : Asker} (hask : Asks T program c ask)
include hask

theorem agree_referenced (H : T.Holds program) {env env' : Env} (henv : T.StandNamed w env env')
    {m : Mark} {name : String} {args : List Node}
    (halias : aliasUse? program env' (.typeReference m name args) = none) :
    Agree T program c T.Stands w (referenced ask env m.id name args)
      (referenced (T.ask c.rank) env' m.id name args) := by
  have hlookup := henv.lookup name
  unfold referenced
  simp only [aliasUse?] at halias
  revert hlookup halias
  generalize env.lookup name = a, env'.lookup name = b
  intro hlookup halias
  cases hlookup with
  | some h => exact agree_pure h
  | none =>
    -- From here on a single argument of `Array` is out of the way.
    have named {w' : World} {ts us : List Ty} (h : T.StandAll w' ts us)
        (hplain : ¬ (args.length = 1 ∧ (name == "Array" || name == "ReadonlyArray") = true)) :
        Agree T program c T.Stands w' (originType ask m.id ts)
          (originType (T.ask c.rank) m.id us) := by
      rw [if_neg (by simpa using hplain)] at halias
      refine agree_read_bind ?_
      cases ho : program.origin? m.id with
      | none => exact agree_pure (.primitive .any)
      | some target =>
        cases target with
        | file id => exact agree_pure (.primitive .any)
        | symbol id =>
          refine agree_namedType H (fun m modifiers name params type hk hd => ?_) h ask _
          simp only [ho, hk, hd] at halias
          cases halias
    refine (agree_mapM (fun w' n hw => hask.written w' env env' n (henv.mono hw)) args).bind
      fun w₁ ts us hw₁ h => ?_
    obtain ⟨h, hlength⟩ := h
    cases h with
    | nil => exact named .nil fun hs => by simp [hs.1] at hlength
    | cons hfirst hrest =>
      cases hrest with
      | nil =>
        dsimp only
        split
        · exact agree_pure (.array hfirst)
        · exact named (.cons hfirst .nil) fun hs => absurd hs.2 ‹_›
      | cons hsecond hrest =>
        exact named (.cons hfirst (.cons hsecond hrest)) fun hs => by simp [hs.1] at hlength

theorem agree_writtenType (H : T.Holds program) {env env' : Env} (henv : T.StandNamed w env env')
    {type : Node} (halias : aliasUse? program env' type = none) : Agree T program c T.Stands w
      (writtenType ask env type) (writtenType (T.ask c.rank) env' type) := by
  have written {w' : World} (hw : w.Le w') (n : Node) := hask.written w' env env' n (henv.mono hw)
  have all (types : List Node) := agree_mapM (fun w' n hw => written hw n) types
  cases type with
  | keywordType m name => exact agree_pure (.primitive _)
  | literalType m value =>
    cases value with
    | str value => exact agree_pure (.textLiteral value)
    | num value => exact agree_pure (.numberLiteral value)
    | bool value => exact agree_pure (.truthLiteral value)
  | arrayType m element =>
    exact (written (.refl w) element).bind fun _ _ _ _ h => agree_pure (.array h)
  | tupleType m elements => exact (all elements).bind fun _ _ _ _ h => agree_pure (.tuple h.1)
  | unionType m types => exact (all types).bind fun _ _ _ _ h => agree_join h.1
  | intersectionType m types =>
    refine (all types).bind fun w₁ ts us _ h => ?_
    obtain ⟨h, -⟩ := h
    rw [h.length_eq]
    exact agree_intersection hask _ .nil .none h
  | functionType m params result => exact agree_signature hask henv params (some result) none
  | typeLiteral m members =>
    exact (agree_writtenMembers hask henv .nil .none members).bind fun _ _ _ _ h =>
      agree_newRecord h.1 h.2
  | typeOperator m operator type =>
    simp only [writtenType]
    split
    · exact agree_pure (.primitive .string)
    · exact written (.refl w) type
  | typeQuery m e => exact hask.expression w e
  | typeReference m name args => exact agree_referenced hask H henv halias
  | _ => exact agree_pure (.primitive .any)

/-! ## Expressions -/

theorem agree_binaryType (left : Node) (operator : String) (right : Node) :
    Agree T program c T.Stands w (binaryType ask left operator right)
      (binaryType (T.ask c.rank) left operator right) := by
  unfold binaryType
  split
  · exact hask.expression w right
  split
  · exact agree_pure (.primitive .boolean)
  split
  · exact agree_pure (.primitive .number)
  refine (hask.expression w left).bind fun w₁ t u _ ht => ?_
  exact (hask.expression w₁ right).bind fun _ _ _ hw ht' =>
    agree_combinedType operator (ht.mono hw) ht'

theorem agree_identType (i : Ident) : Agree T program c T.Stands w
    (identType ask i) (identType (T.ask c.rank) i) := by
  refine agree_read_bind ?_
  split
  · exact hask.symbol w _
  · split
    · exact agree_pure (.primitive .undefined)
    · exact agree_pure (.primitive .number)
    · exact agree_pure (.primitive .number)
    · exact agree_pure (.primitive .any)

theorem agree_elementAccessType (H : T.Holds program) (target key : Node) :
    Agree T program c T.Stands w (elementAccessType ask target key)
      (elementAccessType (T.ask c.rank) target key) := by
  refine (hask.expression w target).bind fun w₁ t u _ ht => ?_
  refine (hask.expression w₁ key).bind fun w₂ k l hw₂ hk => ?_
  have ht := ht.mono hw₂
  have byIndex : Agree T program c T.Stands w₂ (indexedType ask t k)
      (indexedType (T.ask c.rank) u l) := by
    refine (agree_membersOf? hask ht).bind fun w₃ a b hw₃ hmembers => ?_
    cases hmembers with
    | some hshape => exact agree_pure hshape.2.getD
    | none =>
      have ht := ht.mono hw₃
      cases hk with
      | numberLiteral x => exact agree_elementOf (indexOf? x) ht
      | _ => exact agree_elementOf none ht
  cases hk with
  | textLiteral name =>
    cases ht with
    | record hi hj hp hx => exact agree_propertyOf hask H name (.record hi hj hp hx)
    | declared hi hj => exact agree_propertyOf hask H name (.declared hi hj)
    | union hl h => exact agree_propertyOf hask H name (.union hl h)
    | _ => exact byIndex
  | _ => exact byIndex

theorem agree_arrayItemType (n : Node) : Agree T program c T.Stands w
    (arrayItemType ask n) (arrayItemType (T.ask c.rank) n) := by
  cases n with
  | spread m e => exact (hask.expression w e).bind fun _ _ _ _ h => agree_elementOf none h
  | _ => exact agree_widenedExpression hask _

theorem agree_arrayLiteralType (elements : List Node) : Agree T program c T.Stands w
    (arrayLiteralType ask elements) (arrayLiteralType (T.ask c.rank) elements) := by
  cases elements with
  | nil => exact agree_pure (.array (.primitive .any))
  | cons n rest =>
    refine (agree_mapM (fun _ n _ => agree_arrayItemType hask n) _).bind fun _ _ _ _ h => ?_
    exact (agree_join h.1).bind fun _ _ _ _ ht => agree_pure (.array ht)

theorem agree_literalProperties {ps qs : List (String × Ty)} (hp : T.StandNamed w ps qs)
    (properties : List Node) : Agree T program c T.StandNamed w
      (literalProperties ask ps properties) (literalProperties (T.ask c.rank) qs properties) := by
  induction properties generalizing w ps qs with
  | nil => exact agree_pure hp
  | cons n rest ih =>
    cases n with
    | property m name value =>
      refine (agree_orNumeralFault (R := fun _ a b => a = b) fun _ => rfl).bind fun w₁ a b hw h => ?_
      cases (show a = b from h)
      cases a with
      | none => exact ih (hp.mono hw)
      | some key =>
        refine (hask.expression w₁ value).bind fun w₂ t u hw₂ ht => ?_
        refine (agree_widened ht).bind fun w₃ t u hw₃ ht => ?_
        exact ih (((hp.mono hw).mono (hw₂.trans hw₃)).set ht key)
    | shorthand m name fallback =>
      refine (hask.expression w (.ident name)).bind fun w₂ t u hw₂ ht => ?_
      refine (agree_widened ht).bind fun w₃ t u hw₃ ht => ?_
      exact ih ((hp.mono (hw₂.trans hw₃)).set ht name.name)
    | method m name params body result _ _ _ =>
      refine (agree_orNumeralFault (R := fun _ a b => a = b) fun _ => rfl).bind fun w₁ a b hw h => ?_
      cases (show a = b from h)
      cases a with
      | none => exact ih (hp.mono hw)
      | some key =>
        refine (agree_signature hask .nil params result (some body)).bind fun w₂ t u hw₂ ht => ?_
        exact ih (((hp.mono hw).mono hw₂).set ht key)
    | spreadProperty m e =>
      refine (hask.expression w e).bind fun w₁ t u hw₁ ht => ?_
      refine (agree_membersOf? hask ht).bind fun w₂ a b hw₂ hmembers => ?_
      have hp := hp.mono (hw₁.trans hw₂)
      cases hmembers with
      | none => exact ih hp
      | some hshape => exact ih (hp.merge hshape.1)
    | _ => exact ih hp

theorem agree_inferExpression (H : T.Holds program) (e : Node) : Agree T program c T.Stands w
    (inferExpression ask e) (inferExpression (T.ask c.rank) e) := by
  cases e with
  | number m text =>
    refine (agree_orNumeralFault (R := fun _ a b => a = b) fun _ => rfl).bind fun w₁ a b hw h => ?_
    cases (show a = b from h)
    exact agree_pure (.numberLiteral a)
  | string m value => exact agree_pure (.textLiteral value)
  | plainTemplate m text => exact agree_pure (.textLiteral text)
  | template | typeOf => exact agree_pure (.primitive .string)
  | boolean m value => exact agree_pure (.truthLiteral value)
  | null => exact agree_pure (.primitive .null)
  | ident i => exact agree_identType hask i
  | parenthesized m e => exact hask.expression w e
  | satisfiesType m e type => exact hask.expression w e
  | awaitOf m e => exact hask.expression w e
  | spread m e => exact hask.expression w e
  | asType m e type =>
    cases type with
    | typeReference m name args =>
      simp only [inferExpression]
      split
      · exact hask.expression w e
      · exact hask.written w [] [] _ .nil
    | _ => exact hask.written w [] [] _ .nil
  | nonNull m e => exact (hask.expression w e).bind fun _ _ _ _ h => agree_withoutNullish h
  | voidOf => exact agree_pure (.primitive .undefined)
  | deleteOf => exact agree_pure (.primitive .boolean)
  | prefixUnary m operator operand => exact agree_prefixType operator operand
  | postfixUnary => exact agree_pure (.primitive .number)
  | binary m left operator right => exact agree_binaryType hask left operator right
  | conditional m test whenTrue whenFalse =>
    refine (hask.expression w whenTrue).bind fun w₁ t u _ ht => ?_
    exact (hask.expression w₁ whenFalse).bind fun _ _ _ hw ht' =>
      agree_join (.cons (ht.mono hw) (.cons ht' .nil))
  | call m callee args isOptional =>
    exact (hask.expression w callee).bind fun _ _ _ _ h => agree_resultOf h
  | propertyAccess m target name isOptional =>
    exact (hask.expression w target).bind fun _ _ _ _ h => agree_propertyOf hask H name.name h
  | elementAccess m target key isOptional => exact agree_elementAccessType hask H target key
  | arrow m params body result _ _ => exact agree_signature hask .nil params result (some body)
  | function m name params body result _ _ _ =>
    exact agree_signature hask .nil params result (some body)
  | array m elements => exact agree_arrayLiteralType hask elements
  | object m properties =>
    exact (agree_literalProperties hask .nil properties).bind fun _ _ _ _ h =>
      agree_newRecord h .none
  | _ => exact agree_pure (.primitive .any)

/-! ## Symbols -/

theorem agree_variableType (s : Symbol) (type value : Option Node) : Agree T program c T.Stands w
    (variableType ask s type value) (variableType (T.ask c.rank) s type value) := by
  cases type with
  | some type => exact hask.written w [] [] type .nil
  | none =>
    simp only [variableType]
    cases s.iterated with
    | some items => exact (hask.expression w items).bind fun _ _ _ _ h => agree_elementOf none h
    | none =>
      cases value with
      | none => exact agree_pure (.primitive .any)
      | some value =>
        refine (hask.expression w value).bind fun w₁ t u _ ht => ?_
        split
        · exact agree_pure ht
        · exact agree_widened ht

theorem agree_inferSymbol (H : T.Holds program) (id : SymbolId) : Agree T program c T.Stands w
    (inferSymbol ask id) (inferSymbol (T.ask c.rank) id) := by
  have found (s : Symbol) (type value : Option Node) : Agree T program c T.Stands w
      (do followPath ask (← variableType ask s type value) s.path)
      (do followPath (T.ask c.rank) (← variableType (T.ask c.rank) s type value) s.path) :=
    (agree_variableType hask s type value).bind fun _ _ _ _ h => agree_followPath hask H _ h
  refine agree_read_bind ?_
  dsimp only
  split
  · split
    · exact agree_newDeclared (.inr (.inl ⟨_, rfl⟩)) fun w hw _ h => H.source hw (.file _) h
    · exact hask.symbol w _
    · exact agree_pure (.primitive .any)
  · exact found _ _ _
  · exact found _ _ _
  · exact found _ _ _
  · exact (agree_declaredType hask .nil _ _).bind fun _ _ _ _ h => agree_followPath hask H _ h
  · exact agree_signature hask .nil _ _ _
  · exact agree_signature hask .nil _ _ _
  · exact agree_newDeclared (.inl ⟨id, rfl⟩) fun w hw _ h => H.source hw (.space id) h
  · exact hask.expression w _
  · exact agree_pure (.primitive .any)

end

end ScriptBridge.Typing

import ScriptBridge.Conversion.Module
import ScriptBridge.Proofs.AiScript.Like
import ScriptBridge.Proofs.Conversion.Results

/-!
# Two conversions side by side

`w.Alike R m m'`: in the setting `w`, the steps `m` and `m'` either give values that are related by `R`
and leave the same progress, or stop with the same fault. A setting says which nodes are converted,
which names may be referred to, and what holds of the progress all the time, so a step that is compared
with itself shows what its results have in common.

* `Setting`: what is relied on.
* `Setting.Alike.bind`, `Setting.Alike.next`: one step after another.
* `Setting.asking_alike`, `Setting.freshName_alike`, ...: steps that do not convert.
-/

namespace ScriptBridge.Conversion

open TypeScript
open AiScript (Like LikeAll)

/-- Whether a statement enters names into the export table. -/
def isExport : Node → Bool
  | .exportDeclaration .. | .exportAssignment .. => true
  | n => hasModifier n.modifiers "export"

theorem isExport_of_modifier {n : Node} (h : hasModifier n.modifiers "export" = true) :
    isExport n = true := by
  unfold isExport
  split
  · rfl
  · rfl
  · exact h

/-- What conversions of one source rely on. -/
structure Setting where
  context : Context
  /-- What holds of the progress all the time. -/
  steady : Progress → Prop
  /-- The names that may be referred to. -/
  known : String → Prop
  /-- The nodes that are converted. -/
  fits : Node → Prop
  fits_children : ∀ {n}, fits n → ∀ m ∈ n.children, fits m
  fits_withoutExport : ∀ {n}, fits n → fits (withoutExport n)
  known_ident : ∀ {i}, fits (.ident i) → known i.name
  known_host : ∀ {space} name, hostSpaces.contains space = true → known (space ++ ":" ++ name)
  known_module : ∀ {m clause specifierMark specifier name},
    fits (.importDeclaration m clause specifierMark specifier) →
    context.moduleName specifier m.span = .ok name → known name
  known_generated : ∀ {s}, steady s → known (generatedName (s.generated + 1))
  steady_generated : ∀ {s}, steady s → steady { s with generated := s.generated + 1 }
  steady_memory : ∀ {s} memory, steady s → steady { s with memory }
  steady_export : ∀ {n s} name {localName}, fits n → isExport n = true → known localName →
    steady s → steady { s with exports := Assoc.set name localName s.exports }

variable {α β γ δ : Type}

/-- Runs that end in the same way, if they end well with related values and a steady progress. -/
inductive Agree (R : α → β → Prop) (steady : Progress → Prop) :
    EStateM.Result ConvertFault Progress α → EStateM.Result ConvertFault Progress β → Prop
  | ok {a : α} {b : β} {s : Progress} (related : R a b) (isSteady : steady s) :
      Agree R steady (.ok a s) (.ok b s)
  | error {fault : ConvertFault} {s : Progress} : Agree R steady (.error fault s) (.error fault s)

theorem Agree.eq {steady : Progress → Prop} {r r' : EStateM.Result ConvertFault Progress α}
    (h : Agree Eq steady r r') : r = r' := by
  cases h with
  | ok related => rw [related]
  | error => rfl

namespace Setting

variable {w : Setting} {R : α → β → Prop} {m : ConvertM α} {m' : ConvertM β}

/-- Steps that end in the same way from every steady progress. -/
def Alike (w : Setting) (R : α → β → Prop) (m : ConvertM α) (m' : ConvertM β) : Prop :=
  ∀ s, w.steady s → Agree R w.steady (m w.context s) (m' w.context s)

/-- What is shown of a step that is compared with itself holds of every value that it gives. -/
theorem Alike.ok {T : α → α → Prop} (hm : w.Alike T m m) {s s' : Progress} {a : α} (hs : w.steady s)
    (h : m w.context s = .ok a s') : T a a ∧ w.steady s' := by
  have hr := hm s hs
  rw [h] at hr
  cases hr with
  | ok related isSteady => exact ⟨related, isSteady⟩

theorem alike_pure {a : α} {b : β} (h : R a b) : w.Alike R (pure a) (pure b) :=
  fun _ hs => .ok h hs

theorem alike_throw (fault : ConvertFault) : w.Alike R (throw fault) (throw fault) :=
  fun _ _ => .error

theorem Alike.bind {f : α → ConvertM γ} {f' : β → ConvertM δ} {T : γ → δ → Prop}
    (hm : w.Alike R m m') (hf : ∀ a b, R a b → w.Alike T (f a) (f' b)) :
    w.Alike T (m >>= f) (m' >>= f') := by
  intro s hs
  have hr := hm s hs
  simp only [Bind.bind, ReaderT.bind, EStateM.bind]
  generalize m w.context s = r, m' w.context s = r' at hr
  cases hr with
  | ok related isSteady => exact hf _ _ related _ isSteady
  | error => exact .error

theorem Alike.map {f : α → γ} {f' : β → δ} {T : γ → δ → Prop} (hm : w.Alike R m m')
    (hf : ∀ a b, R a b → T (f a) (f' b)) : w.Alike T (f <$> m) (f' <$> m') :=
  hm.bind fun a b hab => alike_pure (hf a b hab)

theorem Alike.of_map {f : α → γ} {T : γ → β → Prop} (h : w.Alike T (f <$> m) m') :
    w.Alike (fun a b => T (f a) b) m m' := by
  intro s hs
  have hr : Agree T w.steady (EStateM.map f (m w.context) s) (m' w.context s) := h s hs
  unfold EStateM.map at hr
  generalize m w.context s = r, m' w.context s = r' at hr
  cases r with
  | ok a t =>
    cases hr with
    | ok related isSteady => exact .ok related isSteady
  | error fault t =>
    cases hr
    exact .error

/-- A step that both conversions make, followed by what goes on with its value. -/
theorem Alike.next {k : ConvertM α} {f : α → ConvertM γ} {f' : α → ConvertM δ} {T : γ → δ → Prop}
    (hk : w.Alike Eq k k) (hf : ∀ a, w.Alike T (f a) (f' a)) : w.Alike T (k >>= f) (k >>= f') :=
  hk.bind fun a _ hab => hab ▸ hf a

theorem alike_read : w.Alike Eq (read : ConvertM Context) read :=
  fun _ hs => .ok rfl hs

theorem alike_get : w.Alike (fun s s' => s = s' ∧ w.steady s) get get :=
  fun _ hs => .ok ⟨rfl, hs⟩ hs

theorem alike_refuse (cause : Cause) (n : Node) : w.Alike R (refuse cause n) (refuse cause n) :=
  alike_read.next fun _ => alike_throw _

/-- A refusal followed by anything. -/
theorem alike_refuse_bind (cause : Cause) (n : Node) {f : α → ConvertM γ} {f' : β → ConvertM δ}
    {T : γ → δ → Prop} : w.Alike T (refuse cause n >>= f) (refuse cause n >>= f') :=
  Alike.bind (R := fun _ _ => False) (alike_refuse cause n) fun _ _ h => h.elim

/-- A check that refuses a node, followed by what goes on if it is passed. -/
theorem alike_guard {b : Prop} [Decidable b] {cause : Cause} {n : Node} {f : Unit → ConvertM γ}
    {f' : Unit → ConvertM δ} {T : γ → δ → Prop} (h : w.Alike T (f ()) (f' ())) :
    w.Alike T (if b then refuse cause n >>= f else f ())
      (if b then refuse cause n >>= f' else f' ()) := by
  split
  · exact alike_refuse_bind cause n
  · exact h

/-! ## Steps that do not convert -/

theorem asking_alike (question : Typing.TypeM α) :
    w.Alike Eq (asking question) (asking question) := by
  unfold asking
  refine alike_read.next fun context => ?_
  refine alike_get.bind ?_
  rintro s _ ⟨rfl, hs⟩
  split
  · exact fun _ _ => .ok rfl (w.steady_memory _ hs)
  · exact fun _ _ => .error

theorem orNumeralFault_alike (x : Except NumeralFault α) :
    w.Alike Eq (orNumeralFault x) (orNumeralFault x) := by
  unfold orNumeralFault
  split
  · exact alike_pure rfl
  · exact alike_throw _

theorem checkName_alike (i : Ident) : w.Alike Eq (checkName i) (checkName i) := by
  unfold checkName
  split
  · exact alike_refuse _ _
  · exact alike_pure rfl

theorem isTypeName_alike (i : Ident) : w.Alike Eq (isTypeName i) (isTypeName i) :=
  alike_read.next fun _ => alike_pure rfl

theorem startsFromHost_alike (n : Node) : w.Alike Eq (startsFromHost n) (startsFromHost n) := by
  unfold startsFromHost
  split
  · exact alike_read.next fun _ => alike_pure rfl
  · exact alike_pure rfl

theorem refuseType_alike (cause : String → Cause) (t : Typing.Ty) (n : Node) :
    w.Alike Eq (refuseType cause t n) (refuseType cause t n) :=
  (asking_alike _).next fun _ => alike_refuse _ _

theorem checkCondition_alike (e : Node) : w.Alike Eq (checkCondition e) (checkCondition e) := by
  refine (asking_alike _).next fun t => ?_
  split
  · exact refuseType_alike _ _ _
  · exact alike_pure rfl

theorem checkIterable_alike (e : Node) : w.Alike Eq (checkIterable e) (checkIterable e) := by
  unfold checkIterable
  split
  · exact alike_pure rfl
  · refine (asking_alike _).next fun t => ?_
    split
    · exact refuseType_alike _ _ _
    · exact alike_pure rfl

theorem checkElementAccess_alike (target key : Node) :
    w.Alike Eq (checkElementAccess target key) (checkElementAccess target key) := by
  refine (asking_alike _).next fun t => ?_
  split
  · exact alike_pure rfl
  refine (asking_alike _).next fun k => ?_
  split
  · split
    · exact refuseType_alike _ _ _
    · exact alike_pure rfl
  split
  · split
    · exact refuseType_alike _ _ _
    · exact alike_pure rfl
  · exact refuseType_alike _ _ _

theorem checkElement_alike (n : Node) (fallback : Option Node) (isRest : Bool) :
    w.Alike Eq (checkElement n fallback isRest) (checkElement n fallback isRest) := by
  unfold checkElement
  refine alike_guard ?_
  split
  · exact alike_refuse _ _
  · exact alike_pure rfl

theorem patternKey_alike (key : Node) : w.Alike Eq (patternKey key) (patternKey key) := by
  refine (orNumeralFault_alike _).next fun text => ?_
  split
  · exact alike_pure rfl
  · exact alike_refuse _ _

theorem literalKey_alike (n key : Node) : w.Alike Eq (literalKey n key) (literalKey n key) := by
  refine (orNumeralFault_alike _).next fun text => ?_
  split
  · exact alike_pure rfl
  · exact alike_refuse _ _

/-! ## Steps that give or enter names -/

/-- Both give the same known name. -/
def SameName (w : Setting) (name name' : String) : Prop :=
  name = name' ∧ w.known name

theorem freshName_alike : w.Alike w.SameName freshName freshName :=
  fun _ hs => .ok ⟨rfl, w.known_generated hs⟩ (w.steady_generated hs)

theorem moduleName_alike {m : Mark} {clause : Option Node} {specifierMark : Mark}
    {specifier : String} (h : w.fits (.importDeclaration m clause specifierMark specifier)) :
    w.Alike w.SameName (moduleName specifier m.span) (moduleName specifier m.span) := by
  unfold moduleName
  refine Alike.bind (R := fun c c' => c = c' ∧ c = w.context) (fun _ hs => .ok ⟨rfl, rfl⟩ hs) ?_
  rintro c _ ⟨rfl, rfl⟩
  split
  · exact alike_pure ⟨rfl, w.known_module h ‹_›⟩
  · exact alike_throw _

theorem addExport_alike {n : Node} {name localName : String} (hn : w.fits n)
    (he : isExport n = true) (hl : w.known localName) :
    w.Alike Eq (addExport name localName) (addExport name localName) :=
  fun _ hs => .ok rfl (w.steady_export name hn he hl hs)

end Setting

end ScriptBridge.Conversion

import ScriptBridge.Data.Outcome
import ScriptBridge.Proofs.AiScript.Layout
import ScriptBridge.Proofs.AiScript.Printable

/-!
# Conditions on all nodes of a tree

A condition holds everywhere in a list if it holds everywhere in each member, and two conditions that
each hold everywhere hold together. Printing tells one of them: what has a text is finite everywhere.

* `everywhere_zip`: what two conditions tell at a related place.
* `everywhereAll_and`, `formed_relocate`: both at the same place, and the right form at another one.
* `finite_of_text`, `finite_of_print`: what can be printed is finite.
-/

namespace ScriptBridge.AiScript

variable {C D E : Site → Node → Prop} {s : Site}

/-! ## Lists of nodes -/

theorem everywhereAll_iff {ns : List Node} :
    EverywhereAll C s ns ↔ ∀ n ∈ ns, Everywhere C s n := by
  induction ns with
  | nil => simp [EverywhereAll]
  | cons n ns ih => rw [EverywhereAll, ih, List.forall_mem_cons]

theorem everywhereEntries_iff {es : List (String × Node)} :
    EverywhereEntries C s es ↔ ∀ e ∈ es, Everywhere C s e.2 := by
  induction es with
  | nil => simp [EverywhereEntries]
  | cons e es ih => rw [EverywhereEntries, ih, List.forall_mem_cons]

/-- Texts of a template are left alone. -/
theorem everywhereParts_cons {n : Node} {ns : List Node} :
    EverywhereParts C s (n :: ns) ↔
      (n.isStr = false → Everywhere C ⟨.expression, true⟩ n) ∧ EverywhereParts C s ns := by
  cases n <;> simp [EverywhereParts, Node.isStr]

theorem everywhereParts_of_forall {ns : List Node}
    (h : ∀ n ∈ ns, Everywhere C ⟨.expression, true⟩ n) : EverywhereParts C s ns := by
  induction ns with
  | nil => trivial
  | cons n ns ih =>
    obtain ⟨hn, hns⟩ := List.forall_mem_cons.mp h
    exact everywhereParts_cons.mpr ⟨fun _ => hn, ih hns⟩

/-! ## Two conditions at once -/

/-- Two conditions tell a third one at related places, and places inside related nodes are related. -/
structure Zips (R : Site → Site → Prop) (C D E : Site → Node → Prop) : Prop where
  node : ∀ {s s'} n, R s s' → C s n → D s n → E s' n
  operand : ∀ {s s'}, R s s' → R s.operand s'.operand
  statement : ∀ {s s'}, R s s' → R s.statement s'.statement
  body : ∀ {s s'}, R s s' → R s.body s'.body
  part : R ⟨.expression, true⟩ ⟨.expression, true⟩

section
variable {R : Site → Site → Prop}

mutual
/-- What two conditions on a node tell of it at a related place holds everywhere if both do. -/
theorem everywhere_zip (hz : Zips R C D E) {s s' : Site} (hs : R s s') : (n : Node) →
    Everywhere C s n → Everywhere D s n → Everywhere E s' n
  | .tmpl _ parts, hc, hd => ⟨hz.node _ hs hc.1 hd.1, zipParts hz parts hc.2 hd.2⟩
  | .arr _ items, hc, hd => ⟨hz.node _ hs hc.1 hd.1, zipAll hz (hz.operand hs) items hc.2 hd.2⟩
  | .obj _ entries, hc, hd => ⟨hz.node _ hs hc.1 hd.1, zipEntries hz (hz.operand hs) entries hc.2 hd.2⟩
  | .prop _ target _, hc, hd => ⟨hz.node _ hs hc.1 hd.1, everywhere_zip hz (hz.operand hs) target hc.2 hd.2⟩
  | .index _ target key, hc, hd =>
    ⟨hz.node _ hs hc.1 hd.1, everywhere_zip hz (hz.operand hs) target hc.2.1 hd.2.1,
      everywhere_zip hz (hz.operand hs) key hc.2.2 hd.2.2⟩
  | .call _ target args, hc, hd =>
    ⟨hz.node _ hs hc.1 hd.1, everywhere_zip hz (hz.operand hs) target hc.2.1 hd.2.1,
      zipAll hz (hz.operand hs) args hc.2.2 hd.2.2⟩
  | .unary _ _ operand, hc, hd =>
    ⟨hz.node _ hs hc.1 hd.1, everywhere_zip hz (hz.operand hs) operand hc.2 hd.2⟩
  | .binary _ _ left right, hc, hd =>
    ⟨hz.node _ hs hc.1 hd.1, everywhere_zip hz (hz.operand hs) left hc.2.1 hd.2.1,
      everywhere_zip hz (hz.operand hs) right hc.2.2 hd.2.2⟩
  | .fn _ params body, hc, hd =>
    ⟨hz.node _ hs hc.1 hd.1, zipParams hz (hz.operand hs) params hc.2.1 hd.2.1,
      zipAll hz (hz.statement hs) body hc.2.2 hd.2.2⟩
  | .block _ statements, hc, hd =>
    ⟨hz.node _ hs hc.1 hd.1, zipAll hz (hz.statement hs) statements hc.2 hd.2⟩
  | .cond _ test body branches otherwise, hc, hd =>
    ⟨hz.node _ hs hc.1 hd.1, everywhere_zip hz (hz.operand hs) test hc.2.1 hd.2.1,
      everywhere_zip hz (hz.body hs) body hc.2.2.1 hd.2.2.1,
      zipBranches hz hs branches hc.2.2.2.1 hd.2.2.2.1,
      zipOption hz (hz.body hs) otherwise hc.2.2.2.2 hd.2.2.2.2⟩
  | .select _ subject arms otherwise, hc, hd =>
    ⟨hz.node _ hs hc.1 hd.1, everywhere_zip hz (hz.operand hs) subject hc.2.1 hd.2.1,
      zipArms hz hs arms hc.2.2.1 hd.2.2.1, zipOption hz (hz.body hs) otherwise hc.2.2.2 hd.2.2.2⟩
  | .loop _ statements, hc, hd =>
    ⟨hz.node _ hs hc.1 hd.1, zipAll hz (hz.statement hs) statements hc.2 hd.2⟩
  | .each _ _ items body, hc, hd =>
    ⟨hz.node _ hs hc.1 hd.1, everywhere_zip hz (hz.operand hs) items hc.2.1 hd.2.1,
      everywhere_zip hz (hz.body hs) body hc.2.2 hd.2.2⟩
  | .define _ _ value _, hc, hd =>
    ⟨hz.node _ hs hc.1 hd.1, everywhere_zip hz (hz.operand hs) value hc.2 hd.2⟩
  | .assign _ target value, hc, hd =>
    ⟨hz.node _ hs hc.1 hd.1, everywhere_zip hz (hz.operand hs) target hc.2.1 hd.2.1,
      everywhere_zip hz (hz.operand hs) value hc.2.2 hd.2.2⟩
  | .update _ _ target value, hc, hd =>
    ⟨hz.node _ hs hc.1 hd.1, everywhere_zip hz (hz.operand hs) target hc.2.1 hd.2.1,
      everywhere_zip hz (hz.operand hs) value hc.2.2 hd.2.2⟩
  | .ret _ value, hc, hd => ⟨hz.node _ hs hc.1 hd.1, everywhere_zip hz (hz.operand hs) value hc.2 hd.2⟩
  | .num .., hc, hd | .str .., hc, hd | .bool .., hc, hd | .null .., hc, hd | .ident .., hc, hd
  | .exit .., hc, hd | .next .., hc, hd | .loneParam .., hc, hd | .loneBranch .., hc, hd
  | .loneArm .., hc, hd | .bare .., hc, hd => hz.node _ hs hc hd

theorem zipAll (hz : Zips R C D E) {s s' : Site} (hs : R s s') : (ns : List Node) →
    EverywhereAll C s ns → EverywhereAll D s ns → EverywhereAll E s' ns
  | [], _, _ => trivial
  | n :: ns, hc, hd => ⟨everywhere_zip hz hs n hc.1 hd.1, zipAll hz hs ns hc.2 hd.2⟩

theorem zipParts (hz : Zips R C D E) {s s' : Site} : (ns : List Node) →
    EverywhereParts C s ns → EverywhereParts D s ns → EverywhereParts E s' ns
  | [], _, _ => trivial
  | n :: ns, hc, hd => by
    cases n with
    | str l value => exact zipParts hz ns hc hd
    | _ => exact ⟨everywhere_zip hz hz.part _ hc.1 hd.1, zipParts hz ns hc.2 hd.2⟩

theorem zipOption (hz : Zips R C D E) {s s' : Site} (hs : R s s') : (n : Option Node) →
    EverywhereOption C s n → EverywhereOption D s n → EverywhereOption E s' n
  | none, _, _ => trivial
  | some n, hc, hd => everywhere_zip hz hs n hc hd

theorem zipEntries (hz : Zips R C D E) {s s' : Site} (hs : R s s') : (es : List (String × Node)) →
    EverywhereEntries C s es → EverywhereEntries D s es → EverywhereEntries E s' es
  | [], _, _ => trivial
  | (_, n) :: es, hc, hd => ⟨everywhere_zip hz hs n hc.1 hd.1, zipEntries hz hs es hc.2 hd.2⟩

theorem zipParams (hz : Zips R C D E) {s s' : Site} (hs : R s s') : (ps : List Param) →
    EverywhereParams C s ps → EverywhereParams D s ps → EverywhereParams E s' ps
  | [], _, _ => trivial
  | .mk _ _ _ fallback :: ps, hc, hd =>
    ⟨zipOption hz hs fallback hc.1 hd.1, zipParams hz hs ps hc.2 hd.2⟩

theorem zipBranches (hz : Zips R C D E) {s s' : Site} (hs : R s s') : (bs : List Branch) →
    EverywhereBranches C s bs → EverywhereBranches D s bs → EverywhereBranches E s' bs
  | [], _, _ => trivial
  | .mk _ test body :: bs, hc, hd =>
    ⟨everywhere_zip hz (hz.operand hs) test hc.1 hd.1, everywhere_zip hz (hz.body hs) body hc.2.1 hd.2.1,
      zipBranches hz hs bs hc.2.2 hd.2.2⟩

theorem zipArms (hz : Zips R C D E) {s s' : Site} (hs : R s s') : (as : List Arm) →
    EverywhereArms C s as → EverywhereArms D s as → EverywhereArms E s' as
  | [], _, _ => trivial
  | .mk _ pattern body :: as, hc, hd =>
    ⟨everywhere_zip hz (hz.operand hs) pattern hc.1 hd.1,
      everywhere_zip hz (hz.body hs) body hc.2.1 hd.2.1, zipArms hz hs as hc.2.2 hd.2.2⟩
end

end

/-- Two conditions that each hold everywhere hold together. -/
theorem everywhereAll_and {ns : List Node} (hc : EverywhereAll C s ns) (hd : EverywhereAll D s ns) :
    EverywhereAll (fun s n => C s n ∧ D s n) s ns := by
  have hz : Zips Eq C D fun s n => C s n ∧ D s n :=
    ⟨fun _ hs hc hd => hs ▸ ⟨hc, hd⟩, congrArg _, congrArg _, congrArg _, rfl⟩
  exact zipAll hz rfl ns hc hd

/-- A tree of the right form has it wherever the same forms can stand. -/
theorem formed_relocate {n : Node} {s' : Site} (hn : Everywhere Formed s n)
    (hs : s'.position = .expression → s.position = .expression) : Everywhere Formed s' n := by
  have hz : Zips (fun s s' => s'.position = .expression → s.position = .expression)
      Formed Formed Formed := by
    refine ⟨fun n hs hf _ => ?_, fun _ _ => rfl, nofun, nofun, fun _ => rfl⟩
    cases n with
    | each | define | update => exact ⟨hf.1, fun h => hf.2 (hs h)⟩
    | loop | assign | ret | exit | next => exact fun h => hf (hs h)
    | _ => exact hf
  exact everywhere_zip hz hs n hn hn

/-! ## What can be printed -/

mutual
/-- A node that has a text is finite everywhere, wherever it stands. -/
theorem finite_of_text {s : Site} {position : Position} {level : Nat} {t : String} :
    (n : Node) → text position level n = .ok t → Everywhere (fun _ => Finite) s n
  | .num _ value, h => by
    simp only [text, numberText] at h
    split at h
    · cases h
    · rename_i hx
      simpa [Everywhere, Finite] using hx
  | .tmpl _ parts, h => by
    simp only [text, bind_eq_ok_iff] at h
    obtain ⟨ts, hts, -⟩ := h
    exact ⟨trivial, finite_of_templateTexts parts hts⟩
  | .arr _ items, h => by
    simp only [text, bind_eq_ok_iff] at h
    obtain ⟨ts, hts, -⟩ := h
    exact ⟨trivial, finite_of_texts items hts⟩
  | .obj _ entries, h => by
    simp only [text, bind_eq_ok_iff] at h
    obtain ⟨ts, hts, -⟩ := h
    exact ⟨trivial, finite_of_entryTexts entries hts⟩
  | .prop _ target _, h => by
    simp only [text, bind_eq_ok_iff] at h
    obtain ⟨t, ht, -⟩ := h
    exact ⟨trivial, finite_of_text target ht⟩
  | .index _ target key, h => by
    simp only [text, bind_eq_ok_iff] at h
    obtain ⟨t, ht, k, hk, -⟩ := h
    exact ⟨trivial, finite_of_text target ht, finite_of_text key hk⟩
  | .call _ target args, h => by
    simp only [text, bind_eq_ok_iff] at h
    obtain ⟨as, has, t, ht, -⟩ := h
    exact ⟨trivial, finite_of_text target ht, finite_of_texts args has⟩
  | .unary _ _ operand, h => by
    simp only [text, bind_eq_ok_iff] at h
    obtain ⟨t, ht, -⟩ := h
    exact ⟨trivial, finite_of_text operand ht⟩
  | .binary _ op left right, h => by
    simp only [text] at h
    split at h
    · cases h
    · simp only [bind_eq_ok_iff] at h
      obtain ⟨l, hl, r, hr, -⟩ := h
      exact ⟨trivial, finite_of_text left hl, finite_of_text right hr⟩
  | .fn _ params body, h => by
    simp only [text, bind_eq_ok_iff] at h
    obtain ⟨ps, hps, b, hb, -⟩ := h
    exact ⟨trivial, finite_of_paramTexts params hps, finite_of_texts body hb⟩
  | .block _ statements, h => by
    simp only [text, bind_eq_ok_iff] at h
    obtain ⟨b, hb, -⟩ := h
    exact ⟨trivial, finite_of_texts statements hb⟩
  | .cond _ test body branches otherwise, h => by
    simp only [text, bind_eq_ok_iff] at h
    obtain ⟨t, ht, b, hb, bs, hbs, e, he, -⟩ := h
    exact ⟨trivial, finite_of_text test ht, finite_of_text body hb,
      finite_of_branchTexts branches hbs, finite_of_elseText otherwise he⟩
  | .select _ subject arms otherwise, h => by
    simp only [text, bind_eq_ok_iff] at h
    obtain ⟨as, has, e, he, t, ht, -⟩ := h
    exact ⟨trivial, finite_of_text subject ht, finite_of_armTexts arms has,
      finite_of_defaultTexts otherwise he⟩
  | .loop _ statements, h => by
    simp only [text, bind_eq_ok_iff] at h
    obtain ⟨b, hb, -⟩ := h
    exact ⟨trivial, finite_of_texts statements hb⟩
  | .each _ _ items body, h => by
    simp only [text, bind_eq_ok_iff] at h
    obtain ⟨is, his, b, hb, -⟩ := h
    exact ⟨trivial, finite_of_text items his, finite_of_text body hb⟩
  | .define _ name value isMutable, h => by
    have hother (h : defineText level name value isMutable = .ok t) :
        Everywhere (fun _ => Finite) s.operand value := by
      simp only [defineText, bind_eq_ok_iff] at h
      obtain ⟨v, hv, -⟩ := h
      exact finite_of_text value hv
    refine ⟨trivial, ?_⟩
    cases isMutable with
    | true => cases value <;> exact hother h
    | false =>
      cases value with
      | fn _ params body =>
        simp only [text, bind_eq_ok_iff] at h
        obtain ⟨ps, hps, b, hb, -⟩ := h
        exact ⟨trivial, finite_of_paramTexts params hps, finite_of_texts body hb⟩
      | _ => exact hother h
  | .assign _ target value, h => by
    simp only [text, bind_eq_ok_iff] at h
    obtain ⟨t, ht, v, hv, -⟩ := h
    exact ⟨trivial, finite_of_text target ht, finite_of_text value hv⟩
  | .update _ _ target value, h => by
    simp only [text, bind_eq_ok_iff] at h
    obtain ⟨t, ht, v, hv, -⟩ := h
    exact ⟨trivial, finite_of_text target ht, finite_of_text value hv⟩
  | .ret _ value, h => by
    simp only [text, bind_eq_ok_iff] at h
    obtain ⟨v, hv, -⟩ := h
    exact ⟨trivial, finite_of_text value hv⟩
  | .str .., _ | .bool .., _ | .null .., _ | .ident .., _ | .exit .., _ | .next .., _
  | .loneParam .., _ | .loneBranch .., _ | .loneArm .., _ | .bare .., _ => trivial

theorem finite_of_texts {s : Site} {position : Position} {level : Nat} {ts : List String} :
    (ns : List Node) → texts position level ns = .ok ts → EverywhereAll (fun _ => Finite) s ns
  | [], _ => trivial
  | n :: ns, h => by
    simp only [texts, bind_eq_ok_iff] at h
    obtain ⟨t, ht, ts, hts, -⟩ := h
    exact ⟨finite_of_text n ht, finite_of_texts ns hts⟩

theorem finite_of_templateTexts {s : Site} {level : Nat} {ts : List String} :
    (ns : List Node) → templateTexts level ns = .ok ts → EverywhereParts (fun _ => Finite) s ns
  | [], _ => trivial
  | n :: ns, h => by
    cases n with
    | str l value =>
      simp only [templateTexts, bind_eq_ok_iff] at h
      obtain ⟨ts, hts, -⟩ := h
      exact finite_of_templateTexts ns hts
    | _ =>
      simp only [templateTexts, bind_eq_ok_iff] at h
      obtain ⟨t, ht, ts, hts, -⟩ := h
      exact ⟨finite_of_text _ ht, finite_of_templateTexts ns hts⟩

theorem finite_of_entryTexts {s : Site} {level : Nat} {ts : List String} :
    (es : List (String × Node)) → entryTexts level es = .ok ts →
      EverywhereEntries (fun _ => Finite) s es
  | [], _ => trivial
  | (_, n) :: es, h => by
    simp only [entryTexts, bind_eq_ok_iff] at h
    obtain ⟨t, ht, ts, hts, -⟩ := h
    exact ⟨finite_of_text n ht, finite_of_entryTexts es hts⟩

theorem finite_of_paramTexts {s : Site} {level : Nat} {ts : List String} :
    (ps : List Param) → paramTexts level ps = .ok ts → EverywhereParams (fun _ => Finite) s ps
  | [], _ => trivial
  | .mk _ _ _ fallback :: ps, h => by
    simp only [paramTexts, bind_eq_ok_iff] at h
    obtain ⟨d, hd, ts, hts, -⟩ := h
    exact ⟨finite_of_fallbackText fallback hd, finite_of_paramTexts ps hts⟩

theorem finite_of_fallbackText {s : Site} {level : Nat} {t : String} :
    (n : Option Node) → fallbackText level n = .ok t → EverywhereOption (fun _ => Finite) s n
  | none, _ => trivial
  | some n, h => by
    simp only [fallbackText, bind_eq_ok_iff] at h
    obtain ⟨t, ht, -⟩ := h
    exact finite_of_text n ht

theorem finite_of_branchTexts {s : Site} {level : Nat} {ts : List String} :
    (bs : List Branch) → branchTexts level bs = .ok ts → EverywhereBranches (fun _ => Finite) s bs
  | [], _ => trivial
  | .mk _ test body :: bs, h => by
    simp only [branchTexts, bind_eq_ok_iff] at h
    obtain ⟨t, ht, b, hb, ts, hts, -⟩ := h
    exact ⟨finite_of_text test ht, finite_of_text body hb, finite_of_branchTexts bs hts⟩

theorem finite_of_elseText {s : Site} {level : Nat} {t : String} :
    (n : Option Node) → elseText level n = .ok t → EverywhereOption (fun _ => Finite) s n
  | none, _ => trivial
  | some n, h => by
    simp only [elseText, bind_eq_ok_iff] at h
    obtain ⟨t, ht, -⟩ := h
    exact finite_of_text n ht

theorem finite_of_armTexts {s : Site} {level : Nat} {ts : List String} :
    (as : List Arm) → armTexts level as = .ok ts → EverywhereArms (fun _ => Finite) s as
  | [], _ => trivial
  | .mk _ pattern body :: as, h => by
    simp only [armTexts, bind_eq_ok_iff] at h
    obtain ⟨p, hp, b, hb, ts, hts, -⟩ := h
    exact ⟨finite_of_text pattern hp, finite_of_text body hb, finite_of_armTexts as hts⟩

theorem finite_of_defaultTexts {s : Site} {level : Nat} {ts : List String} :
    (n : Option Node) → defaultTexts level n = .ok ts → EverywhereOption (fun _ => Finite) s n
  | none, _ => trivial
  | some n, h => by
    simp only [defaultTexts, bind_eq_ok_iff] at h
    obtain ⟨t, ht, -⟩ := h
    exact finite_of_text n ht
end

/-- Statements that can be printed are finite everywhere. -/
theorem finite_of_print {ns : List Node} {code : String} (h : print ns = .ok code) :
    EverywhereAll (fun _ => Finite) s ns := by
  rw [print, bind_eq_ok_iff] at h
  obtain ⟨ts, hts, -⟩ := h
  exact finite_of_texts ns hts

end ScriptBridge.AiScript

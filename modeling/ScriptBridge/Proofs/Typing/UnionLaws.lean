import Mathlib.Tactic.Tauto
import ScriptBridge.Proofs.Typing.Spelling

/-!
# Laws of unions

`unionOf` flattens, drops types of equal text, lets `any` and `unknown` absorb the others, leaves out
`never` and puts `boolean` for the two truth values. Over plain types it always has an answer.

* `Canonical`: what the members of a union never are.
* `Absorbed`: which texts are left of the texts of some types; `absorbed_absorbed` is the law behind all
  laws on the order of joining.
* `prints_unionOf`: the texts of the members of a union are what is left of the texts that were joined.
* `unionOf_laws`: unions are canonical, joining in parts joins the same texts, and a union is accepted
  where all joined types are.

One rule is applied too late: where `boolean` stands among the types beside both truth values
(`SplitBoolean`), a `boolean` is put for these without a look at the one that is there. Such a union has
`boolean` as a member twice and is not what its own union is.
-/

namespace ScriptBridge.Typing

variable {names : RecordNames}

/-! ## Flattened types -/

/-- Plain types none of which is a union. -/
def Flat (names : RecordNames) (ts : List Ty) : Prop :=
  ∀ t ∈ ts, Plain names t ∧ t.isUnion = false

/-- A text that one of the types has. -/
def Spells (names : RecordNames) (ts : List Ty) (w : String) : Prop :=
  ∃ t ∈ ts, t.text names = .ok w

/-- Both truth values are among types. -/
def BothTruths (ts : List Ty) : Prop :=
  .truthLiteral true ∈ ts ∧ .truthLiteral false ∈ ts

/-- `boolean` stands among types beside both truth values. -/
def SplitBoolean (ts : List Ty) : Prop :=
  .primitive .boolean ∈ ts ∧ BothTruths ts

theorem Plain.flat_members {t : Ty} (h : Plain names t) : Flat names t.members := by
  cases h with
  | union h hflat => exact fun m hm => ⟨h m hm, hflat m hm⟩
  | _ =>
    intro m hm
    cases List.mem_singleton.mp hm
    exact ⟨by constructor <;> assumption, rfl⟩

theorem Plain.flat {ts : List Ty} (h : ∀ t ∈ ts, Plain names t) : Flat names (ts.flatMap Ty.members) := by
  intro m hm
  obtain ⟨t, ht, hm⟩ := List.mem_flatMap.mp hm
  exact (h t ht).flat_members m hm

/-- A type that looks like a word is among types if its text is that of one of them. -/
theorem Flat.mem_of_spells {ts : List Ty} (h : Flat names ts) {t : Ty} {v w : String}
    (ht : Plain names t) (hu : t.isUnion = false) (hlook : t.look = .word v)
    (hw : t.text names = .ok w) : Spells names ts w ↔ t ∈ ts := by
  constructor
  · rintro ⟨m, hm, hmw⟩
    obtain ⟨hplain, hunion⟩ := h m hm
    have hmlook : m.look = .word v :=
      ((hplain.look_eq hunion hmw).symm.trans (ht.look_eq hu hw)).trans hlook
    rwa [← eq_of_look_word hunion hu hmlook hlook]
  · exact fun hmem => ⟨t, hmem, hw⟩

theorem Flat.spells_word {ts : List Ty} (h : Flat names ts) (p : Primitive) :
    Spells names ts p.word ↔ .primitive p ∈ ts :=
  h.mem_of_spells (.primitive p) rfl rfl rfl

theorem Flat.spells_truth {ts : List Ty} (h : Flat names ts) (value : Bool) :
    Spells names ts (if value then "true" else "false") ↔ .truthLiteral value ∈ ts :=
  h.mem_of_spells (.truthLiteral value) rfl rfl rfl

/-! ## The first of each text -/

/-- The types that are kept of types that were looked at, and the texts that were seen. -/
structure Kept (names : RecordNames) (looked kept : List Ty) (seen : List String) : Prop where
  mem : ∀ t ∈ kept, t ∈ looked ∧ t.isNever = false
  distinct : (kept.map (Ty.text names)).Nodup
  seen : ∀ w, w ∈ seen ↔ Spells names kept w
  all : ∀ t ∈ looked, t.isNever = false → ∃ t' ∈ kept, t'.text names = t.text names

namespace Kept

variable {looked kept ts : List Ty} {seen : List String} {t : Ty} {key : String}

theorem nil : Kept names [] [] [] where
  mem := nofun
  distinct := .nil
  seen := fun _ => ⟨nofun, fun ⟨_, ht, _⟩ => nomatch ht⟩
  all := nofun

/-- A type that is left out, because it has no values or its text was seen. -/
theorem skip (h : Kept names looked kept seen)
    (ht : t.isNever = false → ∃ t' ∈ kept, t'.text names = t.text names) :
    Kept names (looked ++ [t]) kept seen where
  mem := fun u hu => ⟨List.mem_append_left _ (h.mem u hu).1, (h.mem u hu).2⟩
  distinct := h.distinct
  seen := h.seen
  all := List.forall_mem_append.mpr ⟨h.all, List.forall_mem_singleton.mpr ht⟩

/-- A type of a new text. -/
theorem keep (h : Kept names looked kept seen) (hnever : t.isNever = false)
    (hkey : t.text names = .ok key) (hnew : key ∉ seen) :
    Kept names (looked ++ [t]) (kept ++ [t]) (key :: seen) where
  mem := List.forall_mem_append.mpr
    ⟨fun u hu => ⟨List.mem_append_left _ (h.mem u hu).1, (h.mem u hu).2⟩,
      List.forall_mem_singleton.mpr ⟨List.mem_append_right _ List.mem_cons_self, hnever⟩⟩
  distinct := by
    rw [List.map_append, List.nodup_append]
    refine ⟨h.distinct, List.nodup_singleton _, ?_⟩
    rintro _ hu _ hnew' rfl
    obtain ⟨u, hu, hueq⟩ := List.mem_map.mp hu
    rw [List.map_singleton, List.mem_singleton, hkey] at hnew'
    exact hnew ((h.seen key).mpr ⟨u, hu, hueq.trans hnew'⟩)
  seen := by
    intro w
    rw [List.mem_cons, h.seen]
    constructor
    · rintro (rfl | ⟨u, hu, hw⟩)
      · exact ⟨t, List.mem_append_right _ List.mem_cons_self, hkey⟩
      · exact ⟨u, List.mem_append_left _ hu, hw⟩
    · rintro ⟨u, hu, hw⟩
      rcases List.mem_append.mp hu with hu | hu
      · exact .inr ⟨u, hu, hw⟩
      · cases List.mem_singleton.mp hu
        exact .inl (Except.ok.inj (hw.symm.trans hkey))
  all := by
    refine List.forall_mem_append.mpr ⟨fun u hu hun => ?_, List.forall_mem_singleton.mpr fun _ => ?_⟩
    · obtain ⟨u', hu', heq⟩ := h.all u hu hun
      exact ⟨u', List.mem_append_left _ hu', heq⟩
    · exact ⟨t, List.mem_append_right _ List.mem_cons_self, rfl⟩

end Kept

/-- Without `any` among them, the first type of each text is kept. -/
theorem distinct_kept {looked kept ts : List Ty} {seen : List String}
    (h : Kept names looked kept seen) (hts : Flat names ts) (hany : ∀ t ∈ ts, t.isAny = false) :
    ∃ kept' seen', distinct names seen kept ts = .ok (some (kept', seen')) ∧
      Kept names (looked ++ ts) kept' seen' := by
  induction ts generalizing looked kept seen with
  | nil => exact ⟨kept, seen, rfl, by rwa [List.append_nil]⟩
  | cons t ts ih =>
    obtain ⟨ht, hts⟩ := List.forall_mem_cons.mp hts
    obtain ⟨hta, hany⟩ := List.forall_mem_cons.mp hany
    obtain ⟨key, hkey, -⟩ := ht.1.spelled
    rw [List.append_cons, distinct, if_neg (by simp [hta])]
    by_cases hnever : t.isNever = true
    · rw [if_pos hnever]
      exact ih (h.skip fun hn => absurd hnever (by simp [hn])) hts hany
    rw [if_neg hnever, hkey]
    show ∃ kept' seen', (if seen.contains key then _ else _) = _ ∧ _
    by_cases hseen : seen.contains key = true
    · rw [if_pos hseen]
      obtain ⟨u, hu, huw⟩ := (h.seen key).mp (List.contains_iff_mem.mp hseen)
      exact ih (h.skip fun _ => ⟨u, hu, huw.trans hkey.symm⟩) hts hany
    · rw [if_neg hseen]
      exact ih (h.keep (by simpa using hnever) hkey (by simpa using hseen)) hts hany

/-- One `any` among types is enough. -/
theorem distinct_any {kept ts : List Ty} {seen : List String} (hts : Flat names ts)
    (hany : .any ∈ ts) : distinct names seen kept ts = .ok none := by
  induction ts generalizing kept seen with
  | nil => cases hany
  | cons t ts ih =>
    obtain ⟨ht, hts⟩ := List.forall_mem_cons.mp hts
    obtain ⟨key, hkey, -⟩ := ht.1.spelled
    rw [distinct]
    split
    · rfl
    case isFalse hta =>
      obtain rfl | hany := List.mem_cons.mp hany
      · exact absurd rfl hta
      split
      · exact ih hts hany
      · rw [hkey]
        show (if _ then _ else _) = _
        split <;> exact ih hts hany

/-! ## Truth values -/

theorem hasPrimitive_iff {p : Primitive} {ts : List Ty} :
    hasPrimitive p ts = true ↔ .primitive p ∈ ts := by
  rw [hasPrimitive, List.any_eq_true]
  constructor
  · rintro ⟨t, ht, h⟩
    split at h
    · rwa [← of_decide_eq_true h]
    · cases h
  · exact fun h => ⟨_, h, decide_eq_true rfl⟩

section
variable {looked kept : List Ty} {seen : List String}

theorem Kept.flat (h : Kept names looked kept seen) (hl : Flat names looked) : Flat names kept :=
  fun t ht => hl t (h.mem t ht).1

/-- A type that looks like a word is kept where it is found. -/
theorem Kept.mem_iff (h : Kept names looked kept seen) (hl : Flat names looked) {t : Ty} {v w : String}
    (ht : Plain names t) (hu : t.isUnion = false) (hnever : t.isNever = false)
    (hlook : t.look = .word v) (hw : t.text names = .ok w) : t ∈ kept ↔ t ∈ looked := by
  constructor
  · exact fun hmem => (h.mem t hmem).1
  · intro hmem
    obtain ⟨u, hu', huw⟩ := h.all t hmem hnever
    exact ((h.flat hl).mem_of_spells ht hu hlook hw).mp ⟨u, hu', huw.trans hw⟩

theorem Kept.bothTruths_iff (h : Kept names looked kept seen) (hl : Flat names looked) :
    BothTruths kept ↔ BothTruths looked := by
  have htruth (value : Bool) : Ty.truthLiteral value ∈ kept ↔ .truthLiteral value ∈ looked :=
    h.mem_iff hl (.truthLiteral value) rfl rfl rfl rfl
  exact and_congr (htruth true) (htruth false)

theorem Kept.boolean_iff (h : Kept names looked kept seen) (hl : Flat names looked) :
    Ty.primitive .boolean ∈ kept ↔ .primitive .boolean ∈ looked :=
  h.mem_iff hl (.primitive .boolean) rfl rfl rfl rfl

theorem joinTruths_eq (h : Kept names looked kept seen) (hl : Flat names looked)
    [Decidable (BothTruths kept)] :
    joinTruths seen kept =
      if BothTruths kept then kept.filter (!·.isTruthLiteral) ++ [.primitive .boolean] else kept := by
  have htruth (value : Bool) : seen.contains (if value then "true" else "false") = true ↔
      .truthLiteral value ∈ kept := by
    rw [List.contains_iff_mem, h.seen]
    exact (h.flat hl).spells_truth value
  have hboth : (seen.contains "true" && seen.contains "false") = true ↔ BothTruths kept := by
    rw [Bool.and_eq_true]
    exact and_congr (htruth true) (htruth false)
  simp only [joinTruths, hboth]

/-- The members of a union are the kept types, without truth values where `boolean` or the other one is
there, and `boolean` for both of them. -/
theorem mem_settled (h : Kept names looked kept seen) (hl : Flat names looked) {m : Ty} :
    m ∈ absorbTruths (joinTruths seen kept) ↔
      (m ∈ kept ∧ (m.isTruthLiteral = true → ¬(.primitive .boolean ∈ kept ∨ BothTruths kept))) ∨
        (m = .primitive .boolean ∧ BothTruths kept) := by
  classical
  rw [joinTruths_eq h hl, absorbTruths]
  by_cases hboth : BothTruths kept
  · rw [if_pos hboth, if_pos (hasPrimitive_iff.mpr (by simp))]
    simp only [List.mem_filter, List.mem_append, List.mem_singleton, Bool.not_eq_true', hboth,
      or_true, not_true_eq_false, imp_false, Bool.not_eq_true, and_true]
    constructor
    · rintro ⟨⟨hm, -⟩ | rfl, ht⟩
      · exact .inl ⟨hm, ht⟩
      · exact .inr rfl
    · rintro (⟨hm, ht⟩ | rfl)
      · exact ⟨.inl ⟨hm, ht⟩, ht⟩
      · exact ⟨.inr rfl, rfl⟩
  · rw [if_neg hboth]
    by_cases hboolean : Ty.primitive .boolean ∈ kept
    · rw [if_pos (hasPrimitive_iff.mpr hboolean)]
      simp [List.mem_filter, hboth, hboolean]
    · rw [if_neg (fun hp => hboolean (hasPrimitive_iff.mp hp))]
      simp [hboth, hboolean]

theorem settled_both (h : Kept names looked kept seen) (hl : Flat names looked)
    (hboth : BothTruths kept) :
    absorbTruths (joinTruths seen kept) =
      kept.filter (!·.isTruthLiteral) ++ [.primitive .boolean] := by
  classical
  rw [joinTruths_eq h hl, if_pos hboth, absorbTruths, if_pos (hasPrimitive_iff.mpr (by simp)),
    List.filter_append, List.filter_filter]
  simp [Ty.isTruthLiteral]

theorem settled_sublist (h : Kept names looked kept seen) (hl : Flat names looked)
    (hboth : ¬BothTruths kept) : (absorbTruths (joinTruths seen kept)).Sublist kept := by
  classical
  rw [joinTruths_eq h hl, if_neg hboth, absorbTruths]
  split
  · exact List.filter_sublist
  · exact .refl _

theorem filtered_distinct (h : Kept names looked kept seen) (p : Ty → Bool) :
    ((kept.filter p).map (Ty.text names)).Nodup :=
  h.distinct.sublist (List.filter_sublist.map _)

/-- No text comes twice, but for `boolean` where it is put for truth values beside it. -/
theorem settled_distinct (h : Kept names looked kept seen) (hl : Flat names looked)
    (hsplit : ¬SplitBoolean looked) :
    ((absorbTruths (joinTruths seen kept)).map (Ty.text names)).Nodup := by
  by_cases hboth : BothTruths kept
  case neg => exact h.distinct.sublist ((settled_sublist h hl hboth).map _)
  have hboolean : Ty.primitive .boolean ∉ kept := fun hb =>
    hsplit ⟨(h.boolean_iff hl).mp hb, (h.bothTruths_iff hl).mp hboth⟩
  rw [settled_both h hl hboth, List.map_append, List.nodup_append]
  refine ⟨filtered_distinct h _, List.nodup_singleton _, ?_⟩
  rintro _ hm _ hb rfl
  obtain ⟨m, hm, hmw⟩ := List.mem_map.mp hm
  rw [List.map_singleton, List.mem_singleton] at hb
  exact hboolean (((h.flat hl).spells_word .boolean).mp ⟨m, (List.mem_filter.mp hm).1, hmw.trans hb⟩)

end

theorem isAny_iff {t : Ty} : t.isAny = true ↔ t = .any := by
  constructor
  · intro h
    unfold Ty.isAny at h
    split at h
    · rfl
    · cases h
  · rintro rfl
    rfl

theorem isAny_of_isOpen {t : Ty} (h : t.isOpen = false) : t.isAny = false := by
  by_contra hany
  rw [isAny_iff.mp (Bool.of_not_eq_false hany)] at h
  cases h

/-! ## The join -/

/-- What flat types are joined to. -/
inductive Joins (names : RecordNames) (flat : List Ty) : Ty → Prop
  | any (hany : .any ∈ flat) : Joins names flat .any
  | unknown (hany : .any ∉ flat) (hunknown : .primitive .unknown ∈ flat) :
      Joins names flat (.primitive .unknown)
  | members {kept : List Ty} {seen : List String} (hany : .any ∉ flat)
      (hunknown : .primitive .unknown ∉ flat) (hkept : Kept names flat kept seen) :
      Joins names flat (ofMembers (absorbTruths (joinTruths seen kept)))

/-- Plain types are joined. -/
theorem unionOf_joins {ts : List Ty} (hts : ∀ t ∈ ts, Plain names t) :
    ∃ t, unionOf names ts = .ok t ∧ Joins names (ts.flatMap Ty.members) t := by
  have hflat := Plain.flat hts
  by_cases hany : .any ∈ ts.flatMap Ty.members
  · refine ⟨.any, ?_, .any hany⟩
    rw [unionOf, distinct_any hflat hany]
    rfl
  have hnone (t : Ty) (ht : t ∈ ts.flatMap Ty.members) : t.isAny = false := by
    by_contra h
    exact hany (isAny_iff.mp (by simpa using h) ▸ ht)
  obtain ⟨kept, seen, hkept, h⟩ := distinct_kept .nil hflat hnone
  rw [List.nil_append] at h
  have hunknown : hasPrimitive .unknown kept = true ↔ .primitive .unknown ∈ ts.flatMap Ty.members :=
    hasPrimitive_iff.trans (h.mem_iff hflat (.primitive .unknown) rfl rfl rfl rfl)
  have hunion : unionOf names ts = if hasPrimitive .unknown kept then .ok (.primitive .unknown) else
      .ok (ofMembers (absorbTruths (joinTruths seen kept))) := by
    rw [unionOf, hkept]
    show (if _ then _ else _) = _
    split <;> rfl
  rw [hunion]
  by_cases hu : hasPrimitive .unknown kept = true
  · exact ⟨_, if_pos hu, .unknown hany (hunknown.mp hu)⟩
  · exact ⟨_, if_neg hu, .members hany (fun hmem => hu (hunknown.mpr hmem)) h⟩

/-! ## Canonical unions -/

/-- The members of a union: two at least, none of them a union, `any`, `unknown` or `never`, and no truth
value beside `boolean` or the other truth value. -/
structure Canonical (members : List Ty) : Prop where
  several : 2 ≤ members.length
  flat : ∀ m ∈ members, m.isUnion = false
  closed : ∀ m ∈ members, m.isOpen = false ∧ m.isNever = false
  truths : ∀ value, .truthLiteral value ∈ members →
    .primitive .boolean ∉ members ∧ .truthLiteral (!value) ∉ members

section
variable {flat kept : List Ty} {seen : List String} {t : Ty}

theorem members_of_not_union {t : Ty} (h : t.isUnion = false) : t.members = [t] := by
  cases t with
  | union => cases h
  | _ => rfl

theorem ofMembers_eq_union {ms rs : List Ty} (hflat : ∀ r ∈ rs, r.isUnion = false)
    (h : ofMembers rs = .union ms) : rs = ms ∧ 2 ≤ ms.length := by
  unfold ofMembers at h
  split at h
  · cases h
  · subst h
    exact absurd (hflat _ List.mem_cons_self) (by simp [Ty.isUnion])
  · rename_i hnil hone
    cases h
    refine ⟨rfl, ?_⟩
    match ms, hnil, hone with
    | [], hnil, _ => exact absurd rfl hnil
    | [r], _, hone => exact absurd rfl (hone r)
    | _ :: _ :: _, _, _ => simp

theorem members_ofMembers {rs : List Ty} (hflat : ∀ r ∈ rs, r.isUnion = false) (hne : rs ≠ []) :
    (ofMembers rs).members = rs := by
  match rs, hne with
  | [r], _ => exact members_of_not_union (hflat r List.mem_cons_self)
  | _ :: _ :: _, _ => rfl

/-- A member is a joined type, or `boolean`. -/
theorem settled_flat (h : Kept names flat kept seen) (hl : Flat names flat) :
    Flat names (absorbTruths (joinTruths seen kept)) := by
  intro m hm
  rcases (mem_settled h hl).mp hm with ⟨hm, -⟩ | ⟨rfl, -⟩
  · exact h.flat hl m hm
  · exact ⟨.primitive .boolean, rfl⟩

theorem settled_closed (h : Kept names flat kept seen) (hl : Flat names flat) (hany : .any ∉ flat)
    (hunknown : .primitive .unknown ∉ flat) :
    ∀ m ∈ absorbTruths (joinTruths seen kept), m.isOpen = false ∧ m.isNever = false := by
  intro m hm
  rcases (mem_settled h hl).mp hm with ⟨hm, -⟩ | ⟨rfl, -⟩
  · obtain ⟨hlooked, hnever⟩ := h.mem m hm
    refine ⟨?_, hnever⟩
    by_contra hopen
    unfold Ty.isOpen at hopen
    split at hopen
    · exact hany hlooked
    · exact hunknown hlooked
    · exact hopen rfl
  · exact ⟨rfl, rfl⟩

theorem settled_truths (h : Kept names flat kept seen) (hl : Flat names flat) (value : Bool)
    (hv : .truthLiteral value ∈ absorbTruths (joinTruths seen kept)) :
    .primitive .boolean ∉ absorbTruths (joinTruths seen kept) ∧
      .truthLiteral (!value) ∉ absorbTruths (joinTruths seen kept) := by
  rcases (mem_settled h hl).mp hv with ⟨hv, huncovered⟩ | ⟨hb, -⟩
  case inr => cases hb
  obtain ⟨hboolean, hboth⟩ := not_or.mp (huncovered rfl)
  constructor
  · intro hm
    rcases (mem_settled h hl).mp hm with ⟨hm, -⟩ | ⟨-, hm⟩
    · exact hboolean hm
    · exact hboth hm
  · intro hm
    rcases (mem_settled h hl).mp hm with ⟨hm, -⟩ | ⟨hb, -⟩
    · refine hboth ?_
      cases value with
      | true => exact ⟨hv, hm⟩
      | false => exact ⟨hm, hv⟩
    · cases hb

theorem Joins.plain (h : Joins names flat t) (hl : Flat names flat) : Plain names t := by
  cases h with
  | any => exact .primitive .any
  | unknown => exact .primitive .unknown
  | members _ _ hkept =>
    have hflat := settled_flat hkept hl
    unfold ofMembers
    split
    · exact .primitive .never
    · rename_i hone
      exact (hflat _ (hone ▸ List.mem_cons_self)).1
    · exact .union (fun m hm => (hflat m hm).1) fun m hm => (hflat m hm).2

/-- Unions are canonical. -/
theorem Joins.canonical {ms : List Ty} (h : Joins names flat (.union ms)) (hl : Flat names flat) :
    Canonical ms ∧ (¬SplitBoolean flat → (ms.map (Ty.text names)).Nodup) ∧
      (SplitBoolean flat → ∃ rest, ms = rest ++ [.primitive .boolean] ∧ .primitive .boolean ∈ rest ∧
        (rest.map (Ty.text names)).Nodup) := by
  generalize ht : Ty.union ms = t at h
  cases h with
  | any => cases ht
  | unknown => cases ht
  | members hany hunknown hkept =>
    obtain ⟨rfl, hseveral⟩ := ofMembers_eq_union (fun m hm => (settled_flat hkept hl m hm).2) ht.symm
    refine ⟨⟨hseveral, fun m hm => (settled_flat hkept hl m hm).2,
      settled_closed hkept hl hany hunknown, settled_truths hkept hl⟩, settled_distinct hkept hl, ?_⟩
    rintro ⟨hboolean, hboth⟩
    refine ⟨_, settled_both hkept hl ((hkept.bothTruths_iff hl).mpr hboth), ?_, filtered_distinct hkept _⟩
    exact List.mem_filter.mpr ⟨(hkept.boolean_iff hl).mpr hboolean, rfl⟩

/-- Types of different texts are all kept. -/
theorem distinct_all {ts : List Ty} (hts : Flat names ts)
    (hclosed : ∀ t ∈ ts, t.isOpen = false ∧ t.isNever = false)
    (hseen : ∀ w ∈ seen, Spells names kept w) (hdistinct : ((kept ++ ts).map (Ty.text names)).Nodup) :
    ∃ seen', distinct names seen kept ts = .ok (some (kept ++ ts, seen')) := by
  induction ts generalizing kept seen with
  | nil => exact ⟨seen, by rw [List.append_nil]; rfl⟩
  | cons t ts ih =>
    obtain ⟨ht, hts⟩ := List.forall_mem_cons.mp hts
    obtain ⟨⟨hopen, hnever⟩, hclosed⟩ := List.forall_mem_cons.mp hclosed
    obtain ⟨key, hkey, -⟩ := ht.1.spelled
    have hnew : key ∉ seen := by
      intro hmem
      obtain ⟨u, hu, huw⟩ := hseen key hmem
      rw [List.map_append, List.nodup_append] at hdistinct
      refine hdistinct.2.2 _ (List.mem_map_of_mem hu) (t.text names) (by simp) (huw.trans hkey.symm)
    rw [distinct, if_neg (by simp [isAny_of_isOpen hopen]), if_neg (by simp [hnever]), hkey]
    show ∃ seen', (if seen.contains key then _ else _) = _
    rw [if_neg (by simpa using hnew), List.append_cons kept t ts]
    rw [List.append_cons kept t ts] at hdistinct
    refine ih hts hclosed (fun w hw => ?_) hdistinct
    obtain rfl | hw := List.mem_cons.mp hw
    · exact ⟨t, by simp, hkey⟩
    · obtain ⟨u, hu, huw⟩ := hseen w hw
      exact ⟨u, List.mem_append_left _ hu, huw⟩

/-- Joining the members of a union that has none twice gives them back. -/
theorem unionOf_ofMembers {rs : List Ty} (hl : Flat names rs)
    (hclosed : ∀ r ∈ rs, r.isOpen = false ∧ r.isNever = false)
    (htruths : ∀ value, .truthLiteral value ∈ rs →
      .primitive .boolean ∉ rs ∧ .truthLiteral (!value) ∉ rs)
    (hdistinct : (rs.map (Ty.text names)).Nodup) : unionOf names [ofMembers rs] = .ok (ofMembers rs) := by
  classical
  by_cases hnil : rs = []
  · rw [hnil]
    rfl
  have hnone (t : Ty) (ht : t ∈ rs) : t.isAny = false := isAny_of_isOpen (hclosed t ht).1
  have hempty : Kept names [] [] [] := .nil
  obtain ⟨kept, seen, hkept, h⟩ := distinct_kept hempty hl hnone
  have hall : ∃ seen', distinct names [] [] rs = .ok (some (rs, seen')) :=
    distinct_all hl hclosed (List.forall_mem_nil _) hdistinct
  obtain ⟨seen', hall⟩ := hall
  cases hkept.symm.trans hall
  replace h : Kept names rs rs seen := h
  have hboth : ¬BothTruths rs := fun hb => (htruths true hb.1).2 hb.2
  have hunknown : ¬hasPrimitive .unknown rs = true := fun hu =>
    absurd (hclosed _ (hasPrimitive_iff.mp hu)).1 (by decide)
  have hsettled : absorbTruths (joinTruths seen rs) = rs := by
    rw [joinTruths_eq h hl, if_neg hboth, absorbTruths]
    split
    · rename_i hboolean
      refine List.filter_eq_self.mpr fun m hm => ?_
      by_contra htruth
      unfold Ty.isTruthLiteral at htruth
      split at htruth
      · exact (htruths _ hm).1 (hasPrimitive_iff.mp hboolean)
      · exact htruth rfl
    · rfl
  rw [unionOf, List.flatMap_singleton, members_ofMembers (fun r hr => (hl r hr).2) hnil, hkept]
  show (if _ then _ else _) = _
  rw [if_neg hunknown, hsettled]
  rfl

/-- A union of what a union is of is that union. -/
theorem Joins.again (h : Joins names flat t) (hl : Flat names flat) (hsplit : ¬SplitBoolean flat) :
    unionOf names [t] = .ok t := by
  cases h with
  | any => rfl
  | unknown => rfl
  | members hany hunknown hkept =>
    exact unionOf_ofMembers (settled_flat hkept hl) (settled_closed hkept hl hany hunknown)
      (settled_truths hkept hl) (settled_distinct hkept hl hsplit)

end

/-! ## Where a union is accepted -/

section
variable {flat kept : List Ty} {seen : List String} {t : Ty} {k : Kind}

theorem fits_union {ms : List Ty} : (Ty.union ms).fits k = true ↔ ∀ m ∈ ms, m.fits k = true := by
  rw [Ty.fits]
  induction ms with
  | nil => exact ⟨fun _ => List.forall_mem_nil _, fun _ => rfl⟩
  | cons m ms ih => rw [Ty.fitsAll, Bool.and_eq_true, List.forall_mem_cons, ih]

theorem fits_members : t.fits k = true ↔ ∀ m ∈ t.members, m.fits k = true := by
  cases h : t.isUnion with
  | true =>
    cases t with
    | union => exact fits_union
    | _ => cases h
  | false => rw [members_of_not_union h, List.forall_mem_singleton]

theorem fits_ofMembers {rs : List Ty} :
    (ofMembers rs).fits k = true ↔ ∀ r ∈ rs, r.fits k = true := by
  unfold ofMembers
  split
  · exact ⟨fun _ => List.forall_mem_nil _, fun _ => rfl⟩
  · rw [List.forall_mem_singleton]
  · exact fits_union

/-- What is left out of the joined types is accepted where what is kept is. -/
theorem Kept.fits (h : Kept names flat kept seen) (hl : Flat names flat) :
    (∀ t ∈ kept, t.fits k = true) ↔ ∀ t ∈ flat, t.fits k = true := by
  constructor
  · intro hfits t ht
    by_cases hnever : t.isNever = true
    · unfold Ty.isNever at hnever
      split at hnever
      · rfl
      · cases hnever
    obtain ⟨u, hu, htext⟩ := h.all t ht (by simpa using hnever)
    obtain ⟨w, hw, -⟩ := (hl t ht).1.spelled
    obtain ⟨hplain, hunion⟩ := h.flat hl u hu
    rw [(hl t ht).1.fits_eq hplain (hl t ht).2 hunion hw (htext.trans hw)]
    exact hfits u hu
  · exact fun hfits t ht => hfits t (h.mem t ht).1

/-- `boolean` is accepted where its values are. -/
theorem settled_fits (h : Kept names flat kept seen) (hl : Flat names flat) :
    (∀ m ∈ absorbTruths (joinTruths seen kept), m.fits k = true) ↔ ∀ m ∈ kept, m.fits k = true := by
  have hboolean (value : Bool) : (Ty.primitive .boolean).fits k = (Ty.truthLiteral value).fits k := by
    simp only [Ty.fits, Kind.acceptsPrimitive]
  constructor
  · intro hfits m hm
    by_cases hcovered : m.isTruthLiteral = true ∧ (.primitive .boolean ∈ kept ∨ BothTruths kept)
    · have hmem : Ty.primitive .boolean ∈ absorbTruths (joinTruths seen kept) := by
        rw [mem_settled h hl]
        exact hcovered.2.imp (fun hb => ⟨hb, fun ht => absurd ht Bool.false_ne_true⟩) fun hboth => ⟨rfl, hboth⟩
      have htruth := hcovered.1
      unfold Ty.isTruthLiteral at htruth
      split at htruth
      · exact (hboolean _).symm.trans (hfits _ hmem)
      · cases htruth
    · exact hfits m ((mem_settled h hl).mpr (.inl ⟨hm, fun ht hc => hcovered ⟨ht, hc⟩⟩))
  · intro hfits m hm
    rcases (mem_settled h hl).mp hm with ⟨hm, -⟩ | ⟨rfl, hboth⟩
    · exact hfits m hm
    · exact (hboolean true).trans (hfits _ hboth.1)

/-- A union is accepted where all that was joined is. -/
theorem Joins.fits (h : Joins names flat t) (hl : Flat names flat) (hany : .any ∉ flat) :
    t.fits k = true ↔ ∀ m ∈ flat, m.fits k = true := by
  cases h with
  | any h => exact absurd h hany
  | unknown _ hunknown =>
    constructor
    · exact fun h => absurd h (by cases k <;> decide)
    · exact fun h => h _ hunknown
  | members _ _ hkept => rw [fits_ofMembers, settled_fits hkept hl, hkept.fits hl]

end

/-! ## Texts of a union -/

/-- The texts that are left of texts of types when these are joined. -/
def Absorbed (S : String → Prop) (w : String) : Prop :=
  S "any" ∧ w = "any" ∨ ¬S "any" ∧ S "unknown" ∧ w = "unknown" ∨
    ¬S "any" ∧ ¬S "unknown" ∧
      (S w ∧ w ≠ "never" ∧
          ¬((w = "true" ∨ w = "false") ∧ (S "boolean" ∨ S "true" ∧ S "false")) ∨
        w = "boolean" ∧ S "true" ∧ S "false" ∨ w = "never" ∧ ∀ v, S v → v = "never")

section
variable (S T : String → Prop)

theorem absorbed_any : Absorbed S "any" ↔ S "any" := by
  simp [Absorbed]

theorem absorbed_unknown : Absorbed S "unknown" ↔ ¬S "any" ∧ S "unknown" := by
  simp [Absorbed]

theorem absorbed_boolean : Absorbed S "boolean" ↔
    ¬S "any" ∧ ¬S "unknown" ∧ (S "boolean" ∨ S "true" ∧ S "false") := by
  simp [Absorbed]

theorem absorbed_truth (value : Bool) : Absorbed S (if value then "true" else "false") ↔
    ¬S "any" ∧ ¬S "unknown" ∧ S (if value then "true" else "false") ∧
      ¬(S "boolean" ∨ S "true" ∧ S "false") := by
  cases value <;> simp [Absorbed]

theorem absorbed_never : Absorbed S "never" ↔
    ¬S "any" ∧ ¬S "unknown" ∧ ∀ v, S v → v = "never" := by
  simp [Absorbed]

theorem absorbed_other {w : String}
    (hw : w ∉ ["any", "unknown", "never", "boolean", "true", "false"]) :
    Absorbed S w ↔ ¬S "any" ∧ ¬S "unknown" ∧ S w := by
  simp only [List.mem_cons, List.not_mem_nil, or_false, not_or] at hw
  simp [Absorbed, hw]

variable {S} in
/-- Something with values is left of something with values. -/
theorem absorbed_only_never (hany : ¬S "any") (hunknown : ¬S "unknown") :
    (∀ v, Absorbed S v → v = "never") ↔ ∀ v, S v → v = "never" := by
  constructor
  · intro h v hv
    by_contra hne
    by_cases hcovered : S "boolean" ∨ S "true" ∧ S "false"
    · exact absurd (h "boolean" ((absorbed_boolean S).mpr ⟨hany, hunknown, hcovered⟩)) (by decide)
    · exact hne (h v (.inr (.inr ⟨hany, hunknown, .inl ⟨hv, hne, fun hc => hcovered hc.2⟩⟩)))
  · rintro h v (⟨hv, -⟩ | ⟨-, hv, -⟩ | ⟨-, -, ⟨hv, -⟩ | ⟨-, hv, -⟩ | ⟨hv, -⟩⟩)
    · exact absurd hv hany
    · exact absurd hv hunknown
    · exact h v hv
    · exact absurd (h "true" hv) (by decide)
    · exact hv

variable {S} in
theorem absorbed_of_any (h : S "any") (w : String) : Absorbed S w ↔ w = "any" := by
  simp [Absorbed, h]

variable {S} in
theorem absorbed_of_unknown (hany : ¬S "any") (h : S "unknown") (w : String) :
    Absorbed S w ↔ w = "unknown" := by
  simp [Absorbed, hany, h]

/-- What is left does not depend on the order of joining. -/
theorem absorbed_absorbed (w : String) :
    Absorbed (fun v => Absorbed S v ∨ Absorbed T v) w ↔ Absorbed (fun v => S v ∨ T v) w := by
  by_cases hany : S "any" ∨ T "any"
  · rw [absorbed_of_any (S := fun v => S v ∨ T v) hany, absorbed_of_any]
    simpa only [absorbed_any]
  by_cases hunknown : S "unknown" ∨ T "unknown"
  · rw [absorbed_of_unknown (S := fun v => S v ∨ T v) hany hunknown, absorbed_of_unknown]
    · simpa only [absorbed_any]
    · simp only [not_or] at hany
      simpa only [absorbed_unknown, hany, not_false_eq_true, true_and]
  obtain ⟨hSany, hTany⟩ := not_or.mp hany
  obtain ⟨hSunknown, hTunknown⟩ := not_or.mp hunknown
  have htrue (S : String → Prop) := absorbed_truth S true
  have hfalse (S : String → Prop) := absorbed_truth S false
  simp only [if_true, Bool.false_eq_true, if_false] at htrue hfalse
  by_cases hw : w ∈ ["any", "unknown", "never", "boolean", "true", "false"]
  case neg =>
    simp only [absorbed_other _ hw, absorbed_any, absorbed_unknown, hSany, hTany, hSunknown, hTunknown]
    tauto
  simp only [List.mem_cons, List.not_mem_nil, or_false] at hw
  rcases hw with rfl | rfl | rfl | rfl | rfl | rfl
  · simp only [absorbed_any]
  · simp only [absorbed_any, absorbed_unknown, hSany, hTany, hSunknown, hTunknown]
    tauto
  · simp only [absorbed_never, absorbed_any, absorbed_unknown, hSany, hTany, hSunknown, hTunknown,
      or_imp, forall_and, absorbed_only_never hSany hSunknown, absorbed_only_never hTany hTunknown]
    tauto
  all_goals
    simp only [absorbed_boolean, absorbed_any, absorbed_unknown, htrue, hfalse, hSany, hTany, hSunknown,
      hTunknown, not_false_eq_true, true_and, or_self]
    grind
end

section
variable {flat kept : List Ty} {seen : List String} {t : Ty} {w : String}

theorem spells_kept (h : Kept names flat kept seen) (hl : Flat names flat) :
    Spells names kept w ↔ Spells names flat w ∧ w ≠ "never" := by
  constructor
  · rintro ⟨t, ht, hw⟩
    refine ⟨⟨t, (h.mem t ht).1, hw⟩, ?_⟩
    rintro rfl
    have hnever := ((h.flat hl).spells_word .never).mp ⟨t, ht, hw⟩
    exact absurd (h.mem _ hnever).2 (by decide)
  · rintro ⟨⟨t, ht, hw⟩, hne⟩
    have hnever : t.isNever = false := by
      by_contra hnever
      unfold Ty.isNever at hnever
      split at hnever
      · exact hne (Except.ok.inj hw).symm
      · exact hnever rfl
    obtain ⟨u, hu, htext⟩ := h.all t ht hnever
    exact ⟨u, hu, htext.trans hw⟩

theorem Plain.isTruthLiteral_iff (h : Plain names t) (hu : t.isUnion = false)
    (hw : t.text names = .ok w) : t.isTruthLiteral = true ↔ w = "true" ∨ w = "false" := by
  have htruth (value : Bool) (htext : t.text names = .ok (if value then "true" else "false")) :
      t = .truthLiteral value :=
    have hlit : Plain names (.truthLiteral value) := .truthLiteral value
    eq_of_look_word hu rfl ((h.look_eq hu htext).symm.trans (hlit.look_eq rfl rfl)) rfl
  constructor
  · intro ht
    unfold Ty.isTruthLiteral at ht
    split at ht
    case h_1 value =>
      cases hw
      cases value
      · exact .inr rfl
      · exact .inl rfl
    · cases ht
  · rintro (rfl | rfl)
    · rw [htruth true hw]
      rfl
    · rw [htruth false hw]
      rfl

theorem spells_settled (h : Kept names flat kept seen) (hl : Flat names flat) :
    Spells names (absorbTruths (joinTruths seen kept)) w ↔
      Spells names kept w ∧
          ¬((w = "true" ∨ w = "false") ∧ (.primitive .boolean ∈ kept ∨ BothTruths kept)) ∨
        w = "boolean" ∧ BothTruths kept := by
  constructor
  · rintro ⟨m, hm, hw⟩
    rcases (mem_settled h hl).mp hm with ⟨hm, htruth⟩ | ⟨rfl, hboth⟩
    · obtain ⟨hplain, hunion⟩ := h.flat hl m hm
      refine .inl ⟨⟨m, hm, hw⟩, fun hc => htruth ?_ hc.2⟩
      exact (hplain.isTruthLiteral_iff hunion hw).mpr hc.1
    · exact .inr ⟨(Except.ok.inj hw).symm, hboth⟩
  · rintro (⟨⟨m, hm, hw⟩, huncovered⟩ | ⟨rfl, hboth⟩)
    · obtain ⟨hplain, hunion⟩ := h.flat hl m hm
      refine ⟨m, (mem_settled h hl).mpr (.inl ⟨hm, fun htruth hc => huncovered ⟨?_, hc⟩⟩), hw⟩
      exact (hplain.isTruthLiteral_iff hunion hw).mp htruth
    · exact ⟨_, (mem_settled h hl).mpr (.inr ⟨rfl, hboth⟩), rfl⟩

theorem spells_settled_flat (h : Kept names flat kept seen) (hl : Flat names flat) :
    Spells names (absorbTruths (joinTruths seen kept)) w ↔
      Spells names flat w ∧ w ≠ "never" ∧ ¬((w = "true" ∨ w = "false") ∧
          (Spells names flat "boolean" ∨ Spells names flat "true" ∧ Spells names flat "false")) ∨
        w = "boolean" ∧ Spells names flat "true" ∧ Spells names flat "false" := by
  have hboth : BothTruths kept ↔ Spells names flat "true" ∧ Spells names flat "false" :=
    (h.bothTruths_iff hl).trans
      (and_congr (hl.spells_truth true).symm (hl.spells_truth false).symm)
  have hboolean : Ty.primitive .boolean ∈ kept ↔ Spells names flat "boolean" :=
    (h.boolean_iff hl).trans (hl.spells_word .boolean).symm
  rw [spells_settled h hl, spells_kept h hl, hboth, hboolean, and_assoc]

/-- Nothing is left when there is nothing but `never`. -/
theorem settled_eq_nil (h : Kept names flat kept seen) (hl : Flat names flat) :
    absorbTruths (joinTruths seen kept) = [] ↔ ∀ v, Spells names flat v → v = "never" := by
  constructor
  · intro hnil v hv
    have hnone (w : String) : ¬Spells names (absorbTruths (joinTruths seen kept)) w := by
      rintro ⟨m, hm, -⟩
      rw [hnil] at hm
      cases hm
    by_contra hne
    by_cases hcovered :
        Spells names flat "boolean" ∨ Spells names flat "true" ∧ Spells names flat "false"
    · refine hnone "boolean" ((spells_settled_flat h hl).mpr ?_)
      exact hcovered.imp (fun hb => ⟨hb, by decide, by simp⟩) fun hboth => ⟨rfl, hboth⟩
    · exact hnone v ((spells_settled_flat h hl).mpr (.inl ⟨hv, hne, fun hc => hcovered hc.2⟩))
  · intro honly
    refine List.eq_nil_iff_forall_not_mem.mpr fun m hm => ?_
    obtain ⟨w, hw, -⟩ := (settled_flat h hl m hm).1.spelled
    rcases (spells_settled_flat h hl).mp ⟨m, hm, hw⟩ with ⟨hw, hne, -⟩ | ⟨-, htrue, -⟩
    · exact hne (honly w hw)
    · exact absurd (honly _ htrue) (by decide)

/-- The texts of the members of a union are what is left of the texts that were joined. -/
theorem Joins.spells (h : Joins names flat t) (hl : Flat names flat) :
    Spells names t.members w ↔ Absorbed (Spells names flat) w := by
  have hsingle {p : Primitive} : Spells names [.primitive p] w ↔ w = p.word :=
    ⟨fun ⟨_, ht, hw⟩ => by
      cases List.mem_singleton.mp ht
      exact (Except.ok.inj hw).symm, fun hw => ⟨_, List.mem_cons_self, hw ▸ rfl⟩⟩
  cases h with
  | any hany =>
    rw [absorbed_of_any ((hl.spells_word .any).mpr hany)]
    exact hsingle
  | unknown hany hunknown =>
    rw [absorbed_of_unknown (mt (hl.spells_word .any).mp hany)
      ((hl.spells_word .unknown).mpr hunknown)]
    exact hsingle
  | @members kept seen hany hunknown hkept =>
    have hSany : ¬Spells names flat "any" := mt (hl.spells_word .any).mp hany
    have hSunknown : ¬Spells names flat "unknown" := mt (hl.spells_word .unknown).mp hunknown
    simp only [Absorbed, hSany, hSunknown, false_and, not_false_eq_true, true_and, false_or]
    by_cases hnil : absorbTruths (joinTruths seen kept) = []
    · have honly := (settled_eq_nil hkept hl).mp hnil
      rw [hnil]
      refine (hsingle (p := .never)).trans ⟨fun hw => .inr (.inr ⟨hw, honly⟩), ?_⟩
      rintro (⟨hw, -⟩ | ⟨-, htrue, -⟩ | ⟨hw, -⟩)
      · exact honly w hw
      · exact absurd (honly _ htrue) (by decide)
      · exact hw
    · rw [members_ofMembers (fun m hm => (settled_flat hkept hl m hm).2) hnil,
        spells_settled_flat hkept hl]
      have honly := mt (settled_eq_nil hkept hl).mpr hnil
      simp only [honly, and_false, or_false]

end

/-! ## The laws -/

/-- Plain types have a union. It is canonical, and no two of its members print alike, unless `boolean`
was joined with both truth values: then a `boolean` is added to the one that is there. The union of a
union alone is that union, with the same exception. Joining everything at once and joining unions of
parts give members of the same texts. Without `any` among the joined types, the union is accepted exactly
where each of them is. -/
theorem unionOf_laws {ts us : List Ty} (hts : ∀ t ∈ ts, Plain names t)
    (hus : ∀ t ∈ us, Plain names t) :
    ∃ t u whole parts, unionOf names ts = .ok t ∧ unionOf names us = .ok u ∧
      unionOf names (ts ++ us) = .ok whole ∧ unionOf names [t, u] = .ok parts ∧ Plain names t ∧
      (∀ ms, t = .union ms → Canonical ms ∧
        (¬SplitBoolean (ts.flatMap Ty.members) → (ms.map (Ty.text names)).Nodup) ∧
        (SplitBoolean (ts.flatMap Ty.members) → ∃ rest, ms = rest ++ [.primitive .boolean] ∧
          .primitive .boolean ∈ rest ∧ (rest.map (Ty.text names)).Nodup)) ∧
      (¬SplitBoolean (ts.flatMap Ty.members) → unionOf names [t] = .ok t) ∧
      (∀ w, Spells names whole.members w ↔ Spells names parts.members w) ∧
      (.any ∉ ts.flatMap Ty.members → ∀ k, t.fits k = true ↔ ∀ t ∈ ts, t.fits k = true) := by
  obtain ⟨t, ht, htjoins⟩ := unionOf_joins hts
  obtain ⟨u, hu, hujoins⟩ := unionOf_joins hus
  have htflat := Plain.flat hts
  have huflat := Plain.flat hus
  have hparts : ∀ p ∈ [t, u], Plain names p := by
    simpa using ⟨htjoins.plain htflat, hujoins.plain huflat⟩
  obtain ⟨whole, hwhole, hwholejoins⟩ := unionOf_joins (List.forall_mem_append.mpr ⟨hts, hus⟩)
  obtain ⟨parts, hpartsEq, hpartsjoins⟩ := unionOf_joins hparts
  refine ⟨t, u, whole, parts, ht, hu, hwhole, hpartsEq, htjoins.plain htflat, ?_,
    htjoins.again htflat, fun w => ?_, fun hany k => ?_⟩
  · rintro ms rfl
    exact htjoins.canonical htflat
  · have hspells (xs ys : List Ty) :
        Spells names (xs ++ ys) = fun v => Spells names xs v ∨ Spells names ys v := by
      funext v
      simp [Spells, or_and_right, exists_or]
    rw [hwholejoins.spells (Plain.flat (List.forall_mem_append.mpr ⟨hts, hus⟩)),
      hpartsjoins.spells (Plain.flat hparts), List.flatMap_append, hspells]
    have hmembers : [t, u].flatMap Ty.members = t.members ++ u.members := by simp
    rw [hmembers, hspells, ← absorbed_absorbed]
    have hpart (v : String) : (Spells names t.members v ∨ Spells names u.members v) ↔
        (Absorbed (Spells names (ts.flatMap Ty.members)) v ∨
          Absorbed (Spells names (us.flatMap Ty.members)) v) :=
      or_congr (htjoins.spells htflat) (hujoins.spells huflat)
    simp only [hpart]
  · rw [htjoins.fits htflat hany]
    constructor
    · exact fun h t ht => fits_members.mpr fun m hm => h m (List.mem_flatMap.mpr ⟨t, ht, hm⟩)
    · intro h m hm
      obtain ⟨t, ht, hm⟩ := List.mem_flatMap.mp hm
      exact fits_members.mp (h t ht) m hm

/-- The parts `string[] | true` and `false | (x: number) => void`. -/
theorem unionOf_laws_truths :
    let ts : List Ty := [.array (.primitive .string), .truthLiteral true]
    let us : List Ty := [.truthLiteral false, .function [("x", .primitive .number)] (.primitive .void)]
    ∃ t u whole parts, unionOf #[] ts = .ok t ∧ unionOf #[] us = .ok u ∧
      unionOf #[] (ts ++ us) = .ok whole ∧ unionOf #[] [t, u] = .ok parts ∧
      (∀ w, Spells #[] whole.members w ↔ Spells #[] parts.members w) ∧
      ∀ k, t.fits k = true ↔ ∀ t ∈ ts, t.fits k = true := by
  intro ts us
  have hts : ∀ t ∈ ts, Plain #[] t := by
    simp only [ts, List.forall_mem_cons]
    exact ⟨.array (.primitive _), .truthLiteral _, nofun⟩
  have hus : ∀ t ∈ us, Plain #[] t := by
    have hnames : ∀ p ∈ [("x", Ty.primitive .number)], IsName p.1 :=
      List.forall_mem_singleton.mpr
        (List.all_eq_true.mp (by decide : "x".toList.all TypeScript.isNamePart = true))
    simp only [us, List.forall_mem_cons]
    exact ⟨.truthLiteral _, .function hnames (List.forall_mem_singleton.mpr (.primitive _)) (.primitive _),
      nofun⟩
  obtain ⟨t, u, whole, parts, ht, hu, hwhole, hparts, -, -, -, htexts, hfits⟩ := unionOf_laws hts hus
  have hany : .any ∉ ts.flatMap Ty.members := by simp [ts, Ty.members]
  exact ⟨t, u, whole, parts, ht, hu, hwhole, hparts, htexts, hfits hany⟩

/-- Beside both truth values `boolean` becomes a member twice. -/
example : unionOf #[] [.primitive .boolean, .truthLiteral true, .truthLiteral false] =
    .ok (.union [.primitive .boolean, .primitive .boolean]) := rfl

end ScriptBridge.Typing

import ScriptBridge.Proofs.Number.Numeral
import ScriptBridge.TypeScript.Token
import ScriptBridge.Typing.Union

/-!
# What the text of a type tells

Types are compared by their texts, though different types can have one text, such as two unnamed records
of equal members, or the literals of a zero of either sign. What a text does tell is where the type can be
used.

* `Plain`: types that are written out, with nothing in them that goes by a name.
* `Plain.spelled`: such a type has a text, and the parentheses in it that are not quoted are balanced.
* `look`: what the text of a type looks like; `Plain.look_eq` reads it off the text.
* `Plain.fits_eq`: types of equal text are accepted in the same places.

A function `(x: A) => B[]` and an array `((x: A) => B)[]` begin and end alike. What tells them apart is what
stands behind the parenthesis that closes the first one (`behindClose`).
-/

namespace ScriptBridge.Typing

variable {names : RecordNames} {t u : Ty} {w : String}

/-! ## Plain types -/

/-- A name that is written without quotes. -/
def IsName (name : String) : Prop :=
  ∀ c ∈ name.toList, TypeScript.isNamePart c = true

/-- Whether a type is a union. -/
def Ty.isUnion : Ty → Bool
  | .union _ => true
  | _ => false

/-- Types that are written out: primitive types, literals, arrays, tuples, unnamed records and functions
with identifiers for names, and unions of such types. -/
inductive Plain (names : RecordNames) : Ty → Prop
  | primitive (p : Primitive) : Plain names (.primitive p)
  | textLiteral (value : String) : Plain names (.textLiteral value)
  | numberLiteral {value : Double} (h : value.isFinite = true) : Plain names (.numberLiteral value)
  | truthLiteral (value : Bool) : Plain names (.truthLiteral value)
  | array {element : Ty} (h : Plain names element) : Plain names (.array element)
  | tuple {elements : List Ty} (h : ∀ t ∈ elements, Plain names t) : Plain names (.tuple elements)
  | record {id : ShapeId} {properties : List (String × Ty)} {index : Option Ty}
      (unnamed : ∀ name, names[id]? ≠ some (some name)) (hnames : ∀ p ∈ properties, IsName p.1)
      (h : ∀ p ∈ properties, Plain names p.2) (hindex : ∀ t ∈ index, Plain names t) :
      Plain names (.record id properties index)
  | function {params : List (String × Ty)} {result : Ty} (hnames : ∀ p ∈ params, IsName p.1)
      (h : ∀ p ∈ params, Plain names p.2) (hresult : Plain names result) :
      Plain names (.function params result)
  | union {members : List Ty} (h : ∀ t ∈ members, Plain names t)
      (hflat : ∀ t ∈ members, t.isUnion = false) : Plain names (.union members)

/-! ## Parentheses in texts -/

/-- Whether a character is read outside of quotes, between them, or behind a backslash. -/
inductive Scan where
  | outside
  | quoted
  | escaped

/-- What is behind the parenthesis that closes the one which encloses `depth` open ones. Parentheses
between quotes do not count. -/
def behindClose : Scan → Nat → List Char → List Char
  | _, _, [] => []
  | .escaped, depth, _ :: cs => behindClose .quoted depth cs
  | .quoted, depth, c :: cs =>
    behindClose (if c = '\\' then .escaped else if c = '"' then .outside else .quoted) depth cs
  | .outside, depth, c :: cs =>
    if c = '"' then behindClose .quoted depth cs
    else if c = '(' then behindClose .outside (depth + 1) cs
    else if c = ')' then
      match depth with
      | 0 => cs
      | depth + 1 => behindClose .outside depth cs
    else behindClose .outside depth cs

theorem behindClose_cons {depth : Nat} {c : Char} {cs : List Char} (hclose : c ≠ ')') :
    behindClose .outside depth (c :: cs) =
      if c = '"' then behindClose .quoted depth cs
      else if c = '(' then behindClose .outside (depth + 1) cs
      else behindClose .outside depth cs := by
  cases depth <;> simp only [behindClose, if_neg hclose]

/-- A text that opens as many parentheses as it closes, each before it is closed. -/
def Balanced (w : String) : Prop :=
  ∀ depth rest, behindClose .outside depth (w.toList ++ rest) = behindClose .outside depth rest

namespace Balanced

theorem append {v : String} (hv : Balanced v) (hw : Balanced w) : Balanced (v ++ w) := by
  intro depth rest
  rw [String.toList_append, List.append_assoc, hv, hw]

/-- A text without quotes and parentheses. -/
theorem of_chars (h : ∀ c ∈ w.toList, c ∉ ['"', '(', ')']) : Balanced w := by
  intro depth rest
  generalize w.toList = cs at h
  induction cs with
  | nil => rfl
  | cons c cs ih =>
    obtain ⟨hc, hcs⟩ := List.forall_mem_cons.mp h
    simp only [List.mem_cons, List.not_mem_nil, or_false, not_or] at hc
    rw [List.cons_append, behindClose_cons hc.2.2, if_neg hc.1, if_neg hc.2.1, ih hcs]

/-- A text of which it can be computed that it has no quotes and parentheses. -/
theorem of_any (h : w.toList.any ['"', '(', ')'].contains = false) : Balanced w :=
  of_chars fun c hc hmem =>
    List.any_eq_false.mp h c hc (List.contains_iff_mem.mpr hmem)

theorem isName (h : IsName w) : Balanced w := by
  refine of_chars fun c hc hmem => ?_
  have hpart := h c hc
  simp only [List.mem_cons, List.not_mem_nil, or_false] at hmem
  rcases hmem with rfl | rfl | rfl <;> exact absurd hpart (by decide)

/-- Behind the parenthesis that closes around a balanced text. -/
theorem behind (h : Balanced w) (rest : List Char) :
    behindClose .outside 0 (w.toList ++ ')' :: rest) = rest := by
  rw [h]
  rfl

/-- A text in parentheses, and more. -/
theorem parens_append {v : String} (h : Balanced w) (hv : Balanced v) :
    Balanced ("(" ++ w ++ (")" ++ v)) := by
  intro depth rest
  rw [String.toList_append, String.toList_append, String.toList_append, List.append_assoc,
    List.append_assoc, List.append_assoc]
  show behindClose .outside (depth + 1) (w.toList ++ ')' :: (v.toList ++ rest)) = _
  rw [h]
  exact hv depth rest

theorem intercalate {mark : String} {ws : List String} (hmark : Balanced mark)
    (h : ∀ w ∈ ws, Balanced w) : Balanced (mark.intercalate ws) := by
  induction ws with
  | nil => exact of_chars (by simp)
  | cons w ws ih =>
    obtain ⟨hw, hws⟩ := List.forall_mem_cons.mp h
    cases ws with
    | nil => rwa [String.intercalate_singleton]
    | cons next ws =>
      rw [String.intercalate_cons_cons]
      exact (hw.append hmark).append (ih hws)

/-- Between the quotes of a literal no quote ends it. -/
theorem quotedChar (c : Char) (depth : Nat) (rest : List Char) :
    behindClose .quoted depth ((quotedChar c).toList ++ rest) = behindClose .quoted depth rest := by
  unfold Typing.quotedChar
  split
  · rfl
  · rfl
  · rfl
  · rename_i hslash hquote _
    rw [String.toList_ofList, List.singleton_append, behindClose, if_neg hslash, if_neg hquote]

theorem quotedText (value : String) : Balanced (quotedText value) := by
  intro depth rest
  have hinner (cs : List Char) (rest : List Char) :
      behindClose .quoted depth ((String.join (cs.map Typing.quotedChar)).toList ++ rest) =
        behindClose .quoted depth rest := by
    induction cs with
    | nil => rfl
    | cons c cs ih =>
      rw [List.map_cons, String.join_cons, String.toList_append, List.append_assoc, quotedChar, ih]
  rw [Typing.quotedText, String.toList_append, String.toList_append, List.append_assoc,
    List.append_assoc]
  exact (hinner value.toList _).trans rfl

theorem braced {members : List String} (h : ∀ w ∈ members, Balanced w) :
    Balanced (bracedText members) := by
  unfold bracedText
  split
  · exact of_any (by decide)
  · exact (append (of_any (by decide)) (intercalate (of_any (by decide)) h)).append
      (of_any (by decide))

end Balanced

/-- The text of a finite number is a numeral, maybe with a sign. -/
theorem numberText_finite {x : Double} (h : x.isFinite = true) :
    ∃ c cs, numberText x = .ok (String.ofList (c :: cs)) ∧ (c = '-' ∨ isDigit c = true) ∧
      ∀ d ∈ c :: cs, d = '-' ∨ isNumeralChar d = true := by
  obtain ⟨n, hw, -⟩ := writeMagnitude_numeral typeLayout h
  obtain ⟨c, cs, htext, hc⟩ := n.text_eq_cons
  have hfinite : x.isInfinite = false := by
    simp only [Double.isFinite, decide_eq_true_eq] at h
    simp only [Double.isInfinite, Bool.and_eq_false_iff, beq_eq_false_iff_ne]
    exact .inl (by omega)
  have hchars : ∀ d ∈ c :: cs, d = '-' ∨ isNumeralChar d = true :=
    fun d hd => .inr (n.text_chars d (htext ▸ hd))
  rw [numberText, if_neg (by simp [Double.isNaN_of_finite h]), if_neg (by simp [hfinite]), hw, htext]
  split
  · refine ⟨'-', c :: cs, ?_, .inl rfl, List.forall_mem_cons.mpr ⟨.inl rfl, hchars⟩⟩
    rw [show ("-" : String) = String.ofList ['-'] from rfl, ← String.ofList_append]
    rfl
  · exact ⟨c, cs, by rw [String.empty_append], .inr hc, hchars⟩

/-! ## Plain types have texts -/

theorem texts_spelled {ts : List Ty} (h : ∀ t ∈ ts, ∃ w, t.text names = .ok w ∧ Balanced w) :
    ∃ ws, Ty.texts names ts = .ok ws ∧ ∀ w ∈ ws, Balanced w := by
  induction ts with
  | nil => exact ⟨[], rfl, nofun⟩
  | cons t ts ih =>
    obtain ⟨ht, hts⟩ := List.forall_mem_cons.mp h
    obtain ⟨w, hw, hbalanced⟩ := ht
    obtain ⟨ws, hws, hall⟩ := ih hts
    refine ⟨w :: ws, ?_, List.forall_mem_cons.mpr ⟨hbalanced, hall⟩⟩
    simp only [Ty.texts, hw, hws, bind, Except.bind, pure, Except.pure]

theorem memberTexts_spelled {members : List (String × Ty)} {mark : String} (hmark : Balanced mark)
    (hnames : ∀ p ∈ members, IsName p.1)
    (h : ∀ p ∈ members, ∃ w, p.2.text names = .ok w ∧ Balanced w) :
    ∃ ws, Ty.memberTexts names mark members = .ok ws ∧ ∀ w ∈ ws, Balanced w := by
  induction members with
  | nil => exact ⟨[], rfl, nofun⟩
  | cons member members ih =>
    obtain ⟨hname, hnames⟩ := List.forall_mem_cons.mp hnames
    obtain ⟨ht, hts⟩ := List.forall_mem_cons.mp h
    obtain ⟨w, hw, hbalanced⟩ := ht
    obtain ⟨ws, hws, hall⟩ := ih hnames hts
    have hmember : Balanced (member.1 ++ ": " ++ w ++ mark) :=
      (((Balanced.isName hname).append (.of_any (by decide))).append hbalanced).append hmark
    refine ⟨_ :: ws, ?_, List.forall_mem_cons.mpr ⟨hmember, hall⟩⟩
    simp only [Ty.memberTexts, hw, hws, bind, Except.bind, pure, Except.pure]

theorem indexText_spelled {index : Option Ty}
    (h : ∀ t ∈ index, ∃ w, t.text names = .ok w ∧ Balanced w) :
    ∃ ws, Ty.indexText names index = .ok ws ∧ ∀ w ∈ ws, Balanced w := by
  cases index with
  | none => exact ⟨[], rfl, nofun⟩
  | some t =>
    obtain ⟨w, hw, hbalanced⟩ := h t rfl
    have hmember : Balanced ("[x: string]: " ++ w ++ ";") :=
      (Balanced.append (.of_any (by decide)) hbalanced).append (.of_any (by decide))
    refine ⟨[_], ?_, List.forall_mem_singleton.mpr hmember⟩
    simp only [Ty.indexText, hw, bind, Except.bind, pure, Except.pure]

section
variable {element result : Ty} {elements : List Ty} {inner : String} {ws : List String}

theorem text_array (h : element.text names = .ok inner) :
    (Ty.array element).text names =
      .ok (if element.isCompound then "(" ++ inner ++ ")[]" else inner ++ "[]") := by
  simp only [Ty.text, h, bind, Except.bind, pure, Except.pure]

theorem text_tuple (h : Ty.texts names elements = .ok ws) :
    (Ty.tuple elements).text names = .ok ("[" ++ ", ".intercalate ws ++ "]") := by
  simp only [Ty.text, h, bind, Except.bind, pure, Except.pure]

theorem text_function {params : List (String × Ty)} (h : Ty.memberTexts names "" params = .ok ws)
    (hresult : result.text names = .ok inner) :
    (Ty.function params result).text names =
      .ok ("(" ++ ", ".intercalate ws ++ ") => " ++ inner) := by
  simp only [Ty.text, h, hresult, bind, Except.bind, pure, Except.pure]

/-- The text of a record that goes by no name. -/
theorem text_unnamed {id : ShapeId} {properties : List (String × Ty)} {index : Option Ty}
    {rest : List String} (unnamed : ∀ name, names[id]? ≠ some (some name))
    (hindex : Ty.indexText names index = .ok rest)
    (h : Ty.memberTexts names ";" properties = .ok ws) :
    (Ty.record id properties index).text names = .ok (bracedText (rest ++ ws)) := by
  rw [Ty.text]
  split
  · rename_i name hname
    exact absurd hname (unnamed name)
  · simp only [hindex, h, bind, Except.bind, pure, Except.pure]

end

/-- A plain type has a text, with balanced parentheses. -/
theorem Plain.spelled (h : Plain names t) : ∃ w, t.text names = .ok w ∧ Balanced w := by
  induction h with
  | primitive p => exact ⟨p.word, rfl, .of_any (by cases p <;> decide)⟩
  | textLiteral value => exact ⟨_, rfl, .quotedText value⟩
  | numberLiteral h =>
    obtain ⟨c, cs, hw, -, hchars⟩ := numberText_finite h
    refine ⟨_, hw, .of_chars fun d hd hmem => ?_⟩
    rw [String.toList_ofList] at hd
    simp only [List.mem_cons, List.not_mem_nil, or_false] at hmem
    rcases hchars d hd with rfl | hnumeral
    · exact absurd hmem (by decide)
    · rcases hmem with rfl | rfl | rfl <;> exact absurd hnumeral (by decide)
  | truthLiteral value => exact ⟨_, rfl, .of_any (by cases value <;> decide)⟩
  | array _ ih =>
    obtain ⟨w, hw, hbalanced⟩ := ih
    refine ⟨_, text_array hw, ?_⟩
    split
    · rw [show (")[]" : String) = ")" ++ "[]" by decide]
      exact hbalanced.parens_append (.of_any (by decide))
    · exact hbalanced.append (.of_any (by decide))
  | tuple _ ih =>
    obtain ⟨ws, hws, hall⟩ := texts_spelled ih
    have hinner : Balanced (", ".intercalate ws) := .intercalate (.of_any (by decide)) hall
    refine ⟨_, text_tuple hws, ?_⟩
    exact (Balanced.append (.of_any (by decide)) hinner).append (.of_any (by decide))
  | record unnamed hnames _ _ ih ihindex =>
    obtain ⟨rest, hrest, hallrest⟩ := indexText_spelled ihindex
    have hmark : Balanced ";" := .of_any (by decide)
    obtain ⟨ws, hws, hall⟩ := memberTexts_spelled hmark hnames ih
    refine ⟨_, text_unnamed unnamed hrest hws, ?_⟩
    exact .braced (List.forall_mem_append.mpr ⟨hallrest, hall⟩)
  | function hnames _ _ ih ihresult =>
    have hmark : Balanced "" := .of_any (by decide)
    obtain ⟨ws, hws, hall⟩ := memberTexts_spelled hmark hnames ih
    obtain ⟨w, hw, hbalanced⟩ := ihresult
    have hparams : Balanced (", ".intercalate ws) := .intercalate (.of_any (by decide)) hall
    refine ⟨_, text_function hws hw, ?_⟩
    rw [show (") => " : String) = ")" ++ " => " by decide]
    exact (hparams.parens_append (.of_any (by decide))).append hbalanced
  | union _ _ ih =>
    obtain ⟨ws, hws, hall⟩ := texts_spelled ih
    refine ⟨" | ".intercalate ws, ?_, .intercalate (.of_any (by decide)) hall⟩
    simp only [Ty.text, hws, bind, Except.bind, pure, Except.pure]

theorem Plain.texts_ok {ts : List Ty} (h : ∀ t ∈ ts, Plain names t) :
    ∃ ws, Ty.texts names ts = .ok ws ∧ ∀ w ∈ ws, Balanced w :=
  texts_spelled fun t ht => (h t ht).spelled

theorem Plain.memberTexts_ok {members : List (String × Ty)} {mark : String} (hmark : Balanced mark)
    (hnames : ∀ p ∈ members, IsName p.1) (h : ∀ p ∈ members, Plain names p.2) :
    ∃ ws, Ty.memberTexts names mark members = .ok ws ∧ ∀ w ∈ ws, Balanced w :=
  memberTexts_spelled hmark hnames fun p hp => (h p hp).spelled

/-! ## What a text looks like -/

/-- What can be seen of a type in its text: arrays and tuples are lists. -/
inductive Look where
  | list
  | object
  | quoted
  | numeral
  | word (text : String)

/-- What a text looks like. -/
def look (w : String) : Look :=
  match w.toList with
  | [] => .word w
  | c :: cs =>
    if c = '(' then
      if (behindClose .outside 0 cs).head? = some '[' then .list else .object
    else if (c :: cs).getLast? = some ']' then .list
    else if c = '\x7b' then .object
    else if c = '"' then .quoted
    else if c = '-' ∨ isDigit c = true then .numeral
    else .word w

/-- What the text of a type looks like; for unions there is no one answer. -/
def Ty.look : Ty → Look
  | .primitive p => .word p.word
  | .truthLiteral value => .word (if value then "true" else "false")
  | .textLiteral _ => .quoted
  | .numberLiteral _ => .numeral
  | .array _ | .tuple _ => .list
  | .record .. | .declared .. | .function .. => .object
  | .union _ => .word ""

section
variable {cs : List Char}

theorem bracedText_chars (members : List String) :
    ∃ cs, (bracedText members).toList = '\x7b' :: (cs ++ ['\x7d']) := by
  unfold bracedText
  split
  · exact ⟨[], rfl⟩
  · refine ⟨' ' :: (" ".intercalate members).toList ++ [' '], ?_⟩
    rw [String.toList_append, String.toList_append]
    show '\x7b' :: ' ' :: (_ ++ [' ', '\x7d']) = _
    simp

theorem Plain.record_text {id : ShapeId} {properties : List (String × Ty)} {index : Option Ty}
    (h : Plain names (.record id properties index))
    (hw : (Ty.record id properties index).text names = .ok w) :
    ∃ members, w = bracedText members := by
  cases h with
  | record unnamed hnames h hindex =>
    obtain ⟨rest, hrest, -⟩ := indexText_spelled fun t ht => (hindex t ht).spelled
    have hmark : Balanced ";" := .of_any (by decide)
    obtain ⟨ws, hws, -⟩ := memberTexts_ok hmark hnames h
    rw [text_unnamed unnamed hrest hws] at hw
    exact ⟨_, (Except.ok.inj hw).symm⟩

/-- The text of an array or another type without parentheses around it that begins with one is an array:
a bracket stands behind the parenthesis that closes it. -/
theorem Plain.behind_paren (h : Plain names t) (hc : t.isCompound = false)
    (hw : t.text names = .ok w) (hcs : w.toList = '(' :: cs) :
    ∃ (inner : String) (more : List Char), Balanced inner ∧ cs = inner.toList ++ ')' :: '[' :: more := by
  induction h generalizing w cs with
  | primitive p =>
    cases hw
    have hfirst : p.word.toList.head? = some '(' := congrArg List.head? hcs
    cases p <;> exact absurd hfirst (by decide)
  | textLiteral value =>
    cases hw
    rw [quotedText, String.toList_append, String.toList_append] at hcs
    exact absurd (congrArg List.head? hcs) (by simp)
  | numberLiteral h =>
    obtain ⟨c, rest, htext, hfirst, -⟩ := numberText_finite h
    rw [Ty.text, htext] at hw
    cases hw
    rw [String.toList_ofList] at hcs
    cases hcs
    exact absurd hfirst (by decide)
  | truthLiteral value =>
    cases hw
    have hfirst : (if value then "true" else "false").toList.head? = some '(' :=
      congrArg List.head? hcs
    cases value <;> exact absurd hfirst (by decide)
  | @array element helement ih =>
    obtain ⟨inner, hinner, hbalanced⟩ := helement.spelled
    rw [text_array hinner] at hw
    cases hw
    by_cases hcompound : element.isCompound = true
    · rw [if_pos hcompound, String.toList_append, String.toList_append] at hcs
      exact ⟨inner, [']'], hbalanced, by simpa using (List.cons.inj hcs).2.symm⟩
    rw [if_neg hcompound, String.toList_append] at hcs
    cases hchars : inner.toList with
    | nil =>
      rw [hchars] at hcs
      exact absurd (congrArg List.head? hcs) (by simp)
    | cons c rest =>
      rw [hchars, List.cons_append] at hcs
      obtain ⟨rfl, rfl⟩ := List.cons.inj hcs
      obtain ⟨v, more, hv, rfl⟩ := ih (by simpa using hcompound) hinner hchars
      exact ⟨v, more ++ ['[', ']'], hv, by simp⟩
  | tuple h _ =>
    obtain ⟨ws, hws, -⟩ := texts_ok h
    rw [text_tuple hws] at hw
    cases hw
    rw [String.toList_append, String.toList_append] at hcs
    exact absurd (congrArg List.head? hcs) (by simp)
  | record unnamed hnames h hindex =>
    obtain ⟨members, rfl⟩ := (Plain.record unnamed hnames h hindex).record_text hw
    obtain ⟨inner, hinner⟩ := bracedText_chars members
    rw [hinner] at hcs
    exact absurd (congrArg List.head? hcs) (by simp)
  | function => cases hc
  | union => cases hc

/-- A text that does not begin with a parenthesis looks like what its first and last characters are. -/
theorem look_of_chars {c : Char} (hw : w.toList = c :: cs) (hc : c ≠ '(') :
    look w =
      if (c :: cs).getLast? = some ']' then .list
      else if c = '\x7b' then .object
      else if c = '"' then .quoted
      else if c = '-' ∨ isDigit c = true then .numeral
      else .word w := by
  rw [look, hw]
  exact if_neg hc

/-- A text that begins with a parenthesis is told by what is behind the one that closes it. -/
theorem look_paren (hw : w.toList = '(' :: cs) :
    look w = if (behindClose .outside 0 cs).head? = some '[' then .list else .object := by
  rw [look, hw]
  exact if_pos rfl

theorem look_parens (hw : Balanced w) (v : String) :
    look ("(" ++ w ++ (")" ++ v)) = if v.toList.head? = some '[' then .list else .object := by
  have hchars : ("(" ++ w ++ (")" ++ v)).toList = '(' :: (w.toList ++ ')' :: v.toList) := by
    rw [String.toList_append, String.toList_append, String.toList_append]
    rfl
  rw [look_paren hchars, hw.behind]

/-- What the text of a plain type looks like tells what the type is. -/
theorem Plain.look_eq (h : Plain names t) (hu : t.isUnion = false) (hw : t.text names = .ok w) :
    look w = t.look := by
  cases h with
  | primitive p =>
    cases hw
    cases p <;> rfl
  | textLiteral value =>
    cases hw
    have hchars : (quotedText value).toList =
        '"' :: ((String.join (value.toList.map quotedChar)).toList ++ ['"']) := by
      rw [quotedText, String.toList_append, String.toList_append]
      rfl
    rw [look_of_chars hchars (by decide), ← List.cons_append, List.getLast?_concat]
    rfl
  | numberLiteral h =>
    obtain ⟨c, cs, htext, hfirst, hchars⟩ := numberText_finite h
    rw [Ty.text, htext] at hw
    cases hw
    have hne (d : Char) (hd : ¬(d = '-' ∨ isDigit d = true)) : c ≠ d := fun he => hd (he ▸ hfirst)
    have hlast : (c :: cs).getLast? ≠ some ']' :=
      fun he => absurd (hchars ']' (List.mem_of_getLast? he)) (by decide)
    rw [look_of_chars (String.toList_ofList) (hne _ (by decide)), if_neg hlast,
      if_neg (hne _ (by decide)), if_neg (hne _ (by decide)), if_pos hfirst]
    rfl
  | truthLiteral value =>
    cases hw
    cases value <;> rfl
  | @array element helement =>
    obtain ⟨inner, hinner, hbalanced⟩ := helement.spelled
    rw [text_array hinner] at hw
    cases hw
    split
    case isTrue =>
      rw [show (")[]" : String) = ")" ++ "[]" by decide, look_parens hbalanced]
      rfl
    case isFalse hcompound =>
      cases hchars : inner.toList with
      | nil =>
        rw [String.toList_eq_nil_iff.mp hchars]
        rfl
      | cons c cs =>
        have happend : (inner ++ "[]").toList = c :: (cs ++ ['[', ']']) := by
          rw [String.toList_append, hchars]
          rfl
        by_cases hc : c = '('
        · subst hc
          obtain ⟨v, more, hv, rfl⟩ :=
            helement.behind_paren (by simpa using hcompound) hinner hchars
          rw [List.append_assoc, List.cons_append] at happend
          rw [look_paren happend, hv.behind]
          rfl
        · have hlast : (c :: (cs ++ ['[', ']'])).getLast? = some ']' := by
            rw [show c :: (cs ++ ['[', ']']) = (c :: cs ++ ['[']) ++ [']'] by simp]
            exact List.getLast?_concat
          rw [look_of_chars happend hc, if_pos hlast]
          rfl
  | tuple h =>
    obtain ⟨ws, hws, -⟩ := texts_ok h
    rw [text_tuple hws] at hw
    cases hw
    have hchars : ("[" ++ ", ".intercalate ws ++ "]").toList =
        '[' :: ((", ".intercalate ws).toList ++ [']']) := by
      rw [String.toList_append, String.toList_append]
      rfl
    rw [look_of_chars hchars (by decide), ← List.cons_append, List.getLast?_concat]
    rfl
  | record unnamed hnames h hindex =>
    obtain ⟨members, rfl⟩ := (Plain.record unnamed hnames h hindex).record_text hw
    obtain ⟨inner, hinner⟩ := bracedText_chars members
    rw [look_of_chars hinner (by decide), ← List.cons_append, List.getLast?_concat]
    rfl
  | function hnames h hresult =>
    have hmark : Balanced "" := .of_any (by decide)
    obtain ⟨ws, hws, hall⟩ := memberTexts_ok hmark hnames h
    obtain ⟨inner, hinner, -⟩ := hresult.spelled
    have hparams : Balanced (", ".intercalate ws) := .intercalate (.of_any (by decide)) hall
    rw [text_function hws hinner] at hw
    cases hw
    have hassoc : "(" ++ ", ".intercalate ws ++ ") => " ++ inner =
        "(" ++ ", ".intercalate ws ++ (")" ++ (" => " ++ inner)) := by
      rw [show (") => " : String) = ")" ++ " => " by decide]
      simp only [String.append_assoc]
    rw [hassoc, look_parens hparams, String.toList_append]
    rfl
  | union => cases hu

end

theorem word_injective {p q : Primitive} (h : p.word = q.word) : p = q := by
  cases p <;> cases q <;> first | rfl | exact absurd h (by decide)

/-- The types that look like a word are the primitive types and the truth values. -/
theorem eq_of_look_word {v : String} (ht : t.isUnion = false) (hu : u.isUnion = false)
    (h : t.look = .word v) (h' : u.look = .word v) : t = u := by
  have hne (p : Primitive) (value : Bool) : p.word ≠ if value then "true" else "false" := by
    cases p <;> cases value <;> decide
  cases t with
  | primitive p =>
    cases u with
    | primitive q =>
      cases h
      rw [word_injective (Look.word.inj h')]
    | truthLiteral value =>
      cases h
      exact absurd (Look.word.inj h').symm (hne p value)
    | union => cases hu
    | _ => cases h'
  | truthLiteral value =>
    cases u with
    | primitive q =>
      cases h
      exact absurd (Look.word.inj h') (hne q value)
    | truthLiteral value' =>
      cases h
      cases value <;> cases value' <;> first | rfl | exact absurd (Look.word.inj h') (by decide)
    | union => cases hu
    | _ => cases h'
  | union => cases ht
  | _ => cases h

/-- Types that look alike are accepted in the same places. -/
theorem fits_eq_of_look (ht : t.isUnion = false) (hu : u.isUnion = false) (h : t.look = u.look)
    (k : Kind) : t.fits k = u.fits k := by
  cases hlook : t.look with
  | word v => rw [eq_of_look_word ht hu hlook (h ▸ hlook)]
  | _ =>
    rw [hlook] at h
    cases t <;> cases hlook <;> cases u <;> cases h <;> simp only [Ty.fits]

/-- Where a plain type can be used is told by its text. -/
theorem Plain.fits_eq (ht : Plain names t) (hu : Plain names u) (htu : t.isUnion = false)
    (huu : u.isUnion = false) (hwt : t.text names = .ok w) (hwu : u.text names = .ok w) (k : Kind) :
    t.fits k = u.fits k := by
  have hlook : t.look = u.look := (ht.look_eq htu hwt).symm.trans (hu.look_eq huu hwu)
  exact fits_eq_of_look htu huu hlook k

end ScriptBridge.Typing

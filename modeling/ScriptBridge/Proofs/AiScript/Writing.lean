import ScriptBridge.Proofs.AiScript.Templates

/-!
# Texts of nodes, form by form

For each form of node: if the texts of its parts are read as the parts, then its own text is read as
the node. The cost of reading a text is twice its length, and one more for a statement.

* `WrittenExpression`, `WrittenStatement`, `WrittenBody`: texts at each position.
* `written_call`, `written_cond`, `written_each` and so on, one for each form.
-/

namespace ScriptBridge.AiScript

/-- A text that is read as an expression. -/
abbrev WrittenExpression (n : Node) (t : String) : Prop :=
  Written (fun len => ReadsExpression (2 * len) n) t

/-- A text that is read as a statement. -/
abbrev WrittenStatement (n : Node) (t : String) : Prop :=
  Written (fun len => ReadsStatement (2 * len + 1) n) t

/-- A text that is read as a body. -/
abbrev WrittenBody (n : Node) (t : String) : Prop :=
  Written (fun len => ReadsBody (2 * len + 1) n) t

variable {n m : Node} {l : Loc} {t u : String} {s s' : List Char} {P : Tokens}

theorem head_append (h : s.head? ≠ some '=') (h' : s'.head? ≠ some '=') :
    (s ++ s').head? ≠ some '=' := by
  cases s with
  | nil => exact h'
  | cons c s => exact h

theorem Written.of_any {R : Nat → Tokens} (hh : t.toList.head? ≠ some '=')
    (h : Lexes (fun _ => True) t.toList (R t.toList.length)) : Written R t :=
  ⟨hh, h.of_delimiter fun _ _ => trivial⟩

/-- The signs that stand on their own. -/
def punctuation : List String :=
  ["(", ")", "[", "]", "\x7b", "\x7d", ",", ":", ".", "?", "@"]

theorem lexes_punctuation (w : String) (h : w ∈ punctuation) :
    Lexes (fun _ => True) w.toList (.one .op w) := by
  simp only [punctuation, List.mem_cons, List.not_mem_nil, or_false] at h
  rcases h with rfl | rfl | rfl | rfl | rfl | rfl | rfl | rfl | rfl | rfl | rfl <;>
    exact lexes_bracket (by decide)

theorem delimits_punctuation (w : String) (h : w ∈ [")", "]", "\x7d", ",", "[", "(", "?"])
    (rest : List Char) : Delimits (w.toList ++ rest) := by
  simp only [List.mem_cons, List.not_mem_nil, or_false] at h
  rcases h with rfl | rfl | rfl | rfl | rfl | rfl | rfl <;> exact delimits_cons (by decide) _

/-! ## Leaves -/

theorem IsPath.head {name : String} (h : IsPath name) : name.toList.head? ≠ some '=' := by
  obtain ⟨first, more, hname, hfirst, -⟩ := h
  cases first with
  | nil => cases hfirst
  | cons c cs =>
    rw [isSegment, Bool.and_eq_true] at hfirst
    rw [hname]
    rintro ⟨⟩
    exact absurd hfirst.1 (by decide)

theorem IsPath.not_mark {name : String} (h : IsPath name) : name ∉ "\x7b" :: innerWords := by
  have hkeyword : keywords.contains name = false := h.not_keyword
  obtain ⟨first, more, hname, hfirst, -⟩ := h
  intro hm
  have hmarks : ∀ w ∈ "\x7b" :: innerWords, w ∈ keywords ∨
      w.toList.head?.all (!isNameStart ·) = true := by decide
  rcases hmarks name hm with hk | hs
  · simp [hk] at hkeyword
  · cases first with
    | nil => cases hfirst
    | cons c cs =>
      rw [isSegment, Bool.and_eq_true] at hfirst
      simp [hname, hfirst.1] at hs

theorem written_ident {name : String} (h : IsPath name) (l : Loc) :
    WrittenExpression (.ident l name) name := by
  have hne : name.toList ≠ [] := by
    obtain ⟨first, more, hname, hfirst, -⟩ := h
    cases first with
    | nil => cases hfirst
    | cons c cs => simp [hname]
  refine ⟨h.head, (lexes_name h).imp ?_⟩
  rintro newline space _ ⟨t, rfl, ht⟩
  exact reads_ident ht h.not_mark (by have := List.length_pos_iff.mpr hne; omega)

theorem written_str (l : Loc) (value : String) : WrittenExpression (.str l value) (quote value) := by
  have hquote : (quote value).toList = '"' :: (value.toList.flatMap quoteChar ++ ['"']) := by
    rw [quote, String.toList_ofList, List.cons_append]
  refine .of_any (by simp [hquote]) ((lexes_quote value).imp ?_)
  rintro newline space _ ⟨t, rfl, ht⟩
  exact reads_str ht (by simp [hquote])

theorem written_bool (l : Loc) (value : Bool) :
    WrittenExpression (.bool l value) (if value then "true" else "false") := by
  have hword : (if value then "true" else "false") ∈ keywords := by cases value <;> decide
  refine ⟨by cases value <;> decide, (lexes_keyword hword).imp ?_⟩
  rintro newline space _ ⟨t, rfl, ht⟩
  exact reads_bool ht (by cases value <;> decide)

theorem written_null (l : Loc) : WrittenExpression (.null l) "null" := by
  refine ⟨by decide, (lexes_keyword (by decide)).imp ?_⟩
  rintro newline space _ ⟨t, rfl, ht⟩
  exact reads_null ht (by decide)

theorem numeralValue_text (k : Numeral) : numeralValue (String.ofList k.text) = k.toDouble := by
  rw [numeralValue, k.ofText?_text, Option.getD_some]

theorem numeral_not_word (k : Numeral) : String.ofList k.text ∉ innerWords ++ statementWords := by
  obtain ⟨c, cs, hk, hc⟩ := k.text_eq_cons
  have hall : ∀ w ∈ innerWords ++ statementWords, w.toList.head?.all (!isDigit ·) = true := by
    decide
  intro hm
  have := hall _ hm
  simp [hk, hc] at this

theorem written_num {x : Double} (hx : x.isFinite = true) (l : Loc) :
    ∃ t, numberText x = .ok t ∧ WrittenExpression (.num l x) t := by
  obtain ⟨k, hk, hvalue⟩ := writeMagnitude_numeral numberLayout hx
  obtain ⟨c, cs, htext, hc⟩ := k.text_eq_cons
  have hlex := lexes_number k
  have hmagnitude : (numberLayout.writeMagnitude x).toList = k.text := by
    rw [hk, String.toList_ofList]
  have hvalue : numeralValue (String.ofList k.text) = x.abs := by rw [numeralValue_text, hvalue]
  rw [numberText, hx]
  cases hn : x.isNegative with
  | false =>
    refine ⟨_, rfl, ?_, ?_⟩
    · rw [hmagnitude, htext]
      have hne : c ≠ '=' := by
        rintro rfl
        exact absurd hc (by decide)
      simpa using hne
    · rw [hmagnitude]
      refine hlex.imp ?_
      rintro newline space _ ⟨t, rfl, ht⟩
      exact reads_num ht (numeral_not_word k) (by rw [hvalue]; exact Double.numEq_abs hx hn) hn
        (by simp [htext])
  | true =>
    have htext' : ("(-" ++ numberLayout.writeMagnitude x ++ ")").toList =
        "(".toList ++ ("-".toList ++ (k.text ++ ")".toList)) := by
      rw [String.toList_append, String.toList_append, hmagnitude]
      rfl
    refine ⟨_, rfl, .of_any (by simp [String.toList_append]) ?_⟩
    have hneg : Lexes (fun rest => rest.head? ≠ some '=') "-".toList (.one .op "-") :=
      lexes_sign (by decide)
    have hhead : ∀ rest, ((k.text ++ ")".toList) ++ rest).head? ≠ some '=' := by
      intro rest
      rw [htext]
      rintro ⟨⟩
      exact absurd hc (by decide)
    rw [htext']
    refine ((lexes_punctuation "(" (by decide)).append (hneg.append (hlex.append
      (lexes_punctuation ")" (by decide)) fun rest _ => delimits_punctuation ")" (by decide) rest)
      fun rest _ => hhead rest) fun _ _ => trivial).imp ?_
    rintro newline space _ ⟨_, _, rfl, ⟨u, rfl, hu⟩, _, _, rfl, ⟨t, rfl, ht⟩, _, _, rfl, ⟨v, rfl, hv⟩,
      c, rfl, hc⟩
    exact reads_negative hu ht hv hc (by rw [hvalue]; exact Double.numEq_neg_abs hx hn)
      (by simp only [String.reduceToList, List.length_append, List.length_cons]; omega) l

/-! ## Accesses, calls and operators -/

theorem written_prop {name : String} (h : WrittenExpression n t) (hn : n.isCond = false)
    (hname : isSegment name.toList = true) (l : Loc) :
    WrittenExpression (.prop l n name) (t ++ "." ++ name) := by
  have htext : (t ++ "." ++ name).toList = t.toList ++ (".".toList ++ name.toList) := by
    simp only [String.toList_append, List.append_assoc]
  have hdot : ∀ rest, Delimits (".".toList ++ name.toList ++ rest) := by
    intro rest
    cases hc : name.toList with
    | nil =>
      rw [hc] at hname
      cases hname
    | cons c cs =>
      rw [hc, isSegment, Bool.and_eq_true] at hname
      exact .inr (.inl ⟨rfl, c, rfl, hname.1⟩)
  refine ⟨?_, ?_⟩
  · rw [htext]
    exact head_append h.head (by simp)
  · rw [htext]
    refine (h.lexes.append ((lexes_punctuation "." (by decide)).append (lexes_member hname)
      fun _ _ => trivial) fun rest _ => hdot rest).imp ?_
    rintro newline space _ ⟨us, _, rfl, hx, _, _, rfl, ⟨u, rfl, hu⟩, m, rfl, hm⟩
    have hspine := hx.spine.prop hn hu hm l
    refine ⟨by simp, ?_, hspine.mono ?_⟩
    · exact hx.leads.append (by simp [Node.numeralLed]) (by simp [Node.objectLed]) _
    · simp only [String.reduceToList, List.length_append, List.length_cons]
      omega

theorem written_index {key : Node} (h : WrittenExpression n t) (hn : n.isCond = false)
    (hkey : WrittenExpression key u) (l : Loc) :
    WrittenExpression (.index l n key) (t ++ "[" ++ u ++ "]") := by
  have htext : (t ++ "[" ++ u ++ "]").toList = t.toList ++ ("[".toList ++ (u.toList ++ "]".toList)) := by
    simp only [String.toList_append, List.append_assoc]
  refine ⟨?_, ?_⟩
  · rw [htext]
    exact head_append h.head (by simp)
  · rw [htext]
    refine ((h.lexes.append ((lexes_punctuation "[" (by decide)).append (hkey.lexes.append
      (lexes_punctuation "]" (by decide)) fun rest _ => delimits_punctuation "]" (by decide) rest)
      fun _ _ => trivial) fun rest _ => delimits_punctuation "[" (by decide) _).of_delimiter
      fun _ _ => trivial).imp ?_
    rintro newline space _ ⟨us, _, rfl, hx, _, _, rfl, ⟨v, rfl, hv⟩, vs, _, rfl, hy, c, rfl, hc⟩
    let cost := 2 * t.toList.length + 2 * u.toList.length
    have hspine := (hx.spine.mono (show _ ≤ cost by omega)).index hn hv
      (hy.mono (show _ ≤ cost by omega)) hc l
    rw [List.append_assoc, List.cons_append] at hspine
    refine ⟨by simp, ?_, hspine.mono ?_⟩
    · exact hx.leads.append (by simp [Node.numeralLed]) (by simp [Node.objectLed]) _
    · simp only [String.reduceToList, List.length_append, List.length_cons, cost]
      omega

/-- Arguments between parentheses. -/
theorem lexes_arguments {args : List Node} {us : List String}
    (h : List.Forall₂ WrittenExpression args us) :
    Lexes (fun _ => True) (['('] ++ ((", ".intercalate us).toList ++ [')']))
      (Enclosed '(' ')' Comma (fun len n => ReadsExpression (2 * len) n) args
        (['('] ++ ((", ".intercalate us).toList ++ [')'])).length) :=
  lexes_commaList '(' ')' (by decide) (by decide) (by decide)
    (fun _ _ _ _ _ _ hab hx => hx.mono (by omega)) (h.imp fun _ _ h => h.lexes)

theorem written_call {args : List Node} {us : List String} (h : WrittenExpression n t)
    (hn : n.isCond = false) (hargs : List.Forall₂ WrittenExpression args us) (l : Loc) :
    WrittenExpression (.call l n args) (t ++ "(" ++ ", ".intercalate us ++ ")") := by
  have htext : (t ++ "(" ++ ", ".intercalate us ++ ")").toList =
      t.toList ++ (['('] ++ ((", ".intercalate us).toList ++ [')'])) := by
    simp only [String.toList_append, List.append_assoc]
    rfl
  refine ⟨?_, ?_⟩
  · rw [htext]
    exact head_append h.head (by simp)
  · rw [htext]
    refine ((h.lexes.append (lexes_arguments hargs)
      fun rest _ => delimits_punctuation "(" (by decide) _).of_delimiter fun _ _ => trivial).imp ?_
    rintro newline space _ ⟨us', _, rfl, hx, u, vs, c, _, _, len, rfl, hu, hvs, hc, hlen, hcount⟩
    simp only [List.length_append, List.length_cons, List.length_nil] at hlen hcount
    let cost := 2 * t.toList.length + 2 * ((", ".intercalate us).toList.length + 1)
    have hspine := (hx.spine.mono (show _ ≤ cost by omega)).call hn hu
      (hvs.imp fun x _ _ _ _ hx => hx.mono (show _ ≤ cost by omega)) (by omega) hc l
    rw [List.append_assoc, List.cons_append] at hspine
    refine ⟨by simp, ?_, hspine.mono ?_⟩
    · exact hx.leads.append (by simp [Node.numeralLed]) (by simp [Node.objectLed]) _
    · simp only [List.length_append, List.length_cons, List.length_nil, cost]
      omega

theorem written_unary {op : String} (hop : op ∈ ["!", "+", "-"]) (h : WrittenExpression n t)
    (hnum : op ≠ "!" → n.numeralLed = false) (l : Loc) :
    WrittenExpression (.unary l op n) ("(" ++ op ++ t ++ ")") := by
  have htext : ("(" ++ op ++ t ++ ")").toList =
      "(".toList ++ (op.toList ++ (t.toList ++ ")".toList)) := by
    simp only [String.toList_append, List.append_assoc]
  have hsign : Lexes (fun rest => rest.head? ≠ some '=') op.toList (.one .op op) := by
    simp only [List.mem_cons, List.not_mem_nil, or_false] at hop
    rcases hop with rfl | rfl | rfl <;> exact lexes_sign (by decide)
  have hhead : ∀ rest, (t.toList ++ ")".toList ++ rest).head? ≠ some '=' := by
    intro rest
    rw [List.append_assoc]
    exact head_append h.head (by simp)
  refine .of_any (by simp [String.toList_append]) ?_
  rw [htext]
  refine ((lexes_punctuation "(" (by decide)).append (hsign.append (h.lexes.append
    (lexes_punctuation ")" (by decide)) fun rest _ => delimits_punctuation ")" (by decide) rest)
    fun rest _ => hhead rest) fun _ _ => trivial).imp ?_
  rintro newline space _ ⟨_, _, rfl, ⟨u, rfl, hu⟩, _, _, rfl, ⟨v, rfl, hv⟩, us, _, rfl, hx, c, rfl, hc⟩
  refine (reads_unary hop hu hv hx hnum hc l).mono ?_
  simp only [String.reduceToList, List.length_append, List.length_cons]
  omega

theorem written_binary {op : String} (hop : op ∈ binaryOperators) (h : WrittenExpression n t)
    (hn : n.isCond = false) (h' : WrittenExpression m u) (l : Loc) :
    WrittenExpression (.binary l op n m) ("(" ++ t ++ " " ++ op ++ " " ++ u ++ ")") := by
  have htext : ("(" ++ t ++ " " ++ op ++ " " ++ u ++ ")").toList =
      "(".toList ++ (t.toList ++ (' ' :: op.toList ++ (' ' :: u.toList ++ ")".toList))) := by
    simp only [String.toList_append, List.append_assoc]
    rfl
  have hspaced : op ∈ spacedOperators := List.mem_append_right _ hop
  refine .of_any (by simp [String.toList_append]) ?_
  rw [htext]
  refine ((lexes_punctuation "(" (by decide)).append (h.lexes.append
    ((lexes_spaced hspaced).blank.append (h'.lexes.blank.append (lexes_punctuation ")" (by decide))
      fun rest _ => delimits_punctuation ")" (by decide) rest) fun rest _ => ⟨_, rfl⟩)
    fun rest _ => delimits_cons (by decide) _) fun _ _ => trivial).imp ?_
  rintro newline space _ ⟨_, _, rfl, ⟨v, rfl, hv⟩, us, _, rfl, hx, _, _, rfl, ⟨w, rfl, hw⟩, vs, _, rfl,
    hy, c, rfl, hc⟩
  let cost := 2 * t.toList.length + 2 * u.toList.length
  have hread := reads_binary hop hv (hx.mono (show _ ≤ cost by omega)) hn hw
    (hy.mono (show _ ≤ cost by omega)) hc l
  refine ReadsExpression.mono (by simpa using hread) ?_
  simp only [String.reduceToList, List.length_append, List.length_cons, cost]
  omega

/-! ## Arrays and objects -/

theorem listText_head {left right : String} (h : left.toList.head? ≠ some '=' ∧ left.toList ≠ [])
    (level : Nat) (us : List String) : (listText left right level us).toList.head? ≠ some '=' := by
  obtain ⟨hhead, hne⟩ := h
  obtain ⟨c, cs, hc⟩ := List.exists_cons_of_ne_nil hne
  rw [hc] at hhead
  unfold listText bracketLines
  split <;> simpa [String.toList_append, hc] using hhead

theorem written_array {items : List Node} {us : List String}
    (h : List.Forall₂ WrittenExpression items us) (level : Nat) (l : Loc) :
    WrittenExpression (.arr l items) (listText "[" "]" level us) := by
  have hlist := lexes_listText (l := "[") (r := "]") rfl rfl (by decide) (by decide) (by decide)
    (R := fun len n => ReadsExpression (2 * len) n) (fun _ _ _ _ _ _ hab hx => hx.mono (by omega)) level
    (h.imp fun _ _ h => h.lexes)
  refine .of_any (listText_head (by decide) level us) (hlist.imp ?_)
  rintro newline space _ ⟨u, vs, c, _, _, len, rfl, hu, hvs, hc, hlen, hcount⟩
  let cost := 2 * (listText "[" "]" level us).toList.length - 1
  refine (reads_array hu (hvs.imp fun x _ _ _ _ hx => hx.mono (show _ ≤ cost by omega)) (by omega)
    hc l).mono ?_
  omega

/-- A key as it is written, and what follows it. -/
theorem lexes_key (key : String) :
    Lexes (fun rest => ∃ more, rest = ':' :: ' ' :: more) (keyText key).toList fun newline space ts =>
      ∃ t kind, ts = [t] ∧ t.Is kind key newline space ∧ kind ≠ .eof ∧ t.isAny innerWords = false := by
  unfold keyText
  split
  · rename_i hplain
    have hpath := isPath_of_plainKey hplain
    refine ((lexes_name hpath).imp ?_).of_delimiter ?_
    · rintro newline space _ ⟨t, rfl, ht⟩
      refine ⟨t, _, rfl, ht, nofun, ?_⟩
      rw [ht.isAny nofun nofun]
      simpa using fun hm => hpath.not_mark (List.mem_cons_of_mem _ hm)
    · rintro _ ⟨more, rfl⟩
      exact .inr (.inr ⟨rfl, rfl⟩)
  · refine ((lexes_quote key).imp ?_).of_delimiter fun _ _ => trivial
    rintro newline space _ ⟨t, rfl, ht⟩
    exact ⟨t, _, rfl, ht, nofun, by simp [Token.isAny, ht.kind]⟩

theorem lexes_entry {key : String} (h : WrittenExpression n t) :
    Lexes Delimits (keyText key ++ ": " ++ t).toList
      (ReadsEntry (2 * (keyText key ++ ": " ++ t).toList.length) (key, n)) := by
  have htext : (keyText key ++ ": " ++ t).toList =
      (keyText key).toList ++ (":".toList ++ ' ' :: t.toList) := by
    simp only [String.toList_append, List.append_assoc]
    rfl
  rw [htext]
  refine ((lexes_key key).append ((lexes_punctuation ":" (by decide)).append h.lexes.blank
    fun _ _ => trivial) fun rest _ => ⟨_, rfl⟩).imp ?_
  rintro newline space _ ⟨_, _, rfl, ⟨v, kind, rfl, hv, hk, hany⟩, _, vs, rfl, ⟨w, rfl, hw⟩, hx⟩
  refine (reads_entry hv hk hany hw hx).mono ?_
  simp only [List.length_append, List.length_cons]
  omega

theorem written_object {entries : List (String × Node)} {us : List String}
    (hn : (entries.map Prod.fst).Nodup)
    (h : List.Forall₂ (fun e u => ∃ t, u = keyText e.1 ++ ": " ++ t ∧ WrittenExpression e.2 t) entries us)
    (level : Nat) (l : Loc) :
    WrittenExpression (.obj l entries) (listText "\x7b" "\x7d" level us) := by
  have hlist := lexes_listText (l := "\x7b") (r := "\x7d") rfl rfl (by decide) (by decide) (by decide)
    (R := fun len e => ReadsEntry (2 * len) e) (fun _ _ _ _ _ _ hab hx => hx.mono (by omega)) level
    (h.imp fun e u ⟨t, hu, ht⟩ => hu ▸ lexes_entry ht)
  refine .of_any (listText_head (by decide) level us) (hlist.imp ?_)
  rintro newline space _ ⟨u, vs, c, _, _, len, rfl, hu, hvs, hc, hlen, hcount⟩
  let cost := 2 * (listText "\x7b" "\x7d" level us).toList.length - 1
  refine (reads_object hn hu (hvs.imp fun x _ _ _ _ hx => hx.mono (show _ ≤ cost by omega)) (by omega)
    hc l).mono ?_
  omega

theorem lexes_parens (h : WrittenExpression n t) :
    Lexes (fun _ => True) ("(" ++ t ++ ")").toList fun newline space ts =>
      ∃ u us, ts = u :: us ∧ u.Is .op "(" newline space ∧
        ReadsExpression (2 * ("(" ++ t ++ ")").toList.length) n newline space (u :: us) := by
  have htext : ("(" ++ t ++ ")").toList = "(".toList ++ (t.toList ++ ")".toList) := by
    simp only [String.toList_append, List.append_assoc]
  rw [htext]
  refine ((lexes_punctuation "(" (by decide)).append (h.lexes.append (lexes_punctuation ")" (by decide))
    fun rest _ => delimits_punctuation ")" (by decide) rest) fun _ _ => trivial).imp ?_
  rintro newline space _ ⟨_, _, rfl, ⟨v, rfl, hv⟩, us, _, rfl, hx, c, rfl, hc⟩
  obtain ⟨e, he, hread⟩ := hx.expression
  have hlength : 2 * t.toList.length + 1 ≤ 2 * ("(".toList ++ (t.toList ++ ")".toList)).length := by
    simp only [String.reduceToList, List.length_append, List.length_cons]
    omega
  refine ⟨v, us ++ [c], rfl, hv, reads_parens he (by omega) hv hc fun k hk more => ?_⟩
  exact hread k (by omega) c more (hc.ends (by decide) n).follows

theorem written_parens (h : WrittenExpression n t) : WrittenExpression n ("(" ++ t ++ ")") := by
  refine .of_any (by simp [String.toList_append]) ((lexes_parens h).imp ?_)
  rintro newline space _ ⟨u, us, rfl, -, hx⟩
  exact hx

/-- An object in statement position stands in parentheses. -/
theorem written_parens_statement (h : WrittenExpression n t) :
    WrittenStatement n ("(" ++ t ++ ")") := by
  refine .of_any (by simp [String.toList_append]) ((lexes_parens h).imp ?_)
  rintro newline space _ ⟨u, us, rfl, hu, hx⟩
  exact hx.statement_of_parens hu

/-! ## Positions -/

theorem WrittenExpression.statement (h : WrittenExpression n t) (ho : n.objectLed = false) :
    WrittenStatement n t :=
  h.imp fun _ _ _ _ hx => hx.statement ho

theorem WrittenStatement.body (h : WrittenStatement n t) : WrittenBody n t :=
  h.imp fun _ _ _ _ hx => hx.body

/-! ## Blocks and functions -/

/-- Statements in braces. -/
theorem lexes_block {ns : List Node} {us : List String} (h : List.Forall₂ WrittenStatement ns us)
    (level : Nat) :
    Lexes (fun _ => True) (blockText level us).toList
      (ReadsBlock (2 * (blockText level us).toList.length) ns) := by
  have hlist := lexes_blockText (R := fun len n => ReadsStatement (2 * len + 1) n)
    (fun _ _ _ _ _ _ hab hx => hx.mono (by omega)) level (h.imp fun _ _ h => h.lexes)
  refine hlist.imp ?_
  rintro newline space _ ⟨u, vs, c, _, _, len, rfl, hu, hvs, hc, hlen, hcount⟩
  exact reads_block hu (hvs.imp fun x _ _ _ _ hx => hx.mono (by omega)) (by omega) hc

theorem blockText_head (level : Nat) (us : List String) :
    ∃ cs, (blockText level us).toList = '\x7b' :: cs := by
  unfold blockText bracketLines
  split
  · exact ⟨_, rfl⟩
  · simp [String.toList_append]

theorem written_block_body {ns : List Node} {us : List String}
    (h : List.Forall₂ WrittenStatement ns us) (level : Nat) (l : Loc) :
    WrittenBody (.block l ns) (blockText level us) := by
  refine .of_any ?_ ((lexes_block h level).imp fun newline space ts hx => ?_)
  · obtain ⟨cs, hcs⟩ := blockText_head level us
    simp [hcs]
  · exact (hx.body l).mono (by omega)

theorem written_eval {ns : List Node} {us : List String} (h : List.Forall₂ WrittenStatement ns us)
    (level : Nat) (l : Loc) : WrittenExpression (.block l ns) ("eval " ++ blockText level us) := by
  have htext : ("eval " ++ blockText level us).toList =
      "eval".toList ++ ' ' :: (blockText level us).toList := by
    rw [String.toList_append]
    rfl
  refine .of_any (by rw [htext]; simp) ?_
  rw [htext]
  refine ((lexes_keyword (by decide)).append (lexes_block h level).blank
    fun rest _ => delimits_cons (by decide) _).imp ?_
  rintro newline space _ ⟨_, us, rfl, ⟨v, rfl, hv⟩, hx⟩
  refine (reads_eval hv hx l).mono ?_
  simp only [List.length_append, List.length_cons]
  omega

theorem written_loop {ns : List Node} {us : List String} (h : List.Forall₂ WrittenStatement ns us)
    (level : Nat) (l : Loc) : WrittenStatement (.loop l ns) (loopText level us) := by
  obtain ⟨s, hs, hlist⟩ := lexes_loopText (R := fun len n => ReadsStatement (2 * len + 1) n)
    (fun _ _ _ _ _ _ hab hx => hx.mono (by omega)) level (h.imp fun _ _ h => h.lexes)
  refine .of_any (by rw [hs]; simp) ?_
  rw [hs]
  refine ((lexes_keyword (by decide)).append hlist.blank
    fun rest _ => delimits_cons (by decide) _).imp ?_
  rintro newline space _ ⟨_, _, rfl, ⟨v, rfl, hv⟩, u, vs, c, _, _, len, rfl, hu, hvs, hc, hlen, hcount⟩
  have hblock := reads_block hu (hvs.imp fun x _ _ _ _ hx => hx.mono
    (show _ ≤ 2 * s.length by omega)) (by omega) hc
  refine (reads_loop hv hblock l).mono ?_
  simp only [List.length_append, List.length_cons]
  omega

/-- A text that may be missing: a mark or a default of a parameter, or the last branch. -/
theorem trails_mark (isOptional : Bool) :
    Trails (if isOptional then "?" else "").toList (ReadsMark isOptional) := by
  cases isOptional with
  | false => exact .inl ⟨rfl, rfl⟩
  | true =>
    refine .inr ⟨((lexes_punctuation "?" (by decide)).imp ?_).of_delimiter fun _ _ => trivial,
      delimits_punctuation "?" (by decide)⟩
    rintro newline space _ ⟨u, rfl, hu⟩
    exact ⟨u, _, _, rfl, hu⟩

/-- The text of a default. -/
def WrittenFallback : Option Node → String → Prop
  | none, d => d = ""
  | some n, d => ∃ t, d = " = " ++ t ∧ WrittenExpression n t

theorem WrittenFallback.trails {fallback : Option Node} {d : String}
    (h : WrittenFallback fallback d) :
    Trails d.toList (ReadsFallback (2 * d.toList.length) fallback) := by
  cases fallback with
  | none =>
    obtain rfl := h
    exact .inl ⟨rfl, rfl⟩
  | some n =>
    obtain ⟨t, rfl, ht⟩ := h
    have htext : (" = " ++ t).toList = ' ' :: "=".toList ++ ' ' :: t.toList := by
      rw [String.toList_append]
      rfl
    rw [htext]
    refine .inr ⟨((lexes_spaced (by decide)).blank.append ht.lexes.blank fun _ _ => ⟨_, rfl⟩).imp ?_,
      fun rest => delimits_cons (by decide) _⟩
    rintro newline space _ ⟨_, us, rfl, ⟨u, rfl, hu⟩, hx⟩
    refine ⟨u, us, _, _, _, _, rfl, hu, hx.mono ?_⟩
    simp only [List.length_append, List.length_cons]
    omega

/-- The text of a parameter. -/
def WrittenParam : Param → String → Prop
  | .mk _ name isOptional fallback, u => IsPath name.text ∧ ∃ d, WrittenFallback fallback d ∧
      u = name.text ++ (if isOptional then "?" else "") ++ d

theorem lexes_param {p : Param} (h : WrittenParam p u) :
    Lexes Delimits u.toList (ReadsParam (2 * u.toList.length) p) := by
  obtain ⟨l, name, isOptional, fallback⟩ := p
  obtain ⟨hname, d, hd, rfl⟩ := h
  simp only [String.toList_append, List.append_assoc]
  refine ((lexes_name hname).trailed ((trails_mark isOptional).append hd.trails)).imp ?_
  rintro newline space _ ⟨_, _, rfl, ⟨v, rfl, hv⟩, us, vs, rfl, hus, hvs⟩
  have hread := reads_param hv (fun hm => hname.not_mark (List.mem_cons_of_mem _ hm)) hus hvs l
  refine ReadsParam.mono (by simpa using hread) ?_
  simp only [List.length_append]
  omega

/-- A parameter list and a block. -/
theorem lexes_signature {ps : List Param} {us : List String} {ns : List Node} {vs : List String}
    (hps : List.Forall₂ WrittenParam ps us) (hns : List.Forall₂ WrittenStatement ns vs) (level : Nat) :
    Lexes (fun _ => True)
      (['('] ++ ((", ".intercalate us).toList ++ [')']) ++ ' ' :: (blockText level vs).toList)
      fun _ _ => ReadsSignature (2 * (['('] ++ ((", ".intercalate us).toList ++ [')']) ++
        ' ' :: (blockText level vs).toList).length) ps ns := by
  have hparams := lexes_commaList '(' ')' (R := fun len p => ReadsParam (2 * len) p) (by decide)
    (by decide) (by decide) (fun _ _ _ _ _ _ hab hx => hx.mono (by omega))
    (hps.imp fun _ _ h => lexes_param h)
  refine (hparams.append (lexes_block hns level).blank fun _ _ => trivial).imp ?_
  rintro newline space _ ⟨_, us', rfl, ⟨u, vs', c, _, _, len, rfl, hu, hvs, hc, hlen, hcount⟩, hblock⟩
  simp only [List.length_append, List.length_cons, List.length_nil] at hlen hcount
  let cost := 2 * (['('] ++ ((", ".intercalate us).toList ++ [')']) ++
    ' ' :: (blockText level vs).toList).length
  have hcost : cost = 2 * (1 + ((", ".intercalate us).toList.length + 1) +
      ((blockText level vs).toList.length + 1)) := by
    simp only [cost, List.length_append, List.length_cons, List.length_nil]
  have hread := reads_signature hu
    (hvs.imp fun x _ _ _ _ hx => hx.mono (show _ ≤ cost by omega)) (by omega) hc
    (hblock.mono (show _ ≤ cost by omega))
  rw [show u :: vs' ++ [c] ++ us' = u :: vs' ++ c :: us' by simp]
  exact hread

theorem written_fn {ps : List Param} {us : List String} {ns : List Node} {vs : List String}
    (hps : List.Forall₂ WrittenParam ps us) (hns : List.Forall₂ WrittenStatement ns vs) (level : Nat)
    (l : Loc) :
    WrittenExpression (.fn l ps ns) ("@(" ++ ", ".intercalate us ++ ") " ++ blockText level vs) := by
  have htext : ("@(" ++ ", ".intercalate us ++ ") " ++ blockText level vs).toList =
      "@".toList ++ (['('] ++ ((", ".intercalate us).toList ++ [')']) ++
        ' ' :: (blockText level vs).toList) := by
    simp [String.toList_append]
  refine .of_any (by rw [htext]; simp) ?_
  rw [htext]
  refine ((lexes_punctuation "@" (by decide)).append (lexes_signature hps hns level)
    fun _ _ => trivial).imp ?_
  rintro newline space _ ⟨_, us, rfl, ⟨v, rfl, hv⟩, hx⟩
  refine (reads_fn hv hx l).mono ?_
  simp only [String.reduceToList, List.length_append, List.length_cons, List.length_nil]
  omega

/-! ## Conditionals and matches -/

/-- The text of the last branch of a conditional. -/
def WrittenElse : Option Node → String → Prop
  | none, e => e = ""
  | some n, e => ∃ t, e = " else " ++ t ∧ WrittenBody n t

/-- The text of a further branch of a conditional. -/
def WrittenBranch : Branch → String → Prop
  | .mk _ test body, b => ∃ t u, b = " elif " ++ t ++ " " ++ u ∧ WrittenExpression test t ∧
      WrittenBody body u

theorem Branching.mono {cost cost' : Nat} {bs : List Branch} {otherwise : Option Node}
    {ts : List Token} (h : Branching cost bs otherwise ts) (hc : cost ≤ cost') :
    Branching cost' bs otherwise ts := by
  induction h with
  | done => exact .done
  | last hu hn => exact .last hu (hn.mono hc)
  | further hu ht hb _ ih => exact .further hu (ht.mono hc) (hb.mono hc) ih

theorem WrittenElse.trails {otherwise : Option Node} {e : String} (h : WrittenElse otherwise e) :
    Trails e.toList (Branching (2 * e.toList.length) [] otherwise) := by
  cases otherwise with
  | none =>
    obtain rfl := h
    exact .inl ⟨rfl, .done⟩
  | some n =>
    obtain ⟨t, rfl, ht⟩ := h
    have htext : (" else " ++ t).toList = ' ' :: "else".toList ++ ' ' :: t.toList := by
      rw [String.toList_append]
      rfl
    rw [htext]
    refine .inr ⟨((lexes_keyword (by decide)).blank.append ht.lexes.blank
      fun _ _ => delimits_cons (by decide) _).imp ?_, fun rest => delimits_cons (by decide) _⟩
    rintro newline space _ ⟨_, us, rfl, ⟨u, rfl, hu⟩, hx⟩
    refine .last hu (hx.mono ?_)
    simp only [List.length_append, List.length_cons]
    omega

theorem trails_branches {bs : List Branch} {us : List String} {otherwise : Option Node} {e : String}
    (h : List.Forall₂ WrittenBranch bs us) (he : WrittenElse otherwise e) :
    Trails (us.flatMap String.toList ++ e.toList)
      (Branching (2 * (us.flatMap String.toList ++ e.toList).length) bs otherwise) := by
  induction h with
  | nil => exact he.trails
  | @cons b u bs us hb _ ih =>
    obtain ⟨l, test, body⟩ := b
    obtain ⟨t, v, rfl, ht, hv⟩ := hb
    have htext : (" elif " ++ t ++ " " ++ v).toList =
        ' ' :: "elif".toList ++ (' ' :: t.toList ++ ' ' :: v.toList) := by
      simp only [String.toList_append, List.append_assoc]
      rfl
    have hbranch : Trails (" elif " ++ t ++ " " ++ v).toList fun ts =>
        ∃ (w : Token) (us vs : List Token) (line newline space newline' : Bool), ts = w :: (us ++ vs) ∧
          w.Is .op "elif" line true ∧ ReadsExpression (2 * t.toList.length) test newline space us ∧
          ReadsBody (2 * v.toList.length + 1) body newline' true vs := by
      rw [htext]
      refine .inr ⟨((lexes_keyword (by decide)).blank.append (ht.lexes.blank.append hv.lexes.blank
        fun _ _ => delimits_cons (by decide) _) fun _ _ => delimits_cons (by decide) _).imp ?_,
        fun rest => delimits_cons (by decide) _⟩
      rintro newline space _ ⟨_, _, rfl, ⟨w, rfl, hw⟩, us, vs, rfl, hx, hy⟩
      exact ⟨w, us, vs, _, _, _, _, rfl, hw, hx, hy⟩
    rw [List.flatMap_cons, List.append_assoc]
    refine (hbranch.append ih).imp ?_
    rintro _ ⟨_, ws, rfl, ⟨w, us', vs', _, _, _, _, rfl, hw, hx, hy⟩, hws⟩
    rw [htext]
    let cost := 2 * ((' ' :: "elif".toList ++ (' ' :: t.toList ++ ' ' :: v.toList)) ++
      (us.flatMap String.toList ++ e.toList)).length
    have hcost : 2 * (t.toList.length + v.toList.length +
        (us.flatMap String.toList ++ e.toList).length) + 1 ≤ cost := by
      simp only [cost, List.length_append, List.length_cons]
      omega
    have hread := Branching.further (l := l) hw (hx.mono (show _ ≤ cost by omega))
      (hy.mono (show _ ≤ cost by omega)) (hws.mono (show _ ≤ cost by omega))
    rw [show w :: (us' ++ vs') ++ ws = w :: us' ++ vs' ++ ws by simp]
    exact hread

theorem length_branches {bs : List Branch} {us : List String} (h : List.Forall₂ WrittenBranch bs us) :
    bs.length ≤ (us.flatMap String.toList).length := by
  induction h with
  | nil => simp
  | @cons b u bs us hb _ ih =>
    obtain ⟨l, test, body⟩ := b
    obtain ⟨t, v, rfl, -⟩ := hb
    simp only [List.flatMap_cons, String.toList_append, String.reduceToList, List.length_append,
      List.length_cons]
    omega

theorem written_cond {test body : Node} {bs : List Branch} {us : List String}
    {otherwise : Option Node} {e : String} (ht : WrittenExpression test t) (hb : WrittenBody body u)
    (hbs : List.Forall₂ WrittenBranch bs us) (he : WrittenElse otherwise e)
    (hopen : bs ≠ [] ∨ otherwise.isSome = true → body.isOpen = false)
    (hap : BranchesApart otherwise.isNone bs) (l : Loc) :
    WrittenExpression (.cond l test body bs otherwise) ("if " ++ t ++ " " ++ u ++ String.join us ++ e) := by
  have htext : ("if " ++ t ++ " " ++ u ++ String.join us ++ e).toList =
      "if".toList ++ (' ' :: t.toList ++ (' ' :: u.toList ++ (us.flatMap String.toList ++ e.toList))) := by
    simp only [String.toList_append, List.append_assoc, String.toList_join]
    rfl
  refine ⟨by rw [htext]; simp, ?_⟩
  rw [htext]
  refine ((lexes_keyword (by decide)).append (ht.lexes.blank.append
    (hb.lexes.blank.trailed (trails_branches hbs he)) fun _ _ => delimits_cons (by decide) _)
    fun _ _ => delimits_cons (by decide) _).imp ?_
  rintro newline space _ ⟨_, _, rfl, ⟨v, rfl, hv⟩, ts, _, rfl, hx, vs, ws, rfl, hy, hws⟩
  let cost := 2 * (t.toList.length + u.toList.length +
    (us.flatMap String.toList ++ e.toList).length) + 1
  have hcount : bs.length ≤ cost := by
    have := length_branches hbs
    simp only [cost, List.length_append]
    omega
  have hread := reads_cond hv (hx.mono (show _ ≤ cost by omega)) (hy.mono (show _ ≤ cost by omega))
    (hws.mono (show _ ≤ cost by omega)) hcount hopen hap l
  refine ReadsExpression.mono (by simpa using hread) ?_
  simp only [String.reduceToList, List.length_append, List.length_cons, cost]
  omega

/-- The text of a line of a match. -/
def WrittenLine : Option Node × Node → String → Prop
  | (some pattern, body), u => ∃ t v, u = "case " ++ t ++ " => " ++ v ∧ WrittenExpression pattern t ∧
      WrittenBody body v
  | (none, body), u => ∃ v, u = "default => " ++ v ∧ WrittenBody body v

theorem lexes_line {x : Option Node × Node} (h : WrittenLine x u) :
    Lexes Delimits u.toList (ReadsLine (2 * u.toList.length) x) := by
  obtain ⟨pattern, body⟩ := x
  cases pattern with
  | some pattern =>
    obtain ⟨t, v, rfl, ht, hv⟩ := h
    have htext : ("case " ++ t ++ " => " ++ v).toList =
        "case".toList ++ (' ' :: t.toList ++ (' ' :: "=>".toList ++ ' ' :: v.toList)) := by
      simp only [String.toList_append, List.append_assoc]
      rfl
    rw [htext]
    refine ((lexes_keyword (by decide)).append (ht.lexes.blank.append
      ((lexes_spaced (by decide)).blank.append hv.lexes.blank fun _ _ => ⟨_, rfl⟩)
      fun _ _ => delimits_cons (by decide) _) fun _ _ => delimits_cons (by decide) _).imp ?_
    rintro newline space _ ⟨_, _, rfl, ⟨w, rfl, hw⟩, us, _, rfl, hx, _, vs, rfl, ⟨a, rfl, ha⟩, hy⟩
    refine ⟨w, us, a, vs, _, _, _, _, rfl, hw, hx.mono ?_, ha, hy.mono ?_⟩
    all_goals
      simp only [String.reduceToList, List.length_append, List.length_cons]
      omega
  | none =>
    obtain ⟨v, rfl, hv⟩ := h
    have htext : ("default => " ++ v).toList =
        "default".toList ++ (' ' :: "=>".toList ++ ' ' :: v.toList) := by
      rw [String.toList_append]
      rfl
    rw [htext]
    refine ((lexes_keyword (by decide)).append
      ((lexes_spaced (by decide)).blank.append hv.lexes.blank fun _ _ => ⟨_, rfl⟩)
      fun _ _ => delimits_cons (by decide) _).imp ?_
    rintro newline space _ ⟨_, _, rfl, ⟨w, rfl, hw⟩, _, vs, rfl, ⟨a, rfl, ha⟩, hy⟩
    refine ⟨w, a, vs, _, _, rfl, hw, ha, hy.mono ?_⟩
    simp only [String.reduceToList, List.length_append, List.length_cons]
    omega

/-- The braces of a match. -/
theorem lexes_lines {xs : List (Option Node × Node)} {us : List String}
    (h : List.Forall₂ WrittenLine xs us) (level : Nat) :
    let s := if us.isEmpty then "\x7b\x7d" else bracketLines "\x7b" "\x7d" "," level us
    Lexes (fun _ => True) s.toList
      (Enclosed '\x7b' '\x7d' Comma (fun len x => ReadsLine (2 * len) x) xs s.toList.length) := by
  intro s
  by_cases hempty : us = []
  · subst hempty
    cases h
    have hbrace : '\x7b' ∈ brackets ∧ '\x7d' ∈ brackets := by decide
    have hs : s.toList = ['\x7b', '\x7d'] := by simp [s]
    rw [hs]
    exact lexes_enclosed_nil hbrace.1 hbrace.2
  · have hs : s = bracketLines "\x7b" "\x7d" "," level us := if_neg (by simpa using hempty)
    rw [hs]
    exact lexes_bracketLines "," rfl rfl (by decide) (by decide) (by decide) isSeparator_comma
      (fun _ _ _ _ _ _ hab hx => hx.mono (by omega)) level hempty (h.imp fun _ _ h => lexes_line h)

theorem written_select {subject : Node} {arms : List Arm} {otherwise : Option Node} {us : List String}
    (ht : WrittenExpression subject t)
    (h : List.Forall₂ WrittenLine (matchLines arms otherwise) us) (level : Nat) (l : Loc) :
    WrittenExpression (.select l subject arms otherwise) (if us.isEmpty
      then "match (" ++ t ++ ") " ++ "\x7b\x7d"
      else "match (" ++ t ++ ") " ++ bracketLines "\x7b" "\x7d" "," level us) := by
  let s := if us.isEmpty then "\x7b\x7d" else bracketLines "\x7b" "\x7d" "," level us
  have hsplit : (if us.isEmpty then "match (" ++ t ++ ") " ++ "\x7b\x7d"
      else "match (" ++ t ++ ") " ++ bracketLines "\x7b" "\x7d" "," level us) =
      "match " ++ ("(" ++ t ++ ")") ++ " " ++ s := by
    have hhead : "match (" ++ t ++ ") " = "match " ++ ("(" ++ t ++ ")") ++ " " := by
      apply String.toList_inj.mp
      simp
    rw [hhead]
    by_cases hu : us.isEmpty = true
    · simp only [s, if_pos hu]
    · simp only [s, if_neg hu]
  have htext : ("match " ++ ("(" ++ t ++ ")") ++ " " ++ s).toList =
      "match".toList ++ (' ' :: ("(" ++ t ++ ")").toList ++ ' ' :: s.toList) := by
    simp only [String.toList_append, String.reduceToList, List.append_assoc, List.cons_append,
      List.nil_append]
  have hparens := written_parens ht
  have hlines := lexes_lines h level
  rw [hsplit]
  refine .of_any (by rw [htext]; simp) ?_
  rw [htext]
  refine ((lexes_keyword (by decide)).append (hparens.lexes.blank.append hlines.blank
    fun _ _ => delimits_cons (by decide) _) fun _ _ => delimits_cons (by decide) _).imp ?_
  rintro newline space _ ⟨_, _, rfl, ⟨v, rfl, hv⟩, ts, _, rfl, hx, w, ws, c, _, _, len, rfl, hw, hws, hc,
    hlen, hcount⟩
  let cost := 2 * (("(" ++ t ++ ")").toList.length + s.toList.length)
  have hlen' : len + 2 ≤ s.toList.length := hlen
  have harms : arms.length ≤ cost := by
    have hlines : (matchLines arms otherwise).length < s.toList.length := hcount
    simp only [matchLines, List.length_append, List.length_map] at hlines
    omega
  have hread := reads_select hv (hx.mono (show _ ≤ cost by omega)) hw
    (hws.imp fun x _ _ _ _ hx => hx.mono (show _ ≤ cost by omega)) harms hc l
  refine ReadsExpression.mono (by simpa using hread) ?_
  simp only [List.length_append, List.length_cons, cost]
  omega

/-! ## Statements -/

theorem written_each {item : Name} {items body : Node} (hname : IsPath item.text)
    (ht : WrittenExpression items t) (hb : WrittenBody body u) (l : Loc) :
    WrittenStatement (.each l item items body) ("each let " ++ item.text ++ ", " ++ t ++ " " ++ u) := by
  have htext : ("each let " ++ item.text ++ ", " ++ t ++ " " ++ u).toList =
      "each".toList ++ (' ' :: "let".toList ++ (' ' :: item.text.toList ++ (",".toList ++
        (' ' :: t.toList ++ ' ' :: u.toList)))) := by
    simp only [String.toList_append, List.append_assoc]
    rfl
  refine ⟨by rw [htext]; simp, ?_⟩
  rw [htext]
  refine ((lexes_keyword (by decide)).append ((lexes_keyword (by decide)).blank.append
    ((lexes_name hname).blank.append ((lexes_punctuation "," (by decide)).append
      (ht.lexes.blank.append hb.lexes.blank fun _ _ => delimits_cons (by decide) _)
      fun _ _ => trivial) fun _ _ => delimits_cons (by decide) _)
    fun _ _ => delimits_cons (by decide) _) fun _ _ => delimits_cons (by decide) _).imp ?_
  rintro newline space _ ⟨_, _, rfl, ⟨w, rfl, hw⟩, _, _, rfl, ⟨v, rfl, hv⟩, _, _, rfl, ⟨a, rfl, ha⟩, _,
    _, rfl, ⟨c, rfl, hc⟩, ts, us, rfl, hx, hy⟩
  let cost := 2 * (t.toList.length + u.toList.length) + 1
  refine ReadsStatement.mono (reads_each hw hv ha hc (hx.mono (show _ ≤ cost by omega))
    (hy.mono (show _ ≤ cost by omega)) l) ?_
  simp only [String.reduceToList, List.length_append, List.length_cons, cost]
  omega

theorem written_define {name : Name} {isMutable : Bool} (hname : IsPath name.text)
    (h : WrittenExpression n t) (l : Loc) :
    WrittenStatement (.define l name n isMutable)
      ((if isMutable then "var " else "let ") ++ name.text ++ " = " ++ t) := by
  let word := if isMutable then "var" else "let"
  have hword : word ∈ keywords := by cases isMutable <;> decide
  have htext : ((if isMutable then "var " else "let ") ++ name.text ++ " = " ++ t).toList =
      word.toList ++ (' ' :: name.text.toList ++ (' ' :: "=".toList ++ ' ' :: t.toList)) := by
    cases isMutable <;> simp [word]
  refine ⟨by rw [htext]; cases isMutable <;> simp [word], ?_⟩
  rw [htext]
  refine ((lexes_keyword hword).append ((lexes_name hname).blank.append
    ((lexes_spaced (by decide)).blank.append h.lexes.blank fun _ _ => ⟨_, rfl⟩)
    fun _ _ => delimits_cons (by decide) _) fun _ _ => delimits_cons (by decide) _).imp ?_
  rintro newline space _ ⟨_, _, rfl, ⟨w, rfl, hw⟩, _, _, rfl, ⟨v, rfl, hv⟩, _, ts, rfl, ⟨a, rfl, ha⟩, hx⟩
  refine (reads_define hw hv ha hx l).mono ?_
  simp only [List.length_append, List.length_cons]
  omega

theorem written_function {name : Name} {ps : List Param} {us : List String} {ns : List Node}
    {vs : List String} (hname : IsPath name.text) (hps : List.Forall₂ WrittenParam ps us)
    (hns : List.Forall₂ WrittenStatement ns vs) (level : Nat) (l l' : Loc) :
    WrittenStatement (.define l name (.fn l' ps ns) false)
      ("@" ++ name.text ++ "(" ++ ", ".intercalate us ++ ") " ++ blockText level vs) := by
  have htext : ("@" ++ name.text ++ "(" ++ ", ".intercalate us ++ ") " ++ blockText level vs).toList =
      "@".toList ++ (name.text.toList ++ (['('] ++ ((", ".intercalate us).toList ++ [')']) ++
        ' ' :: (blockText level vs).toList)) := by
    simp [String.toList_append]
  refine .of_any (by rw [htext]; simp) ?_
  rw [htext]
  refine ((lexes_punctuation "@" (by decide)).append ((lexes_name hname).append
    (lexes_signature hps hns level) fun _ _ => delimits_cons (by decide) _) fun _ _ => trivial).imp ?_
  rintro newline space _ ⟨_, _, rfl, ⟨v, rfl, hv⟩, _, ts, rfl, ⟨w, rfl, hw⟩, hx⟩
  refine (reads_function hv hw hx l l').mono ?_
  simp only [String.reduceToList, List.length_append, List.length_cons, List.length_nil]
  omega

theorem written_assign {target value : Node} (ht : WrittenExpression target t)
    (hn : target.isCond = false) (ho : target.objectLed = false) (hv : WrittenExpression value u)
    (l : Loc) : WrittenStatement (.assign l target value) (t ++ " = " ++ u) := by
  have htext : (t ++ " = " ++ u).toList = t.toList ++ (' ' :: "=".toList ++ ' ' :: u.toList) := by
    simp only [String.toList_append, List.append_assoc]
    rfl
  refine ⟨by rw [htext]; exact head_append ht.head (by simp), ?_⟩
  rw [htext]
  refine (ht.lexes.append ((lexes_spaced (by decide)).blank.append hv.lexes.blank
    fun _ _ => ⟨_, rfl⟩) fun _ _ => delimits_cons (by decide) _).imp ?_
  rintro newline space _ ⟨ts, _, rfl, hx, _, us, rfl, ⟨a, rfl, ha⟩, hy⟩
  let cost := 2 * (t.toList.length + u.toList.length)
  refine (reads_assign (hx.mono (show _ ≤ cost by omega)) hn ho ha
    (hy.mono (show _ ≤ cost by omega)) l).mono ?_
  simp only [List.length_append, List.length_cons, cost]
  omega

theorem written_update {target value : Node} {op : String} (hop : op ∈ ["+=", "-="])
    (ht : WrittenExpression target t) (hn : target.isCond = false) (ho : target.objectLed = false)
    (hv : WrittenExpression value u) (l : Loc) :
    WrittenStatement (.update l op target value) (t ++ " " ++ op ++ " " ++ u) := by
  have htext : (t ++ " " ++ op ++ " " ++ u).toList =
      t.toList ++ (' ' :: op.toList ++ ' ' :: u.toList) := by
    simp only [String.toList_append, List.append_assoc]
    rfl
  have hspaced : op ∈ spacedOperators := by
    have hall : ∀ w ∈ ["+=", "-="], w ∈ spacedOperators := by decide
    exact hall op hop
  refine ⟨by rw [htext]; exact head_append ht.head (by simp), ?_⟩
  rw [htext]
  refine (ht.lexes.append ((lexes_spaced hspaced).blank.append hv.lexes.blank
    fun _ _ => ⟨_, rfl⟩) fun _ _ => delimits_cons (by decide) _).imp ?_
  rintro newline space _ ⟨ts, _, rfl, hx, _, us, rfl, ⟨a, rfl, ha⟩, hy⟩
  let cost := 2 * (t.toList.length + u.toList.length)
  refine (reads_update hop (hx.mono (show _ ≤ cost by omega)) hn ho ha
    (hy.mono (show _ ≤ cost by omega)) l).mono ?_
  simp only [List.length_append, List.length_cons, cost]
  omega

theorem written_ret (h : WrittenExpression n t) (l : Loc) :
    WrittenStatement (.ret l n) ("return " ++ t) := by
  have htext : ("return " ++ t).toList = "return".toList ++ ' ' :: t.toList := by
    rw [String.toList_append]
    rfl
  refine ⟨by rw [htext]; simp, ?_⟩
  rw [htext]
  refine ((lexes_keyword (by decide)).append h.lexes.blank
    fun _ _ => delimits_cons (by decide) _).imp ?_
  rintro newline space _ ⟨_, ts, rfl, ⟨w, rfl, hw⟩, hx⟩
  refine (reads_ret hw hx l).mono ?_
  simp only [List.length_append, List.length_cons]
  omega

theorem written_exit (l : Loc) : WrittenStatement (.exit l) "break" := by
  refine ⟨by decide, (lexes_keyword (by decide)).imp ?_⟩
  rintro newline space _ ⟨w, rfl, hw⟩
  exact reads_exit hw l

theorem written_next (l : Loc) : WrittenStatement (.next l) "continue" := by
  refine ⟨by decide, (lexes_keyword (by decide)).imp ?_⟩
  rintro newline space _ ⟨w, rfl, hw⟩
  exact reads_next hw l

end ScriptBridge.AiScript

import ScriptBridge.Proofs.TypeScript.Advance
import ScriptBridge.Proofs.TypeScript.Steps
import ScriptBridge.Proofs.TypeScript.TokenTiling
import Mathlib.Data.List.Forall2

/-!
# Tokens stay in order

The tokens of a text follow each other, each takes up a region of the text, and those of the substitutions
of a template lie inside the template and follow each other too. Splitting an operator moves its start
and leaves its end where it is, so this stays so while the parser runs.

* `InOrder`, `Token.Sturdy`: rows of tokens, and a token with what is inside it.
* `Cut.trimmed`: what is left of a token.
* `ParserState.Sound`: states whose tokens are in order; `ahead` and `reached` are the places between which
  the parser stands.
* `Advances.ahead_le`, `Advances.reached_le`: both only grow.
* `Tiled.sturdy`: the tokens of a text.
-/

namespace ScriptBridge.TypeScript

/-! ## Rows of tokens -/

/-- Tokens follow each other in the text, and the last one stands for its end. -/
structure InOrder (tokens : List Token) : Prop where
  apart : tokens.Pairwise fun t u => t.span.stop ≤ u.span.start
  ends : ∃ t, tokens.getLast? = some t ∧ t.kind = .eof

/-- The tokens of all substitutions of a template. -/
def innerTokens (pieces : List (List Token × String)) : List Token :=
  pieces.flatMap (·.1)

/-- The tokens of substitutions follow each other between two offsets. -/
structure Framed (start stop : Nat) (pieces : List (List Token × String)) : Prop where
  within : ∀ u ∈ innerTokens pieces, start ≤ u.span.start ∧ u.span.stop ≤ stop
  apart : (innerTokens pieces).Pairwise fun u v => u.span.stop ≤ v.span.start
  ends : ∀ piece ∈ pieces, ∃ u, piece.1.getLast? = some u ∧ u.kind = .eof

theorem Framed.mono {a b stop : Nat} {pieces : List (List Token × String)} (h : Framed b stop pieces)
    (hab : a ≤ b) : Framed a stop pieces :=
  { h with within u hu := ⟨Nat.le_trans hab (h.within u hu).1, (h.within u hu).2⟩ }

namespace Token

/-- A token takes up a region, an operator one in which its text has room, and a template one that holds
the tokens of its substitutions. -/
inductive Sturdy : Token → Prop
  | intro {t : Token} (ordered : t.span.start ≤ t.span.stop)
      (operator : t.kind = .op → t.span.start + t.text.length ≤ t.span.stop)
      (framed : t.kind = .template → Framed t.span.start t.span.stop t.pieces)
      (inner : t.kind = .template → ∀ u ∈ innerTokens t.pieces, Sturdy u) : Sturdy t

theorem Sturdy.ordered {t : Token} : t.Sturdy → t.span.start ≤ t.span.stop
  | intro ordered .. => ordered

theorem Sturdy.framed {t : Token} (kind : t.kind = .template) :
    t.Sturdy → Framed t.span.start t.span.stop t.pieces
  | intro _ _ framed _ => framed kind

theorem Sturdy.inner {t : Token} (kind : t.kind = .template) :
    t.Sturdy → ∀ u ∈ innerTokens t.pieces, u.Sturdy
  | intro _ _ _ inner => inner kind

/-- A token that is no template. -/
theorem Sturdy.of_plain {t : Token} (ordered : t.span.start ≤ t.span.stop)
    (operator : t.kind = .op → t.span.start + t.text.length ≤ t.span.stop)
    (kind : t.kind ≠ .template) : t.Sturdy :=
  .intro ordered operator (absurd · kind) (absurd · kind)

end Token

/-! ## Tokens that are cut -/

/-- A token is left of another one: it ends where that one ends and starts no earlier. -/
structure Trimmed (t t' : Token) : Prop where
  kind : t'.kind = t.kind
  start_le : t.span.start ≤ t'.span.start
  stop_eq : t'.span.stop = t.span.stop
  sturdy : t'.Sturdy

theorem Trimmed.refl {t : Token} (h : t.Sturdy) : Trimmed t t :=
  ⟨rfl, Nat.le_refl _, rfl, h⟩

theorem Trimmed.trans {t t' t'' : Token} (h : Trimmed t t') (h' : Trimmed t' t'') : Trimmed t t'' :=
  ⟨h'.kind.trans h.kind, Nat.le_trans h.start_le h'.start_le, h'.stop_eq.trans h.stop_eq, h'.sturdy⟩

section
variable {tokens tokens' : List Token}

theorem pairwise_of_trimmed (h : List.Forall₂ Trimmed tokens tokens')
    (hp : tokens.Pairwise fun t u => t.span.stop ≤ u.span.start) :
    tokens'.Pairwise fun t u => t.span.stop ≤ u.span.start := by
  induction h with
  | nil => exact .nil
  | @cons t t' ts ts' ht hts ih =>
    obtain ⟨hhead, htail⟩ := List.pairwise_cons.mp hp
    refine .cons (fun u' hu' => ?_) (ih htail)
    obtain ⟨i, hi', rfl⟩ := List.getElem_of_mem hu'
    have hi : i < ts.length := hts.length_eq ▸ hi'
    have hu : Trimmed ts[i] ts'[i] := hts.get hi hi'
    calc t'.span.stop = t.span.stop := ht.stop_eq
      _ ≤ ts[i].span.start := hhead _ (List.getElem_mem hi)
      _ ≤ ts'[i].span.start := hu.start_le

theorem ends_of_trimmed (h : List.Forall₂ Trimmed tokens tokens')
    (he : ∃ t, tokens.getLast? = some t ∧ t.kind = .eof) :
    ∃ t, tokens'.getLast? = some t ∧ t.kind = .eof := by
  obtain ⟨t, hlast, hkind⟩ := he
  rw [List.getLast?_eq_getElem?, h.length_eq] at hlast
  obtain ⟨hi, rfl⟩ := List.getElem?_eq_some_iff.mp hlast
  have hi' : tokens'.length - 1 < tokens'.length := h.length_eq ▸ hi
  refine ⟨tokens'[tokens'.length - 1], ?_, ?_⟩
  · rw [List.getLast?_eq_getElem?, List.getElem?_eq_getElem hi']
  · exact (h.get hi hi').kind.trans hkind

theorem InOrder.of_trimmed (h : List.Forall₂ Trimmed tokens tokens') (ho : InOrder tokens) :
    InOrder tokens' :=
  ⟨pairwise_of_trimmed h ho.apart, ends_of_trimmed h ho.ends⟩

/-- Each of what is left of tokens is left of one of them. -/
theorem exists_of_trimmed (h : List.Forall₂ Trimmed tokens tokens') :
    ∀ u' ∈ tokens', ∃ u ∈ tokens, Trimmed u u' := by
  intro u' hu'
  obtain ⟨i, hi', rfl⟩ := List.getElem_of_mem hu'
  have hi : i < tokens.length := h.length_eq ▸ hi'
  exact ⟨_, List.getElem_mem hi, h.get hi hi'⟩

end

/-- What is left of an operator of which one `>` is taken. -/
theorem Token.Sturdy.behindAngle {t : Token} (ht : t.Sturdy) (h : t.canSplit = true) :
    Trimmed t t.behindAngle := by
  obtain ⟨-, operator, -, -⟩ := ht
  simp only [Token.canSplit, Bool.and_eq_true, beq_iff_eq] at h
  obtain ⟨⟨hop, -⟩, hhead⟩ := h
  have hlength : t.behindAngle.text.length + 1 = t.text.length := by
    have hne : t.text.toList ≠ [] := by
      intro hnil
      rw [hnil] at hhead
      cases hhead
    have hpos := List.length_pos_iff.mpr hne
    rw [Token.behindAngle, String.length_ofList, List.length_tail, ← String.length_toList]
    omega
  have hroom : t.span.start + 1 + t.behindAngle.text.length ≤ t.span.stop := by
    have := operator hop
    omega
  have hkind : t.behindAngle.kind ≠ .template := by
    show t.kind ≠ .template
    rw [hop]
    decide
  exact ⟨rfl, Nat.le_succ _, rfl, .of_plain (Nat.le_of_add_right_le hroom) (fun _ => hroom) hkind⟩

/-- Putting trimmed tokens in the place of one substitution trims the tokens of all of them. -/
theorem forall₂_innerTokens_set {pieces : List (List Token × String)} {k : Nat}
    {tokens tokens' : List Token} {literal : String} (hs : ∀ u ∈ innerTokens pieces, u.Sturdy)
    (hk : pieces[k]? = some (tokens, literal)) (h : List.Forall₂ Trimmed tokens tokens') :
    List.Forall₂ Trimmed (innerTokens pieces) (innerTokens (pieces.set k (tokens', literal))) := by
  have hpieces : List.Forall₂ (fun p q : List Token × String => List.Forall₂ Trimmed p.1 q.1)
      pieces (pieces.set k (tokens', literal)) := by
    refine List.forall₂_iff_get.mpr ⟨List.length_set.symm, fun i hi hi' => ?_⟩
    by_cases hik : k = i
    · subst hik
      have hp : pieces[k] = (tokens, literal) := (List.getElem?_eq_some_iff.mp hk).2
      simpa [hp] using h
    · have hp : pieces[i] ∈ pieces := List.getElem_mem hi
      simpa [hik] using List.forall₂_same.mpr fun u hu =>
        Trimmed.refl (hs u (List.mem_flatMap.mpr ⟨_, hp, hu⟩))
  exact List.rel_flatMap hpieces fun _ _ h => h

/-- What is left of a token that was cut. -/
theorem Cut.trimmed {t t' : Token} (h : Cut t t') (ht : t.Sturdy) : Trimmed t t' := by
  induction h with
  | same => exact .refl ht
  | angle h _ ih => exact (ht.behindAngle h).trans (ih (ht.behindAngle h).sturdy)
  | @piece t t' k tokens tokens' literal hk hlen hcut _ ih ihrest =>
    have hmem : (tokens, literal) ∈ t.pieces := List.mem_of_getElem? hk
    have htrimmed (kind : t.kind = .template) : List.Forall₂ Trimmed tokens tokens' := by
      refine List.forall₂_iff_get.mpr ⟨hlen.symm, fun i hi hi' => ?_⟩
      exact ih i _ _ (List.getElem?_eq_getElem hi) (List.getElem?_eq_getElem hi')
        (ht.inner kind _ (List.mem_flatMap.mpr ⟨_, hmem, List.getElem_mem hi⟩))
    have hinner (kind : t.kind = .template) :=
      forall₂_innerTokens_set (ht.inner kind) hk (htrimmed kind)
    have hset : Trimmed t { t with pieces := t.pieces.set k (tokens', literal) } := by
      have ht' := ht
      obtain ⟨ordered, operator, framed, -⟩ := ht'
      refine ⟨rfl, Nat.le_refl _, rfl, .intro ordered operator (fun kind => ⟨fun u' hu' => ?_,
        pairwise_of_trimmed (hinner kind) (framed kind).apart, fun piece hpiece => ?_⟩)
        fun kind u' hu' => ?_⟩
      · obtain ⟨u, hu, htrim⟩ := exists_of_trimmed (hinner kind) u' hu'
        obtain ⟨hstart, hstop⟩ := (framed kind).within u hu
        exact ⟨Nat.le_trans hstart htrim.start_le, htrim.stop_eq ▸ hstop⟩
      · obtain hpiece | rfl := List.mem_or_eq_of_mem_set hpiece
        · exact (framed kind).ends piece hpiece
        · exact ends_of_trimmed (htrimmed kind) ((framed kind).ends _ hmem)
      · obtain ⟨_, _, htrim⟩ := exists_of_trimmed (hinner kind) u' hu'
        exact htrim.sturdy
    exact hset.trans (ihrest hset.sturdy)

/-! ## States -/

namespace ParserState

/-- A state on one of its tokens, which are in order. -/
structure Sound (s : ParserState) : Prop where
  order : InOrder s.tokens.toList
  sturdy : ∀ t ∈ s.tokens.toList, t.Sturdy
  inside : s.pos < s.tokens.size

/-- Where the next token starts. -/
def ahead (s : ParserState) : Nat :=
  s.next.span.start

/-- Where the last token that was taken ends, or the start of the text. -/
def reached (s : ParserState) : Nat :=
  if s.pos = 0 then 0 else s.last.stop

variable {s s' : ParserState}

theorem Sound.getElem?_pos (h : s.Sound) : s.tokens[s.pos]? = some s.next := by
  rw [next, Array.getElem?_eq_getElem h.inside]
  rfl

theorem Sound.next_sturdy (h : s.Sound) : s.next.Sturdy :=
  h.sturdy _ (Array.mem_toList_iff.mpr (Array.mem_of_getElem? h.getElem?_pos))

theorem reached_of_pos (h : 0 < s.pos) : s.reached = s.last.stop :=
  if_neg (by omega)

/-- Behind the start, the last token that was taken is one of the tokens. -/
theorem Sound.exists_last (h : s.Sound) (hpos : 0 < s.pos) :
    ∃ t, s.tokens[s.pos - 1]? = some t ∧ s.reached = t.span.stop := by
  have hi : s.pos - 1 < s.tokens.size := by have := h.inside; omega
  refine ⟨s.tokens[s.pos - 1], Array.getElem?_eq_getElem hi, ?_⟩
  rw [reached_of_pos hpos, last, Array.getElem?_eq_getElem hi]
  rfl

/-- A token ends before those behind it start. -/
theorem Sound.stop_le_start (h : s.Sound) {i j : Nat} {t u : Token} (hij : i < j)
    (ht : s.tokens[i]? = some t) (hu : s.tokens[j]? = some u) : t.span.stop ≤ u.span.start := by
  rw [← Array.getElem?_toList] at ht hu
  obtain ⟨hi, rfl⟩ := List.getElem?_eq_some_iff.mp ht
  obtain ⟨hj, rfl⟩ := List.getElem?_eq_some_iff.mp hu
  exact List.pairwise_iff_getElem.mp h.order.apart i j hi hj hij

theorem Sound.start_le_start (h : s.Sound) {i j : Nat} {t u : Token} (hij : i ≤ j)
    (ht : s.tokens[i]? = some t) (hu : s.tokens[j]? = some u) : t.span.start ≤ u.span.start := by
  obtain rfl | hij := Nat.eq_or_lt_of_le hij
  · cases ht.symm.trans hu
    exact Nat.le_refl _
  · have hle := h.stop_le_start hij ht hu
    have hordered := (h.sturdy t (Array.mem_toList_iff.mpr (Array.mem_of_getElem? ht))).ordered
    omega

theorem Sound.stop_le_stop (h : s.Sound) {i j : Nat} {t u : Token} (hij : i ≤ j)
    (ht : s.tokens[i]? = some t) (hu : s.tokens[j]? = some u) : t.span.stop ≤ u.span.stop := by
  obtain rfl | hij := Nat.eq_or_lt_of_le hij
  · cases ht.symm.trans hu
    exact Nat.le_refl _
  · have hle := h.stop_le_start hij ht hu
    have hordered := (h.sturdy u (Array.mem_toList_iff.mpr (Array.mem_of_getElem? hu))).ordered
    omega

/-- The parser stands behind what it has reached. -/
theorem Sound.reached_le_ahead (h : s.Sound) : s.reached ≤ s.ahead := by
  obtain hzero | hpos := Nat.eq_zero_or_pos s.pos
  · rw [reached, if_pos hzero]
    exact Nat.zero_le _
  · obtain ⟨t, ht, hreached⟩ := h.exists_last hpos
    rw [hreached]
    exact h.stop_le_start (by omega) ht h.getElem?_pos

/-- Only the token that stands for the end has none behind it. -/
theorem Sound.behind (h : s.Sound) (hkind : s.next.kind ≠ .eof) : s.behind.Sound := by
  refine ⟨h.order, h.sturdy, ?_⟩
  obtain ⟨t, hlast, heof⟩ := h.order.ends
  rw [List.getLast?_eq_getElem?, Array.getElem?_toList, Array.length_toList] at hlast
  have hinside := h.inside
  show s.pos + 1 < s.tokens.size
  by_contra hend
  have hpos : s.tokens.size - 1 = s.pos := by omega
  rw [hpos, h.getElem?_pos] at hlast
  cases hlast
  exact hkind heof

/-- The tokens of a substitution are in order. -/
theorem sound_of_framed {start stop : Nat} {tokens : List Token} {literal : String}
    {pieces : List (List Token × String)} (hframed : Framed start stop ((tokens, literal) :: pieces))
    (hsturdy : ∀ u ∈ innerTokens ((tokens, literal) :: pieces), u.Sturdy) (nextId : Nat) :
    ({ tokens := tokens.toArray, nextId } : ParserState).Sound := by
  obtain ⟨-, hapart, hends⟩ := hframed
  have hend := (List.forall_mem_cons.mp hends).1
  refine ⟨⟨(List.pairwise_append.mp hapart).1, hend⟩, (List.forall_mem_append.mp hsturdy).1,
    List.length_pos_iff.mpr ?_⟩
  rintro rfl
  obtain ⟨_, hlast, -⟩ := hend
  cases hlast

end ParserState

/-! ## Moving on -/

section
variable {s s' : ParserState}

theorem AllCut.trimmed {start : Nat} {tokens tokens' : Array Token} (h : AllCut start tokens tokens')
    (hs : ∀ t ∈ tokens.toList, t.Sturdy) : List.Forall₂ Trimmed tokens.toList tokens'.toList := by
  refine List.forall₂_iff_get.mpr ⟨h.size_eq.symm, fun i hi hi' => ?_⟩
  refine (h.cut i _ _ ?_ ?_).trimmed (hs _ (List.getElem_mem hi))
  · rw [← Array.getElem?_toList]
    exact List.getElem?_eq_getElem hi
  · rw [← Array.getElem?_toList]
    exact List.getElem?_eq_getElem hi'

/-- The tokens of a state that the parser moves on to are in order as well. -/
theorem Advances.sound (h : Advances s s') (hs : s.Sound) (hinside : s'.pos < s'.tokens.size) :
    s'.Sound where
  order := hs.order.of_trimmed (h.tokens.trimmed hs.sturdy)
  sturdy t ht := by
    obtain ⟨_, _, htrimmed⟩ := exists_of_trimmed (h.tokens.trimmed hs.sturdy) t ht
    exact htrimmed.sturdy
  inside := hinside

theorem Advances.trimmed (h : Advances s s') (hs : s.Sound) {i : Nat} {t' : Token}
    (ht' : s'.tokens[i]? = some t') : ∃ t, s.tokens[i]? = some t ∧ Trimmed t t' := by
  have hi : i < s.tokens.size := h.tokens.size_eq ▸ (Array.getElem?_eq_some_iff.mp ht').1
  have ht : s.tokens[i]? = some s.tokens[i] := Array.getElem?_eq_getElem hi
  refine ⟨s.tokens[i], ht, (h.tokens.cut i _ t' ht ht').trimmed (hs.sturdy _ ?_)⟩
  exact Array.mem_toList_iff.mpr (Array.getElem_mem hi)

/-- The place ahead of the parser only grows. -/
theorem Advances.ahead_le (h : Advances s s') (hs : s.Sound) (hs' : s'.Sound) : s.ahead ≤ s'.ahead := by
  obtain ⟨t, ht, htrimmed⟩ := h.trimmed hs hs'.getElem?_pos
  exact Nat.le_trans (hs.start_le_start h.pos_le hs.getElem?_pos ht) htrimmed.start_le

/-- What the parser has reached only grows. -/
theorem Advances.reached_le (h : Advances s s') (hs : s.Sound) (hs' : s'.Sound) :
    s.reached ≤ s'.reached := by
  obtain hzero | hpos := Nat.eq_zero_or_pos s.pos
  · rw [ParserState.reached, if_pos hzero]
    exact Nat.zero_le _
  · have hle := h.pos_le
    obtain ⟨t, ht, hreached⟩ := hs.exists_last hpos
    obtain ⟨t', ht', hreached'⟩ := hs'.exists_last (by omega)
    obtain ⟨u, hu, htrimmed⟩ := h.trimmed hs ht'
    rw [hreached, hreached', htrimmed.stop_eq]
    exact hs.stop_le_stop (by omega) ht hu

/-- A parser that has taken the next token has reached its end. -/
theorem Advances.stop_le_reached (h : Advances s s') (hs : s.Sound) (hs' : s'.Sound)
    (hmoved : s.pos < s'.pos) : s.next.span.stop ≤ s'.reached := by
  obtain ⟨t', ht', hreached⟩ := hs'.exists_last (by omega)
  obtain ⟨u, hu, htrimmed⟩ := h.trimmed hs ht'
  rw [hreached, htrimmed.stop_eq]
  exact hs.stop_le_stop (by omega) hs.getElem?_pos hu

/-- What the parser reaches is inside the region that holds all tokens. -/
theorem Advances.reached_le_of_stop_le (h : Advances s s') (hs : s.Sound) (hs' : s'.Sound) {bound : Nat}
    (hbound : ∀ t ∈ s.tokens.toList, t.span.stop ≤ bound) : s'.reached ≤ bound := by
  obtain hzero | hpos := Nat.eq_zero_or_pos s'.pos
  · rw [ParserState.reached, if_pos hzero]
    exact Nat.zero_le _
  · obtain ⟨t', ht', hreached⟩ := hs'.exists_last hpos
    obtain ⟨t, ht, htrimmed⟩ := h.trimmed hs ht'
    rw [hreached, htrimmed.stop_eq]
    exact hbound t (Array.mem_toList_iff.mpr (Array.mem_of_getElem? ht))

end

/-! ## The tokens of a text -/

theorem Tiled.ends {source : List Char} {start stop : Nat} {tokens : List Token} :
    Tiled source start stop tokens → ∃ t, tokens.getLast? = some t ∧ t.kind = .eof
  | @Tiled.eof _ _ _ t _ _ _ _ _ kind _ => ⟨t, rfl, kind⟩
  | .token _ _ _ _ _ _ _ tiled => by
    obtain ⟨t, hlast, hkind⟩ := tiled.ends
    exact ⟨t, by rw [List.getLast?_cons, hlast]; rfl, hkind⟩

theorem Tiled.inOrder {source : List Char} {start stop : Nat} {tokens : List Token}
    (h : Tiled source start stop tokens) : InOrder tokens :=
  ⟨h.pairwise, h.ends⟩

theorem Tiled.le_stop {source : List Char} {start stop : Nat} {tokens : List Token} :
    Tiled source start stop tokens → start ≤ stop
  | .eof le .. => le
  | .token le lt _ _ _ _ _ tiled => by
    have := tiled.le_stop
    omega

theorem TemplateTiled.lt_stop {source : List Char} {i stop : Nat} {pieces : List (List Token × String)} :
    TemplateTiled source i stop pieces → i < stop
  | .close _ => Nat.lt_succ_self _
  | .char _ _ _ rest => Nat.lt_of_succ_lt rest.lt_stop
  | .escape _ rest => by have := rest.lt_stop; omega
  | .substitution _ _ tiled _ _ rest => by
    have := rest.lt_stop
    have := tiled.le_stop
    omega

theorem Tiled.stop_le {source : List Char} {start stop : Nat} {tokens : List Token} :
    Tiled source start stop tokens → ∀ t ∈ tokens, t.span.stop ≤ stop
  | .eof _ _ _ _ span _ _, t, ht => by
    rw [List.mem_singleton.mp ht, span]
    exact Nat.le_refl _
  | .token _ _ _ _ _ span _ tiled, t, ht => by
    obtain rfl | ht := List.mem_cons.mp ht
    · rw [span]
      exact tiled.le_stop
    · exact tiled.stop_le t ht

/-- The tokens of substitutions follow each other inside the template. -/
theorem TemplateTiled.framed {source : List Char} {i stop : Nat} {pieces : List (List Token × String)} :
    TemplateTiled source i stop pieces → Framed i stop pieces
  | .close _ => ⟨nofun, .nil, nofun⟩
  | .char _ _ _ rest => rest.framed.mono (Nat.le_succ _)
  | .escape _ rest => rest.framed.mono (by omega)
  | .substitution _ _ tiled _ _ rest => by
    have hstop := rest.lt_stop
    have hle := tiled.le_stop
    have hrest := rest.framed
    refine ⟨?_, ?_, List.forall_mem_cons.mpr ⟨tiled.ends, hrest.ends⟩⟩
    · refine List.forall_mem_append.mpr ⟨fun u hu => ?_, fun u hu => ?_⟩
      · have := tiled.start_le u hu
        have := tiled.stop_le u hu
        omega
      · have := hrest.within u hu
        omega
    · refine List.pairwise_append.mpr ⟨tiled.pairwise, hrest.apart, fun u hu v hv => ?_⟩
      have := tiled.stop_le u hu
      have := hrest.within v hv
      omega

mutual

/-- The tokens of a text are sturdy. -/
theorem Tiled.sturdy {source : List Char} {start stop : Nat} {tokens : List Token} :
    Tiled source start stop tokens → ∀ t ∈ tokens, t.Sturdy
  | .eof _ _ _ _ span kind _ =>
    List.forall_mem_singleton.mpr (.of_plain (by rw [span]; exact Nat.le_refl _)
      (fun hop => absurd (kind.symm.trans hop) (by decide)) (by rw [kind]; decide))
  | .token _ lt bound _ _ span lexeme tiled =>
    List.forall_mem_cons.mpr ⟨lexeme.sturdy lt bound span, tiled.sturdy⟩

theorem Lexeme.sturdy {source : List Char} {i j : Nat} {t : Token} :
    Lexeme source i j t → i < j → j ≤ source.length → t.span = regionOf source i j → t.Sturdy
  | .plain kind text _, lt, bound, span => by
    have hroom : t.span.start + t.text.length ≤ t.span.stop := by
      rw [span, ← String.length_toList, text, slice, List.length_take, List.length_drop]
      show i + _ ≤ j
      omega
    refine .of_plain (Nat.le_of_add_right_le hroom) (fun _ => hroom) ?_
    obtain kind | kind | kind := kind <;> rw [kind] <;> decide
  | .string kind _, lt, _, span =>
    .of_plain (by rw [span]; exact Nat.le_of_lt lt)
      (fun hop => absurd (kind.symm.trans hop) (by decide)) (by rw [kind]; decide)
  | .template kind _ _ tiled, lt, _, span => by
    refine .intro ?_ (fun hop => absurd (kind.symm.trans hop) (by decide))
      (fun _ => ?_) fun _ => tiled.sturdy <;> rw [span]
    · exact Nat.le_of_lt lt
    · exact tiled.framed.mono (Nat.le_succ i)

theorem TemplateTiled.sturdy {source : List Char} {i stop : Nat} {pieces : List (List Token × String)} :
    TemplateTiled source i stop pieces → ∀ u ∈ innerTokens pieces, u.Sturdy
  | .close _ => fun _ hu => nomatch hu
  | .char _ _ _ rest => rest.sturdy
  | .escape _ rest => rest.sturdy
  | .substitution _ _ tiled _ _ rest => List.forall_mem_append.mpr ⟨tiled.sturdy, rest.sturdy⟩

end

section
variable {text : String} {tokens : List Token}

/-- The parser starts on tokens that are in order. -/
theorem sound_of_tokenize (h : tokenize text = .ok tokens) (nextId : Nat) :
    ({ tokens := tokens.toArray, nextId } : ParserState).Sound := by
  have htiled := tiled_of_tokenize h
  refine ⟨htiled.inOrder, htiled.sturdy, ?_⟩
  obtain ⟨t, hlast, -⟩ := htiled.ends
  refine List.length_pos_iff.mpr fun (hnil : tokens = []) => ?_
  rw [hnil] at hlast
  cases hlast

/-- All tokens of a text end in it. -/
theorem stop_le_of_tokenize (h : tokenize text = .ok tokens) : ∀ t ∈ tokens, t.span.stop ≤ text.length :=
  (tiled_of_tokenize h).stop_le

end

end ScriptBridge.TypeScript

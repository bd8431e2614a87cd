import ScriptBridge.Proofs.TypeScript.Beginnings
import ScriptBridge.Proofs.TypeScript.Placement
import ScriptBridge.Proofs.TypeScript.TokenOrder

/-!
# Gathering nodes

While a rule takes tokens, it gathers nodes. They lie one behind the other between the place where the
rule started and what it has reached, and a node built over them holds them all. So a rule can be followed
step by step: each step moves on, and may add nodes behind those gathered so far.

* `Laid`: nodes one behind the other between two offsets.
* `Gathered`: what a rule has gathered between two states.
* `Collects`: rules that gather the nodes of their answers.
* `Gathered.read`, `Gathered.pass`: going on with such a rule.
* `Gathered.build`, `Gathered.early`: building a node over what was gathered.
-/

namespace ScriptBridge.TypeScript

open ScriptBridge.TypeScript.Parser

/-! ## Nodes in a row -/

/-- Nodes lie one behind the other between two offsets; accesses at the left end of the first one may start
at the given offset. -/
structure Laid (head : Option Nat) (start stop : Nat) (nodes : List Node) : Prop where
  order : nodes.Pairwise fun a b => a.span.stop ≤ b.span.start
  within : ∀ n ∈ nodes, start ≤ n.span.start ∧ n.span.stop ≤ stop
  first : ∀ n ∈ nodes.head?, Placed head n
  others : ∀ n ∈ nodes.tail, Placed none n

namespace Laid

variable {head : Option Nat} {a b c d : Nat} {xs ys : List Node} {n : Node}

theorem nil : Laid head a b [] :=
  ⟨.nil, nofun, nofun, nofun⟩

theorem singleton (hplaced : Placed head n) (hstart : a ≤ n.span.start) (hstop : n.span.stop ≤ b) :
    Laid head a b [n] where
  order := List.pairwise_singleton _ _
  within := List.forall_mem_singleton.mpr ⟨hstart, hstop⟩
  first m hm := by
    cases hm
    exact hplaced
  others := nofun

theorem placed (h : Laid none a b xs) : ∀ n ∈ xs, Placed none n := by
  cases xs with
  | nil => exact nofun
  | cons x xs => exact List.forall_mem_cons.mpr ⟨h.first x rfl, h.others⟩

theorem mono (h : Laid head b c xs) (hab : a ≤ b) (hcd : c ≤ d) : Laid head a d xs :=
  { h with within n hn := ⟨Nat.le_trans hab (h.within n hn).1, Nat.le_trans (h.within n hn).2 hcd⟩ }

theorem append (h : Laid head a b xs) (h' : Laid none c d ys) (hac : a ≤ c) (hbc : b ≤ c)
    (hbd : b ≤ d) : Laid head a d (xs ++ ys) where
  order := by
    refine List.pairwise_append.mpr ⟨h.order, h'.order, fun x hx y hy => ?_⟩
    exact Nat.le_trans (h.within x hx).2 (Nat.le_trans hbc (h'.within y hy).1)
  within n hn := by
    obtain hn | hn := List.mem_append.mp hn
    · exact ⟨(h.within n hn).1, Nat.le_trans (h.within n hn).2 hbd⟩
    · exact ⟨Nat.le_trans hac (h'.within n hn).1, (h'.within n hn).2⟩
  first := by
    cases xs with
    | nil => exact fun n hn => (h'.first n hn).mono head
    | cons x xs => exact h.first
  others := by
    cases xs with
    | nil => exact h'.others
    | cons x xs => exact List.forall_mem_append.mpr ⟨h.others, h'.placed⟩

/-- A node whose children lie between its ends nests. -/
theorem nests (h : Laid head n.span.start n.span.stop xs) (hordered : n.span.start ≤ n.span.stop)
    (hchildren : n.children.Perm xs) (hwhole : n.endsEarly = false) : n.Nests where
  ordered := hordered
  apart := (hchildren.pairwise_iff fun h => h.symm).mpr (h.order.imp .inl)
  inside c hc := by
    rw [Node.held_of_whole hwhole] at hc
    obtain ⟨hle, hle'⟩ := h.within c (hchildren.mem_iff.mp hc)
    exact ⟨hle, hle'⟩
  behind hearly := absurd hearly (by simp [hwhole])

end Laid

/-! ## What a rule gathers -/

/-- Between two states, nodes have been gathered. If `moved`, a token has been taken. -/
structure Gathered (moved : Bool) (s₀ s : ParserState) (nodes : List Node)
    (head : Option Nat := none) : Prop where
  advances : Advances s₀ s
  start : s₀.Sound
  sound : s.Sound
  moved : moved = true → s₀.pos < s.pos
  laid : Laid head s₀.ahead s.reached nodes

/-- One node has been gathered, and it starts where the rule did. -/
structure Grown (s₀ s : ParserState) (n : Node) : Prop where
  gathered : Gathered true s₀ s [n]
  begins : n.span.start = s₀.ahead

/-- Whatever a rule answers, it has gathered the nodes of the answer. -/
def Collects {α : Type} (moved : Bool) (p : Parser α) (nodes : α → List Node) : Prop :=
  ∀ s : ParserState, s.Sound → Answers s p fun a s' => Gathered moved s s' (nodes a)

variable {m m' : Bool} {s₀ s s' : ParserState} {xs ys : List Node} {head : Option Nat} {n e : Node}

namespace Gathered

theorem begin (h : s.Sound) : Gathered false s s [] :=
  ⟨.refl s, h, h, nofun, .nil⟩

/-- One gathering after another one. -/
theorem trans (g : Gathered m s₀ s xs head) (g' : Gathered m' s s' ys) :
    Gathered (m' || m) s₀ s' (xs ++ ys) head where
  advances := g.advances.trans g'.advances
  start := g.start
  sound := g'.sound
  moved h := by
    have hle := g.advances.pos_le
    have hle' := g'.advances.pos_le
    obtain h | h := Bool.or_eq_true_iff.mp h
    · have := g'.moved h
      omega
    · have := g.moved h
      omega
  laid := g.laid.append g'.laid (g.advances.ahead_le g.start g.sound) g.sound.reached_le_ahead
    (g'.advances.reached_le g.sound g'.sound)

/-- Forgetting the nodes. -/
theorem drop (g : Gathered m s₀ s xs head) : Gathered m s₀ s [] :=
  { g with laid := .nil }

/-- Forgetting whether a token was taken. -/
theorem forget (g : Gathered m s₀ s xs head) : Gathered false s₀ s xs head :=
  { g with moved := nofun }

/-- A part that is missing adds no nodes. -/
theorem nothing (g : Gathered m s₀ s xs head) : Gathered m s₀ s (xs ++ []) head :=
  (List.append_nil xs).symm ▸ g

/-- The number of the next node and whether `in` is an operator do not matter. -/
theorem congr (g : Gathered m s₀ s xs head) (htokens : s'.tokens = s.tokens) (hpos : s'.pos = s.pos) :
    Gathered m s₀ s' xs head := by
  obtain ⟨advances, start, sound, moved, laid⟩ := g
  have hreached : s'.reached = s.reached := by
    simp only [ParserState.reached, ParserState.last, htokens, hpos]
  refine ⟨⟨hpos ▸ advances.pos_le, htokens ▸ advances.tokens⟩, start, ?_, hpos ▸ moved,
    hreached ▸ laid⟩
  exact ⟨htokens ▸ sound.order, htokens ▸ sound.sturdy, by rw [htokens, hpos]; exact sound.inside⟩

/-- The first node may start elsewhere. -/
theorem atHead (g : Gathered m s₀ s xs) (head : Option Nat) : Gathered m s₀ s xs head :=
  { g with laid := { g.laid with first n hn := (g.laid.first n hn).mono head } }

/-- A state that differs in its tokens alone. -/
theorem of_stay (h : s.Sound) (hadvances : Advances s s') (hpos : s'.pos = s.pos) :
    Gathered false s s' [] := by
  refine ⟨hadvances, h, hadvances.sound h ?_, nofun, .nil⟩
  rw [hpos, hadvances.tokens.size_eq]
  exact h.inside

/-- A single node in the place of what was gathered. -/
theorem single {head' : Option Nat} (g : Gathered m s₀ s xs head) (hplaced : Placed head' n)
    (hstart : s₀.ahead ≤ n.span.start) (hstop : n.span.stop ≤ s.reached) :
    Gathered m s₀ s [n] head' :=
  { g with laid := .singleton hplaced hstart hstop }

/-! ## Steps -/

section
variable {α β : Type} {P : β → ParserState → Prop} {p : Parser α} {f : α → Parser β}
  {nodes : α → List Node}

/-- A rule whose nodes are kept. -/
theorem read (g : Gathered m s₀ s xs head) (hp : Collects m' p nodes)
    (hf : ∀ a s₁, p s = .ok a s₁ → Gathered (m' || m) s₀ s₁ (xs ++ nodes a) head →
      Answers s₁ (f a) P) : Answers s (p >>= f) P :=
  .bind fun a s₁ h => hf a s₁ h (g.trans (hp s g.sound a s₁ h))

/-- A rule whose nodes are dropped. -/
theorem pass (g : Gathered m s₀ s xs head) (hp : Collects m' p nodes)
    (hf : ∀ a s₁, p s = .ok a s₁ → Gathered (m' || m) s₀ s₁ xs head → Answers s₁ (f a) P) :
    Answers s (p >>= f) P := by
  refine .bind fun a s₁ h => hf a s₁ h ?_
  have h := g.trans (hp s g.sound a s₁ h).drop
  rwa [List.append_nil] at h

/-- A rule that is run only sometimes, whose nodes are dropped. -/
theorem optional {c : Prop} [Decidable c] {q : Parser β} (g : Gathered m s₀ s xs head)
    (hp : Collects m' p nodes) (hq : ∀ s₁, Gathered m s₀ s₁ xs head → Answers s₁ q P) :
    Answers s (if c then p >>= fun _ => q else q) P := by
  refine .ite (g.pass hp fun _ s₁ _ g => hq s₁ ?_) (hq s g)
  exact { g with moved hm := g.moved (by rw [hm, Bool.or_true]) }

/-- A rule at the end. -/
theorem last (g : Gathered m s₀ s xs head) (hp : Collects m' p nodes) :
    Answers s p fun a s' => Gathered (m' || m) s₀ s' (xs ++ nodes a) head :=
  fun a s₁ h => g.trans (hp s g.sound a s₁ h)

end

/-! ## Tokens -/

/-- The next token is taken. -/
theorem behind (g : Gathered m s₀ s xs head) (hkind : s.next.kind ≠ .eof) :
    Gathered true s₀ s.behind xs head := by
  have hstep : Gathered true s s.behind [] :=
    ⟨⟨Nat.le_succ _, .refl _ _⟩, g.sound, g.sound.behind hkind, fun _ => Nat.lt_succ_self _, .nil⟩
  have h := g.trans hstep
  rwa [List.append_nil] at h

/-- The next token is taken, and a node over it gathered. -/
theorem leaf (g : Gathered m s₀ s xs head) (hkind : s.next.kind ≠ .eof) (hchildren : n.children = [])
    (hspan : n.span = s.next.span) : Gathered true s₀ s.behind (xs ++ [n]) head := by
  have hstep := (begin g.sound).behind hkind
  suffices hleaf : Gathered true s s.behind [n] from g.trans hleaf
  refine hstep.single (.of_leaf ?_ hchildren) ?_ ?_
  · rw [hspan]
    exact g.sound.next_sturdy.ordered
  · rw [hspan]
    exact Nat.le_refl _
  · rw [hspan]
    exact hstep.advances.stop_le_reached g.sound hstep.sound (hstep.moved rfl)

/-! ## Building nodes -/

end Gathered

theorem upTo_stop {start last : Span} (h : start.start ≤ last.stop) :
    (start.upTo last).stop = last.stop := by
  rw [Span.upTo, if_neg (Nat.not_lt.mpr h)]

/-- What a node is made of: its mark, its children, the left operand it is built around, and whether it
ends early. -/
def Node.parts (n : Node) : Mark × List Node × Option Node × Bool :=
  (n.mark, n.children, n.leftOperand?, n.endsEarly)

theorem Node.parts_eq {mark : Mark} {left : Option Node} {early : Bool} :
    n.parts = (mark, xs, left, early) ↔
      n.mark = mark ∧ n.children = xs ∧ n.leftOperand? = left ∧ n.endsEarly = early := by
  simp only [Node.parts, Prod.mk.injEq]

namespace Gathered

section
variable {start : Span}

theorem start_le_reached (g : Gathered true s₀ s xs head) : s₀.ahead ≤ s.reached :=
  Nat.le_trans g.start.next_sturdy.ordered (g.advances.stop_le_reached g.start g.sound (g.moved rfl))

/-- A region from where the rule started to what it has reached. -/
theorem upTo_last (g : Gathered true s₀ s xs head) (hstart : start.start = s₀.ahead)
    (hspan : n.span = start.upTo s.last) : n.span.start = s₀.ahead ∧ n.span.stop = s.reached := by
  have hmoved := g.moved rfl
  have hreached : s.reached = s.last.stop := ParserState.reached_of_pos (by omega)
  rw [hspan, upTo_start, upTo_stop (hstart ▸ hreached ▸ g.start_le_reached)]
  exact ⟨hstart, hreached.symm⟩

/-- A node over what was gathered, built around the left operand if it has one. -/
theorem around (g : Gathered true s₀ s xs) (hstart : start.start = s₀.ahead)
    (hspan : n.span = start.upTo s.last) (hchildren : n.children.Perm xs)
    (hwhole : n.endsEarly = false) (hleft : ∀ e ∈ n.leftOperand?, e.span.start = s₀.ahead) :
    Gathered true s₀ s [n] := by
  obtain ⟨hn, hn'⟩ := g.upTo_last hstart hspan
  have hnests := (hn ▸ hn' ▸ g.laid).nests (hn ▸ hn' ▸ g.start_le_reached) hchildren hwhole
  refine g.single (.of_children hnests (fun e he => hn.trans (hleft e he).symm) fun c hc => ?_) ?_ ?_
  · exact g.laid.placed c (hchildren.mem_iff.mp hc)
  · exact Nat.le_of_eq hn.symm
  · exact Nat.le_of_eq hn'

/-- Building a node that has no left operand; its children may stand in another order. -/
theorem buildFrom {f : Mark → Node} (g : Gathered true s₀ s xs) (hstart : start.start = s₀.ahead)
    (hperm : ys.Perm xs) (hf : ∀ m, (f m).parts = (m, ys, none, false)) :
    Answers s (Parser.build start f) fun n s' => Gathered true s₀ s' [n] := by
  intro n s' h
  rw [build_apply] at h
  cases h
  obtain ⟨hmark, hchildren, hleft, hwhole⟩ := Node.parts_eq.mp (hf ⟨s.nextId, start.upTo s.last⟩)
  refine (g.around hstart ?_ (hchildren ▸ hperm) hwhole ?_).congr rfl rfl
  · rw [Node.span, hmark]
  · rw [hleft]
    exact fun e he => absurd he (Option.not_mem_none e)

theorem build {f : Mark → Node} (g : Gathered true s₀ s xs) (hstart : start.start = s₀.ahead)
    (hf : ∀ m, (f m).parts = (m, xs, none, false)) :
    Answers s (Parser.build start f) fun n s' => Gathered true s₀ s' [n] :=
  g.buildFrom hstart (.refl xs) hf

/-- Building a node around a left operand that starts where the rule did; so does the node. -/
theorem buildAround {f : Mark → Node} (g : Gathered true s₀ s xs) (hstart : start.start = s₀.ahead)
    (he : e.span.start = s₀.ahead) (hf : ∀ m, (f m).parts = (m, xs, some e, false)) :
    Answers s (Parser.build start f) fun n s' => Grown s₀ s' n := by
  intro n s' h
  refine ⟨?_, (answers_build (fun m => (Node.parts_eq.mp (hf m)).1) n s' h).trans hstart⟩
  rw [build_apply] at h
  cases h
  obtain ⟨hmark, hchildren, hleft, hwhole⟩ := Node.parts_eq.mp (hf ⟨s.nextId, start.upTo s.last⟩)
  refine (g.around hstart ?_ (.of_eq hchildren) hwhole ?_).congr rfl rfl
  · rw [Node.span, hmark]
  · rw [hleft]
    intro _ h
    cases h
    exact he

/-- Building a node whose first child may hold accesses that start with the rule. -/
theorem buildHead {f : Mark → Node} {head' : Option Nat} (g : Gathered true s₀ s xs (some s₀.ahead))
    (hstart : start.start = s₀.ahead) (hf : ∀ m, (f m).parts = (m, xs, (f m).leftOperand?, false))
    (hhead : ∀ m, m.span.start = s₀.ahead → (f m).headFor head' = some s₀.ahead) :
    Answers s (Parser.build start f) fun n s' => Gathered true s₀ s' [n] head' := by
  intro n s' h
  rw [build_apply] at h
  cases h
  obtain ⟨hmark, hchildren, -, hwhole⟩ := Node.parts_eq.mp (hf ⟨s.nextId, start.upTo s.last⟩)
  have hspan : (f ⟨s.nextId, start.upTo s.last⟩).span = start.upTo s.last := by rw [Node.span, hmark]
  obtain ⟨hn, hn'⟩ := g.upTo_last hstart hspan
  have hnests := (hn ▸ hn' ▸ g.laid).nests (hn ▸ hn' ▸ g.start_le_reached) (.of_eq hchildren) hwhole
  have hfor := hhead ⟨s.nextId, start.upTo s.last⟩ (hspan ▸ hn)
  refine (g.single (.intro hnests (fun _ _ => .inr (hfor.trans (by rw [hn]))) ?_ ?_) (Nat.le_of_eq hn.symm)
    (Nat.le_of_eq hn')).congr rfl rfl
  · rw [hfor, hchildren]
    exact g.laid.first
  · rw [hchildren]
    exact g.laid.others

/-- A node that ends early: its region is taken before its last child is read. -/
theorem early (g : Gathered true s₀ s xs) (hstart : start.start = s₀.ahead) (g' : Gathered m s s' [e])
    (hspan : n.span = start.upTo s.last) (hchildren : n.children = xs ++ [e])
    (hearly : n.endsEarly = true) (hleft : n.leftOperand? = none) : Gathered true s₀ s' [n] := by
  have gall := g.trans g'
  obtain ⟨hn, hn'⟩ := g.upTo_last hstart hspan
  have hnests : n.Nests := {
    ordered := hn ▸ hn' ▸ g.start_le_reached
    apart := by
      rw [hchildren]
      exact gall.laid.order.imp .inl
    inside := by
      rw [Node.held_of_endsEarly hearly, hchildren, List.dropLast_concat]
      intro c hc
      obtain ⟨hle, hle'⟩ := g.laid.within c hc
      exact ⟨hn ▸ hle, hn' ▸ hle'⟩
    behind _ := by
      refine ⟨e, by rw [hchildren, List.getLast?_concat], ?_⟩
      rw [hn']
      exact Nat.le_trans g.sound.reached_le_ahead (g'.laid.within e List.mem_cons_self).1 }
  have hplaced : Placed none n := by
    refine .of_children hnests (by rw [hleft]; exact nofun) ?_
    rw [hchildren]
    exact gall.laid.placed
  have hmoved : Gathered true s₀ s' [] := { gall.drop with
    moved _ := Nat.lt_of_lt_of_le (g.moved rfl) g'.advances.pos_le }
  refine hmoved.single hplaced (Nat.le_of_eq hn.symm) ?_
  rw [hn']
  exact g'.advances.reached_le g.sound g'.sound

/-- A node without children over what was read, if anything was: what follows it ends behind it. -/
theorem blank (g : Gathered m s₀ s []) (hpos : 0 < s₀.pos) (hstart : start.start = s₀.ahead)
    (hspan : n.span = start.upTo s.last) (hchildren : n.children = []) (g' : Gathered true s s' []) :
    Gathered true s₀ s' [n] := by
  have gall := g.trans g'
  have hreached : s.last.stop ≤ s'.reached := by
    have hle := g.advances.pos_le
    rw [← ParserState.reached_of_pos (by omega)]
    exact g'.advances.reached_le g.sound g'.sound
  have hahead : start.start ≤ s'.reached := hstart ▸ gall.start_le_reached
  have hstop : n.span.start ≤ n.span.stop ∧ n.span.stop ≤ s'.reached := by
    rw [hspan, upTo_start, Span.upTo]
    split
    · exact ⟨Nat.le_refl _, hahead⟩
    · exact ⟨Nat.le_of_not_lt ‹_›, hreached⟩
  refine gall.single (.of_leaf hstop.1 hchildren) (Nat.le_of_eq ?_) hstop.2
  rw [hspan, upTo_start, hstart]

/-- A node with the region of its only child. -/
theorem wrap (g : Gathered m s₀ s [e]) (hspan : n.span = e.span) (hchildren : n.children = [e])
    (hwhole : n.endsEarly = false) (hleft : n.leftOperand? = none) : Gathered m s₀ s [n] := by
  have he : Placed none e := g.laid.placed e List.mem_cons_self
  obtain ⟨hstart, hstop⟩ := g.laid.within e List.mem_cons_self
  have hnests : n.Nests := {
    ordered := hspan ▸ he.ordered
    apart := hchildren ▸ List.pairwise_singleton _ _
    inside := by
      rw [Node.held_of_whole hwhole, hchildren, hspan]
      exact List.forall_mem_singleton.mpr ⟨Nat.le_refl _, Nat.le_refl _⟩
    behind hearly := absurd hearly (by simp [hwhole]) }
  refine g.single (.of_children hnests (by rw [hleft]; exact nofun) ?_) (hspan ▸ hstart) (hspan ▸ hstop)
  rw [hchildren]
  exact List.forall_mem_singleton.mpr he

end

end Gathered

/-! ## Taking tokens -/

section
variable {α β : Type} {P : β → ParserState → Prop}

namespace Gathered

/-- The next token is taken, and is not the end. -/
theorem take {f : Token → Parser β} (g : Gathered m s₀ s xs head) (hkind : s.next.kind ≠ .eof)
    (hf : Gathered true s₀ s.behind xs head → Answers s.behind (f s.next) P) :
    Answers s (advance >>= f) P := by
  intro b s' h
  rw [bind_ok (advance_apply hkind)] at h
  exact hf (g.behind hkind) b s' h

/-- A token that can be next, with what follows in either case. -/
theorem accept {text : String} {yes no : Parser β} (g : Gathered m s₀ s xs head)
    (hyes : s.next.kind ≠ .eof → Gathered true s₀ s.behind xs head → Answers s.behind yes P)
    (hno : Answers s no P) :
    Answers s (Parser.accept text >>= fun b => if b = true then yes else no) P := by
  intro b s' h
  by_cases hnext : s.next.isAny [text] = true
  · rw [bind_ok (accept_apply hnext)] at h
    have hkind := Token.ne_eof_of_isAny hnext
    exact hyes hkind (g.behind hkind) b s' h
  · rw [bind_ok (accept_stay hnext)] at h
    exact hno b s' h

/-- A name over a token that was just taken. -/
theorem identOf (g : Gathered m s₀ s xs head) (hkind : s.next.kind ≠ .eof) :
    Answers s.behind (Parser.identOf s.next) fun i s' =>
      Gathered true s₀ s' (xs ++ [.ident i]) head := by
  intro i s' h
  cases h
  exact (g.leaf hkind rfl rfl).congr rfl rfl

/-- A node over a token that was just taken. -/
theorem buildAt {f : Mark → Node} (g : Gathered m s₀ s xs head) (hkind : s.next.kind ≠ .eof)
    (hf : ∀ m, (f m).parts = (m, [], none, false)) :
    Answers s.behind (Parser.buildAt s.next f) fun n s' => Gathered true s₀ s' (xs ++ [n]) head := by
  intro n s' h
  cases h
  obtain ⟨hmark, hchildren, -⟩ := Node.parts_eq.mp (hf ⟨s.behind.nextId, s.next.span⟩)
  refine (g.leaf hkind hchildren ?_).congr rfl rfl
  rw [Node.span, hmark]

/-- A node over the next token. -/
theorem token {f : Mark → Node} (g : Gathered m s₀ s xs head) (hkind : s.next.kind ≠ .eof)
    (hf : ∀ m, (f m).parts = (m, [], none, false)) :
    Answers s (do Parser.buildAt (← advance) f) fun n s' => Gathered true s₀ s' (xs ++ [n]) head :=
  g.take hkind fun _ => g.buildAt hkind hf

end Gathered

/-- Taking a region moves nothing. -/
theorem Gathered.mark {start : Span} {f : Mark → Parser β} (g : Gathered m s₀ s xs head)
    (hf : ∀ mark s₁, mark.span = start.upTo s₁.last → Gathered m s₀ s₁ xs head →
      Answers s₁ (f mark) P) : Answers s (markFrom start >>= f) P := by
  intro b s' h
  rw [bind_ok (markFrom_apply start s)] at h
  exact hf _ { s with nextId := s.nextId + 1 } rfl (g.congr rfl rfl) b s' h

theorem collects_advance : Collects false advance fun _ => [] := by
  intro s hs t s' h
  by_cases hkind : s.next.kind = .eof
  · rw [advance_eof hkind] at h
    cases h
    exact .begin hs
  · rw [advance_apply hkind] at h
    cases h
    exact ((Gathered.begin hs).behind hkind).forget

theorem collects_expect (text : String) : Collects true (expect text) fun _ => [] := by
  intro s hs
  refine .current (.dite (fun hnext t s' h => ?_) (answers_failAt _ _))
  have hkind := Token.ne_eof_of_isAny hnext
  rw [advance_apply hkind] at h
  cases h
  exact (Gathered.begin hs).behind hkind

theorem collects_skip (text : String) : Collects true (skip text) fun _ => [] :=
  fun _ hs => (Gathered.begin hs).pass (collects_expect text) fun _ _ _ g => answers_pure g

theorem collects_accept (text : String) : Collects false (accept text) fun _ => [] := by
  intro s hs b s' h
  by_cases hnext : s.next.isAny [text] = true
  · rw [accept_apply hnext] at h
    cases h
    exact ((Gathered.begin hs).behind (Token.ne_eof_of_isAny hnext)).forget
  · rw [accept_stay hnext] at h
    cases h
    exact .begin hs

theorem collects_semicolon : Collects false semicolon fun _ => [] :=
  fun _ hs => (Gathered.begin hs).pass (collects_accept ";") fun _ _ _ g => answers_pure g

/-- Taking one `>` takes a token or shortens it. -/
theorem collects_closeAngle : Collects false closeAngle fun _ => [] := by
  intro s hs u s' h
  have hkeeps := keeps_closeAngle s
  rw [h] at hkeeps
  let t := s.next
  replace h : (if t.kind == .op && t.text == ">" then discard advance
    else if t.kind == .op && t.text.toList.head? == some '>' then
      modify fun s => { s with tokens := s.tokens.setIfInBounds s.pos t.behindAngle }
    else failAt t (.expected ">" t.describe) : Parser Unit) s = .ok u s' := h
  split at h
  · rename_i hone
    have hkind := Token.ne_eof_of_kind (Bool.and_eq_true_iff.mp hone).1 nofun
    replace h : (advance >>= fun _ => pure ()) s = .ok u s' := h
    rw [bind_ok (advance_apply hkind)] at h
    cases h
    exact ((Gathered.begin hs).behind hkind).forget
  · split at h <;> cases h
    exact .of_stay hs hkeeps rfl

theorem collects_identifier : Collects true identifier fun i => [.ident i] := by
  intro s hs
  have g := Gathered.begin hs
  refine .current (.dite (fun hname => ?_) (answers_failAt _ _))
  have hkind : s.next.kind ≠ .eof := Token.ne_eof_of_kind (Bool.and_eq_true_iff.mp hname).1 nofun
  exact g.take hkind fun _ => g.identOf hkind

theorem collects_word : Collects true word fun i => [.ident i] := by
  intro s hs
  have g := Gathered.begin hs
  refine .current (.dite (fun hword => ?_) (answers_failAt _ _))
  have hkind : s.next.kind ≠ .eof := Token.ne_eof_of_kind hword nofun
  exact g.take hkind fun _ => g.identOf hkind

/-! ## Rules around rules -/

variable {p : Parser α} {nodes : α → List Node}

theorem Collects.forget (hp : Collects m p nodes) : Collects false p nodes :=
  fun s hs a s' h => (hp s hs a s' h).forget

theorem Collects.map {f : α → β} {nodes' : β → List Node} (hp : Collects m p fun a => nodes' (f a)) :
    Collects m (f <$> p) nodes' :=
  fun s hs => .map (hp s hs)

theorem Collects.some {p : Parser Node} (hp : Collects m p ([·])) :
    Collects m (some <$> p) Option.toList :=
  hp.map

theorem Collects.withNoIn (hp : Collects m p nodes) (noIn : Bool) :
    Collects m (withNoIn noIn p) nodes := by
  intro s hs
  have g : Gathered false s { s with noIn } [] := (Gathered.begin hs).congr rfl rfl
  refine .bind fun saved _ hsaved => .bind fun _ s₁ hset => ?_
  cases hsaved
  cases hset
  refine g.read hp fun a s₂ _ g => .bind fun _ s₃ hback => answers_pure ?_
  cases hback
  rw [Bool.or_false] at g
  exact g.congr rfl rfl

theorem Collects.withIn (hp : Collects m p nodes) : Collects m (withIn p) nodes :=
  hp.withNoIn false

/-- An attempt gathers what its rule does, or goes back. -/
theorem Collects.speculate (hp : Collects m p nodes) (hkeeps : Keeps p) :
    Collects false (speculate p) fun o => o.elim [] nodes := by
  intro s hs o s' h
  have hadvances := hkeeps s
  unfold Parser.speculate at h
  split at h <;> rename_i hrun <;> cases h
  · exact (hp s hs _ _ hrun).forget
  · rw [hrun] at hadvances
    exact .of_stay hs (hadvances.rewind (Nat.le_refl _) s.noIn) rfl

/-! ## Repetition -/

variable {item : Parser Node}

theorem Collects.commaUntil (hi : Collects m item ([·])) (close : String) (n : Nat) :
    Collects false (commaUntil close item n) fun ns => ns := by
  induction n with
  | zero => exact fun _ _ => answers_throw _
  | succ n ih =>
    intro s hs
    refine .sees (.ite (answers_pure (.begin hs)) ?_)
    refine (Gathered.begin hs).read hi fun x s₁ _ g => g.pass (collects_accept ",") fun _ s₂ _ g => ?_
    exact .ite (g.read ih fun _ _ _ g => answers_pure g.forget) (answers_pure g.forget)

theorem Collects.commaList (hi : Collects m item ([·])) (n : Nat) :
    Collects false (commaList item n) fun ns => ns := by
  induction n with
  | zero => exact fun _ _ => answers_throw _
  | succ n ih =>
    intro s hs
    refine (Gathered.begin hs).read hi fun x s₁ _ g => g.pass (collects_accept ",") fun _ s₂ _ g => ?_
    exact .ite (g.read ih fun _ _ _ g => answers_pure g.forget) (answers_pure g.forget)

theorem Collects.itemsUntil (hp : Collects m p nodes) (closes : List String) (n : Nat) :
    Collects false (itemsUntil closes p n) (List.flatMap nodes) := by
  induction n with
  | zero => exact fun _ _ => answers_throw _
  | succ n ih =>
    intro s hs
    refine .seesAny (.ite (answers_pure (.begin hs)) (.current ?_))
    refine .unless (fun _ _ h => nomatch h) ?_
    exact (Gathered.begin hs).read hp fun x s₁ _ g => g.read ih fun _ _ _ g => answers_pure g.forget

/-- Statements until a closing token. -/
theorem Collects.nodesUntil (hi : Collects m item ([·])) (closes : List String) (n : Nat) :
    Collects false (Parser.itemsUntil closes item n) fun ns => ns := by
  intro s hs ns s' h
  have g : Gathered false s s' (ns.flatMap ([·])) := hi.itemsUntil closes n s hs ns s' h
  rwa [List.flatMap_singleton'] at g

theorem collects_skipNested (opening closing : String) (n depth : Nat) :
    Collects false (skipNested opening closing n depth) fun _ => [] := by
  induction n generalizing depth with
  | zero => exact fun _ _ => answers_throw _
  | succ n ih =>
    intro s hs
    refine .current (.unless (fun _ _ h => nomatch h) ?_)
    refine (Gathered.begin hs).pass collects_advance fun _ s₁ _ g => .ite (g.last (ih _)) (.ite ?_ ?_)
    · cases depth with
      | zero => exact answers_pure g
      | succ d => exact g.last (ih d)
    · exact g.last (ih depth)

theorem collects_skipBalanced (bound : Nat) (opening closing : String) :
    Collects true (skipBalanced bound opening closing) fun _ => [] :=
  fun _ hs => (Gathered.begin hs).pass (collects_skip opening) fun _ _ _ g =>
    g.last (collects_skipNested opening closing bound 0)

end

end ScriptBridge.TypeScript

import ScriptLint.Lint.Linter
import ScriptLint.Proofs.Log
import ScriptLint.Proofs.Syntax.Layout
import ScriptLint.Proofs.Text.Position

/-!
# The first error of a tree

A strict parse blames a tree on one of its errors.  The search for it goes by the marks
that a parser leaves on nodes with errors, and does not look into nodes without them.
Where no error lacks its marks (`Node.FaultsMarked`), that leaves out nothing, and the
search ends at the first error in preorder (`Node.firstError?_eq_find?`).

What a search has still to look through is the preorder of the nodes on its stack, one
after the other.  One round takes the top away and puts its suspects there, and this
does not change the first error in what is to be looked through
(`Node.find?_flatMap_suspects`).

In a nested tree no node starts before the nodes that come first in preorder, and
positions keep the order of bytes.  So the place of the syntax error is not after that of
any other error (`parse_blames_first`).
-/

namespace ScriptLint

/-- Lists without a hit can be left out of a search. -/
theorem find?_flatMap_filter {α β : Type} {keep : α → Bool} {f : α → List β} {hit : β → Bool}
    {l : List α} (h : ∀ a ∈ l, keep a = false → (f a).find? hit = none) :
    ((l.filter keep).flatMap f).find? hit = (l.flatMap f).find? hit := by
  induction l with
  | nil => rfl
  | cons a l ih =>
      obtain ⟨ha, hl⟩ := List.forall_mem_cons.1 h
      rw [List.flatMap_cons, List.find?_append, ← ih hl]
      cases hkeep : keep a with
      | true => rw [List.filter_cons_of_pos hkeep, List.flatMap_cons, List.find?_append]
      | false =>
          rw [List.filter_cons_of_neg (by simp [hkeep]), ha hkeep]
          rfl

namespace Node

/-- Each node that is an error or has one below it is marked as faulty. -/
def FaultsMarked (root : Node) : Prop :=
  ∀ n ∈ root.preorder, ∀ e ∈ n.preorder, e.isError = true → n.faulty = true

instance (root : Node) : Decidable root.FaultsMarked :=
  inferInstanceAs (Decidable (∀ n ∈ root.preorder, ∀ e ∈ n.preorder, _ → _))

variable {root n c : Node}

theorem FaultsMarked.of_mem_children (h : n.FaultsMarked) (hc : c ∈ n.children) :
    c.FaultsMarked :=
  fun m hm => h m (preorder_subset_of_mem_children hc hm)

theorem FaultsMarked.faulty (h : root.FaultsMarked) {e : Node} (he : e ∈ root.preorder)
    (herror : e.isError = true) : root.faulty = true :=
  h root root.self_mem_preorder e he herror

/-! ## The search -/

/-- The first error below a node is below one of its suspects. -/
theorem find?_flatMap_suspects (h : n.FaultsMarked) :
    (n.suspects.flatMap preorder).find? isError =
      (n.children.flatMap preorder).find? isError := by
  refine find?_flatMap_filter fun c hc hkeep => List.find?_eq_none.2 fun e he herror => ?_
  have hfaulty := (h.of_mem_children hc).faulty he herror
  rw [hfaulty] at hkeep
  cases hkeep

/-- A search ends at the first error in the preorder of what is on its stack. -/
theorem firstErrorOn?_eq (stack : List Node) (h : ∀ n ∈ stack, n.FaultsMarked) :
    firstErrorOn? stack = (stack.flatMap preorder).find? isError := by
  fun_induction firstErrorOn? stack with
  | case1 => rfl
  | case2 n stack herror =>
      rw [List.flatMap_cons, preorder_eq, List.cons_append, List.find?_cons_of_pos herror]
  | case3 n stack herror ih =>
      obtain ⟨hn, hstack⟩ := List.forall_mem_cons.1 h
      have hsuspects : ∀ c ∈ n.suspects, c.FaultsMarked := fun c hc =>
        hn.of_mem_children (List.mem_of_mem_filter hc)
      rw [ih (List.forall_mem_append.2 ⟨hsuspects, hstack⟩), List.flatMap_append,
        List.find?_append, find?_flatMap_suspects hn, List.flatMap_cons, preorder_eq,
        List.cons_append, List.find?_cons_of_neg herror, List.find?_append]

theorem firstError?_eq_find? (h : root.FaultsMarked) :
    root.firstError? = root.preorder.find? isError := by
  rw [firstError?, firstErrorOn?_eq [root] (by simpa using h), List.flatMap_singleton]

/-! ## Its place -/

/-- The first error does not start after any other. -/
theorem Nested.start_le_of_find? (h : root.Nested) (hfirst : root.preorder.find? isError = some n)
    {e : Node} (he : e ∈ root.preorder) (herror : e.isError = true) : n.start ≤ e.start := by
  obtain ⟨-, before, after, hsplit, hbefore⟩ := List.find?_eq_some_iff_append.1 hfirst
  have hordered : root.preorder.Pairwise fun m m' => m.start ≤ m'.start :=
    List.pairwise_map.2 h.walk_start_le
  rw [hsplit] at he hordered
  rcases List.mem_append.1 he with he | he
  · have hnot := hbefore e he
    rw [herror] at hnot
    cases hnot
  · rcases List.mem_cons.1 he with rfl | he
    · exact Nat.le_refl _
    · exact (List.pairwise_cons.1 (List.pairwise_append.1 hordered).2.1).1 e he

end Node

/-! ## Strict parses -/

theorem result_parse (grammar : Grammar) (filename : String) (dialect : Dialect)
    (source : Source) :
    (parse grammar true filename dialect source).result =
      match (Program.ofSource grammar filename dialect source).parseError? with
      | some e => .error (.syntaxError e)
      | none => .ok (Program.ofSource grammar filename dialect source) := by
  rw [parse]
  cases h : (Program.ofSource grammar filename dialect source).parseError? with
  | some e => exact Activity.bind_result_of_error rfl
  | none => rfl

/-- A program with an error is blamed on the first one, at the position of its first byte. -/
theorem Program.parseError?_of_firstError? {p : Program} {n : Node} (h : p.root.faulty = true)
    (hfirst : p.root.firstError? = some n) :
    p.parseError? = some ⟨p.filename, (p.source.position n.start).line,
      (p.source.position n.start).col, p.faultOf n⟩ := by
  rw [parseError?, if_pos h, hfirst]
  rfl

/-- **A strict parse blames the first error.**  In a tree where no error lacks its marks the
search finds the first error in preorder, and nothing exactly if there is none.  If there is
one, a strict parse fails and tells the line and column where the first error starts.  In a
nested tree that is not after the place of any error, whatever the bytes are. -/
theorem parse_blames_first (grammar : Grammar) (filename : String) (dialect : Dialect)
    (source : Source) (h : (grammar.parse dialect source).FaultsMarked) :
    let root := grammar.parse dialect source
    root.firstError? = root.preorder.find? Node.isError ∧
      (root.firstError? = none ↔ ∀ n ∈ root.preorder, n.isError = false) ∧
      ((∃ n ∈ root.preorder, n.isError = true) →
        ∃ n e, root.firstError? = some n ∧
          (parse grammar true filename dialect source).result = .error (.syntaxError e) ∧
          toLex (e.line, e.col) = (source.position n.start).place ∧
          (root.Nested → ∀ m ∈ root.preorder, m.isError = true →
            toLex (e.line, e.col) ≤ (source.position m.start).place)) := by
  intro root
  have hfind : root.firstError? = root.preorder.find? Node.isError := Node.firstError?_eq_find? h
  refine ⟨hfind, ?_, ?_⟩
  · rw [hfind, List.find?_eq_none]
    simp
  · rintro ⟨m, hm, herror⟩
    obtain ⟨n, hn⟩ := Option.isSome_iff_exists.1 (List.find?_isSome.2 ⟨m, hm, herror⟩)
    have hblamed : (Program.ofSource grammar filename dialect source).parseError? = some _ :=
      Program.parseError?_of_firstError? (h.faulty hm herror) (hfind.trans hn)
    have hresult := result_parse grammar filename dialect source
    rw [hblamed] at hresult
    refine ⟨n, _, hfind.trans hn, hresult, rfl, fun hnested m hm herror => ?_⟩
    exact source.place_mono (hnested.start_le_of_find? hn hm herror)

/-- A call without its closing parenthesis, and behind it a byte that fits nowhere. -/
def unclosedCall : Node :=
  .mk ⟨"program", true, false, true, 0, 5, none⟩ [
    .mk ⟨"call_expression", true, false, true, 0, 3, none⟩ [
      .mk ⟨"identifier", true, false, false, 0, 1, some "function"⟩ [],
      .mk ⟨"arguments", true, false, true, 1, 3, some "arguments"⟩ [
        .mk ⟨"(", false, false, false, 1, 2, none⟩ [],
        .mk ⟨")", false, true, true, 3, 3, none⟩ []]],
    .mk ⟨"ERROR", true, false, true, 4, 5, none⟩ []]

/-- The parenthesis is missed first.  Its column counts the byte before it, which begins a
character and does not finish it. -/
theorem parse_unclosedCall :
    let source : Source := ⟨[0x66, 0x28, 0xC3, 0x0A, 0xFF]⟩
    unclosedCall.FaultsMarked ∧ unclosedCall.Nested ∧
      unclosedCall.firstError?.map Node.key = some ⟨3, 3, ")"⟩ ∧
      ∃ e, (parse ⟨fun _ _ => unclosedCall⟩ true "a.js" .javascript source).result =
          .error (.syntaxError e) ∧
        toLex (e.line, e.col) = toLex (1, 3) ∧
        ∀ m ∈ unclosedCall.preorder, m.isError = true →
          toLex (1, 3) ≤ (source.position m.start).place := by
  intro source
  have hmarked : unclosedCall.FaultsMarked := by decide
  have hnested : unclosedCall.Nested := by decide
  have herror : ∃ n ∈ unclosedCall.preorder, n.isError = true := by decide
  obtain ⟨hfind, -, hblames⟩ :=
    parse_blames_first ⟨fun _ _ => unclosedCall⟩ "a.js" .javascript source hmarked
  obtain ⟨n, e, hn, hresult, hplace, hle⟩ := hblames herror
  have hkey : unclosedCall.firstError?.map Node.key = some ⟨3, 3, ")"⟩ := by
    rw [hfind]
    decide
  have hstart : n.start = 3 := by
    rw [hn, Option.map_some, Option.some.injEq] at hkey
    exact congrArg NodeKey.start hkey
  rw [hstart] at hplace
  have hthree : toLex (e.line, e.col) = toLex (1, 3) := hplace.trans (by decide)
  exact ⟨hmarked, hnested, hkey, e, hresult, hthree, hthree ▸ hle hnested⟩

end ScriptLint
